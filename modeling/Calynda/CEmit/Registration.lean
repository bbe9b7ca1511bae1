import Mathlib.Data.List.Nodup
import Mathlib.Data.List.Perm.Subperm
import Calynda.CEmit.Occurrences

/-!
# The registration of lambdas

The pre-scan and the emitter walk the same tree. The pre-scan enters the bodies of lambdas
and skips manual blocks; the emitter enters manual blocks and leaves a body to the function
of its lambda. Every lambda that the emitter meets is registered exactly when no manual
block holds a lambda.
-/

namespace Calynda

open List

/-- A closure in the text: the lambda and the id it was emitted with. -/
structure CClosure where
  lambda : Addr
  id : Option Nat
  deriving DecidableEq, Repr

def CExpr.closure? : CExpr → Option CClosure
  | .closureNew id lambda => some ⟨lambda, some id⟩
  | .unregistered lambda => some ⟨lambda, none⟩
  | _ => none

/-- The lambdas that `c_emit_expr` reached while it wrote the file. -/
def CUnit.closures (u : CUnit) : List CClosure := u.atoms.filterMap CExpr.closure?

/-- The lambda table after the pre-scan of a program: ids are indices, every closure in the
emitted file has exactly one entry and carries its id, and function number `i` is the one
emitted for entry `i`. -/
structure LambdasRegistered (sourceFile : Option String) (program : HirProgram) : Prop where
  ids : ∀ (i : Nat) (entry : CEmitLambdaEntry),
    (cEmitScanned sourceFile program).lambdas[i]? = some entry → entry.id = i
  functions : ∀ (i : Nat) (entry : CEmitLambdaEntry),
    (cEmitScanned sourceFile program).lambdas[i]? = some entry →
      (cEmitUnit program sourceFile).functions[i]? =
        some (cEmitLambdaFunction (cEmitScanned sourceFile program) entry)
  closures : ∀ closure ∈ (cEmitUnit program sourceFile).closures,
    ∃ entry ∈ (cEmitScanned sourceFile program).lambdas,
      entry.lambda.addr = closure.lambda ∧ closure.id = some entry.id ∧
      ∀ other ∈ (cEmitScanned sourceFile program).lambdas,
        other.lambda.addr = closure.lambda → other = entry

/-- No manual block of the body holds a lambda: a walk that enters manual blocks meets no
other lambda than one that skips them. -/
def HirBlock.ManualLambdaFree (b : HirBlock) : Prop :=
  b.lambdas true true = b.lambdas true false

/-- The body of the entry point that is emitted. -/
def HirProgram.entryBody (program : HirProgram) : Option HirBlock :=
  match program.firstBoot, program.firstStart with
  | some boot, _ => some boot.body
  | none, some start => some start.body
  | none, none => none

/-- No manual block of the emitted entry point or of a lambda holds a lambda. -/
structure HirProgram.ManualLambdaFree (program : HirProgram) : Prop where
  entry : ∀ body, program.entryBody = some body → body.ManualLambdaFree
  lambdas : ∀ l ∈ program.lambdas true false, l.body.ManualLambdaFree

/-! ## The pre-scan -/

/-- The scan from `ctx` to `scanned` has appended entries for `lambdas`, with the next ids. -/
structure Scans (lambdas : List HirLambdaExpression) (ctx scanned : CEmitContext) : Prop where
  lambdas : scanned.lambdas.map CEmitLambdaEntry.lambda =
    ctx.lambdas.map CEmitLambdaEntry.lambda ++ lambdas
  ids : ctx.lambdas.map CEmitLambdaEntry.id = List.range ctx.lambdaCounter →
    scanned.lambdas.map CEmitLambdaEntry.id = List.range scanned.lambdaCounter
  kept : ctx.lambdas ⊆ scanned.lambdas

namespace Scans

theorem refl (ctx : CEmitContext) : Scans [] ctx ctx :=
  ⟨(append_nil _).symm, id, List.Subset.refl _⟩

theorem trans {ls ms : List HirLambdaExpression} {ctx middle scanned : CEmitContext}
    (h₁ : Scans ls ctx middle) (h₂ : Scans ms middle scanned) :
    Scans (ls ++ ms) ctx scanned where
  lambdas := by rw [h₂.lambdas, h₁.lambdas, append_assoc]
  ids := h₂.ids ∘ h₁.ids
  kept := List.Subset.trans h₁.kept h₂.kept

theorem register (l : HirLambdaExpression) (ctx : CEmitContext) :
    Scans [l] ctx (prescanRegister ctx l) where
  lambdas := by simp [prescanRegister]
  ids h := by simp [prescanRegister, h, range_succ]
  kept := subset_append_left _ _

/-- A lambda: its entry, then its body without an owner. -/
theorem lambda {l : HirLambdaExpression} {ms : List HirLambdaExpression}
    {ctx scanned : CEmitContext}
    (h : Scans ms { prescanRegister ctx l with prescanOwnerBinding := none } scanned) :
    Scans (l :: ms) ctx
      { scanned with prescanOwnerBinding := (prescanRegister ctx l).prescanOwnerBinding } where
  lambdas := by
    rw [h.lambdas, (register l ctx).lambdas, append_assoc]
    rfl
  ids hc := h.ids ((register l ctx).ids hc)
  kept := List.Subset.trans (register l ctx).kept h.kept

end Scans

mutual
theorem cEmitPrescanExpr_scans :
    ∀ (e : HirExpression) (ctx : CEmitContext),
      Scans (e.lambdas true false) ctx (cEmitPrescanExpr e ctx)
  | .literal _ _, ctx => .refl ctx
  | .template _ parts, ctx => cEmitPrescanTemplateParts_scans parts ctx
  | .symbol _ _, ctx => .refl ctx
  | .lambda _ addr parameters body, ctx =>
    Scans.lambda (cEmitPrescanBlock_scans body
      { prescanRegister ctx ⟨addr, parameters, body⟩ with prescanOwnerBinding := none })
  | .assignment _ _ target value, ctx =>
    (cEmitPrescanExpr_scans target ctx).trans (cEmitPrescanExpr_scans value _)
  | .ternary _ condition thenBranch elseBranch, ctx =>
    (cEmitPrescanExpr_scans condition ctx).trans
      ((cEmitPrescanExpr_scans thenBranch _).trans (cEmitPrescanExpr_scans elseBranch _))
  | .binary _ _ left right, ctx =>
    (cEmitPrescanExpr_scans left ctx).trans (cEmitPrescanExpr_scans right _)
  | .unary _ _ operand, ctx => cEmitPrescanExpr_scans operand ctx
  | .call _ callee arguments, ctx =>
    (cEmitPrescanExpr_scans callee ctx).trans (cEmitPrescanExprs_scans arguments _)
  | .index _ target i, ctx =>
    (cEmitPrescanExpr_scans target ctx).trans (cEmitPrescanExpr_scans i _)
  | .member _ target _, ctx => cEmitPrescanExpr_scans target ctx
  | .cast _ _ e, ctx => cEmitPrescanExpr_scans e ctx
  | .arrayLiteral _ elements, ctx => cEmitPrescanExprs_scans elements ctx
  | .discard _, ctx => .refl ctx
  | .postIncrement _ operand, ctx => cEmitPrescanExpr_scans operand ctx
  | .postDecrement _ operand, ctx => cEmitPrescanExpr_scans operand ctx

theorem cEmitPrescanExprs_scans :
    ∀ (es : List HirExpression) (ctx : CEmitContext),
      Scans (expressionsLambdas true false es) ctx (cEmitPrescanExprs es ctx)
  | [], ctx => .refl ctx
  | e :: es, ctx => (cEmitPrescanExpr_scans e ctx).trans (cEmitPrescanExprs_scans es _)

theorem cEmitPrescanTemplateParts_scans :
    ∀ (parts : List HirTemplatePart) (ctx : CEmitContext),
      Scans (templateLambdas true false parts) ctx (cEmitPrescanTemplateParts parts ctx)
  | [], ctx => .refl ctx
  | .text _ :: parts, ctx => cEmitPrescanTemplateParts_scans parts ctx
  | .expression e :: parts, ctx =>
    (cEmitPrescanExpr_scans e ctx).trans (cEmitPrescanTemplateParts_scans parts _)

theorem cEmitPrescanBlock_scans :
    ∀ (b : HirBlock) (ctx : CEmitContext),
      Scans (b.lambdas true false) ctx (cEmitPrescanBlock b ctx)
  | .mk statements, ctx => cEmitPrescanStatements_scans statements ctx

theorem cEmitPrescanStatements_scans :
    ∀ (ss : List HirStatement) (ctx : CEmitContext),
      Scans (statementsLambdas true false ss) ctx (cEmitPrescanStatements ss ctx)
  | [], ctx => .refl ctx
  | s :: ss, ctx =>
    (cEmitPrescanStatement_scans s ctx).trans (cEmitPrescanStatements_scans ss _)

theorem cEmitPrescanStatement_scans :
    ∀ (s : HirStatement) (ctx : CEmitContext),
      Scans (s.lambdas true false) ctx (cEmitPrescanStatement s ctx)
  | .localBinding _ _ initializer, ctx => cEmitPrescanExpr_scans initializer ctx
  | .returnValue _ e, ctx => cEmitPrescanExpr_scans e ctx
  | .returnVoid _, ctx => .refl ctx
  | .exit _, ctx => .refl ctx
  | .throw _ e, ctx => cEmitPrescanExpr_scans e ctx
  | .expression _ e, ctx => cEmitPrescanExpr_scans e ctx
  | .manual _ _ _, ctx => .refl ctx
end

theorem cEmitPrescanDecl_scans (decl : HirTopLevelDecl) (ctx : CEmitContext) :
    Scans (decl.lambdas true false) ctx (cEmitPrescanDecl ctx decl) := by
  cases decl with
  | binding decl =>
    have h := cEmitPrescanExpr_scans decl.initializer
      { ctx with prescanOwnerBinding := some decl.name }
    exact ⟨h.lambdas, h.ids, h.kept⟩
  | start decl => exact cEmitPrescanBlock_scans decl.body ctx
  | boot decl => exact cEmitPrescanBlock_scans decl.body ctx
  | union decl => exact .refl ctx
  | externC decl => exact .refl ctx

theorem cEmitPrescanDecls_scans (decls : List HirTopLevelDecl) (ctx : CEmitContext) :
    Scans (decls.flatMap (HirTopLevelDecl.lambdas true false)) ctx
      (decls.foldl cEmitPrescanDecl ctx) := by
  induction decls generalizing ctx with
  | nil => exact .refl ctx
  | cons decl decls ih => exact (cEmitPrescanDecl_scans decl ctx).trans (ih _)

/-- The registered lambdas are those that a walk outside manual blocks meets, in its
order. -/
theorem cEmitScanned_lambdas (sourceFile : Option String) (program : HirProgram) :
    (cEmitScanned sourceFile program).lambdas.map CEmitLambdaEntry.lambda =
      program.lambdas true false :=
  (cEmitPrescanDecls_scans program.topLevelDecls { sourceFile }).lambdas

/-- The id of an entry is its index. -/
theorem cEmitScanned_ids (sourceFile : Option String) (program : HirProgram) (i : Nat)
    (entry : CEmitLambdaEntry)
    (h : (cEmitScanned sourceFile program).lambdas[i]? = some entry) : entry.id = i := by
  have hIds := (cEmitPrescanDecls_scans program.topLevelDecls { sourceFile }).ids rfl
  have hi : ((cEmitScanned sourceFile program).lambdas.map CEmitLambdaEntry.id)[i]? =
      some entry.id := by
    rw [List.getElem?_map, h, Option.map_some]
  rw [show (cEmitScanned sourceFile program).lambdas.map CEmitLambdaEntry.id = _ from hIds,
    List.getElem?_eq_some_iff] at hi
  obtain ⟨_, hEq⟩ := hi
  rw [List.getElem_range] at hEq
  exact hEq.symm

theorem entry_eq_of_id {sourceFile : Option String} {program : HirProgram}
    {entry other : CEmitLambdaEntry} (h : entry ∈ (cEmitScanned sourceFile program).lambdas)
    (hOther : other ∈ (cEmitScanned sourceFile program).lambdas) (hId : other.id = entry.id) :
    other = entry := by
  obtain ⟨i, hi⟩ := mem_iff_getElem?.1 h
  obtain ⟨j, hj⟩ := mem_iff_getElem?.1 hOther
  rw [cEmitScanned_ids sourceFile program i entry hi,
    cEmitScanned_ids sourceFile program j other hj] at hId
  rw [hId, hi] at hj
  exact (Option.some.inj hj).symm

/-- The function of an id is the one emitted for the entry. -/
theorem function?_cEmitUnit {sourceFile : Option String} {program : HirProgram}
    {entry : CEmitLambdaEntry} (h : entry ∈ (cEmitScanned sourceFile program).lambdas) :
    (cEmitUnit program sourceFile).functions.find? (fun f => f.id == entry.id) =
      some (cEmitLambdaFunction (cEmitScanned sourceFile program) entry) := by
  show ((cEmitScanned sourceFile program).lambdas.map _).find? _ = _
  rw [find?_map]
  cases hFind : (cEmitScanned sourceFile program).lambdas.find?
      ((fun f : CFunction => f.id == entry.id) ∘
        cEmitLambdaFunction (cEmitScanned sourceFile program)) with
  | none =>
    have hNot := find?_eq_none.1 hFind entry h
    simp [cEmitLambdaFunction] at hNot
  | some other =>
    have hId : other.id = entry.id := by
      simpa [cEmitLambdaFunction] using find?_some hFind
    rw [entry_eq_of_id h (mem_of_find?_eq_some hFind) hId]
    rfl

/-- The lambda of a binding is registered with the binding as its owner. -/
theorem exists_entry_of_binding (sourceFile : Option String) {program : HirProgram}
    {decl : HirBindingDecl} (hDecl : decl ∈ program.bindings) {info : HirMeta} {addr : Addr}
    {parameters : List HirParameter} {body : HirBlock}
    (hLambda : decl.initializer = .lambda info addr parameters body) :
    ∃ entry ∈ (cEmitScanned sourceFile program).lambdas,
      entry.lambda = ⟨addr, parameters, body⟩ ∧ entry.ownerBindingName = some decl.name := by
  obtain ⟨d, hd, hBinding⟩ := mem_filterMap.1 hDecl
  obtain ⟨before, after, hSplit⟩ := append_of_mem hd
  cases d with
  | binding d =>
    obtain rfl : d = decl := Option.some.inj hBinding
    show ∃ entry ∈ (program.topLevelDecls.foldl cEmitPrescanDecl { sourceFile }).lambdas, _
    rw [hSplit, foldl_append, foldl_cons]
    let entry : CEmitLambdaEntry :=
      { lambda := ⟨addr, parameters, body⟩
        id := (before.foldl cEmitPrescanDecl { sourceFile }).lambdaCounter
        ownerBindingName := some d.name }
    refine ⟨entry, (cEmitPrescanDecls_scans after _).kept ?_, rfl, rfl⟩
    show entry ∈ (cEmitPrescanExpr d.initializer _).lambdas
    rw [hLambda]
    exact (cEmitPrescanBlock_scans body _).kept
      (mem_append_right _ (mem_singleton_self entry))
  | _ => exact nomatch hBinding

theorem mem_scanned_iff (sourceFile : Option String) {program : HirProgram}
    {l : HirLambdaExpression} :
    l ∈ program.lambdas true false ↔
      ∃ entry ∈ (cEmitScanned sourceFile program).lambdas, entry.lambda = l := by
  rw [← cEmitScanned_lambdas sourceFile program, mem_map]

/-! ## The closures of emitted text -/

section
variable (ctx : CEmitContext)

/-- What a lambda is emitted as. -/
def cEmitClosure (l : HirLambdaExpression) : CClosure := ⟨l.addr, cEmitLambdaId ctx l.addr⟩

/-- `x` is the closure of a lambda that a walk over `lambdas` meets. -/
def ClosureOf (lambdas : List HirLambdaExpression) (closure : CClosure) : Prop :=
  ∃ l ∈ lambdas, closure = cEmitClosure ctx l

theorem closure?_cEmitSymbol (ref : HirSymbolRef) : (cEmitSymbol ref).closure? = none := by
  unfold cEmitSymbol
  split <;> rfl

theorem closure?_cEmitLambda (addr : Addr) :
    (cEmitLambda ctx addr).closure? = some ⟨addr, cEmitLambdaId ctx addr⟩ := by
  unfold cEmitLambda
  split
  · next h => rw [h]; rfl
  · next h => rw [h]; rfl

/-- The closures of emitted text are those of the lambdas that a walk meets which enters
manual blocks and no bodies. -/
theorem closures_iff (closure : CClosure) :
    (∀ e : HirExpression, (∃ x ∈ (cEmitExpr ctx e).atoms, x.closure? = some closure) ↔
      ClosureOf ctx (e.lambdas false true) closure) ∧
    (∀ b : HirBlock, (∃ x ∈ stmtsAtoms (cEmitBlock ctx b), x.closure? = some closure) ↔
      ClosureOf ctx (b.lambdas false true) closure) ∧
    ∀ s : HirStatement, (∃ x ∈ stmtsAtoms (cEmitStmt ctx s), x.closure? = some closure) ↔
      ClosureOf ctx (s.lambdas false true) closure := by
  have closed : PartsClosed
      (fun e => (∃ x ∈ (cEmitExpr ctx e).atoms, x.closure? = some closure) ↔
        ClosureOf ctx (e.lambdas false true) closure)
      (fun b => (∃ x ∈ stmtsAtoms (cEmitBlock ctx b), x.closure? = some closure) ↔
        ClosureOf ctx (b.lambdas false true) closure)
      (fun s => (∃ x ∈ stmtsAtoms (cEmitStmt ctx s), x.closure? = some closure) ↔
        ClosureOf ctx (s.lambdas false true) closure) := by
    refine ⟨?_, ?_, ?_⟩
    · intro e hOperands _
      have hSelf : (∃ x, e.atom? ctx = some x ∧ x.closure? = some closure) ↔
          ∃ l, e.lambda? = some l ∧ closure = cEmitClosure ctx l := by
        cases e <;>
          simp [HirExpression.atom?, HirExpression.lambda?, closure?_cEmitSymbol,
            closure?_cEmitLambda, cEmitClosure, eq_comm]
      constructor
      · rintro ⟨x, hx, hc⟩
        rcases (mem_atoms_cEmitExpr ctx e).1 hx with h | ⟨o, ho, hxo⟩
        · obtain ⟨l, hl, hcl⟩ := hSelf.1 ⟨x, h, hc⟩
          exact ⟨l, HirExpression.mem_lambdas.2 (.inl hl), hcl⟩
        · obtain ⟨l, hl, hcl⟩ := (hOperands o ho).1 ⟨x, hxo, hc⟩
          exact ⟨l, HirExpression.mem_lambdas.2 (.inr (.inr ⟨o, ho, hl⟩)), hcl⟩
      · rintro ⟨l, hl, hcl⟩
        rcases HirExpression.mem_lambdas.1 hl with h | ⟨hFalse, _⟩ | ⟨o, ho, hlo⟩
        · obtain ⟨x, hx, hc⟩ := hSelf.2 ⟨l, h, hcl⟩
          exact ⟨x, (mem_atoms_cEmitExpr ctx e).2 (.inl hx), hc⟩
        · cases hFalse
        · obtain ⟨x, hx, hc⟩ := (hOperands o ho).2 ⟨l, hlo, hcl⟩
          exact ⟨x, (mem_atoms_cEmitExpr ctx e).2 (.inr ⟨o, ho, hx⟩), hc⟩
    · intro b hStatements
      constructor
      · rintro ⟨x, hx, hc⟩
        obtain ⟨s, hs, hxs⟩ := (mem_stmtsAtoms_cEmitBlock ctx b).1 hx
        obtain ⟨l, hl, hcl⟩ := (hStatements s hs).1 ⟨x, hxs, hc⟩
        exact ⟨l, HirBlock.mem_lambdas.2 ⟨s, hs, hl⟩, hcl⟩
      · rintro ⟨l, hl, hcl⟩
        obtain ⟨s, hs, hls⟩ := HirBlock.mem_lambdas.1 hl
        obtain ⟨x, hx, hc⟩ := (hStatements s hs).2 ⟨l, hls, hcl⟩
        exact ⟨x, (mem_stmtsAtoms_cEmitBlock ctx b).2 ⟨s, hs, hx⟩, hc⟩
    · intro s hExpr hManual
      constructor
      · rintro ⟨x, hx, hc⟩
        rcases (mem_stmtsAtoms_cEmitStmt ctx s).1 hx with ⟨e, he, hxe⟩ | ⟨b, hb, hxb⟩
        · obtain ⟨l, hl, hcl⟩ := (hExpr e he).1 ⟨x, hxe, hc⟩
          exact ⟨l, HirStatement.mem_lambdas.2 (.inl ⟨e, he, hl⟩), hcl⟩
        · obtain ⟨l, hl, hcl⟩ := (hManual b hb).1 ⟨x, hxb, hc⟩
          exact ⟨l, HirStatement.mem_lambdas.2 (.inr ⟨rfl, b, hb, hl⟩), hcl⟩
      · rintro ⟨l, hl, hcl⟩
        rcases HirStatement.mem_lambdas.1 hl with ⟨e, he, hle⟩ | ⟨_, b, hb, hlb⟩
        · obtain ⟨x, hx, hc⟩ := (hExpr e he).2 ⟨l, hle, hcl⟩
          exact ⟨x, (mem_stmtsAtoms_cEmitStmt ctx s).2 (.inl ⟨e, he, hx⟩), hc⟩
        · obtain ⟨x, hx, hc⟩ := (hManual b hb).2 ⟨l, hlb, hcl⟩
          exact ⟨x, (mem_stmtsAtoms_cEmitStmt ctx s).2 (.inr ⟨b, hb, hx⟩), hc⟩
  exact ⟨closed.ofExpression, closed.ofBlock, closed.ofStatement⟩

/-- A tail-recursive call is the last statement. -/
theorem detectTailRecursiveCall_eq_some {body : HirBlock} {owner : Option String}
    {arguments : List HirExpression}
    (h : detectTailRecursiveCall body owner = some arguments) :
    ∃ span info calleeInfo ref, owner = some ref.name ∧
      body.statements = body.statements.dropLast ++
        [.expression span (.call info (.symbol calleeInfo ref) arguments)] := by
  unfold detectTailRecursiveCall at h
  split at h
  · next ownerName span info calleeInfo ref args hLast =>
      split at h
      · next hName =>
          cases h
          refine ⟨span, info, calleeInfo, ref, by rw [hName], ?_⟩
          rw [dropLast_append_getLast? _ hLast]
      · exact nomatch h
  · exact nomatch h

/-- The closures in the function of a lambda are closures of its body. -/
theorem closureOf_cEmitLambdaBody {entry : CEmitLambdaEntry} {closure : CClosure}
    (h : ∃ x ∈ (cEmitLambdaBody ctx entry).atoms, x.closure? = some closure) :
    ClosureOf ctx (entry.lambda.body.lambdas false true) closure := by
  obtain ⟨hExpr, hBlock, hStmt⟩ := closures_iff ctx closure
  obtain ⟨x, hx, hc⟩ := h
  unfold cEmitLambdaBody at hx
  split at hx
  · next arguments hTail =>
      obtain ⟨span, info, calleeInfo, ref, -, hBody⟩ := detectTailRecursiveCall_eq_some hTail
      rcases mem_append.1 hx with hx | hx
      · obtain ⟨s, hs, hxs⟩ := (mem_stmtsAtoms_cEmitStmts ctx _).1 hx
        obtain ⟨l, hl, hcl⟩ := (hStmt s).1 ⟨x, hxs, hc⟩
        exact ⟨l, HirBlock.mem_lambdas.2 ⟨s, (dropLast_sublist _).subset hs, hl⟩, hcl⟩
      · obtain ⟨a, ha, hxa⟩ := mem_flatMap.1 hx
        rw [cEmitReassignments, ← map_uncurry_zip_eq_zipWith, mem_map] at ha
        obtain ⟨⟨p, e⟩, hpe, rfl⟩ := ha
        obtain ⟨l, hl, hcl⟩ := (hExpr e).1 ⟨x, hxa, hc⟩
        refine ⟨l, HirBlock.mem_lambdas.2 ⟨_, hBody ▸ mem_append_right _ (.head _), ?_⟩,
          hcl⟩
        refine HirStatement.mem_lambdas.2 (.inl ⟨_, rfl, ?_⟩)
        exact HirExpression.mem_lambdas.2 (.inr (.inr ⟨e, .tail _ (of_mem_zip hpe).2, hl⟩))
  · exact (hBlock _).1 ⟨x, hx, hc⟩

/-- A lambda of a body is in the function of the body, or it lies outside manual blocks:
the loop of a tail call drops the arguments that no parameter takes. -/
theorem closure_cEmitLambdaBody {entry : CEmitLambdaEntry} {l : HirLambdaExpression}
    (hl : l ∈ entry.lambda.body.lambdas false true) :
    (∃ x ∈ (cEmitLambdaBody ctx entry).atoms, x.closure? = some (cEmitClosure ctx l)) ∨
      l ∈ entry.lambda.body.lambdas false false := by
  obtain ⟨-, hBlock, hStmt⟩ := closures_iff ctx (cEmitClosure ctx l)
  unfold cEmitLambdaBody
  split
  · next arguments hTail =>
      obtain ⟨span, info, calleeInfo, ref, -, hBody⟩ := detectTailRecursiveCall_eq_some hTail
      obtain ⟨s, hs, hls⟩ := HirBlock.mem_lambdas.1 hl
      rw [hBody, mem_append, mem_singleton] at hs
      rcases hs with hs | rfl
      · obtain ⟨x, hx, hc⟩ := (hStmt s).2 ⟨l, hls, rfl⟩
        exact .inl ⟨x, mem_append_left _
          ((mem_stmtsAtoms_cEmitStmts ctx _).2 ⟨s, hs, hx⟩), hc⟩
      · refine .inr (HirBlock.mem_lambdas.2
          ⟨_, hBody ▸ mem_append_right _ (.head _), ?_⟩)
        rw [HirStatement.lambdas, HirExpression.lambdas_outside_bodies] at hls
        exact hls
  · exact .inl ((hBlock _).2 ⟨l, hl, rfl⟩)

end

/-! ## Lambdas that lie at different addresses -/

theorem mem_flatMap_unique {α β γ : Type} {f : α → List β} {g : β → γ} {l : List α}
    (h : ((l.flatMap f).map g).Nodup) {a b : α} {x : β} (ha : a ∈ l) (hb : b ∈ l)
    (hxa : x ∈ f a) (hxb : x ∈ f b) : a = b := by
  induction l with
  | nil => exact nomatch ha
  | cons c l ih =>
    rw [flatMap_cons, map_append, nodup_append] at h
    obtain ⟨-, hl, hDisjoint⟩ := h
    have apart : ∀ d ∈ l, x ∈ f c → x ∉ f d := fun d hd hxc hxd =>
      hDisjoint _ (mem_map_of_mem hxc) _
        (mem_map_of_mem (mem_flatMap.2 ⟨d, hd, hxd⟩)) rfl
    rcases mem_cons.1 ha with rfl | ha' <;> rcases mem_cons.1 hb with rfl | hb'
    · rfl
    · exact absurd hxb (apart b hb' hxa)
    · exact absurd hxa (apart a ha' hxb)
    · exact ih hl ha' hb'

theorem nodup_of_flatMap {α β γ : Type} {f : α → List β} {g : β → γ} {l : List α}
    (h : ((l.flatMap f).map g).Nodup) {a : α} (ha : a ∈ l) : ((f a).map g).Nodup :=
  h.sublist (List.Sublist.map _ (sublist_flatMap_of_mem ha))

/-- A lambda that lies in a manual block of a body outside manual blocks is not met by a
walk outside manual blocks elsewhere. -/
theorem not_mem_lambdas_of_body {l m : HirLambdaExpression}
    (hm : m ∈ l.body.lambdas true true) (hNot : m ∉ l.body.lambdas true false) :
    (∀ e : HirExpression, ((e.lambdas true true).map HirLambdaExpression.addr).Nodup →
      l ∈ e.lambdas true false → m ∉ e.lambdas true false) ∧
    ∀ b : HirBlock, ((b.lambdas true true).map HirLambdaExpression.addr).Nodup →
      l ∈ b.lambdas true false → m ∉ b.lambdas true false := by
  obtain ⟨enter, enterBlock, enterStatement⟩ := lambdas_sublist true
  obtain ⟨bodyExpr, bodyBlock, bodyStatement⟩ := body_lambdas_sublist (l := l) (q := true)
  have closed : PartsClosed
      (fun e => ((e.lambdas true true).map HirLambdaExpression.addr).Nodup →
        l ∈ e.lambdas true false → m ∉ e.lambdas true false)
      (fun b => ((b.lambdas true true).map HirLambdaExpression.addr).Nodup →
        l ∈ b.lambdas true false → m ∉ b.lambdas true false)
      (fun s => ((s.lambdas true true).map HirLambdaExpression.addr).Nodup →
        l ∈ s.lambdas true false → m ∉ s.lambdas true false) := by
    refine ⟨?_, ?_, ?_⟩
    · intro e hOperands hBody hNodup hl hme
      cases hSelf : e.lambda? with
      | some own =>
        have hOwn : own ∉ own.body.lambdas true true := by
          rw [HirExpression.lambdas_of_lambda hSelf] at hNodup
          intro h
          exact (nodup_cons.1 hNodup).1 (mem_map_of_mem h)
        have hBodyNodup : ((own.body.lambdas true true).map HirLambdaExpression.addr).Nodup := by
          rw [HirExpression.lambdas_of_lambda hSelf] at hNodup
          exact (nodup_cons.1 hNodup).2
        have ih := hBody own.body (by rw [HirExpression.lambdaBody?_eq, hSelf, Option.map_some])
        rw [HirExpression.lambdas_of_lambda hSelf] at hl hme
        rcases mem_cons.1 hl with rfl | hl <;> rcases mem_cons.1 hme with rfl | hme
        · exact hOwn hm
        · exact hNot hme
        · exact hOwn ((bodyBlock m.body ((enterBlock m.body).subset hl)).subset hm)
        · exact ih hBodyNodup hl hme
      | none =>
        rw [HirExpression.lambdas_of_not_lambda hSelf] at hNodup hl hme
        obtain ⟨o, ho, hlo⟩ := mem_flatMap.1 hl
        obtain ⟨o', ho', hmo⟩ := mem_flatMap.1 hme
        have hEq : o = o' := mem_flatMap_unique hNodup ho ho'
          ((bodyExpr o ((enter o).subset hlo)).subset hm) ((enter o').subset hmo)
        subst hEq
        exact hOperands o ho (nodup_of_flatMap hNodup ho) hlo hmo
    · intro b hStatements hNodup hl hmb
      rw [HirBlock.lambdas_eq] at hNodup hl hmb
      obtain ⟨s, hs, hls⟩ := mem_flatMap.1 hl
      obtain ⟨s', hs', hms⟩ := mem_flatMap.1 hmb
      have hEq : s = s' := mem_flatMap_unique hNodup hs hs'
        ((bodyStatement s ((enterStatement s).subset hls)).subset hm)
        ((enterStatement s').subset hms)
      subst hEq
      exact hStatements s hs (nodup_of_flatMap hNodup hs) hls hms
    · intro s hExpr _ hNodup hl hms
      rw [HirStatement.mem_lambdas] at hl hms
      obtain ⟨e, he, hle⟩ := hl.resolve_right (fun h => nomatch h.1)
      obtain ⟨e', he', hme⟩ := hms.resolve_right (fun h => nomatch h.1)
      rw [he] at he'
      cases he'
      refine hExpr e he (hNodup.sublist (List.Sublist.map _ ?_)) hle hme
      rw [HirStatement.lambdas_eq, he]
      exact sublist_append_left _ _
  exact ⟨closed.ofExpression, closed.ofBlock⟩

/-! ## The lambdas of a program -/

namespace HirTopLevelDecl

theorem lambdas_sublist (decl : HirTopLevelDecl) :
    (decl.lambdas true false).Sublist (decl.lambdas true true) := by
  obtain ⟨hExpr, hBlock, -⟩ := Calynda.lambdas_sublist true
  cases decl with
  | binding decl => exact hExpr decl.initializer
  | start decl => exact hBlock decl.body
  | boot decl => exact hBlock decl.body
  | union decl => exact .refl _
  | externC decl => exact .refl _

theorem body_lambdas_sublist {q : Bool} {l : HirLambdaExpression} {decl : HirTopLevelDecl}
    (hl : l ∈ decl.lambdas true q) :
    (l.body.lambdas true q).Sublist (decl.lambdas true q) := by
  obtain ⟨hExpr, hBlock, -⟩ := Calynda.body_lambdas_sublist (l := l) (q := q)
  cases decl with
  | binding decl => exact hExpr decl.initializer hl
  | start decl => exact hBlock decl.body hl
  | boot decl => exact hBlock decl.body hl
  | union decl => exact nomatch hl
  | externC decl => exact nomatch hl

theorem not_mem_lambdas_of_body {l m : HirLambdaExpression} {decl : HirTopLevelDecl}
    (hNodup : ((decl.lambdas true true).map HirLambdaExpression.addr).Nodup)
    (hl : l ∈ decl.lambdas true false) (hm : m ∈ l.body.lambdas true true)
    (hNot : m ∉ l.body.lambdas true false) : m ∉ decl.lambdas true false := by
  obtain ⟨hExpr, hBlock⟩ := Calynda.not_mem_lambdas_of_body hm hNot
  cases decl with
  | binding decl => exact hExpr decl.initializer hNodup hl
  | start decl => exact hBlock decl.body hNodup hl
  | boot decl => exact hBlock decl.body hNodup hl
  | union decl => exact nomatch hl
  | externC decl => exact nomatch hl

end HirTopLevelDecl

namespace HirProgram

variable {program : HirProgram}

theorem lambdas_sublist (program : HirProgram) :
    (program.lambdas true false).Sublist (program.lambdas true true) :=
  List.Sublist.flatMap_right _ fun decl _ => decl.lambdas_sublist

theorem body_lambdas_sublist {q : Bool} {l : HirLambdaExpression}
    (hl : l ∈ program.lambdas true q) :
    (l.body.lambdas true q).Sublist (program.lambdas true q) := by
  obtain ⟨decl, hDecl, hld⟩ := mem_flatMap.1 hl
  exact (HirTopLevelDecl.body_lambdas_sublist hld).trans (sublist_flatMap_of_mem hDecl)

theorem initializer_lambdas_sublist {p q : Bool} {decl : HirBindingDecl}
    (hDecl : decl ∈ program.bindings) :
    (decl.initializer.lambdas p q).Sublist (program.lambdas p q) := by
  obtain ⟨d, hd, hBinding⟩ := mem_filterMap.1 hDecl
  have hSub : (d.lambdas p q).Sublist (program.lambdas p q) := sublist_flatMap_of_mem hd
  cases d with
  | binding decl => cases hBinding; exact hSub
  | _ => exact nomatch hBinding

/-- The emitted entry point is a declaration of the program. -/
theorem exists_decl_of_entryBody {body : HirBlock} (h : program.entryBody = some body) :
    ∃ decl ∈ program.topLevelDecls, ∀ p q, decl.lambdas p q = body.lambdas p q := by
  unfold entryBody firstBoot firstStart at h
  split at h
  · next boot _ hBoot =>
      cases h
      obtain ⟨decl, hDecl, hSome⟩ := exists_of_findSome?_eq_some hBoot
      refine ⟨decl, hDecl, fun p q => ?_⟩
      cases decl with
      | boot decl => cases hSome; rfl
      | _ => exact nomatch hSome
  · next start _ hStart =>
      cases h
      obtain ⟨decl, hDecl, hSome⟩ := exists_of_findSome?_eq_some hStart
      refine ⟨decl, hDecl, fun p q => ?_⟩
      cases decl with
      | start decl => cases hSome; rfl
      | _ => exact nomatch hSome
  · exact nomatch h

theorem entry_lambdas_sublist {p q : Bool} {body : HirBlock}
    (h : program.entryBody = some body) :
    (body.lambdas p q).Sublist (program.lambdas p q) := by
  obtain ⟨decl, hDecl, hEq⟩ := exists_decl_of_entryBody h
  exact hEq p q ▸ sublist_flatMap_of_mem hDecl

end HirProgram

namespace LaidOutHirProgram

variable (program : LaidOutHirProgram)

/-- Two lambdas of a program that lie at one address are the same. -/
theorem lambda_ext {l m : HirLambdaExpression} (hl : l ∈ program.lambdas true true)
    (hm : m ∈ program.lambdas true true) (hAddr : l.addr = m.addr) : l = m :=
  inj_on_of_nodup_map program.lambdas_nodup hl hm hAddr

/-- A lambda in a manual block of the emitted entry point is not registered. -/
theorem not_registered_of_entry {body : HirBlock} {m : HirLambdaExpression}
    (hBody : program.entryBody = some body) (hm : m ∈ body.lambdas true true)
    (hNot : m ∉ body.lambdas true false) : m ∉ program.lambdas true false := by
  obtain ⟨decl, hDecl, hEq⟩ := HirProgram.exists_decl_of_entryBody hBody
  rw [← hEq] at hm hNot
  intro hReg
  obtain ⟨other, hOther, hmo⟩ := mem_flatMap.1 hReg
  have hSame : decl = other := mem_flatMap_unique program.lambdas_nodup hDecl hOther hm
    (other.lambdas_sublist.subset hmo)
  exact hNot (hSame ▸ hmo)

/-- A lambda in a manual block of a registered lambda is not registered. -/
theorem not_registered_of_body {l m : HirLambdaExpression}
    (hl : l ∈ program.lambdas true false) (hm : m ∈ l.body.lambdas true true)
    (hNot : m ∉ l.body.lambdas true false) : m ∉ program.lambdas true false := by
  intro hReg
  obtain ⟨decl, hDecl, hld⟩ := mem_flatMap.1 hl
  obtain ⟨other, hOther, hmo⟩ := mem_flatMap.1 hReg
  have hmDecl : m ∈ decl.lambdas true true :=
    (HirTopLevelDecl.body_lambdas_sublist (decl.lambdas_sublist.subset hld)).subset hm
  have hSame : decl = other := mem_flatMap_unique program.lambdas_nodup hDecl hOther hmDecl
    (other.lambdas_sublist.subset hmo)
  subst hSame
  exact HirTopLevelDecl.not_mem_lambdas_of_body (nodup_of_flatMap program.lambdas_nodup hDecl)
    hld hm hNot hmo

/-- When all lambdas that are emitted are registered, a body whose manual blocks hold no
registered lambda holds no lambda there. -/
theorem body_manualLambdaFree
    (hEmitted : ∀ l ∈ program.lambdas true false, ∀ m ∈ l.body.lambdas false true,
      m ∈ program.lambdas true false)
    {body : HirBlock}
    (hSub : (body.lambdas true true).Sublist (program.lambdas true true))
    (hManual : ∀ m ∈ body.lambdas true true, m ∉ body.lambdas true false →
      m ∉ program.lambdas true false)
    (hBody : ∀ m ∈ body.lambdas false true, m ∈ program.lambdas true false) :
    body.ManualLambdaFree := by
  have hAll : ∀ m ∈ body.lambdas true true, m ∈ program.lambdas true false :=
    (lambdas_subset_of_closed hEmitted).2 body hBody
  have hNodup : (body.lambdas true true).Nodup :=
    (List.Nodup.of_map _ program.lambdas_nodup).sublist hSub
  have hSubset : body.lambdas true true ⊆ body.lambdas true false := by
    intro m hm
    by_contra hNot
    exact hManual m hm hNot (hAll m hm)
  exact (((lambdas_sublist true).2.1 body).eq_of_length_le
    (hNodup.subperm hSubset).length_le).symm

end LaidOutHirProgram

/-! ## The closures of the file -/

theorem mem_closures_iff (program : HirProgram) (sourceFile : Option String)
    (closure : CClosure) :
    closure ∈ (cEmitUnit program sourceFile).closures ↔
      (∃ entry ∈ (cEmitScanned sourceFile program).lambdas,
        ∃ x ∈ (cEmitLambdaBody (cEmitScanned sourceFile program) entry).atoms,
          x.closure? = some closure) ∨
      (∃ decl ∈ program.bindings,
        ClosureOf (cEmitScanned sourceFile program) (decl.initializer.lambdas false true)
          closure) ∨
      ∃ body, program.entryBody = some body ∧
        ClosureOf (cEmitScanned sourceFile program) (body.lambdas false true) closure := by
  have hEntry : (∃ x ∈ (cEmitUnit program sourceFile).entry.atoms,
      x.closure? = some closure) ↔ ∃ body, program.entryBody = some body ∧
        ClosureOf (cEmitScanned sourceFile program) (body.lambdas false true) closure := by
    show (∃ x ∈ (emitEntryFunction (cEmitScanned sourceFile program) program).atoms, _) ↔ _
    unfold HirProgram.entryBody emitEntryFunction
    cases program.firstBoot with
    | some boot =>
      have h : _ ↔ ClosureOf (cEmitScanned sourceFile program)
          (boot.body.lambdas false true) closure :=
        (closures_iff { cEmitScanned sourceFile program with isBootContext := true }
          closure).2.1 boot.body
      simpa [CEntry.atoms] using h
    | none =>
      cases program.firstStart with
      | some start =>
        have h := (closures_iff (cEmitScanned sourceFile program) closure).2.1 start.body
        simpa [CEntry.atoms] using h
      | none => simp [CEntry.atoms, stmtsAtoms]
  have hInit : (∃ x ∈ (cEmitUnit program sourceFile).initGlobals.flatMap fun a => a.value.atoms,
      x.closure? = some closure) ↔ ∃ decl ∈ program.bindings,
        ClosureOf (cEmitScanned sourceFile program) (decl.initializer.lambdas false true)
          closure := by
    have h := (closures_iff (cEmitScanned sourceFile program) closure).1
    constructor
    · rintro ⟨x, hx, hc⟩
      obtain ⟨a, ha, hxa⟩ := mem_flatMap.1 hx
      obtain ⟨decl, hDecl, rfl⟩ := mem_map.1 ha
      exact ⟨decl, hDecl, (h decl.initializer).1 ⟨x, hxa, hc⟩⟩
    · rintro ⟨decl, hDecl, hcl⟩
      obtain ⟨x, hx, hc⟩ := (h decl.initializer).2 hcl
      exact ⟨x, mem_flatMap.2 ⟨_, mem_map_of_mem hDecl, hx⟩, hc⟩
  have hFunctions : (∃ x ∈ (cEmitUnit program sourceFile).functions.flatMap fun f =>
      f.body.atoms, x.closure? = some closure) ↔
      ∃ entry ∈ (cEmitScanned sourceFile program).lambdas,
        ∃ x ∈ (cEmitLambdaBody (cEmitScanned sourceFile program) entry).atoms,
          x.closure? = some closure := by
    constructor
    · rintro ⟨x, hx, hc⟩
      obtain ⟨f, hf, hxf⟩ := mem_flatMap.1 hx
      obtain ⟨entry, hEntry, rfl⟩ := mem_map.1 hf
      exact ⟨entry, hEntry, x, hxf, hc⟩
    · rintro ⟨entry, hEntry, x, hx, hc⟩
      exact ⟨x, mem_flatMap.2 ⟨_, mem_map_of_mem hEntry, hx⟩, hc⟩
  rw [CUnit.closures, mem_filterMap, ← hFunctions, ← hInit, ← hEntry]
  simp only [CUnit.atoms, mem_append, or_and_right, exists_or, or_assoc]

/-- The id of a registered lambda. -/
theorem cEmitLambdaId_of_entry (program : LaidOutHirProgram) (sourceFile : Option String)
    {entry : CEmitLambdaEntry}
    (h : entry ∈ (cEmitScanned sourceFile program.toHirProgram).lambdas) :
    (∀ other ∈ (cEmitScanned sourceFile program.toHirProgram).lambdas,
      other.lambda.addr = entry.lambda.addr → other = entry) ∧
    cEmitLambdaId (cEmitScanned sourceFile program.toHirProgram) entry.lambda.addr =
      some entry.id := by
  have hNodup : ((cEmitScanned sourceFile program.toHirProgram).lambdas.map
      fun e => e.lambda.addr).Nodup := by
    have hSub := (program.lambdas_sublist).map HirLambdaExpression.addr
    rw [← cEmitScanned_lambdas sourceFile, map_map] at hSub
    exact program.lambdas_nodup.sublist hSub
  have hUnique : ∀ other ∈ (cEmitScanned sourceFile program.toHirProgram).lambdas,
      other.lambda.addr = entry.lambda.addr → other = entry :=
    fun other hOther hEq => inj_on_of_nodup_map hNodup hOther h hEq
  refine ⟨hUnique, ?_⟩
  unfold cEmitLambdaId
  cases hFind : (cEmitScanned sourceFile program.toHirProgram).lambdas.find? fun e =>
      e.lambda.addr == entry.lambda.addr with
  | none =>
    have := find?_eq_none.1 hFind entry h
    simp at this
  | some found =>
    have hAddr := find?_some hFind
    rw [beq_iff_eq] at hAddr
    rw [hUnique found (mem_of_find?_eq_some hFind) hAddr, Option.map_some]

/-- The lambdas of a program are registered, each once and under its index, and every
emitted closure refers to the function of its lambda, exactly when no manual block that is
emitted holds a lambda. -/
theorem lambdasRegistered_iff (program : LaidOutHirProgram) (sourceFile : Option String) :
    LambdasRegistered sourceFile program.toHirProgram ↔
      program.toHirProgram.ManualLambdaFree := by
  constructor
  · intro hReg
    have registered : ∀ m ∈ program.lambdas true true,
        cEmitClosure (cEmitScanned sourceFile program.toHirProgram) m ∈
            (cEmitUnit program.toHirProgram sourceFile).closures →
          m ∈ program.lambdas true false := by
      intro m hm hClosure
      obtain ⟨entry, hEntry, hAddr, -, -⟩ := hReg.closures _ hClosure
      have hScanned := (mem_scanned_iff sourceFile).2 ⟨entry, hEntry, rfl⟩
      have hEq := program.lambda_ext (program.lambdas_sublist.subset hScanned) hm hAddr
      exact hEq ▸ hScanned
    have hEmitted : ∀ l ∈ program.lambdas true false, ∀ m ∈ l.body.lambdas false true,
        m ∈ program.lambdas true false := by
      intro l hl m hm
      obtain ⟨entry, hEntry, rfl⟩ := (mem_scanned_iff sourceFile).1 hl
      rcases closure_cEmitLambdaBody (cEmitScanned sourceFile program.toHirProgram) hm with
        hx | hOutside
      · refine registered m ?_ ((mem_closures_iff _ _ _).2 (.inl ⟨entry, hEntry, hx⟩))
        have hSub := HirProgram.body_lambdas_sublist (program.lambdas_sublist.subset hl)
        exact hSub.subset (lambdas_enter_bodies.2 _ hm)
      · exact (HirProgram.body_lambdas_sublist hl).subset (lambdas_enter_bodies.2 _ hOutside)
    refine ⟨fun body hBody => ?_, fun l hl => ?_⟩
    · refine program.body_manualLambdaFree hEmitted (HirProgram.entry_lambdas_sublist hBody)
        (fun m => program.not_registered_of_entry hBody) fun m hm => ?_
      refine registered m ?_ ((mem_closures_iff _ _ _).2
        (.inr (.inr ⟨body, hBody, m, hm, rfl⟩)))
      exact (HirProgram.entry_lambdas_sublist hBody).subset (lambdas_enter_bodies.2 _ hm)
    · exact program.body_manualLambdaFree hEmitted
        (HirProgram.body_lambdas_sublist (program.lambdas_sublist.subset hl))
        (fun m => program.not_registered_of_body hl) (hEmitted l hl)
  · intro hFree
    refine ⟨cEmitScanned_ids sourceFile program.toHirProgram, fun i entry h => ?_,
      fun closure hClosure => ?_⟩
    · show ((cEmitScanned sourceFile program.toHirProgram).lambdas.map _)[i]? = _
      rw [List.getElem?_map, h, Option.map_some]
    · have hLambda : ClosureOf (cEmitScanned sourceFile program.toHirProgram)
          (program.lambdas true false) closure := by
        rcases (mem_closures_iff _ _ _).1 hClosure with
          ⟨entry, hEntry, hx⟩ | ⟨decl, hDecl, m, hm, hEq⟩ | ⟨body, hBody, m, hm, hEq⟩
        · obtain ⟨m, hm, hEq⟩ := closureOf_cEmitLambdaBody _ hx
          have hScanned := (mem_scanned_iff sourceFile).2 ⟨entry, hEntry, rfl⟩
          have hm' := lambdas_enter_bodies.2 _ hm
          rw [hFree.lambdas _ hScanned] at hm'
          exact ⟨m, (HirProgram.body_lambdas_sublist hScanned).subset hm', hEq⟩
        · rw [HirExpression.lambdas_outside_bodies] at hm
          exact ⟨m, (HirProgram.initializer_lambdas_sublist hDecl).subset
            (lambdas_enter_bodies.1 _ hm), hEq⟩
        · have hm' := lambdas_enter_bodies.2 _ hm
          rw [hFree.entry body hBody] at hm'
          exact ⟨m, (HirProgram.entry_lambdas_sublist hBody).subset hm', hEq⟩
      obtain ⟨m, hm, rfl⟩ := hLambda
      obtain ⟨entry, hEntry, rfl⟩ := (mem_scanned_iff sourceFile).1 hm
      obtain ⟨hUnique, hId⟩ := cEmitLambdaId_of_entry program sourceFile hEntry
      exact ⟨entry, hEntry, rfl, hId, hUnique⟩

/-- `boot() -> { manual { var f = () -> 1; }; return; };`, lowered. -/
def manualLambdaProgram : LaidOutHirProgram :=
  let int32 := tcCheckedTypeValue .int32 0
  let span : AstSourceSpan := ⟨1, 1, 1, 1⟩
  let signature : HirCallableSignature := { parameterTypes := some [], returnType := int32 }
  let one : HirExpression := .literal { type := int32, sourceSpan := span } (.integer "1")
  let lambda : HirExpression :=
    .lambda { type := int32, isCallable := true, callableSignature := signature,
              sourceSpan := span } 1 [] (.mk [.returnValue span one])
  let local_ : HirLocal :=
    { name := "f", symbol := 1, type := int32, isCallable := true,
      callableSignature := signature, isFinal := false, sourceSpan := span }
  let body : HirBlock :=
    .mk [.manual span false (.mk [.localBinding span local_ lambda]), .returnVoid span]
  { topLevelDecls := [.boot { parameters := [], body, sourceSpan := span }]
    lambdas_nodup := by decide }

/-- The lambda of `manualLambdaProgram` is emitted as a null word. -/
theorem not_lambdasRegistered_manualLambdaProgram :
    ¬ LambdasRegistered none manualLambdaProgram.toHirProgram := by
  intro h
  have hClosure : (⟨1, none⟩ : CClosure) ∈
      (cEmitUnit manualLambdaProgram.toHirProgram none).closures := by
    decide
  obtain ⟨entry, -, -, hId, -⟩ := h.closures _ hClosure
  exact nomatch hId

end Calynda
