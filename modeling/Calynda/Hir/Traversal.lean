import Mathlib.Data.List.Flatten
import Calynda.Hir.Basic
import Mathlib.Data.List.Basic

/-!
# Walks over the tree

The direct parts of an expression and of a statement, the induction over them, and one
collecting walk with two switches: does it enter the bodies of lambdas, and does it enter
manual blocks?
-/

namespace Calynda

/-- The expressions among the parts of a template. -/
def templateExpressions : List HirTemplatePart → List HirExpression
  | [] => []
  | .text _ :: parts => templateExpressions parts
  | .expression e :: parts => e :: templateExpressions parts

/-- The direct subexpressions, in the order of the source; the body of a lambda is not
among them. -/
def HirExpression.operands : HirExpression → List HirExpression
  | .literal _ _ => []
  | .template _ parts => templateExpressions parts
  | .symbol _ _ => []
  | .lambda _ _ _ _ => []
  | .assignment _ _ target value => [target, value]
  | .ternary _ condition thenBranch elseBranch => [condition, thenBranch, elseBranch]
  | .binary _ _ left right => [left, right]
  | .unary _ _ operand => [operand]
  | .call _ callee arguments => callee :: arguments
  | .index _ target i => [target, i]
  | .member _ target _ => [target]
  | .cast _ _ e => [e]
  | .arrayLiteral _ elements => elements
  | .discard _ => []
  | .postIncrement _ operand => [operand]
  | .postDecrement _ operand => [operand]

def HirExpression.lambdaBody? : HirExpression → Option HirBlock
  | .lambda _ _ _ body => some body
  | _ => none

/-- The expression of a statement. -/
def HirStatement.expression? : HirStatement → Option HirExpression
  | .localBinding _ _ initializer => some initializer
  | .returnValue _ e => some e
  | .throw _ e => some e
  | .expression _ e => some e
  | _ => none

def HirStatement.manualBody? : HirStatement → Option HirBlock
  | .manual _ _ body => some body
  | _ => none

/-! ## Induction -/

/-- Three properties that hold of a node when they hold of its direct parts. -/
structure PartsClosed (P : HirExpression → Prop) (Q : HirBlock → Prop)
    (R : HirStatement → Prop) : Prop where
  expression : ∀ e, (∀ o ∈ e.operands, P o) → (∀ b, e.lambdaBody? = some b → Q b) → P e
  block : ∀ b, (∀ s ∈ b.statements, R s) → Q b
  statement : ∀ s, (∀ e, s.expression? = some e → P e) →
    (∀ b, s.manualBody? = some b → Q b) → R s

namespace PartsClosed

variable {P : HirExpression → Prop} {Q : HirBlock → Prop} {R : HirStatement → Prop}

mutual
/-- Induction over the direct parts. -/
theorem ofExpression (h : PartsClosed P Q R) : ∀ e, P e
  | .literal info lit => h.expression (.literal info lit) (fun o ho => nomatch ho) nofun
  | .template info parts =>
    h.expression (.template info parts) (ofTemplate h parts) nofun
  | .symbol info ref => h.expression (.symbol info ref) (fun o ho => nomatch ho) nofun
  | .lambda info addr parameters body =>
    h.expression (.lambda info addr parameters body) (fun o ho => nomatch ho)
      fun _ hb => Option.some.inj hb ▸ ofBlock h body
  | .assignment info operator target value =>
    have hTarget := ofExpression h target
    have hValue := ofExpression h value
    h.expression (.assignment info operator target value)
      (by simp [HirExpression.operands, hTarget, hValue]) nofun
  | .ternary info condition thenBranch elseBranch =>
    have hCondition := ofExpression h condition
    have hThen := ofExpression h thenBranch
    have hElse := ofExpression h elseBranch
    h.expression (.ternary info condition thenBranch elseBranch)
      (by simp [HirExpression.operands, hCondition, hThen, hElse]) nofun
  | .binary info operator left right =>
    have hLeft := ofExpression h left
    have hRight := ofExpression h right
    h.expression (.binary info operator left right)
      (by simp [HirExpression.operands, hLeft, hRight]) nofun
  | .unary info operator operand =>
    have hOperand := ofExpression h operand
    h.expression (.unary info operator operand)
      (by simp [HirExpression.operands, hOperand]) nofun
  | .call info callee arguments =>
    have hCallee := ofExpression h callee
    have hArguments := ofExpressions h arguments
    h.expression (.call info callee arguments)
      (fun o ho => (List.mem_cons.1 ho).elim (fun eq => eq ▸ hCallee) (hArguments o)) nofun
  | .index info target i =>
    have hTarget := ofExpression h target
    have hIndex := ofExpression h i
    h.expression (.index info target i)
      (by simp [HirExpression.operands, hTarget, hIndex]) nofun
  | .member info target member =>
    have hTarget := ofExpression h target
    h.expression (.member info target member)
      (by simp [HirExpression.operands, hTarget]) nofun
  | .cast info targetType e =>
    have hInner := ofExpression h e
    h.expression (.cast info targetType e)
      (by simp [HirExpression.operands, hInner]) nofun
  | .arrayLiteral info elements =>
    h.expression (.arrayLiteral info elements) (ofExpressions h elements) nofun
  | .discard info => h.expression (.discard info) (fun o ho => nomatch ho) nofun
  | .postIncrement info operand =>
    have hOperand := ofExpression h operand
    h.expression (.postIncrement info operand)
      (by simp [HirExpression.operands, hOperand]) nofun
  | .postDecrement info operand =>
    have hOperand := ofExpression h operand
    h.expression (.postDecrement info operand)
      (by simp [HirExpression.operands, hOperand]) nofun

theorem ofExpressions (h : PartsClosed P Q R) : ∀ es : List HirExpression, ∀ e ∈ es, P e
  | [], _, he => nomatch he
  | e :: es, o, ho =>
    have hHead := ofExpression h e
    have hTail := ofExpressions h es
    (List.mem_cons.1 ho).elim (fun eq => eq ▸ hHead) (hTail o)

theorem ofTemplate (h : PartsClosed P Q R) :
    ∀ parts : List HirTemplatePart, ∀ e ∈ templateExpressions parts, P e
  | [], _, he => nomatch he
  | .text _ :: parts, o, ho => ofTemplate h parts o ho
  | .expression e :: parts, o, ho =>
    have hHead := ofExpression h e
    have hTail := ofTemplate h parts
    (List.mem_cons.1 ho).elim (fun eq => eq ▸ hHead) (hTail o)

theorem ofBlock (h : PartsClosed P Q R) : ∀ b, Q b
  | .mk statements => h.block (.mk statements) (ofStatements h statements)

theorem ofStatements (h : PartsClosed P Q R) : ∀ ss : List HirStatement, ∀ s ∈ ss, R s
  | [], _, hs => nomatch hs
  | s :: ss, o, ho =>
    have hHead := ofStatement h s
    have hTail := ofStatements h ss
    (List.mem_cons.1 ho).elim (fun eq => eq ▸ hHead) (hTail o)

theorem ofStatement (h : PartsClosed P Q R) : ∀ s, R s
  | .localBinding span binding initializer =>
    h.statement (.localBinding span binding initializer)
      (fun _ he => Option.some.inj he ▸ ofExpression h initializer) nofun
  | .returnValue span e =>
    h.statement (.returnValue span e)
      (fun _ he => Option.some.inj he ▸ ofExpression h e) nofun
  | .returnVoid span => h.statement (.returnVoid span) nofun nofun
  | .exit span => h.statement (.exit span) nofun nofun
  | .throw span e =>
    h.statement (.throw span e)
      (fun _ he => Option.some.inj he ▸ ofExpression h e) nofun
  | .expression span e =>
    h.statement (.expression span e)
      (fun _ he => Option.some.inj he ▸ ofExpression h e) nofun
  | .manual span isChecked body =>
    h.statement (.manual span isChecked body) nofun
      (fun _ hb => Option.some.inj hb ▸ ofBlock h body)
end

end PartsClosed

/-! ## The lambdas of a tree -/

/-- `HirLambdaExpression`; two lambdas are the same when their addresses are. -/
structure HirLambdaExpression where
  addr : Addr
  parameters : List HirParameter
  body : HirBlock

section
variable (inLambda inManual : Bool)

mutual
/-- The lambdas that a walk over an expression meets. -/
def HirExpression.lambdas : HirExpression → List HirLambdaExpression
  | .literal _ _ => []
  | .template _ parts => templateLambdas parts
  | .symbol _ _ => []
  | .lambda _ addr parameters body =>
    ⟨addr, parameters, body⟩ :: if inLambda then HirBlock.lambdas body else []
  | .assignment _ _ target value =>
    HirExpression.lambdas target ++ HirExpression.lambdas value
  | .ternary _ condition thenBranch elseBranch =>
    HirExpression.lambdas condition ++
      (HirExpression.lambdas thenBranch ++ HirExpression.lambdas elseBranch)
  | .binary _ _ left right => HirExpression.lambdas left ++ HirExpression.lambdas right
  | .unary _ _ operand => HirExpression.lambdas operand
  | .call _ callee arguments => HirExpression.lambdas callee ++ expressionsLambdas arguments
  | .index _ target i => HirExpression.lambdas target ++ HirExpression.lambdas i
  | .member _ target _ => HirExpression.lambdas target
  | .cast _ _ e => HirExpression.lambdas e
  | .arrayLiteral _ elements => expressionsLambdas elements
  | .discard _ => []
  | .postIncrement _ operand => HirExpression.lambdas operand
  | .postDecrement _ operand => HirExpression.lambdas operand

def expressionsLambdas : List HirExpression → List HirLambdaExpression
  | [] => []
  | e :: es => HirExpression.lambdas e ++ expressionsLambdas es

def templateLambdas : List HirTemplatePart → List HirLambdaExpression
  | [] => []
  | .text _ :: parts => templateLambdas parts
  | .expression e :: parts => HirExpression.lambdas e ++ templateLambdas parts

def HirBlock.lambdas : HirBlock → List HirLambdaExpression
  | .mk statements => statementsLambdas statements

def statementsLambdas : List HirStatement → List HirLambdaExpression
  | [] => []
  | s :: ss => HirStatement.lambdas s ++ statementsLambdas ss

def HirStatement.lambdas : HirStatement → List HirLambdaExpression
  | .localBinding _ _ initializer => HirExpression.lambdas initializer
  | .returnValue _ e => HirExpression.lambdas e
  | .returnVoid _ => []
  | .exit _ => []
  | .throw _ e => HirExpression.lambdas e
  | .expression _ e => HirExpression.lambdas e
  | .manual _ _ body => if inManual then HirBlock.lambdas body else []
end

end

/-- The lambda that an expression is. -/
def HirExpression.lambda? : HirExpression → Option HirLambdaExpression
  | .lambda _ addr parameters body => some ⟨addr, parameters, body⟩
  | _ => none

def HirTopLevelDecl.lambdas (inLambda inManual : Bool) :
    HirTopLevelDecl → List HirLambdaExpression
  | .binding decl => decl.initializer.lambdas inLambda inManual
  | .start decl => decl.body.lambdas inLambda inManual
  | .boot decl => decl.body.lambdas inLambda inManual
  | .union _ => []
  | .externC _ => []

def HirProgram.lambdas (inLambda inManual : Bool) (program : HirProgram) :
    List HirLambdaExpression :=
  program.topLevelDecls.flatMap (HirTopLevelDecl.lambdas inLambda inManual)

/-- A program in memory: its lambdas lie at different addresses. -/
structure LaidOutHirProgram extends HirProgram where
  lambdas_nodup : ((toHirProgram.lambdas true true).map HirLambdaExpression.addr).Nodup

/-! ## The walk by direct parts -/

theorem expressionsLambdas_eq (p q : Bool) (es : List HirExpression) :
    expressionsLambdas p q es = es.flatMap (HirExpression.lambdas p q) := by
  induction es with
  | nil => rfl
  | cons e es ih => simp only [expressionsLambdas, ih, List.flatMap_cons]

theorem templateLambdas_eq (p q : Bool) (parts : List HirTemplatePart) :
    templateLambdas p q parts =
      (templateExpressions parts).flatMap (HirExpression.lambdas p q) := by
  induction parts with
  | nil => rfl
  | cons part parts ih =>
    cases part <;>
      simp only [templateLambdas, templateExpressions, ih, List.flatMap_cons]

theorem statementsLambdas_eq (p q : Bool) (ss : List HirStatement) :
    statementsLambdas p q ss = ss.flatMap (HirStatement.lambdas p q) := by
  induction ss with
  | nil => rfl
  | cons s ss ih => simp only [statementsLambdas, ih, List.flatMap_cons]

theorem HirExpression.lambdas_eq (p q : Bool) (e : HirExpression) :
    e.lambdas p q = e.lambda?.toList ++
      (if p then e.lambdaBody?.elim [] (HirBlock.lambdas p q) else []) ++
        e.operands.flatMap (HirExpression.lambdas p q) := by
  cases e <;>
    simp [HirExpression.lambdas, HirExpression.lambda?, HirExpression.lambdaBody?,
      HirExpression.operands, expressionsLambdas_eq, templateLambdas_eq]

theorem HirBlock.lambdas_eq (p q : Bool) (b : HirBlock) :
    b.lambdas p q = b.statements.flatMap (HirStatement.lambdas p q) := by
  cases b with
  | mk statements => exact statementsLambdas_eq p q statements

theorem HirStatement.lambdas_eq (p q : Bool) (s : HirStatement) :
    s.lambdas p q = s.expression?.elim [] (HirExpression.lambdas p q) ++
      (if q then s.manualBody?.elim [] (HirBlock.lambdas p q) else []) := by
  cases s <;>
    simp [HirStatement.lambdas, HirStatement.expression?, HirStatement.manualBody?]

theorem HirExpression.lambdaBody?_eq (e : HirExpression) :
    e.lambdaBody? = e.lambda?.map HirLambdaExpression.body := by
  cases e <;> rfl

theorem HirExpression.lambdas_of_lambda {p q : Bool} {e : HirExpression}
    {l : HirLambdaExpression} (h : e.lambda? = some l) :
    e.lambdas p q = l :: if p then l.body.lambdas p q else [] := by
  cases e with
  | lambda info addr parameters body =>
    cases h
    rfl
  | _ => exact nomatch h

theorem HirExpression.lambdas_of_not_lambda {p q : Bool} {e : HirExpression}
    (h : e.lambda? = none) : e.lambdas p q = e.operands.flatMap (HirExpression.lambdas p q) := by
  rw [HirExpression.lambdas_eq, HirExpression.lambdaBody?_eq, h]
  cases p <;> rfl

theorem HirExpression.mem_lambdas {p q : Bool} {e : HirExpression}
    {l : HirLambdaExpression} :
    l ∈ e.lambdas p q ↔ e.lambda? = some l ∨
      (p = true ∧ ∃ b, e.lambdaBody? = some b ∧ l ∈ b.lambdas p q) ∨
        ∃ o ∈ e.operands, l ∈ o.lambdas p q := by
  rw [HirExpression.lambdas_eq]
  cases p <;> cases e.lambdaBody? <;> simp

theorem HirBlock.mem_lambdas {p q : Bool} {b : HirBlock} {l : HirLambdaExpression} :
    l ∈ b.lambdas p q ↔ ∃ s ∈ b.statements, l ∈ s.lambdas p q := by
  rw [HirBlock.lambdas_eq, List.mem_flatMap]

theorem HirStatement.mem_lambdas {p q : Bool} {s : HirStatement} {l : HirLambdaExpression} :
    l ∈ s.lambdas p q ↔ (∃ e, s.expression? = some e ∧ l ∈ e.lambdas p q) ∨
      (q = true ∧ ∃ b, s.manualBody? = some b ∧ l ∈ b.lambdas p q) := by
  rw [HirStatement.lambdas_eq]
  cases q <;> cases s.manualBody? <;> cases s.expression? <;> simp

/-! ## What the walks have in common -/

/-- A walk that skips manual blocks meets a part of what one that enters them meets. -/
theorem lambdas_sublist (p : Bool) :
    (∀ e : HirExpression, (e.lambdas p false).Sublist (e.lambdas p true)) ∧
      (∀ b : HirBlock, (b.lambdas p false).Sublist (b.lambdas p true)) ∧
      ∀ s : HirStatement, (s.lambdas p false).Sublist (s.lambdas p true) := by
  have closed : PartsClosed
      (fun e => (e.lambdas p false).Sublist (e.lambdas p true))
      (fun b => (b.lambdas p false).Sublist (b.lambdas p true))
      (fun s => (s.lambdas p false).Sublist (s.lambdas p true)) := by
    refine ⟨?_, ?_, ?_⟩
    · intro e hOperands hBody
      rw [HirExpression.lambdas_eq, HirExpression.lambdas_eq]
      refine (List.Sublist.append (List.Sublist.refl _) ?_).append
        (List.Sublist.flatMap_right _ hOperands)
      cases p with
      | false => exact .refl _
      | true =>
        cases hb : e.lambdaBody? with
        | none => exact .refl _
        | some b => exact hBody b hb
    · intro b hStatements
      rw [HirBlock.lambdas_eq, HirBlock.lambdas_eq]
      exact List.Sublist.flatMap_right _ hStatements
    · intro s hExpr _
      rw [HirStatement.lambdas_eq, HirStatement.lambdas_eq]
      refine List.Sublist.append ?_ (List.nil_sublist _)
      cases he : s.expression? with
      | none => exact .refl _
      | some e => exact hExpr e he
  exact ⟨closed.ofExpression, closed.ofBlock, closed.ofStatement⟩

/-- A walk that leaves bodies alone meets a part of what one that enters them meets. -/
theorem lambdas_enter_bodies {q : Bool} {l : HirLambdaExpression} :
    (∀ e : HirExpression, l ∈ e.lambdas false q → l ∈ e.lambdas true q) ∧
      ∀ b : HirBlock, l ∈ b.lambdas false q → l ∈ b.lambdas true q := by
  have closed : PartsClosed
      (fun e => l ∈ e.lambdas false q → l ∈ e.lambdas true q)
      (fun b => l ∈ b.lambdas false q → l ∈ b.lambdas true q)
      (fun s => l ∈ s.lambdas false q → l ∈ s.lambdas true q) := by
    refine ⟨?_, ?_, ?_⟩
    · intro e hOperands _ h
      rw [HirExpression.mem_lambdas] at h ⊢
      rcases h with hSelf | ⟨hFalse, _⟩ | ⟨o, ho, hl⟩
      · exact .inl hSelf
      · exact nomatch hFalse
      · exact .inr (.inr ⟨o, ho, hOperands o ho hl⟩)
    · intro b hStatements h
      rw [HirBlock.mem_lambdas] at h ⊢
      obtain ⟨s, hs, hl⟩ := h
      exact ⟨s, hs, hStatements s hs hl⟩
    · intro s hExpr hManual h
      rw [HirStatement.mem_lambdas] at h ⊢
      rcases h with ⟨e, he, hl⟩ | ⟨hq, b, hb, hl⟩
      · exact .inl ⟨e, he, hExpr e he hl⟩
      · exact .inr ⟨hq, b, hb, hManual b hb hl⟩
  exact ⟨closed.ofExpression, closed.ofBlock⟩

theorem sublist_flatMap_of_mem {α β : Type} {f : α → List β} {l : List α} {a : α}
    (ha : a ∈ l) : (f a).Sublist (l.flatMap f) := by
  simpa using (List.singleton_sublist.2 ha).flatMap f

/-- A walk that enters bodies meets the lambdas of the bodies of the lambdas it meets. -/
theorem body_lambdas_sublist {q : Bool} {l : HirLambdaExpression} :
    (∀ e : HirExpression, l ∈ e.lambdas true q →
      (l.body.lambdas true q).Sublist (e.lambdas true q)) ∧
    (∀ b : HirBlock, l ∈ b.lambdas true q →
      (l.body.lambdas true q).Sublist (b.lambdas true q)) ∧
    ∀ s : HirStatement, l ∈ s.lambdas true q →
      (l.body.lambdas true q).Sublist (s.lambdas true q) := by
  have closed : PartsClosed
      (fun e => l ∈ e.lambdas true q → (l.body.lambdas true q).Sublist (e.lambdas true q))
      (fun b => l ∈ b.lambdas true q → (l.body.lambdas true q).Sublist (b.lambdas true q))
      (fun s => l ∈ s.lambdas true q → (l.body.lambdas true q).Sublist (s.lambdas true q)) := by
    refine ⟨?_, ?_, ?_⟩
    · intro e hOperands hBody h
      cases hSelf : e.lambda? with
      | some own =>
        have ih := hBody own.body (by rw [HirExpression.lambdaBody?_eq, hSelf, Option.map_some])
        rw [HirExpression.lambdas_of_lambda hSelf] at h ⊢
        rcases List.mem_cons.1 h with rfl | h
        · exact List.sublist_cons_self _ _
        · exact (ih h).trans (List.sublist_cons_self _ _)
      | none =>
        rw [HirExpression.lambdas_of_not_lambda hSelf] at h ⊢
        obtain ⟨o, ho, hl⟩ := List.mem_flatMap.1 h
        exact (hOperands o ho hl).trans (sublist_flatMap_of_mem ho)
    · intro b hStatements h
      rw [HirBlock.lambdas_eq true q b] at h ⊢
      obtain ⟨s, hs, hl⟩ := List.mem_flatMap.1 h
      exact (hStatements s hs hl).trans (sublist_flatMap_of_mem hs)
    · intro s hExpr hManual h
      rcases HirStatement.mem_lambdas.1 h with ⟨e, he, hl⟩ | ⟨hq, b, hb, hl⟩
      · rw [HirStatement.lambdas_eq, he]
        exact (hExpr e he hl).trans (List.sublist_append_left _ _)
      · rw [HirStatement.lambdas_eq, hb, if_pos hq]
        exact (hManual b hb hl).trans (List.sublist_append_right _ _)
  exact ⟨closed.ofExpression, closed.ofBlock, closed.ofStatement⟩

/-- An expression holds a manual block only in the body of a lambda. -/
theorem HirExpression.lambdas_outside_bodies (q : Bool) (e : HirExpression) :
    e.lambdas false q = e.lambdas false false := by
  have closed : PartsClosed (fun e => e.lambdas false q = e.lambdas false false)
      (fun _ => True) (fun _ => True) := by
    refine ⟨fun e hOperands _ => ?_, fun _ _ => trivial, fun _ _ _ => trivial⟩
    rw [HirExpression.lambdas_eq, HirExpression.lambdas_eq, List.flatMap_congr hOperands]
    rfl
  exact closed.ofExpression e

/-- A set that holds the lambdas met outside bodies, and with a lambda those met outside
bodies in its own body, holds all lambdas. -/
theorem lambdas_subset_of_closed {S : HirLambdaExpression → Prop}
    (hS : ∀ l, S l → ∀ m ∈ l.body.lambdas false true, S m) :
    (∀ e : HirExpression, (∀ m ∈ e.lambdas false true, S m) →
      ∀ m ∈ e.lambdas true true, S m) ∧
    ∀ b : HirBlock, (∀ m ∈ b.lambdas false true, S m) → ∀ m ∈ b.lambdas true true, S m := by
  have closed : PartsClosed
      (fun e => (∀ m ∈ e.lambdas false true, S m) → ∀ m ∈ e.lambdas true true, S m)
      (fun b => (∀ m ∈ b.lambdas false true, S m) → ∀ m ∈ b.lambdas true true, S m)
      (fun s => (∀ m ∈ s.lambdas false true, S m) → ∀ m ∈ s.lambdas true true, S m) := by
    refine ⟨?_, ?_, ?_⟩
    · intro e hOperands hBody h m hm
      rcases HirExpression.mem_lambdas.1 hm with hSelf | ⟨_, b, hb, hl⟩ | ⟨o, ho, hl⟩
      · exact h m (HirExpression.mem_lambdas.2 (.inl hSelf))
      · rw [HirExpression.lambdaBody?_eq] at hb
        obtain ⟨l, hl', rfl⟩ := Option.map_eq_some_iff.1 hb
        have hSl : S l := h l (HirExpression.mem_lambdas.2 (.inl hl'))
        exact hBody l.body (by rw [HirExpression.lambdaBody?_eq, hl', Option.map_some])
          (hS l hSl) m hl
      · exact hOperands o ho
          (fun x hx => h x (HirExpression.mem_lambdas.2 (.inr (.inr ⟨o, ho, hx⟩)))) m hl
    · intro b hStatements h m hm
      obtain ⟨s, hs, hl⟩ := HirBlock.mem_lambdas.1 hm
      exact hStatements s hs (fun x hx => h x (HirBlock.mem_lambdas.2 ⟨s, hs, hx⟩)) m hl
    · intro s hExpr hManual h m hm
      rcases HirStatement.mem_lambdas.1 hm with ⟨e, he, hl⟩ | ⟨_, b, hb, hl⟩
      · exact hExpr e he
          (fun x hx => h x (HirStatement.mem_lambdas.2 (.inl ⟨e, he, hx⟩))) m hl
      · exact hManual b hb
          (fun x hx => h x (HirStatement.mem_lambdas.2 (.inr ⟨rfl, b, hb, hx⟩))) m hl
  exact ⟨closed.ofExpression, closed.ofBlock⟩

end Calynda
