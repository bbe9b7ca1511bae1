import Calynda.CSem.Frames

/-!
# A global variable that is not assigned

Two units with the same imports are run from the same state, with handlers of calls that
agree. Where no statement assigns to a certain global variable, outside the scope of a local
variable of the same name, both runs are the same and the variable keeps its closure.

The assumption may be void: with a false `tracked` nothing is said about the variable.
-/

namespace Calynda

open Relational StateExcept

/-! ## Scopes -/

def CExpr.Keeps (name : String) (scope : List String) (e : CExpr) : Prop :=
  name ∈ e.assigned → name ∈ scope

/-- The variables in scope after a statement. -/
def CStmt.scopeAfter (scope : List String) : CStmt → List String
  | .declare target _ => target.emitted :: scope
  | _ => scope

def scopeAfterStmts (scope : List String) (ss : List CStmt) : List String :=
  ss.foldl CStmt.scopeAfter scope

mutual
/-- No statement assigns to the global variable: a name in `scope` is one of a local. -/
def CStmt.Keeps (name : String) : List String → CStmt → Prop
  | _, .line _ _ => True
  | scope, .declare target initializer => initializer.Keeps name (target.emitted :: scope)
  | scope, .returnWord expression => expression.Keeps name scope
  | _, .returnVoid => True
  | _, .exit => True
  | scope, .throw expression => expression.Keeps name scope
  | scope, .expression expression => expression.Keeps name scope
  | scope, .block statements => StmtsKeep name scope statements

def StmtsKeep (name : String) : List String → List CStmt → Prop
  | _, [] => True
  | scope, s :: ss => CStmt.Keeps name scope s ∧ StmtsKeep name (s.scopeAfter scope) ss
end

def CLambdaBody.Keeps (name : String) (scope : List String) : CLambdaBody → Prop
  | .plain statements => StmtsKeep name scope statements
  | .tailLoop statements reassignments =>
    StmtsKeep name scope statements ∧
      ∀ a ∈ reassignments, a.value.Keeps name (scopeAfterStmts scope statements) ∧
        (a.target.emitted = name → name ∈ scopeAfterStmts scope statements)

/-- The function does not assign to the global variable. -/
def CFunction.Keeps (name : String) (f : CFunction) : Prop :=
  f.body.Keeps name (f.parameters.map CVar.emitted)

/-- The variables that the statements declare themselves, the innermost first. -/
def stmtsDeclared (ss : List CStmt) : List String := scopeAfterStmts [] ss

theorem scopeAfter_eq (scope : List String) (s : CStmt) :
    s.scopeAfter scope = s.scopeAfter [] ++ scope := by
  cases s <;> rfl

theorem scopeAfterStmts_eq (scope : List String) (ss : List CStmt) :
    scopeAfterStmts scope ss = stmtsDeclared ss ++ scope := by
  unfold stmtsDeclared scopeAfterStmts
  induction ss generalizing scope with
  | nil => rfl
  | cons s ss ih =>
    rw [List.foldl_cons, List.foldl_cons, ih, ih (s.scopeAfter []), scopeAfter_eq scope,
      List.append_assoc]

/-! ## The same run -/

section
variable {S : Type} {u u' : CUnit} {rt : CRuntime S} {call call' : CallHandler S}
variable {tracked : Prop} {name : String} {word : CalyndaRtWord} {id : Nat}

/-- The global variable holds the closure. -/
def Bound (rt : CRuntime S) (tracked : Prop) (name : String) (word : CalyndaRtWord) (id : Nat)
    (s : CState S) : Prop :=
  tracked → s.globals name = some word ∧ rt.callee s.runtime word = .closure id

/-- The same, with these variables in the frame. -/
def BoundIn (rt : CRuntime S) (tracked : Prop) (name : String) (word : CalyndaRtWord) (id : Nat)
    (scope : List String) (s : CState S) : Prop :=
  Bound rt tracked name word id s ∧ s.frame.names = scope

theorem readVar_ok {x : String} {s s' : CState S} {w : CalyndaRtWord}
    (h : readVar u rt x s = .ok (w, s')) : s' = s := by
  rw [readVar_eq] at h
  split at h
  · cases h; rfl
  · split at h
    · cases h; rfl
    · exact nomatch h
    · split at h
      · cases h; rfl
      · exact nomatch h

theorem writeVar_ok {x : String} {w : CalyndaRtWord} {s s' : CState S}
    (h : writeVar u x w s = .ok ((), s')) :
    (x ∈ s.frame.names ∧ s' = { s with frame := CFrame.assign x w s.frame }) ∨
      (x ∉ s.frame.names ∧
        s' = { s with globals := fun y => if y = x then some w else s.globals y }) := by
  rw [writeVar_eq] at h
  split at h
  · exact nomatch h
  · split at h
    · next hLookup =>
        cases h
        refine .inl ⟨?_, rfl⟩
        by_contra hMem
        rw [CFrame.lookup_eq_none.2 hMem] at hLookup
        exact nomatch hLookup
    · next hLookup =>
        split at h
        · exact nomatch h
        · cases h
          exact .inr ⟨CFrame.lookup_eq_none.1 hLookup, rfl⟩

theorem macro?_eq (hImports : u'.imports = u.imports) : u'.macro? = u.macro? := by
  unfold CUnit.macro?
  rw [hImports]

/-- The handlers run calls alike and keep the binding. -/
def HandlersAgree (rt : CRuntime S) (tracked : Prop) (name : String) (word : CalyndaRtWord)
    (id : Nat) (call call' : CallHandler S) : Prop :=
  ∀ i arguments, RelTriple (Diagonal (Bound rt tracked name word id)) (call i arguments)
    (call' i arguments) (Same (Diagonal (Bound rt tracked name word id))) Eq

/-- Units and handlers of calls that run alike as long as the binding is kept. -/
structure UnitsAgree (u u' : CUnit) (rt : CRuntime S) (tracked : Prop) (name : String)
    (word : CalyndaRtWord) (id : Nat) (call call' : CallHandler S) : Prop where
  lawful : rt.Lawful
  imports : u'.imports = u.imports
  call : HandlersAgree rt tracked name word id call call'

/-- The end of a block leaves the variables that were there before. -/
theorem BoundIn.leaveBlock {declared scope : List String} {s : CState S}
    (h : BoundIn rt tracked name word id (declared ++ scope) s) :
    BoundIn rt tracked name word id scope
      { s with frame := s.frame.drop (s.frame.length - scope.length) } := by
  refine ⟨h.1, ?_⟩
  have hLength : s.frame.length = declared.length + scope.length := by
    rw [← List.length_append, ← h.2, CFrame.names, List.length_map]
  show (s.frame.drop (s.frame.length - scope.length)).map Prod.fst = scope
  rw [hLength, Nat.add_sub_cancel, List.map_drop]
  show s.frame.names.drop declared.length = scope
  rw [h.2, List.drop_left]

/-- The same flow from the same state; before the next statement these variables are in the
frame. -/
def FlowsTo (rt : CRuntime S) (tracked : Prop) (name : String) (word : CalyndaRtWord) (id : Nat)
    (scope : List String) : Flow → Flow → CState S → CState S → Prop :=
  fun flow flow' s t => flow = flow' ∧ s = t ∧ Bound rt tracked name word id s ∧
    (flow = .next → s.frame.names = scope)

theorem relTriple_flowsTo {scope : List String} {flow : Flow} :
    RelTriple (Diagonal (BoundIn rt tracked name word id scope)) (pure flow : CM S Flow)
      (pure flow) (FlowsTo rt tracked name word id scope) Eq :=
  .pure fun _ _ ⟨hEq, hs⟩ => ⟨rfl, hEq, hs.1, fun _ => hs.2⟩

namespace UnitsAgree

theorem keptByRuns (h : UnitsAgree u u' rt tracked name word id call call')
    (scope : List String) :
    KeptByRuns u u' rt call call' (Diagonal (BoundIn rt tracked name word id scope))
      (fun _ => True) (fun x => tracked → x = name → name ∈ scope) where
  runtime_eq h := by rw [h.1]
  runtime_step := by
    rintro s t ⟨rfl, hBound, hNames⟩ α m hOp a runtime hRun
    exact ⟨rfl, fun hTracked => ⟨(hBound hTracked).1,
      h.lawful.keeps_closures hOp hRun (hBound hTracked).2⟩, hNames⟩
  read {x} _ := by
    refine .of_diagonal fun s hs => ⟨?_, fun w s' hRun => ?_⟩
    · rw [readVar_eq, readVar_eq, macro?_eq h.imports]
    · rw [readVar_ok hRun]
      exact hs
  write {x} hx w := by
    refine .of_diagonal fun s hs => ⟨?_, fun _ s' hRun => ?_⟩
    · rw [writeVar_eq, writeVar_eq, macro?_eq h.imports]
    · rcases writeVar_ok hRun with ⟨hMem, rfl⟩ | ⟨hMem, rfl⟩
      · exact ⟨hs.1, (CFrame.names_assign x w s.frame).trans hs.2⟩
      · refine ⟨fun hTracked => ⟨?_, (hs.1 hTracked).2⟩, hs.2⟩
        have hNe : name ≠ x := fun hEq =>
          hMem (hEq ▸ hs.2.symm ▸ hx hTracked hEq.symm)
        exact (if_neg hNe).trans (hs.1 hTracked).1
  callCallable callee arguments := by
    refine .of_diagonal fun s hs => ?_
    rw [callCallable_eq, callCallable_eq]
    cases rt.callee s.runtime callee with
    | closure i =>
      dsimp only
      rw [← (h.call i arguments).diagonal_eq hs.1]
      refine ⟨rfl, fun w s' hRun => ?_⟩
      cases hCall : call i arguments s with
      | error halt => rw [hCall] at hRun; exact nomatch hRun
      | ok p =>
        rw [hCall] at hRun
        cases hRun
        have hBound := (h.call i arguments).diagonal_inv hs.1 hCall
        exact ⟨hBound, hs.2⟩
    | other =>
      refine ⟨rfl, fun w s' hRun => ?_⟩
      unfold liftRt at hRun
      cases hCall : rt.callOther callee arguments s.runtime with
      | error halt => simp only [hCall] at hRun; exact nomatch hRun
      | ok p =>
        simp only [hCall] at hRun
        cases hRun
        exact ⟨fun hTracked => ⟨(hs.1 hTracked).1,
          h.lawful.keeps_closures (.callOther callee arguments) hCall (hs.1 hTracked).2⟩,
          hs.2⟩

theorem evalExpr (h : UnitsAgree u u' rt tracked name word id call call')
    {scope : List String} {e : CExpr} (hKeeps : tracked → e.Keeps name scope) :
    RelTriple (Diagonal (BoundIn rt tracked name word id scope)) (evalExpr u rt call e)
      (evalExpr u' rt call' e) (Same (Diagonal (BoundIn rt tracked name word id scope))) Eq :=
  (h.keptByRuns scope).evalExpr e (fun _ _ => trivial)
    fun _ hMem hTracked hEq => hKeeps hTracked (hEq ▸ hMem)

/-- An assignment to a variable that is not the global one. -/
theorem writeVar (h : UnitsAgree u u' rt tracked name word id call call')
    {scope : List String} {x : String} (hx : tracked → x = name → name ∈ scope)
    (w : CalyndaRtWord) :
    RelTriple (Diagonal (BoundIn rt tracked name word id scope)) (writeVar u x w)
      (writeVar u' x w) (Same (Diagonal (BoundIn rt tracked name word id scope))) Eq :=
  (h.keptByRuns scope).write hx w

mutual
theorem execStmt (h : UnitsAgree u u' rt tracked name word id call call')
    {scope : List String} : (s : CStmt) → (tracked → s.Keeps name scope) →
    RelTriple (Diagonal (BoundIn rt tracked name word id scope)) (execStmt u rt call s)
      (execStmt u' rt call' s) (FlowsTo rt tracked name word id (s.scopeAfter scope)) Eq
  | .line number file, _ => by
    rw [Calynda.execStmt, Calynda.execStmt]
    exact relTriple_flowsTo
  | .declare target initializer, hKeeps => by
    rw [Calynda.execStmt, Calynda.execStmt]
    have hPush : RelTriple (Diagonal (BoundIn rt tracked name word id scope))
        (modify fun s => { s with frame := (target.emitted, none) :: s.frame } : CM S PUnit)
        (modify fun s => { s with frame := (target.emitted, none) :: s.frame })
        (Same (Diagonal (BoundIn rt tracked name word id (target.emitted :: scope)))) Eq :=
      .of_modify fun s t ⟨hEq, hs⟩ =>
        ⟨rfl, by rw [hEq], hs.1, congrArg (target.emitted :: ·) hs.2⟩
    refine hPush.bind_same fun _ => ?_
    refine (h.evalExpr hKeeps).bind_same fun w => ?_
    exact (h.writeVar (fun _ hEq => hEq ▸ List.mem_cons_self) w).bind_same fun _ => relTriple_flowsTo
  | .returnWord expression, hKeeps => by
    rw [Calynda.execStmt, Calynda.execStmt]
    exact (h.evalExpr hKeeps).bind_same fun _ => relTriple_flowsTo
  | .returnVoid, _ => by
    rw [Calynda.execStmt, Calynda.execStmt]
    exact relTriple_flowsTo
  | .exit, _ => by
    rw [Calynda.execStmt, Calynda.execStmt]
    exact (h.keptByRuns scope).stop _
  | .throw expression, hKeeps => by
    rw [Calynda.execStmt, Calynda.execStmt]
    refine (h.evalExpr hKeeps).bind_same fun w => ?_
    exact ((h.keptByRuns scope).liftRt (.throwWord w)).bind_same fun _ => relTriple_flowsTo
  | .expression expression, hKeeps => by
    rw [Calynda.execStmt, Calynda.execStmt]
    exact (h.evalExpr hKeeps).bind_same fun _ => relTriple_flowsTo
  | .block statements, hKeeps => by
    rw [Calynda.execStmt, Calynda.execStmt]
    refine .get_bind fun s t ⟨hEq, hs⟩ => ?_
    subst hEq
    refine (execStmts h statements hKeeps s s ⟨rfl, hs⟩).bind ?_
    rintro flow _ s' _ - - ⟨rfl, rfl, hBound, hNames⟩
    refine .ok ⟨rfl, rfl, hBound, fun hNext => ?_⟩
    have hOuter : s.frame.length = scope.length := by
      rw [← hs.2, CFrame.names, List.length_map]
    have hInner := hNames hNext
    rw [scopeAfterStmts_eq] at hInner
    rw [hOuter]
    exact (BoundIn.leaveBlock ⟨hBound, hInner⟩).2

theorem execStmts (h : UnitsAgree u u' rt tracked name word id call call')
    {scope : List String} : (ss : List CStmt) → (tracked → StmtsKeep name scope ss) →
    RelTriple (Diagonal (BoundIn rt tracked name word id scope)) (execStmts u rt call ss)
      (execStmts u' rt call' ss) (FlowsTo rt tracked name word id (scopeAfterStmts scope ss)) Eq
  | [], _ => by
    rw [Calynda.execStmts, Calynda.execStmts]
    exact relTriple_flowsTo
  | s :: ss, hKeeps => by
    rw [Calynda.execStmts, Calynda.execStmts]
    refine (execStmt h s fun hTracked => (hKeeps hTracked).1).bind fun flow flow' => ?_
    rintro s t ⟨rfl, rfl, hBound, hNames⟩
    cases flow with
    | next =>
      exact execStmts h ss (fun hTracked => (hKeeps hTracked).2) s s
        ⟨rfl, hBound, hNames rfl⟩
    | ret w => exact .ok ⟨rfl, rfl, hBound, nofun⟩
end

theorem execAssignments (h : UnitsAgree u u' rt tracked name word id call call')
    {scope : List String} (as : List CAssignment)
    (hKeeps : tracked → ∀ a ∈ as, a.value.Keeps name scope ∧
      (a.target.emitted = name → name ∈ scope)) :
    RelTriple (Diagonal (BoundIn rt tracked name word id scope)) (execAssignments u rt call as)
      (execAssignments u' rt call' as)
      (Same (Diagonal (BoundIn rt tracked name word id scope))) Eq := by
  induction as with
  | nil => exact .ret _
  | cons a as ih =>
    rw [Calynda.execAssignments, Calynda.execAssignments]
    have hSelf hTracked := hKeeps hTracked a List.mem_cons_self
    refine (h.evalExpr fun hTracked => (hSelf hTracked).1).bind_same fun w => ?_
    refine (h.writeVar (fun hTracked => (hSelf hTracked).2) w).bind_same fun _ => ?_
    exact ih fun hTracked b hb => hKeeps hTracked b (List.mem_cons_of_mem a hb)

end UnitsAgree

end

end Calynda
