import Calynda.Lib.Relational
import Calynda.CEmit.Occurrences
import Calynda.CSem.Eval

/-!
# Two runs of one expression

An expression is run in two units, with two handlers of calls, from two states. When a
relation between the states is kept by the reads and the writes of the variables that occur
in the expression, by the operations of the runtime and by calls, both runs end alike.
-/

namespace Calynda

open Relational

/-! ## Assigned variables -/

/-- The emitted name of an operand of `=`, `++` or `--`. -/
def CExpr.lvalues (e : CExpr) : List String := e.lvalue?.toList

mutual
/-- The emitted names of the variables that an expression assigns to. -/
def CExpr.assigned : CExpr → List String
  | .intLit _ | .floatLit _ | .boolLit _ | .charLit _ | .stringLit _ | .zero => []
  | .var _ | .externName _ | .closureNew _ _ | .unregistered _ => []
  | .template parts => templateAssigned parts
  | .storeIndex target index value =>
    CExpr.assigned target ++ CExpr.assigned index ++ CExpr.assigned value
  | .loaded target index _ value =>
    CExpr.assigned target ++ CExpr.assigned index ++ CExpr.assigned value
  | .assign target _ value => target.lvalues ++ CExpr.assigned value
  | .ternary condition thenBranch elseBranch =>
    CExpr.assigned condition ++ CExpr.assigned thenBranch ++ CExpr.assigned elseBranch
  | .floatArith _ _ left _ right => CExpr.assigned left ++ CExpr.assigned right
  | .floatCompare _ _ left _ right => CExpr.assigned left ++ CExpr.assigned right
  | .binary _ left right => CExpr.assigned left ++ CExpr.assigned right
  | .floatNegate operand => CExpr.assigned operand
  | .unary .preIncrement operand | .unary .preDecrement operand => operand.lvalues
  | .unary _ operand => CExpr.assigned operand
  | .externCall _ arguments => expressionsAssigned arguments
  | .callCallable callee arguments => CExpr.assigned callee ++ expressionsAssigned arguments
  | .indexLoad target index => CExpr.assigned target ++ CExpr.assigned index
  | .memberLoad target _ => CExpr.assigned target
  | .castValue expression _ => CExpr.assigned expression
  | .arrayLiteral elements => expressionsAssigned elements
  | .postIncrement operand | .postDecrement operand => operand.lvalues

def expressionsAssigned : List CExpr → List String
  | [] => []
  | e :: es => CExpr.assigned e ++ expressionsAssigned es

def templateAssigned : List CTemplatePart → List String
  | [] => []
  | .text _ :: parts => templateAssigned parts
  | .value e :: parts => CExpr.assigned e ++ templateAssigned parts
end

theorem mem_expressionsAssigned {name : String} {es : List CExpr} :
    name ∈ expressionsAssigned es ↔ ∃ e ∈ es, name ∈ e.assigned := by
  induction es with
  | nil => simp [expressionsAssigned]
  | cons e es ih => simp [expressionsAssigned, ih]

/-! ## Operations of the runtime -/

/-- The steps of the runtime that an expression or a statement can take. -/
inductive CRuntime.Operation {S : Type} (rt : CRuntime S) : {α : Type} → RtM S α → Prop where
  | makeStringCopy (text : String) : Operation rt (rt.makeStringCopy text)
  | templateBuild (parts : List RtTemplatePart) : Operation rt (rt.templateBuild parts)
  | closureNew (id : Nat) : Operation rt (rt.closureNew id)
  | callOther (callee : CalyndaRtWord) (arguments : List CalyndaRtWord) :
      Operation rt (rt.callOther callee arguments)
  | externCall (name : String) (arguments : List CalyndaRtWord) :
      Operation rt (rt.externCall name arguments)
  | memberLoad (target : CalyndaRtWord) (member : String) :
      Operation rt (rt.memberLoad target member)
  | indexLoad (target index : CalyndaRtWord) : Operation rt (rt.indexLoad target index)
  | storeIndex (target index value : CalyndaRtWord) :
      Operation rt (rt.storeIndex target index value)
  | arrayLiteral (elements : List CalyndaRtWord) : Operation rt (rt.arrayLiteral elements)
  | castValue (word : CalyndaRtWord) (tag : CalyndaRtTypeTag) :
      Operation rt (rt.castValue word tag)
  | throwWord (word : CalyndaRtWord) : Operation rt (rt.throwWord word)

/-- What the emitted text relies on: a closure stays the closure of its function, and
`__calynda_rt_throw` does not return. -/
structure CRuntime.Lawful {S : Type} (rt : CRuntime S) : Prop where
  keeps_closures {α : Type} {m : RtM S α} (hOp : rt.Operation m) {s s' : S} {a : α}
    (hRun : m s = .ok (a, s')) {word : CalyndaRtWord} {id : Nat}
    (h : rt.callee s word = .closure id) : rt.callee s' word = .closure id
  throwWord_stops (word : CalyndaRtWord) (s : S) : ∃ halt, rt.throwWord word s = .error halt

/-! ## Related runs -/

section
variable {S : Type} {u u' : CUnit} {rt : CRuntime S} {call call' : CallHandler S}
variable {R : CState S → CState S → Prop} {reads writes : String → Prop}

/-- The relation is kept by everything that an expression does. -/
structure KeptByRuns (u u' : CUnit) (rt : CRuntime S) (call call' : CallHandler S)
    (R : CState S → CState S → Prop) (reads writes : String → Prop) : Prop where
  runtime_eq {s t : CState S} (h : R s t) : s.runtime = t.runtime
  runtime_step {s t : CState S} (h : R s t) {α : Type} {m : RtM S α} (hOp : rt.Operation m)
    {a : α} {runtime : S} (hRun : m s.runtime = .ok (a, runtime)) :
    R { s with runtime } { t with runtime }
  read {name : String} (hName : reads name) :
    RelTriple R (readVar u rt name) (readVar u' rt name) (Same R) Eq
  write {name : String} (hName : writes name) (word : CalyndaRtWord) :
    RelTriple R (writeVar u name word) (writeVar u' name word) (Same R) Eq
  callCallable (callee : CalyndaRtWord) (arguments : List CalyndaRtWord) :
    RelTriple R (callCallable rt call callee arguments) (callCallable rt call' callee arguments)
      (Same R) Eq

namespace KeptByRuns

variable (h : KeptByRuns u u' rt call call' R reads writes)
include h

theorem stop {α β : Type} {Q : α → β → CState S → CState S → Prop} (reason : Stop) :
    RelTriple R (stop reason) (Calynda.stop reason) Q Eq := by
  intro s t hst
  show OutcomeRel _ _ (.error _) (.error _)
  rw [h.runtime_eq hst]
  exact .error rfl

theorem orStop {α : Type} (reason : Stop) (a : Option α) :
    RelTriple R (orStop reason a) (Calynda.orStop reason a) (Same R) Eq := by
  cases a with
  | none => exact h.stop reason
  | some a => exact .ret a

theorem liftRt {α : Type} {m : RtM S α} (hOp : rt.Operation m) :
    RelTriple R (liftRt m) (Calynda.liftRt m) (Same R) Eq := by
  intro s t hst
  unfold Calynda.liftRt
  rw [← h.runtime_eq hst]
  cases hRun : m s.runtime with
  | error halt => exact .error rfl
  | ok p => exact .ok ⟨rfl, h.runtime_step hst hOp hRun⟩

theorem stepVar (operand : CExpr) (hReads : ∀ name ∈ operand.lvalues, reads name)
    (hWrites : ∀ name ∈ operand.lvalues, writes name) (amount : BitVec 32) :
    RelTriple R (stepVar u rt operand amount) (Calynda.stepVar u' rt operand amount) (Same R)
      Eq := by
  unfold Calynda.stepVar
  unfold CExpr.lvalues at hReads hWrites
  cases hName : operand.lvalue? with
  | none => exact (h.stop _).bind_of_fails
  | some name =>
    rw [hName] at hReads hWrites
    simp only [Calynda.orStop, pure_bind]
    refine (h.read (hReads name (by simp))).bind_same fun word => ?_
    exact (h.write (hWrites name (by simp)) _).bind_same fun _ => .ret _

theorem evalUnaryWord (operator : AstUnaryOperator) (word : CalyndaRtWord) :
    RelTriple R (evalUnaryWord operator word) (Calynda.evalUnaryWord operator word) (Same R)
      Eq := by
  cases operator with
  | logicalNot | bitwiseNot | negate | plus => exact .ret _
  | preIncrement | preDecrement | deref | addressOf => exact h.stop _

end KeptByRuns

theorem CExpr.mem_lvalues {e : CExpr} {name : String} (h : name ∈ e.lvalues) :
    ∃ v, e = .var v ∧ v.emitted = name := by
  cases e with
  | var v =>
    rw [CExpr.lvalues, CExpr.lvalue?, Option.toList_some, List.mem_singleton] at h
    exact ⟨v, rfl, h.symm⟩
  | _ => exact nomatch h

/-- The operands of `=`, `++` and `--` are among the variables that occur. -/
theorem CExpr.reads_lvalues (e : CExpr) (h : ∀ v, CExpr.var v ∈ e.atoms → reads v.emitted) :
    ∀ name ∈ e.lvalues, reads name := by
  intro name hName
  obtain ⟨v, rfl, rfl⟩ := mem_lvalues hName
  exact h v (List.mem_singleton_self _)

namespace KeptByRuns

mutual
/-- Both runs of an expression end alike. -/
theorem evalExpr (h : KeptByRuns u u' rt call call' R reads writes) :
    (e : CExpr) → (∀ v, CExpr.var v ∈ e.atoms → reads v.emitted) →
    (∀ name ∈ e.assigned, writes name) →
    RelTriple R (evalExpr u rt call e) (Calynda.evalExpr u' rt call' e) (Same R) Eq
  | .intLit text, _, _ => by
    rw [Calynda.evalExpr, Calynda.evalExpr]
    exact (h.orStop _ _).bind_same fun _ => .ret _
  | .floatLit text, _, _ => by
    rw [Calynda.evalExpr, Calynda.evalExpr]
    exact .ret _
  | .boolLit value, _, _ => by
    rw [Calynda.evalExpr, Calynda.evalExpr]
    exact .ret _
  | .charLit text, _, _ => by
    rw [Calynda.evalExpr, Calynda.evalExpr]
    exact (h.orStop _ _).bind_same fun _ => .ret _
  | .stringLit text, _, _ => by
    rw [Calynda.evalExpr, Calynda.evalExpr]
    exact h.liftRt (.makeStringCopy text)
  | .zero, _, _ => by
    rw [Calynda.evalExpr, Calynda.evalExpr]
    exact .ret _
  | .template parts, hReads, hWrites => by
    rw [Calynda.evalExpr, Calynda.evalExpr]
    refine (evalTemplateParts h parts hReads hWrites).bind_same fun parts => ?_
    exact h.liftRt (.templateBuild parts)
  | .var name, hReads, _ => by
    rw [Calynda.evalExpr, Calynda.evalExpr]
    exact h.read (hReads name (List.mem_singleton_self _))
  | .externName name, _, _ => by
    rw [Calynda.evalExpr, Calynda.evalExpr]
    exact .ret _
  | .closureNew id lambda, _, _ => by
    rw [Calynda.evalExpr, Calynda.evalExpr]
    exact h.liftRt (.closureNew id)
  | .unregistered lambda, _, _ => by
    rw [Calynda.evalExpr, Calynda.evalExpr]
    exact .ret _
  | .storeIndex target i value, hReads, hWrites => by
    rw [Calynda.evalExpr, Calynda.evalExpr]
    simp only [CExpr.atoms, CExpr.assigned, List.mem_append, or_imp, forall_and] at hReads hWrites
    refine (evalExpr h target hReads.1.1 hWrites.1.1).bind_same fun target => ?_
    refine (evalExpr h i hReads.1.2 hWrites.1.2).bind_same fun i => ?_
    refine (evalExpr h value hReads.2 hWrites.2).bind_same fun value => ?_
    exact (h.liftRt (.storeIndex target i value)).bind_same fun _ => .ret _
  | .loaded target i operator value, hReads, hWrites => by
    rw [Calynda.evalExpr, Calynda.evalExpr]
    simp only [CExpr.atoms, CExpr.assigned, List.mem_append, or_imp, forall_and] at hReads hWrites
    refine (evalExpr h target hReads.1.1 hWrites.1.1).bind_same fun target => ?_
    refine (evalExpr h i hReads.1.2 hWrites.1.2).bind_same fun i => ?_
    refine (h.liftRt (.indexLoad target i)).bind_same fun loaded => ?_
    refine (evalExpr h value hReads.2 hWrites.2).bind_same fun value => ?_
    exact (h.orStop _ _).bind_same fun _ => .ret _
  | .assign target operator value, hReads, hWrites => by
    rw [Calynda.evalExpr, Calynda.evalExpr]
    simp only [CExpr.atoms, CExpr.assigned, List.mem_append, or_imp, forall_and] at hReads hWrites
    have hTarget := CExpr.reads_lvalues target hReads.1
    unfold CExpr.lvalues at hTarget hWrites
    cases hName : target.lvalue? with
    | none => exact (h.stop _).bind_of_fails
    | some name =>
      rw [hName] at hTarget hWrites
      simp only [Calynda.orStop, pure_bind]
      have hName : name ∈ (some name).toList := List.mem_singleton_self _
      cases compoundInfix operator with
      | none =>
        refine (evalExpr h value hReads.2 hWrites.2).bind_same fun word => ?_
        exact (h.write (hWrites.1 name hName) word).bind_same fun _ => .ret _
      | some operator =>
        refine (h.read (hTarget name hName)).bind_same fun old => ?_
        refine (evalExpr h value hReads.2 hWrites.2).bind_same fun value => ?_
        refine (h.orStop _ _).bind_same fun bits => ?_
        exact (h.write (hWrites.1 name hName) _).bind_same fun _ => .ret _
  | .ternary condition thenBranch elseBranch, hReads, hWrites => by
    rw [Calynda.evalExpr, Calynda.evalExpr]
    simp only [CExpr.atoms, CExpr.assigned, List.mem_append, or_imp, forall_and] at hReads hWrites
    refine (evalExpr h condition hReads.1.1 hWrites.1.1).bind_same fun word => ?_
    by_cases hWord : word.bits ≠ 0
    · simp only [if_pos hWord]
      exact evalExpr h thenBranch hReads.1.2 hWrites.1.2
    · simp only [if_neg hWord]
      exact evalExpr h elseBranch hReads.2 hWrites.2
  | .floatArith operator leftFloat left rightFloat right, hReads, hWrites => by
    rw [Calynda.evalExpr, Calynda.evalExpr]
    simp only [CExpr.atoms, CExpr.assigned, List.mem_append, or_imp, forall_and] at hReads hWrites
    refine (evalExpr h left hReads.1 hWrites.1).bind_same fun left => ?_
    refine (evalExpr h right hReads.2 hWrites.2).bind_same fun right => ?_
    exact (h.orStop _ _).bind_same fun _ => .ret _
  | .floatCompare operator leftFloat left rightFloat right, hReads, hWrites => by
    rw [Calynda.evalExpr, Calynda.evalExpr]
    simp only [CExpr.atoms, CExpr.assigned, List.mem_append, or_imp, forall_and] at hReads hWrites
    refine (evalExpr h left hReads.1 hWrites.1).bind_same fun left => ?_
    refine (evalExpr h right hReads.2 hWrites.2).bind_same fun right => ?_
    exact (h.orStop _ _).bind_same fun _ => .ret _
  | .binary operator left right, hReads, hWrites => by
    rw [Calynda.evalExpr, Calynda.evalExpr]
    simp only [CExpr.atoms, CExpr.assigned, List.mem_append, or_imp, forall_and] at hReads hWrites
    refine (evalExpr h left hReads.1 hWrites.1).bind_same fun left => ?_
    have hRight := evalExpr h right hReads.2 hWrites.2
    split
    · by_cases hLeft : left.bits ≠ 0
      · simp only [if_pos hLeft]
        exact .ret _
      · simp only [if_neg hLeft]
        exact hRight.bind_same fun _ => .ret _
    · by_cases hLeft : left.bits = 0
      · simp only [if_pos hLeft]
        exact .ret _
      · simp only [if_neg hLeft]
        exact hRight.bind_same fun _ => .ret _
    · exact hRight.bind_same fun right => (h.orStop _ _).bind_same fun _ => .ret _
  | .floatNegate operand, hReads, hWrites => by
    rw [Calynda.evalExpr, Calynda.evalExpr]
    exact (evalExpr h operand hReads hWrites).bind_same fun _ => .ret _
  | .unary operator operand, hReads, hWrites => by
    have hOperand := CExpr.reads_lvalues operand hReads
    cases operator with
    | preIncrement =>
      rw [Calynda.evalExpr, Calynda.evalExpr]
      exact (h.stepVar operand hOperand hWrites 1).bind_same fun _ => .ret _
    | preDecrement =>
      rw [Calynda.evalExpr, Calynda.evalExpr]
      exact (h.stepVar operand hOperand hWrites (-1)).bind_same fun _ => .ret _
    | _ =>
      rw [Calynda.evalExpr, Calynda.evalExpr]
      · exact (evalExpr h operand hReads hWrites).bind_same fun _ => h.evalUnaryWord _ _
      all_goals nofun
  | .externCall name arguments, hReads, hWrites => by
    rw [Calynda.evalExpr, Calynda.evalExpr]
    simp only [CExpr.atoms, List.mem_cons, or_imp, forall_and] at hReads
    refine (evalExprs h arguments hReads.2 hWrites).bind_same fun arguments => ?_
    exact h.liftRt (.externCall _ arguments)
  | .callCallable callee arguments, hReads, hWrites => by
    rw [Calynda.evalExpr, Calynda.evalExpr]
    simp only [CExpr.atoms, CExpr.assigned, List.mem_append, or_imp, forall_and] at hReads hWrites
    refine (evalExpr h callee hReads.1 hWrites.1).bind_same fun callee => ?_
    refine (evalExprs h arguments hReads.2 hWrites.2).bind_same fun arguments => ?_
    exact h.callCallable callee arguments
  | .indexLoad target i, hReads, hWrites => by
    rw [Calynda.evalExpr, Calynda.evalExpr]
    simp only [CExpr.atoms, CExpr.assigned, List.mem_append, or_imp, forall_and] at hReads hWrites
    refine (evalExpr h target hReads.1 hWrites.1).bind_same fun target => ?_
    refine (evalExpr h i hReads.2 hWrites.2).bind_same fun i => ?_
    exact h.liftRt (.indexLoad target i)
  | .memberLoad target member, hReads, hWrites => by
    rw [Calynda.evalExpr, Calynda.evalExpr]
    refine (evalExpr h target hReads hWrites).bind_same fun target => ?_
    exact h.liftRt (.memberLoad target member)
  | .castValue expression tag, hReads, hWrites => by
    rw [Calynda.evalExpr, Calynda.evalExpr]
    refine (evalExpr h expression hReads hWrites).bind_same fun word => ?_
    exact h.liftRt (.castValue word tag)
  | .arrayLiteral elements, hReads, hWrites => by
    rw [Calynda.evalExpr, Calynda.evalExpr]
    refine (evalExprs h elements hReads hWrites).bind_same fun elements => ?_
    exact h.liftRt (.arrayLiteral elements)
  | .postIncrement operand, hReads, hWrites => by
    rw [Calynda.evalExpr, Calynda.evalExpr]
    have hOperand := CExpr.reads_lvalues operand hReads
    exact (h.stepVar operand hOperand hWrites 1).bind_same fun _ => .ret _
  | .postDecrement operand, hReads, hWrites => by
    rw [Calynda.evalExpr, Calynda.evalExpr]
    have hOperand := CExpr.reads_lvalues operand hReads
    exact (h.stepVar operand hOperand hWrites (-1)).bind_same fun _ => .ret _

theorem evalExprs (h : KeptByRuns u u' rt call call' R reads writes) :
    (es : List CExpr) →
    (∀ v, CExpr.var v ∈ expressionsAtoms es → reads v.emitted) →
    (∀ name ∈ expressionsAssigned es, writes name) →
    RelTriple R (evalExprs u rt call es) (Calynda.evalExprs u' rt call' es) (Same R) Eq
  | [], _, _ => by
    rw [Calynda.evalExprs, Calynda.evalExprs]
    exact .ret _
  | e :: es, hReads, hWrites => by
    rw [Calynda.evalExprs, Calynda.evalExprs]
    simp only [expressionsAtoms, expressionsAssigned, List.mem_append, or_imp,
      forall_and] at hReads hWrites
    refine (evalExpr h e hReads.1 hWrites.1).bind_same fun word => ?_
    exact (evalExprs h es hReads.2 hWrites.2).bind_same fun _ => .ret _

theorem evalTemplateParts (h : KeptByRuns u u' rt call call' R reads writes) :
    (parts : List CTemplatePart) →
    (∀ v, CExpr.var v ∈ templateAtoms parts → reads v.emitted) →
    (∀ name ∈ templateAssigned parts, writes name) →
    RelTriple R (evalTemplateParts u rt call parts)
      (Calynda.evalTemplateParts u' rt call' parts) (Same R) Eq
  | [], _, _ => by
    rw [Calynda.evalTemplateParts, Calynda.evalTemplateParts]
    exact .ret _
  | .text text :: parts, hReads, hWrites => by
    rw [Calynda.evalTemplateParts, Calynda.evalTemplateParts]
    exact (evalTemplateParts h parts hReads hWrites).bind_same fun _ => .ret _
  | .value e :: parts, hReads, hWrites => by
    rw [Calynda.evalTemplateParts, Calynda.evalTemplateParts]
    simp only [templateAtoms, templateAssigned, List.mem_append, or_imp,
      forall_and] at hReads hWrites
    refine (evalExpr h e hReads.1 hWrites.1).bind_same fun word => ?_
    exact (evalTemplateParts h parts hReads.2 hWrites.2).bind_same fun _ => .ret _
end

end KeptByRuns

end

end Calynda
