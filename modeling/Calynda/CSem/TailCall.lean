import Calynda.CEmit.Registration
import Calynda.CSem.Binding
import Calynda.CSem.Runtime

/-!
# Tail calls

A lambda function whose body ends in a call of its own binding is emitted as a loop that
assigns to the parameters, instead of a call. The loop is compared with the body emitted as
it stands, call by call and pass by pass: the two take the same of any budget.
-/

namespace Calynda

open Relational StateExcept

/-! ## Statements that end a function -/

mutual
/-- The statement does not go on to the next one: it returns or stops. -/
def CStmt.leaves : CStmt → Bool
  | .returnWord _ | .returnVoid | .exit | .throw _ => true
  | .block statements => stmtsLeave statements
  | .line _ _ | .declare _ _ | .expression _ => false

def stmtsLeave : List CStmt → Bool
  | [] => false
  | s :: ss => s.leaves || stmtsLeave ss
end

section
variable {S : Type} {u : CUnit} {rt : CRuntime S} {call : CallHandler S}

mutual
/-- A statement that ends goes on to the next one unless it leaves. -/
theorem execStmt_flow (hRt : rt.Lawful) : (st : CStmt) → {s s' : CState S} → {flow : Flow} →
    execStmt u rt call st s = .ok (flow, s') → (flow = .next ↔ st.leaves = false)
  | .line number file, _, _, _, hRun => by
    rw [execStmt] at hRun
    cases hRun
    exact iff_of_true rfl rfl
  | .declare target initializer, _, _, _, hRun => by
    rw [execStmt] at hRun
    obtain ⟨_, _, -, hRun⟩ := bind_eq_ok.1 hRun
    obtain ⟨_, _, -, hRun⟩ := bind_eq_ok.1 hRun
    obtain ⟨_, _, -, hRun⟩ := bind_eq_ok.1 hRun
    cases hRun
    exact iff_of_true rfl rfl
  | .returnWord expression, _, _, _, hRun => by
    rw [execStmt] at hRun
    obtain ⟨_, _, -, hRun⟩ := bind_eq_ok.1 hRun
    cases hRun
    exact iff_of_false nofun nofun
  | .returnVoid, _, _, _, hRun => by
    rw [execStmt] at hRun
    cases hRun
    exact iff_of_false nofun nofun
  | .exit, _, _, _, hRun => by
    rw [execStmt] at hRun
    exact nomatch hRun
  | .throw expression, _, _, _, hRun => by
    rw [execStmt] at hRun
    obtain ⟨w, s₁, -, hRun⟩ := bind_eq_ok.1 hRun
    obtain ⟨_, _, hThrow, -⟩ := bind_eq_ok.1 hRun
    obtain ⟨halt, hHalt⟩ := hRt.throwWord_stops w s₁.runtime
    simp only [liftRt, hHalt] at hThrow
    exact nomatch hThrow
  | .expression expression, _, _, _, hRun => by
    rw [execStmt] at hRun
    obtain ⟨_, _, -, hRun⟩ := bind_eq_ok.1 hRun
    cases hRun
    exact iff_of_true rfl rfl
  | .block statements, _, _, _, hRun => by
    rw [execStmt] at hRun
    obtain ⟨_, _, -, hRun⟩ := bind_eq_ok.1 hRun
    obtain ⟨_, _, hFlow, hRun⟩ := bind_eq_ok.1 hRun
    obtain ⟨_, _, -, hRun⟩ := bind_eq_ok.1 hRun
    cases hRun
    exact execStmts_flow hRt statements hFlow

theorem execStmts_flow (hRt : rt.Lawful) : (ss : List CStmt) → {s s' : CState S} →
    {flow : Flow} → execStmts u rt call ss s = .ok (flow, s') →
    (flow = .next ↔ stmtsLeave ss = false)
  | [], _, _, _, hRun => by
    rw [execStmts] at hRun
    cases hRun
    exact iff_of_true rfl rfl
  | st :: ss, _, _, _, hRun => by
    rw [execStmts] at hRun
    obtain ⟨flow, _, hFlow, hRun⟩ := bind_eq_ok.1 hRun
    have hFirst := execStmt_flow hRt st hFlow
    rw [stmtsLeave, Bool.or_eq_false_iff]
    cases flow with
    | next =>
      rw [execStmts_flow hRt ss hRun]
      exact ⟨fun h => ⟨hFirst.1 rfl, h⟩, And.right⟩
    | ret w =>
      cases hRun
      exact iff_of_false nofun fun h => nomatch hFirst.2 h.1
end

end

/-! ## The body without the loop -/

/-- The unit with other statements as the body of a function. -/
def CUnit.withPlainBody (u : CUnit) (id : Nat) (statements : List CStmt) : CUnit :=
  { u with functions := u.functions.map fun f =>
      if f.id = id then { f with body := .plain statements } else f }

/-- The function of `withPlainBody`. -/
def CFunction.withPlainBody (f : CFunction) (id : Nat) (statements : List CStmt) : CFunction :=
  if f.id = id then { f with body := .plain statements } else f

theorem function?_withPlainBody (u : CUnit) (id : Nat) (statements : List CStmt) (i : Nat) :
    (u.withPlainBody id statements).function? i =
      (u.function? i).map fun f => f.withPlainBody id statements := by
  show (u.functions.map fun f => f.withPlainBody id statements).find? _ = _
  rw [List.find?_map]
  congr 1
  unfold CUnit.function?
  congr 1
  funext f
  show ((f.withPlainBody id statements).id == i) = _
  unfold CFunction.withPlainBody
  split <;> rfl

/-- The conditions under which the loop does what the call does: no assignment of a parameter
changes what a later argument reads, no local of the body has the name of a parameter, and
the callee is the global variable, which no function assigns to. The parameters have
different names, and none is the name of a package. -/
structure TailLoopSafe (u : CUnit) (f : CFunction) (callee : CVar) (statements : List CStmt)
    (reassignments : List CAssignment) : Prop where
  order : reassignments.Pairwise CAssignment.Unseen
  distinct : (f.parameters.map CVar.emitted).Nodup
  locals {p : CVar} (hp : p ∈ f.parameters) : p.emitted ∉ stmtsDeclared statements
  callee_global : callee.emitted ∉ scopeAfterStmts (f.parameters.map CVar.emitted) statements
  macros {x : CVar} (hx : x ∈ callee :: f.parameters) : u.macro? x.emitted = none
  kept {g : CFunction} (hg : g ∈ u.functions) : g.Keeps callee.emitted

section
variable {S : Type} {rt : CRuntime S}

theorem frameBlind_callHandler (u : CUnit) (rt : CRuntime S) (n : Nat) :
    FrameBlind (callHandler u rt n) := by
  intro id arguments s frame
  unfold callHandler
  cases n with
  | zero => rfl
  | succ n =>
    rw [exec]
    cases u.function? id with
    | none => rfl
    | some f =>
      show (enterFunction f.parameters arguments >>= _) _ =
        (enterFunction f.parameters arguments >>= _) _
      unfold enterFunction
      split <;> rfl

theorem exec_call (u : CUnit) (rt : CRuntime S) (n : Nat) (id : Nat)
    (arguments : List CalyndaRtWord) :
    exec u rt (n + 1) (.call id arguments) =
      match u.function? id with
      | none => stop .illFormed
      | some f =>
        enterFunction f.parameters arguments >>= fun _ => exec u rt (n + 1) (.pass f.body) := by
  rw [exec]
  cases u.function? id with
  | none => rfl
  | some f => rfl

theorem exec_pass (u : CUnit) (rt : CRuntime S) (n : Nat) (body : CLambdaBody) :
    exec u rt (n + 1) (.pass body) =
      execLambdaBody u rt (callHandler u rt n) (exec u rt n (.pass body)) body := by
  rw [exec]
  rfl

theorem execStmts_append {u : CUnit} {call : CallHandler S} (ss ts : List CStmt) :
    execStmts u rt call (ss ++ ts) = (do
      match ← execStmts u rt call ss with
      | .next => execStmts u rt call ts
      | .ret word => return .ret word) := by
  induction ss with
  | nil => rfl
  | cons s ss ih =>
    rw [List.cons_append, execStmts, execStmts, bind_assoc]
    congr 1
    funext flow
    cases flow with
    | next => exact ih
    | ret word => rfl

theorem execLambdaBody_append {u : CUnit} {call : CallHandler S} {again : CM S CalyndaRtWord}
    (ss ts : List CStmt) :
    execLambdaBody u rt call again (.plain (ss ++ ts)) = (do
      match ← execStmts u rt call ss with
      | .next => execLambdaBody u rt call again (.plain ts)
      | .ret word => return word) := by
  rw [execLambdaBody, execStmts_append, bind_assoc]
  congr 1
  funext flow
  cases flow <;> rfl

theorem execLambdaBody_tailLoop {u : CUnit} {call : CallHandler S}
    {again : CM S CalyndaRtWord} (ss : List CStmt) (as : List CAssignment) (s : CState S) :
    execLambdaBody u rt call again (.tailLoop ss as) s =
      (execStmts u rt call ss >>= fun
        | .next => execAssignments u rt call as >>= fun _ =>
          leaveBlock s.frame.length >>= fun _ => again
        | .ret word => pure word) s := by
  rw [execLambdaBody]
  rfl

/-- `#line` directives and an expression at the end of a body. -/
theorem execLambdaBody_lines {u : CUnit} {call : CallHandler S} {again : CM S CalyndaRtWord}
    {lines : List CStmt} (hLines : ∀ st ∈ lines, ∃ number file, st = .line number file)
    (e : CExpr) :
    execLambdaBody u rt call again (.plain (lines ++ [.expression e])) =
      (evalExpr u rt call e >>= fun _ => pure .zero) := by
  induction lines with
  | nil =>
    rw [List.nil_append, execLambdaBody, execStmts, execStmt, bind_assoc, bind_assoc]
    rfl
  | cons st lines ih =>
    obtain ⟨number, file, rfl⟩ := hLines st List.mem_cons_self
    exact ih fun st' hst' => hLines st' (List.mem_cons_of_mem _ hst')

/-- A loop whose statements do not leave never returns. -/
theorem exec_tailLoop_ne_ok {u : CUnit} (hRt : rt.Lawful) {statements : List CStmt}
    {reassignments : List CAssignment} (hLeave : stmtsLeave statements = false) (n : Nat) :
    ∀ s r, exec u rt n (.pass (.tailLoop statements reassignments)) s ≠ .ok r := by
  induction n with
  | zero => exact fun s r => nofun
  | succ n ih =>
    intro s r hRun
    rw [exec_pass, execLambdaBody] at hRun
    obtain ⟨_, s₁, -, hRun⟩ := bind_eq_ok.1 hRun
    obtain ⟨flow, s₂, hFlow, hRun⟩ := bind_eq_ok.1 hRun
    obtain rfl := (execStmts_flow hRt statements hFlow).2 hLeave
    obtain ⟨_, s₃, -, hRun⟩ := bind_eq_ok.1 hRun
    obtain ⟨_, s₄, -, hRun⟩ := bind_eq_ok.1 hRun
    exact ih s₄ _ hRun

/-! ## The loop and the call -/

/-- The tail call as it is emitted without the loop. -/
def IsTailCall (callee : CVar) (reassignments : List CAssignment) (last : List CStmt) : Prop :=
  ∃ lines : List CStmt, (∀ st ∈ lines, ∃ number file, st = .line number file) ∧
    last = lines ++
      [.expression (.callCallable (.var callee) (reassignments.map CAssignment.value))]

/-- A function of the unit that is a loop, and the text of the tail call; the conditions
matter when the call is reached. -/
structure TailLoop (u : CUnit) (f : CFunction) (callee : CVar) (statements last : List CStmt)
    (reassignments : List CAssignment) : Prop where
  function : u.function? f.id = some f
  body : f.body = .tailLoop statements reassignments
  targets : reassignments.map CAssignment.target = f.parameters
  last (h : stmtsLeave statements = false) : IsTailCall callee reassignments last
  safe (h : stmtsLeave statements = false) :
    TailLoopSafe u f callee statements reassignments

/-- The unit with the body of the function emitted as it stands. -/
def CUnit.withoutLoop (u : CUnit) (f : CFunction) (statements last : List CStmt) : CUnit :=
  u.withPlainBody f.id (statements ++ last)

/-- What a budget allows to compare: calls, passes of one body in both units, and the passes
of the loop. -/
structure RunsAgree (u : CUnit) (rt : CRuntime S) (f : CFunction) (callee : CVar)
    (statements last : List CStmt) (reassignments : List CAssignment) (word : CalyndaRtWord)
    (n : Nat) : Prop where
  call :
    HandlersAgree rt (stmtsLeave statements = false) callee.emitted word f.id
      (callHandler (u.withoutLoop f statements last) rt n)
      (callHandler u rt n)
  pass (body : CLambdaBody) (scope : List String)
    (hKeeps : stmtsLeave statements = false → body.Keeps callee.emitted scope) :
    RelTriple
      (Diagonal (BoundIn rt (stmtsLeave statements = false) callee.emitted word f.id scope))
      (exec (u.withoutLoop f statements last) rt n (.pass body))
      (exec u rt n (.pass body))
      (Same (Diagonal (Bound rt (stmtsLeave statements = false) callee.emitted word f.id))) Eq
  loop :
    RelTriple
      (Diagonal (BoundIn rt (stmtsLeave statements = false) callee.emitted word f.id
        (f.parameters.map CVar.emitted)))
      (exec (u.withoutLoop f statements last) rt n (.pass (.plain (statements ++ last))))
      (exec u rt n (.pass (.tailLoop statements reassignments)))
      (Same (Diagonal (Bound rt (stmtsLeave statements = false) callee.emitted word f.id))) Eq

namespace RunsAgree

variable {u : CUnit} {f : CFunction} {callee : CVar} {statements last : List CStmt}
variable {reassignments : List CAssignment} {word : CalyndaRtWord} {n : Nat}

theorem units (hRt : rt.Lawful)
    (h : RunsAgree u rt f callee statements last reassignments word n) :
    UnitsAgree (u.withoutLoop f statements last) u rt (stmtsLeave statements = false) callee.emitted word f.id
      (callHandler (u.withoutLoop f statements last) rt n)
      (callHandler u rt n) where
  lawful := hRt
  imports := rfl
  call := h.call

theorem zero : RunsAgree u rt f callee statements last reassignments word 0 where
  call _ _ := fun _ _ ⟨hEq, _⟩ => hEq ▸ .error rfl
  pass _ _ _ := fun _ _ ⟨hEq, _⟩ => hEq ▸ .error rfl
  loop := fun _ _ ⟨hEq, _⟩ => hEq ▸ .error rfl

/-- A pass of one body takes the same course in both units. -/
theorem pass_succ (hRt : rt.Lawful)
    (h : RunsAgree u rt f callee statements last reassignments word n) (body : CLambdaBody)
    (scope : List String)
    (hKeeps : stmtsLeave statements = false → body.Keeps callee.emitted scope) :
    RelTriple
      (Diagonal (BoundIn rt (stmtsLeave statements = false) callee.emitted word f.id scope))
      (exec (u.withoutLoop f statements last) rt (n + 1) (.pass body))
      (exec u rt (n + 1) (.pass body))
      (Same (Diagonal (Bound rt (stmtsLeave statements = false) callee.emitted word f.id)))
      Eq := by
  rw [exec_pass, exec_pass]
  cases body with
  | plain ss =>
    rw [execLambdaBody, execLambdaBody]
    refine ((h.units hRt).execStmts ss hKeeps).bind fun flow flow' => ?_
    rintro s t ⟨rfl, rfl, hBound, -⟩
    cases flow with
    | next => exact .ok ⟨rfl, rfl, hBound⟩
    | ret w => exact .ok ⟨rfl, rfl, hBound⟩
  | tailLoop ss as =>
    rw [execLambdaBody, execLambdaBody]
    refine .get_bind fun s t ⟨hEq, hs⟩ => ?_
    subst hEq
    refine ((h.units hRt).execStmts ss (fun hTracked => (hKeeps hTracked).1) s s
      ⟨rfl, hs⟩).bind ?_
    rintro flow _ s₁ _ - - ⟨rfl, rfl, hBound, hNames⟩
    cases flow with
    | ret w => exact .ok ⟨rfl, rfl, hBound⟩
    | next =>
      refine ((h.units hRt).execAssignments as (fun hTracked => (hKeeps hTracked).2) s₁ s₁
        ⟨rfl, hBound, hNames rfl⟩).bind ?_
      rintro - - s₂ _ - - ⟨-, rfl, hs₂⟩
      have hOuter : s.frame.length = scope.length := by
        rw [← hs.2, CFrame.names, List.length_map]
      rw [scopeAfterStmts_eq] at hs₂
      have hLeft := BoundIn.leaveBlock hs₂
      rw [← hOuter] at hLeft
      exact h.pass (.tailLoop ss as) scope hKeeps _ _ ⟨rfl, hLeft⟩

theorem enterFunction_bound {tracked : Prop} {name : String} {id : Nat}
    (parameters : List CVar) (arguments : List CalyndaRtWord) :
    RelTriple (Diagonal (Bound rt tracked name word id)) (enterFunction parameters arguments)
      (enterFunction parameters arguments)
      (Same (Diagonal (BoundIn rt tracked name word id (parameters.map CVar.emitted)))) Eq := by
  unfold enterFunction
  split
  · exact fun _ _ ⟨hEq, _⟩ => hEq ▸ .error rfl
  · next hLength =>
      exact .of_modify fun s t ⟨hEq, hs⟩ =>
        ⟨rfl, by rw [hEq], hs, CFrame.names_zipWith (Nat.le_of_not_lt hLength)⟩

/-- A call takes the same course in both units. -/
theorem call_succ (hLoop : TailLoop u f callee statements last reassignments)
    (hPass : ∀ body scope, (stmtsLeave statements = false → body.Keeps callee.emitted scope) →
      RelTriple
        (Diagonal (BoundIn rt (stmtsLeave statements = false) callee.emitted word f.id scope))
        (exec (u.withoutLoop f statements last) rt (n + 1) (.pass body))
        (exec u rt (n + 1) (.pass body))
        (Same (Diagonal (Bound rt (stmtsLeave statements = false) callee.emitted word f.id)))
        Eq)
    (hSelf : RelTriple
      (Diagonal (BoundIn rt (stmtsLeave statements = false) callee.emitted word f.id
        (f.parameters.map CVar.emitted)))
      (exec (u.withoutLoop f statements last) rt (n + 1) (.pass (.plain (statements ++ last))))
      (exec u rt (n + 1) (.pass (.tailLoop statements reassignments)))
      (Same (Diagonal (Bound rt (stmtsLeave statements = false) callee.emitted word f.id))) Eq) :
    HandlersAgree rt (stmtsLeave statements = false) callee.emitted word f.id
      (callHandler (u.withoutLoop f statements last) rt (n + 1))
      (callHandler u rt (n + 1)) := by
  intro i arguments
  unfold callHandler
  rw [exec_call, exec_call, CUnit.withoutLoop, function?_withPlainBody]
  cases hFind : u.function? i with
  | none => exact fun _ _ ⟨hEq, _⟩ => hEq ▸ .error rfl
  | some g =>
    rw [Option.map_some]
    by_cases hId : g.id = f.id
    · obtain rfl : g.id = i := by simpa using List.find?_some hFind
      obtain rfl : g = f := by
        rw [hId, hLoop.function] at hFind
        exact (Option.some.inj hFind).symm
      simp only [CFunction.withPlainBody, if_pos]
      rw [hLoop.body]
      exact (enterFunction_bound g.parameters arguments).bind_same fun _ => hSelf
    · simp only [CFunction.withPlainBody, if_neg hId]
      refine (enterFunction_bound g.parameters arguments).bind_same fun _ => ?_
      exact hPass g.body _ fun hTracked =>
        (hLoop.safe hTracked).kept (List.mem_of_find?_eq_some hFind)

/-- The next pass of the loop against the call, from states that differ in the frame: the
loop holds the words of the arguments in its parameters. -/
theorem pass_call (hRt : rt.Lawful) (hLeave : stmtsLeave statements = false)
    (hLoop : TailLoop u f callee statements last reassignments)
    (h : RunsAgree u rt f callee statements last reassignments word n)
    {words : List CalyndaRtWord} (hLength : f.parameters.length ≤ words.length)
    {s t : CState S} (hGlobals : s.globals = t.globals) (hRuntime : s.runtime = t.runtime)
    (hFrame : t.frame = List.zipWith (fun p w => (p.emitted, some w)) f.parameters words)
    (hBound : Bound rt (stmtsLeave statements = false) callee.emitted word f.id t) :
    ∃ halt,
      exec (u.withoutLoop f statements last) rt n (.call f.id words) s =
        .error halt ∧
      exec u rt n (.pass (.tailLoop statements reassignments)) t = .error halt := by
  have hPlain : exec (u.withoutLoop f statements last) rt n
      (.call f.id words) s =
      exec (u.withoutLoop f statements last) rt n (.pass (.plain (statements ++ last))) t := by
    cases n with
    | zero =>
      show Except.error _ = Except.error _
      rw [hRuntime]
    | succ n =>
      rw [exec_call, CUnit.withoutLoop, function?_withPlainBody, hLoop.function]
      simp only [Option.map_some, CFunction.withPlainBody, if_pos]
      rw [enterFunction, if_neg (Nat.not_lt.2 hLength)]
      have hState : t = { s with frame := t.frame } := by rw [hGlobals, hRuntime]
      rw [hState, hFrame]
      rfl
  have hNames : t.frame.names = f.parameters.map CVar.emitted := by
    rw [hFrame, CFrame.names_zipWith hLength]
  have hAgree := h.loop t t ⟨rfl, hBound, hNames⟩
  rw [hPlain]
  cases hRun : exec u rt n (.pass (.tailLoop statements reassignments)) t with
  | ok r => exact absurd hRun (exec_tailLoop_ne_ok hRt hLeave n t r)
  | error halt =>
    rw [hRun] at hAgree
    generalize exec (u.withoutLoop f statements last) rt n _ t = x
      at hAgree ⊢
    cases hAgree with
    | error hEq => exact ⟨halt, by rw [hEq], rfl⟩

/-- The end of a pass of the loop against the tail call. -/
theorem tail_succ (hRt : rt.Lawful) (hLeave : stmtsLeave statements = false)
    (hLoop : TailLoop u f callee statements last reassignments)
    (h : RunsAgree u rt f callee statements last reassignments word n)
    {again : CM S CalyndaRtWord} {s : CState S}
    (hs : BoundIn rt (stmtsLeave statements = false) callee.emitted word f.id
      (scopeAfterStmts (f.parameters.map CVar.emitted) statements) s) :
    OutcomeRel (Same (Diagonal (Bound rt (stmtsLeave statements = false) callee.emitted word
        f.id))) Eq
      (execLambdaBody (u.withoutLoop f statements last) rt
        (callHandler (u.withoutLoop f statements last) rt n) again
        (.plain last) s)
      ((execAssignments u rt (callHandler u rt n) reassignments >>= fun _ =>
        leaveBlock f.parameters.length >>= fun _ =>
          exec u rt n (.pass (.tailLoop statements reassignments))) s) := by
  have hUnits := h.units hRt
  have hSafe := hLoop.safe hLeave
  have hKept : (CLambdaBody.tailLoop statements reassignments).Keeps callee.emitted
      (f.parameters.map CVar.emitted) :=
    hLoop.body ▸ hSafe.kept (List.mem_of_find?_eq_some hLoop.function)
  have hMacro : ∀ x ∈ callee :: f.parameters,
      (u.withoutLoop f statements last).macro? x.emitted = none :=
    fun x hx => hSafe.macros hx
  have hRead : readVar (u.withoutLoop f statements last) rt
      callee.emitted s = .ok (word, s) := by
    have hLookup := CFrame.lookup_eq_none.2 (hs.2.symm ▸ hSafe.callee_global)
    rw [readVar_eq, hMacro callee List.mem_cons_self, hLookup, (hs.1 hLeave).1]
  have hAssign := (hUnits.execAssignments reassignments fun _ => hKept.2).diagonal_eq hs
  obtain ⟨lines, hLines, hLast⟩ := hLoop.last hLeave
  rw [show CLambdaBody.plain last = _ from congrArg _ hLast, execLambdaBody_lines hLines,
    evalExpr, bind_assoc, evalExpr, bind_ok hRead, bind_assoc, ← bind_congr_run hAssign]
  have hStart : FramesAgree (scopeAfterStmts (f.parameters.map CVar.emitted) statements) [] []
      (fun _ => none) s s := ⟨rfl, rfl, hs.2, hs.2, fun _ => rfl, nofun⟩
  have hNodup : (reassignments.map fun a => a.target.emitted).Nodup := by
    have hNodup := hSafe.distinct
    rw [← hLoop.targets, List.map_map] at hNodup
    exact hNodup
  have hTarget : ∀ a ∈ reassignments, a.target ∈ f.parameters := fun a ha =>
    hLoop.targets ▸ List.mem_map_of_mem ha
  refine (evalExprs_execAssignments (frameBlind_callHandler _ rt n) hStart
    (fun _ _ _ => nofun) (fun _ _ _ => nofun) hSafe.order hNodup fun a ha => ⟨nofun, ?_,
      hMacro a.target (List.mem_cons_of_mem _ (hTarget a ha))⟩).bind ?_
  · rw [scopeAfterStmts_eq]
    exact List.mem_append_right _ (List.mem_map_of_mem (hTarget a ha))
  rintro words _ s₁ t₁ hWords - hAssigned
  have hBound : BoundIn rt (stmtsLeave statements = false) callee.emitted word f.id
      (scopeAfterStmts (f.parameters.map CVar.emitted) statements) s₁ := by
    refine ((hUnits.keptByRuns _).evalExprs _ (fun _ _ => trivial) ?_).diagonal_inv hs hWords
    intro x hx _ hEq
    obtain ⟨e, he, hxe⟩ := mem_expressionsAssigned.1 hx
    obtain ⟨a, ha, rfl⟩ := List.mem_map.1 he
    exact (hKept.2 a ha).1 (hEq ▸ hxe)
  have hNames := hAssigned.names
  rw [scopeAfterStmts_eq] at hNames
  have hLength : f.parameters.length = words.length := by
    rw [← hAssigned.words.length_eq, ← hLoop.targets, List.length_map]
  have hDrop : t₁.frame.length - f.parameters.length = (stmtsDeclared statements).length := by
    have hFrame := congrArg List.length hNames
    simp only [CFrame.names, List.length_map, List.length_append] at hFrame
    omega
  -- behind the locals of the body the parameters hold the words of the arguments
  have hFrame : t₁.frame.drop (t₁.frame.length - f.parameters.length) =
      List.zipWith (fun p w => (p.emitted, some w)) f.parameters words := by
    rw [hDrop]
    refine CFrame.eq_zipWith_of_lookup ?_ hSafe.distinct ?_
    · rw [CFrame.names, List.map_drop]
      show t₁.frame.names.drop _ = _
      rw [hNames, List.drop_left]
    · have hWords := hAssigned.words
      rw [← hLoop.targets, List.forall₂_map_left_iff]
      rw [List.forall₂_iff_zip] at hWords ⊢
      refine ⟨hWords.1, fun {a w} ha => ?_⟩
      have hParameter := hTarget a (List.of_mem_zip ha).1
      rw [CFrame.lookup_drop hNames (hSafe.locals hParameter)]
      exact hWords.2 ha
  have hBoundEnd : Bound rt (stmtsLeave statements = false) callee.emitted word f.id
      { t₁ with frame := t₁.frame.drop (t₁.frame.length - f.parameters.length) } := by
    intro hTracked
    obtain ⟨hGlobal, hCallee⟩ := hBound.1 hTracked
    rw [hAssigned.globals] at hGlobal
    rw [hAssigned.runtime] at hCallee
    exact ⟨hGlobal, hCallee⟩
  obtain ⟨halt, hCall, hPass⟩ := pass_call hRt hLeave hLoop h (Nat.le_of_eq hLength)
    (t := { t₁ with frame := t₁.frame.drop (t₁.frame.length - f.parameters.length) }) hAssigned.globals
    hAssigned.runtime hFrame hBoundEnd
  have hLeft : callCallable rt
      (callHandler (u.withoutLoop f statements last) rt n) word words s₁ =
      .error halt := by
    rw [callCallable_eq, (hBound.1 hLeave).2]
    dsimp only [callHandler]
    rw [hCall]
  rw [bind_error hLeft]
  change OutcomeRel _ _ _ (exec u rt n (.pass (.tailLoop statements reassignments))
    { t₁ with frame := t₁.frame.drop (t₁.frame.length - f.parameters.length) })
  rw [hPass]
  exact .error rfl

/-- A pass of the loop against a run of the body. -/
theorem loop_succ (hRt : rt.Lawful)
    (hLoop : TailLoop u f callee statements last reassignments)
    (h : RunsAgree u rt f callee statements last reassignments word n) :
    RelTriple
      (Diagonal (BoundIn rt (stmtsLeave statements = false) callee.emitted word f.id
        (f.parameters.map CVar.emitted)))
      (exec (u.withoutLoop f statements last) rt (n + 1) (.pass (.plain (statements ++ last))))
      (exec u rt (n + 1) (.pass (.tailLoop statements reassignments)))
      (Same (Diagonal (Bound rt (stmtsLeave statements = false) callee.emitted word f.id)))
      Eq := by
  rw [exec_pass, exec_pass, execLambdaBody_append]
  intro s t ⟨hEq, hs⟩
  subst hEq
  rw [execLambdaBody_tailLoop]
  refine ((h.units hRt).execStmts statements (fun hLeave => ?_) s s ⟨rfl, hs⟩).bind ?_
  · have hKept := (hLoop.safe hLeave).kept (List.mem_of_find?_eq_some hLoop.function)
    rw [CFunction.Keeps, hLoop.body] at hKept
    exact hKept.1
  rintro flow _ s₁ _ hRun - ⟨rfl, rfl, hBound, hNames⟩
  cases flow with
  | ret w => exact .ok ⟨rfl, rfl, hBound⟩
  | next =>
    have hLeave := (execStmts_flow hRt statements hRun).1 rfl
    have hOuter : s.frame.length = f.parameters.length := by
      rw [← List.length_map CVar.emitted, ← hs.2, CFrame.names, List.length_map]
    rw [hOuter]
    exact tail_succ hRt hLeave hLoop h ⟨hBound, hNames rfl⟩

theorem of_tailLoop (hRt : rt.Lawful)
    (hLoop : TailLoop u f callee statements last reassignments) (n : Nat) :
    RunsAgree u rt f callee statements last reassignments word n := by
  induction n with
  | zero => exact zero
  | succ n ih =>
    have hPass := pass_succ hRt ih
    have hSelf := loop_succ hRt hLoop ih
    exact ⟨call_succ hLoop hPass hSelf, hPass, hSelf⟩

end RunsAgree

/-- Every call does the same in the unit with the loop and in the one without, when the
callee of the tail call is bound to the function. -/
theorem exec_withoutLoop {u : CUnit} {f : CFunction} {callee : CVar}
    {statements last : List CStmt} {reassignments : List CAssignment} (hRt : rt.Lawful)
    (hLoop : TailLoop u f callee statements last reassignments) {s : CState S}
    (hStore : stmtsLeave statements = false → ∃ word, s.globals callee.emitted = some word ∧
      rt.callee s.runtime word = .closure f.id)
    (budget : Nat) (id : Nat) (words : List CalyndaRtWord) :
    exec u rt budget (.call id words) s =
      exec (u.withoutLoop f statements last) rt budget (.call id words) s := by
  obtain ⟨word, hBound⟩ : ∃ word,
      Bound rt (stmtsLeave statements = false) callee.emitted word f.id s := by
    by_cases hLeave : stmtsLeave statements = false
    · obtain ⟨word, hWord⟩ := hStore hLeave
      exact ⟨word, fun _ => hWord⟩
    · exact ⟨.zero, fun h => absurd h hLeave⟩
  have hAgree : RunsAgree u rt f callee statements last reassignments word budget :=
    .of_tailLoop hRt hLoop budget
  exact ((hAgree.call id words).diagonal_eq hBound).symm

end

/-! ## Emitted tail calls -/

section
variable (sourceFile : Option String) (program : HirProgram)

/-- The statements before the tail call, as they are emitted. -/
def tailCallPrefix (body : HirBlock) : List CStmt :=
  cEmitStmts (cEmitScanned sourceFile program) body.statements.dropLast

/-- No statement before the tail call returns, exits or throws. -/
def ReachesTailCall (body : HirBlock) : Prop :=
  stmtsLeave (tailCallPrefix sourceFile program body) = false

/-- The conditions on a binding with a tail call under which the loop does what the call
does. -/
structure TailCallSafe (decl : HirBindingDecl) (parameters : List HirParameter)
    (body : HirBlock) (arguments : List HirExpression) : Prop where
  /-- For two parameters the later argument does not assign to the earlier parameter, and
  it does not mention it unless the earlier argument is the parameter itself. -/
  order : (cEmitReassignments (cEmitScanned sourceFile program) parameters
    arguments).Pairwise CAssignment.Unseen
  distinct : (parameters.map fun p => p.variable.emitted).Nodup
  /-- No statement before the call declares a local with the name of a parameter. -/
  locals {p : HirParameter} (hp : p ∈ parameters) :
    p.variable.emitted ∉ stmtsDeclared (tailCallPrefix sourceFile program body)
  /-- The callee is the binding: no extern, parameter or local of its name. -/
  callee_kind {span : AstSourceSpan} {info calleeInfo : HirMeta} {ref : HirSymbolRef}
    (h : body.statements.getLast? =
      some (.expression span (.call info (.symbol calleeInfo ref) arguments))) :
    ref.kind ≠ .externC
  callee_parameter {p : HirParameter} (hp : p ∈ parameters) :
    p.variable.emitted ≠ decl.variable.emitted
  callee_local : decl.variable.emitted ∉ stmtsDeclared (tailCallPrefix sourceFile program body)
  /-- Neither the binding nor a parameter has the name of an imported package. -/
  macros {x : CVar} (hx : x ∈ decl.variable :: parameters.map HirParameter.variable) :
    (cEmitUnit program sourceFile).macro? x.emitted = none
  /-- No function assigns to the binding. -/
  kept {g : CFunction} (hg : g ∈ (cEmitUnit program sourceFile).functions) :
    g.Keeps decl.variable.emitted

/-- The file with the body of the lambda emitted as it stands. -/
def cEmitUnitWithoutLoop (id : Nat) (body : HirBlock) : CUnit :=
  (cEmitUnit program sourceFile).withPlainBody id
    (cEmitBlock (cEmitScanned sourceFile program) body)

end

theorem cEmitStmts_append (ctx : CEmitContext) (ss ts : List HirStatement) :
    cEmitStmts ctx (ss ++ ts) = cEmitStmts ctx ss ++ cEmitStmts ctx ts := by
  induction ss with
  | nil => rfl
  | cons s ss ih => rw [List.cons_append, cEmitStmts, cEmitStmts, ih, List.append_assoc]

theorem emitLineDirective_lines (ctx : CEmitContext) (span : AstSourceSpan) :
    ∀ st ∈ emitLineDirective ctx span, ∃ number file, st = .line number file := by
  intro st hst
  unfold emitLineDirective at hst
  split at hst
  · exact nomatch hst
  · split at hst
    · exact nomatch hst
    · rw [List.mem_singleton] at hst
      exact ⟨_, _, hst⟩

theorem cEmitReassignments_values (ctx : CEmitContext) {parameters : List HirParameter}
    {arguments : List HirExpression} (hArity : arguments.length = parameters.length) :
    (cEmitReassignments ctx parameters arguments).map CAssignment.value =
        cEmitExprs ctx arguments ∧
      (cEmitReassignments ctx parameters arguments).map CAssignment.target =
        parameters.map HirParameter.variable := by
  induction parameters generalizing arguments with
  | nil =>
    obtain rfl := List.length_eq_zero_iff.1 hArity
    exact ⟨rfl, rfl⟩
  | cons p parameters ih =>
    cases arguments with
    | nil => exact nomatch hArity
    | cons e arguments =>
      obtain ⟨hValues, hTargets⟩ := ih (Nat.succ.inj hArity)
      exact ⟨congrArg (cEmitExpr ctx e :: ·) hValues,
        congrArg (p.variable :: ·) hTargets⟩

/-- The emitted loop is one as above. -/
theorem tailLoop_of_binding {sourceFile : Option String} {program : HirProgram}
    {decl : HirBindingDecl} {addr : Addr} {parameters : List HirParameter} {body : HirBlock}
    {arguments : List HirExpression} {entry : CEmitLambdaEntry}
    (hEntry : entry ∈ (cEmitScanned sourceFile program).lambdas)
    (hLambda : entry.lambda = ⟨addr, parameters, body⟩)
    (hOwner : entry.ownerBindingName = some decl.name)
    (hTail : detectTailRecursiveCall body (some decl.name) = some arguments)
    (hArity : arguments.length = parameters.length)
    (hSafe : ReachesTailCall sourceFile program body →
      TailCallSafe sourceFile program decl parameters body arguments) :
    ∃ callee last, callee.emitted = decl.variable.emitted ∧
      cEmitBlock (cEmitScanned sourceFile program) body =
        tailCallPrefix sourceFile program body ++ last ∧
      TailLoop (cEmitUnit program sourceFile)
        (cEmitLambdaFunction (cEmitScanned sourceFile program) entry) callee
        (tailCallPrefix sourceFile program body) last
        (cEmitReassignments (cEmitScanned sourceFile program) parameters arguments) := by
  obtain ⟨span, info, calleeInfo, ref, hRef, hBody⟩ := detectTailRecursiveCall_eq_some hTail
  obtain ⟨hValues, hTargets⟩ :=
    cEmitReassignments_values (cEmitScanned sourceFile program) hArity
  have hName : decl.name = ref.name := Option.some.inj hRef
  refine ⟨{ name := ref.name, kind := ref.kind, symbol := ref.symbol },
    cEmitStmt (cEmitScanned sourceFile program)
      (.expression span (.call info (.symbol calleeInfo ref) arguments)), ?_, ?_, ?_⟩
  · show cEmitGlobalName ref.name = cEmitGlobalName decl.name
    rw [hName]
  · have hBlock : cEmitBlock (cEmitScanned sourceFile program) body =
        cEmitStmts (cEmitScanned sourceFile program) body.statements := by
      cases body
      rfl
    have hStmts := congrArg (cEmitStmts (cEmitScanned sourceFile program)) hBody
    rw [cEmitStmts_append, cEmitStmts, cEmitStmts, List.append_nil] at hStmts
    exact hBlock.trans hStmts
  · refine ⟨function?_cEmitUnit hEntry, ?_, ?_, fun hReach => ?_, fun hReach => ?_⟩
    · show cEmitLambdaBody _ entry = _
      rw [cEmitLambdaBody, hLambda, hOwner]
      simp only [hTail]
      rfl
    · show _ = entry.lambda.parameters.map HirParameter.variable
      rw [hTargets, hLambda]
    · have hKind := (hSafe hReach).callee_kind (List.getLast?_eq_some_iff.2 ⟨_, hBody⟩)
      refine ⟨_, emitLineDirective_lines (cEmitScanned sourceFile program) span, ?_⟩
      have hCallee : cEmitSymbol ref =
          .var { name := ref.name, kind := ref.kind, symbol := ref.symbol } := by
        unfold cEmitSymbol
        split
        · next hExtern => exact absurd hExtern hKind
        · rfl
      rw [cEmitStmt, cEmitExpr, if_neg hKind, cEmitExpr, hCallee, hValues]
    · have hReached := hSafe hReach
      have hParameters : (cEmitLambdaFunction (cEmitScanned sourceFile program) entry).parameters
          = parameters.map HirParameter.variable := by
        show entry.lambda.parameters.map HirParameter.variable = _
        rw [hLambda]
      have hEmitted : cEmitGlobalName ref.name = decl.variable.emitted := by
        rw [← hName]
        rfl
      constructor
      · exact hReached.order
      · rw [hParameters, List.map_map]
        exact hReached.distinct
      · intro p hp
        rw [hParameters] at hp
        obtain ⟨q, hq, rfl⟩ := List.mem_map.1 hp
        exact hReached.locals hq
      · show cEmitGlobalName ref.name ∉ _
        rw [hEmitted, scopeAfterStmts_eq, List.mem_append, not_or, hParameters]
        refine ⟨hReached.callee_local, fun hMem => ?_⟩
        rw [List.map_map] at hMem
        obtain ⟨q, hq, hEq⟩ := List.mem_map.1 hMem
        exact hReached.callee_parameter hq hEq
      · intro x hx
        rw [hParameters] at hx
        rcases List.mem_cons.1 hx with rfl | hx
        · show (cEmitUnit program sourceFile).macro? (cEmitGlobalName ref.name) = none
          rw [hEmitted]
          exact hReached.macros List.mem_cons_self
        · exact hReached.macros (List.mem_cons_of_mem _ hx)
      · intro g hg
        show g.Keeps (cEmitGlobalName ref.name)
        rw [hEmitted]
        exact hReached.kept hg

/-- Calls in the file with the loop of a tail call do the same as calls in the file where
the body of the lambda is emitted as it stands: the same effects, the same word and, with
every budget, the same end. -/
theorem exec_tailCall_eq (program : LaidOutHirProgram) (sourceFile : Option String)
    {decl : HirBindingDecl} (hDecl : decl ∈ program.bindings) {info : HirMeta} {addr : Addr}
    {parameters : List HirParameter} {body : HirBlock}
    (hLambda : decl.initializer = .lambda info addr parameters body)
    {arguments : List HirExpression}
    (hTail : detectTailRecursiveCall body (some decl.name) = some arguments)
    (hArity : arguments.length = parameters.length)
    (hSafe : ReachesTailCall sourceFile program.toHirProgram body →
      TailCallSafe sourceFile program.toHirProgram decl parameters body arguments)
    {S : Type} {rt : CRuntime S} (hRt : rt.Lawful) {id : Nat}
    (hId : cEmitLambdaId (cEmitScanned sourceFile program.toHirProgram) addr = some id)
    {s : CState S}
    (hStore : ReachesTailCall sourceFile program.toHirProgram body →
      ∃ word, s.globals decl.variable.emitted = some word ∧
        rt.callee s.runtime word = .closure id)
    (budget : Nat) (words : List CalyndaRtWord) :
    exec (cEmitUnit program.toHirProgram sourceFile) rt budget (.call id words) s =
      exec (cEmitUnitWithoutLoop sourceFile program.toHirProgram id body) rt budget
        (.call id words) s := by
  obtain ⟨entry, hEntry, hEntryLambda, hOwner⟩ :=
    exists_entry_of_binding sourceFile hDecl hLambda
  obtain ⟨-, hEntryId⟩ := cEmitLambdaId_of_entry program sourceFile hEntry
  obtain rfl : entry.id = id := by
    rw [hEntryLambda] at hEntryId
    exact Option.some.inj (hEntryId.symm.trans hId)
  obtain ⟨callee, last, hCallee, hBlock, hLoop⟩ :=
    tailLoop_of_binding hEntry hEntryLambda hOwner hTail hArity hSafe
  rw [cEmitUnitWithoutLoop, hBlock]
  exact exec_withoutLoop hRt hLoop (fun hReach => hCallee ▸ hStore hReach) budget _ words

/-! ## Two loops -/

section
variable (names : List String) (probed : HirExpression) (arguments : List HirExpression)

def int32Meta : HirMeta :=
  { type := tcCheckedTypeValue .int32 0, sourceSpan := ⟨1, 1, 1, 1⟩ }

/-- The parameter of a name, or a mention of it. -/
def int32Parameter (name : String) : HirParameter :=
  { name, symbol := 1, type := tcCheckedTypeValue .int32 0, isVarargs := false,
    sourceSpan := ⟨1, 1, 1, 1⟩ }

def int32Symbol (name : String) : HirExpression :=
  .symbol int32Meta
    { symbol := some 1, name, kind := .parameter, type := tcCheckedTypeValue .int32 0,
      sourceSpan := ⟨1, 1, 1, 1⟩ }

def intLiteral (text : String) : HirExpression := .literal int32Meta (.integer text)

/-- The body `{ [7][probed]; f(arguments); }`. -/
def probeBody : HirBlock :=
  .mk [
    .expression ⟨1, 1, 1, 1⟩
      (.index int32Meta (.arrayLiteral int32Meta [intLiteral "7"]) probed),
    .expression ⟨1, 1, 1, 1⟩
      (.call int32Meta
        (.symbol int32Meta
          { symbol := some 0, name := "f", kind := .topLevelBinding,
            type := tcCheckedTypeVoid, sourceSpan := ⟨1, 1, 1, 1⟩ }) arguments)]

/-- The binding `var f = (names) -> { [7][probed]; f(arguments); };`. -/
def probeDecl : HirBindingDecl where
  name := "f"
  symbol := 0
  type := tcCheckedTypeVoid
  isFinal := false
  isExported := false
  isStatic := false
  isInternal := false
  isCallable := true
  callableSignature := {}
  sourceSpan := ⟨1, 1, 1, 1⟩
  initializer := .lambda int32Meta 0 (names.map int32Parameter) (probeBody probed arguments)

def probeProgram : HirProgram where
  topLevelDecls := [.binding (probeDecl names probed arguments)]

/-- The machine when the global of the program has been initialised. -/
def probeState : CState RtMemory where
  globals name := if name = "__cal_f" then some { bits := 8 } else none
  frame := []
  runtime :=
    { RtMemory.initial .small with
      registry := (8, .closure 0) :: (RtMemory.initial .small).registry }

end

/-- `var f = (int32 n) -> { [7][n]; f(n - 1); };` -/
def countProgram : LaidOutHirProgram where
  toHirProgram := probeProgram ["n"] (int32Symbol "n")
    [.binary int32Meta .subtract (int32Symbol "n") (intLiteral "1")]
  lambdas_nodup := by decide

theorem tailCallSafe_countProgram :
    TailCallSafe none countProgram.toHirProgram
      (probeDecl ["n"] (int32Symbol "n")
        [.binary int32Meta .subtract (int32Symbol "n") (intLiteral "1")])
      [int32Parameter "n"]
      (probeBody (int32Symbol "n")
        [.binary int32Meta .subtract (int32Symbol "n") (intLiteral "1")])
      [.binary int32Meta .subtract (int32Symbol "n") (intLiteral "1")] := by
  constructor
  · exact List.pairwise_singleton _ _
  · decide
  · intro p hp
    obtain rfl := List.mem_singleton.1 hp
    decide
  · intro span info calleeInfo ref hLast
    cases hLast
    decide
  · intro p hp
    obtain rfl := List.mem_singleton.1 hp
    decide
  · decide
  · exact fun _ => rfl
  · intro g hg
    obtain rfl := List.mem_singleton.1 hg
    refine ⟨⟨nofun, trivial⟩, fun a ha => ?_⟩
    obtain rfl := List.mem_singleton.1 ha
    exact ⟨nofun, by decide⟩

theorem exec_tailCall_eq_countProgram :
    exec (cEmitUnit countProgram.toHirProgram none) RtPlatform.small.runtime 3
        (.call 0 [{ bits := 2 }]) probeState =
      exec (cEmitUnitWithoutLoop none countProgram.toHirProgram 0
        (probeBody (int32Symbol "n")
          [.binary int32Meta .subtract (int32Symbol "n") (intLiteral "1")]))
        RtPlatform.small.runtime 3 (.call 0 [{ bits := 2 }]) probeState := by
  exact exec_tailCall_eq countProgram none (List.mem_singleton_self _) rfl rfl rfl
    (fun _ => tailCallSafe_countProgram) (RtPlatform.runtime_lawful .small) (by decide)
    (fun _ => ⟨{ bits := 8 }, rfl, rfl⟩) 3 [{ bits := 2 }]

/-- `var f = (int32 a, int32 b) -> { [7][b]; f(b, a); };` -/
def swapProgram : LaidOutHirProgram where
  toHirProgram := probeProgram ["a", "b"] (int32Symbol "b") [int32Symbol "b", int32Symbol "a"]
  lambdas_nodup := by decide

/-- The call `f(9, 0)` aborts on its second pass with the index 9; in the loop the second
parameter takes the new value of the first, and the index is 0 again. -/
theorem not_exec_tailCall_eq_swapProgram :
    detectTailRecursiveCall (probeBody (int32Symbol "b") [int32Symbol "b", int32Symbol "a"])
        (some "f") = some [int32Symbol "b", int32Symbol "a"] ∧
      exec (cEmitUnit swapProgram.toHirProgram none) RtPlatform.small.runtime 2
          (.call 0 [{ bits := 9 }, { bits := 0 }]) probeState ≠
        exec (cEmitUnitWithoutLoop none swapProgram.toHirProgram 0
          (probeBody (int32Symbol "b") [int32Symbol "b", int32Symbol "a"]))
          RtPlatform.small.runtime 2 (.call 0 [{ bits := 9 }, { bits := 0 }]) probeState := by
  refine ⟨rfl, fun h => ?_⟩
  have hLoop : ∃ m, exec (cEmitUnit swapProgram.toHirProgram none) RtPlatform.small.runtime 2
      (.call 0 [{ bits := 9 }, { bits := 0 }]) probeState =
      .error { reason := .timeout, runtime := m } := ⟨_, rfl⟩
  have hPlain : ∃ m, exec (cEmitUnitWithoutLoop none swapProgram.toHirProgram 0
      (probeBody (int32Symbol "b") [int32Symbol "b", int32Symbol "a"]))
      RtPlatform.small.runtime 2 (.call 0 [{ bits := 9 }, { bits := 0 }]) probeState =
      .error { reason := .aborted "runtime: array index out of bounds (9)", runtime := m } :=
    ⟨_, rfl⟩
  obtain ⟨m, hLoop⟩ := hLoop
  obtain ⟨m', hPlain⟩ := hPlain
  rw [hLoop, hPlain] at h
  exact nomatch h

end Calynda
