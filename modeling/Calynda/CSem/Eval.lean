import Calynda.Lib.StateExcept
import Calynda.CSem.Word

/-!
# What the emitted C does

The text is run on a machine with file-scope variables, the variables of the running
function and the state `S` of the runtime. The functions of the runtime, the float unit and
the code that is linked in are the parameter `CRuntime`; the operands of an operator and the
arguments of a call are evaluated from left to right.

A run has a budget: each call of a lambda function and each pass of a loop takes one unit of
it, and a run that needs more stops with `timeout`. A program that goes on forever is one
that stops with `timeout` for every budget.
-/

namespace Calynda

open StateExcept

/-- Why a run stops before it returns. -/
inductive Stop where
  | aborted (message : String)
  | exited
  | undefined
  | illFormed
  | timeout
  deriving DecidableEq, Repr

/-- What is left of a stopped run: its reason, and the runtime with all its effects. -/
structure Halt (S : Type) where
  reason : Stop
  runtime : S

/-- A step of the runtime. -/
abbrev RtM (S : Type) := StateT S (Except (Halt S))

/-- What a word passed to `__calynda_rt_call_callable` refers to: the closure of a lambda
function, or something else. -/
inductive Callee where
  | closure (id : Nat)
  | other
  deriving DecidableEq, Repr

inductive RtTemplatePart where
  | text (text : String)
  | value (word : CalyndaRtWord)

/-- The runtime library and the machine below the emitted text. -/
structure CRuntime (S : Type) where
  floatConstant : String → BitVec 32
  charConstant : String → Option (BitVec 32)
  floatArith : CInfix → BitVec 32 → BitVec 32 → Option (BitVec 32)
  floatCompare : CInfix → BitVec 32 → BitVec 32 → Option Bool
  floatNegate : BitVec 32 → BitVec 32
  floatOfWord : BitVec 32 → BitVec 32
  packageWord : String → CalyndaRtWord
  externWord : String → CalyndaRtWord
  makeStringCopy : String → RtM S CalyndaRtWord
  templateBuild : List RtTemplatePart → RtM S CalyndaRtWord
  closureNew : Nat → RtM S CalyndaRtWord
  callee : S → CalyndaRtWord → Callee
  callOther : CalyndaRtWord → List CalyndaRtWord → RtM S CalyndaRtWord
  externCall : String → List CalyndaRtWord → RtM S CalyndaRtWord
  memberLoad : CalyndaRtWord → String → RtM S CalyndaRtWord
  indexLoad : CalyndaRtWord → CalyndaRtWord → RtM S CalyndaRtWord
  storeIndex : CalyndaRtWord → CalyndaRtWord → CalyndaRtWord → RtM S Unit
  arrayLiteral : List CalyndaRtWord → RtM S CalyndaRtWord
  castValue : CalyndaRtWord → CalyndaRtTypeTag → RtM S CalyndaRtWord
  throwWord : CalyndaRtWord → RtM S Unit

/-- How a statement ends: with the next one, or with a `return`. -/
inductive Flow where
  | next
  | ret (word : CalyndaRtWord)

/-- The variables of the running function, the innermost first; a variable has no value
before its initializer has been evaluated. -/
abbrev CFrame := List (String × Option CalyndaRtWord)

structure CState (S : Type) where
  globals : String → Option CalyndaRtWord
  frame : CFrame
  runtime : S

abbrev CM (S : Type) := StateT (CState S) (Except (Halt S))

/-- What runs a lambda function: it starts with an empty frame. -/
abbrev CallHandler (S : Type) := Nat → List CalyndaRtWord → CM S CalyndaRtWord

section
variable {S : Type}

def stop {α : Type} (reason : Stop) : CM S α := do
  throw { reason, runtime := (← get).runtime }

/-- A step of the runtime, as a step of the machine. -/
def liftRt {α : Type} (m : RtM S α) : CM S α := fun s =>
  match m s.runtime with
  | .ok (a, runtime) => .ok (a, { s with runtime })
  | .error halt => .error halt

/-- `Option` values of partial operations of C. -/
def orStop {α : Type} (reason : Stop) : Option α → CM S α
  | some a => pure a
  | none => stop reason

/-! ## Variables -/

namespace CFrame

def lookup (name : String) : CFrame → Option (Option CalyndaRtWord)
  | [] => none
  | (x, w) :: frame => if x = name then some w else lookup name frame

/-- The frame with another value of the innermost variable of a name. -/
def assign (name : String) (word : CalyndaRtWord) : CFrame → CFrame
  | [] => []
  | (x, w) :: frame => if x = name then (x, some word) :: frame else (x, w) :: assign name word frame

end CFrame

/-- The names that the `#define` lines of the unit replace, with the packages behind them. -/
def CUnit.macro? (u : CUnit) (name : String) : Option String :=
  u.imports.find? fun imp => "__cal_" ++ imp == name

variable (u : CUnit) (rt : CRuntime S)

/-- The value of a name: of a macro, else of the innermost variable, else of the global. -/
def readVar (name : String) : CM S CalyndaRtWord := do
  match u.macro? name with
  | some package => return rt.packageWord package
  | none =>
    let s ← get
    match CFrame.lookup name s.frame with
    | some (some word) => return word
    | some none => stop .undefined
    | none => orStop .illFormed (s.globals name)

/-- An assignment to a name; a macro is not a variable. -/
def writeVar (name : String) (word : CalyndaRtWord) : CM S Unit := do
  match u.macro? name with
  | some _ => stop .illFormed
  | none =>
    let s ← get
    match CFrame.lookup name s.frame with
    | some _ => set { s with frame := CFrame.assign name word s.frame }
    | none =>
      match s.globals name with
      | none => stop .illFormed
      | some _ =>
        set { s with globals := fun x => if x = name then some word else s.globals x }

theorem readVar_eq (name : String) (s : CState S) :
    readVar u rt name s =
      match u.macro? name with
      | some package => .ok (rt.packageWord package, s)
      | none =>
        match CFrame.lookup name s.frame with
        | some (some word) => .ok (word, s)
        | some none => .error { reason := .undefined, runtime := s.runtime }
        | none =>
          match s.globals name with
          | some word => .ok (word, s)
          | none => .error { reason := .illFormed, runtime := s.runtime } := by
  unfold readVar
  cases u.macro? name with
  | some package => rfl
  | none =>
    show (match CFrame.lookup name s.frame with | some (some _) => _ | some none => _ | none => _ :
      CM S CalyndaRtWord) s = _
    cases CFrame.lookup name s.frame with
    | some value => cases value <;> rfl
    | none => cases s.globals name <;> rfl

theorem writeVar_eq (name : String) (word : CalyndaRtWord) (s : CState S) :
    writeVar u name word s =
      match u.macro? name with
      | some _ => .error { reason := .illFormed, runtime := s.runtime }
      | none =>
        match CFrame.lookup name s.frame with
        | some _ => .ok ((), { s with frame := CFrame.assign name word s.frame })
        | none =>
          match s.globals name with
          | none => .error { reason := .illFormed, runtime := s.runtime }
          | some _ =>
            .ok ((), { s with
              globals := fun x => if x = name then some word else s.globals x }) := by
  unfold writeVar
  cases u.macro? name with
  | some package => rfl
  | none =>
    show (match CFrame.lookup name s.frame with | some _ => _ | none => _ : CM S Unit) s = _
    cases CFrame.lookup name s.frame with
    | some value => rfl
    | none => cases s.globals name <;> rfl

/-- The name that an expression denotes as an object that can be assigned to. -/
def CExpr.lvalue? : CExpr → Option String
  | .var name => some name.emitted
  | _ => none

/-! ## Expressions -/

/-- The operator of a compound assignment. -/
def compoundInfix : AstAssignmentOperator → Option CInfix
  | .assign => none
  | operator => some (emitBinaryOp (compoundBinaryOp operator))

/-- An operand of float text: the bits of a word that is known to be a float, or the
conversion of a number. -/
def floatOperand (isFloat : Bool) (word : CalyndaRtWord) : BitVec 32 :=
  if isFloat then word.bits else rt.floatOfWord word.bits

/-- `++` and `--` on a variable: the values before and after. -/
def stepVar (operand : CExpr) (amount : BitVec 32) :
    CM S (CalyndaRtWord × CalyndaRtWord) := do
  let name ← orStop .illFormed operand.lvalue?
  let word ← readVar u rt name
  let next : CalyndaRtWord := { bits := word.bits + amount }
  writeVar u name next
  return (word, next)

def evalUnaryWord (operator : AstUnaryOperator) (word : CalyndaRtWord) :
    CM S CalyndaRtWord :=
  match operator with
  | .logicalNot => return { bits := boolBits (word.bits == 0) }
  | .bitwiseNot => return { bits := ~~~word.bits }
  | .negate => return { bits := -word.bits }
  | .plus => return { bits := word.bits }
  | .preIncrement | .preDecrement | .deref | .addressOf => stop .illFormed

variable (call : CallHandler S)

/-- `__calynda_rt_call_callable`: a closure runs its function, with a frame of its own. -/
def callCallable (callee : CalyndaRtWord) (arguments : List CalyndaRtWord) :
    CM S CalyndaRtWord := do
  let s ← get
  match rt.callee s.runtime callee with
  | .closure id =>
    let word ← call id arguments
    modify fun s' => { s' with frame := s.frame }
    return word
  | .other => liftRt (rt.callOther callee arguments)

theorem callCallable_eq (callee : CalyndaRtWord) (arguments : List CalyndaRtWord)
    (s : CState S) :
    callCallable rt call callee arguments s =
      match rt.callee s.runtime callee with
      | .closure id =>
        match call id arguments s with
        | .ok (word, s') => .ok (word, { s' with frame := s.frame })
        | .error halt => .error halt
      | .other => liftRt (rt.callOther callee arguments) s := by
  show (match rt.callee s.runtime callee with | .closure _ => _ | .other => _ :
    CM S CalyndaRtWord) s = _
  cases rt.callee s.runtime callee with
  | closure id =>
    dsimp only
    cases hCall : call id arguments s with
    | ok p => exact bind_ok hCall
    | error halt => exact bind_error hCall
  | other => rfl

mutual
def evalExpr : CExpr → CM S CalyndaRtWord
  | .intLit text => do
    let value ← orStop .illFormed (cIntegerConstant text)
    return { bits := BitVec.ofNat 32 value }
  | .floatLit text => return { bits := rt.floatConstant text, tag := .float }
  | .boolLit value => return { bits := boolBits value }
  | .charLit text => do
    let bits ← orStop .illFormed (rt.charConstant text)
    return { bits }
  | .stringLit text => liftRt (rt.makeStringCopy text)
  | .zero => return .zero
  | .template parts => do
    let parts ← evalTemplateParts parts
    liftRt (rt.templateBuild parts)
  | .var name => readVar u rt name.emitted
  | .externName name => return rt.externWord (cEmitSafeName name)
  | .closureNew id _ => liftRt (rt.closureNew id)
  | .unregistered _ => return .zero
  | .storeIndex target index value => do
    let target ← evalExpr target
    let index ← evalExpr index
    let value ← evalExpr value
    liftRt (rt.storeIndex target index value)
    -- the function returns nothing
    return .zero
  | .loaded target index operator value => do
    let target ← evalExpr target
    let index ← evalExpr index
    let loaded ← liftRt (rt.indexLoad target index)
    let value ← evalExpr value
    let bits ← orStop .undefined (operator.apply loaded.bits value.bits)
    return { bits }
  | .assign target operator value => do
    let name ← orStop .illFormed target.lvalue?
    match compoundInfix operator with
    | none =>
      let word ← evalExpr value
      writeVar u name word
      return word
    | some operator =>
      let old ← readVar u rt name
      let value ← evalExpr value
      let bits ← orStop .undefined (operator.apply old.bits value.bits)
      writeVar u name { bits }
      return { bits }
  | .ternary condition thenBranch elseBranch => do
    let condition ← evalExpr condition
    if condition.bits ≠ 0 then evalExpr thenBranch else evalExpr elseBranch
  | .floatArith operator leftFloat left rightFloat right => do
    let left ← evalExpr left
    let right ← evalExpr right
    let bits ← orStop .illFormed (rt.floatArith operator (floatOperand rt leftFloat left)
      (floatOperand rt rightFloat right))
    return { bits, tag := .float }
  | .floatCompare operator leftFloat left rightFloat right => do
    let left ← evalExpr left
    let right ← evalExpr right
    let result ← orStop .illFormed (rt.floatCompare operator (floatOperand rt leftFloat left)
      (floatOperand rt rightFloat right))
    return { bits := boolBits result }
  | .binary operator left right => do
    let left ← evalExpr left
    match operator.operator with
    | .logicalOr =>
      if left.bits ≠ 0 then return { bits := 1 }
      else
        let right ← evalExpr right
        return { bits := boolBits (right.bits != 0) }
    | .logicalAnd =>
      if left.bits = 0 then return { bits := 0 }
      else
        let right ← evalExpr right
        return { bits := boolBits (right.bits != 0) }
    | _ =>
      let right ← evalExpr right
      let bits ← orStop .undefined (operator.apply left.bits right.bits)
      return { bits }
  | .floatNegate operand => do
    let word ← evalExpr operand
    return { bits := rt.floatNegate word.bits, tag := .float }
  | .unary .preIncrement operand => return (← stepVar u rt operand 1).2
  | .unary .preDecrement operand => return (← stepVar u rt operand (-1)).2
  | .unary operator operand => do
    let word ← evalExpr operand
    evalUnaryWord operator word
  | .externCall name arguments => do
    let arguments ← evalExprs arguments
    liftRt (rt.externCall (cEmitSafeName name) arguments)
  | .callCallable callee arguments => do
    let callee ← evalExpr callee
    let arguments ← evalExprs arguments
    callCallable rt call callee arguments
  | .indexLoad target index => do
    let target ← evalExpr target
    let index ← evalExpr index
    liftRt (rt.indexLoad target index)
  | .memberLoad target member => do
    let target ← evalExpr target
    liftRt (rt.memberLoad target member)
  | .castValue expression tag => do
    let word ← evalExpr expression
    liftRt (rt.castValue word tag)
  | .arrayLiteral elements => do
    let elements ← evalExprs elements
    liftRt (rt.arrayLiteral elements)
  | .postIncrement operand => return (← stepVar u rt operand 1).1
  | .postDecrement operand => return (← stepVar u rt operand (-1)).1

def evalExprs : List CExpr → CM S (List CalyndaRtWord)
  | [] => return []
  | e :: es => do
    let word ← evalExpr e
    let words ← evalExprs es
    return word :: words

def evalTemplateParts : List CTemplatePart → CM S (List RtTemplatePart)
  | [] => return []
  | .text text :: parts => do
    let parts ← evalTemplateParts parts
    return .text text :: parts
  | .value e :: parts => do
    let word ← evalExpr e
    let parts ← evalTemplateParts parts
    return .value word :: parts
end

/-! ## Statements -/

/-- The end of a block: the variables declared in it go. -/
def leaveBlock (outer : Nat) : CM S Unit :=
  modify fun s => { s with frame := s.frame.drop (s.frame.length - outer) }

mutual
def execStmt : CStmt → CM S Flow
  | .line _ _ => return .next
  | .declare target initializer => do
    modify fun s => { s with frame := (target.emitted, none) :: s.frame }
    let word ← evalExpr u rt call initializer
    writeVar u target.emitted word
    return .next
  | .returnWord expression => return .ret (← evalExpr u rt call expression)
  | .returnVoid => return .ret .zero
  | .exit => stop .exited
  | .throw expression => do
    let word ← evalExpr u rt call expression
    liftRt (rt.throwWord word)
    return .next
  | .expression expression => do
    let _ ← evalExpr u rt call expression
    return .next
  | .block statements => do
    let outer := (← get).frame.length
    let flow ← execStmts statements
    leaveBlock outer
    return flow

def execStmts : List CStmt → CM S Flow
  | [] => return .next
  | s :: ss => do
    match ← execStmt s with
    | .next => execStmts ss
    | .ret word => return .ret word
end

/-- `target = value;` for each of the assignments. -/
def execAssignments : List CAssignment → CM S Unit
  | [] => return
  | a :: as => do
    let word ← evalExpr u rt call a.value
    writeVar u a.target.emitted word
    execAssignments as

/-! ## Functions -/

/-- The parameters take the arguments; a function that reads more than there are reads past
the end of `__arguments`. -/
def enterFunction (parameters : List CVar) (arguments : List CalyndaRtWord) : CM S Unit :=
  if arguments.length < parameters.length then stop .undefined
  else
    modify fun s => { s with
      frame := List.zipWith (fun p a => (p.emitted, some a)) parameters arguments }

/-- The body of a lambda function and its last `return`; `again` is the next pass of the
loop of a tail call. -/
def execLambdaBody (again : CM S CalyndaRtWord) : CLambdaBody → CM S CalyndaRtWord
  | .plain statements => do
    match ← execStmts u rt call statements with
    | .next => return .zero
    | .ret word => return word
  | .tailLoop statements reassignments => do
    let outer := (← get).frame.length
    match ← execStmts u rt call statements with
    | .next => do
      execAssignments u rt call reassignments
      leaveBlock outer
      again
    | .ret word => return word

end

/-- The function of an id. -/
def CUnit.function? (u : CUnit) (id : Nat) : Option CFunction :=
  u.functions.find? fun f => f.id == id

/-- What takes a unit of the budget: a call, or a pass of a loop. -/
inductive CTask where
  | call (id : Nat) (arguments : List CalyndaRtWord)
  | pass (body : CLambdaBody)

/-- The lambda functions of a unit, with a budget. -/
def exec {S : Type} (u : CUnit) (rt : CRuntime S) : Nat → CTask → CM S CalyndaRtWord
  | 0, _ => stop .timeout
  | n + 1, .call id arguments =>
    match u.function? id with
    | none => stop .illFormed
    | some f => do
      enterFunction f.parameters arguments
      execLambdaBody u rt (fun id arguments => exec u rt n (.call id arguments))
        (exec u rt n (.pass f.body)) f.body
  | n + 1, .pass body =>
    execLambdaBody u rt (fun id arguments => exec u rt n (.call id arguments))
      (exec u rt n (.pass body)) body

/-- A call of a lambda function, with a budget. -/
def callHandler {S : Type} (u : CUnit) (rt : CRuntime S) (budget : Nat) : CallHandler S :=
  fun id arguments => exec u rt budget (.call id arguments)

end Calynda
