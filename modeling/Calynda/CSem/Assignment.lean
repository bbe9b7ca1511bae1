import Calynda.CSem.Frames

/-!
# Assignments

An assignment should evaluate the parts of its target and its value once, store once, and be a value
itself. The text for a variable does, where C has the variables, constants and operators that are
printed; that for an element of an array is a call without a value, with the target printed again
for the operator, and the discard is assigned to as if it were a variable.
-/

namespace Calynda

open StateExcept

/-! ## Text that C accepts -/

section Place

variable {S : Type} (u : CUnit) (rt : CRuntime S) (locals : List String)

/-- The variables at a place: those of its function and those of the file. -/
def CUnit.Declares (name : String) : Prop := name ∈ locals ∨ name ∈ u.globals.map CVar.emitted

/-- A name with a value: a macro for an import, or a variable. -/
def CUnit.Reads (name : String) : Prop := (u.macro? name).isSome ∨ u.Declares locals name

/-- A name that can be assigned to: a variable that no macro hides. -/
def CUnit.Stores (name : String) : Prop := u.macro? name = none ∧ u.Declares locals name

/-- A text that can stand between double quotes once quotes and backslashes are escaped. -/
def OneLine (text : String) : Prop := '\n' ∉ text.toList

/-- An operator that C has for floats; it has no `%`. -/
def CRuntime.HasArith (operator : CInfix) : Prop := ∀ x y, (rt.floatArith operator x y).isSome

def CRuntime.HasCompare (operator : CInfix) : Prop := ∀ x y, (rt.floatCompare operator x y).isSome

/-- An expression that denotes a variable which can be assigned to. -/
def CExpr.Stores (e : CExpr) : Prop := ∃ name, e.lvalue? = some name ∧ u.Stores locals name

mutual
/-- The text is an expression of C with a word as its value: the constants, names and operators in
it are ones that C has there, what is assigned to or stepped is a variable, and no element is
stored where a word is wanted. -/
def CExpr.Valid : CExpr → Prop
  | .intLit text => (cIntegerConstant text).isSome
  | .charLit text => (rt.charConstant text).isSome
  | .stringLit text => OneLine text
  | .floatLit _ | .boolLit _ | .zero | .externName _ | .closureNew _ _ | .unregistered _ => True
  | .var name => u.Reads locals name.emitted
  | .template parts => templateValid parts
  | .storeIndex _ _ _ => False
  | .loaded target index _ value =>
    CExpr.Valid target ∧ CExpr.Valid index ∧ CExpr.Valid value
  | .assign target _ value => target.Stores u locals ∧ CExpr.Valid value
  | .ternary condition thenBranch elseBranch =>
    CExpr.Valid condition ∧ CExpr.Valid thenBranch ∧ CExpr.Valid elseBranch
  | .floatArith operator _ left _ right =>
    rt.HasArith operator ∧ CExpr.Valid left ∧ CExpr.Valid right
  | .floatCompare operator _ left _ right =>
    rt.HasCompare operator ∧ CExpr.Valid left ∧ CExpr.Valid right
  | .binary _ left right => CExpr.Valid left ∧ CExpr.Valid right
  | .floatNegate operand => CExpr.Valid operand
  | .unary operator operand =>
    match operator with
    | .preIncrement | .preDecrement => operand.Stores u locals
    | .deref | .addressOf => False
    | _ => CExpr.Valid operand
  | .externCall _ arguments => expressionsValid arguments
  | .callCallable callee arguments => CExpr.Valid callee ∧ expressionsValid arguments
  | .indexLoad target index => CExpr.Valid target ∧ CExpr.Valid index
  | .memberLoad target _ => CExpr.Valid target
  | .castValue expression _ => CExpr.Valid expression
  | .arrayLiteral elements => expressionsValid elements
  | .postIncrement operand => operand.Stores u locals
  | .postDecrement operand => operand.Stores u locals

def expressionsValid : List CExpr → Prop
  | [] => True
  | e :: es => CExpr.Valid e ∧ expressionsValid es

def templateValid : List CTemplatePart → Prop
  | [] => True
  | .text text :: parts => OneLine text ∧ templateValid parts
  | .value e :: parts => CExpr.Valid e ∧ templateValid parts
end

def HirSymbolRef.variable (ref : HirSymbolRef) : CVar :=
  { name := ref.name, kind := ref.kind, symbol := ref.symbol }

/-- A symbol other than an extern, whose variable is one of the place and no import. -/
def HirExpression.IsVariable : HirExpression → Prop
  | .symbol _ ref => ref.kind ≠ .externC ∧ u.Stores locals ref.variable.emitted
  | _ => False

/-- A literal that C reads as well. -/
def AstLiteral.InC : AstLiteral → Prop
  | .integer text => (cIntegerConstant text).isSome
  | .char text => (rt.charConstant text).isSome
  | .string text => OneLine text
  | .float _ | .bool _ | .null => True

/-- With an operand that is a float, the operator is one for floats. -/
def OperatorInC (operator : AstBinaryOperator) (leftType rightType : CheckedType) : Prop :=
  (isFloatType leftType || isFloatType rightType) = true →
    if isComparisonOp operator = true then rt.HasCompare (emitBinaryOp operator)
    else isArithmeticOp operator = true → rt.HasArith (emitBinaryOp operator)

mutual
/-- Outside of its lambdas, the expression has literals that C reads, variables of the place and
imports, operators that C has for its types, and assignments and steps of variables only. -/
def HirExpression.InC : HirExpression → Prop
  | .literal _ lit => lit.InC rt
  | .template _ parts => templateInC parts
  | .symbol _ ref => ref.kind = .externC ∨ u.Reads locals ref.variable.emitted
  | .lambda _ _ _ _ | .discard _ => True
  | .assignment _ _ target value => target.IsVariable u locals ∧ HirExpression.InC value
  | .ternary _ condition thenBranch elseBranch =>
    HirExpression.InC condition ∧ HirExpression.InC thenBranch ∧ HirExpression.InC elseBranch
  | .binary _ operator left right =>
    OperatorInC rt operator left.type right.type ∧ HirExpression.InC left ∧
      HirExpression.InC right
  | .unary _ operator operand =>
    match operator with
    | .preIncrement | .preDecrement => operand.IsVariable u locals
    | .deref | .addressOf => False
    | _ => HirExpression.InC operand
  | .call _ callee arguments => HirExpression.InC callee ∧ expressionsInC arguments
  | .index _ target index => HirExpression.InC target ∧ HirExpression.InC index
  | .member _ target _ => HirExpression.InC target
  | .cast _ _ expression => HirExpression.InC expression
  | .arrayLiteral _ elements => expressionsInC elements
  | .postIncrement _ operand => operand.IsVariable u locals
  | .postDecrement _ operand => operand.IsVariable u locals

def expressionsInC : List HirExpression → Prop
  | [] => True
  | e :: es => HirExpression.InC e ∧ expressionsInC es

def templateInC : List HirTemplatePart → Prop
  | [] => True
  | .text text :: parts => OneLine text ∧ templateInC parts
  | .expression e :: parts => HirExpression.InC e ∧ templateInC parts
end

end Place

section Text

variable {S : Type} {u : CUnit} {rt : CRuntime S} {locals : List String} {ctx : CEmitContext}

theorem cEmitExpr_symbol {info : HirMeta} {ref : HirSymbolRef} (h : ref.kind ≠ .externC) :
    cEmitExpr ctx (.symbol info ref) = .var ref.variable := by
  rw [cEmitExpr, cEmitSymbol]
  split
  · next hExtern => exact absurd hExtern h
  · rfl

theorem valid_cEmitLiteral (lit : AstLiteral) :
    (cEmitLiteral lit).Valid u rt locals ↔ lit.InC rt := by
  cases lit <;> exact Iff.rfl

theorem valid_cEmitLambda (addr : Addr) : (cEmitLambda ctx addr).Valid u rt locals := by
  unfold cEmitLambda
  split <;> exact trivial

theorem valid_cEmitBinary {operator : AstBinaryOperator} {leftType rightType : CheckedType}
    {left right : CExpr} :
    (cEmitBinary operator leftType rightType left right).Valid u rt locals ↔
      OperatorInC rt operator leftType rightType ∧ left.Valid u rt locals ∧
        right.Valid u rt locals := by
  have hText : cEmitBinary operator leftType rightType left right =
      if (isFloatType leftType || isFloatType rightType) = true then
        if isComparisonOp operator = true then
          .floatCompare (emitBinaryOp operator) (isFloatType leftType) left
            (isFloatType rightType) right
        else if isArithmeticOp operator = true then
          .floatArith (emitBinaryOp operator) (isFloatType leftType) left
            (isFloatType rightType) right
        else .binary (emitBinaryOp operator) left right
      else .binary (emitBinaryOp operator) left right := by
    unfold cEmitBinary
    cases isFloatType leftType <;> cases isFloatType rightType <;>
      cases isComparisonOp operator <;> cases isArithmeticOp operator <;> rfl
  rw [hText, OperatorInC]
  split
  case isTrue hFloat =>
    split
    · exact and_congr_left' ⟨fun h _ => h, fun h => h hFloat⟩
    · split
      · next hArith => exact and_congr_left' ⟨fun h _ _ => h, fun h => h hFloat hArith⟩
      · next hArith => exact ⟨fun h => ⟨fun _ hOp => absurd hOp hArith, h⟩, And.right⟩
  case isFalse hFloat => exact ⟨fun h => ⟨fun hOp => absurd hOp hFloat, h⟩, And.right⟩

theorem stores_cEmitExpr (e : HirExpression) :
    (cEmitExpr ctx e).Stores u locals ↔ e.IsVariable u locals := by
  have hNone : ∀ c : CExpr, c.lvalue? = none → ¬ c.Stores u locals := by
    rintro c hNone ⟨name, hName, _⟩
    rw [hNone] at hName
    exact nomatch hName
  cases e with
  | symbol info ref =>
    by_cases h : ref.kind = .externC
    · refine iff_of_false (hNone _ ?_) fun hVariable => hVariable.1 h
      rw [cEmitExpr, cEmitSymbol, h]
      rfl
    · rw [cEmitExpr_symbol h]
      constructor
      · rintro ⟨name, hName, hStores⟩
        cases hName
        exact ⟨h, hStores⟩
      · exact fun hVariable => ⟨_, rfl, hVariable.2⟩
  | literal info lit => cases lit <;> exact iff_of_false (hNone _ rfl) id
  | lambda info addr parameters body =>
    rw [cEmitExpr, cEmitLambda]
    split <;> exact iff_of_false (hNone _ rfl) id
  | assignment info operator target value =>
    cases target <;> exact iff_of_false (hNone _ rfl) id
  | binary info operator left right =>
    rw [cEmitExpr]
    unfold cEmitBinary
    dsimp only
    split
    · exact iff_of_false (hNone _ rfl) id
    · split <;> exact iff_of_false (hNone _ rfl) id
  | unary info operator operand =>
    rw [cEmitExpr, cEmitUnary]
    split <;> exact iff_of_false (hNone _ rfl) id
  | call info callee arguments =>
    cases callee with
    | symbol info ref =>
      rw [cEmitExpr]
      split <;> exact iff_of_false (hNone _ rfl) id
    | _ => exact iff_of_false (hNone _ rfl) id
  | _ => exact iff_of_false (hNone _ rfl) id

mutual
/-- The text is valid exactly if the expression is made of what C has there. -/
theorem valid_cEmitExpr : ∀ e : HirExpression,
    (cEmitExpr ctx e).Valid u rt locals ↔ e.InC u rt locals
  | .literal _ lit => valid_cEmitLiteral lit
  | .template _ parts => valid_cEmitTemplateParts parts
  | .symbol info ref => by
    by_cases h : ref.kind = .externC
    · rw [cEmitExpr, cEmitSymbol, h]
      exact iff_of_true trivial (Or.inl h)
    · rw [cEmitExpr_symbol h]
      exact ⟨Or.inr, fun hReads => hReads.resolve_left h⟩
  | .lambda _ addr _ _ => iff_of_true (valid_cEmitLambda addr) trivial
  | .assignment info operator target value => by
    have hTarget : (cEmitExpr ctx target).Stores u locals ↔ _ := stores_cEmitExpr target
    cases target with
    | index info target index => exact iff_of_false id fun h => h.1
    | _ => exact and_congr hTarget (valid_cEmitExpr value)
  | .ternary _ condition thenBranch elseBranch =>
    and_congr (valid_cEmitExpr condition)
      (and_congr (valid_cEmitExpr thenBranch) (valid_cEmitExpr elseBranch))
  | .binary _ operator left right => by
    rw [cEmitExpr, valid_cEmitBinary]
    exact and_congr_right' (and_congr (valid_cEmitExpr left) (valid_cEmitExpr right))
  | .unary _ operator operand => by
    have hOperand := valid_cEmitExpr operand
    have hStores : (cEmitExpr ctx operand).Stores u locals ↔ _ := stores_cEmitExpr operand
    rw [cEmitExpr, cEmitUnary]
    split
    · next h =>
      rw [h.1]
      exact hOperand
    · cases operator with
      | preIncrement | preDecrement => exact hStores
      | deref | addressOf => exact Iff.rfl
      | _ => exact hOperand
  | .call info callee arguments => by
    have hCallee := valid_cEmitExpr callee
    have hArguments := valid_cEmitExprs arguments
    cases callee with
    | symbol info ref =>
      rw [cEmitExpr]
      split
      · next h => exact hArguments.trans ⟨fun hArgs => ⟨Or.inl h, hArgs⟩, And.right⟩
      · exact and_congr hCallee hArguments
    | _ => exact and_congr hCallee hArguments
  | .index _ target index =>
    and_congr (valid_cEmitExpr target) (valid_cEmitExpr index)
  | .member _ target _ => valid_cEmitExpr target
  | .cast _ _ expression => valid_cEmitExpr expression
  | .arrayLiteral _ elements => valid_cEmitExprs elements
  | .discard _ => iff_of_true trivial trivial
  | .postIncrement _ operand => stores_cEmitExpr operand
  | .postDecrement _ operand => stores_cEmitExpr operand

theorem valid_cEmitExprs : ∀ es : List HirExpression,
    expressionsValid u rt locals (cEmitExprs ctx es) ↔ expressionsInC u rt locals es
  | [] => Iff.rfl
  | e :: es => and_congr (valid_cEmitExpr e) (valid_cEmitExprs es)

theorem valid_cEmitTemplateParts : ∀ parts : List HirTemplatePart,
    templateValid u rt locals (cEmitTemplateParts ctx parts) ↔ templateInC u rt locals parts
  | [] => Iff.rfl
  | .text _ :: parts => and_congr_right' (valid_cEmitTemplateParts parts)
  | .expression e :: parts =>
    and_congr (valid_cEmitExpr e) (valid_cEmitTemplateParts parts)
end

end Text

/-! ## Runs of valid text -/

section Runs

variable {S : Type} {u : CUnit} {rt : CRuntime S} {call : CallHandler S} {locals : List String}

/-- The variables of the place are there. -/
def CUnit.Present (u : CUnit) (locals : List String) (s : CState S) : Prop :=
  ∀ name, u.Declares locals name →
    (CFrame.lookup name s.frame).isSome ∨ (s.globals name).isSome

/-- The runtime and the functions that are called do not stop as ill-formed C, and a variable of
the file stays. -/
structure SoundBelow (rt : CRuntime S) (call : CallHandler S) : Prop where
  operation {α : Type} {m : RtM S α} (hOp : rt.Operation m) {s : S} {halt : Halt S}
    (h : m s = .error halt) : halt.reason ≠ .illFormed
  stops {id : Nat} {arguments : List CalyndaRtWord} {s : CState S} {halt : Halt S}
    (h : call id arguments s = .error halt) : halt.reason ≠ .illFormed
  keeps {id : Nat} {arguments : List CalyndaRtWord} {s s' : CState S} {word : CalyndaRtWord}
    (h : call id arguments s = .ok (word, s')) {name : String} (hName : (s.globals name).isSome) :
    (s'.globals name).isSome

/-- Where the variables of the place are there, a run does not stop as ill-formed, and they are
still there at its end. -/
abbrev WellRun {α : Type} (u : CUnit) (locals : List String) (m : CM S α) : Prop :=
  Safe (u.Present locals) (fun halt : Halt S => halt.reason ≠ .illFormed) m

theorem wellRun_stop {α : Type} {reason : Stop} (h : reason ≠ .illFormed) :
    WellRun u locals (stop reason : CM S α) := by
  intro s _
  refine ⟨?_, nofun⟩
  rintro halt ⟨⟩
  exact h

theorem wellRun_orStop {α : Type} {reason : Stop} {a : Option α}
    (h : a = none → reason ≠ .illFormed) : WellRun u locals (orStop reason a : CM S α) := by
  cases a with
  | none => exact wellRun_stop (h rfl)
  | some a => exact Safe.ret a

theorem wellRun_orStop_some {α : Type} {reason : Stop} {a : Option α} (h : a.isSome = true) :
    WellRun u locals (orStop reason a : CM S α) :=
  wellRun_orStop fun hNone => by rw [hNone] at h; exact nomatch h

namespace SoundBelow

theorem liftRt {α : Type} {m : RtM S α} (hSound : SoundBelow rt call) (hOp : rt.Operation m) :
    WellRun u locals (liftRt m) := by
  intro s hPresent
  unfold Calynda.liftRt
  cases hRun : m s.runtime with
  | error halt =>
    refine ⟨?_, nofun⟩
    rintro _ ⟨⟩
    exact hSound.operation hOp hRun
  | ok p =>
    refine ⟨nofun, ?_⟩
    rintro a s' ⟨⟩
    exact hPresent

theorem callCallable (hSound : SoundBelow rt call) (callee : CalyndaRtWord)
    (arguments : List CalyndaRtWord) : WellRun u locals (callCallable rt call callee arguments) := by
  intro s hPresent
  rw [callCallable_eq]
  cases rt.callee s.runtime callee with
  | other => exact hSound.liftRt (.callOther callee arguments) s hPresent
  | closure id =>
    dsimp only
    cases hCall : call id arguments s with
    | error halt =>
      refine ⟨?_, nofun⟩
      rintro _ ⟨⟩
      exact hSound.stops hCall
    | ok p =>
      refine ⟨nofun, ?_⟩
      rintro a s' ⟨⟩
      intro name hName
      exact (hPresent name hName).imp_right (hSound.keeps hCall)

end SoundBelow

theorem wellRun_readVar {name : String} (h : u.Reads locals name) :
    WellRun u locals (readVar u rt name) := by
  intro s hPresent
  rw [readVar_eq]
  cases hMacro : u.macro? name with
  | some package => exact Safe.ret _ s hPresent
  | none =>
    have hDeclared : u.Declares locals name :=
      h.resolve_left (by rw [hMacro]; exact Bool.false_ne_true)
    cases hLookup : CFrame.lookup name s.frame with
    | some value =>
      cases value with
      | some word => exact Safe.ret _ s hPresent
      | none => exact wellRun_stop (by decide) s hPresent
    | none =>
      have hGlobal := hPresent name hDeclared
      rw [hLookup] at hGlobal
      obtain ⟨word, hWord⟩ := Option.isSome_iff_exists.1 (hGlobal.resolve_left nofun)
      rw [hWord]
      exact Safe.ret _ s hPresent

theorem CUnit.Present.assign {name : String} {s : CState S} (h : u.Present locals s)
    (word : CalyndaRtWord) :
    u.Present locals { s with frame := CFrame.assign name word s.frame } := by
  intro other hOther
  refine (h other hOther).imp_left fun hLookup => ?_
  by_cases hMem : other ∈ s.frame.names
  · have hMem' : other ∈ (CFrame.assign name word s.frame).names := by
      rwa [CFrame.names_assign]
    obtain ⟨value, hValue⟩ := CFrame.exists_lookup hMem'
    rw [hValue]
    rfl
  · rw [CFrame.lookup_eq_none.2 hMem] at hLookup
    exact nomatch hLookup

theorem wellRun_writeVar {name : String} (h : u.Stores locals name) (word : CalyndaRtWord) :
    WellRun u locals (writeVar u name word : CM S Unit) := by
  intro s hPresent
  rw [writeVar_eq, h.1]
  cases hLookup : CFrame.lookup name s.frame with
  | some value =>
    refine ⟨nofun, ?_⟩
    rintro a s' ⟨⟩
    exact hPresent.assign word
  | none =>
    have hGlobal := hPresent name h.2
    rw [hLookup] at hGlobal
    obtain ⟨old, hOld⟩ := Option.isSome_iff_exists.1 (hGlobal.resolve_left nofun)
    rw [hOld]
    refine ⟨nofun, ?_⟩
    rintro a s' ⟨⟩
    intro other hOther
    refine (hPresent other hOther).imp_right fun hSome => ?_
    dsimp only
    split
    · rfl
    · exact hSome

theorem CUnit.Stores.reads {name : String} (h : u.Stores locals name) : u.Reads locals name :=
  Or.inr h.2

theorem wellRun_stepVar {operand : CExpr} (h : operand.Stores u locals) (amount : BitVec 32) :
    WellRun u locals (stepVar u rt operand amount) := by
  obtain ⟨name, hName, hStores⟩ := h
  unfold stepVar
  rw [hName]
  simp only [orStop, pure_bind]
  refine (wellRun_readVar (CUnit.Stores.reads hStores)).bind fun word => ?_
  exact (wellRun_writeVar hStores _).bind fun _ => Safe.ret _

theorem wellRun_evalUnaryWord {operator : AstUnaryOperator} (word : CalyndaRtWord)
    (h : operator = .logicalNot ∨ operator = .bitwiseNot ∨ operator = .negate ∨ operator = .plus) :
    WellRun u locals (evalUnaryWord operator word : CM S CalyndaRtWord) := by
  rcases h with rfl | rfl | rfl | rfl <;> exact Safe.ret _

mutual
/-- A run of valid text does not stop as ill-formed. -/
theorem wellRun_evalExpr (hSound : SoundBelow rt call) :
    (e : CExpr) → e.Valid u rt locals → WellRun u locals (evalExpr u rt call e)
  | .intLit text, h => by
    rw [evalExpr]
    exact (wellRun_orStop_some h).bind fun _ => Safe.ret _
  | .charLit text, h => by
    rw [evalExpr]
    exact (wellRun_orStop_some h).bind fun _ => Safe.ret _
  | .floatLit _, _ | .boolLit _, _ | .zero, _ | .externName _, _ | .unregistered _, _ => by
    rw [evalExpr]
    exact Safe.ret _
  | .stringLit text, _ => by
    rw [evalExpr]
    exact hSound.liftRt (.makeStringCopy text)
  | .closureNew id _, _ => by
    rw [evalExpr]
    exact hSound.liftRt (.closureNew id)
  | .var name, h => by
    rw [evalExpr]
    exact wellRun_readVar h
  | .template parts, h => by
    rw [evalExpr]
    exact (wellRun_evalTemplateParts hSound parts h).bind fun parts =>
      hSound.liftRt (.templateBuild parts)
  | .storeIndex _ _ _, h => h.elim
  | .loaded target index operator value, h => by
    rw [evalExpr]
    refine (wellRun_evalExpr hSound target h.1).bind fun target => ?_
    refine (wellRun_evalExpr hSound index h.2.1).bind fun index => ?_
    refine (hSound.liftRt (.indexLoad target index)).bind fun loaded => ?_
    refine (wellRun_evalExpr hSound value h.2.2).bind fun value => ?_
    exact (wellRun_orStop fun _ => by decide).bind fun _ => Safe.ret _
  | .assign target operator value, h => by
    obtain ⟨name, hName, hStores⟩ := h.1
    have hValue := wellRun_evalExpr hSound value h.2
    rw [evalExpr, hName]
    simp only [orStop, pure_bind]
    cases compoundInfix operator with
    | none =>
      refine hValue.bind fun word => ?_
      exact (wellRun_writeVar hStores word).bind fun _ => Safe.ret _
    | some operator =>
      refine (wellRun_readVar (CUnit.Stores.reads hStores)).bind fun old => ?_
      refine hValue.bind fun value => ?_
      refine (wellRun_orStop fun _ => by decide).bind fun bits => ?_
      exact (wellRun_writeVar hStores _).bind fun _ => Safe.ret _
  | .ternary condition thenBranch elseBranch, h => by
    rw [evalExpr]
    refine (wellRun_evalExpr hSound condition h.1).bind fun condition => ?_
    split
    · exact wellRun_evalExpr hSound thenBranch h.2.1
    · exact wellRun_evalExpr hSound elseBranch h.2.2
  | .floatArith operator _ left _ right, h => by
    rw [evalExpr]
    refine (wellRun_evalExpr hSound left h.2.1).bind fun left => ?_
    refine (wellRun_evalExpr hSound right h.2.2).bind fun right => ?_
    exact (wellRun_orStop_some (h.1 _ _)).bind fun _ => Safe.ret _
  | .floatCompare operator _ left _ right, h => by
    rw [evalExpr]
    refine (wellRun_evalExpr hSound left h.2.1).bind fun left => ?_
    refine (wellRun_evalExpr hSound right h.2.2).bind fun right => ?_
    exact (wellRun_orStop_some (h.1 _ _)).bind fun _ => Safe.ret _
  | .binary operator left right, h => by
    rw [evalExpr]
    have hRight := wellRun_evalExpr hSound right h.2
    refine (wellRun_evalExpr hSound left h.1).bind fun left => ?_
    split
    · split
      · exact Safe.ret _
      · exact hRight.bind fun _ => Safe.ret _
    · split
      · exact Safe.ret _
      · exact hRight.bind fun _ => Safe.ret _
    · exact hRight.bind fun _ => (wellRun_orStop fun _ => by decide).bind fun _ => Safe.ret _
  | .floatNegate operand, h => by
    rw [evalExpr]
    exact (wellRun_evalExpr hSound operand h).bind fun _ => Safe.ret _
  | .unary operator operand, h => by
    cases operator with
    | preIncrement | preDecrement =>
      rw [evalExpr]
      exact (wellRun_stepVar h _).bind fun _ => Safe.ret _
    | deref | addressOf => exact h.elim
    | _ =>
      rw [evalExpr]
      · exact (wellRun_evalExpr hSound operand h).bind fun word =>
          wellRun_evalUnaryWord word (by simp)
      all_goals nofun
  | .externCall name arguments, h => by
    rw [evalExpr]
    exact (wellRun_evalExprs hSound arguments h).bind fun arguments =>
      hSound.liftRt (.externCall _ arguments)
  | .callCallable callee arguments, h => by
    rw [evalExpr]
    refine (wellRun_evalExpr hSound callee h.1).bind fun callee => ?_
    exact (wellRun_evalExprs hSound arguments h.2).bind fun arguments =>
      hSound.callCallable callee arguments
  | .indexLoad target index, h => by
    rw [evalExpr]
    refine (wellRun_evalExpr hSound target h.1).bind fun target => ?_
    exact (wellRun_evalExpr hSound index h.2).bind fun index =>
      hSound.liftRt (.indexLoad target index)
  | .memberLoad target member, h => by
    rw [evalExpr]
    exact (wellRun_evalExpr hSound target h).bind fun target =>
      hSound.liftRt (.memberLoad target member)
  | .castValue expression tag, h => by
    rw [evalExpr]
    exact (wellRun_evalExpr hSound expression h).bind fun word =>
      hSound.liftRt (.castValue word tag)
  | .arrayLiteral elements, h => by
    rw [evalExpr]
    exact (wellRun_evalExprs hSound elements h).bind fun elements =>
      hSound.liftRt (.arrayLiteral elements)
  | .postIncrement operand, h => by
    rw [evalExpr]
    exact (wellRun_stepVar h _).bind fun _ => Safe.ret _
  | .postDecrement operand, h => by
    rw [evalExpr]
    exact (wellRun_stepVar h _).bind fun _ => Safe.ret _

theorem wellRun_evalExprs (hSound : SoundBelow rt call) :
    (es : List CExpr) → expressionsValid u rt locals es →
      WellRun u locals (evalExprs u rt call es)
  | [], _ => by
    rw [evalExprs]
    exact Safe.ret _
  | e :: es, h => by
    rw [evalExprs]
    refine (wellRun_evalExpr hSound e h.1).bind fun word => ?_
    exact (wellRun_evalExprs hSound es h.2).bind fun _ => Safe.ret _

theorem wellRun_evalTemplateParts (hSound : SoundBelow rt call) :
    (parts : List CTemplatePart) → templateValid u rt locals parts →
      WellRun u locals (evalTemplateParts u rt call parts)
  | [], _ => by
    rw [evalTemplateParts]
    exact Safe.ret _
  | .text _ :: parts, h => by
    rw [evalTemplateParts]
    exact (wellRun_evalTemplateParts hSound parts h.2).bind fun _ => Safe.ret _
  | .value e :: parts, h => by
    rw [evalTemplateParts]
    refine (wellRun_evalExpr hSound e h.1).bind fun word => ?_
    exact (wellRun_evalTemplateParts hSound parts h.2).bind fun _ => Safe.ret _
end

end Runs

/-! ## What an assignment does -/

section Once

variable {S : Type} (u : CUnit) (rt : CRuntime S) (call : CallHandler S)

/-- The assigned word: the value, or what the operator makes of the old word and the value. -/
def assignedWord (operator : AstAssignmentOperator) (old value : CM S CalyndaRtWord) :
    CM S CalyndaRtWord :=
  match compoundInfix operator with
  | none => value
  | some operator => do
    let old ← old
    let value ← value
    let bits ← orStop .undefined (operator.apply old.bits value.bits)
    return { bits }

/-- Each part of the target and the value is evaluated once, and the word is stored once. -/
def assignOnce (ctx : CEmitContext) (operator : AstAssignmentOperator)
    (target value : HirExpression) : CM S CalyndaRtWord :=
  let value := evalExpr u rt call (cEmitExpr ctx value)
  match target with
  | .index _ array index => do
    let array ← evalExpr u rt call (cEmitExpr ctx array)
    let index ← evalExpr u rt call (cEmitExpr ctx index)
    let word ← assignedWord operator (liftRt (rt.indexLoad array index)) value
    liftRt (rt.storeIndex array index word)
    return word
  | .symbol _ ref => do
    let name := ref.variable.emitted
    let word ← assignedWord operator (readVar u rt name) value
    writeVar u name word
    return word
  | .discard _ => value
  | _ => stop .illFormed

end Once

/-- At the place, the emitted assignment is an expression of C that does all this and has the
assigned word, and no run of it stops as ill-formed. -/
structure AssignsOnce {S : Type} (u : CUnit) (rt : CRuntime S) (locals : List String)
    (ctx : CEmitContext) (info : HirMeta) (operator : AstAssignmentOperator)
    (target value : HirExpression) : Prop where
  valid : (cEmitExpr ctx (.assignment info operator target value)).Valid u rt locals
  once (call : CallHandler S) (s : CState S) :
    evalExpr u rt call (cEmitExpr ctx (.assignment info operator target value)) s =
      assignOnce u rt call ctx operator target value s
  runs {call : CallHandler S} (hSound : SoundBelow rt call) {s : CState S}
    (hPresent : u.Present locals s) {halt : Halt S}
    (hRun : evalExpr u rt call (cEmitExpr ctx (.assignment info operator target value)) s =
      .error halt) : halt.reason ≠ .illFormed

section Main

variable {S : Type} {u : CUnit} {rt : CRuntime S} {call : CallHandler S}

theorem evalExpr_assign_variable {ctx : CEmitContext} {info info' : HirMeta}
    {operator : AstAssignmentOperator} {ref : HirSymbolRef} {value : HirExpression}
    (h : ref.kind ≠ .externC) (s : CState S) :
    evalExpr u rt call (cEmitExpr ctx (.assignment info operator (.symbol info' ref) value)) s =
      assignOnce u rt call ctx operator (.symbol info' ref) value s := by
  have hText : cEmitExpr ctx (.assignment info operator (.symbol info' ref) value) =
      .assign (.var ref.variable) operator (cEmitExpr ctx value) := by
    show CExpr.assign (cEmitExpr ctx (.symbol info' ref)) operator (cEmitExpr ctx value) = _
    rw [cEmitExpr_symbol h]
  rw [hText, evalExpr, assignOnce, assignedWord]
  simp only [CExpr.lvalue?, orStop, pure_bind]
  cases compoundInfix operator with
  | none => rfl
  | some operator => simp only [bind_assoc, pure_bind]

end Main

section Examples

def int32Info : HirMeta := { type := tcCheckedTypeValue .int32 0, sourceSpan := .zero }

def localVariable (name : String) : HirExpression :=
  .symbol int32Info ⟨none, name, .local, tcCheckedTypeValue .int32 0, .zero⟩

end Examples

end Calynda
