import Calynda.Lib.SignedWord
import Calynda.CSem.Runtime

/-!
# Integer expressions

The meaning of `int32` expressions in the source, two's complement and signed, compared with
the run of the text emitted for them, where every word is unsigned. The two agree on an
expression and on all parts of it that are evaluated exactly when the operands of the
operations that depend on the sign are ones for which both readings give the same word.
-/

namespace Calynda

open SignedWord StateExcept

/-! ## Meaning in the source -/

/-- The operators on `int32` values; a truth value is 0 or 1. Undefined are a division by
zero and a shift out of range. -/
def sourceBinary (operator : AstBinaryOperator) (a b : BitVec 32) : Option (BitVec 32) :=
  match operator with
  | .logicalOr | .logicalAnd => none
  | .bitOr => some (a ||| b)
  | .bitNand => some (~~~(a &&& b))
  | .bitXor => some (a ^^^ b)
  | .bitXnor => some (~~~(a ^^^ b))
  | .bitAnd => some (a &&& b)
  | .equal => some (boolBits (a == b))
  | .notEqual => some (boolBits (a != b))
  | .less => some (boolBits (a.slt b))
  | .greater => some (boolBits (b.slt a))
  | .lessEqual => some (boolBits (a.sle b))
  | .greaterEqual => some (boolBits (b.sle a))
  | .shiftLeft => if b.toNat < 32 then some (a <<< b.toNat) else none
  | .shiftRight => if b.toNat < 32 then some (a.sshiftRight b.toNat) else none
  | .add => some (a + b)
  | .subtract => some (a - b)
  | .multiply => some (a * b)
  | .divide => if b = 0 then none else some (a.sdiv b)
  | .modulo => if b = 0 then none else some (a.srem b)

section
variable (store : String → CalyndaRtWord)

/-- The value of an expression when the variables hold the words of `store`. -/
def evalSource : HirExpression → Option (BitVec 32)
  | .literal _ (.integer text) => int32Literal text
  | .symbol _ ref => some (store ref.name).bits
  | .unary _ .negate operand => (evalSource operand).map fun a => -a
  | .unary _ .bitwiseNot operand => (evalSource operand).map fun a => ~~~a
  | .ternary _ condition thenBranch elseBranch =>
    match evalSource condition with
    | some a => if a ≠ 0 then evalSource thenBranch else evalSource elseBranch
    | none => none
  | .binary _ operator left right =>
    match evalSource left, evalSource right with
    | some a, some b => sourceBinary operator a b
    | _, _ => none
  | _ => none

/-- The parts of an expression that are evaluated, itself first: of a ternary the condition
and the branch it chooses. -/
def evaluatedParts : HirExpression → List HirExpression
  | .unary info operator operand => .unary info operator operand :: evaluatedParts operand
  | .ternary info condition thenBranch elseBranch =>
    .ternary info condition thenBranch elseBranch ::
      (evaluatedParts condition ++
        match evalSource store condition with
        | some a => if a ≠ 0 then evaluatedParts thenBranch else evaluatedParts elseBranch
        | none => [])
  | .binary info operator left right =>
    .binary info operator left right :: (evaluatedParts left ++ evaluatedParts right)
  | e => [e]

end

/-- A well-typed tree of `int32` literals, the variables `vars`, unary `-` and `~`, ternaries
and the binary operators other than `||` and `&&`; the types are those that the checker
gives. -/
inductive IntExpr (vars : List String) : HirExpression → Prop where
  | literal (info : HirMeta) (text : String) (hType : info.type = tcCheckedTypeValue .int32 0)
      (hInt32 : (int32Literal text).isSome) : IntExpr vars (.literal info (.integer text))
  | symbol (info : HirMeta) (ref : HirSymbolRef)
      (hType : info.type = tcCheckedTypeValue .int32 0)
      (hKind : ref.kind = .topLevelBinding ∨ ref.kind = .parameter ∨ ref.kind = .local)
      (hName : ref.name ∈ vars) : IntExpr vars (.symbol info ref)
  | negate (info : HirMeta) (operand : HirExpression) (hOperand : IntExpr vars operand)
      (hNumeric : tcCheckedTypeIsNumeric operand.type) (hType : info.type = operand.type) :
      IntExpr vars (.unary info .negate operand)
  | bitwiseNot (info : HirMeta) (operand : HirExpression) (hOperand : IntExpr vars operand)
      (hIntegral : tcCheckedTypeIsIntegral operand.type) (hType : info.type = operand.type) :
      IntExpr vars (.unary info .bitwiseNot operand)
  | ternary (info : HirMeta) (condition thenBranch elseBranch : HirExpression)
      (hCondition : IntExpr vars condition) (hThen : IntExpr vars thenBranch)
      (hElse : IntExpr vars elseBranch) (hBool : tcCheckedTypeIsBool condition.type)
      (hType : tcMergeTypesForInference thenBranch.type elseBranch.type = some info.type) :
      IntExpr vars (.ternary info condition thenBranch elseBranch)
  | binary (info : HirMeta) (operator : AstBinaryOperator) (left right : HirExpression)
      (hLeft : IntExpr vars left) (hRight : IntExpr vars right)
      (hOr : operator ≠ .logicalOr) (hAnd : operator ≠ .logicalAnd)
      (hType : tcBinaryOperatorType operator left.type right.type = some info.type) :
      IntExpr vars (.binary info operator left right)

/-! ## When the two readings agree -/

/-- The text has the prefix of octal digits. -/
def hasOctalPrefix (text : String) : Bool :=
  match text.toList with
  | '0' :: 'o' :: _ | '0' :: 'O' :: _ => true
  | _ => false

/-- The text is decimal and has digits after a zero. -/
def hasLeadingZero (text : String) : Bool :=
  match text.toList with
  | '0' :: c :: _ => !(c ∈ ['b', 'B', 'o', 'O', 'x', 'X'])
  | _ => false

/-- C reads the number of the source: no octal prefix, and after a leading zero at most one
digit that counts, an octal one. -/
def LiteralReadsAlike (text : String) : Prop :=
  hasOctalPrefix text = false ∧
    (hasLeadingZero text = true → ∀ value, integerLiteralValue text = some value → value < 8)

/-- The operands for which the C operator gives the word of the source. -/
def OperandsReadAlike (operator : AstBinaryOperator) (a b : BitVec 32) : Prop :=
  match operator with
  | .less | .greater | .lessEqual | .greaterEqual => a.toInt < 0 ↔ b.toInt < 0
  | .divide => QuotientsAgree a b
  | .modulo => RemaindersAgree a b
  | .shiftRight => 0 ≤ a.toInt ∨ b = 0
  | .bitNand => a = BitVec.allOnes 32
  | _ => True

/-- The condition on one node. -/
def NodeReadsAlike (store : String → CalyndaRtWord) : HirExpression → Prop
  | .literal _ (.integer text) => LiteralReadsAlike text
  | .binary _ operator left right =>
    ∀ a b, evalSource store left = some a → evalSource store right = some b →
      OperandsReadAlike operator a b
  | _ => True

/-! ## Literals -/

/-- Decimal and octal readings of the same digits after the same number: the octal one is not
larger, and equal only when all digits but the last are zeros. -/
theorem readDigits_octal_le {cs : List Char} {a b v w : Nat} (hab : a ≤ b)
    (hv : readDigits 8 a cs = some v) (hw : readDigits 10 b cs = some w) :
    v ≤ w ∧ (v = w → a = b) := by
  induction cs generalizing a b with
  | nil =>
    cases hv
    cases hw
    exact ⟨hab, id⟩
  | cons c cs ih =>
    simp only [readDigits] at hv hw
    cases hd : digitValue c with
    | none => rw [hd] at hv; exact nomatch hv
    | some d =>
      rw [hd] at hv hw
      simp only at hv hw
      split at hv
      · rw [if_pos (by omega)] at hw
        obtain ⟨hle, heq⟩ := ih (a := a * 8 + d) (b := b * 10 + d) (by omega) hv hw
        exact ⟨hle, fun h => by have := heq h; omega⟩
      · exact nomatch hv

theorem readDigits_ge {base : Nat} (hBase : 0 < base) {cs : List Char} {acc w : Nat}
    (hw : readDigits base acc cs = some w) : acc ≤ w := by
  induction cs generalizing acc with
  | nil => exact Nat.le_of_eq (Option.some.inj hw)
  | cons c cs ih =>
    simp only [readDigits] at hw
    cases hd : digitValue c with
    | none => rw [hd] at hw; exact nomatch hw
    | some d =>
      rw [hd] at hw
      simp only at hw
      split at hw
      · have hStep : acc ≤ acc * base := Nat.le_mul_of_pos_right acc hBase
        have := ih hw
        omega
      · exact nomatch hw

/-- The two readings of the digits after a zero are the same number exactly when it is less
than eight. -/
theorem readDigits_octal_eq_iff {cs : List Char} {w : Nat} (hw : readDigits 10 0 cs = some w) :
    readDigits 8 0 cs = some w ↔ w < 8 := by
  induction cs with
  | nil =>
    cases hw
    simp [readDigits]
  | cons c cs ih =>
    simp only [readDigits] at hw ⊢
    cases hd : digitValue c with
    | none => rw [hd] at hw; exact nomatch hw
    | some d =>
      rw [hd] at hw
      simp only [Nat.zero_mul, Nat.zero_add] at hw ⊢
      split at hw
      · rcases Nat.eq_zero_or_pos d with rfl | hPos
        · rw [if_pos (by decide)]
          exact ih hw
        · cases cs with
          | nil =>
            cases hw
            simp [readDigits]
          | cons c' cs =>
            -- a digit that counts is followed by another: the number is at least ten
            have hTen : ¬ w < 8 := by
              simp only [readDigits] at hw
              split at hw
              · split at hw
                · have := readDigits_ge (by decide) hw
                  omega
                · exact nomatch hw
              · exact nomatch hw
            refine iff_of_false (fun h => ?_) hTen
            split at h
            · simp only [readDigits] at hw h
              cases hd' : digitValue c' with
              | none => rw [hd'] at hw; exact nomatch hw
              | some d' =>
                rw [hd'] at hw h
                simp only at hw h
                split at h
                · rw [if_pos (by omega)] at hw
                  have := (readDigits_octal_le (by omega) h hw).2 rfl
                  omega
                · exact nomatch h
            · exact nomatch h
      · exact nomatch hw

/-- C reads the word of a literal of at most 32 bits exactly when the text reads alike. -/
theorem cIntegerConstant_eq_iff_of_lt {text : String} {value : Nat}
    (hRead : integerLiteralValue text = some value) (hSmall : value < 2 ^ 32) :
    (cIntegerConstant text).map (BitVec.ofNat 32) = some (BitVec.ofNat 32 value) ↔
      LiteralReadsAlike text := by
  have same : ∀ v, v ≤ value → (((some v).filter (· < 2 ^ 64)).map (BitVec.ofNat 32) =
      some (BitVec.ofNat 32 value) ↔ v = value) := by
    intro v hv
    have hLt : v < 2 ^ 64 := by omega
    rw [Option.filter_some, if_pos (by simpa using hLt), Option.map_some, Option.some_inj,
      ← BitVec.toNat_inj, BitVec.toNat_ofNat, BitVec.toNat_ofNat, Nat.mod_eq_of_lt (by omega),
      Nat.mod_eq_of_lt (by omega)]
  have reads := (same value le_rfl).2 rfl
  unfold LiteralReadsAlike
  unfold integerLiteralValue at hRead ⊢
  unfold cIntegerConstant hasOctalPrefix hasLeadingZero
  generalize text.toList = cs at hRead ⊢
  split at hRead
  case h_1 | h_2 | h_5 | h_6 =>
    simp only [hRead]
    exact iff_of_true reads ⟨rfl, by simp⟩
  case h_3 ds | h_4 ds =>
    refine iff_of_false (fun hc => ?_) (fun hc => by cases hc.1)
    simp [readDigits, digitValue] at hc
  case h_7 hb hB ho hO hx hX =>
    split
    · next ds => exact absurd rfl (hb ds)
    · next ds => exact absurd rfl (hB ds)
    · next ds => exact absurd rfl (hx ds)
    · next ds => exact absurd rfl (hX ds)
    · next ds _ _ _ _ =>
      have hDecimal : readDigits 10 0 ds = some value := by
        simpa [readDigits, digitValue] using hRead
      have hOctal : ((readDigits 8 0 ds).filter (· < 2 ^ 64)).map (BitVec.ofNat 32) =
          some (BitVec.ofNat 32 value) ↔ value < 8 := by
        rw [← readDigits_octal_eq_iff hDecimal]
        cases h8 : readDigits 8 0 ds with
        | none => exact iff_of_false (fun h => by cases h) (fun h => by cases h)
        | some v => rw [same v (readDigits_octal_le le_rfl h8 hDecimal).1, Option.some_inj]
      rw [hOctal, hRead]
      cases ds with
      | nil =>
        cases hDecimal
        exact iff_of_true (by decide) ⟨rfl, (fun h => by cases h)⟩
      | cons c ds =>
        constructor
        · intro h8
          refine ⟨?_, fun _ v hv => Option.some.inj hv ▸ h8⟩
          split
          · next heq => cases heq; exact absurd rfl (ho _)
          · next heq => cases heq; exact absurd rfl (hO _)
          · rfl
        · rintro ⟨-, hZero⟩
          refine hZero ?_ value rfl
          have hOther : c ∉ ['b', 'B', 'o', 'O', 'x', 'X'] := by
            intro hMem
            simp only [List.mem_cons, List.not_mem_nil, or_false] at hMem
            rcases hMem with rfl | rfl | rfl | rfl | rfl | rfl
            · exact hb _ rfl
            · exact hB _ rfl
            · exact ho _ rfl
            · exact hO _ rfl
            · exact hx _ rfl
            · exact hX _ rfl
          simp only [hOther, decide_false, Bool.not_false]
    · next hZero =>
      rw [hRead]
      refine iff_of_true reads ⟨?_, fun h => ?_⟩
      · split
        · exact absurd rfl (ho _)
        · exact absurd rfl (hO _)
        · rfl
      · split at h
        · exact absurd rfl (hZero _)
        · cases h

/-- C reads the word of an `int32` literal exactly when the text reads alike. -/
theorem cIntegerConstant_eq_iff {text : String} {word : BitVec 32}
    (h : int32Literal text = some word) :
    (cIntegerConstant text).map (BitVec.ofNat 32) = some word ↔ LiteralReadsAlike text := by
  obtain ⟨value, hValue, rfl⟩ := Option.map_eq_some_iff.1 h
  obtain ⟨hRead, hSmall⟩ := Option.filter_eq_some_iff.1 hValue
  rw [decide_eq_true_eq] at hSmall
  exact cIntegerConstant_eq_iff_of_lt hRead (by omega)

/-! ## Operators -/

theorem boolBits_inj {a b : Bool} : boolBits a = boolBits b ↔ a = b := by
  cases a <;> cases b <;> decide

theorem msb_eq_msb_iff (a b : BitVec 32) : a.msb = b.msb ↔ (a.toInt < 0 ↔ b.toInt < 0) := by
  rw [BitVec.msb_eq_toInt, BitVec.msb_eq_toInt, decide_eq_decide]

/-- The emitted operator gives the word of the source exactly for operands that read
alike. -/
theorem apply_emitBinaryOp_iff {operator : AstBinaryOperator} {a b c : BitVec 32}
    (h : sourceBinary operator a b = some c) :
    (emitBinaryOp operator).apply a b = some c ↔ OperandsReadAlike operator a b := by
  cases operator with
  | logicalOr => exact nomatch h
  | logicalAnd => exact nomatch h
  | bitOr | bitXor | bitAnd | equal | notEqual | shiftLeft | add | subtract | multiply =>
    exact iff_of_true h trivial
  | bitXnor =>
    cases h
    exact iff_of_true (congrArg some (not_xor_eq_xor_not a b).symm) trivial
  | bitNand =>
    cases h
    exact Option.some_inj.trans (eq_comm.trans (not_and_eq_and_not_iff a b))
  | less =>
    cases h
    exact Option.some_inj.trans (boolBits_inj.trans
      (eq_comm.trans ((slt_eq_ult_iff a b).trans (msb_eq_msb_iff a b))))
  | greater =>
    cases h
    exact Option.some_inj.trans (boolBits_inj.trans
      (eq_comm.trans ((slt_eq_ult_iff b a).trans (eq_comm.trans (msb_eq_msb_iff a b)))))
  | lessEqual =>
    cases h
    exact Option.some_inj.trans (boolBits_inj.trans
      (eq_comm.trans ((sle_eq_ule_iff a b).trans (msb_eq_msb_iff a b))))
  | greaterEqual =>
    cases h
    exact Option.some_inj.trans (boolBits_inj.trans
      (eq_comm.trans ((sle_eq_ule_iff b a).trans (eq_comm.trans (msb_eq_msb_iff a b)))))
  | shiftRight =>
    simp only [sourceBinary] at h
    split at h
    · next hRange =>
        cases h
        simp only [emitBinaryOp, CInfix.apply, cBinary, hRange, if_true, OperandsReadAlike,
          Option.some_inj, Bool.false_eq_true, if_false]
        rw [eq_comm, sshiftRight_eq_ushiftRight_iff, BitVec.msb_eq_toInt,
          decide_eq_false_iff_not, not_lt]
        exact or_congr_right ⟨fun h => BitVec.eq_of_toNat_eq h, congrArg BitVec.toNat⟩
    · exact nomatch h
  | divide =>
    simp only [sourceBinary] at h
    split at h
    · exact nomatch h
    · next hZero =>
        cases h
        simp only [emitBinaryOp, CInfix.apply, cBinary, hZero, if_false, OperandsReadAlike,
          Option.some_inj, Bool.false_eq_true]
        exact eq_comm.trans (sdiv_eq_udiv_iff a b hZero)
  | modulo =>
    simp only [sourceBinary] at h
    split at h
    · exact nomatch h
    · next hZero =>
        cases h
        simp only [emitBinaryOp, CInfix.apply, cBinary, hZero, if_false, OperandsReadAlike,
          Option.some_inj, Bool.false_eq_true]
        exact eq_comm.trans (srem_eq_umod_iff a b hZero)

/-! ## Types -/

namespace IntExpr

variable {vars : List String} {e : HirExpression}

/-- The checker gives an integer expression the type `int32` or `bool`. -/
theorem type_eq (h : IntExpr vars e) :
    e.type = tcCheckedTypeValue .int32 0 ∨ e.type = tcCheckedTypeValue .bool 0 := by
  induction h with
  | literal info text hType => exact .inl hType
  | symbol info ref hType => exact .inl hType
  | negate info operand _ _ hType ih => exact ih.imp hType.trans hType.trans
  | bitwiseNot info operand _ _ hType ih => exact ih.imp hType.trans hType.trans
  | ternary info condition thenBranch elseBranch _ _ _ _ hType _ ihThen ihElse =>
    simp only [HirExpression.type, HirExpression.info] at hType ihThen ihElse ⊢
    rcases ihThen with hThen | hThen <;> rcases ihElse with hElse | hElse <;>
      rw [hThen, hElse] at hType
    · exact .inl (Option.some.inj hType).symm
    · cases hType
    · cases hType
    · exact .inr (Option.some.inj hType).symm
  | binary info operator left right _ _ _ _ hType ihLeft ihRight =>
    simp only [HirExpression.type, HirExpression.info] at hType ihLeft ihRight ⊢
    rcases ihLeft with hLeft | hLeft <;> rcases ihRight with hRight | hRight <;>
      rw [hLeft, hRight] at hType <;> cases operator <;>
      first
        | exact .inl (Option.some.inj hType).symm
        | exact .inr (Option.some.inj hType).symm
        | cases hType

theorem isFloatType_eq (h : IntExpr vars e) : isFloatType e.type = false := by
  rcases h.type_eq with hType | hType <;> rw [hType] <;> rfl

end IntExpr

/-! ## Runs -/

section
variable {S : Type} (u : CUnit) (rt : CRuntime S) (call : CallHandler S)

/-- The text evaluates to a word with these bits and changes nothing. -/
def EvaluatesTo (s : CState S) (e : CExpr) (value : BitVec 32) : Prop :=
  ∃ tag, evalExpr u rt call e s = .ok ({ bits := value, tag }, s)

variable {u rt call} {s : CState S}

theorem evaluatesTo_intLit {text : String} {value : BitVec 32} :
    EvaluatesTo u rt call s (.intLit text) value ↔
      (cIntegerConstant text).map (BitVec.ofNat 32) = some value := by
  unfold EvaluatesTo
  rw [evalExpr]
  cases cIntegerConstant text with
  | none => exact iff_of_false (fun ⟨_, h⟩ => nomatch h) nofun
  | some n =>
    rw [Option.map_some, Option.some_inj]
    refine ⟨fun ⟨_, h⟩ => ?_, fun h => ⟨.integer, h ▸ rfl⟩⟩
    cases h
    rfl

theorem evaluatesTo_unary {operator : AstUnaryOperator} {operand : CExpr}
    {a value : BitVec 32} (ha : EvaluatesTo u rt call s operand a)
    (h : (operator = .negate ∧ value = -a) ∨ (operator = .bitwiseNot ∧ value = ~~~a)) :
    EvaluatesTo u rt call s (.unary operator operand) value := by
  obtain ⟨_, ha⟩ := ha
  rcases h with ⟨rfl, rfl⟩ | ⟨rfl, rfl⟩ <;>
    exact ⟨.integer, by rw [evalExpr, bind_ok ha]; rfl; all_goals exact fun h => by cases h⟩

theorem evaluatesTo_ternary {condition thenBranch elseBranch : CExpr} {a value : BitVec 32}
    (ha : EvaluatesTo u rt call s condition a) :
    EvaluatesTo u rt call s (.ternary condition thenBranch elseBranch) value ↔
      EvaluatesTo u rt call s (if a ≠ 0 then thenBranch else elseBranch) value := by
  obtain ⟨_, ha⟩ := ha
  unfold EvaluatesTo
  rw [evalExpr, bind_ok ha]
  by_cases h : a ≠ 0
  · rw [if_pos h, if_pos h]
  · rw [if_neg h, if_neg h]

theorem evaluatesTo_binary {operator : CInfix} {left right : CExpr} {a b value : BitVec 32}
    (hOr : operator.operator ≠ .logicalOr) (hAnd : operator.operator ≠ .logicalAnd)
    (ha : EvaluatesTo u rt call s left a) (hb : EvaluatesTo u rt call s right b) :
    EvaluatesTo u rt call s (.binary operator left right) value ↔
      operator.apply a b = some value := by
  obtain ⟨_, ha⟩ := ha
  obtain ⟨_, hb⟩ := hb
  have hRun : evalExpr u rt call (.binary operator left right) s =
      (do
        let bits ← orStop .undefined (operator.apply a b)
        return { bits } : CM S CalyndaRtWord) s := by
    obtain ⟨op, complement⟩ := operator
    rw [evalExpr, bind_ok ha]
    cases op with
    | logicalOr => exact absurd rfl hOr
    | logicalAnd => exact absurd rfl hAnd
    | _ =>
      dsimp only
      rw [bind_ok hb]
  unfold EvaluatesTo
  rw [hRun]
  cases operator.apply a b with
  | none => exact iff_of_false (fun ⟨_, h⟩ => nomatch h) nofun
  | some c =>
    rw [Option.some_inj]
    refine ⟨fun ⟨_, h⟩ => ?_, fun h => ⟨.integer, h ▸ rfl⟩⟩
    cases h
    rfl

/-! ## Agreement -/

variable (u rt call s) in
/-- The emitted text of every evaluated part gives the word of its meaning in the source. -/
def EmittedRight (ctx : CEmitContext) (store : String → CalyndaRtWord)
    (parts : List HirExpression) : Prop :=
  ∀ part ∈ parts, ∀ value, evalSource store part = some value →
    EvaluatesTo u rt call s (cEmitExpr ctx part) value

/-- Every evaluated part has operands that both readings treat alike. -/
def PartsReadAlike (store : String → CalyndaRtWord) (parts : List HirExpression) : Prop :=
  ∀ part ∈ parts, NodeReadsAlike store part

theorem mem_evaluatedParts_self (store : String → CalyndaRtWord) (e : HirExpression) :
    e ∈ evaluatedParts store e := by
  cases e <;> exact List.mem_cons_self

/-- A node over parts that agree: it adds its own condition. -/
theorem emittedRight_cons_iff {ctx : CEmitContext} {store : String → CalyndaRtWord}
    {e : HirExpression} {parts : List HirExpression} {value : BitVec 32}
    (hValue : evalSource store e = some value)
    (hParts : EmittedRight u rt call s ctx store parts ↔ PartsReadAlike store parts)
    (hNode : EmittedRight u rt call s ctx store parts →
      (EvaluatesTo u rt call s (cEmitExpr ctx e) value ↔ NodeReadsAlike store e)) :
    EmittedRight u rt call s ctx store (e :: parts) ↔ PartsReadAlike store (e :: parts) := by
  unfold EmittedRight PartsReadAlike at *
  rw [List.forall_mem_cons, List.forall_mem_cons]
  constructor
  · rintro ⟨hSelf, hRight⟩
    exact ⟨(hNode hRight).1 (hSelf value hValue), hParts.1 hRight⟩
  · rintro ⟨hSelf, hAlike⟩
    refine ⟨fun v hv => ?_, hParts.2 hAlike⟩
    rw [hValue] at hv
    cases hv
    exact (hNode (hParts.2 hAlike)).2 hSelf

theorem emittedRight_append_iff {ctx : CEmitContext} {store : String → CalyndaRtWord}
    {ps qs : List HirExpression}
    (hp : EmittedRight u rt call s ctx store ps ↔ PartsReadAlike store ps)
    (hq : EmittedRight u rt call s ctx store qs ↔ PartsReadAlike store qs) :
    EmittedRight u rt call s ctx store (ps ++ qs) ↔ PartsReadAlike store (ps ++ qs) := by
  unfold EmittedRight PartsReadAlike at *
  rw [List.forall_mem_append, List.forall_mem_append, hp, hq]

variable {ctx : CEmitContext} {store : String → CalyndaRtWord}

/-- A node without operands, or with one whose text is always right: nothing is added. -/
theorem evaluatesTo_of_emittedRight {e : HirExpression} {value : BitVec 32}
    (h : EmittedRight u rt call s ctx store (evaluatedParts store e))
    (hValue : evalSource store e = some value) :
    EvaluatesTo u rt call s (cEmitExpr ctx e) value :=
  h e (mem_evaluatedParts_self store e) value hValue

theorem emitBinaryOp_strict {operator : AstBinaryOperator} (hOr : operator ≠ .logicalOr)
    (hAnd : operator ≠ .logicalAnd) :
    (emitBinaryOp operator).operator ≠ .logicalOr ∧
      (emitBinaryOp operator).operator ≠ .logicalAnd := by
  cases operator <;> first | exact absurd rfl hOr | exact absurd rfl hAnd | exact ⟨nofun, nofun⟩

theorem cEmitExpr_binary {vars : List String} {info : HirMeta} {operator : AstBinaryOperator}
    {left right : HirExpression} (hLeft : IntExpr vars left) (hRight : IntExpr vars right) :
    cEmitExpr ctx (.binary info operator left right) =
      .binary (emitBinaryOp operator) (cEmitExpr ctx left) (cEmitExpr ctx right) := by
  simp [cEmitExpr, cEmitBinary, hLeft.isFloatType_eq, hRight.isFloatType_eq]

theorem cEmitExpr_unary {vars : List String} {info : HirMeta} {operator : AstUnaryOperator}
    {operand : HirExpression} (hOperand : IntExpr vars operand) :
    cEmitExpr ctx (.unary info operator operand) =
      .unary operator (cEmitExpr ctx operand) := by
  simp [cEmitExpr, cEmitUnary, hOperand.isFloatType_eq]

end

/-! ## Halving a number -/

section
variable (x : BitVec 32)

/-- `x / 2`, lowered. -/
def halved : HirExpression :=
  let int32 := tcCheckedTypeValue .int32 0
  let span : AstSourceSpan := ⟨1, 1, 1, 5⟩
  let info : HirMeta := { type := int32, sourceSpan := span }
  .binary info .divide
    (.symbol info
      { symbol := some 1, name := "x", kind := .parameter, type := int32, sourceSpan := span })
    (.literal info (.integer "2"))

/-- The machine in the function of a lambda with the parameter `x`. -/
def halvedState : CState RtMemory where
  globals _ := none
  frame := [("__cal_x", some { bits := x })]
  runtime := .initial .small

def halvedStore : String → CalyndaRtWord := fun _ => { bits := x }

theorem intExpr_halved : IntExpr ["x"] halved := by
  refine .binary _ _ _ _ (.symbol _ _ rfl (.inr (.inl rfl)) (by decide))
    (.literal _ _ rfl (by decide)) nofun nofun ?_
  decide

end

end Calynda
