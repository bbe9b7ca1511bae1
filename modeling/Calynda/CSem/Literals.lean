import Calynda.CSem.Integers
import Calynda.CEmit.Text
import Calynda.Tokenizer.Lossless

/-!
# Integer literals

An integer literal goes from its token into the emitted program as it stands. Its text has a value
in the source, which is the one that C reads unless a zero or the octal prefix changes the base.
-/

namespace Calynda

open Tokenizer

/-! ## Texts -/

/-- A prefix of an integer literal: its letters, its base, and the digits that may follow. -/
structure IntegerPrefix where
  letters : List Char
  base : Nat
  isDigit : Char → Bool

def binaryPrefix : IntegerPrefix := ⟨['b', 'B'], 2, fun c => c == '0' || c == '1'⟩

def octalPrefix : IntegerPrefix := ⟨['o', 'O'], 8, fun c => '0' ≤ c && c ≤ '7'⟩

def hexPrefix : IntegerPrefix := ⟨['x', 'X'], 16, isXdigit⟩

/-- The text of an integer literal. -/
inductive IntegerText : List Char → Prop where
  | decimal {c : Char} {ds : List Char} (h : ∀ x ∈ c :: ds, isDigit x = true) :
      IntegerText (c :: ds)
  | prefixed {p : IntegerPrefix} (hPrefix : p ∈ [binaryPrefix, octalPrefix, hexPrefix])
      {letter d : Char} (hLetter : letter ∈ p.letters) {ds : List Char}
      (h : ∀ x ∈ d :: ds, p.isDigit x = true) : IntegerText ('0' :: letter :: d :: ds)

/-! ## Values -/

theorem readDigits_isSome {b : Nat} {ds : List Char} (acc : Nat)
    (h : ∀ c ∈ ds, ∃ d < b, digitValue c = some d) : ∃ v, readDigits b acc ds = some v := by
  induction ds generalizing acc with
  | nil => exact ⟨acc, rfl⟩
  | cons c ds ih =>
    obtain ⟨d, hd, hc⟩ := h c List.mem_cons_self
    obtain ⟨v, hv⟩ := ih (acc * b + d) fun x hx => h x (List.mem_cons_of_mem c hx)
    exact ⟨v, by simp only [readDigits, hc, hd, if_true, hv]⟩

theorem digitValue_of_le {c top : Char} (hLow : '0' ≤ c) (hHigh : c ≤ top) (hTop : top ≤ '9') :
    digitValue c = some (c.toNat - 48) ∧ c.toNat - 48 ≤ top.toNat - 48 := by
  refine ⟨if_pos ⟨hLow, Char.le_trans hHigh hTop⟩, ?_⟩
  have hLe : c.toNat ≤ top.toNat := hHigh
  omega

theorem digitValue_isDigit {c : Char} (h : isDigit c = true) :
    ∃ d < 10, digitValue c = some d := by
  simp only [isDigit, Bool.and_eq_true, decide_eq_true_eq] at h
  obtain ⟨hValue, hLe⟩ := digitValue_of_le h.1 h.2 (Char.le_refl _)
  exact ⟨_, Nat.lt_succ_of_le hLe, hValue⟩

theorem digitValue_isXdigit {c : Char} (h : isXdigit c = true) :
    ∃ d < 16, digitValue c = some d := by
  simp only [isXdigit, Bool.or_eq_true, Bool.and_eq_true, decide_eq_true_eq] at h
  by_cases hDecimal : isDigit c = true
  · obtain ⟨d, hd, hValue⟩ := digitValue_isDigit hDecimal
    exact ⟨d, hd.trans (by decide), hValue⟩
  · have hNot : ¬ ('0' ≤ c ∧ c ≤ '9') := by simpa [isDigit] using hDecimal
    rw [or_assoc, or_iff_right hDecimal] at h
    unfold digitValue
    rw [if_neg hNot]
    by_cases hLower : 'a' ≤ c ∧ c ≤ 'f'
    · rw [if_pos hLower]
      have hLe : c.toNat ≤ 102 := hLower.2
      exact ⟨_, by simp; omega, rfl⟩
    · rw [if_neg hLower, if_pos (h.resolve_left hLower)]
      have hLe : c.toNat ≤ 70 := (h.resolve_left hLower).2
      exact ⟨_, by simp; omega, rfl⟩

theorem IntegerPrefix.digitValue_isDigit {p : IntegerPrefix}
    (hPrefix : p ∈ [binaryPrefix, octalPrefix, hexPrefix]) {c : Char} (h : p.isDigit c = true) :
    ∃ d < p.base, digitValue c = some d := by
  simp only [List.mem_cons, List.not_mem_nil, or_false] at hPrefix
  rcases hPrefix with rfl | rfl | rfl
  · simp only [binaryPrefix, Bool.or_eq_true, beq_iff_eq] at h
    rcases h with rfl | rfl
    · exact ⟨0, by decide, rfl⟩
    · exact ⟨1, by decide, rfl⟩
  · simp only [octalPrefix, Bool.and_eq_true, decide_eq_true_eq] at h
    obtain ⟨hValue, hLe⟩ := digitValue_of_le h.1 h.2 (by decide)
    exact ⟨_, Nat.lt_succ_of_le hLe, hValue⟩
  · exact digitValue_isXdigit h

/-- The text of an integer literal has a value in the source. -/
theorem integerLiteralValue_isSome {text : List Char} (h : IntegerText text) :
    ∃ value, integerLiteralValue (String.ofList text) = some value := by
  unfold integerLiteralValue
  rw [String.toList_ofList]
  cases h with
  | @decimal c ds h =>
    obtain ⟨v, hv⟩ := readDigits_isSome (b := 10) 0 fun x hx => digitValue_isDigit (h x hx)
    have hNoDigit : (['b', 'B', 'o', 'O', 'x', 'X'].all fun letter => !isDigit letter) = true := rfl
    have hLetter : ∀ letter ∈ ['b', 'B', 'o', 'O', 'x', 'X'], ∀ ds', c :: ds ≠ '0' :: letter :: ds' := by
      intro letter hMem ds' hEq
      have hDigit := h letter (by rw [hEq]; simp)
      have hLetter := List.all_eq_true.1 hNoDigit letter hMem
      rw [hDigit] at hLetter
      cases hLetter
    refine ⟨v, ?_⟩
    split
    all_goals first
      | exact hv
      | next hEq => exact absurd hEq (hLetter _ (by simp) _)
  | @prefixed p hPrefix letter d hLetter ds h =>
    obtain ⟨v, hv⟩ := readDigits_isSome (b := p.base) 0 fun x hx =>
      IntegerPrefix.digitValue_isDigit hPrefix (h x hx)
    refine ⟨v, ?_⟩
    simp only [List.mem_cons, List.not_mem_nil, or_false] at hPrefix
    rcases hPrefix with rfl | rfl | rfl <;>
      simp only [binaryPrefix, octalPrefix, hexPrefix, List.mem_cons, List.not_mem_nil,
        or_false] at hLetter <;>
      rcases hLetter with rfl | rfl <;>
      exact hv

/-! ## Tokens -/

section Tokens

variable {t t' : Tokenizer} {tok : Token} {start line col : Nat}

theorem scanPrefixed_reads {p : Char → Bool} {message : String} (hEnd : t.isAtEnd = false)
    (h : scanPrefixed t p message start line col = (tok, t')) (hType : tok.type = .tokIntLit) :
    ∃ d ds, (∀ x ∈ d :: ds, p x = true) ∧ Reads t (t.peek :: d :: ds) t' ∧
      tok = t'.makeToken .tokIntLit start line col := by
  unfold scanPrefixed at h
  dsimp only at h
  split at h
  case isTrue =>
    obtain ⟨rfl, rfl⟩ := Prod.mk.inj h
    cases hType
  case isFalse hDigit =>
    rw [Bool.not_eq_true, Bool.or_eq_false_iff, Bool.not_eq_false'] at hDigit
    obtain ⟨rfl, rfl⟩ := Prod.mk.inj h
    obtain ⟨ds, hReads, hAll⟩ := reads_advanceWhile p t.advanceChar.advanceChar.left
      t.advanceChar.advanceChar
    refine ⟨t.advanceChar.peek, ds, fun x hx => ?_, ?_, rfl⟩
    · rcases List.mem_cons.1 hx with rfl | hx
      · exact hDigit.2
      · exact hAll x hx
    · rw [skipWhile_advance hDigit.1 hDigit.2]
      exact (reads_advanceChar hEnd).trans ((reads_advanceChar hDigit.1).trans hReads)

theorem scanExponent_some {b : Bool} (h : scanExponent b t = (some false, t')) :
    b = false ∧ t' = t := by
  unfold scanExponent at h
  split at h
  · dsimp only at h
    split at h <;> split at h <;> cases (Prod.mk.inj h).1
  · obtain ⟨hb, rfl⟩ := Prod.mk.inj h
    exact ⟨Option.some.inj hb, rfl⟩

theorem scanDecimal_reads (h : scanDecimal t start line col = (tok, t'))
    (hType : tok.type = .tokIntLit) :
    ∃ ds, (∀ x ∈ ds, isDigit x = true) ∧ Reads t ds t' ∧
      tok = t'.makeToken .tokIntLit start line col := by
  obtain ⟨ds, hReads, hAll⟩ := reads_advanceWhile isDigit t.left t
  unfold scanDecimal at h
  dsimp only at h
  split at h
  case h_1 =>
    obtain ⟨rfl, rfl⟩ := Prod.mk.inj h
    cases hType
  case h_2 isFloat t₁ hExponent =>
    obtain ⟨rfl, rfl⟩ := Prod.mk.inj h
    cases isFloat with
    | true => cases hType
    | false =>
      obtain ⟨hFraction, rfl⟩ := scanExponent_some hExponent
      have hSame : (scanFraction (t.skipWhile isDigit)).2 = t.skipWhile isDigit := by
        unfold scanFraction at hFraction ⊢
        split at hFraction
        · cases hFraction
        · next hNot => rw [if_neg hNot]
      rw [hSame]
      exact ⟨ds, hAll, hReads, rfl⟩

/-- An integer literal that starts with the digit at the read position. -/
theorem tokenizerScanNumber_reads (hEnd : t.isAtEnd = false) (hDigit : isDigit t.peek = true)
    (h : tokenizerScanNumber t.advanceChar t.current line col = (tok, t'))
    (hType : tok.type = .tokIntLit) :
    ∃ s, IntegerText (t.peek :: s) ∧ Moves t (t.peek :: s) t' ∧
      tok = t'.makeToken .tokIntLit t.current line col := by
  have hFirst := reads_advanceChar hEnd
  have hDecimal : scanDecimal t.advanceChar t.current line col = (tok, t') →
      ∃ s, IntegerText (t.peek :: s) ∧ Moves t (t.peek :: s) t' ∧
        tok = t'.makeToken .tokIntLit t.current line col := by
    intro h
    obtain ⟨ds, hAll, hReads, hTok⟩ := scanDecimal_reads h hType
    refine ⟨ds, .decimal fun x hx => ?_, (hFirst.trans hReads).toMoves, hTok⟩
    rcases List.mem_cons.1 hx with rfl | hx
    · exact hDigit
    · exact hAll x hx
  unfold tokenizerScanNumber at h
  split at h
  case isFalse => exact hDecimal h
  case isTrue hZero =>
    rw [Bool.and_eq_true, Bool.not_eq_true', beq_iff_eq] at hZero
    have hPeek : t.peek = '0' := by
      rw [← hZero.1, hFirst.source]
      rfl
    have hPrefixed : ∀ p ∈ [binaryPrefix, octalPrefix, hexPrefix], ∀ message,
        t.advanceChar.peek ∈ p.letters →
        scanPrefixed t.advanceChar p.isDigit message t.current line col = (tok, t') →
        ∃ s, IntegerText (t.peek :: s) ∧ Moves t (t.peek :: s) t' ∧
          tok = t'.makeToken .tokIntLit t.current line col := by
      intro p hp message hLetter h
      obtain ⟨d, ds, hAll, hReads, hTok⟩ := scanPrefixed_reads hZero.2 h hType
      refine ⟨_, ?_, (hFirst.trans hReads).toMoves, hTok⟩
      rw [hPeek]
      exact .prefixed hp hLetter hAll
    dsimp only at h
    split at h
    case isTrue hLetter =>
      exact hPrefixed binaryPrefix (by simp) _ (by simpa [binaryPrefix] using hLetter) h
    case isFalse =>
      split at h
      case isTrue hLetter =>
        exact hPrefixed octalPrefix (by simp) _ (by simpa [octalPrefix] using hLetter) h
      case isFalse =>
        split at h
        case isTrue hLetter =>
          exact hPrefixed hexPrefix (by simp) _ (by simpa [hexPrefix] using hLetter) h
        case isFalse => exact hDecimal h

/-! ## Tokens of other kinds -/

theorem tokenizerScanTemplateBody_ne {onInterp onEnd : TokenType} (hInterp : onInterp ≠ .tokIntLit)
    (hEnd : onEnd ≠ .tokIntLit) :
    (tokenizerScanTemplateBody t start line col onInterp onEnd).1.type ≠ .tokIntLit :=
  tokenizerScanTemplateBody_type (P := (· ≠ .tokIntLit)) nofun hInterp hEnd

theorem tokenizerScanIdentifier_ne :
    (tokenizerScanIdentifier t start line col).1.type ≠ .tokIntLit :=
  tokenizerScanIdentifier_type (P := (· ≠ .tokIntLit)) nofun nofun (by decide)

theorem tokenizerScanPunctuation_ne (c : Char) :
    (tokenizerScanPunctuation t c start line col).1.type ≠ .tokIntLit :=
  tokenizerScanPunctuation_type (P := (· ≠ .tokIntLit)) (by decide) (fun _ => nofun)
    fun _ => ⟨nofun, nofun⟩

/-- The text of a token of an integer is one of an integer. -/
theorem integerText_of_next (h : tokenizerNext t = (tok, t')) (hType : tok.type = .tokIntLit) :
    IntegerText tok.text := by
  have hNot : ∀ {r : Token × Tokenizer}, r = (tok, t') → r.1.type ≠ .tokIntLit →
      IntegerText tok.text := by
    rintro _ rfl hNe
    exact absurd hType hNe
  unfold tokenizerNext at h
  generalize skipWhitespace t = t₀ at h
  unfold tokenizerScan at h
  dsimp only at h
  split at h
  · exact hNot h (tokenizerScanTemplateBody_ne nofun nofun)
  · split at h
    · exact hNot h nofun
    · next hEnd =>
      rw [Bool.not_eq_true] at hEnd
      split at h
      · exact hNot h tokenizerScanIdentifier_ne
      · split at h
        · next hDigit =>
          obtain ⟨s, hText, hMoves, rfl⟩ := tokenizerScanNumber_reads hEnd hDigit h hType
          rw [text_makeToken hMoves]
          exact hText
        · exact hNot h (tokenizerScanPunctuation_ne _)

end Tokens

/-! ## Literals in the emitted program -/

/-- The expression that is emitted for the literal of a token. -/
def emitLiteral (ctx : CEmitContext) (info : HirMeta) (tok : Token) : CExpr :=
  cEmitExpr ctx (.literal info (.integer (String.ofList (parserCopyTokenText tok))))

theorem emitLiteral_eq (ctx : CEmitContext) (info : HirMeta) (tok : Token) :
    emitLiteral ctx info tok = .intLit (String.ofList tok.text) := by
  rw [emitLiteral, cEmitExpr]
  rfl

/-- A literal below 2^32 keeps its value exactly if it has no octal prefix, and the digits after a
leading zero are of a number below eight. -/
theorem emitLiteral_evaluatesTo_iff {t t' : Tokenizer} {tok : Token}
    (hNext : tokenizerNext t = (tok, t')) (hType : tok.type = .tokIntLit) :
    ∃ value, integerLiteralValue (String.ofList tok.text) = some value ∧ (value < 2 ^ 32 →
      ∀ {S : Type} (u : CUnit) (rt : CRuntime S) (call : CallHandler S) (s : CState S)
        (ctx : CEmitContext) (info : HirMeta),
        EvaluatesTo u rt call s (emitLiteral ctx info tok) (BitVec.ofNat 32 value) ↔
          LiteralReadsAlike (String.ofList tok.text)) := by
  obtain ⟨value, hValue⟩ := integerLiteralValue_isSome (integerText_of_next hNext hType)
  refine ⟨value, hValue, fun hSmall S u rt call s ctx info => ?_⟩
  rw [emitLiteral_eq]
  exact evaluatesTo_intLit.trans (cIntegerConstant_eq_iff_of_lt hValue hSmall)

theorem emitLiteral_evaluatesTo_ten :
    ∃ value, integerLiteralValue (String.ofList
        (tokenizerNext (tokenizerInit ['1', '0'])).1.text) = some value ∧ (value < 2 ^ 32 →
      ∀ {S : Type} (u : CUnit) (rt : CRuntime S) (call : CallHandler S) (s : CState S)
        (ctx : CEmitContext) (info : HirMeta),
        EvaluatesTo u rt call s
            (emitLiteral ctx info (tokenizerNext (tokenizerInit ['1', '0'])).1)
            (BitVec.ofNat 32 value) ↔
          LiteralReadsAlike (String.ofList (tokenizerNext (tokenizerInit ['1', '0'])).1.text)) :=
  emitLiteral_evaluatesTo_iff (t := tokenizerInit ['1', '0']) rfl rfl

/-- C reads the number eight in the literal `010`, and no number in `0o10`. -/
theorem not_emitLiteral_evaluatesTo_zeroTen :
    ((tokenizerNext (tokenizerInit ['0', '1', '0'])).1.type = .tokIntLit ∧
      integerLiteralValue "010" = some 10 ∧
      ∀ {S : Type} (u : CUnit) (rt : CRuntime S) (call : CallHandler S) (s : CState S)
        (ctx : CEmitContext) (info : HirMeta),
        ¬ EvaluatesTo u rt call s
          (emitLiteral ctx info (tokenizerNext (tokenizerInit ['0', '1', '0'])).1) 10) ∧
    (tokenizerNext (tokenizerInit ['0', 'o', '1', '0'])).1.type = .tokIntLit ∧
      integerLiteralValue "0o10" = some 8 ∧
      ∀ {S : Type} (u : CUnit) (rt : CRuntime S) (call : CallHandler S) (s : CState S)
        (ctx : CEmitContext) (info : HirMeta),
        ¬ EvaluatesTo u rt call s
          (emitLiteral ctx info (tokenizerNext (tokenizerInit ['0', 'o', '1', '0'])).1) 8 := by
  have hNot : ∀ {text : String} {value : BitVec 32},
      (cIntegerConstant text).map (BitVec.ofNat 32) ≠ some value →
      ∀ {S : Type} (u : CUnit) (rt : CRuntime S) (call : CallHandler S) (s : CState S),
        ¬ EvaluatesTo u rt call s (.intLit text) value :=
    fun h _ _ _ _ _ hEvaluates => h (evaluatesTo_intLit.1 hEvaluates)
  have hOctal : (tokenizerNext (tokenizerInit ['0', '1', '0'])).1.text = ['0', '1', '0'] := rfl
  have hPrefix : (tokenizerNext (tokenizerInit ['0', 'o', '1', '0'])).1.text =
      ['0', 'o', '1', '0'] := rfl
  refine ⟨⟨rfl, by decide, fun u rt call s ctx info => ?_⟩, rfl, by decide,
    fun u rt call s ctx info => ?_⟩
  · rw [emitLiteral_eq, hOctal]
    exact hNot (by decide) u rt call s
  · rw [emitLiteral_eq, hPrefix]
    exact hNot (by decide) u rt call s

end Calynda
