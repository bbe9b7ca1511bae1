import Calynda.Tokenizer.Next

/-!
# Steps of the tokenizer

Whatever a scanner does, it reads some text and keeps the stack of brace counters in its bounds,
also where it ends in an error. A token that is none ends where the scanner stopped, before the
opening of an interpolation that follows it.
-/

namespace Calynda

open Tokenizer

/-! ## The stack of interpolations -/

/-- The stack of brace counters is in its bounds. No counter is above the read position. -/
structure StackOk (t : Tokenizer) : Prop where
  depth_nonneg : 0 ≤ t.templateDepth
  depth_le : t.templateDepth ≤ tokenizerMaxTemplateDepth
  size : t.interpolationBraceDepth.length = tokenizerMaxTemplateDepth.toNat
  braces : ∀ b ∈ t.interpolationBraceDepth, 0 ≤ b ∧ b ≤ t.current

/-- Some text is read, and the stack stays in its bounds. -/
structure Step (t t' : Tokenizer) : Prop where
  moves : ∃ s, Moves t s t'
  stack : StackOk t → StackOk t'

section Steps

variable {t t' t'' : Tokenizer} {s : List Char}

theorem Reads.step (h : Reads t s t') : Step t t' := by
  refine ⟨⟨s, h.toMoves⟩, fun hStack => ⟨?_, ?_, ?_, fun b hb => ?_⟩⟩
  · rw [h.depth]
    exact hStack.depth_nonneg
  · rw [h.depth]
    exact hStack.depth_le
  · rw [h.braces]
    exact hStack.size
  · rw [h.braces] at hb
    have hBounds := hStack.braces b hb
    have hCurrent := h.current
    omega

theorem Step.refl (t : Tokenizer) : Step t t := (Reads.refl t).step

theorem Step.trans (h : Step t t') (h' : Step t' t'') : Step t t'' := by
  obtain ⟨s, hMoves⟩ := h.moves
  obtain ⟨s', hMoves'⟩ := h'.moves
  exact ⟨⟨s ++ s', hMoves.trans hMoves'⟩, fun hStack => h'.stack (h.stack hStack)⟩

theorem step_advanceChar (h : t.isAtEnd = false) : Step t t.advanceChar :=
  (reads_advanceChar h).step

theorem step_skipWhile (p : Char → Bool) (t : Tokenizer) : Step t (t.skipWhile p) := by
  obtain ⟨s, hReads, -⟩ := reads_advanceWhile p t.left t
  exact hReads.step

theorem peek_advanceChar (h : t.isAtEnd = false) : t.advanceChar.peek = t.peekNext := by
  have hPeek : t.advanceChar.peek = t.source.getD (t.current + 1) nul := by
    unfold advanceChar
    split <;> rfl
  rw [hPeek, peekNext, h]
  rfl

theorem not_isAtEnd_of_peek {c : Char} (h : t.peek = c) (hNul : c ≠ nul) : t.isAtEnd = false := by
  simpa [isAtEnd, h] using hNul

/-- Two known characters are read. -/
theorem reads_advance_two {c d : Char} (h : t.peek = c) (hNext : t.peekNext = d) (hc : c ≠ nul)
    (hd : d ≠ nul) : Reads t [c, d] t.advanceChar.advanceChar := by
  have hEnd := not_isAtEnd_of_peek h hc
  have hSecond : t.advanceChar.peek = d := (peek_advanceChar hEnd).trans hNext
  have hFirst := reads_advanceChar hEnd
  have hRest := reads_advanceChar (not_isAtEnd_of_peek hSecond hd)
  rw [h] at hFirst
  rw [hSecond] at hRest
  exact hFirst.trans hRest

end Steps

/-! ## Scanners -/

/-- What a scanner gives that starts in `t` inside of a token: the token ends where it stops, or
is an error. -/
structure ScansToken (t : Tokenizer) (start line col : Nat) (r : Token × Tokenizer) : Prop where
  step : Step t r.2
  token : r.1.type = .tokError ∨ r.1 = r.2.makeToken r.1.type start line col
  place : r.1.line = line ∧ r.1.column = col

section Scanners

variable {t t' : Tokenizer} {r : Token × Tokenizer} {start line col fuel : Nat}

theorem Step.token (h : Step t t') (type : TokenType) :
    ScansToken t start line col (t'.makeToken type start line col, t') := ⟨h, .inr rfl, rfl, rfl⟩

theorem Step.error (h : Step t t') (message : String) :
    ScansToken t start line col (errorToken message line col, t') := ⟨h, .inl rfl, rfl, rfl⟩

theorem Step.scans (h : Step t t') (hScans : ScansToken t' start line col r) :
    ScansToken t start line col r := ⟨h.trans hScans.step, hScans.token, hScans.place⟩

theorem scans_scanPrefixed (h : t.isAtEnd = false) (p : Char → Bool) (message : String) :
    ScansToken t start line col (scanPrefixed t p message start line col) := by
  have hFirst := step_advanceChar h
  unfold scanPrefixed
  dsimp only
  split
  · exact hFirst.error message
  · exact (hFirst.trans (step_skipWhile p _)).token .tokIntLit

theorem step_scanFraction (t : Tokenizer) : Step t (scanFraction t).2 := by
  unfold scanFraction
  split
  case isTrue h =>
    simp only [Bool.and_eq_true, Bool.not_eq_true'] at h
    exact (step_advanceChar h.1.1).trans (step_skipWhile isDigit _)
  case isFalse => exact .refl t

theorem step_scanExponent (isFloat : Bool) (t : Tokenizer) : Step t (scanExponent isFloat t).2 := by
  unfold scanExponent
  split
  case isTrue h =>
    rw [Bool.and_eq_true, Bool.not_eq_true'] at h
    have hFirst := step_advanceChar h.1
    have hSign : Step t (if !t.advanceChar.isAtEnd && (t.advanceChar.peek == '+' ||
        t.advanceChar.peek == '-') then t.advanceChar.advanceChar else t.advanceChar) := by
      split
      case isTrue hMore =>
        rw [Bool.and_eq_true, Bool.not_eq_true'] at hMore
        exact hFirst.trans (step_advanceChar hMore.1)
      case isFalse => exact hFirst
    dsimp only
    generalize (if !t.advanceChar.isAtEnd && (t.advanceChar.peek == '+' ||
        t.advanceChar.peek == '-') then t.advanceChar.advanceChar else t.advanceChar) = t₁ at hSign ⊢
    split
    · exact hSign
    · exact hSign.trans (step_skipWhile isDigit t₁)
  case isFalse => exact .refl t

theorem scans_scanDecimal (t : Tokenizer) :
    ScansToken t start line col (scanDecimal t start line col) := by
  have hFraction := (step_skipWhile isDigit t).trans (step_scanFraction (t.skipWhile isDigit))
  have hStep := hFraction.trans
    (step_scanExponent (scanFraction (t.skipWhile isDigit)).1 (scanFraction (t.skipWhile isDigit)).2)
  unfold scanDecimal
  dsimp only
  split
  case h_1 t₁ hExponent =>
    rw [hExponent] at hStep
    exact hStep.error "Expected digit in exponent"
  case h_2 isFloat t₁ hExponent =>
    rw [hExponent] at hStep
    exact hStep.token _

theorem scans_tokenizerScanNumber (t : Tokenizer) :
    ScansToken t start line col (tokenizerScanNumber t start line col) := by
  unfold tokenizerScanNumber
  split
  case isTrue h =>
    rw [Bool.and_eq_true, Bool.not_eq_true'] at h
    dsimp only
    split
    · exact scans_scanPrefixed h.2 _ _
    · split
      · exact scans_scanPrefixed h.2 _ _
      · split
        · exact scans_scanPrefixed h.2 _ _
        · exact scans_scanDecimal t
  case isFalse => exact scans_scanDecimal t

theorem scans_tokenizerScanIdentifier (t : Tokenizer) :
    ScansToken t start line col (tokenizerScanIdentifier t start line col) :=
  (step_skipWhile isWordChar t).token _

theorem step_scanHexDigits (n : Nat) (t : Tokenizer) : Step t (scanHexDigits n t).2 := by
  induction n generalizing t with
  | zero => exact .refl t
  | succ n ih =>
    rw [scanHexDigits]
    split
    case isTrue => exact .refl t
    case isFalse h =>
      rw [Bool.not_eq_true, Bool.or_eq_false_iff] at h
      exact (step_advanceChar h.1).trans (ih t.advanceChar)

theorem step_scanEscape (t : Tokenizer) : Step t (scanEscape t).2 := by
  unfold scanEscape
  split
  case isTrue => exact .refl t
  case isFalse h =>
    rw [Bool.not_eq_true] at h
    have hFirst := step_advanceChar h
    dsimp only
    split
    · exact hFirst
    · split
      · exact hFirst.trans (step_scanHexDigits 4 _)
      · exact hFirst

theorem scans_scanCharEnd (t : Tokenizer) :
    ScansToken t start line col (scanCharEnd t start line col) := by
  unfold scanCharEnd
  split
  case isTrue => exact (Step.refl t).error _
  case isFalse h =>
    rw [Bool.not_eq_true, Bool.or_eq_false_iff] at h
    exact (step_advanceChar h.1).token .tokCharLit

/-- The backslash and what is read as its escape. -/
theorem step_backslash (h : t.isAtEnd = false) : Step t (scanEscape t.advanceChar).2 :=
  (step_advanceChar h).trans (step_scanEscape t.advanceChar)

theorem scans_tokenizerScanChar (t : Tokenizer) :
    ScansToken t start line col (tokenizerScanChar t start line col) := by
  unfold tokenizerScanChar
  split
  case isTrue => exact (Step.refl t).error _
  case isFalse h =>
    rw [Bool.not_eq_true, Bool.or_eq_false_iff] at h
    have hEscape := step_backslash h.1
    split
    · split
      case h_1 t₁ hScan =>
        rw [hScan] at hEscape
        exact hEscape.error _
      case h_2 t₁ hScan =>
        rw [hScan] at hEscape
        exact hEscape.scans (scans_scanCharEnd t₁)
    · split
      · exact (Step.refl t).error _
      · exact (step_advanceChar h.1).scans (scans_scanCharEnd _)

theorem scans_scanStringFrom (fuel : Nat) (t : Tokenizer) :
    ScansToken t start line col (scanStringFrom start line col fuel t) := by
  induction fuel generalizing t with
  | zero => exact (Step.refl t).error _
  | succ fuel ih =>
    rw [scanStringFrom]
    split
    case isTrue => exact (Step.refl t).error _
    case isFalse h =>
      rw [Bool.not_eq_true] at h
      have hEscape := step_backslash h
      split
      · exact (step_advanceChar h).token .tokStringLit
      · split
        · exact (Step.refl t).error _
        · split
          · split
            case h_1 t₁ hScan =>
              rw [hScan] at hEscape
              exact hEscape.error _
            case h_2 t₁ hScan =>
              rw [hScan] at hEscape
              exact hEscape.scans (ih t₁)
          · exact (step_advanceChar h).scans (ih _)

theorem scans_scanOperator (alone : TokenType) (longer : List (Char × TokenType)) (t : Tokenizer) :
    ScansToken t start line col (scanOperator t start line col alone longer) := by
  induction longer with
  | nil => exact (Step.refl t).token alone
  | cons p longer ih =>
    rw [scanOperator]
    split
    case h_1 t₁ h => exact (reads_matchChar h).step.token p.2
    case h_2 => exact ih

theorem scans_scanShift (c : Char) (shiftAssign shift orEqual alone : TokenType) (t : Tokenizer) :
    ScansToken t start line col (scanShift t start line col c shiftAssign shift orEqual alone) := by
  unfold scanShift
  split
  case h_1 t₁ h => exact (reads_matchChar h).step.scans (scans_scanOperator shift _ t₁)
  case h_2 => exact scans_scanOperator alone _ t

end Scanners

/-! ## Changes of the stack -/

section Stack

variable {t t' : Tokenizer}

theorem mem_modify {l : List Int} {f : Int → Int} {i : Nat} {b : Int} (h : b ∈ l.modify i f) :
    b ∈ l ∨ ∃ a, l[i]? = some a ∧ b = f a := by
  obtain ⟨j, hj⟩ := List.mem_iff_getElem?.1 h
  rw [List.getElem?_modify] at hj
  obtain ⟨a, ha, hEq⟩ := Option.map_eq_some_iff.1 hj
  rcases eq_or_ne i j with rfl | hNe
  · rw [if_pos rfl] at hEq
    exact .inr ⟨a, ha, hEq.symm⟩
  · rw [if_neg hNe] at hEq
    obtain rfl : a = b := hEq
    exact .inl (List.mem_of_getElem? ha)

theorem step_openBrace (h : t.isAtEnd = false) : Step t (openBrace t.advanceChar) := by
  have hReads := reads_advanceChar h
  have hCurrent : t.advanceChar.current = t.current + 1 := hReads.current
  unfold openBrace
  split
  case isTrue hDepth =>
    refine ⟨⟨_, hReads.source, hReads.rest, hReads.current, hReads.place⟩, fun hStack => ?_⟩
    have hNext := hReads.step.stack hStack
    refine ⟨hNext.depth_nonneg, hNext.depth_le, ?_, fun b hb => ?_⟩
    · exact (List.length_modify ..).trans hNext.size
    · rcases mem_modify hb with hb | ⟨a, ha, rfl⟩
      · exact hNext.braces b hb
      · rw [hReads.braces] at ha
        have hBounds := hStack.braces a (List.mem_of_getElem? ha)
        dsimp only
        omega
  case isFalse => exact hReads.step

theorem step_closeBrace (h : Step t t') : Step t (closeBrace t') := by
  unfold closeBrace
  split
  case isTrue hBrace =>
    obtain ⟨s, hMoves⟩ := h.moves
    refine ⟨⟨s, hMoves.source, hMoves.rest, hMoves.current, hMoves.place⟩, fun hStack => ?_⟩
    have hNext := h.stack hStack
    refine ⟨hNext.depth_nonneg, hNext.depth_le, ?_, fun b hb => ?_⟩
    · exact (List.length_modify ..).trans hNext.size
    · rcases mem_modify hb with hb | ⟨a, ha, rfl⟩
      · exact hNext.braces b hb
      · have hBounds := hNext.braces a (List.mem_of_getElem? ha)
        have hOpen := hBrace.2
        rw [braceDepth, List.getD_eq_getElem?_getD, ha, Option.getD_some] at hOpen
        dsimp only
        omega
  case isFalse => exact h

/-- The opening of an interpolation is read, and a counter is pushed. -/
theorem step_enterInterpolation (h : t.peek = '$') (hNext : t.peekNext = '{')
    (hDepth : t.templateDepth < tokenizerMaxTemplateDepth) :
    Moves t ['$', '{'] (enterInterpolation t) ∧ Step t (enterInterpolation t) := by
  have hReads := reads_advance_two h hNext (by decide) (by decide)
  have hMoves : Moves t ['$', '{'] (enterInterpolation t) := by
    unfold enterInterpolation
    exact ⟨hReads.source, hReads.rest, hReads.current, hReads.place⟩
  refine ⟨hMoves, ⟨_, hMoves⟩, fun hStack => ?_⟩
  have hOk := hReads.step.stack hStack
  have hSame := hReads.depth
  refine ⟨?_, ?_, (List.length_set ..).trans hOk.size, fun b hb => ?_⟩
  · show 0 ≤ t.advanceChar.advanceChar.templateDepth + 1
    have hNonneg := hOk.depth_nonneg
    omega
  · show t.advanceChar.advanceChar.templateDepth + 1 ≤ tokenizerMaxTemplateDepth
    omega
  · rcases List.mem_or_eq_of_mem_set hb with hb | rfl
    · exact hOk.braces b hb
    · exact ⟨Int.le_refl 0, Int.natCast_nonneg _⟩

/-- The innermost interpolation ends: its counter is popped. -/
theorem step_pop (h : Step t t') (hDepth : t.templateDepth > 0)
    (hSame : t'.templateDepth = t.templateDepth) :
    Step t { t' with templateDepth := t'.templateDepth - 1 } := by
  obtain ⟨s, hMoves⟩ := h.moves
  refine ⟨⟨s, hMoves.source, hMoves.rest, hMoves.current, hMoves.place⟩, fun hStack => ?_⟩
  have hOk := h.stack hStack
  have hLe := hOk.depth_le
  refine ⟨?_, ?_, hOk.size, hOk.braces⟩
  · show 0 ≤ t'.templateDepth - 1
    omega
  · show t'.templateDepth - 1 ≤ tokenizerMaxTemplateDepth
    omega

theorem step_scanTemplateFrom {start line col : Nat} {onInterp onEnd : TokenType} (fuel : Nat)
    (t : Tokenizer) : Step t (scanTemplateFrom start line col onInterp onEnd fuel t).2 := by
  induction fuel generalizing t with
  | zero => exact .refl t
  | succ fuel ih =>
    rw [scanTemplateFrom]
    split
    case isTrue => exact .refl t
    case isFalse h =>
      rw [Bool.not_eq_true] at h
      have hEscape := step_backslash h
      split
      · split
        case h_1 t₁ hScan =>
          rw [hScan] at hEscape
          exact hEscape
        case h_2 t₁ hScan =>
          rw [hScan] at hEscape
          exact hEscape.trans (ih t₁)
      · split
        case isTrue hInterp =>
          split
          case isTrue => exact .refl t
          case isFalse hDepth =>
            exact (step_enterInterpolation hInterp.1 hInterp.2 (Int.lt_of_not_ge hDepth)).2
        case isFalse =>
          split
          · exact step_advanceChar h
          · exact (step_advanceChar h).trans (ih t.advanceChar)

/-- Errors too are given the place where the segment starts. -/
theorem place_scanTemplateFrom {start line col : Nat} {onInterp onEnd : TokenType} (fuel : Nat)
    (t : Tokenizer) : (scanTemplateFrom start line col onInterp onEnd fuel t).1.line = line ∧
      (scanTemplateFrom start line col onInterp onEnd fuel t).1.column = col := by
  induction fuel generalizing t with
  | zero => exact ⟨rfl, rfl⟩
  | succ fuel ih =>
    rw [scanTemplateFrom]
    split
    · exact ⟨rfl, rfl⟩
    · split
      · split
        · exact ⟨rfl, rfl⟩
        · exact ih _
      · split
        · split
          · exact ⟨rfl, rfl⟩
          · exact ⟨rfl, rfl⟩
        · split
          · exact ⟨rfl, rfl⟩
          · exact ih _

end Stack

/-! ## Tokens -/

/-- What is read after a token of its type. -/
def TokenType.opening : TokenType → List Char
  | .tokTemplateStart | .tokTemplateMiddle => ['$', '{']
  | _ => []

/-- The token has the text `s` and starts where `t` is. -/
def Token.IsAt (tok : Token) (t : Tokenizer) (s : List Char) : Prop :=
  tok = ⟨tok.type, t.rest, s.length, t.line, t.column⟩

/-- A token that is read from `t` on, or an error. -/
structure ReadsToken (t : Tokenizer) (r : Token × Tokenizer) : Prop where
  step : Step t r.2
  token : r.1.type = .tokError ∨ ∃ s, Moves t (s ++ r.1.type.opening) r.2 ∧ r.1.IsAt t s ∧
    (s = [] → r.1.type = .tokEof)
  place : r.1.line = t.line ∧ r.1.column = t.column

section Tokens

variable {t t' : Tokenizer} {tok : Token} {r : Token × Tokenizer}

theorem TokenType.opening_of_isText {type : TokenType} (h : type.isText = false) :
    type.opening = [] := by
  cases type with
  | tokTemplateStart => exact nomatch h
  | tokTemplateMiddle => exact nomatch h
  | _ => rfl

theorem isAt_makeToken {s : List Char} (h : Moves t s t') (type : TokenType) :
    (t'.makeToken type t.current t.line t.column).IsAt t s := by
  rw [Token.IsAt, ← length_makeToken h type t.line t.column, rest, ← h.source]
  rfl

/-- A scanner for other tokens than template segments, after the first character. -/
theorem ScansToken.readsToken {c : Char} (hFirst : Moves t [c] t')
    (h : ScansToken t' t.current t.line t.column r) (hText : r.1.type.opening = [])
    (hStack : StackOk t → StackOk t') : ReadsToken t r := by
  obtain ⟨s, hMoves⟩ := h.step.moves
  have hAll := hFirst.trans hMoves
  refine ⟨⟨⟨_, hAll⟩, fun hOk => h.step.stack (hStack hOk)⟩,
    h.token.imp_right fun hToken => ?_, h.place⟩
  refine ⟨c :: s, ?_, ?_, nofun⟩
  · rw [hText, List.append_nil]
    exact hAll
  · rw [hToken]
    exact isAt_makeToken hAll _

theorem readsToken_tokenizerScanTemplateBody {c : Char} {onInterp onEnd : TokenType}
    (hFirst : Moves t [c] t') (hStep : Step t t') (hInterp : onInterp.opening = ['$', '{'])
    (hEnd : onEnd.opening = []) :
    ReadsToken t
      (tokenizerScanTemplateBody t' t.current t.line t.column onInterp onEnd) := by
  refine ⟨hStep.trans (step_scanTemplateFrom _ t'), ?_, place_scanTemplateFrom _ t'⟩
  rcases eq_or_ne (tokenizerScanTemplateBody t' t.current t.line t.column onInterp onEnd).1.type
    .tokError with hError | hToken
  · exact .inl hError
  refine .inr ?_
  rcases hScan : tokenizerScanTemplateBody t' t.current t.line t.column onInterp onEnd with
    ⟨tok, t''⟩
  rw [hScan] at hToken
  obtain ⟨s, -, ⟨hReads, rfl⟩ | ⟨t₁, hReads, rfl, rfl, -, hDollar, hBrace, hDepth⟩⟩ :=
    scanTemplateFrom_accepts hScan hToken
  · have hAll := hFirst.trans hReads.toMoves
    refine ⟨[c] ++ (s ++ ['\x60']), ?_, isAt_makeToken hAll _, nofun⟩
    show Moves t (_ ++ onEnd.opening) t''
    rw [hEnd, List.append_nil]
    exact hAll
  · have hAll := hFirst.trans hReads.toMoves
    refine ⟨[c] ++ s, ?_, isAt_makeToken hAll _, nofun⟩
    show Moves t (_ ++ onInterp.opening) (enterInterpolation t₁)
    rw [hInterp]
    exact hAll.trans (step_enterInterpolation hDollar hBrace hDepth).1

theorem Moves.openBrace {s : List Char} (h : Moves t s t') : Moves t s (openBrace t') := by
  unfold Calynda.openBrace
  split
  · exact ⟨h.source, h.rest, h.current, h.place⟩
  · exact h

theorem Moves.closeBrace {s : List Char} (h : Moves t s t') : Moves t s (closeBrace t') := by
  unfold Calynda.closeBrace
  split
  · exact ⟨h.source, h.rest, h.current, h.place⟩
  · exact h

theorem scanStringFrom_opening {start line col : Nat} (fuel : Nat) (t : Tokenizer) :
    (scanStringFrom start line col fuel t).1.type.opening = [] := by
  rcases eq_or_ne (scanStringFrom start line col fuel t).1.type .tokError with hError | hType
  · rw [hError]
    rfl
  · obtain ⟨s, -, -, hTok⟩ := scanStringFrom_accepts rfl hType
    rw [hTok]
    rfl

theorem scans_tokenizerScanPunctuation {start line col : Nat} {c : Char} (hOpen : c ≠ '{')
    (hClose : c ≠ '}') (hTemplate : c ≠ '\x60') (t : Tokenizer) :
    ScansToken t start line col (tokenizerScanPunctuation t c start line col) := by
  have hSingle : ∀ type, ScansToken t start line col (t.makeToken type start line col, t) :=
    (Step.refl t).token
  unfold tokenizerScanPunctuation
  dsimp only
  split
  case h_3 => exact absurd rfl hOpen
  case h_4 => exact absurd rfl hClose
  case h_9 =>
    split
    case isTrue h =>
      exact (reads_advance_two h.1 h.2 (by decide) (by decide)).step.token .tokEllipsis
    case isFalse => exact hSingle .tokDot
  case h_25 =>
    split
    case h_1 t₁ h => exact (reads_matchChar h).step.token .tokDollarLbrace
    case h_2 => exact (Step.refl t).error _
  case h_26 => exact scans_tokenizerScanChar t
  case h_27 => exact scans_scanStringFrom _ t
  case h_28 => exact absurd rfl hTemplate
  case h_29 => exact (Step.refl t).error _
  all_goals first
    | exact hSingle _
    | exact scans_scanOperator _ _ t
    | exact scans_scanShift _ _ _ _ _ t

theorem readsToken_tokenizerScanPunctuation {c : Char} (h : t.isAtEnd = false)
    (hPeek : t.peek = c) :
    ReadsToken t (tokenizerScanPunctuation t.advanceChar c t.current t.line t.column) := by
  have hReads := reads_advanceChar h
  rw [hPeek] at hReads
  by_cases hOpen : c = '{'
  · subst hOpen
    exact ⟨step_openBrace h, .inr ⟨['{'], hReads.openBrace, isAt_makeToken hReads.toMoves _, nofun⟩, rfl, rfl⟩
  by_cases hClose : c = '}'
  · subst hClose
    exact ⟨step_closeBrace hReads.step,
      .inr ⟨['}'], hReads.closeBrace, isAt_makeToken hReads.toMoves _, nofun⟩, rfl, rfl⟩
  by_cases hTemplate : c = '\x60'
  · subst hTemplate
    exact readsToken_tokenizerScanTemplateBody hReads.toMoves hReads.step rfl rfl
  have hScans : ScansToken t.advanceChar t.current t.line t.column
      (tokenizerScanPunctuation t.advanceChar c t.current t.line t.column) :=
    scans_tokenizerScanPunctuation hOpen hClose hTemplate t.advanceChar
  refine hScans.readsToken hReads.toMoves ?_ hReads.step.stack
  by_cases hString : c = '"'
  · subst hString
    exact scanStringFrom_opening _ _
  · exact TokenType.opening_of_isText (tokenizerScanPunctuation_isText hString hTemplate)

/-- Where no blank or comment stands, a token is read. -/
theorem readsToken_tokenizerScan (t : Tokenizer) : ReadsToken t (tokenizerScan t) := by
  unfold tokenizerScan
  dsimp only
  split
  case isTrue hEnds =>
    simp only [endsInterpolation, Bool.and_eq_true, beq_iff_eq, decide_eq_true_eq] at hEnds
    have hReads := reads_advanceChar (not_isAtEnd_of_peek hEnds.2 (by decide))
    have hPopped := step_pop hReads.step hEnds.1.1 hReads.depth
    exact readsToken_tokenizerScanTemplateBody
      ⟨hReads.source, hReads.rest, hReads.current, hReads.place⟩ hPopped rfl rfl
  case isFalse =>
    split
    case isTrue =>
      have hMoves := (Reads.refl t).toMoves
      exact ⟨.refl t, .inr ⟨[], hMoves, isAt_makeToken hMoves _, fun _ => rfl⟩, rfl, rfl⟩
    case isFalse hEnd =>
      rw [Bool.not_eq_true] at hEnd
      have hReads := reads_advanceChar hEnd
      split
      · exact (scans_tokenizerScanIdentifier _).readsToken hReads.toMoves
          (TokenType.opening_of_isText tokenizerScanIdentifier_isText) hReads.step.stack
      · split
        · exact (scans_tokenizerScanNumber _).readsToken hReads.toMoves
            (TokenType.opening_of_isText tokenizerScanNumber_isText) hReads.step.stack
        · exact readsToken_tokenizerScanPunctuation hEnd rfl

end Tokens

end Calynda
