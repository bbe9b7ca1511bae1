import Calynda.Tokenizer.Steps

/-!
# The text decides the token

Two tokenizers in front of the same text read tokens of the same type, up to the same place, as
long as these are no braces and no template segments. Neither touches its stack of templates.
-/

namespace Calynda

open Tokenizer

/-- From `t` and from `u` the same text is read, and the stack of `t` stays. -/
structure Alike (t u t' u' : Tokenizer) : Prop where
  rest : t'.rest = u'.rest
  depth : t'.templateDepth = t.templateDepth
  braces : t'.interpolationBraceDepth = t.interpolationBraceDepth

/-- Scanners that read the same text give tokens of the same type. -/
structure AlikeTokens (t u : Tokenizer) (r r' : Token × Tokenizer) : Prop where
  type_eq : r.1.type = r'.1.type
  state : Alike t u r.2 r'.2

section States

variable {t u t' u' t'' u'' : Tokenizer}

theorem Alike.refl (h : t.rest = u.rest) : Alike t u t u := ⟨h, rfl, rfl⟩

theorem Alike.trans (h : Alike t u t' u') (h' : Alike t' u' t'' u'') : Alike t u t'' u'' :=
  ⟨h'.rest, h'.depth.trans h.depth, h'.braces.trans h.braces⟩

theorem Alike.tokens (h : Alike t u t' u') {r r' : Token × Tokenizer}
    (h' : AlikeTokens t' u' r r') : AlikeTokens t u r r' :=
  ⟨h'.type_eq, h.trans h'.state⟩

theorem Alike.token (h : Alike t u t' u') {tok tok' : Token} (hType : tok.type = tok'.type) :
    AlikeTokens t u (tok, t') (tok', u') := ⟨hType, h⟩

theorem peek_eq_rest (t : Tokenizer) : t.peek = t.rest.headD nul := by
  rw [peek, rest, List.getD_eq_getElem?_getD, List.headD_eq_head?_getD, List.head?_drop]

theorem rest_advanceChar (t : Tokenizer) : t.advanceChar.rest = t.rest.tail := by
  have hRest : t.advanceChar.rest = t.source.drop (t.current + 1) := by
    unfold advanceChar
    split <;> rfl
  rw [hRest, rest, List.tail_drop]

theorem peek_congr (h : t.rest = u.rest) : t.peek = u.peek := by
  rw [peek_eq_rest, peek_eq_rest, h]

theorem isAtEnd_congr (h : t.rest = u.rest) : t.isAtEnd = u.isAtEnd := by
  rw [isAtEnd, isAtEnd, peek_congr h]

theorem peekNext_congr (h : t.rest = u.rest) : t.peekNext = u.peekNext := by
  cases hEnd : t.isAtEnd with
  | true =>
    have hEnd' : u.isAtEnd = true := isAtEnd_congr h ▸ hEnd
    rw [peekNext, peekNext, hEnd, hEnd']
    rfl
  | false =>
    have hEnd' : u.isAtEnd = false := isAtEnd_congr h ▸ hEnd
    rw [← peek_advanceChar hEnd, ← peek_advanceChar hEnd']
    exact peek_congr (by rw [rest_advanceChar, rest_advanceChar, h])

theorem left_congr (h : t.rest = u.rest) : t.left = u.left := by
  rw [left_eq, left_eq, h]

theorem alike_advanceChar (h : t.rest = u.rest) : Alike t u t.advanceChar u.advanceChar := by
  refine ⟨by rw [rest_advanceChar, rest_advanceChar, h], ?_, ?_⟩
  · unfold advanceChar
    split <;> rfl
  · unfold advanceChar
    split <;> rfl

theorem alike_advanceWhile (p : Char → Bool) (fuel : Nat) (h : t.rest = u.rest) :
    Alike t u (advanceWhile p fuel t) (advanceWhile p fuel u) := by
  induction fuel generalizing t u with
  | zero => exact .refl h
  | succ fuel ih =>
    rw [advanceWhile, advanceWhile, ← isAtEnd_congr h, ← peek_congr h]
    split
    · have hFirst := alike_advanceChar h
      exact hFirst.trans (ih hFirst.rest)
    · exact .refl h

theorem alike_skipWhile (p : Char → Bool) (h : t.rest = u.rest) :
    Alike t u (t.skipWhile p) (u.skipWhile p) := by
  rw [skipWhile, skipWhile, ← left_congr h]
  exact alike_advanceWhile p t.left h

/-- Both match the character, or none. -/
theorem alike_matchChar (c : Char) (h : t.rest = u.rest) :
    (t.matchChar c = none ∧ u.matchChar c = none) ∨
      (t.matchChar c = some t.advanceChar ∧ u.matchChar c = some u.advanceChar) := by
  rw [matchChar, matchChar, ← isAtEnd_congr h, ← peek_congr h]
  split
  · exact .inl ⟨rfl, rfl⟩
  · exact .inr ⟨rfl, rfl⟩

end States

/-! ## Numbers and escapes -/

section Scanners

variable {t u : Tokenizer} {start start' line line' col col' : Nat}

theorem alike_scanPrefixed (p : Char → Bool) (message : String) (h : t.rest = u.rest) :
    AlikeTokens t u (scanPrefixed t p message start line col)
      (scanPrefixed u p message start' line' col') := by
  have hFirst := alike_advanceChar h
  unfold scanPrefixed
  dsimp only
  rw [← isAtEnd_congr hFirst.rest, ← peek_congr hFirst.rest]
  split
  · exact hFirst.token rfl
  · exact (hFirst.trans (alike_skipWhile p hFirst.rest)).token rfl

theorem alike_scanFraction (h : t.rest = u.rest) :
    (scanFraction t).1 = (scanFraction u).1 ∧ Alike t u (scanFraction t).2 (scanFraction u).2 := by
  have hFirst := alike_advanceChar h
  unfold scanFraction
  rw [← isAtEnd_congr h, ← peek_congr h, ← peekNext_congr h]
  split
  · exact ⟨rfl, hFirst.trans (alike_skipWhile isDigit hFirst.rest)⟩
  · exact ⟨rfl, .refl h⟩

/-- The state after the sign of an exponent, if there is one. -/
def afterSign (t : Tokenizer) : Tokenizer :=
  if !t.isAtEnd && (t.peek == '+' || t.peek == '-') then t.advanceChar else t

theorem alike_afterSign (h : t.rest = u.rest) : Alike t u (afterSign t) (afterSign u) := by
  unfold afterSign
  rw [← isAtEnd_congr h, ← peek_congr h]
  split
  · exact alike_advanceChar h
  · exact .refl h

theorem scanExponent_eq (isFloat : Bool) (t : Tokenizer) : scanExponent isFloat t =
    if !t.isAtEnd && (t.peek == 'e' || t.peek == 'E') then
      if (afterSign t.advanceChar).isAtEnd || !isDigit (afterSign t.advanceChar).peek then
        (none, afterSign t.advanceChar)
      else (some true, (afterSign t.advanceChar).skipWhile isDigit)
    else (some isFloat, t) := rfl

theorem alike_scanExponent (isFloat : Bool) (h : t.rest = u.rest) :
    (scanExponent isFloat t).1 = (scanExponent isFloat u).1 ∧
      Alike t u (scanExponent isFloat t).2 (scanExponent isFloat u).2 := by
  have hFirst := alike_advanceChar h
  have hSign := hFirst.trans (alike_afterSign hFirst.rest)
  rw [scanExponent_eq, scanExponent_eq, ← isAtEnd_congr h, ← peek_congr h]
  split
  · rw [← isAtEnd_congr hSign.rest, ← peek_congr hSign.rest]
    split
    · exact ⟨rfl, hSign⟩
    · exact ⟨rfl, hSign.trans (alike_skipWhile isDigit hSign.rest)⟩
  · exact ⟨rfl, .refl h⟩

theorem alike_scanDecimal (h : t.rest = u.rest) :
    AlikeTokens t u (scanDecimal t start line col) (scanDecimal u start' line' col') := by
  have hDigits := alike_skipWhile isDigit h
  obtain ⟨hFloat, hFraction⟩ := alike_scanFraction hDigits.rest
  obtain ⟨hExponent, hState⟩ :=
    alike_scanExponent (scanFraction (t.skipWhile isDigit)).1 hFraction.rest
  have hAll := hDigits.trans (hFraction.trans hState)
  unfold scanDecimal
  dsimp only
  rw [← hFloat]
  generalize scanExponent (scanFraction (t.skipWhile isDigit)).1
    (scanFraction (t.skipWhile isDigit)).2 = r at hExponent hAll ⊢
  generalize scanExponent (scanFraction (t.skipWhile isDigit)).1
    (scanFraction (u.skipWhile isDigit)).2 = r' at hExponent hAll ⊢
  obtain ⟨isFloat, t'⟩ := r
  obtain ⟨isFloat', u'⟩ := r'
  obtain rfl : isFloat = isFloat' := hExponent
  cases isFloat with
  | none => exact hAll.token rfl
  | some isFloat => exact hAll.token rfl

theorem alike_tokenizerScanNumber (h : t.rest = u.rest)
    (hStart : t.source.getD start nul = u.source.getD start' nul) :
    AlikeTokens t u (tokenizerScanNumber t start line col)
      (tokenizerScanNumber u start' line' col') := by
  unfold tokenizerScanNumber
  dsimp only
  rw [← isAtEnd_congr h, ← peek_congr h, ← hStart]
  split
  · split
    · exact alike_scanPrefixed _ _ h
    · split
      · exact alike_scanPrefixed _ _ h
      · split
        · exact alike_scanPrefixed _ _ h
        · exact alike_scanDecimal h
  · exact alike_scanDecimal h

theorem alike_scanHexDigits (n : Nat) (h : t.rest = u.rest) :
    (scanHexDigits n t).1 = (scanHexDigits n u).1 ∧
      Alike t u (scanHexDigits n t).2 (scanHexDigits n u).2 := by
  induction n generalizing t u with
  | zero => exact ⟨rfl, .refl h⟩
  | succ n ih =>
    have hFirst := alike_advanceChar h
    rw [scanHexDigits, scanHexDigits, ← isAtEnd_congr h, ← peek_congr h]
    split
    · exact ⟨rfl, .refl h⟩
    · exact (ih hFirst.rest).imp_right hFirst.trans

theorem alike_scanEscape (h : t.rest = u.rest) :
    (scanEscape t).1 = (scanEscape u).1 ∧ Alike t u (scanEscape t).2 (scanEscape u).2 := by
  have hFirst := alike_advanceChar h
  unfold scanEscape
  dsimp only
  rw [← isAtEnd_congr h, ← peek_congr h]
  split
  · exact ⟨rfl, .refl h⟩
  · split
    · exact ⟨rfl, hFirst⟩
    · split
      · exact (alike_scanHexDigits 4 hFirst.rest).imp_right hFirst.trans
      · exact ⟨rfl, hFirst⟩

/-- A backslash and its escape, with what follows a good one and a bad one. -/
theorem alike_afterEscape {bad bad' good good' : Tokenizer → Token × Tokenizer}
    (h : t.rest = u.rest)
    (hBad : ∀ t₁ u₁, Alike t u t₁ u₁ → AlikeTokens t u (bad t₁) (bad' u₁))
    (hGood : ∀ t₁ u₁, Alike t u t₁ u₁ → AlikeTokens t u (good t₁) (good' u₁)) :
    AlikeTokens t u
      (match scanEscape t.advanceChar with
        | (false, t) => bad t
        | (true, t) => good t)
      (match scanEscape u.advanceChar with
        | (false, u) => bad' u
        | (true, u) => good' u) := by
  have hFirst := alike_advanceChar h
  obtain ⟨hEscape, hState⟩ := alike_scanEscape hFirst.rest
  have hAll := hFirst.trans hState
  generalize scanEscape t.advanceChar = r at hEscape hAll ⊢
  generalize scanEscape u.advanceChar = r' at hEscape hAll ⊢
  obtain ⟨good, t'⟩ := r
  obtain ⟨good', u'⟩ := r'
  obtain rfl : good = good' := hEscape
  cases good with
  | false => exact hBad t' u' hAll
  | true => exact hGood t' u' hAll

/-! ## Characters and strings -/

theorem alike_scanCharEnd (h : t.rest = u.rest) :
    AlikeTokens t u (scanCharEnd t start line col) (scanCharEnd u start' line' col') := by
  unfold scanCharEnd
  dsimp only
  rw [← isAtEnd_congr h, ← peek_congr h]
  split
  · exact (Alike.refl h).token rfl
  · exact (alike_advanceChar h).token rfl

theorem alike_tokenizerScanChar (h : t.rest = u.rest) :
    AlikeTokens t u (tokenizerScanChar t start line col)
      (tokenizerScanChar u start' line' col') := by
  unfold tokenizerScanChar
  rw [← isAtEnd_congr h, ← peek_congr h]
  split
  · exact (Alike.refl h).token rfl
  · split
    · exact alike_afterEscape h (fun _ _ hState => hState.token rfl)
        fun _ _ hState => hState.tokens (alike_scanCharEnd hState.rest)
    · split
      · exact (Alike.refl h).token rfl
      · have hFirst := alike_advanceChar h
        exact hFirst.tokens (alike_scanCharEnd hFirst.rest)

theorem alike_scanStringFrom (fuel : Nat) (h : t.rest = u.rest) :
    AlikeTokens t u (scanStringFrom start line col fuel t)
      (scanStringFrom start' line' col' fuel u) := by
  induction fuel generalizing t u with
  | zero => exact (Alike.refl h).token rfl
  | succ fuel ih =>
    have hFirst := alike_advanceChar h
    unfold scanStringFrom
    dsimp only
    rw [← isAtEnd_congr h, ← peek_congr h]
    split
    · exact (Alike.refl h).token rfl
    · split
      · exact hFirst.token rfl
      · split
        · exact (Alike.refl h).token rfl
        · split
          · exact alike_afterEscape h (fun _ _ hState => hState.token rfl)
              fun _ _ hState => hState.tokens (ih hState.rest)
          · exact hFirst.tokens (ih hFirst.rest)

theorem alike_tokenizerScanString (h : t.rest = u.rest) :
    AlikeTokens t u (tokenizerScanString t start line col)
      (tokenizerScanString u start' line' col') := by
  unfold tokenizerScanString
  rw [← left_congr h]
  exact alike_scanStringFrom _ h

/-! ## Words and operators -/

theorem alike_tokenizerScanIdentifier (h : t.rest = u.rest)
    (hText : (t.source.drop start).take ((t.skipWhile isWordChar).current - start) =
      (u.source.drop start').take ((u.skipWhile isWordChar).current - start'))
    (hSource : (t.skipWhile isWordChar).source = t.source)
    (hSource' : (u.skipWhile isWordChar).source = u.source) :
    AlikeTokens t u (tokenizerScanIdentifier t start line col)
      (tokenizerScanIdentifier u start' line' col') := by
  unfold tokenizerScanIdentifier
  dsimp only
  rw [hSource, hSource', hText]
  exact (alike_skipWhile isWordChar h).token rfl

theorem alike_scanOperator (alone : TokenType) (longer : List (Char × TokenType))
    (h : t.rest = u.rest) :
    AlikeTokens t u (scanOperator t start line col alone longer)
      (scanOperator u start' line' col' alone longer) := by
  induction longer with
  | nil => exact (Alike.refl h).token rfl
  | cons p longer ih =>
    unfold scanOperator
    rcases alike_matchChar p.1 h with ⟨hNone, hNone'⟩ | ⟨hSome, hSome'⟩
    · rw [hNone, hNone']
      exact ih
    · rw [hSome, hSome']
      exact (alike_advanceChar h).token rfl

theorem alike_scanShift (c : Char) (shiftAssign shift orEqual alone : TokenType)
    (h : t.rest = u.rest) :
    AlikeTokens t u (scanShift t start line col c shiftAssign shift orEqual alone)
      (scanShift u start' line' col' c shiftAssign shift orEqual alone) := by
  unfold scanShift
  rcases alike_matchChar c h with ⟨hNone, hNone'⟩ | ⟨hSome, hSome'⟩
  · rw [hNone, hNone']
    exact alike_scanOperator _ _ h
  · rw [hSome, hSome']
    have hFirst := alike_advanceChar h
    exact hFirst.tokens (alike_scanOperator _ _ hFirst.rest)

theorem alike_tokenizerScanPunctuation {c : Char} (hOpen : c ≠ '{') (hClose : c ≠ '}')
    (hTemplate : c ≠ '\x60') (h : t.rest = u.rest) :
    AlikeTokens t u (tokenizerScanPunctuation t c start line col)
      (tokenizerScanPunctuation u c start' line' col') := by
  have hSame := Alike.refl h
  have hFirst := alike_advanceChar h
  unfold tokenizerScanPunctuation
  dsimp only
  split
  case h_3 => exact absurd rfl hOpen
  case h_4 => exact absurd rfl hClose
  case h_9 =>
    rw [← peek_congr h, ← peekNext_congr h]
    split
    · exact (hFirst.trans (alike_advanceChar hFirst.rest)).token rfl
    · exact hSame.token rfl
  case h_25 =>
    rcases alike_matchChar '{' h with ⟨hNone, hNone'⟩ | ⟨hSome, hSome'⟩
    · rw [hNone, hNone']
      exact hSame.token rfl
    · rw [hSome, hSome']
      exact hFirst.token rfl
  case h_26 => exact alike_tokenizerScanChar h
  case h_27 => exact alike_tokenizerScanString h
  case h_28 => exact absurd rfl hTemplate
  case h_29 => exact hSame.token rfl
  all_goals first
    | exact hSame.token rfl
    | exact alike_scanOperator _ _ h
    | exact alike_scanShift _ _ _ _ _ h

end Scanners

/-! ## Blanks and comments -/

section Blanks

variable {t u : Tokenizer}

theorem alike_skipBlockComment (fuel : Nat) (h : t.rest = u.rest) :
    Alike t u (skipBlockComment fuel t) (skipBlockComment fuel u) := by
  induction fuel generalizing t u with
  | zero => exact .refl h
  | succ fuel ih =>
    have hFirst := alike_advanceChar h
    rw [skipBlockComment, skipBlockComment, ← isAtEnd_congr h, ← peek_congr h, ← peekNext_congr h]
    split
    · exact .refl h
    · split
      · exact hFirst.trans (alike_advanceChar hFirst.rest)
      · exact hFirst.trans (ih hFirst.rest)

theorem alike_skipWhitespaceFrom (fuel : Nat) (h : t.rest = u.rest) :
    Alike t u (skipWhitespaceFrom fuel t) (skipWhitespaceFrom fuel u) := by
  induction fuel generalizing t u with
  | zero => exact .refl h
  | succ fuel ih =>
    have hFirst := alike_advanceChar h
    rw [skipWhitespaceFrom, skipWhitespaceFrom, ← peek_congr h, ← peekNext_congr h]
    split
    · exact hFirst.trans (ih hFirst.rest)
    · split
      · have hLine := alike_skipWhile (· != '\n') h
        exact hLine.trans (ih hLine.rest)
      · split
        · have hTwo := hFirst.trans (alike_advanceChar hFirst.rest)
          dsimp only
          rw [← left_congr hTwo.rest]
          have hComment := hTwo.trans
            (alike_skipBlockComment t.advanceChar.advanceChar.left hTwo.rest)
          exact hComment.trans (ih hComment.rest)
        · exact .refl h

theorem alike_skipWhitespace (h : t.rest = u.rest) :
    Alike t u (skipWhitespace t) (skipWhitespace u) := by
  rw [skipWhitespace, skipWhitespace, ← left_congr h]
  exact alike_skipWhitespaceFrom _ h

end Blanks

/-! ## Tokens -/

section Tokens

variable {t u : Tokenizer}

/-- The text of a word, from its first character on. -/
theorem wordText_eq {c : Char} {t' : Tokenizer} (hFirst : Reads t [c] t') :
    ∃ s, t'.rest = s ++ (t'.skipWhile isWordChar).rest ∧
      (t'.skipWhile isWordChar).source = t'.source ∧
      (t'.source.drop t.current).take ((t'.skipWhile isWordChar).current - t.current) = c :: s := by
  obtain ⟨s, hReads, -⟩ := reads_advanceWhile isWordChar t'.left t'
  have hText := text_makeToken (hFirst.trans hReads).toMoves .tokIdentifier t.line t.column
  rw [Token.text, makeToken, hReads.source] at hText
  exact ⟨s, hReads.rest, hReads.source, hText⟩

theorem alike_word {c : Char} {t' u' : Tokenizer} (hFirst : Reads t [c] t')
    (hFirst' : Reads u [c] u') (h : t'.rest = u'.rest) :
    AlikeTokens t' u' (tokenizerScanIdentifier t' t.current t.line t.column)
      (tokenizerScanIdentifier u' u.current u.line u.column) := by
  obtain ⟨s, hRest, hSource, hText⟩ := wordText_eq hFirst
  obtain ⟨s', hRest', hSource', hText'⟩ := wordText_eq hFirst'
  have hSame : s = s' := by
    rw [h, hRest', (alike_skipWhile isWordChar h).rest] at hRest
    exact (List.append_cancel_right hRest).symm
  exact alike_tokenizerScanIdentifier h (by rw [hText, hText', hSame]) hSource hSource'

/-- Where neither a brace nor a template stands, the text decides the token. -/
theorem alike_tokenizerScan (h : t.rest = u.rest) (hOpen : t.peek ≠ '{') (hClose : t.peek ≠ '}')
    (hTemplate : t.peek ≠ '\x60') :
    AlikeTokens t u (tokenizerScan t) (tokenizerScan u) := by
  have hPeek := peek_congr h
  have hEnds : endsInterpolation t = false := by simp [endsInterpolation, hClose]
  have hEnds' : endsInterpolation u = false := by simp [endsInterpolation, ← hPeek, hClose]
  unfold tokenizerScan
  dsimp only
  rw [hEnds, hEnds', if_neg Bool.false_ne_true, if_neg Bool.false_ne_true, ← isAtEnd_congr h,
    ← hPeek]
  split
  · exact (Alike.refl h).token rfl
  case isFalse hEnd =>
    rw [Bool.not_eq_true] at hEnd
    have hFirst := alike_advanceChar h
    have hReads := reads_advanceChar hEnd
    have hReads' := reads_advanceChar (isAtEnd_congr h ▸ hEnd)
    split
    · rw [← hPeek] at hReads'
      exact hFirst.tokens (alike_word hReads hReads' hFirst.rest)
    · split
      · refine hFirst.tokens (alike_tokenizerScanNumber hFirst.rest ?_)
        rw [hReads.source, hReads'.source]
        exact hPeek
      · exact hFirst.tokens
          (alike_tokenizerScanPunctuation hOpen hClose hTemplate hFirst.rest)

end Tokens

end Calynda
