import Mathlib.Data.List.Basic
import Calynda.CEmit.Text
import Calynda.Tokenizer.Locality
import Calynda.Tokenizer.Lossless

/-!
# Inside of interpolations

How a call of `tokenizer_next` changes the stack of brace counters: braces count in the innermost
interpolation, a segment that ends before an interpolation pushes a counter, and the brace that
closes the interpolation pops it. Other tokens are the same inside and outside of templates.
-/

namespace Calynda

open Tokenizer

/-- The type of a token with its text, for a segment of a template its copied text. -/
abbrev Outline := TokenType × List Char

def Token.outline (tok : Token) : Outline :=
  (tok.type, (copyTemplateSegmentText tok).getD tok.text)

/-- The counters of the open interpolations, the innermost last. -/
def Tokenizer.counts (t : Tokenizer) : List Int :=
  t.interpolationBraceDepth.take t.templateDepth.toNat

/-- `t` is in front of `text`, with these counters. -/
structure At (t : Tokenizer) (text : List Char) (counts : List Int) : Prop where
  rest : t.rest = text
  noNul : nul ∉ t.source
  stack : StackOk t
  counts_eq : t.counts = counts

/-! ## Texts -/

/-- Blanks and comments, up to the text after them. -/
def IsGap (gap after : List Char) : Prop :=
  (skipWhitespace (tokenizerInit (gap ++ after))).rest = after

/-- The types of braces and of template segments, and of what is no token. -/
def nestingTypes : List TokenType :=
  [.tokError, .tokEof, .tokLbrace, .tokRbrace, .tokTemplateFull, .tokTemplateStart,
    .tokTemplateMiddle, .tokTemplateEnd]

/-- A token outside of templates, with the blanks before it. -/
structure IsToken (gap s : List Char) (type : TokenType) (after : List Char) : Prop where
  isGap : IsGap gap (s ++ after)
  type_eq : (tokenizerNext (tokenizerInit (gap ++ (s ++ after)))).1.type = type
  rest : (tokenizerNext (tokenizerInit (gap ++ (s ++ after)))).2.rest = after
  plain : type ∉ nestingTypes

/-- The text of a segment: characters and escapes, without the opening of an interpolation. -/
inductive IsSegment (after : List Char) : List Char → Prop where
  | nil : IsSegment after []
  | plain {c : Char} {s : List Char} (h : c ≠ '\\') (hStop : c ∉ [nul, '\x60'])
      (hOpen : ¬ (c = '$' ∧ (s ++ after).head? = some '{')) :
      IsSegment after s → IsSegment after (c :: s)
  | escape {x s : List Char} (h : IsEscape x) :
      IsSegment after s → IsSegment after ('\\' :: (x ++ s))

/-- What ends a segment. -/
inductive Closing where
  | quote
  | opening
  deriving DecidableEq

namespace Closing

def text : Closing → List Char
  | quote => ['\x60']
  | opening => ['$', '{']

def afterStart : Closing → TokenType
  | quote => .tokTemplateFull
  | opening => .tokTemplateStart

def afterHole : Closing → TokenType
  | quote => .tokTemplateEnd
  | opening => .tokTemplateMiddle

/-- The part of the text that belongs to the token. -/
def tail : Closing → List Char
  | quote => ['\x60']
  | opening => []

def counts : Closing → List Int → List Int
  | quote, counts => counts
  | opening, counts => counts ++ [0]

end Closing

/-! ## Reading on -/

section States

variable {t t' : Tokenizer} {s x gap : List Char} {counts : List Int}

theorem At.moves {counts' : List Int} (h : At t (s ++ x) counts) (hMoves : Moves t s t')
    (hStack : StackOk t') (hCounts : t'.counts = counts') : At t' x counts' where
  rest := by
    have hRest := hMoves.rest
    rw [h.rest] at hRest
    exact (List.append_cancel_left hRest).symm
  noNul := hMoves.source ▸ h.noNul
  stack := hStack
  counts_eq := hCounts

theorem At.of_reads (h : At t (s ++ x) counts) (hReads : Reads t s t') : At t' x counts := by
  refine h.moves hReads.toMoves (hReads.step.stack h.stack) ?_
  rw [← h.counts_eq, Tokenizer.counts, Tokenizer.counts, hReads.depth, hReads.braces]

theorem At.skipGap (h : At t (gap ++ x) counts) (hGap : IsGap gap x) :
    At (skipWhitespace t) x counts := by
  obtain ⟨s, hReads, -⟩ := skipWhitespaceFrom_reads (t.left + 1) h.noNul
  have hRest : (skipWhitespace t).rest = x :=
    (alike_skipWhitespace (u := tokenizerInit (gap ++ x)) h.rest).rest.trans hGap
  have hStart : t.rest = s ++ (skipWhitespace t).rest := hReads.rest
  rw [hRest, h.rest] at hStart
  exact (hStart ▸ h : At t (s ++ x) counts).of_reads hReads

theorem At.peek {c : Char} (h : At t (c :: x) counts) : t.peek = c := peek_of_rest h.rest

theorem At.length_counts (h : At t x counts) : (counts.length : Int) = t.templateDepth := by
  have hNonneg := h.stack.depth_nonneg
  have hLe := h.stack.depth_le
  have hSize := h.stack.size
  have hMax : tokenizerMaxTemplateDepth.toNat = 32 := rfl
  have hMaxInt : tokenizerMaxTemplateDepth = 32 := rfl
  rw [← h.counts_eq, Tokenizer.counts, List.length_take]
  omega

theorem At.counts_nonneg (h : At t x counts) : ∀ b ∈ counts, 0 ≤ b := by
  intro b hb
  rw [← h.counts_eq] at hb
  exact (h.stack.braces b (List.mem_of_mem_take hb)).1

/-- One character that is not the terminator is read. -/
theorem At.advanceChar {c : Char} (h : At t (c :: x) counts) (hNul : c ≠ nul) :
    Reads t [c] t.advanceChar ∧ At t.advanceChar x counts := by
  have hReads := reads_advanceChar (not_isAtEnd_of_peek h.peek hNul)
  rw [h.peek] at hReads
  exact ⟨hReads, h.of_reads hReads⟩

end States

/-! ## Segments -/

section Segments

variable {t t' : Tokenizer} {s x seg : List Char} {counts : List Int}

theorem scanHexDigits_of_xdigits {s : List Char} (hDigits : ∀ c ∈ s, isXdigit c = true)
    (h : t.rest = s ++ x) : ∃ t', scanHexDigits s.length t = (true, t') ∧ Reads t s t' := by
  induction s generalizing t with
  | nil => exact ⟨t, rfl, .refl t⟩
  | cons c s ih =>
    have hPeek := peek_of_rest h
    have hDigit := hDigits c List.mem_cons_self
    have hEnd : t.isAtEnd = false := not_isAtEnd_of_peek hPeek fun hNul => by
      rw [hNul] at hDigit
      exact absurd hDigit (by decide)
    have hFirst := reads_advanceChar hEnd
    rw [hPeek] at hFirst
    obtain ⟨t', hScan, hReads⟩ := ih (fun d hd => hDigits d (List.mem_cons_of_mem c hd))
      (by rw [rest_advanceChar, h]; rfl)
    refine ⟨t', ?_, hFirst.trans hReads⟩
    rw [List.length_cons, scanHexDigits, hEnd, hPeek, hDigit]
    exact hScan

theorem scanEscape_of_isEscape (hEscape : IsEscape s) (h : t.rest = s ++ x) :
    ∃ t', scanEscape t = (true, t') ∧ Reads t s t' := by
  cases hEscape with
  | @simple c hc =>
    have hPeek := peek_of_rest h
    have hEnd : t.isAtEnd = false := not_isAtEnd_of_peek hPeek fun hNul => by
      rw [hNul] at hc
      exact absurd hc (by decide)
    have hFirst := reads_advanceChar hEnd
    rw [hPeek] at hFirst
    refine ⟨t.advanceChar, ?_, hFirst⟩
    unfold scanEscape
    dsimp only
    rw [hEnd, hPeek, if_pos hc]
    rfl
  | @unicode a b c d hDigits =>
    have hPeek := peek_of_rest h
    have hEnd : t.isAtEnd = false := not_isAtEnd_of_peek hPeek (by decide)
    have hFirst := reads_advanceChar hEnd
    rw [hPeek] at hFirst
    obtain ⟨t', hScan, hReads⟩ := scanHexDigits_of_xdigits (t := t.advanceChar) (x := x) hDigits
      (by rw [rest_advanceChar, h]; rfl)
    refine ⟨t', ?_, hFirst.trans hReads⟩
    unfold scanEscape
    dsimp only
    rw [hEnd, hPeek, if_neg (by decide), if_pos rfl]
    exact hScan

theorem head?_of_peekNext {c : Char} (h : t.rest = c :: s) (hNul : c ≠ nul) {d : Char}
    (hNext : t.peekNext = d) (hd : d ≠ nul) : s.head? = some d := by
  have hEnd := not_isAtEnd_of_peek (peek_of_rest h) hNul
  rw [← peek_advanceChar hEnd, peek_eq_rest, rest_advanceChar, h] at hNext
  cases s with
  | nil => exact absurd hNext.symm hd
  | cons e s => exact congrArg some hNext

/-- A segment is read to its end. -/
theorem scanTemplateFrom_segment (start line col : Nat) (onInterp onEnd : TokenType) {fuel : Nat}
    (hSeg : IsSegment x seg) (h : t.rest = seg ++ x) (hFuel : seg.length < fuel) :
    ∃ t' fuel', Reads t seg t' ∧ scanTemplateFrom start line col onInterp onEnd fuel t =
      scanTemplateFrom start line col onInterp onEnd (fuel' + 1) t' := by
  induction hSeg generalizing t fuel with
  | nil =>
    obtain ⟨fuel', rfl⟩ : ∃ fuel', fuel = fuel' + 1 := ⟨fuel - 1, by simp at hFuel; omega⟩
    exact ⟨t, fuel', .refl t, rfl⟩
  | @plain c s hBackslash hStop hOpen _ ih =>
    obtain ⟨fuel, rfl⟩ : ∃ fuel', fuel = fuel' + 1 := ⟨fuel - 1, by simp at hFuel; omega⟩
    rw [List.mem_cons, List.mem_singleton, not_or] at hStop
    have hPeek := peek_of_rest h
    have hEnd := not_isAtEnd_of_peek hPeek hStop.1
    have hFirst := reads_advanceChar hEnd
    rw [hPeek] at hFirst
    have hNext : t.advanceChar.rest = s ++ x := by
      rw [rest_advanceChar, h]
      rfl
    obtain ⟨t', fuel', hReads, hScan⟩ := ih hNext (Nat.lt_of_succ_lt_succ hFuel)
    refine ⟨t', fuel', hFirst.trans hReads, ?_⟩
    have hNot : ¬ (t.peek = '$' ∧ t.peekNext = '{') := by
      rintro ⟨hDollar, hBrace⟩
      rw [hPeek] at hDollar
      exact hOpen ⟨hDollar, head?_of_peekNext h hStop.1 hBrace (by decide)⟩
    rw [← hScan, scanTemplateFrom, hEnd, if_neg Bool.false_ne_true, hPeek, if_neg hBackslash,
      if_neg (hPeek ▸ hNot), if_neg hStop.2]
  | @escape y s hEscape _ ih =>
    obtain ⟨fuel, rfl⟩ : ∃ fuel', fuel = fuel' + 1 := ⟨fuel - 1, by simp at hFuel; omega⟩
    have hPeek := peek_of_rest h
    have hEnd := not_isAtEnd_of_peek hPeek (by decide)
    have hFirst := reads_advanceChar hEnd
    rw [hPeek] at hFirst
    have hNext : t.advanceChar.rest = y ++ (s ++ x) := by
      rw [rest_advanceChar, h]
      simp
    obtain ⟨t₁, hScanEscape, hReadsEscape⟩ := scanEscape_of_isEscape hEscape hNext
    have hRest := hReadsEscape.rest
    rw [hNext] at hRest
    have hLength : s.length < fuel := by
      rw [List.length_cons, List.length_append] at hFuel
      omega
    obtain ⟨t', fuel', hReads, hScan⟩ := ih (List.append_cancel_left hRest).symm hLength
    refine ⟨t', fuel', by simpa using hFirst.trans (hReadsEscape.trans hReads), ?_⟩
    rw [← hScan, scanTemplateFrom, hEnd, if_neg Bool.false_ne_true, hPeek, if_pos rfl,
      hScanEscape]

end Segments

/-! ## Calls outside of templates -/

/-- A call reads a token with this outline, and leaves `text` and the counters. -/
structure Calls (t : Tokenizer) (o : Outline) (text : List Char) (counts : List Int) : Prop where
  outline_eq : (tokenizerNext t).1.outline = o
  at_rest : At (tokenizerNext t).2 text counts

section Calls

variable {t : Tokenizer} {gap s x seg : List Char} {counts : List Int}

theorem tokenizerScan_punctuation {c : Char} (hEnds : endsInterpolation t = false)
    (h : t.peek = c) (hNul : c ≠ nul) (hWord : (isAlpha c || c == '_') = false)
    (hDigit : isDigit c = false) :
    tokenizerScan t = tokenizerScanPunctuation t.advanceChar c t.current t.line t.column := by
  unfold tokenizerScan
  dsimp only
  rw [hEnds, not_isAtEnd_of_peek h hNul, h, hWord, hDigit]
  rfl

theorem endsInterpolation_of_peek {c : Char} (h : t.peek = c) (hBrace : c ≠ '}') :
    endsInterpolation t = false := by
  simp [endsInterpolation, h, hBrace]

theorem tokenizerNext_template (h : (skipWhitespace t).peek = '\x60') :
    tokenizerNext t = tokenizerScanTemplateBody (skipWhitespace t).advanceChar
      (skipWhitespace t).current (skipWhitespace t).line (skipWhitespace t).column
      .tokTemplateStart .tokTemplateFull := by
  rw [tokenizerNext, tokenizerScan_punctuation (endsInterpolation_of_peek h (by decide)) h
    (by decide) (by decide) (by decide)]
  rfl

theorem outline_of_plain {tok : Token} (h : tok.type ∉ nestingTypes) :
    tok.outline = (tok.type, tok.text) := by
  have hNone : copyTemplateSegmentText tok = none := by
    unfold copyTemplateSegmentText
    cases hType : tok.type
    all_goals first
      | rfl
      | exact absurd (by rw [hType]; decide) h
  rw [Token.outline, hNone]
  rfl

theorem opening_of_plain {type : TokenType} (h : type ∉ nestingTypes) : type.opening = [] := by
  cases type with
  | tokTemplateStart => exact absurd (by decide) h
  | tokTemplateMiddle => exact absurd (by decide) h
  | _ => rfl

theorem tokenizerScanTemplateBody_nesting {start line col : Nat} :
    (tokenizerScanTemplateBody t start line col .tokTemplateStart .tokTemplateFull).1.type ∈
      nestingTypes := by
  rcases eq_or_ne (tokenizerScanTemplateBody t start line col .tokTemplateStart
    .tokTemplateFull).1.type .tokError with hError | hType
  · rw [hError]
    decide
  · obtain ⟨seg, -, ⟨-, hFull⟩ | ⟨t₁, -, hStart, -⟩⟩ := scanTemplateFrom_accepts rfl hType
    · rw [tokenizerScanTemplateBody, hFull]
      exact (by decide : TokenType.tokTemplateFull ∈ nestingTypes)
    · rw [tokenizerScanTemplateBody, hStart]
      exact (by decide : TokenType.tokTemplateStart ∈ nestingTypes)

/-- Outside of templates, braces and templates have types of their own. -/
theorem peek_of_plain (hDepth : t.templateDepth = 0)
    (h : (tokenizerScan t).1.type ∉ nestingTypes) :
    t.peek ≠ '{' ∧ t.peek ≠ '}' ∧ t.peek ≠ '\x60' := by
  have hEnds : endsInterpolation t = false := by simp [endsInterpolation, hDepth]
  refine ⟨fun hPeek => ?_, fun hPeek => ?_, fun hPeek => ?_⟩
  · rw [tokenizerScan_punctuation hEnds hPeek (by decide) (by decide) (by decide)] at h
    exact h (show TokenType.tokLbrace ∈ nestingTypes by decide)
  · rw [tokenizerScan_punctuation hEnds hPeek (by decide) (by decide) (by decide)] at h
    exact h (show TokenType.tokRbrace ∈ nestingTypes by decide)
  · rw [tokenizerScan_punctuation hEnds hPeek (by decide) (by decide) (by decide)] at h
    exact h tokenizerScanTemplateBody_nesting

/-- A token that is none of nesting is read as outside of templates. -/
theorem At.token {type : TokenType} (h : At t (gap ++ (s ++ x)) counts)
    (hToken : IsToken gap s type x) : Calls t (type, s) x counts := by
  have hSkip := h.skipGap hToken.isGap
  have hAlike := alike_skipWhitespace (u := tokenizerInit (gap ++ (s ++ x))) h.rest
  have hType := hToken.type_eq
  have hRest := hToken.rest
  unfold tokenizerNext at hType hRest
  have hDepth : (skipWhitespace (tokenizerInit (gap ++ (s ++ x)))).templateDepth = 0 :=
    (alike_skipWhitespace (t := tokenizerInit (gap ++ (s ++ x))) rfl).depth
  obtain ⟨hOpen, hClose, hTemplate⟩ := peek_of_plain hDepth (hType ▸ hToken.plain)
  rw [← peek_congr hAlike.rest] at hOpen hClose hTemplate
  have hScan := alike_tokenizerScan hAlike.rest hOpen hClose hTemplate
  have hType' : (tokenizerNext t).1.type = type := hScan.type_eq.trans hType
  have hRest' : (tokenizerNext t).2.rest = x := hScan.state.rest.trans hRest
  have hReads : ReadsToken (skipWhitespace t) (tokenizerNext t) := readsToken_tokenizerScan _
  have hPlain : (tokenizerNext t).1.type ∉ nestingTypes := hType' ▸ hToken.plain
  have hNotError : (tokenizerNext t).1.type ≠ .tokError := fun hError =>
    hPlain (by rw [hError]; decide)
  obtain ⟨word, hMoves, hTok, -⟩ := hReads.token.resolve_left hNotError
  rw [opening_of_plain hPlain, List.append_nil] at hMoves
  have hWord : word = s := by
    have hAll := hMoves.rest
    rw [hSkip.rest, hRest'] at hAll
    exact (List.append_cancel_right hAll).symm
  have hText : (tokenizerNext t).1.text = s := by
    rw [hTok, Token.text, hMoves.rest, List.take_left, hWord]
  refine ⟨by rw [outline_of_plain hPlain, hType', hText], hRest', hMoves.source ▸ hSkip.noNul,
    hReads.step.stack hSkip.stack, ?_⟩
  have hDepth' : (tokenizerNext t).2.templateDepth = (skipWhitespace t).templateDepth :=
    hScan.state.depth
  have hBraces' : (tokenizerNext t).2.interpolationBraceDepth =
      (skipWhitespace t).interpolationBraceDepth := hScan.state.braces
  rw [← hSkip.counts_eq, Tokenizer.counts, Tokenizer.counts, hDepth', hBraces']

end Calls

/-! ## Braces and segments -/

section Nesting

variable {t t' t₀ : Tokenizer} {x seg : List Char} {counts init : List Int} {m : Int}

/-- The innermost counter. -/
theorem At.innermost (h : At t x (init ++ [m])) :
    0 < t.templateDepth ∧ t.innermost = init.length ∧ t.braceDepth = m ∧
      t.interpolationBraceDepth.take init.length = init := by
  have hLength := h.length_counts
  rw [List.length_append, List.length_singleton] at hLength
  have hDepth : t.templateDepth.toNat = init.length + 1 := by omega
  have hInnermost : t.innermost = init.length := by
    rw [Tokenizer.innermost]
    omega
  have hTake := h.counts_eq
  rw [Tokenizer.counts, hDepth] at hTake
  refine ⟨by omega, hInnermost, ?_, ?_⟩
  · have hGet := congrArg (fun l => l[init.length]?) hTake
    rw [List.getElem?_take_of_lt (Nat.lt_succ_self _), List.getElem?_concat_length] at hGet
    rw [braceDepth, hInnermost, List.getD_eq_getElem?_getD, hGet]
    rfl
  · have hInit := congrArg (List.take init.length) hTake
    rwa [List.take_take, Nat.min_eq_left (Nat.le_succ _), List.take_left] at hInit

/-- The innermost counter is changed, if there is one. -/
theorem At.modify (h : At t x (init ++ [m])) (f : Int → Int) :
    (t.interpolationBraceDepth.modify t.innermost f).take t.templateDepth.toNat =
      init ++ [f m] := by
  rw [List.take_modify, h.innermost.2.1]
  have hTake := h.counts_eq
  rw [Tokenizer.counts] at hTake
  rw [hTake, List.modify_eq_take_cons_drop (by simp)]
  simp

/-- The counters after an opening brace. -/
def bump (f : Int → Int) (counts : List Int) : List Int :=
  match counts.getLast? with
  | some m => counts.dropLast ++ [f m]
  | none => []

theorem bump_concat (f : Int → Int) (init : List Int) (m : Int) :
    bump f (init ++ [m]) = init ++ [f m] := by
  simp [bump]

theorem counts_openBrace (h : At t x counts) : (openBrace t).counts = bump (· + 1) counts := by
  have hCounts := h.counts_eq
  have hLength := h.length_counts
  rcases List.eq_nil_or_concat' counts with rfl | ⟨init, m, rfl⟩
  · have hDepth : ¬ t.templateDepth > 0 := by
      rw [← hLength]
      decide
    rw [openBrace, if_neg hDepth]
    exact hCounts
  · rw [bump_concat, openBrace, if_pos h.innermost.1]
    exact h.modify (· + 1)

theorem counts_closeBrace (h : At t x (bump (· + 1) counts)) (hNonneg : ∀ b ∈ counts, 0 ≤ b) :
    (closeBrace t).counts = counts := by
  have hCounts := h.counts_eq
  have hLength := h.length_counts
  rcases List.eq_nil_or_concat' counts with rfl | ⟨init, m, rfl⟩
  · have hDepth : ¬ (t.templateDepth > 0 ∧ t.braceDepth > 0) := by
      rintro ⟨hPos, -⟩
      rw [← hLength] at hPos
      exact absurd hPos (by decide)
    rw [closeBrace, if_neg hDepth]
    exact hCounts
  · rw [bump_concat] at h
    have hm := hNonneg m (by simp)
    have hOpen : t.templateDepth > 0 ∧ t.braceDepth > 0 := by
      rw [h.innermost.2.2.1]
      exact ⟨h.innermost.1, by omega⟩
    rw [closeBrace, if_pos hOpen]
    exact (h.modify (· - 1)).trans (by rw [Int.add_sub_cancel])

/-- A brace that closes a block does not end the interpolation. -/
theorem not_endsInterpolation (h : At t x (bump (· + 1) counts))
    (hNonneg : ∀ b ∈ counts, 0 ≤ b) : endsInterpolation t = false := by
  have hLength := h.length_counts
  rcases List.eq_nil_or_concat' counts with rfl | ⟨init, m, rfl⟩
  · have hDepth : t.templateDepth = 0 := hLength.symm
    simp [endsInterpolation, hDepth]
  · rw [bump_concat] at h
    have hm := hNonneg m (by simp)
    have hBrace : ¬ t.braceDepth = 0 := by
      rw [h.innermost.2.2.1]
      omega
    simp [endsInterpolation, hBrace]

theorem outline_one {c : Char} {type : TokenType} (hReads : Reads t [c] t')
    (hType : type ∉ nestingTypes ∨ type = .tokLbrace ∨ type = .tokRbrace) :
    (t'.makeToken type t.current t.line t.column).outline = (type, [c]) := by
  have hText := text_makeToken hReads.toMoves type t.line t.column
  have hNone : copyTemplateSegmentText (t'.makeToken type t.current t.line t.column) = none := by
    rcases hType with hPlain | rfl | rfl
    · unfold copyTemplateSegmentText makeToken
      dsimp only
      cases type
      all_goals first
        | rfl
        | exact absurd (by decide) hPlain
    · rfl
    · rfl
  rw [Token.outline, hNone, hText]
  rfl

/-- An opening brace counts. -/
theorem At.lbrace {gap : List Char} (h : At t (gap ++ '{' :: x) counts)
    (hGap : IsGap gap ('{' :: x)) :
    Calls t (.tokLbrace, ['{']) x (bump (· + 1) counts) := by
  have hSkip := h.skipGap hGap
  obtain ⟨hReads, hNext⟩ := hSkip.advanceChar (by decide)
  have hScan : tokenizerNext t = ((skipWhitespace t).advanceChar.makeToken .tokLbrace
      (skipWhitespace t).current (skipWhitespace t).line (skipWhitespace t).column,
      openBrace (skipWhitespace t).advanceChar) := by
    rw [tokenizerNext, tokenizerScan_punctuation
      (endsInterpolation_of_peek hSkip.peek (by decide)) hSkip.peek (by decide) (by decide)
      (by decide)]
    rfl
  have hStep := step_openBrace (not_isAtEnd_of_peek hSkip.peek (by decide))
  refine ⟨by rw [hScan, outline_one hReads (.inr (.inl rfl))], ?_⟩
  rw [hScan]
  exact At.moves (s := ['{']) hSkip hReads.openBrace (hStep.stack hSkip.stack) (counts_openBrace hNext)

theorem At.rbrace {gap : List Char} (h : At t (gap ++ '}' :: x) (bump (· + 1) counts))
    (hNonneg : ∀ b ∈ counts, 0 ≤ b) (hGap : IsGap gap ('}' :: x)) :
    Calls t (.tokRbrace, ['}']) x counts := by
  have hSkip := h.skipGap hGap
  obtain ⟨hReads, hNext⟩ := hSkip.advanceChar (by decide)
  have hScan : tokenizerNext t = ((skipWhitespace t).advanceChar.makeToken .tokRbrace
      (skipWhitespace t).current (skipWhitespace t).line (skipWhitespace t).column,
      closeBrace (skipWhitespace t).advanceChar) := by
    rw [tokenizerNext, tokenizerScan_punctuation (not_endsInterpolation hSkip hNonneg) hSkip.peek
      (by decide) (by decide) (by decide)]
    rfl
  refine ⟨by rw [hScan, outline_one hReads (.inr (.inr rfl))], ?_⟩
  rw [hScan]
  exact At.moves (s := ['}']) hSkip hReads.closeBrace
    ((step_closeBrace hReads.step).stack hSkip.stack) (counts_closeBrace hNext hNonneg)

/-- The copy of a segment is its text. -/
theorem outline_segment {tok : Token} {d : Char} (c : Closing)
    (hType : tok.type = c.afterStart ∨ tok.type = c.afterHole) (hLength : tok.length = tok.text.length)
    (hWord : tok.text = d :: (seg ++ c.tail)) : tok.outline = (tok.type, seg) := by
  have hTake := take_tail_start hLength hWord
  have hCopy : copyTemplateSegmentText tok = some seg := by
    cases c with
    | quote =>
      have hLong : ¬ seg.length + 1 + 1 < 2 := by omega
      rcases hType with hType | hType <;>
        simp [copyTemplateSegmentText, hType, hLength, hWord, hTake, hLong, Closing.afterStart,
          Closing.afterHole, Closing.tail]
    | opening =>
      rcases hType with hType | hType <;>
        simp [copyTemplateSegmentText, hType, hLength, hWord, hTake, Closing.afterStart,
          Closing.afterHole, Closing.tail]
  rw [Token.outline, hCopy]
  rfl

theorem counts_enterInterpolation (h : At t x counts) (hDollar : t.peek = '$')
    (hBrace : t.peekNext = '{') (hDepth : counts.length < 32) :
    (enterInterpolation t).counts = counts ++ [0] := by
  have hReads := reads_advance_two hDollar hBrace (by decide) (by decide)
  have hLength := h.length_counts
  have hSize := h.stack.size
  have hMax : tokenizerMaxTemplateDepth.toNat = 32 := rfl
  have hToNat : t.templateDepth.toNat = counts.length := by omega
  have hCounts := h.counts_eq
  rw [Tokenizer.counts, hToNat] at hCounts
  unfold Tokenizer.counts enterInterpolation
  dsimp only
  rw [hReads.depth, hReads.braces, hToNat, (by omega : (t.templateDepth + 1).toNat = counts.length + 1),
    List.set_eq_take_append_cons_drop, if_pos (by omega), hCounts, List.take_length_add_append]
  rfl

/-- A segment is scanned to what closes it. -/
theorem At.segment {start line col : Nat} {onInterp onEnd : TokenType} (c : Closing)
    (h : At t (seg ++ (c.text ++ x)) counts) (hSeg : IsSegment (c.text ++ x) seg)
    (hDepth : c = .opening → counts.length < 32) :
    ∃ t₁, Reads t (seg ++ c.tail) t₁ ∧
      (tokenizerScanTemplateBody t start line col onInterp onEnd).1 =
        t₁.makeToken (match c with | .quote => onEnd | .opening => onInterp) start line col ∧
      At (tokenizerScanTemplateBody t start line col onInterp onEnd).2 x (c.counts counts) := by
  have hFuel : seg.length < t.left + 1 := by
    rw [left_eq, h.rest, List.length_append]
    omega
  obtain ⟨t₁, fuel, hReads, hScan⟩ :=
    scanTemplateFrom_segment start line col onInterp onEnd hSeg h.rest hFuel
  have hAt := h.of_reads hReads
  unfold tokenizerScanTemplateBody
  rw [hScan]
  cases c with
  | quote =>
    have hPeek : t₁.peek = '\x60' := peek_of_rest hAt.rest
    obtain ⟨hQuote, hNext⟩ := At.advanceChar (c := '\x60') (x := x) hAt (by decide)
    have hStep : scanTemplateFrom start line col onInterp onEnd (fuel + 1) t₁ =
        (t₁.advanceChar.makeToken onEnd start line col, t₁.advanceChar) := by
      rw [scanTemplateFrom, not_isAtEnd_of_peek hPeek (by decide), if_neg Bool.false_ne_true,
        hPeek, if_neg (by decide), if_neg fun hOpen => absurd hOpen.1 (by decide), if_pos rfl]
    rw [hStep]
    exact ⟨t₁.advanceChar, hReads.trans hQuote, rfl, hNext⟩
  | opening =>
    have hDepth := hDepth rfl
    have hLength := hAt.length_counts
    have hPeek : t₁.peek = '$' := peek_of_rest hAt.rest
    have hEnd := not_isAtEnd_of_peek hPeek (by decide)
    have hNext : t₁.peekNext = '{' := by
      refine peekNext_of_rest hEnd ?_
      rw [rest_advanceChar, hAt.rest]
      rfl
    have hMax : tokenizerMaxTemplateDepth = 32 := rfl
    have hStep : scanTemplateFrom start line col onInterp onEnd (fuel + 1) t₁ =
        (t₁.makeToken onInterp start line col, enterInterpolation t₁) := by
      rw [scanTemplateFrom, hEnd, if_neg Bool.false_ne_true, if_neg (by rw [hPeek]; decide),
        if_pos ⟨hPeek, hNext⟩, if_neg (by omega)]
    rw [hStep]
    obtain ⟨hMoves, hPush⟩ := step_enterInterpolation hPeek hNext (by omega)
    exact ⟨t₁, by simpa [Closing.tail] using hReads, rfl, hAt.moves hMoves
      (hPush.stack hAt.stack) (counts_enterInterpolation hAt hPeek hNext hDepth)⟩

/-- A template that starts in a code part. -/
theorem At.template {gap : List Char} (c : Closing)
    (h : At t (gap ++ '\x60' :: (seg ++ (c.text ++ x))) counts)
    (hGap : IsGap gap ('\x60' :: (seg ++ (c.text ++ x)))) (hSeg : IsSegment (c.text ++ x) seg)
    (hDepth : c = .opening → counts.length < 32) :
    Calls t (c.afterStart, seg) x (c.counts counts) := by
  have hSkip := h.skipGap hGap
  obtain ⟨hReads, hNext⟩ := hSkip.advanceChar (by decide)
  have hScan := tokenizerNext_template hSkip.peek
  obtain ⟨t₁, hReads₁, hTok, hAt⟩ := hNext.segment c hSeg hDepth
  have hAll := (hReads.trans hReads₁).toMoves
  refine ⟨?_, by rw [hScan]; exact hAt⟩
  rw [hScan, hTok]
  have hText := text_makeToken hAll
  have hLength := length_makeToken hAll
  cases c with
  | quote => exact outline_segment .quote (.inl rfl) (by rw [hText, hLength]) (hText _ _ _)
  | opening => exact outline_segment .opening (.inl rfl) (by rw [hText, hLength]) (hText _ _ _)

/-- The end of an interpolation, and the segment after it. -/
theorem At.hole {gap : List Char} (c : Closing)
    (h : At t (gap ++ '}' :: (seg ++ (c.text ++ x))) (counts ++ [0]))
    (hGap : IsGap gap ('}' :: (seg ++ (c.text ++ x)))) (hSeg : IsSegment (c.text ++ x) seg) :
    Calls t (c.afterHole, seg) x (c.counts counts) := by
  have hSkip := h.skipGap hGap
  obtain ⟨hDepth, -, hBrace, hInit⟩ := hSkip.innermost
  obtain ⟨hReads, hNext⟩ := hSkip.advanceChar (by decide)
  have hEnds : endsInterpolation (skipWhitespace t) = true := by
    simp [endsInterpolation, hDepth, hBrace, hSkip.peek]
  have hScan : tokenizerNext t = tokenizerScanTemplateBody
      { (skipWhitespace t).advanceChar with
        templateDepth := (skipWhitespace t).advanceChar.templateDepth - 1 }
      (skipWhitespace t).current (skipWhitespace t).line (skipWhitespace t).column
      .tokTemplateMiddle .tokTemplateEnd := by
    rw [tokenizerNext, tokenizerScan, if_pos hEnds]
  have hLength := hSkip.length_counts
  rw [List.length_append, List.length_singleton] at hLength
  have hPopped : At { (skipWhitespace t).advanceChar with
      templateDepth := (skipWhitespace t).advanceChar.templateDepth - 1 }
      (seg ++ (c.text ++ x)) counts := by
    refine ⟨hNext.rest, hNext.noNul, (step_pop hReads.step hDepth hReads.depth).stack hSkip.stack, ?_⟩
    have hToNat : ((skipWhitespace t).templateDepth - 1).toNat = counts.length := by omega
    unfold Tokenizer.counts
    dsimp only
    rw [hReads.depth, hReads.braces, hToNat]
    exact hInit
  have hLe := hSkip.stack.depth_le
  have hMax : tokenizerMaxTemplateDepth = 32 := rfl
  obtain ⟨t₁, hReads₁, hTok, hAt⟩ := hPopped.segment c hSeg fun _ => by omega
  have hFirst := hReads.toMoves
  have hPop : Moves (skipWhitespace t) ['}'] { (skipWhitespace t).advanceChar with
      templateDepth := (skipWhitespace t).advanceChar.templateDepth - 1 } :=
    ⟨hFirst.source, hFirst.rest, hFirst.current, hFirst.place⟩
  have hAll := hPop.trans hReads₁.toMoves
  refine ⟨?_, by rw [hScan]; exact hAt⟩
  rw [hScan, hTok]
  have hText := text_makeToken hAll
  have hLength := length_makeToken hAll
  cases c with
  | quote => exact outline_segment .quote (.inr rfl) (by rw [hText, hLength]) (hText _ _ _)
  | opening => exact outline_segment .opening (.inr rfl) (by rw [hText, hLength]) (hText _ _ _)

end Nesting

end Calynda
