import Calynda.Tokenizer.Steps

/-!
# Losslessness

Calls of `tokenizer_next` cut a source into the texts of its tokens and what stands between them:
blanks, comments, and the openings of interpolations. The calls end, since each one before the
end reads something.
-/

namespace Calynda

open Tokenizer

/-! ## Blanks and comments -/

def blankChars : List Char := [' ', '\t', '\r', '\n']

/-- A text of blanks and comments, before another text. A line comment ends at a newline or with
the source, a block comment at its first mark or, without one, with the source. -/
inductive Blanks : List Char → List Char → Prop where
  | nil {after : List Char} : Blanks [] after
  | blank {c : Char} {s after : List Char} (h : c ∈ blankChars) (hRest : Blanks s after) :
      Blanks (c :: s) after
  | line {x s after : List Char} (h : '\n' ∉ x) (hEnd : s ++ after = [] ∨ (s ++ after).head? = some '\n')
      (hRest : Blanks s after) : Blanks ('/' :: '/' :: (x ++ s)) after
  | block {x s after : List Char} (h : ¬ ['*', '/'] <:+: x ++ ['*']) (hRest : Blanks s after) :
      Blanks ('/' :: '*' :: (x ++ '*' :: '/' :: s)) after
  | unclosed {x : List Char} (h : ¬ ['*', '/'] <:+: x) : Blanks ('/' :: '*' :: x) []

section Skip

variable {t t' : Tokenizer} {s : List Char}

theorem peek_of_rest {c : Char} (h : t.rest = c :: s) : t.peek = c := by
  rw [rest] at h
  have hHead := congrArg List.head? h
  rw [List.head?_drop, List.head?_cons] at hHead
  rw [peek, List.getD_eq_getElem?_getD, hHead]
  rfl

theorem rest_of_isAtEnd (hNul : nul ∉ t.source) (h : t.isAtEnd = true) : t.rest = [] := by
  rcases hRest : t.rest with _ | ⟨c, s⟩
  · rfl
  · have hPeek := peek_of_rest hRest
    have hMem : c ∈ t.source := List.mem_of_mem_drop (hRest ▸ List.mem_cons_self)
    have hEq : t.peek = nul := by simpa [isAtEnd] using h
    rw [← hPeek, hEq] at hMem
    exact absurd hMem hNul

theorem isAtEnd_of_left (h : t.left = 0) : t.isAtEnd = true := by
  cases hEnd : t.isAtEnd with
  | true => rfl
  | false =>
    have hLeft := left_advanceChar hEnd
    omega

/-- A loop over characters stops at the end, or before another character. -/
theorem advanceWhile_stops {p : Char → Bool} {fuel : Nat} (h : t.left ≤ fuel) :
    (advanceWhile p fuel t).isAtEnd = true ∨ p (advanceWhile p fuel t).peek = false := by
  induction fuel generalizing t with
  | zero => exact .inl (isAtEnd_of_left (Nat.le_zero.1 h))
  | succ fuel ih =>
    rw [advanceWhile]
    split
    case isTrue hMore =>
      rw [Bool.and_eq_true, Bool.not_eq_true'] at hMore
      have hLeft := left_advanceChar hMore.1
      exact ih (by omega)
    case isFalse hStop =>
      rw [Bool.and_eq_true, Bool.not_eq_true', not_and_or, Bool.not_eq_false,
        Bool.not_eq_true] at hStop
      exact hStop

theorem skipWhile_advance {p : Char → Bool} (h : t.isAtEnd = false) (hp : p t.peek = true) :
    t.skipWhile p = t.advanceChar.skipWhile p := by
  rw [skipWhile, left_advanceChar h, advanceWhile, h, hp]
  rfl

/-- A line comment is read up to the newline, or the end. -/
theorem reads_lineComment (hNul : nul ∉ t.source) (h : t.peek = '/') (hNext : t.peekNext = '/') :
    ∃ x, '\n' ∉ x ∧ Reads t ('/' :: '/' :: x) (t.skipWhile (· != '\n')) ∧
      ((t.skipWhile (· != '\n')).rest = [] ∨
        (t.skipWhile (· != '\n')).rest.head? = some '\n') := by
  have hTwo := reads_advance_two h hNext (by decide) (by decide)
  have hEnd := not_isAtEnd_of_peek h (by decide)
  have hSecond : t.advanceChar.peek = '/' := (peek_advanceChar hEnd).trans hNext
  have hSkip : t.skipWhile (· != '\n') = t.advanceChar.advanceChar.skipWhile (· != '\n') := by
    rw [skipWhile_advance hEnd (by rw [h]; decide),
      skipWhile_advance (not_isAtEnd_of_peek hSecond (by decide)) (by rw [hSecond]; decide)]
  rw [hSkip]
  obtain ⟨x, hReads, hAll⟩ := reads_advanceWhile (· != '\n') t.advanceChar.advanceChar.left
    t.advanceChar.advanceChar
  have hReadsAll := hTwo.trans hReads
  refine ⟨x, fun hMem => absurd (hAll '\n' hMem) (by decide), hReadsAll, ?_⟩
  rcases advanceWhile_stops (p := (· != '\n')) (Nat.le_refl t.advanceChar.advanceChar.left) with
    hAtEnd | hNewline
  · exact .inl (rest_of_isAtEnd (hReadsAll.source ▸ hNul) hAtEnd)
  · rcases hRest : (t.advanceChar.advanceChar.skipWhile (· != '\n')).rest with _ | ⟨c, s⟩
    · exact .inl rfl
    · have hPeek := peek_of_rest hRest
      rw [skipWhile] at hPeek
      rw [hPeek] at hNewline
      exact .inr (by simpa using hNewline)

/-- No mark starts at a character that is not skipped with it. -/
theorem not_mark_cons {c : Char} {y : List Char} (hPeek : ¬ (c = '*' ∧ y.head? = some '/'))
    (h : ¬ ['*', '/'] <:+: y) : ¬ ['*', '/'] <:+: c :: y := by
  intro hMark
  rcases List.infix_cons_iff.1 hMark with ⟨z, hStart⟩ | hMark
  · obtain ⟨rfl, hTail⟩ := List.cons.inj hStart
    refine hPeek ⟨rfl, ?_⟩
    rw [← hTail]
    rfl
  · exact h hMark

theorem peekNext_of_rest (h : t.isAtEnd = false) {c : Char} (hHead : t.advanceChar.rest.head? = some c) :
    t.peekNext = c := by
  rcases hRest : t.advanceChar.rest with _ | ⟨d, s⟩
  · rw [hRest] at hHead
    exact nomatch hHead
  · rw [hRest] at hHead
    rw [← peek_advanceChar h, peek_of_rest hRest]
    exact Option.some.inj hHead

/-- The text of a block comment is read up to the first mark and with it, or to the end. -/
theorem skipBlockComment_reads {fuel : Nat} (hNul : nul ∉ t.source) (h : t.left ≤ fuel) :
    ∃ x, (Reads t (x ++ ['*', '/']) (skipBlockComment fuel t) ∧ ¬ ['*', '/'] <:+: x ++ ['*']) ∨
      (Reads t x (skipBlockComment fuel t) ∧ (skipBlockComment fuel t).rest = [] ∧
        ¬ ['*', '/'] <:+: x) := by
  induction fuel generalizing t with
  | zero =>
    have hEnd := isAtEnd_of_left (Nat.le_zero.1 h)
    exact ⟨[], .inr ⟨.refl t, rest_of_isAtEnd hNul hEnd, by decide⟩⟩
  | succ fuel ih =>
    rw [skipBlockComment]
    split
    case isTrue hEnd => exact ⟨[], .inr ⟨.refl t, rest_of_isAtEnd hNul hEnd, by decide⟩⟩
    case isFalse hEnd =>
      rw [Bool.not_eq_true] at hEnd
      split
      case isTrue hMark =>
        exact ⟨[], .inl ⟨reads_advance_two hMark.1 hMark.2 (by decide) (by decide),
          by decide⟩⟩
      case isFalse hMark =>
        have hFirst := reads_advanceChar hEnd
        have hLeft := left_advanceChar hEnd
        obtain ⟨x, ⟨hReads, hNot⟩ | ⟨hReads, hRest, hNot⟩⟩ :=
          ih (t := t.advanceChar) (hFirst.source ▸ hNul) (by omega)
        · refine ⟨t.peek :: x, .inl ⟨hFirst.trans hReads, not_mark_cons ?_ hNot⟩⟩
          rintro ⟨hStar, hSlash⟩
          refine hMark ⟨hStar, peekNext_of_rest hEnd ?_⟩
          rw [hReads.rest, ← hSlash]
          cases x <;> rfl
        · refine ⟨t.peek :: x, .inr ⟨hFirst.trans hReads, hRest, not_mark_cons ?_ hNot⟩⟩
          rintro ⟨hStar, hSlash⟩
          refine hMark ⟨hStar, peekNext_of_rest hEnd ?_⟩
          rw [hReads.rest, hRest, List.append_nil, hSlash]

/-- Blanks and comments are skipped, and nothing else. -/
theorem skipWhitespaceFrom_reads (fuel : Nat) (hNul : nul ∉ t.source) :
    ∃ s, Reads t s (skipWhitespaceFrom fuel t) ∧ Blanks s (skipWhitespaceFrom fuel t).rest := by
  induction fuel generalizing t with
  | zero => exact ⟨[], .refl t, .nil⟩
  | succ fuel ih =>
    rw [skipWhitespaceFrom]
    split
    case isTrue hBlank =>
      have hMem : t.peek ∈ blankChars := by simpa [blankChars] using hBlank
      have hEnd : t.isAtEnd = false :=
        not_isAtEnd_of_peek rfl fun hEq => absurd (hEq ▸ hMem) (by decide)
      have hFirst := reads_advanceChar hEnd
      obtain ⟨s, hReads, hBlanks⟩ := ih (t := t.advanceChar) (hFirst.source ▸ hNul)
      exact ⟨t.peek :: s, hFirst.trans hReads, .blank hMem hBlanks⟩
    case isFalse =>
      split
      case isTrue hLine =>
        obtain ⟨x, hNewline, hFirst, hEnd⟩ := reads_lineComment hNul hLine.1 hLine.2
        obtain ⟨s, hReads, hBlanks⟩ :=
          ih (t := t.skipWhile (· != '\n')) (hFirst.source ▸ hNul)
        rw [hReads.rest] at hEnd
        exact ⟨'/' :: '/' :: x ++ s, hFirst.trans hReads, .line hNewline hEnd hBlanks⟩
      case isFalse =>
        split
        case isTrue hBlock =>
          have hTwo := reads_advance_two hBlock.1 hBlock.2 (by decide) (by decide)
          have hNul' : nul ∉ t.advanceChar.advanceChar.source := hTwo.source ▸ hNul
          obtain ⟨x, ⟨hComment, hNot⟩ | ⟨hComment, hRest, hNot⟩⟩ :=
            skipBlockComment_reads hNul' (Nat.le_refl t.advanceChar.advanceChar.left)
          · have hFirst := hTwo.trans hComment
            obtain ⟨s, hReads, hBlanks⟩ := ih (hFirst.source ▸ hNul)
            refine ⟨'/' :: '*' :: (x ++ '*' :: '/' :: s), ?_, .block hNot hBlanks⟩
            simpa [List.append_assoc] using hFirst.trans hReads
          · have hFirst := hTwo.trans hComment
            obtain ⟨s, hReads, hBlanks⟩ := ih (hFirst.source ▸ hNul)
            rw [hReads.rest, List.append_eq_nil_iff] at hRest
            obtain ⟨rfl, hAfter⟩ := hRest
            refine ⟨'/' :: '*' :: x, ?_, hAfter ▸ .unclosed hNot⟩
            simpa using hFirst.trans hReads
        case isFalse => exact ⟨[], .refl t, .nil⟩

/-- A call reads blanks and comments, and a token. -/
theorem tokenizerNext_reads (hNul : nul ∉ t.source) :
    ∃ s, Reads t s (skipWhitespace t) ∧ Blanks s (skipWhitespace t).rest ∧
      ReadsToken (skipWhitespace t) (tokenizerNext t) := by
  obtain ⟨s, hReads, hBlanks⟩ := skipWhitespaceFrom_reads (t.left + 1) hNul
  exact ⟨s, hReads, hBlanks, readsToken_tokenizerScan _⟩

end Skip

/-! ## Runs -/

/-- The state after some calls of `tokenizer_next`. -/
def tokenizerAfter (source : List Char) : Nat → Tokenizer
  | 0 => tokenizerInit source
  | n + 1 => (tokenizerNext (tokenizerAfter source n)).2

/-- The token of one of the calls, which are counted from zero. -/
def tokenOf (source : List Char) (n : Nat) : Token := (tokenizerNext (tokenizerAfter source n)).1

/-- The position in the source where a token starts. -/
def Token.offset (source : List Char) (tok : Token) : Nat := source.length - tok.start.length

def Token.stop (source : List Char) (tok : Token) : Nat := tok.offset source + tok.length

/-- Every call keeps its bounds and finds its token where it says, and the calls end. The place
of a token, also of an error, is that of the first character after the blanks. -/
structure Lossless (source : List Char) : Prop where
  ends : ∃ n ≤ source.length,
    (tokenOf source n).type = .tokEof ∨ (tokenOf source n).type = .tokError
  position : ∀ n, (tokenizerAfter source n).current ≤ source.length
  stack : ∀ n, StackOk (tokenizerAfter source n)
  counters : ∀ n, (tokenizerAfter source n).line ≤ source.length + 1 ∧
    (tokenizerAfter source n).column ≤ source.length + 1
  span : ∀ n, (tokenOf source n).type ≠ .tokError →
    (tokenOf source n).start = source.drop ((tokenOf source n).offset source) ∧
      (tokenOf source n).stop source ≤ source.length
  offset : ∀ n, (tokenOf source n).type ≠ .tokError →
    (tokenOf source n).offset source = (skipWhitespace (tokenizerAfter source n)).current
  place : ∀ n, ((tokenOf source n).line, (tokenOf source n).column) =
    placeAfter (source.take (skipWhitespace (tokenizerAfter source n)).current) (1, 1)
  ordered : ∀ m n, m < n → (tokenOf source m).type ≠ .tokError →
    (tokenOf source n).type ≠ .tokError →
      (tokenOf source m).stop source ≤ (tokenOf source n).offset source
  before : (tokenOf source 0).type ≠ .tokError →
    Blanks (source.take ((tokenOf source 0).offset source)) (tokenOf source 0).start
  between : ∀ n, (tokenOf source n).type ≠ .tokError →
    (tokenOf source (n + 1)).type ≠ .tokError →
      ∃ s, Blanks s (tokenOf source (n + 1)).start ∧
        (source.drop ((tokenOf source n).stop source)).take
          ((tokenOf source (n + 1)).offset source - (tokenOf source n).stop source) =
          (tokenOf source n).type.opening ++ s

section Runs

variable {source : List Char}

theorem stackOk_tokenizerInit (source : List Char) : StackOk (tokenizerInit source) := by
  have hDepth : (0 : Int) ≤ tokenizerMaxTemplateDepth := by decide
  refine ⟨Int.le_refl 0, hDepth, List.length_replicate, fun b hb => ?_⟩
  obtain rfl := List.eq_of_mem_replicate hb
  exact ⟨Int.le_refl 0, Int.natCast_nonneg _⟩

/-- A state that is reached from the start of a source. -/
def FromStart (source : List Char) (t : Tokenizer) : Prop :=
  ∃ s, Moves (tokenizerInit source) s t ∧ StackOk t

theorem Step.fromStart {t t' : Tokenizer} (h : FromStart source t) (hStep : Step t t') :
    FromStart source t' := by
  obtain ⟨s, hMoves, hStack⟩ := h
  obtain ⟨s', hMoves'⟩ := hStep.moves
  exact ⟨s ++ s', hMoves.trans hMoves', hStep.stack hStack⟩

section Reached

variable {t : Tokenizer}

theorem FromStart.source_eq (h : FromStart source t) : t.source = source := by
  obtain ⟨s, hMoves, -⟩ := h
  exact hMoves.source

theorem FromStart.current (h : FromStart source t) : t.current ≤ source.length := by
  obtain ⟨s, hMoves, -⟩ := h
  have hRest : source = s ++ t.rest := hMoves.rest
  have hCurrent : t.current = 0 + s.length := hMoves.current
  rw [hRest, List.length_append]
  omega

theorem FromStart.place (h : FromStart source t) :
    (t.line, t.column) = placeAfter (source.take t.current) (1, 1) := by
  obtain ⟨s, hMoves, -⟩ := h
  have hRest : source = s ++ t.rest := hMoves.rest
  have hCurrent : t.current = 0 + s.length := hMoves.current
  rw [Nat.zero_add] at hCurrent
  have hTake : source.take t.current = s := by
    rw [hCurrent, hRest, List.take_left]
  rw [hTake]
  exact hMoves.place

theorem placeAfter_le (s : List Char) (line col : Nat) :
    (placeAfter s (line, col)).1 ≤ line + s.length ∧
      (placeAfter s (line, col)).2 ≤ max 1 col + s.length := by
  induction s generalizing line col with
  | nil => exact ⟨Nat.le_refl _, Nat.le_max_right 1 col⟩
  | cons c s ih =>
    rw [placeAfter, List.length_cons]
    split
    · have hRest := ih (line + 1) 1
      omega
    · have hRest := ih line (col + 1)
      omega

theorem FromStart.counters (h : FromStart source t) :
    t.line ≤ source.length + 1 ∧ t.column ≤ source.length + 1 := by
  have hLe := placeAfter_le (source.take t.current) 1 1
  rw [← h.place, List.length_take] at hLe
  omega

/-- Where a token is that starts at a reached state. -/
theorem FromStart.offset {tok : Token} {s : List Char} (h : FromStart source t)
    (hTok : tok.IsAt t s) : tok.start = t.rest ∧ tok.length = s.length ∧
      tok.offset source = t.current := by
  have hCurrent := h.current
  rw [Token.offset, hTok, rest, h.source_eq, List.length_drop]
  exact ⟨rfl, rfl, by omega⟩

end Reached

theorem fromStart_tokenizerAfter (hNul : nul ∉ source) (n : Nat) :
    FromStart source (tokenizerAfter source n) := by
  induction n with
  | zero => exact ⟨[], (Reads.refl _).toMoves, stackOk_tokenizerInit source⟩
  | succ n ih =>
    obtain ⟨s, hReads, -, hToken⟩ := tokenizerNext_reads (ih.source_eq ▸ hNul)
    exact (hReads.step.trans hToken.step).fromStart ih

/-- One call: blanks and comments, then the token. -/
theorem call_reads (hNul : nul ∉ source) (n : Nat) :
    ∃ t s, t = skipWhitespace (tokenizerAfter source n) ∧ Reads (tokenizerAfter source n) s t ∧
      Blanks s t.rest ∧ FromStart source t ∧ ReadsToken t (tokenOf source n, tokenizerAfter source (n + 1)) := by
  have hStart := fromStart_tokenizerAfter hNul n
  obtain ⟨s, hReads, hBlanks, hToken⟩ := tokenizerNext_reads (hStart.source_eq ▸ hNul)
  exact ⟨skipWhitespace (tokenizerAfter source n), s, rfl, hReads, hBlanks,
    hReads.step.fromStart hStart, hToken⟩

/-- Where the token of a call is, between the states around it. -/
theorem call_span (hNul : nul ∉ source) {n : Nat} (hType : (tokenOf source n).type ≠ .tokError) :
    ∃ t gap s, Reads (tokenizerAfter source n) gap t ∧ Blanks gap t.rest ∧ FromStart source t ∧
      Moves t (s ++ (tokenOf source n).type.opening) (tokenizerAfter source (n + 1)) ∧
      (tokenOf source n).IsAt t s ∧ (s = [] → (tokenOf source n).type = .tokEof) ∧
      (tokenOf source n).stop source = t.current + s.length := by
  obtain ⟨t, gap, -, hReads, hBlanks, hStart, hToken⟩ := call_reads hNul n
  obtain ⟨s, hMoves, hTok, hEof⟩ := hToken.token.resolve_left hType
  obtain ⟨-, hLength, hOffset⟩ := hStart.offset hTok
  refine ⟨t, gap, s, hReads, hBlanks, hStart, hMoves, hTok, hEof, ?_⟩
  rw [Token.stop, hOffset, hLength]

theorem current_tokenizerAfter_succ (hNul : nul ∉ source) (n : Nat) :
    (tokenizerAfter source n).current ≤ (tokenizerAfter source (n + 1)).current := by
  obtain ⟨t, gap, -, hReads, -, -, hToken⟩ := call_reads hNul n
  obtain ⟨s, hMoves⟩ := hToken.step.moves
  have hFirst := hReads.current
  have hNext := hMoves.current
  dsimp only at hNext
  omega

theorem current_tokenizerAfter (hNul : nul ∉ source) {m n : Nat} (h : m ≤ n) :
    (tokenizerAfter source m).current ≤ (tokenizerAfter source n).current := by
  induction h with
  | refl => exact Nat.le_refl _
  | step _ ih => exact Nat.le_trans ih (current_tokenizerAfter_succ hNul _)

/-- As long as no token ends the source, every call reads something. -/
theorem le_current_tokenizerAfter (hNul : nul ∉ source) {n : Nat}
    (h : ∀ m < n, (tokenOf source m).type ≠ .tokEof ∧ (tokenOf source m).type ≠ .tokError) :
    n ≤ (tokenizerAfter source n).current := by
  induction n with
  | zero => exact Nat.zero_le _
  | succ n ih =>
    have hBefore := ih fun m hm => h m (Nat.lt_succ_of_lt hm)
    obtain ⟨hEof, hError⟩ := h n (Nat.lt_succ_self n)
    obtain ⟨t, gap, s, hReads, -, -, hMoves, -, hEmpty, -⟩ := call_span hNul hError
    have hPos : 0 < s.length := List.length_pos_iff.2 fun hNil => hEof (hEmpty hNil)
    have hFirst := hReads.current
    have hNext := hMoves.current
    rw [List.length_append] at hNext
    omega

/-- Some call ends the source. -/
theorem exists_end (hNul : nul ∉ source) : ∃ n ≤ source.length,
    (tokenOf source n).type = .tokEof ∨ (tokenOf source n).type = .tokError := by
  refine Classical.byContradiction fun hNone => ?_
  have hAll : ∀ m < source.length + 1,
      (tokenOf source m).type ≠ .tokEof ∧ (tokenOf source m).type ≠ .tokError := by
    intro m hm
    refine not_or.1 fun hEnd => hNone ⟨m, Nat.le_of_lt_succ hm, hEnd⟩
  have hLe := le_current_tokenizerAfter hNul hAll
  have hCurrent := (fromStart_tokenizerAfter hNul (source.length + 1)).current
  omega

/-- Tokens come in the order of their calls. -/
theorem stop_le_offset (hNul : nul ∉ source) {m n : Nat} (h : m < n)
    (hm : (tokenOf source m).type ≠ .tokError) (hn : (tokenOf source n).type ≠ .tokError) :
    (tokenOf source m).stop source ≤ (tokenOf source n).offset source := by
  obtain ⟨t, gap, s, -, -, -, hMoves, -, -, hStop⟩ := call_span hNul hm
  obtain ⟨t', gap', s', hReads', -, hStart', -, hTok', -⟩ := call_span hNul hn
  obtain ⟨-, -, hOffset⟩ := hStart'.offset hTok'
  have hCurrent : (tokenizerAfter source (m + 1)).current ≤ (tokenizerAfter source n).current :=
    current_tokenizerAfter hNul h
  have hNext := hMoves.current
  have hGap := hReads'.current
  rw [List.length_append] at hNext
  rw [hStop, hOffset]
  omega

/-- Between two tokens stand the opening of an interpolation, blanks and comments. -/
theorem between_tokens (hNul : nul ∉ source) {n : Nat} (hn : (tokenOf source n).type ≠ .tokError)
    (hNext : (tokenOf source (n + 1)).type ≠ .tokError) :
    ∃ s, Blanks s (tokenOf source (n + 1)).start ∧
      (source.drop ((tokenOf source n).stop source)).take
        ((tokenOf source (n + 1)).offset source - (tokenOf source n).stop source) =
        (tokenOf source n).type.opening ++ s := by
  obtain ⟨t, gap, s, -, -, hStart, hMoves, -, -, hStop⟩ := call_span hNul hn
  obtain ⟨t', gap', s', hReads', hBlanks', hStart', -, hTok', -⟩ := call_span hNul hNext
  obtain ⟨hRest', -, hOffset'⟩ := hStart'.offset hTok'
  refine ⟨gap', hRest' ▸ hBlanks', ?_⟩
  have hDrop : source.drop (t.current + s.length) =
      ((tokenOf source n).type.opening ++ gap') ++ t'.rest := by
    have hRest := hMoves.rest
    rw [hReads'.rest, rest, hStart.source_eq] at hRest
    rw [← List.drop_drop, hRest, List.append_assoc, List.append_assoc, List.drop_left]
  have hLength : t'.current - (t.current + s.length) =
      ((tokenOf source n).type.opening ++ gap').length := by
    have hSecond := hMoves.current
    have hGap := hReads'.current
    rw [List.length_append] at hSecond ⊢
    omega
  rw [hStop, hOffset', hDrop, hLength, List.take_left]

end Runs

/-- The tokenizer is lossless on every text of a C string. -/
theorem lossless {source : List Char} (hNul : nul ∉ source) : Lossless source where
  ends := exists_end hNul
  position n := (fromStart_tokenizerAfter hNul n).current
  stack n := (fromStart_tokenizerAfter hNul n).choose_spec.2
  counters n := (fromStart_tokenizerAfter hNul n).counters
  span n hn := by
    obtain ⟨t, gap, s, -, -, hStart, hMoves, hTok, -, hStop⟩ := call_span hNul hn
    obtain ⟨hRest, -, hOffset⟩ := hStart.offset hTok
    have hCurrent := (fromStart_tokenizerAfter hNul (n + 1)).current
    have hNext := hMoves.current
    rw [List.length_append] at hNext
    refine ⟨?_, by omega⟩
    rw [hRest, hOffset, rest, hStart.source_eq]
  offset n hn := by
    obtain ⟨t, gap, rfl, -, -, hStart, hToken⟩ := call_reads hNul n
    obtain ⟨s, -, hTok, -⟩ := hToken.token.resolve_left hn
    exact (hStart.offset hTok).2.2
  place n := by
    obtain ⟨t, gap, rfl, -, -, hStart, hToken⟩ := call_reads hNul n
    obtain ⟨hLine, hColumn⟩ := hToken.place
    rw [hLine, hColumn]
    exact hStart.place
  ordered m n h hm hn := stop_le_offset hNul h hm hn
  before h := by
    obtain ⟨t, gap, s, hReads, hBlanks, hStart, -, hTok, -⟩ := call_span hNul h
    obtain ⟨hRest, -, hOffset⟩ := hStart.offset hTok
    have hGap : source.take t.current = gap := by
      have hAll : source = gap ++ t.rest := hReads.rest
      have hCurrent : t.current = 0 + gap.length := hReads.current
      rw [hCurrent, Nat.zero_add]
      exact (congrArg (List.take gap.length) hAll).trans List.take_left
    rw [hOffset, hGap, hRest]
    exact hBlanks
  between n hn hNext := between_tokens hNul hn hNext

theorem lossless_letterTemplate : nul ∉ ['\x60', 'a', '\x60'] ∧ Lossless ['\x60', 'a', '\x60'] :=
  ⟨by decide, lossless (by decide)⟩

end Calynda
