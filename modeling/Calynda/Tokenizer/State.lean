import Mathlib.Data.List.GetD

/-!
# Tokenizer state

A tokenizer is a read position in a NUL-terminated source, with the line and column of that
position and a stack of brace counters for the template literals around it. Characters are bytes,
each given by the character with its code.
-/

namespace Calynda

inductive TokenType where
  | tokEof | tokError
  | tokIntLit | tokFloatLit | tokCharLit | tokStringLit
  | tokTemplateStart | tokTemplateMiddle | tokTemplateEnd | tokTemplateFull
  | tokIdentifier
  | tokPackage | tokImport | tokStart | tokBoot | tokExtern | tokVar | tokPublic | tokPrivate
  | tokFinal | tokVoid | tokReturn | tokExit | tokThrow | tokTrue | tokFalse | tokNull | tokExport
  | tokAs | tokInternal | tokStatic | tokUnion | tokManual | tokArr | tokMalloc | tokCalloc
  | tokRealloc | tokFree
  | tokInt8 | tokInt16 | tokInt32 | tokInt64 | tokUint8 | tokUint16 | tokUint32 | tokUint64
  | tokFloat32 | tokFloat64 | tokBool | tokChar | tokString | tokByte | tokSbyte | tokShort
  | tokInt | tokLong | tokUlong | tokUint | tokFloat | tokDouble
  | tokLparen | tokRparen | tokLbrace | tokRbrace | tokLbracket | tokRbracket | tokSemicolon
  | tokComma | tokDot | tokEllipsis | tokArrow | tokQuestion | tokColon | tokUnderscore
  | tokDollarLbrace
  | tokAssign | tokPlusAssign | tokMinusAssign | tokStarAssign | tokSlashAssign | tokPercentAssign
  | tokAmpAssign | tokPipeAssign | tokCaretAssign | tokLshiftAssign | tokRshiftAssign
  | tokEq | tokNeq | tokLt | tokGt | tokLte | tokGte
  | tokLogicOr | tokLogicAnd
  | tokPipe | tokAmp | tokCaret | tokTilde | tokTildeAmp | tokTildeCaret
  | tokLshift | tokRshift
  | tokPlus | tokPlusPlus | tokMinus | tokMinusMinus | tokStar | tokSlash | tokPercent
  | tokBang
  | tokComponent | tokSignal
  deriving DecidableEq, Repr

/-- A token: its text is the `length` characters from `start` on. -/
structure Token where
  type : TokenType
  start : List Char
  length : Nat
  line : Nat
  column : Nat
  deriving DecidableEq, Repr

def Token.text (tok : Token) : List Char := tok.start.take tok.length

def tokenizerMaxTemplateDepth : Int := 32

structure Tokenizer where
  source : List Char
  current : Nat
  line : Nat
  column : Nat
  templateDepth : Int
  interpolationBraceDepth : List Int
  deriving DecidableEq, Repr

/-- The terminator of the source. -/
def nul : Char := Char.ofNat 0

namespace Tokenizer

variable (t : Tokenizer)

/-- The text from the read position on. -/
def rest : List Char := t.source.drop t.current

def peek : Char := t.source.getD t.current nul

def isAtEnd : Bool := t.peek == nul

def peekNext : Char := if t.isAtEnd then nul else t.source.getD (t.current + 1) nul

def advanceChar : Tokenizer :=
  if t.peek = '\n' then { t with current := t.current + 1, line := t.line + 1, column := 1 }
  else { t with current := t.current + 1, column := t.column + 1 }

/-- `match_char`, for the two uses of its result. -/
def matchChar (expected : Char) : Option Tokenizer :=
  if t.isAtEnd || t.peek != expected then none else some t.advanceChar

def advanceWhile (p : Char → Bool) : Nat → Tokenizer → Tokenizer
  | 0, t => t
  | fuel + 1, t => if !t.isAtEnd && p t.peek then advanceWhile p fuel t.advanceChar else t

/-- The characters that are left, enough for any loop over them. -/
def left : Nat := t.source.length - t.current

def skipWhile (p : Char → Bool) : Tokenizer := advanceWhile p t.left t

/-- The index of the innermost interpolation. -/
def innermost : Nat := (t.templateDepth - 1).toNat

/-- The open braces of the innermost interpolation. -/
def braceDepth : Int := t.interpolationBraceDepth.getD t.innermost 0

/-- A token from position `start` to the read position. -/
def makeToken (type : TokenType) (start line col : Nat) : Token where
  type := type
  start := t.source.drop start
  length := t.current - start
  line := line
  column := col

end Tokenizer

def errorToken (message : String) (line col : Nat) : Token where
  type := .tokError
  start := message.toList
  length := message.length
  line := line
  column := col

/-! ## Reading text -/

/-- The line and the column after some text. -/
def placeAfter : List Char → Nat × Nat → Nat × Nat
  | [], place => place
  | c :: s, (line, col) => placeAfter s (if c = '\n' then (line + 1, 1) else (line, col + 1))

theorem placeAfter_append (s s' : List Char) (place : Nat × Nat) :
    placeAfter (s ++ s') place = placeAfter s' (placeAfter s place) := by
  induction s generalizing place with
  | nil => rfl
  | cons c s ih => exact ih _

/-- From `t` to `t'` the text `s` is read. -/
structure Moves (t : Tokenizer) (s : List Char) (t' : Tokenizer) : Prop where
  source : t'.source = t.source
  rest : t.rest = s ++ t'.rest
  current : t'.current = t.current + s.length
  place : (t'.line, t'.column) = placeAfter s (t.line, t.column)

/-- From `t` to `t'` the text `s` is read, and the stack of templates stays. -/
structure Reads (t : Tokenizer) (s : List Char) (t' : Tokenizer) : Prop extends Moves t s t' where
  depth : t'.templateDepth = t.templateDepth
  braces : t'.interpolationBraceDepth = t.interpolationBraceDepth

section Moves

variable {t t' t'' : Tokenizer} {s s' : List Char}

theorem Moves.trans (h : Moves t s t') (h' : Moves t' s' t'') : Moves t (s ++ s') t'' where
  source := h'.source.trans h.source
  rest := by rw [h.rest, h'.rest, List.append_assoc]
  current := by rw [h'.current, h.current, List.length_append, Nat.add_assoc]
  place := by rw [h'.place, h.place, placeAfter_append]

theorem Reads.refl (t : Tokenizer) : Reads t [] t := ⟨⟨rfl, rfl, rfl, rfl⟩, rfl, rfl⟩

theorem Reads.trans (h : Reads t s t') (h' : Reads t' s' t'') : Reads t (s ++ s') t'' where
  toMoves := h.toMoves.trans h'.toMoves
  depth := h'.depth.trans h.depth
  braces := h'.braces.trans h.braces

end Moves

namespace Tokenizer

variable {t : Tokenizer}

theorem rest_of_not_isAtEnd (h : t.isAtEnd = false) :
    t.rest = t.peek :: t.source.drop (t.current + 1) := by
  unfold isAtEnd peek at h
  have hLt : t.current < t.source.length := by
    refine Nat.lt_of_not_le fun hLe => ?_
    rw [List.getD_eq_default _ _ hLe] at h
    exact absurd h (by decide)
  rw [rest, List.drop_eq_getElem_cons hLt, peek, List.getD_eq_getElem _ _ hLt]

/-- Before the terminator one character is read. -/
theorem reads_advanceChar (h : t.isAtEnd = false) : Reads t [t.peek] t.advanceChar := by
  have hRest := rest_of_not_isAtEnd h
  unfold advanceChar
  split
  case isTrue hNewline =>
    exact ⟨⟨rfl, hRest, rfl, by simp [placeAfter, hNewline]⟩, rfl, rfl⟩
  case isFalse hOther =>
    exact ⟨⟨rfl, hRest, rfl, by simp [placeAfter, hOther]⟩, rfl, rfl⟩

theorem left_eq (t : Tokenizer) : t.left = t.rest.length := by
  rw [left, rest, List.length_drop]

theorem left_advanceChar (h : t.isAtEnd = false) : t.left = t.advanceChar.left + 1 := by
  rw [left_eq, left_eq, (reads_advanceChar h).rest]
  rfl

theorem reads_advanceWhile (p : Char → Bool) (fuel : Nat) (t : Tokenizer) :
    ∃ s, Reads t s (advanceWhile p fuel t) ∧ ∀ c ∈ s, p c = true := by
  induction fuel generalizing t with
  | zero => exact ⟨[], .refl t, fun _ hc => absurd hc List.not_mem_nil⟩
  | succ fuel ih =>
    rw [advanceWhile]
    split
    case isTrue h =>
      rw [Bool.and_eq_true, Bool.not_eq_true'] at h
      obtain ⟨s, hReads, hAll⟩ := ih t.advanceChar
      refine ⟨t.peek :: s, (reads_advanceChar h.1).trans hReads, fun c hc => ?_⟩
      rcases List.mem_cons.1 hc with rfl | hc
      · exact h.2
      · exact hAll c hc
    case isFalse h => exact ⟨[], .refl t, fun _ hc => absurd hc List.not_mem_nil⟩

theorem reads_matchChar {t' : Tokenizer} {c : Char} (h : t.matchChar c = some t') :
    Reads t [c] t' := by
  unfold matchChar at h
  split at h
  case isTrue _ => exact nomatch h
  case isFalse hNot =>
    rw [Bool.not_eq_true, Bool.or_eq_false_iff] at hNot
    have hPeek : t.peek = c := by simpa using hNot.2
    obtain rfl := Option.some.inj h
    exact hPeek ▸ reads_advanceChar hNot.1

end Tokenizer

end Calynda
