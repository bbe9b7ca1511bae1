import Calynda.Lib.CString

/-!
# String literals and formats of C

A string literal denotes its characters, with its escapes replaced. A literal is no text of
another one when it has a quote or a newline in it, or ends inside of an escape. A format is
printed with the values of its directives.
-/

namespace CString

/-! ## Literals -/

def simpleEscape : Char → Option Char
  | 'n' => some '\n'
  | 't' => some '\t'
  | 'r' => some '\r'
  | 'a' => some (Char.ofNat 7)
  | 'b' => some (Char.ofNat 8)
  | 'f' => some (Char.ofNat 12)
  | 'v' => some (Char.ofNat 11)
  | '\\' => some '\\'
  | '\'' => some '\''
  | '"' => some '"'
  | '?' => some '?'
  | _ => none

def isOctal (c : Char) : Bool := '0' ≤ c && c ≤ '7'

def isHex (c : Char) : Bool :=
  c.isDigit || ('a' ≤ c && c ≤ 'f') || ('A' ≤ c && c ≤ 'F')

/-- The character of an escape, and the text behind it: a letter, up to three octal digits, or
hexadecimal digits behind an `x`. -/
def escapeAt : List Char → Option (Char × List Char)
  | [] => none
  | c :: rest =>
    if isOctal c then
      let digits := (c :: rest.take 2).takeWhile isOctal
      some (Char.ofNat (FormatText.numberOf 8 digits % 256), (c :: rest).drop digits.length)
    else if c = 'x' then
      let digits := rest.takeWhile isHex
      if digits = [] then none
      else some (Char.ofNat (FormatText.numberOf 16 (digits.map Char.toLower) % 256),
        rest.dropWhile isHex)
    else (simpleEscape c).map fun d => (d, rest)

def literalFrom : Nat → List Char → Option (List Char)
  | 0, _ => none
  | _ + 1, [] => some []
  | fuel + 1, c :: rest =>
    if c = '"' ∨ c = '\n' then none
    else if c = '\\' then
      (escapeAt rest).bind fun (d, after) => (literalFrom fuel after).map (d :: ·)
    else (literalFrom fuel rest).map (c :: ·)

/-- What a string literal denotes, of which the text between the quotes is given. -/
def literal (s : List Char) : Option (List Char) := literalFrom (s.length + 1) s

/-- A text that stands for itself between quotes. -/
def Unescaped (s : List Char) : Prop := ∀ c ∈ s, c ≠ '"' ∧ c ≠ '\\' ∧ c ≠ '\n'

section Literals

variable {s t : List Char} {fuel : Nat}

theorem literalFrom_of_unescaped (hFuel : s.length < fuel) (h : Unescaped s) :
    literalFrom fuel s = some s := by
  induction s generalizing fuel with
  | nil =>
    obtain ⟨fuel, rfl⟩ : ∃ k, fuel = k + 1 := ⟨fuel - 1, by omega⟩
    rfl
  | cons c rest ih =>
    obtain ⟨fuel, rfl⟩ : ∃ k, fuel = k + 1 := ⟨fuel - 1, by omega⟩
    rw [List.length_cons] at hFuel
    obtain ⟨hQuote, hBackslash, hNewline⟩ := h c List.mem_cons_self
    have hRest : literalFrom fuel rest = some rest :=
      ih (by omega) fun d hd => h d (List.mem_cons_of_mem c hd)
    rw [literalFrom, if_neg (not_or.2 ⟨hQuote, hNewline⟩), if_neg hBackslash, hRest]
    rfl

theorem length_escapeAt {d : Char} {after : List Char} (h : escapeAt s = some (d, after)) :
    after.length < s.length := by
  cases s with
  | nil => exact nomatch h
  | cons c rest =>
    rw [escapeAt] at h
    dsimp only at h
    split at h
    case isTrue hOctal =>
      have hDigits : ((c :: rest.take 2).takeWhile isOctal).length ≠ 0 := by
        rw [List.takeWhile_cons_of_pos hOctal]
        exact nofun
      cases h
      rw [List.length_drop, List.length_cons]
      omega
    case isFalse =>
      split at h
      · split at h
        · exact nomatch h
        · cases h
          exact Nat.lt_succ_of_le (List.dropWhile_suffix isHex).length_le
      · obtain ⟨d', -, hEq⟩ := Option.map_eq_some_iff.1 h
        cases hEq
        exact Nat.lt_succ_self _

/-- An escape is longer than its character. -/
theorem literalFrom_length (h : literalFrom fuel s = some t) :
    t.length ≤ s.length ∧ (t.length = s.length → Unescaped s) := by
  induction fuel generalizing s t with
  | zero => exact nomatch h
  | succ fuel ih =>
    cases s with
    | nil =>
      cases h
      exact ⟨Nat.le_refl _, fun _ c hc => absurd hc List.not_mem_nil⟩
    | cons c rest =>
      rw [literalFrom] at h
      split at h
      case isTrue => exact nomatch h
      case isFalse hPlain =>
        split at h
        case isTrue =>
          obtain ⟨⟨d, after⟩, hEscape, hAfter⟩ := Option.bind_eq_some_iff.1 h
          obtain ⟨u, hU, rfl⟩ := Option.map_eq_some_iff.1 hAfter
          have hShort := length_escapeAt hEscape
          have hLe := (ih hU).1
          rw [List.length_cons, List.length_cons]
          exact ⟨by omega, fun hEq => by omega⟩
        case isFalse hBackslash =>
          obtain ⟨u, hU, rfl⟩ := Option.map_eq_some_iff.1 h
          obtain ⟨hLe, hSame⟩ := ih hU
          rw [List.length_cons, List.length_cons]
          refine ⟨by omega, fun hEq d hd => ?_⟩
          rcases List.mem_cons.1 hd with rfl | hd
          · rw [not_or] at hPlain
            exact ⟨hPlain.1, hBackslash, hPlain.2⟩
          · exact hSame (by omega) d hd

/-- A literal denotes the text that it is written with exactly where nothing in it is special. -/
theorem literal_eq_self_iff : literal s = some s ↔ Unescaped s :=
  ⟨fun h => (literalFrom_length h).2 rfl, literalFrom_of_unescaped (Nat.lt_succ_self _)⟩

end Literals

/-! ## Formats -/

def decimal (v : Int) : List Char :=
  if v < 0 then '-' :: Nat.toDigits 10 v.natAbs else Nat.toDigits 10 v.natAbs

/-- What is printed with a format and the values of its arguments; nothing where a directive has
no argument, or is another one. -/
def printf : List Char → List Int → Option (List Char)
  | [], _ => some []
  | '%' :: 'd' :: fmt, v :: vs => (printf fmt vs).map (decimal v ++ ·)
  | '%' :: '%' :: fmt, vs => (printf fmt vs).map ('%' :: ·)
  | '%' :: _, _ => none
  | c :: fmt, vs => (printf fmt vs).map (c :: ·)

section Formats

variable {fmt : List Char} {vs : List Int}

theorem printf_char {c : Char} (h : c ≠ '%') :
    printf (c :: fmt) vs = (printf fmt vs).map (c :: ·) := by
  rw [printf]
  all_goals
    intros
    exact h ‹_›

theorem printf_directive (v : Int) :
    printf ('%' :: 'd' :: fmt) (v :: vs) = (printf fmt vs).map (decimal v ++ ·) := rfl

end Formats

end CString
