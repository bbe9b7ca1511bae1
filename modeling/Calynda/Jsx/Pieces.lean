import Calynda.Jsx.Rewrite

/-!
# Pieces of a text

Where `rewrite_signal_expr` finds a call of a signal or a setter it replaces it, and everything
else it copies. The pieces of a text say what it finds where. A setter whose parenthesis is never
closed is the last piece: the scan goes on behind the terminator.
-/

namespace Calynda.Jsx

inductive Pieces where
  | done
  | char (c : Char) (rest : Pieces)
  | getter (name : CText) (rest : Pieces)
  | setter (name arg : CText) (inner rest : Pieces)
  | unclosed (name arg : CText) (inner : Pieces)
  deriving DecidableEq

/-- The pieces that the loop of `rewrite_signal_expr` finds, after a character. -/
def piecesOf (signals : List SignalInfo) : Nat → Option Char → CText → Pieces
  | 0, _, _ => .done
  | _ + 1, _, [] => .done
  | fuel + 1, prev, c :: rest =>
    match setterAt signals (c :: rest) with
    | some (name, args) =>
      match closeParen 1 args with
      | some (arg, after) =>
        .setter name arg (piecesOf signals fuel none arg) (piecesOf signals fuel (some ')') after)
      | none => .unclosed name args (piecesOf signals fuel none args)
    | none =>
      match getterAt signals prev (c :: rest) with
      | some (name, after) => .getter name (piecesOf signals fuel (some ')') after)
      | none => .char c (piecesOf signals fuel (some c) rest)

def pieces (signals : List SignalInfo) (raw : CText) : Pieces :=
  piecesOf signals (raw.length + 1) none raw

def getterText (name : CText) : CText :=
  "(int)solite_signal_get(sig_".toList ++ name ++ ")".toList

/-- A setter up to its rewritten argument. -/
def setterHead (name : CText) : CText :=
  "solite_signal_set(sig_".toList ++ name ++ ", (CalyndaRtWord)(".toList

namespace Pieces

/-- The text that is written for the pieces. -/
def render : Pieces → CText
  | done => []
  | char c rest => c :: rest.render
  | getter name rest => getterText name ++ rest.render
  | setter name _ inner rest => setterHead name ++ inner.render ++ "))".toList ++ rest.render
  | unclosed name _ inner => setterHead name ++ inner.render ++ "))".toList

/-- Every setter has its parenthesis closed. -/
def closed : Pieces → Bool
  | done => true
  | char _ rest | getter _ rest => rest.closed
  | setter _ _ inner rest => inner.closed && rest.closed
  | unclosed _ _ _ => false

end Pieces

/-! ## Lengths -/

section Lengths

variable {signals : List SignalInfo} {prev : Option Char} {p name args inner after : CText}

theorem closeParen_length {depth : Nat} (h : closeParen depth p = some (inner, after)) :
    p.length = inner.length + after.length + 1 := by
  induction p generalizing depth inner with
  | nil => exact nomatch h
  | cons c rest ih =>
    rw [closeParen] at h
    dsimp only at h
    generalize (if c = '(' then depth + 1 else if c = ')' then depth - 1 else depth) = d at h
    split at h
    case isTrue =>
      cases h
      rw [List.length_cons, List.length_nil, Nat.zero_add]
    case isFalse =>
      obtain ⟨⟨inner', after'⟩, hRest, hEq⟩ := Option.map_eq_some_iff.1 h
      cases hEq
      rw [List.length_cons, List.length_cons, ih hRest]
      dsimp only
      omega

/-- A setter is at least its name, its parenthesis and the word in front of them. -/
theorem setterAt_length (h : setterAt signals p = some (name, args)) :
    name.length + args.length + 5 ≤ p.length := by
  unfold setterAt at h
  split at h
  case isTrue hSet =>
    obtain ⟨s, hFind, hEq⟩ := Option.map_eq_some_iff.1 h
    cases hEq
    have hFound := List.find?_some hFind
    have hName := (List.isPrefixOf_iff_prefix.1 hFound).length_le
    have hDrop := (List.dropWhile_suffix (· = ' ') (l := p.drop 4)).length_le
    have hWord := (List.isPrefixOf_iff_prefix.1 hSet).length_le
    have hFour : "set ".toList.length = 4 := rfl
    rw [List.length_append, List.length_singleton] at hName
    rw [List.length_drop] at hDrop ⊢
    omega
  case isFalse => exact nomatch h

theorem getterAt_length (h : getterAt signals prev p = some (name, after)) :
    name.length + after.length + 2 ≤ p.length := by
  unfold getterAt at h
  obtain ⟨s, hFind, hEq⟩ := Option.map_eq_some_iff.1 h
  cases hEq
  have hFound := List.find?_some hFind
  rw [Bool.and_eq_true] at hFound
  have hName := (List.isPrefixOf_iff_prefix.1 hFound.2).length_le
  rw [List.length_append] at hName
  have hTwo : ['(', ')'].length = 2 := rfl
  rw [List.length_drop]
  omega

/-! ## One turn of the loop -/

section Turns

variable {c : Char} {rest : CText} (fuel : Nat)

theorem piecesOf_setter (h : setterAt signals (c :: rest) = some (name, args))
    (hClose : closeParen 1 args = some (inner, after)) :
    piecesOf signals (fuel + 1) prev (c :: rest) =
      .setter name inner (piecesOf signals fuel none inner)
        (piecesOf signals fuel (some ')') after) := by
  rw [piecesOf, h]
  dsimp only
  rw [hClose]

theorem piecesOf_unclosed (h : setterAt signals (c :: rest) = some (name, args))
    (hClose : closeParen 1 args = none) :
    piecesOf signals (fuel + 1) prev (c :: rest) =
      .unclosed name args (piecesOf signals fuel none args) := by
  rw [piecesOf, h]
  dsimp only
  rw [hClose]

theorem piecesOf_getter (h : setterAt signals (c :: rest) = none)
    (hGetter : getterAt signals prev (c :: rest) = some (name, after)) :
    piecesOf signals (fuel + 1) prev (c :: rest) =
      .getter name (piecesOf signals fuel (some ')') after) := by
  rw [piecesOf, h]
  dsimp only
  rw [hGetter]

theorem piecesOf_char (h : setterAt signals (c :: rest) = none)
    (hGetter : getterAt signals prev (c :: rest) = none) :
    piecesOf signals (fuel + 1) prev (c :: rest) = .char c (piecesOf signals fuel (some c) rest) := by
  rw [piecesOf, h]
  dsimp only
  rw [hGetter]

/-- What a turn finds: a setter, closed or not, a call, or a character. -/
inductive Turn (signals : List SignalInfo) (prev : Option Char) (c : Char) (rest : CText) : Prop
  | setter {name args inner after : CText} (h : setterAt signals (c :: rest) = some (name, args))
      (hClose : closeParen 1 args = some (inner, after))
      (hLength : name.length + inner.length + after.length + 5 ≤ rest.length)
  | unclosed {name args : CText} (h : setterAt signals (c :: rest) = some (name, args))
      (hClose : closeParen 1 args = none) (hLength : name.length + args.length + 4 ≤ rest.length)
  | getter {name after : CText} (h : setterAt signals (c :: rest) = none)
      (hGetter : getterAt signals prev (c :: rest) = some (name, after))
      (hLength : name.length + after.length + 1 ≤ rest.length)
  | char (h : setterAt signals (c :: rest) = none)
      (hGetter : getterAt signals prev (c :: rest) = none)

theorem turn_cases (signals : List SignalInfo) (prev : Option Char) (c : Char) (rest : CText) :
    Turn signals prev c rest := by
  have hCons : (c :: rest).length = rest.length + 1 := rfl
  cases hSetter : setterAt signals (c :: rest) with
  | some found =>
    obtain ⟨name, args⟩ := found
    have hSet := setterAt_length hSetter
    cases hClose : closeParen 1 args with
    | some found =>
      obtain ⟨inner, after⟩ := found
      have hArg := closeParen_length hClose
      exact .setter hSetter hClose (by omega)
    | none => exact .unclosed hSetter hClose (by omega)
  | none =>
    cases hGetter : getterAt signals prev (c :: rest) with
    | some found =>
      obtain ⟨name, after⟩ := found
      have hGet := getterAt_length hGetter
      exact .getter hSetter hGetter (by omega)
    | none => exact .char hSetter hGetter

end Turns

end Lengths

end Calynda.Jsx
