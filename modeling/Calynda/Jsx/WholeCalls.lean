import Calynda.Jsx.Buffers

/-!
# Calls that stand as whole words

What `rewrite_signal_expr` should find: calls and setters in the code of an expression, as whole
words and with balanced parentheses, and none in the text of its strings and templates. The scan
looks at no quotes, at no word boundary in front of `set`, and at no end of the text behind an open
parenthesis. It finds the right pieces where none of these matters.
-/

namespace Calynda.Jsx

/-! ## Code and literal text -/

/-- Where a character of an expression stands, apart from its outermost code. -/
inductive Region where
  /-- A string, or a character, up to its quote. -/
  | quoted (quote : Char)
  | escape (quote : Char)
  | template
  | templateEscape
  /-- Behind a dollar sign of a template. -/
  | dollar
  /-- The code of an interpolation, with its open braces. -/
  | interpolation (braces : Nat)
  deriving DecidableEq, Repr

def isCode : List Region → Bool
  | [] | .interpolation _ :: _ => true
  | _ => false

/-- What a quote opens in code. -/
def opened (c : Char) : Option Region :=
  if c = '"' ∨ c = '\'' then some (.quoted c) else if c = backtick then some .template else none

def advanceTemplate (outer : List Region) (c : Char) : List Region :=
  if c = backtick then outer
  else if c = '\\' then .templateEscape :: outer
  else if c = '$' then .dollar :: outer
  else .template :: outer

/-- The regions behind a character, the innermost first. -/
def advance : List Region → Char → List Region
  | [], c => (opened c).toList
  | .interpolation n :: outer, c =>
    if c = leftBrace then .interpolation (n + 1) :: outer
    else if c = rightBrace then
      match n with
      | 0 => .template :: outer
      | n + 1 => .interpolation n :: outer
    else (opened c).toList ++ .interpolation n :: outer
  | .quoted q :: outer, c =>
    if c = q then outer else if c = '\\' then .escape q :: outer else .quoted q :: outer
  | .escape q :: outer, _ => .quoted q :: outer
  | .template :: outer, c => advanceTemplate outer c
  | .templateEscape :: outer, _ => .template :: outer
  | .dollar :: outer, c =>
    if c = leftBrace then .interpolation 0 :: outer else advanceTemplate outer c

/-- The text up to the parenthesis in the code that closes an open one, and what is behind it. -/
def closeCodeParen (regions : List Region) : Nat → CText → Option (CText × CText)
  | _, [] => none
  | depth, c :: rest =>
    let depth :=
      if isCode regions then
        if c = '(' then depth + 1 else if c = ')' then depth - 1 else depth
      else depth
    if depth = 0 then some ([], rest)
    else (closeCodeParen (advance regions c) depth rest).map fun (inner, after) =>
      (c :: inner, after)

/-! ## The pieces that should be found -/

/-- A setter in the code, whose first word does not go on to the left. -/
def wholeSetterAt (signals : List SignalInfo) (regions : List Region) (prev : Option Char)
    (p : CText) : Option (CText × CText × CText) :=
  if atBoundary prev then
    (setterAt signals p).bind fun (name, args) =>
      (closeCodeParen regions 1 args).map fun (arg, after) => (name, arg, after)
  else none

/-- Calls are replaced in code only, a setter without its closing parenthesis is copied. -/
def wholePiecesOf (signals : List SignalInfo) :
    Nat → Option Char → List Region → CText → Pieces
  | 0, _, _, _ => .done
  | _ + 1, _, _, [] => .done
  | fuel + 1, prev, regions, c :: rest =>
    if isCode regions then
      match wholeSetterAt signals regions prev (c :: rest) with
      | some (name, arg, after) =>
        .setter name arg (wholePiecesOf signals fuel none [] arg)
          (wholePiecesOf signals fuel (some ')') regions after)
      | none =>
        match getterAt signals prev (c :: rest) with
        | some (name, after) => .getter name (wholePiecesOf signals fuel (some ')') regions after)
        | none => .char c (wholePiecesOf signals fuel (some c) (advance regions c) rest)
    else .char c (wholePiecesOf signals fuel (some c) (advance regions c) rest)

def wholePieces (signals : List SignalInfo) (raw : CText) : Pieces :=
  wholePiecesOf signals (raw.length + 1) none [] raw

/-- The rewriting replaces what it should and copies everything else, and it reads nothing behind
the terminator. -/
structure RewritesExactly (signals : List SignalInfo) (raw : CText) : Prop where
  pieces : pieces signals raw = wholePieces signals raw
  text : ExprFits signals raw → rewriteSignalExpr signals raw = some (wholePieces signals raw).render
  inside : rewriteExprRun signals raw ≠ .error .read

/-! ## Texts in which the scan is right -/

/-- The scan, from a character on, meets nothing that it takes for something else: no call in
literal text, no `set` as the end of a longer word, and no argument with a parenthesis that is
open at the end or is closed elsewhere when its literals are left out. -/
inductive Harmless (signals : List SignalInfo) : Option Char → List Region → CText → Prop
  | nil {prev : Option Char} {regions : List Region} : Harmless signals prev regions []
  | literal {prev : Option Char} {regions : List Region} {c : Char} {rest : CText}
      (hText : isCode regions = false) (hSetter : setterAt signals (c :: rest) = none)
      (hGetter : getterAt signals prev (c :: rest) = none)
      (hRest : Harmless signals (some c) (advance regions c) rest) :
      Harmless signals prev regions (c :: rest)
  | setter {prev : Option Char} {regions : List Region} {c : Char}
      {rest name args arg after : CText} (hCode : isCode regions = true)
      (hBoundary : atBoundary prev = true) (hSetter : setterAt signals (c :: rest) = some (name, args))
      (hClose : closeParen 1 args = some (arg, after))
      (hCodeClose : closeCodeParen regions 1 args = some (arg, after))
      (hArg : Harmless signals none [] arg) (hRest : Harmless signals (some ')') regions after) :
      Harmless signals prev regions (c :: rest)
  | getter {prev : Option Char} {regions : List Region} {c : Char} {rest name after : CText}
      (hCode : isCode regions = true) (hSetter : setterAt signals (c :: rest) = none)
      (hGetter : getterAt signals prev (c :: rest) = some (name, after))
      (hRest : Harmless signals (some ')') regions after) : Harmless signals prev regions (c :: rest)
  | char {prev : Option Char} {regions : List Region} {c : Char} {rest : CText}
      (hCode : isCode regions = true) (hSetter : setterAt signals (c :: rest) = none)
      (hGetter : getterAt signals prev (c :: rest) = none)
      (hRest : Harmless signals (some c) (advance regions c) rest) :
      Harmless signals prev regions (c :: rest)

section Pieces

variable {signals : List SignalInfo} {prev : Option Char} {regions : List Region} {c : Char}
  {p rest name args arg after : CText} {fuel : Nat}

/-- The text up to a closing parenthesis ends at one. -/
theorem closeParen_split {depth : Nat} (h : closeParen depth p = some (arg, after)) :
    ∃ d, p = arg ++ d :: after := by
  induction p generalizing depth arg with
  | nil => exact nomatch h
  | cons c rest ih =>
    rw [closeParen] at h
    dsimp only at h
    generalize (if c = '(' then depth + 1 else if c = ')' then depth - 1 else depth) = d at h
    split at h
    case isTrue =>
      cases h
      exact ⟨c, rfl⟩
    case isFalse =>
      obtain ⟨⟨inner, after'⟩, hRest, hEq⟩ := Option.map_eq_some_iff.1 h
      cases hEq
      obtain ⟨d, hSplit⟩ := ih hRest
      exact ⟨d, by rw [hSplit, List.cons_append]⟩

theorem closeCodeParen_split {depth : Nat} (h : closeCodeParen regions depth p = some (arg, after)) :
    ∃ d, p = arg ++ d :: after := by
  induction p generalizing depth regions arg with
  | nil => exact nomatch h
  | cons c rest ih =>
    rw [closeCodeParen] at h
    dsimp only at h
    generalize (if isCode regions = true then
      if c = '(' then depth + 1 else if c = ')' then depth - 1 else depth else depth) = d at h
    split at h
    case isTrue =>
      cases h
      exact ⟨c, rfl⟩
    case isFalse =>
      obtain ⟨⟨inner, after'⟩, hRest, hEq⟩ := Option.map_eq_some_iff.1 h
      cases hEq
      obtain ⟨d, hSplit⟩ := ih hRest
      exact ⟨d, by rw [hSplit, List.cons_append]⟩

theorem eq_of_same_arg {depth depth' : Nat} {after' : CText}
    (h : closeParen depth p = some (arg, after))
    (h' : closeCodeParen regions depth' p = some (arg, after')) : after = after' := by
  obtain ⟨d, hSplit⟩ := closeParen_split h
  obtain ⟨d', hSplit'⟩ := closeCodeParen_split h'
  rw [hSplit'] at hSplit
  exact (List.cons.inj (List.append_cancel_left hSplit)).2.symm

/-- One turn of the scan that should be made. -/
theorem wholePiecesOf_char (fuel : Nat)
    (h : isCode regions = false ∨ (wholeSetterAt signals regions prev (c :: rest) = none ∧
      getterAt signals prev (c :: rest) = none)) :
    wholePiecesOf signals (fuel + 1) prev regions (c :: rest) =
      .char c (wholePiecesOf signals fuel (some c) (advance regions c) rest) := by
  rw [wholePiecesOf]
  rcases h with hText | ⟨hSetter, hGetter⟩
  · rw [hText]
    rfl
  · split
    · rw [hSetter, hGetter]
    · rfl

/-- The whole pieces are closed. -/
theorem closed_wholePiecesOf (fuel : Nat) (prev : Option Char) (regions : List Region) (p : CText) :
    (wholePiecesOf signals fuel prev regions p).closed = true := by
  induction fuel generalizing prev regions p with
  | zero => rfl
  | succ fuel ih =>
    cases p with
    | nil => rfl
    | cons c rest =>
      rw [wholePiecesOf]
      split
      · split
        · rw [Pieces.closed, ih, ih]
          rfl
        · split
          · exact ih ..
          · exact ih ..
      · exact ih ..

theorem wholePiecesOf_getter (fuel : Nat) (hCode : isCode regions = true)
    (hSetter : setterAt signals (c :: rest) = none)
    (hGetter : getterAt signals prev (c :: rest) = some (name, after)) :
    wholePiecesOf signals (fuel + 1) prev regions (c :: rest) =
      .getter name (wholePiecesOf signals fuel (some ')') regions after) := by
  have hWhole : wholeSetterAt signals regions prev (c :: rest) = none := by
    rw [wholeSetterAt, hSetter]
    exact ite_self _
  rw [wholePiecesOf, if_pos hCode, hWhole]
  dsimp only
  rw [hGetter]

theorem wholePiecesOf_setter (fuel : Nat) (hCode : isCode regions = true)
    (hBoundary : atBoundary prev = true) (hSetter : setterAt signals (c :: rest) = some (name, args))
    (hClose : closeCodeParen regions 1 args = some (arg, after)) :
    wholePiecesOf signals (fuel + 1) prev regions (c :: rest) =
      .setter name arg (wholePiecesOf signals fuel none [] arg)
        (wholePiecesOf signals fuel (some ')') regions after) := by
  have hWhole : wholeSetterAt signals regions prev (c :: rest) = some (name, arg, after) := by
    rw [wholeSetterAt, if_pos hBoundary, hSetter]
    dsimp only [Option.bind_some]
    rw [hClose]
    rfl
  rw [wholePiecesOf, if_pos hCode, hWhole]

/-- Without a whole setter in the code no setter is found. -/
theorem wholePiecesOf_ne_setter {inner tail : Pieces} (fuel : Nat)
    (h : isCode regions = true → wholeSetterAt signals regions prev (c :: rest) = none) :
    wholePiecesOf signals (fuel + 1) prev regions (c :: rest) ≠ .setter name arg inner tail := by
  rw [wholePiecesOf]
  split
  case isTrue hCode =>
    rw [h hCode]
    dsimp only
    split <;> exact nofun
  case isFalse => exact nofun

/-! ### Harmless texts by what a turn finds -/

theorem harmless_setter_iff (hSetter : setterAt signals (c :: rest) = some (name, args)) :
    Harmless signals prev regions (c :: rest) ↔ isCode regions = true ∧ atBoundary prev = true ∧
      ∃ arg after, closeParen 1 args = some (arg, after) ∧
        closeCodeParen regions 1 args = some (arg, after) ∧ Harmless signals none [] arg ∧
          Harmless signals (some ')') regions after := by
  constructor
  · intro h
    cases h with
    | literal hText hNone hGetter hRest => exact nomatch hSetter.symm.trans hNone
    | setter hCode hBoundary hSome hClose hCodeClose hArg hRest =>
      obtain ⟨rfl, rfl⟩ := Prod.mk.inj (Option.some.inj (hSetter.symm.trans hSome))
      exact ⟨hCode, hBoundary, _, _, hClose, hCodeClose, hArg, hRest⟩
    | getter hCode hNone hGetter hRest => exact nomatch hSetter.symm.trans hNone
    | char hCode hNone hGetter hRest => exact nomatch hSetter.symm.trans hNone
  · rintro ⟨hCode, hBoundary, arg, after, hClose, hCodeClose, hArg, hRest⟩
    exact .setter hCode hBoundary hSetter hClose hCodeClose hArg hRest

theorem harmless_getter_iff (hSetter : setterAt signals (c :: rest) = none)
    (hGetter : getterAt signals prev (c :: rest) = some (name, after)) :
    Harmless signals prev regions (c :: rest) ↔
      isCode regions = true ∧ Harmless signals (some ')') regions after := by
  constructor
  · intro h
    cases h with
    | literal hText hNone hNoGetter hRest => exact nomatch hGetter.symm.trans hNoGetter
    | setter hCode hBoundary hSome hClose hCodeClose hArg hRest =>
      exact nomatch hSetter.symm.trans hSome
    | getter hCode hNone hSome hRest =>
      obtain ⟨rfl, rfl⟩ := Prod.mk.inj (Option.some.inj (hGetter.symm.trans hSome))
      exact ⟨hCode, hRest⟩
    | char hCode hNone hNoGetter hRest => exact nomatch hGetter.symm.trans hNoGetter
  · rintro ⟨hCode, hRest⟩
    exact .getter hCode hSetter hGetter hRest

theorem harmless_char_iff (hSetter : setterAt signals (c :: rest) = none)
    (hGetter : getterAt signals prev (c :: rest) = none) :
    Harmless signals prev regions (c :: rest) ↔
      Harmless signals (some c) (advance regions c) rest := by
  constructor
  · intro h
    cases h with
    | literal hText hNone hNoGetter hRest => exact hRest
    | setter hCode hBoundary hSome hClose hCodeClose hArg hRest =>
      exact nomatch hSetter.symm.trans hSome
    | getter hCode hNone hSome hRest => exact nomatch hGetter.symm.trans hSome
    | char hCode hNone hNoGetter hRest => exact hRest
  · intro hRest
    cases hCode : isCode regions with
    | false => exact .literal hCode hSetter hGetter hRest
    | true => exact .char hCode hSetter hGetter hRest

/-- The pieces are those that should be found exactly in a harmless text. -/
theorem piecesOf_eq_iff (hFuel : p.length < fuel) :
    piecesOf signals fuel prev p = wholePiecesOf signals fuel prev regions p ↔
      Harmless signals prev regions p := by
  induction fuel generalizing prev regions p with
  | zero => exact absurd hFuel (Nat.not_lt_zero _)
  | succ fuel ih =>
    cases p with
    | nil => exact iff_of_true rfl .nil
    | cons c rest =>
      rw [List.length_cons] at hFuel
      cases turn_cases signals prev c rest with
      | @setter name args arg after hSetter hClose hLength =>
        rw [piecesOf_setter fuel hSetter hClose, harmless_setter_iff hSetter]
        by_cases hWhole : isCode regions = true ∧ atBoundary prev = true ∧
            ∃ found, closeCodeParen regions 1 args = some found
        · obtain ⟨hCode, hBoundary, ⟨arg', after'⟩, hCodeClose⟩ := hWhole
          rw [wholePiecesOf_setter fuel hCode hBoundary hSetter hCodeClose, hClose, hCodeClose,
            Pieces.setter.injEq]
          constructor
          · rintro ⟨-, rfl, hArg, hRest⟩
            obtain rfl := eq_of_same_arg hClose hCodeClose
            exact ⟨hCode, hBoundary, arg, after, rfl, rfl, (ih (by omega)).1 hArg,
              (ih (by omega)).1 hRest⟩
          · rintro ⟨-, -, _, _, ⟨⟩, ⟨⟩, hArg, hRest⟩
            exact ⟨rfl, rfl, (ih (by omega)).2 hArg, (ih (by omega)).2 hRest⟩
        · refine iff_of_false (wholePiecesOf_ne_setter fuel fun hCode => ?_).symm ?_
          · rw [wholeSetterAt, hSetter]
            split
            case isTrue hBoundary =>
              dsimp only [Option.bind_some]
              cases hCodeClose : closeCodeParen regions 1 args with
              | none => rfl
              | some found => exact absurd ⟨hCode, hBoundary, found, hCodeClose⟩ hWhole
            case isFalse => rfl
          · rintro ⟨hCode, hBoundary, arg, after, -, hCodeClose, -⟩
            exact hWhole ⟨hCode, hBoundary, _, hCodeClose⟩
      | @unclosed name args hSetter hClose hLength =>
        rw [piecesOf_unclosed fuel hSetter hClose, harmless_setter_iff hSetter]
        refine iff_of_false (fun hEq => ?_) ?_
        · have hClosed : (wholePiecesOf signals (fuel + 1) prev regions (c :: rest)).closed =
              true := closed_wholePiecesOf _ _ _ _
          rw [← hEq] at hClosed
          exact nomatch hClosed
        · rintro ⟨-, -, arg, after, hSome, -⟩
          exact nomatch hClose.symm.trans hSome
      | @getter name after hSetter hGetter hLength =>
        rw [piecesOf_getter fuel hSetter hGetter, harmless_getter_iff hSetter hGetter]
        cases hCode : isCode regions with
        | false =>
          rw [wholePiecesOf_char fuel (.inl hCode)]
          exact iff_of_false nofun nofun
        | true =>
          rw [wholePiecesOf_getter fuel hCode hSetter hGetter, Pieces.getter.injEq,
            and_iff_right rfl, and_iff_right rfl]
          exact ih (by omega)
      | char hSetter hGetter =>
        have hWhole : wholeSetterAt signals regions prev (c :: rest) = none := by
          rw [wholeSetterAt, hSetter]
          exact ite_self _
        rw [piecesOf_char fuel hSetter hGetter, harmless_char_iff hSetter hGetter,
          wholePiecesOf_char fuel (.inr ⟨hWhole, hGetter⟩), Pieces.char.injEq,
          and_iff_right rfl]
        exact ih (by omega)

end Pieces

end Calynda.Jsx
