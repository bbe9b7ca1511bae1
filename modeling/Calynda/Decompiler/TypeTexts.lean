import Calynda.Decompiler.Externs
import Calynda.Decompiler.Mangled
import Mathlib.Data.List.DropRight

/-!
# Types of externs

What the translation of a type should be, along its derivation, and how the translator reads a
text: pieces between commas outside of brackets, names without the arguments of templates, and a
base between qualifiers and stars.
-/

namespace Calynda.Decompiler

open List CString

/-! ## The translation along a derivation -/

/-- A name without what stands in angle brackets. -/
def bareName : Nat → List Char → List Char
  | _, [] => []
  | 0, c :: s => if c = '<' then bareName 1 s else c :: bareName 0 s
  | d + 1, c :: s =>
    if c = '<' then bareName (d + 2) s
    else if c = '>' then bareName d s
    else bareName (d + 1) s

def primCalynda (c : Char) : Option (List Char) :=
  match c with
  | 'v' => some "()".toList
  | 'b' => some "bool".toList
  | 'c' => some "i8".toList
  | 'w' => some "u16".toList
  | 's' => some "i16".toList
  | 'i' => some "i32".toList
  | 'l' => some "i32".toList
  | 'x' => some "i64".toList
  | 'f' => some "f32".toList
  | 'd' => some "f64".toList
  | 'e' => some "...".toList
  | _ => none

/-- The integers with a sign, from the mark for it. -/
def signedCalynda (mark c : Char) : Option (List Char) :=
  let sign := if mark = 'U' then 'u' else 'i'
  match c with
  | 'c' => some (sign :: "8".toList)
  | 's' => some (sign :: "16".toList)
  | 'i' => some (sign :: "32".toList)
  | 'l' => some (sign :: "32".toList)
  | 'x' => some (sign :: "64".toList)
  | _ => none

def dottedName (names : List (List Char)) : List Char :=
  ['.'].intercalate (names.map (bareName 0))

def dimension (digits : List Char) : List Char :=
  '[' :: Nat.toDigits 10 (digitsFrom 0 digits) ++ [']']

mutual

/-- The translation from the translations of the parts; a sign belongs to an integer only. -/
def translate : CwType → Option (List Char)
  | .prim c => primCalynda c
  | .name _ text => some (bareName 0 text)
  | .qualified names => some (dottedName (names.map Prod.snd))
  | .mark c t =>
    if c = 'P' ∨ c = 'R' then (translate t).map ('*' :: ·)
    else if c = 'C' ∨ c = 'V' then translate t
    else
      match t with
      | .prim p => signedCalynda c p
      | _ => none
  | .array digits t => (translate t).map (· ++ dimension digits)
  | .fnptr args ret =>
    (translateAll args).bind fun xs =>
      (translate ret).map fun x => "fn(".toList ++ joinArgs xs ++ ") -> ".toList ++ x

def translateAll : List CwType → Option (List (List Char))
  | [] => some []
  | t :: ts => (translate t).bind fun x => (translateAll ts).map (x :: ·)

end

/-! ## The pieces of an argument list -/

/-- The texts between the commas of a list: all but the first one start with a blank. -/
def argPieces : List (List Char) → List (List Char)
  | [] => [[]]
  | text :: texts => text :: texts.map (' ' :: ·)

/-! ## Texts without blanks at their ends -/

structure Trimmed (s : List Char) : Prop where
  head : ∀ c ∈ s.head?, isSpace c = false
  last : ∀ c ∈ s.getLast?, isSpace c = false

section Trim

variable {c : Char} {s t : List Char} {p : Char → Bool}

theorem dropWhile_of_head (h : ∀ c ∈ s.head?, p c = false) : s.dropWhile p = s := by
  cases s with
  | nil => rfl
  | cons c s =>
    have hc := h c rfl
    exact dropWhile_cons_of_neg (by rw [hc]; exact Bool.false_ne_true)

theorem Trimmed.trim_eq (h : Trimmed s) : trim s = s := by
  have hLast : s.reverse.dropWhile isSpace = s.reverse :=
    dropWhile_of_head fun c hc => h.last c (by rwa [head?_reverse] at hc)
  rw [trim, hLast, reverse_reverse]
  exact dropWhile_of_head h.head

theorem trim_cons_blank (s : List Char) : trim (' ' :: s) = trim s := by
  rw [trim, trim, reverse_cons, dropWhile_append]
  split
  · rename_i hEmpty
    rw [isEmpty_iff.1 hEmpty]
    rfl
  · rw [reverse_append]
    rfl

theorem rdropWhile_last : ∀ c ∈ (s.rdropWhile isSpace).getLast?, isSpace c = false := by
  intro c hc
  obtain ⟨hNe, rfl⟩ := mem_getLast?_eq_getLast hc
  exact Bool.eq_false_iff.2 (rdropWhile_last_not isSpace s hNe)

theorem trim_prefix (h : ∀ c ∈ s.head?, isSpace c = false) : trim s <+: s := by
  have hPrefix : s.rdropWhile isSpace <+: s := List.rdropWhile_prefix isSpace s
  have hEq : trim s = s.rdropWhile isSpace := by
    refine dropWhile_of_head fun c hc => h c ?_
    obtain ⟨blanks, hBlanks⟩ := hPrefix
    exact hBlanks ▸ mem_head?_append_of_mem_head? hc
  exact hEq ▸ hPrefix

theorem trimmed_trim (s : List Char) : Trimmed (trim s) := by
  refine ⟨fun c hc => ?_, fun c hc => rdropWhile_last (s := s) c ?_⟩
  · have hNot := head?_dropWhile_not isSpace (s.rdropWhile isSpace)
    have hTrim : (s.rdropWhile isSpace).dropWhile isSpace = trim s := rfl
    rwa [hTrim, Option.mem_def.1 hc] at hNot
  · obtain ⟨front, hFront⟩ := dropWhile_suffix (l := s.rdropWhile isSpace) isSpace
    exact hFront ▸ mem_getLast?_append_of_mem_getLast? hc

theorem length_trim_le (s : List Char) : (trim s).length ≤ s.length :=
  Nat.le_trans (dropWhile_suffix isSpace).length_le
    (List.rdropWhile_prefix isSpace s).length_le

/-- Blanks behind a text are cut off. -/
theorem Trimmed.trim_append (h : Trimmed s) (ht : ∀ c ∈ t, isSpace c = true) :
    trim (s ++ t) = s := by
  have hDrop : (s ++ t).reverse.dropWhile isSpace = s.reverse.dropWhile isSpace := by
    rw [reverse_append, dropWhile_append_of_pos]
    exact fun c hc => ht c (mem_reverse.1 hc)
  rw [trim, hDrop, ← trim, h.trim_eq]

end Trim

/-! ## The text of a user type -/

/-- The number of open angle brackets behind a text; one that closes none is a character. -/
def angleAfter : Nat → List Char → Nat
  | d, [] => d
  | 0, c :: s => if c = '<' then angleAfter 1 s else angleAfter 0 s
  | d + 1, c :: s =>
    if c = '<' then angleAfter (d + 2) s
    else if c = '>' then angleAfter d s
    else angleAfter (d + 1) s

/-- Outside of angle brackets there is no blank, and no two colons; with `colon`, one follows. -/
def readsName (colon : Bool) : Nat → List Char → Bool
  | _, [] => true
  | 0, c :: s =>
    if c = '<' then readsName colon 1 s
    else if c = ':' ∧ (s.head? = some ':' ∨ s = [] ∧ colon = true) then false
    else if isSpace c then false
    else readsName colon 0 s
  | d + 1, c :: s =>
    if c = '<' then readsName colon (d + 2) s
    else if c = '>' then readsName colon d s
    else readsName colon (d + 1) s

/-- Names with two colons between them are told apart again. -/
def readsNames : List (List Char) → Bool
  | [] => true
  | [name] => readsName false 0 name
  | name :: next :: names => readsName true 0 name && readsNames (next :: names)

/-- The angle brackets of names close in them; those of the last one only have to if something
stands behind it. -/
def closedNames (behind : Bool) : List (List Char) → Bool
  | [] => true
  | [name] => !behind || angleAfter 0 name == 0
  | name :: next :: names => angleAfter 0 name == 0 && closedNames behind (next :: names)

section Base

variable {b c : Char} {colon behind : Bool} {d fuel fuel' room : Nat} {s t text rest : List Char}
  {names : List (List Char)}

theorem skipTemplate_suffix (d : Nat) (s : List Char) : skipTemplate d s <:+ s := by
  induction s generalizing d with
  | nil => cases d <;> exact suffix_refl []
  | cons c s ih =>
    cases d with
    | zero => exact suffix_refl _
    | succ d =>
      rw [skipTemplate]
      refine List.IsSuffix.trans ?_ (suffix_cons c s)
      split
      · exact ih _
      · split
        · exact ih _
        · exact ih _

/-- What is left of blanks behind a template are blanks. -/
theorem skipTemplate_blanks (d : Nat) (s rest : List Char) :
    ∃ t, t <:+ rest ∧ skipTemplate d (s ++ rest) = skipTemplate d s ++ t := by
  induction s generalizing d with
  | nil => exact ⟨skipTemplate d rest, skipTemplate_suffix d rest, by cases d <;> rfl⟩
  | cons c s ih =>
    cases d with
    | zero => exact ⟨rest, suffix_refl rest, rfl⟩
    | succ d =>
      rw [cons_append, skipTemplate, skipTemplate]
      split
      · exact ih _
      · split
        · exact ih _
        · exact ih _

theorem baseChars_nil (fuel room : Nat) : baseChars fuel room [] = [] := by
  cases fuel <;> rfl

theorem baseChars_no_room (fuel : Nat) (s : List Char) : baseChars fuel 0 s = [] := by
  cases fuel with
  | zero => rfl
  | succ fuel => cases s <;> rfl

theorem baseChars_fuel (h : s.length < fuel) (h' : s.length < fuel') :
    baseChars fuel room s = baseChars fuel' room s := by
  induction fuel generalizing fuel' room s with
  | zero => exact absurd h (Nat.not_lt_zero _)
  | succ fuel ih =>
    cases fuel' with
    | zero => exact absurd h' (Nat.not_lt_zero _)
    | succ fuel' =>
      cases s with
      | nil => rfl
      | cons c s =>
        cases room with
        | zero => rfl
        | succ room =>
          rw [length_cons] at h h'
          have hTail : s.tail.length ≤ s.length := by
            rw [length_tail]
            omega
          have hSkip := (skipTemplate_suffix 1 s).length_le
          rw [baseChars, baseChars]
          split
          · exact congrArg ('.' :: ·) (ih (by omega) (by omega))
          · split
            · exact ih (by omega) (by omega)
            · split
              · exact ih (by omega) (by omega)
              · exact congrArg (c :: ·) (ih (by omega) (by omega))

/-- Blanks behind a text are left out. -/
theorem baseChars_blanks (hBlanks : ∀ c ∈ rest, isSpace c = true) :
    baseChars fuel room (s ++ rest) = baseChars fuel room s := by
  induction fuel generalizing room s rest with
  | zero => rfl
  | succ fuel ih =>
    have hNe : ∀ c ∈ rest, ∀ b, isSpace b = false → c ≠ b := by
      rintro c hc b hb rfl
      exact nomatch hb.symm.trans (hBlanks c hc)
    cases room with
    | zero => rw [baseChars_no_room, baseChars_no_room]
    | succ room =>
      cases s with
      | nil =>
        cases rest with
        | nil => rfl
        | cons b rest =>
          obtain ⟨hB, hRest⟩ := forall_mem_cons.1 hBlanks
          have hIh : baseChars fuel (room + 1) ([] ++ rest) = _ := ih hRest
          rw [baseChars_nil, nil_append] at hIh ⊢
          rw [baseChars, if_neg fun h => hNe b mem_cons_self ':' rfl h.1,
            if_neg (hNe b mem_cons_self '<' rfl), if_pos hB, hIh]
      | cons c s =>
        obtain ⟨t, hSuffix, hSkip⟩ := skipTemplate_blanks 1 s rest
        have hSub : baseChars fuel (room + 1) (skipTemplate 1 s ++ t) = _ :=
          ih fun c hc => hBlanks c (hSuffix.subset hc)
        rw [cons_append, baseChars, baseChars, hSkip, hSub, ih hBlanks, ih hBlanks]
        cases s with
        | nil =>
          have hNone : ¬ (c = ':' ∧ ([] : List Char).head? = some ':') := fun h => nomatch h.2
          rw [if_neg hNone, if_neg]
          exact fun h => hNe ':' (mem_of_mem_head? h.2) ':' rfl rfl
        | cons d s => rw [cons_append, head?_cons, tail_cons, ih hBlanks]; rfl

theorem skipTemplate_zero (s : List Char) : skipTemplate 0 s = s := by
  cases s <;> rfl

theorem bareName_append (d : Nat) (s t : List Char) :
    bareName d (s ++ t) = bareName d s ++ bareName (angleAfter d s) t := by
  induction s generalizing d with
  | nil => cases d <;> rfl
  | cons c s ih =>
    cases d with
    | zero =>
      rw [cons_append, bareName, bareName, angleAfter]
      split
      · exact ih 1
      · exact congrArg (c :: ·) (ih 0)
    | succ d =>
      rw [cons_append, bareName, bareName, angleAfter]
      split
      · exact ih _
      · split
        · exact ih _
        · exact ih _

/-- What stands in angle brackets only reads as nothing. -/
theorem readsName_of_bare_nil (h : bareName d text = []) : readsName colon d text = true := by
  induction text generalizing d with
  | nil => cases d <;> rfl
  | cons c s ih =>
    cases d with
    | zero =>
      rw [bareName] at h
      rw [readsName]
      split at h
      · rw [if_pos ‹_›]
        exact ih h
      · exact nomatch h
    | succ d =>
      rw [bareName] at h
      rw [readsName]
      split at h
      · rw [if_pos ‹_›]
        exact ih h
      · rw [if_neg ‹_›]
        split at h
        · rw [if_pos ‹_›]
          exact ih h
        · rw [if_neg ‹_›]
          exact ih h

/-- The skip of a template ends inside of the name, if anything follows the name. -/
theorem skipTemplate_append (colon : Bool) (h : rest ≠ [] → angleAfter (d + 1) text = 0) :
    ∃ text', skipTemplate (d + 1) (text ++ rest) = text' ++ rest ∧
      bareName (d + 1) text = bareName 0 text' ∧
      readsName colon (d + 1) text = readsName colon 0 text' ∧
      (rest ≠ [] → angleAfter 0 text' = 0) ∧ text'.length ≤ text.length := by
  induction text generalizing d with
  | nil =>
    have hRest : rest = [] := by
      by_contra hNe
      exact nomatch h hNe
    subst hRest
    exact ⟨[], rfl, rfl, rfl, fun _ => rfl, Nat.le_refl _⟩
  | cons c s ih =>
    rw [angleAfter] at h
    rw [cons_append, skipTemplate, bareName, readsName, length_cons]
    by_cases hOpen : c = '<'
    · rw [if_pos hOpen] at h
      rw [if_pos hOpen, if_pos hOpen, if_pos hOpen]
      obtain ⟨text', hSkip, hBare, hReads, hAngle, hLength⟩ := ih h
      exact ⟨text', hSkip, hBare, hReads, hAngle, Nat.le_succ_of_le hLength⟩
    · rw [if_neg hOpen] at h
      rw [if_neg hOpen, if_neg hOpen, if_neg hOpen]
      by_cases hClose : c = '>'
      · rw [if_pos hClose] at h
        rw [if_pos hClose, if_pos hClose, if_pos hClose]
        cases d with
        | zero => exact ⟨s, skipTemplate_zero _, rfl, rfl, h, Nat.le_succ _⟩
        | succ d =>
          obtain ⟨text', hSkip, hBare, hReads, hAngle, hLength⟩ := ih h
          exact ⟨text', hSkip, hBare, hReads, hAngle, Nat.le_succ_of_le hLength⟩
      · rw [if_neg hClose] at h
        rw [if_neg hClose, if_neg hClose, if_neg hClose]
        obtain ⟨text', hSkip, hBare, hReads, hAngle, hLength⟩ := ih h
        exact ⟨text', hSkip, hBare, hReads, hAngle, Nat.le_succ_of_le hLength⟩

/-- Blanks are left out. -/
theorem mem_baseChars (h : c ∈ baseChars fuel room s) : isSpace c = false := by
  induction fuel generalizing room s with
  | zero => exact absurd h not_mem_nil
  | succ fuel ih =>
    cases s with
    | nil => exact absurd h not_mem_nil
    | cons b s =>
      cases room with
      | zero => exact absurd h not_mem_nil
      | succ room =>
        rw [baseChars] at h
        split at h
        · rcases mem_cons.1 h with rfl | hMem
          · rfl
          · exact ih hMem
        · split at h
          · exact ih h
          · split at h
            · exact ih h
            · rename_i hSpace
              rcases mem_cons.1 h with rfl | hMem
              · exact Bool.eq_false_iff.2 hSpace
              · exact ih hMem

/-- Less room cuts the characters off. -/
theorem take_baseChars (m : Nat) :
    (baseChars fuel room s).take m = baseChars fuel (min m room) s := by
  induction fuel generalizing m room s with
  | zero => exact take_nil
  | succ fuel ih =>
    cases s with
    | nil => exact take_nil
    | cons c s =>
      cases room with
      | zero => rw [Nat.min_zero, baseChars_no_room, take_nil]
      | succ room =>
        cases m with
        | zero => rw [Nat.zero_min, baseChars_no_room, take_zero]
        | succ m =>
          have hSkip : (baseChars fuel (room + 1) (skipTemplate 1 s)).take (m + 1) = _ := ih (m + 1)
          have hBlank : (baseChars fuel (room + 1) s).take (m + 1) = _ := ih (m + 1)
          rw [Nat.add_min_add_right] at hSkip hBlank ⊢
          rw [baseChars, baseChars]
          split
          · exact congrArg ('.' :: ·) (ih m)
          · split
            · exact hSkip
            · split
              · exact hBlank
              · exact congrArg (c :: ·) (ih m)

/-- Characters that stand for themselves. -/
theorem baseChars_plain (h : ∀ c ∈ s, isSpace c = false ∧ c ≠ ':' ∧ c ≠ '<')
    (hFuel : s.length < fuel) : baseChars fuel room s = s.take room := by
  induction s generalizing fuel room with
  | nil => rw [baseChars_nil, take_nil]
  | cons c s ih =>
    obtain ⟨⟨hSpace, hColon, hOpen⟩, hRest⟩ := forall_mem_cons.1 h
    cases room with
    | zero => rw [baseChars_no_room, take_zero]
    | succ room =>
      cases fuel with
      | zero => exact absurd hFuel (Nat.not_lt_zero _)
      | succ fuel =>
        rw [baseChars, if_neg fun hBoth => hColon hBoth.1, if_neg hOpen,
          if_neg (by rw [hSpace]; exact Bool.false_ne_true), take_succ_cons,
          ih hRest (Nat.lt_of_succ_lt_succ hFuel)]

/-- A name in front of a text becomes what stands outside of its angle brackets exactly if it has
no blank and no two colons there. -/
theorem baseChars_name (hColon : rest.head? = some ':' ↔ colon = true)
    (hAngle : rest ≠ [] → angleAfter 0 text = 0) (hRoom : (bareName 0 text).length ≤ room)
    (hFuel : (text ++ rest).length < fuel) (hFuel' : rest.length < fuel') (v : List Char) :
    baseChars fuel room (text ++ rest) = bareName 0 text ++ v ↔
      readsName colon 0 text = true ∧
        baseChars fuel' (room - (bareName 0 text).length) rest = v := by
  obtain ⟨n, hn⟩ : ∃ n, n = text.length := ⟨_, rfl⟩
  induction n using Nat.strong_induction_on generalizing text room fuel with
  | _ n ih =>
    cases text with
    | nil =>
      have hSame : baseChars fuel room rest = baseChars fuel' room rest :=
        baseChars_fuel hFuel hFuel'
      show baseChars fuel room rest = v ↔ true = true ∧ baseChars fuel' room rest = v
      rw [hSame]
      exact (and_iff_right rfl).symm
    | cons c s =>
      cases room with
      | zero =>
        have hNil : bareName 0 (c :: s) = [] := length_eq_zero_iff.1 (Nat.le_zero.1 hRoom)
        rw [hNil, baseChars_no_room, nil_append, Nat.zero_sub, baseChars_no_room]
        exact (and_iff_right (readsName_of_bare_nil hNil)).symm
      | succ room =>
        cases fuel with
        | zero => exact absurd hFuel (Nat.not_lt_zero _)
        | succ fuel =>
          rw [cons_append, length_cons] at hFuel
          rw [length_cons] at hn
          rw [angleAfter] at hAngle
          by_cases hOpen : c = '<'
          · have hName : bareName 0 (c :: s) = bareName 1 s := by
              rw [bareName, if_pos hOpen]
            rw [if_pos hOpen] at hAngle
            obtain ⟨text', hSkip, hSame, hReads, hAngle', hLength⟩ :=
              skipTemplate_append colon hAngle
            rw [hName, hSame] at hRoom ⊢
            rw [cons_append, baseChars,
              if_neg (by rw [hOpen]; exact fun h => absurd h.1 (by decide)), if_pos hOpen,
              hSkip, readsName, if_pos hOpen, hReads]
            refine ih text'.length (by omega) hAngle' hRoom ?_ rfl
            rw [length_append] at hFuel ⊢
            omega
          · have hName : bareName 0 (c :: s) = c :: bareName 0 s := by
              rw [bareName, if_neg hOpen]
            have hTwo : (s ++ rest).head? = some ':' ↔
                s.head? = some ':' ∨ s = [] ∧ colon = true := by
              cases s with
              | nil => rw [nil_append, hColon]; simp
              | cons b s => simp
            rw [if_neg hOpen] at hAngle
            rw [hName, length_cons] at hRoom ⊢
            rw [cons_append, baseChars, readsName, if_neg hOpen, if_neg hOpen]
            by_cases hColons : c = ':' ∧ (s ++ rest).head? = some ':'
            · -- the two colons become a dot
              rw [if_pos hColons, if_pos ⟨hColons.1, hTwo.1 hColons.2⟩]
              refine iff_of_false (fun h => ?_) fun h => nomatch h.1
              exact absurd (hColons.1 ▸ (List.cons.inj h).1) (by decide)
            · have hNot : ¬ (c = ':' ∧ (s.head? = some ':' ∨ s = [] ∧ colon = true)) :=
                fun h => hColons ⟨h.1, hTwo.2 h.2⟩
              rw [if_neg hColons, if_neg hNot]
              split
              case isTrue hSpace =>
                refine iff_of_false (fun h => ?_) fun h => nomatch h.1
                have hIn : c ∈ baseChars fuel (room + 1) (s ++ rest) := by
                  rw [h]
                  exact mem_cons_self
                exact nomatch hSpace.symm.trans (mem_baseChars hIn)
              case isFalse =>
                rw [cons_append, cons_inj_right, Nat.add_sub_add_right]
                exact ih s.length (by omega) hAngle (by omega) (by omega) rfl

/-- Two colons become a dot. -/
theorem baseChars_colons (hFuel : rest.length + 2 < fuel) (hFuel' : rest.length < fuel') :
    baseChars fuel (room + 1) ("::".toList ++ rest) = '.' :: baseChars fuel' room rest := by
  obtain ⟨fuel, rfl⟩ : ∃ k, fuel = k + 1 := ⟨fuel - 1, by omega⟩
  show baseChars (fuel + 1) (room + 1) (':' :: ':' :: rest) = _
  rw [baseChars, if_pos ⟨rfl, rfl⟩]
  exact congrArg ('.' :: ·) (baseChars_fuel (by show rest.length < fuel; omega) hFuel')

theorem joinNames_cons (name next : List Char) (names : List (List Char)) :
    joinNames (name :: next :: names) = name ++ ("::".toList ++ joinNames (next :: names)) := by
  rw [joinNames, intercalate_cons_cons, append_assoc, ← joinNames]

theorem dottedName_cons (name next : List Char) (names : List (List Char)) :
    dottedName (name :: next :: names) = bareName 0 name ++ '.' :: dottedName (next :: names) := by
  rw [dottedName, map_cons, map_cons, intercalate_cons_cons, append_assoc,
    ← map_cons, ← dottedName]
  rfl

theorem joinNames_singleton (name : List Char) : joinNames [name] = name :=
  intercalate_singleton

theorem dottedName_singleton (name : List Char) : dottedName [name] = bareName 0 name :=
  intercalate_singleton

/-- Names in front of a text become their dotted name exactly if they are told apart. -/
theorem baseChars_names (hSome : names ≠ []) (hRest : rest.head? ≠ some ':')
    (hClosed : closedNames behind names = true) (hBehind : rest ≠ [] → behind = true)
    (hRoom : (dottedName names).length ≤ room) (hFuel : (joinNames names ++ rest).length < fuel)
    (hFuel' : rest.length < fuel') (v : List Char) :
    baseChars fuel room (joinNames names ++ rest) = dottedName names ++ v ↔
      readsNames names = true ∧
        baseChars fuel' (room - (dottedName names).length) rest = v := by
  induction names generalizing fuel room with
  | nil => exact absurd rfl hSome
  | cons name names ih =>
    cases names with
    | nil =>
      rw [joinNames_singleton] at hFuel ⊢
      rw [dottedName_singleton] at hRoom ⊢
      rw [closedNames, Bool.or_eq_true, Bool.not_eq_true', beq_iff_eq] at hClosed
      refine baseChars_name (iff_of_false hRest Bool.false_ne_true) (fun hNe => ?_) hRoom hFuel
        hFuel' v
      exact hClosed.resolve_left fun hNot => nomatch hNot.symm.trans (hBehind hNe)
    | cons next names =>
      rw [joinNames_cons, append_assoc, append_assoc] at hFuel ⊢
      rw [dottedName_cons] at hRoom ⊢
      rw [closedNames, Bool.and_eq_true, beq_iff_eq] at hClosed
      have hFuel'' := hFuel
      rw [length_append, length_append] at hFuel''
      rw [length_append, length_cons] at hRoom ⊢
      have hColonsFuel : (joinNames (next :: names) ++ rest).length + 2 <
          ("::".toList ++ (joinNames (next :: names) ++ rest)).length + 1 := by
        rw [length_append, length_append, length_append]
        show _ + 2 < 2 + _ + 1
        omega
      obtain ⟨room', hRoom'⟩ : ∃ k, room - (bareName 0 name).length = k + 1 :=
        ⟨room - (bareName 0 name).length - 1, by omega⟩
      rw [append_assoc, cons_append,
        baseChars_name (iff_of_true rfl (rfl : true = true)) (fun _ => hClosed.1) (by omega) hFuel
          (Nat.lt_succ_self _), hRoom',
        baseChars_colons hColonsFuel
          (Nat.lt_succ_self (joinNames (next :: names) ++ rest).length), cons_inj_right,
        ih (cons_ne_nil next names) hClosed.2 (by omega) (Nat.lt_succ_self _), readsNames,
        Bool.and_eq_true, and_assoc,
        show room - ((bareName 0 name).length + ((dottedName (next :: names)).length + 1)) =
          room' - (dottedName (next :: names)).length by omega]

/-- The first character outside of the angle brackets comes first, or a dot for two colons. -/
theorem head_baseChars (hAngle : rest ≠ [] → angleAfter 0 text = 0)
    (hHead : (bareName 0 text).head? = some c) (hSpace : isSpace c = false)
    (hFuel : (text ++ rest).length < fuel) :
    ∃ b, (baseChars fuel (room + 1) (text ++ rest)).head? = some b ∧ (b = c ∨ b = '.') := by
  obtain ⟨n, hn⟩ : ∃ n, n = text.length := ⟨_, rfl⟩
  induction n using Nat.strong_induction_on generalizing text fuel with
  | _ n ih =>
    cases text with
    | nil => exact nomatch hHead
    | cons a s =>
      cases fuel with
      | zero => exact absurd hFuel (Nat.not_lt_zero _)
      | succ fuel =>
        rw [cons_append, length_cons] at hFuel
        rw [length_cons] at hn
        rw [angleAfter] at hAngle
        rw [bareName] at hHead
        by_cases hOpen : a = '<'
        · rw [if_pos hOpen] at hAngle hHead
          obtain ⟨text', hSkip, hSame, -, hAngle', hLength⟩ := skipTemplate_append false hAngle
          rw [hSame] at hHead
          rw [cons_append, baseChars,
            if_neg (by rw [hOpen]; exact fun h => absurd h.1 (by decide)), if_pos hOpen, hSkip]
          refine ih text'.length (by omega) hAngle' hHead ?_ rfl
          rw [length_append] at hFuel ⊢
          omega
        · rw [if_neg hOpen] at hHead
          obtain rfl : a = c := Option.some.inj hHead
          rw [cons_append, baseChars]
          split
          · exact ⟨'.', rfl, Or.inr rfl⟩
          · rw [if_neg (by rw [hSpace]; exact Bool.false_ne_true)]
            exact ⟨a, rfl, Or.inl rfl⟩

/-- What stands outside of the angle brackets of closed names. -/
theorem mem_bareName_joinNames (hClosed : closedNames behind names = true)
    (hMem : c ∈ bareName 0 (joinNames names)) : c = ':' ∨ c ∈ dottedName names := by
  induction names with
  | nil => exact absurd hMem not_mem_nil
  | cons name names ih =>
    cases names with
    | nil =>
      rw [joinNames_singleton] at hMem
      rw [dottedName_singleton]
      exact Or.inr hMem
    | cons next names =>
      rw [closedNames, Bool.and_eq_true, beq_iff_eq] at hClosed
      rw [joinNames_cons, bareName_append, hClosed.1, mem_append] at hMem
      rw [dottedName_cons, mem_append, mem_cons]
      rcases hMem with hMem | hMem
      · exact Or.inr (Or.inl hMem)
      · have hColons : bareName 0 ("::".toList ++ joinNames (next :: names)) =
            ':' :: ':' :: bareName 0 (joinNames (next :: names)) := by
          show bareName 0 (':' :: ':' :: joinNames (next :: names)) = _
          rw [bareName, if_neg (by decide), bareName, if_neg (by decide)]
        rw [hColons, mem_cons, mem_cons] at hMem
        rcases hMem with rfl | rfl | hMem
        · exact Or.inl rfl
        · exact Or.inl rfl
        · exact (ih hClosed.2 hMem).imp_right fun h => Or.inr (Or.inr h)

end Base

/-! ## The parts of a text -/

/-- Qualifiers in front of a type. -/
inductive Quals : List Char → Prop
  | nil : Quals []
  | cons {w s : List Char} (hw : w = "const ".toList ∨ w = "volatile ".toList) (h : Quals s) :
      Quals (w ++ s)

/-- A text ends in no star, without the blanks at its end neither if no star follows it. -/
structure EndsPlain (marks : Nat) (s : List Char) : Prop where
  some : s ≠ []
  last : ∀ c ∈ s.getLast?, c ≠ '*' ∧ c ≠ '&'
  cut : marks = 0 → ∀ c ∈ (s.rdropWhile isSpace).getLast?, c ≠ '*' ∧ c ≠ '&'

/-- A text starts with no blank and no qualifier. -/
structure StartsPlain (s : List Char) : Prop where
  head : ∀ c ∈ s.head?, isSpace c = false
  const : ¬ "const ".toList <+: s
  volatile : ¬ "volatile ".toList <+: s

/-- A text between qualifiers and stars, with blanks behind it, and what it becomes. -/
structure BaseText (base blanks stars x : List Char) : Prop where
  converts : convertBase base = x
  some : base ≠ []
  starts : StartsPlain base
  last : ∀ c ∈ base.getLast?, isSpace c = false
  spaces : ∀ c ∈ blanks, isSpace c = true
  starChars : ∀ c ∈ stars, c = '*' ∨ c = '&'
  stop : blanks = [] ∨ stars = [] → ∀ c ∈ base.getLast?, c ≠ '*' ∧ c ≠ '&'

/-- No function pointer is found in a text: none starts in it, or nothing closes its arguments. -/
def NoFunction (s : List Char) : Prop :=
  ∀ before found, strstr "(*)(".toList s = some (before, found) → ')' ∉ found.drop 4

section Parts

variable {fuel n : Nat} {c : Char} {p s t quals base blanks stars x : List Char}

theorem prefix_of_append (h : p <+: s ++ t) (hHead : ∀ c ∈ t.head?, c ∉ p) : p <+: s := by
  induction s generalizing p with
  | nil =>
    cases p with
    | nil => exact prefix_refl []
    | cons c p =>
      obtain ⟨u, hu⟩ := h
      refine absurd mem_cons_self (hHead c ?_)
      rw [nil_append] at hu
      rw [← hu]
      rfl
  | cons a s ih =>
    cases p with
    | nil => exact List.nil_prefix
    | cons c p =>
      rw [cons_append, cons_prefix_cons] at h
      rw [cons_prefix_cons]
      exact ⟨h.1, ih h.2 fun d hd hMem => hHead d hd (mem_cons_of_mem c hMem)⟩

theorem Quals.append (hs : Quals s) (ht : Quals t) : Quals (s ++ t) := by
  induction hs with
  | nil => exact ht
  | cons hw _ ih =>
    rw [append_assoc]
    exact .cons hw ih

theorem Quals.head (h : Quals s) : ∀ c ∈ s.head?, isSpace c = false := by
  cases h with
  | nil => exact nofun
  | cons hw _ =>
    rcases hw with rfl | rfl
    all_goals
      intro c hc
      cases hc
      rfl

theorem Quals.strip (h : Quals quals) (hConst : ¬ "const ".toList <+: base)
    (hVolatile : ¬ "volatile ".toList <+: base) (hFuel : (quals ++ base).length ≤ fuel) :
    stripQualifiers fuel (quals ++ base) = base := by
  induction h generalizing fuel with
  | nil =>
    cases fuel with
    | zero => rfl
    | succ fuel =>
      rw [nil_append, stripQualifiers,
        if_neg fun h => hConst (List.isPrefixOf_iff_prefix.1 h),
        if_neg fun h => hVolatile (List.isPrefixOf_iff_prefix.1 h)]
  | @cons w s hw _ ih =>
    have hPos : 0 < w.length := by
      rcases hw with rfl | rfl
      all_goals decide
    rw [append_assoc, length_append] at hFuel
    obtain ⟨fuel, rfl⟩ : ∃ k, fuel = k + 1 := ⟨fuel - 1, by omega⟩
    have hRest : stripQualifiers fuel (s ++ base) = base := ih (by omega)
    rw [append_assoc, stripQualifiers]
    rcases hw with rfl | rfl
    · rw [if_pos (List.isPrefixOf_iff_prefix.2 (prefix_append _ _))]
      exact hRest
    · rw [if_neg fun h => absurd (List.isPrefixOf_iff_prefix.1 h) (by
          rintro ⟨u, hu⟩
          exact absurd (List.cons.inj hu).1 (by decide)),
        if_pos (List.isPrefixOf_iff_prefix.2 (prefix_append _ _))]
      exact hRest

theorem head_append (hs : ∀ c ∈ s.head?, isSpace c = false) (ht : ∀ c ∈ t.head?, isSpace c = false) :
    ∀ c ∈ (s ++ t).head?, isSpace c = false := by
  cases s with
  | nil => exact ht
  | cons c s => exact hs

theorem BaseText.trimmed (hBase : BaseText base blanks stars x) (hQuals : Quals quals) :
    Trimmed (quals ++ base) := by
  refine ⟨head_append hQuals.head hBase.starts.head, fun c hc => hBase.last c ?_⟩
  rwa [getLast?_append_of_ne_nil quals hBase.some] at hc

/-- What is left of the text of a type without the blanks at its end. -/
theorem BaseText.trim_eq (hBase : BaseText base blanks stars x) (hQuals : Quals quals) :
    ∃ back, (∀ c ∈ back, isSpace c = true) ∧
      trim (quals ++ base ++ blanks ++ stars) = quals ++ base ++ back ++ stars ∧
      ∀ c ∈ (quals ++ base ++ back).getLast?, c ≠ '*' ∧ c ≠ '&' := by
  have hTrimmed := hBase.trimmed hQuals
  have hLast : ∀ c ∈ (quals ++ base).getLast?, c ∈ base.getLast? := by
    intro c hc
    rwa [getLast?_append_of_ne_nil quals hBase.some] at hc
  cases hStars : stars with
  | nil =>
    refine ⟨[], nofun, ?_, fun c hc => ?_⟩
    · rw [append_nil, append_nil, append_nil, hTrimmed.trim_append hBase.spaces]
    · rw [append_nil] at hc
      exact hBase.stop (Or.inr hStars) c (hLast c hc)
  | cons d s =>
    refine ⟨blanks, hBase.spaces, Trimmed.trim_eq ⟨?_, ?_⟩, fun c hc => ?_⟩
    · intro c hc
      rw [append_assoc, head?_append_of_ne_nil _
        (append_ne_nil_of_right_ne_nil quals hBase.some)] at hc
      exact hTrimmed.head c hc
    · intro c hc
      rw [getLast?_append_of_ne_nil _ (cons_ne_nil d s), ← hStars] at hc
      rcases hBase.starChars c (mem_of_getLast? hc) with rfl | rfl
      all_goals rfl
    · by_cases hBlanks : blanks = []
      · rw [hBlanks, append_nil] at hc
        exact hBase.stop (Or.inl hBlanks) c (hLast c hc)
      · rw [getLast?_append_of_ne_nil _ hBlanks] at hc
        have hSpace := hBase.spaces c (mem_of_getLast? hc)
        constructor
        all_goals
          rintro rfl
          exact nomatch hSpace

theorem mem_convertBase (h : c ∈ convertBase s) : isSpace c = false := by
  unfold convertBase at h
  split at h
  · rename_i hPrim
    rw [matchPrimitive] at hPrim
    obtain ⟨p, hp, rfl⟩ := Option.map_eq_some_iff.1 hPrim
    have hPrims : kPrims.all (fun p => p.2.toList.all (! isSpace ·)) = true := by decide
    have hPrim := all_eq_true.1 hPrims p (mem_of_find?_eq_some hp)
    have hNot := all_eq_true.1 hPrim c h
    rwa [Bool.not_eq_true'] at hNot
  · dsimp only at h
    split at h
    · have hUnknown : "unknown".toList.all (! isSpace ·) = true := by decide
      have hNot := all_eq_true.1 hUnknown c h
      rwa [Bool.not_eq_true'] at hNot
    · exact mem_baseChars h

/-- A text without function pointers: the stars at its end in front of the base. -/
theorem convertOne_plain (hText : trim (CString.snprintf 256 s) = t)
    (hBase : trim ((t.reverse.dropWhile fun c => c = '*' ∨ c = '&').reverse) = base)
    (hMarker : NoFunction t) (hSome : t ≠ []) :
    convertOne (fuel + 1) n s = CString.snprintf n (List.replicate
      (min (t.reverse.takeWhile fun c => c = '*' ∨ c = '&').length 7) '*' ++
        convertBase (trim (stripQualifiers base.length base))) := by
  rw [convertOne, hText]
  dsimp only
  rw [if_neg hSome]
  split
  · rename_i hDots
    rw [← hBase, hDots]
    exact congrArg (CString.snprintf n) (by decide)
  · rw [hBase]
    split
    · rfl
    · rename_i before found hFound
      rw [beforeLast, if_neg (hMarker before found hFound)]

theorem mem_convertOne (hMarker : NoFunction (trim (CString.snprintf 256 s)))
    (hMem : c ∈ convertOne fuel n s) : isSpace c = false := by
  cases fuel with
  | zero => exact absurd hMem not_mem_nil
  | succ fuel =>
    by_cases hSome : trim (CString.snprintf 256 s) = []
    · rw [convertOne, hSome] at hMem
      exact absurd hMem not_mem_nil
    · rw [convertOne_plain rfl rfl hMarker hSome] at hMem
      rcases mem_append.1 (mem_of_mem_take hMem) with hStar | hBase
      · rw [eq_of_mem_replicate hStar]
        rfl
      · exact mem_convertBase hBase

/-- The parts of a text without function pointers. -/
theorem convertOne_parts (hQuals : Quals quals) (hBase : BaseText base blanks stars x)
    (hMarker : NoFunction (trim (quals ++ base ++ blanks ++ stars)))
    (hText : (quals ++ base ++ blanks ++ stars).length < 256) :
    convertOne (fuel + 1) n (quals ++ base ++ blanks ++ stars) =
      CString.snprintf n (List.replicate (min stars.length 7) '*' ++ x) := by
  obtain ⟨back, hBack, hTrim, hLast⟩ := hBase.trim_eq hQuals
  have hStarChars : ∀ c ∈ stars.reverse, decide (c = '*' ∨ c = '&') = true := fun c hc =>
    decide_eq_true (hBase.starChars c (mem_reverse.1 hc))
  have hStop : ∀ c ∈ (quals ++ base ++ back).reverse.head?, decide (c = '*' ∨ c = '&') = false := by
    intro c hc
    rw [head?_reverse] at hc
    exact decide_eq_false (not_or.2 (hLast c hc))
  have hTake : (quals ++ base ++ back ++ stars).reverse.takeWhile (fun c => c = '*' ∨ c = '&') =
      stars.reverse := by
    rw [reverse_append, takeWhile_append_of_pos hStarChars]
    cases hEq : (quals ++ base ++ back).reverse with
    | nil => exact append_nil _
    | cons c s =>
      rw [takeWhile_cons_of_neg, append_nil]
      rw [hStop c (by rw [hEq]; rfl)]
      exact Bool.false_ne_true
  have hDrop : (quals ++ base ++ back ++ stars).reverse.dropWhile (fun c => c = '*' ∨ c = '&') =
      (quals ++ base ++ back).reverse := by
    rw [reverse_append, dropWhile_append_of_pos hStarChars]
    exact dropWhile_of_head hStop
  have hCore : trim (((quals ++ base ++ back ++ stars).reverse.dropWhile
      fun c => c = '*' ∨ c = '&').reverse) = quals ++ base := by
    rw [hDrop, reverse_reverse, (hBase.trimmed hQuals).trim_append hBack]
  have hSome : quals ++ base ++ back ++ stars ≠ [] := by
    simp only [append_assoc]
    exact append_ne_nil_of_right_ne_nil _ (append_ne_nil_of_left_ne_nil hBase.some _)
  rw [hTrim] at hMarker
  rw [convertOne_plain (by rw [snprintf_of_lt hText, hTrim]) hCore hMarker hSome, hTake,
    length_reverse, hQuals.strip hBase.starts.const hBase.starts.volatile (Nat.le_refl _),
    Trimmed.trim_eq ⟨hBase.starts.head, hBase.last⟩, hBase.converts]

/-- The blanks around a text do not matter. -/
theorem convertOne_trim (h : s.length < 256) : convertOne fuel n (trim s) = convertOne fuel n s := by
  cases fuel with
  | zero => rfl
  | succ fuel =>
    rw [convertOne, convertOne, snprintf_of_lt h,
      snprintf_of_lt (Nat.lt_of_le_of_lt (length_trim_le s) h), (trimmed_trim s).trim_eq]

end Parts

end Calynda.Decompiler
