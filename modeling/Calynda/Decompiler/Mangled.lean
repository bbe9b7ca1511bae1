import Calynda.Decompiler.Prefixes

/-!
# Mangled names and what they stand for

Derivations of the type grammar, their mangled text and their rendering. The demangler reads the
mangled text of a derivation back to its rendering, whatever text follows, as long as all
renderings fit their buffers.
-/

namespace Calynda.Decompiler

open List CString

/-! ## The type grammar -/

/-- A derivation of the grammar; a name keeps the digits of its length. -/
inductive CwType where
  | prim (c : Char)
  | name (digits text : List Char)
  | qualified (names : List (List Char × List Char))
  | mark (c : Char) (t : CwType)
  | array (digits : List Char) (t : CwType)
  | fnptr (args : List CwType) (ret : CwType)

def mangleName (x : List Char × List Char) : List Char := x.1 ++ x.2

mutual

def mangle : CwType → List Char
  | .prim c => [c]
  | .name digits text => mangleName (digits, text)
  | .qualified names => 'Q' :: Nat.digitChar names.length :: names.flatMap mangleName
  | .mark c t => c :: mangle t
  | .array digits t => 'A' :: (digits ++ '_' :: mangle t)
  | .fnptr args ret => 'F' :: (mangleAll args ++ '_' :: mangle ret)

def mangleAll : List CwType → List Char
  | [] => []
  | t :: ts => mangle t ++ mangleAll ts

end

def joinArgs (texts : List (List Char)) : List Char := ", ".toList.intercalate texts

def joinNames (texts : List (List Char)) : List Char := "::".toList.intercalate texts

def renderMark (c : Char) (inner : List Char) : List Char :=
  if c = 'P' then inner ++ ['*']
  else if c = 'R' then inner ++ ['&']
  else if c = 'C' then "const ".toList ++ inner
  else if c = 'V' then "volatile ".toList ++ inner
  else if c = 'U' then "unsigned ".toList ++ inner
  else "signed ".toList ++ inner

mutual

/-- The whole text of a type. -/
def render : CwType → List Char
  | .prim c => (primName c).getD []
  | .name _ text => text
  | .qualified names => joinNames (names.map Prod.snd)
  | .mark c t => renderMark c (render t)
  | .array digits t => render t ++ '[' :: Nat.toDigits 10 (digitsFrom 0 digits) ++ [']']
  | .fnptr args ret => render ret ++ "(*)(".toList ++ joinArgs (renderAll args) ++ ")".toList

def renderAll : List CwType → List (List Char)
  | [] => []
  | t :: ts => render t :: renderAll ts

end

/-- Digits and as many characters, of which the first one is no digit. -/
structure IsName (digits text : List Char) : Prop where
  digits_ne : digits ≠ []
  digits_all : ∀ d ∈ digits, d.isDigit = true
  length_eq : digitsFrom 0 digits = text.length
  text_ne : text ≠ []
  head_not : ∀ c ∈ text.head?, c.isDigit = false

mutual

/-- The derivations of the grammar. The dimension of an array is an `int`. -/
def Derivable : CwType → Prop
  | .prim c => (primName c).isSome
  | .name digits text => IsName digits text
  | .qualified names =>
    1 ≤ names.length ∧ names.length ≤ 9 ∧ ∀ x ∈ names, IsName x.1 x.2
  | .mark c t => c ∈ ['P', 'R', 'C', 'V', 'U', 'S'] ∧ Derivable t
  | .array digits t =>
    digits ≠ [] ∧ (∀ d ∈ digits, d.isDigit = true) ∧ digitsFrom 0 digits ≤ intMax ∧ Derivable t
  | .fnptr args ret => DerivableAll args ∧ Derivable ret

def DerivableAll : List CwType → Prop
  | [] => True
  | t :: ts => Derivable t ∧ DerivableAll ts

end

mutual

/-- The renderings inside a type fit their buffers. -/
def InnerFits : CwType → Prop
  | .prim _ => True
  | .name _ _ => True
  | .qualified names =>
    (∀ x ∈ names, x.2.length < 128) ∧ (joinNames (names.map Prod.snd)).length < 256
  | .mark c t => (render t).length < (if c = 'U' ∨ c = 'S' then 128 else 256) ∧ InnerFits t
  | .array _ t => (render t).length < 128 ∧ InnerFits t
  | .fnptr args ret =>
    InnerFitsAll args ∧ (joinArgs (renderAll args)).length < 384 ∧
      (render ret).length < 128 ∧ InnerFits ret

def InnerFitsAll : List CwType → Prop
  | [] => True
  | t :: ts => ((render t).length < 128 ∧ InnerFits t) ∧ InnerFitsAll ts

end

/-! ## Numbers and names -/

theorem leadingNumber_append {ds s : List Char} (hDs : ∀ d ∈ ds, d.isDigit = true)
    (hHead : ∀ c ∈ s.head?, c.isDigit = false) :
    leadingNumber (ds ++ s) = digitsFrom 0 ds ∧ afterNumber (ds ++ s) = s := by
  have hStop : s.takeWhile Char.isDigit = [] ∧ s.dropWhile Char.isDigit = s := by
    cases s with
    | nil => exact ⟨rfl, rfl⟩
    | cons c s =>
      have hc : ¬ c.isDigit = true := by rw [hHead c rfl]; exact Bool.false_ne_true
      exact ⟨takeWhile_cons_of_neg hc, dropWhile_cons_of_neg hc⟩
  rw [leadingNumber, afterNumber, takeWhile_append_of_pos hDs,
    dropWhile_append_of_pos hDs, hStop.1, hStop.2, append_nil]
  exact ⟨rfl, rfl⟩

theorem IsName.parse {digits text : List Char} (h : IsName digits text) {n : Nat}
    (hRoom : text.length < n) (hInt : text.length ≤ intMax) (rest : List Char) :
    dmgParseName n (mangleName (digits, text) ++ rest) = .ok text rest := by
  have hHead : ∀ c ∈ (text ++ rest).head?, c.isDigit = false := by
    intro c hc
    refine h.head_not c ?_
    cases hText : text with
    | nil => exact absurd hText h.text_ne
    | cons d text => rwa [hText] at hc
  obtain ⟨hNumber, hAfter⟩ := leadingNumber_append h.digits_all hHead
  have hPos : 0 < text.length := length_pos_iff.2 h.text_ne
  rw [mangleName, append_assoc, dmgParseName_eq, hNumber, hAfter, h.length_eq,
    if_pos hInt, if_neg (by omega), if_neg (by rw [length_append]; omega),
    take_left, drop_left]

/-- The components of a qualifier are read one after the other. -/
theorem dmgComponents_mangle (names : List (List Char × List Char)) (isFirst : Bool)
    (qual rest : List Char) (hNames : ∀ x ∈ names, IsName x.1 x.2 ∧ x.2.length < 128)
    (hLength : (joinNames (if isFirst then names.map Prod.snd
      else qual :: names.map Prod.snd)).length < 256)
    (hFirst : isFirst = true → qual = [] ∧ names ≠ []) :
    dmgComponents isFirst qual names.length (names.flatMap mangleName ++ rest) =
      .ok (joinNames (if isFirst then names.map Prod.snd else qual :: names.map Prod.snd))
        rest := by
  induction names generalizing isFirst qual with
  | nil =>
    cases isFirst with
    | true => exact absurd rfl (hFirst rfl).2
    | false =>
      simp only [Bool.false_eq_true, if_false, map_nil, joinNames,
        intercalate_singleton]
      rfl
  | cons x names ih =>
    obtain ⟨⟨hName, hRoom⟩, hNames'⟩ := forall_mem_cons.1 hNames
    have hParse := hName.parse hRoom (Nat.le_trans (Nat.le_of_lt hRoom) (by decide))
      (names.flatMap mangleName ++ rest)
    rw [length_cons, flatMap_cons, append_assoc, dmgComponents, hParse,
      Parse.bind_ok]
    -- the qualifier with one more component
    obtain ⟨next, hNext, hJoin⟩ : ∃ next, strncat 256
        (if isFirst then qual else strncat 256 qual "::".toList) x.2 = next ∧
        joinNames (if isFirst then (x :: names).map Prod.snd
          else qual :: (x :: names).map Prod.snd) = joinNames (next :: names.map Prod.snd) := by
      cases isFirst with
      | true =>
        obtain ⟨rfl, -⟩ := hFirst rfl
        exact ⟨x.2, strncat_of_lt (by simpa using Nat.lt_trans hRoom (by decide)), rfl⟩
      | false =>
        refine ⟨qual ++ "::".toList ++ x.2, ?_, (intercalate_append _ _ _ _).symm⟩
        exact strncat_intercalate hLength
    dsimp only
    rw [hNext, hJoin]
    rw [hJoin] at hLength
    exact ih false next hNames' hLength (fun h => by cases h)

/-! ## Types -/

theorem primName_ne {c : Char} (h : (primName c).isSome) : (primName c).getD [] ≠ [] := by
  unfold primName at h ⊢
  split
  case h_12 => simp at h
  all_goals decide

theorem joinNames_ne {x : List Char} {names : List (List Char)} (hx : x ≠ []) :
    joinNames (x :: names) ≠ [] := by
  intro hNil
  have hLe := length_le_intercalate "::".toList x names
  rw [joinNames] at hNil
  rw [hNil, length_nil, Nat.le_zero, length_eq_zero_iff] at hLe
  exact hx hLe

theorem renderMark_ne (c : Char) (inner : List Char) : renderMark c inner ≠ [] := by
  rw [renderMark]
  repeat' split
  all_goals simp

theorem render_ne (t : CwType) (h : Derivable t) : render t ≠ [] := by
  cases t with
  | prim c =>
    rw [Derivable] at h
    rw [render]
    exact primName_ne h
  | name digits text =>
    rw [Derivable] at h
    rw [render]
    exact h.text_ne
  | qualified names =>
    rw [Derivable] at h
    obtain ⟨hPos, -, hNames⟩ := h
    rw [render]
    cases names with
    | nil => exact absurd hPos (by decide)
    | cons x names => exact joinNames_ne (hNames x mem_cons_self).text_ne
  | mark c t =>
    rw [render]
    exact renderMark_ne c _
  | array digits t =>
    rw [render]
    simp
  | fnptr args ret =>
    rw [render]
    simp

/-- A type starts with a character that ends no list of arguments. -/
theorem mangle_cons (t : CwType) (h : Derivable t) : ∃ c s, mangle t = c :: s ∧ c ≠ '_' := by
  cases t with
  | prim c =>
    rw [Derivable] at h
    rw [mangle]
    exact ⟨c, [], rfl, by rintro rfl; exact absurd h (by decide)⟩
  | name digits text =>
    rw [Derivable] at h
    rw [mangle, mangleName]
    cases digits with
    | nil => exact absurd rfl h.digits_ne
    | cons d ds =>
      refine ⟨d, ds ++ text, rfl, ?_⟩
      rintro rfl
      exact absurd (h.digits_all '_' mem_cons_self) (by decide)
  | qualified names =>
    rw [mangle]
    exact ⟨_, _, rfl, by decide⟩
  | mark c t =>
    rw [Derivable] at h
    rw [mangle]
    exact ⟨c, mangle t, rfl, by rintro rfl; exact absurd h.1 (by decide)⟩
  | array digits t =>
    rw [mangle]
    exact ⟨_, _, rfl, by decide⟩
  | fnptr args ret =>
    rw [mangle]
    exact ⟨_, _, rfl, by decide⟩

/-- The list of arguments so far and the ones to come. -/
def argsBehind (args : List Char) (texts : List (List Char)) : List Char :=
  if args = [] then joinArgs texts else joinArgs (args :: texts)

theorem addArg_eq {args text : List Char} {texts : List (List Char)}
    (h : (argsBehind args (text :: texts)).length < 384) (hText : text ≠ []) :
    argsBehind (addArg args text) texts = argsBehind args (text :: texts) := by
  rw [addArg]
  by_cases hNil : args = []
  · subst hNil
    have hLe := length_le_intercalate ", ".toList text texts
    rw [argsBehind, if_pos rfl, joinArgs] at h
    rw [if_pos rfl, strncat_of_lt (by rw [length_nil]; omega), nil_append, argsBehind,
      argsBehind, if_neg hText, if_pos rfl]
  · rw [argsBehind, if_neg hNil] at h
    rw [if_neg hNil, strncat_intercalate h, argsBehind, argsBehind, if_neg (by simp),
      if_neg hNil]
    exact intercalate_append _ _ _ _

theorem digitChar_count {k : Nat} (hPos : 1 ≤ k) (hLe : k ≤ 9) :
    '1' ≤ Nat.digitChar k ∧ Nat.digitChar k ≤ '9' ∧ (Nat.digitChar k).toNat - 48 = k := by
  interval_cases k <;> decide

mutual

/-- Reading a mangled type gives its rendering, and leaves the text behind it. -/
theorem dmgParseType_mangle : ∀ (t : CwType) (n fuel : Nat) (rest : List Char), Derivable t →
    InnerFits t → n ≤ 384 → (render t).length < n → 2 * (mangle t ++ rest).length + 1 ≤ fuel →
      dmgParseType fuel n (mangle t ++ rest) = .ok (render t) rest
  | .prim c, n, fuel + 1, rest, h, _, hn, hRoom, _ => by
    rw [Derivable] at h
    obtain ⟨name, hName⟩ := Option.isSome_iff_exists.1 h
    rw [render, hName, Option.getD_some] at hRoom ⊢
    rw [mangle, singleton_append, dmgParseType_prim (by omega) hName,
      snprintf_of_lt hRoom]
  | .name digits text, n, fuel + 1, rest, h, _, hn, hRoom, _ => by
    rw [Derivable] at h
    rw [render] at hRoom ⊢
    rw [mangle]
    have hInt : text.length ≤ intMax := Nat.le_trans (by omega : _ ≤ 384) (by decide)
    have hParse := h.parse hRoom hInt rest
    obtain ⟨d, ds, rfl⟩ := exists_cons_of_ne_nil h.digits_ne
    have hDigit := h.digits_all d mem_cons_self
    rw [mangleName, cons_append, cons_append] at hParse ⊢
    rw [dmgParseType_name (by omega) hDigit, hParse]
  | .qualified names, n, fuel + 1, rest, h, hInner, _, hRoom, _ => by
    rw [Derivable] at h
    rw [InnerFits] at hInner
    obtain ⟨hPos, hNine, hNames⟩ := h
    obtain ⟨hLo, hHi, hCount⟩ := digitChar_count hPos hNine
    rw [render] at hRoom ⊢
    have hQual := dmgComponents_mangle names true [] rest
      (fun x hx => ⟨hNames x hx, hInner.1 x hx⟩) hInner.2
      (fun _ => ⟨rfl, length_pos_iff.1 hPos⟩)
    rw [mangle, cons_append, cons_append, dmgParseType_qualified (by omega),
      if_pos ⟨hLo, hHi⟩, hCount, hQual, Parse.bind_ok, if_pos rfl, snprintf_of_lt hRoom]
  | .mark c t, n, fuel + 1, rest, h, hInner, _, hRoom, hFuel => by
    rw [Derivable] at h
    rw [InnerFits] at hInner
    rw [render] at hRoom ⊢
    rw [mangle, cons_append] at hFuel ⊢
    rw [length_cons] at hFuel
    have hc : c = 'P' ∨ c = 'R' ∨ c = 'C' ∨ c = 'V' ∨ c = 'U' ∨ c = 'S' := by simpa using h.1
    have hStep := fun m hLe hm => dmgParseType_mangle t m fuel rest h.2 hInner.2 hLe hm (by omega)
    rcases hc with rfl | rfl | rfl | rfl | rfl | rfl
    · rw [dmgParseType_pointer (by omega) (by decide), hStep 256 (by decide) hInner.1, Parse.bind_ok]
      exact congrArg (Parse.ok · rest) (snprintf_of_lt hRoom)
    · rw [dmgParseType_pointer (by omega) (by decide), hStep 256 (by decide) hInner.1, Parse.bind_ok]
      exact congrArg (Parse.ok · rest) (snprintf_of_lt hRoom)
    · rw [dmgParseType_const (by omega) (by decide), hStep 256 (by decide) hInner.1, Parse.bind_ok]
      exact congrArg (Parse.ok · rest) (snprintf_of_lt hRoom)
    · rw [dmgParseType_const (by omega) (by decide), hStep 256 (by decide) hInner.1, Parse.bind_ok]
      exact congrArg (Parse.ok · rest) (snprintf_of_lt hRoom)
    · rw [dmgParseType_sign (by omega) (by decide), hStep 128 (by decide) hInner.1, Parse.bind_ok]
      exact congrArg (Parse.ok · rest) (snprintf_of_lt hRoom)
    · rw [dmgParseType_sign (by omega) (by decide), hStep 128 (by decide) hInner.1, Parse.bind_ok]
      exact congrArg (Parse.ok · rest) (snprintf_of_lt hRoom)
  | .array digits t, n, fuel + 1, rest, h, hInner, _, hRoom, hFuel => by
    rw [Derivable] at h
    rw [InnerFits] at hInner
    obtain ⟨-, hDigits, hInt, hType⟩ := h
    rw [render] at hRoom ⊢
    rw [mangle, cons_append, append_assoc, cons_append] at hFuel ⊢
    rw [length_cons, length_append, length_cons] at hFuel
    obtain ⟨hNumber, hAfter⟩ := leadingNumber_append (s := '_' :: (mangle t ++ rest)) hDigits
      (by rintro c hc; cases hc; decide)
    have hStep := dmgParseType_mangle t 128 fuel rest hType hInner.2 (by decide) hInner.1 (by omega)
    rcases array_cases fuel n (by omega) (digits ++ '_' :: (mangle t ++ rest)) with
      ⟨hBig, _⟩ | ⟨_, u, hu, hEq⟩ | ⟨_, hNone, _⟩
    · exact absurd (hNumber ▸ hInt) hBig
    · rw [hAfter] at hu
      cases hu
      rw [hEq, hStep, Parse.bind_ok, hNumber, snprintf_of_lt hRoom]
    · exact absurd hAfter (hNone _)
  | .fnptr args ret, n, fuel + 1, rest, h, hInner, _, hRoom, hFuel => by
    rw [Derivable] at h
    rw [InnerFits] at hInner
    obtain ⟨hArgsFit, hAll, hRet, hRetInner⟩ := hInner
    rw [render] at hRoom ⊢
    rw [mangle, cons_append, append_assoc, cons_append] at hFuel ⊢
    rw [length_cons] at hFuel
    have hArgs := dmgFnArgs_mangle args fuel [] ('_' :: (mangle ret ++ rest)) h.1 hArgsFit
      (Or.inr ⟨_, rfl⟩) hAll (by omega)
    rw [length_append, length_cons] at hFuel
    have hStep := dmgParseType_mangle ret 128 fuel rest h.2 hRetInner (by decide) hRet (by omega)
    rw [dmgParseType_fnptr (by omega), hArgs, Parse.bind_ok]
    simp only [hStep, Parse.bind_ok]
    rw [argsBehind, if_pos rfl, snprintf_of_lt hRoom]

theorem dmgFnArgs_mangle : ∀ (ts : List CwType) (fuel : Nat) (args rest : List Char),
    DerivableAll ts → InnerFitsAll ts → Closed rest →
      (argsBehind args (renderAll ts)).length < 384 →
      2 * (mangleAll ts ++ rest).length + 2 ≤ fuel →
      dmgFnArgs fuel args (mangleAll ts ++ rest) = .ok (argsBehind args (renderAll ts)) rest
  | [], fuel + 1, args, rest, _, _, hClosed, _, _ => by
    have hArgs : argsBehind args (renderAll []) = args := by
      rw [argsBehind, renderAll]
      split
      case isTrue h => rw [h]; rfl
      case isFalse => exact intercalate_singleton
    rw [hArgs]
    rcases hClosed with rfl | ⟨u, rfl⟩
    · exact dmgFnArgs_nil fuel args
    · exact dmgFnArgs_underscore fuel args u
  | t :: ts, fuel + 1, args, rest, h, hInner, hClosed, hRoom, hFuel => by
    rw [DerivableAll] at h
    rw [InnerFitsAll] at hInner
    rw [renderAll] at hRoom
    obtain ⟨c, s, hMangle, hc⟩ := mangle_cons t h.1
    rw [mangleAll, append_assoc] at hFuel ⊢
    rw [length_append, hMangle, length_cons] at hFuel
    have hType := dmgParseType_mangle t 128 fuel (mangleAll ts ++ rest) h.1 hInner.1.2 (by decide)
      hInner.1.1
      (by rw [length_append, hMangle, length_cons]; omega)
    have hNext := addArg_eq hRoom (render_ne t h.1)
    rw [hMangle, cons_append] at hType ⊢
    rw [dmgFnArgs_cons fuel args hc, hType, Parse.bind_ok, renderAll, ← hNext]
    exact dmgFnArgs_mangle ts fuel _ rest h.2 hInner.2 hClosed (hNext ▸ hRoom) (by omega)

end

/-! ## Symbols -/

/-- The part of a method name where a separator is looked for. -/
def afterUnderscores : List Char → List Char
  | '_' :: '_' :: s => s
  | s => s

/-- A method name without an embedded separator. A single underscore would run into the one that
follows. -/
structure IsMethod (name : List Char) : Prop where
  name_ne : name ≠ []
  length_lt : name.length < 128
  ne_underscore : name ≠ ['_']
  no_split : ∀ s, s <:+ afterUnderscores name → isSplit s = false

theorem isSplit_third {a b c : Char} {s t : List Char} :
    isSplit (a :: b :: c :: s) = isSplit (a :: b :: c :: t) := by
  unfold isSplit
  split
  case h_1 heq =>
    cases heq
    rfl
  case h_2 h =>
    split
    case h_1 heq => cases heq; exact absurd rfl (h _ _)
    case h_2 => rfl

theorem isSplit_underscore (a b : Char) (s : List Char) : isSplit (a :: b :: '_' :: s) = false := by
  unfold isSplit
  split
  case h_1 heq => cases heq; decide
  case h_2 => rfl

theorem isSplit_of_length_lt {s : List Char} (h : s.length < 3) : isSplit s = false := by
  unfold isSplit
  split
  case h_1 => exact absurd h (by simp)
  case h_2 => rfl

/-- The first separator is the one behind the name. -/
theorem findSplitFrom_append {name sep : List Char} (hName : ∀ s, s <:+ name → isSplit s = false)
    (hSep : isSplit ('_' :: '_' :: sep) = true) :
    findSplitFrom (name ++ '_' :: '_' :: sep) = some (name, '_' :: '_' :: sep) := by
  induction name with
  | nil => rw [nil_append, findSplitFrom, if_pos hSep]
  | cons a name ih =>
    have hNot : isSplit (a :: (name ++ '_' :: '_' :: sep)) = false := by
      match name with
      | [] => exact isSplit_underscore a '_' sep
      | [b] => exact isSplit_underscore a b ('_' :: sep)
      | b :: d :: name =>
        rw [cons_append, cons_append, isSplit_third]
        exact hName _ (suffix_refl _)
    rw [cons_append, findSplitFrom, if_neg (by rw [hNot]; exact Bool.false_ne_true),
      ih fun s hs => hName s (hs.trans (suffix_cons a name))]
    rfl

theorem findSplit_append {name sep : List Char} (h : IsMethod name)
    (hSep : isSplit ('_' :: '_' :: sep) = true) :
    findSplit (name ++ '_' :: '_' :: sep) = some (name, '_' :: '_' :: sep) := by
  have hPlain : ∀ c s, name = c :: s → (c ≠ '_' ∨ ∃ d t, s = d :: t ∧ d ≠ '_') →
      findSplit (name ++ '_' :: '_' :: sep) = some (name, '_' :: '_' :: sep) := by
    intro c s hEq hHead
    have hAfter : afterUnderscores name = name := by
      rw [hEq, afterUnderscores]
      rintro t ht
      cases ht
      rcases hHead with hc | ⟨d, t, hd, hNe⟩
      · exact absurd rfl hc
      · cases hd
        exact absurd rfl hNe
    have hFrom := findSplitFrom_append (fun s hs => h.no_split s (hAfter.symm ▸ hs)) hSep
    rw [← hFrom, hEq, cons_append, findSplit]
    rintro t ht
    rcases hHead with hc | ⟨d, u, rfl, hNe⟩
    · exact absurd (List.cons.inj ht).1 hc
    · exact absurd (List.cons.inj (List.cons.inj ht).2).1 hNe
  cases name with
  | nil => exact absurd rfl h.name_ne
  | cons c s =>
    by_cases hc : c = '_'
    · subst hc
      cases s with
      | nil => exact absurd rfl h.ne_underscore
      | cons d t =>
        by_cases hd : d = '_'
        · subst hd
          have hFrom : findSplitFrom (t ++ '_' :: '_' :: sep) = some (t, '_' :: '_' :: sep) :=
            findSplitFrom_append h.no_split hSep
          rw [cons_append, cons_append, findSplit, hFrom]
          rfl
        · exact hPlain _ _ rfl (Or.inr ⟨d, t, rfl, hd⟩)
    · exact hPlain _ _ rfl (Or.inl hc)

/-- A qualifier is a name whose length does not start with a zero, or several names. -/
structure IsQualifier (q : CwType) : Prop where
  derivable : Derivable q
  qualified : Qualified (mangle q)
  inner : InnerFits q
  length_lt : (render q).length < 256

def mangleQual : Option CwType → List Char
  | none => []
  | some q => mangle q

def renderQual : Option CwType → List Char
  | none => []
  | some q => render q

def mangleSymbol (name : List Char) (qual : Option CwType) (marks : List Char)
    (types : List CwType) (tail : List Char) : List Char :=
  name ++ '_' :: '_' :: (mangleQual qual ++ marks ++ 'F' :: (mangleAll types ++ tail))

theorem cwArgs_of_ok {fuel : Nat} {args s out rest : List Char}
    (h : dmgFnArgs fuel args s = .ok out rest) : cwArgs fuel args s = .ok out rest := by
  induction fuel generalizing args s with
  | zero =>
    rw [dmgFnArgs.eq_def] at h
    cases h
  | succ fuel ih =>
    cases s with
    | nil => rwa [dmgFnArgs_nil] at h
    | cons c s =>
      rw [cwArgs]
      by_cases hc : c = '_'
      · subst hc
        rw [dmgFnArgs_underscore] at h
        rw [if_pos rfl, h]
      · rw [dmgFnArgs_cons fuel args hc] at h
        obtain ⟨t, u, hType, hRest⟩ := Parse.bind_eq_ok h
        rw [if_neg hc, hType]
        exact ih hRest

/-- What is returned for a signature with these arguments. -/
def demangled (name qualifier marks args : List Char) : CwDemangled :=
  let printed := '(' :: args ++ [')']
  let (kind, method) := classify name qualifier
  let suffix := (if 'C' ∈ marks then " const".toList else []) ++
    (if 'V' ∈ marks then " volatile".toList else [])
  { ok := true, kind := kind, qualifier := qualifier, method := method, args := printed,
    pretty := snprintf 1024 (if qualifier ≠ [] then
      qualifier ++ "::".toList ++ method ++ printed ++ suffix else method ++ printed ++ suffix) }

theorem joinArgs_ne {t : CwType} {ts : List CwType} (h : Derivable t) :
    joinArgs (renderAll (t :: ts)) ≠ [] := by
  intro hNil
  have hLe := length_le_intercalate ", ".toList (render t) (renderAll ts)
  rw [renderAll, joinArgs] at hNil
  rw [hNil, length_nil, Nat.le_zero, length_eq_zero_iff] at hLe
  exact render_ne t h hLe

theorem cwSignature_mangle {types : List CwType} (hNe : types ≠ []) (hDer : DerivableAll types)
    (hFits : InnerFitsAll types) (hRoom : (joinArgs (renderAll types)).length < 384)
    {marks tail : List Char} (hMarks : ∀ c ∈ marks, c = 'C' ∨ c = 'V') (hTail : Closed tail)
    (verbatim name qualifier : List Char) :
    cwSignature verbatim name qualifier (marks ++ 'F' :: (mangleAll types ++ tail)) =
      .ok (demangled name qualifier marks (joinArgs (renderAll types))) := by
  have hAll : ∀ c ∈ marks, decide (c = 'C' ∨ c = 'V') = true := fun c hc =>
    decide_eq_true (hMarks c hc)
  have hArgs := cwArgs_of_ok (dmgFnArgs_mangle types (typeFuel (mangleAll types ++ tail)) [] tail
    hDer hFits hTail hRoom (Nat.le_refl _))
  rw [argsBehind, if_pos rfl] at hArgs
  have hText : joinArgs (renderAll types) ≠ [] := by
    cases types with
    | nil => exact absurd rfl hNe
    | cons t ts =>
      rw [DerivableAll] at hDer
      exact joinArgs_ne hDer.1
  rw [cwSignature]
  simp only [dropWhile_append_of_pos hAll, takeWhile_append_of_pos hAll]
  rw [dropWhile_cons_of_neg (by decide), takeWhile_cons_of_neg (by decide),
    append_nil]
  have hPrinted : snprintf 512 ('(' :: joinArgs (renderAll types) ++ [')']) =
      '(' :: joinArgs (renderAll types) ++ [')'] :=
    snprintf_of_lt (by simp; omega)
  simp only [hArgs, if_neg hText, hPrinted]
  rfl

/-- Demangling a mangled symbol gives back its qualifier and its types. -/
theorem cwDemangle_mangleSymbol {name : List Char} {qual : Option CwType} {marks : List Char}
    {types : List CwType} {tail : List Char} (hName : IsMethod name)
    (hQual : ∀ q ∈ qual, IsQualifier q) (hMarks : ∀ c ∈ marks, c = 'C' ∨ c = 'V')
    (hFree : qual = none → marks = []) (hNe : types ≠ []) (hDer : DerivableAll types)
    (hFits : InnerFitsAll types) (hRoom : (joinArgs (renderAll types)).length < 384)
    (hTail : Closed tail) :
    cwDemangle (mangleSymbol name qual marks types tail) =
      .ok (demangled name (renderQual qual) marks (joinArgs (renderAll types))) := by
  have hSig := cwSignature_mangle hNe hDer hFits hRoom hMarks hTail
    (snprintf 1024 (mangleSymbol name qual marks types tail)) name
  have hLength : ¬ (name.length = 0 ∨ 128 ≤ name.length) := by
    have hPos := length_pos_iff.2 hName.name_ne
    have hLt := hName.length_lt
    omega
  cases qual with
  | none =>
    obtain rfl := hFree rfl
    have hSplit : findSplit (name ++ '_' :: '_' :: 'F' :: (mangleAll types ++ tail)) =
        some (name, '_' :: '_' :: 'F' :: (mangleAll types ++ tail)) :=
      findSplit_append hName rfl
    rw [cwDemangle]
    rw [mangleSymbol, mangleQual, nil_append, nil_append] at hSig ⊢
    rw [hSplit]
    dsimp only
    rw [if_neg hLength, drop_succ_cons, drop_succ_cons, drop_zero]
    dsimp only
    rw [if_neg (by decide)]
    exact hSig []
  | some q =>
    have hq := hQual q rfl
    obtain ⟨c, s, hMangle, hHead⟩ := hq.qualified
    have hIsSplit : isSplit ('_' :: '_' :: (mangle q ++ marks ++
        'F' :: (mangleAll types ++ tail))) = true := by
      rw [hMangle, cons_append, cons_append, isSplit]
      rcases hHead with rfl | ⟨hLo, hHi⟩
      · rfl
      · simp [hLo, hHi]
    have hSplit := findSplit_append hName hIsSplit
    have hType := dmgParseType_mangle q 256
      (typeFuel (mangle q ++ (marks ++ 'F' :: (mangleAll types ++ tail))))
      (marks ++ 'F' :: (mangleAll types ++ tail)) hq.derivable hq.inner (by decide)
      hq.length_lt (Nat.le_succ _)
    rw [cwDemangle]
    rw [mangleSymbol, mangleQual] at hSig ⊢
    rw [hSplit]
    dsimp only
    rw [if_neg hLength, drop_succ_cons, drop_succ_cons, drop_zero,
      append_assoc]
    rw [append_assoc] at hSig
    rw [hMangle, cons_append] at hType hSig ⊢
    dsimp only
    rw [if_pos hHead, hType]
    exact hSig (render q)

theorem classify_plain {name : List Char} (qualifier : List Char) (hLength : name.length < 128)
    (hPlain : ∀ s, name ≠ '_' :: '_' :: s) : (classify name qualifier).2 = name := by
  have hCt : name ≠ "__ct".toList := hPlain _
  have hDt : name ≠ "__dt".toList := hPlain _
  rw [classify, if_neg fun h => hCt h.1, if_neg fun h => hDt h.1]
  dsimp only
  split
  case h_1 => exact absurd rfl (hPlain _)
  case h_2 => exact snprintf_of_lt hLength

/-- The demangler gives back the method, the qualifier and the renderings of the types. -/
theorem demangle_mangled {name : List Char} {qual : Option CwType} {marks : List Char}
    {types : List CwType} {tail : List Char} (hName : IsMethod name)
    (hQual : ∀ q ∈ qual, IsQualifier q) (hMarks : ∀ c ∈ marks, c = 'C' ∨ c = 'V')
    (hFree : qual = none → marks = []) (hNe : types ≠ []) (hDer : DerivableAll types)
    (hFits : InnerFitsAll types) (hRoom : (joinArgs (renderAll types)).length < 384)
    (hTail : Closed tail) :
    ∃ d, cwDemangle (mangleSymbol name qual marks types tail) = .ok d ∧ d.ok = true ∧
      d.qualifier = renderQual qual ∧ d.args = '(' :: joinArgs (renderAll types) ++ [')'] ∧
      (d.kind, d.method) = classify name (renderQual qual) ∧
      ((∀ s, name ≠ '_' :: '_' :: s) → d.method = name) :=
  ⟨_, cwDemangle_mangleSymbol hName hQual hMarks hFree hNe hDer hFits hRoom hTail, rfl, rfl, rfl,
    rfl, classify_plain _ hName.length_lt⟩

/-- A constructor of `Foo`, constant, with a pointer to a constant and an array. -/
theorem demangle_mangled_ctor : ∃ d, cwDemangle (mangleSymbol "__ct".toList
      (some (.name "3".toList "Foo".toList)) ['C']
      [.mark 'P' (.mark 'C' (.prim 'c')), .array "4".toList (.prim 'i')] []) = .ok d ∧
    d.ok = true ∧ d.qualifier = "Foo".toList ∧
    d.args = '(' :: joinArgs (renderAll [.mark 'P' (.mark 'C' (.prim 'c')),
      .array "4".toList (.prim 'i')]) ++ [')'] ∧
    (d.kind, d.method) = classify "__ct".toList "Foo".toList ∧
    ((∀ s, "__ct".toList ≠ '_' :: '_' :: s) → d.method = "__ct".toList) := by
  have hFoo : IsName "3".toList "Foo".toList :=
    ⟨by decide, by simp, by decide, by decide, by simp⟩
  refine demangle_mangled ⟨by decide, by decide, by decide, ?_⟩ ?_ (by simp)
    (fun h => nomatch h) (cons_ne_nil _ _) ?_ ?_ (by decide) (Or.inl rfl)
  · exact fun s hs => isSplit_of_length_lt (Nat.lt_succ_of_le hs.length_le)
  · rintro q hq
    cases hq
    refine ⟨?_, ⟨'3', "Foo".toList, by decide, Or.inr (by decide)⟩, ?_, by decide⟩
    · rw [Derivable]
      exact hFoo
    · rw [InnerFits]
      trivial
  · simp only [DerivableAll, Derivable]
    refine ⟨by decide, ⟨by decide, by simp, by decide, by decide⟩, trivial⟩
  · simp only [InnerFitsAll, InnerFits]
    decide

def fooName : CwType := .name "3".toList "Foo".toList

def fooQualified : CwType := .qualified [("3".toList, "Foo".toList)]

/-- Derivations with one rendering, `CPi` and `PCi`, or `Q13Foo` and `3Foo`, and a text behind the
types that is accepted. -/
theorem demangle_not_exact :
    (∃ t t' : CwType, Derivable t ∧ Derivable t' ∧ t ≠ t' ∧ render t = render t') ∧
      (mangle fooQualified = "Q13Foo".toList ∧ mangle fooName = "3Foo".toList ∧
        Derivable fooQualified ∧ Derivable fooName ∧ render fooQualified = render fooName) ∧
      ∃ d, cwDemangle "f__FvZ".toList = .ok d ∧ d.ok = true := by
  have hFoo : IsName "3".toList "Foo".toList :=
    ⟨by decide, by simp, by decide, by decide, by simp⟩
  refine ⟨⟨.mark 'C' (.mark 'P' (.prim 'i')), .mark 'P' (.mark 'C' (.prim 'i')), ?_, ?_, ?_, ?_⟩,
    ⟨rfl, rfl, ?_, ?_, ?_⟩,
    ⟨{ ok := true, kind := .free, method := "f".toList, args := "(void)".toList,
       pretty := "f(void)".toList }, by decide, rfl⟩⟩
  · simp only [Derivable]
    decide
  · simp only [Derivable]
    decide
  · intro h
    exact absurd (CwType.mark.inj h).1 (by decide)
  · simp only [render]
    decide
  · simp only [fooQualified, Derivable]
    exact ⟨by decide, by decide, fun x hx => mem_singleton.1 hx ▸ hFoo⟩
  · simp only [fooName, Derivable]
    exact hFoo
  · simp only [fooQualified, fooName, render]
    rfl

end Calynda.Decompiler
