import Calynda.Decompiler.TypeTexts
import Mathlib.Data.List.Find

/-!
# The translation of types

A type without function pointers is translated along its derivation exactly if its stars stand at
the end, at most seven of them, and no primitive starts a name. A function pointer is translated so
if its parts are and the first one in its text is its own.
-/

namespace Calynda.Decompiler

open List CString

/-! ## Types and their texts -/

/-- A type without function pointers; a sign belongs to a primitive. -/
inductive PlainShape : CwType → Prop
  | prim {c : Char} : PlainShape (.prim c)
  | signed {c p : Char} (hc : c = 'U' ∨ c = 'S') : PlainShape (.mark c (.prim p))
  | name {digits text : List Char} : PlainShape (.name digits text)
  | qualified {names : List (List Char × List Char)} : PlainShape (.qualified names)
  | mark {c : Char} {t : CwType} (hc : c ∈ ['P', 'R', 'C', 'V']) (h : PlainShape t) :
      PlainShape (.mark c t)
  | array {digits : List Char} {t : CwType} (h : PlainShape t) : PlainShape (.array digits t)

/-- The names of a type: its primitive, or the parts of a qualified name. -/
def baseNames : CwType → List (List Char)
  | .prim c => [(primName c).getD []]
  | .name _ text => [text]
  | .qualified names => names.map Prod.snd
  | .mark c t => if c = 'U' ∨ c = 'S' then [render (.mark c t)] else baseNames t
  | .array _ t => baseNames t
  | .fnptr _ _ => []

/-- The text behind the qualifiers that starts the text of a type. -/
def firstText (t : CwType) : List Char := joinNames (baseNames t)

/-- Brackets with a dimension stand behind the names. -/
def hasArray : CwType → Bool
  | .mark _ t => hasArray t
  | .array _ _ => true
  | _ => false

/-- The pointers and references around the arrays of a type. -/
def pointers : CwType → Nat
  | .mark c t => pointers t + if c = 'P' ∨ c = 'R' then 1 else 0
  | _ => 0

/-- The pointers and references of a type, those in the elements of arrays too. -/
def allPointers : CwType → Nat
  | .mark c t => allPointers t + if c = 'P' ∨ c = 'R' then 1 else 0
  | .array _ t => allPointers t
  | _ => 0

/-- At most seven stars, none of them inside of an array; a primitive that starts the text is what
the type is without them, and the names are told apart otherwise. -/
structure PlainFits (t : CwType) : Prop where
  few : pointers t ≤ 7
  outside : allPointers t = pointers t
  own : ∀ y, matchPrimitive (firstText t) = some y →
    translate t = some (List.replicate (pointers t) '*' ++ y)
  names : matchPrimitive (firstText t) = none → readsNames (baseNames t) = true

/-- The angle brackets of names close before something else follows, and the last name ends in no
star that is taken for a pointer. -/
structure NamesEnd (t : CwType) : Prop where
  closed : closedNames (hasArray t) (baseNames t) = true
  ends : hasArray t = false → EndsPlain (pointers t) (firstText t)

/-- Names that end where the translator takes them to end, the first one with a character outside
of its angle brackets, which is no star. -/
structure Told (t : CwType) : Prop extends NamesEnd t where
  head : ∀ name ∈ (baseNames t).head?, ∃ c, (bareName 0 name).head? = some c ∧ c ≠ '*'

/-- A type without function pointers that is translated along its derivation. -/
structure FlatShape (t : CwType) : Prop extends NamesEnd t where
  plain : PlainShape t
  fits : PlainFits t
  nonempty : ∀ x, translate t = some x → allPointers t < x.length
  room : ∀ x, translate t = some x → x.length ≤ allPointers t + 126

def isStar (c : Char) : Bool := c = '*' || c = '&'

/-- The start of a text is a primitive, or the names become their dotted name. -/
def FirstText (t : CwType) (w : List Char) : Prop :=
  matchPrimitive (firstText t) = some w ∧ StartsPlain (firstText t) ∨ w = dottedName (baseNames t)

/-- What stands between the names and the stars at the end: up to the last dimension. -/
structure MidText (mid : List Char) : Prop where
  chars : ∀ c ∈ mid, isSpace c = false ∧ c ≠ ':' ∧ c ≠ '<'
  head : ∀ c ∈ mid.head?, c = '[' ∨ isStar c = true
  last : ∀ c ∈ mid.getLast?, c = ']'

structure PlainParts (t : CwType) (quals mid stars w : List Char) : Prop where
  text : render t = quals ++ (firstText t ++ mid) ++ stars
  value : translate t = some
    (List.replicate (allPointers t) '*' ++ (w ++ mid.filter (! isStar ·)))
  quals : Quals quals
  first : FirstText t w
  names : baseNames t ≠ []
  middle : MidText mid
  behind : mid = [] ↔ hasArray t = false
  starChars : ∀ c ∈ stars, c = '*' ∨ c = '&'
  count : stars.length = pointers t
  all : allPointers t = pointers t + mid.countP isStar

structure FlatParts (t : CwType) (quals base blanks stars x : List Char) : Prop where
  text : render t = quals ++ base ++ blanks ++ stars
  value : translate t = some (List.replicate stars.length '*' ++ x)
  quals : Quals quals
  base : BaseText base blanks stars x
  count : stars.length = pointers t

section Shapes

variable {c p : Char} {s t u w x y first mid stars quals : List Char} {type : CwType}

theorem translate_qualified {t : CwType} (hc : c = 'C' ∨ c = 'V') :
    translate (.mark c t) = translate t := by
  rcases hc with rfl | rfl
  all_goals rfl

theorem isStar_iff : isStar c = true ↔ c = '*' ∨ c = '&' := by
  rw [isStar, Bool.or_eq_true, decide_eq_true_eq, decide_eq_true_eq]

/-- A digit is none of a few other characters. -/
theorem digit_ne (h : c.isDigit = true) {b : Char} (hb : b.isDigit = false) : c ≠ b := by
  rintro rfl
  exact nomatch h.symm.trans hb

theorem dimension_chars (digits : List Char) :
    ∀ c ∈ dimension digits, (isSpace c = false ∧ c ≠ ':' ∧ c ≠ '<') ∧ isStar c = false := by
  intro c hc
  rcases mem_append.1 hc with hc | hc
  · rcases mem_cons.1 hc with rfl | hc
    · decide
    · have hDigit : c.isDigit = true := Nat.isDigit_of_mem_toDigits (by omega) (by omega) hc
      have hSpace : isSpace c = false := by
        simp only [isSpace, digit_ne hDigit (b := ' ') rfl, digit_ne hDigit (b := '\t') rfl,
          digit_ne hDigit (b := '\n') rfl, digit_ne hDigit (b := '\r') rfl,
          digit_ne hDigit (b := '\x0b') rfl, digit_ne hDigit (b := '\x0c') rfl, decide_false,
          Bool.or_self]
      refine ⟨⟨hSpace, digit_ne hDigit rfl, digit_ne hDigit rfl⟩, ?_⟩
      simp only [isStar, digit_ne hDigit (b := '*') rfl, digit_ne hDigit (b := '&') rfl,
        decide_false, Bool.or_self]
  · rw [mem_singleton.1 hc]
    decide

theorem matchPrimitive_congr (h : ∀ p ∈ kPrims, p.1.toList <+: s ↔ p.1.toList <+: u) :
    matchPrimitive s = matchPrimitive u := by
  rw [matchPrimitive, matchPrimitive]
  refine congrArg _ (find?_congr fun p hp => ?_)
  rw [Bool.eq_iff_iff, List.isPrefixOf_iff_prefix, List.isPrefixOf_iff_prefix, h p hp]

theorem matchPrimitive_append (hMid : MidText mid) :
    matchPrimitive (first ++ mid) = matchPrimitive first := by
  have hPrims : ∀ p ∈ kPrims, '[' ∉ p.1.toList ∧ '*' ∉ p.1.toList ∧ '&' ∉ p.1.toList := by decide
  refine matchPrimitive_congr fun p hp =>
    ⟨fun h => prefix_of_append h fun c hc => ?_, fun h => h.trans (prefix_append _ _)⟩
  obtain ⟨hBracket, hStar, hAnd⟩ := hPrims p hp
  rcases hMid.head c hc with rfl | h
  · exact hBracket
  · rcases isStar_iff.1 h with rfl | rfl
    · exact hStar
    · exact hAnd

/-- No primitive ends in a blank, so that blanks behind a text do not matter. -/
theorem convertBase_blanks (hBlanks : ∀ c ∈ u, isSpace c = true) :
    convertBase (s ++ u) = convertBase s := by
  have hPrim : matchPrimitive (s ++ u) = matchPrimitive s := by
    refine matchPrimitive_congr fun p hp => ⟨fun h => ?_, fun h => h.trans (prefix_append _ _)⟩
    rcases List.prefix_or_prefix_of_prefix h (prefix_append s u) with hPrefix | ⟨v, hv⟩
    · exact hPrefix
    · by_cases hNil : v = []
      · rw [← hv, hNil, append_nil]
      · have hPrims : kPrims.all (fun p => p.1.toList.getLast?.all (! isSpace ·)) = true := by decide
        have hLast := all_eq_true.1 hPrims p hp
        rw [← hv, prefix_append_right_inj] at h
        rw [← hv, getLast?_append_of_ne_nil s hNil, getLast?_eq_some_getLast hNil,
          Option.all_some, hBlanks _ (h.subset (getLast_mem hNil))] at hLast
        exact nomatch hLast
  have hChars : baseChars ((s ++ u).length + 1) 126 (s ++ u) = baseChars (s.length + 1) 126 s := by
    rw [baseChars_blanks hBlanks, baseChars_fuel _ (Nat.lt_succ_self _)]
    rw [length_append]
    omega
  rw [convertBase, convertBase, hPrim, hChars]

/-- A text that ends in no star is its own base, without the blanks at its end. -/
theorem EndsPlain.base (hEnd : EndsPlain stars.length s) (hStarts : StartsPlain s)
    (hStars : ∀ c ∈ stars, c = '*' ∨ c = '&') :
    BaseText (s.rdropWhile isSpace) (s.rtakeWhile isSpace) stars (convertBase s) := by
  have hBlanks : ∀ c ∈ s.rtakeWhile isSpace, isSpace c = true := fun c hc => mem_rtakeWhile_imp hc
  have hSplit : s.rdropWhile isSpace ++ s.rtakeWhile isSpace = s := rdropWhile_append_rtakeWhile
  have hPrefix : s.rdropWhile isSpace <+: s := ⟨_, hSplit⟩
  refine ⟨?_, fun hNil => ?_, ⟨fun c hc => hStarts.head c ?_, fun hConst =>
    hStarts.const (hConst.trans hPrefix), fun hVolatile =>
    hStarts.volatile (hVolatile.trans hPrefix)⟩, rdropWhile_last, hBlanks, hStars, ?_⟩
  · exact (convertBase_blanks hBlanks).symm.trans (congrArg convertBase hSplit)
  · have hHead := hStarts.head _ (head?_eq_some_head hEnd.some)
    rw [rdropWhile_eq_nil_iff.1 hNil _ (head_mem hEnd.some)] at hHead
    exact nomatch hHead
  · exact hSplit ▸ mem_head?_append_of_mem_head? hc
  · rintro (hNil | hNone) c hc
    · rw [hNil, append_nil] at hSplit
      rw [hSplit] at hc
      exact hEnd.last c hc
    · exact hEnd.cut (congrArg length hNone) c hc

/-- A text with dimensions behind it. -/
theorem MidText.base (hMid : MidText mid) (hNe : mid ≠ []) (hStarts : StartsPlain s)
    (hStars : ∀ c ∈ stars, c = '*' ∨ c = '&') :
    BaseText (s ++ mid) [] stars (convertBase (s ++ mid)) := by
  have hLast : ∀ c ∈ (s ++ mid).getLast?, c = ']' := fun c hc =>
    hMid.last c (by rwa [getLast?_append_of_ne_nil _ hNe] at hc)
  have hApart : ∀ p : List Char, '[' ∉ p → '*' ∉ p → '&' ∉ p → ∀ c ∈ mid.head?, c ∉ p := by
    intro p hBracket hStar hAnd c hc
    rcases hMid.head c hc with rfl | h
    · exact hBracket
    · rcases isStar_iff.1 h with rfl | rfl
      · exact hStar
      · exact hAnd
  refine ⟨rfl, append_ne_nil_of_right_ne_nil _ hNe, ⟨?_, ?_, ?_⟩, fun c hc => hLast c hc ▸ rfl,
    nofun, hStars, fun _ c hc => ?_⟩
  · refine head_append hStarts.head fun c hc => ?_
    rcases hMid.head c hc with rfl | h
    · rfl
    · rcases isStar_iff.1 h with rfl | rfl
      all_goals rfl
  · exact fun hPrefix => hStarts.const
      (prefix_of_append hPrefix (hApart _ (by decide) (by decide) (by decide)))
  · exact fun hPrefix => hStarts.volatile
      (prefix_of_append hPrefix (hApart _ (by decide) (by decide) (by decide)))
  · rw [hLast c hc]
    decide

/-- The base of a text whose start is plain and whose names end. -/
theorem PlainParts.base (h : PlainParts type quals mid stars w)
    (hStarts : StartsPlain (firstText type)) (hEnds : NamesEnd type) :
    ∃ base blanks, firstText type ++ mid = base ++ blanks ∧
      BaseText base blanks stars (convertBase (firstText type ++ mid)) := by
  by_cases hNil : mid = []
  · have hEnd := hEnds.ends (h.behind.1 hNil)
    rw [← h.count] at hEnd
    rw [hNil, append_nil]
    exact ⟨_, _, rdropWhile_append_rtakeWhile.symm, hEnd.base hStarts h.starChars⟩
  · exact ⟨_, [], (append_nil _).symm, h.middle.base hNil hStarts h.starChars⟩

/-- A closed text is checked at once. -/
theorem startsPlain_of_check (h : (s.head?.all (! isSpace ·) && !"const ".toList.isPrefixOf s &&
      !"volatile ".toList.isPrefixOf s) = true) : StartsPlain s := by
  simp only [Bool.and_eq_true, Option.all_eq_true, Bool.not_eq_true'] at h
  obtain ⟨⟨hHead, hConst⟩, hVolatile⟩ := h
  refine ⟨hHead, ?_, ?_⟩
  · rw [← List.isPrefixOf_iff_prefix, hConst]
    exact Bool.false_ne_true
  · rw [← List.isPrefixOf_iff_prefix, hVolatile]
    exact Bool.false_ne_true

/-- A text without blanks outside of its angle brackets starts with no qualifier. -/
theorem startsPlain_of_bare (h : ∀ c ∈ bareName 0 s, isSpace c = false) : StartsPlain s := by
  have hNotBlank : ' ' ∉ bareName 0 s := fun hMem => absurd (h ' ' hMem) (by decide)
  refine ⟨?_, ?_, ?_⟩
  · intro c hc
    cases s with
    | nil => exact nomatch hc
    | cons b s =>
      obtain rfl : b = c := Option.some.inj hc
      by_cases hOpen : b = '<'
      · rw [hOpen]
        rfl
      · refine h b ?_
        rw [bareName, if_neg hOpen]
        exact mem_cons_self
  · rintro ⟨u, rfl⟩
    exact hNotBlank (by simp [bareName])
  · rintro ⟨u, rfl⟩
    exact hNotBlank (by simp [bareName])

/-- The names of a translation without blanks start with no qualifier. -/
theorem PlainParts.starts (h : PlainParts type quals mid stars w) (hEnds : NamesEnd type)
    (hBlank : ∀ c ∈ w, isSpace c = false) : StartsPlain (firstText type) := by
  rcases h.first with ⟨-, hStarts⟩ | hDotted
  · exact hStarts
  · refine startsPlain_of_bare fun c hc => ?_
    rcases mem_bareName_joinNames hEnds.closed hc with rfl | hMem
    · rfl
    · exact hBlank c (hDotted ▸ hMem)

theorem midText_nil : MidText [] := ⟨nofun, nofun, nofun⟩

/-- A type that is its first text. -/
theorem plainParts_of_first (hFirst : FirstText type w)
    (hText : render type = firstText type) (hValue : translate type = some w)
    (hNames : baseNames type ≠ []) (hCount : pointers type = 0) (hAll : allPointers type = 0)
    (hArray : hasArray type = false) : PlainParts type [] [] [] w := by
  refine ⟨?_, ?_, .nil, hFirst, hNames, midText_nil, iff_of_true rfl hArray, nofun, hCount.symm, ?_⟩
  · rw [hText, nil_append, append_nil, append_nil]
  · rw [hValue, hAll, filter_nil, append_nil]
    rfl
  · rw [hAll, hCount]
    rfl

theorem prim_first (h : (primName c).isSome) :
    ∃ w, primCalynda c = some w ∧ FirstText (.prim c) w := by
  simp only [FirstText, firstText, baseNames, joinNames_singleton, dottedName_singleton]
  unfold primName at h ⊢
  split at h
  case h_12 => exact nomatch h
  all_goals
    refine ⟨_, rfl, ?_⟩
    first
      | exact Or.inl ⟨rfl, startsPlain_of_check rfl⟩
      | exact Or.inr rfl

theorem signed_first (hc : c = 'U' ∨ c = 'S') (h : signedCalynda c p = some y) :
    FirstText (.mark c (.prim p)) y := by
  rw [FirstText, firstText, baseNames, if_pos hc, joinNames_singleton]
  unfold signedCalynda at h
  dsimp only at h
  split at h
  case h_6 => exact nomatch h
  all_goals
    obtain rfl := Option.some.inj h
    rcases hc with rfl | rfl
    all_goals exact Or.inl ⟨rfl, startsPlain_of_check rfl⟩

theorem countP_dimension (digits : List Char) : (dimension digits).countP isStar = 0 := by
  refine countP_eq_zero.2 fun c hc hStar => ?_
  exact nomatch hStar.symm.trans (dimension_chars digits c hc).2

theorem filter_eq_self_of_countP (h : mid.countP isStar = 0) : mid.filter (! isStar ·) = mid :=
  filter_eq_self.2 fun c hc => by
    rw [Bool.eq_false_iff.2 (countP_eq_zero.1 h c hc)]
    rfl

theorem baseNames_mark (h : ¬ (c = 'U' ∨ c = 'S')) : baseNames (.mark c type) = baseNames type := by
  rw [baseNames, if_neg h]

theorem translate_star (hc : c = 'P' ∨ c = 'R') :
    translate (.mark c type) = (translate type).map ('*' :: ·) := by
  rcases hc with rfl | rfl
  all_goals rfl

theorem MidText.dimension (hMid : MidText mid) (hStars : ∀ c ∈ stars, c = '*' ∨ c = '&')
    (digits : List Char) : MidText (mid ++ stars ++ dimension digits) := by
  refine ⟨?_, fun c hc => ?_, fun c hc => ?_⟩
  · refine forall_mem_append.2 ⟨forall_mem_append.2 ⟨hMid.chars, fun c hc => ?_⟩, fun c hc =>
      (dimension_chars digits c hc).1⟩
    rcases hStars c hc with rfl | rfl
    all_goals decide
  · cases hEq : mid with
    | cons b s =>
      rw [hEq] at hc
      exact hMid.head c (by rw [hEq]; exact hc)
    | nil =>
      cases hEnd : stars with
      | cons b s =>
        rw [hEq, hEnd] at hc
        obtain rfl : b = c := Option.some.inj hc
        exact Or.inr (isStar_iff.2 (hStars b (by rw [hEnd]; exact mem_cons_self)))
      | nil =>
        rw [hEq, hEnd] at hc
        exact Or.inl (Option.some.inj hc).symm
  · rw [Decompiler.dimension, ← append_assoc, getLast?_concat] at hc
    exact (Option.some.inj hc).symm

section Around

variable {t : CwType} (hParts : PlainParts t quals mid stars w)

include hParts

/-- A pointer or reference adds a star at the end. -/
theorem PlainParts.star (hc : c = 'P' ∨ c = 'R') :
    ∃ star, PlainParts (.mark c t) quals mid (stars ++ [star]) w := by
  obtain ⟨star, hStar, hRender⟩ : ∃ star, (star = '*' ∨ star = '&') ∧
      render (.mark c t) = render t ++ [star] := by
    rcases hc with rfl | rfl
    · exact ⟨'*', Or.inl rfl, by rw [render]; rfl⟩
    · exact ⟨'&', Or.inr rfl, by rw [render]; rfl⟩
  have hNames : baseNames (.mark c t) = baseNames t :=
    baseNames_mark (by rcases hc with rfl | rfl <;> decide)
  have hCount : pointers (.mark c t) = pointers t + 1 := by rw [pointers, if_pos hc]
  have hAll : allPointers (.mark c t) = allPointers t + 1 := by rw [allPointers, if_pos hc]
  refine ⟨star, ?_, ?_, hParts.quals, ?_, hNames ▸ hParts.names, hParts.middle, hParts.behind, ?_,
    ?_, ?_⟩
  · rw [hRender, hParts.text, firstText, firstText, hNames, append_assoc]
  · rw [translate_star hc, hParts.value, hAll, replicate_succ]
    rfl
  · rw [FirstText, firstText, hNames]
    exact hParts.first
  · exact forall_mem_append.2 ⟨hParts.starChars, fun d hd => mem_singleton.1 hd ▸ hStar⟩
  · rw [hCount, length_append, hParts.count, length_singleton]
  · rw [hCount, hAll, hParts.all]
    omega

/-- A qualifier adds its word in front. -/
theorem PlainParts.word (hc : c = 'C' ∨ c = 'V') :
    ∃ word, PlainParts (.mark c t) (word ++ quals) mid stars w := by
  obtain ⟨word, hWord, hRender⟩ : ∃ word, (word = "const ".toList ∨ word = "volatile ".toList) ∧
      render (.mark c t) = word ++ render t := by
    rcases hc with rfl | rfl
    · exact ⟨_, Or.inl rfl, by rw [render]; rfl⟩
    · exact ⟨_, Or.inr rfl, by rw [render]; rfl⟩
  have hNames : baseNames (.mark c t) = baseNames t :=
    baseNames_mark (by rcases hc with rfl | rfl <;> decide)
  have hNot : ¬ (c = 'P' ∨ c = 'R') := by rcases hc with rfl | rfl <;> decide
  have hCount : pointers (.mark c t) = pointers t := by rw [pointers, if_neg hNot, Nat.add_zero]
  have hAll : allPointers (.mark c t) = allPointers t := by
    rw [allPointers, if_neg hNot, Nat.add_zero]
  refine ⟨word, ?_, ?_, .cons hWord hParts.quals, ?_, hNames ▸ hParts.names, hParts.middle,
    hParts.behind, hParts.starChars, hParts.count.trans hCount.symm, ?_⟩
  · rw [hRender, hParts.text, firstText, firstText, hNames]
    simp only [append_assoc]
  · rw [translate_qualified hc, hParts.value, hAll]
  · rw [FirstText, firstText, hNames]
    exact hParts.first
  · rw [hCount, hAll, hParts.all]

/-- In the elements of an array the stars stand in front of the dimension. -/
theorem PlainParts.array (digits : List Char) :
    PlainParts (.array digits t) quals (mid ++ stars ++ dimension digits) [] w := by
  have hStars : stars.filter (! isStar ·) = [] ∧ stars.countP isStar = stars.length := by
    refine ⟨filter_eq_nil_iff.2 fun c hc => ?_, countP_eq_length.2 fun c hc => ?_⟩
    · rw [isStar_iff.2 (hParts.starChars c hc)]
      exact Bool.false_ne_true
    · exact isStar_iff.2 (hParts.starChars c hc)
  have hText : render (.array digits t) = render t ++ dimension digits := by
    rw [render, append_assoc]
    rfl
  refine ⟨?_, ?_, hParts.quals, hParts.first, hParts.names,
    hParts.middle.dimension hParts.starChars digits, ?_, nofun, rfl, ?_⟩
  · rw [hText, hParts.text, firstText, firstText, baseNames]
    simp only [append_assoc, append_nil]
  · rw [translate, hParts.value, Option.map_some, filter_append, filter_append,
      hStars.1, filter_eq_self_of_countP (countP_dimension digits), append_nil,
      append_assoc, append_assoc]
    rfl
  · refine iff_of_false (append_ne_nil_of_right_ne_nil _ ?_) (by rw [hasArray]; decide)
    exact cons_ne_nil _ _
  · have hCount := hParts.count
    rw [countP_append, countP_append, hStars.2, countP_dimension, hCount]
    show allPointers t = 0 + _
    rw [hParts.all]
    omega

end Around

/-- The text of a type without function pointers in its parts. -/
theorem PlainShape.parts (h : PlainShape type) (hDer : Derivable type)
    (hSome : (translate type).isSome) : ∃ quals mid stars w, PlainParts type quals mid stars w := by
  induction h with
  | @prim c =>
    rw [Derivable] at hDer
    obtain ⟨w, hValue, hFirst⟩ := prim_first hDer
    have hText : render (.prim c) = firstText (.prim c) := by
      rw [render, firstText, baseNames, joinNames_singleton]
    exact ⟨_, _, _, w, plainParts_of_first hFirst hText hValue (cons_ne_nil _ _) rfl rfl rfl⟩
  | @signed c p hc =>
    have hNames : baseNames (.mark c (.prim p)) = [render (.mark c (.prim p))] := by
      rw [baseNames, if_pos hc]
    have hTranslate : translate (.mark c (.prim p)) = signedCalynda c p := by
      rcases hc with rfl | rfl
      all_goals rfl
    obtain ⟨y, hy⟩ := Option.isSome_iff_exists.1 (hTranslate ▸ hSome)
    have hText : render (.mark c (.prim p)) = firstText (.mark c (.prim p)) := by
      rw [firstText, hNames, joinNames_singleton]
    refine ⟨_, _, _, y, plainParts_of_first (signed_first hc hy) hText (hTranslate.trans hy)
      (by rw [hNames]; exact cons_ne_nil _ _) ?_ ?_ rfl⟩
    all_goals
      rcases hc with rfl | rfl
      all_goals rfl
  | @name digits text =>
    have hText : render (.name digits text) = firstText (.name digits text) := by
      rw [render, firstText, baseNames, joinNames_singleton]
    exact ⟨_, _, _, bareName 0 text, plainParts_of_first
      (Or.inr (by rw [baseNames, dottedName_singleton])) hText rfl (cons_ne_nil _ _) rfl rfl
      rfl⟩
  | @qualified names =>
    rw [Derivable] at hDer
    have hNames : names.map Prod.snd ≠ [] := by
      rw [ne_eq, map_eq_nil_iff]
      rintro rfl
      exact absurd hDer.1 (by decide)
    exact ⟨_, _, _, dottedName (names.map Prod.snd), plainParts_of_first (Or.inr rfl)
      (by rw [render]; rfl) rfl hNames rfl rfl rfl⟩
  | @mark c t hc h ih =>
    rw [Derivable] at hDer
    rcases (by simpa [or_assoc] using hc : (c = 'P' ∨ c = 'R') ∨ c = 'C' ∨ c = 'V') with hc | hc
    · obtain ⟨quals, mid, stars, w, hParts⟩ := ih hDer.2 (by
        rwa [translate_star hc, Option.isSome_map] at hSome)
      obtain ⟨star, hStar⟩ := hParts.star hc
      exact ⟨_, _, _, _, hStar⟩
    · obtain ⟨quals, mid, stars, w, hParts⟩ := ih hDer.2 (by rwa [translate_qualified hc] at hSome)
      obtain ⟨word, hWord⟩ := hParts.word hc
      exact ⟨_, _, _, _, hWord⟩
  | @array digits t h ih =>
    rw [Derivable] at hDer
    rw [translate, Option.isSome_map] at hSome
    obtain ⟨quals, mid, stars, w, hParts⟩ := ih hDer.2.2.2 hSome
    exact ⟨_, _, _, _, hParts.array digits⟩

end Shapes

/-! ## Types without function pointers -/

section Flat

variable {n : Nat} {quals mid stars base w x u v : List Char} {t : CwType}

theorem convertBase_some {y : List Char} (h : matchPrimitive base = some y) :
    convertBase base = y := by
  unfold convertBase
  rw [h]

theorem matchPrimitive_mem {y : List Char} (h : matchPrimitive base = some y) :
    ∃ p ∈ kPrims, y = p.2.toList := by
  rw [matchPrimitive] at h
  obtain ⟨p, hp, rfl⟩ := Option.map_eq_some_iff.1 h
  exact ⟨p, mem_of_find?_eq_some hp, rfl⟩

theorem convertBase_ne (s : List Char) : convertBase s ≠ [] := by
  cases hPrim : matchPrimitive s with
  | some y =>
    rw [convertBase_some hPrim]
    obtain ⟨p, hp, rfl⟩ := matchPrimitive_mem hPrim
    have hPrims : ∀ p ∈ kPrims, p.2.toList ≠ [] := by decide
    exact hPrims p hp
  | none =>
    unfold convertBase
    rw [hPrim]
    dsimp only
    split
    · decide
    · assumption

/-- Stars in front of texts that start with none are told apart. -/
theorem replicate_append_eq_iff {a b : Nat} (hu : ∀ c ∈ u.head?, c ≠ '*')
    (hv : ∀ c ∈ v.head?, c ≠ '*') :
    List.replicate a '*' ++ u = List.replicate b '*' ++ v ↔ a = b ∧ u = v := by
  induction a generalizing b with
  | zero =>
    cases b with
    | zero => exact (iff_and_self.2 fun _ => rfl).trans Iff.rfl
    | succ b =>
      refine iff_of_false (fun h => ?_) fun h => nomatch h.1
      rw [replicate_zero, nil_append] at h
      exact hu '*' (by rw [h]; rfl) rfl
  | succ a ih =>
    cases b with
    | zero =>
      refine iff_of_false (fun h => ?_) fun h => nomatch h.1
      rw [replicate_zero, nil_append] at h
      exact hv '*' (by rw [← h]; rfl) rfl
    | succ b =>
      rw [replicate_succ, replicate_succ, cons_append, cons_append,
        cons_inj_right, ih, Nat.add_right_cancel_iff]

theorem convertBase_none (h : matchPrimitive base = none) :
    convertBase base = if baseChars (base.length + 1) 126 base = [] then "unknown".toList
      else baseChars (base.length + 1) 126 base := by
  unfold convertBase
  rw [h]

theorem Told.dotted_head (h : Told t) (hNames : baseNames t ≠ []) :
    ∃ c, (dottedName (baseNames t)).head? = some c ∧ c ≠ '*' := by
  cases hEq : baseNames t with
  | nil => exact absurd hEq hNames
  | cons name names =>
    obtain ⟨c, hc, hStar⟩ := h.head name (by rw [hEq]; rfl)
    refine ⟨c, ?_, hStar⟩
    cases names with
    | nil => rw [dottedName_singleton, hc]
    | cons next names => rw [dottedName_cons, head?_append, hc, Option.some_or]

section Parts

variable (h : PlainParts t quals mid stars w)

include h

theorem PlainParts.dotted (hNone : matchPrimitive (firstText t) = none) :
    w = dottedName (baseNames t) :=
  h.first.resolve_left fun hPrim => nomatch hNone.symm.trans hPrim.1

theorem PlainParts.value_head (hTold : Told t) : ∃ c, w.head? = some c ∧ c ≠ '*' := by
  rcases h.first with ⟨hPrim, -⟩ | hDotted
  · obtain ⟨p, hp, rfl⟩ := matchPrimitive_mem hPrim
    have hPrims : ∀ p ∈ kPrims, p.2.toList.head?.any (· ≠ '*') = true := by decide
    obtain ⟨c, hc, hStar⟩ := (Option.any_eq_true _ _).1 (hPrims p hp)
    exact ⟨c, hc, of_decide_eq_true hStar⟩
  · rw [hDotted]
    exact hTold.dotted_head h.names

/-- The names in front of the dimensions become their dotted name exactly if they are told
apart. -/
theorem PlainParts.chars_iff {room : Nat} (hNone : matchPrimitive (firstText t) = none)
    (hClosed : closedNames (hasArray t) (baseNames t) = true)
    (hRoom : (w ++ mid).length ≤ room) :
    baseChars ((firstText t ++ mid).length + 1) room (firstText t ++ mid) = w ++ mid ↔
      readsNames (baseNames t) = true := by
  rw [length_append] at hRoom
  have hW := h.dotted hNone
  have hColon : mid.head? ≠ some ':' := by
    intro hHead
    rcases h.middle.head ':' hHead with hEq | hEq
    all_goals exact absurd hEq (by decide)
  have hBehind : mid ≠ [] → hasArray t = true := fun hNe =>
    Bool.of_not_eq_false fun hNot => hNe (h.behind.2 hNot)
  have hMid : baseChars (mid.length + 1) (room - (dottedName (baseNames t)).length) mid = mid := by
    rw [baseChars_plain h.middle.chars (Nat.lt_succ_self _), take_of_length_le]
    rw [← hW]
    omega
  rw [hW, firstText, baseChars_names h.names hColon hClosed hBehind (by rw [← hW]; omega)
    (Nat.lt_succ_self _) (Nat.lt_succ_self _), hMid]
  exact and_iff_left rfl

/-- A text that fits has the translation for its base. -/
theorem PlainParts.base_eq (hFits : PlainFits t)
    (hClosed : closedNames (hasArray t) (baseNames t) = true) (hNe : w ++ mid ≠ [])
    (hNoStar : mid.countP isStar = 0) (hRoom : (w ++ mid).length ≤ 126) :
    convertBase (firstText t ++ mid) = w ++ mid := by
  cases hPrim : matchPrimitive (firstText t) with
  | some y =>
    have hOwn := (hFits.own y hPrim).symm.trans h.value
    rw [hFits.outside, filter_eq_self_of_countP hNoStar] at hOwn
    rw [convertBase_some ((matchPrimitive_append h.middle).trans hPrim)]
    exact append_cancel_left (Option.some.inj hOwn)
  | none =>
    rw [convertBase_none ((matchPrimitive_append h.middle).trans hPrim),
      (h.chars_iff hPrim hClosed hRoom).2 (hFits.names hPrim), if_neg hNe]

/-- The base starts with no star. -/
theorem PlainParts.head_chars (room : Nat) (hTold : Told t)
    (hNone : matchPrimitive (firstText t) = none) (hBlank : ∀ c ∈ w, isSpace c = false) :
    ∃ b, (baseChars ((firstText t ++ mid).length + 1) (room + 1) (firstText t ++ mid)).head? =
      some b ∧ b ≠ '*' := by
  have hW := h.dotted hNone
  have hClosed := hTold.closed
  cases hEq : baseNames t with
  | nil => exact absurd hEq h.names
  | cons name names =>
    obtain ⟨c, hc, hStar⟩ := hTold.head name (by rw [hEq]; rfl)
    rw [hEq] at hW hClosed
    have hRead : ∀ rest : List Char, (rest ≠ [] → angleAfter 0 name = 0) → c ∈ w →
        ∃ b, (baseChars ((name ++ rest).length + 1) (room + 1) (name ++ rest)).head? = some b ∧
          b ≠ '*' := by
      intro rest hAngle hMem
      obtain ⟨b, hb, hOr⟩ := head_baseChars hAngle hc (hBlank c hMem) (Nat.lt_succ_self _)
      refine ⟨b, hb, ?_⟩
      rcases hOr with rfl | rfl
      · exact hStar
      · decide
    cases names with
    | nil =>
      rw [closedNames, Bool.or_eq_true, Bool.not_eq_true', beq_iff_eq] at hClosed
      rw [firstText, hEq, joinNames_singleton]
      rw [dottedName_singleton] at hW
      refine hRead mid (fun hNe => ?_) (hW ▸ mem_of_mem_head? hc)
      exact hClosed.resolve_left fun hNot => hNe (h.behind.2 hNot)
    | cons next names =>
      rw [closedNames, Bool.and_eq_true, beq_iff_eq] at hClosed
      rw [firstText, hEq, joinNames_cons, append_assoc]
      rw [dottedName_cons] at hW
      exact hRead _ (fun _ => hClosed.1)
        (hW ▸ mem_append_left _ (mem_of_mem_head? hc))

theorem PlainParts.base_head (hTold : Told t) (hBlank : ∀ c ∈ w, isSpace c = false) :
    ∀ c ∈ (convertBase (firstText t ++ mid)).head?, c ≠ '*' := by
  cases hPrim : matchPrimitive (firstText t) with
  | some y =>
    rw [convertBase_some ((matchPrimitive_append h.middle).trans hPrim)]
    obtain ⟨p, hp, rfl⟩ := matchPrimitive_mem hPrim
    have hPrims : ∀ p ∈ kPrims, p.2.toList.head? ≠ some '*' := by decide
    rintro c hc rfl
    exact hPrims p hp hc
  | none =>
    obtain ⟨b, hb, hStar⟩ := h.head_chars 125 hTold hPrim hBlank
    rw [convertBase_none ((matchPrimitive_append h.middle).trans hPrim), if_neg]
    · intro c hc
      rw [hb] at hc
      exact Option.some.inj hc ▸ hStar
    · intro hNil
      rw [hNil] at hb
      exact nomatch hb

/-- The base, cut off or not, is translated along the derivation only if it fits. -/
theorem PlainParts.reads {m : Nat} (hTold : Told t) (hBlank : ∀ c ∈ w, isSpace c = false)
    (hRoom : (w ++ mid).length ≤ 126) (hFour : 4 ≤ m) (hCut : (w ++ mid).length ≤ m)
    (hEq : (convertBase (firstText t ++ mid)).take m = w ++ mid) :
    (∀ y, matchPrimitive (firstText t) = some y → w ++ mid = y) ∧
      (matchPrimitive (firstText t) = none → readsNames (baseNames t) = true) := by
  constructor
  · intro y hPrim
    rw [convertBase_some ((matchPrimitive_append h.middle).trans hPrim)] at hEq
    obtain ⟨p, hp, rfl⟩ := matchPrimitive_mem hPrim
    have hPrims : ∀ p ∈ kPrims, p.2.toList.length ≤ 4 := by decide
    rw [← hEq, take_of_length_le (Nat.le_trans (hPrims p hp) hFour)]
  · intro hPrim
    obtain ⟨b, hb, -⟩ := h.head_chars 125 hTold hPrim hBlank
    rw [convertBase_none ((matchPrimitive_append h.middle).trans hPrim), if_neg,
      take_baseChars] at hEq
    · exact (h.chars_iff hPrim hTold.closed (Nat.le_min.2 ⟨hCut, hRoom⟩)).1 hEq
    · intro hNil
      rw [hNil] at hb
      exact nomatch hb

end Parts

theorem FlatShape.parts (h : FlatShape t) (hDer : Derivable t) (hSome : (translate t).isSome) :
    ∃ quals base blanks stars x, FlatParts t quals base blanks stars x := by
  obtain ⟨quals, mid, stars, w, hParts⟩ := h.plain.parts hDer hSome
  have hRoom := h.room _ hParts.value
  have hLong := h.nonempty _ hParts.value
  rw [length_append, length_replicate] at hRoom hLong
  have hNoStar : mid.countP isStar = 0 := by
    have hAll := hParts.all
    rw [h.fits.outside] at hAll
    omega
  rw [filter_eq_self_of_countP hNoStar] at hRoom hLong
  have hNe : w ++ mid ≠ [] := by
    intro hNil
    rw [hNil, length_nil] at hLong
    omega
  have hBase := hParts.base_eq h.fits h.closed hNe hNoStar (by omega)
  have hStarts := hParts.starts h.toNamesEnd fun c hc =>
    mem_convertBase (hBase ▸ mem_append_left mid hc)
  obtain ⟨base, blanks, hSplit, hBaseText⟩ := hParts.base hStarts h.toNamesEnd
  rw [hBase] at hBaseText
  refine ⟨quals, base, blanks, stars, w ++ mid, ?_, ?_, hParts.quals, hBaseText, hParts.count⟩
  · rw [hParts.text, hSplit, ← append_assoc]
  · rw [hParts.value, hParts.count, h.fits.outside, filter_eq_self_of_countP hNoStar]

/-- Without function pointers a type whose names end is translated along its derivation exactly if
it fits. -/
theorem PlainShape.translated_iff (h : PlainShape t) (hDer : Derivable t) (hTold : Told t)
    (hX : translate t = some x) (hText : (render t).length < 256) (hRoom : x.length < n)
    (hBase : x.length ≤ allPointers t + 126) (hWide : 11 < n)
    (hMarker : NoFunction (trim (render t))) :
    externsCppTypeToCalynda n (render t) = x ↔ PlainFits t := by
  obtain ⟨quals, mid, stars, w, hParts⟩ := h.parts hDer (by rw [hX]; rfl)
  obtain rfl := Option.some.inj (hX.symm.trans hParts.value)
  obtain ⟨b, hHead, hStar⟩ := hParts.value_head hTold
  have hNe : w ≠ [] := by
    rintro rfl
    cases hHead
  rw [length_append, length_replicate] at hBase hRoom
  have hAll := hParts.all
  have hCount := hParts.count
  by_cases hBlank : ∀ c ∈ w, isSpace c = false
  · have hValueHead : ∀ c ∈ (w ++ mid.filter (! isStar ·)).head?, c ≠ '*' := by
      intro c hc
      rw [head?_append, hHead, Option.some_or] at hc
      exact Option.some.inj hc ▸ hStar
    obtain ⟨base, blanks, hSplit, hBaseText⟩ :=
      hParts.base (hParts.starts hTold.toNamesEnd hBlank) hTold.toNamesEnd
    have hWhole : render t = quals ++ base ++ blanks ++ stars := by
      rw [hParts.text, hSplit, ← append_assoc]
    have hRun : externsCppTypeToCalynda n (render t) = List.replicate (min stars.length 7) '*' ++
        (convertBase (firstText t ++ mid)).take (n - 1 - min stars.length 7) := by
      rw [externsCppTypeToCalynda]
      rw [hWhole] at hMarker hText ⊢
      rw [convertOne_parts hParts.quals hBaseText hMarker hText, CString.snprintf,
        take_append, length_replicate, take_of_length_le]
      rw [length_replicate]
      omega
    have hBaseHead : ∀ c ∈ ((convertBase (firstText t ++ mid)).take
        (n - 1 - min stars.length 7)).head?, c ≠ '*' := by
      intro c hc
      rw [head?_take] at hc
      split at hc
      · cases hc
      · exact hParts.base_head hTold hBlank c hc
    rw [hRun, replicate_append_eq_iff hBaseHead hValueHead]
    constructor
    · rintro ⟨hStars, hEq⟩
      have hNoStar : mid.countP isStar = 0 := by omega
      rw [filter_eq_self_of_countP hNoStar] at hBase hRoom hEq
      obtain ⟨hOwn, hNames⟩ := hParts.reads hTold hBlank (by omega) (by omega) (by omega) hEq
      refine ⟨by omega, by omega, fun y hy => ?_, hNames⟩
      rw [hX, filter_eq_self_of_countP hNoStar, hOwn y hy, hAll, hNoStar, Nat.add_zero]
    · intro hFits
      have hFew := hFits.few
      have hOutside := hFits.outside
      have hNoStar : mid.countP isStar = 0 := by omega
      rw [filter_eq_self_of_countP hNoStar] at hBase hRoom ⊢
      rw [hParts.base_eq hFits hTold.closed (append_ne_nil_of_left_ne_nil hNe mid) hNoStar
        (by omega)]
      exact ⟨by omega, take_of_length_le (by omega)⟩
  · -- a blank in the translation: the translator writes none
    refine iff_of_false (fun hEq => hBlank fun c hc => ?_) fun hFits => hBlank fun c hc => ?_
    · rw [← snprintf_of_lt hText] at hMarker
      refine mem_convertOne hMarker (?_ : c ∈ convertOne ((render t).length + 1) n _)
      rw [externsCppTypeToCalynda] at hEq
      rw [hEq]
      exact mem_append_right _ (mem_append_left _ hc)
    · have hNoStar : mid.countP isStar = 0 := by
        have hOutside := hFits.outside
        omega
      rw [filter_eq_self_of_countP hNoStar] at hBase
      have hEq := hParts.base_eq hFits hTold.closed (append_ne_nil_of_left_ne_nil hNe mid)
        hNoStar (by omega)
      exact mem_convertBase (hEq ▸ mem_append_left mid hc)

end Flat

/-! ## Types with function pointers -/

/-- Qualifiers of the grammar around a type. -/
def qualify (marks : List Char) (t : CwType) : CwType := marks.foldr .mark t

def fnMarker : List Char := "(*)(".toList

/-- The texts of a function pointer and their translations fit the arrays for them. -/
structure FnRoom (marks : List Char) (args : List CwType) (ret : CwType) : Prop where
  front : (render (qualify marks ret)).length < 128
  list : (joinArgs (renderAll args)).length < 256
  pieces : ∀ piece ∈ argPieces (renderAll args), piece.length < 128
  each : ∀ a ∈ args, ∀ x, translate a = some x → x.length < 128
  joined : ∀ xs, translateAll args = some xs → (joinArgs xs).length < 256
  result : ∀ x, translate ret = some x → x.length < 128

/-- The searches find the parts of the type: there is no function pointer in the text of another
type, the first one in the text of a function pointer is its own, and the commas outside of
brackets are those between its arguments. No pointer or array of function pointers. -/
inductive Handled : CwType → Prop
  | flat {t : CwType} (h : FlatShape t) (hMarker : NoFunction (trim (render t))) : Handled t
  | fnptr {marks : List Char} {args : List CwType} {ret : CwType}
      (hMarks : ∀ c ∈ marks, c = 'C' ∨ c = 'V') (hArgs : ∀ a ∈ args, Handled a)
      (hRet : FlatShape ret)
      (hMarker : strstr fnMarker (render (.fnptr args ret)) =
        some (render ret, fnMarker ++ (joinArgs (renderAll args) ++ [')'])))
      (hSplit : splitCommas 0 [] (joinArgs (renderAll args)) = argPieces (renderAll args))
      (hRoom : FnRoom marks args ret) : Handled (qualify marks (.fnptr args ret))

section Functions

variable {c : Char} {n fuel : Nat} {s t u x y : List Char} {type ret : CwType}
  {args : List CwType} {marks quals texts : List (Char)}

theorem render_fnptr (args : List CwType) (ret : CwType) :
    render (.fnptr args ret) =
      render ret ++ (fnMarker ++ (joinArgs (renderAll args) ++ [')'])) := by
  rw [render, append_assoc, append_assoc]
  rfl

theorem renderAll_eq (args : List CwType) : renderAll args = args.map render := by
  induction args with
  | nil => rfl
  | cons a args ih => rw [renderAll, ih, map_cons]

theorem derivableAll_iff : DerivableAll args ↔ ∀ a ∈ args, Derivable a := by
  induction args with
  | nil => exact iff_of_true trivial nofun
  | cons a args ih => rw [DerivableAll, forall_mem_cons, ih]

theorem translateAll_eq_some {xs : List (List Char)} (h : translateAll args = some xs) :
    List.Forall₂ (fun a x => translate a = some x) args xs := by
  induction args generalizing xs with
  | nil =>
    obtain rfl := Option.some.inj h
    exact .nil
  | cons a args ih =>
    rw [translateAll] at h
    obtain ⟨x, hx, h⟩ := Option.bind_eq_some_iff.1 h
    obtain ⟨xs', hxs, rfl⟩ := Option.map_eq_some_iff.1 h
    exact .cons hx (ih hxs)

theorem map_renderAll {f : List Char → List Char} {xs : List (List Char)}
    (h : List.Forall₂ (fun a x => translate a = some x) args xs)
    (hEach : ∀ a ∈ args, ∀ x, translate a = some x → f (render a) = x) :
    (renderAll args).map f = xs := by
  induction h with
  | nil => rfl
  | @cons a x args xs ha _ ih =>
    obtain ⟨hA, hRest⟩ := forall_mem_cons.1 hEach
    rw [renderAll, map_cons, ih hRest, hA x ha]

/-- The qualifiers change the front of the text, and not the translation. -/
theorem exists_quals (hMarks : ∀ c ∈ marks, c = 'C' ∨ c = 'V') : ∃ quals, Quals quals ∧
    ∀ t, render (qualify marks t) = quals ++ render t ∧
      translate (qualify marks t) = translate t ∧ (Derivable (qualify marks t) → Derivable t) := by
  induction marks with
  | nil => exact ⟨[], .nil, fun t => ⟨rfl, rfl, id⟩⟩
  | cons c marks ih =>
    obtain ⟨hc, hRest⟩ := forall_mem_cons.1 hMarks
    obtain ⟨quals, hQuals, hAll⟩ := ih hRest
    refine ⟨renderMark c [] ++ quals, .cons ?_ hQuals, fun t => ?_⟩
    · rcases hc with rfl | rfl
      · exact Or.inl rfl
      · exact Or.inr rfl
    · obtain ⟨hRender, hTranslate, hDer⟩ := hAll t
      have hFront : render (qualify (c :: marks) t) =
          renderMark c [] ++ render (qualify marks t) := by
        show render (.mark c (qualify marks t)) = _
        rw [render]
        rcases hc with rfl | rfl
        all_goals rfl
      refine ⟨by rw [hFront, hRender, append_assoc],
        (translate_qualified hc).trans hTranslate, fun h => hDer ?_⟩
      have hMark : Derivable (.mark c (qualify marks t)) := h
      rw [Derivable] at hMark
      exact hMark.2

/-! ### Searches -/

theorem strstr_cons_plain (h : c ≠ '(') : strstr fnMarker (c :: s) =
    (strstr fnMarker s).map fun (before, found) => (c :: before, found) := by
  rw [strstr, if_neg]
  intro hPrefix
  obtain ⟨u, hu⟩ := List.isPrefixOf_iff_prefix.1 hPrefix
  exact h (List.cons.inj hu).1.symm

theorem strstr_append_plain (h : '(' ∉ s) : strstr fnMarker (s ++ t) =
    (strstr fnMarker t).map fun (before, found) => (s ++ before, found) := by
  induction s with
  | nil =>
    rw [nil_append]
    cases strstr fnMarker t with
    | none => rfl
    | some found => rfl
  | cons c s ih =>
    have hc : c ≠ '(' := fun hEq => h (hEq ▸ mem_cons_self)
    rw [cons_append, strstr_cons_plain hc, ih fun hMem => h (mem_cons_of_mem c hMem)]
    cases strstr fnMarker t with
    | none => rfl
    | some found => rfl

theorem Quals.not_mem (h : Quals quals) : '(' ∉ quals := by
  induction h with
  | nil => exact not_mem_nil
  | cons hw _ ih =>
    refine fun hMem => (mem_append.1 hMem).elim ?_ ih
    rcases hw with rfl | rfl
    all_goals decide

/-- In front of the first place there is none. -/
theorem strstr_front {pat before found : List Char} (hPat : pat ≠ [])
    (h : strstr pat (s ++ t) = some (before, found)) (hLength : s.length ≤ before.length) :
    strstr pat s = none := by
  by_contra hSome
  obtain ⟨⟨front, rest⟩, hRest⟩ := Option.ne_none_iff_exists'.1 hSome
  obtain ⟨rfl, hPrefix⟩ := strstr_some hRest
  have hPos := Nat.lt_of_lt_of_le (length_pos_of_ne_nil hPat) hPrefix.length_le
  rw [length_append] at hLength
  refine strstr_first h (show front.length < before.length by omega) ?_
  rw [append_assoc, drop_left]
  exact hPrefix.trans (prefix_append rest t)

theorem beforeLast_concat (c : Char) (s : List Char) : beforeLast c (s ++ [c]) = some s := by
  have hDrop : (c :: s.reverse).dropWhile (fun d => decide (d ≠ c)) = c :: s.reverse :=
    dropWhile_cons_of_neg (by simp)
  rw [beforeLast, if_pos (mem_append_right s mem_cons_self), reverse_append,
    reverse_singleton, singleton_append, hDrop, drop_one, tail_cons,
    reverse_reverse]

/-! ### Arguments -/

theorem joinInto_eq {n : Nat} {pieces : List (List Char)} (hSome : ∀ x ∈ pieces, x ≠ [])
    (hRoom : (joinArgs pieces).length < n) : joinInto n pieces = joinArgs pieces := by
  have hFold : ∀ (pieces : List (List Char)) (buf : List Char), buf ≠ [] →
      (joinArgs (buf :: pieces)).length < n →
      pieces.foldl (fun buf piece =>
        strncat n (if buf = [] then buf else strncat n buf ", ".toList) piece) buf =
        joinArgs (buf :: pieces) := by
    intro pieces
    induction pieces with
    | nil =>
      intro buf _ _
      rw [joinArgs, intercalate_singleton]
      rfl
    | cons piece pieces ih =>
      intro buf hBuf hLength
      rw [foldl_cons, if_neg hBuf]
      rw [joinArgs] at hLength
      rw [strncat_intercalate hLength, ih _ (by simp), joinArgs, joinArgs, intercalate_append]
      rw [joinArgs, intercalate_append]
      exact hLength
  cases pieces with
  | nil => rfl
  | cons piece pieces =>
    have hPiece : piece.length < n :=
      Nat.lt_of_le_of_lt (length_le_intercalate ", ".toList piece pieces) hRoom
    rw [joinInto, foldl_cons, if_pos rfl,
      strncat_of_lt (by rw [length_nil]; omega), nil_append]
    exact hFold pieces piece (hSome piece mem_cons_self) hRoom

/-- The pieces between the commas are the texts of the arguments, without blanks around them. -/
theorem splitArgs_eq {texts : List (List Char)}
    (hSplit : splitCommas 0 [] (joinArgs texts) = argPieces texts)
    (hSome : ∀ x ∈ texts, trim x ≠ [])
    (hPieces : ∀ piece ∈ argPieces texts, piece.length < 128)
    (hRoom : (joinArgs texts).length < 256) :
    (((splitCommas 0 [] ((joinArgs texts).take 255)).map fun one => trim (one.take 127)).filter
      (· ≠ [])) = texts.map trim := by
  rw [take_of_length_le (by omega), hSplit]
  cases texts with
  | nil => rfl
  | cons text texts =>
    rw [argPieces, forall_mem_cons] at hPieces
    rw [argPieces, map_cons, map_map, take_of_length_le (by omega)]
    have hMap : texts.map ((fun one => trim (one.take 127)) ∘ (' ' :: ·)) = texts.map trim := by
      refine map_congr_left fun x hx => ?_
      have hLength := hPieces.2 (' ' :: x) (mem_map_of_mem hx)
      show trim ((' ' :: x).take 127) = trim x
      rw [take_of_length_le (by omega), trim_cons_blank]
    rw [hMap, ← map_cons]
    refine filter_eq_self.2 fun x hx => decide_eq_true ?_
    obtain ⟨text', hText, rfl⟩ := mem_map.1 hx
    exact hSome text' hText

/-- The pieces of a list are its texts, at most with a blank in front. -/
theorem length_le_argPieces {texts : List (List Char)} {x : List Char} (h : x ∈ texts) :
    ∃ piece ∈ argPieces texts, x.length ≤ piece.length := by
  cases texts with
  | nil => exact absurd h not_mem_nil
  | cons text texts =>
    rcases mem_cons.1 h with rfl | hMem
    · exact ⟨x, mem_cons_self, Nat.le_refl _⟩
    · exact ⟨' ' :: x, mem_cons_of_mem _ (mem_map_of_mem hMem), Nat.le_succ _⟩

theorem length_le_joinArgs {texts : List (List Char)} {x : List Char} (h : x ∈ texts) :
    x.length ≤ (joinArgs texts).length := by
  induction texts with
  | nil => exact absurd h not_mem_nil
  | cons text texts ih =>
    rcases mem_cons.1 h with rfl | hMem
    · exact length_le_intercalate _ x texts
    · cases texts with
      | nil => exact absurd hMem not_mem_nil
      | cons next texts =>
        have hRest := ih hMem
        rw [joinArgs] at hRest ⊢
        rw [intercalate_cons_cons, length_append]
        omega

end Functions

/-! ### Whole types -/

section Whole

variable {t : CwType} {n fuel : Nat} {x : List Char}

/-- What the translation of a handled type relies on, and what its surroundings do. -/
structure Converts (t : CwType) : Prop where
  kept : trim (render t) ≠ []
  notEmpty : ∀ x, translate t = some x → x ≠ []
  eq : ∀ {fuel n : Nat} {x : List Char}, translate t = some x → (render t).length < 256 →
    (render t).length < fuel → x.length < n → convertOne fuel n (render t) = x

/-- Behind qualifiers a type without function pointers is translated as it is without them. -/
theorem FlatShape.converts_behind (h : FlatShape t) (hDer : Derivable t)
    (hX : translate t = some x) {quals : List Char} (hQuals : Quals quals)
    (hMarker : NoFunction (trim (quals ++ render t))) (hText : (quals ++ render t).length < 256)
    (hFuel : 0 < fuel) (hRoom : x.length < n) : convertOne fuel n (quals ++ render t) = x := by
  obtain ⟨quals', base, blanks, stars, y, hParts⟩ := h.parts hDer (by rw [hX]; rfl)
  obtain rfl := Option.some.inj (hX.symm.trans hParts.value)
  obtain ⟨fuel, rfl⟩ : ∃ k, fuel = k + 1 := ⟨fuel - 1, by omega⟩
  have hFew : min stars.length 7 = stars.length := Nat.min_eq_left (hParts.count ▸ h.fits.few)
  have hWhole : quals ++ render t = quals ++ quals' ++ base ++ blanks ++ stars := by
    simp only [hParts.text, append_assoc]
  rw [hWhole] at hMarker hText ⊢
  rw [convertOne_parts (hQuals.append hParts.quals) hParts.base hMarker hText, hFew]
  exact snprintf_of_lt hRoom

theorem FlatShape.converts (h : FlatShape t) (hDer : Derivable t)
    (hSome : (translate t).isSome) (hMarker : NoFunction (trim (render t))) : Converts t := by
  obtain ⟨quals, base, blanks, stars, y, hParts⟩ := h.parts hDer hSome
  refine ⟨?_, fun x hx => ?_, fun hX hText hFuel hRoom =>
    h.converts_behind hDer hX .nil hMarker hText (Nat.zero_lt_of_lt hFuel) hRoom⟩
  · obtain ⟨back, -, hTrim, -⟩ := hParts.base.trim_eq hParts.quals
    rw [hParts.text, hTrim]
    simp only [append_assoc]
    exact append_ne_nil_of_right_ne_nil _ (append_ne_nil_of_left_ne_nil hParts.base.some _)
  · rw [hParts.value] at hx
    rw [← Option.some.inj hx]
    refine append_ne_nil_of_right_ne_nil _ ?_
    rw [← hParts.base.converts]
    exact convertBase_ne base

theorem trimmed_fnptr {front : List Char} (list : List Char)
    (hHead : ∀ c ∈ front.head?, isSpace c = false) :
    Trimmed (front ++ (fnMarker ++ (list ++ [')']))) := by
  refine ⟨head_append hHead fun c hc => Option.some.inj hc ▸ rfl, fun c hc => ?_⟩
  rw [← append_assoc, ← append_assoc, getLast?_concat] at hc
  exact Option.some.inj hc ▸ rfl

/-- The text of a function pointer is translated by its parts. -/
theorem convertOne_fnptr {front list : List Char} (hHead : ∀ c ∈ front.head?, isSpace c = false)
    (hFirst : strstr fnMarker (front ++ (fnMarker ++ (list ++ [')']))) =
      some (front, fnMarker ++ (list ++ [')'])))
    (hText : (front ++ (fnMarker ++ (list ++ [')']))).length < 256) (hFront : front.length < 128) :
    convertOne (fuel + 1) n (front ++ (fnMarker ++ (list ++ [')']))) =
      CString.snprintf n ("fn(".toList ++ joinInto 256 ((((splitCommas 0 [] (list.take 255)).map
        fun one => trim (one.take 127)).filter (· ≠ [])).map (convertOne fuel 128)) ++
        ") -> ".toList ++ convertOne fuel 128 (trim front)) := by
  have hLength : 4 < (front ++ (fnMarker ++ (list ++ [')']))).length := by
    simp only [length_append, length_singleton, show fnMarker.length = 4 from rfl]
    omega
  have hNe : front ++ (fnMarker ++ (list ++ [')'])) ≠ [] := ne_nil_of_length_pos (by omega)
  have hDots : front ++ (fnMarker ++ (list ++ [')'])) ≠ "...".toList := by
    intro hDots
    rw [hDots] at hLength
    exact absurd hLength (by decide)
  have hRest : (fnMarker ++ (list ++ [')'])).drop 4 = list ++ [')'] := drop_left' rfl
  have hTrim := (trimmed_fnptr list hHead).trim_eq
  generalize front ++ (fnMarker ++ (list ++ [')'])) = s at *
  rw [fnMarker] at hFirst hRest
  rw [convertOne, snprintf_of_lt hText, hTrim]
  dsimp only
  rw [if_neg hNe, if_neg hDots, hFirst]
  dsimp only
  rw [hRest, beforeLast_concat]
  dsimp only
  rw [take_of_length_le (by omega : front.length ≤ 127)]

/-- The pieces of an argument list become the translations of the arguments. -/
theorem args_convert {marks : List Char} {args : List CwType} {ret : CwType}
    {xs : List (List Char)} (hArgs : ∀ a ∈ args, Converts a) (hRoom : FnRoom marks args ret)
    (hXs : Forall₂ (fun a x => translate a = some x) args xs)
    (hFuel : (joinArgs (renderAll args)).length < fuel) :
    ((renderAll args).map trim).map (convertOne fuel 128) = xs := by
  rw [map_map]
  refine map_renderAll hXs fun a ha x hx => ?_
  have hIn : render a ∈ renderAll args := by
    rw [renderAll_eq]
    exact mem_map_of_mem ha
  have hLe := length_le_joinArgs hIn
  obtain ⟨piece, hPiece, hShort⟩ := length_le_argPieces hIn
  have hSmall := hRoom.pieces piece hPiece
  show convertOne fuel 128 (trim (render a)) = x
  rw [convertOne_trim (by omega)]
  exact (hArgs a ha).eq hx (by omega) (by omega) (hRoom.each a ha x hx)

theorem fnptr_converts {marks : List Char} {args : List CwType} {ret : CwType}
    (hMarks : ∀ c ∈ marks, c = 'C' ∨ c = 'V') (hArgs : ∀ a ∈ args, Converts a)
    (hRet : FlatShape ret)
    (hMarker : strstr fnMarker (render (.fnptr args ret)) =
      some (render ret, fnMarker ++ (joinArgs (renderAll args) ++ [')'])))
    (hSplit : splitCommas 0 [] (joinArgs (renderAll args)) = argPieces (renderAll args))
    (hRoom : FnRoom marks args ret) (hDer : Derivable (qualify marks (.fnptr args ret)))
    (hSome : (translate (qualify marks (.fnptr args ret))).isSome) :
    Converts (qualify marks (.fnptr args ret)) := by
  obtain ⟨quals, hQuals, hAll⟩ := exists_quals hMarks
  obtain ⟨hText, hValue, hDerOf⟩ := hAll (.fnptr args ret)
  have hFn := hDerOf hDer
  rw [Derivable] at hFn
  -- the translations of the parts
  rw [hValue] at hSome
  obtain ⟨value, hSome⟩ := Option.isSome_iff_exists.1 hSome
  rw [translate] at hSome
  obtain ⟨xs, hXs, hSome⟩ := Option.bind_eq_some_iff.1 hSome
  obtain ⟨y, hY, rfl⟩ := Option.map_eq_some_iff.1 hSome
  have hForall := translateAll_eq_some hXs
  have hTranslate : translate (qualify marks (.fnptr args ret)) =
      some ("fn(".toList ++ joinArgs xs ++ ") -> ".toList ++ y) := by
    rw [hValue, translate, hXs, Option.bind_some, hY, Option.map_some]
  obtain ⟨quals', base, blanks, stars, y', hParts⟩ := hRet.parts hFn.2 (by rw [hY]; rfl)
  have hFrontHead : ∀ c ∈ (quals ++ render ret).head?, isSpace c = false := by
    refine head_append hQuals.head fun c hc => ?_
    refine (hParts.base.trimmed hParts.quals).head c ?_
    rwa [hParts.text, append_assoc, head?_append_of_ne_nil] at hc
    exact append_ne_nil_of_right_ne_nil _ hParts.base.some
  have hWhole : render (qualify marks (.fnptr args ret)) =
      quals ++ render ret ++ (fnMarker ++ (joinArgs (renderAll args) ++ [')'])) := by
    rw [hText, render_fnptr, append_assoc]
  refine ⟨?_, fun x hx => ?_, fun {fuel n x} hx hTextRoom hFuel hN => ?_⟩
  · rw [hWhole, (trimmed_fnptr _ hFrontHead).trim_eq, ← append_assoc, ← append_assoc]
    exact append_ne_nil_of_right_ne_nil _ (cons_ne_nil _ _)
  · rw [hTranslate] at hx
    rw [← Option.some.inj hx]
    exact cons_ne_nil _ _
  · obtain rfl := Option.some.inj (hTranslate.symm.trans hx)
    obtain ⟨fuel, rfl⟩ : ∃ k, fuel = k + 1 := ⟨fuel - 1, by omega⟩
    have hFront : (quals ++ render ret).length < 128 := by
      have h := hRoom.front
      rwa [(hAll ret).1] at h
    have hFirst : strstr fnMarker (render (qualify marks (.fnptr args ret))) =
        some (quals ++ render ret, fnMarker ++ (joinArgs (renderAll args) ++ [')'])) := by
      rw [hText, strstr_append_plain hQuals.not_mem, hMarker]
      rfl
    rw [hWhole] at hFirst hTextRoom hFuel ⊢
    have hLength : (joinArgs (renderAll args)).length < fuel := by
      simp only [length_append, length_singleton] at hFuel
      omega
    -- the return type
    have hNone : NoFunction (trim (quals ++ render ret)) := by
      intro before found hFound
      obtain ⟨rest, hRest⟩ := trim_prefix hFrontHead
      rw [← fnMarker, strstr_front (t := rest ++ _) (by decide)
        (by rw [← append_assoc, hRest]; exact hFirst) (length_trim_le _)] at hFound
      exact nomatch hFound
    have hResult := hRet.converts_behind hFn.2 hY hQuals hNone (by omega)
      (Nat.zero_lt_of_lt hLength) (hRoom.result y hY)
    -- the arguments
    have hTexts : ∀ x ∈ renderAll args, trim x ≠ [] := by
      intro x hx
      rw [renderAll_eq] at hx
      obtain ⟨a, ha, rfl⟩ := mem_map.1 hx
      exact (hArgs a ha).kept
    have hXsSome : ∀ x ∈ xs, x ≠ [] := by
      intro x hx
      obtain ⟨a, ha, hOne⟩ := List.Forall₂.exists_of_mem_right hForall hx
      exact (hArgs a ha).notEmpty x hOne
    rw [convertOne_fnptr hFrontHead hFirst hTextRoom hFront, convertOne_trim (by omega), hResult,
      splitArgs_eq hSplit hTexts hRoom.pieces hRoom.list, args_convert hArgs hRoom hForall hLength,
      joinInto_eq hXsSome (hRoom.joined xs hXs)]
    exact snprintf_of_lt hN

/-- The induction over a handled type. -/
theorem Handled.converts (h : Handled t) (hDer : Derivable t) (hSome : (translate t).isSome) :
    Converts t := by
  induction h with
  | flat h hMarker => exact h.converts hDer hSome hMarker
  | @fnptr marks args ret hMarks hArgs hRet hMarker hSplit hRoom ih =>
    refine fnptr_converts hMarks (fun a ha => ?_) hRet hMarker hSplit hRoom hDer hSome
    obtain ⟨quals, -, hAll⟩ := exists_quals hMarks
    obtain ⟨-, hValue, hDerOf⟩ := hAll (.fnptr args ret)
    have hFn := hDerOf hDer
    rw [Derivable] at hFn
    rw [hValue, translate] at hSome
    obtain ⟨value, hSome⟩ := Option.isSome_iff_exists.1 hSome
    obtain ⟨xs, hXs, -⟩ := Option.bind_eq_some_iff.1 hSome
    obtain ⟨x, -, hx⟩ := List.Forall₂.exists_of_mem_left (translateAll_eq_some hXs) ha
    exact ih a ha (derivableAll_iff.1 hFn.1 a ha) (by rw [hx]; rfl)

/-- A type whose parts the searches find is translated along its derivation, and one without
function pointers whose names end only if it fits. -/
theorem externsCppTypeToCalynda_eq (hDer : Derivable t) (hX : translate t = some x)
    (hText : (render t).length < 256) (hRoom : x.length < n) :
    (Handled t → externsCppTypeToCalynda n (render t) = x) ∧
      (PlainShape t → Told t → x.length ≤ allPointers t + 126 → 11 < n →
        NoFunction (trim (render t)) →
        (externsCppTypeToCalynda n (render t) = x ↔ PlainFits t)) := by
  refine ⟨fun h => ?_, fun h hTold hBase hWide hMarker => ?_⟩
  · exact (h.converts hDer (by rw [hX]; rfl)).eq hX hText (Nat.lt_succ_self _) hRoom
  · exact h.translated_iff hDer hTold hX hText hRoom hBase hWide hMarker

end Whole

/-! ## A callback and a name -/

/-- `void(*)(const EGG::Foo<int>*, int&)`. -/
def callbackType : CwType :=
  .fnptr
    [.mark 'P' (.mark 'C' (.qualified [("3".toList, "EGG".toList), ("8".toList, "Foo<int>".toList)])),
      .mark 'R' (.prim 'i')]
    (.prim 'v')

theorem callbackType_handled : Handled callbackType := by
  have hPointer : FlatShape (.mark 'P' (.mark 'C'
      (.qualified [("3".toList, "EGG".toList), ("8".toList, "Foo<int>".toList)]))) :=
    { closed := by decide
      ends := fun _ => ⟨by decide, fun c hc => Option.some.inj hc ▸ by decide,
        fun _ c hc => Option.some.inj hc ▸ by decide⟩
      plain := .mark (by decide) (.mark (by decide) .qualified)
      fits := ⟨by decide, rfl, (fun _ h => by cases h), fun _ => by decide⟩
      nonempty := fun x hx => by rw [← Option.some.inj hx]; decide
      room := fun x hx => by rw [← Option.some.inj hx]; decide }
  have hReference : FlatShape (.mark 'R' (.prim 'i')) :=
    { closed := by decide
      ends := fun _ => ⟨by decide, fun c hc => Option.some.inj hc ▸ by decide,
        fun _ c hc => Option.some.inj hc ▸ by decide⟩
      plain := .mark (by decide) .prim
      fits := ⟨by decide, rfl, fun y hy => by rw [← Option.some.inj hy]; rfl, fun h => nomatch h⟩
      nonempty := fun x hx => by rw [← Option.some.inj hx]; decide
      room := fun x hx => by rw [← Option.some.inj hx]; decide }
  have hVoid : FlatShape (.prim 'v') :=
    { closed := by decide
      ends := fun _ => ⟨by decide, fun c hc => Option.some.inj hc ▸ by decide,
        fun _ c hc => Option.some.inj hc ▸ by decide⟩
      plain := .prim
      fits := ⟨by decide, rfl, fun y hy => by rw [← Option.some.inj hy]; rfl, fun h => nomatch h⟩
      nonempty := fun x hx => by rw [← Option.some.inj hx]; decide
      room := fun x hx => by rw [← Option.some.inj hx]; decide }
  have hNone : ∀ c ∈ ([] : List Char), c = 'C' ∨ c = 'V' := fun _ h => by cases h
  have hNoFunction : ∀ {s : List Char}, strstr fnMarker s = none → NoFunction s := by
    intro s hSearch before found hFound
    exact nomatch hSearch.symm.trans hFound
  refine Handled.fnptr hNone ?_ hVoid (by decide) (by decide)
    ⟨by decide, by decide, by decide, ?_, ?_, ?_⟩
  · intro a ha
    simp only [mem_cons, not_mem_nil, or_false] at ha
    rcases ha with rfl | rfl
    · exact .flat hPointer (hNoFunction (by decide))
    · exact .flat hReference (hNoFunction (by decide))
  · intro a ha
    simp only [mem_cons, not_mem_nil, or_false] at ha
    rcases ha with rfl | rfl
    all_goals exact fun x hx => by rw [← Option.some.inj hx]; decide
  · intro xs hXs
    rw [← Option.some.inj hXs]
    decide
  · intro x hx
    rw [← Option.some.inj hx]
    decide

theorem callbackType_derivable : Derivable callbackType := by
  have hNames : ∀ x ∈ [("3".toList, "EGG".toList), ("8".toList, "Foo<int>".toList)],
      IsName x.1 x.2 := by
    intro x hx
    simp only [mem_cons, not_mem_nil, or_false] at hx
    rcases hx with rfl | rfl
    all_goals exact ⟨by decide, by simp, by decide, by decide, by simp⟩
  simp only [callbackType, Derivable, DerivableAll]
  exact ⟨⟨⟨by decide, by decide, by decide, by decide, hNames⟩, ⟨by decide, by decide⟩, trivial⟩,
    by decide⟩

theorem externsCppTypeToCalynda_callback :
    externsCppTypeToCalynda 128 "void(*)(const EGG::Foo<int>*, int&)".toList =
        "fn(*EGG.Foo, *i32) -> ()".toList ∧
      (externsCppTypeToCalynda 128 "int[3]".toList = "i32[3]".toList ↔
        PlainFits (.array "3".toList (.prim 'i'))) := by
  have hArray : Derivable (.array "3".toList (.prim 'i')) := by
    simp only [Derivable]
    exact ⟨by decide, by simp, by decide, by decide⟩
  have hTold : Told (.array "3".toList (.prim 'i')) :=
    { closed := by decide
      ends := fun h => nomatch h
      head := fun name hName => by
        rw [← Option.some.inj hName]
        exact ⟨'i', rfl, by decide⟩ }
  have hMarker : NoFunction (trim (render (.array "3".toList (.prim 'i')))) := by
    intro before found hFound
    have hNone : strstr fnMarker (trim (render (.array "3".toList (.prim 'i')))) = none := by decide
    exact nomatch hNone.symm.trans hFound
  exact ⟨(externsCppTypeToCalynda_eq (t := callbackType) callbackType_derivable rfl (by decide)
      (by decide)).1 callbackType_handled,
    (externsCppTypeToCalynda_eq (t := .array "3".toList (.prim 'i')) hArray rfl (by decide)
      (by decide)).2 (.array .prim) hTold (by decide) (by decide) hMarker⟩

/-- The class `intVec` is taken for an `int`, and the pointer to a function pointer loses its
star. -/
theorem not_externsCppTypeToCalynda_intVec :
    externsCppTypeToCalynda 128 "void(*)(int)*".toList = "fn(i32) -> ()".toList ∧
      ¬ ∀ n t x, Derivable t → InnerFits t → translate t = some x → (render t).length < 256 →
        x.length < n → externsCppTypeToCalynda n (render t) = x := by
  refine ⟨by decide, fun h => ?_⟩
  have hDer : Derivable (.name "6".toList "intVec".toList) := by
    rw [Derivable]
    exact ⟨by decide, by simp, by decide, by decide, by simp⟩
  have hName := h 128 (.name "6".toList "intVec".toList) "intVec".toList hDer
    (by rw [InnerFits]; trivial) rfl (by decide) (by decide)
  exact absurd hName (by decide)

end Calynda.Decompiler
