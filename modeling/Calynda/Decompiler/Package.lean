import Calynda.Decompiler.Prefixes
import Mathlib.Data.List.TakeWhile

/-!
# The package of a symbol

The emitter looks for the package of a symbol by itself: in front of the first `::`, or behind the
first `__`. The demangler splits elsewhere and knows qualifiers of several names. The two agree
where the first `__` is the separator and the qualifier is a single short name.
-/

namespace Calynda.Decompiler

open CString

/-- The package of a demangled symbol: the first component of its path, or `main`. -/
def packageOf (d : CwDemangled) : List Char :=
  if d.qualifier = [] then "main".toList
  else (cwToCalyndaPath 256 d.qualifier).takeWhile (· ≠ '.')

/-! ## The first component of a path -/

theorem lowerByte_eq_iff (c : Char) {d : Char} (hd : d = ':' ∨ d = '.') :
    lowerByte c = d ↔ c = d := by
  rw [lowerByte]
  by_cases hc : 'A' ≤ c ∧ c ≤ 'Z'
  · rw [if_pos hc]
    have hLo : 65 ≤ c.toNat := hc.1
    have hHi : c.toNat ≤ 90 := hc.2
    have hLetter : ∀ k : Nat, 65 ≤ k → k ≤ 90 →
        Char.ofNat (k + 32) ≠ ':' ∧ Char.ofNat (k + 32) ≠ '.' := by
      intro k hLo hHi
      interval_cases k <;> decide
    obtain ⟨hColon, hDot⟩ := hLetter c.toNat hLo hHi
    rcases hd with rfl | rfl
    · exact iff_of_false hColon (by rintro rfl; exact absurd hLo (by decide))
    · exact iff_of_false hDot (by rintro rfl; exact absurd hLo (by decide))
  · rw [if_neg hc]

theorem pkgForHead_eq {comp : List Char} (h : comp.length ≤ 95) :
    pkgForHead 96 comp = comp.map lowerByte := by
  rw [pkgForHead]
  cases hFind : kNs.find? fun ns => ns.1.toList = comp with
  | none =>
    show (comp.map lowerByte).take (96 - 1) = _
    exact List.take_of_length_le (by rw [List.length_map]; exact h)
  | some ns =>
    have hTable : ∀ ns ∈ kNs, snprintf 96 ns.2.toList = ns.1.toList.map lowerByte := by decide
    have hKey : ns.1.toList = comp := by simpa using List.find?_some hFind
    show snprintf 96 ns.2.toList = _
    rw [hTable ns (List.mem_of_find?_eq_some hFind), hKey]

/-- Components behind the first one come with a dot. -/
theorem pathFrom_false (n fuel : Nat) (used p : List Char) :
    ∃ t, pathFrom n fuel false used p = used ++ t ∧ (t = [] ∨ ∃ u, t = '.' :: u) := by
  induction fuel generalizing used p with
  | zero => exact ⟨[], (List.append_nil used).symm, Or.inl rfl⟩
  | succ fuel ih =>
    rw [pathFrom]
    simp only [Bool.false_eq_true, if_false]
    split
    case isTrue => exact ⟨[], (List.append_nil used).symm, Or.inl rfl⟩
    case isFalse =>
      split
      case isTrue => exact ⟨[], (List.append_nil used).symm, Or.inl rfl⟩
      case isFalse =>
        obtain ⟨t, ht, -⟩ := ih (used ++ ['.'] ++
          snprintf 96 (((p.dropWhile (· = ':')).takeWhile (· ≠ ':')).take 95))
          ((p.dropWhile (· = ':')).dropWhile (· ≠ ':'))
        refine ⟨'.' :: (snprintf 96 (((p.dropWhile (· = ':')).takeWhile (· ≠ ':')).take 95) ++ t),
          ht.trans ?_, Or.inr ⟨_, rfl⟩⟩
        simp only [List.append_assoc, List.cons_append, List.nil_append]

/-- The first component of a qualifier, in front of a dot. -/
def headComponent (q : List Char) : List Char :=
  (((q.dropWhile (· = ':')).takeWhile (· ≠ ':')).take 95).takeWhile (· ≠ '.')

theorem takeWhile_map_lowerByte (s : List Char) :
    (s.map lowerByte).takeWhile (· ≠ '.') = (s.takeWhile (· ≠ '.')).map lowerByte := by
  induction s with
  | nil => rfl
  | cons c s ih =>
    rw [List.map_cons, List.takeWhile_cons, List.takeWhile_cons, ih]
    by_cases hc : c = '.'
    · subst hc
      simp [(lowerByte_eq_iff '.' (Or.inr rfl)).2 rfl]
    · simp [hc, mt (lowerByte_eq_iff c (Or.inr rfl)).1 hc]

theorem takeWhile_append_dot {s t : List Char} (ht : t = [] ∨ ∃ u, t = '.' :: u) :
    (s ++ t).takeWhile (· ≠ '.') = s.takeWhile (· ≠ '.') := by
  induction s with
  | nil => rcases ht with rfl | ⟨u, rfl⟩ <;> simp
  | cons c s ih => rw [List.cons_append, List.takeWhile_cons, List.takeWhile_cons, ih]

theorem path_head (q : List Char) :
    (cwToCalyndaPath 256 q).takeWhile (· ≠ '.') = (headComponent q).map lowerByte := by
  rw [cwToCalyndaPath, pathFrom, headComponent]
  dsimp only
  by_cases hNil : q.dropWhile (· = ':') = []
  · rw [if_pos hNil, hNil]
    rfl
  · have hLength : (((q.dropWhile (· = ':')).takeWhile (· ≠ ':')).take 95).length ≤ 95 :=
      List.length_take_le _ _
    rw [if_neg hNil, if_pos rfl, pkgForHead_eq hLength,
      if_neg (by rw [List.length_map, List.length_nil, if_pos rfl]; omega), if_pos rfl,
      List.append_nil, List.nil_append]
    obtain ⟨t, ht, hDot⟩ := pathFrom_false 256 q.length
      ((((q.dropWhile (· = ':')).takeWhile (· ≠ ':')).take 95).map lowerByte)
      ((q.dropWhile (· = ':')).dropWhile (· ≠ ':'))
    rw [ht, takeWhile_append_dot hDot, takeWhile_map_lowerByte]

/-! ## A name as a whole -/

theorem mem_map_lowerByte {s : List Char} {d : Char} (hd : d = ':' ∨ d = '.') :
    d ∈ s.map lowerByte ↔ d ∈ s := by
  rw [List.mem_map]
  constructor
  · rintro ⟨c, hc, hEq⟩
    rwa [← (lowerByte_eq_iff c hd).1 hEq]
  · exact fun h => ⟨d, h, (lowerByte_eq_iff d hd).2 rfl⟩

/-- The characters of a component: neither colons nor dots. -/
def inComponent (c : Char) : Bool := c ≠ ':' && c ≠ '.'

theorem headComponent_of_head {q : List Char} (hq : ∀ c ∈ q.head?, c ≠ ':') :
    headComponent q = (q.takeWhile inComponent).take 95 := by
  have hDrop : q.dropWhile (· = ':') = q := by
    cases q with
    | nil => rfl
    | cons c q => exact List.dropWhile_cons_of_neg (by simpa using hq c rfl)
  have hTake : ∀ (k : Nat) (s : List Char), ((s.takeWhile (· ≠ ':')).take k).takeWhile (· ≠ '.') =
      (s.takeWhile inComponent).take k := by
    intro k s
    induction s generalizing k with
    | nil => simp
    | cons c s ih =>
      cases k with
      | zero => simp
      | succ k =>
        by_cases hColon : c = ':'
        · simp [hColon, inComponent]
        · by_cases hDot : c = '.'
          · simp [hDot, inComponent]
          · simpa [hColon, hDot, inComponent] using ih k
  rw [headComponent, hDrop, hTake]

/-- The first bytes of a name are the first component exactly if they are all of it. -/
theorem take_eq_headComponent_iff {q : List Char} (hq : q ≠ []) :
    (q.take 63).map lowerByte = (headComponent q).map lowerByte ↔
      q.takeWhile inComponent = q.take 63 := by
  obtain ⟨c, s, rfl⟩ := List.exists_cons_of_ne_nil hq
  constructor
  · intro h
    have hPlain : ∀ d ∈ (c :: s).take 63, inComponent d = true := by
      intro d hd
      have hHead : ∀ e, e = ':' ∨ e = '.' → e ∉ headComponent (c :: s) := by
        rintro e (rfl | rfl) hMem
        · have hMem' := List.mem_of_mem_take (List.takeWhile_subset _ hMem)
          exact absurd (List.mem_takeWhile_imp hMem') (by decide)
        · exact absurd (List.mem_takeWhile_imp hMem) (by decide)
      have hNot : ∀ e, e = ':' ∨ e = '.' → d ≠ e := by
        rintro e he rfl
        refine hHead d he ((mem_map_lowerByte he).1 (h ▸ ?_))
        exact (mem_map_lowerByte he).2 hd
      simp [inComponent, hNot _ (Or.inl rfl), hNot _ (Or.inr rfl)]
    have hFirst : ∀ d ∈ (c :: s).head?, d ≠ ':' := by
      rintro d hd rfl
      cases hd
      exact absurd (hPlain ':' List.mem_cons_self) (by decide)
    rw [headComponent_of_head hFirst] at h
    have hLength := congrArg List.length h
    rw [List.length_map, List.length_map, List.length_take, List.length_take] at hLength
    have hPrefix : (c :: s).takeWhile inComponent <+: c :: s := List.takeWhile_prefix _
    have hLe := hPrefix.length_le
    exact (List.prefix_iff_eq_take.1 hPrefix).trans (List.take_eq_take_iff.2 (by omega))
  · intro h
    have hFirst : ∀ d ∈ (c :: s).head?, d ≠ ':' := by
      rintro d hd rfl
      cases hd
      rw [List.takeWhile_cons_of_neg (by decide)] at h
      exact nomatch h
    rw [headComponent_of_head hFirst, h, List.take_take]
    rfl

/-! ## Accepted symbols -/

theorem findSplitFrom_some {s name sep : List Char} (h : findSplitFrom s = some (name, sep)) :
    s = name ++ sep ∧ isSplit sep = true := by
  induction s generalizing name with
  | nil => exact nomatch h
  | cons c s ih =>
    rw [findSplitFrom] at h
    split at h
    case isTrue hSplit =>
      cases h
      exact ⟨rfl, hSplit⟩
    case isFalse =>
      obtain ⟨⟨before, sep'⟩, hRest, hEq⟩ := Option.map_eq_some_iff.1 h
      cases hEq
      obtain ⟨hs, hSplit⟩ := ih hRest
      exact ⟨by rw [List.cons_append, ← hs], hSplit⟩

theorem findSplit_some {s name sep : List Char} (h : findSplit s = some (name, sep)) :
    s = name ++ sep ∧ isSplit sep = true := by
  rw [findSplit.eq_def] at h
  split at h
  case h_1 s =>
    obtain ⟨⟨before, sep'⟩, hRest, hEq⟩ := Option.map_eq_some_iff.1 h
    cases hEq
    obtain ⟨hs, hSplit⟩ := findSplitFrom_some hRest
    exact ⟨by rw [List.cons_append, List.cons_append, ← hs], hSplit⟩
  case h_2 => exact findSplitFrom_some h

theorem isSplit_cases {sep : List Char} (h : isSplit sep = true) :
    ∃ c t, sep = '_' :: '_' :: c :: t ∧ (c = 'F' ∨ c = 'Q' ∨ ('1' ≤ c ∧ c ≤ '9')) := by
  unfold isSplit at h
  split at h
  case h_1 c t => exact ⟨c, t, rfl, by simpa [or_assoc] using h⟩
  case h_2 => cases h

theorem cwSignature_qualifier {verbatim name qualifier rest : List Char} {d : CwDemangled}
    (h : cwSignature verbatim name qualifier rest = .ok d) : d.qualifier = qualifier := by
  rw [cwSignature] at h
  dsimp only at h
  split at h
  case h_1 =>
    split at h
    case h_1 =>
      cases h
      rfl
    case h_2 =>
      cases h
      rfl
    case h_3 => cases h
  case h_2 =>
    cases h
    rfl

theorem dmgComponents_ne {isFirst : Bool} {qual : List Char} {k : Nat} {s out rest : List Char}
    (h : dmgComponents isFirst qual k s = .ok out rest) (hNe : qual ≠ [] ∨ k ≠ 0) : out ≠ [] := by
  induction k generalizing isFirst qual s with
  | zero =>
    cases h
    exact hNe.resolve_right fun h => h rfl
  | succ k ih =>
    rw [dmgComponents] at h
    obtain ⟨comp, t, hComp, hRest⟩ := Parse.bind_eq_ok h
    refine ih hRest (Or.inl ?_)
    rw [strncat]
    by_cases hQual : qual = []
    · have hAt := nameAt_of_ok hComp
      rw [dmgParseName_eq, if_pos hAt.small, if_neg (by have := hAt.pos; have := hAt.room; omega),
        if_neg (by have := hAt.inside; omega)] at hComp
      cases hComp
      have hPos := hAt.pos
      have hInside := hAt.inside
      have hRoom := hAt.room
      subst hQual
      intro hNil
      have hLength := congrArg List.length hNil
      rw [List.length_append, List.length_take, List.length_take, List.length_nil] at hLength
      have hSep : (if isFirst = true then ([] : List Char)
          else strncat 256 [] "::".toList).length ≤ 2 := by
        cases isFirst <;> decide
      omega
    · cases isFirst with
      | true => exact fun h => hQual (List.append_eq_nil_iff.1 h).1
      | false =>
        refine fun h => hQual ?_
        exact (List.append_eq_nil_iff.1 (List.append_eq_nil_iff.1 h).1).1

/-- What is behind the separator of an accepted symbol. -/
theorem accepted_cases {s : List Char} {d : CwDemangled} (hd : cwDemangle s = .ok d)
    (hOk : d.ok = true) :
    ∃ name sep c t, findSplit s = some (name, sep) ∧ sep = '_' :: '_' :: c :: t ∧
      ((c = 'F' ∧ d.qualifier = []) ∨ (c = 'Q' ∧ d.qualifier ≠ []) ∨
        (c.isDigit = true ∧ leadingNumber (c :: t) ≤ intMax ∧ 0 < leadingNumber (c :: t) ∧
          leadingNumber (c :: t) ≤ (afterNumber (c :: t)).length ∧
          d.qualifier = (afterNumber (c :: t)).take (leadingNumber (c :: t)))) := by
  rw [cwDemangle] at hd
  dsimp only at hd
  split at hd
  case h_1 =>
    cases hd
    cases hOk
  case h_2 name sep hSplit =>
    obtain ⟨c, t, rfl, hc⟩ := isSplit_cases (findSplit_some hSplit).2
    refine ⟨name, _, c, t, hSplit, rfl, ?_⟩
    split at hd
    case isTrue =>
      cases hd
      cases hOk
    case isFalse =>
      simp only [List.drop_succ_cons, List.drop_zero] at hd
      split at hd
      case isTrue hHead =>
        split at hd
        case h_1 qualifier rest hType =>
          have hQual := cwSignature_qualifier hd
          rcases hHead with rfl | ⟨hLo, hHi⟩
          · refine Or.inr (Or.inl ⟨rfl, ?_⟩)
            rw [hQual]
            cases t with
            | nil => cases (dmgParseType_qualified_nil (by decide)).symm.trans hType
            | cons e t =>
              rw [typeFuel, dmgParseType_qualified (by decide)] at hType
              split at hType
              case isTrue he =>
                obtain ⟨qual, u, hComps, hOut⟩ := Parse.bind_eq_ok hType
                cases hOut
                have hNe : e.toNat - 48 ≠ 0 := by
                  have hOne : 49 ≤ e.toNat := he.1
                  omega
                have hQualNe := dmgComponents_ne hComps (Or.inr hNe)
                rw [snprintf, Ne, List.take_eq_nil_iff]
                exact fun h => h.elim (by decide) hQualNe
              case isFalse => cases hType
          · have hDigit : c.isDigit = true := by
              have hLo' : 49 ≤ c.toNat := hLo
              have hHi' : c.toNat ≤ 57 := hHi
              rw [Char.isDigit, Bool.and_eq_true, decide_eq_true_iff, decide_eq_true_iff]
              exact ⟨UInt32.le_iff_toNat_le.2 (Nat.le_of_succ_le hLo'), hHi⟩
            rw [typeFuel, dmgParseType_name (by decide) hDigit] at hType
            have hAt := nameAt_of_ok hType
            have hPos := hAt.pos
            have hRoom := hAt.room
            have hInside := hAt.inside
            rw [dmgParseName_eq, if_pos hAt.small, if_neg (by omega), if_neg (by omega)] at hType
            cases hType
            exact Or.inr (Or.inr ⟨hDigit, hAt.small, hPos, hInside, hQual⟩)
        case h_2 =>
          cases hd
          cases hOk
        case h_3 => cases hd
      case isFalse hHead =>
        have hF : c = 'F' := by
          rcases hc with rfl | rfl | hNum
          · rfl
          · exact absurd (Or.inl rfl) hHead
          · exact absurd (Or.inr hNum) hHead
        exact Or.inl ⟨hF, cwSignature_qualifier hd⟩

/-! ## Where the two agree -/

/-- Behind the leading underscores there is no `::`. -/
def NoColons (s : List Char) : Prop := strstr "::".toList (s.dropWhile (· = '_')) = none

/-- A number with text behind it, from which its package is copied. -/
structure CopiesAt (c : Char) (t : List Char) : Prop where
  digit : c.isDigit = true
  small : leadingNumber (c :: t) ≤ intMax
  pos : 0 < leadingNumber (c :: t)
  rest_ne : afterNumber (c :: t) ≠ []
  inside : min (leadingNumber (c :: t)) 63 ≤ (afterNumber (c :: t)).length + 1

/-- No number, or one that counts nothing or has nothing behind it. -/
def NoCopy (dd : List Char) : Prop :=
  ∀ c t, dd.drop 2 = c :: t → c.isDigit = true → leadingNumber (c :: t) ≤ intMax ∧
    (leadingNumber (c :: t) = 0 ∨ afterNumber (c :: t) = [])

/-- The ways in which the search for a package agrees with the demangler. In the first two the
search cuts where the demangler does; in the others the text it takes reads the same by chance. -/
inductive Routed (s : List Char) (d : CwDemangled) : Prop where
  | free {name sep} : NoColons s → strstr "__".toList s = some (name, sep) →
      findSplit s = some (name, sep) → d.qualifier = [] → Routed s d
  | single {name sep c t} : NoColons s → strstr "__".toList s = some (name, sep) →
      findSplit s = some (name, sep) → sep.drop 2 = c :: t → c.isDigit = true →
      d.qualifier.takeWhile inComponent = d.qualifier.take 63 → Routed s d
  | several {name sep t} : NoColons s → strstr "__".toList s = some (name, sep) →
      findSplit s = some (name, sep) → sep.drop 2 = 'Q' :: t → packageOf d = "main".toList →
      Routed s d
  | inner {before dd c t} : NoColons s → strstr "__".toList s = some (before, dd) →
      findSplit s ≠ some (before, dd) → dd.drop 2 = c :: t → CopiesAt c t →
      ((afterNumber (c :: t)).take (min (leadingNumber (c :: t)) 63)).map lowerByte = packageOf d →
      Routed s d
  | innerMain {before dd} : NoColons s → strstr "__".toList s = some (before, dd) →
      findSplit s ≠ some (before, dd) → NoCopy dd → packageOf d = "main".toList → Routed s d
  | colons {before found} : strstr "::".toList (s.dropWhile (· = '_')) = some (before, found) →
      (before.take 63).map lowerByte = packageOf d → Routed s d

/-- What the search does behind the first `__`. -/
theorem emitSymbolPackage_eq {s before dd : List Char} (hColons : NoColons s)
    (hUnder : strstr "__".toList s = some (before, dd)) :
    (NoCopy dd ∧ emitSymbolPackage 64 s = .ok "main".toList) ∨
      (∃ c t, dd.drop 2 = c :: t ∧ CopiesAt c t ∧ emitSymbolPackage 64 s =
        .ok (((afterNumber (c :: t)).take (min (leadingNumber (c :: t)) 63)).map lowerByte)) ∨
      ((∃ c t, dd.drop 2 = c :: t ∧ ¬ CopiesAt c t) ∧ ¬ NoCopy dd ∧
        ∃ f, emitSymbolPackage 64 s = .error f) := by
  have hMain : snprintf 64 "main".toList = "main".toList := by decide
  rw [emitSymbolPackage, hColons, hUnder]
  dsimp only
  split
  case h_1 hNil =>
    rw [hMain]
    exact Or.inl ⟨fun c t hEq => (by cases hNil.symm.trans hEq), rfl⟩
  case h_2 c t hDrop =>
    have hSame : ∀ {c' t'}, dd.drop 2 = c' :: t' → c' = c ∧ t' = t := by
      intro c' t' hEq
      cases hDrop.symm.trans hEq
      exact ⟨rfl, rfl⟩
    split
    case isTrue hDigit =>
      rw [readInt_zero]
      by_cases hSmall : leadingNumber (c :: t) ≤ intMax
      · rw [if_pos hSmall]
        dsimp only
        have hMin : (if leadingNumber (c :: t) < 64 then leadingNumber (c :: t) else 64 - 1) =
            min (leadingNumber (c :: t)) 63 := by
          split <;> omega
        rw [hMin]
        by_cases hCopy : 0 < leadingNumber (c :: t) ∧ afterNumber (c :: t) ≠ []
        · rw [if_pos hCopy]
          have hNot : ¬ NoCopy dd := by
            intro hNo
            rcases (hNo c t hDrop hDigit).2 with hZero | hNil
            · exact absurd hZero (Nat.pos_iff_ne_zero.1 hCopy.1)
            · exact hCopy.2 hNil
          by_cases hInside : (afterNumber (c :: t)).length + 1 <
              min (leadingNumber (c :: t)) 63
          · rw [if_pos hInside]
            refine Or.inr (Or.inr ⟨⟨c, t, hDrop, fun h => ?_⟩, hNot, _, rfl⟩)
            exact Nat.not_lt.2 h.inside hInside
          · rw [if_neg hInside]
            exact Or.inr (Or.inl ⟨c, t, hDrop,
              ⟨hDigit, hSmall, hCopy.1, hCopy.2, Nat.not_lt.1 hInside⟩, rfl⟩)
        · rw [if_neg hCopy, hMain]
          refine Or.inl ⟨fun c' t' hEq _ => ?_, rfl⟩
          obtain ⟨rfl, rfl⟩ := hSame hEq
          refine ⟨hSmall, ?_⟩
          by_cases hZero : leadingNumber (c' :: t') = 0
          · exact Or.inl hZero
          · exact Or.inr (not_not.1 fun hNe => hCopy ⟨Nat.pos_iff_ne_zero.2 hZero, hNe⟩)
      · rw [if_neg hSmall]
        exact Or.inr (Or.inr ⟨⟨c, t, hDrop, fun h => hSmall h.small⟩,
          fun hNo => hSmall (hNo c t hDrop hDigit).1, _, rfl⟩)
    case isFalse hDigit =>
      rw [hMain]
      refine Or.inl ⟨fun c' t' hEq hDigit' => ?_, rfl⟩
      obtain ⟨rfl, rfl⟩ := hSame hEq
      exact absurd hDigit' hDigit

theorem packageOf_free {d : CwDemangled} (h : d.qualifier = []) : packageOf d = "main".toList :=
  if_pos h

theorem packageOf_eq {d : CwDemangled} (h : d.qualifier ≠ []) :
    packageOf d = (headComponent d.qualifier).map lowerByte := by
  rw [packageOf, if_neg h, path_head]

section Inside

variable {s before dd : List Char} {d : CwDemangled}
  (hColons : strstr "::".toList (s.dropWhile (· = '_')) = none)
  (hUnder : strstr "__".toList s = some (before, dd)) (hSame : ¬ findSplit s = some (before, dd))

include hColons hUnder hSame

/-- The ways that are left where the search starts inside the method name. -/
theorem routed_inside_iff : Routed s d ↔
    (∃ c t, dd.drop 2 = c :: t ∧ CopiesAt c t ∧
      ((afterNumber (c :: t)).take (min (leadingNumber (c :: t)) 63)).map lowerByte =
        packageOf d) ∨ (NoCopy dd ∧ packageOf d = "main".toList) := by
  constructor
  · intro h
    cases h with
    | free _ hUnder' hSplit' =>
      cases hUnder.symm.trans hUnder'
      exact absurd hSplit' hSame
    | single _ hUnder' hSplit' | several _ hUnder' hSplit' =>
      cases hUnder.symm.trans hUnder'
      exact absurd hSplit' hSame
    | inner _ hUnder' _ hDrop hCopies hEq =>
      cases hUnder.symm.trans hUnder'
      exact Or.inl ⟨_, _, hDrop, hCopies, hEq⟩
    | innerMain _ hUnder' _ hNo hMain =>
      cases hUnder.symm.trans hUnder'
      exact Or.inr ⟨hNo, hMain⟩
    | colons hFound => cases hColons.symm.trans hFound
  · rintro (⟨c', t', hDrop, hCopies, hEq⟩ | ⟨hNo, hMain⟩)
    · exact .inner hColons hUnder hSame hDrop hCopies hEq
    · exact .innerMain hColons hUnder hSame hNo hMain

theorem emitSymbolPackage_inside_iff :
    emitSymbolPackage 64 s = .ok (packageOf d) ↔ Routed s d := by
  rw [routed_inside_iff hColons hUnder hSame]
  have hClash : ∀ {c' t'}, dd.drop 2 = c' :: t' → CopiesAt c' t' → ¬ NoCopy dd := by
    intro c' t' hDrop hCopies hNo
    rcases (hNo c' t' hDrop hCopies.digit).2 with hZero | hNil
    · exact absurd hZero (Nat.pos_iff_ne_zero.1 hCopies.pos)
    · exact hCopies.rest_ne hNil
  rcases emitSymbolPackage_eq hColons hUnder with
    ⟨hNo, hEmit⟩ | ⟨c', t', hDrop, hCopies, hEmit⟩ | ⟨⟨c', t', hDrop, hNot⟩, hNo, f, hEmit⟩
  · rw [hEmit, Except.ok.injEq]
    constructor
    · exact fun h => Or.inr ⟨hNo, h.symm⟩
    · rintro (⟨_, _, hDrop, hCopies, _⟩ | ⟨_, hMain⟩)
      · exact absurd hNo (hClash hDrop hCopies)
      · exact hMain.symm
  · rw [hEmit, Except.ok.injEq]
    constructor
    · exact fun h => Or.inl ⟨c', t', hDrop, hCopies, h⟩
    · rintro (⟨_, _, hDrop', _, hEq⟩ | ⟨hNo, _⟩)
      · cases hDrop.symm.trans hDrop'
        exact hEq
      · exact absurd hNo (hClash hDrop hCopies)
  · rw [hEmit]
    refine iff_of_false (fun h => by cases h) ?_
    rintro (⟨_, _, hDrop', hCopies, _⟩ | ⟨hNo', _⟩)
    · cases hDrop.symm.trans hDrop'
      exact hNot hCopies
    · exact hNo hNo'

end Inside

/-- For an accepted symbol the emitter finds the package of the demangler exactly in these
ways. -/
theorem emitSymbolPackage_agrees_iff {s : List Char} {d : CwDemangled}
    (hd : cwDemangle s = .ok d) (hOk : d.ok = true) :
    emitSymbolPackage 64 s = .ok (packageOf d) ↔ Routed s d := by
  obtain ⟨name, sep, c, t, hSplit, rfl, hForm⟩ := accepted_cases hd hOk
  cases hColons : strstr "::".toList (s.dropWhile (· = '_')) with
  | some found =>
    obtain ⟨before, found⟩ := found
    have hEmit : emitSymbolPackage 64 s = .ok ((before.take 63).map lowerByte) := by
      rw [emitSymbolPackage, hColons]
      rfl
    rw [hEmit, Except.ok.injEq]
    constructor
    · exact fun h => .colons hColons h
    · intro h
      cases h with
      | free hNo => cases hColons.symm.trans hNo
      | single hNo => cases hColons.symm.trans hNo
      | several hNo => cases hColons.symm.trans hNo
      | inner hNo => cases hColons.symm.trans hNo
      | innerMain hNo => cases hColons.symm.trans hNo
      | colons hFound hEq =>
        cases hColons.symm.trans hFound
        exact hEq
  | none =>
    cases hUnder : strstr "__".toList s with
    | none =>
      refine absurd ?_ (strstr_none hUnder (t := '_' :: '_' :: c :: t) ?_)
      · exact ⟨c :: t, rfl⟩
      · exact ⟨name, (findSplit_some hSplit).1.symm⟩
    | some first =>
      obtain ⟨before, dd⟩ := first
      by_cases hSame : findSplit s = some (before, dd)
      · obtain ⟨rfl, rfl⟩ : name = before ∧ '_' :: '_' :: c :: t = dd := by
          have hEq := Option.some.inj (hSplit.symm.trans hSame)
          exact ⟨congrArg Prod.fst hEq, congrArg Prod.snd hEq⟩
        -- the search starts behind the demangler's separator
        rcases hForm with ⟨rfl, hNil⟩ | ⟨rfl, hQual⟩ | ⟨hDigit, hSmall, hPos, hInside, hQual⟩
        · have hEmit : emitSymbolPackage 64 s = .ok "main".toList := by
            rw [emitSymbolPackage, hColons, hUnder]
            rfl
          rw [hEmit, packageOf_free hNil]
          exact iff_of_true rfl (.free hColons hUnder hSame hNil)
        · have hEmit : emitSymbolPackage 64 s = .ok "main".toList := by
            rw [emitSymbolPackage, hColons, hUnder]
            rfl
          rw [hEmit, Except.ok.injEq]
          constructor
          · exact fun h => .several hColons hUnder hSame rfl h.symm
          · intro h
            cases h with
            | free _ _ _ hNil => exact absurd hNil hQual
            | single _ hUnder' _ hDrop hDigit =>
              cases hUnder.symm.trans hUnder'
              cases hDrop
              exact absurd hDigit (by decide)
            | several _ _ _ _ hMain => exact hMain.symm
            | inner _ hUnder' hOther | innerMain _ hUnder' hOther =>
              cases hUnder.symm.trans hUnder'
              exact absurd hSame hOther
            | colons hFound => cases hColons.symm.trans hFound
        · have hRest : afterNumber (c :: t) ≠ [] := by
            intro hNil
            rw [hNil, List.length_nil] at hInside
            omega
          have hCopies : CopiesAt c t := ⟨hDigit, hSmall, hPos, hRest, by omega⟩
          have hNe : d.qualifier ≠ [] := by
            rw [hQual, Ne, List.take_eq_nil_iff]
            exact fun h => h.elim (Nat.pos_iff_ne_zero.1 hPos) hRest
          have hEmit : emitSymbolPackage 64 s =
              .ok ((d.qualifier.take 63).map lowerByte) := by
            rcases emitSymbolPackage_eq hColons hUnder with
              ⟨hNo, _⟩ | ⟨c', t', hDrop, _, hEq⟩ | ⟨⟨c', t', hDrop, hNot⟩, _⟩
            · rcases (hNo c t rfl hDigit).2 with hZero | hNil
              · omega
              · exact absurd hNil hRest
            · cases hDrop
              rw [hEq, hQual, List.take_take, Nat.min_comm]
            · cases hDrop
              exact absurd hCopies hNot
          rw [hEmit, Except.ok.injEq, packageOf_eq hNe, take_eq_headComponent_iff hNe]
          constructor
          · exact fun h => .single hColons hUnder hSame rfl hDigit h
          · intro h
            cases h with
            | free _ _ _ hNil => exact absurd hNil hNe
            | single _ _ _ _ _ hWhole => exact hWhole
            | several _ hUnder' _ hDrop =>
              cases hUnder.symm.trans hUnder'
              cases hDrop
              exact absurd hDigit (by decide)
            | inner _ hUnder' hOther | innerMain _ hUnder' hOther =>
              cases hUnder.symm.trans hUnder'
              exact absurd hSame hOther
            | colons hFound => cases hColons.symm.trans hFound
      · -- the search starts inside the method name
        exact emitSymbolPackage_inside_iff hColons hUnder hSame

/-- A method of `EGG::ExpHeap` goes to `main`, its extern to `egg`. -/
theorem emitSymbolPackage_expHeap : ∃ d, cwDemangle "adjust__Q23EGG7ExpHeapFv".toList = .ok d ∧
    d.ok = true ∧ emitSymbolPackage 64 "adjust__Q23EGG7ExpHeapFv".toList ≠ .ok (packageOf d) :=
  ⟨{ ok := true, kind := .regular, qualifier := "EGG::ExpHeap".toList, method := "adjust".toList,
     args := "(void)".toList, pretty := "EGG::ExpHeap::adjust(void)".toList },
    by decide +kernel, rfl, by decide +kernel⟩

theorem emitSymbolPackage_foo : ∃ d, cwDemangle "Read__3FooFv".toList = .ok d ∧ d.ok = true ∧
    emitSymbolPackage 64 "Read__3FooFv".toList = .ok (packageOf d) := by
  have hd : cwDemangle "Read__3FooFv".toList = .ok
      { ok := true, kind := .regular, qualifier := "Foo".toList, method := "Read".toList,
        args := "(void)".toList, pretty := "Foo::Read(void)".toList } := by decide +kernel
  have hUnder : strstr "__".toList "Read__3FooFv".toList =
      some ("Read".toList, "__3FooFv".toList) := by decide
  refine ⟨_, hd, rfl, (emitSymbolPackage_agrees_iff hd rfl).2 ?_⟩
  exact .single (by unfold NoColons; decide) hUnder (by decide) rfl (by decide) (by decide)

end Calynda.Decompiler
