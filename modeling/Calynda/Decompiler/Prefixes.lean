import Calynda.Decompiler.Demangle

/-!
# What the demangler reads

A parser that comes to a length prefix trusts it. It stays inside its text exactly if every
prefix and dimension that it comes to is an `int`, and every prefix that is below the size of its
buffer is not longer than the text behind it.
-/

namespace Calynda.Decompiler

open CString

/-! ## Numbers -/

def digitsFrom (n : Nat) (ds : List Char) : Nat := ds.foldl (fun n c => n * 10 + (c.toNat - 48)) n

/-- The number in front of a text. -/
def leadingNumber (s : List Char) : Nat := digitsFrom 0 (s.takeWhile Char.isDigit)

def afterNumber (s : List Char) : List Char := s.dropWhile Char.isDigit

theorem le_digitsFrom (n : Nat) (ds : List Char) : n ≤ digitsFrom n ds := by
  induction ds generalizing n with
  | nil => exact Nat.le_refl n
  | cons c ds ih =>
    have hStep := ih (n * 10 + (c.toNat - 48))
    rw [digitsFrom, List.foldl_cons]
    rw [digitsFrom] at hStep
    omega

theorem readInt_eq (n : Nat) (s : List Char) (hn : n ≤ intMax) :
    readInt n s =
      if digitsFrom n (s.takeWhile Char.isDigit) ≤ intMax then
        some (digitsFrom n (s.takeWhile Char.isDigit), afterNumber s)
      else none := by
  induction s generalizing n with
  | nil => rw [readInt, List.takeWhile_nil, digitsFrom, List.foldl_nil, if_pos hn]; rfl
  | cons c s ih =>
    rw [readInt, afterNumber]
    by_cases hDigit : c.isDigit = true
    · rw [if_pos hDigit, List.takeWhile_cons_of_pos hDigit, List.dropWhile_cons_of_pos hDigit]
      have hFold : digitsFrom n (c :: s.takeWhile Char.isDigit) =
          digitsFrom (n * 10 + (c.toNat - 48)) (s.takeWhile Char.isDigit) := rfl
      rw [hFold]
      by_cases hBig : intMax < n * 10 + (c.toNat - 48)
      · have hLe := le_digitsFrom (n * 10 + (c.toNat - 48)) (s.takeWhile Char.isDigit)
        rw [if_pos hBig, if_neg (by omega)]
      · rw [if_neg hBig, ih _ (by omega)]
        rfl
    · rw [if_neg hDigit, List.takeWhile_cons_of_neg hDigit, List.dropWhile_cons_of_neg hDigit,
        digitsFrom, List.foldl_nil, if_pos hn]

theorem readInt_zero (s : List Char) :
    readInt 0 s =
      if leadingNumber s ≤ intMax then some (leadingNumber s, afterNumber s) else none :=
  readInt_eq 0 s (Nat.zero_le _)

theorem length_afterNumber_le (s : List Char) : (afterNumber s).length ≤ s.length :=
  (List.dropWhile_suffix Char.isDigit).length_le

/-! ## Where types end -/

/-- A length-prefixed name that fits its buffer and its text. -/
structure NameAt (n : Nat) (s rest : List Char) : Prop where
  small : leadingNumber s ≤ intMax
  pos : 0 < leadingNumber s
  room : leadingNumber s < n
  inside : leadingNumber s ≤ (afterNumber s).length
  rest_eq : rest = (afterNumber s).drop (leadingNumber s)

/-- So many names follow each other from a text to the other one. -/
inductive CompsTo : Nat → List Char → List Char → Prop where
  | refl {s} : CompsTo 0 s s
  | step {k s t rest} : NameAt 128 s t → CompsTo k t rest → CompsTo (k + 1) s rest

mutual

/-- A type that is read at a text into a buffer of some size ends at the other text. -/
inductive TypeAt : Nat → List Char → List Char → Prop where
  | prim {n c s} : (primName c).isSome → TypeAt n (c :: s) s
  | mark {n c s rest} : c ∈ ['P', 'R', 'C', 'V'] → TypeAt 256 s rest → TypeAt n (c :: s) rest
  | sign {n c s rest} : c ∈ ['U', 'S'] → TypeAt 128 s rest → TypeAt n (c :: s) rest
  | array {n s t rest} : leadingNumber s ≤ intMax → afterNumber s = '_' :: t →
      TypeAt 128 t rest → TypeAt n ('A' :: s) rest
  | fnptr {n s t rest} : ArgsTo s ('_' :: t) → TypeAt 128 t rest → TypeAt n ('F' :: s) rest
  | fnptrVoid {n s} : ArgsTo s [] → TypeAt n ('F' :: s) []
  | qualified {n d s rest} : '1' ≤ d → d ≤ '9' → CompsTo (d.toNat - 48) s rest →
      TypeAt n ('Q' :: d :: s) rest
  | name {n c s rest} : c.isDigit → NameAt n (c :: s) rest → TypeAt n (c :: s) rest

/-- Types follow each other from a text to the other one. -/
inductive ArgsTo : List Char → List Char → Prop where
  | refl {s} : ArgsTo s s
  | step {c s t rest} : c ≠ '_' → TypeAt 128 (c :: s) t → ArgsTo t rest → ArgsTo (c :: s) rest

end

/-! ## Where prefixes are read -/

/-- A place of a text where a number is read. -/
inductive Place where
  | name (n : Nat) (s : List Char)
  | dim (s : List Char)

/-- The number at a place is an `int`, and a length below the size of its buffer is not longer
than the text behind it. -/
def Place.Fits : Place → Prop
  | .name n s => leadingNumber s ≤ intMax ∧
      (leadingNumber s < n → leadingNumber s ≤ (afterNumber s).length)
  | .dim s => leadingNumber s ≤ intMax

/-- Some names follow each other, of at most `k`, and one more is read at the other text. -/
inductive CompReads : Nat → List Char → List Char → Prop where
  | here {k s} : CompReads (k + 1) s s
  | step {k s t rest} : NameAt 128 s t → CompReads k t rest → CompReads (k + 1) s rest

/-- A type that is read at a text into a buffer of some size comes to a place. -/
inductive Reads : Nat → List Char → Place → Prop where
  | name {n c s} : c.isDigit → Reads n (c :: s) (.name n (c :: s))
  | mark {n c s p} : c ∈ ['P', 'R', 'C', 'V'] → Reads 256 s p → Reads n (c :: s) p
  | sign {n c s p} : c ∈ ['U', 'S'] → Reads 128 s p → Reads n (c :: s) p
  | dim {n s} : Reads n ('A' :: s) (.dim s)
  | array {n s t p} : leadingNumber s ≤ intMax → afterNumber s = '_' :: t → Reads 128 t p →
      Reads n ('A' :: s) p
  | arg {n s c t p} : ArgsTo s (c :: t) → c ≠ '_' → Reads 128 (c :: t) p → Reads n ('F' :: s) p
  | ret {n s t p} : ArgsTo s ('_' :: t) → Reads 128 t p → Reads n ('F' :: s) p
  | comp {n d s t} : '1' ≤ d → d ≤ '9' → CompReads (d.toNat - 48) s t →
      Reads n ('Q' :: d :: s) (.name 128 t)

/-! ## Names -/

theorem dmgParseName_eq (n : Nat) (s : List Char) :
    dmgParseName n s =
      if leadingNumber s ≤ intMax then
        if leadingNumber s = 0 ∨ n ≤ leadingNumber s then .fail
        else if (afterNumber s).length < leadingNumber s then .fault .beyond
        else .ok ((afterNumber s).take (leadingNumber s)) ((afterNumber s).drop (leadingNumber s))
      else .fault .overflow := by
  rw [dmgParseName, readInt_zero]
  by_cases hSmall : leadingNumber s ≤ intMax
  · rw [if_pos hSmall, if_pos hSmall]
  · rw [if_neg hSmall, if_neg hSmall]

theorem nameAt_of_ok {n : Nat} {s out rest : List Char} (h : dmgParseName n s = .ok out rest) :
    NameAt n s rest := by
  rw [dmgParseName_eq] at h
  split at h
  case isTrue hSmall =>
    split at h
    case isTrue => exact nomatch h
    case isFalse hRoom =>
      split at h
      case isTrue => exact nomatch h
      case isFalse hInside =>
        cases h
        exact ⟨hSmall, by omega, by omega, by omega, rfl⟩
  case isFalse => exact nomatch h

theorem NameAt.ok {n : Nat} {s rest : List Char} (h : NameAt n s rest) :
    ∃ out, dmgParseName n s = .ok out rest := by
  have hPos := h.pos
  have hRoom := h.room
  have hInside := h.inside
  rw [dmgParseName_eq, if_pos h.small, if_neg (by omega), if_neg (by omega), h.rest_eq]
  exact ⟨_, rfl⟩

theorem dmgParseName_fault_iff (n : Nat) (s : List Char) :
    (∃ f, dmgParseName n s = .fault f) ↔ ¬ (Place.name n s).Fits := by
  rw [dmgParseName_eq, Place.Fits]
  by_cases hSmall : leadingNumber s ≤ intMax
  · rw [if_pos hSmall]
    by_cases hRoom : leadingNumber s = 0 ∨ n ≤ leadingNumber s
    · rw [if_pos hRoom]
      refine iff_of_false (fun ⟨_, h⟩ => nomatch h) (fun h => h ⟨hSmall, fun hLt => ?_⟩)
      omega
    · rw [if_neg hRoom]
      by_cases hInside : (afterNumber s).length < leadingNumber s
      · rw [if_pos hInside]
        refine iff_of_true ⟨_, rfl⟩ (fun h => ?_)
        have hLe := h.2 (by omega)
        omega
      · rw [if_neg hInside]
        exact iff_of_false (fun ⟨_, h⟩ => nomatch h) (fun h => h ⟨hSmall, fun _ => by omega⟩)
  · rw [if_neg hSmall]
    exact iff_of_true ⟨_, rfl⟩ fun h => hSmall h.1

theorem NameAt.length_lt {n : Nat} {s rest : List Char} (h : NameAt n s rest) :
    rest.length < s.length := by
  have hPos := h.pos
  have hInside := h.inside
  have hLe := length_afterNumber_le s
  rw [h.rest_eq, List.length_drop]
  omega

theorem CompsTo.length_le {k : Nat} {s rest : List Char} (h : CompsTo k s rest) :
    rest.length ≤ s.length := by
  induction h with
  | refl => exact Nat.le_refl _
  | step hName _ ih =>
    have hLt := hName.length_lt
    omega

theorem compsTo_of_ok {isFirst : Bool} {qual : List Char} {k : Nat} {s out rest : List Char}
    (h : dmgComponents isFirst qual k s = .ok out rest) : CompsTo k s rest := by
  induction k generalizing isFirst qual s with
  | zero =>
    cases h
    exact .refl
  | succ k ih =>
    rw [dmgComponents] at h
    cases hName : dmgParseName 128 s with
    | ok comp t =>
      rw [hName, Parse.bind_ok] at h
      exact .step (nameAt_of_ok hName) (ih h)
    | fail => rw [hName] at h; exact nomatch h
    | fault f => rw [hName] at h; exact nomatch h

theorem CompsTo.ok {k : Nat} {s rest : List Char} (h : CompsTo k s rest) (isFirst : Bool)
    (qual : List Char) : ∃ out, dmgComponents isFirst qual k s = .ok out rest := by
  induction h generalizing isFirst qual with
  | refl => exact ⟨qual, rfl⟩
  | step hName _ ih =>
    obtain ⟨comp, hComp⟩ := hName.ok
    rw [dmgComponents, hComp, Parse.bind_ok]
    exact ih _ _

theorem dmgComponents_fault_iff (k : Nat) (s : List Char) (isFirst : Bool) (qual : List Char) :
    (∃ f, dmgComponents isFirst qual k s = .fault f) ↔
      ∃ t, CompReads k s t ∧ ¬ (Place.name 128 t).Fits := by
  induction k generalizing s isFirst qual with
  | zero => exact iff_of_false (fun ⟨_, h⟩ => nomatch h) (fun ⟨_, h, _⟩ => nomatch h)
  | succ k ih =>
    rw [dmgComponents]
    have hHere := dmgParseName_fault_iff 128 s
    cases hName : dmgParseName 128 s with
    | ok comp t =>
      rw [Parse.bind_ok, ih]
      have hFits : (Place.name 128 s).Fits :=
        not_not.1 (hHere.not.1 fun ⟨_, h⟩ => nomatch hName.symm.trans h)
      have hAt := nameAt_of_ok hName
      constructor
      · rintro ⟨u, hReads, hBad⟩
        exact ⟨u, .step hAt hReads, hBad⟩
      · rintro ⟨u, hReads, hBad⟩
        cases hReads with
        | here => exact absurd hFits hBad
        | step hAt' hReads =>
          rw [hAt'.rest_eq, ← hAt.rest_eq] at hReads
          exact ⟨u, hReads, hBad⟩
    | fail =>
      refine iff_of_false (fun ⟨_, h⟩ => nomatch h) ?_
      rintro ⟨u, hReads, hBad⟩
      cases hReads with
      | here => exact nomatch hName.symm.trans (hHere.2 hBad).choose_spec
      | step hAt' _ => exact nomatch hName.symm.trans hAt'.ok.choose_spec
    | fault f => exact iff_of_true ⟨f, rfl⟩ ⟨s, .here, hHere.1 ⟨f, hName⟩⟩

/-! ## Types -/

theorem length_lt_of_afterNumber {s t : List Char} (h : afterNumber s = '_' :: t) :
    t.length < s.length := by
  have hLe := length_afterNumber_le s
  rw [h, List.length_cons] at hLe
  exact hLe

mutual

theorem TypeAt.length_lt {n : Nat} {s rest : List Char} : TypeAt n s rest →
    rest.length < s.length
  | .prim _ => Nat.lt_succ_self _
  | .mark _ h => Nat.lt_succ_of_lt h.length_lt
  | .sign _ h => Nat.lt_succ_of_lt h.length_lt
  | .array _ hAfter h =>
    Nat.lt_succ_of_lt (Nat.lt_trans h.length_lt (length_lt_of_afterNumber hAfter))
  | .fnptr hArgs h =>
    Nat.lt_succ_of_lt (Nat.lt_of_lt_of_le h.length_lt
      (Nat.le_trans (Nat.le_succ _) hArgs.length_le))
  | .fnptrVoid _ => Nat.succ_pos _
  | .qualified _ _ h => Nat.lt_succ_of_le (Nat.le_trans h.length_le (Nat.le_succ _))
  | .name _ h => h.length_lt

theorem ArgsTo.length_le {s rest : List Char} : ArgsTo s rest → rest.length ≤ s.length
  | .refl => Nat.le_refl _
  | .step _ h hArgs => Nat.le_trans hArgs.length_le (Nat.le_of_lt h.length_lt)

end

section Heads

variable {fuel n : Nat} {c : Char} {s : List Char} (hn : 0 < n)

include hn

theorem dmgParseType_pointer (hc : c = 'P' ∨ c = 'R') :
    dmgParseType (fuel + 1) n (c :: s) = (dmgParseType fuel 256 s).bind fun inner rest =>
      .ok (snprintf n (inner ++ [if c = 'P' then '*' else '&'])) rest := by
  rw [dmgParseType.eq_def]
  dsimp only
  rw [if_neg (by omega), if_pos hc]

theorem dmgParseType_const (hc : c = 'C' ∨ c = 'V') :
    dmgParseType (fuel + 1) n (c :: s) = (dmgParseType fuel 256 s).bind fun inner rest =>
      .ok (snprintf n ((if c = 'C' then "const ".toList else "volatile ".toList) ++ inner))
        rest := by
  rw [dmgParseType.eq_def]
  dsimp only
  rw [if_neg (by omega), if_neg (by rcases hc with rfl | rfl <;> decide), if_pos hc]

theorem dmgParseType_sign (hc : c = 'U' ∨ c = 'S') :
    dmgParseType (fuel + 1) n (c :: s) = (dmgParseType fuel 128 s).bind fun inner rest =>
      .ok (snprintf n ((if c = 'U' then "unsigned ".toList else "signed ".toList) ++ inner))
        rest := by
  rw [dmgParseType.eq_def]
  dsimp only
  rw [if_neg (by omega), if_neg (by rcases hc with rfl | rfl <;> decide),
    if_neg (by rcases hc with rfl | rfl <;> decide), if_pos hc]

theorem dmgParseType_array :
    dmgParseType (fuel + 1) n ('A' :: s) =
      match readInt 0 s with
      | none => .fault .overflow
      | some (dim, '_' :: s) =>
        (dmgParseType fuel 128 s).bind fun inner rest =>
          .ok (snprintf n (inner ++ '[' :: Nat.toDigits 10 dim ++ [']'])) rest
      | some _ => .fail := by
  rw [dmgParseType.eq_def]
  dsimp only
  rw [if_neg (by omega), if_neg (by decide), if_neg (by decide), if_neg (by decide)]
  exact if_pos rfl

theorem dmgParseType_fnptr :
    dmgParseType (fuel + 1) n ('F' :: s) = (dmgFnArgs fuel [] s).bind fun args rest =>
      match rest with
      | '_' :: rest =>
        (dmgParseType fuel 128 rest).bind fun ret rest =>
          .ok (snprintf n (ret ++ "(*)(".toList ++ args ++ ")".toList)) rest
      | rest => .ok (snprintf n ("void".toList ++ "(*)(".toList ++ args ++ ")".toList)) rest := by
  rw [dmgParseType.eq_def]
  dsimp only
  rw [if_neg (by omega), if_neg (by decide), if_neg (by decide), if_neg (by decide),
    if_neg (by decide)]
  exact if_pos rfl

theorem dmgParseType_qualified (d : Char) :
    dmgParseType (fuel + 1) n ('Q' :: d :: s) =
      if '1' ≤ d ∧ d ≤ '9' then
        (dmgComponents true [] (d.toNat - 48) s).bind fun qual rest => .ok (snprintf n qual) rest
      else .fail := by
  rw [dmgParseType.eq_def]
  dsimp only
  rw [if_neg (by omega), if_neg (by decide), if_neg (by decide), if_neg (by decide),
    if_neg (by decide), if_neg (by decide), if_pos rfl]

theorem dmgParseType_qualified_nil : dmgParseType (fuel + 1) n ['Q'] = .fail := by
  rw [dmgParseType.eq_def]
  dsimp only
  rw [if_neg (by omega), if_neg (by decide), if_neg (by decide), if_neg (by decide),
    if_neg (by decide), if_neg (by decide), if_pos rfl]

theorem dmgParseType_name (hc : c.isDigit = true) :
    dmgParseType (fuel + 1) n (c :: s) = dmgParseName n (c :: s) := by
  have hNot : ∀ d : Char, d.isDigit = false → c ≠ d := by
    rintro d hd rfl
    exact absurd hc (by rw [hd]; exact Bool.false_ne_true)
  have hOr : ∀ d e : Char, d.isDigit = false → e.isDigit = false → ¬ (c = d ∨ c = e) :=
    fun d e hd he h => h.elim (hNot d hd) (hNot e he)
  rw [dmgParseType.eq_def]
  dsimp only
  rw [if_neg (by omega), if_neg (hOr _ _ (by decide) (by decide)),
    if_neg (hOr _ _ (by decide) (by decide)), if_neg (hOr _ _ (by decide) (by decide)),
    if_neg (hNot _ (by decide)), if_neg (hNot _ (by decide)), if_neg (hNot _ (by decide)),
    if_pos hc]

/-- A letter that starts no other type. -/
theorem dmgParseType_letter (hMark : c ∉ ['P', 'R', 'C', 'V', 'U', 'S', 'A', 'F', 'Q'])
    (hc : c.isDigit = false) :
    dmgParseType (fuel + 1) n (c :: s) =
      match primName c with
      | some name => .ok (snprintf n name) s
      | none => .fail := by
  simp only [List.mem_cons, List.not_mem_nil, or_false, not_or] at hMark
  obtain ⟨hP, hR, hC, hV, hU, hS, hA, hF, hQ⟩ := hMark
  rw [dmgParseType.eq_def]
  dsimp only
  rw [if_neg (by omega), if_neg (fun h => h.elim hP hR), if_neg (fun h => h.elim hC hV),
    if_neg (fun h => h.elim hU hS), if_neg hA, if_neg hF, if_neg hQ]
  exact if_neg (by rw [hc]; exact Bool.false_ne_true)

theorem dmgParseType_prim {name : List Char} (hc : primName c = some name) :
    dmgParseType (fuel + 1) n (c :: s) = .ok (snprintf n name) s := by
  have hLetter : c ∉ ['P', 'R', 'C', 'V', 'U', 'S', 'A', 'F', 'Q'] ∧ c.isDigit = false := by
    unfold primName at hc
    split at hc
    case h_12 => exact nomatch hc
    all_goals exact ⟨by decide, by decide⟩
  rw [dmgParseType_letter hn hLetter.1 hLetter.2, hc]

end Heads

theorem array_cases (fuel n : Nat) (hn : 0 < n) (s : List Char) :
    (¬ leadingNumber s ≤ intMax ∧ dmgParseType (fuel + 1) n ('A' :: s) = .fault .overflow) ∨
      (leadingNumber s ≤ intMax ∧ ∃ t, afterNumber s = '_' :: t ∧
        dmgParseType (fuel + 1) n ('A' :: s) = (dmgParseType fuel 128 t).bind fun inner rest =>
          .ok (snprintf n (inner ++ '[' :: Nat.toDigits 10 (leadingNumber s) ++ [']'])) rest) ∨
      (leadingNumber s ≤ intMax ∧ (∀ t, afterNumber s ≠ '_' :: t) ∧
        dmgParseType (fuel + 1) n ('A' :: s) = .fail) := by
  rw [dmgParseType_array hn, readInt_zero]
  by_cases hSmall : leadingNumber s ≤ intMax
  · rw [if_pos hSmall]
    by_cases hUnder : ∃ t, afterNumber s = '_' :: t
    · obtain ⟨t, ht⟩ := hUnder
      refine Or.inr (Or.inl ⟨hSmall, t, ht, ?_⟩)
      rw [ht]
      rfl
    · refine Or.inr (Or.inr ⟨hSmall, fun t ht => hUnder ⟨t, ht⟩, ?_⟩)
      split
      case h_1 h => exact nomatch h
      case h_2 dim t h => exact absurd ⟨t, (Prod.mk.inj (Option.some.inj h)).2⟩ hUnder
      case h_3 => rfl
  · rw [if_neg hSmall]
    exact Or.inl ⟨hSmall, rfl⟩

theorem head_cases (c : Char) :
    (c = 'P' ∨ c = 'R') ∨ (c = 'C' ∨ c = 'V') ∨ (c = 'U' ∨ c = 'S') ∨ c = 'A' ∨ c = 'F' ∨
      c = 'Q' ∨ c.isDigit = true ∨ (∃ name, primName c = some name) ∨
      (c ∉ ['P', 'R', 'C', 'V', 'U', 'S', 'A', 'F', 'Q'] ∧ c.isDigit = false ∧
        primName c = none) := by
  by_cases hDigit : c.isDigit = true
  · simp [hDigit]
  · cases hPrim : primName c with
    | some name => simp
    | none => simp [hDigit]; grind

namespace Parse

variable {α β : Type} {p : Parse α} {f : α → List Char → Parse β}

theorem bind_eq_ok {out : β} {rest : List Char} (h : p.bind f = ok out rest) :
    ∃ a t, p = ok a t ∧ f a t = ok out rest := by
  cases p with
  | ok a t => exact ⟨a, t, rfl, h⟩
  | fail => exact nomatch h
  | fault e => exact nomatch h

theorem bind_eq_fault {e : Fault} (h : p.bind f = fault e) :
    p = fault e ∨ ∃ a t, p = ok a t ∧ f a t = fault e := by
  cases p with
  | ok a t => exact Or.inr ⟨a, t, rfl, h⟩
  | fail => exact nomatch h
  | fault e' =>
    cases h
    exact Or.inl rfl

end Parse

/-- What is left behind the arguments: the return type, or nothing. -/
def Closed (s : List Char) : Prop := s = [] ∨ ∃ t, s = '_' :: t

theorem ends_of_ok (fuel : Nat) :
    (∀ {n : Nat} {s out rest : List Char}, 0 < n → dmgParseType fuel n s = .ok out rest →
        TypeAt n s rest) ∧
      ∀ {args s out rest : List Char}, dmgFnArgs fuel args s = .ok out rest →
        ArgsTo s rest ∧ Closed rest := by
  induction fuel with
  | zero =>
    refine ⟨fun _ h => ?_, fun h => ?_⟩
    · rw [dmgParseType.eq_def] at h
      cases h
    · rw [dmgFnArgs.eq_def] at h
      cases h
  | succ fuel ih =>
    obtain ⟨ihType, ihArgs⟩ := ih
    refine ⟨fun {n s out rest} hn h => ?_, fun {args s out rest} h => ?_⟩
    · cases s with
      | nil => cases (dmgParseType_nil fuel n).symm.trans h
      | cons c s =>
        rcases head_cases c with hc | hc | hc | rfl | rfl | rfl | hc | ⟨name, hc⟩ | hc
        · rw [dmgParseType_pointer hn hc] at h
          obtain ⟨inner, t, hInner, hOut⟩ := Parse.bind_eq_ok h
          cases hOut
          exact .mark (by rcases hc with rfl | rfl <;> decide) (ihType (by decide) hInner)
        · rw [dmgParseType_const hn hc] at h
          obtain ⟨inner, t, hInner, hOut⟩ := Parse.bind_eq_ok h
          cases hOut
          exact .mark (by rcases hc with rfl | rfl <;> decide) (ihType (by decide) hInner)
        · rw [dmgParseType_sign hn hc] at h
          obtain ⟨inner, t, hInner, hOut⟩ := Parse.bind_eq_ok h
          cases hOut
          exact .sign (by rcases hc with rfl | rfl <;> decide) (ihType (by decide) hInner)
        · rcases array_cases fuel n hn s with ⟨_, hEq⟩ | ⟨hSmall, t, ht, hEq⟩ | ⟨_, _, hEq⟩
          · cases hEq.symm.trans h
          · obtain ⟨inner, t', hInner, hOut⟩ := Parse.bind_eq_ok (hEq.symm.trans h)
            cases hOut
            exact .array hSmall ht (ihType (by decide) hInner)
          · cases hEq.symm.trans h
        · rw [dmgParseType_fnptr hn] at h
          obtain ⟨args, t, hArgs, hRet⟩ := Parse.bind_eq_ok h
          obtain ⟨hTo, rfl | ⟨u, rfl⟩⟩ := ihArgs hArgs
          · cases hRet
            exact .fnptrVoid hTo
          · obtain ⟨ret, t', hRet', hOut⟩ := Parse.bind_eq_ok hRet
            cases hOut
            exact .fnptr hTo (ihType (by decide) hRet')
        · cases s with
          | nil => cases (dmgParseType_qualified_nil hn).symm.trans h
          | cons d s =>
            rw [dmgParseType_qualified hn] at h
            split at h
            case isTrue hd =>
              obtain ⟨qual, t, hQual, hOut⟩ := Parse.bind_eq_ok h
              cases hOut
              exact .qualified hd.1 hd.2 (compsTo_of_ok hQual)
            case isFalse => cases h
        · rw [dmgParseType_name hn hc] at h
          exact .name hc (nameAt_of_ok h)
        · rw [dmgParseType_prim hn hc] at h
          cases h
          exact .prim (by rw [hc]; rfl)
        · rw [dmgParseType_letter hn hc.1 hc.2.1, hc.2.2] at h
          cases h
    · cases s with
      | nil =>
        rw [dmgFnArgs_nil] at h
        cases h
        exact ⟨.refl, Or.inl rfl⟩
      | cons c s =>
        by_cases hc : c = '_'
        · subst hc
          rw [dmgFnArgs_underscore] at h
          cases h
          exact ⟨.refl, Or.inr ⟨s, rfl⟩⟩
        · rw [dmgFnArgs_cons fuel args hc] at h
          obtain ⟨t, u, hType, hRest⟩ := Parse.bind_eq_ok h
          obtain ⟨hTo, hClosed⟩ := ihArgs hRest
          exact ⟨.step hc (ihType (by decide) hType) hTo, hClosed⟩

mutual

theorem TypeAt.ok {n : Nat} {s rest : List Char} : TypeAt n s rest → 0 < n → ∀ fuel : Nat,
    2 * s.length + 1 ≤ fuel → ∃ out, dmgParseType fuel n s = .ok out rest
  | .prim hPrim, hn, fuel + 1, _ => by
    obtain ⟨name, hName⟩ := Option.isSome_iff_exists.1 hPrim
    exact ⟨_, dmgParseType_prim hn hName⟩
  | .mark hc h, hn, fuel + 1, hFuel => by
    rw [List.length_cons] at hFuel
    obtain ⟨inner, hInner⟩ := h.ok (by decide) fuel (by omega)
    have hHead : ∀ c : Char, c ∈ ['P', 'R', 'C', 'V'] → (c = 'P' ∨ c = 'R') ∨ (c = 'C' ∨ c = 'V') := by
      intro c hMem
      simpa [or_assoc] using hMem
    rcases hHead _ hc with hPR | hCV
    · rw [dmgParseType_pointer hn hPR, hInner]
      exact ⟨_, rfl⟩
    · rw [dmgParseType_const hn hCV, hInner]
      exact ⟨_, rfl⟩
  | .sign hc h, hn, fuel + 1, hFuel => by
    rw [List.length_cons] at hFuel
    obtain ⟨inner, hInner⟩ := h.ok (by decide) fuel (by omega)
    rw [dmgParseType_sign hn (by simpa using hc), hInner]
    exact ⟨_, rfl⟩
  | .array (s := s) hSmall hAfter h, hn, fuel + 1, hFuel => by
    have hLt := length_lt_of_afterNumber hAfter
    rw [List.length_cons] at hFuel
    obtain ⟨inner, hInner⟩ := h.ok (by decide) fuel (by omega)
    rcases array_cases fuel _ hn s with ⟨hBig, _⟩ | ⟨_, t, ht, hEq⟩ | ⟨_, hNone, _⟩
    · exact absurd hSmall hBig
    · rw [hAfter] at ht
      cases ht
      rw [hEq, hInner]
      exact ⟨_, rfl⟩
    · exact absurd hAfter (hNone _)
  | .fnptr hArgs h, hn, fuel + 1, hFuel => by
    have hLe := hArgs.length_le
    rw [List.length_cons] at hFuel hLe
    obtain ⟨fuel', args', hFuel', hRun⟩ := hArgs.run fuel [] (by omega)
    obtain ⟨ret, hRet⟩ := h.ok (by decide) fuel (by omega)
    obtain ⟨fuel'', rfl⟩ : ∃ k, fuel' = k + 1 := ⟨fuel' - 1, by omega⟩
    rw [dmgParseType_fnptr hn, hRun, dmgFnArgs_underscore, Parse.bind_ok]
    simp only [hRet, Parse.bind_ok]
    exact ⟨_, rfl⟩
  | .fnptrVoid hArgs, hn, fuel + 1, hFuel => by
    rw [List.length_cons] at hFuel
    obtain ⟨fuel', args', hFuel', hRun⟩ := hArgs.run fuel [] (by omega)
    obtain ⟨fuel'', rfl⟩ : ∃ k, fuel' = k + 1 := ⟨fuel' - 1, by omega⟩
    rw [dmgParseType_fnptr hn, hRun, dmgFnArgs_nil, Parse.bind_ok]
    exact ⟨_, rfl⟩
  | .qualified hLo hHi h, hn, fuel + 1, _ => by
    obtain ⟨qual, hQual⟩ := h.ok true []
    rw [dmgParseType_qualified hn, if_pos ⟨hLo, hHi⟩, hQual]
    exact ⟨_, rfl⟩
  | .name hc h, hn, fuel + 1, _ => by
    rw [dmgParseType_name hn hc]
    exact h.ok

/-- Complete types are read one after the other. -/
theorem ArgsTo.run {s rest : List Char} : ArgsTo s rest → ∀ (fuel : Nat) (args : List Char),
    2 * s.length + 2 ≤ fuel → ∃ fuel' args', 2 * rest.length + 2 ≤ fuel' ∧
      dmgFnArgs fuel args s = dmgFnArgs fuel' args' rest
  | .refl, fuel, args, hFuel => ⟨fuel, args, hFuel, rfl⟩
  | .step hc h hArgs, fuel + 1, args, hFuel => by
    have hLt := h.length_lt
    rw [List.length_cons] at hFuel hLt
    obtain ⟨t, ht⟩ := h.ok (by decide) fuel (by rw [List.length_cons]; omega)
    obtain ⟨fuel', args', hFuel', hRun⟩ := hArgs.run fuel (addArg args t) (by omega)
    refine ⟨fuel', args', hFuel', ?_⟩
    rw [dmgFnArgs_cons fuel args hc, ht, Parse.bind_ok, hRun]

end

/-! ## Faults -/

theorem not_fits_of_fault (fuel : Nat) :
    (∀ {n : Nat} {s : List Char} {f : Fault}, 0 < n → 2 * s.length + 1 ≤ fuel →
        dmgParseType fuel n s = .fault f → ∃ p, Reads n s p ∧ ¬ p.Fits) ∧
      ∀ {args s : List Char} {f : Fault}, 2 * s.length + 2 ≤ fuel →
        dmgFnArgs fuel args s = .fault f →
          ∃ c t p, ArgsTo s (c :: t) ∧ c ≠ '_' ∧ Reads 128 (c :: t) p ∧ ¬ p.Fits := by
  induction fuel with
  | zero => exact ⟨fun _ h => absurd h (by omega), fun h => absurd h (by omega)⟩
  | succ fuel ih =>
    obtain ⟨ihType, ihArgs⟩ := ih
    refine ⟨fun {n s f} hn hFuel h => ?_, fun {args s f} hFuel h => ?_⟩
    · cases s with
      | nil => exact nomatch (dmgParseType_nil fuel n).symm.trans h
      | cons c s =>
        rw [List.length_cons] at hFuel
        -- the inner type of an operator has the fault
        have hInner : ∀ {m : Nat} {g : List Char → List Char}, 0 < m →
            ((dmgParseType fuel m s).bind fun inner rest => .ok (g inner) rest) = .fault f →
              ∃ p, Reads m s p ∧ ¬ p.Fits := by
          intro m g hm hBind
          rcases Parse.bind_eq_fault hBind with hFault | ⟨_, _, _, hOk⟩
          · exact ihType hm (by omega) hFault
          · exact nomatch hOk
        rcases head_cases c with hc | hc | hc | rfl | rfl | rfl | hc | ⟨name, hc⟩ | hc
        · rw [dmgParseType_pointer hn hc] at h
          obtain ⟨p, hReads, hBad⟩ := hInner (by decide) h
          exact ⟨p, .mark (by rcases hc with rfl | rfl <;> decide) hReads, hBad⟩
        · rw [dmgParseType_const hn hc] at h
          obtain ⟨p, hReads, hBad⟩ := hInner (by decide) h
          exact ⟨p, .mark (by rcases hc with rfl | rfl <;> decide) hReads, hBad⟩
        · rw [dmgParseType_sign hn hc] at h
          obtain ⟨p, hReads, hBad⟩ := hInner (by decide) h
          exact ⟨p, .sign (by rcases hc with rfl | rfl <;> decide) hReads, hBad⟩
        · rcases array_cases fuel n hn s with ⟨hBig, _⟩ | ⟨hSmall, t, ht, hEq⟩ | ⟨_, _, hEq⟩
          · exact ⟨_, .dim, hBig⟩
          · have hLt := length_lt_of_afterNumber ht
            rcases Parse.bind_eq_fault (hEq.symm.trans h) with hFault | ⟨_, _, _, hOk⟩
            · obtain ⟨p, hReads, hBad⟩ := ihType (by decide) (by omega) hFault
              exact ⟨p, .array hSmall ht hReads, hBad⟩
            · exact nomatch hOk
          · exact nomatch hEq.symm.trans h
        · rw [dmgParseType_fnptr hn] at h
          rcases Parse.bind_eq_fault h with hFault | ⟨args, t, hArgs, hRet⟩
          · obtain ⟨d, u, p, hTo, hd, hReads, hBad⟩ := ihArgs (by omega) hFault
            exact ⟨p, .arg hTo hd hReads, hBad⟩
          · obtain ⟨hTo, rfl | ⟨u, rfl⟩⟩ := (ends_of_ok fuel).2 hArgs
            · exact nomatch hRet
            · have hLe := hTo.length_le
              rw [List.length_cons] at hLe
              rcases Parse.bind_eq_fault hRet with hFault | ⟨_, _, _, hOk⟩
              · obtain ⟨p, hReads, hBad⟩ := ihType (by decide) (by omega) hFault
                exact ⟨p, .ret hTo hReads, hBad⟩
              · exact nomatch hOk
        · cases s with
          | nil => exact nomatch (dmgParseType_qualified_nil hn).symm.trans h
          | cons d s =>
            rw [dmgParseType_qualified hn] at h
            split at h
            case isTrue hd =>
              rcases Parse.bind_eq_fault h with hFault | ⟨_, _, _, hOk⟩
              · obtain ⟨t, hReads, hBad⟩ := (dmgComponents_fault_iff _ _ _ _).1 ⟨f, hFault⟩
                exact ⟨_, .comp hd.1 hd.2 hReads, hBad⟩
              · exact nomatch hOk
            case isFalse => exact nomatch h
        · rw [dmgParseType_name hn hc] at h
          exact ⟨_, .name hc, (dmgParseName_fault_iff _ _).1 ⟨f, h⟩⟩
        · rw [dmgParseType_prim hn hc] at h
          exact nomatch h
        · rw [dmgParseType_letter hn hc.1 hc.2.1, hc.2.2] at h
          exact nomatch h
    · cases s with
      | nil =>
        rw [dmgFnArgs_nil] at h
        exact nomatch h
      | cons c s =>
        by_cases hc : c = '_'
        · subst hc
          rw [dmgFnArgs_underscore] at h
          exact nomatch h
        · rw [dmgFnArgs_cons fuel args hc] at h
          rcases Parse.bind_eq_fault h with hFault | ⟨t, u, hType, hRest⟩
          · obtain ⟨p, hReads, hBad⟩ := ihType (by decide) (by omega) hFault
            exact ⟨c, s, p, .refl, hc, hReads, hBad⟩
          · have hAt := (ends_of_ok fuel).1 (by decide) hType
            have hLt := hAt.length_lt
            obtain ⟨d, v, p, hTo, hd, hReads, hBad⟩ := ihArgs (by omega) hRest
            exact ⟨d, v, p, .step hc hAt hTo, hd, hReads, hBad⟩

/-- A parser that comes to a number that does not fit has a fault. -/
theorem Reads.fault {n : Nat} {s : List Char} {p : Place} (h : Reads n s p) (hBad : ¬ p.Fits)
    (hn : 0 < n) {fuel : Nat} (hFuel : 2 * s.length + 1 ≤ fuel) :
    ∃ f, dmgParseType fuel n s = .fault f := by
  induction h generalizing fuel with
  | name hc =>
    obtain ⟨fuel, rfl⟩ : ∃ k, fuel = k + 1 := ⟨fuel - 1, by omega⟩
    rw [dmgParseType_name hn hc]
    exact (dmgParseName_fault_iff _ _).2 hBad
  | @mark n c s p hc _ ih =>
    obtain ⟨fuel, rfl⟩ : ∃ k, fuel = k + 1 := ⟨fuel - 1, by omega⟩
    rw [List.length_cons] at hFuel
    obtain ⟨f, hf⟩ := ih hBad (by decide) (show _ ≤ fuel by omega)
    have hHead : (c = 'P' ∨ c = 'R') ∨ (c = 'C' ∨ c = 'V') := by simpa [or_assoc] using hc
    rcases hHead with hPR | hCV
    · rw [dmgParseType_pointer hn hPR, hf]
      exact ⟨f, rfl⟩
    · rw [dmgParseType_const hn hCV, hf]
      exact ⟨f, rfl⟩
  | @sign n c s p hc _ ih =>
    obtain ⟨fuel, rfl⟩ : ∃ k, fuel = k + 1 := ⟨fuel - 1, by omega⟩
    rw [List.length_cons] at hFuel
    obtain ⟨f, hf⟩ := ih hBad (by decide) (show _ ≤ fuel by omega)
    rw [dmgParseType_sign hn (by simpa using hc), hf]
    exact ⟨f, rfl⟩
  | @dim n s =>
    obtain ⟨fuel, rfl⟩ : ∃ k, fuel = k + 1 := ⟨fuel - 1, by omega⟩
    rcases array_cases fuel n hn s with ⟨_, hEq⟩ | ⟨hSmall, _⟩ | ⟨hSmall, _⟩
    · exact ⟨_, hEq⟩
    · exact absurd hSmall hBad
    · exact absurd hSmall hBad
  | @array n s t p hSmall hAfter _ ih =>
    obtain ⟨fuel, rfl⟩ : ∃ k, fuel = k + 1 := ⟨fuel - 1, by omega⟩
    have hLt := length_lt_of_afterNumber hAfter
    rw [List.length_cons] at hFuel
    obtain ⟨f, hf⟩ := ih hBad (by decide) (show _ ≤ fuel by omega)
    rcases array_cases fuel n hn s with ⟨hBig, _⟩ | ⟨_, u, hu, hEq⟩ | ⟨_, hNone, _⟩
    · exact absurd hSmall hBig
    · rw [hAfter] at hu
      cases hu
      rw [hEq, hf]
      exact ⟨f, rfl⟩
    · exact absurd hAfter (hNone _)
  | @arg n s c t p hTo hc _ ih =>
    obtain ⟨fuel, rfl⟩ : ∃ k, fuel = k + 1 := ⟨fuel - 1, by omega⟩
    rw [List.length_cons] at hFuel
    obtain ⟨fuel', args', hFuel', hRun⟩ := hTo.run fuel [] (by omega)
    obtain ⟨fuel', rfl⟩ : ∃ k, fuel' = k + 1 := ⟨fuel' - 1, by omega⟩
    obtain ⟨f, hf⟩ := ih hBad (by decide) (show _ ≤ fuel' by omega)
    rw [dmgParseType_fnptr hn, hRun, dmgFnArgs_cons fuel' args' hc, hf]
    exact ⟨f, rfl⟩
  | @ret n s t p hTo _ ih =>
    obtain ⟨fuel, rfl⟩ : ∃ k, fuel = k + 1 := ⟨fuel - 1, by omega⟩
    have hLe := hTo.length_le
    rw [List.length_cons] at hFuel hLe
    obtain ⟨fuel', args', hFuel', hRun⟩ := hTo.run fuel [] (by omega)
    obtain ⟨fuel', rfl⟩ : ∃ k, fuel' = k + 1 := ⟨fuel' - 1, by omega⟩
    obtain ⟨f, hf⟩ := ih hBad (by decide) (show _ ≤ fuel by omega)
    rw [dmgParseType_fnptr hn, hRun, dmgFnArgs_underscore, Parse.bind_ok]
    simp only [hf, Parse.bind_fault]
    exact ⟨f, rfl⟩
  | @comp n d s t hLo hHi hReads =>
    obtain ⟨fuel, rfl⟩ : ∃ k, fuel = k + 1 := ⟨fuel - 1, by omega⟩
    obtain ⟨f, hf⟩ := (dmgComponents_fault_iff _ _ true []).2 ⟨t, hReads, hBad⟩
    rw [dmgParseType_qualified hn, if_pos ⟨hLo, hHi⟩, hf]
    exact ⟨f, rfl⟩

/-! ## Symbols -/

/-- The qualifier in front of the signature, if there is one, is a type. -/
def Qualified (rest : List Char) : Prop :=
  ∃ c t, rest = c :: t ∧ (c = 'Q' ∨ ('1' ≤ c ∧ c ≤ '9'))

/-- The text behind the qualifier of a symbol. -/
def AfterQualifier (sig rest : List Char) : Prop :=
  (Qualified sig ∧ TypeAt 256 sig rest) ∨ (¬ Qualified sig ∧ rest = sig)

/-- A symbol with its separator, and a method name that fits. -/
structure SplitAt (s name sep : List Char) : Prop where
  split : findSplit s = some (name, sep)
  pos : name.length ≠ 0
  room : name.length < 128

/-- Demangling a symbol comes to a place. -/
inductive SymbolReads (s : List Char) : Place → Prop where
  | qualifier {name sep p} : SplitAt s name sep → Qualified (sep.drop 2) →
      Reads 256 (sep.drop 2) p → SymbolReads s p
  | types {name sep rest sig c t p} : SplitAt s name sep → AfterQualifier (sep.drop 2) rest →
      rest.dropWhile (fun c => c = 'C' ∨ c = 'V') = 'F' :: sig → ArgsTo sig (c :: t) → c ≠ '_' →
      Reads 128 (c :: t) p → SymbolReads s p

theorem dmgFnArgs_fault_iff (args s : List Char) :
    (∃ f, dmgFnArgs (typeFuel s) args s = .fault f) ↔
      ∃ c t p, ArgsTo s (c :: t) ∧ c ≠ '_' ∧ Reads 128 (c :: t) p ∧ ¬ p.Fits := by
  constructor
  · rintro ⟨f, h⟩
    exact (not_fits_of_fault _).2 (Nat.le_refl _) h
  · rintro ⟨c, t, p, hTo, hc, hReads, hBad⟩
    obtain ⟨fuel, args', hFuel, hRun⟩ := hTo.run (typeFuel s) args (Nat.le_refl _)
    obtain ⟨fuel, rfl⟩ : ∃ k, fuel = k + 1 := ⟨fuel - 1, by omega⟩
    obtain ⟨f, hf⟩ := hReads.fault hBad (by decide) (show _ ≤ fuel by omega)
    rw [hRun, dmgFnArgs_cons fuel args' hc, hf]
    exact ⟨f, rfl⟩

theorem cwArgs_cases (fuel : Nat) (args s : List Char) :
    (∃ out rest, cwArgs fuel args s = .ok out rest ∧
        ∀ f, dmgFnArgs fuel args s ≠ .fault f) ∨
      ∃ f, cwArgs fuel args s = .fault f ∧ dmgFnArgs fuel args s = .fault f := by
  induction fuel generalizing args s with
  | zero =>
    rw [cwArgs, dmgFnArgs.eq_def]
    exact Or.inr ⟨.fuel, rfl, rfl⟩
  | succ fuel ih =>
    cases s with
    | nil =>
      rw [cwArgs, dmgFnArgs_nil]
      exact Or.inl ⟨args, [], rfl, fun f h => (by cases h)⟩
    | cons c s =>
      rw [cwArgs]
      by_cases hc : c = '_'
      · subst hc
        rw [if_pos rfl, dmgFnArgs_underscore]
        exact Or.inl ⟨args, _, rfl, fun f h => (by cases h)⟩
      · rw [if_neg hc, dmgFnArgs_cons fuel args hc]
        cases dmgParseType fuel 128 (c :: s) with
        | ok t rest => exact ih (addArg args t) rest
        | fail => exact Or.inl ⟨args, c :: s, rfl, fun f h => (by cases h)⟩
        | fault f => exact Or.inr ⟨f, rfl, rfl⟩

theorem cwSignature_error_iff (verbatim name qualifier rest : List Char) :
    (∃ f, cwSignature verbatim name qualifier rest = .error f) ↔
      ∃ sig c t p, rest.dropWhile (fun c => c = 'C' ∨ c = 'V') = 'F' :: sig ∧
        ArgsTo sig (c :: t) ∧ c ≠ '_' ∧ Reads 128 (c :: t) p ∧ ¬ p.Fits := by
  rw [cwSignature]
  dsimp only
  split
  case h_1 sig hSig =>
    have hIff := dmgFnArgs_fault_iff [] sig
    rcases cwArgs_cases (typeFuel sig) [] sig with ⟨out, rest', hOk, hNo⟩ | ⟨f, hFault, hf⟩
    · rw [hOk]
      refine iff_of_false (fun ⟨_, h⟩ => nomatch h) ?_
      rintro ⟨sig', c, t, p, hEq, hPlace⟩
      cases hSig.symm.trans hEq
      obtain ⟨f, hf⟩ := hIff.2 ⟨c, t, p, hPlace⟩
      exact hNo f hf
    · rw [hFault]
      obtain ⟨c, t, p, hPlace⟩ := hIff.1 ⟨f, hf⟩
      exact iff_of_true ⟨f, rfl⟩ ⟨sig, c, t, p, hSig, hPlace⟩
  case h_2 hNone =>
    refine iff_of_false (fun ⟨_, h⟩ => nomatch h) ?_
    rintro ⟨sig, c, t, p, hEq, -⟩
    exact hNone sig hEq

theorem cwDemangle_error_iff (s : List Char) :
    (∃ f, cwDemangle s = .error f) ↔ ∃ p, SymbolReads s p ∧ ¬ p.Fits := by
  rw [cwDemangle]
  dsimp only
  split
  case h_1 hNone =>
    refine iff_of_false (fun ⟨_, h⟩ => nomatch h) ?_
    rintro ⟨p, (⟨hSplit, -⟩ | ⟨hSplit, -⟩), -⟩
    all_goals exact nomatch hNone.symm.trans hSplit.split
  case h_2 name sep hSome =>
    have hSame : ∀ {name' sep'}, SplitAt s name' sep' → name' = name ∧ sep' = sep := by
      intro name' sep' h
      cases hSome.symm.trans h.split
      exact ⟨rfl, rfl⟩
    split
    case isTrue hLong =>
      refine iff_of_false (fun ⟨_, h⟩ => nomatch h) ?_
      rintro ⟨p, (⟨hSplit, -⟩ | ⟨hSplit, -⟩), -⟩
      all_goals
        obtain ⟨rfl, rfl⟩ := hSame hSplit
        exact hLong.elim hSplit.pos (Nat.not_le_of_lt hSplit.room)
    case isFalse hFits =>
      have hSplit : SplitAt s name sep := ⟨hSome, fun h => hFits (Or.inl h), by omega⟩
      -- without a qualifier the signature starts at once
      have hPlain : ¬ Qualified (sep.drop 2) → ((∃ f, cwSignature (snprintf 1024 s) name []
          (sep.drop 2) = .error f) ↔ ∃ p, SymbolReads s p ∧ ¬ p.Fits) := by
        intro hNot
        rw [cwSignature_error_iff]
        constructor
        · rintro ⟨sig, c, t, p, hSig, hTo, hc, hReads, hBad⟩
          exact ⟨p, .types hSplit (Or.inr ⟨hNot, rfl⟩) hSig hTo hc hReads, hBad⟩
        · rintro ⟨p, (⟨hSplit', hQual, -⟩ | ⟨hSplit', hAfter, hSig, hTo, hc, hReads⟩), hBad⟩
          · obtain ⟨rfl, rfl⟩ := hSame hSplit'
            exact absurd hQual hNot
          · obtain ⟨rfl, rfl⟩ := hSame hSplit'
            rcases hAfter with ⟨hQual, -⟩ | ⟨-, rfl⟩
            · exact absurd hQual hNot
            · exact ⟨_, _, _, _, hSig, hTo, hc, hReads, hBad⟩
      split
      case h_1 c rest hRest =>
        split
        case isTrue hHead =>
          have hQual : Qualified (sep.drop 2) := ⟨c, rest, hRest, hHead⟩
          have hFuel : 2 * (sep.drop 2).length + 1 ≤ typeFuel (sep.drop 2) := Nat.le_succ _
          split
          case h_1 qualifier rest' hOk =>
            rw [cwSignature_error_iff]
            have hAt := (ends_of_ok _).1 (by decide) hOk
            constructor
            · rintro ⟨sig, d, t, p, hSig, hTo, hd, hReads, hBad⟩
              exact ⟨p, .types hSplit (Or.inl ⟨hQual, hAt⟩) hSig hTo hd hReads, hBad⟩
            · rintro ⟨p, (⟨hSplit', -, hReads⟩ | ⟨hSplit', hAfter, hSig, hTo, hd, hReads⟩), hBad⟩
              · obtain ⟨rfl, rfl⟩ := hSame hSplit'
                obtain ⟨f, hf⟩ := hReads.fault hBad (by decide) hFuel
                exact nomatch hOk.symm.trans hf
              · obtain ⟨rfl, rfl⟩ := hSame hSplit'
                rcases hAfter with ⟨-, hAt'⟩ | ⟨hNot, -⟩
                · obtain ⟨out, hOk'⟩ := hAt'.ok (by decide) _ hFuel
                  cases hOk.symm.trans hOk'
                  exact ⟨_, _, _, _, hSig, hTo, hd, hReads, hBad⟩
                · exact absurd hQual hNot
          case h_2 hFail =>
            refine iff_of_false (fun ⟨_, h⟩ => nomatch h) ?_
            rintro ⟨p, (⟨hSplit', -, hReads⟩ | ⟨hSplit', hAfter, -⟩), hBad⟩
            · obtain ⟨rfl, rfl⟩ := hSame hSplit'
              obtain ⟨f, hf⟩ := hReads.fault hBad (by decide) hFuel
              exact nomatch hFail.symm.trans hf
            · obtain ⟨rfl, rfl⟩ := hSame hSplit'
              rcases hAfter with ⟨-, hAt'⟩ | ⟨hNot, -⟩
              · obtain ⟨out, hOk'⟩ := hAt'.ok (by decide) _ hFuel
                exact nomatch hFail.symm.trans hOk'
              · exact absurd hQual hNot
          case h_3 f hFault =>
            obtain ⟨p, hReads, hBad⟩ := (not_fits_of_fault _).1 (by decide) hFuel hFault
            exact iff_of_true ⟨f, rfl⟩ ⟨p, .qualifier hSplit hQual hReads, hBad⟩
        case isFalse hHead =>
          refine hPlain ?_
          rintro ⟨c', t, hEq, hQual⟩
          cases hRest.symm.trans hEq
          exact hHead hQual
      case h_2 hRest =>
        exact hPlain fun ⟨_, _, hEq, _⟩ => nomatch hRest.symm.trans hEq

/-! ## Packages -/

/-- The length in front of a package is an `int`, and the bytes that are copied are there. -/
def PackageFits (n : Nat) (s : List Char) : Prop :=
  strstr "::".toList (s.dropWhile (· = '_')) = none →
    ∀ before dd c t, strstr "__".toList s = some (before, dd) → dd.drop 2 = c :: t →
      c.isDigit = true → leadingNumber (c :: t) ≤ intMax ∧
        (0 < leadingNumber (c :: t) → afterNumber (c :: t) ≠ [] →
          min (leadingNumber (c :: t)) (n - 1) ≤ (afterNumber (c :: t)).length + 1)

theorem emitSymbolPackage_ok_iff {n : Nat} (hn : 0 < n) (s : List Char) :
    (∃ out, emitSymbolPackage n s = .ok out) ↔ PackageFits n s := by
  rw [emitSymbolPackage, PackageFits]
  cases hColon : strstr "::".toList (s.dropWhile (· = '_')) with
  | some found => exact iff_of_true ⟨_, rfl⟩ fun h => nomatch h
  | none =>
    rw [imp_iff_right rfl]
    cases hUnder : strstr "__".toList s with
    | none => exact iff_of_true ⟨_, rfl⟩ fun _ _ _ _ h => nomatch h
    | some found =>
      obtain ⟨before, dd⟩ := found
      dsimp only
      cases hDrop : dd.drop 2 with
      | nil =>
        refine iff_of_true ⟨_, rfl⟩ fun before' dd' c t h hEq => ?_
        cases h
        exact nomatch hDrop.symm.trans hEq
      | cons c t =>
        have hAll : (∀ before' dd' c' t', some (before, dd) = some (before', dd') →
            dd'.drop 2 = c' :: t' → c'.isDigit = true →
              leadingNumber (c' :: t') ≤ intMax ∧ (0 < leadingNumber (c' :: t') →
                afterNumber (c' :: t') ≠ [] → min (leadingNumber (c' :: t')) (n - 1) ≤
                  (afterNumber (c' :: t')).length + 1)) ↔
            (c.isDigit = true → leadingNumber (c :: t) ≤ intMax ∧
              (0 < leadingNumber (c :: t) → afterNumber (c :: t) ≠ [] →
                min (leadingNumber (c :: t)) (n - 1) ≤
                  (afterNumber (c :: t)).length + 1)) := by
          constructor
          · exact fun h => h before dd c t rfl hDrop
          · intro h before' dd' c' t' hEq hDrop'
            cases hEq
            cases hDrop.symm.trans hDrop'
            exact h
        rw [hAll]
        dsimp only
        by_cases hDigit : c.isDigit = true
        · rw [if_pos hDigit, imp_iff_right hDigit, readInt_zero]
          by_cases hSmall : leadingNumber (c :: t) ≤ intMax
          · rw [if_pos hSmall]
            dsimp only
            by_cases hCopy : 0 < leadingNumber (c :: t) ∧ afterNumber (c :: t) ≠ []
            · rw [if_pos hCopy]
              have hMin : (if leadingNumber (c :: t) < n then leadingNumber (c :: t)
                  else n - 1) = min (leadingNumber (c :: t)) (n - 1) := by
                split <;> omega
              rw [hMin]
              by_cases hBeyond : (afterNumber (c :: t)).length + 1 <
                  min (leadingNumber (c :: t)) (n - 1)
              · rw [if_pos hBeyond]
                refine iff_of_false (fun ⟨_, h⟩ => nomatch h) fun h => ?_
                have hLe := h.2 hCopy.1 hCopy.2
                omega
              · rw [if_neg hBeyond]
                exact iff_of_true ⟨_, rfl⟩ ⟨hSmall, fun _ _ => by omega⟩
            · rw [if_neg hCopy]
              exact iff_of_true ⟨_, rfl⟩ ⟨hSmall, fun hPos hNe => absurd ⟨hPos, hNe⟩ hCopy⟩
          · rw [if_neg hSmall]
            exact iff_of_false (fun ⟨_, h⟩ => nomatch h) fun h => hSmall h.1
        · rw [if_neg hDigit]
          exact iff_of_true ⟨_, rfl⟩ fun h => absurd h hDigit

/-- The demangler and the search for a package stay inside a text, with lengths that fit an
`int`, exactly if every number that they come to fits. -/
theorem demangler_inside_iff {n : Nat} (hn : 0 < n) (s : List Char) :
    ((∃ d, cwDemangle s = .ok d) ∧ ∃ out, emitSymbolPackage n s = .ok out) ↔
      (∀ p, SymbolReads s p → p.Fits) ∧ PackageFits n s := by
  rw [emitSymbolPackage_ok_iff hn]
  refine and_congr_left fun _ => ?_
  have hError := cwDemangle_error_iff s
  cases hResult : cwDemangle s with
  | ok d =>
    rw [hResult] at hError
    refine iff_of_true ⟨d, rfl⟩ fun p hReads => ?_
    by_contra hBad
    obtain ⟨f, hf⟩ := hError.2 ⟨p, hReads, hBad⟩
    exact nomatch hf
  | error f =>
    rw [hResult] at hError
    obtain ⟨p, hReads, hBad⟩ := hError.1 ⟨f, rfl⟩
    exact iff_of_false (fun ⟨_, h⟩ => nomatch h) fun h => hBad (h p hReads)

/-- A length of nine with one letter behind it. -/
theorem demangler_inside_false :
    ¬ ((∃ d, cwDemangle "f__9a".toList = .ok d) ∧
      ∃ out, emitSymbolPackage 64 "f__9a".toList = .ok out) := by
  rintro ⟨⟨d, hd⟩, -⟩
  have hFault : cwDemangle "f__9a".toList = .error .beyond := by decide
  exact nomatch hFault.symm.trans hd

theorem demangler_inside_read : (∀ p, SymbolReads "Read__3FooFv".toList p → p.Fits) ∧
    PackageFits 64 "Read__3FooFv".toList :=
  (demangler_inside_iff (by decide) "Read__3FooFv".toList).1
    ⟨⟨_, (by decide : cwDemangle "Read__3FooFv".toList =
        .ok { ok := true, kind := .regular, qualifier := "Foo".toList, method := "Read".toList,
              args := "(void)".toList, pretty := "Foo::Read(void)".toList })⟩,
      ⟨"foo".toList, by decide⟩⟩

end Calynda.Decompiler
