import Calynda.Lib.CString

/-!
# The rename table

The table counts the uses of each base name. Later uses get the count behind the name, so that
two names of one table meet exactly when a numbered name is itself passed as a base name.
-/

namespace Calynda.Decompiler

open CString

abbrev Name := List Char

structure RenameEntry where
  name : Name
  count : Nat
  deriving DecidableEq, Repr

def findEntry (t : List RenameEntry) (name : Name) : Option RenameEntry :=
  t.find? (·.name = name)

/-- The table with one more use of the first entry of a name. -/
def countUse (name : Name) : List RenameEntry → List RenameEntry
  | [] => []
  | e :: t =>
    if e.name = name then { e with count := e.count + 1 } :: t else e :: countUse name t

/-- The table afterwards, the name and the return value; none where the counter overflows. -/
def cwRenameUnique (t : List RenameEntry) (base : Name) (n : Nat) :
    Option (List RenameEntry × Name × Bool) :=
  match findEntry t base with
  | none => some ({ name := base, count := 1 } :: t, snprintf n base, false)
  | some e =>
    if e.count = intMax then none
    else some (countUse base t, snprintf n (numbered base (e.count + 1)), true)

/-- Names for a sequence of base names, each with the size of its buffer. -/
def renameRun (t : List RenameEntry) : List (Name × Nat) → Option (List (Name × Bool))
  | [] => some []
  | (base, n) :: calls => do
    let (t', out, altered) ← cwRenameUnique t base n
    let outs ← renameRun t' calls
    return (out, altered) :: outs

/-! ## The names in terms of the sequence -/

/-- The name of the next use of a base name, after the base names `before`. -/
def nthName (before : List Name) (base : Name) : Name :=
  if base ∈ before then numbered base (before.count base + 1) else base

def uniqueNames (before : List Name) : List Name → List (Name × Bool)
  | [] => []
  | base :: bases =>
    (nthName before base, decide (base ∈ before)) :: uniqueNames (before ++ [base]) bases

/-- The table counts the base names seen so far. -/
def Counts (t : List RenameEntry) (before : List Name) : Prop :=
  ∀ base, findEntry t base =
    if base ∈ before then some { name := base, count := before.count base } else none

theorem counts_nil : Counts [] [] := fun _ => rfl

theorem findEntry_cons (e : RenameEntry) (t : List RenameEntry) (name : Name) :
    findEntry (e :: t) name = if e.name = name then some e else findEntry t name := by
  rw [findEntry, List.find?_cons]
  by_cases h : e.name = name
  · simp [h]
  · simp [h, findEntry]

theorem findEntry_countUse (t : List RenameEntry) (base name : Name) :
    findEntry (countUse base t) name =
      if name = base then (findEntry t base).map fun e => { e with count := e.count + 1 }
      else findEntry t name := by
  induction t with
  | nil => simp [countUse, findEntry]
  | cons e t ih =>
    rw [countUse]
    by_cases hBase : e.name = base
    · rw [if_pos hBase, findEntry_cons, findEntry_cons, findEntry_cons, if_pos hBase]
      by_cases hName : name = base
      · rw [if_pos hName, if_pos (hBase.trans hName.symm), Option.map_some]
      · have hNe : e.name ≠ name := fun h => hName (h.symm.trans hBase)
        rw [if_neg hName, if_neg hNe, if_neg hNe]
    · rw [if_neg hBase, findEntry_cons, findEntry_cons, findEntry_cons, if_neg hBase, ih]
      by_cases hName : name = base
      · rw [if_pos hName, if_pos hName, if_neg (fun h => hBase (h.trans hName))]
      · rw [if_neg hName, if_neg hName]

theorem Counts.insert {t : List RenameEntry} {before : List Name} (h : Counts t before)
    {base : Name} (hNew : base ∉ before) :
    Counts ({ name := base, count := 1 } :: t) (before ++ [base]) := by
  intro name
  rw [findEntry_cons]
  by_cases hName : base = name
  · subst hName
    simp [List.count_eq_zero_of_not_mem hNew]
  · rw [if_neg hName, h name]
    simp [List.count_append, hName, Ne.symm hName]

theorem Counts.countUse {t : List RenameEntry} {before : List Name} (h : Counts t before)
    {base : Name} (hSeen : base ∈ before) : Counts (countUse base t) (before ++ [base]) := by
  intro name
  rw [findEntry_countUse, h base, if_pos hSeen]
  by_cases hName : name = base
  · subst hName
    simp
  · rw [if_neg hName, h name]
    simp [List.count_append, hName, Ne.symm hName]

/-- One call of the table: it fails only where a counter is used up. -/
theorem cwRenameUnique_eq {t : List RenameEntry} {before : List Name} (h : Counts t before)
    (base : Name) (n : Nat) :
    (before.count base = intMax ∧ cwRenameUnique t base n = none) ∨
      (before.count base ≠ intMax ∧ ∃ t', Counts t' (before ++ [base]) ∧
        cwRenameUnique t base n =
          some (t', snprintf n (nthName before base), decide (base ∈ before))) := by
  rw [cwRenameUnique, h base]
  by_cases hSeen : base ∈ before
  · rw [if_pos hSeen]
    by_cases hMax : before.count base = intMax
    · exact Or.inl ⟨hMax, by simp [hMax]⟩
    · refine Or.inr ⟨hMax, _, h.countUse hSeen, ?_⟩
      simp [hMax, nthName, hSeen]
  · rw [if_neg hSeen]
    have hZero : before.count base = 0 := List.count_eq_zero_of_not_mem hSeen
    refine Or.inr ⟨by rw [hZero]; decide, _, h.insert hSeen, ?_⟩
    simp [nthName, hSeen]

/-- Every buffer holds the name that is printed into it. -/
def Fits (before : List Name) : List (Name × Nat) → Prop
  | [] => True
  | (base, n) :: calls => (nthName before base).length < n ∧ Fits (before ++ [base]) calls

/-- A run gives the names of its sequence, as long as no counter overflows. -/
theorem renameRun_eq {t : List RenameEntry} {before : List Name} {calls : List (Name × Nat)}
    (h : Counts t before) (hFits : Fits before calls)
    (hBefore : ∀ base, before.count base ≤ intMax) :
    ((∀ base, (before ++ calls.map Prod.fst).count base ≤ intMax) ∧
        renameRun t calls = some (uniqueNames before (calls.map Prod.fst))) ∨
      ((∃ base, intMax < (before ++ calls.map Prod.fst).count base) ∧
        renameRun t calls = none) := by
  induction calls generalizing t before with
  | nil => exact Or.inl ⟨by simpa using hBefore, rfl⟩
  | cons call calls ih =>
    obtain ⟨base, n⟩ := call
    rw [renameRun, List.map_cons, uniqueNames]
    have hAssoc : before ++ base :: calls.map Prod.fst
        = (before ++ [base]) ++ calls.map Prod.fst := by simp
    rcases cwRenameUnique_eq h base n with ⟨hMax, hEq⟩ | ⟨hLt, t', h', hEq⟩
    · refine Or.inr ⟨⟨base, ?_⟩, by rw [hEq]; rfl⟩
      rw [List.count_append, List.count_cons_self, hMax]
      omega
    · have hBefore' : ∀ name, (before ++ [base]).count name ≤ intMax := by
        intro name
        have hName := hBefore name
        rw [List.count_append, List.count_singleton]
        split
        case isTrue hEqName => rw [← eq_of_beq hEqName]; have := hBefore base; omega
        case isFalse => omega
      rcases ih h' hFits.2 hBefore' with ⟨hAll, hRun⟩ | ⟨hSome, hRun⟩
      · refine Or.inl ⟨hAssoc ▸ hAll, ?_⟩
        rw [hEq, snprintf_of_lt hFits.1]
        simp [hRun]
      · refine Or.inr ⟨hAssoc ▸ hSome, ?_⟩
        rw [hEq]
        simp [hRun]

/-! ## Where two names meet -/

/-- A name that is still to be numbered is also passed as a base name. -/
def Clash (before bases : List Name) : Prop :=
  ∃ base k, 2 ≤ k ∧ before.count base < k ∧ k ≤ (before ++ bases).count base ∧
    numbered base k ∈ bases ∧ numbered base k ∉ before

theorem mem_uniqueNames {before bases : List Name} {name : Name} :
    name ∈ (uniqueNames before bases).map Prod.fst ↔
      (name ∈ bases ∧ name ∉ before) ∨
        ∃ base k, name = numbered base k ∧ 2 ≤ k ∧ before.count base < k ∧
          k ≤ (before ++ bases).count base := by
  induction bases generalizing before with
  | nil =>
    have hNone : ∀ base k, before.count base < k → ¬ k ≤ (before ++ []).count base := by
      intro base k hLt
      rw [List.append_nil]
      omega
    constructor
    · exact fun h => nomatch h
    · rintro (⟨h, -⟩ | ⟨base, k, -, -, hLt, hLe⟩)
      · exact nomatch h
      · exact absurd hLe (hNone base k hLt)
  | cons base bases ih =>
    rw [uniqueNames, List.map_cons, List.mem_cons, ih]
    have hAssoc : before ++ [base] ++ bases = before ++ base :: bases := by simp
    have hTotal : before.count base < (before ++ base :: bases).count base := by
      rw [List.count_append, List.count_cons_self]
      omega
    rw [hAssoc]
    constructor
    · rintro (rfl | ⟨hMem, hNew⟩ | ⟨b, k, rfl, hTwo, hLt, hLe⟩)
      · by_cases hSeen : base ∈ before
        · have hPos : 0 < before.count base := List.count_pos_iff.2 hSeen
          exact Or.inr ⟨base, before.count base + 1, if_pos hSeen, by omega, by omega, hTotal⟩
        · refine Or.inl ⟨?_, ?_⟩ <;> simp [nthName, hSeen]
      · exact Or.inl ⟨List.mem_cons_of_mem _ hMem, fun h => hNew (List.mem_append_left _ h)⟩
      · rw [List.count_append] at hLt
        exact Or.inr ⟨b, k, rfl, hTwo, by omega, hLe⟩
    · rintro (⟨hMem, hNew⟩ | ⟨b, k, rfl, hTwo, hLt, hLe⟩)
      · by_cases hEq : name = base
        · subst hEq
          exact Or.inl (if_neg hNew).symm
        · refine Or.inr (Or.inl ⟨(List.mem_cons.1 hMem).resolve_left hEq, ?_⟩)
          simp [hNew, hEq]
      · by_cases hNext : b = base ∧ k = before.count base + 1
        · obtain ⟨rfl, rfl⟩ := hNext
          have hSeen : b ∈ before := List.count_pos_iff.1 (by omega)
          exact Or.inl (if_pos hSeen).symm
        · refine Or.inr (Or.inr ⟨b, k, rfl, hTwo, ?_, hLe⟩)
          rw [List.count_append, List.count_singleton]
          split
          case isTrue hBeq =>
            have hb : base = b := eq_of_beq hBeq
            have hk : k ≠ before.count base + 1 := fun h => hNext ⟨hb.symm, h⟩
            rw [hb] at hk
            omega
          case isFalse => omega

/-- The head of a sequence meets a later name, or a later clash is left. -/
theorem clash_cons {before bases : List Name} {base : Name} :
    Clash before (base :: bases) ↔
      nthName before base ∈ (uniqueNames (before ++ [base]) bases).map Prod.fst ∨
        Clash (before ++ [base]) bases := by
  have hAssoc : before ++ [base] ++ bases = before ++ base :: bases := by simp
  rw [mem_uniqueNames, Clash, Clash, hAssoc]
  have hCount : ∀ b, b ≠ base → (before ++ [base]).count b = before.count b := by
    intro b hb
    simp [List.count_append, Ne.symm hb]
  have hSelf : (before ++ [base]).count base = before.count base + 1 := by simp
  constructor
  · rintro ⟨b, k, hTwo, hLt, hLe, hMem, hNew⟩
    by_cases hHead : numbered b k = base
    · -- the numbered name is the base name itself, which is new
      subst hHead
      have hb : b ≠ numbered b k := fun h => numbered_ne b k h.symm
      refine Or.inl (Or.inr ⟨b, k, if_neg hNew, hTwo, ?_, hLe⟩)
      rw [hCount b hb]
      exact hLt
    · have hMem' : numbered b k ∈ bases := (List.mem_cons.1 hMem).resolve_left hHead
      have hNew' : numbered b k ∉ before ++ [base] := by simp [hNew, hHead]
      by_cases hNext : b = base ∧ k = before.count base + 1
      · obtain ⟨rfl, rfl⟩ := hNext
        have hSeen : b ∈ before := List.count_pos_iff.1 (by omega)
        rw [nthName, if_pos hSeen]
        exact Or.inl (Or.inl ⟨hMem', hNew'⟩)
      · refine Or.inr ⟨b, k, hTwo, ?_, hLe, hMem', hNew'⟩
        by_cases hb : b = base
        · subst hb
          have hk : k ≠ before.count b + 1 := fun h => hNext ⟨rfl, h⟩
          omega
        · rw [hCount b hb]
          exact hLt
  · rintro ((⟨hMem, hNew⟩ | ⟨b, k, hEq, hTwo, hLt, hLe⟩) | ⟨b, k, hTwo, hLt, hLe, hMem, hNew⟩)
    · have hSeen : base ∈ before := by
        by_contra hNot
        rw [nthName, if_neg hNot] at hNew
        exact hNew (List.mem_append_right _ (List.mem_singleton.2 rfl))
      have hPos : 0 < before.count base := List.count_pos_iff.2 hSeen
      rw [nthName, if_pos hSeen] at hMem hNew
      refine ⟨base, before.count base + 1, by omega, by omega, ?_, List.mem_cons_of_mem _ hMem,
        fun h => hNew (List.mem_append_left _ h)⟩
      rw [List.count_append, List.count_cons_self]
      omega
    · by_cases hSeen : base ∈ before
      · -- a later number of the same name is larger
        rw [nthName, if_pos hSeen] at hEq
        obtain ⟨rfl, rfl⟩ := numbered_inj hEq
        omega
      · rw [nthName, if_neg hSeen] at hEq
        rw [List.count_append] at hLt
        exact ⟨b, k, hTwo, by omega, hLe, hEq ▸ List.mem_cons_self, hEq ▸ hSeen⟩
    · rw [List.count_append] at hLt
      exact ⟨b, k, hTwo, by omega, hLe, List.mem_cons_of_mem _ hMem,
        fun h => hNew (List.mem_append_left _ h)⟩

theorem nodup_uniqueNames {before bases : List Name} :
    ((uniqueNames before bases).map Prod.fst).Nodup ↔ ¬ Clash before bases := by
  induction bases generalizing before with
  | nil => exact iff_of_true List.nodup_nil fun ⟨_, _, _, _, _, hMem, _⟩ => nomatch hMem
  | cons base bases ih =>
    rw [clash_cons, not_or, uniqueNames, List.map_cons, List.nodup_cons, ih]

/-- Every name is either the base name at its first use, or altered. -/
theorem getElem?_uniqueNames {before bases : List Name} {i : Nat} {base : Name}
    (h : bases[i]? = some base) :
    (uniqueNames before bases)[i]? =
      some (nthName (before ++ bases.take i) base, decide (base ∈ before ++ bases.take i)) := by
  induction bases generalizing before i with
  | nil => exact nomatch h
  | cons b bases ih =>
    rw [uniqueNames]
    cases i with
    | zero =>
      cases Option.some.inj h
      rw [List.getElem?_cons_zero, List.take_zero, List.append_nil]
    | succ i =>
      rw [List.getElem?_cons_succ, ih (by simpa using h), List.take_succ_cons]
      simp

theorem nthName_ne_iff {before : List Name} {base : Name} :
    nthName before base ≠ base ↔ base ∈ before := by
  rw [nthName]
  split
  case isTrue h => exact iff_of_true (numbered_ne base _) h
  case isFalse h => exact iff_of_false (fun hNe => hNe rfl) h

/-! ## The whole run -/

/-- What a table promises for its names: they differ, a name not yet taken stays as it is at its
first use, and the return value tells whether the name was altered. -/
structure Renamed (bases : List Name) (outs : List (Name × Bool)) : Prop where
  length_eq : outs.length = bases.length
  distinct : (outs.map Prod.fst).Nodup
  first : ∀ (i : Nat) (base : Name) (out : Name × Bool), bases[i]? = some base →
    outs[i]? = some out → base ∉ bases.take i → base ∉ (outs.take i).map Prod.fst → out.1 = base
  returns : ∀ (i : Nat) (base : Name) (out : Name × Bool), bases[i]? = some base →
    outs[i]? = some out → (out.2 = true ↔ out.1 ≠ base)

theorem length_uniqueNames (before bases : List Name) :
    (uniqueNames before bases).length = bases.length := by
  induction bases generalizing before with
  | nil => rfl
  | cons base bases ih => rw [uniqueNames, List.length_cons, List.length_cons, ih]

theorem renamed_uniqueNames_iff (bases : List Name) :
    Renamed bases (uniqueNames [] bases) ↔ ¬ Clash [] bases := by
  have hAt : ∀ {i : Nat} {base : Name} {out : Name × Bool}, bases[i]? = some base →
      (uniqueNames [] bases)[i]? = some out → out = (nthName (bases.take i) base, decide (base ∈ bases.take i)) := by
    intro i base out hBase hOut
    rw [getElem?_uniqueNames hBase] at hOut
    exact (Option.some.inj hOut).symm
  constructor
  · exact fun h => nodup_uniqueNames.1 h.distinct
  · intro h
    refine ⟨length_uniqueNames [] bases, nodup_uniqueNames.2 h, ?_, ?_⟩
    · intro i base out hBase hOut hNew _
      rw [hAt hBase hOut]
      exact if_neg hNew
    · intro i base out hBase hOut
      rw [hAt hBase hOut, decide_eq_true_iff, nthName_ne_iff]

/-- The names of a run never collide exactly if no counter overflows and no name that a repeated
base name gets is passed as a base name itself. -/
theorem renameRun_renamed_iff (calls : List (Name × Nat)) (hFits : Fits [] calls) :
    (∃ outs, renameRun [] calls = some outs ∧ Renamed (calls.map Prod.fst) outs) ↔
      ∀ base, (calls.map Prod.fst).count base ≤ intMax ∧
        ∀ k, 2 ≤ k → k ≤ (calls.map Prod.fst).count base →
          numbered base k ∉ calls.map Prod.fst := by
  have hClash : ¬ Clash [] (calls.map Prod.fst) ↔ ∀ base k, 2 ≤ k →
      k ≤ (calls.map Prod.fst).count base → numbered base k ∉ calls.map Prod.fst := by
    constructor
    · intro h base k hTwo hLe hMem
      exact h ⟨base, k, hTwo, by rw [List.count_nil]; omega, hLe, hMem, List.not_mem_nil⟩
    · rintro h ⟨base, k, hTwo, -, hLe, hMem, -⟩
      exact h base k hTwo hLe hMem
  rcases renameRun_eq counts_nil hFits (fun _ => Nat.zero_le _) with
    ⟨hAll, hRun⟩ | ⟨⟨base, hBase⟩, hRun⟩
  · constructor
    · rintro ⟨outs, hOuts, hRenamed⟩
      rw [hRun] at hOuts
      rw [← Option.some.inj hOuts] at hRenamed
      exact fun base =>
        ⟨hAll base, hClash.1 ((renamed_uniqueNames_iff _).1 hRenamed) base⟩
    · intro h
      exact ⟨_, hRun, (renamed_uniqueNames_iff _).2 (hClash.2 fun base => (h base).2)⟩
  · constructor
    · rintro ⟨outs, hOuts, -⟩
      rw [hRun] at hOuts
      exact nomatch hOuts
    · intro h
      have hLe := (h base).1
      rw [List.nil_append] at hBase
      omega

/-- Two uses of one name, and a name that looks like the numbered second use. -/
def clashingCalls : List (Name × Nat) :=
  [("a".toList, 8), ("a".toList, 8), ("a_2".toList, 8)]

theorem renameRun_clashingCalls : Fits [] clashingCalls ∧
    ¬ ∃ outs, renameRun [] clashingCalls = some outs ∧
      Renamed (clashingCalls.map Prod.fst) outs := by
  refine ⟨⟨by decide, by decide, by decide, trivial⟩, ?_⟩
  rintro ⟨outs, hOuts, hRenamed⟩
  have hRun : renameRun [] clashingCalls =
      some [("a".toList, false), ("a_2".toList, true), ("a_2".toList, false)] := by decide
  rw [hRun] at hOuts
  have hDistinct := hRenamed.distinct
  rw [← Option.some.inj hOuts] at hDistinct
  exact absurd hDistinct (by decide)

/-- Three uses of one name get three names. -/
theorem renameRun_allocs : ∃ outs,
    renameRun [] [("alloc".toList, 64), ("alloc".toList, 64), ("alloc".toList, 64)] = some outs ∧
      Renamed ["alloc".toList, "alloc".toList, "alloc".toList] outs := by
  refine (renameRun_renamed_iff _ ?_).2 fun base => ⟨?_, ?_⟩
  · refine ⟨?_, ?_, ?_, trivial⟩ <;> decide
  · exact Nat.le_trans List.count_le_length (by decide)
  · intro k _ _ hMem
    have hUnder : '_' ∈ numbered base k := List.mem_append_right _ List.mem_cons_self
    have hAll : ∀ name ∈ ["alloc".toList, "alloc".toList, "alloc".toList], '_' ∉ name := by decide
    exact hAll _ hMem hUnder

end Calynda.Decompiler
