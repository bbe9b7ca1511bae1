import Calynda.Lib.CString
import Calynda.Decompiler.Symbols
import Mathlib.Data.List.GetD

/-!
# Loading symbols and searching them

The lines of a symbol file become entries, which are sorted by address. A search by halves finds
the entries that a scan of all lines finds, except where the last entry in front of an address
hides one that reaches further, or ends at the top of the address space.
-/

namespace Calynda.Decompiler

open CString

/-! ## The lines of a file -/

/-- The rest of a line with `room` bytes left in its buffer, and the lines behind it. -/
def fgetsFrom (room : Nat) : List Char → List Char × List (List Char)
  | [] => ([], [])
  | c :: s =>
    if c = '\n' ∨ room ≤ 1 then
      let (line, lines) := fgetsFrom 511 s
      ([c], if s = [] then [] else line :: lines)
    else
      let (line, lines) := fgetsFrom (room - 1) s
      (c :: line, lines)

def fgetsLines (text : List Char) : List (List Char) :=
  let (line, lines) := fgetsFrom 511 text
  if text = [] then [] else line :: lines

def isXDigit (c : Char) : Bool :=
  c.isDigit || ('a' ≤ c && c ≤ 'f') || ('A' ≤ c && c ≤ 'F')

def xDigitValue (c : Char) : Nat :=
  if c.isDigit then c.toNat - 48 else if 'a' ≤ c then c.toNat - 87 else c.toNat - 55

/-- `strtoul` with base 16 behind a prefix 0x, cut to 32 bits. -/
def strtoulHex (s : List Char) : BitVec 32 :=
  let value := (s.takeWhile isXDigit).foldl (fun n c => 16 * n + xDigitValue c) 0
  BitVec.ofNat 32 (min value (2 ^ 64 - 1))

def trimName (name : List Char) : List Char :=
  (name.reverse.dropWhile fun c => c = ' ' ∨ c = '\t').reverse

def symNameMax : Nat := 128

/-- The entry of one line, none for a line that is skipped. -/
def symLine (line : List Char) : Option SymEntry := do
  -- the string in the buffer ends at the first terminator
  let line := line.takeWhile (· ≠ '\x00')
  let (name, eq) ← strstr " = ".toList line
  if name.length = 0 ∨ symNameMax ≤ name.length then none
  let (_, colon) ← strstr ":0x".toList (eq.drop 3)
  let vaddr := strtoulHex (colon.drop 3)
  if vaddr = 0 then none
  let size := match strstr "size:0x".toList colon with
    | some (_, sz) => strtoulHex (sz.drop 7)
    | none => 0
  some { vaddr := vaddr, size := size, name := String.ofList (trimName name) }

def symEntries (text : List Char) : List SymEntry := (fgetsLines text).filterMap symLine

/-- A table loaded from a file: its entries in some order that the sort may leave. -/
structure SymTableLoad (text : List Char) (st : List SymEntry) : Prop where
  perm : st.Perm (symEntries text)
  sorted : st.Pairwise (·.vaddr ≤ ·.vaddr)

/-! ## The scan of all entries -/

/-- The address lies in the range of the entry. -/
def Contains (e : SymEntry) (a : BitVec 32) : Prop :=
  e.vaddr.toNat ≤ a.toNat ∧ a.toNat < e.vaddr.toNat + (symSize e).toNat

instance (e : SymEntry) (a : BitVec 32) : Decidable (Contains e a) :=
  inferInstanceAs (Decidable (_ ∧ _))

/-- The searches answer at `a` as a scan of the entries does. -/
structure SearchAgrees (entries st : List SymEntry) (a : BitVec 32) : Prop where
  lookup_isSome : (symLookup st a).isSome ↔ ∃ e ∈ entries, e.vaddr = a
  lookup_name : ∀ name, symLookup st a = some name → ∃ e ∈ entries, e.vaddr = a ∧ e.name = name
  covering_isSome : (symCovering st a).isSome ↔ ∃ e ∈ entries, Contains e a
  covering_contains : ∀ e, symCovering st a = some e → e ∈ entries ∧ Contains e a

/-- The last entry that starts at or before an address. -/
def lastFrom (st : List SymEntry) (a : BitVec 32) : Option SymEntry :=
  (st.filter fun e => e.vaddr ≤ a).getLast?

/-! ## Search by halves -/

/-- Position `k` splits a table into the entries up to an address and those behind it. -/
structure Splits (st : List SymEntry) (a : BitVec 32) (k : Nat) : Prop where
  le_length : k ≤ st.length
  below : ∀ (i : Nat) (h : i < st.length), i < k → st[i].vaddr ≤ a
  above : ∀ (i : Nat) (h : i < st.length), k ≤ i → a < st[i].vaddr

theorem vaddr_le_of_le {st : List SymEntry} (hSorted : st.Pairwise (·.vaddr ≤ ·.vaddr)) {i j : Nat}
    (hi : i < st.length) (hj : j < st.length) (hij : i ≤ j) : st[i].vaddr ≤ st[j].vaddr := by
  rcases Nat.lt_or_eq_of_le hij with h | rfl
  · exact List.pairwise_iff_getElem.1 hSorted i j hi hj h
  · exact BitVec.le_refl _

theorem splits_symCoveringIn {st : List SymEntry} (hSorted : st.Pairwise (·.vaddr ≤ ·.vaddr))
    (a : BitVec 32) {lo hi : Nat} (hLe : lo ≤ hi) (hLength : hi ≤ st.length)
    (hBelow : ∀ (i : Nat) (h : i < st.length), i < lo → st[i].vaddr ≤ a)
    (hAbove : ∀ (i : Nat) (h : i < st.length), hi ≤ i → a < st[i].vaddr) :
    Splits st a (symCoveringIn st a lo hi) := by
  fun_induction symCoveringIn st a lo hi with
  | case1 lo hi hLt mid hMid ih =>
    have hm : mid < st.length := by omega
    rw [List.getD_eq_getElem _ _ hm] at hMid
    refine ih (by omega) hLength (fun i h hi => ?_) hAbove
    exact BitVec.le_trans (vaddr_le_of_le hSorted h hm (by omega)) hMid
  | case2 lo hi hLt mid hMid ih =>
    have hm : mid < st.length := by omega
    rw [List.getD_eq_getElem _ _ hm, BitVec.not_le] at hMid
    refine ih (by omega) (by omega) hBelow (fun i h hi => ?_)
    exact Nat.lt_of_lt_of_le hMid (vaddr_le_of_le hSorted hm h hi)
  | case3 lo hi hLt =>
    exact ⟨by omega, hBelow, fun i h hi => hAbove i h (by omega)⟩

theorem splits_symCovering {st : List SymEntry} (hSorted : st.Pairwise (·.vaddr ≤ ·.vaddr))
    (a : BitVec 32) : Splits st a (symCoveringIn st a 0 st.length) :=
  splits_symCoveringIn hSorted a (Nat.zero_le _) (Nat.le_refl _)
    (fun _ _ h => absurd h (Nat.not_lt_zero _)) (fun _ h hLe => absurd h (Nat.not_lt.2 hLe))

theorem Splits.filter_eq {st : List SymEntry} {a : BitVec 32} {k : Nat} (h : Splits st a k) :
    (st.filter fun e => e.vaddr ≤ a) = st.take k := by
  conv_lhs => rw [← List.take_append_drop k st]
  have hTake : ((st.take k).filter fun e => e.vaddr ≤ a) = st.take k := by
    rw [List.filter_eq_self]
    intro e he
    obtain ⟨i, hi, rfl⟩ := List.getElem_of_mem he
    rw [List.length_take] at hi
    rw [List.getElem_take]
    exact decide_eq_true (h.below i (by omega) (by omega))
  have hDrop : ((st.drop k).filter fun e => e.vaddr ≤ a) = [] := by
    rw [List.filter_eq_nil_iff]
    intro e he
    obtain ⟨i, hi, rfl⟩ := List.getElem_of_mem he
    rw [List.length_drop] at hi
    rw [List.getElem_drop, decide_eq_true_iff, BitVec.not_le]
    exact h.above (k + i) (by omega) (by omega)
  rw [List.filter_append, hTake, hDrop, List.append_nil]

/-- The search ends at the last entry in front of the address. -/
theorem symCovering_eq {st : List SymEntry} (hSorted : st.Pairwise (·.vaddr ≤ ·.vaddr))
    (a : BitVec 32) :
    symCovering st a = (lastFrom st a).filter fun e => a < e.vaddr + symSize e := by
  have hSplits := splits_symCovering hSorted a
  rw [lastFrom, hSplits.filter_eq, symCovering]
  generalize symCoveringIn st a 0 st.length = k at hSplits
  have hLength := hSplits.le_length
  by_cases hZero : k = 0
  · simp [hZero]
  · have hLt : k - 1 < st.length := by omega
    have hLast : (st.take k).getLast? = some st[k - 1] := by
      rw [List.getLast?_eq_getElem?, List.length_take, Nat.min_eq_left hLength,
        List.getElem?_take_of_lt (by omega), List.getElem?_eq_getElem hLt]
    rw [hLast, List.getD_eq_getElem _ _ hLt]
    simp [hZero, Option.filter]

theorem symLookupIn_spec {st : List SymEntry} (hSorted : st.Pairwise (·.vaddr ≤ ·.vaddr))
    (a : BitVec 32) {lo hi : Nat} (hLength : hi ≤ st.length)
    (hBelow : ∀ (i : Nat) (h : i < st.length), i < lo → st[i].vaddr < a)
    (hAbove : ∀ (i : Nat) (h : i < st.length), hi ≤ i → a < st[i].vaddr) :
    (∃ e ∈ st, e.vaddr = a ∧ symLookupIn st a lo hi = some e.name) ∨
      ((∀ e ∈ st, e.vaddr ≠ a) ∧ symLookupIn st a lo hi = none) := by
  fun_induction symLookupIn st a lo hi with
  | case1 lo hi hLt mid e hEq =>
    have hm : mid < st.length := by omega
    refine Or.inl ⟨e, ?_, hEq, rfl⟩
    rw [show e = st[mid] from List.getD_eq_getElem _ _ hm]
    exact List.getElem_mem hm
  | case2 lo hi hLt mid e hNe hMid ih =>
    have hm : mid < st.length := by omega
    have he : e = st[mid] := List.getD_eq_getElem _ _ hm
    refine ih hLength (fun i h hi => ?_) hAbove
    exact Nat.lt_of_le_of_lt (vaddr_le_of_le hSorted h hm (by omega)) (he ▸ hMid)
  | case3 lo hi hLt mid e hNe hMid ih =>
    have hm : mid < st.length := by omega
    have he : e = st[mid] := List.getD_eq_getElem _ _ hm
    refine ih (by omega) hBelow (fun i h hi => ?_)
    have hAfter : a < e.vaddr :=
      Nat.lt_of_le_of_ne (BitVec.not_lt.1 hMid) fun h => hNe (BitVec.eq_of_toNat_eq h.symm)
    exact Nat.lt_of_lt_of_le (he ▸ hAfter) (vaddr_le_of_le hSorted hm h hi)
  | case4 lo hi hLt =>
    refine Or.inr ⟨fun e he hEq => ?_, rfl⟩
    obtain ⟨i, hi', rfl⟩ := List.getElem_of_mem he
    by_cases hSide : i < lo
    · exact BitVec.lt_irrefl _ (hEq ▸ hBelow i hi' hSide)
    · exact BitVec.lt_irrefl _ (hEq ▸ hAbove i hi' (by omega))

theorem symLookup_spec {st : List SymEntry} (hSorted : st.Pairwise (·.vaddr ≤ ·.vaddr))
    (a : BitVec 32) :
    (∃ e ∈ st, e.vaddr = a ∧ symLookup st a = some e.name) ∨
      ((∀ e ∈ st, e.vaddr ≠ a) ∧ symLookup st a = none) :=
  symLookupIn_spec hSorted a (Nat.le_refl _) (fun _ _ h => absurd h (Nat.not_lt_zero _))
    (fun _ h hLe => absurd h (Nat.not_lt.2 hLe))

/-! ## Search against scan -/

theorem lastFrom_mem {st : List SymEntry} {a : BitVec 32} {e : SymEntry}
    (h : lastFrom st a = some e) : e ∈ st ∧ e.vaddr ≤ a := by
  have hMem := List.mem_of_getLast? h
  rw [List.mem_filter, decide_eq_true_iff] at hMem
  exact hMem

/-- The test of the search is the range of the entry, cut off at the top of the address space. -/
theorem lt_end_iff {e : SymEntry} {a : BitVec 32} (hLe : e.vaddr ≤ a) :
    a < e.vaddr + symSize e ↔
      Contains e a ∧ e.vaddr.toNat + (symSize e).toNat < 2 ^ 32 := by
  rw [BitVec.le_def] at hLe
  rw [BitVec.lt_def, BitVec.toNat_add, Contains]
  have ha := a.isLt
  have hv := e.vaddr.isLt
  have hs := (symSize e).isLt
  constructor
  · intro h
    by_cases hTop : e.vaddr.toNat + (symSize e).toNat < 2 ^ 32
    · rw [Nat.mod_eq_of_lt hTop] at h
      exact ⟨⟨hLe, h⟩, hTop⟩
    · rw [Nat.mod_eq_sub_mod (by omega), Nat.mod_eq_of_lt (by omega)] at h
      omega
  · rintro ⟨⟨-, hLt⟩, hTop⟩
    rwa [Nat.mod_eq_of_lt hTop]

theorem symCovering_eq_some_iff {st : List SymEntry}
    (hSorted : st.Pairwise (·.vaddr ≤ ·.vaddr)) {a : BitVec 32} {e : SymEntry} :
    symCovering st a = some e ↔
      lastFrom st a = some e ∧ Contains e a ∧ e.vaddr.toNat + (symSize e).toNat < 2 ^ 32 := by
  rw [symCovering_eq hSorted, Option.filter_eq_some_iff, decide_eq_true_iff]
  refine and_congr_right fun hLast => ?_
  exact lt_end_iff (lastFrom_mem hLast).2

/-- The searches agree with a scan at an address exactly if no entry contains the address, or the
last entry that starts at or before it contains it and ends below the top of the address space. -/
theorem searchAgrees_iff {text : List Char} {st : List SymEntry} (h : SymTableLoad text st)
    (a : BitVec 32) :
    SearchAgrees (symEntries text) st a ↔
      ((∃ e ∈ symEntries text, Contains e a) →
        ∃ e, lastFrom st a = some e ∧ Contains e a ∧
          e.vaddr.toNat + (symSize e).toNat < 2 ^ 32) := by
  have hMem : ∀ e, e ∈ st ↔ e ∈ symEntries text := fun e => h.perm.mem_iff
  have hSome : (symCovering st a).isSome ↔ ∃ e, lastFrom st a = some e ∧ Contains e a ∧
      e.vaddr.toNat + (symSize e).toNat < 2 ^ 32 := by
    rw [Option.isSome_iff_exists]
    exact exists_congr fun e => symCovering_eq_some_iff h.sorted
  have hContains : ∀ e, symCovering st a = some e → e ∈ symEntries text ∧ Contains e a := by
    intro e he
    obtain ⟨hLast, hIn, -⟩ := (symCovering_eq_some_iff h.sorted).1 he
    exact ⟨(hMem e).1 (lastFrom_mem hLast).1, hIn⟩
  constructor
  · exact fun hAgrees hCovered => hSome.1 (hAgrees.covering_isSome.2 hCovered)
  · intro hCond
    refine ⟨?_, ?_, ⟨?_, fun hCovered => hSome.2 (hCond hCovered)⟩, hContains⟩
    · rcases symLookup_spec h.sorted a with ⟨e, he, hEq, hName⟩ | ⟨hNone, hLookup⟩
      · exact iff_of_true (by rw [hName]; rfl) ⟨e, (hMem e).1 he, hEq⟩
      · exact iff_of_false (by rw [hLookup]; exact Bool.false_ne_true)
          fun ⟨e, he, hEq⟩ => hNone e ((hMem e).2 he) hEq
    · intro name hName
      rcases symLookup_spec h.sorted a with ⟨e, he, hEq, hFound⟩ | ⟨-, hLookup⟩
      · exact ⟨e, (hMem e).1 he, hEq, Option.some.inj (hFound.symm.trans hName)⟩
      · rw [hLookup] at hName
        exact nomatch hName
    · intro hIsSome
      obtain ⟨e, he⟩ := Option.isSome_iff_exists.1 hIsSome
      exact ⟨e, hContains e he⟩

/-- An outer symbol of 32 bytes with an inner one of four. -/
def nestedText : List Char :=
  "outer = .text:0x80004000; // size:0x20\ninner = .text:0x80004008; // size:0x4\n".toList

def nestedTable : List SymEntry :=
  [{ vaddr := 0x80004000, size := 0x20, name := "outer" },
    { vaddr := 0x80004008, size := 4, name := "inner" }]

theorem symEntries_nestedText : symEntries nestedText = nestedTable := by decide +kernel

theorem symTableLoad_nested : SymTableLoad nestedText nestedTable :=
  ⟨by rw [symEntries_nestedText], by decide⟩

/-- Behind the inner symbol the outer one is not found. -/
theorem searchAgrees_nested_false :
    SymTableLoad nestedText nestedTable ∧
      ¬ SearchAgrees (symEntries nestedText) nestedTable 0x80004010 := by
  refine ⟨symTableLoad_nested, fun h => ?_⟩
  have hCovered : ∃ e ∈ symEntries nestedText, Contains e 0x80004010 := by
    rw [symEntries_nestedText]
    exact ⟨_, List.mem_cons_self, by decide⟩
  have hNone : symCovering nestedTable 0x80004010 = none := by
    rw [symCovering_eq (by decide)]
    decide
  have hIsSome := h.covering_isSome.2 hCovered
  rw [hNone] at hIsSome
  exact absurd hIsSome (by decide)

/-- In the inner symbol they agree. -/
theorem searchAgrees_nested : SymTableLoad nestedText nestedTable ∧
    SearchAgrees (symEntries nestedText) nestedTable 0x80004008 :=
  ⟨symTableLoad_nested, (searchAgrees_iff symTableLoad_nested 0x80004008).2 fun _ =>
    ⟨{ vaddr := 0x80004008, size := 4, name := "inner" }, by decide, by decide, by decide⟩⟩

end Calynda.Decompiler
