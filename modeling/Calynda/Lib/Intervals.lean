import Mathlib.Order.Interval.Finset.Nat
import Mathlib.Algebra.GroupWithZero.Nat

/-!
# Lists of intervals

How many numbers the intervals of a list cover, which runs of numbers between them they leave
free, and the longest of these runs.
-/

namespace Calynda.Lib

/-- The numbers from `start` on, `size` of them. -/
structure Span where
  start : Nat
  size : Nat
  deriving DecidableEq

namespace Span

def stop (i : Span) : Nat := i.start + i.size

def Covers (i : Span) (a : Nat) : Prop := i.start ≤ a ∧ a < i.stop

/-- No number lies in both. -/
def Apart (i j : Span) : Prop := ∀ a, ¬ (i.Covers a ∧ j.Covers a)

def bytes (i : Span) : Finset Nat := Finset.Ico i.start i.stop

theorem mem_bytes {i : Span} {a : Nat} : a ∈ i.bytes ↔ i.Covers a := Finset.mem_Ico

theorem card_bytes (i : Span) : i.bytes.card = i.size := by
  rw [bytes, Nat.card_Ico, stop, Nat.add_sub_cancel_left]

/-- Of two nonempty intervals that are apart, the one that starts first stops first. -/
theorem Apart.stop_le {i j : Span} (h : i.Apart j) (hSize : 0 < j.size) (hLe : i.start ≤ j.start) :
    i.stop ≤ j.start := by
  by_contra hLt
  exact h j.start ⟨⟨hLe, Nat.lt_of_not_le hLt⟩, le_refl _, Nat.lt_add_of_pos_right hSize⟩

end Span

open Calynda.Lib.Span

/-! ## What a list covers -/

/-- Some interval of the list has the number. -/
def Covered (l : List Span) (a : Nat) : Prop := ∃ i ∈ l, i.Covers a

/-- The numbers of a set that the list covers. -/
def coveredIn (T : Finset Nat) : List Span → Finset Nat
  | [] => ∅
  | i :: l => i.bytes ∩ T ∪ coveredIn T l

theorem mem_coveredIn {T : Finset Nat} {l : List Span} {a : Nat} :
    a ∈ coveredIn T l ↔ a ∈ T ∧ Covered l a := by
  induction l with
  | nil => simp [coveredIn, Covered]
  | cons i l ih =>
    simp only [coveredIn, Finset.mem_union, Finset.mem_inter, mem_bytes, ih, Covered,
      List.mem_cons, exists_eq_or_imp]
    tauto

theorem coveredIn_subset (T : Finset Nat) (l : List Span) : coveredIn T l ⊆ T :=
  fun _ ha => (mem_coveredIn.1 ha).1

theorem card_coveredIn_le (T : Finset Nat) (l : List Span) :
    (coveredIn T l).card ≤ (l.map size).sum := by
  induction l with
  | nil => simp [coveredIn]
  | cons i l ih =>
    have hUnion := Finset.card_union_le (i.bytes ∩ T) (coveredIn T l)
    have hInter : (i.bytes ∩ T).card ≤ i.bytes.card := Finset.card_le_card Finset.inter_subset_left
    rw [card_bytes] at hInter
    simp only [coveredIn, List.map_cons, List.sum_cons]
    omega

/-- The sizes add up to what is covered of a set exactly when the intervals lie in the set and
no two of them overlap. -/
theorem card_coveredIn_eq_iff (T : Finset Nat) (l : List Span) :
    (coveredIn T l).card = (l.map size).sum ↔ (∀ i ∈ l, i.bytes ⊆ T) ∧ l.Pairwise Apart := by
  induction l with
  | nil => simp [coveredIn]
  | cons i l ih =>
    have hUnion := Finset.card_union_add_card_inter (i.bytes ∩ T) (coveredIn T l)
    have hInter : (i.bytes ∩ T).card ≤ i.bytes.card := Finset.card_le_card Finset.inter_subset_left
    have hTail := card_coveredIn_le T l
    rw [card_bytes] at hInter
    simp only [coveredIn, List.map_cons, List.sum_cons, List.forall_mem_cons, List.pairwise_cons]
    constructor
    · intro hEq
      have hFull : (i.bytes ∩ T).card = i.bytes.card := by
        rw [card_bytes]
        omega
      have hIn : i.bytes ⊆ T :=
        Finset.inter_eq_left.1 (Finset.eq_of_subset_of_card_le Finset.inter_subset_left hFull.ge)
      have hRest := ih.1 (by omega)
      have hNone : (i.bytes ∩ T) ∩ coveredIn T l = ∅ := Finset.card_eq_zero.1 (by omega)
      refine ⟨⟨hIn, hRest.1⟩, fun j hj a hBoth => ?_, hRest.2⟩
      have hMem : a ∈ (i.bytes ∩ T) ∩ coveredIn T l :=
        Finset.mem_inter.2 ⟨Finset.mem_inter.2 ⟨mem_bytes.2 hBoth.1, hIn (mem_bytes.2 hBoth.1)⟩,
          mem_coveredIn.2 ⟨hIn (mem_bytes.2 hBoth.1), j, hj, hBoth.2⟩⟩
      rw [hNone] at hMem
      exact absurd hMem (Finset.notMem_empty a)
    · rintro ⟨⟨hIn, hRest⟩, hApart, hPair⟩
      have hTailEq := ih.2 ⟨hRest, hPair⟩
      have hNone : (i.bytes ∩ T) ∩ coveredIn T l = ∅ := by
        refine Finset.eq_empty_of_forall_notMem fun a ha => ?_
        obtain ⟨hi, hl⟩ := Finset.mem_inter.1 ha
        obtain ⟨-, j, hj, hCovers⟩ := mem_coveredIn.1 hl
        exact hApart j hj a ⟨mem_bytes.1 (Finset.mem_inter.1 hi).1, hCovers⟩
      rw [hNone, Finset.inter_eq_left.2 hIn, card_bytes, Finset.card_empty] at hUnion
      rw [Finset.inter_eq_left.2 hIn]
      omega

/-! ## What a list leaves free -/

/-- A run of free numbers that ends on both sides at covered ones. -/
structure Gap (covered : Nat → Prop) (g : Span) : Prop where
  size_pos : 0 < g.size
  start_pos : 0 < g.start
  before : covered (g.start - 1)
  free : ∀ a, g.Covers a → ¬ covered a
  after : covered g.stop

/-- The runs between neighbours of the list. -/
def gapsOf : List Span → List Span
  | [] => []
  | [_] => []
  | i :: j :: rest =>
    if i.stop < j.start then ⟨i.stop, j.start - i.stop⟩ :: gapsOf (j :: rest)
    else gapsOf (j :: rest)

theorem gapsOf_cons_cons (i j : Span) (rest : List Span) :
    gapsOf (i :: j :: rest) =
      if i.stop < j.start then ⟨i.stop, j.start - i.stop⟩ :: gapsOf (j :: rest)
      else gapsOf (j :: rest) := rfl

/-- Each of the list is nonempty and stops before the next ones start. -/
def Ascending (l : List Span) : Prop :=
  (∀ i ∈ l, 0 < i.size) ∧ l.Pairwise fun i j => i.stop ≤ j.start

variable {i j : Span} {l : List Span}

theorem Ascending.tail (h : Ascending (i :: l)) : Ascending l :=
  ⟨fun j hj => h.1 j (List.mem_cons_of_mem i hj), (List.pairwise_cons.1 h.2).2⟩

theorem Ascending.head_le (h : Ascending (i :: l)) {j : Span} (hj : j ∈ l) :
    i.stop ≤ j.start := (List.pairwise_cons.1 h.2).1 j hj

theorem Ascending.start_le_of_covered (h : Ascending (j :: l)) {a : Nat} (ha : Covered (j :: l) a) :
    j.start ≤ a := by
  obtain ⟨k, hk, hCovers⟩ := ha
  rcases List.mem_cons.1 hk with rfl | hk
  · exact hCovers.1
  · have hStop := h.head_le hk
    have hStart := hCovers.1
    unfold stop at hStop
    omega

theorem covered_cons {a : Nat} : Covered (i :: l) a ↔ i.Covers a ∨ Covered l a := by
  simp only [Covered, List.mem_cons, exists_eq_or_imp]

/-- A free run behind the first interval is one of the rest, or the one between the first two. -/
theorem gap_cons_iff (h : Ascending (i :: j :: l)) {g : Span} :
    Gap (Covered (i :: j :: l)) g ↔
      (g.start = i.stop ∧ g.stop = j.start ∧ 0 < g.size) ∨ Gap (Covered (j :: l)) g := by
  have hij := h.head_le (List.mem_cons_self ..)
  have hiPos := h.1 i (List.mem_cons_self ..)
  have hjPos := h.1 j (by simp)
  have hjStart : Covered (j :: l) j.start :=
    ⟨j, List.mem_cons_self .., le_refl _, Nat.lt_add_of_pos_right hjPos⟩
  constructor
  · intro hGap
    have hStart := hGap.start_pos
    have hSize := hGap.size_pos
    have hNotAt := hGap.free g.start ⟨le_refl _, Nat.lt_add_of_pos_right hSize⟩
    rw [covered_cons, not_or] at hNotAt
    rcases covered_cons.1 hGap.before with hBefore | hBefore
    · refine .inl ⟨?_, ?_, hSize⟩
      · have hNot := hNotAt.1
        simp only [Span.Covers] at hBefore hNot
        omega
      · have hIs : g.start = i.stop := by
          have hNot := hNotAt.1
          simp only [Span.Covers] at hBefore hNot
          omega
        have hGe : g.stop ≤ j.start := by
          by_contra hLt
          exact hGap.free j.start ⟨by omega, by omega⟩ (covered_cons.2 (.inr hjStart))
        rcases covered_cons.1 hGap.after with hAfter | hAfter
        · have hLt := hAfter.2
          unfold stop at hLt hIs
          omega
        · exact le_antisymm hGe (h.tail.start_le_of_covered hAfter)
    · have hLe := h.tail.start_le_of_covered hBefore
      refine .inr ⟨hSize, hStart, hBefore, fun a ha hCov =>
        hGap.free a ha (covered_cons.2 (.inr hCov)), ?_⟩
      rcases covered_cons.1 hGap.after with hAfter | hAfter
      · have hLt := hAfter.2
        unfold stop at hLt hij
        omega
      · exact hAfter
  · rintro (⟨hStart, hStop, hSize⟩ | hGap)
    · have hPos : 0 < i.stop := Nat.lt_of_lt_of_le hiPos (Nat.le_add_left ..)
      refine ⟨hSize, hStart ▸ hPos, covered_cons.2 (.inl ?_), fun a ha => ?_, ?_⟩
      · rw [hStart]
        unfold Span.Covers stop
        omega
      · rw [covered_cons, not_or]
        refine ⟨fun hi => ?_, fun hl => ?_⟩
        · have hLt := hi.2
          have hGe := ha.1
          omega
        · have hLe := h.tail.start_le_of_covered hl
          have hLt := ha.2
          omega
      · rw [hStop]
        exact covered_cons.2 (.inr hjStart)
    · have hLe := h.tail.start_le_of_covered hGap.before
      refine ⟨hGap.size_pos, hGap.start_pos, covered_cons.2 (.inr hGap.before), fun a ha => ?_,
        covered_cons.2 (.inr hGap.after)⟩
      rw [covered_cons, not_or]
      refine ⟨fun hi => ?_, hGap.free a ha⟩
      have hLt := hi.2
      have hGe := ha.1
      omega

theorem not_gap_of_single (i g : Span) : ¬ Gap (Covered [i]) g := by
  intro hGap
  obtain ⟨_, hk, hBefore⟩ := hGap.before
  cases List.mem_singleton.1 hk
  obtain ⟨_, hk, hAfter⟩ := hGap.after
  cases List.mem_singleton.1 hk
  have hStart := hGap.start_pos
  have hSize := hGap.size_pos
  refine hGap.free g.start ⟨le_refl _, Nat.lt_add_of_pos_right hSize⟩ ⟨i, hk, ?_⟩
  simp only [Span.Covers] at hBefore hAfter ⊢
  unfold stop at hBefore hAfter ⊢
  omega

theorem mem_gapsOf_iff {l : List Span} (h : Ascending l) {g : Span} :
    g ∈ gapsOf l ↔ Gap (Covered l) g := by
  induction l with
  | nil =>
    refine ⟨fun hg => absurd hg List.not_mem_nil, fun hGap => ?_⟩
    obtain ⟨_, hi, -⟩ := hGap.before
    exact absurd hi List.not_mem_nil
  | cons i l ih =>
    cases l with
    | nil =>
      exact ⟨fun hg => absurd hg List.not_mem_nil,
        fun hGap => absurd hGap (not_gap_of_single i g)⟩
    | cons j l =>
      rw [gap_cons_iff h, ← ih h.tail, gapsOf_cons_cons]
      obtain ⟨start, size⟩ := g
      have hStop : (⟨start, size⟩ : Span).stop = start + size := rfl
      split
      case isTrue hLt =>
        rw [List.mem_cons]
        refine or_congr_left ?_
        simp only [Span.mk.injEq, hStop]
        omega
      case isFalse hNot =>
        refine ⟨.inr, fun hOr => hOr.resolve_left ?_⟩
        simp only [hStop]
        omega

theorem start_of_mem_gapsOf {l : List Span} (h : Ascending (i :: l)) {g : Span}
    (hg : g ∈ gapsOf (i :: l)) : i.stop ≤ g.start := by
  have hGap := (mem_gapsOf_iff h).1 hg
  have hLe := h.start_le_of_covered hGap.before
  have hFree := hGap.free g.start ⟨le_refl _, Nat.lt_add_of_pos_right hGap.size_pos⟩
  rw [covered_cons, not_or] at hFree
  have hNot := hFree.1
  have hStart := hGap.start_pos
  simp only [Span.Covers] at hNot
  omega

theorem nodup_gapsOf {l : List Span} (h : Ascending l) : (gapsOf l).Nodup := by
  induction l with
  | nil => exact List.nodup_nil
  | cons i l ih =>
    cases l with
    | nil => exact List.nodup_nil
    | cons j l =>
      have hTail := ih h.tail
      rw [gapsOf_cons_cons]
      split
      · refine List.nodup_cons.2 ⟨fun hMem => ?_, hTail⟩
        have hLe := start_of_mem_gapsOf h.tail hMem
        have hPos := h.1 j (by simp)
        have hij := h.head_le (List.mem_cons_self ..)
        simp only [stop] at hLe hij
        omega
      · exact hTail

/-! ## The largest of a list -/

section Largest

variable {α : Type} (key : α → Nat)

/-- The element takes its place in a table ordered by the key, whose last entry falls out. -/
def insertTop (x : α) : List α → List α
  | [] => []
  | y :: rest => if key y < key x then x :: (y :: rest).dropLast else y :: insertTop x rest

/-- The table holds the elements with the largest keys, in descending order. -/
structure Largest (xs top : List α) : Prop where
  sorted : top.Pairwise fun a b => key b ≤ key a
  rest : ∃ rest, (top ++ rest).Perm xs ∧ ∀ r ∈ rest, ∀ t ∈ top, key r ≤ key t

theorem length_insertTop (x : α) (top : List α) : (insertTop key x top).length = top.length := by
  induction top with
  | nil => rfl
  | cons y rest ih =>
    unfold insertTop
    split
    · simp
    · rw [List.length_cons, List.length_cons, ih]

variable {key}

theorem exists_insertTop (x : α) {top : List α} (h : top.Pairwise fun a b => key b ≤ key a) :
    ∃ d, (insertTop key x top ++ [d]).Perm (x :: top) ∧
      (insertTop key x top).Pairwise (fun a b => key b ≤ key a) ∧
      ∀ t ∈ insertTop key x top, key d ≤ key t := by
  induction top with
  | nil => exact ⟨x, List.Perm.refl _, List.Pairwise.nil, fun t ht => absurd ht List.not_mem_nil⟩
  | cons y rest ih =>
    obtain ⟨hHead, hTail⟩ := List.pairwise_cons.1 h
    unfold insertTop
    split
    case isTrue hLt =>
      have hNe : y :: rest ≠ [] := List.cons_ne_nil y rest
      have hSplit := List.dropLast_append_getLast hNe
      have hSorted := h
      rw [← hSplit] at hSorted
      obtain ⟨hInit, -, hLast⟩ := List.pairwise_append.1 hSorted
      have hLe : ∀ t ∈ y :: rest, key t < key x := by
        intro t ht
        rcases List.mem_cons.1 ht with rfl | ht
        · exact hLt
        · exact Nat.lt_of_le_of_lt (hHead t ht) hLt
      refine ⟨(y :: rest).getLast hNe, ?_, List.pairwise_cons.2 ⟨fun t ht => ?_, hInit⟩, ?_⟩
      · rw [List.cons_append, hSplit]
      · exact Nat.le_of_lt (hLe t (List.mem_of_mem_dropLast ht))
      · intro t ht
        rcases List.mem_cons.1 ht with rfl | ht
        · exact Nat.le_of_lt (hLe _ (List.getLast_mem hNe))
        · exact hLast t ht _ (List.mem_singleton_self _)
    case isFalse hNot =>
      obtain ⟨d, hPerm, hSorted, hd⟩ := ih hTail
      have hBelow : ∀ t ∈ x :: rest, key t ≤ key y := by
        intro t ht
        rcases List.mem_cons.1 ht with rfl | ht
        · exact Nat.not_lt.1 hNot
        · exact hHead t ht
      have hIn : ∀ t ∈ insertTop key x rest ++ [d], t ∈ x :: rest := fun t ht => hPerm.subset ht
      refine ⟨d, ?_, List.pairwise_cons.2 ⟨fun t ht => ?_, hSorted⟩, fun t ht => ?_⟩
      · exact (hPerm.cons y).trans (List.Perm.swap x y rest)
      · exact hBelow t (hIn t (List.mem_append_left _ ht))
      · rcases List.mem_cons.1 ht with rfl | ht
        · exact hBelow d (hIn d (List.mem_append_right _ (List.mem_singleton_self d)))
        · exact hd t ht

theorem Largest.insertTop {xs top : List α} (h : Largest key xs top) (x : α) :
    Largest key (x :: xs) (insertTop key x top) := by
  obtain ⟨rest, hPerm, hRest⟩ := h.rest
  obtain ⟨d, hd, hSorted, hLe⟩ := exists_insertTop x h.sorted
  refine ⟨hSorted, d :: rest, ?_, fun r hr t ht => ?_⟩
  · have hAll := (hd.append_right rest).trans (hPerm.cons x)
    rwa [List.append_assoc] at hAll
  · rcases List.mem_cons.1 hr with rfl | hr
    · exact hLe t ht
    · have hdIn : d ∈ x :: top := hd.subset (List.mem_append_right _ (List.mem_singleton_self d))
      rcases List.mem_cons.1 hdIn with rfl | hdIn
      · have hSame : (Lib.insertTop key d top).Perm top :=
          List.Perm.cons_inv ((List.perm_append_singleton d _).symm.trans hd)
        exact hRest r hr t (hSame.subset ht)
      · exact (hRest r hr d hdIn).trans (hLe t ht)

theorem Largest.foldl {xs top : List α} (h : Largest key xs top) (ys : List α) :
    Largest key (ys.reverse ++ xs) (ys.foldl (fun top x => Lib.insertTop key x top) top) := by
  induction ys generalizing xs top with
  | nil => exact h
  | cons y ys ih =>
    rw [List.reverse_cons, List.append_assoc]
    exact ih (h.insertTop y)

end Largest

end Calynda.Lib
