import Calynda.Lib.ListArray

/-!
# Lists made of blocks

What nested loops write one after the other: a block for each value of the counter, all blocks of
one length, so that the place of an element is the number of its block and its place in there.
-/

namespace Calynda.Lib

variable {α : Type*} {n m k i len : Nat} {f : Nat → List α}

/-- The blocks of a loop that counts to `n`. -/
def blocks (n : Nat) (f : Nat → List α) : List α := (List.range n).flatMap f

theorem blocks_succ (n : Nat) (f : Nat → List α) : blocks (n + 1) f = blocks n f ++ f n := by
  rw [blocks, List.range_succ, List.flatMap_append, List.flatMap_singleton]
  rfl

theorem mem_blocks {a : α} : a ∈ blocks n f ↔ ∃ i < n, a ∈ f i := by
  simp [blocks]

theorem length_blocks (h : ∀ i < n, (f i).length = len) : (blocks n f).length = n * len :=
  List.length_flatMap_range h

/-- An element is found in its block. -/
theorem getElem?_blocks (h : ∀ i < n, (f i).length = len) (hi : i < n) (hk : k < len) :
    (blocks n f)[i * len + k]? = (f i)[k]? := by
  induction n with
  | zero => exact absurd hi (Nat.not_lt_zero i)
  | succ n ih =>
    have hBefore : ∀ i < n, (f i).length = len := fun i hi => h i (Nat.lt_succ_of_lt hi)
    have hLength := length_blocks hBefore
    rw [blocks_succ]
    rcases Nat.lt_succ_iff_lt_or_eq.mp hi with hLess | rfl
    · have hFits : i * len + k < n * len := by
        calc i * len + k < i * len + len := Nat.add_lt_add_left hk _
          _ = (i + 1) * len := (Nat.succ_mul i len).symm
          _ ≤ n * len := Nat.mul_le_mul_right len hLess
      rw [List.getElem?_append_left (hLength.symm ▸ hFits)]
      exact ih hBefore hLess
    · rw [List.getElem?_append_right (hLength.symm ▸ Nat.le_add_right _ _), hLength,
        Nat.add_sub_cancel_left]

/-- The blocks of two nested loops, numbered through. -/
theorem getElem?_blocks_blocks {f : Nat → Nat → List α} {j : Nat}
    (h : ∀ j < m, ∀ i < n, (f j i).length = len) (hj : j < m) (hi : i < n) (hk : k < len) :
    (blocks m fun j => blocks n (f j))[(j * n + i) * len + k]? = (f j i)[k]? := by
  have hRow : ∀ j < m, (blocks n (f j)).length = n * len := fun j hj => length_blocks (h j hj)
  have hFits : i * len + k < n * len := by
    calc i * len + k < i * len + len := Nat.add_lt_add_left hk _
      _ = (i + 1) * len := (Nat.succ_mul i len).symm
      _ ≤ n * len := Nat.mul_le_mul_right len hi
  have hPlace : (j * n + i) * len + k = j * (n * len) + (i * len + k) := by
    rw [Nat.add_mul, Nat.mul_assoc, Nat.add_assoc]
  rw [hPlace, getElem?_blocks hRow hj hFits]
  exact getElem?_blocks (h j hj) hi hk

theorem length_blocks_blocks {f : Nat → Nat → List α}
    (h : ∀ j < m, ∀ i < n, (f j i).length = len) :
    (blocks m fun j => blocks n (f j)).length = m * n * len := by
  rw [length_blocks fun j hj => length_blocks (h j hj), Nat.mul_assoc]

/-- Each place belongs to a block. -/
theorem exists_block {place : Nat} (h : place < m * n * len) :
    ∃ j < m, ∃ i < n, ∃ k < len, place = (j * n + i) * len + k := by
  have hLen : 0 < len := Nat.pos_of_ne_zero fun hZero => by simp [hZero] at h
  have hN : 0 < n := Nat.pos_of_ne_zero fun hZero => by simp [hZero] at h
  refine ⟨place / len / n, ?_, place / len % n, Nat.mod_lt _ hN, place % len, Nat.mod_lt _ hLen, ?_⟩
  · rw [Nat.div_lt_iff_lt_mul hN, Nat.div_lt_iff_lt_mul hLen]
    exact h
  · rw [Nat.div_add_mod', Nat.div_add_mod']

/-- A list is made of the blocks that agree with it place by place. -/
theorem blocks_blocks_eq {f : Nat → Nat → List α} {l : List α} (hLength : l.length = m * n * len)
    (hLen : ∀ j < m, ∀ i < n, (f j i).length = len)
    (h : ∀ j < m, ∀ i < n, ∀ k < len, (f j i)[k]? = l[(j * n + i) * len + k]?) :
    (blocks m fun j => blocks n (f j)) = l := by
  have hSame := (length_blocks_blocks hLen).trans hLength.symm
  apply List.ext_getElem?
  intro place
  rcases Nat.lt_or_ge place l.length with hInside | hOutside
  · obtain ⟨j, hj, i, hi, k, hk, rfl⟩ := exists_block (hLength ▸ hInside)
    rw [getElem?_blocks_blocks hLen hj hi hk, h j hj i hi k hk]
  · rw [List.getElem?_eq_none hOutside, List.getElem?_eq_none (hSame ▸ hOutside)]

end Calynda.Lib
