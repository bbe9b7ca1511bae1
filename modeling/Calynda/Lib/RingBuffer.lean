import Mathlib.Data.Nat.ModEq

/-!
# Ring buffers

A buffer that is written round and round, and what is read from it backwards from the newest entry.
-/

namespace Calynda.Lib

variable {α : Type*} {buf pushed : List α} {cap index i : Nat}

/-- The newest of what has been pushed is at the place before `index`, and the others before it. -/
structure RingHolds (cap : Nat) (buf : List α) (index : Nat) (pushed : List α) : Prop where
  length : buf.length = cap
  index_lt : index < cap
  entry : ∀ i < cap, i < pushed.length →
    buf[((index + cap - 1) % cap + cap - i) % cap]? = pushed[i]?

/-- The place of an entry, by its age. -/
theorem ring_place (hIndex : index < cap) (hi : i < cap) :
    ((index + cap - 1) % cap + cap - i) % cap =
      if i < index then index - 1 - i else index + cap - 1 - i := by
  rcases Nat.eq_zero_or_pos index with rfl | hPos
  · have hPrev : (0 + cap - 1) % cap = cap - 1 := by
      rw [Nat.zero_add]
      exact Nat.mod_eq_of_lt (by omega)
    have hShift : cap - 1 + cap - i = (cap - 1 - i) + cap := by omega
    rw [hPrev, if_neg (Nat.not_lt_zero i), hShift, Nat.add_mod_right, Nat.mod_eq_of_lt (by omega),
      Nat.zero_add]
  · have hPrev : (index + cap - 1) % cap = index - 1 := by
      have hShift : index + cap - 1 = (index - 1) + cap := by omega
      rw [hShift, Nat.add_mod_right, Nat.mod_eq_of_lt (by omega)]
    rw [hPrev]
    split_ifs with hOld
    · have hShift : index - 1 + cap - i = (index - 1 - i) + cap := by omega
      rw [hShift, Nat.add_mod_right, Nat.mod_eq_of_lt (by omega)]
    · have hSame : index - 1 + cap - i = index + cap - 1 - i := by omega
      rw [hSame, Nat.mod_eq_of_lt (by omega)]

namespace RingHolds

theorem init (hLength : buf.length = cap) (hPos : 0 < cap) : RingHolds cap buf 0 [] :=
  ⟨hLength, hPos, fun _ _ hi => absurd hi (Nat.not_lt_zero _)⟩

/-- A push takes the place of the oldest entry, and every other entry is one older. -/
theorem push (h : RingHolds cap buf index pushed) (a : α) :
    RingHolds cap (buf.set index a) ((index + 1) % cap) (a :: pushed) := by
  have hIndex := h.index_lt
  have hNext : (index + 1) % cap < cap := Nat.mod_lt _ (by omega)
  have hMod : (index + 1) % cap = if index + 1 = cap then 0 else index + 1 := by
    split_ifs with hLast
    · rw [hLast, Nat.mod_self]
    · exact Nat.mod_eq_of_lt (by omega)
  refine ⟨by rw [List.length_set, h.length], hNext, fun i hi hPushed => ?_⟩
  rw [ring_place hNext hi, hMod]
  cases i with
  | zero =>
    have hPlace : (if 0 < (if index + 1 = cap then 0 else index + 1) then
        (if index + 1 = cap then 0 else index + 1) - 1 - 0
        else (if index + 1 = cap then 0 else index + 1) + cap - 1 - 0) = index := by
      split_ifs <;> omega
    rw [hPlace, List.getElem?_set_self (h.length.symm ▸ hIndex), List.getElem?_cons_zero]
  | succ i =>
    have hBefore := h.entry i (by omega) (Nat.lt_of_succ_lt_succ hPushed)
    rw [ring_place hIndex (by omega)] at hBefore
    have hPlace : (if i + 1 < (if index + 1 = cap then 0 else index + 1) then
        (if index + 1 = cap then 0 else index + 1) - 1 - (i + 1)
        else (if index + 1 = cap then 0 else index + 1) + cap - 1 - (i + 1)) =
        if i < index then index - 1 - i else index + cap - 1 - i := by
      split_ifs <;> omega
    have hOther : index ≠ if i < index then index - 1 - i else index + cap - 1 - i := by
      split_ifs <;> omega
    rw [hPlace, List.getElem?_set_ne hOther, hBefore, List.getElem?_cons_succ]

/-- What is read backwards are the last entries that have been pushed. -/
theorem window (h : RingHolds cap buf index pushed) (fallback : α) {n : Nat} (hCap : n ≤ cap)
    (hn : n ≤ pushed.length) :
    ((List.range n).map fun i => buf.getD (((index + cap - 1) % cap + cap - i) % cap) fallback) =
      pushed.take n := by
  refine List.ext_getElem? fun i => ?_
  rw [List.getElem?_map, List.getElem?_take]
  by_cases hi : i < n
  · rw [List.getElem?_range hi, if_pos hi, Option.map_some, List.getD_eq_getElem?_getD,
      h.entry i (by omega) (by omega), List.getElem?_eq_getElem (by omega), Option.getD_some]
  · rw [if_neg hi, List.getElem?_eq_none (by rw [List.length_range]; omega), Option.map_none]

end RingHolds

end Calynda.Lib
