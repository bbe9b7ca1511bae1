import Mathlib.Data.Nat.Size
import Mathlib.Algebra.Group.Nat.Defs

/-!
# Buffers that double

The capacities of a buffer that doubles are `cap`, `2 * cap`, `4 * cap` and so on. The room for
`n` characters is the least of them above `n`.
-/

namespace Calynda.Lib

def roomFor (cap n : Nat) : Nat := cap * 2 ^ (n / cap).size

variable {cap n m : Nat}

theorem roomFor_zero (cap : Nat) : roomFor cap 0 = cap := by simp [roomFor]

theorem lt_roomFor (hPos : 0 < cap) (n : Nat) : n < roomFor cap n := by
  have hSize := Nat.lt_size_self (n / cap)
  rw [Nat.div_lt_iff_lt_mul hPos, Nat.mul_comm] at hSize
  exact hSize

theorem le_roomFor (cap n : Nat) : cap ≤ roomFor cap n :=
  Nat.le_mul_of_pos_right cap (Nat.two_pow_pos _)

/-- The room is the capacity that is above the length, where the one before is not. -/
theorem roomFor_of_bounds {k : Nat} (hPos : 0 < cap) (hLow : k = 0 ∨ cap * 2 ^ (k - 1) ≤ n)
    (hHigh : n < cap * 2 ^ k) : roomFor cap n = cap * 2 ^ k := by
  have hLe : (n / cap).size ≤ k := by
    rw [Nat.size_le, Nat.div_lt_iff_lt_mul hPos, Nat.mul_comm]
    exact hHigh
  have hGe : k ≤ (n / cap).size := by
    rcases hLow with rfl | hLow
    · exact Nat.zero_le _
    · cases k with
      | zero => exact Nat.zero_le _
      | succ k =>
        rw [Nat.succ_le_iff, Nat.lt_size, Nat.le_div_iff_mul_le hPos, Nat.mul_comm]
        exact hLow
  rw [roomFor, Nat.le_antisymm hLe hGe]

/-- The capacity before the room is not above the length. -/
theorem size_low (hPos : 0 < cap) (n : Nat) :
    (n / cap).size = 0 ∨ cap * 2 ^ ((n / cap).size - 1) ≤ n := by
  rcases hSize : (n / cap).size with _ | k
  · exact .inl rfl
  · have hLt : k < (n / cap).size := by omega
    rw [Nat.lt_size, Nat.le_div_iff_mul_le hPos, Nat.mul_comm] at hLt
    exact .inr hLt

/-- Up to the room the buffer stays. -/
theorem roomFor_same (hPos : 0 < cap) (hLe : n ≤ m) (h : m < roomFor cap n) :
    roomFor cap m = roomFor cap n :=
  roomFor_of_bounds hPos ((size_low hPos n).imp_right fun hLow => Nat.le_trans hLow hLe) h

/-- From the room on it doubles. -/
theorem roomFor_double (hPos : 0 < cap) (h : roomFor cap n ≤ m) (hHigh : m < roomFor cap n * 2) :
    roomFor cap m = roomFor cap n * 2 := by
  have hNext : roomFor cap n * 2 = cap * 2 ^ ((n / cap).size + 1) := by
    rw [roomFor, Nat.mul_assoc, ← Nat.pow_succ]
  rw [hNext] at hHigh ⊢
  exact roomFor_of_bounds hPos (.inr h) hHigh

end Calynda.Lib
