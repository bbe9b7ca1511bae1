import Mathlib.Algebra.Order.Field.Basic
import Mathlib.Tactic.LinearCombination
import Mathlib.Tactic.Linarith
import Mathlib.Tactic.Ring

/-!
# Quadratics on the unit square

A convex quadratic in two variables is least at a point of the unit square where it goes down along
neither variable. One way to such a point is to solve for the first variable, then for the second,
and to solve for the first once more where the second has left the interval.
-/

namespace Calynda.Lib

variable {K : Type*} [Field K] [LinearOrder K] [IsStrictOrderedRing K]

/-- With slope `g` at `x` no step inside the unit interval goes down. -/
def Settled (x g : K) : Prop := ∀ y ∈ Set.Icc (0 : K) 1, 0 ≤ g * (y - x)

namespace Settled

variable {x g e : K}

omit [IsStrictOrderedRing K] in
theorem flat (x : K) : Settled x 0 := fun y _ => by rw [zero_mul]

theorem zero_iff : Settled 0 g ↔ 0 ≤ g := by
  constructor
  · intro h
    simpa using h 1 ⟨zero_le_one, le_rfl⟩
  · intro h y hY
    rw [sub_zero]
    exact mul_nonneg h hY.1

theorem one_iff : Settled 1 g ↔ g ≤ 0 := by
  constructor
  · intro h
    simpa using h 0 ⟨le_rfl, zero_le_one⟩
  · intro h y hY
    exact mul_nonneg_of_nonpos_of_nonpos h (sub_nonpos.mpr hY.2)

theorem of_mul (he : 0 < e) (h : Settled x (e * g)) : Settled x g := by
  intro y hY
  have hScaled := h y hY
  rw [mul_assoc] at hScaled
  exact nonneg_of_mul_nonneg_right hScaled he

/-- A slope that goes down somewhere goes down for a while. -/
theorem of_le {a : K} (hX : x ∈ Set.Icc (0 : K) 1)
    (h : ∀ y ∈ Set.Icc (0 : K) 1, 0 ≤ 2 * (g * (y - x)) + a * (y - x) * (y - x)) : Settled x g := by
  intro y hY
  by_contra hDown
  rw [not_le] at hDown
  set d := y - x with hD
  have hStep : ∀ k, 0 ≤ k → k ≤ 1 → 0 ≤ 2 * (g * (k * d)) + a * (k * d) * (k * d) := by
    intro k hLow hHigh
    have hIn : x + k * d ∈ Set.Icc (0 : K) 1 := by
      have hBetween : x + k * d = (1 - k) * x + k * y := by rw [hD]; ring
      rw [hBetween]
      constructor
      · exact add_nonneg (mul_nonneg (sub_nonneg.mpr hHigh) hX.1) (mul_nonneg hLow hY.1)
      · calc (1 - k) * x + k * y
          _ ≤ (1 - k) * 1 + k * 1 := add_le_add (mul_le_mul_of_nonneg_left hX.2
              (sub_nonneg.mpr hHigh)) (mul_le_mul_of_nonneg_left hY.2 hLow)
          _ = 1 := by ring
    simpa using h _ hIn
  by_cases hFar : a * d * d ≤ -(g * d)
  · have hWhole := hStep 1 zero_le_one le_rfl
    rw [one_mul] at hWhole
    linarith
  · rw [not_le] at hFar
    have hPos : 0 < a * d * d := (neg_pos.mpr hDown).trans hFar
    have hPart := hStep (-(g * d) / (a * d * d)) (div_nonneg (neg_pos.mpr hDown).le hPos.le)
      ((div_le_one hPos).mpr hFar.le)
    set k := -(g * d) / (a * d * d) with hK
    have hEq : k * (a * d * d) = -(g * d) := div_mul_cancel₀ _ hPos.ne'
    have hKPos : 0 < k := div_pos (neg_pos.mpr hDown) hPos
    have hValue : 2 * (g * (k * d)) + a * (k * d) * (k * d) = k * (g * d) := by
      linear_combination k * hEq
    rw [hValue] at hPart
    exact absurd hPart (not_le.mpr (mul_neg_of_pos_of_neg hKPos hDown))

end Settled

/-- The quadratic `a s² - 2 b s t + e t² + 2 c s - 2 f t`. -/
structure Quadratic (K : Type*) where
  a : K
  b : K
  c : K
  e : K
  f : K

namespace Quadratic

variable (q : Quadratic K) (s t : K)

def value : K := q.a * s * s - 2 * q.b * s * t + q.e * t * t + 2 * q.c * s - 2 * q.f * t

/-- Half the slope along the first variable. -/
def slopeS : K := q.a * s + q.c - q.b * t

/-- Half the slope along the second variable. -/
def slopeT : K := q.e * t - q.f - q.b * s

def denom : K := q.a * q.e - q.b * q.b

structure Convex : Prop where
  square : ∀ x y, 0 ≤ q.a * x * x - 2 * q.b * x * y + q.e * y * y

structure Least : Prop where
  memS : s ∈ Set.Icc (0 : K) 1
  memT : t ∈ Set.Icc (0 : K) 1
  le : ∀ s' ∈ Set.Icc (0 : K) 1, ∀ t' ∈ Set.Icc (0 : K) 1, q.value s t ≤ q.value s' t'

omit [LinearOrder K] [IsStrictOrderedRing K] in
theorem value_eq (s' t' : K) : q.value s' t' = q.value s t + 2 * (q.slopeS s t * (s' - s)) +
    2 * (q.slopeT s t * (t' - t)) + (q.a * (s' - s) * (s' - s) - 2 * q.b * (s' - s) * (t' - t) +
      q.e * (t' - t) * (t' - t)) := by
  dsimp only [value, slopeS, slopeT]
  ring

variable {q s t}

theorem Least.of_settled (h : q.Convex) (hS : s ∈ Set.Icc (0 : K) 1) (hT : t ∈ Set.Icc (0 : K) 1)
    (hSlopeS : Settled s (q.slopeS s t)) (hSlopeT : Settled t (q.slopeT s t)) : q.Least s t where
  memS := hS
  memT := hT
  le s' hS' t' hT' := by
    have hSquare := h.square (s' - s) (t' - t)
    have hDownS := hSlopeS s' hS'
    have hDownT := hSlopeT t' hT'
    rw [q.value_eq s t s' t']
    linarith

theorem Least.settledS (hLeast : q.Least s t) : Settled s (q.slopeS s t) := by
  refine Settled.of_le (a := q.a) hLeast.memS fun y hY => ?_
  have hLe := hLeast.le y hY t hLeast.memT
  rw [q.value_eq s t y t] at hLe
  linarith

theorem Least.settledT (hLeast : q.Least s t) : Settled t (q.slopeT s t) := by
  refine Settled.of_le (a := q.e) hLeast.memT fun y hY => ?_
  have hLe := hLeast.le s hLeast.memS y hY
  rw [q.value_eq s t s y] at hLe
  linarith

/-- `s` solves for the first variable alone, before the second one has been chosen. -/
def Start (q : Quadratic K) (s : K) : Prop :=
  s ∈ Set.Icc (0 : K) 1 ∧ Settled s (q.denom * s - (q.b * q.f - q.c * q.e))

theorem least_inside (h : q.Convex) (he : 0 < q.e) (hStart : q.Start s)
    (hT : (q.b * s + q.f) / q.e ∈ Set.Icc (0 : K) 1) : q.Least s ((q.b * s + q.f) / q.e) := by
  have hMul : q.e * ((q.b * s + q.f) / q.e) = q.b * s + q.f := mul_div_cancel₀ _ he.ne'
  refine .of_settled h hStart.1 hT (Settled.of_mul he ?_) ?_
  · have hSlope : q.e * q.slopeS s ((q.b * s + q.f) / q.e) =
        q.denom * s - (q.b * q.f - q.c * q.e) := by
      dsimp only [slopeS, denom]
      linear_combination -q.b * hMul
    rw [hSlope]
    exact hStart.2
  · have hSlope : q.slopeT s ((q.b * s + q.f) / q.e) = 0 := by
      dsimp only [slopeT]
      linear_combination hMul
    rw [hSlope]
    exact Settled.flat _

/-- Where the second variable ends below its interval, the slope along it is still right after the
first one has been solved for again: else both variables would have moved together, against the
convexity. -/
theorem slopeT_nonneg (hDenom : 0 ≤ q.denom) (he : 0 < q.e) (hStart : q.Start s)
    (hOut : q.b * s + q.f < 0) {s' : K} (hMem : s' ∈ Set.Icc (0 : K) 1)
    (hAgain : Settled s' (q.slopeS s' 0)) : 0 ≤ q.slopeT s' 0 := by
  by_contra hNeg
  have hUp : 0 < q.b * s' + q.f := by
    dsimp only [slopeT] at hNeg
    linarith
  have hFirst := hStart.2 s' hMem
  have hSecond := mul_nonneg he.le (hAgain s hStart.1)
  dsimp only [slopeS, denom] at hFirst hSecond hDenom
  have hMoved : 0 < q.b * (s' - s) := by linarith
  have hSum : 0 ≤ -(q.a * q.e - q.b * q.b) * ((s' - s) * (s' - s)) -
      q.b * (s' - s) * (q.b * s' + q.f) := by linarith
  have hSquare := mul_nonneg hDenom (mul_self_nonneg (s' - s))
  have hProduct := mul_pos hMoved hUp
  linarith

theorem least_zero (h : q.Convex) (hDenom : 0 ≤ q.denom) (he : 0 < q.e) (hStart : q.Start s)
    (hOut : q.b * s + q.f < 0) {s' : K} (hMem : s' ∈ Set.Icc (0 : K) 1)
    (hAgain : Settled s' (q.slopeS s' 0)) : q.Least s' 0 :=
  .of_settled h hMem ⟨le_rfl, zero_le_one⟩ hAgain
    (Settled.zero_iff.mpr (slopeT_nonneg hDenom he hStart hOut hMem hAgain))

/-- The same quadratic with the second variable counted from the other end. -/
def flip (q : Quadratic K) : Quadratic K := ⟨q.a, -q.b, q.c - q.b, q.e, q.e - q.f⟩

omit [LinearOrder K] [IsStrictOrderedRing K] in
theorem flip_denom : q.flip.denom = q.denom := by
  dsimp only [flip, denom]
  ring

omit [LinearOrder K] [IsStrictOrderedRing K] in
theorem flip_slopeS : q.flip.slopeS s 0 = q.slopeS s 1 := by
  dsimp only [flip, slopeS]
  ring

omit [LinearOrder K] [IsStrictOrderedRing K] in
theorem flip_slopeT : q.flip.slopeT s 0 = -q.slopeT s 1 := by
  dsimp only [flip, slopeT]
  ring

omit [IsStrictOrderedRing K] in
theorem Start.flip (h : q.Start s) : q.flip.Start s := by
  refine ⟨h.1, ?_⟩
  rw [flip_denom]
  convert h.2 using 2
  dsimp only [Quadratic.flip]
  ring

theorem least_one (h : q.Convex) (hDenom : 0 ≤ q.denom) (he : 0 < q.e) (hStart : q.Start s)
    (hOut : q.e < q.b * s + q.f) {s' : K} (hMem : s' ∈ Set.Icc (0 : K) 1)
    (hAgain : Settled s' (q.slopeS s' 1)) : q.Least s' 1 := by
  have hFlipped : 0 ≤ q.flip.slopeT s' 0 := by
    have hDenom' : 0 ≤ q.flip.denom := by rwa [flip_denom]
    refine slopeT_nonneg hDenom' he hStart.flip ?_ hMem ?_
    · dsimp only [flip]
      linarith
    · rw [flip_slopeS]
      exact hAgain
  rw [flip_slopeT, neg_nonneg] at hFlipped
  exact .of_settled h hMem ⟨zero_le_one, le_rfl⟩ hAgain (Settled.one_iff.mpr hFlipped)

end Quadratic

end Calynda.Lib
