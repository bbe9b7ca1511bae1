import Calynda.Lib.UnitSquare
import Calynda.Math.Frustum

/-!
# Segments

Both libraries look for the closest points of two segments in the same way. The square of the
distance is a quadratic in the places of the two points, and the search is right where it starts
from a place that solves for the first of them.
-/

namespace Calynda

open Lib

variable {K : Type*} [Field K] [LinearOrder K]

def cmClampf (x lo hi : K) : K := if x < lo then lo else if x > hi then hi else x

/-- The numbers that the search takes from the two segments. -/
def segmentQuadratic (p0 p1 q0 q1 : CmVec3 K) : Quadratic K :=
  let d1 := cmVec3Sub p1 p0
  let d2 := cmVec3Sub q1 q0
  let r := cmVec3Sub p0 q0
  ⟨cmVec3Dot d1 d1, cmVec3Dot d1 d2, cmVec3Dot d1 r, cmVec3Dot d2 d2, cmVec3Dot d2 r⟩

/-- The place on the second segment closest to the place `s` on the first one. Where it is beyond
an end, it is that end, and the place on the first segment is looked for again. -/
def finishParams (q : Quadratic K) (s : K) : K × K :=
  let t := (q.b * s + q.f) / q.e
  if t < 0 then (cmClampf (-q.c / q.a) 0 1, 0)
  else if t > 1 then (cmClampf ((q.b - q.c) / q.a) 0 1, 1)
  else (s, t)

/-- The places on two segments of which at most one is a point. -/
def segmentParams (point skew : K → Bool) (q : Quadratic K) : K × K :=
  if point q.a then (0, cmClampf (q.f / q.e) 0 1)
  else if point q.e then (cmClampf (-q.c / q.a) 0 1, 0)
  else
    let denom := q.a * q.e - q.b * q.b
    finishParams q (if skew denom then cmClampf ((q.b * q.f - q.c * q.e) / denom) 0 1 else 0)

def segmentPoint (p0 p1 : CmVec3 K) (s : K) : CmVec3 K :=
  cmVec3Add p0 (cmVec3Scale (cmVec3Sub p1 p0) s)

/-- The search of both libraries. They differ in the squares of a length that they take for a point
and in the lines that they take for skew. -/
def closestSegments (point skew : K → Bool) (p0 p1 q0 q1 : CmVec3 K) : CmVec3 K × CmVec3 K :=
  let q := segmentQuadratic p0 p1 q0 q1
  if point q.a && point q.e then (p0, q0)
  else
    let st := segmentParams point skew q
    (segmentPoint p0 p1 st.1, segmentPoint q0 q1 st.2)

def cmClosestPointsSegments (a0 a1 b0 b1 : CmVec3 K) : CmVec3 K × CmVec3 K :=
  closestSegments (fun lengthSq => lengthSq < cmEpsilon) (fun denom => denom > cmEpsilon) a0 a1 b0 b1

/-! ## What the search is for -/

def OnSegment (p0 p1 x : CmVec3 K) : Prop := ∃ s ∈ Set.Icc (0 : K) 1, x = segmentPoint p0 p1 s

/-- The square of the distance, which is least where the distance is. -/
def distanceSq (x y : CmVec3 K) : K := cmVec3Dot (cmVec3Sub y x) (cmVec3Sub y x)

/-- A point of each segment, no further from each other than any two such points. -/
structure ClosestPair (p0 p1 q0 q1 : CmVec3 K) (pair : CmVec3 K × CmVec3 K) : Prop where
  first : OnSegment p0 p1 pair.1
  second : OnSegment q0 q1 pair.2
  le : ∀ x y, OnSegment p0 p1 x → OnSegment q0 q1 y → distanceSq pair.1 pair.2 ≤ distanceSq x y

/-- Of two lines that are taken for parallel, the start of the first segment is a right place to
start from: from the place on the second segment closest to it, or from the end that the place is
beyond, no step along either segment comes closer. -/
structure StartFits (q : Quadratic K) : Prop where
  before : q.f < 0 → q.c < 0 →
    (q.a ≤ -q.c → q.b + q.f ≤ 0) ∧ (-q.c < q.a → q.a * q.f ≤ q.b * q.c)
  inside : 0 ≤ q.f → q.f ≤ q.e → q.b * q.f ≤ q.c * q.e
  after : q.e < q.f → q.c < q.b →
    (q.a ≤ q.b - q.c → q.e ≤ q.b + q.f) ∧
    (q.b - q.c < q.a → q.a * (q.e - q.f) ≤ q.b * (q.b - q.c))

section Ordered

variable [IsStrictOrderedRing K]

theorem cmClampf_mem (v : K) : cmClampf v 0 1 ∈ Set.Icc (0 : K) 1 := by
  unfold cmClampf
  split_ifs with hLow hHigh
  · exact ⟨le_rfl, zero_le_one⟩
  · exact ⟨zero_le_one, le_rfl⟩
  · exact ⟨not_lt.mp hLow, not_lt.mp hHigh⟩

theorem cmClampf_settled {a : K} (ha : 0 < a) (z : K) :
    Settled (cmClampf (z / a) 0 1) (a * cmClampf (z / a) 0 1 - z) := by
  unfold cmClampf
  split_ifs with hLow hHigh
  · have hNeg : z < 0 := by simpa using (div_lt_iff₀ ha).mp hLow
    exact Settled.zero_iff.mpr (by linarith)
  · have hMore : a < z := by simpa using (lt_div_iff₀ ha).mp hHigh
    exact Settled.one_iff.mpr (by linarith)
  · rw [mul_div_cancel₀ _ ha.ne', sub_self]
    exact Settled.flat _

variable {q : Quadratic K}

/-- The place that both libraries look for again once the other one is an end. -/
theorem again_settled (ha : 0 < q.a) (t : K) :
    Settled (cmClampf ((q.b * t - q.c) / q.a) 0 1)
      (q.slopeS (cmClampf ((q.b * t - q.c) / q.a) 0 1) t) := by
  have hSlope : ∀ s, q.slopeS s t = q.a * s - (q.b * t - q.c) := by
    intro s
    dsimp only [Quadratic.slopeS]
    ring
  rw [hSlope]
  exact cmClampf_settled ha _

theorem again_settled_zero (ha : 0 < q.a) :
    Settled (cmClampf (-q.c / q.a) 0 1) (q.slopeS (cmClampf (-q.c / q.a) 0 1) 0) := by
  simpa using again_settled ha 0

theorem again_settled_one (ha : 0 < q.a) :
    Settled (cmClampf ((q.b - q.c) / q.a) 0 1) (q.slopeS (cmClampf ((q.b - q.c) / q.a) 0 1) 1) := by
  simpa using again_settled ha 1

theorem denom_nonneg (h : q.Convex) (ha : 0 < q.a) : 0 ≤ q.denom := by
  have hSquare := h.square q.b q.a
  have hMul : 0 ≤ q.a * q.denom := by
    dsimp only [Quadratic.denom]
    linarith
  exact nonneg_of_mul_nonneg_right hMul ha

/-- From a place that solves for the first segment the search ends at the closest points. -/
theorem finishParams_least (h : q.Convex) (ha : 0 < q.a) (he : 0 < q.e) {s : K} (hStart : q.Start s) :
    q.Least (finishParams q s).1 (finishParams q s).2 := by
  have hDenom := denom_nonneg h ha
  dsimp only [finishParams]
  split_ifs with hLow hHigh
  · have hOut : q.b * s + q.f < 0 := by simpa using (div_lt_iff₀ he).mp hLow
    exact Quadratic.least_zero h hDenom he hStart hOut (cmClampf_mem _) (again_settled_zero ha)
  · have hOut : q.e < q.b * s + q.f := by simpa using (lt_div_iff₀ he).mp hHigh
    exact Quadratic.least_one h hDenom he hStart hOut (cmClampf_mem _) (again_settled_one ha)
  · exact Quadratic.least_inside h he hStart ⟨not_lt.mp hLow, not_lt.mp hHigh⟩

theorem start_of_denom_pos (hDenom : 0 < q.denom) :
    q.Start (cmClampf ((q.b * q.f - q.c * q.e) / q.denom) 0 1) :=
  ⟨cmClampf_mem _, cmClampf_settled hDenom _⟩

theorem start_of_parallel (hDenom : q.denom = 0) (hParallel : q.b * q.f = q.c * q.e) :
    q.Start 0 := by
  refine ⟨⟨le_rfl, zero_le_one⟩, ?_⟩
  rw [hDenom, hParallel, sub_self, mul_zero, sub_zero]
  exact Settled.flat _

/-- The place that is looked for again, seen from the other segment. -/
theorem mul_cmClampf_le_iff {a b z w : K} (ha : 0 < a) (hW : w < 0) :
    b * cmClampf (z / a) 0 1 + w ≤ 0 ↔
      (0 < z → (a ≤ z → b + w ≤ 0) ∧ (z < a → a * w + b * z ≤ 0)) := by
  unfold cmClampf
  split_ifs with hLow hHigh
  · have hNeg : z < 0 := by simpa using (div_lt_iff₀ ha).mp hLow
    exact iff_of_true (by linarith) fun hPos => absurd hPos hNeg.not_gt
  · have hMore : a < z := by simpa using (lt_div_iff₀ ha).mp hHigh
    rw [mul_one]
    exact ⟨fun h _ => ⟨fun _ => h, fun hLess => absurd hLess hMore.not_gt⟩,
      fun h => (h (ha.trans hMore)).1 hMore.le⟩
  · have hNonneg : 0 ≤ z := by simpa using (le_div_iff₀ ha).mp (not_lt.mp hLow)
    have hAtMost : z ≤ a := by simpa using (div_le_iff₀ ha).mp (not_lt.mp hHigh)
    have hScaled : a * (b * (z / a) + w) = a * w + b * z := by
      linear_combination b * mul_div_cancel₀ z ha.ne'
    have hIff : b * (z / a) + w ≤ 0 ↔ a * w + b * z ≤ 0 := by
      rw [← hScaled]
      exact ⟨fun h => mul_nonpos_of_nonneg_of_nonpos ha.le h, fun h => nonpos_of_mul_nonpos_right h ha⟩
    rw [hIff]
    constructor
    · intro h _
      refine ⟨fun hLe => ?_, fun _ => h⟩
      rw [le_antisymm hAtMost hLe] at h
      exact nonpos_of_mul_nonpos_right (by linarith : a * (b + w) ≤ 0) ha
    · intro h
      rcases hNonneg.eq_or_lt with rfl | hPos
      · rw [mul_zero, add_zero]
        exact (mul_neg_of_pos_of_neg ha hW).le
      · rcases hAtMost.eq_or_lt with rfl | hLess
        · have hSum := mul_nonpos_of_nonneg_of_nonpos ha.le ((h hPos).1 le_rfl)
          linarith
        · exact (h hPos).2 hLess

theorem least_again_zero_iff (h : q.Convex) (ha : 0 < q.a) (hF : q.f < 0) :
    q.Least (cmClampf (-q.c / q.a) 0 1) 0 ↔ (q.c < 0 →
      (q.a ≤ -q.c → q.b + q.f ≤ 0) ∧ (-q.c < q.a → q.a * q.f ≤ q.b * q.c)) := by
  have hLeast : q.Least (cmClampf (-q.c / q.a) 0 1) 0 ↔
      q.b * cmClampf (-q.c / q.a) 0 1 + q.f ≤ 0 := by
    constructor
    · intro hBest
      have hSlope := Settled.zero_iff.mp hBest.settledT
      dsimp only [Quadratic.slopeT] at hSlope
      linarith
    · intro hLe
      refine .of_settled h (cmClampf_mem _) ⟨le_rfl, zero_le_one⟩ (again_settled_zero ha) ?_
      apply Settled.zero_iff.mpr
      dsimp only [Quadratic.slopeT]
      linarith
  have hBetween : q.a * q.f + q.b * -q.c ≤ 0 ↔ q.a * q.f ≤ q.b * q.c := by
    rw [mul_neg, ← sub_eq_add_neg, sub_nonpos]
  rw [hLeast, mul_cmClampf_le_iff ha hF, neg_pos, hBetween]

theorem least_again_one_iff (h : q.Convex) (ha : 0 < q.a) (hF : q.e < q.f) :
    q.Least (cmClampf ((q.b - q.c) / q.a) 0 1) 1 ↔ (q.c < q.b →
      (q.a ≤ q.b - q.c → q.e ≤ q.b + q.f) ∧
      (q.b - q.c < q.a → q.a * (q.e - q.f) ≤ q.b * (q.b - q.c))) := by
  have hLeast : q.Least (cmClampf ((q.b - q.c) / q.a) 0 1) 1 ↔
      -q.b * cmClampf ((q.b - q.c) / q.a) 0 1 + (q.e - q.f) ≤ 0 := by
    constructor
    · intro hBest
      have hSlope := Settled.one_iff.mp hBest.settledT
      dsimp only [Quadratic.slopeT] at hSlope
      linarith
    · intro hLe
      refine .of_settled h (cmClampf_mem _) ⟨zero_le_one, le_rfl⟩ (again_settled_one ha) ?_
      apply Settled.one_iff.mpr
      dsimp only [Quadratic.slopeT]
      linarith
  have hEnd : -q.b + (q.e - q.f) ≤ 0 ↔ q.e ≤ q.b + q.f := by
    constructor <;> intro hLe <;> linarith
  have hBetween : q.a * (q.e - q.f) + -q.b * (q.b - q.c) ≤ 0 ↔
      q.a * (q.e - q.f) ≤ q.b * (q.b - q.c) := by
    rw [neg_mul, ← sub_eq_add_neg, sub_nonpos]
  rw [hLeast, mul_cmClampf_le_iff ha (sub_neg.mpr hF), sub_pos, hEnd, hBetween]

theorem least_start_iff (h : q.Convex) (he : 0 < q.e) (hIn : q.f / q.e ∈ Set.Icc (0 : K) 1) :
    q.Least 0 (q.f / q.e) ↔ q.b * q.f ≤ q.c * q.e := by
  have hMul := mul_div_cancel₀ q.f he.ne'
  have hSlope : q.e * q.slopeS 0 (q.f / q.e) = q.c * q.e - q.b * q.f := by
    dsimp only [Quadratic.slopeS]
    linear_combination -q.b * hMul
  have hFlat : q.slopeT 0 (q.f / q.e) = 0 := by
    dsimp only [Quadratic.slopeT]
    linear_combination hMul
  constructor
  · intro hBest
    have hNonneg := mul_nonneg he.le (Settled.zero_iff.mp hBest.settledS)
    linarith
  · intro hLe
    refine .of_settled h ⟨le_rfl, zero_le_one⟩ hIn (Settled.of_mul he ?_) ?_
    · rw [hSlope]
      exact Settled.zero_iff.mpr (sub_nonneg.mpr hLe)
    · rw [hFlat]
      exact Settled.flat _

/-- From the start of the first segment the search ends at the closest points exactly if it is a
right place to start from. -/
theorem finishParams_zero_least_iff (h : q.Convex) (ha : 0 < q.a) (he : 0 < q.e) :
    q.Least (finishParams q 0).1 (finishParams q 0).2 ↔ StartFits q := by
  have hLowIff : q.f / q.e < 0 ↔ q.f < 0 := by rw [div_lt_iff₀ he, zero_mul]
  have hHighIff : q.f / q.e > 1 ↔ q.e < q.f := by rw [gt_iff_lt, lt_div_iff₀ he, one_mul]
  dsimp only [finishParams]
  rw [mul_zero, zero_add]
  split_ifs with hLow hHigh
  · have hF := hLowIff.mp hLow
    rw [least_again_zero_iff h ha hF]
    exact ⟨fun hFits => ⟨fun _ => hFits, fun hIn => absurd hF hIn.not_gt,
      fun hOver => absurd (hF.trans he) hOver.not_gt⟩, fun hFits => hFits.before hF⟩
  · have hF := hHighIff.mp hHigh
    rw [least_again_one_iff h ha hF]
    exact ⟨fun hFits => ⟨fun hNeg => absurd (he.trans hF) hNeg.not_gt,
      fun _ hIn => absurd hF hIn.not_gt, fun _ => hFits⟩, fun hFits => hFits.after hF⟩
  · have hNonneg : 0 ≤ q.f := not_lt.mp (mt hLowIff.mpr hLow)
    have hAtMost : q.f ≤ q.e := not_lt.mp (mt hHighIff.mpr hHigh)
    rw [least_start_iff h he ⟨not_lt.mp hLow, not_lt.mp hHigh⟩]
    exact ⟨fun hFits => ⟨fun hNeg => absurd hNeg hNonneg.not_gt, fun _ _ => hFits,
      fun hOver => absurd hOver hAtMost.not_gt⟩, fun hFits => hFits.inside hNonneg hAtMost⟩

/-! ## The quadratic of two segments -/

variable {p0 p1 q0 q1 : CmVec3 K}

omit [LinearOrder K] [IsStrictOrderedRing K] in
/-- The square of the distance of two points of the segments, by their places. -/
theorem distanceSq_segmentPoint (s t : K) :
    distanceSq (segmentPoint p0 p1 s) (segmentPoint q0 q1 t) =
      (segmentQuadratic p0 p1 q0 q1).value s t + distanceSq q0 p0 := by
  simp only [distanceSq, segmentPoint, segmentQuadratic, Quadratic.value, cmVec3Dot, cmVec3Add_x,
    cmVec3Add_y, cmVec3Add_z, cmVec3Sub_x, cmVec3Sub_y, cmVec3Sub_z, cmVec3Scale_x, cmVec3Scale_y,
    cmVec3Scale_z]
  ring

theorem cmVec3Dot_self_nonneg (v : CmVec3 K) : 0 ≤ cmVec3Dot v v :=
  add_nonneg (add_nonneg (mul_self_nonneg _) (mul_self_nonneg _)) (mul_self_nonneg _)

theorem cmVec3Dot_self_eq_zero {v : CmVec3 K} (h : cmVec3Dot v v = 0) : v = cmVec3Zero := by
  have hX := mul_self_nonneg v.x
  have hY := mul_self_nonneg v.y
  have hZ := mul_self_nonneg v.z
  dsimp only [cmVec3Dot] at h
  ext
  · exact mul_self_eq_zero.mp (by linarith)
  · exact mul_self_eq_zero.mp (by linarith)
  · exact mul_self_eq_zero.mp (by linarith)

omit [LinearOrder K] [IsStrictOrderedRing K] in
theorem cmVec3Dot_cross_self (u v : CmVec3 K) :
    cmVec3Dot (cmVec3Cross u v) (cmVec3Cross u v) =
      cmVec3Dot u u * cmVec3Dot v v - cmVec3Dot u v * cmVec3Dot u v := by
  simp only [cmVec3Dot, cmVec3Cross_x, cmVec3Cross_y, cmVec3Cross_z]
  ring

theorem segmentQuadratic_denom_nonneg (p0 p1 q0 q1 : CmVec3 K) :
    0 ≤ (segmentQuadratic p0 p1 q0 q1).denom := by
  have hCross := cmVec3Dot_self_nonneg (cmVec3Cross (cmVec3Sub p1 p0) (cmVec3Sub q1 q0))
  rw [cmVec3Dot_cross_self] at hCross
  exact hCross

/-- The square of the length of a sum of the two directions. -/
theorem segmentQuadratic_convex (p0 p1 q0 q1 : CmVec3 K) :
    (segmentQuadratic p0 p1 q0 q1).Convex := by
  refine ⟨fun x y => ?_⟩
  have hSquare := cmVec3Dot_self_nonneg
    (cmVec3Sub (cmVec3Scale (cmVec3Sub p1 p0) x) (cmVec3Scale (cmVec3Sub q1 q0) y))
  simp only [segmentQuadratic, cmVec3Dot, cmVec3Sub_x, cmVec3Sub_y, cmVec3Sub_z, cmVec3Scale_x,
    cmVec3Scale_y, cmVec3Scale_z] at hSquare ⊢
  linarith

omit [LinearOrder K] [IsStrictOrderedRing K] in
theorem cmVec3Dot_zero_left (v : CmVec3 K) : cmVec3Dot cmVec3Zero v = 0 := by
  simp [cmVec3Dot]

omit [LinearOrder K] [IsStrictOrderedRing K] in
theorem cmVec3Dot_comm (a b : CmVec3 K) : cmVec3Dot a b = cmVec3Dot b a := by
  dsimp only [cmVec3Dot]
  ring

/-- Parallel lines meet a third direction in the same ratio. -/
theorem segmentQuadratic_parallel (h : (segmentQuadratic p0 p1 q0 q1).denom = 0) :
    (segmentQuadratic p0 p1 q0 q1).b * (segmentQuadratic p0 p1 q0 q1).f =
      (segmentQuadratic p0 p1 q0 q1).c * (segmentQuadratic p0 p1 q0 q1).e := by
  set d1 := cmVec3Sub p1 p0 with hD1
  set d2 := cmVec3Sub q1 q0 with hD2
  set r := cmVec3Sub p0 q0 with hR
  have hDenom : cmVec3Dot d1 d1 * cmVec3Dot d2 d2 - cmVec3Dot d1 d2 * cmVec3Dot d1 d2 = 0 := h
  let v := cmVec3Sub (cmVec3Scale d1 (cmVec3Dot d2 d2)) (cmVec3Scale d2 (cmVec3Dot d1 d2))
  have hSquare : cmVec3Dot v v = cmVec3Dot d2 d2 *
      (cmVec3Dot d1 d1 * cmVec3Dot d2 d2 - cmVec3Dot d1 d2 * cmVec3Dot d1 d2) := by
    simp only [v, cmVec3Dot, cmVec3Sub_x, cmVec3Sub_y, cmVec3Sub_z, cmVec3Scale_x, cmVec3Scale_y,
      cmVec3Scale_z]
    ring
  rw [hDenom, mul_zero] at hSquare
  have hAlong : cmVec3Dot v r = cmVec3Dot d1 r * cmVec3Dot d2 d2 -
      cmVec3Dot d1 d2 * cmVec3Dot d2 r := by
    simp only [v, cmVec3Dot, cmVec3Sub_x, cmVec3Sub_y, cmVec3Sub_z, cmVec3Scale_x, cmVec3Scale_y,
      cmVec3Scale_z]
    ring
  rw [cmVec3Dot_self_eq_zero hSquare, cmVec3Dot_zero_left] at hAlong
  exact (sub_eq_zero.mp hAlong.symm).symm

theorem segmentQuadratic_a (p0 p1 q0 q1 : CmVec3 K)
    (h : (segmentQuadratic p0 p1 q0 q1).a = 0) :
    (segmentQuadratic p0 p1 q0 q1).b = 0 ∧ (segmentQuadratic p0 p1 q0 q1).c = 0 := by
  have hZero : cmVec3Sub p1 p0 = cmVec3Zero := cmVec3Dot_self_eq_zero h
  dsimp only [segmentQuadratic]
  rw [hZero, cmVec3Dot_zero_left, cmVec3Dot_zero_left]
  exact ⟨rfl, rfl⟩

theorem segmentQuadratic_e (p0 p1 q0 q1 : CmVec3 K)
    (h : (segmentQuadratic p0 p1 q0 q1).e = 0) :
    (segmentQuadratic p0 p1 q0 q1).b = 0 ∧ (segmentQuadratic p0 p1 q0 q1).f = 0 := by
  have hZero : cmVec3Sub q1 q0 = cmVec3Zero := cmVec3Dot_self_eq_zero h
  dsimp only [segmentQuadratic]
  rw [hZero, cmVec3Dot_comm, cmVec3Dot_zero_left, cmVec3Dot_zero_left]
  exact ⟨rfl, rfl⟩

omit [IsStrictOrderedRing K] in
theorem segmentPoint_mem {s : K} (h : s ∈ Set.Icc (0 : K) 1) :
    OnSegment p0 p1 (segmentPoint p0 p1 s) := ⟨s, h, rfl⟩

omit [LinearOrder K] [IsStrictOrderedRing K] in
theorem segmentPoint_zero (p0 p1 : CmVec3 K) : segmentPoint p0 p1 0 = p0 := by
  ext <;> simp [segmentPoint, cmVec3Add, cmVec3Scale]

/-- The points at two places are closest exactly if the quadratic is least there. -/
theorem closestPair_iff {s t : K} (hS : s ∈ Set.Icc (0 : K) 1) (hT : t ∈ Set.Icc (0 : K) 1) :
    ClosestPair p0 p1 q0 q1 (segmentPoint p0 p1 s, segmentPoint q0 q1 t) ↔
      (segmentQuadratic p0 p1 q0 q1).Least s t := by
  constructor
  · intro h
    refine ⟨hS, hT, fun s' hS' t' hT' => ?_⟩
    have hLe := h.le _ _ (segmentPoint_mem hS') (segmentPoint_mem hT')
    rw [distanceSq_segmentPoint, distanceSq_segmentPoint] at hLe
    exact le_of_add_le_add_right hLe
  · intro h
    refine ⟨segmentPoint_mem hS, segmentPoint_mem hT, ?_⟩
    rintro x y ⟨s', hS', rfl⟩ ⟨t', hT', rfl⟩
    rw [distanceSq_segmentPoint, distanceSq_segmentPoint]
    exact add_le_add_left (h.le s' hS' t' hT') _

/-! ## Where the search is right -/

theorem finishParams_mem (q : Quadratic K) {s : K} (hS : s ∈ Set.Icc (0 : K) 1) :
    (finishParams q s).1 ∈ Set.Icc (0 : K) 1 ∧ (finishParams q s).2 ∈ Set.Icc (0 : K) 1 := by
  dsimp only [finishParams]
  split_ifs with hLow hHigh
  · exact ⟨cmClampf_mem _, le_rfl, zero_le_one⟩
  · exact ⟨cmClampf_mem _, zero_le_one, le_rfl⟩
  · exact ⟨hS, not_lt.mp hLow, not_lt.mp hHigh⟩

/-- The segments of which the search is right: one of them is a point, their lines are taken for
skew, or the start of the first one fits. -/
def SearchFits (skew : K → Bool) (q : Quadratic K) : Prop :=
  q.a = 0 ∨ q.e = 0 ∨ skew q.denom = true ∨ StartFits q

/-- The tests of a search tell these segments apart. -/
structure Resolves (point skew : K → Bool) (q : Quadratic K) : Prop where
  first : point q.a = true ↔ q.a = 0
  second : point q.e = true ↔ q.e = 0
  skew : skew q.denom = true → 0 < q.denom

variable {point skew : K → Bool}

theorem closestSegments_of_point (hResolves : Resolves point skew (segmentQuadratic p0 p1 q0 q1))
    (hPoint : (segmentQuadratic p0 p1 q0 q1).a = 0 ∨ (segmentQuadratic p0 p1 q0 q1).e = 0) :
    ClosestPair p0 p1 q0 q1 (closestSegments point skew p0 p1 q0 q1) := by
  have hConvex := segmentQuadratic_convex p0 p1 q0 q1
  have hA := segmentQuadratic_a p0 p1 q0 q1
  have hE := segmentQuadratic_e p0 p1 q0 q1
  have hEnd : (0 : K) ∈ Set.Icc (0 : K) 1 := ⟨le_rfl, zero_le_one⟩
  have hPosA : 0 ≤ (segmentQuadratic p0 p1 q0 q1).a := cmVec3Dot_self_nonneg _
  have hPosE : 0 ≤ (segmentQuadratic p0 p1 q0 q1).e := cmVec3Dot_self_nonneg _
  dsimp only [closestSegments, segmentParams]
  generalize hQ : segmentQuadratic p0 p1 q0 q1 = q at *
  have hClosest : ∀ {s t : K}, s ∈ Set.Icc (0 : K) 1 → t ∈ Set.Icc (0 : K) 1 →
      Settled s (q.slopeS s t) → Settled t (q.slopeT s t) →
      ClosestPair p0 p1 q0 q1 (segmentPoint p0 p1 s, segmentPoint q0 q1 t) := by
    intro s t hS hT hSlopeS hSlopeT
    rw [closestPair_iff hS hT, hQ]
    exact .of_settled hConvex hS hT hSlopeS hSlopeT
  by_cases hZeroA : q.a = 0 <;> by_cases hZeroE : q.e = 0
  · have hBoth : (point q.a && point q.e) = true := by
      rw [Bool.and_eq_true, hResolves.first, hResolves.second]
      exact ⟨hZeroA, hZeroE⟩
    have hStarts := hClosest hEnd hEnd (by simp [Quadratic.slopeS, hZeroA, hA hZeroA, Settled.flat])
      (by simp [Quadratic.slopeT, hZeroE, hE hZeroE, Settled.flat])
    rw [segmentPoint_zero, segmentPoint_zero] at hStarts
    rw [if_pos hBoth]
    exact hStarts
  · have hFirst : point q.a = true := hResolves.first.mpr hZeroA
    have hSecond : point q.e = false := Bool.eq_false_iff.mpr (mt hResolves.second.mp hZeroE)
    rw [hFirst, hSecond, if_pos rfl, Bool.and_false, if_neg Bool.false_ne_true]
    refine hClosest hEnd (cmClampf_mem _) (by simp [Quadratic.slopeS, hZeroA, hA hZeroA, Settled.flat]) ?_
    have hSettled := cmClampf_settled (lt_of_le_of_ne hPosE (Ne.symm hZeroE)) q.f
    dsimp only [Quadratic.slopeT]
    rw [(hA hZeroA).1, zero_mul, sub_zero]
    exact hSettled
  · have hFirst : point q.a = false := Bool.eq_false_iff.mpr (mt hResolves.first.mp hZeroA)
    have hSecond : point q.e = true := hResolves.second.mpr hZeroE
    rw [hFirst, hSecond, Bool.false_and, if_neg Bool.false_ne_true, if_neg Bool.false_ne_true,
      if_pos rfl]
    refine hClosest (cmClampf_mem _) hEnd (again_settled_zero (lt_of_le_of_ne hPosA (Ne.symm hZeroA))) ?_
    simp [Quadratic.slopeT, hZeroE, hE hZeroE, Settled.flat]
  · exact absurd hPoint (by simp [hZeroA, hZeroE])

/-- The search ends at the closest points exactly if it fits the segments. -/
theorem closestSegments_iff (hResolves : Resolves point skew (segmentQuadratic p0 p1 q0 q1)) :
    ClosestPair p0 p1 q0 q1 (closestSegments point skew p0 p1 q0 q1) ↔
      SearchFits skew (segmentQuadratic p0 p1 q0 q1) := by
  by_cases hPoint : (segmentQuadratic p0 p1 q0 q1).a = 0 ∨ (segmentQuadratic p0 p1 q0 q1).e = 0
  · exact iff_of_true (closestSegments_of_point hResolves hPoint)
      (or_assoc.mp (Or.inl hPoint))
  · obtain ⟨hZeroA, hZeroE⟩ := not_or.mp hPoint
    have hConvex := segmentQuadratic_convex p0 p1 q0 q1
    have hA : 0 < (segmentQuadratic p0 p1 q0 q1).a :=
      lt_of_le_of_ne (cmVec3Dot_self_nonneg _) (Ne.symm hZeroA)
    have hE : 0 < (segmentQuadratic p0 p1 q0 q1).e :=
      lt_of_le_of_ne (cmVec3Dot_self_nonneg _) (Ne.symm hZeroE)
    have hFirst := Bool.eq_false_iff.mpr (mt hResolves.first.mp hZeroA)
    have hSecond := Bool.eq_false_iff.mpr (mt hResolves.second.mp hZeroE)
    have hEnd : (0 : K) ∈ Set.Icc (0 : K) 1 := ⟨le_rfl, zero_le_one⟩
    simp only [closestSegments, segmentParams, hFirst, hSecond, Bool.false_and, Bool.false_eq_true,
      if_false]
    have hDenom : (segmentQuadratic p0 p1 q0 q1).a * (segmentQuadratic p0 p1 q0 q1).e -
      (segmentQuadratic p0 p1 q0 q1).b * (segmentQuadratic p0 p1 q0 q1).b =
        (segmentQuadratic p0 p1 q0 q1).denom := rfl
    rw [hDenom, SearchFits]
    cases hSkew : skew (segmentQuadratic p0 p1 q0 q1).denom with
    | true =>
      have hStart := start_of_denom_pos (hResolves.skew hSkew)
      have hMem := finishParams_mem (segmentQuadratic p0 p1 q0 q1) hStart.1
      simp only [if_true]
      rw [closestPair_iff hMem.1 hMem.2]
      exact iff_of_true (finishParams_least hConvex hA hE hStart) (Or.inr (Or.inr (Or.inl trivial)))
    | false =>
      have hMem := finishParams_mem (segmentQuadratic p0 p1 q0 q1) hEnd
      simp only [Bool.false_eq_true, if_false, hZeroA, hZeroE, false_or]
      rw [closestPair_iff hMem.1 hMem.2]
      exact finishParams_zero_least_iff hConvex hA hE

/-- Lines that are parallel fit a search that takes them so. -/
theorem startFits_of_parallel (hA : 0 < (segmentQuadratic p0 p1 q0 q1).a)
    (hE : 0 < (segmentQuadratic p0 p1 q0 q1).e) (h : (segmentQuadratic p0 p1 q0 q1).denom = 0) :
    StartFits (segmentQuadratic p0 p1 q0 q1) := by
  have hConvex := segmentQuadratic_convex p0 p1 q0 q1
  exact (finishParams_zero_least_iff hConvex hA hE).mp
    (finishParams_least hConvex hA hE (start_of_parallel h (segmentQuadratic_parallel h)))

end Ordered

/-! ## Capsules -/

structure CmCapsule (K : Type*) where
  a : CmVec3 K
  b : CmVec3 K
  radius : K
  deriving DecidableEq

structure CmContact (K : Type*) where
  point : CmVec3 K
  normal : CmVec3 K
  depth : K
  hit : Bool
  deriving DecidableEq

def cmVec3Up : CmVec3 K := ⟨0, 1, 0⟩

/-- Nothing where the function returns false, else what it writes into `out`. -/
def cmCapsuleVsCapsule (sqrt : K → K) (a b : CmCapsule K) : Option (CmContact K) :=
  let pair := cmClosestPointsSegments a.a a.b b.a b.b
  let diff := cmVec3Sub pair.2 pair.1
  let distSq := cmVec3Dot diff diff
  let rSum := a.radius + b.radius
  if distSq > rSum * rSum then none
  else
    let dist := sqrt distSq
    let normal := if dist < cmEpsilon then cmVec3Up else cmVec3Scale diff (1 / dist)
    some ⟨cmVec3Add pair.1 (cmVec3Scale normal a.radius), normal, rSum - dist, true⟩

/-- The points no further from the segment than the radius. -/
def CmCapsule.Contains (c : CmCapsule K) (z : CmVec3 K) : Prop :=
  ∃ x, OnSegment c.a c.b x ∧ distanceSq x z ≤ c.radius * c.radius

section Ordered

variable [IsStrictOrderedRing K]

/-- Two balls have a common point exactly if their centres are no further apart than the sum of
their radii. -/
theorem balls_meet_iff {rA rB : K} (hA : 0 ≤ rA) (hB : 0 ≤ rB) (x y : CmVec3 K) :
    (∃ z, distanceSq x z ≤ rA * rA ∧ distanceSq y z ≤ rB * rB) ↔
      distanceSq x y ≤ (rA + rB) * (rA + rB) := by
  constructor
  · rintro ⟨z, hX, hY⟩
    set u := cmVec3Sub z x with hU
    set v := cmVec3Sub z y with hV
    have hCauchy : cmVec3Dot u v * cmVec3Dot u v ≤ cmVec3Dot u u * cmVec3Dot v v := by
      have hCross := cmVec3Dot_self_nonneg (cmVec3Cross u v)
      rw [cmVec3Dot_cross_self] at hCross
      exact sub_nonneg.mp hCross
    have hRadii : cmVec3Dot u u * cmVec3Dot v v ≤ rA * rA * (rB * rB) :=
      mul_le_mul hX hY (cmVec3Dot_self_nonneg v) (mul_self_nonneg rA)
    have hBound : |cmVec3Dot u v| ≤ rA * rB := by
      refine abs_le_of_sq_le_sq ?_ (mul_nonneg hA hB)
      linarith
    have hSplit : distanceSq x y = cmVec3Dot u u - 2 * cmVec3Dot u v + cmVec3Dot v v := by
      simp only [distanceSq, hU, hV, cmVec3Dot, cmVec3Sub_x, cmVec3Sub_y, cmVec3Sub_z]
      ring
    have hLower := (abs_le.mp hBound).1
    have hX' : cmVec3Dot u u ≤ rA * rA := hX
    have hY' : cmVec3Dot v v ≤ rB * rB := hY
    rw [hSplit]
    linarith
  · intro hNear
    rcases (add_nonneg hA hB).eq_or_lt with hZero | hPos
    · refine ⟨x, ?_, ?_⟩
      · have hSelf : distanceSq x x = 0 := by simp [distanceSq, cmVec3Dot, cmVec3Sub]
        rw [hSelf]
        exact mul_self_nonneg rA
      · have hSwap : distanceSq y x = distanceSq x y := by
          simp only [distanceSq, cmVec3Dot, cmVec3Sub_x, cmVec3Sub_y, cmVec3Sub_z]
          ring
        rw [hSwap]
        refine hNear.trans ?_
        rw [← hZero, mul_zero]
        exact mul_self_nonneg rB
    · have hScale : ∀ r, r / (rA + rB) * (r / (rA + rB)) * distanceSq x y ≤ r * r := by
        intro r
        calc r / (rA + rB) * (r / (rA + rB)) * distanceSq x y
          _ ≤ r / (rA + rB) * (r / (rA + rB)) * ((rA + rB) * (rA + rB)) :=
              mul_le_mul_of_nonneg_left hNear (mul_self_nonneg _)
          _ = r / (rA + rB) * (rA + rB) * (r / (rA + rB) * (rA + rB)) := by ring
          _ = r * r := by rw [div_mul_cancel₀ r hPos.ne']
      refine ⟨segmentPoint x y (rA / (rA + rB)), ?_, ?_⟩
      · refine le_trans (le_of_eq ?_) (hScale rA)
        simp only [distanceSq, segmentPoint, cmVec3Dot, cmVec3Add_x, cmVec3Add_y, cmVec3Add_z,
          cmVec3Sub_x, cmVec3Sub_y, cmVec3Sub_z, cmVec3Scale_x, cmVec3Scale_y, cmVec3Scale_z]
        ring
      · refine le_trans (le_of_eq ?_) (hScale rB)
        have hRest : rB / (rA + rB) = 1 - rA / (rA + rB) := by
          rw [eq_sub_iff_add_eq, ← add_div, add_comm rB, div_self hPos.ne']
        rw [hRest]
        simp only [distanceSq, segmentPoint, cmVec3Dot, cmVec3Add_x, cmVec3Add_y, cmVec3Add_z,
          cmVec3Sub_x, cmVec3Sub_y, cmVec3Sub_z, cmVec3Scale_x, cmVec3Scale_y, cmVec3Scale_z]
        ring

/-- Two capsules have a common point exactly if the closest points of their segments are no further
apart than the sum of their radii. -/
theorem capsules_meet_iff {a b : CmCapsule K} (hA : 0 ≤ a.radius) (hB : 0 ≤ b.radius)
    {pair : CmVec3 K × CmVec3 K} (h : ClosestPair a.a a.b b.a b.b pair) :
    (∃ z, a.Contains z ∧ b.Contains z) ↔
      distanceSq pair.1 pair.2 ≤ (a.radius + b.radius) * (a.radius + b.radius) := by
  constructor
  · rintro ⟨z, ⟨x, hX, hNearX⟩, y, hY, hNearY⟩
    exact (h.le x y hX hY).trans ((balls_meet_iff hA hB x y).mp ⟨z, hNearX, hNearY⟩)
  · intro hNear
    obtain ⟨z, hNearX, hNearY⟩ := (balls_meet_iff hA hB _ _).mpr hNear
    exact ⟨z, ⟨pair.1, h.first, hNearX⟩, pair.2, h.second, hNearY⟩

omit [IsStrictOrderedRing K] in
theorem cmCapsuleVsCapsule_isSome (sqrt : K → K) (a b : CmCapsule K) :
    (cmCapsuleVsCapsule sqrt a b).isSome ↔
      distanceSq (cmClosestPointsSegments a.a a.b b.a b.b).1
        (cmClosestPointsSegments a.a a.b b.a b.b).2 ≤
          (a.radius + b.radius) * (a.radius + b.radius) := by
  dsimp only [cmCapsuleVsCapsule, distanceSq]
  split_ifs with hFar hFlat
  · exact iff_of_false Bool.false_ne_true hFar.not_ge
  · exact iff_of_true rfl (not_lt.mp hFar)
  · exact iff_of_true rfl (not_lt.mp hFar)

end Ordered

end Calynda
