import Calynda.Math.Segments

/-!
# Convex cores

Two convex sets of points and a pair of closest points of them. The direction from one to the other
supports both sets, so that moving one set along it brings all of its points away from the other.
-/

namespace Calynda

open Lib

variable {K : Type*} [Field K] [LinearOrder K]

/-- A set that contains the segments between its points. -/
def ConvexCore (A : Set (CmVec3 K)) : Prop :=
  ∀ x ∈ A, ∀ y ∈ A, ∀ s ∈ Set.Icc (0 : K) 1, segmentPoint x y s ∈ A

structure ClosestIn (A B : Set (CmVec3 K)) (x y : CmVec3 K) : Prop where
  first : x ∈ A
  second : y ∈ B
  le : ∀ x' ∈ A, ∀ y' ∈ B, distanceSq x y ≤ distanceSq x' y'

/-- From the first set to the second one it is at least `m` along `n`. -/
def Supports (A B : Set (CmVec3 K)) (n : CmVec3 K) (m : K) : Prop :=
  ∀ x ∈ A, ∀ y ∈ B, m ≤ cmVec3Dot (cmVec3Sub y x) n

/-- With the second set moved by `v` no two points are nearer than `r`. -/
def ClearOf (A B : Set (CmVec3 K)) (v : CmVec3 K) (r : K) : Prop :=
  ∀ x ∈ A, ∀ y ∈ B,
    r * r ≤ cmVec3Dot (cmVec3Add (cmVec3Sub y x) v) (cmVec3Add (cmVec3Sub y x) v)

section Ordered

variable [IsStrictOrderedRing K] {A B : Set (CmVec3 K)} {x y n : CmVec3 K} {m r : K}

omit [LinearOrder K] [IsStrictOrderedRing K] in
/-- The square of a sum, with the shares of both parts. -/
theorem cmVec3Dot_segment (d z : CmVec3 K) (s : K) :
    cmVec3Dot (cmVec3Add d (cmVec3Scale (cmVec3Sub z d) s))
      (cmVec3Add d (cmVec3Scale (cmVec3Sub z d) s)) =
    cmVec3Dot d d + s * (2 * cmVec3Dot d (cmVec3Sub z d) +
      cmVec3Dot (cmVec3Sub z d) (cmVec3Sub z d) * s) := by
  simp only [cmVec3Dot, cmVec3Add_x, cmVec3Add_y, cmVec3Add_z, cmVec3Sub_x, cmVec3Sub_y,
    cmVec3Sub_z, cmVec3Scale_x, cmVec3Scale_y, cmVec3Scale_z]
  ring

/-- A direction in which the way from `d` to `z` first does not come nearer to the origin. -/
theorem dot_nonneg_of_segment {d z : CmVec3 K}
    (h : ∀ s ∈ Set.Icc (0 : K) 1, cmVec3Dot d d ≤
      cmVec3Dot (cmVec3Add d (cmVec3Scale (cmVec3Sub z d) s))
        (cmVec3Add d (cmVec3Scale (cmVec3Sub z d) s))) :
    0 ≤ cmVec3Dot d (cmVec3Sub z d) := by
  apply Settled.zero_iff.mp
  refine Settled.of_le (a := cmVec3Dot (cmVec3Sub z d) (cmVec3Sub z d)) ⟨le_rfl, zero_le_one⟩ ?_
  intro s hS
  have hLe := h s hS
  rw [cmVec3Dot_segment] at hLe
  rw [sub_zero]
  linarith

omit [IsStrictOrderedRing K] in
/-- The points between two differences of points are such differences again. -/
theorem difference_segment (hA : ConvexCore A) (hB : ConvexCore B) {x' y' : CmVec3 K}
    (hX : x ∈ A) (hY : y ∈ B) (hX' : x' ∈ A) (hY' : y' ∈ B) {s : K} (hS : s ∈ Set.Icc (0 : K) 1) :
    ∃ a ∈ A, ∃ b ∈ B, cmVec3Sub b a = cmVec3Add (cmVec3Sub y x)
      (cmVec3Scale (cmVec3Sub (cmVec3Sub y' x') (cmVec3Sub y x)) s) := by
  refine ⟨segmentPoint x x' s, hA x hX x' hX' s hS, segmentPoint y y' s, hB y hY y' hY' s hS, ?_⟩
  ext
  · simp only [segmentPoint, cmVec3Add_x, cmVec3Sub_x, cmVec3Scale_x]
    ring
  · simp only [segmentPoint, cmVec3Add_y, cmVec3Sub_y, cmVec3Scale_y]
    ring
  · simp only [segmentPoint, cmVec3Add_z, cmVec3Sub_z, cmVec3Scale_z]
    ring

omit [LinearOrder K] [IsStrictOrderedRing K] in
theorem cmVec3Dot_sub_right (a b c : CmVec3 K) :
    cmVec3Dot a (cmVec3Sub b c) = cmVec3Dot a b - cmVec3Dot a c := by
  simp only [cmVec3Dot, cmVec3Sub_x, cmVec3Sub_y, cmVec3Sub_z]
  ring

omit [LinearOrder K] [IsStrictOrderedRing K] in
theorem cmVec3Dot_scale_right (a b : CmVec3 K) (s : K) :
    cmVec3Dot a (cmVec3Scale b s) = cmVec3Dot a b * s := by
  simp only [cmVec3Dot, cmVec3Scale_x, cmVec3Scale_y, cmVec3Scale_z]
  ring

omit [LinearOrder K] [IsStrictOrderedRing K] in
theorem cmVec3Dot_add_self (a b : CmVec3 K) :
    cmVec3Dot (cmVec3Add a b) (cmVec3Add a b) =
      cmVec3Dot a a + 2 * cmVec3Dot a b + cmVec3Dot b b := by
  simp only [cmVec3Dot, cmVec3Add_x, cmVec3Add_y, cmVec3Add_z]
  ring

/-- The direction between closest points supports both sets. -/
theorem ClosestIn.supports (hA : ConvexCore A) (hB : ConvexCore B) (h : ClosestIn A B x y)
    {dist : K} (hPos : 0 < dist) (hDist : dist * dist = distanceSq x y) :
    Supports A B (cmVec3Scale (cmVec3Sub y x) (1 / dist)) dist := by
  intro x' hX' y' hY'
  have hNonneg : 0 ≤ cmVec3Dot (cmVec3Sub y x) (cmVec3Sub (cmVec3Sub y' x') (cmVec3Sub y x)) := by
    refine dot_nonneg_of_segment fun s hS => ?_
    obtain ⟨a, hMemA, b, hMemB, hEq⟩ := difference_segment hA hB h.first h.second hX' hY' hS
    rw [← hEq]
    exact h.le a hMemA b hMemB
  rw [cmVec3Dot_sub_right, sub_nonneg] at hNonneg
  have hSquare : dist * dist ≤ cmVec3Dot (cmVec3Sub y x) (cmVec3Sub y' x') :=
    hDist.le.trans hNonneg
  rw [cmVec3Dot_scale_right, cmVec3Dot_comm, mul_one_div, le_div_iff₀ hPos]
  exact hSquare

/-- Moved along a supporting direction of length one the sets are clear of each other. -/
theorem Supports.clear (h : Supports A B n m) (hUnit : cmVec3Dot n n = 1) (hR : 0 ≤ r) :
    ClearOf A B (cmVec3Scale n (r - m)) r := by
  intro x hX y hY
  set z := cmVec3Add (cmVec3Sub y x) (cmVec3Scale n (r - m)) with hZ
  have hAlong : r ≤ cmVec3Dot z n := by
    have hDot : cmVec3Dot z n = cmVec3Dot (cmVec3Sub y x) n + cmVec3Dot n n * (r - m) := by
      simp only [hZ, cmVec3Dot, cmVec3Add_x, cmVec3Add_y, cmVec3Add_z, cmVec3Scale_x,
        cmVec3Scale_y, cmVec3Scale_z]
      ring
    have hSupported := h x hX y hY
    rw [hDot, hUnit]
    linarith
  have hCross := cmVec3Dot_self_nonneg (cmVec3Cross z n)
  rw [cmVec3Dot_cross_self, hUnit, mul_one, sub_nonneg] at hCross
  exact (mul_self_le_mul_self hR hAlong).trans hCross

/-- The other way: a direction of length one that clears the sets supports them. -/
theorem ClearOf.supports (hA : ConvexCore A) (hB : ConvexCore B) (h : ClosestIn A B x y)
    (hUnit : cmVec3Dot n n = 1) (hM : 0 ≤ m) (hDist : m * m = distanceSq x y) (hLess : m < r)
    (hClear : ClearOf A B (cmVec3Scale n (r - m)) r) : Supports A B n m := by
  set d := cmVec3Sub y x with hD
  have hDotD : cmVec3Dot d d = m * m := hDist.symm
  -- the triangle inequality for `d` and the way it is moved is an equality
  have hAlong : m ≤ cmVec3Dot d n := by
    have hOwn := hClear x h.first y h.second
    rw [cmVec3Dot_add_self, cmVec3Dot_scale_right, ← hD, hDotD] at hOwn
    have hScaled : cmVec3Dot (cmVec3Scale n (r - m)) (cmVec3Scale n (r - m)) =
        cmVec3Dot n n * ((r - m) * (r - m)) := by
      simp only [cmVec3Dot, cmVec3Scale_x, cmVec3Scale_y, cmVec3Scale_z]
      ring
    rw [hScaled, hUnit] at hOwn
    have hMul : 0 ≤ (r - m) * (cmVec3Dot d n - m) := by linarith
    exact sub_nonneg.mp (nonneg_of_mul_nonneg_right hMul (sub_pos.mpr hLess))
  have hSame : cmVec3Sub d (cmVec3Scale n m) = cmVec3Zero := by
    apply cmVec3Dot_self_eq_zero
    have hSquare : cmVec3Dot (cmVec3Sub d (cmVec3Scale n m)) (cmVec3Sub d (cmVec3Scale n m)) =
        cmVec3Dot d d - 2 * (cmVec3Dot d n * m) + cmVec3Dot n n * (m * m) := by
      simp only [cmVec3Dot, cmVec3Sub_x, cmVec3Sub_y, cmVec3Sub_z, cmVec3Scale_x, cmVec3Scale_y,
        cmVec3Scale_z]
      ring
    refine le_antisymm ?_ (cmVec3Dot_self_nonneg _)
    rw [hSquare, hDotD, hUnit]
    have hMul := mul_le_mul_of_nonneg_right hAlong hM
    linarith
  have hEq : d = cmVec3Scale n m := sub_eq_zero.mp hSame
  intro x' hX' y' hY'
  -- towards any other difference the moved one does not come nearer to the origin
  have hNonneg : 0 ≤ cmVec3Dot (cmVec3Scale n r) (cmVec3Sub (cmVec3Sub y' x') d) := by
    have hShift : cmVec3Sub (cmVec3Add (cmVec3Sub y' x') (cmVec3Scale n (r - m)))
        (cmVec3Scale n r) = cmVec3Sub (cmVec3Sub y' x') d := by
      rw [hEq]
      ext
      · simp only [cmVec3Sub_x, cmVec3Add_x, cmVec3Scale_x]
        ring
      · simp only [cmVec3Sub_y, cmVec3Add_y, cmVec3Scale_y]
        ring
      · simp only [cmVec3Sub_z, cmVec3Add_z, cmVec3Scale_z]
        ring
    rw [← hShift]
    refine dot_nonneg_of_segment fun s hS => ?_
    obtain ⟨a, hMemA, b, hMemB, hBetween⟩ := difference_segment hA hB h.first h.second hX' hY' hS
    have hFar := hClear a hMemA b hMemB
    have hRadius : cmVec3Dot (cmVec3Scale n r) (cmVec3Scale n r) = r * r := by
      have hFactor : cmVec3Dot (cmVec3Scale n r) (cmVec3Scale n r) = cmVec3Dot n n * (r * r) := by
        simp only [cmVec3Dot, cmVec3Scale_x, cmVec3Scale_y, cmVec3Scale_z]
        ring
      rw [hFactor, hUnit, one_mul]
    have hPoint : cmVec3Add (cmVec3Sub b a) (cmVec3Scale n (r - m)) =
        cmVec3Add (cmVec3Scale n r) (cmVec3Scale (cmVec3Sub
          (cmVec3Add (cmVec3Sub y' x') (cmVec3Scale n (r - m))) (cmVec3Scale n r)) s) := by
      rw [hShift, hBetween, ← hD, hEq]
      ext
      · simp only [cmVec3Sub_x, cmVec3Add_x, cmVec3Scale_x]
        ring
      · simp only [cmVec3Sub_y, cmVec3Add_y, cmVec3Scale_y]
        ring
      · simp only [cmVec3Sub_z, cmVec3Add_z, cmVec3Scale_z]
        ring
    rw [hRadius, ← hPoint]
    exact hFar
  have hScaled : cmVec3Dot (cmVec3Scale n r) (cmVec3Sub (cmVec3Sub y' x') d) =
      r * (cmVec3Dot (cmVec3Sub y' x') n - m * cmVec3Dot n n) := by
    rw [hEq]
    simp only [cmVec3Dot, cmVec3Sub_x, cmVec3Sub_y, cmVec3Sub_z, cmVec3Scale_x, cmVec3Scale_y,
      cmVec3Scale_z]
    ring
  rw [hScaled, hUnit, mul_one] at hNonneg
  exact sub_nonneg.mp (nonneg_of_mul_nonneg_right hNonneg (hM.trans_lt hLess))

/-! ## Closest points -/

/-- Where the direction between closest points is too short to be used, another one has to do: no
two points are as near to each other, or from the first set to the second one it is at least as far
along the other direction. -/
def NormalFits (A B : Set (CmVec3 K)) (fallback : CmVec3 K) : Prop :=
  (∀ x ∈ A, ∀ y ∈ B, cmEpsilon * cmEpsilon < distanceSq x y) ∨
    ∀ x ∈ A, ∀ y ∈ B, 0 ≤ cmVec3Dot (cmVec3Sub y x) fallback ∧ ∃ x' ∈ A, ∃ y' ∈ B,
      distanceSq x' y' ≤ cmVec3Dot (cmVec3Sub y x) fallback * cmVec3Dot (cmVec3Sub y x) fallback

theorem ClosestIn.supports_iff (h : ClosestIn A B x y) (hM : 0 ≤ m) (hDist : m * m = distanceSq x y) :
    Supports A B n m ↔ ∀ x ∈ A, ∀ y ∈ B, 0 ≤ cmVec3Dot (cmVec3Sub y x) n ∧ ∃ x' ∈ A, ∃ y' ∈ B,
      distanceSq x' y' ≤ cmVec3Dot (cmVec3Sub y x) n * cmVec3Dot (cmVec3Sub y x) n := by
  constructor
  · intro hSupports u hU v hV
    have hLe := hSupports u hU v hV
    exact ⟨hM.trans hLe, x, h.first, y, h.second, hDist ▸ mul_self_le_mul_self hM hLe⟩
  · intro hAll u hU v hV
    obtain ⟨hNonneg, x', hX', y', hY', hLe⟩ := hAll u hU v hV
    exact abs_le_of_sq_le_sq' (by linarith [h.le x' hX' y' hY']) hNonneg |>.2

omit [IsStrictOrderedRing K] in
theorem convexCore_singleton (p : CmVec3 K) : ConvexCore {x | x = p} := by
  rintro x rfl y rfl s -
  simp [segmentPoint, cmVec3Add, cmVec3Sub, cmVec3Scale]

theorem convexCore_segment (p0 p1 : CmVec3 K) : ConvexCore {x | OnSegment p0 p1 x} := by
  rintro x ⟨s, hS, rfl⟩ y ⟨t, hT, rfl⟩ k hK
  refine ⟨(1 - k) * s + k * t, ⟨?_, ?_⟩, ?_⟩
  · exact add_nonneg (mul_nonneg (sub_nonneg.mpr hK.2) hS.1) (mul_nonneg hK.1 hT.1)
  · calc (1 - k) * s + k * t
      _ ≤ (1 - k) * 1 + k * 1 := add_le_add (mul_le_mul_of_nonneg_left hS.2 (sub_nonneg.mpr hK.2))
          (mul_le_mul_of_nonneg_left hT.2 hK.1)
      _ = 1 := by ring
  · ext
    · simp only [segmentPoint, cmVec3Add_x, cmVec3Sub_x, cmVec3Scale_x]
      ring
    · simp only [segmentPoint, cmVec3Add_y, cmVec3Sub_y, cmVec3Scale_y]
      ring
    · simp only [segmentPoint, cmVec3Add_z, cmVec3Sub_z, cmVec3Scale_z]
      ring

/-- Between two values of an interval. -/
theorem between_mem {lo hi u v k : K} (hU : lo ≤ u ∧ u ≤ hi) (hV : lo ≤ v ∧ v ≤ hi)
    (hK : k ∈ Set.Icc (0 : K) 1) : lo ≤ u + (v - u) * k ∧ u + (v - u) * k ≤ hi := by
  have hRest := sub_nonneg.mpr hK.2
  have hLow := add_nonneg (mul_nonneg hRest (sub_nonneg.mpr hU.1))
    (mul_nonneg hK.1 (sub_nonneg.mpr hV.1))
  have hHigh := add_nonneg (mul_nonneg hRest (sub_nonneg.mpr hU.2))
    (mul_nonneg hK.1 (sub_nonneg.mpr hV.2))
  constructor <;> linarith

theorem convexCore_box (b : CmAABB K) : ConvexCore {x | b.Contains x} :=
  fun _ hX _ hY _ hK =>
    ⟨between_mem hX.x hY.x hK, between_mem hX.y hY.y hK, between_mem hX.z hY.z hK⟩

/-- The point of a box closest to another point. -/
def clampToBox (b : CmAABB K) (p : CmVec3 K) : CmVec3 K :=
  ⟨cmClampf p.x b.min.x b.max.x, cmClampf p.y b.min.y b.max.y, cmClampf p.z b.min.z b.max.z⟩

omit [Field K] [IsStrictOrderedRing K] in
theorem cmClampf_between {lo hi : K} (h : lo ≤ hi) (v : K) :
    lo ≤ cmClampf v lo hi ∧ cmClampf v lo hi ≤ hi := by
  unfold cmClampf
  split_ifs with hLow hHigh
  · exact ⟨le_rfl, h⟩
  · exact ⟨h, le_rfl⟩
  · exact ⟨not_lt.mp hLow, not_lt.mp hHigh⟩

theorem cmClampf_sq_le {lo hi v u : K} (hU : lo ≤ u ∧ u ≤ hi) :
    (cmClampf v lo hi - v) * (cmClampf v lo hi - v) ≤ (u - v) * (u - v) := by
  unfold cmClampf
  split_ifs with hLow hHigh
  · exact mul_self_le_mul_self (sub_nonneg.mpr hLow.le) (sub_le_sub_right hU.1 v)
  · have hLe := mul_self_le_mul_self (sub_nonneg.mpr hHigh.le) (sub_le_sub_left hU.2 v)
    linarith
  · rw [sub_self, mul_zero]
    exact mul_self_nonneg _

theorem clampToBox_closest {b : CmAABB K} (hX : b.min.x ≤ b.max.x) (hY : b.min.y ≤ b.max.y)
    (hZ : b.min.z ≤ b.max.z) (p : CmVec3 K) :
    ClosestIn {x | x = p} {x | b.Contains x} p (clampToBox b p) where
  first := rfl
  second := ⟨cmClampf_between hX _, cmClampf_between hY _, cmClampf_between hZ _⟩
  le := by
    rintro x rfl y hIn
    exact add_le_add (add_le_add (cmClampf_sq_le hIn.x) (cmClampf_sq_le hIn.y))
      (cmClampf_sq_le hIn.z)

end Ordered

end Calynda
