import Calynda.Math.Segments
import Calynda.Physics.Body

/-!
# Capsules

The engine's own search for the closest points of two segments is right everywhere, as it takes only
parallel lines for parallel. The one of the math library takes short segments for parallel as well.
-/

namespace Calynda.Physics

open Calynda.Lib

variable {K : Type*} [Field K] [LinearOrder K]

/-- The ends of the segment of a capsule: the local up vector, turned by the rotation of the body. -/
def capsuleEndpoints (b : PhysBody K) (halfHeight : K) : CmVec3 K × CmVec3 K :=
  let up : CmVec3 K := ⟨0, halfHeight, 0⟩
  let q := b.rotation
  let tx := 2 * (q.y * up.z - q.z * up.y)
  let ty := 2 * (q.z * up.x - q.x * up.z)
  let tz := 2 * (q.x * up.y - q.y * up.x)
  let rotated : CmVec3 K :=
    ⟨up.x + q.w * tx + (q.y * tz - q.z * ty), up.y + q.w * ty + (q.z * tx - q.x * tz),
      up.z + q.w * tz + (q.x * ty - q.y * tx)⟩
  (cmVec3Add b.position rotated, cmVec3Sub b.position rotated)

def closestPointsSegments (p0 p1 q0 q1 : CmVec3 K) : CmVec3 K × CmVec3 K :=
  closestSegments (fun lengthSq => lengthSq ≤ cmEpsilon) (fun denom => denom ≠ 0) p0 p1 q0 q1

/-- What a test of two shapes writes into a contact. -/
structure PairContact (K : Type*) where
  normal : CmVec3 K
  depth : K
  point : CmVec3 K
  deriving DecidableEq

def collideCapsuleCapsule (sqrt : K → K) (a b : PhysBody K)
    (radiusA halfHeightA radiusB halfHeightB : K) : Option (PairContact K) :=
  let endsA := capsuleEndpoints a halfHeightA
  let endsB := capsuleEndpoints b halfHeightB
  let pair := closestPointsSegments endsA.1 endsA.2 endsB.1 endsB.2
  let d := cmVec3Sub pair.2 pair.1
  let dist2 := cmVec3Dot d d
  let rSum := radiusA + radiusB
  if dist2 ≥ rSum * rSum then none
  else
    let dist := sqrt dist2
    let normal := if dist > cmEpsilon then cmVec3Scale d (1 / dist) else cmVec3 0 1 0
    some ⟨normal, rSum - dist, cmVec3Add pair.1 (cmVec3Scale normal radiusA)⟩

/-- A segment that is a point or longer than the libraries resolve. -/
def Resolved (p0 p1 : CmVec3 K) : Prop := p0 = p1 ∨ distanceSq p0 p1 > cmEpsilon

/-- Two capsules come no closer to each other than to touch. -/
def Apart (a b : CmCapsule K) : Prop :=
  ∀ x y, OnSegment a.a a.b x → OnSegment b.a b.b y →
    (a.radius + b.radius) * (a.radius + b.radius) ≤ distanceSq x y

/-- Both searches find closest points of the two segments. Capsules about these segments are hit
exactly if they have a common point, and the engine says the same up to touching. -/
structure SegmentsSound (p0 p1 q0 q1 : CmVec3 K) : Prop where
  engine : ClosestPair p0 p1 q0 q1 (closestPointsSegments p0 p1 q0 q1)
  library : ClosestPair p0 p1 q0 q1 (cmClosestPointsSegments p0 p1 q0 q1)
  hit : ∀ (sqrt : K → K) (rA rB : K), 0 ≤ rA → 0 ≤ rB →
    ((cmCapsuleVsCapsule sqrt ⟨p0, p1, rA⟩ ⟨q0, q1, rB⟩).isSome ↔
      ∃ z, CmCapsule.Contains ⟨p0, p1, rA⟩ z ∧ CmCapsule.Contains ⟨q0, q1, rB⟩ z)
  agree : ∀ (sqrt : K → K) (a b : PhysBody K) (rA hhA rB hhB : K), 0 ≤ rA → 0 ≤ rB →
    capsuleEndpoints a hhA = (p0, p1) → capsuleEndpoints b hhB = (q0, q1) →
    ((collideCapsuleCapsule sqrt a b rA hhA rB hhB).isSome ↔
      (cmCapsuleVsCapsule sqrt ⟨p0, p1, rA⟩ ⟨q0, q1, rB⟩).isSome ∧
        ¬Apart ⟨p0, p1, rA⟩ ⟨q0, q1, rB⟩)

section Ordered

variable [IsStrictOrderedRing K]

omit [LinearOrder K] [IsStrictOrderedRing K] in
theorem distanceSq_self (x : CmVec3 K) : distanceSq x x = 0 := by
  simp [distanceSq, cmVec3Dot]

/-- On a resolved segment both ways to take a segment for a point mean the same. -/
theorem Resolved.point_iff {p0 p1 : CmVec3 K} (h : Resolved p0 p1) :
    (distanceSq p0 p1 ≤ cmEpsilon ↔ distanceSq p0 p1 = 0) ∧
      (distanceSq p0 p1 < cmEpsilon ↔ distanceSq p0 p1 = 0) := by
  rcases h with rfl | hLong
  · rw [distanceSq_self]
    exact ⟨iff_of_true cmEpsilon_pos.le rfl, iff_of_true cmEpsilon_pos rfl⟩
  · have hPos := cmEpsilon_pos.trans hLong
    exact ⟨iff_of_false hLong.not_ge hPos.ne', iff_of_false hLong.not_gt hPos.ne'⟩

variable {p0 p1 q0 q1 : CmVec3 K}

theorem engine_resolves (hP : Resolved p0 p1) (hQ : Resolved q0 q1) :
    Resolves (fun lengthSq => lengthSq ≤ cmEpsilon) (fun denom => denom ≠ 0)
      (segmentQuadratic p0 p1 q0 q1) where
  first := decide_eq_true_iff.trans hP.point_iff.1
  second := decide_eq_true_iff.trans hQ.point_iff.1
  skew h := lt_of_le_of_ne (segmentQuadratic_denom_nonneg p0 p1 q0 q1) (of_decide_eq_true h).symm

theorem library_resolves (hP : Resolved p0 p1) (hQ : Resolved q0 q1) :
    Resolves (fun lengthSq => lengthSq < cmEpsilon) (fun denom => denom > cmEpsilon)
      (segmentQuadratic p0 p1 q0 q1) where
  first := decide_eq_true_iff.trans hP.point_iff.2
  second := decide_eq_true_iff.trans hQ.point_iff.2
  skew h := cmEpsilon_pos.trans (of_decide_eq_true h)

/-- Only parallel lines are taken for parallel, and these fit. -/
theorem closestPointsSegments_closest (hP : Resolved p0 p1) (hQ : Resolved q0 q1) :
    ClosestPair p0 p1 q0 q1 (closestPointsSegments p0 p1 q0 q1) := by
  refine (closestSegments_iff (engine_resolves hP hQ)).mpr ?_
  by_cases hA : (segmentQuadratic p0 p1 q0 q1).a = 0
  · exact Or.inl hA
  by_cases hE : (segmentQuadratic p0 p1 q0 q1).e = 0
  · exact Or.inr (Or.inl hE)
  by_cases hDenom : (segmentQuadratic p0 p1 q0 q1).denom = 0
  · have hPosA := lt_of_le_of_ne (cmVec3Dot_self_nonneg _) (Ne.symm hA)
    have hPosE := lt_of_le_of_ne (cmVec3Dot_self_nonneg _) (Ne.symm hE)
    exact Or.inr (Or.inr (Or.inr (startFits_of_parallel hPosA hPosE hDenom)))
  · exact Or.inr (Or.inr (Or.inl (decide_eq_true hDenom)))

omit [IsStrictOrderedRing K] in
theorem collideCapsuleCapsule_isSome (sqrt : K → K) {a b : PhysBody K} {hhA hhB : K} (rA rB : K)
    (hA : capsuleEndpoints a hhA = (p0, p1)) (hB : capsuleEndpoints b hhB = (q0, q1)) :
    (collideCapsuleCapsule sqrt a b rA hhA rB hhB).isSome ↔
      distanceSq (closestPointsSegments p0 p1 q0 q1).1 (closestPointsSegments p0 p1 q0 q1).2 <
        (rA + rB) * (rA + rB) := by
  dsimp only [collideCapsuleCapsule, distanceSq]
  rw [hA, hB]
  split_ifs with hFar hFlat
  · exact iff_of_false Bool.false_ne_true hFar.not_gt
  · exact iff_of_true rfl (not_le.mp hFar)
  · exact iff_of_true rfl (not_le.mp hFar)

omit [IsStrictOrderedRing K] in
theorem apart_iff {rA rB : K} {pair : CmVec3 K × CmVec3 K} (h : ClosestPair p0 p1 q0 q1 pair) :
    Apart ⟨p0, p1, rA⟩ ⟨q0, q1, rB⟩ ↔ (rA + rB) * (rA + rB) ≤ distanceSq pair.1 pair.2 :=
  ⟨fun hApart => hApart _ _ h.first h.second, fun hLe x y hX hY => hLe.trans (h.le x y hX hY)⟩

/-- Where the search of the math library is right the rest follows. -/
theorem segmentsSound_of_closest (hP : Resolved p0 p1) (hQ : Resolved q0 q1)
    (hLibrary : ClosestPair p0 p1 q0 q1 (cmClosestPointsSegments p0 p1 q0 q1)) :
    SegmentsSound p0 p1 q0 q1 where
  engine := closestPointsSegments_closest hP hQ
  library := hLibrary
  hit sqrt rA rB hA hB := by
    rw [cmCapsuleVsCapsule_isSome, capsules_meet_iff hA hB hLibrary]
  agree sqrt a b rA hhA rB hhB _ _ hEndsA hEndsB := by
    have hEngine := closestPointsSegments_closest hP hQ
    have hSame := le_antisymm (hEngine.le _ _ hLibrary.first hLibrary.second)
      (hLibrary.le _ _ hEngine.first hEngine.second)
    rw [collideCapsuleCapsule_isSome sqrt rA rB hEndsA hEndsB, cmCapsuleVsCapsule_isSome,
      apart_iff hLibrary, hSame, not_le]
    exact ⟨fun hLess => ⟨hLess.le, hLess⟩, fun hBoth => hBoth.2⟩

/-- Both libraries are right about two segments exactly if the search of the math library fits
them. -/
theorem segmentsSound_iff (hP : Resolved p0 p1) (hQ : Resolved q0 q1) :
    SegmentsSound p0 p1 q0 q1 ↔
      SearchFits (fun denom => denom > cmEpsilon) (segmentQuadratic p0 p1 q0 q1) := by
  rw [← closestSegments_iff (library_resolves hP hQ)]
  exact ⟨SegmentsSound.library, segmentsSound_of_closest hP hQ⟩

end Ordered

theorem segmentsSound_skew :
    SegmentsSound (K := ℚ) ⟨0, 0, 0⟩ ⟨1, 0, 0⟩ ⟨0, -1, 1⟩ ⟨0, 1, 1⟩ := by
  refine (segmentsSound_iff ?_ ?_).mpr ?_
  · exact Or.inr (by decide +kernel)
  · exact Or.inr (by decide +kernel)
  · exact Or.inr (Or.inr (Or.inl (by decide +kernel)))

/-- Two segments of length `1 / 32` that cross at a right angle are too short for the math
library. -/
theorem segments_crossing : ¬(∀ p0 p1 q0 q1 : CmVec3 ℚ, Resolved p0 p1 → Resolved q0 q1 →
    SegmentsSound p0 p1 q0 q1) := by
  intro hAll
  have hSound := hAll ⟨-1 / 64, 0, 0⟩ ⟨1 / 64, 0, 0⟩ ⟨0, -1 / 64, 0⟩ ⟨0, 1 / 64, 0⟩
    (Or.inr (by decide +kernel)) (Or.inr (by decide +kernel))
  have hHit := (hSound.hit id (1 / 256) (1 / 256) (by decide +kernel) (by decide +kernel)).mpr
  have hOrigin : ∃ z : CmVec3 ℚ,
      CmCapsule.Contains ⟨⟨-1 / 64, 0, 0⟩, ⟨1 / 64, 0, 0⟩, 1 / 256⟩ z ∧
        CmCapsule.Contains ⟨⟨0, -1 / 64, 0⟩, ⟨0, 1 / 64, 0⟩, 1 / 256⟩ z := by
    refine ⟨⟨0, 0, 0⟩, ⟨⟨0, 0, 0⟩, ⟨1 / 2, ?_, ?_⟩, ?_⟩, ⟨0, 0, 0⟩, ⟨1 / 2, ?_, ?_⟩, ?_⟩
    all_goals decide +kernel
  exact absurd (hHit hOrigin) (by decide +kernel)

end Calynda.Physics
