import Calynda.Physics.NarrowPhase

/-!
# Depths that separate

A contact separates its bodies if its normal supports the cores that the test has compared. It does
not where the cores are too near for their own direction and the other one does not fit, as for the
centre of a sphere inside a box.
-/

namespace Calynda.Physics

open Calynda.Lib

variable {K : Type*} [Field K] [LinearOrder K]

/-! ## Cores -/

def sphereCore (b : PhysBody K) : Set (CmVec3 K) := {x | x = b.position}

def boxCore (he : CmVec3 K) (b : PhysBody K) : Set (CmVec3 K) := {x | (boxOf b he).Contains x}

/-- A segment that a test takes for a point is its start. -/
def effectiveEnd (point : K → Bool) (p0 p1 : CmVec3 K) : CmVec3 K :=
  if point (distanceSq p0 p1) then p0 else p1

def capsuleCore (point : K → Bool) (halfHeight : K) (b : PhysBody K) : Set (CmVec3 K) :=
  {x | OnSegment (capsuleEndpoints b halfHeight).1 (effectiveEnd point
    (capsuleEndpoints b halfHeight).1 (capsuleEndpoints b halfHeight).2) x}

/-- The segments that the test of two capsules takes for points. -/
def pairPoint (lengthSq : K) : Bool := lengthSq ≤ cmEpsilon

/-- The segments that the other tests of a capsule take for points. -/
def singlePoint (lengthSq : K) : Bool := lengthSq < cmEpsilon

section Ordered

variable [IsStrictOrderedRing K] {sqrt : K → K}

omit [LinearOrder K] [IsStrictOrderedRing K] in
theorem moved_sphereCore (b : PhysBody K) (v : CmVec3 K) :
    sphereCore (moveBody b v) = moved (sphereCore b) v := by
  ext x
  exact (sub_eq_iff_eq_add (a := x) (b := v) (c := b.position)).symm

theorem moved_boxCore (he : CmVec3 K) (b : PhysBody K) (v : CmVec3 K) :
    boxCore he (moveBody b v) = moved (boxCore he b) v := by
  ext x
  have hAxis : ∀ p h w u : K, (p + w - h ≤ u ∧ u ≤ p + w + h) ↔ (p - h ≤ u - w ∧ u - w ≤ p + h) := by
    intro p h w u
    constructor
    · rintro ⟨hLow, hHigh⟩
      exact ⟨by linarith, by linarith⟩
    · rintro ⟨hLow, hHigh⟩
      exact ⟨by linarith, by linarith⟩
  constructor
  · rintro ⟨hX, hY, hZ⟩
    exact ⟨(hAxis _ _ _ _).mp hX, (hAxis _ _ _ _).mp hY, (hAxis _ _ _ _).mp hZ⟩
  · rintro ⟨hX, hY, hZ⟩
    exact ⟨(hAxis _ _ _ _).mpr hX, (hAxis _ _ _ _).mpr hY, (hAxis _ _ _ _).mpr hZ⟩

omit [LinearOrder K] [IsStrictOrderedRing K] in
theorem capsuleEndpoints_move (b : PhysBody K) (halfHeight : K) (v : CmVec3 K) :
    capsuleEndpoints (moveBody b v) halfHeight =
      (cmVec3Add (capsuleEndpoints b halfHeight).1 v,
        cmVec3Add (capsuleEndpoints b halfHeight).2 v) := by
  refine Prod.ext ?_ ?_
  · exact add_right_comm b.position v _
  · exact (sub_add_eq_add_sub b.position _ v).symm

omit [LinearOrder K] [IsStrictOrderedRing K] in
theorem effectiveEnd_move (point : K → Bool) (p0 p1 v : CmVec3 K) :
    effectiveEnd point (cmVec3Add p0 v) (cmVec3Add p1 v) = cmVec3Add (effectiveEnd point p0 p1) v := by
  have hLength : distanceSq (cmVec3Add p0 v) (cmVec3Add p1 v) = distanceSq p0 p1 := by
    simp only [distanceSq, cmVec3Dot, cmVec3Sub_x, cmVec3Sub_y, cmVec3Sub_z, cmVec3Add_x,
      cmVec3Add_y, cmVec3Add_z]
    ring
  unfold effectiveEnd
  rw [hLength]
  split_ifs <;> rfl

omit [LinearOrder K] [IsStrictOrderedRing K] in
theorem segmentPoint_move (p0 p1 v : CmVec3 K) (s : K) :
    segmentPoint (cmVec3Add p0 v) (cmVec3Add p1 v) s = cmVec3Add (segmentPoint p0 p1 s) v := by
  ext
  · simp only [segmentPoint, cmVec3Add_x, cmVec3Sub_x, cmVec3Scale_x]
    ring
  · simp only [segmentPoint, cmVec3Add_y, cmVec3Sub_y, cmVec3Scale_y]
    ring
  · simp only [segmentPoint, cmVec3Add_z, cmVec3Sub_z, cmVec3Scale_z]
    ring

omit [IsStrictOrderedRing K] in
theorem moved_capsuleCore (point : K → Bool) (halfHeight : K) (b : PhysBody K) (v : CmVec3 K) :
    capsuleCore point halfHeight (moveBody b v) = moved (capsuleCore point halfHeight b) v := by
  ext x
  have hEnds := capsuleEndpoints_move b halfHeight v
  have hMem : x ∈ capsuleCore point halfHeight (moveBody b v) ↔
      ∃ s ∈ Set.Icc (0 : K) 1, x = cmVec3Add (segmentPoint (capsuleEndpoints b halfHeight).1
        (effectiveEnd point (capsuleEndpoints b halfHeight).1
          (capsuleEndpoints b halfHeight).2) s) v := by
    unfold capsuleCore OnSegment
    rw [hEnds]
    dsimp only
    rw [effectiveEnd_move]
    simp only [segmentPoint_move]
    exact Iff.rfl
  rw [hMem]
  constructor
  · rintro ⟨s, hS, hEq⟩
    exact ⟨s, hS, sub_eq_iff_eq_add.mpr hEq⟩
  · rintro ⟨s, hS, hEq⟩
    exact ⟨s, hS, sub_eq_iff_eq_add.mp hEq⟩

/-! ## The points that the tests compare -/

/-- The point of a segment closest to a point. -/
theorem closestPointSegment_closest (a b p : CmVec3 K) :
    ClosestIn {x | OnSegment a (effectiveEnd singlePoint a b) x} {x | x = p}
      (closestPointSegment a b p) p := by
  by_cases hShort : distanceSq a b < cmEpsilon
  · have hEnd : effectiveEnd singlePoint a b = a := if_pos (decide_eq_true hShort)
    have hClosest : closestPointSegment a b p = a := if_pos hShort
    have hPoint : ∀ x, OnSegment a a x → x = a := by
      rintro x ⟨s, -, rfl⟩
      simp [segmentPoint, cmVec3Add, cmVec3Sub, cmVec3Scale]
    rw [hEnd, hClosest]
    refine ⟨⟨0, ⟨le_rfl, zero_le_one⟩, (segmentPoint_zero a a).symm⟩, rfl, ?_⟩
    rintro x hX y rfl
    rw [hPoint x hX]
  · have hEnd : effectiveEnd singlePoint a b = b := if_neg fun h => hShort (of_decide_eq_true h)
    have hPos : 0 < distanceSq a b := cmEpsilon_pos.trans_le (not_lt.mp hShort)
    set z := cmVec3Dot (cmVec3Sub p a) (cmVec3Sub b a) with hZ
    have hClosest : closestPointSegment a b p =
        segmentPoint a b (cmClampf (z / distanceSq a b) 0 1) := if_neg hShort
    have hValue : ∀ s, distanceSq (segmentPoint a b s) p =
        distanceSq a p - 2 * z * s + distanceSq a b * (s * s) := by
      intro s
      simp only [hZ, distanceSq, segmentPoint, cmVec3Dot, cmVec3Add_x, cmVec3Add_y, cmVec3Add_z,
        cmVec3Sub_x, cmVec3Sub_y, cmVec3Sub_z, cmVec3Scale_x, cmVec3Scale_y, cmVec3Scale_z]
      ring
    rw [hEnd, hClosest]
    refine ⟨segmentPoint_mem (cmClampf_mem _), rfl, ?_⟩
    rintro x ⟨s, hS, rfl⟩ y rfl
    have hSettled := cmClampf_settled hPos z s hS
    have hSquare := mul_nonneg hPos.le (mul_self_nonneg (s - cmClampf (z / distanceSq a b) 0 1))
    rw [hValue, hValue]
    linarith

omit [IsStrictOrderedRing K] in
/-- A search that takes a segment for a point does not look at its end. -/
theorem closestSegments_effective (point skew : K → Bool) (hZero : point 0 = true)
    (p0 p1 q0 q1 : CmVec3 K) :
    closestSegments point skew p0 (effectiveEnd point p0 p1) q0 (effectiveEnd point q0 q1) =
      closestSegments point skew p0 p1 q0 q1 := by
  have hSelf : ∀ p : CmVec3 K, distanceSq p p = 0 := distanceSq_self
  have hFirst : ∀ p1 q1, (segmentQuadratic p0 p1 q0 q1).a = distanceSq p0 p1 := fun _ _ => rfl
  have hSecond : ∀ p1 q1, (segmentQuadratic p0 p1 q0 q1).e = distanceSq q0 q1 := fun _ _ => rfl
  have hF : ∀ p1, (segmentQuadratic p0 p1 q0 q1).f = (segmentQuadratic p0 p0 q0 q1).f :=
    fun _ => rfl
  have hC : ∀ q1, (segmentQuadratic p0 p1 q0 q1).c = (segmentQuadratic p0 p1 q0 q0).c :=
    fun _ => rfl
  unfold effectiveEnd
  cases hA : point (distanceSq p0 p1) <;> cases hE : point (distanceSq q0 q1)
  · rfl
  · simp [closestSegments, segmentParams, hFirst, hSecond, hSelf, hZero, hA, hE, hC q1,
      segmentPoint_zero]
  · simp [closestSegments, segmentParams, hFirst, hSecond, hSelf, hZero, hA, hE, hF p1,
      segmentPoint_zero]
  · simp [closestSegments, hFirst, hSecond, hSelf, hZero, hA, hE]

/-- The points that the test of two capsules compares. -/
theorem capsules_closest (a b : PhysBody K) (hhA hhB : K) :
    ClosestIn (capsuleCore pairPoint hhA a) (capsuleCore pairPoint hhB b)
      (closestPointsSegments (capsuleEndpoints a hhA).1 (capsuleEndpoints a hhA).2
        (capsuleEndpoints b hhB).1 (capsuleEndpoints b hhB).2).1
      (closestPointsSegments (capsuleEndpoints a hhA).1 (capsuleEndpoints a hhA).2
        (capsuleEndpoints b hhB).1 (capsuleEndpoints b hhB).2).2 := by
  have hResolved : ∀ p0 p1 : CmVec3 K, Resolved p0 (effectiveEnd pairPoint p0 p1) := by
    intro p0 p1
    unfold effectiveEnd
    split_ifs with hPoint
    · exact Or.inl rfl
    · exact Or.inr (not_le.mp fun hLe => hPoint (decide_eq_true hLe))
  have hZero : pairPoint (0 : K) = true := decide_eq_true cmEpsilon_pos.le
  have hSame := closestSegments_effective pairPoint (fun denom => decide (denom ≠ 0)) hZero
    (capsuleEndpoints a hhA).1 (capsuleEndpoints a hhA).2 (capsuleEndpoints b hhB).1
    (capsuleEndpoints b hhB).2
  have hClosest := closestPointsSegments_closest
    (hResolved (capsuleEndpoints a hhA).1 (capsuleEndpoints a hhA).2)
    (hResolved (capsuleEndpoints b hhB).1 (capsuleEndpoints b hhB).2)
  have hEq : closestPointsSegments (capsuleEndpoints a hhA).1
      (effectiveEnd pairPoint (capsuleEndpoints a hhA).1 (capsuleEndpoints a hhA).2)
      (capsuleEndpoints b hhB).1
      (effectiveEnd pairPoint (capsuleEndpoints b hhB).1 (capsuleEndpoints b hhB).2) =
      closestPointsSegments (capsuleEndpoints a hhA).1 (capsuleEndpoints a hhA).2
        (capsuleEndpoints b hhB).1 (capsuleEndpoints b hhB).2 := hSame
  rw [hEq] at hClosest
  exact ⟨hClosest.first, hClosest.second, fun x hX y hY => hClosest.le x y hX hY⟩

/-! ## Round shapes -/

/-- A test that compares two points of the cores of its bodies. -/
structure RoundTest (sqrt : K → K) (test : PhysBody K → PhysBody K → Option (PairContact K))
    (coreA coreB : PhysBody K → Set (CmVec3 K)) (r : K)
    (fallback : PhysBody K → PhysBody K → CmVec3 K)
    (pick : PhysBody K → PhysBody K → CmVec3 K × CmVec3 K) : Prop where
  eq : ∀ a b, ∃ point, test a b =
    roundContact sqrt (cmVec3Sub (pick a b).2 (pick a b).1) r (fallback a b) point
  first : ∀ a b, (pick a b).1 ∈ coreA a
  second : ∀ a b, (pick a b).2 ∈ coreB b
  movedA : ∀ a v, coreA (moveBody a v) = moved (coreA a) v
  movedB : ∀ b v, coreB (moveBody b v) = moved (coreB b) v
  convexA : ∀ a, ConvexCore (coreA a)
  convexB : ∀ b, ConvexCore (coreB b)
  unit : ∀ a b, cmVec3Dot (fallback a b) (fallback a b) = 1

variable {test : PhysBody K → PhysBody K → Option (PairContact K)}
  {coreA coreB : PhysBody K → Set (CmVec3 K)} {r : K}
  {fallback : PhysBody K → PhysBody K → CmVec3 K}
  {pick : PhysBody K → PhysBody K → CmVec3 K × CmVec3 K} {a b : PhysBody K} {c : PairContact K}

omit [IsStrictOrderedRing K] in
/-- The test does not hold for bodies whose cores are clear of each other. -/
theorem RoundTest.none_of_clear (hTest : RoundTest sqrt test coreA coreB r fallback pick)
    (hClear : ∀ x ∈ coreA a, ∀ y ∈ coreB b, r * r ≤ distanceSq x y) : test a b = none := by
  obtain ⟨point, hEq⟩ := hTest.eq a b
  rw [hEq, roundContact_eq_none_iff]
  exact hClear _ (hTest.first a b) _ (hTest.second a b)

omit [IsStrictOrderedRing K] in
theorem RoundTest.clear_of_none (hTest : RoundTest sqrt test coreA coreB r fallback pick)
    (hClosest : ClosestIn (coreA a) (coreB b) (pick a b).1 (pick a b).2) (hNone : test a b = none) :
    ∀ x ∈ coreA a, ∀ y ∈ coreB b, r * r ≤ distanceSq x y := by
  obtain ⟨point, hEq⟩ := hTest.eq a b
  rw [hEq, roundContact_eq_none_iff] at hNone
  exact fun x hX y hY => hNone.trans (hClosest.le x hX y hY)

/-- Where the points compared are closest and the normal fits, either body can be moved out of the
contact. -/
theorem RoundTest.leaves (hSqrt : IsSqrt sqrt)
    (hTest : RoundTest sqrt test coreA coreB r fallback pick) (hR : 0 < r)
    (hClosest : ClosestIn (coreA a) (coreB b) (pick a b).1 (pick a b).2) (h : test a b = some c)
    (hFits : NormalFits (coreA a) (coreB b) (fallback a b)) : Leaves test a b c := by
  obtain ⟨point, hEq⟩ := hTest.eq a b
  rw [hEq] at h
  have hClear := (roundContact_clear_iff hSqrt (hTest.convexA a) (hTest.convexB b) hClosest hR
    (hTest.unit a b) h).2.mpr hFits
  constructor
  · apply hTest.none_of_clear
    rw [hTest.movedA, clearOf_moved_first]
    exact hClear
  · apply hTest.none_of_clear
    rw [hTest.movedB, clearOf_moved_second]
    exact hClear

theorem RoundTest.depth_pos (hSqrt : IsSqrt sqrt)
    (hTest : RoundTest sqrt test coreA coreB r fallback pick) (hR : 0 < r) (h : test a b = some c) :
    0 < c.depth := by
  obtain ⟨point, hEq⟩ := hTest.eq a b
  rw [hEq] at h
  have hPicked : ClosestIn {x | x = (pick a b).1} {y | y = (pick a b).2} (pick a b).1
      (pick a b).2 := by
    refine ⟨rfl, rfl, ?_⟩
    rintro x rfl y rfl
    exact le_rfl
  exact (roundContact_clear_iff hSqrt (convexCore_singleton _) (convexCore_singleton _) hPicked hR
    (hTest.unit a b) h).1

/-- A test that compares closest points everywhere moves a body out of the contact only where the
normal fits. -/
theorem RoundTest.fits (hSqrt : IsSqrt sqrt)
    (hTest : RoundTest sqrt test coreA coreB r fallback pick) (hR : 0 < r)
    (hClosest : ∀ a b, ClosestIn (coreA a) (coreB b) (pick a b).1 (pick a b).2)
    (h : test a b = some c) (hLeaves : Leaves test a b c) :
    NormalFits (coreA a) (coreB b) (fallback a b) := by
  obtain ⟨point, hEq⟩ := hTest.eq a b
  rw [hEq] at h
  refine (roundContact_clear_iff hSqrt (hTest.convexA a) (hTest.convexB b) (hClosest a b) hR
    (hTest.unit a b) h).2.mp ?_
  rw [← clearOf_moved_second, ← hTest.movedB]
  exact hTest.clear_of_none (hClosest _ _) hLeaves.second

end Ordered

end Calynda.Physics
