import Calynda.Physics.Raycast
import Calynda.Physics.Separation

/-!
# Every pair of shapes

The law of depths for each pair of shapes, through the dispatch. Boxes always leave each other, and
a plane with a normal of length one is always left. The test of a capsule against a box compares the
point of the capsule that is closest to the centre of the box, which need not be the closest one.
-/

namespace Calynda.Physics

open Calynda.Lib

variable {K : Type*} [Field K] [LinearOrder K]

def PositiveSize : PhysCollider K → Prop
  | .sphere radius => 0 < radius
  | .aabb he => 0 < he.x ∧ 0 < he.y ∧ 0 < he.z
  | .capsule radius halfHeight => 0 < radius ∧ 0 < halfHeight
  | .plane _ _ => True

/-- The contact has a positive depth, and moving a body that is no plane by it out of the other one
ends the contact. -/
structure Separates (sqrt : K → K) (a b : PhysBody K) (c : PairContact K) : Prop where
  depth : 0 < c.depth
  first : isPlane a = false →
    collidePair sqrt (moveBody a (cmVec3Neg (cmVec3Scale c.normal c.depth))) b = none
  second : isPlane b = false → collidePair sqrt a (moveBody b (cmVec3Scale c.normal c.depth)) = none

/-- The point of the capsule that is closest to the centre of the box is one that is closest to the
box. -/
def CapsuleFits (cap box : PhysBody K) (halfHeight : K) (he : CmVec3 K) : Prop :=
  let segClosest := closestPointSegment (capsuleEndpoints cap halfHeight).1
    (capsuleEndpoints cap halfHeight).2 box.position
  ClosestIn (capsuleCore singlePoint halfHeight cap) (boxCore he box) segClosest
      (closestOnBox (boxOf box he) segClosest) ∧
    NormalFits (capsuleCore singlePoint halfHeight cap) (boxCore he box) (cmVec3 0 1 0)

/-- Where the contact of two bodies is one that separates them. -/
def DepthFits (a b : PhysBody K) : Prop :=
  match a.collider, b.collider with
  | .sphere _, .sphere _ => NormalFits (sphereCore a) (sphereCore b) (cmVec3 0 1 0)
  | .sphere _, .aabb he =>
    NormalFits (sphereCore a) (boxCore he b) (faceNormal (boxOf b he) a.position)
  | .aabb he, .sphere _ =>
    NormalFits (sphereCore b) (boxCore he a) (faceNormal (boxOf a he) b.position)
  | .capsule _ hhA, .capsule _ hhB =>
    NormalFits (capsuleCore pairPoint hhA a) (capsuleCore pairPoint hhB b) (cmVec3 0 1 0)
  | .capsule _ hh, .sphere _ =>
    NormalFits (capsuleCore singlePoint hh a) (sphereCore b) (cmVec3 0 1 0)
  | .sphere _, .capsule _ hh =>
    NormalFits (capsuleCore singlePoint hh b) (sphereCore a) (cmVec3 0 1 0)
  | .capsule _ hh, .aabb he => CapsuleFits a b hh he
  | .aabb he, .capsule _ hh => CapsuleFits b a hh he
  | .aabb _, .aabb _ => True
  | .plane n _, _ => 1 ≤ cmVec3Dot n n
  | _, .plane n _ => 1 ≤ cmVec3Dot n n

def CapsuleOnBox (a b : PhysBody K) : Prop :=
  match a.collider, b.collider with
  | .capsule _ _, .aabb _ => True
  | .aabb _, .capsule _ _ => True
  | _, _ => False

variable {sqrt : K → K} {a b : PhysBody K} {c : PairContact K}
  {test : PhysBody K → PhysBody K → Option (PairContact K)}

/-! ## Through the dispatch -/

theorem separates_iff (hTest : ∀ a' b', a'.collider = a.collider → b'.collider = b.collider →
      collidePair sqrt a' b' = test a' b') (hA : isPlane a = false) (hB : isPlane b = false) :
    Separates sqrt a b c ↔ 0 < c.depth ∧ Leaves test a b c := by
  constructor
  · intro h
    exact ⟨h.depth, (hTest (moveBody a _) b rfl rfl).symm.trans (h.first hA),
      (hTest a (moveBody b _) rfl rfl).symm.trans (h.second hB)⟩
  · rintro ⟨hDepth, hFirst, hSecond⟩
    exact ⟨hDepth, fun _ => (hTest (moveBody a _) b rfl rfl).trans hFirst,
      fun _ => (hTest a (moveBody b _) rfl rfl).trans hSecond⟩

omit [LinearOrder K] in
/-- The bodies of a flipped contact are moved as those of the contact itself. -/
theorem flip_push (c : PairContact K) :
    cmVec3Scale c.flip.normal c.flip.depth = cmVec3Neg (cmVec3Scale c.normal c.depth) ∧
      cmVec3Neg (cmVec3Scale c.flip.normal c.flip.depth) = cmVec3Scale c.normal c.depth := by
  constructor
  · ext <;> simp [PairContact.flip]
  · ext <;> simp [PairContact.flip]

theorem separates_flip_iff (hTest : ∀ a' b', a'.collider = a.collider → b'.collider = b.collider →
      collidePair sqrt a' b' = (test b' a').map PairContact.flip)
    (hA : isPlane a = false) (hB : isPlane b = false) :
    Separates sqrt a b c.flip ↔ 0 < c.depth ∧ Leaves test b a c := by
  obtain ⟨hPush, hPull⟩ := flip_push c
  have hFirst := hTest (moveBody a (cmVec3Scale c.normal c.depth)) b rfl rfl
  have hSecond := hTest a (moveBody b (cmVec3Neg (cmVec3Scale c.normal c.depth))) rfl rfl
  constructor
  · rintro ⟨hDepth, hMoveA, hMoveB⟩
    rw [hPull, hFirst, Option.map_eq_none_iff] at hMoveA
    rw [hPush, hSecond, Option.map_eq_none_iff] at hMoveB
    exact ⟨hDepth, hMoveB hB, hMoveA hA⟩
  · rintro ⟨hDepth, hMoveB, hMoveA⟩
    refine ⟨hDepth, fun _ => ?_, fun _ => ?_⟩
    · rw [hPull, hFirst, Option.map_eq_none_iff]
      exact hMoveA
    · rw [hPush, hSecond, Option.map_eq_none_iff]
      exact hMoveB

section Ordered

variable [IsStrictOrderedRing K]

/-! ## Planes -/

/-- A shape leaves a plane exactly if the normal is not too short. -/
theorem planeContact_leaves_iff {n : CmVec3 K} {extent dist : K} {point : CmVec3 K}
    (h : planeContact n extent dist point = some c) (point' : CmVec3 K) :
    0 < c.depth ∧ (planeContact n extent
      (dist + cmVec3Dot (cmVec3Neg (cmVec3Scale c.normal c.depth)) n) point' = none ↔
        1 ≤ cmVec3Dot n n) := by
  unfold planeContact at h ⊢
  split_ifs at h with hFar
  obtain rfl := (Option.some.inj h).symm
  have hPos : 0 < extent - dist := sub_pos.mpr (not_le.mp hFar)
  refine ⟨hPos, ?_⟩
  have hDot : cmVec3Dot (cmVec3Neg (cmVec3Scale (cmVec3Neg n) (extent - dist))) n =
      (extent - dist) * cmVec3Dot n n := by
    simp only [cmVec3Dot, cmVec3Neg_x, cmVec3Neg_y, cmVec3Neg_z, cmVec3Scale_x, cmVec3Scale_y,
      cmVec3Scale_z]
    ring
  dsimp only
  rw [hDot]
  have hIff : dist + (extent - dist) * cmVec3Dot n n ≥ extent ↔ 1 ≤ cmVec3Dot n n := by
    rw [← mul_le_mul_iff_right₀ hPos, mul_one]
    constructor <;> intro hLe <;> linarith
  split_ifs with hOut
  · exact iff_of_true rfl (hIff.mp hOut)
  · exact iff_of_false (fun hNone => by cases hNone) (mt hIff.mpr hOut)

omit [LinearOrder K] [IsStrictOrderedRing K] in
theorem cmVec3Dot_move (p v n : CmVec3 K) (d : K) :
    cmVec3Dot (cmVec3Add p v) n - d = cmVec3Dot p n - d + cmVec3Dot v n := by
  simp only [cmVec3Dot, cmVec3Add_x, cmVec3Add_y, cmVec3Add_z]
  ring

/-- The distance of the lower end of a capsule from a plane. -/
def capsulePlaneDist (halfHeight : K) (n : CmVec3 K) (d : K) (b : PhysBody K) : K :=
  let d0 := cmVec3Dot (capsuleEndpoints b halfHeight).1 n - d
  let d1 := cmVec3Dot (capsuleEndpoints b halfHeight).2 n - d
  if d0 < d1 then d0 else d1

theorem capsulePlaneDist_move (halfHeight : K) (n : CmVec3 K) (d : K) (b : PhysBody K)
    (v : CmVec3 K) : capsulePlaneDist halfHeight n d (moveBody b v) =
      capsulePlaneDist halfHeight n d b + cmVec3Dot v n := by
  dsimp only [capsulePlaneDist]
  rw [capsuleEndpoints_move]
  dsimp only
  rw [cmVec3Dot_move, cmVec3Dot_move]
  simp only [add_lt_add_iff_right]
  split_ifs <;> rfl

/-- A shape against a plane, as the tests of all shapes do it. -/
theorem separates_plane_iff {shape : PhysBody K → Option (PairContact K)} {n : CmVec3 K}
    {d extent : K} {dist : PhysBody K → K} (hColB : b.collider = .plane n d)
    (hTest : ∀ a', a'.collider = a.collider → collidePair sqrt a' b = shape a')
    (hShape : ∀ a', ∃ point, shape a' = planeContact n extent (dist a') point)
    (hMove : ∀ a' v, dist (moveBody a' v) = dist a' + cmVec3Dot v n)
    (hA : isPlane a = false) (h : collidePair sqrt a b = some c) :
    Separates sqrt a b c ↔ 1 ≤ cmVec3Dot n n := by
  obtain ⟨point, hEq⟩ := hShape a
  obtain ⟨point', hEq'⟩ := hShape (moveBody a (cmVec3Neg (cmVec3Scale c.normal c.depth)))
  rw [hTest a rfl, hEq] at h
  obtain ⟨hDepth, hIff⟩ := planeContact_leaves_iff h point'
  rw [← hMove, ← hEq', ← hTest (moveBody a _) rfl] at hIff
  rw [← hIff]
  constructor
  · intro hSeparates
    exact hSeparates.first hA
  · intro hNone
    refine ⟨hDepth, fun _ => hNone, fun hPlane => ?_⟩
    simp only [isPlane, hColB] at hPlane
    cases hPlane

theorem separates_flip_plane_iff {shape : PhysBody K → Option (PairContact K)} {n : CmVec3 K}
    {d extent : K} {dist : PhysBody K → K} (hColA : a.collider = .plane n d)
    (hTest : ∀ b', b'.collider = b.collider →
      collidePair sqrt a b' = (shape b').map PairContact.flip)
    (hShape : ∀ b', ∃ point, shape b' = planeContact n extent (dist b') point)
    (hMove : ∀ b' v, dist (moveBody b' v) = dist b' + cmVec3Dot v n)
    (hB : isPlane b = false) (h : collidePair sqrt a b = some c) :
    Separates sqrt a b c ↔ 1 ≤ cmVec3Dot n n := by
  rw [hTest b rfl] at h
  obtain ⟨c, hContact, rfl⟩ := Option.map_eq_some_iff.mp h
  obtain ⟨point, hEq⟩ := hShape b
  obtain ⟨point', hEq'⟩ := hShape (moveBody b (cmVec3Neg (cmVec3Scale c.normal c.depth)))
  rw [hEq] at hContact
  obtain ⟨hDepth, hIff⟩ := planeContact_leaves_iff hContact point'
  have hMoved := hTest (moveBody b (cmVec3Neg (cmVec3Scale c.normal c.depth))) rfl
  rw [← hMove, ← hEq', ← Option.map_eq_none_iff (f := PairContact.flip), ← hMoved] at hIff
  rw [← hIff]
  constructor
  · intro hSeparates
    rw [← (flip_push c).1]
    exact hSeparates.second hB
  · intro hNone
    refine ⟨hDepth, fun hPlane => ?_, fun _ => ?_⟩
    · simp only [isPlane, hColA] at hPlane
      cases hPlane
    · rw [(flip_push c).1]
      exact hNone

/-! ## Boxes -/

omit [IsStrictOrderedRing K] in
theorem collideAabbAabb_eq_none_iff (a b : PhysBody K) (ha hb : CmVec3 K) :
    collideAabbAabb a b ha hb = none ↔
      ha.x + hb.x - cmAbsf (cmVec3Sub b.position a.position).x ≤ 0 ∨
      ha.y + hb.y - cmAbsf (cmVec3Sub b.position a.position).y ≤ 0 ∨
      ha.z + hb.z - cmAbsf (cmVec3Sub b.position a.position).z ≤ 0 := by
  dsimp only [collideAabbAabb]
  split_ifs with hX hY hZ hLeast hSecond
  · exact iff_of_true rfl (Or.inl hX)
  · exact iff_of_true rfl (Or.inr (Or.inl hY))
  · exact iff_of_true rfl (Or.inr (Or.inr hZ))
  all_goals exact iff_of_false (fun hNone => by cases hNone) fun hAny =>
    hAny.elim hX fun hRest => hRest.elim hY hZ

/-- On an axis the overlap is used up. -/
theorem overlap_used {w d : K} (hPos : 0 < w - cmAbsf d) :
    w - cmAbsf (d + (if d > 0 then 1 else -1) * (w - cmAbsf d)) ≤ 0 := by
  rw [cmAbsf_eq] at hPos ⊢
  rw [cmAbsf_eq]
  have hW : 0 < w := (abs_nonneg d).trans_lt (sub_pos.mp hPos)
  split_ifs with hSign
  · rw [abs_of_pos hSign, one_mul, add_sub_cancel, abs_of_pos hW, sub_self]
  · rw [abs_of_nonpos (not_lt.mp hSign)]
    have hEnd : d + -1 * (w - -d) = -w := by ring
    rw [hEnd, abs_neg, abs_of_pos hW, sub_self]

/-- Two boxes leave each other along the axis of their least overlap. -/
theorem collideAabbAabb_leaves {ha hb : CmVec3 K} (h : collideAabbAabb a b ha hb = some c) :
    0 < c.depth ∧ Leaves (fun a b => collideAabbAabb a b ha hb) a b c := by
  have hMoveA : ∀ v, cmVec3Sub b.position (moveBody a (cmVec3Neg v)).position =
      cmVec3Add (cmVec3Sub b.position a.position) v := by
    intro v
    ext <;> simp [moveBody] <;> ring
  have hMoveB : ∀ v, cmVec3Sub (moveBody b v).position a.position =
      cmVec3Add (cmVec3Sub b.position a.position) v := by
    intro v
    ext <;> simp [moveBody] <;> ring
  suffices hUsed : 0 < c.depth ∧
      (ha.x + hb.x - cmAbsf (cmVec3Add (cmVec3Sub b.position a.position)
          (cmVec3Scale c.normal c.depth)).x ≤ 0 ∨
        ha.y + hb.y - cmAbsf (cmVec3Add (cmVec3Sub b.position a.position)
          (cmVec3Scale c.normal c.depth)).y ≤ 0 ∨
        ha.z + hb.z - cmAbsf (cmVec3Add (cmVec3Sub b.position a.position)
          (cmVec3Scale c.normal c.depth)).z ≤ 0) by
    refine ⟨hUsed.1, ?_, ?_⟩
    · rw [collideAabbAabb_eq_none_iff, hMoveA]
      exact hUsed.2
    · rw [collideAabbAabb_eq_none_iff, hMoveB]
      exact hUsed.2
  dsimp only [collideAabbAabb] at h
  split_ifs at h with hX hY hZ hLeast hSignX hSecond hSignY hSignZ
  · obtain rfl := (Option.some.inj h).symm
    have hUsed := overlap_used (not_le.mp hX)
    rw [if_pos hSignX] at hUsed
    exact ⟨not_le.mp hX, Or.inl hUsed⟩
  · obtain rfl := (Option.some.inj h).symm
    have hUsed := overlap_used (not_le.mp hX)
    rw [if_neg hSignX] at hUsed
    exact ⟨not_le.mp hX, Or.inl hUsed⟩
  · obtain rfl := (Option.some.inj h).symm
    have hUsed := overlap_used (not_le.mp hY)
    rw [if_pos hSignY] at hUsed
    exact ⟨not_le.mp hY, Or.inr (Or.inl hUsed)⟩
  · obtain rfl := (Option.some.inj h).symm
    have hUsed := overlap_used (not_le.mp hY)
    rw [if_neg hSignY] at hUsed
    exact ⟨not_le.mp hY, Or.inr (Or.inl hUsed)⟩
  · obtain rfl := (Option.some.inj h).symm
    have hUsed := overlap_used (not_le.mp hZ)
    rw [if_pos hSignZ] at hUsed
    exact ⟨not_le.mp hZ, Or.inr (Or.inr hUsed)⟩
  · obtain rfl := (Option.some.inj h).symm
    have hUsed := overlap_used (not_le.mp hZ)
    rw [if_neg hSignZ] at hUsed
    exact ⟨not_le.mp hZ, Or.inr (Or.inr hUsed)⟩

/-! ## Round shapes -/

omit [LinearOrder K] [IsStrictOrderedRing K] in
theorem up_unit : cmVec3Dot (cmVec3 0 1 0) (cmVec3 0 1 0 : CmVec3 K) = 1 := by
  simp [cmVec3Dot, cmVec3]

omit [IsStrictOrderedRing K] in
theorem faceNormal_unit (b : CmAABB K) (p : CmVec3 K) :
    cmVec3Dot (faceNormal b p) (faceNormal b p) = 1 := by
  dsimp only [faceNormal]
  split_ifs <;> simp [cmVec3Dot, cmVec3]

theorem closestOnBox_mem (box : PhysBody K) {he : CmVec3 K} (hHe : 0 < he.x ∧ 0 < he.y ∧ 0 < he.z)
    (p : CmVec3 K) :
    ClosestIn {x | x = p} (boxCore he box) p (closestOnBox (boxOf box he) p) := by
  have hWide : ∀ {q e : K}, 0 < e → q - e ≤ q + e := fun hE =>
    (sub_le_self _ hE.le).trans (le_add_of_nonneg_right hE.le)
  exact clampToBox_closest (hWide hHe.1) (hWide hHe.2.1) (hWide hHe.2.2) p

omit [IsStrictOrderedRing K] in
theorem sphereSphere_round (sqrt : K → K) (ra rb : K) :
    RoundTest sqrt (fun a b => collideSphereSphere sqrt a b ra rb) sphereCore sphereCore (ra + rb)
      (fun _ _ => cmVec3 0 1 0) (fun a b => (a.position, b.position)) where
  eq _ _ := ⟨_, rfl⟩
  first _ _ := rfl
  second _ _ := rfl
  movedA := moved_sphereCore
  movedB := moved_sphereCore
  convexA _ := convexCore_singleton _
  convexB _ := convexCore_singleton _
  unit _ _ := up_unit

omit [IsStrictOrderedRing K] in
theorem sphereSphere_closest (a b : PhysBody K) :
    ClosestIn (sphereCore a) (sphereCore b) a.position b.position := by
  refine ⟨rfl, rfl, ?_⟩
  rintro x rfl y rfl
  exact le_rfl

theorem sphereAabb_round (sqrt : K → K) (r : K) {he : CmVec3 K}
    (hHe : 0 < he.x ∧ 0 < he.y ∧ 0 < he.z) :
    RoundTest sqrt (fun a b => collideSphereAabb sqrt a b r he) sphereCore (boxCore he) r
      (fun a b => faceNormal (boxOf b he) a.position)
      (fun a b => (a.position, closestOnBox (boxOf b he) a.position)) where
  eq a b := ⟨fun _ _ => closestOnBox (boxOf b he) a.position, rfl⟩
  first _ _ := rfl
  second a b := (closestOnBox_mem b hHe a.position).second
  movedA := moved_sphereCore
  movedB := moved_boxCore he
  convexA _ := convexCore_singleton _
  convexB _ := convexCore_box _
  unit _ _ := faceNormal_unit _ _

theorem capsuleSphere_round (sqrt : K → K) (capRadius hh radius : K) :
    RoundTest sqrt (fun a b => collideCapsuleSphere sqrt a b capRadius hh radius)
      (capsuleCore singlePoint hh) sphereCore (capRadius + radius) (fun _ _ => cmVec3 0 1 0)
      (fun a b => (closestPointSegment (capsuleEndpoints a hh).1 (capsuleEndpoints a hh).2
        b.position, b.position)) where
  eq a b := ⟨fun normal _ => cmVec3Add (closestPointSegment (capsuleEndpoints a hh).1
    (capsuleEndpoints a hh).2 b.position) (cmVec3Scale normal capRadius), rfl⟩
  first _ _ := (closestPointSegment_closest _ _ _).first
  second _ _ := rfl
  movedA := moved_capsuleCore singlePoint hh
  movedB := moved_sphereCore
  convexA _ := convexCore_segment _ _
  convexB _ := convexCore_singleton _
  unit _ _ := up_unit

theorem capsuleCapsule_round (sqrt : K → K) (ra hhA rb hhB : K) :
    RoundTest sqrt (fun a b => collideCapsuleCapsule sqrt a b ra hhA rb hhB)
      (capsuleCore pairPoint hhA) (capsuleCore pairPoint hhB) (ra + rb) (fun _ _ => cmVec3 0 1 0)
      (fun a b => closestPointsSegments (capsuleEndpoints a hhA).1 (capsuleEndpoints a hhA).2
        (capsuleEndpoints b hhB).1 (capsuleEndpoints b hhB).2) where
  eq a b := ⟨fun normal _ => cmVec3Add (closestPointsSegments (capsuleEndpoints a hhA).1
    (capsuleEndpoints a hhA).2 (capsuleEndpoints b hhB).1 (capsuleEndpoints b hhB).2).1
      (cmVec3Scale normal ra), rfl⟩
  first a b := (capsules_closest a b hhA hhB).first
  second a b := (capsules_closest a b hhA hhB).second
  movedA := moved_capsuleCore pairPoint hhA
  movedB := moved_capsuleCore pairPoint hhB
  convexA _ := convexCore_segment _ _
  convexB _ := convexCore_segment _ _
  unit _ _ := up_unit

theorem capsuleAabb_round (sqrt : K → K) (r hh : K) {he : CmVec3 K}
    (hHe : 0 < he.x ∧ 0 < he.y ∧ 0 < he.z) :
    RoundTest sqrt (fun a b => collideCapsuleAabb sqrt a b r hh he) (capsuleCore singlePoint hh)
      (boxCore he) r (fun _ _ => cmVec3 0 1 0)
      (fun a b => (closestPointSegment (capsuleEndpoints a hh).1 (capsuleEndpoints a hh).2
        b.position, closestOnBox (boxOf b he) (closestPointSegment (capsuleEndpoints a hh).1
          (capsuleEndpoints a hh).2 b.position))) where
  eq a b := ⟨fun _ _ => closestOnBox (boxOf b he) (closestPointSegment (capsuleEndpoints a hh).1
    (capsuleEndpoints a hh).2 b.position), rfl⟩
  first _ _ := (closestPointSegment_closest _ _ _).first
  second _ b := (closestOnBox_mem b hHe _).second
  movedA := moved_capsuleCore singlePoint hh
  movedB := moved_boxCore he
  convexA _ := convexCore_segment _ _
  convexB _ := convexCore_box _
  unit _ _ := up_unit

section Cases

variable {coreA coreB : PhysBody K → Set (CmVec3 K)} {r : K}
  {fallback : PhysBody K → PhysBody K → CmVec3 K}
  {pick : PhysBody K → PhysBody K → CmVec3 K × CmVec3 K}

theorem RoundTest.leaves_iff (hSqrt : IsSqrt sqrt)
    (hRound : RoundTest sqrt test coreA coreB r fallback pick) (hR : 0 < r)
    (hClosest : ∀ a b, ClosestIn (coreA a) (coreB b) (pick a b).1 (pick a b).2)
    (h : test a b = some c) :
    0 < c.depth ∧ Leaves test a b c ↔ NormalFits (coreA a) (coreB b) (fallback a b) :=
  ⟨fun hLeaves => hRound.fits hSqrt hR hClosest h hLeaves.2,
    fun hFits => ⟨hRound.depth_pos hSqrt hR h, hRound.leaves hSqrt hR (hClosest a b) h hFits⟩⟩

theorem RoundTest.separates_iff (hSqrt : IsSqrt sqrt)
    (hRound : RoundTest sqrt test coreA coreB r fallback pick) (hR : 0 < r)
    (hClosest : ∀ a b, ClosestIn (coreA a) (coreB b) (pick a b).1 (pick a b).2)
    (hTest : ∀ a' b', a'.collider = a.collider → b'.collider = b.collider →
      collidePair sqrt a' b' = test a' b')
    (hA : isPlane a = false) (hB : isPlane b = false) (h : collidePair sqrt a b = some c) :
    Separates sqrt a b c ↔ NormalFits (coreA a) (coreB b) (fallback a b) := by
  rw [Physics.separates_iff hTest hA hB]
  exact hRound.leaves_iff hSqrt hR hClosest ((hTest a b rfl rfl).symm.trans h)

theorem RoundTest.separates_flip_iff (hSqrt : IsSqrt sqrt)
    (hRound : RoundTest sqrt test coreA coreB r fallback pick) (hR : 0 < r)
    (hClosest : ∀ a b, ClosestIn (coreA a) (coreB b) (pick a b).1 (pick a b).2)
    (hTest : ∀ a' b', a'.collider = a.collider → b'.collider = b.collider →
      collidePair sqrt a' b' = (test b' a').map PairContact.flip)
    (hA : isPlane a = false) (hB : isPlane b = false) (h : collidePair sqrt a b = some c) :
    Separates sqrt a b c ↔ NormalFits (coreA b) (coreB a) (fallback b a) := by
  rw [hTest a b rfl rfl] at h
  obtain ⟨c', hContact, rfl⟩ := Option.map_eq_some_iff.mp h
  rw [Physics.separates_flip_iff hTest hA hB]
  exact hRound.leaves_iff hSqrt hR hClosest hContact

end Cases

/-! ## All pairs -/

theorem separates_sphere_iff {ra : K} (hSqrt : IsSqrt sqrt) (hColA : a.collider = .sphere ra)
    (hA : 0 < ra) (hB : PositiveSize b.collider) (h : collidePair sqrt a b = some c) :
    Separates sqrt a b c ↔ DepthFits a b := by
  have hPlaneA : isPlane a = false := by rw [isPlane, hColA]
  unfold DepthFits
  rw [hColA]
  cases hColB : b.collider with
  | sphere rb =>
    have hPlaneB : isPlane b = false := by rw [isPlane, hColB]
    rw [hColB] at hB
    refine (sphereSphere_round sqrt ra rb).separates_iff hSqrt (add_pos hA hB)
      sphereSphere_closest (fun a' b' hA' hB' => ?_) hPlaneA hPlaneB h
    simp only [collidePair, hA', hB', hColA, hColB]
  | aabb he =>
    have hPlaneB : isPlane b = false := by rw [isPlane, hColB]
    rw [hColB] at hB
    refine (sphereAabb_round sqrt ra hB).separates_iff hSqrt hA
      (fun a b => closestOnBox_mem b hB a.position) (fun a' b' hA' hB' => ?_) hPlaneA hPlaneB h
    simp only [collidePair, hA', hB', hColA, hColB]
  | capsule rb hh =>
    have hPlaneB : isPlane b = false := by rw [isPlane, hColB]
    rw [hColB] at hB
    refine (capsuleSphere_round sqrt rb hh ra).separates_flip_iff hSqrt (add_pos hB.1 hA)
      (fun a b => closestPointSegment_closest _ _ b.position) (fun a' b' hA' hB' => ?_)
      hPlaneA hPlaneB h
    simp only [collidePair, hA', hB', hColA, hColB]
  | plane n d =>
    have hTest : ∀ a', a'.collider = a.collider →
        collidePair sqrt a' b = collideSpherePlane a' ra n d := by
      intro a' hA'
      simp only [collidePair, hA', hColA, hColB]
    exact separates_plane_iff hColB hTest (fun a' => ⟨_, rfl⟩)
      (fun a' v => cmVec3Dot_move _ _ _ _) hPlaneA h

theorem separates_aabb_iff {ha : CmVec3 K} (hSqrt : IsSqrt sqrt) (hColA : a.collider = .aabb ha)
    (hA : PositiveSize a.collider) (hB : PositiveSize b.collider) (hPair : ¬CapsuleOnBox a b)
    (h : collidePair sqrt a b = some c) : Separates sqrt a b c ↔ DepthFits a b := by
  have hPlaneA : isPlane a = false := by rw [isPlane, hColA]
  unfold CapsuleOnBox at hPair
  unfold DepthFits
  rw [hColA] at hA hPair ⊢
  cases hColB : b.collider with
  | sphere rb =>
    have hPlaneB : isPlane b = false := by rw [isPlane, hColB]
    rw [hColB] at hB
    refine (sphereAabb_round sqrt rb hA).separates_flip_iff hSqrt hB
      (fun a b => closestOnBox_mem b hA a.position) (fun a' b' hA' hB' => ?_) hPlaneA hPlaneB h
    simp only [collidePair, hA', hB', hColA, hColB]
  | aabb hb =>
    have hPlaneB : isPlane b = false := by rw [isPlane, hColB]
    have hTest : ∀ a' b', a'.collider = a.collider → b'.collider = b.collider →
        collidePair sqrt a' b' = collideAabbAabb a' b' ha hb := by
      intro a' b' hA' hB'
      simp only [collidePair, hA', hB', hColA, hColB]
    rw [separates_iff hTest hPlaneA hPlaneB]
    exact iff_of_true (collideAabbAabb_leaves ((hTest a b rfl rfl).symm.trans h)) trivial
  | capsule rb hh =>
    rw [hColB] at hPair
    exact absurd trivial hPair
  | plane n d =>
    have hTest : ∀ a', a'.collider = a.collider →
        collidePair sqrt a' b = collideAabbPlane a' ha n d := by
      intro a' hA'
      simp only [collidePair, hA', hColA, hColB]
    exact separates_plane_iff hColB hTest (fun a' => ⟨_, rfl⟩)
      (fun a' v => cmVec3Dot_move _ _ _ _) hPlaneA h

theorem separates_capsule_iff {ra hhA : K} (hSqrt : IsSqrt sqrt)
    (hColA : a.collider = .capsule ra hhA) (hA : 0 < ra) (hB : PositiveSize b.collider)
    (hPair : ¬CapsuleOnBox a b) (h : collidePair sqrt a b = some c) :
    Separates sqrt a b c ↔ DepthFits a b := by
  have hPlaneA : isPlane a = false := by rw [isPlane, hColA]
  unfold CapsuleOnBox at hPair
  unfold DepthFits
  rw [hColA] at hPair ⊢
  cases hColB : b.collider with
  | sphere rb =>
    have hPlaneB : isPlane b = false := by rw [isPlane, hColB]
    rw [hColB] at hB
    refine (capsuleSphere_round sqrt ra hhA rb).separates_iff hSqrt (add_pos hA hB)
      (fun a b => closestPointSegment_closest _ _ b.position) (fun a' b' hA' hB' => ?_)
      hPlaneA hPlaneB h
    simp only [collidePair, hA', hB', hColA, hColB]
  | aabb he =>
    rw [hColB] at hPair
    exact absurd trivial hPair
  | capsule rb hhB =>
    have hPlaneB : isPlane b = false := by rw [isPlane, hColB]
    rw [hColB] at hB
    refine (capsuleCapsule_round sqrt ra hhA rb hhB).separates_iff hSqrt (add_pos hA hB.1)
      (fun a b => capsules_closest a b hhA hhB) (fun a' b' hA' hB' => ?_) hPlaneA hPlaneB h
    simp only [collidePair, hA', hB', hColA, hColB]
  | plane n d =>
    have hTest : ∀ a', a'.collider = a.collider →
        collidePair sqrt a' b = collideCapsulePlane a' ra hhA n d := by
      intro a' hA'
      simp only [collidePair, hA', hColA, hColB]
    exact separates_plane_iff hColB hTest (fun a' => ⟨_, rfl⟩) (capsulePlaneDist_move hhA n d)
      hPlaneA h

theorem separates_planes_iff {n : CmVec3 K} {d : K} (hColA : a.collider = .plane n d)
    (h : collidePair sqrt a b = some c) : Separates sqrt a b c ↔ DepthFits a b := by
  unfold DepthFits
  rw [hColA]
  cases hColB : b.collider with
  | sphere rb =>
    have hPlaneB : isPlane b = false := by rw [isPlane, hColB]
    have hTest : ∀ b', b'.collider = b.collider →
        collidePair sqrt a b' = (collideSpherePlane b' rb n d).map PairContact.flip := by
      intro b' hB'
      simp only [collidePair, hB', hColA, hColB]
    exact separates_flip_plane_iff hColA hTest (fun b' => ⟨_, rfl⟩)
      (fun b' v => cmVec3Dot_move _ _ _ _) hPlaneB h
  | aabb he =>
    have hPlaneB : isPlane b = false := by rw [isPlane, hColB]
    have hTest : ∀ b', b'.collider = b.collider →
        collidePair sqrt a b' = (collideAabbPlane b' he n d).map PairContact.flip := by
      intro b' hB'
      simp only [collidePair, hB', hColA, hColB]
    exact separates_flip_plane_iff hColA hTest (fun b' => ⟨_, rfl⟩)
      (fun b' v => cmVec3Dot_move _ _ _ _) hPlaneB h
  | capsule rb hh =>
    have hPlaneB : isPlane b = false := by rw [isPlane, hColB]
    have hTest : ∀ b', b'.collider = b.collider →
        collidePair sqrt a b' = (collideCapsulePlane b' rb hh n d).map PairContact.flip := by
      intro b' hB'
      simp only [collidePair, hB', hColA, hColB]
    exact separates_flip_plane_iff hColA hTest (fun b' => ⟨_, rfl⟩)
      (capsulePlaneDist_move hh n d) hPlaneB h
  | plane n' d' =>
    simp only [collidePair, hColA, hColB] at h
    cases h

/-- Of two bodies of which none is a capsule against a box, a contact separates them exactly where
the normal fits. -/
theorem separates_iff_depthFits (hSqrt : IsSqrt sqrt) (hA : PositiveSize a.collider)
    (hB : PositiveSize b.collider) (hPair : ¬CapsuleOnBox a b) (h : collidePair sqrt a b = some c) :
    Separates sqrt a b c ↔ DepthFits a b := by
  cases hColA : a.collider with
  | sphere ra =>
    rw [hColA] at hA
    exact separates_sphere_iff hSqrt hColA hA hB h
  | aabb ha => exact separates_aabb_iff hSqrt hColA hA hB hPair h
  | capsule ra hhA =>
    rw [hColA] at hA
    exact separates_capsule_iff hSqrt hColA hA.1 hB hPair h
  | plane n d => exact separates_planes_iff hColA h

/-- Of a capsule and a box a contact separates the two where the point that has been compared is one
that is closest to the box and the normal fits. -/
theorem separates_of_capsuleFits (hSqrt : IsSqrt sqrt) (hA : PositiveSize a.collider)
    (hB : PositiveSize b.collider) (hPair : CapsuleOnBox a b) (hFits : DepthFits a b)
    (h : collidePair sqrt a b = some c) : Separates sqrt a b c := by
  unfold DepthFits at hFits
  unfold CapsuleOnBox at hPair
  cases hColA : a.collider with
  | capsule r hh =>
    have hPlaneA : isPlane a = false := by rw [isPlane, hColA]
    rw [hColA] at hA hPair hFits
    cases hColB : b.collider with
    | aabb he =>
      have hPlaneB : isPlane b = false := by rw [isPlane, hColB]
      rw [hColB] at hB hFits
      have hTest : ∀ a' b', a'.collider = a.collider → b'.collider = b.collider →
          collidePair sqrt a' b' = collideCapsuleAabb sqrt a' b' r hh he := by
        intro a' b' hA' hB'
        simp only [collidePair, hA', hB', hColA, hColB]
      have hContact := (hTest a b rfl rfl).symm.trans h
      have hRound := capsuleAabb_round sqrt r hh hB
      exact (separates_iff hTest hPlaneA hPlaneB).mpr ⟨hRound.depth_pos hSqrt hA.1 hContact,
        hRound.leaves hSqrt hA.1 hFits.1 hContact hFits.2⟩
    | _ =>
      rw [hColB] at hPair
      exact absurd hPair id
  | aabb he =>
    have hPlaneA : isPlane a = false := by rw [isPlane, hColA]
    rw [hColA] at hA hPair hFits
    cases hColB : b.collider with
    | capsule r hh =>
      have hPlaneB : isPlane b = false := by rw [isPlane, hColB]
      rw [hColB] at hB hFits
      have hTest : ∀ a' b', a'.collider = a.collider → b'.collider = b.collider →
          collidePair sqrt a' b' = (collideCapsuleAabb sqrt b' a' r hh he).map
            PairContact.flip := by
        intro a' b' hA' hB'
        simp only [collidePair, hA', hB', hColA, hColB]
      rw [hTest a b rfl rfl] at h
      obtain ⟨c', hContact, rfl⟩ := Option.map_eq_some_iff.mp h
      have hRound := capsuleAabb_round sqrt r hh hA
      exact (separates_flip_iff hTest hPlaneA hPlaneB).mpr
        ⟨hRound.depth_pos hSqrt hB.1 hContact,
          hRound.leaves hSqrt hB.1 hFits.1 hContact hFits.2⟩
    | _ =>
      rw [hColB] at hPair
      exact absurd hPair id
  | _ =>
    rw [hColA] at hPair
    exact absurd hPair id

end Ordered

/-- A contact separates its bodies where the normal fits, and only there unless a capsule meets a
box. -/
theorem depth_separates (a b : PhysBody ℝ) (hA : PositiveSize a.collider)
    (hB : PositiveSize b.collider) {c : PairContact ℝ} (h : collidePair Real.sqrt a b = some c) :
    (DepthFits a b → Separates Real.sqrt a b c) ∧
      (¬CapsuleOnBox a b → Separates Real.sqrt a b c → DepthFits a b) := by
  refine ⟨fun hFits => ?_, fun hPair => (separates_iff_depthFits isSqrt_real hA hB hPair h).mp⟩
  by_cases hPair : CapsuleOnBox a b
  · exact separates_of_capsuleFits isSqrt_real hA hB hPair hFits h
  · exact (separates_iff_depthFits isSqrt_real hA hB hPair h).mpr hFits

noncomputable def ballLeft : PhysBody ℝ := createdBody 0 cmVec3Zero 1 (.sphere 1)

noncomputable def ballRight : PhysBody ℝ := createdBody 1 ⟨1, 0, 0⟩ 1 (.sphere 1)

theorem depth_separates_balls : ∃ c, collidePair Real.sqrt ballLeft ballRight = some c ∧
    Separates Real.sqrt ballLeft ballRight c := by
  have hSome : collidePair Real.sqrt ballLeft ballRight ≠ none := by
    intro hNone
    have hTest : collideSphereSphere Real.sqrt ballLeft ballRight 1 1 = none := hNone
    have hFar : ((1 : ℝ) + 1) * (1 + 1) ≤ cmVec3Dot (cmVec3Sub ballRight.position ballLeft.position)
        (cmVec3Sub ballRight.position ballLeft.position) := roundContact_eq_none_iff.mp hTest
    norm_num [cmVec3Dot, cmVec3Sub, cmVec3Zero, ballLeft, ballRight, createdBody] at hFar
  obtain ⟨c, hContact⟩ := Option.ne_none_iff_exists'.mp hSome
  have hFits : DepthFits ballLeft ballRight := by
    refine Or.inl ?_
    rintro x rfl y rfl
    norm_num [distanceSq, cmVec3Dot, cmVec3Sub, cmVec3Zero, ballLeft, ballRight, createdBody,
      cmEpsilon]
  exact ⟨c, hContact, (depth_separates ballLeft ballRight one_pos one_pos hContact).1 hFits⟩

/-- A ball in a box that is much larger than it. -/
noncomputable def ballInside : PhysBody ℝ := createdBody 0 ⟨1, 0, 0⟩ 1 (.sphere (1 / 2))

noncomputable def boxAround : PhysBody ℝ := createdBody 1 cmVec3Zero 0 (.aabb ⟨2, 2, 2⟩)

/-- The depth is the radius of the ball, which leaves its centre in the box. -/
theorem ballInside_stays : ¬∀ (a b : PhysBody ℝ) (c : PairContact ℝ), PositiveSize a.collider →
    PositiveSize b.collider → collidePair Real.sqrt a b = some c → Separates Real.sqrt a b c := by
  intro hAll
  have hBall : PositiveSize ballInside.collider := by
    norm_num [PositiveSize, ballInside, createdBody]
  have hBox : PositiveSize boxAround.collider := ⟨two_pos, two_pos, two_pos⟩
  have hClosest : closestOnBox (boxOf boxAround ⟨2, 2, 2⟩) ballInside.position = ⟨1, 0, 0⟩ := by
    norm_num [closestOnBox, boxOf, physClamp, boxAround, ballInside, createdBody, cmVec3Sub,
      cmVec3Add, cmVec3Zero]
  have hNormal : faceNormal (boxOf boxAround ⟨2, 2, 2⟩) ballInside.position = ⟨-1, 0, 0⟩ := by
    norm_num [faceNormal, physMin, boxOf, boxAround, ballInside, createdBody, cmVec3Sub, cmVec3Add,
      cmVec3Zero, cmVec3]
  have hSome : collidePair Real.sqrt ballInside boxAround ≠ none := by
    intro hNone
    have hTest : collideSphereAabb Real.sqrt ballInside boxAround (1 / 2) ⟨2, 2, 2⟩ = none := hNone
    dsimp only [collideSphereAabb] at hTest
    rw [roundContact_eq_none_iff, hClosest] at hTest
    norm_num [cmVec3Dot, cmVec3Sub, ballInside, createdBody] at hTest
  obtain ⟨c, hContact⟩ := Option.ne_none_iff_exists'.mp hSome
  have hFits : NormalFits (sphereCore ballInside) (boxCore ⟨2, 2, 2⟩ boxAround)
      (faceNormal (boxOf boxAround ⟨2, 2, 2⟩) ballInside.position) :=
    (separates_iff_depthFits isSqrt_real hBall hBox id hContact).mp
      (hAll ballInside boxAround c hBall hBox hContact)
  rw [hNormal] at hFits
  have hInside : ∀ x : ℝ, -2 ≤ x → x ≤ 2 → (⟨x, 0, 0⟩ : CmVec3 ℝ) ∈ boxCore ⟨2, 2, 2⟩ boxAround := by
    intro x hLow hHigh
    refine ⟨⟨?_, ?_⟩, ⟨?_, ?_⟩, ⟨?_, ?_⟩⟩ <;>
      norm_num [boxOf, boxAround, createdBody, cmVec3Sub, cmVec3Add, cmVec3Zero, hLow, hHigh]
  rcases hFits with hApart | hAlong
  · have hZero := hApart ballInside.position rfl ⟨1, 0, 0⟩ (hInside 1 (by norm_num) (by norm_num))
    norm_num [distanceSq, cmVec3Dot, cmVec3Sub, ballInside, createdBody, cmEpsilon] at hZero
  · have hNonneg := (hAlong ballInside.position rfl ⟨2, 0, 0⟩
      (hInside 2 (by norm_num) le_rfl)).1
    norm_num [cmVec3Dot, cmVec3Sub, ballInside, createdBody] at hNonneg

end Calynda.Physics
