import Calynda.Math.Cores
import Calynda.Math.Rays
import Calynda.Physics.Broadphase
import Calynda.Physics.Capsules
import Calynda.Physics.Contacts

/-!
# The narrow phase

The tests of two shapes, and the dispatch to them. The tests of round shapes compare the distance of
two cores, and take a direction of their own where the cores are too near to each other.
-/

namespace Calynda.Physics

open Calynda.Lib

variable {K : Type*} [Field K] [LinearOrder K]

def closestPointSegment (a b p : CmVec3 K) : CmVec3 K :=
  let ab := cmVec3Sub b a
  let t := cmVec3Dot (cmVec3Sub p a) ab
  let denom := cmVec3Dot ab ab
  if denom < cmEpsilon then a else cmVec3Add a (cmVec3Scale ab (physClamp (t / denom) 0 1))

/-- The end of the tests of round shapes, from the way between the cores, the sum of the radii and
the direction for cores that are too near. -/
def roundContact (sqrt : K → K) (d : CmVec3 K) (rSum : K) (fallback : CmVec3 K)
    (point : CmVec3 K → K → CmVec3 K) : Option (PairContact K) :=
  let dist2 := cmVec3Dot d d
  if dist2 ≥ rSum * rSum then none
  else
    let dist := sqrt dist2
    let normal := if dist > cmEpsilon then cmVec3Scale d (1 / dist) else fallback
    let depth := rSum - dist
    some ⟨normal, depth, point normal depth⟩

/-- The end of the tests against a plane, from the extent of the shape along the normal, the
distance and the point that it has been measured at. -/
def planeContact (n : CmVec3 K) (extent dist : K) (point : CmVec3 K) : Option (PairContact K) :=
  if dist ≥ extent then none
  else some ⟨cmVec3Neg n, extent - dist, cmVec3Sub point (cmVec3Scale n dist)⟩

def collideSphereSphere (sqrt : K → K) (a b : PhysBody K) (radiusA radiusB : K) :
    Option (PairContact K) :=
  roundContact sqrt (cmVec3Sub b.position a.position) (radiusA + radiusB) (cmVec3 0 1 0)
    fun normal depth =>
      cmVec3Add a.position (cmVec3Scale normal (radiusA - depth * (1 / 2)))

def boxOf (box : PhysBody K) (he : CmVec3 K) : CmAABB K :=
  ⟨cmVec3Sub box.position he, cmVec3Add box.position he⟩

/-- The closest point of the box to a point. -/
def closestOnBox (b : CmAABB K) (p : CmVec3 K) : CmVec3 K :=
  ⟨physClamp p.x b.min.x b.max.x, physClamp p.y b.min.y b.max.y, physClamp p.z b.min.z b.max.z⟩

/-- The direction into the box from the face that is nearest. -/
def faceNormal (b : CmAABB K) (spos : CmVec3 K) : CmVec3 K :=
  let dx := physMin (spos.x - b.min.x) (b.max.x - spos.x)
  let dy := physMin (spos.y - b.min.y) (b.max.y - spos.y)
  let dz := physMin (spos.z - b.min.z) (b.max.z - spos.z)
  if dx ≤ dy ∧ dx ≤ dz then
    if spos.x - b.min.x < b.max.x - spos.x then cmVec3 1 0 0 else cmVec3 (-1) 0 0
  else if dy ≤ dz then
    if spos.y - b.min.y < b.max.y - spos.y then cmVec3 0 1 0 else cmVec3 0 (-1) 0
  else if spos.z - b.min.z < b.max.z - spos.z then cmVec3 0 0 1 else cmVec3 0 0 (-1)

def collideSphereAabb (sqrt : K → K) (sphere box : PhysBody K) (r : K) (he : CmVec3 K) :
    Option (PairContact K) :=
  let closest := closestOnBox (boxOf box he) sphere.position
  roundContact sqrt (cmVec3Sub closest sphere.position) r
    (faceNormal (boxOf box he) sphere.position) fun _ _ => closest

def collideSpherePlane (sphere : PhysBody K) (r : K) (n : CmVec3 K) (d : K) :
    Option (PairContact K) :=
  planeContact n r (cmVec3Dot sphere.position n - d) sphere.position

/-- The axis of the least overlap of two boxes, and the way along it from one to the other. -/
def collideAabbAabb (a b : PhysBody K) (ha hb : CmVec3 K) : Option (PairContact K) :=
  let d := cmVec3Sub b.position a.position
  let ox := ha.x + hb.x - cmAbsf d.x
  let oy := ha.y + hb.y - cmAbsf d.y
  let oz := ha.z + hb.z - cmAbsf d.z
  let point := cmVec3Add a.position (cmVec3Scale d (1 / 2))
  if ox ≤ 0 then none
  else if oy ≤ 0 then none
  else if oz ≤ 0 then none
  else if ox ≤ oy ∧ ox ≤ oz then
    some ⟨if d.x > 0 then cmVec3 1 0 0 else cmVec3 (-1) 0 0, ox, point⟩
  else if oy ≤ oz then some ⟨if d.y > 0 then cmVec3 0 1 0 else cmVec3 0 (-1) 0, oy, point⟩
  else some ⟨if d.z > 0 then cmVec3 0 0 1 else cmVec3 0 0 (-1), oz, point⟩

def collideAabbPlane (box : PhysBody K) (he n : CmVec3 K) (d : K) : Option (PairContact K) :=
  planeContact n (he.x * cmAbsf n.x + he.y * cmAbsf n.y + he.z * cmAbsf n.z)
    (cmVec3Dot box.position n - d) box.position

def collideCapsuleSphere (sqrt : K → K) (cap sph : PhysBody K) (capRadius halfHeight radius : K) :
    Option (PairContact K) :=
  let ends := capsuleEndpoints cap halfHeight
  let closest := closestPointSegment ends.1 ends.2 sph.position
  roundContact sqrt (cmVec3Sub sph.position closest) (capRadius + radius) (cmVec3 0 1 0)
    fun normal _ => cmVec3Add closest (cmVec3Scale normal capRadius)

def collideCapsulePlane (cap : PhysBody K) (r halfHeight : K) (n : CmVec3 K) (d : K) :
    Option (PairContact K) :=
  let ends := capsuleEndpoints cap halfHeight
  let d0 := cmVec3Dot ends.1 n - d
  let d1 := cmVec3Dot ends.2 n - d
  planeContact n r (if d0 < d1 then d0 else d1) (if d0 < d1 then ends.1 else ends.2)

def collideCapsuleAabb (sqrt : K → K) (cap box : PhysBody K) (r halfHeight : K) (he : CmVec3 K) :
    Option (PairContact K) :=
  let ends := capsuleEndpoints cap halfHeight
  let segClosest := closestPointSegment ends.1 ends.2 box.position
  let closest := closestOnBox (boxOf box he) segClosest
  roundContact sqrt (cmVec3Sub closest segClosest) r (cmVec3 0 1 0) fun _ _ => closest

/-- The contact with the bodies the other way round. -/
def PairContact.flip (c : PairContact K) : PairContact K := { c with normal := cmVec3Neg c.normal }

def collidePair (sqrt : K → K) (a b : PhysBody K) : Option (PairContact K) :=
  match a.collider, b.collider with
  | .sphere ra, .sphere rb => collideSphereSphere sqrt a b ra rb
  | .sphere r, .aabb he => collideSphereAabb sqrt a b r he
  | .aabb he, .sphere r => (collideSphereAabb sqrt b a r he).map PairContact.flip
  | .sphere r, .plane n d => collideSpherePlane a r n d
  | .plane n d, .sphere r => (collideSpherePlane b r n d).map PairContact.flip
  | .aabb ha, .aabb hb => collideAabbAabb a b ha hb
  | .aabb he, .plane n d => collideAabbPlane a he n d
  | .plane n d, .aabb he => (collideAabbPlane b he n d).map PairContact.flip
  | .capsule ra hhA, .capsule rb hhB => collideCapsuleCapsule sqrt a b ra hhA rb hhB
  | .capsule r hh, .sphere radius => collideCapsuleSphere sqrt a b r hh radius
  | .sphere radius, .capsule r hh => (collideCapsuleSphere sqrt b a r hh radius).map PairContact.flip
  | .capsule r hh, .plane n d => collideCapsulePlane a r hh n d
  | .plane n d, .capsule r hh => (collideCapsulePlane b r hh n d).map PairContact.flip
  | .capsule r hh, .aabb he => collideCapsuleAabb sqrt a b r hh he
  | .aabb he, .capsule r hh => (collideCapsuleAabb sqrt b a r hh he).map PairContact.flip
  | .plane _ _, .plane _ _ => none

/-! ## Moving a body -/

def moveBody (b : PhysBody K) (v : CmVec3 K) : PhysBody K :=
  { b with position := cmVec3Add b.position v }

/-- After either of two bodies has been moved out of a contact the test does not hold. -/
structure Leaves (test : PhysBody K → PhysBody K → Option (PairContact K)) (a b : PhysBody K)
    (c : PairContact K) : Prop where
  first : test (moveBody a (cmVec3Neg (cmVec3Scale c.normal c.depth))) b = none
  second : test a (moveBody b (cmVec3Scale c.normal c.depth)) = none

def moved (A : Set (CmVec3 K)) (v : CmVec3 K) : Set (CmVec3 K) := {x | cmVec3Sub x v ∈ A}

section Ordered

variable [IsStrictOrderedRing K] {sqrt : K → K} {A B : Set (CmVec3 K)} {x y : CmVec3 K}

omit [IsStrictOrderedRing K] in
theorem clearOf_moved_second (A B : Set (CmVec3 K)) (v : CmVec3 K) (r : K) :
    (∀ x ∈ A, ∀ y ∈ moved B v, r * r ≤ distanceSq x y) ↔ ClearOf A B v r := by
  constructor
  · intro h x hX y hY
    have hLe := h x hX (cmVec3Add y v) (by simpa [moved] using hY)
    convert hLe using 1
    simp only [distanceSq, cmVec3Dot, cmVec3Add_x, cmVec3Add_y, cmVec3Add_z, cmVec3Sub_x,
      cmVec3Sub_y, cmVec3Sub_z]
    ring
  · intro h x hX y hY
    have hLe := h x hX (cmVec3Sub y v) hY
    convert hLe using 1
    simp only [distanceSq, cmVec3Dot, cmVec3Add_x, cmVec3Add_y, cmVec3Add_z, cmVec3Sub_x,
      cmVec3Sub_y, cmVec3Sub_z]
    ring

omit [IsStrictOrderedRing K] in
theorem clearOf_moved_first (A B : Set (CmVec3 K)) (v : CmVec3 K) (r : K) :
    (∀ x ∈ moved A (cmVec3Neg v), ∀ y ∈ B, r * r ≤ distanceSq x y) ↔ ClearOf A B v r := by
  constructor
  · intro h x hX y hY
    have hLe := h (cmVec3Sub x v) (by simpa [moved] using hX) y hY
    convert hLe using 1
    simp only [distanceSq, cmVec3Dot, cmVec3Add_x, cmVec3Add_y, cmVec3Add_z, cmVec3Sub_x,
      cmVec3Sub_y, cmVec3Sub_z]
    ring
  · intro h x hX y hY
    have hLe := h (cmVec3Sub x (cmVec3Neg v)) hX y hY
    convert hLe using 1
    simp only [distanceSq, cmVec3Dot, cmVec3Add_x, cmVec3Add_y, cmVec3Add_z, cmVec3Sub_x,
      cmVec3Sub_y, cmVec3Sub_z, cmVec3Neg_x, cmVec3Neg_y, cmVec3Neg_z]
    ring

omit [IsStrictOrderedRing K] in
theorem roundContact_eq_none_iff {d : CmVec3 K} {r : K} {fallback : CmVec3 K}
    {point : CmVec3 K → K → CmVec3 K} :
    roundContact sqrt d r fallback point = none ↔ r * r ≤ cmVec3Dot d d := by
  dsimp only [roundContact]
  split_ifs with hFar
  · exact iff_of_true rfl hFar
  all_goals exact iff_of_false (fun hNone => by cases hNone) hFar

/-- The contact of two round shapes has a positive depth, and moving either of them by it along the
normal clears the cores exactly if the normal fits. -/
theorem roundContact_clear_iff (hSqrt : IsSqrt sqrt) (hA : ConvexCore A) (hB : ConvexCore B)
    (hClosest : ClosestIn A B x y) {r : K} (hR : 0 < r) {fallback : CmVec3 K}
    (hUnit : cmVec3Dot fallback fallback = 1) {point : CmVec3 K → K → CmVec3 K} {c : PairContact K}
    (h : roundContact sqrt (cmVec3Sub y x) r fallback point = some c) :
    0 < c.depth ∧ (ClearOf A B (cmVec3Scale c.normal c.depth) r ↔ NormalFits A B fallback) := by
  have hNear : ¬r * r ≤ distanceSq x y := fun hFar => by
    rw [roundContact_eq_none_iff.mpr hFar] at h
    cases h
  obtain ⟨hRoot, hRootSq⟩ := hSqrt (distanceSq x y) (cmVec3Dot_self_nonneg _)
  set dist := sqrt (distanceSq x y) with hDist
  have hLess : dist < r := by
    refine lt_of_mul_self_lt_mul_self₀ hR.le ?_
    rw [hRootSq]
    exact not_le.mp hNear
  have hEq : c = ⟨if dist > cmEpsilon then cmVec3Scale (cmVec3Sub y x) (1 / dist) else fallback,
      r - dist, point (if dist > cmEpsilon then cmVec3Scale (cmVec3Sub y x) (1 / dist) else fallback)
        (r - dist)⟩ := by
    have hNear' : ¬cmVec3Dot (cmVec3Sub y x) (cmVec3Sub y x) ≥ r * r := hNear
    dsimp only [roundContact] at h
    rw [if_neg hNear'] at h
    exact (Option.some.inj h).symm
  rw [hEq]
  refine ⟨sub_pos.mpr hLess, ?_⟩
  by_cases hFar : dist > cmEpsilon
  · have hPos : 0 < dist := cmEpsilon_pos.trans hFar
    dsimp only
    rw [if_pos hFar]
    have hSupports := hClosest.supports hA hB hPos hRootSq
    have hLength : cmVec3Dot (cmVec3Scale (cmVec3Sub y x) (1 / dist))
        (cmVec3Scale (cmVec3Sub y x) (1 / dist)) = 1 := by
      rw [cmVec3Dot_scale_right, cmVec3Dot_comm, cmVec3Dot_scale_right, mul_one_div, mul_one_div,
        show cmVec3Dot (cmVec3Sub y x) (cmVec3Sub y x) = dist * dist from hRootSq.symm,
        mul_div_cancel_right₀ _ hPos.ne', div_self hPos.ne']
    refine iff_of_true (hSupports.clear hLength hR.le) (Or.inl fun u hU v hV => ?_)
    exact ((mul_self_lt_mul_self cmEpsilon_pos.le hFar).trans_eq hRootSq).trans_le
      (hClosest.le u hU v hV)
  · dsimp only
    rw [if_neg hFar]
    have hSupports : ClearOf A B (cmVec3Scale fallback (r - dist)) r ↔ Supports A B fallback dist :=
      ⟨ClearOf.supports hA hB hClosest hUnit hRoot hRootSq hLess, fun h => h.clear hUnit hR.le⟩
    rw [hSupports, hClosest.supports_iff hRoot hRootSq]
    refine ⟨Or.inr, fun hFits => hFits.resolve_left fun hAll => ?_⟩
    have hMore := hAll x hClosest.first y hClosest.second
    rw [← hRootSq] at hMore
    exact absurd (mul_self_le_mul_self hRoot (not_lt.mp hFar)) hMore.not_ge

end Ordered

end Calynda.Physics
