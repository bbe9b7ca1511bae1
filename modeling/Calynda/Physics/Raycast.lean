import Calynda.Math.Rays
import Calynda.Physics.World
import Mathlib.Analysis.Real.Sqrt

/-!
# Ray casts

The cast of a ray into a world keeps the nearest body so far. It returns the first hit of all bodies
that the test of a single body hits.
-/

namespace Calynda.Physics

open Calynda.Lib

variable {K : Type*} [Field K] [LinearOrder K]

structure PhysRayResult (K : Type*) where
  body : Nat
  point : CmVec3 K
  normal : CmVec3 K
  distance : K
  deriving DecidableEq

/-- The side of a box that a point of its surface is taken to be on. -/
def boxNormal (rel he : CmVec3 K) : CmVec3 K :=
  let ax := cmAbsf (rel.x / he.x)
  let ay := cmAbsf (rel.y / he.y)
  let az := cmAbsf (rel.z / he.z)
  if ax > ay ∧ ax > az then cmVec3 (if rel.x > 0 then 1 else -1) 0 0
  else if ay > az then cmVec3 0 (if rel.y > 0 then 1 else -1) 0
  else cmVec3 0 0 (if rel.z > 0 then 1 else -1)

def sphereHit (sqrt : K → K) (ray : CmRay K) (center : CmVec3 K) (radius : K) :
    Option (K × CmVec3 K) :=
  (cmRayVsSphere sqrt ray ⟨center, radius⟩).map fun t =>
    (t, cmVec3Normalize sqrt (cmVec3Sub (ray.at t) center))

/-- The best parameter so far with its normal, and whether there has been a hit. -/
def betterHit (found : Option (K × CmVec3 K)) (best : K × CmVec3 K × Bool) :
    K × CmVec3 K × Bool :=
  match found with
  | none => best
  | some (t, n) => if t < best.1 then (t, n, true) else best

/-- A capsule is taken for its two spheres and a box, and as upright. -/
def capsuleHit (sqrt : K → K) (ray : CmRay K) (position : CmVec3 K) (r hh : K) :
    Option (K × CmVec3 K) :=
  let up : CmVec3 K := ⟨0, hh, 0⟩
  let extent : CmVec3 K := ⟨r, hh + r, r⟩
  let box := (cmRayVsAabb ray ⟨cmVec3Sub position extent, cmVec3Add position extent⟩).map fun t =>
    (t, cmVec3 0 1 0)
  let best := betterHit (sphereHit sqrt ray (cmVec3Add position up) r) (rayLimit, cmVec3 0 1 0, false)
  let best := betterHit (sphereHit sqrt ray (cmVec3Sub position up) r) best
  let best := betterHit box best
  if best.2.2 then some (best.1, best.2.1) else none

/-- The parameter of the hit and the normal there. -/
def rayVsBody (sqrt : K → K) (ray : CmRay K) (body : PhysBody K) : Option (K × CmVec3 K) :=
  match body.collider with
  | .sphere radius => sphereHit sqrt ray body.position radius
  | .aabb he =>
    (cmRayVsAabb ray ⟨cmVec3Sub body.position he, cmVec3Add body.position he⟩).map fun t =>
      (t, boxNormal (cmVec3Sub (ray.at t) body.position) he)
  | .plane normal distance => (cmRayVsPlane ray ⟨normal, distance⟩).map fun t => (t, normal)
  | .capsule radius halfHeight => capsuleHit sqrt ray body.position radius halfHeight

def raycastStep (sqrt : K → K) (w : PhysWorld K) (ray : CmRay K) (layerMask : BitVec 32)
    (st : K × Option (PhysRayResult K)) (i : Nat) : K × Option (PhysRayResult K) :=
  let b := w.bodies i
  if b.active = false then st
  else if layerMask &&& b.collisionLayer = 0 then st
  else
    match rayVsBody sqrt ray b with
    | none => st
    | some (t, normal) => if t < st.1 ∧ t ≥ 0 then (t, some ⟨i, ray.at t, normal, t⟩) else st

/-- Nothing where `hit` is false. -/
def physRaycast (sqrt : K → K) (w : PhysWorld K) (ray : CmRay K) (maxDist : K)
    (layerMask : BitVec 32) : Option (PhysRayResult K) :=
  ((List.range w.bodyCount.toNat).foldl (raycastStep sqrt w ray layerMask) (maxDist, none)).2

/-! ## The nearest body -/

/-- The bodies that a ray can hit. -/
structure InMask (w : PhysWorld K) (layerMask : BitVec 32) (i : Nat) : Prop where
  lt : i < w.bodyCount.toNat
  active : (w.bodies i).active = true
  layer : layerMask &&& (w.bodies i).collisionLayer ≠ 0

/-- The hit of one body of the world by itself. -/
def bodyHit (sqrt : K → K) (w : PhysWorld K) (ray : CmRay K) (layerMask : BitVec 32) (i : Nat) :
    Option (K × CmVec3 K) :=
  if (w.bodies i).active = false then none
  else if layerMask &&& (w.bodies i).collisionLayer = 0 then none
  else (rayVsBody sqrt ray (w.bodies i)).filter fun p => p.1 ≥ 0

variable {sqrt : K → K} {w : PhysWorld K} {ray : CmRay K} {maxDist : K} {layerMask : BitVec 32}

theorem bodyHit_eq_some_iff {i : Nat} {t : K} {n : CmVec3 K} :
    bodyHit sqrt w ray layerMask i = some (t, n) ↔
      ((w.bodies i).active = true ∧ layerMask &&& (w.bodies i).collisionLayer ≠ 0) ∧
        rayVsBody sqrt ray (w.bodies i) = some (t, n) ∧ 0 ≤ t := by
  unfold bodyHit
  split_ifs with hActive hLayer
  · simp [hActive]
  · simp [hLayer]
  · rw [Option.filter_eq_some_iff]
    constructor
    · rintro ⟨hBody, hAhead⟩
      exact ⟨⟨Bool.eq_true_of_not_eq_false hActive, hLayer⟩, hBody, of_decide_eq_true hAhead⟩
    · rintro ⟨-, hBody, hAhead⟩
      exact ⟨hBody, decide_eq_true hAhead⟩

/-- What a scan has found, as the record of the nearest body. -/
def toResult (ray : CmRay K) (st : K × Option (Nat × CmVec3 K)) : K × Option (PhysRayResult K) :=
  (st.1, st.2.map fun p => ⟨p.1, ray.at st.1, p.2, st.1⟩)

theorem raycastStep_toResult (st : K × Option (Nat × CmVec3 K)) (i : Nat) :
    raycastStep sqrt w ray layerMask (toResult ray st) i =
      toResult ray (scanStep (bodyHit sqrt w ray layerMask) st i) := by
  dsimp only [raycastStep, scanStep, bodyHit]
  split_ifs with hActive hLayer
  · rfl
  · rfl
  · cases hBody : rayVsBody sqrt ray (w.bodies i) with
    | none => rfl
    | some p =>
      obtain ⟨t, n⟩ := p
      by_cases hAhead : 0 ≤ t
      · have hFilter : (some (t, n)).filter (fun p : K × CmVec3 K => p.1 ≥ 0) = some (t, n) := by
          simp [Option.filter, hAhead]
        rw [hFilter]
        by_cases hLess : t < st.1
        · simp [toResult, hLess, hAhead]
        · simp [toResult, hLess]
      · have hFilter : (some (t, n)).filter (fun p : K × CmVec3 K => p.1 ≥ 0) = none := by
          simp [Option.filter, hAhead]
        rw [hFilter]
        simp [toResult, hAhead]

theorem physRaycast_eq_scan : physRaycast sqrt w ray maxDist layerMask =
    (toResult ray (scan (bodyHit sqrt w ray layerMask) maxDist w.bodyCount.toNat)).2 := by
  unfold physRaycast scan
  rw [← List.foldl_hom (toResult ray) raycastStep_toResult]
  rfl

/-- The cast finds nothing if no body is hit below the bound, and else the first of the nearest
bodies. -/
theorem physRaycast_cases (sqrt : K → K) (w : PhysWorld K) (ray : CmRay K) (maxDist : K)
    (layerMask : BitVec 32) :
    (physRaycast sqrt w ray maxDist layerMask = none ∧ ∀ j < w.bodyCount.toNat, ∀ u m,
      bodyHit sqrt w ray layerMask j = some (u, m) → maxDist ≤ u) ∨
    ∃ i t n, physRaycast sqrt w ray maxDist layerMask = some ⟨i, ray.at t, n, t⟩ ∧
      FirstLeast (bodyHit sqrt w ray layerMask) maxDist w.bodyCount.toNat i t n := by
  rw [physRaycast_eq_scan]
  have hScanned := scan_scanned (bodyHit sqrt w ray layerMask) maxDist w.bodyCount.toNat
  generalize scan (bodyHit sqrt w ray layerMask) maxDist w.bodyCount.toNat = st at hScanned
  cases hScanned with
  | nothing h => exact Or.inl ⟨rfl, h⟩
  | candidate h => exact Or.inr ⟨_, _, _, rfl, h⟩

/-! ## What is hit first -/

/-- The points of a sphere or a box, or of the surface of a plane. -/
def solidOf (b : PhysBody K) : CmVec3 K → Prop :=
  match b.collider with
  | .sphere radius => (CmSphere.mk b.position radius).Contains
  | .aabb he => (CmAABB.mk (cmVec3Sub b.position he) (cmVec3Add b.position he)).Contains
  | .plane normal distance => (CmPlane.mk normal distance).Contains
  | .capsule _ _ => fun _ => False

/-- A sphere, a plane, or a box that the line meets at parameters of moderate size. -/
def RayShape (ray : CmRay K) (b : PhysBody K) : Prop :=
  match b.collider with
  | .sphere _ => True
  | .aabb he => (0 ≤ he.x ∧ 0 ≤ he.y ∧ 0 ≤ he.z) ∧ ∀ t ∈ ray.inside (solidOf b), |t| < rayLimit
  | .plane _ _ => True
  | .capsule _ _ => False

/-- The ray does not run nearly along the plane, if it is one. -/
def Crosses (ray : CmRay K) (b : PhysBody K) : Prop :=
  match b.collider with
  | .plane normal _ => cmEpsilon ≤ |cmVec3Dot normal ray.direction|
  | _ => True

/-- The ray first comes to the body at parameter `t`. -/
def HitAt (ray : CmRay K) (b : PhysBody K) (t : K) : Prop :=
  Crosses ray b ∧ Enters (ray.inside (solidOf b)) t

/-- Boxes, spheres and worlds are hit where the ray first comes to them. -/
structure RaySound (sqrt : K → K) (ray : CmRay K) : Prop where
  box : ∀ b : CmAABB K, b.min.x ≤ b.max.x → b.min.y ≤ b.max.y → b.min.z ≤ b.max.z →
    (∀ t ∈ ray.inside b.Contains, |t| < rayLimit) →
    FirstHit (ray.inside b.Contains) (cmRayVsAabb ray b)
  sphere : ∀ s : CmSphere K, FirstHit (ray.inside s.Contains) (cmRayVsSphere sqrt ray s)
  hits : ∀ (w : PhysWorld K) (maxDist : K) (layerMask : BitVec 32),
    (∀ i, InMask w layerMask i → RayShape ray (w.bodies i)) →
    ((physRaycast sqrt w ray maxDist layerMask).isSome ↔
      ∃ i t, InMask w layerMask i ∧ HitAt ray (w.bodies i) t ∧ t < maxDist)
  nearest : ∀ (w : PhysWorld K) (maxDist : K) (layerMask : BitVec 32),
    (∀ i, InMask w layerMask i → RayShape ray (w.bodies i)) →
    ∀ r, physRaycast sqrt w ray maxDist layerMask = some r →
      InMask w layerMask r.body ∧ HitAt ray (w.bodies r.body) r.distance ∧ r.distance < maxDist ∧
        ∀ i t, InMask w layerMask i → HitAt ray (w.bodies i) t → r.distance ≤ t

theorem exists_map_eq_some_iff {α N : Type*} {o : Option α} {g : α → N} {t : α} :
    (∃ n, (o.map fun t => (t, g t)) = some (t, n)) ↔ o = some t := by
  cases o with
  | none => simp
  | some u => simp [Prod.ext_iff]

section Ordered

variable [IsStrictOrderedRing K]

/-- The test of a single body returns where the ray first comes to it. -/
theorem rayVsBody_iff (hSqrt : IsSqrt sqrt) (hDir : UnitDirection ray.direction) {b : PhysBody K}
    (hShape : RayShape ray b) (t : K) :
    (∃ n, rayVsBody sqrt ray b = some (t, n)) ↔ HitAt ray b t := by
  unfold rayVsBody HitAt Crosses solidOf
  unfold RayShape solidOf at hShape
  cases hCollider : b.collider with
  | sphere radius =>
    dsimp only [sphereHit]
    rw [exists_map_eq_some_iff, true_and]
    exact (cmRayVsSphere_firstHit hSqrt _ hDir.unit).eq_some_iff
  | aabb he =>
    rw [hCollider] at hShape
    obtain ⟨⟨hX, hY, hZ⟩, hModerate⟩ := hShape
    dsimp only
    rw [exists_map_eq_some_iff, true_and]
    have hWide : ∀ {p e : K}, 0 ≤ e → p - e ≤ p + e := fun hE =>
      (sub_le_self _ hE).trans (le_add_of_nonneg_right hE)
    exact (cmRayVsAabb_firstHit hDir (hWide hX) (hWide hY) (hWide hZ) hModerate).eq_some_iff
  | plane normal distance =>
    dsimp only
    have hMap := exists_map_eq_some_iff (o := cmRayVsPlane ray ⟨normal, distance⟩)
      (g := fun _ => normal) (t := t)
    rw [hMap]
    by_cases hCrosses : cmEpsilon ≤ |cmVec3Dot normal ray.direction|
    · rw [(cmRayVsPlane_firstHit hCrosses).eq_some_iff]
      exact (and_iff_right hCrosses).symm
    · rw [cmRayVsPlane_along (not_le.mp hCrosses)]
      exact iff_of_false (fun hNone => by cases hNone) fun hHit => hCrosses hHit.1
  | capsule radius halfHeight =>
    rw [hCollider] at hShape
    exact absurd hShape id

/-- A body of the world is hit by itself where the ray first comes to it. -/
theorem bodyHit_iff (hSqrt : IsSqrt sqrt) (hDir : UnitDirection ray.direction)
    (hShapes : ∀ i, InMask w layerMask i → RayShape ray (w.bodies i)) {i : Nat}
    (hI : i < w.bodyCount.toNat) (t : K) :
    (∃ n, bodyHit sqrt w ray layerMask i = some (t, n)) ↔
      InMask w layerMask i ∧ HitAt ray (w.bodies i) t := by
  constructor
  · rintro ⟨n, hHit⟩
    obtain ⟨⟨hActive, hLayer⟩, hBody, -⟩ := bodyHit_eq_some_iff.mp hHit
    have hMask : InMask w layerMask i := ⟨hI, hActive, hLayer⟩
    exact ⟨hMask, (rayVsBody_iff hSqrt hDir (hShapes i hMask) t).mp ⟨n, hBody⟩⟩
  · rintro ⟨hMask, hHit⟩
    obtain ⟨n, hBody⟩ := (rayVsBody_iff hSqrt hDir (hShapes i hMask) t).mpr hHit
    exact ⟨n, bodyHit_eq_some_iff.mpr ⟨⟨hMask.active, hMask.layer⟩, hBody, hHit.2.nonneg⟩⟩

theorem physRaycast_isSome_iff (hSqrt : IsSqrt sqrt) (hDir : UnitDirection ray.direction)
    (hShapes : ∀ i, InMask w layerMask i → RayShape ray (w.bodies i)) :
    (physRaycast sqrt w ray maxDist layerMask).isSome ↔
      ∃ i t, InMask w layerMask i ∧ HitAt ray (w.bodies i) t ∧ t < maxDist := by
  rcases physRaycast_cases sqrt w ray maxDist layerMask with ⟨hNone, hBeyond⟩ | ⟨i, t, n, hSome, hLeast⟩
  · rw [hNone]
    refine iff_of_false Bool.false_ne_true ?_
    rintro ⟨i, t, hMask, hHit, hBelow⟩
    obtain ⟨n, hBody⟩ := (bodyHit_iff hSqrt hDir hShapes hMask.lt t).mpr ⟨hMask, hHit⟩
    exact absurd hBelow (hBeyond i hMask.lt t n hBody).not_gt
  · rw [hSome]
    obtain ⟨hMask, hHit⟩ := (bodyHit_iff hSqrt hDir hShapes hLeast.lt t).mp ⟨n, hLeast.found⟩
    exact iff_of_true rfl ⟨i, t, hMask, hHit, hLeast.below⟩

theorem physRaycast_nearest (hSqrt : IsSqrt sqrt) (hDir : UnitDirection ray.direction)
    (hShapes : ∀ i, InMask w layerMask i → RayShape ray (w.bodies i)) {r : PhysRayResult K}
    (hResult : physRaycast sqrt w ray maxDist layerMask = some r) :
    InMask w layerMask r.body ∧ HitAt ray (w.bodies r.body) r.distance ∧ r.distance < maxDist ∧
      ∀ i t, InMask w layerMask i → HitAt ray (w.bodies i) t → r.distance ≤ t := by
  rcases physRaycast_cases sqrt w ray maxDist layerMask with ⟨hNone, -⟩ | ⟨i, t, n, hSome, hLeast⟩
  · rw [hNone] at hResult
    cases hResult
  · rw [hSome] at hResult
    obtain rfl := Option.some.inj hResult
    obtain ⟨hMask, hHit⟩ := (bodyHit_iff hSqrt hDir hShapes hLeast.lt t).mp ⟨n, hLeast.found⟩
    refine ⟨hMask, hHit, hLeast.below, fun j u hMaskJ hHitJ => ?_⟩
    obtain ⟨m, hBody⟩ := (bodyHit_iff hSqrt hDir hShapes hMaskJ.lt u).mpr ⟨hMaskJ, hHitJ⟩
    exact hLeast.least j hMaskJ.lt u m hBody

end Ordered

theorem isSqrt_real : IsSqrt Real.sqrt := fun x hX => ⟨Real.sqrt_nonneg x, Real.mul_self_sqrt hX⟩

/-- A ray of length one whose direction is along or well away from the axes returns its first
hits. -/
theorem rays_first_hit (ray : CmRay ℝ) (hDir : UnitDirection ray.direction) :
    RaySound Real.sqrt ray where
  box _ hX hY hZ hModerate := cmRayVsAabb_firstHit hDir hX hY hZ hModerate
  sphere s := cmRayVsSphere_firstHit isSqrt_real s hDir.unit
  hits _ _ _ hShapes := physRaycast_isSome_iff isSqrt_real hDir hShapes
  nearest _ _ _ hShapes _ hResult := physRaycast_nearest isSqrt_real hDir hShapes hResult

/-- The ray along the first axis. -/
def rayAlong : CmRay ℝ := ⟨⟨0, 0, 0⟩, ⟨1, 0, 0⟩⟩

theorem rayAlong_unit : UnitDirection rayAlong.direction := by
  refine ⟨?_, Or.inr ?_, Or.inl rfl, Or.inl rfl⟩
  · norm_num [rayAlong, cmVec3Dot]
  · norm_num [rayAlong, cmEpsilon]

theorem rays_first_hit_along : RaySound Real.sqrt rayAlong :=
  rays_first_hit rayAlong rayAlong_unit

/-- A plane whose normal of length one is almost at a right angle to the first axis, through the
point one on it. -/
noncomputable def slantedPlane : PhysBody ℝ :=
  createdBody 0 cmVec3Zero 0 (.plane ⟨2 * 10 ^ 7 / (10 ^ 14 + 1), (10 ^ 14 - 1) / (10 ^ 14 + 1), 0⟩
    (2 * 10 ^ 7 / (10 ^ 14 + 1)))

theorem slantedPlane_inside (t : ℝ) : t ∈ rayAlong.inside (solidOf slantedPlane) ↔ t = 1 := by
  have hMem : t ∈ rayAlong.inside (solidOf slantedPlane) ↔
      cmVec3Dot ⟨2 * 10 ^ 7 / (10 ^ 14 + 1), (10 ^ 14 - 1) / (10 ^ 14 + 1), 0⟩ (rayAlong.at t) =
        2 * 10 ^ 7 / (10 ^ 14 + 1) := Iff.rfl
  have hDot : cmVec3Dot ⟨2 * 10 ^ 7 / (10 ^ 14 + 1), (10 ^ 14 - 1) / (10 ^ 14 + 1), 0⟩
      (rayAlong.at t) = 2 * 10 ^ 7 / (10 ^ 14 + 1) * t := by
    simp [cmVec3Dot, CmRay.at, rayAlong]
  rw [hMem, hDot]
  constructor
  · intro hEq
    linarith
  · intro hEq
    rw [hEq, mul_one]

/-- The line crosses the plane at parameter one, and the cast finds nothing. -/
theorem raycast_slantedPlane : ¬∀ (ray : CmRay ℝ) (w : PhysWorld ℝ) (maxDist : ℝ)
    (layerMask : BitVec 32), UnitDirection ray.direction →
    (∀ i, InMask w layerMask i → RayShape ray (w.bodies i)) →
    ((physRaycast Real.sqrt w ray maxDist layerMask).isSome ↔
      ∃ i t, InMask w layerMask i ∧ Enters (ray.inside (solidOf (w.bodies i))) t ∧ t < maxDist) := by
  intro hAll
  let w : PhysWorld ℝ := ⟨fun _ => slantedPlane, 1, []⟩
  have hShapes : ∀ i, InMask w 1 i → RayShape rayAlong (w.bodies i) := fun _ _ => trivial
  have hMask : InMask w 1 0 := ⟨Nat.zero_lt_one, rfl, by decide⟩
  have hEnters : Enters (rayAlong.inside (solidOf slantedPlane)) 1 :=
    ⟨zero_le_one, Or.inl ⟨(slantedPlane_inside 1).mpr rfl,
      fun t hT => ((slantedPlane_inside t).mp hT).ge⟩⟩
  have hSome := (hAll rayAlong w 10 1 rayAlong_unit hShapes).mpr ⟨0, 1, hMask, hEnters, by norm_num⟩
  obtain ⟨i, t, -, hHit, -⟩ := (physRaycast_isSome_iff isSqrt_real rayAlong_unit hShapes).mp hSome
  have hCrosses : cmEpsilon ≤ |cmVec3Dot (K := ℝ)
      ⟨2 * 10 ^ 7 / (10 ^ 14 + 1), (10 ^ 14 - 1) / (10 ^ 14 + 1), 0⟩ rayAlong.direction| := hHit.1
  have hNear : |cmVec3Dot (K := ℝ)
      ⟨2 * 10 ^ 7 / (10 ^ 14 + 1), (10 ^ 14 - 1) / (10 ^ 14 + 1), 0⟩ rayAlong.direction| <
        cmEpsilon := by
    norm_num [cmVec3Dot, rayAlong, cmEpsilon, abs_lt]
  exact absurd hCrosses hNear.not_ge

end Calynda.Physics
