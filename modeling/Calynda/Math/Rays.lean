import Calynda.Lib.FirstHit
import Calynda.Math.Segments

/-!
# Rays

The tests of a ray against a sphere, a plane and a box. The line of the ray is inside the solid
between two parameters, and the test returns the first of them that the ray comes to.
-/

namespace Calynda

open Lib

variable {K : Type*} [Field K] [LinearOrder K]

structure CmRay (K : Type*) where
  origin : CmVec3 K
  direction : CmVec3 K
  deriving DecidableEq

structure CmSphere (K : Type*) where
  center : CmVec3 K
  radius : K
  deriving DecidableEq

/-- The point of the line at parameter `t`. -/
def CmRay.at (ray : CmRay K) (t : K) : CmVec3 K := cmVec3Add ray.origin (cmVec3Scale ray.direction t)

def cmAbsf (x : K) : K := if x < 0 then -x else x

def cmVec3Normalize (sqrt : K → K) (v : CmVec3 K) : CmVec3 K :=
  let len := sqrt (cmVec3Dot v v)
  if len < cmEpsilon then cmVec3Zero else cmVec3Scale v (1 / len)

def cmRayVsSphere (sqrt : K → K) (ray : CmRay K) (s : CmSphere K) : Option K :=
  let oc := cmVec3Sub ray.origin s.center
  let b := cmVec3Dot oc ray.direction
  let c := cmVec3Dot oc oc - s.radius * s.radius
  let disc := b * b - c
  if disc < 0 then none
  else
    let sqrtDisc := sqrt disc
    let t0 := -b - sqrtDisc
    let t1 := -b + sqrtDisc
    if t1 < 0 then none else some (if t0 ≥ 0 then t0 else t1)

def cmRayVsPlane (ray : CmRay K) (p : CmPlane K) : Option K :=
  let denom := cmVec3Dot p.normal ray.direction
  if cmAbsf denom < cmEpsilon then none
  else
    let t := (p.distance - cmVec3Dot p.normal ray.origin) / denom
    if t ≥ 0 then some t else none

/-- The bound of the parameters that the test of a box starts from. -/
def rayLimit : K := 10 ^ 30

/-- One axis of the test of a box, by the origin, the direction and the box on it. -/
def slabStep (origin dir bmin bmax : K) (st : K × K) : Option (K × K) :=
  if cmAbsf dir < cmEpsilon then
    if origin < bmin ∨ origin > bmax then none else some st
  else
    let invD := 1 / dir
    let t1 := (bmin - origin) * invD
    let t2 := (bmax - origin) * invD
    let near := if t1 > t2 then t2 else t1
    let far := if t1 > t2 then t1 else t2
    let tmin := if near > st.1 then near else st.1
    let tmax := if far < st.2 then far else st.2
    if tmin > tmax then none else some (tmin, tmax)

def cmRayVsAabb (ray : CmRay K) (b : CmAABB K) : Option K := do
  let st ← slabStep ray.origin.x ray.direction.x b.min.x b.max.x (-rayLimit, rayLimit)
  let st ← slabStep ray.origin.y ray.direction.y b.min.y b.max.y st
  let st ← slabStep ray.origin.z ray.direction.z b.min.z b.max.z st
  if st.2 < 0 then none else some (if st.1 ≥ 0 then st.1 else st.2)

/-- A direction along or well away from each axis plane. -/
def Resolvable (x : K) : Prop := x = 0 ∨ cmEpsilon ≤ |x|

/-- A direction of length one, each component of which is zero or not too small. -/
structure UnitDirection (v : CmVec3 K) : Prop where
  unit : cmVec3Dot v v = 1
  x : Resolvable v.x
  y : Resolvable v.y
  z : Resolvable v.z

section Ordered

variable [IsStrictOrderedRing K]

omit [IsStrictOrderedRing K] in
theorem cmAbsf_eq [IsOrderedAddMonoid K] (x : K) : cmAbsf x = |x| := by
  unfold cmAbsf
  split_ifs with h
  · exact (abs_of_neg h).symm
  · exact (abs_of_nonneg (not_lt.mp h)).symm

/-! ## Boxes -/

/-- On the axis the line is in the slab at parameter `t`. -/
def InSlab (origin dir bmin bmax t : K) : Prop := bmin ≤ origin + dir * t ∧ origin + dir * t ≤ bmax

/-- The parameters in the slab along a direction that crosses it. -/
theorem inSlab_iff {origin dir bmin bmax : K} (hDir : dir ≠ 0) (h : bmin ≤ bmax) (t : K) :
    InSlab origin dir bmin bmax t ↔
      (if (bmin - origin) * (1 / dir) > (bmax - origin) * (1 / dir) then (bmax - origin) * (1 / dir)
        else (bmin - origin) * (1 / dir)) ≤ t ∧
      t ≤ (if (bmin - origin) * (1 / dir) > (bmax - origin) * (1 / dir) then
        (bmin - origin) * (1 / dir) else (bmax - origin) * (1 / dir)) := by
  unfold InSlab
  rw [mul_one_div, mul_one_div]
  rcases lt_or_gt_of_ne hDir with hNeg | hPos
  · have hOrder : (bmax - origin) / dir ≤ (bmin - origin) / dir :=
      (div_le_div_right_of_neg hNeg).mpr (sub_le_sub_right h origin)
    have hLow : bmin ≤ origin + dir * t ↔ t ≤ (bmin - origin) / dir := by
      rw [le_div_iff_of_neg hNeg, sub_le_iff_le_add, mul_comm t, add_comm]
    have hHigh : origin + dir * t ≤ bmax ↔ (bmax - origin) / dir ≤ t := by
      rw [div_le_iff_of_neg hNeg, le_sub_iff_add_le, mul_comm t, add_comm]
    rw [hLow, hHigh, and_comm]
    split_ifs with hSwap
    · exact Iff.rfl
    · rw [le_antisymm (not_lt.mp hSwap) hOrder]
  · have hOrder : (bmin - origin) / dir ≤ (bmax - origin) / dir :=
      (div_le_div_iff_of_pos_right hPos).mpr (sub_le_sub_right h origin)
    have hLow : bmin ≤ origin + dir * t ↔ (bmin - origin) / dir ≤ t := by
      rw [div_le_iff₀ hPos, sub_le_iff_le_add, mul_comm t, add_comm]
    have hHigh : origin + dir * t ≤ bmax ↔ t ≤ (bmax - origin) / dir := by
      rw [le_div_iff₀ hPos, le_sub_iff_add_le, mul_comm t, add_comm]
    rw [hLow, hHigh, if_neg hOrder.not_gt, if_neg hOrder.not_gt]

/-- The running interval is that of the parameters in all slabs so far. -/
structure Between (S : Set K) (st : K × K) : Prop where
  le : st.1 ≤ st.2
  mem_iff : ∀ t, t ∈ S ↔ st.1 ≤ t ∧ t ≤ st.2

/-- An axis cuts its slab out of the running interval, and ends the test where nothing is left. -/
theorem slabStep_between {S : Set K} {st : K × K} (origin : K) {dir bmin bmax : K}
    (hBetween : Between S st) (hDir : Resolvable dir) (h : bmin ≤ bmax) :
    (∀ st', slabStep origin dir bmin bmax st = some st' →
      Between {t | t ∈ S ∧ InSlab origin dir bmin bmax t} st') ∧
    (slabStep origin dir bmin bmax st = none → {t | t ∈ S ∧ InSlab origin dir bmin bmax t} = ∅) := by
  dsimp only [slabStep]
  rw [cmAbsf_eq]
  rcases hDir with rfl | hFar
  · rw [abs_zero, if_pos cmEpsilon_pos]
    have hSlab : ∀ t, InSlab origin 0 bmin bmax t ↔ bmin ≤ origin ∧ origin ≤ bmax := by
      intro t
      rw [InSlab, zero_mul, add_zero]
    split_ifs with hOut
    · refine ⟨fun st' hEq => (by cases hEq), fun _ => Set.eq_empty_of_forall_notMem ?_⟩
      rintro t ⟨-, hIn⟩
      obtain ⟨hLow, hHigh⟩ := (hSlab t).mp hIn
      exact hOut.elim hLow.not_gt hHigh.not_gt
    · obtain ⟨hLow, hHigh⟩ := not_or.mp hOut
      refine ⟨fun st' hEq => ?_, fun hEq => by cases hEq⟩
      cases hEq
      refine ⟨hBetween.le, fun t => ?_⟩
      rw [Set.mem_ofPred_eq, hSlab, hBetween.mem_iff]
      exact and_iff_left ⟨not_lt.mp hLow, not_lt.mp hHigh⟩
  · have hNonzero : dir ≠ 0 := abs_pos.mp (cmEpsilon_pos.trans_le hFar)
    rw [if_neg hFar.not_gt]
    have hMem : ∀ t, t ∈ {t | t ∈ S ∧ InSlab origin dir bmin bmax t} ↔
        (st.1 ≤ t ∧ t ≤ st.2) ∧ InSlab origin dir bmin bmax t := by
      intro t
      rw [Set.mem_ofPred_eq, hBetween.mem_iff]
    generalize hNear : (if (bmin - origin) * (1 / dir) > (bmax - origin) * (1 / dir) then
      (bmax - origin) * (1 / dir) else (bmin - origin) * (1 / dir)) = near
    generalize hFarEnd : (if (bmin - origin) * (1 / dir) > (bmax - origin) * (1 / dir) then
      (bmin - origin) * (1 / dir) else (bmax - origin) * (1 / dir)) = far
    have hCut : ∀ t, t ∈ {t | t ∈ S ∧ InSlab origin dir bmin bmax t} ↔
        (if near > st.1 then near else st.1) ≤ t ∧ t ≤ (if far < st.2 then far else st.2) := by
      intro t
      rw [hMem, inSlab_iff hNonzero h, hNear, hFarEnd]
      split_ifs with hMore hLess hLess
      · exact ⟨fun hIn => hIn.2, fun hIn => ⟨⟨hMore.le.trans hIn.1, hIn.2.trans hLess.le⟩, hIn⟩⟩
      · exact ⟨fun hIn => ⟨hIn.2.1, hIn.1.2⟩, fun hIn => ⟨⟨hMore.le.trans hIn.1, hIn.2⟩, hIn.1,
          hIn.2.trans (not_lt.mp hLess)⟩⟩
      · exact ⟨fun hIn => ⟨hIn.1.1, hIn.2.2⟩, fun hIn => ⟨⟨hIn.1, hIn.2.trans hLess.le⟩,
          (not_lt.mp hMore).trans hIn.1, hIn.2⟩⟩
      · exact ⟨fun hIn => hIn.1, fun hIn => ⟨hIn, (not_lt.mp hMore).trans hIn.1,
          hIn.2.trans (not_lt.mp hLess)⟩⟩
    generalize (if near > st.1 then near else st.1) = tmin at hCut ⊢
    generalize (if far < st.2 then far else st.2) = tmax at hCut ⊢
    split_ifs with hEmpty
    · refine ⟨fun st' hEq => (by cases hEq), fun _ => Set.eq_empty_of_forall_notMem fun t hT => ?_⟩
      obtain ⟨hLow, hHigh⟩ := (hCut t).mp hT
      exact absurd (hLow.trans hHigh) hEmpty.not_ge
    · refine ⟨fun st' hEq => ?_, fun hEq => by cases hEq⟩
      cases hEq
      exact ⟨not_lt.mp hEmpty, hCut⟩

/-- The parameters at which the line of the ray is in a solid. -/
def CmRay.inside (ray : CmRay K) (solid : CmVec3 K → Prop) : Set K := {t | solid (ray.at t)}

/-- A box is hit where the ray first comes to it, if the parameters are not beyond the limit that
the test starts from. -/
theorem cmRayVsAabb_firstHit {ray : CmRay K} {b : CmAABB K} (hDir : UnitDirection ray.direction)
    (hX : b.min.x ≤ b.max.x) (hY : b.min.y ≤ b.max.y) (hZ : b.min.z ≤ b.max.z)
    (hModerate : ∀ t ∈ ray.inside b.Contains, |t| < rayLimit) :
    FirstHit (ray.inside b.Contains) (cmRayVsAabb ray b) := by
  have hLimit : (0 : K) ≤ rayLimit := by
    unfold rayLimit
    positivity
  have hInit : Between {t : K | -rayLimit ≤ t ∧ t ≤ rayLimit} (-rayLimit, rayLimit) :=
    ⟨neg_le_self hLimit, fun t => Iff.rfl⟩
  have hContains : ∀ t, t ∈ ray.inside b.Contains ↔
      (((-rayLimit ≤ t ∧ t ≤ rayLimit) ∧
        InSlab ray.origin.x ray.direction.x b.min.x b.max.x t) ∧
        InSlab ray.origin.y ray.direction.y b.min.y b.max.y t) ∧
        InSlab ray.origin.z ray.direction.z b.min.z b.max.z t := by
    intro t
    constructor
    · intro hIn
      exact ⟨⟨⟨abs_le.mp (hModerate t hIn).le, hIn.x⟩, hIn.y⟩, hIn.z⟩
    · rintro ⟨⟨⟨-, hInX⟩, hInY⟩, hInZ⟩
      exact ⟨hInX, hInY, hInZ⟩
  have hNone : ∀ {T : Set K}, T = ∅ → (∀ t ∈ ray.inside b.Contains, t ∈ T) →
      FirstHit (ray.inside b.Contains) none := by
    intro T hT hSub
    rw [Set.subset_eq_empty hSub hT]
    exact firstHit_empty
  unfold cmRayVsAabb
  have hStepX := slabStep_between ray.origin.x hInit hDir.x hX
  cases hEqX : slabStep ray.origin.x ray.direction.x b.min.x b.max.x (-rayLimit, rayLimit) with
  | none => exact hNone (hStepX.2 hEqX) fun t hT => ((hContains t).mp hT).1.1
  | some stX =>
    have hStepY := slabStep_between ray.origin.y (hStepX.1 stX hEqX) hDir.y hY
    dsimp only [Option.bind_eq_bind, Option.bind_some]
    cases hEqY : slabStep ray.origin.y ray.direction.y b.min.y b.max.y stX with
    | none => exact hNone (hStepY.2 hEqY) fun t hT => ((hContains t).mp hT).1
    | some stY =>
      have hStepZ := slabStep_between ray.origin.z (hStepY.1 stY hEqY) hDir.z hZ
      dsimp only [Option.bind_some]
      cases hEqZ : slabStep ray.origin.z ray.direction.z b.min.z b.max.z stY with
      | none => exact hNone (hStepZ.2 hEqZ) fun t hT => (hContains t).mp hT
      | some st =>
        have hBetween := hStepZ.1 st hEqZ
        exact firstHit_interval hBetween.le fun t =>
          (hContains t).trans (hBetween.mem_iff t)

/-! ## Spheres and planes -/

/-- The square root of exact arithmetic. -/
def IsSqrt (sqrt : K → K) : Prop := ∀ x, 0 ≤ x → 0 ≤ sqrt x ∧ sqrt x * sqrt x = x

def CmSphere.Contains (s : CmSphere K) (p : CmVec3 K) : Prop :=
  distanceSq s.center p ≤ s.radius * s.radius

def CmPlane.Contains (p : CmPlane K) (x : CmVec3 K) : Prop := cmVec3Dot p.normal x = p.distance

theorem cmRayVsSphere_firstHit {sqrt : K → K} (hSqrt : IsSqrt sqrt) {ray : CmRay K} (s : CmSphere K)
    (hUnit : cmVec3Dot ray.direction ray.direction = 1) :
    FirstHit (ray.inside s.Contains) (cmRayVsSphere sqrt ray s) := by
  dsimp only [cmRayVsSphere]
  set oc := cmVec3Sub ray.origin s.center with hOc
  set b := cmVec3Dot oc ray.direction with hB
  set disc := b * b - (cmVec3Dot oc oc - s.radius * s.radius) with hDisc
  have hInside : ∀ t, t ∈ ray.inside s.Contains ↔ (t + b) * (t + b) ≤ disc := by
    intro t
    have hSquare : distanceSq s.center (ray.at t) = cmVec3Dot oc oc + 2 * b * t +
        cmVec3Dot ray.direction ray.direction * (t * t) := by
      simp only [distanceSq, CmRay.at, hB, hOc, cmVec3Dot, cmVec3Add_x, cmVec3Add_y, cmVec3Add_z,
        cmVec3Sub_x, cmVec3Sub_y, cmVec3Sub_z, cmVec3Scale_x, cmVec3Scale_y, cmVec3Scale_z]
      ring
    have hMem : t ∈ ray.inside s.Contains ↔ distanceSq s.center (ray.at t) ≤ s.radius * s.radius :=
      Iff.rfl
    rw [hMem, hSquare, hUnit, hDisc]
    constructor <;> intro hLe <;> linarith
  by_cases hMiss : disc < 0
  · have hEmpty : ray.inside s.Contains = ∅ := by
      refine Set.eq_empty_of_forall_notMem fun t hT => ?_
      exact absurd ((mul_self_nonneg _).trans ((hInside t).mp hT)) hMiss.not_ge
    rw [if_pos hMiss, hEmpty]
    exact firstHit_empty
  · obtain ⟨hRoot, hRootSq⟩ := hSqrt disc (not_lt.mp hMiss)
    have hInterval : ∀ t, t ∈ ray.inside s.Contains ↔ -b - sqrt disc ≤ t ∧ t ≤ -b + sqrt disc := by
      intro t
      have hAbs : (t + b) * (t + b) ≤ disc ↔ |t + b| ≤ |sqrt disc| := by
        rw [abs_le_iff_mul_self_le, hRootSq]
      rw [hInside, hAbs, abs_of_nonneg hRoot, abs_le]
      constructor
      · rintro ⟨hLow, hHigh⟩
        exact ⟨by linarith, by linarith⟩
      · rintro ⟨hLow, hHigh⟩
        exact ⟨by linarith, by linarith⟩
    rw [if_neg hMiss]
    exact firstHit_interval (by linarith) hInterval

/-- A plane that the ray does not nearly run along is hit where the line crosses it. -/
theorem cmRayVsPlane_firstHit {ray : CmRay K} {p : CmPlane K}
    (h : cmEpsilon ≤ |cmVec3Dot p.normal ray.direction|) :
    FirstHit (ray.inside p.Contains) (cmRayVsPlane ray p) := by
  dsimp only [cmRayVsPlane]
  rw [cmAbsf_eq, if_neg h.not_gt]
  have hNonzero : cmVec3Dot p.normal ray.direction ≠ 0 := abs_pos.mp (cmEpsilon_pos.trans_le h)
  set t := (p.distance - cmVec3Dot p.normal ray.origin) / cmVec3Dot p.normal ray.direction with hT
  have hInside : ∀ u, u ∈ ray.inside p.Contains ↔ t ≤ u ∧ u ≤ t := by
    intro u
    have hLine : cmVec3Dot p.normal (ray.at u) =
        cmVec3Dot p.normal ray.origin + cmVec3Dot p.normal ray.direction * u := by
      simp only [CmRay.at, cmVec3Dot, cmVec3Add_x, cmVec3Add_y, cmVec3Add_z, cmVec3Scale_x,
        cmVec3Scale_y, cmVec3Scale_z]
      ring
    have hMem : u ∈ ray.inside p.Contains ↔ cmVec3Dot p.normal (ray.at u) = p.distance := Iff.rfl
    rw [hMem, hLine, le_antisymm_iff.symm, hT, div_eq_iff hNonzero, mul_comm u]
    constructor
    · intro hEq
      rw [← hEq]
      ring
    · intro hEq
      rw [← hEq]
      ring
  have hFirst := firstHit_interval le_rfl hInside
  unfold firstOf at hFirst
  split_ifs with hAhead
  · rwa [if_neg hAhead.not_gt, if_pos hAhead] at hFirst
  · rwa [if_pos (not_le.mp hAhead)] at hFirst

omit [IsStrictOrderedRing K] in
theorem cmRayVsPlane_along [IsOrderedAddMonoid K] {ray : CmRay K} {p : CmPlane K}
    (h : |cmVec3Dot p.normal ray.direction| < cmEpsilon) : cmRayVsPlane ray p = none := by
  dsimp only [cmRayVsPlane]
  rw [cmAbsf_eq, if_pos h]

end Ordered

end Calynda
