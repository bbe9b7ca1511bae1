import Calynda.Physics.Contacts
import Calynda.Physics.Raycast

/-!
# Characters

A character looks for the ground with a ray from its own centre, which meets its own capsule first.
The search finds the ground only where another body comes before the capsule, or is seen with the
normal of the capsule.
-/

namespace Calynda.Physics

open Calynda.Lib

variable {K : Type*} [Field K] [LinearOrder K]

structure PhysCharController (K : Type*) where
  body : Option Nat
  moveSpeed : K
  jumpForce : K
  grounded : Bool
  groundNormal : CmVec3 K
  slopeLimit : K
  deriving DecidableEq

/-- A controller and the world of its body. -/
structure CharState (K : Type*) where
  ctrl : PhysCharController K
  world : PhysWorld K

/-- `CM_DEG2RAD`. -/
def cmDeg2Rad : K := 314159265358979323846 / 10 ^ 20 / 180

def physCharCreate (w : PhysWorld K) (pos : CmVec3 K) (radius height mass : K) : CharState K :=
  let created := physBodyCreate w pos mass (.capsule radius (height * (1 / 2)))
  { ctrl :=
      { body := created.1
        moveSpeed := 5
        jumpForce := 6
        grounded := false
        groundNormal := cmVec3Zero
        slopeLimit := cmDeg2Rad * 45 }
    world :=
      match created.1 with
      | none => created.2
      | some slot => { created.2 with
          bodies := Function.update created.2.bodies slot { created.2.bodies slot with
            angularDamping := 99 / 100
            linearDamping := 5 / 100 } } }

def physCharJump (s : CharState K) : CharState K :=
  match s.ctrl.body with
  | none => s
  | some slot =>
    if s.ctrl.grounded = false then s
    else
      let body := s.world.bodies slot
      let velocity := { body.linearVelocity with y := s.ctrl.jumpForce }
      { ctrl := { s.ctrl with grounded := false }
        world := physBodySetVelocity s.world slot velocity }

def physBodyApplyForce (w : PhysWorld K) (slot : Nat) (force : CmVec3 K) : PhysWorld K :=
  let body := w.bodies slot
  { w with
    bodies := Function.update w.bodies slot { body with force := cmVec3Add body.force force } }

/-- The ray from the centre of a body down. -/
def groundRay (body : PhysBody K) : CmRay K := ⟨body.position, cmVec3 0 (-1) 0⟩

/-- How far down the ground may be. The body of a controller is a capsule. -/
def checkDist (body : PhysBody K) : K :=
  match body.collider with
  | .capsule radius halfHeight => halfHeight + radius + 1 / 10
  | _ => 1 / 10

/-- The force that lets a character slide down a slope that is too steep for it. -/
def slideDown (sqrt acos : K → K) (s : CharState K) (slot : Nat) (normal : CmVec3 K) :
    PhysWorld K :=
  let up : CmVec3 K := cmVec3 0 1 0
  let slopeAngle := acos (physClamp (cmVec3Dot normal up) (-1) 1)
  if slopeAngle > s.ctrl.slopeLimit then
    let slide := cmVec3Sub normal (cmVec3Scale up (cmVec3Dot normal up))
    let slideLen := sqrt (cmVec3Dot slide slide)
    if slideLen > cmEpsilon then
      physBodyApplyForce s.world slot
        (cmVec3Scale (cmVec3Scale slide (5 / slideLen)) (s.world.bodies slot).mass)
    else s.world
  else s.world

def physCharUpdate (sqrt acos : K → K) (s : CharState K) : CharState K :=
  match s.ctrl.body with
  | none => s
  | some slot =>
    let body := s.world.bodies slot
    match physRaycast sqrt s.world (groundRay body) (checkDist body) 0xFFFFFFFF with
    | none => { s with ctrl := { s.ctrl with grounded := false } }
    | some result =>
      { ctrl := { s.ctrl with grounded := true, groundNormal := result.normal }
        world := slideDown sqrt acos s slot result.normal }

/-! ## What is below a character -/

/-- The hit of a body by the ray of the character in `slot`. -/
def groundHit (sqrt : K → K) (w : PhysWorld K) (slot i : Nat) : Option (K × CmVec3 K) :=
  bodyHit sqrt w (groundRay (w.bodies slot)) 0xFFFFFFFF i

/-- The ray meets another body near enough. -/
structure Below (sqrt : K → K) (w : PhysWorld K) (slot j : Nat) (t : K) (n : CmVec3 K) : Prop where
  ne : j ≠ slot
  lt : j < w.bodyCount.toNat
  found : groundHit sqrt w slot j = some (t, n)
  near : t < checkDist (w.bodies slot)

/-- A nearest one of the other bodies. -/
structure NearestBelow (sqrt : K → K) (w : PhysWorld K) (slot j : Nat) (t : K) (n : CmVec3 K) :
    Prop where
  below : Below sqrt w slot j t n
  least : ∀ k u m, Below sqrt w slot k u m → t ≤ u

/-- After an update the character is grounded if another body is below it, and the normal is that of
a nearest one. -/
structure UpdateSound (sqrt acos : K → K) (s : CharState K) (slot : Nat) : Prop where
  grounded : (physCharUpdate sqrt acos s).ctrl.grounded = true ↔
    ∃ j t n, Below sqrt s.world slot j t n
  normal : (physCharUpdate sqrt acos s).ctrl.grounded = true →
    ∃ j t, NearestBelow sqrt s.world slot j t (physCharUpdate sqrt acos s).ctrl.groundNormal

/-- If the ray meets the character itself near enough, then another body comes first, or a nearest
one of the other bodies is met with the same normal. -/
def GroundFits (sqrt : K → K) (w : PhysWorld K) (slot : Nat) : Prop :=
  ∀ t n, slot < w.bodyCount.toNat → groundHit sqrt w slot slot = some (t, n) →
    t < checkDist (w.bodies slot) →
    (∃ j u m, Below sqrt w slot j u m ∧ (u < t ∨ u = t ∧ j < slot)) ∨
      ∃ j u, NearestBelow sqrt w slot j u n

variable {sqrt acos : K → K} {s : CharState K} {slot : Nat}

/-- An update sees the first of the nearest bodies, the one of the character among them. -/
theorem physCharUpdate_cases (sqrt acos : K → K) (hBody : s.ctrl.body = some slot) :
    ((physCharUpdate sqrt acos s).ctrl.grounded = false ∧ ∀ j < s.world.bodyCount.toNat, ∀ u m,
      groundHit sqrt s.world slot j = some (u, m) → checkDist (s.world.bodies slot) ≤ u) ∨
    ∃ i t n, (physCharUpdate sqrt acos s).ctrl.grounded = true ∧
      (physCharUpdate sqrt acos s).ctrl.groundNormal = n ∧
      FirstLeast (groundHit sqrt s.world slot) (checkDist (s.world.bodies slot))
        s.world.bodyCount.toNat i t n := by
  rcases physRaycast_cases sqrt s.world (groundRay (s.world.bodies slot))
    (checkDist (s.world.bodies slot)) 0xFFFFFFFF with ⟨hNone, hFar⟩ | ⟨i, t, n, hSome, hLeast⟩
  · refine Or.inl ⟨?_, hFar⟩
    simp only [physCharUpdate, hBody, hNone]
  · refine Or.inr ⟨i, t, n, ?_, ?_, hLeast⟩
    · simp only [physCharUpdate, hBody, hSome]
    · simp only [physCharUpdate, hBody, hSome]

/-- An update is right exactly if the character does not hide what is below it. -/
theorem updateSound_iff (acos : K → K) (hBody : s.ctrl.body = some slot) :
    UpdateSound sqrt acos s slot ↔ GroundFits sqrt s.world slot := by
  rcases physCharUpdate_cases sqrt acos hBody with
    ⟨hGrounded, hFar⟩ | ⟨i, t, n, hGrounded, hNormal, hLeast⟩
  · refine iff_of_true ⟨iff_of_false ?_ ?_, fun hTrue => ?_⟩ fun u m hSlot hFound hNear => ?_
    · rw [hGrounded]
      exact Bool.false_ne_true
    · rintro ⟨j, u, m, hBelow⟩
      exact absurd hBelow.near (hFar j hBelow.lt u m hBelow.found).not_gt
    · rw [hGrounded] at hTrue
      cases hTrue
    · exact absurd hNear (hFar slot hSlot u m hFound).not_gt
  · by_cases hOwn : i = slot
    · subst hOwn
      constructor
      · intro hSound u m _ hFound _
        rw [hLeast.found] at hFound
        obtain ⟨rfl, rfl⟩ := Prod.mk.inj (Option.some.inj hFound)
        obtain ⟨j, u, hNearest⟩ := hSound.normal hGrounded
        rw [hNormal] at hNearest
        exact Or.inr ⟨j, u, hNearest⟩
      · intro hFits
        have hNearest : ∃ j u, NearestBelow sqrt s.world i j u n := by
          refine (hFits t n hLeast.lt hLeast.found hLeast.below).resolve_left ?_
          rintro ⟨j, u, m, hBelow, hLess | ⟨rfl, hIndex⟩⟩
          · exact absurd hLess (hLeast.least j hBelow.lt u m hBelow.found).not_gt
          · exact absurd (hLeast.first j hIndex _ m hBelow.found) (lt_irrefl _)
        obtain ⟨j, u, hBest⟩ := hNearest
        exact ⟨iff_of_true hGrounded ⟨j, u, n, hBest.below⟩, fun _ => ⟨j, u, hNormal ▸ hBest⟩⟩
    · have hNearest : NearestBelow sqrt s.world slot i t n :=
        ⟨⟨hOwn, hLeast.lt, hLeast.found, hLeast.below⟩,
          fun k u m hBelow => hLeast.least k hBelow.lt u m hBelow.found⟩
      refine iff_of_true ⟨iff_of_true hGrounded ⟨i, t, n, hNearest.below⟩,
        fun _ => ⟨i, t, hNormal ▸ hNearest⟩⟩ fun u m hSlot hFound _ => ?_
      have hLe := hLeast.least slot hSlot u m hFound
      refine Or.inl ⟨i, t, n, hNearest.below, ?_⟩
      rcases hLe.lt_or_eq with hLess | hEq
      · exact Or.inl hLess
      · refine Or.inr ⟨hEq, lt_of_le_of_ne (not_lt.mp fun hIndex => ?_) hOwn⟩
        exact absurd (hLeast.first slot hIndex u m hFound) hEq.not_lt

/-! ## The character itself -/

section Own

theorem cmRayVsAabb_nonneg {ray : CmRay K} {b : CmAABB K} {t : K}
    (h : cmRayVsAabb ray b = some t) : 0 ≤ t := by
  unfold cmRayVsAabb at h
  simp only [Option.bind_eq_bind, Option.bind_eq_some_iff] at h
  obtain ⟨_, -, _, -, st, -, hEnd⟩ := h
  split_ifs at hEnd with hBehind hAhead
  · exact Option.some.inj hEnd ▸ hAhead
  · exact Option.some.inj hEnd ▸ not_lt.mp hBehind

/-- The best hit so far, if there is one, is not behind the origin of the ray. -/
structure BestHit (best : K × CmVec3 K × Bool) : Prop where
  nonneg : 0 ≤ best.1
  hit : best.1 < rayLimit → best.2.2 = true

theorem BestHit.better {best : K × CmVec3 K × Bool} (h : BestHit best)
    {found : Option (K × CmVec3 K)} (hFound : ∀ q, found = some q → 0 ≤ q.1) :
    BestHit (betterHit found best) ∧ (betterHit found best).1 ≤ best.1 ∧
      ∀ q, found = some q → (betterHit found best).1 ≤ q.1 := by
  rcases found with _ | ⟨t, n⟩
  · exact ⟨h, le_rfl, fun q hQ => by cases hQ⟩
  · dsimp only [betterHit]
    split_ifs with hLess
    · exact ⟨⟨hFound (t, n) rfl, fun _ => rfl⟩, hLess.le, fun q hQ => Option.some.inj hQ ▸ le_rfl⟩
    · exact ⟨h, le_rfl, fun q hQ => Option.some.inj hQ ▸ not_lt.mp hLess⟩

variable [IsStrictOrderedRing K]

/-- The ray from the centre of a capsule down has left the lower sphere at its lowest point. -/
theorem capsuleHit_own (hSqrt : IsSqrt sqrt) {r hh : K} (hR : 0 ≤ r) (hHeight : 0 ≤ hh)
    (hLimit : hh + r < rayLimit) {ray : CmRay K} (hDown : ray.direction = cmVec3 0 (-1) 0) :
    ∃ q, capsuleHit sqrt ray ray.origin r hh = some q ∧ 0 ≤ q.1 ∧ q.1 ≤ hh + r := by
  have hSphere : ∀ c, FirstHit (ray.inside (CmSphere.Contains ⟨c, r⟩))
      (cmRayVsSphere sqrt ray ⟨c, r⟩) := fun c =>
    cmRayVsSphere_firstHit hSqrt ⟨c, r⟩ (by simp [hDown, cmVec3Dot, cmVec3])
  have hAhead : ∀ c q, sphereHit sqrt ray c r = some q → 0 ≤ q.1 := by
    intro c q hQ
    obtain ⟨t, hT, rfl⟩ := Option.map_eq_some_iff.mp hQ
    exact ((hSphere c).enters t hT).nonneg
  have hInside : ∀ t, t ∈ ray.inside (CmSphere.Contains ⟨cmVec3Sub ray.origin ⟨0, hh, 0⟩, r⟩) ↔
      |t - hh| ≤ |r| := by
    intro t
    rw [abs_le_iff_mul_self_le]
    have hSq : distanceSq (cmVec3Sub ray.origin ⟨0, hh, 0⟩) (ray.at t) = (t - hh) * (t - hh) := by
      simp [distanceSq, CmRay.at, hDown, cmVec3Dot, cmVec3]
      ring
    exact hSq ▸ Iff.rfl
  obtain ⟨t, hT⟩ := Option.isSome_iff_exists.mp ((hSphere _).isSome_iff.mpr
    ⟨hh, (hInside hh).mpr (by simp), hHeight⟩)
  have hLeft := (abs_le.mp ((hInside t).mp ((hSphere _).enters t hT).mem)).2
  rw [abs_of_nonneg hR] at hLeft
  have hInit : BestHit ((rayLimit : K), cmVec3 0 1 0, false) :=
    ⟨by unfold rayLimit; positivity, fun hLess => absurd hLess (lt_irrefl _)⟩
  obtain ⟨hUpper, -, -⟩ := hInit.better (hAhead (cmVec3Add ray.origin ⟨0, hh, 0⟩))
  obtain ⟨hLower, -, hNear⟩ := hUpper.better (hAhead (cmVec3Sub ray.origin ⟨0, hh, 0⟩))
  obtain ⟨hBest, hLe, -⟩ := hLower.better fun q (hQ : (cmRayVsAabb ray
      ⟨cmVec3Sub ray.origin ⟨r, hh + r, r⟩, cmVec3Add ray.origin ⟨r, hh + r, r⟩⟩).map
        (·, cmVec3 0 1 0) = some q) => by
    obtain ⟨u, hU, rfl⟩ := Option.map_eq_some_iff.mp hQ
    exact cmRayVsAabb_nonneg hU
  have hEnd := hLe.trans (hNear _ (Option.map_eq_some_iff.mpr ⟨t, hT, rfl⟩))
  dsimp only at hEnd
  refine ⟨_, if_pos (hBest.hit ?_), hBest.nonneg, ?_⟩ <;> linarith

/-- The ray of a character is cast from within the character, and every update finds ground. -/
theorem physCharUpdate_grounded (hSqrt : IsSqrt sqrt) (acos : K → K) {s : CharState K} {slot : Nat}
    {r hh : K} (hBody : s.ctrl.body = some slot) (hSlot : slot < s.world.bodyCount.toNat)
    (hR : 0 ≤ r) (hHeight : 0 ≤ hh) (hLimit : hh + r < rayLimit)
    (hCollider : (s.world.bodies slot).collider = .capsule r hh)
    (hActive : (s.world.bodies slot).active = true)
    (hLayer : 0xFFFFFFFF &&& (s.world.bodies slot).collisionLayer ≠ 0) :
    (physCharUpdate sqrt acos s).ctrl.grounded = true := by
  obtain ⟨⟨t, n⟩, hHit, hNonneg, hLe⟩ :=
    capsuleHit_own hSqrt hR hHeight hLimit (rfl : (groundRay (s.world.bodies slot)).direction = _)
  rcases physCharUpdate_cases sqrt acos hBody with ⟨-, hFar⟩ | ⟨_, _, _, hGrounded, -⟩
  · have hFound : groundHit sqrt s.world slot slot = some (t, n) :=
      bodyHit_eq_some_iff.mpr ⟨⟨hActive, hLayer⟩, by rw [rayVsBody, hCollider]; exact hHit, hNonneg⟩
    have hBeyond := hFar slot hSlot t n hFound
    rw [checkDist, hCollider] at hBeyond
    have hTenth : (0 : K) < 1 / 10 := by norm_num
    dsimp only at hBeyond hLe
    linarith
  · exact hGrounded

theorem physCharUpdate_grounded_created : (physCharUpdate Real.sqrt (fun _ => 0)
    (physCharCreate physWorldInit cmVec3Zero 1 4 1)).ctrl.grounded = true := by
  have hBody : (physCharCreate (physWorldInit : PhysWorld ℝ) cmVec3Zero 1 4 1).ctrl.body = some 0 :=
    rfl
  exact physCharUpdate_grounded isSqrt_real _ hBody (by decide) zero_le_one
    (by norm_num) (by norm_num [rayLimit]) rfl rfl (by decide)

end Own

/-! ## Runs -/

inductive CharAction where
  | update
  | step
  | jump
  deriving DecidableEq

/-- A controller is not known to its world, whose step leaves it as it is. -/
def charAct (sqrt acos : K → K) (worldStep : PhysWorld K → PhysWorld K) (s : CharState K) :
    CharAction → CharState K
  | .update => physCharUpdate sqrt acos s
  | .step => { s with world := worldStep s.world }
  | .jump => physCharJump s

def charRun (sqrt acos : K → K) (worldStep : PhysWorld K → PhysWorld K) (s : CharState K)
    (actions : List CharAction) : CharState K :=
  actions.foldl (charAct sqrt acos worldStep) s

/-- A jump changes the velocity of some body. -/
def Jumps (s : CharState K) : Prop :=
  ∃ i, ((physCharJump s).world.bodies i).linearVelocity ≠ (s.world.bodies i).linearVelocity

/-- Each update of a run is right, and a jump changes a velocity only if another body was below the
character at the last update. -/
structure RunSound (sqrt acos : K → K) (worldStep : PhysWorld K → PhysWorld K) (s : CharState K)
    (actions : List CharAction) : Prop where
  updates : ∀ before after, actions = before ++ .update :: after →
    ∀ slot, (charRun sqrt acos worldStep s before).ctrl.body = some slot →
      UpdateSound sqrt acos (charRun sqrt acos worldStep s before) slot
  jumps : ∀ before after, actions = before ++ .jump :: after →
    Jumps (charRun sqrt acos worldStep s before) →
      ∃ earlier later, before = earlier ++ .update :: later ∧ .update ∉ later ∧
        ∃ slot, (charRun sqrt acos worldStep s earlier).ctrl.body = some slot ∧
          ∃ j t n, Below sqrt (charRun sqrt acos worldStep s earlier).world slot j t n

variable {worldStep : PhysWorld K → PhysWorld K}

omit [Field K] [LinearOrder K] in
theorem physCharJump_cases (s : CharState K) :
    physCharJump s = s ∨ s.ctrl.grounded = true ∧ (∃ slot, s.ctrl.body = some slot) ∧
      (physCharJump s).ctrl.grounded = false ∧ (physCharJump s).ctrl.body = s.ctrl.body := by
  unfold physCharJump
  cases hBody : s.ctrl.body with
  | none => exact Or.inl rfl
  | some slot =>
    dsimp only
    split_ifs with hGrounded
    · exact Or.inl rfl
    · exact Or.inr ⟨Bool.eq_true_of_not_eq_false hGrounded, ⟨slot, rfl⟩, rfl, hBody⟩

theorem charAct_body (s : CharState K) (a : CharAction) :
    (charAct sqrt acos worldStep s a).ctrl.body = s.ctrl.body := by
  cases a with
  | update =>
    dsimp only [charAct, physCharUpdate]
    cases hBody : s.ctrl.body with
    | none => exact hBody
    | some slot =>
      dsimp only
      split <;> rfl
  | step => rfl
  | jump =>
    rcases physCharJump_cases s with hSame | ⟨-, -, -, hBody⟩
    · exact congrArg (fun s => s.ctrl.body) hSame
    · exact hBody

theorem charRun_append (s : CharState K) (as bs : List CharAction) :
    charRun sqrt acos worldStep s (as ++ bs) =
      charRun sqrt acos worldStep (charRun sqrt acos worldStep s as) bs :=
  List.foldl_append

theorem charRun_body (s : CharState K) (as : List CharAction) :
    (charRun sqrt acos worldStep s as).ctrl.body = s.ctrl.body := by
  induction as generalizing s with
  | nil => rfl
  | cons a as ih =>
    rw [show charRun sqrt acos worldStep s (a :: as) =
      charRun sqrt acos worldStep (charAct sqrt acos worldStep s a) as from rfl, ih, charAct_body]

/-- A character that is grounded has been so since its last update. -/
theorem grounded_since_update (hStart : s.ctrl.grounded = false) (as : List CharAction)
    (hGrounded : (charRun sqrt acos worldStep s as).ctrl.grounded = true) :
    ∃ earlier later, as = earlier ++ .update :: later ∧ .update ∉ later ∧
      (physCharUpdate sqrt acos (charRun sqrt acos worldStep s earlier)).ctrl.grounded = true := by
  induction as using List.reverseRecOn with
  | nil =>
    rw [show charRun sqrt acos worldStep s [] = s from rfl, hStart] at hGrounded
    cases hGrounded
  | append_singleton as a ih =>
    rw [charRun_append] at hGrounded
    have hKeeps : a ≠ .update → (charRun sqrt acos worldStep s as).ctrl.grounded = true →
        ∃ earlier later, as ++ [a] = earlier ++ .update :: later ∧ .update ∉ later ∧
          (physCharUpdate sqrt acos
            (charRun sqrt acos worldStep s earlier)).ctrl.grounded = true := by
      intro hOther hBefore
      obtain ⟨earlier, later, rfl, hLast, hUpdate⟩ := ih hBefore
      refine ⟨earlier, later ++ [a], by simp, ?_, hUpdate⟩
      rw [List.mem_append, List.mem_singleton]
      exact fun hMem => hMem.elim hLast fun hEq => hOther hEq.symm
    cases a with
    | update => exact ⟨as, [], rfl, List.not_mem_nil, hGrounded⟩
    | step => exact hKeeps (fun h => by cases h) hGrounded
    | jump =>
      refine hKeeps (fun h => by cases h) ?_
      rcases physCharJump_cases (charRun sqrt acos worldStep s as) with hSame | ⟨hBefore, -⟩
      · have hAfter : (physCharJump (charRun sqrt acos worldStep s as)).ctrl.grounded = true :=
          hGrounded
        rwa [hSame] at hAfter
      · exact hBefore

/-- In a run from the creation of the character the updates and the jumps are right exactly if at no
update the character hides what is below it. -/
theorem charRun_sound_iff (sqrt acos : K → K) (worldStep : PhysWorld K → PhysWorld K)
    (w : PhysWorld K) (pos : CmVec3 K) (radius height mass : K) (actions : List CharAction) :
    RunSound sqrt acos worldStep (physCharCreate w pos radius height mass) actions ↔
      ∀ before after, actions = before ++ .update :: after → ∀ slot,
        (charRun sqrt acos worldStep (physCharCreate w pos radius height mass) before).ctrl.body =
          some slot →
        GroundFits sqrt
          (charRun sqrt acos worldStep (physCharCreate w pos radius height mass) before).world
          slot := by
  constructor
  · intro hSound before after hSplit slot hBody
    exact (updateSound_iff acos hBody).mp (hSound.updates before after hSplit slot hBody)
  · intro hFits
    refine ⟨fun before after hSplit slot hBody =>
      (updateSound_iff acos hBody).mpr (hFits before after hSplit slot hBody), ?_⟩
    intro before after hSplit hJumps
    obtain ⟨i, hChanged⟩ := hJumps
    rcases physCharJump_cases (charRun sqrt acos worldStep (physCharCreate w pos radius height mass)
      before) with hSame | ⟨hGrounded, ⟨slot, hBody⟩, -⟩
    · rw [hSame] at hChanged
      exact absurd rfl hChanged
    · obtain ⟨earlier, later, rfl, hLast, hUpdate⟩ := grounded_since_update rfl before hGrounded
      have hBody' : (charRun sqrt acos worldStep (physCharCreate w pos radius height mass)
          earlier).ctrl.body = some slot := by
        rw [charRun_body] at hBody ⊢
        exact hBody
      have hSound := (updateSound_iff acos hBody').mpr
        (hFits earlier (later ++ .jump :: after) (by simp [hSplit]) slot hBody')
      exact ⟨earlier, later, rfl, hLast, slot, hBody', hSound.grounded.mp hUpdate⟩

/-- A character alone in its world stands on itself. -/
theorem charRun_alone :
    ¬RunSound (fun x : ℚ => x) (fun _ => 0) id (physCharCreate physWorldInit cmVec3Zero 1 4 1)
      [.update, .jump] := by
  intro hSound
  have hUpdate := hSound.updates [] [.jump] rfl 0 rfl
  have hGrounded : (physCharUpdate (fun x : ℚ => x) (fun _ => 0)
      (physCharCreate physWorldInit cmVec3Zero 1 4 1)).ctrl.grounded = true := by
    decide +kernel
  obtain ⟨j, t, n, hBelow⟩ := hUpdate.grounded.mp hGrounded
  have hOnly : j < 1 := hBelow.lt
  exact hBelow.ne (Nat.lt_one_iff.mp hOnly)

end Calynda.Physics
