import Calynda.Physics.Body
import Mathlib.Algebra.BigOperators.Group.Finset.Basic
import Mathlib.Data.Rat.Sqrt
import Mathlib.Tactic.Abel
import Mathlib.Tactic.Linarith

/-!
# The contact solver

Impulses at the contacts, first along the normal and then along a tangent. What one body gets the
other one loses, so that the momenta of all bodies stay what they are, and the friction of a contact
stays in the cone that belongs to its normal impulse.
-/

namespace Calynda.Physics

variable {K : Type*}

/-! ## Velocities -/

abbrev Bodies (K : Type*) := Nat → PhysBody K

def Bodies.setLinear (bodies : Bodies K) (i : Nat) (v : CmVec3 K) : Bodies K :=
  Function.update bodies i { bodies i with linearVelocity := v }

def Bodies.setAngular (bodies : Bodies K) (i : Nat) (w : CmVec3 K) : Bodies K :=
  Function.update bodies i { bodies i with angularVelocity := w }

theorem Bodies.setLinear_apply (σ : Bodies K) (i j : Nat) (v : CmVec3 K) :
    σ.setLinear i v j =
      { σ j with linearVelocity := if j = i then v else (σ j).linearVelocity } := by
  by_cases hEq : j = i
  · subst hEq
    simp [Bodies.setLinear]
  · simp [Bodies.setLinear, hEq]

theorem Bodies.setAngular_apply (σ : Bodies K) (i j : Nat) (w : CmVec3 K) :
    σ.setAngular i w j =
      { σ j with angularVelocity := if j = i then w else (σ j).angularVelocity } := by
  by_cases hEq : j = i
  · subst hEq
    simp [Bodies.setAngular]
  · simp [Bodies.setAngular, hEq]

/-- Only velocities differ. -/
def SameBodies (σ τ : Bodies K) : Prop :=
  ∀ i, τ i = { σ i with
    linearVelocity := (τ i).linearVelocity, angularVelocity := (τ i).angularVelocity }

theorem SameBodies.refl (σ : Bodies K) : SameBodies σ σ := fun _ => rfl

theorem SameBodies.trans {σ τ υ : Bodies K} (h : SameBodies σ τ) (h' : SameBodies τ υ) :
    SameBodies σ υ := fun i => by
  rw [h' i, h i]

theorem sameBodies_setLinear (σ : Bodies K) (i : Nat) (v : CmVec3 K) :
    SameBodies σ (σ.setLinear i v) := fun j => by
  rw [Bodies.setLinear_apply]

theorem sameBodies_setAngular (σ : Bodies K) (i : Nat) (w : CmVec3 K) :
    SameBodies σ (σ.setAngular i w) := fun j => by
  rw [Bodies.setAngular_apply]

/-- The two bodies have the same velocities. -/
def SameVelocity (a b : PhysBody K) : Prop :=
  b.linearVelocity = a.linearVelocity ∧ b.angularVelocity = a.angularVelocity

theorem SameVelocity.trans {a b c : PhysBody K} (h : SameVelocity a b) (h' : SameVelocity b c) :
    SameVelocity a c :=
  ⟨h'.1.trans h.1, h'.2.trans h.2⟩

variable [Field K]

/-- Both bodies get an impulse, the first one against it. -/
def applyImpulse (bodies : Bodies K) (a b : Nat) (ra rb impulse : CmVec3 K) : Bodies K :=
  let ima := (bodies a).invMass
  let imb := (bodies b).invMass
  let bodies := bodies.setLinear a
    (cmVec3Sub (bodies a).linearVelocity (cmVec3Scale impulse ima))
  let bodies := bodies.setLinear b
    (cmVec3Add (bodies b).linearVelocity (cmVec3Scale impulse imb))
  let bodies := bodies.setAngular a (cmVec3Sub (bodies a).angularVelocity
    (cmVec3Scale (cmVec3Cross ra impulse) (bodies a).invInertia))
  bodies.setAngular b (cmVec3Add (bodies b).angularVelocity
    (cmVec3Scale (cmVec3Cross rb impulse) (bodies b).invInertia))

/-- A body that no impulse moves, as `phys_body_create_static` makes it. -/
def PhysBody.Fixed (b : PhysBody K) : Prop := b.invMass = 0 ∧ b.invInertia = 0

/-- The inverses of a body are the inverses, as `phys_body_create` makes them. -/
def PhysBody.Movable (b : PhysBody K) : Prop :=
  b.mass * b.invMass = 1 ∧ b.inertia * b.invInertia = 1

theorem SameBodies.movable {σ τ : Bodies K} {i : Nat} (h : SameBodies σ τ) (hM : (σ i).Movable) :
    (τ i).Movable := by
  rw [PhysBody.Movable, h i]
  exact hM

theorem sameBodies_applyImpulse (σ : Bodies K) (a b : Nat) (ra rb impulse : CmVec3 K) :
    SameBodies σ (applyImpulse σ a b ra rb impulse) :=
  (((sameBodies_setLinear _ _ _).trans (sameBodies_setLinear _ _ _)).trans
    (sameBodies_setAngular _ _ _)).trans (sameBodies_setAngular _ _ _)

@[simp] theorem cmVec3Scale_zero (v : CmVec3 K) : cmVec3Scale v 0 = 0 := by
  ext <;> simp

/-- A body that an impulse at two bodies does not change: another one, or one that is fixed. -/
theorem applyImpulse_sameVelocity (σ : Bodies K) (a b : Nat) (ra rb impulse : CmVec3 K) {i : Nat}
    (h : (i ≠ a ∧ i ≠ b) ∨ (σ i).Fixed) :
    SameVelocity (σ i) (applyImpulse σ a b ra rb impulse i) := by
  rcases h with ⟨hA, hB⟩ | ⟨hMass, hInertia⟩
  · simp [SameVelocity, applyImpulse, Bodies.setLinear_apply, Bodies.setAngular_apply, hA, hB]
  · constructor
    · by_cases hB : i = b <;> by_cases hA : i = a <;>
        simp_all [applyImpulse, Bodies.setLinear_apply, Bodies.setAngular_apply]
    · by_cases hB : i = b <;> by_cases hA : i = a <;>
        simp_all [applyImpulse, Bodies.setLinear_apply, Bodies.setAngular_apply]

/-! ## Totals over the bodies -/

/-- What the bodies in the first `n` slots have together. -/
def total (F : PhysBody K → CmVec3 K) (n : Nat) (bodies : Bodies K) : CmVec3 K :=
  ∑ i ∈ Finset.range n, F (bodies i)

def linearMomentum (b : PhysBody K) : CmVec3 K := cmVec3Scale b.linearVelocity b.mass

/-- About the origin. -/
def angularMomentum (b : PhysBody K) : CmVec3 K :=
  cmVec3Add (cmVec3Cross b.position (linearMomentum b)) (cmVec3Scale b.angularVelocity b.inertia)

theorem total_update (F : PhysBody K → CmVec3 K) {n i : Nat} (h : i < n) (bodies : Bodies K)
    (b : PhysBody K) :
    total F n (Function.update bodies i b) = total F n bodies + (F b - F (bodies i)) := by
  have hMem := Finset.mem_range.mpr h
  rw [total, total, ← Finset.add_sum_erase _ _ hMem, ← Finset.add_sum_erase _ _ hMem,
    Function.update_self]
  have hRest : ∑ j ∈ (Finset.range n).erase i, F (Function.update bodies i b j) =
      ∑ j ∈ (Finset.range n).erase i, F (bodies j) :=
    Finset.sum_congr rfl fun j hj => by
      rw [Function.update_of_ne (Finset.ne_of_mem_erase hj)]
  rw [hRest]
  abel

variable {n i : Nat} (hSlot : i < n) (σ : Bodies K) (v : CmVec3 K)

include hSlot

theorem linear_setLinear : total linearMomentum n (σ.setLinear i v) =
    total linearMomentum n σ + cmVec3Scale (v - (σ i).linearVelocity) (σ i).mass := by
  rw [Bodies.setLinear, total_update _ hSlot]
  congr 1
  ext <;> simp [linearMomentum] <;> ring

theorem linear_setAngular :
    total linearMomentum n (σ.setAngular i v) = total linearMomentum n σ := by
  rw [Bodies.setAngular, total_update _ hSlot]
  simp [linearMomentum]

theorem angular_setLinear : total angularMomentum n (σ.setLinear i v) =
    total angularMomentum n σ +
      cmVec3Cross (σ i).position (cmVec3Scale (v - (σ i).linearVelocity) (σ i).mass) := by
  rw [Bodies.setLinear, total_update _ hSlot]
  congr 1
  ext <;> simp [angularMomentum, linearMomentum] <;> ring

theorem angular_setAngular : total angularMomentum n (σ.setAngular i v) =
    total angularMomentum n σ + cmVec3Scale (v - (σ i).angularVelocity) (σ i).inertia := by
  rw [Bodies.setAngular, total_update _ hSlot]
  congr 1
  ext <;> simp [angularMomentum, linearMomentum] <;> ring

omit hSlot

theorem cmVec3Scale_inverse {m im : K} (h : m * im = 1) (v : CmVec3 K) :
    cmVec3Scale (cmVec3Scale v im) m = v := by
  ext <;> simp only [cmVec3Scale_x, cmVec3Scale_y, cmVec3Scale_z, mul_assoc, mul_comm im, h, mul_one]

theorem cmVec3Scale_neg (v : CmVec3 K) (s : K) : cmVec3Scale (-v) s = -cmVec3Scale v s := by
  ext <;> simp

theorem cmVec3Cross_neg (u v : CmVec3 K) : cmVec3Cross u (-v) = -cmVec3Cross u v := by
  ext <;> simp <;> ring

theorem cmVec3Cross_add_left (u v w : CmVec3 K) :
    cmVec3Cross (u + v) w = cmVec3Cross u w + cmVec3Cross v w := by
  ext <;> simp <;> ring

/-- What the first body loses the second one gets. -/
theorem applyImpulse_linear {a b : Nat} (hA : a < n) (hB : b < n) (hMa : (σ a).Movable)
    (hMb : (σ b).Movable) (ra rb impulse : CmVec3 K) :
    total linearMomentum n (applyImpulse σ a b ra rb impulse) = total linearMomentum n σ := by
  simp only [applyImpulse, linear_setAngular hA, linear_setAngular hB, linear_setLinear hA,
    linear_setLinear hB, Bodies.setLinear_apply, CmVec3.cmVec3Sub_eq, CmVec3.cmVec3Add_eq,
    sub_sub_cancel_left, add_sub_cancel_left, cmVec3Scale_neg, cmVec3Scale_inverse hMa.1,
    cmVec3Scale_inverse hMb.1, neg_add_cancel_right]

/-- About the origin the two impulses cancel, since they act at one point. -/
theorem applyImpulse_angular {a b : Nat} (hA : a < n) (hB : b < n) (hMa : (σ a).Movable)
    (hMb : (σ b).Movable) (point impulse : CmVec3 K) :
    total angularMomentum n (applyImpulse σ a b (point - (σ a).position) (point - (σ b).position)
      impulse) = total angularMomentum n σ := by
  simp only [applyImpulse, angular_setAngular hA, angular_setAngular hB, angular_setLinear hA,
    angular_setLinear hB, Bodies.setLinear_apply, Bodies.setAngular_apply, CmVec3.cmVec3Sub_eq,
    CmVec3.cmVec3Add_eq, sub_sub_cancel_left, add_sub_cancel_left, cmVec3Scale_neg,
    cmVec3Scale_inverse hMa.1, cmVec3Scale_inverse hMb.1, cmVec3Scale_inverse hMa.2,
    cmVec3Scale_inverse hMb.2, cmVec3Cross_neg]
  have hA' := cmVec3Cross_add_left (σ a).position (point - (σ a).position) impulse
  have hB' := cmVec3Cross_add_left (σ b).position (point - (σ b).position) impulse
  rw [add_sub_cancel] at hA' hB'
  rw [eq_sub_of_add_eq hA'.symm, eq_sub_of_add_eq hB'.symm]
  abel

/-! ## The solver -/

variable [LinearOrder K]

def physMin (a b : K) : K := if a < b then a else b

def physMax (a b : K) : K := if a > b then a else b

def physClamp (v lo hi : K) : K := if v < lo then lo else if v > hi then hi else v

/-- `PHYS_FIXED_DT`. -/
def physFixedDt : K := 1 / 60

/-- Two bodies, by their slots, and what the solver has done at their contact. -/
structure PhysContact (K : Type*) where
  bodyA : Nat
  bodyB : Nat
  point : CmVec3 K
  normal : CmVec3 K
  depth : K
  normalImpulse : K
  tangentImpulse : K

/-- The velocity of the second body at the contact, seen from the first one. -/
def relVel (bodies : Bodies K) (c : PhysContact K) : CmVec3 K :=
  let a := bodies c.bodyA
  let b := bodies c.bodyB
  let ra := cmVec3Sub c.point a.position
  let rb := cmVec3Sub c.point b.position
  cmVec3Sub (cmVec3Add b.linearVelocity (cmVec3Cross b.angularVelocity rb))
    (cmVec3Add a.linearVelocity (cmVec3Cross a.angularVelocity ra))

/-- What a body at `r` from the contact adds to the effective mass. -/
def inertiaTerm (r normal : CmVec3 K) (invInertia : K) : K :=
  cmVec3Dot (cmVec3Cross (cmVec3Scale (cmVec3Cross r normal) invInertia) r) normal

def effMass (bodies : Bodies K) (c : PhysContact K) : K :=
  let a := bodies c.bodyA
  let b := bodies c.bodyB
  a.invMass + b.invMass + inertiaTerm (cmVec3Sub c.point a.position) c.normal a.invInertia +
    inertiaTerm (cmVec3Sub c.point b.position) c.normal b.invInertia

/-- Both bodies of a contact get an impulse at its point. -/
def PhysContact.apply (c : PhysContact K) (bodies : Bodies K) (impulse : CmVec3 K) : Bodies K :=
  applyImpulse bodies c.bodyA c.bodyB (cmVec3Sub c.point (bodies c.bodyA).position)
    (cmVec3Sub c.point (bodies c.bodyB).position) impulse

/-- Restitution, and a bias that pushes the bodies apart where they are in each other. -/
def normalStep (bodies : Bodies K) (c : PhysContact K) : K :=
  let e := physMin (bodies c.bodyA).restitution (bodies c.bodyB).restitution
  let velNormal := cmVec3Dot (relVel bodies c) c.normal
  let baumgarte := 2 / 10
  let slop := 5 / 1000
  let bias := baumgarte / physFixedDt * physMax (c.depth - slop) 0
  (-(1 + e) * velNormal + bias) / effMass bodies c

def solveNormal (bodies : Bodies K) (c : PhysContact K) : Bodies K × PhysContact K :=
  let normalImpulse := physMax (c.normalImpulse + normalStep bodies c) 0
  let impulse := cmVec3Scale c.normal (normalImpulse - c.normalImpulse)
  (c.apply bodies impulse, { c with normalImpulse })

/-- The coefficient of friction at a contact. -/
def mu (bodies : Bodies K) (c : PhysContact K) : K :=
  ((bodies c.bodyA).friction + (bodies c.bodyB).friction) * (1 / 2)

def solveFriction (effMass : K) (tangent : CmVec3 K) (bodies : Bodies K) (c : PhysContact K) :
    Bodies K × PhysContact K :=
  let jt := -cmVec3Dot (relVel bodies c) tangent / effMass
  let maxFriction := mu bodies c * c.normalImpulse
  let tangentImpulse := physClamp (c.tangentImpulse + jt) (-maxFriction) maxFriction
  let frictionImpulse := cmVec3Scale tangent (tangentImpulse - c.tangentImpulse)
  (c.apply bodies frictionImpulse, { c with tangentImpulse })

/-- A contact that the solver skips: of a sensor, of bodies that cannot move, or of bodies that
leave each other. -/
def Skipped (bodies : Bodies K) (c : PhysContact K) : Prop :=
  ((bodies c.bodyA).isSensor ∨ (bodies c.bodyB).isSensor) ∨
    (bodies c.bodyA).invMass + (bodies c.bodyB).invMass ≤ 0 ∨
    cmVec3Dot (relVel bodies c) c.normal > 0 ∨ effMass bodies c ≤ 0

instance (bodies : Bodies K) (c : PhysContact K) : Decidable (Skipped bodies c) :=
  inferInstanceAs (Decidable (_ ∨ _ ∨ _ ∨ _))

/-- The body of the loop of `solve_contacts`. The direction of the tangent, or none where it is too
short, is left open. -/
def solveContact (tangentOf : Bodies K → PhysContact K → Option (CmVec3 K)) (bodies : Bodies K)
    (c : PhysContact K) : Bodies K × PhysContact K :=
  if Skipped bodies c then (bodies, c)
  else
    let (moved, pushed) := solveNormal bodies c
    match tangentOf moved pushed with
    | none => (moved, pushed)
    | some tangent => solveFriction (effMass bodies c) tangent moved pushed

/-- One iteration over the contacts. -/
def solvePass (tangentOf : Bodies K → PhysContact K → Option (CmVec3 K)) :
    Bodies K → List (PhysContact K) → Bodies K × List (PhysContact K)
  | bodies, [] => (bodies, [])
  | bodies, c :: contacts =>
    let (bodies, c) := solveContact tangentOf bodies c
    let (bodies, contacts) := solvePass tangentOf bodies contacts
    (bodies, c :: contacts)

/-- `solve_contacts`, where the tangents may be other ones in each iteration. -/
def solveContacts (tangentOf : Nat → Bodies K → PhysContact K → Option (CmVec3 K)) :
    Nat → Bodies K × List (PhysContact K) → Bodies K × List (PhysContact K)
  | 0, σ => σ
  | n + 1, σ => solveContacts tangentOf n (solvePass (tangentOf n) σ.1 σ.2)

/-- The tangent of the code: the relative velocity across the normal, with length one. -/
def tangentOf (sqrt : K → K) (bodies : Bodies K) (c : PhysContact K) : Option (CmVec3 K) :=
  let v := relVel bodies c
  let tangent := cmVec3Sub v (cmVec3Scale c.normal (cmVec3Dot v c.normal))
  let tangentLen := sqrt (cmVec3Dot tangent tangent)
  if tangentLen < 1 / 10 ^ 6 then none else some (cmVec3Scale tangent (1 / tangentLen))

/-! ## What one contact does -/

/-- Coulomb's law. -/
def InCone (bodies : Bodies K) (c : PhysContact K) : Prop :=
  0 ≤ c.normalImpulse ∧ |c.tangentImpulse| ≤ mu bodies c * c.normalImpulse

/-- Only the impulses differ. -/
def SameContact (c d : PhysContact K) : Prop :=
  d = { c with normalImpulse := d.normalImpulse, tangentImpulse := d.tangentImpulse }

omit [Field K] [LinearOrder K] in
theorem SameContact.bodies {c d : PhysContact K} (h : SameContact c d) :
    d.bodyA = c.bodyA ∧ d.bodyB = c.bodyB := by
  rw [h]
  exact ⟨rfl, rfl⟩

omit [Field K] [LinearOrder K] in
theorem SameContact.trans {c d e : PhysContact K} (h : SameContact c d) (h' : SameContact d e) :
    SameContact c e := by
  rw [SameContact, h', h]

variable (tangentOf : Bodies K → PhysContact K → Option (CmVec3 K)) (σ : Bodies K)
  (c : PhysContact K)

/-- A contact is left as it is, or an impulse acts at its point along the normal, and then perhaps
another one. -/
theorem solveContact_cases :
    solveContact tangentOf σ c = (σ, c) ∨
    ¬Skipped σ c ∧ (solveContact tangentOf σ c = solveNormal σ c ∨
      ∃ m tangent, solveContact tangentOf σ c =
        solveFriction m tangent (solveNormal σ c).1 (solveNormal σ c).2) := by
  by_cases hSkipped : Skipped σ c
  · exact Or.inl (if_pos hSkipped)
  refine Or.inr ⟨hSkipped, ?_⟩
  rw [solveContact, if_neg hSkipped]
  cases hTangent : tangentOf (solveNormal σ c).1 (solveNormal σ c).2 with
  | none => exact Or.inl (by simp [hTangent])
  | some tangent => exact Or.inr ⟨effMass σ c, tangent, by simp [hTangent]⟩

theorem solveContact_same : SameContact c (solveContact tangentOf σ c).2 := by
  rcases solveContact_cases tangentOf σ c with h | ⟨-, h | ⟨m, tangent, h⟩⟩ <;> rw [h] <;> rfl

/-- What holds of all bodies, and after an impulse at the point of the contact if before it, holds
after the contact. -/
theorem solveContact_induction {P : Bodies K → Prop} (h : P σ)
    (hStep : ∀ τ impulse, SameBodies σ τ → P τ → P (c.apply τ impulse)) :
    P (solveContact tangentOf σ c).1 := by
  have hSame : SameBodies σ (solveNormal σ c).1 := sameBodies_applyImpulse _ _ _ _ _ _
  have hNormal : P (solveNormal σ c).1 := hStep σ _ (.refl σ) h
  rcases solveContact_cases tangentOf σ c with hEq | ⟨-, hEq | ⟨m, tangent, hEq⟩⟩ <;> rw [hEq]
  · exact h
  · exact hNormal
  · exact hStep _ _ hSame hNormal

theorem solveContact_sameBodies : SameBodies σ (solveContact tangentOf σ c).1 :=
  solveContact_induction tangentOf σ c (.refl σ) fun _ _ _ h =>
    h.trans (sameBodies_applyImpulse _ _ _ _ _ _)

theorem solveContact_sensor (h : (σ c.bodyA).isSensor ∨ (σ c.bodyB).isSensor) :
    solveContact tangentOf σ c = (σ, c) :=
  if_pos (Or.inl h)

theorem solveContact_sameVelocity {i : Nat}
    (h : (i ≠ c.bodyA ∧ i ≠ c.bodyB) ∨ (σ i).Fixed) :
    SameVelocity (σ i) ((solveContact tangentOf σ c).1 i) := by
  refine solveContact_induction tangentOf σ c (P := fun τ => SameVelocity (σ i) (τ i)) ⟨rfl, rfl⟩ ?_
  intro τ impulse hSame hVelocity
  refine hVelocity.trans (applyImpulse_sameVelocity _ _ _ _ _ _ (h.imp_right fun hFixed => ?_))
  rw [PhysBody.Fixed, hSame i]
  exact hFixed

/-! ## The momenta -/

section Momenta

variable {n : Nat} (hA : c.bodyA < n) (hB : c.bodyB < n) (hMa : (σ c.bodyA).Movable)
  (hMb : (σ c.bodyB).Movable)

include hA hB hMa hMb

theorem solveContact_linear :
    total linearMomentum n (solveContact tangentOf σ c).1 = total linearMomentum n σ :=
  solveContact_induction tangentOf σ c
    (P := fun τ => total linearMomentum n τ = total linearMomentum n σ) rfl
    fun τ _ hSame hTotal =>
      (applyImpulse_linear τ hA hB (hSame.movable hMa) (hSame.movable hMb) _ _ _).trans hTotal

theorem solveContact_angular :
    total angularMomentum n (solveContact tangentOf σ c).1 = total angularMomentum n σ :=
  solveContact_induction tangentOf σ c
    (P := fun τ => total angularMomentum n τ = total angularMomentum n σ) rfl
    fun τ _ hSame hTotal =>
      (applyImpulse_angular τ hA hB (hSame.movable hMa) (hSame.movable hMb) _ _).trans hTotal

end Momenta

/-! ## The cone -/

/-- The restitution and the friction of a body are not negative. -/
def Physical (σ : Bodies K) (i : Nat) : Prop := 0 ≤ (σ i).restitution ∧ 0 ≤ (σ i).friction

theorem Physical.congr {σ τ : Bodies K} (hSame : SameBodies σ τ) {i : Nat} :
    Physical τ i ↔ Physical σ i := by
  rw [Physical, hSame i]
  rfl

theorem InCone.congr {σ τ : Bodies K} (hSame : SameBodies σ τ) {c : PhysContact K} :
    InCone τ c ↔ InCone σ c := by
  rw [InCone, mu, hSame c.bodyA, hSame c.bodyB]
  rfl

theorem physMin_nonneg {a b : K} (hA : 0 ≤ a) (hB : 0 ≤ b) : 0 ≤ physMin a b := by
  unfold physMin
  split_ifs
  · exact hA
  · exact hB

omit [Field K] in
theorem le_physMax (a b : K) : a ≤ physMax a b ∧ b ≤ physMax a b := by
  unfold physMax
  split_ifs with h
  · exact ⟨le_rfl, h.le⟩
  · exact ⟨not_lt.mp h, le_rfl⟩

section Cone

variable [IsStrictOrderedRing K]

theorem abs_physClamp {v m : K} (h : 0 ≤ m) : |physClamp v (-m) m| ≤ m := by
  unfold physClamp
  split_ifs with hLo hHi
  · rw [abs_neg, abs_of_nonneg h]
  · rw [abs_of_nonneg h]
  · exact abs_le.mpr ⟨not_lt.mp hLo, not_lt.mp hHi⟩

variable {σ c} (hA : Physical σ c.bodyA) (hB : Physical σ c.bodyB)

include hA hB

theorem mu_nonneg : 0 ≤ mu σ c :=
  mul_nonneg (add_nonneg hA.2 hB.2) (by norm_num)

/-- The normal impulse never gets smaller: the bodies come together, and the bias adds to it. -/
theorem normalStep_nonneg (h : ¬Skipped σ c) : 0 ≤ normalStep σ c := by
  obtain ⟨hVelocity, hMass⟩ : cmVec3Dot (relVel σ c) c.normal ≤ 0 ∧ 0 < effMass σ c := by
    simp only [Skipped, not_or, not_lt, not_le] at h
    exact ⟨h.2.2.1, h.2.2.2⟩
  have hRestitution := physMin_nonneg hA.1 hB.1
  have hDepth : 0 ≤ physMax (c.depth - 5 / 1000) 0 := (le_physMax _ _).2
  have hBias : 0 ≤ 2 / 10 / physFixedDt * physMax (c.depth - 5 / 1000) 0 :=
    mul_nonneg (by norm_num [physFixedDt]) hDepth
  refine div_nonneg ?_ hMass.le
  rw [neg_mul, ← mul_neg]
  exact add_nonneg (mul_nonneg (by linarith) (neg_nonneg.mpr hVelocity)) hBias

theorem solveNormal_inCone (h : ¬Skipped σ c) (hCone : InCone σ c) :
    InCone σ (solveNormal σ c).2 := by
  have hGrows : c.normalImpulse ≤ (solveNormal σ c).2.normalImpulse :=
    (le_add_of_nonneg_right (normalStep_nonneg hA hB h)).trans (le_physMax _ _).1
  exact ⟨(le_physMax _ _).2,
    hCone.2.trans (mul_le_mul_of_nonneg_left hGrows (mu_nonneg hA hB))⟩

theorem solveFriction_inCone {m : K} {tangent : CmVec3 K} (h : 0 ≤ c.normalImpulse) :
    InCone σ (solveFriction m tangent σ c).2 :=
  ⟨h, abs_physClamp (mul_nonneg (mu_nonneg hA hB) h)⟩

omit hA hB

theorem solveContact_inCone (hA : Physical σ c.bodyA) (hB : Physical σ c.bodyB)
    (hCone : InCone σ c) : InCone σ (solveContact tangentOf σ c).2 := by
  rcases solveContact_cases tangentOf σ c with hEq | ⟨hSkipped, hEq | ⟨m, tangent, hEq⟩⟩ <;> rw [hEq]
  · exact hCone
  · exact solveNormal_inCone hA hB hSkipped hCone
  · have hSame : SameBodies σ (solveNormal σ c).1 := sameBodies_applyImpulse _ _ _ _ _ _
    have hNormal := solveNormal_inCone hA hB hSkipped hCone
    refine (InCone.congr hSame).mp (solveFriction_inCone ?_ ?_ hNormal.1)
    · exact (Physical.congr hSame).mpr hA
    · exact (Physical.congr hSame).mpr hB

end Cone

/-! ## Runs -/

theorem forall₂_trans {α : Type*} {R : α → α → Prop} (hTrans : ∀ a b c, R a b → R b c → R a c)
    {xs ys zs : List α} (h : List.Forall₂ R xs ys) (h' : List.Forall₂ R ys zs) :
    List.Forall₂ R xs zs := by
  induction h generalizing zs with
  | nil => exact h'
  | cons hHead _ ih =>
    cases h' with
    | cons hHead' hTail => exact .cons (hTrans _ _ _ hHead hHead') (ih hTail)

theorem forall₂_source {α : Type*} {R : α → α → Prop} {xs ys : List α} (h : List.Forall₂ R xs ys)
    {y : α} (hy : y ∈ ys) : ∃ x ∈ xs, R x y := by
  obtain ⟨i, hi, rfl⟩ := List.mem_iff_getElem.mp hy
  have hi' := h.length_eq.symm ▸ hi
  exact ⟨xs[i], List.getElem_mem hi', h.get hi' hi⟩

theorem solvePass_contacts (contacts : List (PhysContact K)) :
    List.Forall₂ SameContact contacts (solvePass tangentOf σ contacts).2 := by
  induction contacts generalizing σ with
  | nil => exact .nil
  | cons c contacts ih => exact .cons (solveContact_same tangentOf σ c) (ih _)

section Runs

variable {σ₀ : Bodies K} {P : Bodies K → Prop}

/-- What each contact of a list preserves. -/
theorem solvePass_induction {contacts : List (PhysContact K)} (hSame : SameBodies σ₀ σ) (h : P σ)
    (hStep : ∀ c ∈ contacts, ∀ τ, SameBodies σ₀ τ → P τ → P (solveContact tangentOf τ c).1) :
    SameBodies σ₀ (solvePass tangentOf σ contacts).1 ∧ P (solvePass tangentOf σ contacts).1 := by
  induction contacts generalizing σ with
  | nil => exact ⟨hSame, h⟩
  | cons c contacts ih =>
    exact ih _ (hSame.trans (solveContact_sameBodies tangentOf σ c))
      (hStep c (.head _) σ hSame h) fun d hd => hStep d (.tail _ hd)

theorem solvePass_sameBodies (contacts : List (PhysContact K)) :
    SameBodies σ (solvePass tangentOf σ contacts).1 :=
  (solvePass_induction (P := fun _ => True) tangentOf σ (.refl σ) trivial
    fun _ _ _ _ _ => trivial).1

/-- What each contact of a run preserves, whatever impulses it has by then. -/
theorem solveContacts_induction (tangentOf : Nat → Bodies K → PhysContact K → Option (CmVec3 K))
    (n : Nat) {contacts : List (PhysContact K)} (hSame : SameBodies σ₀ σ) (h : P σ)
    (hStep : ∀ c ∈ contacts, ∀ k τ d, SameContact c d → SameBodies σ₀ τ → P τ →
      P (solveContact (tangentOf k) τ d).1) :
    P (solveContacts tangentOf n (σ, contacts)).1 := by
  induction n generalizing σ contacts with
  | zero => exact h
  | succ n ih =>
    obtain ⟨hSame', h'⟩ := solvePass_induction (tangentOf n) σ hSame h
      fun c hc τ => hStep c hc n τ c rfl
    have hContacts := solvePass_contacts (tangentOf n) σ contacts
    refine ih _ hSame' h' fun d hd k τ e hde => ?_
    obtain ⟨c, hc, hcd⟩ := forall₂_source hContacts hd
    exact hStep c hc k τ e (hcd.trans hde)

theorem solveContacts_sameBodies
    (tangentOf : Nat → Bodies K → PhysContact K → Option (CmVec3 K)) (n : Nat)
    (contacts : List (PhysContact K)) : SameBodies σ (solveContacts tangentOf n (σ, contacts)).1 :=
  solveContacts_induction σ tangentOf n (.refl σ) (.refl σ) fun _ _ _ _ _ _ _ h =>
    h.trans (solveContact_sameBodies _ _ _)

end Runs

/-- Two states of one contact, of which the second is in the cone if the first one is. -/
def KeepsCone (σ₀ : Bodies K) (c d : PhysContact K) : Prop :=
  SameContact c d ∧ (InCone σ₀ c → InCone σ₀ d)

theorem KeepsCone.trans {σ₀ : Bodies K} {c d e : PhysContact K} (h : KeepsCone σ₀ c d) (h' : KeepsCone σ₀ d e) :
    KeepsCone σ₀ c e :=
  ⟨h.1.trans h'.1, h'.2 ∘ h.2⟩

section Cone

variable [IsStrictOrderedRing K] {σ₀ : Bodies K}

def PhysicalAt (σ₀ : Bodies K) (c : PhysContact K) : Prop :=
  Physical σ₀ c.bodyA ∧ Physical σ₀ c.bodyB

theorem solvePass_keepsCone {contacts : List (PhysContact K)} (hSame : SameBodies σ₀ σ)
    (h : ∀ c ∈ contacts, PhysicalAt σ₀ c) :
    List.Forall₂ (KeepsCone σ₀) contacts (solvePass tangentOf σ contacts).2 := by
  induction contacts generalizing σ with
  | nil => exact .nil
  | cons c contacts ih =>
    refine .cons ⟨solveContact_same tangentOf σ c, fun hCone => ?_⟩
      (ih _ (hSame.trans (solveContact_sameBodies tangentOf σ c)) fun d hd => h d (.tail _ hd))
    obtain ⟨hA, hB⟩ := h c (.head _)
    refine (InCone.congr hSame).mp (solveContact_inCone tangentOf ?_ ?_ ?_)
    · exact (Physical.congr hSame).mpr hA
    · exact (Physical.congr hSame).mpr hB
    · exact (InCone.congr hSame).mpr hCone

theorem solveContacts_keepsCone (tangentOf : Nat → Bodies K → PhysContact K → Option (CmVec3 K))
    (n : Nat) {contacts : List (PhysContact K)} (hSame : SameBodies σ₀ σ)
    (h : ∀ c ∈ contacts, PhysicalAt σ₀ c) :
    List.Forall₂ (KeepsCone σ₀) contacts (solveContacts tangentOf n (σ, contacts)).2 := by
  induction n generalizing σ contacts with
  | zero => exact List.forall₂_same.mpr fun c _ => ⟨rfl, id⟩
  | succ n ih =>
    have hPass := solvePass_keepsCone (tangentOf n) σ hSame h
    have hSame' := hSame.trans (solvePass_sameBodies (tangentOf n) σ contacts)
    refine forall₂_trans (R := KeepsCone σ₀) (fun _ _ _ => KeepsCone.trans) hPass (ih _ hSame' fun d hd => ?_)
    obtain ⟨c, hc, hcd⟩ := forall₂_source hPass hd
    rw [PhysicalAt, hcd.1]
    exact h c hc

/-- No impulse that the solver finds changes the momenta of bodies that can all move, none moves a
body that is fixed or that only sensors are at, and every contact obeys Coulomb's law. -/
theorem solveContacts_laws {n : Nat}
    (tangentOf : Nat → Bodies K → PhysContact K → Option (CmVec3 K)) (iterations : Nat)
    (bodies : Bodies K) (contacts : List (PhysContact K))
    (hSlots : ∀ c ∈ contacts, c.bodyA < n ∧ c.bodyB < n)
    (hBodies : ∀ i < n, 0 ≤ (bodies i).restitution ∧ 0 ≤ (bodies i).friction) :
    let solved := solveContacts tangentOf iterations (bodies, contacts)
    ((∀ c ∈ contacts, (bodies c.bodyA).Movable ∧ (bodies c.bodyB).Movable) →
      total linearMomentum n solved.1 = total linearMomentum n bodies ∧
        total angularMomentum n solved.1 = total angularMomentum n bodies) ∧
    (∀ i, (bodies i).Fixed → SameVelocity (bodies i) (solved.1 i)) ∧
    (∀ i, (∀ c ∈ contacts, i = c.bodyA ∨ i = c.bodyB →
        (bodies c.bodyA).isSensor ∨ (bodies c.bodyB).isSensor) →
      SameVelocity (bodies i) (solved.1 i)) ∧
    List.Forall₂ (fun c d => c.normalImpulse = 0 → c.tangentImpulse = 0 → InCone solved.1 d)
      contacts solved.2 := by
  have hRefl := SameBodies.refl bodies
  refine ⟨fun hMovable => ⟨?_, ?_⟩, fun i hFixed => ?_, fun i hSensor => ?_, ?_⟩
  · refine solveContacts_induction (P := fun τ => total linearMomentum n τ = _) bodies tangentOf
      iterations hRefl rfl fun c hc k τ d hcd hSame hTotal => ?_
    obtain ⟨hA, hB⟩ := hcd.bodies
    refine (solveContact_linear _ τ d ?_ ?_ ?_ ?_).trans hTotal
    · exact hA ▸ (hSlots c hc).1
    · exact hB ▸ (hSlots c hc).2
    · exact hSame.movable (hA ▸ (hMovable c hc).1)
    · exact hSame.movable (hB ▸ (hMovable c hc).2)
  · refine solveContacts_induction (P := fun τ => total angularMomentum n τ = _) bodies tangentOf
      iterations hRefl rfl fun c hc k τ d hcd hSame hTotal => ?_
    obtain ⟨hA, hB⟩ := hcd.bodies
    refine (solveContact_angular _ τ d ?_ ?_ ?_ ?_).trans hTotal
    · exact hA ▸ (hSlots c hc).1
    · exact hB ▸ (hSlots c hc).2
    · exact hSame.movable (hA ▸ (hMovable c hc).1)
    · exact hSame.movable (hB ▸ (hMovable c hc).2)
  · refine solveContacts_induction (P := fun τ => SameVelocity (bodies i) (τ i)) bodies tangentOf
      iterations hRefl ⟨rfl, rfl⟩ fun c hc k τ d hcd hSame hVelocity => ?_
    refine hVelocity.trans (solveContact_sameVelocity _ τ d (Or.inr ?_))
    rw [PhysBody.Fixed, hSame i]
    exact hFixed
  · refine solveContacts_induction (P := fun τ => SameVelocity (bodies i) (τ i)) bodies tangentOf
      iterations hRefl ⟨rfl, rfl⟩ fun c hc k τ d hcd hSame hVelocity => ?_
    obtain ⟨hA, hB⟩ := hcd.bodies
    by_cases hAt : i = c.bodyA ∨ i = c.bodyB
    · -- the contact is one with a sensor
      rw [solveContact_sensor]
      · exact hVelocity
      · rw [hA, hB, hSame c.bodyA, hSame c.bodyB]
        exact hSensor c hc hAt
    · refine hVelocity.trans (solveContact_sameVelocity _ τ d (Or.inl ?_))
      rw [hA, hB]
      exact not_or.mp hAt
  · have hSame := solveContacts_sameBodies bodies tangentOf iterations contacts
    have hKeeps := solveContacts_keepsCone bodies tangentOf iterations hRefl fun c hc =>
      (⟨hBodies _ (hSlots c hc).1, hBodies _ (hSlots c hc).2⟩ : PhysicalAt bodies c)
    refine hKeeps.imp fun c d hcd hNormal hTangent => (InCone.congr hSame).mpr (hcd.2 ⟨?_, ?_⟩)
    · rw [hNormal]
    · rw [hNormal, hTangent, abs_zero, mul_zero]

end Cone

/-- Two balls that meet, the second one at a standstill. -/
def ballsThatMeet : Bodies ℚ
  | 0 => { createdBody 0 cmVec3Zero 2 (.sphere 1) with linearVelocity := ⟨3, 0, 1⟩ }
  | i + 1 => createdBody (i + 1) ⟨3 / 2, 0, 0⟩ 2 (.sphere 1)

def contactOfBalls : PhysContact ℚ := ⟨0, 1, ⟨3 / 4, 0, 0⟩, ⟨1, 0, 0⟩, 1 / 2, 0, 0⟩

theorem solveContacts_laws_balls :
    total linearMomentum 2
        (solveContacts (fun _ => Physics.tangentOf Rat.sqrt) 4 (ballsThatMeet, [contactOfBalls])).1 =
      total linearMomentum 2 ballsThatMeet := by
  refine ((solveContacts_laws _ 4 ballsThatMeet [contactOfBalls] ?_ fun i _ => ?_).1 ?_).1
  · simp [contactOfBalls]
  · cases i <;> norm_num [ballsThatMeet, createdBody]
  · norm_num [PhysBody.Movable, ballsThatMeet, contactOfBalls, createdBody, computeInertia]

end Calynda.Physics
