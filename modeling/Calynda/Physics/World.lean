import Calynda.Physics.Body

/-!
# Worlds

The bodies of a world in their slots, and the constraints between them. A body and a constraint are
handed out by their addresses, so that a slot is all that a caller knows of a body.
-/

namespace Calynda.Physics

/-- `PHYS_MAX_BODIES`. -/
def physMaxBodies : Nat := 256

/-- `PHYS_MAX_CONSTRAINTS`. -/
def physMaxConstraints : Nat := 64

inductive PhysConstraintType where
  | pin
  | distance
  | hinge
  deriving DecidableEq

/-- A constraint, which holds its bodies by their slots. -/
structure PhysConstraint (K : Type*) where
  type : PhysConstraintType
  bodyA : Nat
  bodyB : Option Nat
  anchorA : CmVec3 K
  anchorB : CmVec3 K
  distance : K
  axis : CmVec3 K
  active : Bool
  deriving DecidableEq

/-- The slots of a world, used or not, and how many are used. -/
structure PhysWorld (K : Type*) where
  bodies : Nat → PhysBody K
  bodyCount : Int
  constraints : List (PhysConstraint K)

variable {K : Type*} [Field K] [LinearOrder K]

/-- A slot that all bytes are zero of. -/
def zeroBody : PhysBody K where
  position := cmVec3Zero
  rotation := ⟨0, 0, 0, 0⟩
  linearVelocity := cmVec3Zero
  angularVelocity := cmVec3Zero
  mass := 0
  invMass := 0
  inertia := 0
  invInertia := 0
  restitution := 0
  friction := 0
  linearDamping := 0
  angularDamping := 0
  force := cmVec3Zero
  torque := cmVec3Zero
  collider := .sphere 0
  active := false
  isStatic := false
  isSensor := false
  id := 0
  collisionMask := 0
  collisionLayer := 0

def physWorldInit : PhysWorld K := ⟨fun _ => zeroBody, 0, []⟩

/-- The slot of the new body, if there is room. -/
def physBodyCreate (w : PhysWorld K) (pos : CmVec3 K) (mass : K) (collider : PhysCollider K) :
    Option Nat × PhysWorld K :=
  if w.bodyCount ≥ physMaxBodies then (none, w)
  else
    let slot := w.bodyCount.toNat
    (some slot, { w with
      bodies := Function.update w.bodies slot (createdBody slot pos mass collider)
      bodyCount := w.bodyCount + 1 })

def physBodyCreateStatic (w : PhysWorld K) (pos : CmVec3 K) (collider : PhysCollider K) :
    Option Nat × PhysWorld K :=
  match physBodyCreate w pos 0 collider with
  | (none, w) => (none, w)
  | (some slot, w) => (some slot, { w with
      bodies := Function.update w.bodies slot { w.bodies slot with isStatic := true } })

/-- The last body moves into the slot of the one that goes. -/
def physBodyDestroy (w : PhysWorld K) (slot : Nat) : PhysWorld K :=
  let body := w.bodies slot
  if body.active then
    let bodies := Function.update w.bodies slot { body with active := false }
    let idx := body.id
    let last := w.bodyCount - 1
    { w with
      bodies :=
        if (idx : Int) < last then
          Function.update bodies idx { bodies last.toNat with id := idx }
        else bodies
      bodyCount := w.bodyCount - 1 }
  else w

def physBodySetVelocity (w : PhysWorld K) (slot : Nat) (vel : CmVec3 K) : PhysWorld K :=
  { w with bodies := Function.update w.bodies slot { w.bodies slot with linearVelocity := vel } }

/-- Whether there was room for a constraint. -/
def addConstraint (w : PhysWorld K) (c : PhysConstraint K) : Bool × PhysWorld K :=
  if w.constraints.length ≥ physMaxConstraints then (false, w)
  else (true, { w with constraints := w.constraints ++ [c] })

def physConstraintPin (w : PhysWorld K) (body : Nat) (localAnchor worldAnchor : CmVec3 K) :
    Bool × PhysWorld K :=
  addConstraint w ⟨.pin, body, none, localAnchor, worldAnchor, 0, cmVec3Zero, true⟩

def physConstraintDistance (w : PhysWorld K) (a : Nat) (anchorA : CmVec3 K) (b : Option Nat)
    (anchorB : CmVec3 K) (distance : K) : Bool × PhysWorld K :=
  addConstraint w ⟨.distance, a, b, anchorA, anchorB, distance, cmVec3Zero, true⟩

def physConstraintHinge (w : PhysWorld K) (a : Nat) (anchorA : CmVec3 K) (b : Option Nat)
    (anchorB : CmVec3 K) (axis : CmVec3 K) : Bool × PhysWorld K :=
  addConstraint w ⟨.hinge, a, b, anchorA, anchorB, 0, axis, true⟩

end Calynda.Physics
