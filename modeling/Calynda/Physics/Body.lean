import Calynda.Math.Vec3

/-!
# Bodies

A body as the physics engine keeps it, and as it makes a new one.
-/

namespace Calynda.Physics

inductive PhysCollider (K : Type*) where
  | sphere (radius : K)
  | aabb (halfExtents : CmVec3 K)
  | capsule (radius halfHeight : K)
  | plane (normal : CmVec3 K) (distance : K)
  deriving DecidableEq

structure PhysBody (K : Type*) where
  position : CmVec3 K
  rotation : CmQuat K
  linearVelocity : CmVec3 K
  angularVelocity : CmVec3 K
  mass : K
  invMass : K
  inertia : K
  invInertia : K
  restitution : K
  friction : K
  linearDamping : K
  angularDamping : K
  force : CmVec3 K
  torque : CmVec3 K
  collider : PhysCollider K
  active : Bool
  isStatic : Bool
  isSensor : Bool
  id : Nat
  collisionMask : BitVec 32
  collisionLayer : BitVec 32
  deriving DecidableEq

variable {K : Type*} [Field K] [LinearOrder K]

def computeInertia (mass : K) (c : PhysCollider K) : K :=
  if mass ≤ 0 then 0
  else
    match c with
    | .sphere radius => 2 / 5 * mass * radius * radius
    | .aabb h =>
      let w2 := (2 * h.x) * (2 * h.x)
      let ht2 := (2 * h.y) * (2 * h.y)
      let d2 := (2 * h.z) * (2 * h.z)
      1 / 12 * mass * (w2 + ht2 + d2)
    | .capsule r hh =>
      let cylH := 2 * hh
      1 / 12 * mass * (3 * r * r + cylH * cylH)
    | .plane _ _ => 0

/-- The body that `phys_body_create` puts into slot `id`. -/
def createdBody (id : Nat) (pos : CmVec3 K) (mass : K) (collider : PhysCollider K) : PhysBody K :=
  let inertia := computeInertia mass collider
  { position := pos
    rotation := cmQuatIdentity
    linearVelocity := cmVec3Zero
    angularVelocity := cmVec3Zero
    mass
    invMass := if mass > 0 then 1 / mass else 0
    inertia
    invInertia := if inertia > 0 then 1 / inertia else 0
    restitution := 3 / 10
    friction := 5 / 10
    linearDamping := 1 / 100
    angularDamping := 5 / 100
    force := cmVec3Zero
    torque := cmVec3Zero
    collider
    active := true
    isStatic := mass ≤ 0
    isSensor := false
    id
    collisionMask := 0xFFFFFFFF
    collisionLayer := 1 }

end Calynda.Physics
