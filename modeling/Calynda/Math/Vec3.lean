import Mathlib.Tactic.Ring

/-!
# Vectors

The vectors and the quaternions of the math library, over any ring.
-/

namespace Calynda

variable {K : Type*}

/-! ## Numerals

Mathlib's instance for the numerals that several modules share, so that a definition is the same
term in each of them.
-/

instance atLeastTwo_two : Nat.AtLeastTwo 2 := inferInstance
instance atLeastTwo_three : Nat.AtLeastTwo 3 := inferInstance
instance atLeastTwo_five : Nat.AtLeastTwo 5 := inferInstance
instance atLeastTwo_six : Nat.AtLeastTwo 6 := inferInstance
instance atLeastTwo_ten : Nat.AtLeastTwo 10 := inferInstance
instance atLeastTwo_hundred : Nat.AtLeastTwo 100 := inferInstance
instance atLeastTwo_piDigits : Nat.AtLeastTwo 314159265358979323846 := inferInstance

/-! ## Vectors and quaternions -/

@[ext] structure CmVec3 (K : Type*) where
  x : K
  y : K
  z : K
  deriving DecidableEq

@[ext] structure CmQuat (K : Type*) where
  x : K
  y : K
  z : K
  w : K
  deriving DecidableEq

section Ring

variable [Ring K] (a b v : CmVec3 K)

def cmVec3 (x y z : K) : CmVec3 K := ⟨x, y, z⟩

@[simps] def cmVec3Zero : CmVec3 K := ⟨0, 0, 0⟩

@[simps] def cmVec3Add : CmVec3 K := ⟨a.x + b.x, a.y + b.y, a.z + b.z⟩

@[simps] def cmVec3Sub : CmVec3 K := ⟨a.x - b.x, a.y - b.y, a.z - b.z⟩

@[simps] def cmVec3Scale (s : K) : CmVec3 K := ⟨v.x * s, v.y * s, v.z * s⟩

@[simps] def cmVec3Neg : CmVec3 K := ⟨-v.x, -v.y, -v.z⟩

def cmVec3Dot : K := a.x * b.x + a.y * b.y + a.z * b.z

@[simps] def cmVec3Cross : CmVec3 K :=
  ⟨a.y * b.z - a.z * b.y, a.z * b.x - a.x * b.z, a.x * b.y - a.y * b.x⟩

def cmQuatIdentity : CmQuat K := ⟨0, 0, 0, 1⟩

end Ring

namespace CmVec3

variable [Ring K]

instance : Zero (CmVec3 K) := ⟨cmVec3Zero⟩

instance : Add (CmVec3 K) := ⟨cmVec3Add⟩

instance : Neg (CmVec3 K) := ⟨cmVec3Neg⟩

instance : Sub (CmVec3 K) := ⟨cmVec3Sub⟩

variable (a b : CmVec3 K)

@[simp] theorem zero_x : (0 : CmVec3 K).x = 0 := rfl

@[simp] theorem zero_y : (0 : CmVec3 K).y = 0 := rfl

@[simp] theorem zero_z : (0 : CmVec3 K).z = 0 := rfl

@[simp] theorem add_x : (a + b).x = a.x + b.x := rfl

@[simp] theorem add_y : (a + b).y = a.y + b.y := rfl

@[simp] theorem add_z : (a + b).z = a.z + b.z := rfl

@[simp] theorem neg_x : (-a).x = -a.x := rfl

@[simp] theorem neg_y : (-a).y = -a.y := rfl

@[simp] theorem neg_z : (-a).z = -a.z := rfl

@[simp] theorem sub_x : (a - b).x = a.x - b.x := rfl

@[simp] theorem sub_y : (a - b).y = a.y - b.y := rfl

@[simp] theorem sub_z : (a - b).z = a.z - b.z := rfl

instance : AddCommGroup (CmVec3 K) where
  add_assoc a b c := by ext <;> simp [add_assoc]
  zero_add a := by ext <;> simp
  add_zero a := by ext <;> simp
  neg_add_cancel a := by ext <;> simp
  add_comm a b := by ext <;> simp [add_comm]
  sub_eq_add_neg a b := by ext <;> simp [sub_eq_add_neg]
  nsmul := nsmulRec
  zsmul := zsmulRec

@[simp] theorem cmVec3Add_eq : cmVec3Add a b = a + b := rfl

@[simp] theorem cmVec3Sub_eq : cmVec3Sub a b = a - b := rfl

@[simp] theorem cmVec3Neg_eq : cmVec3Neg a = -a := rfl

end CmVec3

end Calynda
