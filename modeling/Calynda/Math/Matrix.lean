import Calynda.Math.Vec3
import Mathlib.Data.Matrix.Mul
import Mathlib.Data.Fin.VecNotation
import Mathlib.Tactic.FinCases

/-!
# Matrices

The sixteen numbers of a matrix, one column after the other, and what a matrix does to a point.
-/

namespace Calynda

variable {K : Type*}

@[ext] structure CmVec4 (K : Type*) where
  x : K
  y : K
  z : K
  w : K
  deriving DecidableEq

instance neZero_sixteen : NeZero 16 := ⟨by decide⟩

@[ext] structure CmMat4 (K : Type*) where
  m : Fin 16 → K

/-- `CM_MAT4_AT`. -/
def cmMat4At (a : CmMat4 K) (row col : Fin 4) : K := a.m ⟨col * 4 + row, by omega⟩

def CmMat4.ofEntries (entry : Fin 4 → Fin 4 → K) : CmMat4 K :=
  ⟨fun i => entry ⟨i % 4, by omega⟩ ⟨i / 4, by omega⟩⟩

@[simp] theorem cmMat4At_ofEntries (entry : Fin 4 → Fin 4 → K) (row col : Fin 4) :
    cmMat4At (.ofEntries entry) row col = entry row col := by
  have hRow : (col * 4 + row : Nat) % 4 = row := by omega
  have hCol : (col * 4 + row : Nat) / 4 = col := by omega
  simp [cmMat4At, CmMat4.ofEntries, hRow, hCol]

def CmMat4.toMatrix (a : CmMat4 K) : Matrix (Fin 4) (Fin 4) K := .of (cmMat4At a)

theorem CmMat4.toMatrix_injective : Function.Injective (CmMat4.toMatrix (K := K)) := by
  intro a b h
  ext i
  have hEntry := congrFun₂ h ⟨i % 4, by omega⟩ ⟨i / 4, by omega⟩
  have hIndex : (i / 4 * 4 + i % 4 : Nat) = i := by omega
  simpa [toMatrix, cmMat4At, hIndex] using hEntry

variable [CommRing K] (a b : CmMat4 K)

def cmVec4FromVec3 (v : CmVec3 K) (w : K) : CmVec4 K := ⟨v.x, v.y, v.z, w⟩

def cmVec4Xyz (v : CmVec4 K) : CmVec3 K := ⟨v.x, v.y, v.z⟩

def cmMat4Identity : CmMat4 K := ⟨fun i => if i = 0 ∨ i = 5 ∨ i = 10 ∨ i = 15 then 1 else 0⟩

def cmMat4Mul : CmMat4 K := .ofEntries fun row c => ∑ k, cmMat4At a row k * cmMat4At b k c

def cmMat4MulVec4 (v : CmVec4 K) : CmVec4 K where
  x := a.m 0 * v.x + a.m 4 * v.y + a.m 8 * v.z + a.m 12 * v.w
  y := a.m 1 * v.x + a.m 5 * v.y + a.m 9 * v.z + a.m 13 * v.w
  z := a.m 2 * v.x + a.m 6 * v.y + a.m 10 * v.z + a.m 14 * v.w
  w := a.m 3 * v.x + a.m 7 * v.y + a.m 11 * v.z + a.m 15 * v.w

def cmMat4MulPoint (p : CmVec3 K) : CmVec3 K := cmVec4Xyz (cmMat4MulVec4 a (cmVec4FromVec3 p 1))

def cmMat4FromQuat (q : CmQuat K) : CmMat4 K :=
  let xx := q.x * q.x
  let yy := q.y * q.y
  let zz := q.z * q.z
  let xy := q.x * q.y
  let xz := q.x * q.z
  let yz := q.y * q.z
  let wx := q.w * q.x
  let wy := q.w * q.y
  let wz := q.w * q.z
  ⟨![1 - 2 * (yy + zz), 2 * (xy + wz), 2 * (xz - wy), 0,
    2 * (xy - wz), 1 - 2 * (xx + zz), 2 * (yz + wx), 0,
    2 * (xz + wy), 2 * (yz - wx), 1 - 2 * (xx + yy), 0,
    0, 0, 0, 1]⟩

/-- The columns of the rotation get the scale, and the last one the translation. -/
def cmMat4Trs (pos : CmVec3 K) (rot : CmQuat K) (scl : CmVec3 K) : CmMat4 K :=
  let r := (cmMat4FromQuat rot).m
  ⟨![r 0 * scl.x, r 1 * scl.x, r 2 * scl.x, r 3,
    r 4 * scl.y, r 5 * scl.y, r 6 * scl.y, r 7,
    r 8 * scl.z, r 9 * scl.z, r 10 * scl.z, r 11,
    pos.x, pos.y, pos.z, r 15]⟩

/-! ## The matrices as those of the library -/

namespace CmMat4

theorem toMatrix_mul : toMatrix (cmMat4Mul a b) = toMatrix a * toMatrix b := by
  ext row col
  simp [toMatrix, cmMat4Mul, Matrix.mul_apply]

theorem toMatrix_identity : toMatrix (cmMat4Identity : CmMat4 K) = 1 := by
  ext row col
  fin_cases row <;> fin_cases col <;> rfl

theorem mul_assoc (c : CmMat4 K) : cmMat4Mul (cmMat4Mul a b) c = cmMat4Mul a (cmMat4Mul b c) :=
  toMatrix_injective (by simp only [toMatrix_mul, Matrix.mul_assoc])

theorem identity_mul : cmMat4Mul cmMat4Identity a = a :=
  toMatrix_injective (by simp only [toMatrix_mul, toMatrix_identity, Matrix.one_mul])

end CmMat4

end Calynda
