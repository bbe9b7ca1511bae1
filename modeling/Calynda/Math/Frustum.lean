import Calynda.Math.Matrix
import Mathlib.Tactic.Linarith

/-!
# Boxes and frusta

The frustum test looks at the corner of a box that lies furthest along the normal of a plane. No
point of the box lies further, so that a box with a point in the frustum passes the test.
-/

namespace Calynda

variable {K : Type*}

structure CmAABB (K : Type*) where
  min : CmVec3 K
  max : CmVec3 K
  deriving DecidableEq

/-- The points `p` with `cmVec3Dot normal p = distance`. -/
structure CmPlane (K : Type*) where
  normal : CmVec3 K
  distance : K
  deriving DecidableEq

structure CmFrustum (K : Type*) where
  planes : List (CmPlane K)

section Order

variable [LinearOrder K]

def cmMinf (a b : K) : K := if a < b then a else b

def cmMaxf (a b : K) : K := if a > b then a else b

theorem cmMinf_le (a b : K) : cmMinf a b ≤ a ∧ cmMinf a b ≤ b := by
  unfold cmMinf
  split_ifs with h
  · exact ⟨le_rfl, h.le⟩
  · exact ⟨not_lt.mp h, le_rfl⟩

theorem le_cmMinf {a b c : K} (hA : c ≤ a) (hB : c ≤ b) : c ≤ cmMinf a b := by
  unfold cmMinf
  split_ifs
  · exact hA
  · exact hB

theorem cmMaxf_le {a b c : K} (hA : a ≤ c) (hB : b ≤ c) : cmMaxf a b ≤ c := by
  unfold cmMaxf
  split_ifs
  · exact hA
  · exact hB

theorem le_cmMaxf (a b : K) : a ≤ cmMaxf a b ∧ b ≤ cmMaxf a b := by
  unfold cmMaxf
  split_ifs with h
  · exact ⟨le_rfl, h.le⟩
  · exact ⟨not_lt.mp h, le_rfl⟩

theorem cmMinf_comm (a b : K) : cmMinf a b = cmMinf b a :=
  le_antisymm (le_cmMinf (cmMinf_le a b).2 (cmMinf_le a b).1)
    (le_cmMinf (cmMinf_le b a).2 (cmMinf_le b a).1)

theorem cmMaxf_comm (a b : K) : cmMaxf a b = cmMaxf b a :=
  le_antisymm (cmMaxf_le (le_cmMaxf b a).2 (le_cmMaxf b a).1)
    (cmMaxf_le (le_cmMaxf a b).2 (le_cmMaxf a b).1)

def cmVec3Min (a b : CmVec3 K) : CmVec3 K := ⟨cmMinf a.x b.x, cmMinf a.y b.y, cmMinf a.z b.z⟩

def cmVec3Max (a b : CmVec3 K) : CmVec3 K := ⟨cmMaxf a.x b.x, cmMaxf a.y b.y, cmMaxf a.z b.z⟩

/-- `cm_aabb_contains_point`. -/
structure CmAABB.Contains (b : CmAABB K) (p : CmVec3 K) : Prop where
  x : b.min.x ≤ p.x ∧ p.x ≤ b.max.x
  y : b.min.y ≤ p.y ∧ p.y ≤ b.max.y
  z : b.min.z ≤ p.z ∧ p.z ≤ b.max.z

/-- A box and a point that it also has to contain. -/
def CmAABB.extend (b : CmAABB K) (p : CmVec3 K) : CmAABB K :=
  ⟨cmVec3Min b.min p, cmVec3Max b.max p⟩

namespace CmAABB

theorem contains_self (p : CmVec3 K) : (CmAABB.mk p p).Contains p :=
  ⟨⟨le_rfl, le_rfl⟩, ⟨le_rfl, le_rfl⟩, ⟨le_rfl, le_rfl⟩⟩

theorem extend_contains (b : CmAABB K) (p : CmVec3 K) : (b.extend p).Contains p where
  x := ⟨(cmMinf_le _ _).2, (le_cmMaxf _ _).2⟩
  y := ⟨(cmMinf_le _ _).2, (le_cmMaxf _ _).2⟩
  z := ⟨(cmMinf_le _ _).2, (le_cmMaxf _ _).2⟩

theorem Contains.extend {b : CmAABB K} {q : CmVec3 K} (h : b.Contains q) (p : CmVec3 K) :
    (b.extend p).Contains q where
  x := ⟨(cmMinf_le _ _).1.trans h.x.1, h.x.2.trans (le_cmMaxf _ _).1⟩
  y := ⟨(cmMinf_le _ _).1.trans h.y.1, h.y.2.trans (le_cmMaxf _ _).1⟩
  z := ⟨(cmMinf_le _ _).1.trans h.z.1, h.z.2.trans (le_cmMaxf _ _).1⟩

/-- A box that has grown point by point contains all of them. -/
theorem foldl_extend (ps : List (CmVec3 K)) {b : CmAABB K} {q : CmVec3 K}
    (h : b.Contains q ∨ q ∈ ps) : (ps.foldl CmAABB.extend b).Contains q := by
  induction ps generalizing b with
  | nil => simpa using h
  | cons p ps ih =>
    refine ih ?_
    rcases h with hIn | hMem
    · exact Or.inl (hIn.extend p)
    · rcases List.mem_cons.mp hMem with rfl | hRest
      · exact Or.inl (b.extend_contains q)
      · exact Or.inr hRest

end CmAABB

end Order

variable [Field K] [LinearOrder K]

/-- The corner of a box that lies furthest along a normal. -/
def positiveVertex (normal : CmVec3 K) (b : CmAABB K) : CmVec3 K :=
  ⟨if normal.x ≥ 0 then b.max.x else b.min.x, if normal.y ≥ 0 then b.max.y else b.min.y,
    if normal.z ≥ 0 then b.max.z else b.min.z⟩

def corners (b : CmAABB K) : List (CmVec3 K) :=
  [cmVec3 b.min.x b.min.y b.min.z, cmVec3 b.max.x b.min.y b.min.z,
    cmVec3 b.min.x b.max.y b.min.z, cmVec3 b.max.x b.max.y b.min.z,
    cmVec3 b.min.x b.min.y b.max.z, cmVec3 b.max.x b.min.y b.max.z,
    cmVec3 b.min.x b.max.y b.max.z, cmVec3 b.max.x b.max.y b.max.z]

theorem positiveVertex_mem_corners (normal : CmVec3 K) (b : CmAABB K) :
    positiveVertex normal b ∈ corners b := by
  unfold positiveVertex
  split_ifs <;> simp [corners, cmVec3]

def cmFrustumContainsAabb (f : CmFrustum K) (b : CmAABB K) : Bool :=
  f.planes.all fun plane =>
    let d := cmVec3Dot plane.normal (positiveVertex plane.normal b) - plane.distance
    ¬(d < 0)

/-- The planes before they are normalised: the last row of the matrix with another row added or
subtracted. -/
def vpPlanes (vp : CmMat4 K) : List (CmPlane K) :=
  let m := vp.m
  [⟨⟨m 3 + m 0, m 7 + m 4, m 11 + m 8⟩, -(m 15 + m 12)⟩,
    ⟨⟨m 3 - m 0, m 7 - m 4, m 11 - m 8⟩, -(m 15 - m 12)⟩,
    ⟨⟨m 3 + m 1, m 7 + m 5, m 11 + m 9⟩, -(m 15 + m 13)⟩,
    ⟨⟨m 3 - m 1, m 7 - m 5, m 11 - m 9⟩, -(m 15 - m 13)⟩,
    ⟨⟨m 3 + m 2, m 7 + m 6, m 11 + m 10⟩, -(m 15 + m 14)⟩,
    ⟨⟨m 3 - m 2, m 7 - m 6, m 11 - m 10⟩, -(m 15 - m 14)⟩]

/-- The frustum of a view and projection, where the factor that normalises a plane is left open. -/
def cmFrustumFromVp (factor : CmVec3 K → K) (vp : CmMat4 K) : CmFrustum K where
  planes := (vpPlanes vp).map fun plane =>
    ⟨cmVec3Scale plane.normal (factor plane.normal), plane.distance * factor plane.normal⟩

def cmEpsilon : K := 1 / 10 ^ 6

/-- The factor of the code, with one for a normal that is left as it is. -/
def normalFactor (sqrt : K → K) (normal : CmVec3 K) : K :=
  let len := sqrt (cmVec3Dot normal normal)
  if len > cmEpsilon then 1 / len else 1

variable [IsStrictOrderedRing K]

theorem cmEpsilon_pos : (0 : K) < cmEpsilon := by norm_num [cmEpsilon]

theorem normalFactor_pos (sqrt : K → K) (normal : CmVec3 K) : 0 < normalFactor sqrt normal := by
  dsimp only [normalFactor]
  split_ifs with h
  · exact one_div_pos.mpr (cmEpsilon_pos.trans h)
  · exact one_pos

theorem mul_le_mul_vertex {c lo hi v : K} (h : lo ≤ v ∧ v ≤ hi) :
    c * v ≤ c * if c ≥ 0 then hi else lo := by
  split_ifs with hSign
  · exact mul_le_mul_of_nonneg_left h.2 hSign
  · exact mul_le_mul_of_nonpos_left h.1 (not_le.mp hSign).le

theorem dot_le_positiveVertex (normal : CmVec3 K) {b : CmAABB K} {p : CmVec3 K}
    (h : b.Contains p) : cmVec3Dot normal p ≤ cmVec3Dot normal (positiveVertex normal b) :=
  add_le_add (add_le_add (mul_le_mul_vertex h.x) (mul_le_mul_vertex h.y)) (mul_le_mul_vertex h.z)

/-- The clip space. -/
structure InClip (v : CmVec4 K) : Prop where
  x : -v.w ≤ v.x ∧ v.x ≤ v.w
  y : -v.w ≤ v.y ∧ v.y ≤ v.w
  z : -v.w ≤ v.z ∧ v.z ≤ v.w

theorem vpPlanes_inClip {vp : CmMat4 K} {p : CmVec3 K}
    (h : InClip (cmMat4MulVec4 vp (cmVec4FromVec3 p 1))) :
    ∀ plane ∈ vpPlanes vp, 0 ≤ cmVec3Dot plane.normal p - plane.distance := by
  obtain ⟨⟨hLeft, hRight⟩, ⟨hBottom, hTop⟩, ⟨hNear, hFar⟩⟩ := h
  simp only [cmMat4MulVec4, cmVec4FromVec3] at hLeft hRight hBottom hTop hNear hFar
  simp only [vpPlanes, List.forall_mem_cons, cmVec3Dot]
  refine ⟨?_, ?_, ?_, ?_, ?_, ?_, List.forall_mem_nil _⟩
  · linarith only [hLeft]
  · linarith only [hRight]
  · linarith only [hBottom]
  · linarith only [hTop]
  · linarith only [hNear]
  · linarith only [hFar]

/-- A box with a point in the clip space is not culled. -/
theorem cmFrustumContainsAabb_of_inClip {factor : CmVec3 K → K} (hFactor : ∀ n, 0 < factor n)
    {vp : CmMat4 K} {b : CmAABB K} {p : CmVec3 K} (hBox : b.Contains p)
    (hClip : InClip (cmMat4MulVec4 vp (cmVec4FromVec3 p 1))) :
    cmFrustumContainsAabb (cmFrustumFromVp factor vp) b = true := by
  simp only [cmFrustumContainsAabb, cmFrustumFromVp, List.all_eq_true, List.forall_mem_map,
    decide_eq_true_eq, not_lt]
  intro plane hPlane
  set f := factor plane.normal
  have hPoint : 0 ≤ (cmVec3Dot plane.normal p - plane.distance) * f :=
    mul_nonneg (vpPlanes_inClip hClip plane hPlane) (hFactor _).le
  have hVertex := dot_le_positiveVertex (cmVec3Scale plane.normal f) hBox
  have hScaled : cmVec3Dot (cmVec3Scale plane.normal f) p = cmVec3Dot plane.normal p * f := by
    simp only [cmVec3Dot, cmVec3Scale]
    ring
  linarith only [hPoint, hVertex, hScaled]

/-! ## Boxes under affine maps -/

/-- What holds of the images of the corners along all directions holds of the image of the box. -/
theorem contains_of_corners (m : CmMat4 K) {b wb : CmAABB K}
    (hCorners : ∀ c ∈ corners b, wb.Contains (cmMat4MulPoint m c)) {p : CmVec3 K}
    (h : b.Contains p) : wb.Contains (cmMat4MulPoint m p) := by
  have hUpper : ∀ row : CmVec3 K, ∃ c ∈ corners b, cmVec3Dot row p ≤ cmVec3Dot row c :=
    fun row => ⟨_, positiveVertex_mem_corners row b, dot_le_positiveVertex row h⟩
  have hLower : ∀ row : CmVec3 K, ∃ c ∈ corners b, cmVec3Dot row c ≤ cmVec3Dot row p := by
    intro row
    obtain ⟨c, hMem, hLe⟩ := hUpper (-row)
    refine ⟨c, hMem, ?_⟩
    simp only [cmVec3Dot, CmVec3.neg_x, CmVec3.neg_y, CmVec3.neg_z] at hLe ⊢
    linarith only [hLe]
  simp only [cmVec3Dot] at hUpper hLower
  constructor <;> constructor
  · obtain ⟨c, hMem, hLe⟩ := hLower ⟨m.m 0, m.m 4, m.m 8⟩
    have hCorner := (hCorners c hMem).x.1
    simp only [cmMat4MulPoint, cmVec4Xyz, cmMat4MulVec4, cmVec4FromVec3] at hCorner ⊢
    linarith only [hCorner, hLe]
  · obtain ⟨c, hMem, hLe⟩ := hUpper ⟨m.m 0, m.m 4, m.m 8⟩
    have hCorner := (hCorners c hMem).x.2
    simp only [cmMat4MulPoint, cmVec4Xyz, cmMat4MulVec4, cmVec4FromVec3] at hCorner ⊢
    linarith only [hCorner, hLe]
  · obtain ⟨c, hMem, hLe⟩ := hLower ⟨m.m 1, m.m 5, m.m 9⟩
    have hCorner := (hCorners c hMem).y.1
    simp only [cmMat4MulPoint, cmVec4Xyz, cmMat4MulVec4, cmVec4FromVec3] at hCorner ⊢
    linarith only [hCorner, hLe]
  · obtain ⟨c, hMem, hLe⟩ := hUpper ⟨m.m 1, m.m 5, m.m 9⟩
    have hCorner := (hCorners c hMem).y.2
    simp only [cmMat4MulPoint, cmVec4Xyz, cmMat4MulVec4, cmVec4FromVec3] at hCorner ⊢
    linarith only [hCorner, hLe]
  · obtain ⟨c, hMem, hLe⟩ := hLower ⟨m.m 2, m.m 6, m.m 10⟩
    have hCorner := (hCorners c hMem).z.1
    simp only [cmMat4MulPoint, cmVec4Xyz, cmMat4MulVec4, cmVec4FromVec3] at hCorner ⊢
    linarith only [hCorner, hLe]
  · obtain ⟨c, hMem, hLe⟩ := hUpper ⟨m.m 2, m.m 6, m.m 10⟩
    have hCorner := (hCorners c hMem).z.2
    simp only [cmMat4MulPoint, cmVec4Xyz, cmMat4MulVec4, cmVec4FromVec3] at hCorner ⊢
    linarith only [hCorner, hLe]

end Calynda
