import Calynda.Lib.RoseTree
import Calynda.Math.Frustum

/-!
# Scenes

The nodes of a scene with their meshes, and the two walks that come before a scene is drawn: one
finds the matrix and the box of each node, the other one whether the node is in view.
-/

namespace Calynda.Gfx3d

variable {K : Type*} [CommRing K] [LinearOrder K]

/-- A vertex moves the sides of the box that it lies beyond. -/
def growBounds (b : CmAABB K) (pos : CmVec3 K) : CmAABB K where
  min := ⟨if pos.x < b.min.x then pos.x else b.min.x, if pos.y < b.min.y then pos.y else b.min.y,
    if pos.z < b.min.z then pos.z else b.min.z⟩
  max := ⟨if pos.x > b.max.x then pos.x else b.max.x, if pos.y > b.max.y then pos.y else b.max.y,
    if pos.z > b.max.z then pos.z else b.max.z⟩

def computeBounds : List (CmVec3 K) → CmAABB K
  | [] => ⟨cmVec3Zero, cmVec3Zero⟩
  | v :: verts => verts.foldl growBounds ⟨v, v⟩

/-- A mesh as `gfx3d_mesh_create` makes it, by the positions of its vertices. -/
structure Gfx3dMesh (K : Type*) [CommRing K] [LinearOrder K] where
  vertices : List (CmVec3 K)
  bounds : CmAABB K
  bounds_eq : bounds = computeBounds vertices

def gfx3dMeshCreate (verts : List (CmVec3 K)) : Gfx3dMesh K := ⟨verts, computeBounds verts, rfl⟩

inductive Gfx3dMaterialMode where
  | lit
  | unlit
  | colorOnly
  | transparent
  | additive
  deriving DecidableEq

/-- A node without its links, which are those of the tree that it is in. -/
structure Gfx3dSceneNode (K : Type*) [CommRing K] [LinearOrder K] where
  position : CmVec3 K
  rotation : CmQuat K
  scale : CmVec3 K
  mesh : Option (Gfx3dMesh K)
  mode : Gfx3dMaterialMode
  hasMaterial : Bool
  worldMatrix : CmMat4 K
  worldBounds : CmAABB K
  visible : Bool

abbrev SceneTree (K : Type*) [CommRing K] [LinearOrder K] := RoseTree (Gfx3dSceneNode K)

def gfx3dNodeLocalMatrix (node : Gfx3dSceneNode K) : CmMat4 K :=
  cmMat4Trs node.position node.rotation node.scale

/-- The box of the eight corners of a box, where a matrix takes them. -/
def transformBounds (m : CmMat4 K) (lb : CmAABB K) : CmAABB K :=
  let tc := cmMat4MulPoint m (cmVec3 lb.min.x lb.min.y lb.min.z)
  ((corners lb).tail.map (cmMat4MulPoint m)).foldl CmAABB.extend ⟨tc, tc⟩

variable (localMatrix : Gfx3dSceneNode K → CmMat4 K)

def updateNode (parentWorld : CmMat4 K) (node : Gfx3dSceneNode K) : Gfx3dSceneNode K :=
  let worldMatrix := cmMat4Mul parentWorld (localMatrix node)
  { node with
    worldMatrix
    worldBounds :=
      match node.mesh with
      | some mesh => transformBounds worldMatrix mesh.bounds
      | none => node.worldBounds }

/-- The matrix of each node is the one of its parent and then its own, which is left open. -/
def gfx3dNodeUpdateTransforms (parentWorld : CmMat4 K) (tree : SceneTree K) : SceneTree K :=
  tree.mapDown (fun parentWorld node =>
    (updateNode localMatrix parentWorld node,
      (updateNode localMatrix parentWorld node).worldMatrix)) parentWorld

/-- The test of a box is left open. -/
def cullNode (passes : CmAABB K → Bool) (node : Gfx3dSceneNode K) : Gfx3dSceneNode K :=
  { node with visible := if node.mesh.isSome then passes node.worldBounds else true }

def gfx3dNodeCull (passes : CmAABB K → Bool) (tree : SceneTree K) : SceneTree K :=
  tree.map (cullNode passes)

/-! ## Boxes -/

omit [CommRing K] in
theorem growBounds_eq : growBounds (K := K) = CmAABB.extend := by
  funext b pos
  have hMin : cmVec3Min pos b.min = cmVec3Min b.min pos := by
    simp only [cmVec3Min, cmMinf_comm pos.x, cmMinf_comm pos.y, cmMinf_comm pos.z]
  have hMax : cmVec3Max pos b.max = cmVec3Max b.max pos := by
    simp only [cmVec3Max, cmMaxf_comm pos.x, cmMaxf_comm pos.y, cmMaxf_comm pos.z]
  rw [CmAABB.extend, ← hMin, ← hMax]
  rfl

theorem computeBounds_contains {verts : List (CmVec3 K)} {v : CmVec3 K} (h : v ∈ verts) :
    (computeBounds verts).Contains v := by
  cases verts with
  | nil => exact absurd h (List.not_mem_nil)
  | cons w verts =>
    rw [computeBounds, growBounds_eq]
    rcases List.mem_cons.mp h with rfl | hRest
    · exact CmAABB.foldl_extend verts (Or.inl (CmAABB.contains_self v))
    · exact CmAABB.foldl_extend verts (Or.inr hRest)

theorem Gfx3dMesh.bounds_contains (mesh : Gfx3dMesh K) {v : CmVec3 K} (h : v ∈ mesh.vertices) :
    mesh.bounds.Contains v := by
  rw [mesh.bounds_eq]
  exact computeBounds_contains h

theorem transformBounds_corners (m : CmMat4 K) (lb : CmAABB K) :
    ∀ c ∈ corners lb, (transformBounds m lb).Contains (cmMat4MulPoint m c) := by
  intro c hc
  refine CmAABB.foldl_extend _ ?_
  rcases List.mem_cons.mp hc with rfl | hRest
  · exact Or.inl (CmAABB.contains_self _)
  · exact Or.inr (List.mem_map_of_mem hRest)

end Calynda.Gfx3d
