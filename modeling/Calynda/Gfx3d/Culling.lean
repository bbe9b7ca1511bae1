import Calynda.Gfx3d.Scene

/-!
# Culling

A vertex that can be seen lies in the box of its mesh, hence in the box of its node, and a box with
a point in the frustum is not culled. So no node is culled of which a vertex can be seen.
-/

namespace Calynda.Gfx3d

section Matrices

variable {K : Type*} [CommRing K] [LinearOrder K]

/-- The product of the local matrices from the root down to a node. -/
def pathMatrix (localMatrix : Gfx3dSceneNode K → CmMat4 K) (above : List (Gfx3dSceneNode K))
    (node : Gfx3dSceneNode K) : CmMat4 K :=
  above.foldr (fun a m => cmMat4Mul (localMatrix a) m) (localMatrix node)

/-- The walk multiplies from the other side. -/
theorem updateNode_worldMatrix (localMatrix : Gfx3dSceneNode K → CmMat4 K)
    (above : List (Gfx3dSceneNode K)) (node : Gfx3dSceneNode K) (parentWorld : CmMat4 K) :
    (updateNode localMatrix
      (above.foldl (fun m a => (updateNode localMatrix m a).worldMatrix) parentWorld)
      node).worldMatrix = cmMat4Mul parentWorld (pathMatrix localMatrix above node) := by
  induction above generalizing parentWorld with
  | nil => rfl
  | cons a above ih =>
    rw [List.foldl_cons, ih]
    exact CmMat4.mul_assoc parentWorld (localMatrix a) (pathMatrix localMatrix above node)

end Matrices

variable {K : Type*} [Field K] [LinearOrder K] [IsStrictOrderedRing K]

/-- No node is culled of which some vertex can be seen, whatever factors normalise the planes. -/
theorem cull_visible (localMatrix : Gfx3dSceneNode K → CmMat4 K) (factor : CmVec3 K → K)
    (hFactor : ∀ normal, 0 < factor normal) (vp : CmMat4 K) (tree : SceneTree K)
    (path : List Nat) (above : List (Gfx3dSceneNode K)) (node : Gfx3dSceneNode K)
    (hNode : tree.along path = some (above, node)) (mesh : Gfx3dMesh K)
    (hMesh : node.mesh = some mesh) (v : CmVec3 K) (hVertex : v ∈ mesh.vertices)
    (hClip : InClip (cmMat4MulVec4 vp
      (cmVec4FromVec3 (cmMat4MulPoint (pathMatrix localMatrix above node) v) 1))) :
    ∃ above' node', (gfx3dNodeCull (cmFrustumContainsAabb (cmFrustumFromVp factor vp))
        (gfx3dNodeUpdateTransforms localMatrix cmMat4Identity tree)).along path =
      some (above', node') ∧ node'.visible = true := by
  obtain ⟨above₁, hUpdated⟩ := RoseTree.along_mapDown (fun parentWorld node =>
    (updateNode localMatrix parentWorld node,
      (updateNode localMatrix parentWorld node).worldMatrix)) hNode cmMat4Identity
  set updated := updateNode localMatrix (above.foldl (fun m a =>
    (updateNode localMatrix m a).worldMatrix) cmMat4Identity) node with hUpdatedDef
  refine ⟨_, _, (RoseTree.along_map _ _ _).trans (congrArg _ hUpdated), ?_⟩
  have hWorld : updated.worldMatrix = pathMatrix localMatrix above node := by
    rw [hUpdatedDef, updateNode_worldMatrix, CmMat4.identity_mul]
  have hBounds : updated.worldBounds = transformBounds updated.worldMatrix mesh.bounds := by
    simp [hUpdatedDef, updateNode, hMesh]
  have hBox : updated.worldBounds.Contains
      (cmMat4MulPoint (pathMatrix localMatrix above node) v) := by
    rw [hBounds, hWorld]
    exact contains_of_corners _ (transformBounds_corners _ _) (mesh.bounds_contains hVertex)
  have hPasses := cmFrustumContainsAabb_of_inClip hFactor hBox hClip
  have hMesh' : updated.mesh = some mesh := hMesh
  simp [cullNode, hMesh', hPasses]

/-- A node as `gfx3d_node_create` and `gfx3d_node_set_mesh` make it, moved and scaled. -/
def placedNode (position scale : CmVec3 ℚ) (mesh : Gfx3dMesh ℚ) : Gfx3dSceneNode ℚ where
  position
  rotation := cmQuatIdentity
  scale
  mesh := some mesh
  mode := .lit
  hasMaterial := true
  worldMatrix := cmMat4Identity
  worldBounds := ⟨cmVec3Zero, cmVec3Zero⟩
  visible := true

def oneVertex : Gfx3dMesh ℚ := gfx3dMeshCreate [⟨1, 0, 0⟩]

/-- A node below another one that is mirrored. -/
def mirroredScene : SceneTree ℚ :=
  .node (placedNode ⟨3 / 2, 0, 0⟩ ⟨-1, 1, 1⟩ oneVertex)
    [.node (placedNode ⟨1 / 4, 0, 0⟩ ⟨1, 1, 1⟩ oneVertex) []]

theorem cull_visible_mirrored :
    ∃ above' node', (gfx3dNodeCull
        (cmFrustumContainsAabb (cmFrustumFromVp (normalFactor fun x => x) cmMat4Identity))
        (gfx3dNodeUpdateTransforms gfx3dNodeLocalMatrix cmMat4Identity mirroredScene)).along [0] =
      some (above', node') ∧ node'.visible = true := by
  refine cull_visible gfx3dNodeLocalMatrix _ (normalFactor_pos _) cmMat4Identity mirroredScene [0]
    _ _ rfl oneVertex rfl ⟨1, 0, 0⟩ (List.mem_singleton_self _) ?_
  constructor <;> decide +kernel

end Calynda.Gfx3d
