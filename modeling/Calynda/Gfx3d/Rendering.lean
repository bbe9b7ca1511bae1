import Calynda.Gfx3d.Scene

/-!
# Rendering

A walk over the scene draws what is opaque and queues what is transparent. It turns back at a node
that has been culled, although its children may be in view, and the queue has room for so many
nodes only.
-/

namespace Calynda.Gfx3d

variable {K : Type*} [Field K] [LinearOrder K]

structure Gfx3dRenderEntry (K : Type*) [CommRing K] [LinearOrder K] where
  node : Gfx3dSceneNode K
  distSq : K

/-- `MAX_TRANSPARENT`. -/
def maxTransparent : Nat := 256

def isTransparent (node : Gfx3dSceneNode K) : Bool :=
  node.mode = .transparent ∨ node.mode = .additive

def cmAabbCenter (b : CmAABB K) : CmVec3 K := cmVec3Scale (cmVec3Add b.min b.max) (1 / 2)

def distSq (cameraPos : CmVec3 K) (node : Gfx3dSceneNode K) : K :=
  let d := cmVec3Sub (cmAabbCenter node.worldBounds) cameraPos
  cmVec3Dot d d

def renderEntry (cameraPos : CmVec3 K) (node : Gfx3dSceneNode K) : Gfx3dRenderEntry K :=
  ⟨node, distSq cameraPos node⟩

/-- The nodes drawn so far, and the transparent ones that wait. -/
structure RenderState (K : Type*) [CommRing K] [LinearOrder K] where
  drawn : List (Gfx3dSceneNode K)
  queue : List (Gfx3dRenderEntry K)

def hasDrawing (node : Gfx3dSceneNode K) : Bool := node.mesh.isSome && node.hasMaterial

def renderOrQueue (cameraPos : CmVec3 K) (s : RenderState K) (node : Gfx3dSceneNode K) :
    RenderState K :=
  if hasDrawing node then
    if isTransparent node then
      if s.queue.length < maxTransparent then
        { s with queue := s.queue ++ [renderEntry cameraPos node] }
      else s
    else { s with drawn := s.drawn ++ [node] }
  else s

mutual

def collectAndRenderOpaque (cameraPos : CmVec3 K) :
    SceneTree K → RenderState K → RenderState K
  | .node node children, s =>
    if node.visible then collectChildren cameraPos children (renderOrQueue cameraPos s node)
    else s

def collectChildren (cameraPos : CmVec3 K) :
    List (SceneTree K) → RenderState K → RenderState K
  | [], s => s
  | t :: ts, s => collectChildren cameraPos ts (collectAndRenderOpaque cameraPos t s)

end

def cmpTransparentBtf (a b : Gfx3dRenderEntry K) : Int :=
  if b.distSq > a.distSq then 1 else if b.distSq < a.distSq then -1 else 0

/-- What `qsort` makes of a queue: its entries in some order that the comparison agrees with. -/
structure Qsort (K : Type*) [Field K] [LinearOrder K] where
  sort : List (Gfx3dRenderEntry K) → List (Gfx3dRenderEntry K)
  perm : ∀ queue, (sort queue).Perm queue
  sorted : ∀ queue, (sort queue).Pairwise fun a b => cmpTransparentBtf a b ≤ 0

/-- The nodes that are drawn, in their order. -/
def gfx3dNodeRender (qsort : Qsort K) (cameraPos : CmVec3 K) (tree : SceneTree K) :
    List (Gfx3dSceneNode K) :=
  let s := collectAndRenderOpaque cameraPos tree ⟨[], []⟩
  s.drawn ++ if s.queue.length > 0 then (qsort.sort s.queue).map (·.node) else []

/-! ## What is drawn -/

/-- A node with something to draw whose own box passes the test. -/
def inView (passes : CmAABB K → Bool) (node : Gfx3dSceneNode K) : Bool :=
  hasDrawing node && passes node.worldBounds

/-- Each node in view is drawn once and no other one, what is transparent last and from back to
front. -/
structure DrawsAll (passes : CmAABB K → Bool) (cameraPos : CmVec3 K) (tree : SceneTree K)
    (drawn : List (Gfx3dSceneNode K)) : Prop where
  once : drawn.Perm (tree.preorder.filter (inView passes))
  ordered : ∃ front back, drawn = front ++ back ∧
    (∀ node ∈ front, isTransparent node = false) ∧ (∀ node ∈ back, isTransparent node = true) ∧
    back.Pairwise fun a b => distSq cameraPos b ≤ distSq cameraPos a

variable (passes : CmAABB K → Bool) (cameraPos : CmVec3 K)

theorem collect_eq (t : SceneTree K) (s : RenderState K) :
    collectAndRenderOpaque cameraPos t s =
      (t.reached (·.visible)).foldl (renderOrQueue cameraPos) s := by
  induction t using RoseTree.inductionOn generalizing s with
  | node node ts ih =>
    have hChildren : ∀ s, collectChildren cameraPos ts s =
        (ts.flatMap (RoseTree.reached (·.visible))).foldl (renderOrQueue cameraPos) s := by
      clear s
      induction ts with
      | nil => exact fun s => rfl
      | cons t ts ihList =>
        intro s
        rw [collectChildren, ih t (.head _), ihList fun u hu => ih u (.tail _ hu),
          List.flatMap_cons, List.foldl_append]
    rw [collectAndRenderOpaque, RoseTree.reached_node, hChildren]
    split_ifs <;> rfl

/-- Each node that the walk visits goes where it belongs, as long as there is room. -/
theorem foldl_renderOrQueue (nodes : List (Gfx3dSceneNode K)) (s : RenderState K)
    (hRoom : s.queue.length ≤ maxTransparent) :
    nodes.foldl (renderOrQueue cameraPos) s =
      ⟨s.drawn ++ nodes.filter fun node => hasDrawing node && !isTransparent node,
        (s.queue ++ (nodes.filter fun node => hasDrawing node && isTransparent node).map
          (renderEntry cameraPos)).take maxTransparent⟩ := by
  induction nodes generalizing s with
  | nil => simp [List.take_of_length_le hRoom]
  | cons node nodes ih =>
    rw [List.foldl_cons]
    by_cases hDrawing : hasDrawing node
    · by_cases hTransparent : isTransparent node
      · by_cases hLess : s.queue.length < maxTransparent
        · rw [renderOrQueue, if_pos hDrawing, if_pos hTransparent, if_pos hLess, ih]
          · simp [hDrawing, hTransparent]
          · rw [List.length_append, List.length_singleton]
            exact hLess
        · have hFull : s.queue.length = maxTransparent := le_antisymm hRoom (not_lt.mp hLess)
          rw [renderOrQueue, if_pos hDrawing, if_pos hTransparent, if_neg hLess, ih s hRoom]
          simp [hDrawing, hTransparent, hFull]
      · rw [renderOrQueue, if_pos hDrawing, if_neg hTransparent,
          ih ⟨s.drawn ++ [node], s.queue⟩ hRoom]
        simp [hDrawing, hTransparent]
    · rw [renderOrQueue, if_neg hDrawing, ih s hRoom]
      simp [hDrawing]

/-- What is transparent among the nodes that the walk visits, and has room in the queue. -/
def queued (cameraPos : CmVec3 K) (tree : SceneTree K) : List (Gfx3dRenderEntry K) :=
  (((tree.reached (·.visible)).filter fun node => hasDrawing node && isTransparent node).map
    (renderEntry cameraPos)).take maxTransparent

theorem render_eq (qsort : Qsort K) (tree : SceneTree K) :
    gfx3dNodeRender qsort cameraPos tree =
      ((tree.reached (·.visible)).filter fun node => hasDrawing node && !isTransparent node) ++
        (qsort.sort (queued cameraPos tree)).map (·.node) := by
  have hState := foldl_renderOrQueue cameraPos (tree.reached (·.visible)) ⟨[], []⟩
    (Nat.zero_le _)
  rw [List.nil_append, List.nil_append] at hState
  rw [gfx3dNodeRender, collect_eq, hState]
  dsimp only
  split_ifs with hSome
  · rfl
  · have hNone : queued cameraPos tree = [] :=
      List.eq_nil_of_length_eq_zero (Nat.eq_zero_of_not_pos hSome)
    have hSorted : qsort.sort (queued cameraPos tree) = [] := by
      rw [hNone]
      exact List.perm_nil.mp (qsort.perm [])
    rw [hSorted, List.map_nil]

theorem queued_node (tree : SceneTree K) : (queued cameraPos tree).map (·.node) =
    ((tree.reached (·.visible)).filter fun node =>
      hasDrawing node && isTransparent node).take maxTransparent := by
  rw [queued, List.map_take, List.map_map]
  exact congrArg _ (List.map_id _)

/-- The order is always the right one. -/
theorem render_ordered (qsort : Qsort K) (tree : SceneTree K) :
    ∃ front back, gfx3dNodeRender qsort cameraPos tree = front ++ back ∧
      (∀ node ∈ front, isTransparent node = false) ∧ (∀ node ∈ back, isTransparent node = true) ∧
      back.Pairwise fun a b => distSq cameraPos b ≤ distSq cameraPos a := by
  have hEntry : ∀ e ∈ qsort.sort (queued cameraPos tree),
      isTransparent e.node = true ∧ e.distSq = distSq cameraPos e.node := by
    intro e hMem
    obtain ⟨node, hNode, rfl⟩ :=
      List.mem_map.mp (List.mem_of_mem_take ((qsort.perm _).mem_iff.mp hMem))
    have hBoth := (List.mem_filter.mp hNode).2
    exact ⟨(Bool.and_eq_true_iff.mp hBoth).2, rfl⟩
  refine ⟨_, _, render_eq cameraPos qsort tree, fun node hMem => ?_, fun node hMem => ?_, ?_⟩
  · have hBoth := (List.mem_filter.mp hMem).2
    simpa using (Bool.and_eq_true_iff.mp hBoth).2
  · obtain ⟨e, hIn, rfl⟩ := List.mem_map.mp hMem
    exact (hEntry e hIn).1
  · refine List.pairwise_map.mpr ((qsort.sorted _).imp_of_mem fun {a b} hA hB hCmp => ?_)
    rw [← (hEntry a hA).2, ← (hEntry b hB).2]
    by_contra hLess
    rw [cmpTransparentBtf, if_pos (not_le.mp hLess)] at hCmp
    exact absurd hCmp (by decide)

/-- What a culling leaves in view. -/
abbrev culledInView (tree : SceneTree K) : List (Gfx3dSceneNode K) :=
  (gfx3dNodeCull passes tree).preorder.filter (inView passes)

/-- What the walk visits of it. -/
abbrev visitedInView (tree : SceneTree K) : List (Gfx3dSceneNode K) :=
  ((gfx3dNodeCull passes tree).reached (·.visible)).filter (inView passes)

theorem visitedInView_sublist (tree : SceneTree K) :
    (visitedInView passes tree).Sublist (culledInView passes tree) :=
  (RoseTree.reached_sublist _ _).filter _

/-- The nodes that the walk visits after a culling, with something to draw, are in view. -/
theorem visited_eq (tree : SceneTree K) (f : Gfx3dSceneNode K → Bool) :
    (((gfx3dNodeCull passes tree).reached (·.visible)).filter fun node =>
        hasDrawing node && f node) = (visitedInView passes tree).filter f := by
  rw [List.filter_filter]
  refine List.filter_congr fun node hMem => ?_
  have hVisible := RoseTree.of_mem_reached hMem
  have hCulled := (RoseTree.reached_sublist _ _).subset hMem
  rw [gfx3dNodeCull, RoseTree.preorder_map] at hCulled
  obtain ⟨before, -, rfl⟩ := List.mem_map.mp hCulled
  cases hMesh : before.mesh <;> simp_all [cullNode, inView, hasDrawing, Bool.and_comm]

theorem render_perm (qsort : Qsort K) (tree : SceneTree K) :
    (gfx3dNodeRender qsort cameraPos (gfx3dNodeCull passes tree)).Perm
      ((visitedInView passes tree).filter (fun node => !isTransparent node) ++
        ((visitedInView passes tree).filter isTransparent).take maxTransparent) := by
  rw [render_eq, ← visited_eq, ← visited_eq, ← queued_node cameraPos]
  exact List.Perm.append_left _ ((qsort.perm _).map _)

/-- Nothing is lost if and only if the walk visits what is in view and the queue has room. -/
theorem render_perm_iff (qsort : Qsort K) (tree : SceneTree K) :
    (gfx3dNodeRender qsort cameraPos (gfx3dNodeCull passes tree)).Perm (culledInView passes tree) ↔
      visitedInView passes tree = culledInView passes tree ∧
        ((culledInView passes tree).filter isTransparent).length ≤ maxTransparent := by
  have hRender := render_perm passes cameraPos qsort tree
  have hSublist := visitedInView_sublist passes tree
  have hSplit := List.filter_append_perm isTransparent (visitedInView passes tree)
  constructor
  · intro hPerm
    have hLength := (hRender.symm.trans hPerm).length_eq
    have hParts := hSplit.length_eq
    have hLe := hSublist.length_le
    simp only [List.length_append, List.length_take] at hLength hParts
    have hEq : visitedInView passes tree = culledInView passes tree :=
      hSublist.eq_of_length_le (by omega)
    refine ⟨hEq, ?_⟩
    rw [← hEq]
    omega
  · rintro ⟨hEq, hRoom⟩
    rw [hEq, List.take_of_length_le hRoom] at hRender
    rw [hEq] at hSplit
    exact hRender.trans (List.perm_append_comm.trans hSplit)

@[simp] theorem inView_cullNode (node : Gfx3dSceneNode K) :
    inView passes (cullNode passes node) = inView passes node := rfl

@[simp] theorem isTransparent_cullNode (node : Gfx3dSceneNode K) :
    isTransparent (cullNode passes node) = isTransparent node := rfl

theorem cullNode_visible_iff (node : Gfx3dSceneNode K) :
    (cullNode passes node).visible = true ↔ (node.mesh.isSome → passes node.worldBounds) := by
  cases hMesh : node.mesh <;> simp [cullNode, hMesh]

theorem visited_eq_iff (tree : SceneTree K) :
    visitedInView passes tree = culledInView passes tree ↔
      ∀ path above node, tree.along path = some (above, node) → inView passes node →
        ∀ a ∈ above, a.mesh.isSome → passes a.worldBounds := by
  refine (RoseTree.reached_filter_eq_iff _ _ _).trans ⟨fun h path above node hNode hView => ?_,
    fun h path above node hNode hView => ?_⟩
  · have hCulled := (RoseTree.along_map (cullNode passes) tree path).trans
      (congrArg _ hNode)
    intro a hMem
    exact (cullNode_visible_iff passes a).mp
      ((h _ _ _ hCulled hView).2 _ (List.mem_map_of_mem hMem))
  · rw [gfx3dNodeCull, RoseTree.along_map, Option.map_eq_some_iff] at hNode
    obtain ⟨⟨above₀, node₀⟩, hNode₀, hEq⟩ := hNode
    obtain ⟨rfl, rfl⟩ := Prod.mk.inj hEq
    constructor
    · exact (cullNode_visible_iff passes node₀).mpr fun _ => (Bool.and_eq_true_iff.mp hView).2
    · intro a hMem
      obtain ⟨a₀, hMem₀, rfl⟩ := List.mem_map.mp hMem
      exact (cullNode_visible_iff passes a₀).mpr (h path above₀ node₀ hNode₀ hView a₀ hMem₀)

/-- What is in view is drawn once if and only if no node above it is culled, and not too much of it
is transparent. -/
theorem render_drawsAll_iff (qsort : Qsort K) (tree : SceneTree K) :
    DrawsAll passes cameraPos (gfx3dNodeCull passes tree)
        (gfx3dNodeRender qsort cameraPos (gfx3dNodeCull passes tree)) ↔
      (∀ path above node, tree.along path = some (above, node) → inView passes node →
        ∀ a ∈ above, a.mesh.isSome → passes a.worldBounds) ∧
      (tree.preorder.filter fun node => inView passes node && isTransparent node).length ≤
        maxTransparent := by
  have hCount : ((culledInView passes tree).filter isTransparent).length =
      (tree.preorder.filter fun node => inView passes node && isTransparent node).length := by
    rw [List.filter_filter, gfx3dNodeCull, RoseTree.preorder_map, List.filter_map,
      List.length_map]
    refine congrArg List.length (List.filter_congr fun node _ => ?_)
    simp [Bool.and_comm]
  rw [← hCount, ← visited_eq_iff, ← render_perm_iff passes cameraPos qsort]
  exact ⟨DrawsAll.once, fun h => ⟨h, render_ordered cameraPos qsort _⟩⟩

/-- The queue sorted by merging. -/
def Qsort.byMerging (K : Type*) [Field K] [LinearOrder K] : Qsort K where
  sort queue := queue.mergeSort fun a b => b.distSq ≤ a.distSq
  perm queue := List.mergeSort_perm queue _
  sorted queue := by
    refine (List.pairwise_mergeSort ?_ ?_ queue).imp fun {a b} h => ?_
    · intro a b c hAB hBC
      simp only [decide_eq_true_eq] at hAB hBC ⊢
      exact hBC.trans hAB
    · intro a b
      simpa using le_total b.distSq a.distSq
    · have hLe : ¬b.distSq > a.distSq := not_lt.mpr (of_decide_eq_true h)
      rw [cmpTransparentBtf, if_neg hLe]
      split_ifs <;> decide

/-- A node with a box of one point. -/
def pointNode (x : ℚ) : Gfx3dSceneNode ℚ where
  position := cmVec3Zero
  rotation := cmQuatIdentity
  scale := ⟨1, 1, 1⟩
  mesh := some (gfx3dMeshCreate [⟨x, 0, 0⟩])
  mode := .lit
  hasMaterial := true
  worldMatrix := cmMat4Identity
  worldBounds := ⟨⟨x, 0, 0⟩, ⟨x, 0, 0⟩⟩
  visible := true

/-- A node in view below one that is out of view is not drawn. -/
theorem render_hidden_child :
    ¬DrawsAll (fun b => b.min.x ≥ 0) cmVec3Zero
      (gfx3dNodeCull (fun b => b.min.x ≥ 0) (.node (pointNode (-1)) [.node (pointNode 1) []]))
      (gfx3dNodeRender (.byMerging ℚ) cmVec3Zero
        (gfx3dNodeCull (fun b => b.min.x ≥ 0)
          (.node (pointNode (-1)) [.node (pointNode 1) []]))) := by
  intro h
  have hLength := h.once.length_eq
  revert hLength
  decide +kernel

end Calynda.Gfx3d
