import Calynda.Gfx3d.Scene

/-!
# The scene calls of the graphics bridge

A program gets a word for each node that it creates, and passes it to the calls that set the fields
of the node. The word is the address of the node, but the setters take it for an index into the
table of the first sixty-four nodes.
-/

namespace Calynda.Gfx3d

variable {K : Type*} [CommRing K] [LinearOrder K]

/-! ## The calls -/

/-- A call, where a node is named by the number of the creation that returned its handle; the other
arguments are those that follow the handle. -/
inductive BridgeCall (K : Type*) [CommRing K] [LinearOrder K] where
  | createNode
  | setPos (node : Nat) (args : List K)
  | setRotation (node : Nat) (args : List K)
  | setScale (node : Nat) (args : List K)
  | setMesh (node : Nat) (mesh : Option (Gfx3dMesh K))

/-- The nodes in the order of their creation, `none` where there was no memory, and the table of the
bridge, by the numbers of the creations. -/
structure Bridge (K : Type*) [CommRing K] [LinearOrder K] where
  nodes : List (Option (Gfx3dSceneNode K))
  gNodes : List (Option Nat)

/-- A node as `gfx3d_node_create` makes it. -/
def newNode : Gfx3dSceneNode K where
  position := cmVec3Zero
  rotation := cmQuatIdentity
  scale := ⟨1, 1, 1⟩
  mesh := none
  mode := .lit
  hasMaterial := false
  worldMatrix := cmMat4Identity
  worldBounds := ⟨cmVec3Zero, cmVec3Zero⟩
  visible := true

def gfx3dNodeSetMesh (node : Gfx3dSceneNode K) (mesh : Gfx3dMesh K) (mat : Gfx3dMaterialMode) :
    Gfx3dSceneNode K :=
  { node with mesh := some mesh, mode := mat, hasMaterial := true }

/-- The node that a call is for, and what it does to a node. -/
def BridgeCall.edit (gMaterial : Gfx3dMaterialMode) :
    BridgeCall K → Option (Nat × (Gfx3dSceneNode K → Gfx3dSceneNode K))
  | .createNode => none
  | .setPos node args => some (node, fun n =>
    { n with position := ⟨args.getD 0 0, args.getD 1 0, args.getD 2 0⟩ })
  | .setRotation node args => some (node, fun n =>
    { n with rotation := ⟨args.getD 0 0, args.getD 1 0, args.getD 2 0, args.getD 3 1⟩ })
  | .setScale node args => some (node, fun n =>
    { n with scale := ⟨args.getD 0 1, args.getD 1 1, args.getD 2 1⟩ })
  | .setMesh node mesh => some (node, fun n =>
    match mesh with
    | some m => gfx3dNodeSetMesh n m gMaterial
    | none => n)

/-- The length of `g_nodes`. -/
def gNodesMax : Nat := 64

/-- The words that creations return: the addresses of the nodes, or zero. -/
abbrev Addresses := Nat → BitVec 32

namespace Bridge

def empty : Bridge K := ⟨[], []⟩

variable (alloc : Addresses)

def createNode (s : Bridge K) : Bridge K :=
  let number := s.nodes.length
  let failed := alloc number = 0
  { nodes := s.nodes ++ [if failed then none else some newNode]
    gNodes :=
      if s.gNodes.length < gNodesMax then s.gNodes ++ [if failed then none else some number]
      else s.gNodes }

/-- The entry of the table at a word, which is taken for an `int`. -/
def entry (s : Bridge K) (word : BitVec 32) : Option Nat :=
  let idx := word.toInt
  if idx ≥ 0 ∧ idx < s.gNodes.length then s.gNodes.getD idx.toNat none else none

def setNode (s : Bridge K) (word : BitVec 32) (f : Gfx3dSceneNode K → Gfx3dSceneNode K) :
    Bridge K :=
  match s.entry word with
  | some number => { s with nodes := s.nodes.modify number (Option.map f) }
  | none => s

def dispatch (gMaterial : Gfx3dMaterialMode) (s : Bridge K) (call : BridgeCall K) : Bridge K :=
  match call.edit gMaterial with
  | some (node, f) => s.setNode (alloc node) f
  | none => s.createNode alloc

def run (gMaterial : Gfx3dMaterialMode) (calls : List (BridgeCall K)) : Bridge K :=
  calls.foldl (dispatch alloc gMaterial) .empty

end Bridge

/-! ## Rendering -/

structure MeshDraw (K : Type*) [CommRing K] [LinearOrder K] where
  mesh : Gfx3dMesh K
  material : Gfx3dMaterialMode
  modelview : CmMat4 K

/-- What is drawn for a node whose matrix has been brought up to date. -/
def drawNode (view : CmMat4 K) (node : Gfx3dSceneNode K) : Option (MeshDraw K) :=
  match node.mesh with
  | some mesh =>
    if node.hasMaterial then some ⟨mesh, node.mode, cmMat4Mul view node.worldMatrix⟩ else none
  | none => none

/-- One entry of the table is rendered; a node of the bridge has no children. -/
def renderListed (view : CmMat4 K) (s : List (Option (Gfx3dSceneNode K)) × List (MeshDraw K)) :
    Option Nat → List (Option (Gfx3dSceneNode K)) × List (MeshDraw K)
  | none => s
  | some number =>
    let nodes := s.1.modify number (Option.map (updateNode gfx3dNodeLocalMatrix cmMat4Identity))
    (nodes, s.2 ++ ((nodes.getD number none).bind (drawNode view)).toList)

/-- The nodes after a rendering, and what it draws. -/
def sceneRender (view : CmMat4 K) (s : Bridge K) :
    List (Option (Gfx3dSceneNode K)) × List (MeshDraw K) :=
  s.gNodes.foldl (renderListed view) (s.nodes, [])

/-! ## What the handles are for -/

/-- The nodes if every handle named its node. -/
def givenNodes (alloc : Addresses) (gMaterial : Gfx3dMaterialMode) (calls : List (BridgeCall K)) :
    List (Option (Gfx3dSceneNode K)) :=
  calls.foldl (fun nodes call =>
    match call.edit gMaterial with
    | some (node, f) => nodes.modify node (Option.map f)
    | none => nodes ++ [if alloc nodes.length = 0 then none else some newNode]) []

/-- A node that was given a mesh is drawn with its own transform. -/
def givenDraw (view : CmMat4 K) (node : Gfx3dSceneNode K) : Option (MeshDraw K) :=
  node.mesh.map fun mesh => ⟨mesh, node.mode, cmMat4Mul view (gfx3dNodeLocalMatrix node)⟩

/-- A call for a node changes that node and no other, and every node with a mesh is drawn once. -/
structure HandlesAddress (alloc : Addresses) (gMaterial : Gfx3dMaterialMode) (view : CmMat4 K)
    (calls : List (BridgeCall K)) : Prop where
  changes : ∀ pre call node f, pre ++ [call] <+: calls → call.edit gMaterial = some (node, f) →
    (Bridge.run alloc gMaterial (pre ++ [call])).nodes =
      (Bridge.run alloc gMaterial pre).nodes.modify node (Option.map f)
  drawn : (sceneRender view (Bridge.run alloc gMaterial calls)).2.Perm
    ((givenNodes alloc gMaterial calls).filterMap (·.bind (givenDraw view)))

/-- The creation whose node a word leads to after so many creations. -/
def wordTarget (alloc : Addresses) (created : Nat) (word : BitVec 32) : Option Nat :=
  let idx := word.toInt
  if idx ≥ 0 ∧ idx < min created gNodesMax ∧ alloc idx.toNat ≠ 0 then some idx.toNat else none

/-- The word of a node leads to it, or the call changes neither the node nor what the word leads
to. -/
def WordFits (alloc : Addresses) (nodes : List (Option (Gfx3dSceneNode K))) (node : Nat)
    (f : Gfx3dSceneNode K → Gfx3dSceneNode K) : Prop :=
  wordTarget alloc nodes.length (alloc node) = some node ∨
    nodes.modify node (Option.map f) = nodes ∧
      ∀ other ∈ wordTarget alloc nodes.length (alloc node),
        nodes.modify other (Option.map f) = nodes

/-- Every call of a run is of this kind. -/
def WordsFit (alloc : Addresses) (gMaterial : Gfx3dMaterialMode) (calls : List (BridgeCall K)) :
    Prop :=
  ∀ pre call node f, pre ++ [call] <+: calls → call.edit gMaterial = some (node, f) →
    WordFits alloc (givenNodes alloc gMaterial pre) node f

/-! ## One call -/

variable {alloc : Addresses} {gMaterial : Gfx3dMaterialMode} {s : Bridge K}

/-- The table lists the first nodes, only listed nodes have meshes, and they have a material. -/
structure Tabled (alloc : Addresses) (s : Bridge K) : Prop where
  table : s.gNodes = (List.range (min s.nodes.length gNodesMax)).map fun j =>
    if alloc j = 0 then none else some j
  failed : ∀ (j : Nat) n, s.nodes[j]? = some (some n) → alloc j ≠ 0
  bare : ∀ (j : Nat) (n : Gfx3dSceneNode K), s.nodes[j]? = some (some n) → gNodesMax ≤ j → n.mesh = none
  meshed : ∀ (j : Nat) (n : Gfx3dSceneNode K), s.nodes[j]? = some (some n) → n.mesh.isSome →
    n.hasMaterial = true

/-- What the setters do to a node keeps its material. -/
theorem BridgeCall.edit_meshed {call : BridgeCall K} {node : Nat}
    {f : Gfx3dSceneNode K → Gfx3dSceneNode K} (h : call.edit gMaterial = some (node, f))
    {n : Gfx3dSceneNode K} (hn : n.mesh.isSome → n.hasMaterial = true) :
    (f n).mesh.isSome → (f n).hasMaterial = true := by
  cases call with
  | createNode => cases h
  | setPos node args =>
    cases h
    exact hn
  | setRotation node args =>
    cases h
    exact hn
  | setScale node args =>
    cases h
    exact hn
  | setMesh node mesh =>
    cases h
    cases mesh with
    | none => exact hn
    | some m => exact fun _ => rfl

/-- The entry of a list in which one entry has been changed. -/
theorem exists_of_modify {α : Type*} {l : List (Option α)} {f : α → α} {i j : Nat} {a : α}
    (h : (l.modify i (Option.map f))[j]? = some (some a)) :
    ∃ a₀, l[j]? = some (some a₀) ∧ a = if i = j then f a₀ else a₀ := by
  rw [List.getElem?_modify] at h
  obtain ⟨entry, hOld, hNew⟩ := Option.map_eq_some_iff.mp h
  split_ifs at hNew ⊢ with hSame
  · obtain ⟨a₀, rfl, rfl⟩ := Option.map_eq_some_iff.mp hNew
    exact ⟨a₀, hOld, rfl⟩
  · cases hNew
    exact ⟨a, hOld, rfl⟩

namespace Tabled

theorem empty : Tabled alloc (Bridge.empty : Bridge K) := by
  refine ⟨rfl, fun j n h => ?_, fun j n h => ?_, fun j n h => ?_⟩
  · cases h
  · cases h
  · cases h

theorem createNode (h : Tabled alloc s) : Tabled alloc (s.createNode alloc) := by
  have hLength : s.gNodes.length = min s.nodes.length gNodesMax := by
    rw [h.table, List.length_map, List.length_range]
  have hNodes : (s.createNode alloc).nodes =
      s.nodes ++ [if alloc s.nodes.length = 0 then none else some newNode] := rfl
  have hEntry : ∀ j n, (s.createNode alloc).nodes[j]? = some (some n) →
      s.nodes[j]? = some (some n) ∨ j = s.nodes.length ∧ alloc j ≠ 0 ∧ n = newNode := by
    intro j n hj
    rw [hNodes] at hj
    rcases Nat.lt_trichotomy j s.nodes.length with hLt | rfl | hGt
    · rw [List.getElem?_append_left hLt] at hj
      exact Or.inl hj
    · rw [List.getElem?_concat_length] at hj
      split_ifs at hj with hFailed
      · cases hj
      · cases hj
        exact Or.inr ⟨rfl, hFailed, rfl⟩
    · rw [List.getElem?_append_right hGt.le, List.getElem?_eq_none (by simp; omega)] at hj
      cases hj
  refine ⟨?_, fun j n hj => ?_, fun j n hj hFar => ?_, fun j n hj => ?_⟩
  · rw [hNodes, List.length_append, List.length_singleton]
    show (if s.gNodes.length < gNodesMax then _ else _) = _
    by_cases hRoom : s.gNodes.length < gNodesMax
    · have hMin : min (s.nodes.length + 1) gNodesMax = min s.nodes.length gNodesMax + 1 := by
        omega
      have hLast : min s.nodes.length gNodesMax = s.nodes.length := by
        omega
      rw [if_pos hRoom, hMin, List.range_succ, List.map_append, ← h.table, hLast]
      rfl
    · have hMin : min (s.nodes.length + 1) gNodesMax = min s.nodes.length gNodesMax := by
        omega
      rw [if_neg hRoom, hMin]
      exact h.table
  · rcases hEntry j n hj with hOld | ⟨-, hAlloc, -⟩
    · exact h.failed j n hOld
    · exact hAlloc
  · rcases hEntry j n hj with hOld | ⟨-, -, rfl⟩
    · exact h.bare j n hOld hFar
    · rfl
  · rcases hEntry j n hj with hOld | ⟨-, -, rfl⟩
    · exact h.meshed j n hOld
    · exact fun hMesh => absurd hMesh Bool.false_ne_true

/-- A word leads to what its number names. -/
theorem entry_eq (h : Tabled alloc s) (word : BitVec 32) :
    s.entry word = wordTarget alloc s.nodes.length word := by
  unfold Bridge.entry wordTarget
  have hLength : s.gNodes.length = min s.nodes.length gNodesMax := by
    rw [h.table, List.length_map, List.length_range]
  dsimp only
  rw [hLength]
  by_cases hInside : word.toInt ≥ 0 ∧ word.toInt < (min s.nodes.length gNodesMax : Nat)
  · have hNat : word.toInt.toNat < min s.nodes.length gNodesMax := by omega
    rw [if_pos hInside, h.table, List.getD_eq_getElem?_getD, List.getElem?_map,
      List.getElem?_range hNat, Option.map_some, Option.getD_some]
    by_cases hFailed : alloc word.toInt.toNat = 0
    · rw [if_pos hFailed, if_neg fun hAll => hAll.2.2 hFailed]
    · rw [if_neg hFailed, if_pos ⟨hInside.1, hInside.2, hFailed⟩]
  · rw [if_neg hInside, if_neg fun hAll => hInside ⟨hAll.1, hAll.2.1⟩]

theorem setNode (h : Tabled alloc s) (word : BitVec 32)
    {f : Gfx3dSceneNode K → Gfx3dSceneNode K}
    (hf : ∀ n : Gfx3dSceneNode K, (n.mesh.isSome → n.hasMaterial = true) →
      (f n).mesh.isSome → (f n).hasMaterial = true) : Tabled alloc (s.setNode word f) := by
  have hEntry := h.entry_eq word
  unfold Bridge.setNode
  cases hTarget : s.entry word with
  | none => exact h
  | some number =>
    have hNear : number < gNodesMax := by
      rw [hTarget, wordTarget] at hEntry
      split_ifs at hEntry with hInside
      cases hEntry
      omega
    refine ⟨?_, fun j n hj => ?_, fun j n hj hFar => ?_, fun j n hj => ?_⟩
    · show s.gNodes = _
      rw [List.length_modify]
      exact h.table
    · obtain ⟨n₀, hOld, -⟩ := exists_of_modify hj
      exact h.failed j n₀ hOld
    · obtain ⟨n₀, hOld, rfl⟩ := exists_of_modify hj
      rw [if_neg (by omega)]
      exact h.bare j n₀ hOld hFar
    · obtain ⟨n₀, hOld, rfl⟩ := exists_of_modify hj
      split_ifs
      · exact hf n₀ (h.meshed j n₀ hOld)
      · exact h.meshed j n₀ hOld

theorem dispatch (h : Tabled alloc s) (call : BridgeCall K) :
    Tabled alloc (s.dispatch alloc gMaterial call) := by
  unfold Bridge.dispatch
  cases hEdit : call.edit gMaterial with
  | none => exact h.createNode
  | some edit => exact h.setNode _ fun n => BridgeCall.edit_meshed hEdit

end Tabled

theorem run_append (pre : List (BridgeCall K)) (call : BridgeCall K) :
    Bridge.run alloc gMaterial (pre ++ [call]) =
      (Bridge.run alloc gMaterial pre).dispatch alloc gMaterial call :=
  List.foldl_append

theorem run_tabled (calls : List (BridgeCall K)) :
    Tabled alloc (Bridge.run alloc gMaterial calls) := by
  induction calls using List.reverseRecOn with
  | nil => exact .empty
  | append_singleton pre call ih =>
    rw [run_append]
    exact ih.dispatch call

/-! ## The nodes of a run -/

/-- Two places of a list are changed alike only if neither changes. -/
theorem modify_eq_modify {α : Type*} {l : List α} {g : α → α} {i j : Nat} (hNe : i ≠ j)
    (h : l.modify i g = l.modify j g) : l.modify i g = l ∧ l.modify j g = l := by
  have hFirst : l.modify i g = l := by
    refine List.ext_getElem? fun n => ?_
    by_cases hn : i = n
    · subst hn
      rw [h, List.getElem?_modify]
      simp [Ne.symm hNe]
    · rw [List.getElem?_modify]
      simp [hn]
  exact ⟨hFirst, h.symm.trans hFirst⟩

/-- A setter changes its node and no other if and only if its word fits. -/
theorem setNode_nodes_iff (h : Tabled alloc s) {node : Nat}
    {f : Gfx3dSceneNode K → Gfx3dSceneNode K} :
    (s.setNode (alloc node) f).nodes = s.nodes.modify node (Option.map f) ↔
      WordFits alloc s.nodes node f := by
  unfold WordFits Bridge.setNode
  rw [h.entry_eq]
  cases hTarget : wordTarget alloc s.nodes.length (alloc node) with
  | none =>
    constructor
    · exact fun hSame => Or.inr ⟨hSame.symm, fun other hOther => by cases hOther⟩
    · rintro (hSelf | ⟨hKept, -⟩)
      · cases hSelf
      · exact hKept.symm
  | some other =>
    constructor
    · intro hSame
      by_cases hEq : other = node
      · exact Or.inl (congrArg some hEq)
      · obtain ⟨hOther, hNode⟩ := modify_eq_modify hEq hSame
        exact Or.inr ⟨hNode, fun other' hIs => by cases hIs; exact hOther⟩
    · rintro (hSelf | ⟨hKept, hOther⟩)
      · cases hSelf
        rfl
      · exact (hOther other rfl).trans hKept.symm

theorem dispatch_nodes {call : BridgeCall K} {node : Nat}
    {f : Gfx3dSceneNode K → Gfx3dSceneNode K} (h : call.edit gMaterial = some (node, f)) :
    s.dispatch alloc gMaterial call = s.setNode (alloc node) f := by
  rw [Bridge.dispatch, h]

theorem givenNodes_append (pre : List (BridgeCall K)) (call : BridgeCall K) :
    givenNodes alloc gMaterial (pre ++ [call]) =
      match call.edit gMaterial with
      | some (node, f) => (givenNodes alloc gMaterial pre).modify node (Option.map f)
      | none => givenNodes alloc gMaterial pre ++
          [if alloc (givenNodes alloc gMaterial pre).length = 0 then none else some newNode] :=
  List.foldl_append

/-- A run in which every setter changes its node and no other has the nodes that were given. -/
theorem nodes_eq_givenNodes {calls : List (BridgeCall K)}
    (h : ∀ pre call node f, pre ++ [call] <+: calls → call.edit gMaterial = some (node, f) →
      (Bridge.run alloc gMaterial pre).nodes = givenNodes alloc gMaterial pre →
        (Bridge.run alloc gMaterial (pre ++ [call])).nodes =
          (Bridge.run alloc gMaterial pre).nodes.modify node (Option.map f)) :
    ∀ pre, pre <+: calls →
      (Bridge.run alloc gMaterial pre).nodes = givenNodes alloc gMaterial pre := by
  intro pre
  induction pre using List.reverseRecOn with
  | nil => exact fun _ => rfl
  | append_singleton pre call ih =>
    intro hPrefix
    have hBefore := ih ((List.prefix_append pre [call]).trans hPrefix)
    rw [givenNodes_append, ← hBefore]
    cases hEdit : call.edit gMaterial with
    | none =>
      rw [run_append, Bridge.dispatch, hEdit]
      rfl
    | some edit => exact h pre call edit.1 edit.2 hPrefix hEdit hBefore

/-! ## What is drawn -/

/-- A node that has been brought up to date is drawn with its own transform. -/
theorem drawNode_update (view : CmMat4 K) {node : Gfx3dSceneNode K}
    (h : node.mesh.isSome → node.hasMaterial = true) :
    drawNode view (updateNode gfx3dNodeLocalMatrix cmMat4Identity node) = givenDraw view node := by
  have hWorld : (updateNode gfx3dNodeLocalMatrix cmMat4Identity node).worldMatrix =
      gfx3dNodeLocalMatrix node := CmMat4.identity_mul _
  unfold drawNode givenDraw
  rw [hWorld]
  show (match node.mesh with
    | some mesh => if node.hasMaterial then _ else none
    | none => none) = _
  cases hMesh : node.mesh with
  | none => rfl
  | some mesh =>
    rw [hMesh] at h
    exact if_pos (h rfl)

/-- The nodes in the course of a rendering, as far as what is drawn for them goes. -/
structure Rendering (view : CmMat4 K) (before nodes : List (Option (Gfx3dSceneNode K))) : Prop where
  meshed : ∀ (j : Nat) (n : Gfx3dSceneNode K), nodes[j]? = some (some n) → n.mesh.isSome →
    n.hasMaterial = true
  draws : ∀ j, (nodes.getD j none).bind (givenDraw view) =
    (before.getD j none).bind (givenDraw view)

theorem Rendering.update {view : CmMat4 K} {before nodes : List (Option (Gfx3dSceneNode K))}
    (h : Rendering view before nodes) (number : Nat) :
    Rendering view before
      (nodes.modify number (Option.map (updateNode gfx3dNodeLocalMatrix cmMat4Identity))) ∧
    ((nodes.modify number (Option.map (updateNode gfx3dNodeLocalMatrix cmMat4Identity))).getD number
      none).bind (drawNode view) = (before.getD number none).bind (givenDraw view) := by
  refine ⟨⟨fun j n hj => ?_, fun j => ?_⟩, ?_⟩
  · obtain ⟨n₀, hOld, rfl⟩ := exists_of_modify hj
    split_ifs
    · exact h.meshed j n₀ hOld
    · exact h.meshed j n₀ hOld
  · rw [← h.draws j, List.getD_eq_getElem?_getD, List.getD_eq_getElem?_getD, List.getElem?_modify]
    cases hEntry : nodes[j]? with
    | none => rfl
    | some entry =>
      cases entry with
      | none => by_cases hSame : number = j <;> simp [hSame]
      | some n =>
        by_cases hSame : number = j
        · simp only [hSame, if_true]
          rfl
        · simp [hSame]
  · rw [← h.draws number, List.getD_eq_getElem?_getD, List.getD_eq_getElem?_getD,
      List.getElem?_modify]
    cases hEntry : nodes[number]? with
    | none => rfl
    | some entry =>
      cases entry with
      | none => simp
      | some n =>
        simp only [if_true]
        exact drawNode_update view (h.meshed number n hEntry)

theorem foldl_renderListed (view : CmMat4 K) {before : List (Option (Gfx3dSceneNode K))}
    (entries : List (Option Nat)) : ∀ (nodes : List (Option (Gfx3dSceneNode K)))
      (draws : List (MeshDraw K)), Rendering view before nodes →
      (entries.foldl (renderListed view) (nodes, draws)).2 =
        draws ++ entries.filterMap fun entry =>
          entry.bind fun j => (before.getD j none).bind (givenDraw view) := by
  induction entries with
  | nil =>
    intro nodes draws _
    rw [List.filterMap_nil, List.append_nil]
    rfl
  | cons entry entries ih =>
    intro nodes draws h
    cases entry with
    | none => exact ih nodes draws h
    | some number =>
      obtain ⟨hNext, hDraw⟩ := h.update number
      rw [List.foldl_cons, renderListed, ih _ _ hNext, hDraw, List.append_assoc,
        List.filterMap_cons, Option.bind_some]
      cases (before.getD number none).bind (givenDraw view) <;> rfl

/-- Every node with a mesh is drawn, in the order of creation. -/
theorem Tabled.sceneRender_draws (h : Tabled alloc s) (view : CmMat4 K) :
    (sceneRender view s).2 = s.nodes.filterMap (·.bind (givenDraw view)) := by
  have hNodes : s.nodes = (List.range s.nodes.length).map fun j => s.nodes.getD j none := by
    refine List.ext_getElem (by rw [List.length_map, List.length_range]) fun j hj _ => ?_
    rw [List.getElem_map, List.getElem_range, List.getD_eq_getElem?_getD,
      List.getElem?_eq_getElem hj, Option.getD_some]
  obtain ⟨far, hFar⟩ : ∃ far, s.nodes.length = min s.nodes.length gNodesMax + far :=
    ⟨s.nodes.length - gNodesMax, by omega⟩
  -- a node that is not in the table has no mesh
  have hBare : ((List.range far).map (min s.nodes.length gNodesMax + ·)).filterMap
      (fun j => (s.nodes.getD j none).bind (givenDraw view)) = [] := by
    refine List.filterMap_eq_nil_iff.mpr fun j hj => ?_
    obtain ⟨i, hi, rfl⟩ := List.mem_map.mp hj
    rw [List.mem_range] at hi
    rw [List.getD_eq_getElem?_getD]
    cases hEntry : s.nodes[min s.nodes.length gNodesMax + i]? with
    | none => rfl
    | some entry =>
      cases entry with
      | none => rfl
      | some n =>
        have hMesh := h.bare _ n hEntry (by omega)
        simp [givenDraw, hMesh]
  -- an entry of the table is null where no node was made
  have hTable : (s.gNodes.filterMap fun entry =>
      entry.bind fun j => (s.nodes.getD j none).bind (givenDraw view)) =
      (List.range (min s.nodes.length gNodesMax)).filterMap
        fun j => (s.nodes.getD j none).bind (givenDraw view) := by
    rw [h.table, List.filterMap_map]
    refine List.filterMap_congr fun j _ => ?_
    by_cases hFailed : alloc j = 0
    · have hNone : s.nodes.getD j none = none := by
        rw [List.getD_eq_getElem?_getD]
        cases hEntry : s.nodes[j]? with
        | none => rfl
        | some entry =>
          cases entry with
          | none => rfl
          | some n => exact absurd hFailed (h.failed j n hEntry)
      rw [Function.comp_apply, if_pos hFailed, hNone]
      rfl
    · rw [Function.comp_apply, if_neg hFailed]
      rfl
  have hStart : Rendering view s.nodes s.nodes := ⟨h.meshed, fun _ => rfl⟩
  calc (sceneRender view s).2
      = s.gNodes.filterMap fun entry =>
          entry.bind fun j => (s.nodes.getD j none).bind (givenDraw view) :=
        foldl_renderListed view s.gNodes s.nodes [] hStart
    _ = (List.range s.nodes.length).filterMap
          fun j => (s.nodes.getD j none).bind (givenDraw view) := by
        rw [hTable, hFar, List.range_add, List.filterMap_append, ← hFar, hBare, List.append_nil]
    _ = s.nodes.filterMap (·.bind (givenDraw view)) := by
        conv_rhs => rw [hNodes]
        rw [List.filterMap_map]
        rfl

/-! ## Handles -/

/-- Every handle leads to its node and every node with a mesh is drawn once, if and only if the word
of each setter call, taken for an index, is the number of its node, or the call changes nothing. -/
theorem handlesAddress_iff (alloc : Addresses) (gMaterial : Gfx3dMaterialMode) (view : CmMat4 K)
    (calls : List (BridgeCall K)) :
    HandlesAddress alloc gMaterial view calls ↔ WordsFit alloc gMaterial calls := by
  constructor
  · intro h pre call node f hPrefix hEdit
    have hNodes := nodes_eq_givenNodes (fun pre call node f hPrefix hEdit _ =>
      h.changes pre call node f hPrefix hEdit) pre ((List.prefix_append pre [call]).trans hPrefix)
    have hChange := h.changes pre call node f hPrefix hEdit
    rw [run_append, dispatch_nodes hEdit] at hChange
    exact hNodes ▸ (setNode_nodes_iff (run_tabled pre)).mp hChange
  · intro h
    have hStep : ∀ pre call node f, pre ++ [call] <+: calls →
        call.edit gMaterial = some (node, f) →
        (Bridge.run alloc gMaterial pre).nodes = givenNodes alloc gMaterial pre →
          (Bridge.run alloc gMaterial (pre ++ [call])).nodes =
            (Bridge.run alloc gMaterial pre).nodes.modify node (Option.map f) := by
      intro pre call node f hPrefix hEdit hNodes
      have hFits := h pre call node f hPrefix hEdit
      rw [← hNodes] at hFits
      rw [run_append, dispatch_nodes hEdit]
      exact (setNode_nodes_iff (run_tabled pre)).mpr hFits
    have hNodes := nodes_eq_givenNodes hStep
    constructor
    · intro pre call node f hPrefix hEdit
      exact hStep pre call node f hPrefix hEdit
        (hNodes pre ((List.prefix_append pre [call]).trans hPrefix))
    · rw [(run_tabled calls).sceneRender_draws view, hNodes calls (List.prefix_refl calls)]

/-- Addresses in the memory of the console. -/
def consoleAddresses : Addresses := fun number => 0x80800000 + BitVec.ofNat 32 (256 * number)

/-- A node is created and its position set: nothing is set. -/
theorem position_not_set : ¬HandlesAddress consoleAddresses .lit (cmMat4Identity : CmMat4 Int)
    [.createNode, .setPos 0 [1, 2, 3]] := by
  intro h
  have hChange := h.changes [.createNode] (.setPos 0 [1, 2, 3]) 0 _ (List.prefix_refl _) rfl
  have hPositions := congrArg (List.map (Option.map (·.position))) hChange
  revert hPositions
  decide

end Calynda.Gfx3d
