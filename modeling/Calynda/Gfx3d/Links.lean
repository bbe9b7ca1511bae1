import Mathlib.Data.List.Perm.Basic

/-!
# The links of a scene

The nodes in memory, where each has the address of its parent and those of its children. The two
directions of a link have to agree, and they do as long as a node gets a parent only if it has none,
and goes only if it has none.
-/

namespace Calynda.Gfx3d

abbrev Ptr := Nat

/-- A node by its links, its name and whether it is visible. -/
structure LinkedNode where
  parent : Option Ptr
  children : List Ptr
  visible : Bool
  name : String
  deriving DecidableEq

/-- The nodes that are there, by their addresses. -/
abbrev NodeHeap := Ptr → Option LinkedNode

/-- `GFX3D_SCENE_MAX_CHILDREN`. -/
def sceneMaxChildren : Nat := 32

/-! ## The operations -/

/-- The allocator gives an address where no node is. -/
def gfx3dNodeCreate (h : NodeHeap) (node : Ptr) (name : String) : NodeHeap :=
  Function.update h node (some ⟨none, [], true, String.ofList (name.toList.take 31)⟩)

def setParent (h : NodeHeap) (node : Ptr) (parent : Option Ptr) : NodeHeap :=
  Function.update h node ((h node).map fun n => { n with parent })

def setChildren (h : NodeHeap) (node : Ptr) (children : List Ptr) : NodeHeap :=
  Function.update h node ((h node).map fun n => { n with children })

/-- The children of a node that is there. -/
def childrenOf (h : NodeHeap) (node : Ptr) : List Ptr := ((h node).map (·.children)).getD []

/-- Whether there was room, and the nodes after it. -/
def gfx3dNodeAddChild (h : NodeHeap) (parent child : Ptr) : Bool × NodeHeap :=
  if (childrenOf h parent).length ≥ sceneMaxChildren then (false, h)
  else
    let h := setParent h child (some parent)
    (true, setChildren h parent (childrenOf h parent ++ [child]))

/-- The last child takes the place of the one that goes. -/
def swapRemove (children : List Ptr) (i : Nat) : List Ptr :=
  (children.set i (children.getLastD 0)).dropLast

/-- Whether the child was found, and the nodes after it. -/
def gfx3dNodeRemoveChild (h : NodeHeap) (parent child : Ptr) : Bool × NodeHeap :=
  if child ∈ childrenOf h parent then
    let i := (childrenOf h parent).idxOf child
    let h := setParent h child none
    (true, setChildren h parent (swapRemove (childrenOf h parent) i))
  else (false, h)

/-- The children one after the other. -/
def destroyChildren (destroy : NodeHeap → Ptr → Option (List Ptr × NodeHeap)) (h : NodeHeap) :
    List Ptr → Option (List Ptr × NodeHeap)
  | [] => some ([], h)
  | c :: cs =>
    match destroy h c with
    | none => none
    | some (freed, h) =>
      (destroyChildren destroy h cs).map fun rest => (freed ++ rest.1, rest.2)

/-- The nodes that are freed, in their order, and the ones that are left. There is none where a
node is read or freed that is not there any more, or where the recursion does not end. -/
def gfx3dNodeDestroy : Nat → NodeHeap → Ptr → Option (List Ptr × NodeHeap)
  | 0, _, _ => none
  | fuel + 1, h, node =>
    match h node with
    | none => none
    | some n =>
      match destroyChildren (gfx3dNodeDestroy fuel) h n.children with
      | none => none
      | some (freed, h) =>
        if (h node).isSome then some (freed ++ [node], Function.update h node none) else none

/-! ## The walks -/

/-- The children one after the other, until one of them ends the walk. -/
def visitChildren (visit : Ptr → Option (Bool × List Ptr)) : List Ptr → Option (Bool × List Ptr)
  | [] => some (false, [])
  | c :: cs =>
    match visit c with
    | none => none
    | some (true, seen) => some (true, seen)
    | some (false, seen) =>
      (visitChildren visit cs).map fun rest => (rest.1, seen ++ rest.2)

/-- The nodes that a walk visits, which turns back where `enter` says no and ends where `stop` says
so. -/
def visit (h : NodeHeap) (enter stop : LinkedNode → Bool) :
    Nat → Ptr → Option (Bool × List Ptr)
  | 0, _ => none
  | fuel + 1, node =>
    match h node with
    | none => none
    | some n =>
      if stop n then some (true, [node])
      else if enter n then
        (visitChildren (visit h enter stop fuel) n.children).map fun r => (r.1, node :: r.2)
      else some (false, [node])

/-- `gfx3d_node_update_transforms` and `gfx3d_node_cull`. -/
def visitAll (h : NodeHeap) : Nat → Ptr → Option (Bool × List Ptr) :=
  visit h (fun _ => true) fun _ => false

/-- `gfx3d_node_render`. -/
def visitVisible (h : NodeHeap) : Nat → Ptr → Option (Bool × List Ptr) :=
  visit h (·.visible) fun _ => false

/-- `gfx3d_node_find`, which ends at the node that it finds. -/
def visitToFind (h : NodeHeap) (name : String) : Nat → Ptr → Option (Bool × List Ptr) :=
  visit h (fun _ => true) fun n => n.name == name

/-! ## Forests -/

/-- `p` is the parent of `c`. -/
def ParentOf (h : NodeHeap) (c p : Ptr) : Prop := ∃ n, h c = some n ∧ n.parent = some p

/-- `c` is among the children of `p`. -/
def Lists (h : NodeHeap) (p c : Ptr) : Prop := ∃ n, h p = some n ∧ c ∈ n.children

/-- A node and those above it. -/
def Below (h : NodeHeap) (m n : Ptr) : Prop := Relation.ReflTransGen (ParentOf h) m n

/-- The two directions of the links agree, and no node is above itself. -/
structure IsForest (h : NodeHeap) : Prop where
  children_live : ∀ p n c, h p = some n → c ∈ n.children → (h c).isSome
  once : ∀ p n, h p = some n → n.children.Nodup
  parent : ∀ c n p, h c = some n → (n.parent = some p ↔ ∃ m, h p = some m ∧ c ∈ m.children)
  few : ∀ p n, h p = some n → n.children.length ≤ sceneMaxChildren
  acyclic : ∀ n, ¬Relation.TransGen (ParentOf h) n n

/-- A forest with a height for each node, lower than the one of its parent. -/
structure Ranked (h : NodeHeap) (height : Ptr → Nat) : Prop where
  links : ∀ c p, ParentOf h c p ↔ Lists h p c
  once : ∀ {p n}, h p = some n → n.children.Nodup
  few : ∀ {p n}, h p = some n → n.children.length ≤ sceneMaxChildren
  lower : ∀ {c p}, ParentOf h c p → height c < height p

theorem parentOf_unique (h : NodeHeap) : Relator.RightUnique (ParentOf h) := by
  rintro c p q ⟨n, hNode, hP⟩ ⟨m, hNode', hQ⟩
  obtain rfl := Option.some.inj (hNode.symm.trans hNode')
  exact Option.some.inj (hP.symm.trans hQ)

namespace Ranked

variable {h : NodeHeap} {height : Ptr → Nat} (hRanked : Ranked h height)

include hRanked

theorem child {p c : Ptr} {n : LinkedNode} (hNode : h p = some n) (hMem : c ∈ n.children) :
    ∃ m, h c = some m ∧ m.parent = some p :=
  (hRanked.links c p).mpr ⟨n, hNode, hMem⟩

theorem parent {c p : Ptr} {n : LinkedNode} (hNode : h c = some n) (hParent : n.parent = some p) :
    ∃ m, h p = some m ∧ c ∈ m.children :=
  (hRanked.links c p).mp ⟨n, hNode, hParent⟩

theorem height_le {m n : Ptr} (hBelow : Below h m n) : height m ≤ height n := by
  induction hBelow with
  | refl => exact Nat.le_refl _
  | tail _ hEdge ih => exact Nat.le_trans ih (Nat.le_of_lt (hRanked.lower hEdge))

theorem isForest : IsForest h where
  children_live p n c hNode hMem := by
    obtain ⟨m, hChild, -⟩ := hRanked.child hNode hMem
    rw [hChild]
    rfl
  once p n hNode := hRanked.once hNode
  parent c n p hNode := by
    constructor
    · exact hRanked.parent hNode
    · rintro ⟨m, hParent, hMem⟩
      obtain ⟨n', hNode', hEq⟩ := hRanked.child hParent hMem
      obtain rfl := Option.some.inj (hNode.symm.trans hNode')
      exact hEq
  few p n hNode := hRanked.few hNode
  acyclic n hCycle := by
    obtain ⟨p, hParent, hRest⟩ := Relation.TransGen.head'_iff.mp hCycle
    exact absurd (hRanked.lower hParent) (Nat.not_lt.mpr (hRanked.height_le hRest))

theorem parentOf {p c : Ptr} {n : LinkedNode} (hNode : h p = some n) (hMem : c ∈ n.children) :
    ParentOf h c p :=
  hRanked.child hNode hMem

/-- What is below a node is the node or below one of its children. -/
theorem below_iff {m p : Ptr} {n : LinkedNode} (hNode : h p = some n) :
    Below h m p ↔ m = p ∨ ∃ c ∈ n.children, Below h m c := by
  constructor
  · intro hBelow
    rcases Relation.ReflTransGen.cases_tail hBelow with hEq | ⟨c, hRest, hChild, hLive, hParent⟩
    · exact Or.inl hEq.symm
    · obtain ⟨n', hNode', hMem⟩ := hRanked.parent hLive hParent
      obtain rfl := Option.some.inj (hNode.symm.trans hNode')
      exact Or.inr ⟨c, hMem, hRest⟩
  · rintro (rfl | ⟨c, hMem, hBelow⟩)
    · exact .refl
    · exact hBelow.tail (hRanked.parentOf hNode hMem)

/-- Two children have nothing below them in common. -/
theorem children_disjoint {m p c d : Ptr} {n : LinkedNode} (hNode : h p = some n)
    (hC : c ∈ n.children) (hD : d ∈ n.children) (hBelowC : Below h m c) (hBelowD : Below h m d) :
    c = d := by
  have hParentC := hRanked.parentOf hNode hC
  have hParentD := hRanked.parentOf hNode hD
  have hAbove : ∀ {a b : Ptr}, ParentOf h a p → ParentOf h b p → Below h a b → a = b := by
    intro a b hA hB hBelow
    rcases Relation.ReflTransGen.cases_head hBelow with hEq | ⟨q, hEdge, hRest⟩
    · exact hEq
    · obtain rfl := parentOf_unique h hEdge hA
      exact absurd (hRanked.lower hB) (Nat.not_lt.mpr (hRanked.height_le hRest))
  rcases Relation.ReflTransGen.total_of_right_unique (parentOf_unique h) hBelowC hBelowD with
    hOver | hOver
  · exact hAbove hParentC hParentD hOver
  · exact (hAbove hParentD hParentC hOver).symm

end Ranked

/-! ## Walks -/

/-- What a walk over the trees of some nodes has visited: no node twice, and all of them unless it
turns back or ends before. -/
structure Walked (h : NodeHeap) (enter stop : LinkedNode → Bool) (roots : List Ptr)
    (walk : Bool × List Ptr) : Prop where
  once : walk.2.Nodup
  below : ∀ m ∈ walk.2, ∃ c ∈ roots, Below h m c
  ends : (∀ n, stop n = false) → walk.1 = false
  all : (∀ c ∈ roots, ∀ m n, Below h m c → h m = some n → enter n = true) → walk.1 = false →
    ∀ c ∈ roots, ∀ m, Below h m c → m ∈ walk.2

section Walks

variable {h : NodeHeap} {height : Ptr → Nat} (hRanked : Ranked h height)
  (enter stop : LinkedNode → Bool)

include hRanked

theorem visitChildren_walked {p : Ptr} {n : LinkedNode} (hNode : h p = some n) {cs : List Ptr}
    (hSub : ∀ c ∈ cs, c ∈ n.children) (hOnce : cs.Nodup)
    (hEach : ∀ c ∈ cs, ∃ walk, (∀ fuel, height c < fuel → visit h enter stop fuel c = some walk) ∧
      Walked h enter stop [c] walk) :
    ∃ walk, (∀ fuel, height p ≤ fuel → visitChildren (visit h enter stop fuel) cs = some walk) ∧
      Walked h enter stop cs walk := by
  induction cs with
  | nil =>
    refine ⟨(false, []), fun _ _ => rfl, List.nodup_nil, ?_, fun _ => rfl, ?_⟩
    · exact fun m hMem => absurd hMem List.not_mem_nil
    · exact fun _ _ c hMem => absurd hMem List.not_mem_nil
  | cons c cs ih =>
    obtain ⟨⟨stopped, seen⟩, hVisit, hWalked⟩ := hEach c (.head _)
    obtain ⟨hNew, hOnce'⟩ := List.nodup_cons.mp hOnce
    obtain ⟨rest, hRest, hWalkedRest⟩ := ih (fun d hd => hSub d (.tail _ hd)) hOnce'
      fun d hd => hEach d (.tail _ hd)
    have hLower := hRanked.lower (hRanked.parentOf hNode (hSub c (.head _)))
    have hBelow : ∀ m ∈ seen, Below h m c := fun m hMem => by
      simpa using hWalked.below m hMem
    cases stopped with
    | true =>
      refine ⟨(true, seen), fun fuel hFuel => ?_, hWalked.once, ?_, ?_, ?_⟩
      · rw [visitChildren, hVisit fuel (Nat.lt_of_lt_of_le hLower hFuel)]
      · exact fun m hMem => ⟨c, .head _, hBelow m hMem⟩
      · exact hWalked.ends
      · exact fun _ hFalse => absurd hFalse Bool.noConfusion
    | false =>
      refine ⟨(rest.1, seen ++ rest.2), fun fuel hFuel => ?_, ?_, ?_, hWalkedRest.ends, ?_⟩
      · rw [visitChildren, hVisit fuel (Nat.lt_of_lt_of_le hLower hFuel)]
        simp only [hRest fuel hFuel, Option.map_some]
      · refine List.nodup_append.mpr ⟨hWalked.once, hWalkedRest.once, ?_⟩
        rintro m hSeen m' hRestMem rfl
        obtain ⟨d, hd, hBelowD⟩ := hWalkedRest.below m hRestMem
        have hEq := hRanked.children_disjoint hNode (hSub c (.head _)) (hSub d (.tail _ hd))
          (hBelow m hSeen) hBelowD
        exact hNew (hEq ▸ hd)
      · intro m hMem
        rcases List.mem_append.mp hMem with hSeen | hRestMem
        · exact ⟨c, .head _, hBelow m hSeen⟩
        · obtain ⟨d, hd, hBelowD⟩ := hWalkedRest.below m hRestMem
          exact ⟨d, .tail _ hd, hBelowD⟩
      · intro hEnter hEnds d hd m hBelowD
        rcases List.mem_cons.mp hd with rfl | hd
        · refine List.mem_append_left _ (hWalked.all (fun e he => ?_) rfl d (.head _) m hBelowD)
          exact hEnter e (List.mem_singleton.mp he ▸ .head _)
        · exact List.mem_append_right _ (hWalkedRest.all (fun e he => hEnter e (.tail _ he)) hEnds
            d hd m hBelowD)

/-- Each walk ends, whatever node it starts at. -/
theorem visit_walked (p : Ptr) (hLive : (h p).isSome) :
    ∃ walk, (∀ fuel, height p < fuel → visit h enter stop fuel p = some walk) ∧
      Walked h enter stop [p] walk := by
  induction hHeight : height p using Nat.strongRecOn generalizing p with
  | ind k ih =>
    obtain ⟨n, hNode⟩ := Option.isSome_iff_exists.mp hLive
    have hSelf : ∀ m ∈ [p], ∃ c ∈ [p], Below h m c := by
      intro m hMem
      exact ⟨m, hMem, .refl⟩
    have hEach : ∀ c ∈ n.children, ∃ walk,
        (∀ fuel, height c < fuel → visit h enter stop fuel c = some walk) ∧
          Walked h enter stop [c] walk := by
      intro c hMem
      obtain ⟨m, hChild, -⟩ := hRanked.child hNode hMem
      exact ih (height c) (hHeight ▸ hRanked.lower (hRanked.parentOf hNode hMem)) c
        (hChild ▸ rfl) rfl
    obtain ⟨walk, hWalk, hWalked⟩ := visitChildren_walked hRanked enter stop hNode (fun _ => id)
      (hRanked.once hNode) hEach
    by_cases hStop : stop n
    · refine ⟨(true, [p]), fun fuel hFuel => ?_, List.nodup_cons.mpr ⟨List.not_mem_nil, .nil⟩,
        hSelf, ?_, ?_⟩
      · cases fuel with
        | zero => exact absurd hFuel (Nat.not_lt_zero _)
        | succ fuel => simp [visit, hNode, hStop]
      · exact fun hNever => absurd hStop (by simp [hNever n])
      · exact fun _ hFalse => absurd hFalse Bool.noConfusion
    by_cases hEnter : enter n
    · refine ⟨(walk.1, p :: walk.2), fun fuel hFuel => ?_, ?_, ?_, hWalked.ends, ?_⟩
      · cases fuel with
        | zero => exact absurd hFuel (Nat.not_lt_zero _)
        | succ fuel =>
          simp [visit, hNode, hStop, hEnter, hWalk fuel (hHeight ▸ Nat.le_of_lt_succ hFuel)]
      · refine List.nodup_cons.mpr ⟨fun hMem => ?_, hWalked.once⟩
        obtain ⟨c, hc, hBelow⟩ := hWalked.below p hMem
        exact absurd (hRanked.lower (hRanked.parentOf hNode hc))
          (Nat.not_lt.mpr (hRanked.height_le hBelow))
      · intro m hMem
        refine ⟨p, .head _, (hRanked.below_iff hNode).mpr ?_⟩
        rcases List.mem_cons.mp hMem with hEq | hRest
        · exact Or.inl hEq
        · exact Or.inr (hWalked.below m hRest)
      · intro hAlways hEnds q hq m hBelow
        obtain rfl := List.mem_singleton.mp hq
        rcases (hRanked.below_iff hNode).mp hBelow with rfl | ⟨c, hc, hBelowC⟩
        · exact .head _
        · refine .tail _ (hWalked.all (fun d hd e n' hBelowD => ?_) hEnds c hc m hBelowC)
          exact hAlways q (.head _) e n' ((hRanked.below_iff hNode).mpr (Or.inr ⟨d, hd, hBelowD⟩))
    · refine ⟨(false, [p]), fun fuel hFuel => ?_, List.nodup_cons.mpr ⟨List.not_mem_nil, .nil⟩,
        hSelf, fun _ => rfl, ?_⟩
      · cases fuel with
        | zero => exact absurd hFuel (Nat.not_lt_zero _)
        | succ fuel => simp [visit, hNode, hStop, hEnter]
      · exact fun hAlways => absurd (hAlways p (.head _) p n .refl hNode) hEnter

end Walks

/-! ## Destroying -/

/-- The nodes without those that have been freed. -/
def without (h : NodeHeap) (freed : List Ptr) : NodeHeap := fun m => if m ∈ freed then none else h m

/-- What a destruction of the trees of some nodes does: it frees each node of them once. -/
structure Destroyed (h : NodeHeap) (roots : List Ptr) (g : NodeHeap)
    (result : List Ptr × NodeHeap) : Prop where
  once : result.1.Nodup
  freed : ∀ m, m ∈ result.1 ↔ ∃ c ∈ roots, Below h m c
  left : result.2 = without g result.1

section Destroying

variable {h : NodeHeap} {height : Ptr → Nat} (hRanked : Ranked h height)

include hRanked

/-- The children of a node, in a heap that still has all that is below them. -/
theorem destroyChildren_destroyed {p : Ptr} {n : LinkedNode} (hNode : h p = some n) {cs : List Ptr}
    (hSub : ∀ c ∈ cs, c ∈ n.children) (hOnce : cs.Nodup)
    (hEach : ∀ c ∈ cs, ∀ g : NodeHeap, (∀ m, Below h m c → g m = h m) → ∃ result,
      (∀ fuel, height c < fuel → gfx3dNodeDestroy fuel g c = some result) ∧
        Destroyed h [c] g result) (g : NodeHeap)
    (hSame : ∀ c ∈ cs, ∀ m, Below h m c → g m = h m) :
    ∃ result, (∀ fuel, height p ≤ fuel →
        destroyChildren (gfx3dNodeDestroy fuel) g cs = some result) ∧ Destroyed h cs g result := by
  induction cs generalizing g with
  | nil => exact ⟨([], g), fun _ _ => rfl, List.nodup_nil, by simp, funext fun m => by simp [without]⟩
  | cons c cs ih =>
    obtain ⟨⟨freed, g'⟩, hDestroy, hDestroyed⟩ := hEach c (.head _) g (hSame c (.head _))
    obtain ⟨hNew, hOnce'⟩ := List.nodup_cons.mp hOnce
    have hFreed : ∀ m, m ∈ freed ↔ Below h m c := fun m => by
      simpa using hDestroyed.freed m
    have hLeft : g' = without g freed := hDestroyed.left
    -- what is below the other children has not been freed
    have hApart : ∀ d ∈ cs, ∀ m, Below h m d → m ∉ freed := by
      intro d hd m hBelow hMem
      have hEq := hRanked.children_disjoint hNode (hSub c (.head _)) (hSub d (.tail _ hd))
        ((hFreed m).mp hMem) hBelow
      exact hNew (hEq ▸ hd)
    obtain ⟨rest, hRest, hDestroyedRest⟩ := ih (fun d hd => hSub d (.tail _ hd)) hOnce'
      (fun d hd => hEach d (.tail _ hd)) g' fun d hd m hBelow => by
        rw [hLeft, without, if_neg (hApart d hd m hBelow), hSame d (.tail _ hd) m hBelow]
    have hLower := hRanked.lower (hRanked.parentOf hNode (hSub c (.head _)))
    refine ⟨(freed ++ rest.1, rest.2), fun fuel hFuel => ?_, ?_, ?_, ?_⟩
    · rw [destroyChildren, hDestroy fuel (Nat.lt_of_lt_of_le hLower hFuel)]
      simp only [hRest fuel hFuel, Option.map_some]
    · refine List.nodup_append.mpr ⟨hDestroyed.once, hDestroyedRest.once, ?_⟩
      rintro m hMem m' hRestMem rfl
      obtain ⟨d, hd, hBelow⟩ := (hDestroyedRest.freed m).mp hRestMem
      exact hApart d hd m hBelow hMem
    · intro m
      simp [hFreed, hDestroyedRest.freed]
    · rw [hDestroyedRest.left, hLeft]
      funext m
      simp only [without, List.mem_append]
      by_cases hFirst : m ∈ freed <;> by_cases hSecond : m ∈ rest.1 <;> simp [hFirst, hSecond]

/-- A destruction ends and frees each node of the tree once. -/
theorem gfx3dNodeDestroy_destroyed (p : Ptr) (hLive : (h p).isSome) (g : NodeHeap)
    (hSame : ∀ m, Below h m p → g m = h m) :
    ∃ result, (∀ fuel, height p < fuel → gfx3dNodeDestroy fuel g p = some result) ∧
      Destroyed h [p] g result := by
  induction hHeight : height p using Nat.strongRecOn generalizing p g with
  | ind k ih =>
    obtain ⟨n, hNode⟩ := Option.isSome_iff_exists.mp hLive
    have hEach : ∀ c ∈ n.children, ∀ g : NodeHeap, (∀ m, Below h m c → g m = h m) → ∃ result,
        (∀ fuel, height c < fuel → gfx3dNodeDestroy fuel g c = some result) ∧
          Destroyed h [c] g result := by
      intro c hMem g hSame
      obtain ⟨m, hChild, -⟩ := hRanked.child hNode hMem
      exact ih (height c) (hHeight ▸ hRanked.lower (hRanked.parentOf hNode hMem)) c
        (hChild ▸ rfl) g hSame rfl
    obtain ⟨⟨freed, g'⟩, hDestroy, hDestroyed⟩ := destroyChildren_destroyed hRanked hNode
      (fun _ => id) (hRanked.once hNode) hEach g fun c hc m hBelow =>
        hSame m ((hRanked.below_iff hNode).mpr (Or.inr ⟨c, hc, hBelow⟩))
    have hSelf : p ∉ freed := by
      intro hMem
      obtain ⟨c, hc, hBelow⟩ := (hDestroyed.freed p).mp hMem
      exact absurd (hRanked.lower (hRanked.parentOf hNode hc))
        (Nat.not_lt.mpr (hRanked.height_le hBelow))
    have hLeft : g' = without g freed := hDestroyed.left
    have hStill : g' p = some n := by
      rw [hLeft, without, if_neg hSelf, hSame p .refl, hNode]
    refine ⟨(freed ++ [p], Function.update g' p none), fun fuel hFuel => ?_, ?_, ?_, ?_⟩
    · cases fuel with
      | zero => exact absurd hFuel (Nat.not_lt_zero _)
      | succ fuel =>
        have hChildren := hDestroy fuel (hHeight ▸ Nat.le_of_lt_succ hFuel)
        have hRead : g p = some n := (hSame p .refl).trans hNode
        simp [gfx3dNodeDestroy, hRead, hChildren, hStill]
    · refine List.nodup_append.mpr ⟨hDestroyed.once, List.nodup_cons.mpr
        ⟨List.not_mem_nil, .nil⟩, ?_⟩
      rintro m hMem m' hEq rfl
      exact hSelf (List.mem_singleton.mp hEq ▸ hMem)
    · intro m
      have hChildren := hDestroyed.freed m
      simp only at hChildren
      simp [hChildren, hRanked.below_iff hNode, or_comm]
    · rw [hLeft]
      funext m
      by_cases hEq : m = p <;> simp [without, hEq, Function.update]

end Destroying

end Calynda.Gfx3d
