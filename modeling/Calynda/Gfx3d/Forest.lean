import Calynda.Gfx3d.Links

/-!
# Scenes stay forests

Runs of the operations on the links. A node that has a parent gets no other one, no node gets a
child that it is or that it is below, and only nodes without a parent are destroyed: then the links
stay those of a forest.
-/

namespace Calynda.Gfx3d

inductive SceneOp where
  | create (node : Ptr) (name : String)
  | addChild (parent child : Ptr)
  | removeChild (parent child : Ptr)
  | destroy (node : Ptr)

/-- A call with live nodes and what it leaves. -/
inductive Step (h : NodeHeap) : SceneOp → NodeHeap → Prop
  | create {node : Ptr} (name : String) (hFree : h node = none) :
      Step h (.create node name) (gfx3dNodeCreate h node name)
  | addChild {parent child : Ptr} (hParent : (h parent).isSome) (hChild : (h child).isSome) :
      Step h (.addChild parent child) (gfx3dNodeAddChild h parent child).2
  | removeChild {parent child : Ptr} (hParent : (h parent).isSome) (hChild : (h child).isSome) :
      Step h (.removeChild parent child) (gfx3dNodeRemoveChild h parent child).2
  | destroy {node : Ptr} (hLive : (h node).isSome) {enough : Nat} {freed : List Ptr} {g : NodeHeap}
      (hDestroy : ∀ fuel, enough ≤ fuel → gfx3dNodeDestroy fuel h node = some (freed, g)) :
      Step h (.destroy node) g

/-- A node without a parent. -/
def IsRoot (h : NodeHeap) (node : Ptr) : Prop := ∀ p, ¬ParentOf h node p

/-- Where a call keeps the forest. -/
def KeepsForest (h : NodeHeap) : SceneOp → Prop
  | .create _ _ => True
  | .addChild parent child =>
    sceneMaxChildren ≤ (childrenOf h parent).length ∨ IsRoot h child ∧ ¬Below h parent child
  | .removeChild _ _ => True
  | .destroy node => IsRoot h node

/-- The nodes after some calls that `ok` allows. -/
inductive Run (ok : NodeHeap → SceneOp → Prop) : NodeHeap → Prop
  | start : Run ok fun _ => none
  | step {h g : NodeHeap} {op : SceneOp} (hRun : Run ok h) (hStep : Step h op g) (hOk : ok h op) :
      Run ok g

variable {h : NodeHeap} {height : Ptr → Nat}

theorem childrenOf_eq {p : Ptr} {n : LinkedNode} (hNode : h p = some n) :
    childrenOf h p = n.children := by
  rw [childrenOf, hNode]
  rfl

/-! ## The list of children -/

theorem swapRemove_perm {l : List Ptr} {i : Nat} (hIndex : i < l.length) :
    (swapRemove l i).Perm (l.eraseIdx i) := by
  rcases List.eq_nil_or_concat' l with rfl | ⟨front, z, rfl⟩
  · exact absurd hIndex (Nat.not_lt_zero _)
  rw [List.length_append, List.length_singleton] at hIndex
  have hLast : (front ++ [z]).getLastD 0 = z := by simp
  rw [swapRemove, hLast]
  rcases Nat.lt_succ_iff_lt_or_eq.mp hIndex with hFront | rfl
  · rw [List.set_append_left _ _ hFront, List.dropLast_concat, List.eraseIdx_append_of_lt_length hFront]
    exact (List.set_perm_cons_eraseIdx hFront z).trans (@List.perm_append_comm _ [z] _)
  · rw [List.set_append_right _ _ (Nat.le_refl _), List.eraseIdx_append_of_length_le (Nat.le_refl _)]
    simp

theorem swapRemove_idxOf {l : List Ptr} (hOnce : l.Nodup) {c : Ptr} (hMem : c ∈ l) :
    (swapRemove l (l.idxOf c)).Nodup ∧ (∀ d, d ∈ swapRemove l (l.idxOf c) ↔ d ∈ l ∧ d ≠ c) ∧
      (swapRemove l (l.idxOf c)).length ≤ l.length := by
  have hPerm := swapRemove_perm (List.idxOf_lt_length_iff.mpr hMem)
  rw [List.eraseIdx_idxOf_eq_erase] at hPerm
  refine ⟨hPerm.nodup_iff.mpr (hOnce.erase c), fun d => ?_, ?_⟩
  · rw [hPerm.mem_iff, hOnce.mem_erase_iff, and_comm]
  · rw [hPerm.length_eq]
    exact List.length_erase_le

/-! ## Changed links -/

/-- Another parent for one node and other children for another one. -/
def relink (h : NodeHeap) (p : Ptr) (children : List Ptr) (c : Ptr) (parent : Option Ptr) :
    NodeHeap :=
  setChildren (setParent h c parent) p children

theorem setParent_of_ne {c x : Ptr} (hNe : x ≠ c) (h : NodeHeap) (parent : Option Ptr) :
    setParent h c parent x = h x :=
  Function.update_of_ne hNe _ _

theorem childrenOf_setParent (h : NodeHeap) (c : Ptr) (parent : Option Ptr) (p : Ptr) :
    childrenOf (setParent h c parent) p = childrenOf h p := by
  by_cases hEq : p = c
  · subst hEq
    rw [childrenOf, setParent, Function.update_self, childrenOf]
    cases h p <;> rfl
  · rw [childrenOf, setParent_of_ne hEq, childrenOf]

section Relink

variable {p c : Ptr} {np nc : LinkedNode} (hNp : h p = some np) (hNc : h c = some nc) (hNe : p ≠ c)
  (children : List Ptr) (parent : Option Ptr)

include hNp hNc hNe

theorem relink_apply (x : Ptr) : relink h p children c parent x =
    if x = p then some { np with children }
    else if x = c then some { nc with parent } else h x := by
  split_ifs with hP hC
  · rw [relink, setChildren, hP, Function.update_self, setParent_of_ne hNe, hNp]
    rfl
  · rw [relink, setChildren, Function.update_of_ne hP, setParent, hC, Function.update_self, hNc]
    rfl
  · rw [relink, setChildren, Function.update_of_ne hP, setParent_of_ne hC]

theorem relink_parentOf (x y : Ptr) : ParentOf (relink h p children c parent) x y ↔
    if x = c then parent = some y else ParentOf h x y := by
  simp only [ParentOf, relink_apply hNp hNc hNe]
  by_cases hC : x = c
  · subst hC
    simp [hNe.symm]
  · by_cases hP : x = p
    · subst hP
      simp [hNe, hNp]
    · simp [hC, hP]

theorem relink_lists (y x : Ptr) : Lists (relink h p children c parent) y x ↔
    if y = p then x ∈ children else Lists h y x := by
  simp only [Lists, relink_apply hNp hNc hNe]
  by_cases hP : y = p
  · subst hP
    simp
  · by_cases hC : y = c
    · subst hC
      simp [hP, hNc]
    · simp [hC, hP]

theorem relink_children {y : Ptr} {n : LinkedNode}
    (hNode : relink h p children c parent y = some n) :
    n.children = children ∨ ∃ m, h y = some m ∧ n.children = m.children := by
  rw [relink_apply hNp hNc hNe] at hNode
  split_ifs at hNode with hP hC
  · exact Or.inl (Option.some.inj hNode ▸ rfl)
  · exact Or.inr ⟨nc, hC ▸ hNc, Option.some.inj hNode ▸ rfl⟩
  · exact Or.inr ⟨n, hNode, rfl⟩

end Relink

/-! ## The calls -/

namespace Ranked

variable (hRanked : Ranked h height)

include hRanked

theorem create {node : Ptr} (name : String) (hFree : h node = none) :
    Ranked (gfx3dNodeCreate h node name) height := by
  have hNew : ∀ x n, gfx3dNodeCreate h node name x = some n →
      h x = some n ∨ n.parent = none ∧ n.children = [] := by
    intro x n hNode
    by_cases hEq : x = node
    · subst hEq
      rw [gfx3dNodeCreate, Function.update_self] at hNode
      obtain rfl := Option.some.inj hNode
      exact Or.inr ⟨rfl, rfl⟩
    · exact Or.inl ((Function.update_of_ne hEq _ _).symm.trans hNode)
  have hOld : ∀ x n, h x = some n → gfx3dNodeCreate h node name x = some n := by
    intro x n hNode
    have hEq : x ≠ node := by
      rintro rfl
      simp [hFree] at hNode
    exact (Function.update_of_ne hEq _ _).trans hNode
  have hParent : ∀ c p, ParentOf (gfx3dNodeCreate h node name) c p ↔ ParentOf h c p := by
    intro c p
    constructor
    · rintro ⟨n, hNode, hEq⟩
      rcases hNew c n hNode with hNode' | ⟨hNone, -⟩
      · exact ⟨n, hNode', hEq⟩
      · simp [hNone] at hEq
    · exact fun ⟨n, hNode, hEq⟩ => ⟨n, hOld c n hNode, hEq⟩
  have hLists : ∀ p c, Lists (gfx3dNodeCreate h node name) p c ↔ Lists h p c := by
    intro p c
    constructor
    · rintro ⟨n, hNode, hMem⟩
      rcases hNew p n hNode with hNode' | ⟨-, hNil⟩
      · exact ⟨n, hNode', hMem⟩
      · simp [hNil] at hMem
    · exact fun ⟨n, hNode, hMem⟩ => ⟨n, hOld p n hNode, hMem⟩
  refine ⟨fun c p => ?_, fun {p n} hNode => ?_, fun {p n} hNode => ?_, fun {c p} hEdge => ?_⟩
  · rw [hParent, hLists, hRanked.links]
  · rcases hNew p n hNode with hNode' | ⟨-, hNil⟩
    · exact hRanked.once hNode'
    · exact hNil ▸ List.nodup_nil
  · rcases hNew p n hNode with hNode' | ⟨-, hNil⟩
    · exact hRanked.few hNode'
    · exact hNil ▸ Nat.zero_le _
  · exact hRanked.lower ((hParent c p).mp hEdge)

/-- The heights after a node has got a child: all above it rise. -/
noncomputable def raised (h : NodeHeap) (height : Ptr → Nat) (p c : Ptr) (x : Ptr) : Nat :=
  open Classical in if Below h p x then height x + height c + 1 else height x

theorem addChild {p c : Ptr} (hParent : (h p).isSome) (hChild : (h c).isSome)
    (hRoot : IsRoot h c) (hApart : ¬Below h p c)
    (hRoom : (childrenOf h p).length < sceneMaxChildren) :
    Ranked (gfx3dNodeAddChild h p c).2 (raised h height p c) := by
  obtain ⟨np, hNp⟩ := Option.isSome_iff_exists.mp hParent
  obtain ⟨nc, hNc⟩ := Option.isSome_iff_exists.mp hChild
  have hNe : p ≠ c := by
    rintro rfl
    exact hApart .refl
  have hAdded : (gfx3dNodeAddChild h p c).2 = relink h p (np.children ++ [c]) c (some p) := by
    rw [gfx3dNodeAddChild, if_neg (Nat.not_le.mpr hRoom)]
    simp only [childrenOf_setParent, childrenOf_eq hNp, relink]
  rw [childrenOf_eq hNp] at hRoom
  have hUnlisted : ∀ q, ¬Lists h q c := fun q hList => hRoot q ((hRanked.links c q).mpr hList)
  have hNew : c ∉ np.children := fun hMem => hUnlisted p ⟨np, hNp, hMem⟩
  have hListed : ∀ x, x ∈ np.children ↔ Lists h p x := by
    intro x
    simp [Lists, hNp]
  rw [hAdded]
  refine ⟨fun x q => ?_, fun {q n} hNode => ?_, fun {q n} hNode => ?_, fun {x q} hEdge => ?_⟩
  · rw [relink_parentOf hNp hNc hNe, relink_lists hNp hNc hNe]
    by_cases hC : x = c
    · subst hC
      by_cases hQ : q = p
      · simp [hQ]
      · simp [hQ, hUnlisted q, Ne.symm hQ]
    · by_cases hQ : q = p
      · simp [hC, hQ, hRanked.links, hListed]
      · simp [hC, hQ, hRanked.links]
  · rcases relink_children hNp hNc hNe _ _ hNode with hEq | ⟨m, hOld, hEq⟩
    · rw [hEq]
      refine List.nodup_append.mpr ⟨hRanked.once hNp, by simp, ?_⟩
      rintro x hx y hy rfl
      exact hNew (List.mem_singleton.mp hy ▸ hx)
    · exact hEq ▸ hRanked.once hOld
  · rcases relink_children hNp hNc hNe _ _ hNode with hEq | ⟨m, hOld, hEq⟩
    · rw [hEq, List.length_append, List.length_singleton]
      exact hRoom
    · exact hEq ▸ hRanked.few hOld
  · rw [relink_parentOf hNp hNc hNe] at hEdge
    split_ifs at hEdge with hC
    · obtain rfl := Option.some.inj hEdge
      rw [hC, raised, raised, if_neg hApart, if_pos .refl]
      omega
    · have hLower := hRanked.lower hEdge
      -- what is above `x` is above `p` if `x` is
      have hAbove : Below h p x → Below h p q := fun hBelow => hBelow.tail hEdge
      rw [raised, raised]
      split_ifs with hX hQ
      · omega
      · exact absurd (hAbove hX) hQ
      · omega
      · exact hLower

theorem removeChild {p c : Ptr} (hParent : (h p).isSome) :
    Ranked (gfx3dNodeRemoveChild h p c).2 height := by
  obtain ⟨np, hNp⟩ := Option.isSome_iff_exists.mp hParent
  by_cases hMem : c ∈ childrenOf h p
  · rw [childrenOf_eq hNp] at hMem
    obtain ⟨nc, hNc, hEq⟩ := hRanked.child hNp hMem
    have hNe : p ≠ c := by
      rintro rfl
      exact absurd (hRanked.lower ⟨nc, hNc, hEq⟩) (Nat.lt_irrefl _)
    have hRemoved : (gfx3dNodeRemoveChild h p c).2 =
        relink h p (swapRemove np.children (np.children.idxOf c)) c none := by
      rw [gfx3dNodeRemoveChild, if_pos (childrenOf_eq hNp ▸ hMem)]
      simp only [childrenOf_setParent, childrenOf_eq hNp, relink]
    obtain ⟨hOnce, hRest, hFew⟩ := swapRemove_idxOf (hRanked.once hNp) hMem
    have hOnly : ∀ q, Lists h q c → q = p := fun q hList =>
      parentOf_unique h ((hRanked.links c q).mpr hList) ⟨nc, hNc, hEq⟩
    have hListed : ∀ x, x ∈ np.children ↔ Lists h p x := by
      intro x
      simp [Lists, hNp]
    rw [hRemoved]
    refine ⟨fun x q => ?_, fun {q n} hNode => ?_, fun {q n} hNode => ?_, fun {x q} hEdge => ?_⟩
    · rw [relink_parentOf hNp hNc hNe, relink_lists hNp hNc hNe]
      by_cases hC : x = c
      · subst hC
        by_cases hQ : q = p
        · simp [hQ, hRest]
        · simpa [hQ] using fun hList => hQ (hOnly q hList)
      · by_cases hQ : q = p
        · simp [hC, hQ, hRest, hRanked.links, hListed]
        · simp [hC, hQ, hRanked.links]
    · rcases relink_children hNp hNc hNe _ _ hNode with hEq' | ⟨m, hOld, hEq'⟩
      · exact hEq' ▸ hOnce
      · exact hEq' ▸ hRanked.once hOld
    · rcases relink_children hNp hNc hNe _ _ hNode with hEq' | ⟨m, hOld, hEq'⟩
      · exact hEq' ▸ Nat.le_trans hFew (hRanked.few hNp)
      · exact hEq' ▸ hRanked.few hOld
    · rw [relink_parentOf hNp hNc hNe] at hEdge
      split_ifs at hEdge
      exact hRanked.lower hEdge
  · rw [gfx3dNodeRemoveChild, if_neg hMem]
    exact hRanked

theorem destroy {node : Ptr} (hLive : (h node).isSome) (hRoot : IsRoot h node) {enough : Nat}
    {freed : List Ptr} {g : NodeHeap}
    (hDestroy : ∀ fuel, enough ≤ fuel → gfx3dNodeDestroy fuel h node = some (freed, g)) :
    Ranked g height := by
  obtain ⟨result, hResult, hDestroyed⟩ :=
    gfx3dNodeDestroy_destroyed hRanked node hLive h fun _ _ => rfl
  have hSame := (hDestroy (max enough (height node + 1)) (Nat.le_max_left _ _)).symm.trans
    (hResult _ (Nat.lt_of_lt_of_le (Nat.lt_succ_self _) (Nat.le_max_right _ _)))
  obtain rfl := Option.some.inj hSame
  have hFreed : ∀ m, m ∈ freed ↔ Below h m node := fun m => by
    simpa using hDestroyed.freed m
  have hLeft : g = without h freed := hDestroyed.left
  have hAt : ∀ x n, g x = some n ↔ ¬Below h x node ∧ h x = some n := by
    intro x n
    rw [hLeft, without]
    by_cases hBelow : Below h x node <;> simp [hFreed, hBelow]
  have hParent : ∀ x y, ParentOf g x y ↔ ¬Below h x node ∧ ParentOf h x y := by
    intro x y
    simp only [ParentOf, hAt]
    constructor
    · rintro ⟨n, ⟨hOut, hNode⟩, hEq⟩
      exact ⟨hOut, n, hNode, hEq⟩
    · rintro ⟨hOut, n, hNode, hEq⟩
      exact ⟨n, ⟨hOut, hNode⟩, hEq⟩
  have hLists : ∀ y x, Lists g y x ↔ ¬Below h y node ∧ Lists h y x := by
    intro y x
    simp only [Lists, hAt]
    constructor
    · rintro ⟨n, ⟨hOut, hNode⟩, hMem⟩
      exact ⟨hOut, n, hNode, hMem⟩
    · rintro ⟨hOut, n, hNode, hMem⟩
      exact ⟨n, ⟨hOut, hNode⟩, hMem⟩
  -- a node is freed if its parent is, and the other way round, since the root has none
  have hBoth : ∀ x y, ParentOf h x y → (Below h x node ↔ Below h y node) := by
    intro x y hEdge
    refine ⟨fun hBelow => ?_, fun hBelow => .head hEdge hBelow⟩
    rcases Relation.ReflTransGen.cases_head hBelow with rfl | ⟨z, hEdge', hRest⟩
    · exact absurd hEdge (hRoot y)
    · obtain rfl := parentOf_unique h hEdge hEdge'
      exact hRest
  refine ⟨fun x y => ?_, fun {q n} hNode => ?_, fun {q n} hNode => ?_, fun {x q} hEdge => ?_⟩
  · rw [hParent, hLists, ← hRanked.links]
    exact and_congr_left fun hEdge => not_congr (hBoth x y hEdge)
  · exact hRanked.once ((hAt q n).mp hNode).2
  · exact hRanked.few ((hAt q n).mp hNode).2
  · exact hRanked.lower ((hParent x q).mp hEdge).2

theorem step {op : SceneOp} {g : NodeHeap} (hOk : KeepsForest h op) (hStep : Step h op g) :
    ∃ height', Ranked g height' := by
  cases hStep with
  | create name hFree => exact ⟨height, hRanked.create name hFree⟩
  | @addChild p c hParent hChild =>
    rcases hOk with hFull | ⟨hRoot, hApart⟩
    · rw [gfx3dNodeAddChild, if_pos hFull]
      exact ⟨height, hRanked⟩
    · by_cases hFull : sceneMaxChildren ≤ (childrenOf h p).length
      · rw [gfx3dNodeAddChild, if_pos hFull]
        exact ⟨height, hRanked⟩
      · exact ⟨_, hRanked.addChild hParent hChild hRoot hApart (Nat.not_le.mp hFull)⟩
  | removeChild hParent hChild => exact ⟨height, hRanked.removeChild hParent⟩
  | destroy hLive hDestroy => exact ⟨height, hRanked.destroy hLive hOk hDestroy⟩

end Ranked

/-! ## Runs -/

theorem run_ranked (hRun : Run KeepsForest h) : ∃ height, Ranked h height := by
  induction hRun with
  | start =>
    refine ⟨fun _ => 0, fun c p => ?_, fun hNode => ?_, fun hNode => ?_, fun hEdge => ?_⟩
    · exact ⟨fun ⟨n, hNode, _⟩ => by simp at hNode, fun ⟨n, hNode, _⟩ => by simp at hNode⟩
    · simp at hNode
    · simp at hNode
    · obtain ⟨n, hNode, -⟩ := hEdge
      simp at hNode
  | step _ hStep hOk ih =>
    obtain ⟨height, hRanked⟩ := ih
    exact hRanked.step hOk hStep

/-- What the links of a scene promise: they are those of a forest, each walk from a live node ends
and visits no node twice, and a destruction frees each node of the tree once and no other one. A
walk visits all of the tree but for what is below an invisible node, or comes after what it was to
find. -/
structure SceneSound (h : NodeHeap) : Prop where
  forest : IsForest h
  updates : ∀ node, (h node).isSome → ∃ enough seen,
    (∀ fuel, enough ≤ fuel → visitAll h fuel node = some (false, seen)) ∧
      seen.Nodup ∧ ∀ m, m ∈ seen ↔ Below h m node
  renders : ∀ node, (h node).isSome → ∃ enough seen,
    (∀ fuel, enough ≤ fuel → visitVisible h fuel node = some (false, seen)) ∧
      seen.Nodup ∧ (∀ m ∈ seen, Below h m node) ∧
      ((∀ m n, Below h m node → h m = some n → n.visible = true) → ∀ m, Below h m node → m ∈ seen)
  finds : ∀ node, (h node).isSome → ∀ name, ∃ enough found seen,
    (∀ fuel, enough ≤ fuel → visitToFind h name fuel node = some (found, seen)) ∧
      seen.Nodup ∧ (∀ m ∈ seen, Below h m node) ∧
      (found = false → ∀ m, Below h m node → m ∈ seen)
  destroys : ∀ node, (h node).isSome → ∃ enough freed,
    (∀ fuel, enough ≤ fuel → gfx3dNodeDestroy fuel h node = some (freed, without h freed)) ∧
      freed.Nodup ∧ ∀ m, m ∈ freed ↔ Below h m node

/-- In every run whose calls keep the forest the links are sound. -/
theorem run_sceneSound (hRun : Run KeepsForest h) : SceneSound h := by
  obtain ⟨height, hRanked⟩ := run_ranked hRun
  refine ⟨hRanked.isForest, fun node hLive => ?_, fun node hLive => ?_, fun node hLive name => ?_,
    fun node hLive => ?_⟩
  · obtain ⟨⟨stopped, seen⟩, hWalk, hWalked⟩ := visit_walked hRanked (fun _ => true)
      (fun _ => false) node hLive
    obtain rfl : stopped = false := hWalked.ends fun _ => rfl
    refine ⟨height node + 1, seen, hWalk, hWalked.once, fun m => ⟨fun hMem => ?_, fun hBelow => ?_⟩⟩
    · simpa using hWalked.below m hMem
    · exact hWalked.all (fun _ _ _ _ _ _ => rfl) rfl node (.head _) m hBelow
  · obtain ⟨⟨stopped, seen⟩, hWalk, hWalked⟩ := visit_walked hRanked (·.visible)
      (fun _ => false) node hLive
    obtain rfl : stopped = false := hWalked.ends fun _ => rfl
    refine ⟨height node + 1, seen, hWalk, hWalked.once, fun m hMem => ?_, fun hVisible m hBelow => ?_⟩
    · simpa using hWalked.below m hMem
    · refine hWalked.all (fun c hc => ?_) rfl node (.head _) m hBelow
      exact List.mem_singleton.mp hc ▸ hVisible
  · obtain ⟨⟨found, seen⟩, hWalk, hWalked⟩ := visit_walked hRanked (fun _ => true)
      (fun n => n.name == name) node hLive
    refine ⟨height node + 1, found, seen, hWalk, hWalked.once, fun m hMem => ?_,
      fun hFound m hBelow => ?_⟩
    · simpa using hWalked.below m hMem
    · exact hWalked.all (fun _ _ _ _ _ _ => rfl) hFound node (.head _) m hBelow
  · obtain ⟨⟨freed, g⟩, hDestroy, hDestroyed⟩ :=
      gfx3dNodeDestroy_destroyed hRanked node hLive h fun _ _ => rfl
    have hLeft : g = without h freed := hDestroyed.left
    refine ⟨height node + 1, freed, fun fuel hFuel => hLeft ▸ hDestroy fuel hFuel,
      hDestroyed.once, fun m => ?_⟩
    simpa using hDestroyed.freed m

/-- Two nodes. -/
def twoNodes : NodeHeap := gfx3dNodeCreate (gfx3dNodeCreate (fun _ => none) 0 "a") 1 "b"

theorem run_sceneSound_child : SceneSound (gfx3dNodeAddChild twoNodes 0 1).2 := by
  have hNoParent : ∀ c p, ¬ParentOf twoNodes c p := by
    rintro c p ⟨n, hNode, hParent⟩
    simp only [twoNodes, gfx3dNodeCreate, Function.update_apply] at hNode
    split_ifs at hNode <;> simp_all
    all_goals simp [← hNode] at hParent
  have hFirst : Run KeepsForest (gfx3dNodeCreate (fun _ => none) 0 "a") :=
    .step .start (.create "a" rfl) trivial
  have hBoth : Run KeepsForest twoNodes := .step hFirst (.create "b" rfl) trivial
  have hApart : ¬Below twoNodes 0 1 := by
    intro hBelow
    rcases Relation.ReflTransGen.cases_head hBelow with hEq | ⟨p, hEdge, -⟩
    · exact absurd hEq (by decide)
    · exact hNoParent 0 p hEdge
  exact run_sceneSound (.step hBoth (.addChild rfl rfl) (Or.inr ⟨hNoParent 1, hApart⟩))

/-- A node that gets a second parent is still among the children of the first one. -/
theorem run_second_parent : ¬∀ h, Run (fun _ _ => True) h → SceneSound h := by
  intro hAll
  have hRun : Run (fun _ _ => True) (gfx3dNodeAddChild (gfx3dNodeAddChild
      (gfx3dNodeCreate twoNodes 2 "c") 0 2).2 1 2).2 :=
    .step (.step (.step (.step (.step .start (.create "a" rfl) trivial) (.create "b" rfl) trivial)
      (.create "c" rfl) trivial) (.addChild rfl rfl) trivial) (.addChild rfl rfl) trivial
  have hParent := ((hAll _ hRun).forest.parent 2 _ 0 rfl).mpr ⟨_, rfl, by decide⟩
  exact absurd hParent (by decide)

end Calynda.Gfx3d
