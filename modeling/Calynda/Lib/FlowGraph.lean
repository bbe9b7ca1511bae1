import Mathlib.Logic.Relation

/-!
# Flow graphs and dominance

A flow graph is a step relation with an entry. A vertex dominates another when it lies on
every path from the entry to it. The facts here are those that iterations over a reverse
postorder rest on: dominance passes through predecessors, and an order in which every vertex
has an earlier predecessor puts dominators first.
-/

structure FlowGraph (V : Type*) where
  Edge : V → V → Prop
  entry : V

namespace FlowGraph

variable {V : Type*} (g : FlowGraph V)

/-- A path from the entry, with the vertices it visits, the last one first. -/
inductive Path : V → List V → Prop where
  | entry : Path g.entry [g.entry]
  | step {p b : V} {vs : List V} : Path p vs → g.Edge p b → Path b (b :: vs)

def Reachable (b : V) : Prop := ∃ vs, g.Path b vs

/-- Every path from the entry to `b` visits `a`. -/
def Dominates (a b : V) : Prop := ∀ vs, g.Path b vs → a ∈ vs

def StrictlyDominates (a b : V) : Prop := g.Dominates a b ∧ a ≠ b

/-- `d` strictly dominates `b`, and every strict dominator of `b` dominates `d`. -/
structure IsImmediateDominator (d b : V) : Prop where
  strict : g.StrictlyDominates d b
  closest : ∀ a, g.StrictlyDominates a b → g.Dominates a d

variable {g} {a b c p : V}

theorem Path.mem_last {vs : List V} (h : g.Path b vs) : b ∈ vs := by
  cases h with
  | entry => exact List.mem_singleton_self _
  | step _ _ => exact List.mem_cons_self

theorem Path.entry_mem {vs : List V} (h : g.Path b vs) : g.entry ∈ vs := by
  induction h with
  | entry => exact List.mem_singleton_self _
  | step _ _ ih => exact List.mem_cons_of_mem _ ih

/-- A path can be stopped at any vertex it visits. -/
theorem Path.stop {vs : List V} (h : g.Path b vs) (hMem : a ∈ vs) :
    ∃ ws, g.Path a ws ∧ ws ⊆ vs := by
  induction h with
  | entry =>
    obtain rfl := List.mem_singleton.1 hMem
    exact ⟨_, Path.entry, List.Subset.refl _⟩
  | @step p b vs hPath hEdge ih =>
    rcases List.mem_cons.1 hMem with rfl | hMem
    · exact ⟨_, hPath.step hEdge, List.Subset.refl _⟩
    · obtain ⟨ws, hStop, hSub⟩ := ih hMem
      exact ⟨ws, hStop, List.subset_cons_of_subset _ hSub⟩

theorem reachable_entry : g.Reachable g.entry := ⟨_, Path.entry⟩

theorem Reachable.step (h : g.Reachable p) (hEdge : g.Edge p b) : g.Reachable b := by
  obtain ⟨vs, hPath⟩ := h
  exact ⟨b :: vs, hPath.step hEdge⟩

/-- A set that holds the entry and is closed under edges holds all that is reachable. -/
theorem Reachable.closed {S : V → Prop} (hEntry : S g.entry)
    (hStep : ∀ p b, S p → g.Edge p b → S b) (h : g.Reachable b) : S b := by
  obtain ⟨vs, hPath⟩ := h
  induction hPath with
  | entry => exact hEntry
  | step _ hEdge ih => exact hStep _ _ ih hEdge

theorem Dominates.refl (g : FlowGraph V) (b : V) : g.Dominates b b :=
  fun _ hPath => hPath.mem_last

theorem entry_dominates (b : V) : g.Dominates g.entry b :=
  fun _ hPath => hPath.entry_mem

theorem Dominates.trans (hab : g.Dominates a b) (hbc : g.Dominates b c) : g.Dominates a c := by
  intro vs hPath
  obtain ⟨ws, hStop, hSub⟩ := hPath.stop (hbc vs hPath)
  exact hSub (hab ws hStop)

theorem Dominates.eq_entry (h : g.Dominates a g.entry) : a = g.entry :=
  List.mem_singleton.1 (h _ Path.entry)

/-- A dominator other than the vertex itself dominates every predecessor. -/
theorem StrictlyDominates.of_edge (h : g.StrictlyDominates a b) (hEdge : g.Edge p b) :
    g.Dominates a p := by
  intro vs hPath
  exact (List.mem_cons.1 (h.1 _ (hPath.step hEdge))).resolve_left h.2

theorem StrictlyDominates.ne_entry (h : g.StrictlyDominates a b) : b ≠ g.entry := by
  rintro rfl
  exact h.2 h.1.eq_entry

/-! ## Orders that follow the edges -/

/-- An order of the reachable vertices in which each but the entry has an earlier
predecessor, as a reverse postorder is. -/
structure Numbering (g : FlowGraph V) (pos : V → Nat) : Prop where
  injective : ∀ a b, g.Reachable a → g.Reachable b → pos a = pos b → a = b
  earlier : ∀ b, g.Reachable b → b ≠ g.entry → ∃ p, g.Reachable p ∧ g.Edge p b ∧ pos p < pos b

variable {pos : V → Nat}

/-- Along the earlier predecessors there is a path that never goes back in the order. -/
theorem Numbering.exists_path (hPos : g.Numbering pos) :
    ∀ (n : Nat) (b : V), pos b = n → g.Reachable b → ∃ vs, g.Path b vs ∧ ∀ v ∈ vs, pos v ≤ pos b := by
  intro n
  induction n using Nat.strongRecOn with
  | ind n ih =>
    intro b hb hReach
    by_cases hEntry : b = g.entry
    · subst hEntry
      refine ⟨_, Path.entry, fun v hv => ?_⟩
      exact Nat.le_of_eq (congrArg pos (List.mem_singleton.1 hv))
    · obtain ⟨p, hpReach, hEdge, hLt⟩ := hPos.earlier b hReach hEntry
      obtain ⟨vs, hPath, hLe⟩ := ih (pos p) (hb ▸ hLt) p rfl hpReach
      refine ⟨_, hPath.step hEdge, fun v hv => ?_⟩
      rcases List.mem_cons.1 hv with rfl | hv
      · exact Nat.le_refl _
      · exact Nat.le_trans (hLe v hv) (Nat.le_of_lt hLt)

theorem Numbering.pos_le (hPos : g.Numbering pos) (hReach : g.Reachable b)
    (h : g.Dominates a b) : pos a ≤ pos b := by
  obtain ⟨vs, hPath, hLe⟩ := hPos.exists_path _ b rfl hReach
  exact hLe a (h vs hPath)

theorem Numbering.entry_le (hPos : g.Numbering pos) (hReach : g.Reachable b) :
    pos g.entry ≤ pos b :=
  hPos.pos_le hReach (entry_dominates b)

theorem Numbering.entry_lt (hPos : g.Numbering pos) (hReach : g.Reachable b)
    (hNe : b ≠ g.entry) : pos g.entry < pos b := by
  refine Nat.lt_of_le_of_ne (hPos.entry_le hReach) fun hEq => ?_
  exact hNe (hPos.injective _ _ hReach reachable_entry hEq.symm)

/-! ## More edges -/

/-- `g'` is `g` with further edges. -/
structure Extends (g g' : FlowGraph V) : Prop where
  entry : g'.entry = g.entry
  edge : ∀ p b, g.Edge p b → g'.Edge p b

variable {g' : FlowGraph V}

theorem Extends.path (h : Extends g g') {vs : List V} (hPath : g.Path b vs) : g'.Path b vs := by
  induction hPath with
  | entry => exact h.entry ▸ Path.entry
  | step _ hEdge ih => exact ih.step (h.edge _ _ hEdge)

theorem Extends.reachable (h : Extends g g') (hReach : g.Reachable b) : g'.Reachable b := by
  obtain ⟨vs, hPath⟩ := hReach
  exact ⟨vs, h.path hPath⟩

/-- More edges give more paths to avoid a vertex. -/
theorem Extends.dominates (h : Extends g g') (hDom : g'.Dominates a b) : g.Dominates a b :=
  fun vs hPath => hDom vs (h.path hPath)

/-- The further edges from reachable vertices go to reachable vertices, and not past the
immediate dominator of one. -/
structure ExtendsBelow (g g' : FlowGraph V) : Prop extends Extends g g' where
  reached : ∀ p b, g.Reachable p → g'.Edge p b → g.Reachable b
  below : ∀ p b, g.Reachable p → g'.Edge p b →
    g.Edge p b ∨ b = g.entry ∨ ∃ d, g.IsImmediateDominator d b ∧ g.Dominates d p

theorem ExtendsBelow.reachable_iff (h : ExtendsBelow g g') : g'.Reachable b ↔ g.Reachable b := by
  refine ⟨Reachable.closed ?_ h.reached, h.toExtends.reachable⟩
  exact h.entry ▸ reachable_entry

/-- Such edges change nothing about dominance. -/
theorem ExtendsBelow.dominates_iff (h : ExtendsBelow g g') :
    g'.Dominates a b ↔ g.Dominates a b := by
  refine ⟨h.toExtends.dominates, fun hDom vs hPath => ?_⟩
  induction hPath with
  | entry =>
    rw [h.entry] at hDom ⊢
    exact hDom.eq_entry ▸ List.mem_singleton_self _
  | @step p b vs hPath hEdge ih =>
    have hp : g.Reachable p := h.reachable_iff.1 ⟨vs, hPath⟩
    by_cases hEq : a = b
    · exact hEq ▸ List.mem_cons_self
    · have hStrict : g.StrictlyDominates a b := ⟨hDom, hEq⟩
      refine List.mem_cons_of_mem _ (ih ?_)
      rcases h.below p b hp hEdge with hOld | rfl | ⟨d, hImm, hd⟩
      · exact hStrict.of_edge hOld
      · exact absurd hDom.eq_entry hEq
      · exact (hImm.closest a hStrict).trans hd

theorem ExtendsBelow.isImmediateDominator (h : ExtendsBelow g g') {d : V}
    (hImm : g.IsImmediateDominator d b) : g'.IsImmediateDominator d b where
  strict := ⟨h.dominates_iff.2 hImm.strict.1, hImm.strict.2⟩
  closest a ha := h.dominates_iff.2 (hImm.closest a ⟨h.dominates_iff.1 ha.1, ha.2⟩)

/-- A dominator of a reachable vertex is reachable. -/
theorem Reachable.of_dominates (hReach : g.Reachable b) (hDom : g.Dominates a b) :
    g.Reachable a := by
  obtain ⟨vs, hPath⟩ := hReach
  obtain ⟨ws, hStop, -⟩ := hPath.stop (hDom vs hPath)
  exact ⟨ws, hStop⟩

end FlowGraph
