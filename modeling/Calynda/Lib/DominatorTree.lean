import Calynda.Lib.FlowGraph
import Mathlib.Logic.Function.Basic

/-!
# Partial dominator trees

The iteration that finds immediate dominators keeps a partial map of parents and recomputes
one vertex after the other, in an order of the vertices, from the common ancestors of its
predecessors. `Relaxed` is what holds while it works on the vertex of one position, and
`Relaxed.relax` is one such step; when no step changes the map any more it holds the immediate
dominators (`Relaxed.immediateDominator`).
-/

namespace FlowGraph

variable {V : Type*} {g : FlowGraph V} {pos : V → Nat} {parent : V → Option V}
variable {a b d p x y z : V}

/-- `a` is `x` or is reached from `x` by following parents. -/
def Ancestor (parent : V → Option V) (x a : V) : Prop :=
  Relation.ReflTransGen (fun x y => parent x = some y) x a

theorem Ancestor.refl (x : V) : Ancestor parent x x := Relation.ReflTransGen.refl

theorem Ancestor.trans (h : Ancestor parent x y) (h' : Ancestor parent y z) :
    Ancestor parent x z := Relation.ReflTransGen.trans h h'

theorem Ancestor.head (h : parent x = some y) (h' : Ancestor parent y z) :
    Ancestor parent x z := Relation.ReflTransGen.head h h'

/-- The ancestors of a vertex are the vertex and those of its parent. -/
theorem ancestor_iff (h : parent x = some d) : Ancestor parent x a ↔ a = x ∨ Ancestor parent d a := by
  constructor
  · intro hAnc
    rcases Relation.ReflTransGen.cases_head hAnc with rfl | ⟨y, hy, hRest⟩
    · exact .inl rfl
    · obtain rfl := Option.some.inj (h.symm.trans hy)
      exact .inr hRest
  · rintro (rfl | hAnc)
    · exact .refl _
    · exact .head h hAnc

/-- A map of parents that never misses a dominator: each parent stands earlier and is
dominated by all strict dominators of its child. -/
structure PartialTree (g : FlowGraph V) (pos : V → Nat) (parent : V → Option V) : Prop where
  root : parent g.entry = some g.entry
  reachable : ∀ b d, parent b = some d → g.Reachable b
  processed : ∀ b d, parent b = some d → ∃ d', parent d = some d'
  earlier : ∀ b d, parent b = some d → b ≠ g.entry → pos d < pos b
  closest : ∀ b d, parent b = some d → b ≠ g.entry → ∀ a, g.StrictlyDominates a b → g.Dominates a d

namespace PartialTree

theorem pos_le (hTree : PartialTree g pos parent) (h : Ancestor parent x a) : pos a ≤ pos x := by
  induction h with
  | refl => exact Nat.le_refl _
  | @tail y z _ hEdge ih =>
    by_cases hEntry : y = g.entry
    · subst hEntry
      obtain rfl := Option.some.inj (hTree.root.symm.trans hEdge)
      exact ih
    · exact Nat.le_trans (Nat.le_of_lt (hTree.earlier _ _ hEdge hEntry)) ih

theorem processed_ancestor (hTree : PartialTree g pos parent) (hx : ∃ d, parent x = some d)
    (h : Ancestor parent x a) : ∃ d, parent a = some d := by
  induction h with
  | refl => exact hx
  | tail _ hEdge _ => exact hTree.processed _ _ hEdge

theorem reachable_ancestor (hTree : PartialTree g pos parent) (hx : ∃ d, parent x = some d)
    (h : Ancestor parent x a) : g.Reachable a := by
  obtain ⟨d, hd⟩ := hTree.processed_ancestor hx h
  exact hTree.reachable _ _ hd

theorem ancestor_entry (hTree : PartialTree g pos parent) (h : Ancestor parent g.entry a) :
    a = g.entry := by
  induction h with
  | refl => rfl
  | tail _ hEdge ih =>
    subst ih
    exact (Option.some.inj (hTree.root.symm.trans hEdge)).symm

/-- The tree misses no dominator. -/
theorem ancestor_of_dominates (hTree : PartialTree g pos parent) :
    ∀ (n : Nat) (x d : V), pos x = n → parent x = some d → g.Dominates a x →
      Ancestor parent x a := by
  intro n
  induction n using Nat.strongRecOn with
  | ind n ih =>
    intro x d hn hx hDom
    by_cases hEq : a = x
    · exact hEq ▸ .refl _
    · have hStrict : g.StrictlyDominates a x := ⟨hDom, hEq⟩
      have hEntry := hStrict.ne_entry
      obtain ⟨d', hd'⟩ := hTree.processed _ _ hx
      exact .head hx (ih (pos d) (hn ▸ hTree.earlier _ _ hx hEntry) d d' rfl hd'
        (hTree.closest _ _ hx hEntry a hStrict))

/-- A dominator that is not passed while climbing dominates what is reached. -/
theorem dominates_ancestor (hTree : PartialTree g pos parent) (h : Ancestor parent x z)
    (hDom : g.Dominates a x) (hLe : pos a ≤ pos z) : g.Dominates a z := by
  induction h with
  | refl => exact hDom
  | @tail y z hPrev hEdge ih =>
    by_cases hEntry : y = g.entry
    · subst hEntry
      obtain rfl := Option.some.inj (hTree.root.symm.trans hEdge)
      exact ih hLe
    · have hLt := hTree.earlier _ _ hEdge hEntry
      have hy := ih (Nat.le_trans hLe (Nat.le_of_lt hLt))
      refine hTree.closest _ _ hEdge hEntry a ⟨hy, fun hEq => ?_⟩
      subst hEq
      exact absurd hLe (Nat.not_le_of_lt hLt)

/-- Of two ancestors the later one is below the earlier one. -/
theorem ancestor_of_pos_le (hTree : PartialTree g pos parent) (hy : Ancestor parent x y)
    (hz : Ancestor parent x z) (hLe : pos z ≤ pos y) : Ancestor parent y z := by
  induction hy with
  | refl => exact hz
  | @tail y w hPrev hEdge ih =>
    by_cases hEntry : y = g.entry
    · subst hEntry
      obtain rfl := Option.some.inj (hTree.root.symm.trans hEdge)
      exact ih hLe
    · have hLt := hTree.earlier _ _ hEdge hEntry
      rcases (ancestor_iff hEdge).1 (ih (Nat.le_trans hLe (Nat.le_of_lt hLt))) with rfl | hAnc
      · exact absurd hLe (Nat.not_le_of_lt hLt)
      · exact hAnc

end PartialTree

/-! ## One step of the iteration -/

/-- `z` is the nearest common ancestor of the vertices in `ps`. -/
def IsMeet (parent : V → Option V) (ps : V → Prop) (z : V) : Prop :=
  ∀ a, Ancestor parent z a ↔ ∀ p, ps p → Ancestor parent p a

/-- The predecessors of `b` that have a parent. -/
def ProcessedPred (g : FlowGraph V) (parent : V → Option V) (b p : V) : Prop :=
  g.Edge p b ∧ ∃ d, parent p = some d

/-- What holds of the map of parents before the vertex at position `i` is recomputed. The last
two fields make each change a move towards the root: common ancestors of the predecessors are
ancestors of the parent, and from position `i` on, or before it, the ancestors of a parent are
ancestors of the earlier predecessors. -/
structure Relaxed (g : FlowGraph V) (pos : V → Nat) (i : Nat) (parent : V → Option V) : Prop
    extends PartialTree g pos parent where
  before : ∀ v, g.Reachable v → pos v < i → ∃ d, parent v = some d
  downward : ∀ x d v, parent x = some d → g.Reachable v → pos v < pos x → ∃ d', parent v = some d'
  common : ∀ x d y, parent x = some d → x ≠ g.entry →
    (∀ p, ProcessedPred g parent x p → Ancestor parent p y) → Ancestor parent d y
  settled : ∀ x d p z, parent x = some d → x ≠ g.entry → ProcessedPred g parent x p →
    pos p < pos x → Ancestor parent d z → pos x < i ∨ i ≤ pos z → Ancestor parent p z

/-- The map after the vertex `b` got the parent `z`. -/
def setParent [DecidableEq V] (parent : V → Option V) (b z : V) : V → Option V :=
  Function.update parent b (some z)

section Step

variable [DecidableEq V]

theorem setParent_self : setParent parent b z b = some z := Function.update_self ..

theorem setParent_of_ne (h : x ≠ b) : setParent parent b z x = parent x :=
  Function.update_of_ne h ..

theorem setParent_processed (hx : ∃ d, parent x = some d) :
    ∃ d, setParent parent b z x = some d := by
  by_cases hEq : x = b
  · exact ⟨z, hEq ▸ setParent_self⟩
  · rw [setParent_of_ne hEq]
    exact hx

theorem processed_of_setParent (hx : ∃ d, setParent parent b z x = some d) (hNe : x ≠ b) :
    ∃ d, parent x = some d := by
  rwa [setParent_of_ne hNe] at hx

/-- Where `b` is no ancestor, the ancestors stay. -/
theorem ancestor_setParent_of_not (h : ¬ Ancestor parent x b) :
    Ancestor (setParent parent b z) x a ↔ Ancestor parent x a := by
  constructor
  · intro hAnc
    induction hAnc with
    | refl => exact .refl _
    | @tail y w _ hEdge ih =>
      have hNe : y ≠ b := fun hEq => h (hEq ▸ ih)
      rw [setParent_of_ne hNe] at hEdge
      exact ih.tail hEdge
  · intro hAnc
    induction hAnc with
    | refl => exact .refl _
    | @tail y w hPrev hEdge ih =>
      have hNe : y ≠ b := fun hEq => h (hEq ▸ hPrev)
      exact Relation.ReflTransGen.tail ih ((setParent_of_ne hNe).trans hEdge)

/-! ### Ancestors after a step -/

variable (hTree : PartialTree g pos parent) (hEntry : b ≠ g.entry)

include hTree hEntry

/-- What stands at `b` or below it is kept. -/
theorem ancestor_setParent_of_le (h : Ancestor parent x a) (hLe : pos b ≤ pos a) :
    Ancestor (setParent parent b z) x a := by
  induction h with
  | refl => exact .refl _
  | @tail y w hPrev hEdge ih =>
    have hStep : pos w ≤ pos y := hTree.pos_le (Relation.ReflTransGen.single hEdge)
    have hNe : y ≠ b := by
      intro hEq
      subst hEq
      exact absurd hLe (Nat.not_le_of_lt (hTree.earlier _ _ hEdge hEntry))
    exact Relation.ReflTransGen.tail (ih (Nat.le_trans hLe hStep))
      ((setParent_of_ne hNe).trans hEdge)

end Step

/-! ### The step keeps the invariant -/

namespace Relaxed

/-- A new parent is an ancestor of the old one. -/
theorem ancestor_meet {i : Nat} (hRel : Relaxed g pos i parent) (hEntry : b ≠ g.entry)
    (hMeet : IsMeet parent (ProcessedPred g parent b) z) (hb : parent b = some d) :
    Ancestor parent d z :=
  hRel.common _ _ _ hb hEntry ((hMeet z).1 (.refl _))

/-- The end of one pass is the start of the next one. -/
theorem restart {n : Nat} (hRel : Relaxed g pos n parent) (hAll : ∀ v, g.Reachable v → pos v < n) :
    Relaxed g pos 0 parent where
  toPartialTree := hRel.toPartialTree
  before _ _ hLt := absurd hLt (Nat.not_lt_zero _)
  downward := hRel.downward
  common := hRel.common
  settled x d p z hx hNe hp hLt hz _ :=
    hRel.settled x d p z hx hNe hp hLt hz (.inl (hAll x (hRel.reachable _ _ hx)))

section

variable (hRel : Relaxed g pos (pos b) parent) (hPos : g.Numbering pos) (hReach : g.Reachable b)
  (hEntry : b ≠ g.entry) (hMeet : IsMeet parent (ProcessedPred g parent b) z)

include hRel hPos hReach hEntry

/-- Some predecessor before `b` has its parent already. -/
theorem exists_earlier : ∃ p, ProcessedPred g parent b p ∧ pos p < pos b := by
  obtain ⟨p, hpReach, hEdge, hLt⟩ := hPos.earlier b hReach hEntry
  exact ⟨p, ⟨hEdge, hRel.before p hpReach hLt⟩, hLt⟩

include hMeet

theorem meet_lt : pos z < pos b := by
  obtain ⟨p, hp, hLt⟩ := hRel.exists_earlier hPos hReach hEntry
  exact Nat.lt_of_le_of_lt (hRel.pos_le ((hMeet z).1 (.refl _) p hp)) hLt

theorem not_ancestor_meet : ¬ Ancestor parent z b := fun h =>
  Nat.not_lt_of_le (hRel.pos_le h) (hRel.meet_lt hPos hReach hEntry hMeet)

theorem meet_processed : ∃ d, parent z = some d := by
  obtain ⟨p, hp, -⟩ := hRel.exists_earlier hPos hReach hEntry
  exact hRel.processed_ancestor hp.2 ((hMeet z).1 (.refl _) p hp)

variable [DecidableEq V]

theorem ancestor_self : Ancestor (setParent parent b z) b a ↔ a = b ∨ Ancestor parent z a := by
  rw [ancestor_iff setParent_self,
    ancestor_setParent_of_not (hRel.not_ancestor_meet hPos hReach hEntry hMeet)]

omit hPos hReach in
/-- No vertex gains an ancestor. -/
theorem ancestor_of_setParent (hx : ∃ d, parent x = some d)
    (h : Ancestor (setParent parent b z) x a) : Ancestor parent x a := by
  by_cases hb : Ancestor parent x b
  · obtain ⟨d, hd⟩ := hRel.processed_ancestor hx hb
    clear hb
    induction h with
    | refl => exact .refl _
    | @tail y w _ hEdge ih =>
      by_cases hEq : y = b
      · subst hEq
        obtain rfl := Option.some.inj (setParent_self.symm.trans hEdge)
        exact ih.trans (.head hd (hRel.ancestor_meet hEntry hMeet hd))
      · rw [setParent_of_ne hEq] at hEdge
        exact ih.tail hEdge
  · exact (ancestor_setParent_of_not hb).1 h

/-- A vertex below `b` has the new ancestors of `b`. -/
theorem ancestor_below (hb : Ancestor parent x b) (ha : Ancestor parent z a) :
    Ancestor (setParent parent b z) x a :=
  (ancestor_setParent_of_le hRel.toPartialTree hEntry hb (Nat.le_refl _)).trans
    ((hRel.ancestor_self hPos hReach hEntry hMeet).2 (.inr ha))

theorem partialTree_setParent : PartialTree g pos (setParent parent b z) where
  root := by
    rw [setParent_of_ne (Ne.symm hEntry)]
    exact hRel.root
  reachable x d hx := by
    by_cases hEq : x = b
    · exact hEq ▸ hReach
    · rw [setParent_of_ne hEq] at hx
      exact hRel.reachable _ _ hx
  processed x d hx := by
    by_cases hEq : x = b
    · subst hEq
      obtain rfl := Option.some.inj (setParent_self.symm.trans hx)
      exact setParent_processed (hRel.meet_processed hPos hReach hEntry hMeet)
    · rw [setParent_of_ne hEq] at hx
      exact setParent_processed (hRel.processed _ _ hx)
  earlier x d hx hNe := by
    by_cases hEq : x = b
    · subst hEq
      obtain rfl := Option.some.inj (setParent_self.symm.trans hx)
      exact hRel.meet_lt hPos hReach hEntry hMeet
    · rw [setParent_of_ne hEq] at hx
      exact hRel.earlier _ _ hx hNe
  closest x d hx hNe a ha := by
    by_cases hEq : x = b
    · subst hEq
      obtain rfl := Option.some.inj (setParent_self.symm.trans hx)
      -- `a` dominates all predecessors, so it is a common ancestor of them
      have hCommon : ∀ p, ProcessedPred g parent x p → Ancestor parent p a := by
        intro p hp
        obtain ⟨d, hd⟩ := hp.2
        exact hRel.ancestor_of_dominates _ p d rfl hd (ha.of_edge hp.1)
      obtain ⟨p, hp, -⟩ := hRel.exists_earlier hPos hReach hEntry
      exact hRel.dominates_ancestor ((hMeet z).1 (.refl _) p hp) (ha.of_edge hp.1)
        (hRel.pos_le ((hMeet a).2 hCommon))
    · rw [setParent_of_ne hEq] at hx
      exact hRel.closest _ _ hx hNe a ha

theorem common_setParent (hx : setParent parent b z x = some d) (hNe : x ≠ g.entry)
    (h : ∀ p, ProcessedPred g (setParent parent b z) x p → Ancestor (setParent parent b z) p y) :
    Ancestor (setParent parent b z) d y := by
  have hOld : ∀ p, ProcessedPred g parent x p → Ancestor parent p y := fun p hp =>
    hRel.ancestor_of_setParent hEntry hMeet hp.2 (h p ⟨hp.1, setParent_processed hp.2⟩)
  by_cases hEq : x = b
  · subst hEq
    obtain rfl := Option.some.inj (setParent_self.symm.trans hx)
    exact (ancestor_setParent_of_not (hRel.not_ancestor_meet hPos hReach hEntry hMeet)).2
      ((hMeet y).2 hOld)
  · rw [setParent_of_ne hEq] at hx
    have hd := hRel.common _ _ _ hx hNe hOld
    by_cases hBelow : Ancestor parent d b
    · by_cases hLe : pos b ≤ pos y
      · exact ancestor_setParent_of_le hRel.toPartialTree hEntry hd hLe
      · -- an earlier predecessor of `x` stands below `b` as well, and keeps `y` above `b`
        have hxReach := hRel.reachable _ _ hx
        obtain ⟨p, hpReach, hEdge, hLt⟩ := hPos.earlier x hxReach hNe
        have hp : ProcessedPred g parent x p := ⟨hEdge, hRel.downward _ _ p hx hpReach hLt⟩
        have hpb := hRel.settled _ _ p b hx hNe hp hLt hBelow (.inr (Nat.le_refl _))
        have hby : Ancestor (setParent parent b z) b y :=
          (hRel.partialTree_setParent hPos hReach hEntry hMeet).ancestor_of_pos_le
            (ancestor_setParent_of_le hRel.toPartialTree hEntry hpb (Nat.le_refl _))
            (h p ⟨hEdge, setParent_processed hp.2⟩) (Nat.le_of_not_le hLe)
        rcases (hRel.ancestor_self hPos hReach hEntry hMeet).1 hby with rfl | hzy
        · exact absurd (Nat.le_refl _) hLe
        · exact hRel.ancestor_below hPos hReach hEntry hMeet hBelow hzy
    · exact (ancestor_setParent_of_not hBelow).2 hd

theorem settled_setParent (hx : setParent parent b z x = some d) (hNe : x ≠ g.entry)
    (hp : ProcessedPred g (setParent parent b z) x p) (hLt : pos p < pos x)
    (hy : Ancestor (setParent parent b z) d y) (hAt : pos x < pos b + 1 ∨ pos b + 1 ≤ pos y) :
    Ancestor (setParent parent b z) p y := by
  by_cases hEq : x = b
  · subst hEq
    obtain rfl := Option.some.inj (setParent_self.symm.trans hx)
    have hpb : p ≠ x := fun hEq => by
      subst hEq
      exact Nat.lt_irrefl _ hLt
    have hpOld : ProcessedPred g parent x p := ⟨hp.1, processed_of_setParent hp.2 hpb⟩
    have hzy := (ancestor_setParent_of_not
      (hRel.not_ancestor_meet hPos hReach hEntry hMeet)).1 hy
    exact (ancestor_setParent_of_not fun h => Nat.not_lt_of_le (hRel.pos_le h) hLt).2
      ((hMeet y).1 hzy p hpOld)
  · rw [setParent_of_ne hEq] at hx
    have hxReach := hRel.reachable _ _ hx
    have hpOld : ∃ d, parent p = some d := by
      by_cases hpb : p = b
      · subst hpb
        exact hRel.downward _ _ _ hx hReach hLt
      · exact processed_of_setParent hp.2 hpb
    have hPosNe : pos x ≠ pos b := fun h => hEq (hPos.injective _ _ hxReach hReach h)
    have hdy := hRel.ancestor_of_setParent hEntry hMeet (hRel.processed _ _ hx) hy
    have hpy := hRel.settled _ _ p y hx hNe ⟨hp.1, hpOld⟩ hLt hdy (by omega)
    by_cases hBelow : Ancestor parent p b
    · have hLe : pos b ≤ pos p := hRel.pos_le hBelow
      exact ancestor_setParent_of_le hRel.toPartialTree hEntry hpy (by omega)
    · exact (ancestor_setParent_of_not hBelow).2 hpy

/-- Giving the vertex at the present position the nearest common ancestor of its predecessors
moves the invariant on by one. -/
theorem relax : Relaxed g pos (pos b + 1) (setParent parent b z) where
  toPartialTree := hRel.partialTree_setParent hPos hReach hEntry hMeet
  before v hv hLt := by
    by_cases hEq : v = b
    · exact ⟨z, hEq ▸ setParent_self⟩
    · have hNe : pos v ≠ pos b := fun h => hEq (hPos.injective _ _ hv hReach h)
      exact setParent_processed (hRel.before v hv (by omega))
  downward x d v hx hv hLt := by
    by_cases hEq : x = b
    · subst hEq
      exact setParent_processed (hRel.before v hv hLt)
    · rw [setParent_of_ne hEq] at hx
      exact setParent_processed (hRel.downward x d v hx hv hLt)
  common _ _ _ hx hNe h := hRel.common_setParent hPos hReach hEntry hMeet hx hNe h
  settled _ _ _ _ hx hNe hp hLt hy hAt :=
    hRel.settled_setParent hPos hReach hEntry hMeet hx hNe hp hLt hy hAt

end

/-- The entry is passed over. -/
theorem skip_entry (hRel : Relaxed g pos (pos g.entry) parent) (hPos : g.Numbering pos) :
    Relaxed g pos (pos g.entry + 1) parent where
  toPartialTree := hRel.toPartialTree
  before v hv hLt := by
    by_cases hEq : v = g.entry
    · exact ⟨_, hEq ▸ hRel.root⟩
    · have := hPos.entry_lt hv hEq
      omega
  downward := hRel.downward
  common := hRel.common
  settled x d p z hx hNe hp hLt hz hAt := by
    have := hPos.entry_lt (hRel.reachable _ _ hx) hNe
    exact hRel.settled x d p z hx hNe hp hLt hz (by omega)

/-- The map that knows the entry only. -/
theorem initial [DecidableEq V] (hPos : g.Numbering pos) :
    Relaxed g pos 0 (fun v => if v = g.entry then some g.entry else none) := by
  have hEntry : ∀ {b d : V}, (if b = g.entry then some g.entry else none) = some d →
      b = g.entry ∧ d = g.entry := by
    intro b d h
    split at h
    case isTrue hEq => exact ⟨hEq, (Option.some.inj h).symm⟩
    case isFalse _ => cases h
  refine { root := if_pos rfl, reachable := ?_, processed := ?_, earlier := ?_, closest := ?_,
           before := ?_, downward := ?_, common := ?_, settled := ?_ }
  · intro b d h
    rw [(hEntry h).1]
    exact reachable_entry
  · intro b d h
    exact ⟨g.entry, if_pos (hEntry h).2⟩
  · intro b d h hNe
    exact absurd (hEntry h).1 hNe
  · intro b d h hNe
    exact absurd (hEntry h).1 hNe
  · intro v _ hLt
    exact absurd hLt (Nat.not_lt_zero _)
  · intro x d v h hv hLt
    rw [(hEntry h).1] at hLt
    exact absurd hLt (Nat.not_lt_of_le (hPos.entry_le hv))
  · intro x d y h hNe
    exact absurd (hEntry h).1 hNe
  · intro x d p z h hNe
    exact absurd (hEntry h).1 hNe

end Relaxed

/-! ## The end of the iteration -/

/-- Where every parent is the nearest common ancestor of the predecessors, ancestors are
dominators. -/
theorem PartialTree.dominates_of_ancestor (hTree : PartialTree g pos parent)
    (hAll : ∀ v, g.Reachable v → ∃ d, parent v = some d)
    (hFix : ∀ b d, parent b = some d → b ≠ g.entry → IsMeet parent (ProcessedPred g parent b) d)
    (h : Ancestor parent b a) : g.Dominates a b := by
  intro vs hPath
  induction hPath with
  | entry => exact hTree.ancestor_entry h ▸ List.mem_singleton_self _
  | @step p b vs hPath hEdge ih =>
    have hp : g.Reachable p := ⟨vs, hPath⟩
    by_cases hEntry : b = g.entry
    · subst hEntry
      rw [hTree.ancestor_entry h]
      exact List.mem_cons_self
    · obtain ⟨d, hd⟩ := hAll b (hp.step hEdge)
      rcases (ancestor_iff hd).1 h with rfl | hAnc
      · exact List.mem_cons_self
      · exact List.mem_cons_of_mem _ (ih ((hFix b d hd hEntry a).1 hAnc p ⟨hEdge, hAll p hp⟩))

/-- A map that no step changes any more holds the immediate dominators. -/
theorem PartialTree.isImmediateDominator (hTree : PartialTree g pos parent)
    (hAll : ∀ v, g.Reachable v → ∃ d, parent v = some d)
    (hFix : ∀ b d, parent b = some d → b ≠ g.entry → IsMeet parent (ProcessedPred g parent b) d)
    (hb : parent b = some d) (hEntry : b ≠ g.entry) : g.IsImmediateDominator d b where
  strict := by
    refine ⟨hTree.dominates_of_ancestor hAll hFix (.head hb (.refl _)), fun hEq => ?_⟩
    subst hEq
    exact Nat.lt_irrefl _ (hTree.earlier _ _ hb hEntry)
  closest := hTree.closest b d hb hEntry

end FlowGraph
