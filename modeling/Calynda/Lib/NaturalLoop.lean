import Calynda.Lib.FlowGraph
import Mathlib.Data.Set.Card

/-!
# Natural loops and irreducible graphs

A back edge goes to a vertex that dominates where it comes from. The natural loop of a header has
what reaches one of its back edges without passing the header. A graph is irreducible if one of its
cycles can be entered at two vertices.
-/

namespace FlowGraph

variable {V : Type*} (g : FlowGraph V)

/-- An edge of the reachable part to a vertex that dominates its source. -/
def BackEdge (u h : V) : Prop := g.Reachable u ∧ g.Edge u h ∧ g.Dominates h u

def LoopHeader (h : V) : Prop := ∃ u, g.BackEdge u h

/-- The steps that do not start at `h`. -/
def StepBeside (h a b : V) : Prop := a ≠ h ∧ g.Edge a b

/-- The natural loop of `h`, merged over its back edges. -/
def NaturalLoop (h x : V) : Prop :=
  g.LoopHeader h ∧ (x = h ∨ ∃ u, g.BackEdge u h ∧ Relation.ReflTransGen (g.StepBeside h) x u ∧ u ≠ h)

/-- A path from the entry meets the vertices first at `a`. -/
def EnteredAt (vs : List V) (a : V) : Prop :=
  a ∈ vs ∧ ∃ ws, g.Path a (a :: ws) ∧ ∀ w ∈ ws, w ∉ vs

def IsCycle (vs : List V) : Prop := ∃ x ws, vs = x :: ws ∧ List.IsChain g.Edge (x :: ws ++ [x])

/-- Some cycle can be entered at two vertices. -/
def Irreducible : Prop :=
  ∃ vs, g.IsCycle vs ∧ ∃ a b, a ≠ b ∧ g.EnteredAt vs a ∧ g.EnteredAt vs b

variable {g} {h u x : V}

theorem BackEdge.reachable (hBack : g.BackEdge u h) : g.Reachable h :=
  hBack.1.step hBack.2.1

theorem LoopHeader.reachable (hHeader : g.LoopHeader h) : g.Reachable h :=
  hHeader.elim fun _ hBack => hBack.reachable

theorem LoopHeader.naturalLoop (hHeader : g.LoopHeader h) : g.NaturalLoop h h :=
  ⟨hHeader, Or.inl rfl⟩

variable {pos : V → Nat}

/-- The first header of a numbering has no header that strictly dominates it. -/
theorem Numbering.exists_first_header (hPos : g.Numbering pos) (hHeader : ∃ h, g.LoopHeader h) :
    ∃ h, g.LoopHeader h ∧ ∀ a, g.LoopHeader a → ¬g.StrictlyDominates a h := by
  classical
  obtain ⟨h₀, hHeader₀⟩ := hHeader
  have hSome : ∃ n, ∃ h, g.LoopHeader h ∧ pos h = n := ⟨pos h₀, h₀, hHeader₀, rfl⟩
  obtain ⟨h, hHeader, hFirst⟩ := Nat.find_spec hSome
  refine ⟨h, hHeader, fun a ha hStrict => ?_⟩
  have hLe : pos a ≤ pos h := hPos.pos_le hHeader.reachable hStrict.1
  have hEq : pos a = pos h :=
    le_antisymm hLe (hFirst.trans_le (Nat.find_min' hSome ⟨a, ha, rfl⟩))
  exact hStrict.2 (hPos.injective a h ha.reachable hHeader.reachable hEq)

end FlowGraph
