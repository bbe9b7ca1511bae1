import Mathlib.Order.Lattice
import Mathlib.Data.List.Induction

/-!
# Merging evidence

A list of facts is merged from the left. Where the merge is a join, the result depends on the
members of the list only. Where two facts may disagree, a flag is kept; if disagreeing with a merged
state is disagreeing with one of the facts merged into it, the flag tells whether two members of
the list disagree.
-/

namespace Calynda.Lib

section Join

variable {α β : Type*} [SemilatticeSup β] (f : α → β)

theorem foldl_sup_le_iff (l : List α) (a b : β) :
    l.foldl (fun s x => s ⊔ f x) a ≤ b ↔ a ≤ b ∧ ∀ x ∈ l, f x ≤ b := by
  induction l generalizing a with
  | nil => simp
  | cons x l ih => rw [List.foldl_cons, ih, sup_le_iff, List.forall_mem_cons, and_assoc]

/-- A join does not see the order of a list, nor how often a member occurs. -/
theorem foldl_sup_congr {l l' : List α} (h : ∀ x, x ∈ l' ↔ x ∈ l) (a : β) :
    l'.foldl (fun s x => s ⊔ f x) a = l.foldl (fun s x => s ⊔ f x) a := by
  refine eq_of_forall_ge_iff fun b => ?_
  rw [foldl_sup_le_iff, foldl_sup_le_iff]
  simp only [h]

end Join

section Disagreement

variable {α : Type*}

/-- A merge with the relation of disagreement that it reports. -/
structure Merge (α : Type*) where
  op : α → α → α
  disagrees : α → α → Bool
  none : α

namespace Merge

variable (m : Merge α)

/-- The state after a fact, and whether there has been a disagreement. -/
def step (s : α × Bool) (x : α) : α × Bool := (m.op s.1 x, s.2 || m.disagrees s.1 x)

def fold (l : List α) : α × Bool := l.foldl m.step (m.none, false)

/-- Disagreement is symmetric, and one with a merged state is one with a fact merged into it. -/
structure Faithful : Prop where
  irrefl : ∀ x, m.disagrees x x = false
  symm : ∀ x y, m.disagrees x y = m.disagrees y x
  none : ∀ x, m.disagrees m.none x = false
  op : ∀ s x y, m.disagrees s x = false →
    m.disagrees (m.op s x) y = (m.disagrees s y || m.disagrees x y)

variable {m}

/-- While nothing has disagreed, the state disagrees with what one of its facts disagrees with. -/
theorem Faithful.fold_spec (h : m.Faithful) (l : List α) :
    ((m.fold l).2 = true ↔ ∃ x ∈ l, ∃ y ∈ l, m.disagrees x y = true) ∧
    ((m.fold l).2 = false → ∀ z,
      m.disagrees (m.fold l).1 z = true ↔ ∃ x ∈ l, m.disagrees x z = true) := by
  induction l using List.reverseRecOn with
  | nil => simp [fold, h.none]
  | append_singleton l e ih =>
    obtain ⟨ihFlag, ihState⟩ := ih
    have hStep : m.fold (l ++ [e]) = m.step (m.fold l) e := by
      rw [fold, List.foldl_append]
      rfl
    rw [hStep, step]
    cases hFlag : (m.fold l).2 with
    | true =>
      obtain ⟨x, hx, y, hy, hxy⟩ := ihFlag.1 hFlag
      simp only [Bool.true_or, true_iff, reduceCtorEq, false_implies, and_true]
      exact ⟨x, List.mem_append_left _ hx, y, List.mem_append_left _ hy, hxy⟩
    | false =>
      have hState := ihState hFlag
      have hNone : ¬ ∃ x ∈ l, ∃ y ∈ l, m.disagrees x y = true := by
        rw [← ihFlag, hFlag]
        exact Bool.false_ne_true
      simp only [Bool.false_or]
      refine ⟨⟨fun hNew => ?_, fun hPair => ?_⟩, fun hAgree z => ?_⟩
      · obtain ⟨x, hx, hxe⟩ := (hState e).1 hNew
        exact ⟨x, List.mem_append_left _ hx, e, List.mem_append_right _ List.mem_cons_self, hxe⟩
      · obtain ⟨x, hx, y, hy, hxy⟩ := hPair
        rw [List.mem_append, List.mem_singleton] at hx hy
        rcases hx with hx | rfl <;> rcases hy with hy | rfl
        · exact absurd ⟨x, hx, y, hy, hxy⟩ hNone
        · exact (hState _).2 ⟨x, hx, hxy⟩
        · exact (hState _).2 ⟨y, hy, by rw [h.symm]; exact hxy⟩
        · rw [h.irrefl] at hxy
          cases hxy
      · rw [h.op _ _ _ hAgree, Bool.or_eq_true, hState]
        simp only [List.mem_append, List.mem_singleton, or_and_right, exists_or, exists_eq_left]

end Merge

end Disagreement

end Calynda.Lib
