import Mathlib.Logic.Relation
import Mathlib.Data.List.Induction

/-!
# Backward data flow

What is live at a point of a program is what some path uses before it is defined. The set of
live points is the least one closed under going back along a step, and passes over the points
that update them in place until nothing changes come to a state in which no update applies.
-/

namespace DataFlow

universe u v

/-! ## Liveness -/

section Live

variable {P : Type u} {step : P → P → Prop} {uses defines : P → Prop} {p q : P}

/-- A path from `p` reaches a use with no definition before it. -/
def Live (step : P → P → Prop) (uses defines : P → Prop) (p : P) : Prop :=
  ∃ q, Relation.ReflTransGen (fun a b => step a b ∧ ¬ defines a) p q ∧ uses q

theorem Live.of_use (h : uses p) : Live step uses defines p := ⟨p, .refl, h⟩

theorem Live.of_step (hStep : step p q) (hClear : ¬ defines p) (h : Live step uses defines q) :
    Live step uses defines p := by
  obtain ⟨last, hPath, hUse⟩ := h
  exact ⟨last, .head ⟨hStep, hClear⟩ hPath, hUse⟩

theorem live_iff : Live step uses defines p ↔
    uses p ∨ ¬ defines p ∧ ∃ q, step p q ∧ Live step uses defines q := by
  constructor
  · rintro ⟨last, hPath, hUse⟩
    rcases Relation.ReflTransGen.cases_head hPath with rfl | ⟨q, ⟨hStep, hClear⟩, hRest⟩
    · exact .inl hUse
    · exact .inr ⟨hClear, q, hStep, last, hRest, hUse⟩
  · rintro (hUse | ⟨hClear, q, hStep, hLive⟩)
    · exact .of_use hUse
    · exact hLive.of_step hStep hClear

/-- A set that holds the uses and is closed backwards holds every live point. -/
theorem Live.closed {S : P → Prop} (hUse : ∀ p, uses p → S p)
    (hStep : ∀ p q, step p q → ¬ defines p → S q → S p) (h : Live step uses defines p) : S p := by
  obtain ⟨last, hPath, hLast⟩ := h
  induction hPath using Relation.ReflTransGen.head_induction_on with
  | refl => exact hUse last hLast
  | head hEdge _ ih => exact hStep _ _ hEdge.1 hEdge.2 ih

end Live

/-! ## Passes that update in place -/

section Passes

variable {σ : Type u} {ι : Type v} {update : σ → ι → Option σ} {order : List ι} {s : σ}

/-- One pass, with a flag for a change. An update that changes nothing is none. -/
def pass (update : σ → ι → Option σ) (order : List ι) (s : σ) : σ × Bool :=
  order.foldl (fun (s, changed) i =>
    match update s i with
    | some s' => (s', true)
    | none => (s, changed)) (s, false)

/-- Passes until one changes nothing; none when the passes do not suffice. -/
def iterate (update : σ → ι → Option σ) (order : List ι) : Nat → σ → Option σ
  | 0, _ => none
  | passes + 1, s =>
    match pass update order s with
    | (s', true) => iterate update order passes s'
    | (s', false) => some s'

/-- Passes that suffice give what any more of them give. -/
theorem iterate_add {passes : Nat} {s s' : σ} (h : iterate update order passes s = some s')
    (more : Nat) : iterate update order (passes + more) s = some s' := by
  induction passes generalizing s with
  | zero => exact nomatch h
  | succ passes ih =>
    rw [Nat.add_right_comm]
    unfold iterate at h ⊢
    split at h
    · exact ih h
    · exact h

/-- What an update keeps, with a measure that it raises. -/
structure Progress (update : σ → ι → Option σ) (order : List ι) (Inv : σ → Prop)
    (measure : σ → Nat) (bound : Nat) : Prop where
  keep : ∀ s, ∀ i ∈ order, ∀ s', Inv s → update s i = some s' → Inv s' ∧ measure s < measure s'
  le_bound : ∀ s, Inv s → measure s ≤ bound

variable {Inv : σ → Prop} {measure : σ → Nat} {bound : Nat}

theorem Progress.pass (h : Progress update order Inv measure bound) (hInv : Inv s) :
    Inv (DataFlow.pass update order s).1 ∧ measure s ≤ measure (DataFlow.pass update order s).1 ∧
      ((DataFlow.pass update order s).2 = true →
        measure s < measure (DataFlow.pass update order s).1) ∧
      ((DataFlow.pass update order s).2 = false →
        (DataFlow.pass update order s).1 = s ∧ ∀ i ∈ order, update s i = none) := by
  have hKeep := h.keep
  unfold DataFlow.pass
  clear h
  induction order using List.reverseRecOn with
  | nil => simp [hInv]
  | append_singleton order i ih =>
    specialize ih fun s j hj => hKeep s j (List.mem_append_left _ hj)
    rw [List.foldl_append]
    generalize order.foldl (fun (s, changed) i =>
      match update s i with
      | some s' => (s', true)
      | none => (s, changed)) (s, false) = mid at ih ⊢
    obtain ⟨s₁, changed⟩ := mid
    obtain ⟨hMid, hLe, hChanged, hSame⟩ := ih
    simp only [List.foldl_cons, List.foldl_nil]
    cases hUpdate : update s₁ i with
    | some s₂ =>
      obtain ⟨hNext, hLt⟩ := hKeep s₁ i (by simp) s₂ hMid hUpdate
      simp only at hLe ⊢
      exact ⟨hNext, by omega, fun _ => by omega, nofun⟩
    | none =>
      refine ⟨hMid, hLe, hChanged, fun hFalse => ?_⟩
      obtain ⟨hEq, hNone⟩ := hSame hFalse
      simp only at hEq
      subst hEq
      refine ⟨rfl, fun j hj => ?_⟩
      rcases List.mem_append.mp hj with hj | hj
      · exact hNone j hj
      · rwa [List.mem_singleton.mp hj]

/-- With more passes than the measure can rise, the iteration ends where no update applies. -/
theorem Progress.iterate (h : Progress update order Inv measure bound) {passes : Nat} (hInv : Inv s)
    (hPasses : bound < passes + measure s) :
    ∃ s', DataFlow.iterate update order passes s = some s' ∧ Inv s' ∧
      ∀ i ∈ order, update s' i = none := by
  induction passes generalizing s with
  | zero =>
    have := h.le_bound s hInv
    omega
  | succ passes ih =>
    obtain ⟨hNext, -, hChanged, hSame⟩ := h.pass hInv
    unfold DataFlow.iterate
    cases hPass : DataFlow.pass update order s with
    | mk s' changed =>
      rw [hPass] at hNext hChanged hSame
      cases changed with
      | true =>
        have := hChanged rfl
        simp only at this
        exact ih hNext (by omega)
      | false =>
        obtain ⟨hEq, hNone⟩ := hSame rfl
        simp only at hEq
        subst hEq
        exact ⟨_, rfl, hNext, hNone⟩

end Passes

end DataFlow
