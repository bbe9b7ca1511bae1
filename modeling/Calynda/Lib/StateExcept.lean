import Mathlib.Data.List.Forall2

/-!
# Runs of programs with state and exceptions

How the outcome of a program in `StateT σ (Except ε)` comes from the outcomes of its parts,
and what a pass over a list keeps and establishes.
-/

namespace StateExcept

universe u v

variable {σ : Type u} {ε : Type v} {α β : Type u}

theorem bind_ok {m : StateT σ (Except ε) α} {f : α → StateT σ (Except ε) β} {s s' : σ} {a : α}
    (h : m s = .ok (a, s')) : (m >>= f) s = f a s' := by
  show Except.bind (m s) _ = _
  rw [h]
  rfl

theorem bind_error {m : StateT σ (Except ε) α} {f : α → StateT σ (Except ε) β} {s : σ} {e : ε}
    (h : m s = .error e) : (m >>= f) s = .error e := by
  show Except.bind (m s) _ = _
  rw [h]
  rfl

@[simp] theorem get_bind (f : σ → StateT σ (Except ε) β) (s : σ) :
    ((get : StateT σ (Except ε) σ) >>= f) s = f s s := rfl

/-- What follows depends on the outcome only. -/
theorem bind_congr_run {m m' : StateT σ (Except ε) α} {f : α → StateT σ (Except ε) β} {s : σ}
    (h : m s = m' s) : (m >>= f) s = (m' >>= f) s := by
  show Except.bind (m s) _ = Except.bind (m' s) _
  rw [h]

theorem bind_eq_ok {m : StateT σ (Except ε) α} {f : α → StateT σ (Except ε) β} {s s'' : σ}
    {b : β} :
    (m >>= f) s = .ok (b, s'') ↔ ∃ a s', m s = .ok (a, s') ∧ f a s' = .ok (b, s'') := by
  cases h : m s with
  | ok p =>
    rw [bind_ok h]
    refine ⟨fun hRun => ⟨p.1, p.2, rfl, hRun⟩, ?_⟩
    rintro ⟨a, s', hEq, hRun⟩
    cases hEq
    exact hRun
  | error e =>
    rw [bind_error h]
    exact iff_of_false nofun fun ⟨_, _, hEq, _⟩ => nomatch hEq

/-- An error of a sequence is one of its first part, or of what follows. -/
theorem bind_eq_error {m : StateT σ (Except ε) α} {f : α → StateT σ (Except ε) β} {s : σ}
    {e : ε} :
    (m >>= f) s = .error e ↔
      m s = .error e ∨ ∃ a s', m s = .ok (a, s') ∧ f a s' = .error e := by
  cases h : m s with
  | ok p =>
    rw [bind_ok h]
    refine ⟨fun hRun => .inr ⟨p.1, p.2, rfl, hRun⟩, ?_⟩
    rintro (hEq | ⟨a, s', hEq, hRun⟩)
    · exact nomatch hEq
    · cases hEq
      exact hRun
  | error e' =>
    rw [bind_error h]
    constructor
    · rintro ⟨⟩
      exact .inl rfl
    · rintro (⟨⟨⟩⟩ | ⟨_, _, hEq, _⟩)
      · rfl
      · exact nomatch hEq

/-! ## Invariants -/

/-- A run from a state with the invariant ends in one, with a result that meets `Post`. -/
def Maintains (I : σ → Prop) (m : StateT σ (Except ε) α) (Post : α → Prop) : Prop :=
  ∀ s a s', I s → m s = .ok (a, s') → I s' ∧ Post a

namespace Maintains

variable {I : σ → Prop} {m : StateT σ (Except ε) α} {f : α → StateT σ (Except ε) β}
  {P Q : α → Prop} {R : β → Prop}

theorem ret {a : α} (h : P a) : Maintains I (pure a : StateT σ (Except ε) α) P := by
  intro s b s' hI hRun
  cases hRun
  exact ⟨hI, h⟩

theorem bind (h : Maintains I m P) (h' : ∀ a, P a → Maintains I (f a) R) :
    Maintains I (m >>= f) R := by
  intro s b s' hI hRun
  obtain ⟨a, middle, hFirst, hRest⟩ := bind_eq_ok.1 hRun
  obtain ⟨hMiddle, hP⟩ := h s a middle hI hFirst
  exact h' a hP middle b s' hMiddle hRest

theorem imp (h : Maintains I m P) (hImp : ∀ a, P a → Q a) : Maintains I m Q :=
  fun s a s' hI hRun => (h s a s' hI hRun).imp_right (hImp a)

theorem error {e : ε} : Maintains I (throw e : StateT σ (Except ε) α) P := by
  intro s a s' _ hRun
  cases hRun

/-- What is read is the state itself. -/
theorem read {f : σ → StateT σ (Except ε) β} (h : ∀ s, I s → Maintains I (f s) R) :
    Maintains I (get >>= f) R :=
  fun s b s' hI hRun => h s hI s b s' hI hRun

theorem write {g : σ → σ} (h : ∀ s, I s → I (g s)) {P : PUnit → Prop} (hP : P ⟨⟩) :
    Maintains I (modify g : StateT σ (Except ε) PUnit) P := by
  intro s a s' hI hRun
  cases hRun
  exact ⟨h s hI, hP⟩

theorem forM {γ : Type u} {f : γ → StateT σ (Except ε) PUnit} {xs : List γ}
    (h : ∀ x ∈ xs, Maintains I (f x) fun _ => True) :
    Maintains I (xs.forM f) fun _ => True := by
  induction xs with
  | nil => exact ret trivial
  | cons x xs ih =>
    exact bind (h x List.mem_cons_self) fun _ _ =>
      ih fun y hy => h y (List.mem_cons_of_mem x hy)

/-- What one step of a pass establishes and every step keeps holds at its end. -/
theorem forM_reaches {J : σ → Prop} {γ : Type u} {f : γ → StateT σ (Except ε) PUnit} {xs : List γ}
    {x : γ} (hx : x ∈ xs) (hBase : ∀ y ∈ xs, Maintains J (f y) fun _ => True)
    (hStep : ∀ s s', J s → f x s = .ok (⟨⟩, s') → I s')
    (hKeep : ∀ y ∈ xs, Maintains I (f y) fun _ => True) {s s' : σ} (hStart : J s)
    (hRun : xs.forM f s = .ok (⟨⟩, s')) : I s' := by
  induction xs generalizing s with
  | nil => exact nomatch hx
  | cons y xs ih =>
    obtain ⟨_, middle, hFirst, hRest⟩ := bind_eq_ok.1 hRun
    have hKeepRest : ∀ z ∈ xs, Maintains I (f z) fun _ => True :=
      fun z hz => hKeep z (List.mem_cons_of_mem y hz)
    rcases List.mem_cons.1 hx with rfl | hx
    · exact (forM hKeepRest middle ⟨⟩ s' (hStep s middle hStart hFirst) hRest).1
    · exact ih hx (fun z hz => hBase z (List.mem_cons_of_mem y hz)) hKeepRest
        (hBase y List.mem_cons_self s ⟨⟩ middle hStart hFirst).1 hRest

/-- Nothing is asked of the state. -/
theorem trivially {m : StateT σ (Except ε) α} :
    Maintains (fun _ => True) m fun _ => True :=
  fun _ _ _ _ _ => ⟨trivial, trivial⟩

end Maintains

/-! ## Safety -/

/-- A run from a state with the invariant ends in one, or stops with an allowed error. -/
def Safe (I : σ → Prop) (E : ε → Prop) (m : StateT σ (Except ε) α) : Prop :=
  ∀ s, I s → (∀ e, m s = .error e → E e) ∧ ∀ a s', m s = .ok (a, s') → I s'

namespace Safe

variable {I : σ → Prop} {E : ε → Prop} {m : StateT σ (Except ε) α}
  {f : α → StateT σ (Except ε) β} {s : σ}

theorem ret (a : α) : Safe I E (pure a : StateT σ (Except ε) α) := by
  intro s hI
  refine ⟨nofun, ?_⟩
  intro b s' hRun
  cases hRun
  exact hI

theorem bind (h : Safe I E m) (h' : ∀ a, Safe I E (f a)) : Safe I E (m >>= f) := by
  intro s hI
  obtain ⟨hError, hOk⟩ := h s hI
  constructor
  · intro e hRun
    rcases bind_eq_error.1 hRun with hFirst | ⟨a, middle, hFirst, hRest⟩
    · exact hError e hFirst
    · exact (h' a middle (hOk a middle hFirst)).1 e hRest
  · intro b s' hRun
    obtain ⟨a, middle, hFirst, hRest⟩ := bind_eq_ok.1 hRun
    exact (h' a middle (hOk a middle hFirst)).2 b s' hRest

end Safe

/-! ## Passes without a state -/

theorem except_bind_eq_ok {γ δ : Type u} {x : Except ε γ} {f : γ → Except ε δ} {d : δ} :
    (x >>= f) = .ok d ↔ ∃ c, x = .ok c ∧ f c = .ok d := by
  cases x with
  | ok c => exact ⟨fun h => ⟨c, rfl, h⟩, fun ⟨_, hEq, h⟩ => by cases hEq; exact h⟩
  | error e => exact iff_of_false nofun fun ⟨_, hEq, _⟩ => nomatch hEq


theorem forall₂_of_mapM_eq_ok {γ δ : Type u} {f : γ → Except ε δ} {xs : List γ} {ys : List δ}
    (h : xs.mapM f = .ok ys) : List.Forall₂ (fun x y => x ∈ xs ∧ f x = .ok y) xs ys := by
  induction xs generalizing ys with
  | nil =>
    cases h
    exact .nil
  | cons x xs ih =>
    rw [List.mapM_cons] at h
    obtain ⟨y, hy, h⟩ := except_bind_eq_ok.1 h
    obtain ⟨rest, hRest, h⟩ := except_bind_eq_ok.1 h
    cases h
    exact .cons ⟨List.mem_cons_self, hy⟩
      ((ih hRest).imp fun _ _ hStep => ⟨List.mem_cons_of_mem x hStep.1, hStep.2⟩)

section Fold

universe w

variable {γ : Type w} {f : α → γ → Except ε α} {xs : List γ} {a a' : α}

/-- An invariant of a pass that ran to its end, with the number of steps it took. -/
theorem foldlM_invariant {P : Nat → α → Prop}
    (hStep : ∀ x ∈ xs, ∀ n a a', P n a → f a x = .ok a' → P (n + 1) a')
    (hRun : xs.foldlM f a = .ok a') {n : Nat} (hStart : P n a) : P (n + xs.length) a' := by
  induction xs generalizing a n with
  | nil =>
    cases hRun
    exact hStart
  | cons x xs ih =>
    rw [List.foldlM_cons] at hRun
    cases hFirst : f a x with
    | error e =>
      rw [hFirst] at hRun
      exact nomatch hRun
    | ok a₁ =>
      rw [hFirst] at hRun
      have hNext := hStep x List.mem_cons_self n a a₁ hStart hFirst
      have hRest := ih (fun y hy => hStep y (List.mem_cons_of_mem x hy)) hRun hNext
      rwa [Nat.add_right_comm, Nat.add_assoc] at hRest

/-- A pass that stops with an error stops at a step that gives the error. -/
theorem foldlM_error {e : ε} (hRun : xs.foldlM f a = .error e) :
    ∃ x ∈ xs, ∃ b, f b x = .error e := by
  induction xs generalizing a with
  | nil => exact nomatch hRun
  | cons x xs ih =>
    rw [List.foldlM_cons] at hRun
    cases hFirst : f a x with
    | error e' =>
      rw [hFirst] at hRun
      cases hRun
      exact ⟨x, List.mem_cons_self, a, hFirst⟩
    | ok a₁ =>
      rw [hFirst] at hRun
      obtain ⟨y, hy, b, hb⟩ := ih hRun
      exact ⟨y, List.mem_cons_of_mem x hy, b, hb⟩

end Fold

end StateExcept
