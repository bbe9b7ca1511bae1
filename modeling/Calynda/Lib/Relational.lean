/-!
# Relational reasoning about state and exceptions

Two programs in `StateT σ (Except ε)` are run from related states. `RelTriple P m m' Q E`
says that they end alike: both with results and states related by `Q`, or both with errors
related by `E`. The rules follow the structure of the programs.

With equal programs and the diagonal of a predicate as relation the same judgement says
that the predicate is an invariant.
-/

namespace Relational

universe u v

variable {σ τ : Type u} {ε δ : Type v} {α β α' β' : Type u}

/-- Two outcomes of the same kind, with related contents. -/
inductive OutcomeRel (Q : α → β → σ → τ → Prop) (E : ε → δ → Prop) :
    Except ε (α × σ) → Except δ (β × τ) → Prop where
  | ok {a : α} {b : β} {s : σ} {t : τ} (h : Q a b s t) :
      OutcomeRel Q E (.ok (a, s)) (.ok (b, t))
  | error {e : ε} {d : δ} (h : E e d) : OutcomeRel Q E (.error e) (.error d)

/-- The outcomes of two programs, and of what they go on with from there. -/
theorem OutcomeRel.bind {m : StateT σ (Except ε) α} {m' : StateT τ (Except δ) β}
    {f : α → StateT σ (Except ε) α'} {f' : β → StateT τ (Except δ) β'} {s : σ} {t : τ}
    {R : α → β → σ → τ → Prop} {Q : α' → β' → σ → τ → Prop} {E : ε → δ → Prop}
    (h : OutcomeRel R E (m s) (m' t))
    (hf : ∀ a b s' t', m s = .ok (a, s') → m' t = .ok (b, t') → R a b s' t' →
      OutcomeRel Q E (f a s') (f' b t')) :
    OutcomeRel Q E ((m >>= f) s) ((m' >>= f') t) := by
  change OutcomeRel Q E ((m s).bind fun p => f p.1 p.2) ((m' t).bind fun p => f' p.1 p.2)
  generalize m s = x at h hf ⊢
  generalize m' t = y at h hf ⊢
  cases h with
  | ok hR => exact hf _ _ _ _ rfl rfl hR
  | error hE => exact .error hE

/-- From states related by `P` the two programs end with outcomes related by `Q` and `E`. -/
def RelTriple (P : σ → τ → Prop) (m : StateT σ (Except ε) α) (m' : StateT τ (Except δ) β)
    (Q : α → β → σ → τ → Prop) (E : ε → δ → Prop) : Prop :=
  ∀ s t, P s t → OutcomeRel Q E (m s) (m' t)

/-- Equal results, and states related by `P`. -/
def Same (P : σ → τ → Prop) : α → α → σ → τ → Prop := fun a b s t => a = b ∧ P s t

variable {P P' : σ → τ → Prop} {E : ε → δ → Prop}

namespace RelTriple

theorem pure {Q : α → β → σ → τ → Prop} {a : α} {b : β} (h : ∀ s t, P s t → Q a b s t) :
    RelTriple P (Pure.pure a) (Pure.pure b) Q E :=
  fun s t hst => .ok (h s t hst)

theorem ret (a : α) :
    RelTriple P (Pure.pure a : StateT σ (Except ε) α) (Pure.pure a : StateT τ (Except δ) α)
      (Same P) E :=
  pure fun _ _ hst => ⟨rfl, hst⟩

theorem bind {m : StateT σ (Except ε) α} {m' : StateT τ (Except δ) β}
    {f : α → StateT σ (Except ε) α'} {f' : β → StateT τ (Except δ) β'}
    {R : α → β → σ → τ → Prop} {Q : α' → β' → σ → τ → Prop} (h : RelTriple P m m' R E)
    (hf : ∀ a b, RelTriple (R a b) (f a) (f' b) Q E) :
    RelTriple P (m >>= f) (m' >>= f') Q E :=
  fun s t hst => (h s t hst).bind fun a b s' t' _ _ hR => hf a b s' t' hR

/-- Programs that both fail: what follows is not run. -/
theorem bind_of_fails {m : StateT σ (Except ε) α} {m' : StateT τ (Except δ) β}
    {f : α → StateT σ (Except ε) α'} {f' : β → StateT τ (Except δ) β'}
    {Q : α' → β' → σ → τ → Prop} (h : RelTriple P m m' (fun _ _ _ _ => False) E) :
    RelTriple P (m >>= f) (m' >>= f') Q E :=
  h.bind fun _ _ _ _ => False.elim

/-- Programs with the same result: what follows may use it as one value. -/
theorem bind_same {m : StateT σ (Except ε) α} {m' : StateT τ (Except δ) α}
    {f : α → StateT σ (Except ε) α'} {f' : α → StateT τ (Except δ) β'}
    {Q : α' → β' → σ → τ → Prop} (h : RelTriple P m m' (Same P') E)
    (hf : ∀ a, RelTriple P' (f a) (f' a) Q E) : RelTriple P (m >>= f) (m' >>= f') Q E := by
  refine h.bind fun a b s t hab => ?_
  obtain ⟨rfl, hst⟩ := hab
  exact hf a s t hst

/-- A program that begins by reading the state. -/
theorem get_bind {f : σ → StateT σ (Except ε) α} {f' : τ → StateT τ (Except δ) β}
    {Q : α → β → σ → τ → Prop}
    (h : ∀ s t, P s t → OutcomeRel Q E (f s s) (f' t t)) :
    RelTriple P (MonadState.get >>= f) (MonadState.get >>= f') Q E :=
  fun s t hst => h s t hst

theorem of_modify {Q : PUnit → PUnit → σ → τ → Prop} {f : σ → σ} {f' : τ → τ}
    (h : ∀ s t, P s t → Q ⟨⟩ ⟨⟩ (f s) (f' t)) :
    RelTriple P (modify f : StateT σ (Except ε) PUnit)
      (modify f' : StateT τ (Except δ) PUnit) Q E :=
  fun s t hst => .ok (h s t hst)

end RelTriple

/-! ## Equal runs -/

section
variable {I J : σ → Prop} {m m' : StateT σ (Except ε) α}

/-- The states are the same, and one that satisfies `I`. -/
def Diagonal (I : σ → Prop) : σ → σ → Prop := fun s t => s = t ∧ I s

theorem RelTriple.diagonal_eq (h : RelTriple (Diagonal I) m m' (Same (Diagonal J)) Eq) {s : σ}
    (hs : I s) : m s = m' s := by
  have hm := h s s ⟨rfl, hs⟩
  generalize m s = x at hm ⊢
  generalize m' s = y at hm ⊢
  cases hm with
  | ok hQ =>
    obtain ⟨rfl, rfl, -⟩ := hQ
    rfl
  | error hE => rw [hE]

theorem RelTriple.diagonal_inv (h : RelTriple (Diagonal I) m m' (Same (Diagonal J)) Eq)
    {s s' : σ} {a : α} (hs : I s) (hRun : m s = .ok (a, s')) : J s' := by
  have hm := h s s ⟨rfl, hs⟩
  rw [hRun] at hm
  generalize m' s = y at hm
  cases hm with
  | ok hQ =>
    obtain ⟨-, rfl, hJ⟩ := hQ
    exact hJ

/-- Equal runs that keep the invariant. -/
theorem RelTriple.of_diagonal
    (h : ∀ s, I s → m s = m' s ∧ ∀ a s', m s = .ok (a, s') → J s') :
    RelTriple (Diagonal I) m m' (Same (Diagonal J)) Eq := by
  rintro s t ⟨rfl, hs⟩
  obtain ⟨hEq, hInv⟩ := h s hs
  rw [← hEq]
  cases hRun : m s with
  | error e => exact .error rfl
  | ok p => exact .ok ⟨rfl, rfl, hInv p.1 p.2 hRun⟩

end

end Relational
