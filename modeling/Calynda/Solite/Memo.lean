import Calynda.Solite.Batch

/-!
# Memos

A memo keeps the value that its function had when its tracking effect ran last, and reading it
subscribes nobody. Where a memo is read only while its tracking effect has nothing to do, and
only by effects that are subscribed to all that the memo depends on, it is never stale.
-/

namespace Calynda.Solite

/-! ## Programs and the functions of memos -/

/-- A program does not store into memos: only their tracking effects do. -/
def Code.Plain : Code → Prop
  | .done => True
  | .createSignal _ k => ∀ s, (k s).Plain
  | .signalGet _ k => ∀ v, (k v).Plain
  | .signalSet _ _ k => k.Plain
  | .batchStart k => k.Plain
  | .batchEnd k => k.Plain
  | .createEffect fn k => (∀ n, (fn n).Plain) ∧ ∀ e, (k e).Plain
  | .disposeEffect _ k => k.Plain
  | .createMemo _ k => ∀ m, (k m).Plain
  | .memoGet _ k => ∀ v, (k v).Plain
  | .storeMemo _ _ _ => False

namespace Runtime

variable {σ τ : Runtime}

/-- The value of the function of a memo on the signals as they are. -/
inductive Evaluates (σ : Runtime) : SoliteMemoFn → CalyndaRtWord → Prop where
  | value (v) : Evaluates σ (.value v) v
  | signalGet {s k v} (h : Evaluates σ (k (σ.signal s).value) v) : Evaluates σ (.signalGet s k) v
  | memoGet {m k w v} (hMemo : Evaluates σ (σ.memo m).fn w) (h : Evaluates σ (k w) v) :
      Evaluates σ (.memoGet m k) v

theorem Evaluates.unique {f : SoliteMemoFn} {v w : CalyndaRtWord} (h : Evaluates σ f v)
    (h' : Evaluates σ f w) : v = w := by
  induction h generalizing w with
  | value v =>
    cases h'
    rfl
  | signalGet _ ih =>
    cases h' with
    | signalGet h' => exact ih h'
  | memoGet _ _ ihMemo ih =>
    cases h' with
    | memoGet hMemo' h' =>
      obtain rfl := ihMemo hMemo'
      exact ih h'

/-- The tracking effect of a memo has nothing to do. -/
def Quiet (σ : Runtime) (m : Nat) : Prop :=
  (σ.effect (σ.memo m).trackingEffect).pending = false ∧
    (σ.memo m).trackingEffect ∉ σ.observerStack

/-- The effect is subscribed to all that the tracking effect of the memo is subscribed to. -/
def Covers (σ : Runtime) (e m : Nat) : Prop :=
  ∀ s, (σ.memo m).trackingEffect ∈ (σ.signal s).subscribers → e ∈ (σ.signal s).subscribers

/-- The function comes to a value, the effect is subscribed to all that it reads for that, and
the memos that it reads keep theirs. -/
inductive Settles (σ : Runtime) : Nat → SoliteMemoFn → CalyndaRtWord → Prop where
  | value (e v) : Settles σ e (.value v) v
  | signalGet {e s k v} (hs : s < σ.signalCount) (hSub : e ∈ (σ.signal s).subscribers)
      (h : Settles σ e (k (σ.signal s).value) v) : Settles σ e (.signalGet s k) v
  | memoGet {e m k v} (hm : m < σ.memoCount) (hQuiet : σ.Quiet m) (hCovers : σ.Covers e m)
      (hMemo : Settles σ (σ.memo m).trackingEffect (σ.memo m).fn (σ.memo m).cachedValue)
      (h : Settles σ e (k (σ.memo m).cachedValue) v) : Settles σ e (.memoGet m k) v

theorem Settles.evaluates {e : Nat} {f : SoliteMemoFn} {v : CalyndaRtWord} (h : Settles σ e f v) :
    Evaluates σ f v := by
  induction h with
  | value e v => exact .value v
  | signalGet _ _ _ ih => exact .signalGet ih
  | memoGet _ _ _ _ _ ihMemo ih => exact .memoGet ihMemo ih

/-- The effect has read a memo, whose value is the one read. -/
def Relies (σ : Runtime) (e m : Nat) (v : CalyndaRtWord) : Prop :=
  Settles σ e (.memoGet m .value) v

theorem relies_iff {e m : Nat} {v : CalyndaRtWord} : Relies σ e m v ↔
    m < σ.memoCount ∧ σ.Quiet m ∧ σ.Covers e m ∧
      Settles σ (σ.memo m).trackingEffect (σ.memo m).fn (σ.memo m).cachedValue ∧
      (σ.memo m).cachedValue = v := by
  constructor
  · intro h
    cases h with
    | memoGet hm hQuiet hCovers hMemo h =>
      cases h
      exact ⟨hm, hQuiet, hCovers, hMemo, rfl⟩
  · rintro ⟨hm, hQuiet, hCovers, hMemo, rfl⟩
    exact .memoGet hm hQuiet hCovers hMemo (.value _ _)

/-- The reads of an effect lead from the function of its memo to what is left of it. -/
inductive Leads (σ : Runtime) (e : Nat) (f : SoliteMemoFn) : SoliteMemoFn → Prop where
  | refl : Leads σ e f f
  | signalGet {s k} (h : Leads σ e f (.signalGet s k)) (hs : s < σ.signalCount)
      (hSub : e ∈ (σ.signal s).subscribers) : Leads σ e f (k (σ.signal s).value)
  | memoGet {m k v} (h : Leads σ e f (.memoGet m k)) (hRelies : Relies σ e m v) :
      Leads σ e f (k v)

theorem Leads.settles {e : Nat} {f g : SoliteMemoFn} {v : CalyndaRtWord} (h : Leads σ e f g)
    (hRest : Settles σ e g v) : Settles σ e f v := by
  induction h with
  | refl => exact hRest
  | signalGet _ hs hSub ih => exact ih (.signalGet hs hSub hRest)
  | memoGet _ hRelies ih =>
    obtain ⟨hm, hQuiet, hCovers, hMemo, rfl⟩ := relies_iff.1 hRelies
    exact ih (.memoGet hm hQuiet hCovers hMemo hRest)

/-! ## What a step changes -/

/-- What a step does to the tables, the signals that it changes being those of `D`. -/
structure Evolves (D : Nat → Prop) (σ τ : Runtime) : Prop where
  signalCount : σ.signalCount ≤ τ.signalCount
  effectCount : σ.effectCount ≤ τ.effectCount
  memoCount : σ.memoCount ≤ τ.memoCount
  value : ∀ s, s < σ.signalCount → ¬ D s → (τ.signal s).value = (σ.signal s).value
  subscribers : ∀ s e, e ∈ (τ.signal s).subscribers →
    e ∈ (σ.signal s).subscribers ∨ e ∈ σ.observerStack
  kept : ∀ s e, e ∈ (σ.signal s).subscribers → e ∈ (τ.signal s).subscribers
  memo : ∀ m, m < σ.memoCount → (τ.memo m).fn = (σ.memo m).fn ∧
    (τ.memo m).trackingEffect = (σ.memo m).trackingEffect ∧
    ((σ.memo m).trackingEffect ∉ σ.observerStack →
      (τ.memo m).cachedValue = (σ.memo m).cachedValue)
  pending : ∀ e, (τ.effect e).pending = true → (σ.effect e).pending = true ∨
    ∃ s, D s ∧ e ∈ (σ.signal s).subscribers
  scheduled : ∀ s e, D s → e ∈ (σ.signal s).subscribers → (σ.effect e).disposed = false →
    (τ.effect e).pending = true
  observers : ∀ e, e ∈ τ.observerStack → e ∈ σ.observerStack ∨ (σ.effect e).pending = true ∨
    σ.effectCount ≤ e

variable {D : Nat → Prop}

/-- What an effect has settled on stays, unless a signal changes that it is subscribed to. -/
theorem Settles.evolves {e : Nat} {f : SoliteMemoFn} {v : CalyndaRtWord} (h : Settles σ e f v)
    (hEvolves : Evolves D σ τ)
    (hTracking : ∀ m, m < σ.memoCount → (σ.memo m).trackingEffect < σ.effectCount)
    (hApart : ∀ s, D s → e ∉ (σ.signal s).subscribers) : Settles τ e f v := by
  induction h with
  | value e v => exact .value e v
  | signalGet hs hSub _ ih =>
    refine .signalGet (Nat.lt_of_lt_of_le hs hEvolves.signalCount) (hEvolves.kept _ _ hSub) ?_
    rw [hEvolves.value _ hs fun hD => hApart _ hD hSub]
    exact ih hApart
  | @memoGet e m k v hm hQuiet hCovers _ _ ihMemo ih =>
    obtain ⟨hFn, hEffect, hCached⟩ := hEvolves.memo m hm
    have hApart' : ∀ s, D s → (σ.memo m).trackingEffect ∉ (σ.signal s).subscribers :=
      fun s hD hSub => hApart s hD (hCovers s hSub)
    replace hCached := hCached hQuiet.2
    refine .memoGet (Nat.lt_of_lt_of_le hm hEvolves.memoCount) ⟨?_, ?_⟩ ?_ ?_ ?_
    · rw [hEffect, ← Bool.not_eq_true]
      intro hPending
      rcases hEvolves.pending _ hPending with hOld | ⟨s, hD, hSub⟩
      · exact Bool.false_ne_true (hQuiet.1.symm.trans hOld)
      · exact hApart' s hD hSub
    · rw [hEffect]
      intro hObs
      rcases hEvolves.observers _ hObs with hOld | hPending | hNew
      · exact hQuiet.2 hOld
      · exact Bool.false_ne_true (hQuiet.1.symm.trans hPending)
      · exact Nat.not_le_of_lt (hTracking m hm) hNew
    · intro s hSub
      rw [hEffect] at hSub
      rcases hEvolves.subscribers s _ hSub with hOld | hObs
      · exact hEvolves.kept s e (hCovers s hOld)
      · exact absurd hObs hQuiet.2
    · rw [hEffect, hFn, hCached]
      exact ihMemo hApart'
    · rw [hCached]
      exact ih hApart

theorem Leads.evolves {e : Nat} {f g : SoliteMemoFn} (h : Leads σ e f g)
    (hEvolves : Evolves (fun _ => False) σ τ)
    (hTracking : ∀ m, m < σ.memoCount → (σ.memo m).trackingEffect < σ.effectCount) :
    Leads τ e f g := by
  induction h with
  | refl => exact .refl
  | signalGet _ hs hSub ih =>
    rw [← hEvolves.value _ hs id]
    exact .signalGet ih (Nat.lt_of_lt_of_le hs hEvolves.signalCount) (hEvolves.kept _ _ hSub)
  | memoGet _ hRelies ih =>
    exact .memoGet ih (Settles.evolves hRelies hEvolves hTracking fun _ hD => hD.elim)

/-! ## The invariant of memos -/

/-- An activation that has nothing to do with a memo. -/
def PlainFrame (σ : Runtime) : Frame → Prop
  | .code run b => b.Plain ∧
      ∀ e r, run = some (e, r) → ∀ m, m < σ.memoCount → (σ.memo m).trackingEffect ≠ e
  | .flush _ => True

/-- The tracking effect of a memo is at work: it has come to some point of the function, or it has
stored the value. -/
def Recomputes (σ : Runtime) (m r : Nat) (b : Code) : Prop :=
  (b = .done ∧ Settles σ (σ.memo m).trackingEffect (σ.memo m).fn (σ.memo m).cachedValue) ∨
    ∃ g, b = memoRecomputeCb m g ∧ r = (σ.effect (σ.memo m).trackingEffect).runs ∧
      Leads σ (σ.memo m).trackingEffect (σ.memo m).fn g

def TopFrame (σ : Runtime) (f : Frame) : Prop :=
  PlainFrame σ f ∨ ∃ m r b, f = .code (some ((σ.memo m).trackingEffect, r)) b ∧
    m < σ.memoCount ∧ Recomputes σ m r b

/-- Only the activation on top can be that of a tracking effect. -/
def FramesOk (σ : Runtime) : Prop :=
  ∀ f fs, σ.frames = f :: fs → TopFrame σ f ∧ ∀ f' ∈ fs, PlainFrame σ f'

/-- What the tables say about memos and their tracking effects. -/
structure Paired (σ : Runtime) : Prop where
  tracking : ∀ m, m < σ.memoCount → (σ.memo m).trackingEffect < σ.effectCount
  injective : ∀ m m', m < σ.memoCount → m' < σ.memoCount →
    (σ.memo m).trackingEffect = (σ.memo m').trackingEffect → m = m'
  alive : ∀ m, m < σ.memoCount → (σ.effect (σ.memo m).trackingEffect).disposed = false
  fn_memo : ∀ m, m < σ.memoCount →
    (σ.effect (σ.memo m).trackingEffect).fn = fun _ => memoRecomputeCb m (σ.memo m).fn
  plain : ∀ e, (∀ m, m < σ.memoCount → (σ.memo m).trackingEffect ≠ e) →
    ∀ n, ((σ.effect e).fn n).Plain

/-- The invariant of the runs that read memos in time. -/
structure Kept (σ : Runtime) : Prop extends Tracked σ, Paired σ where
  framesOk : FramesOk σ
  memos : ∀ m, m < σ.memoCount → (σ.memo m).trackingEffect ∈ σ.observerStack ∨
    (σ.effect (σ.memo m).trackingEffect).pending = true ∨
    Settles σ (σ.memo m).trackingEffect (σ.memo m).fn (σ.memo m).cachedValue
  watched : ∀ e, (σ.effect e).disposed = false → ∀ q ∈ (σ.effect e).memoReads,
    (σ.effect e).pending = true ∨ Relies σ e q.1 q.2

/-- What a step has to respect for the invariant, the frames and the tables apart. -/
structure Respects (σ τ : Runtime) : Prop where
  memoCount : τ.memoCount = σ.memoCount
  pending : ∀ m, m < σ.memoCount → (σ.effect (σ.memo m).trackingEffect).pending = true →
    (σ.memo m).trackingEffect ∈ τ.observerStack ∨
      (τ.effect (σ.memo m).trackingEffect).pending = true
  observers : ∀ m, m < σ.memoCount → (σ.memo m).trackingEffect ∈ σ.observerStack →
    (σ.memo m).trackingEffect ∈ τ.observerStack ∨
      Settles τ (τ.memo m).trackingEffect (τ.memo m).fn (τ.memo m).cachedValue
  memoReads : ∀ e, (τ.effect e).disposed = false → ∀ q ∈ (τ.effect e).memoReads,
    Relies τ e q.1 q.2 ∨ q ∈ (σ.effect e).memoReads ∧ (σ.effect e).disposed = false ∧
      ((σ.effect e).pending = true → (τ.effect e).pending = true)

/-- Every run of a memo's tracking effect stays the recomputation of that memo while the effects of
the memos keep their functions and the others stay plain. -/
theorem Paired.evolves (h : Paired σ) (hEvolves : Evolves D σ τ) (hCount : τ.memoCount = σ.memoCount)
    (hKept : ∀ m, m < σ.memoCount →
      (τ.effect (σ.memo m).trackingEffect).fn = (σ.effect (σ.memo m).trackingEffect).fn ∧
      (τ.effect (σ.memo m).trackingEffect).disposed = false)
    (hPlain : ∀ e, (τ.effect e).fn = (σ.effect e).fn ∨ ∀ n, ((τ.effect e).fn n).Plain) :
    Paired τ where
  tracking m hm := by
    rw [hCount] at hm
    rw [(hEvolves.memo m hm).2.1]
    exact Nat.lt_of_lt_of_le (h.tracking m hm) hEvolves.effectCount
  injective m m' hm hm' hEq := by
    rw [hCount] at hm hm'
    rw [(hEvolves.memo m hm).2.1, (hEvolves.memo m' hm').2.1] at hEq
    exact h.injective m m' hm hm' hEq
  alive m hm := by
    rw [hCount] at hm
    rw [(hEvolves.memo m hm).2.1]
    exact (hKept m hm).2
  fn_memo m hm := by
    rw [hCount] at hm
    rw [(hEvolves.memo m hm).2.1, (hEvolves.memo m hm).1, (hKept m hm).1]
    exact h.fn_memo m hm
  plain e hNot n := by
    rcases hPlain e with hFn | hPlain
    · rw [hFn]
      refine h.plain e (fun m hm => ?_) n
      rw [← (hEvolves.memo m hm).2.1]
      exact hNot m (hCount ▸ hm)
    · exact hPlain n

theorem Kept.next (h : Kept σ) (hEvolves : Evolves D σ τ) (hRespects : Respects σ τ)
    (hTracked : Tracked τ) (hPaired : Paired τ) (hFrames : FramesOk τ) : Kept τ := by
  refine { hTracked, hPaired with framesOk := hFrames, memos := ?_, watched := ?_ }
  · intro m hm
    rw [hRespects.memoCount] at hm
    obtain ⟨hFn, hEffect, hCached⟩ := hEvolves.memo m hm
    rw [hEffect]
    by_cases hObs : (σ.memo m).trackingEffect ∈ σ.observerStack
    · rcases hRespects.observers m hm hObs with hObs' | hSettles
      · exact .inl hObs'
      · exact .inr (.inr (hEffect ▸ hSettles))
    rcases (h.memos m hm).resolve_left hObs with hPending | hSettles
    · rcases hRespects.pending m hm hPending with hObs' | hPending'
      · exact .inl hObs'
      · exact .inr (.inl hPending')
    · by_cases hChanged : ∃ s, D s ∧ (σ.memo m).trackingEffect ∈ (σ.signal s).subscribers
      · obtain ⟨s, hD, hSub⟩ := hChanged
        exact .inr (.inl (hEvolves.scheduled s _ hD hSub (h.alive m hm)))
      · rw [hFn, hCached hObs]
        exact .inr (.inr (hSettles.evolves hEvolves h.tracking
          fun s hD hSub => hChanged ⟨s, hD, hSub⟩))
  · intro e hAlive q hq
    rcases hRespects.memoReads e hAlive q hq with hRelies | ⟨hOld, hAlive', hPending⟩
    · exact .inr hRelies
    · rcases h.watched e hAlive' q hOld with hWaits | hRelies
      · exact .inl (hPending hWaits)
      · by_cases hChanged : ∃ s, D s ∧ e ∈ (σ.signal s).subscribers
        · obtain ⟨s, hD, hSub⟩ := hChanged
          exact .inl (hEvolves.scheduled s e hD hSub hAlive')
        · exact .inr (Settles.evolves hRelies hEvolves h.tracking
            fun s hD hSub => hChanged ⟨s, hD, hSub⟩)

/-! ## Who is on the stack of observers -/

theorem Kept.not_observer (h : Kept σ) {f : Frame} {fs : List Frame} (hFrames : σ.frames = f :: fs)
    (hPlain : PlainFrame σ f) {m : Nat} (hm : m < σ.memoCount) :
    (σ.memo m).trackingEffect ∉ σ.observerStack := by
  intro hObs
  rw [show σ.observerStack = _ from h.observers, hFrames] at hObs
  obtain ⟨f', hf', hEffect⟩ := List.mem_filterMap.1 hObs
  have hPlain' : PlainFrame σ f' := by
    rcases List.mem_cons.1 hf' with rfl | hf'
    · exact hPlain
    · exact (h.framesOk f fs hFrames).2 f' hf'
  cases f' with
  | flush l => exact nomatch hEffect
  | code run b =>
    obtain ⟨⟨e, r⟩, hRun, hEq⟩ := Option.map_eq_some_iff.1 hEffect
    exact hPlain'.2 e r hRun m hm hEq.symm

/-- Under the activation of a tracking effect there is none of another one. -/
theorem Kept.observer_eq (h : Kept σ) {m r : Nat} {b : Code} {fs : List Frame}
    (hFrames : σ.frames = .code (some ((σ.memo m).trackingEffect, r)) b :: fs) {m' : Nat}
    (hm' : m' < σ.memoCount) (hObs : (σ.memo m').trackingEffect ∈ σ.observerStack) :
    (σ.memo m').trackingEffect = (σ.memo m).trackingEffect := by
  rw [show σ.observerStack = _ from h.observers, hFrames] at hObs
  obtain ⟨f', hf', hEffect⟩ := List.mem_filterMap.1 hObs
  rcases List.mem_cons.1 hf' with rfl | hf'
  · exact (Option.some.inj hEffect).symm
  · have hPlain' := (h.framesOk _ fs hFrames).2 f' hf'
    cases f' with
    | flush l => exact nomatch hEffect
    | code run b =>
      obtain ⟨⟨e, r⟩, hRun, hEq⟩ := Option.map_eq_some_iff.1 hEffect
      exact absurd hEq.symm (hPlain'.2 e r hRun m' hm')

theorem PlainFrame.congr {f : Frame} (h : PlainFrame σ f) (hCount : τ.memoCount = σ.memoCount)
    (hMemo : ∀ m, m < σ.memoCount → (τ.memo m).trackingEffect = (σ.memo m).trackingEffect) :
    PlainFrame τ f := by
  cases f with
  | flush l => trivial
  | code run b =>
    refine ⟨h.1, fun e r hRun m hm => ?_⟩
    rw [hCount] at hm
    rw [hMemo m hm]
    exact h.2 e r hRun m hm

/-! ## Steps that have nothing to do with memos -/

/-- What such a step does to the effects: it may create one. -/
def KeepsEffects (σ τ : Runtime) : Prop :=
  ∀ e, ((τ.effect e).fn = (σ.effect e).fn ∧ (τ.effect e).memoReads = (σ.effect e).memoReads ∧
      ((τ.effect e).disposed = false → (σ.effect e).disposed = false) ∧
      ((σ.effect e).pending = true → (τ.effect e).pending = true)) ∨
    e = σ.effectCount ∧ (∀ n, ((τ.effect e).fn n).Plain) ∧ (τ.effect e).memoReads = []

theorem Kept.plainStep (h : Kept σ) (hEvolves : Evolves D σ τ)
    (hCount : τ.memoCount = σ.memoCount) (hEffects : KeepsEffects σ τ)
    (hAlive : ∀ m, m < σ.memoCount → (τ.effect (σ.memo m).trackingEffect).disposed = false)
    (hNone : ∀ m, m < σ.memoCount → (σ.memo m).trackingEffect ∉ σ.observerStack)
    (hTracked : Tracked τ) (hFrames : FramesOk τ) : Kept τ := by
  have hOld (m : Nat) (hm : m < σ.memoCount) := (hEffects (σ.memo m).trackingEffect).resolve_right
    fun hNew => Nat.ne_of_lt (h.tracking m hm) hNew.1
  refine h.next hEvolves ?_ hTracked ?_ hFrames
  · exact
    { memoCount := hCount
      pending := fun m hm hPending => .inr ((hOld m hm).2.2.2 hPending)
      observers := fun m hm hObs => absurd hObs (hNone m hm)
      memoReads := by
        intro e hAlive' q hq
        rcases hEffects e with ⟨-, hReads, hDisposed, hPending⟩ | ⟨-, -, hReads⟩
        · rw [hReads] at hq
          exact .inr ⟨hq, hDisposed hAlive', hPending⟩
        · rw [hReads] at hq
          exact nomatch hq }
  · refine h.toPaired.evolves hEvolves hCount (fun m hm => ⟨(hOld m hm).1, hAlive m hm⟩) fun e => ?_
    rcases hEffects e with ⟨hFn, -⟩ | ⟨-, hPlain, -⟩
    · exact .inl hFn
    · exact .inr hPlain

theorem Evolves.of_same (hSignal : τ.signal = σ.signal) (hSignals : τ.signalCount = σ.signalCount)
    (hMemo : τ.memo = σ.memo) (hMemos : τ.memoCount = σ.memoCount)
    (hEffects : σ.effectCount ≤ τ.effectCount)
    (hPending : ∀ e, (τ.effect e).pending = true → (σ.effect e).pending = true)
    (hObs : ∀ e, e ∈ τ.observerStack →
      e ∈ σ.observerStack ∨ (σ.effect e).pending = true ∨ σ.effectCount ≤ e) :
    Evolves (fun _ => False) σ τ where
  signalCount := Nat.le_of_eq hSignals.symm
  effectCount := hEffects
  memoCount := Nat.le_of_eq hMemos.symm
  value s _ _ := by rw [hSignal]
  subscribers s e hSub := .inl (hSignal ▸ hSub)
  kept s e hSub := by rwa [hSignal]
  memo m _ := by
    rw [hMemo]
    exact ⟨rfl, rfl, fun _ => rfl⟩
  pending e h := .inl (hPending e h)
  scheduled _ _ hD := hD.elim
  observers := hObs

end Runtime

end Calynda.Solite
