import Calynda.Solite.MemoSteps

/-!
# Runs that read memos in time

The callbacks of memos and the flushes keep the invariant too: along a run that reads memos in
time, no memo is stale.
-/

namespace Calynda.Solite

namespace Runtime

variable {σ τ : Runtime}

/-! ## Reading memos -/

/-- The read of a memo leaves the tables as they are, but for what the effect has read. -/
theorem Kept.memoGet (h : Kept σ) {run : Option (Nat × Nat)} {m : Nat} {b : Code} {fs : List Frame}
    (hTop : ∃ b₀, σ.frames = .code run b₀ :: fs)
    (hRead : m < σ.memoCount → σ.Quiet m ∧ ∀ e, σ.solidObserverCurrent = some e → σ.Covers e m)
    (hTracked : Tracked
      ((σ.noteMemoRead run m (σ.soliteMemoGet m)).withFrames (.code run b :: fs)))
    (hFrames : FramesOk
      ((σ.noteMemoRead run m (σ.soliteMemoGet m)).withFrames (.code run b :: fs))) :
    Kept ((σ.noteMemoRead run m (σ.soliteMemoGet m)).withFrames (.code run b :: fs)) := by
  obtain ⟨b₀, hTop⟩ := hTop
  obtain ⟨hEvolves, hMemo, hCount, hEffects, hStack, hEffect⟩ :=
    noteMemoRead_tables (σ := σ) run m (σ.soliteMemoGet m) (.code run b :: fs)
  refine h.next hEvolves ?_ hTracked ?_ hFrames
  · exact
    { memoCount := hCount
      pending := by
        intro m' _ hPending
        rw [(hEffect _).2.2.2.1]
        exact .inr hPending
      observers := by
        intro m' _ hObs
        rw [hStack]
        exact .inl hObs
      memoReads := by
        intro e hAlive q hq
        obtain ⟨-, -, hDisposed, hPending, hReads⟩ := hEffect e
        rcases hReads q hq with hOld | ⟨rfl, hm, r, rfl⟩
        · exact .inr ⟨hOld, hDisposed ▸ hAlive, fun hWaits => hPending ▸ hWaits⟩
        · obtain ⟨hQuiet, hCovers⟩ := hRead hm
          have hRelies := h.relies hm hQuiet (hCovers e (h.observer_head hTop))
          rw [← soliteMemoGet_of_lt hm] at hRelies
          exact .inl (Settles.evolves hRelies hEvolves h.tracking fun _ hD => hD.elim) }
  · exact h.toPaired.evolves hEvolves hCount
      (fun m' hm' => ⟨(hEffect _).1, (hEffect _).2.2.1.trans (h.alive m' hm')⟩)
      fun e => .inl (hEffect e).1

/-! ## The run of a tracking effect -/

section TrackingSteps

variable {m r : Nat} {fs : List Frame} (h : Kept σ) (hm : m < σ.memoCount)
include h hm

/-- Nothing but the stored value and the reads of the tracking effect changes. -/
theorem Kept.trackingStep {b : Code} (hFrames : σ.frames = .code (some ((σ.memo m).trackingEffect, r)) b :: fs)
    (hEvolves : Evolves (fun _ => False) σ τ) (hCount : τ.memoCount = σ.memoCount)
    (hEffect : ∀ e, (τ.effect e).fn = (σ.effect e).fn ∧
      (τ.effect e).memoReads = (σ.effect e).memoReads ∧
      (τ.effect e).disposed = (σ.effect e).disposed ∧ (τ.effect e).pending = (σ.effect e).pending)
    (hObs : (σ.memo m).trackingEffect ∈ τ.observerStack ∨
      Settles τ (τ.memo m).trackingEffect (τ.memo m).fn (τ.memo m).cachedValue)
    (hTracked : Tracked τ) (hFrames' : FramesOk τ) : Kept τ := by
  refine h.next hEvolves ?_ hTracked ?_ hFrames'
  · exact
    { memoCount := hCount
      pending := by
        intro m' _ hPending
        rw [(hEffect _).2.2.2]
        exact .inr hPending
      observers := by
        intro m' hm' hObs'
        have hEq := h.observer_eq hFrames hm' hObs'
        obtain rfl := h.injective m' m hm' hm hEq
        exact hObs
      memoReads := by
        intro e hAlive q hq
        obtain ⟨-, hReads, hDisposed, hPending⟩ := hEffect e
        exact .inr ⟨hReads ▸ hq, hDisposed ▸ hAlive, fun hWaits => hPending ▸ hWaits⟩ }
  · exact h.toPaired.evolves hEvolves hCount
      (fun m' hm' => ⟨(hEffect _).1, (hEffect _).2.2.1.trans (h.alive m' hm')⟩)
      fun e => .inl (hEffect e).1

omit hm in
theorem Kept.rest_plain {b : Code} (hFrames : σ.frames = .code (some ((σ.memo m).trackingEffect, r)) b :: fs)
    (hEvolves : Evolves (fun _ => False) σ τ) (hCount : τ.memoCount = σ.memoCount) :
    ∀ f ∈ fs, PlainFrame τ f := fun f hf =>
  ((h.framesOk _ fs hFrames).2 f hf).congr hCount fun m' hm' => (hEvolves.memo m' hm').2.1

theorem Kept.tracking_done
    (hFrames : σ.frames = .code (some ((σ.memo m).trackingEffect, r)) .done :: fs)
    (hSettles : Settles σ (σ.memo m).trackingEffect (σ.memo m).fn (σ.memo m).cachedValue)
    (hTracked : Tracked (σ.withFrames fs).solidObserverPop) :
    Kept (σ.withFrames fs).solidObserverPop := by
  have hEvolves : Evolves (fun _ => False) σ (σ.withFrames fs).solidObserverPop :=
    Evolves.of_same rfl rfl rfl rfl (Nat.le_refl _) (fun _ hPending => hPending)
      fun e he => .inl (List.mem_of_mem_tail he)
  exact h.trackingStep hm hFrames hEvolves rfl (fun _ => ⟨rfl, rfl, rfl, rfl⟩)
    (.inr (hSettles.evolves hEvolves h.tracking fun _ hD => hD.elim)) hTracked
    (framesOk_of_all rfl (h.rest_plain hFrames hEvolves rfl))

theorem Kept.tracking_store {v : CalyndaRtWord}
    (hFrames : σ.frames =
      .code (some ((σ.memo m).trackingEffect, r)) (.storeMemo m v .done) :: fs)
    (hLeads : Leads σ (σ.memo m).trackingEffect (σ.memo m).fn (.value v))
    (hTracked : Tracked ((σ.withFrames (.code (some ((σ.memo m).trackingEffect, r)) .done ::
      fs)).setMemo m { σ.memo m with cachedValue := v })) :
    Kept ((σ.withFrames (.code (some ((σ.memo m).trackingEffect, r)) .done :: fs)).setMemo m
      { σ.memo m with cachedValue := v }) := by
  have hObs : (σ.memo m).trackingEffect ∈ σ.observerStack :=
    List.mem_of_mem_head? (h.observer_head hFrames)
  generalize hτ : (σ.withFrames (.code (some ((σ.memo m).trackingEffect, r)) .done ::
    fs)).setMemo m { σ.memo m with cachedValue := v } = τ at hTracked ⊢
  have hSelf : τ.memo m = { σ.memo m with cachedValue := v } := by
    rw [← hτ]
    exact Function.update_self ..
  have hOther (m' : Nat) (hNe : m' ≠ m) : τ.memo m' = σ.memo m' := by
    rw [← hτ]
    exact Function.update_of_ne hNe ..
  have hEvolves : Evolves (fun _ => False) σ τ := by
    subst hτ
    exact
      { signalCount := Nat.le_refl _
        effectCount := Nat.le_refl _
        memoCount := Nat.le_refl _
        value := fun _ _ _ => rfl
        subscribers := fun _ _ hSub => .inl hSub
        kept := fun _ _ hSub => hSub
        memo := by
          intro m' _
          by_cases hNe : m' = m
          · subst hNe
            rw [hSelf]
            exact ⟨rfl, rfl, fun hNot => absurd hObs hNot⟩
          · rw [hOther m' hNe]
            exact ⟨rfl, rfl, fun _ => rfl⟩
        pending := fun _ hPending => .inl hPending
        scheduled := fun _ _ hD => hD.elim
        observers := fun _ he => .inl he }
  have hCount : τ.memoCount = σ.memoCount := by rw [← hτ]; rfl
  have hTop : τ.frames = .code (some ((σ.memo m).trackingEffect, r)) .done :: fs := by
    rw [← hτ]
    rfl
  have hSettles : Settles τ (τ.memo m).trackingEffect (τ.memo m).fn (τ.memo m).cachedValue := by
    rw [hSelf]
    exact (hLeads.settles (.value _ v)).evolves hEvolves h.tracking fun _ hD => hD.elim
  have hRest := h.rest_plain hFrames hEvolves hCount
  refine h.trackingStep hm hFrames hEvolves hCount (fun _ => ?_) (.inr hSettles) hTracked ?_
  · rw [← hτ]
    exact ⟨rfl, rfl, rfl, rfl⟩
  · intro f fs' hFrames'
    obtain ⟨rfl, rfl⟩ := List.cons.inj (hTop.symm.trans hFrames')
    refine ⟨.inr ⟨m, r, .done, ?_, by rw [hCount]; exact hm, .inl ⟨rfl, hSettles⟩⟩, hRest⟩
    rw [hSelf]

theorem Kept.tracking_signalGet {s : Nat} {k : CalyndaRtWord → SoliteMemoFn}
    (hFrames : σ.frames = .code (some ((σ.memo m).trackingEffect, r))
      (memoRecomputeCb m (.signalGet s k)) :: fs)
    (hRun : r = (σ.effect (σ.memo m).trackingEffect).runs)
    (hLeads : Leads σ (σ.memo m).trackingEffect (σ.memo m).fn (.signalGet s k))
    (hs : s < σ.signalCount)
    (hTracked : Tracked (σ.codeStep (some ((σ.memo m).trackingEffect, r)) fs
      (memoRecomputeCb m (.signalGet s k)))) :
    Kept (σ.codeStep (some ((σ.memo m).trackingEffect, r)) fs
      (memoRecomputeCb m (.signalGet s k))) := by
  have hGot : Got s σ (σ.codeStep (some ((σ.memo m).trackingEffect, r)) fs
      (memoRecomputeCb m (.signalGet s k))) :=
    got_signalGet _ s (fun v => memoRecomputeCb m (k v)) fs
  have hTop : (σ.codeStep (some ((σ.memo m).trackingEffect, r)) fs
      (memoRecomputeCb m (.signalGet s k))).frames =
      .code (some ((σ.memo m).trackingEffect, r))
        (memoRecomputeCb m (k (σ.signal s).value)) :: fs := by
    have hValue : (σ.soliteSignalGet s).2 = (σ.signal s).value := by
      rw [soliteSignalGet, if_pos hs]
    rw [← hValue]
    rfl
  generalize (σ.codeStep (some ((σ.memo m).trackingEffect, r)) fs
    (memoRecomputeCb m (.signalGet s k))) = τ at hTracked hGot hTop ⊢
  have hHead := h.observer_head hFrames
  refine h.trackingStep hm hFrames hGot.evolves hGot.memoCount (fun e => ?_) (.inl ?_) hTracked ?_
  · obtain ⟨hFn, -, hReads, hDisposed, hPending⟩ := hGot.effect e
    exact ⟨hFn, hReads, hDisposed, hPending⟩
  · rw [hGot.observerStack]
    exact List.mem_of_mem_head? hHead
  · intro f fs' hFrames'
    obtain ⟨rfl, rfl⟩ := List.cons.inj (hTop.symm.trans hFrames')
    refine ⟨.inr ⟨m, r, _, by rw [hGot.memo], by rw [hGot.memoCount]; exact hm,
      .inr ⟨k (σ.signal s).value, rfl, ?_, ?_⟩⟩, h.rest_plain hFrames hGot.evolves hGot.memoCount⟩
    · rw [hGot.memo, (hGot.effect _).2.1]
      exact hRun
    · rw [hGot.memo, ← hGot.value s]
      exact (hLeads.evolves hGot.evolves h.tracking).signalGet (hGot.signalCount.symm ▸ hs)
        ((hGot.subscribers s _).2 (.inr ⟨hHead, rfl, hs⟩))

theorem Kept.tracking_memoGet {m' : Nat} {k : CalyndaRtWord → SoliteMemoFn}
    (hFrames : σ.frames = .code (some ((σ.memo m).trackingEffect, r))
      (memoRecomputeCb m (.memoGet m' k)) :: fs)
    (hRun : r = (σ.effect (σ.memo m).trackingEffect).runs)
    (hLeads : Leads σ (σ.memo m).trackingEffect (σ.memo m).fn (.memoGet m' k))
    (hm' : m' < σ.memoCount)
    (hRead : σ.Quiet m' ∧ ∀ e, σ.solidObserverCurrent = some e → σ.Covers e m')
    (hTracked : Tracked (σ.codeStep (some ((σ.memo m).trackingEffect, r)) fs
      (memoRecomputeCb m (.memoGet m' k)))) :
    Kept (σ.codeStep (some ((σ.memo m).trackingEffect, r)) fs
      (memoRecomputeCb m (.memoGet m' k))) := by
  have hRelies := h.relies hm' hRead.1 (hRead.2 _ (h.observer_head hFrames))
  rw [← soliteMemoGet_of_lt hm'] at hRelies
  obtain ⟨hEvolves, hMemo, hCount, -, -, hEffect⟩ :=
    noteMemoRead_tables (σ := σ) (some ((σ.memo m).trackingEffect, r)) m' (σ.soliteMemoGet m')
      (.code (some ((σ.memo m).trackingEffect, r)) (memoRecomputeCb m (k (σ.soliteMemoGet m'))) :: fs)
  refine h.memoGet ⟨_, hFrames⟩ (fun _ => hRead) hTracked ?_
  intro f fs' hFrames'
  obtain ⟨rfl, rfl⟩ := List.cons.inj hFrames'
  refine ⟨.inr ⟨m, r, _, by rw [hMemo], by rw [hCount]; exact hm,
    .inr ⟨k (σ.soliteMemoGet m'), rfl, ?_, ?_⟩⟩, h.rest_plain hFrames hEvolves hCount⟩
  · rw [hMemo, (hEffect _).2.1]
    exact hRun
  · rw [hMemo]
    exact (hLeads.evolves hEvolves h.tracking).memoGet
      (Settles.evolves hRelies hEvolves h.tracking fun _ hD => hD.elim)

end TrackingSteps

/-! ## Flushes -/

section FlushCons

variable {e : Nat} {rest : List Nat} {fs : List Frame} (h : Kept σ)
  (hFrames : σ.frames = .flush (e :: rest) :: fs)

include h hFrames

theorem Kept.waits : (σ.effect e).pending = true := by
  rw [h.pending_iff, waiting, hFrames]
  exact List.mem_append_right _ List.mem_cons_self

theorem Kept.flush_rest : ∀ f ∈ Frame.flush rest :: fs, PlainFrame σ f :=
  List.forall_mem_cons.2 ⟨trivial, (h.framesOk _ fs hFrames).2⟩

/-- The next effect of a snapshot has been disposed. -/
theorem Kept.flush_disposed (hDisposed : (σ.effect e).disposed = true)
    (hTracked : Tracked ((σ.setEffect e ((σ.effect e).setPending false)).withFrames
      (.flush rest :: fs))) :
    Kept ((σ.setEffect e ((σ.effect e).setPending false)).withFrames (.flush rest :: fs)) := by
  generalize hτ : (σ.setEffect e ((σ.effect e).setPending false)).withFrames (.flush rest :: fs) = τ
    at hTracked ⊢
  have hSelf : τ.effect e = (σ.effect e).setPending false := by
    rw [← hτ]
    exact Function.update_self ..
  have hOther (e' : Nat) (hNe : e' ≠ e) : τ.effect e' = σ.effect e' := by
    rw [← hτ]
    exact Function.update_of_ne hNe ..
  have hNotTracking (m : Nat) (hm : m < σ.memoCount) : (σ.memo m).trackingEffect ≠ e := by
    rintro rfl
    exact Bool.false_ne_true ((h.alive m hm).symm.trans hDisposed)
  have hFn (e' : Nat) : (τ.effect e').fn = (σ.effect e').fn := by
    by_cases hIs : e' = e
    · rw [hIs, hSelf]
      rfl
    · rw [hOther e' hIs]
  have hEvolves : Evolves (fun _ => False) σ τ := by
    refine Evolves.of_same (by rw [← hτ]; rfl) (by rw [← hτ]; rfl) (by rw [← hτ]; rfl)
      (by rw [← hτ]; rfl) (Nat.le_of_eq (by rw [← hτ]; rfl)) (fun e' hPending => ?_)
      fun _ he => .inl (by rwa [← hτ] at he)
    by_cases hIs : e' = e
    · exact hIs ▸ h.waits hFrames
    · rwa [hOther e' hIs] at hPending
  have hCount : τ.memoCount = σ.memoCount := by
    rw [← hτ]
    rfl
  refine h.next hEvolves ?_ hTracked ?_ ?_
  · exact
    { memoCount := hCount
      pending := fun m hm hPending => .inr (by rwa [hOther _ (hNotTracking m hm)])
      observers := fun m hm hObs =>
        absurd hObs (h.not_observer (f := .flush (e :: rest)) hFrames trivial hm)
      memoReads := by
        intro e' hAlive q hq
        by_cases hIs : e' = e
        · rw [hIs, hSelf] at hAlive
          exact (Bool.false_ne_true (hAlive.symm.trans hDisposed)).elim
        · rw [hOther e' hIs] at hAlive hq ⊢
          exact .inr ⟨hq, hAlive, id⟩ }
  · refine h.toPaired.evolves hEvolves hCount (fun m hm => ⟨hFn _, ?_⟩) fun e' => .inl (hFn e')
    rw [hOther _ (hNotTracking m hm)]
    exact h.alive m hm
  · rw [← hτ]
    exact framesOk_of_all rfl fun f hf => (h.flush_rest hFrames f hf).congr rfl fun _ _ => rfl

/-- The frame of an effect that starts is one of a memo or a plain one. -/
theorem Kept.started_frames (hMemo : τ.memo = σ.memo) (hCount : τ.memoCount = σ.memoCount)
    (hStarted : τ.effect e = ((σ.effect e).setPending false).startRun)
    (hTop : τ.frames = .code (some (e, (σ.effect e).runs + 1))
      ((σ.effect e).fn (σ.effect e).runs) :: .flush rest :: fs) : FramesOk τ := by
  intro f fs' hFrames'
  obtain ⟨rfl, rfl⟩ := List.cons.inj (hTop.symm.trans hFrames')
  refine ⟨?_, fun f' hf' => (h.flush_rest hFrames f' hf').congr hCount fun m _ => by rw [hMemo]⟩
  by_cases hTracking : ∃ m, m < σ.memoCount ∧ (σ.memo m).trackingEffect = e
  · obtain ⟨m, hm, rfl⟩ := hTracking
    refine .inr ⟨m, _, _, by rw [hMemo], by rw [hCount]; exact hm,
      .inr ⟨(σ.memo m).fn, ?_, ?_, ?_⟩⟩
    · rw [h.fn_memo m hm]
    · rw [hMemo, hStarted]
      rfl
    · rw [hMemo]
      exact .refl
  · have hNot : ∀ m, m < σ.memoCount → (σ.memo m).trackingEffect ≠ e := fun m hm hEq =>
      hTracking ⟨m, hm, hEq⟩
    refine .inl ⟨h.plain e hNot _, ?_⟩
    intro e' r hRun m hm
    obtain ⟨rfl, -⟩ := Prod.mk.inj (Option.some.inj hRun)
    rw [hMemo]
    exact hNot m (hCount ▸ hm)

/-- The next effect of a snapshot starts, be it the tracking effect of a memo or another one. -/
theorem Kept.flush_started (hStarted : τ.effect e = ((σ.effect e).setPending false).startRun)
    (hSame : ∀ e', e' ≠ e → τ.effect e' = σ.effect e')
    (hStack : τ.observerStack = e :: σ.observerStack)
    (hSignal : τ.signal = σ.signal ∧ τ.signalCount = σ.signalCount)
    (hMemo : τ.memo = σ.memo ∧ τ.memoCount = σ.memoCount ∧ τ.effectCount = σ.effectCount)
    (hTop : τ.frames = .code (some (e, (σ.effect e).runs + 1))
      ((σ.effect e).fn (σ.effect e).runs) :: .flush rest :: fs)
    (hTracked : Tracked τ) : Kept τ := by
  have hFn (e' : Nat) : (τ.effect e').fn = (σ.effect e').fn ∧
      (τ.effect e').disposed = (σ.effect e').disposed := by
    by_cases hIs : e' = e
    · rw [hIs, hStarted]
      exact ⟨rfl, rfl⟩
    · rw [hSame e' hIs]
      exact ⟨rfl, rfl⟩
  have hEvolves : Evolves (fun _ => False) σ τ := by
    refine Evolves.of_same hSignal.1 hSignal.2 hMemo.1 hMemo.2.1 (Nat.le_of_eq hMemo.2.2.symm)
      (fun e' hPending => ?_) fun e' he => ?_
    · by_cases hIs : e' = e
      · exact hIs ▸ h.waits hFrames
      · rwa [hSame e' hIs] at hPending
    · rw [hStack] at he
      rcases List.mem_cons.1 he with rfl | he
      · exact .inr (.inl (h.waits hFrames))
      · exact .inl he
  refine h.next hEvolves ?_ hTracked ?_ (h.started_frames hFrames hMemo.1 hMemo.2.1 hStarted hTop)
  · exact
    { memoCount := hMemo.2.1
      pending := by
        intro m hm hPending
        by_cases hIs : (σ.memo m).trackingEffect = e
        · rw [hStack, hIs]
          exact .inl List.mem_cons_self
        · rw [hSame _ hIs]
          exact .inr hPending
      observers := fun m hm hObs =>
        absurd hObs (h.not_observer (f := .flush (e :: rest)) hFrames trivial hm)
      memoReads := by
        intro e' hAlive q hq
        by_cases hIs : e' = e
        · rw [hIs, hStarted] at hq
          cases hq
        · rw [hSame e' hIs] at hAlive hq ⊢
          exact .inr ⟨hq, hAlive, id⟩ }
  · exact h.toPaired.evolves hEvolves hMemo.2.1
      (fun m hm => ⟨(hFn _).1, (hFn _).2.trans (h.alive m hm)⟩) fun e' => .inl (hFn e').1

theorem Kept.flush_cons
    (hRoom : (σ.effect e).disposed = false → σ.observerStack.length < solidObserverStackMax)
    (hTracked : Tracked (σ.flushLoop fs (e :: rest))) : Kept (σ.flushLoop fs (e :: rest)) := by
  let cleared := (σ.setEffect e ((σ.effect e).setPending false)).withFrames (.flush rest :: fs)
  have hSelf : cleared.effect e = (σ.effect e).setPending false := Function.update_self ..
  have hLoop : σ.flushLoop fs (e :: rest) = cleared.effectRun e := rfl
  rw [hLoop] at hTracked ⊢
  cases hDisposed : (σ.effect e).disposed with
  | true =>
    rw [effectRun_of_disposed (by rw [hSelf]; exact hDisposed)] at hTracked ⊢
    exact h.flush_disposed hFrames hDisposed hTracked
  | false =>
    rw [effectRun_of_alive (σ := cleared) (e := e) (by rw [hSelf]; exact hDisposed)
      (hRoom hDisposed), hSelf] at hTracked ⊢
    refine h.flush_started hFrames (Function.update_self ..) (fun e' hNe => ?_) rfl ⟨rfl, rfl⟩
      ⟨rfl, rfl, rfl⟩ rfl hTracked
    exact (Function.update_of_ne hNe ..).trans (Function.update_of_ne hNe ..)

end FlushCons

theorem Kept.flush_nil {fs : List Frame} (h : Kept σ) (hFrames : σ.frames = .flush [] :: fs)
    (hTracked : Tracked (σ.flushLoop fs [])) : Kept (σ.flushLoop fs []) := by
  have hNone (m : Nat) (hm : m < σ.memoCount) : (σ.memo m).trackingEffect ∉ σ.observerStack :=
    h.not_observer (f := .flush []) hFrames trivial hm
  have hRest := (h.framesOk _ fs hFrames).2
  have hSame (τ : Runtime) (hτ : τ.signal = σ.signal ∧ τ.signalCount = σ.signalCount ∧
      τ.memo = σ.memo ∧ τ.memoCount = σ.memoCount ∧ τ.effectCount = σ.effectCount ∧
      τ.effect = σ.effect ∧ τ.observerStack = σ.observerStack)
      (hTracked : Tracked τ) (hFrames : FramesOk τ) : Kept τ := by
    obtain ⟨h₁, h₂, h₃, h₄, h₅, h₆, h₇⟩ := hτ
    refine h.plainStep (Evolves.of_same h₁ h₂ h₃ h₄ (Nat.le_of_eq h₅.symm)
      (fun e hPending => h₆ ▸ hPending) fun e he => .inl (h₇ ▸ he)) h₄ (fun e => .inl ?_)
      (fun m hm => ?_) hNone hTracked hFrames
    · rw [h₆]
      exact ⟨rfl, rfl, id, id⟩
    · rw [h₆]
      exact h.alive m hm
  by_cases hEmpty : σ.pendingQueue = []
  · rw [Runtime.flushLoop, if_pos hEmpty] at hTracked ⊢
    exact hSame _ ⟨rfl, rfl, rfl, rfl, rfl, rfl, rfl⟩ hTracked
      (framesOk_of_all rfl fun f hf => (hRest f hf).congr rfl fun _ _ => rfl)
  · rw [Runtime.flushLoop, if_neg hEmpty] at hTracked ⊢
    exact hSame _ ⟨rfl, rfl, rfl, rfl, rfl, rfl, rfl⟩ hTracked
      (framesOk_plain rfl trivial fun f hf => (hRest f hf).congr rfl fun _ _ => rfl)

/-! ## Runs that read memos in time -/

theorem batchEnd_tables : σ.soliteBatchEnd.signal = σ.signal ∧
    σ.soliteBatchEnd.signalCount = σ.signalCount ∧ σ.soliteBatchEnd.effect = σ.effect ∧
    σ.soliteBatchEnd.effectCount = σ.effectCount ∧ σ.soliteBatchEnd.memo = σ.memo ∧
    σ.soliteBatchEnd.memoCount = σ.memoCount ∧
    σ.soliteBatchEnd.observerStack = σ.observerStack ∧
    (σ.soliteBatchEnd.frames = σ.frames ∨ σ.soliteBatchEnd.frames = .flush [] :: σ.frames) := by
  unfold soliteBatchEnd
  dsimp only
  split
  · exact flushPending_tables (σ := { σ with batchDepth := σ.batchDepth - 1 })
  · exact ⟨rfl, rfl, rfl, rfl, rfl, rfl, rfl, .inl rfl⟩

theorem Kept.plain_code {run : Option (Nat × Nat)} {b : Code} {fs : List Frame} (h : Kept σ)
    (hFrames : σ.frames = .code run b :: fs) (hPlain : PlainFrame σ (.code run b))
    (hTimely : Timely σ) (hTracked : Tracked (σ.codeStep run fs b)) :
    Kept (σ.codeStep run fs b) := by
  have hRoom := hTimely.1
  unfold Roomy at hRoom
  rw [hFrames] at hRoom
  have hRead := hTimely.2 run b fs hFrames
  cases b with
  | done =>
    cases run with
    | none => exact h
    | some run => exact h.plain_done hFrames hPlain hTracked
  | createSignal v k => exact h.plain_createSignal hFrames hPlain rfl hTracked
  | signalGet s k => exact h.plain_signalGet hFrames hPlain rfl hTracked
  | signalSet s v k => exact h.plain_signalSet hFrames hPlain rfl hRoom hTracked
  | batchStart k =>
    exact h.sameStep hFrames hPlain (show k.Plain from hPlain.1) hTracked rfl rfl rfl rfl rfl rfl rfl
      (.inl rfl)
  | batchEnd k =>
    obtain ⟨h₁, h₂, h₃, h₄, h₅, h₆, h₇, h₈⟩ :=
      batchEnd_tables (σ := σ.withFrames (.code run k :: fs))
    exact h.sameStep hFrames hPlain (show k.Plain from hPlain.1) hTracked h₁ h₂ h₃ h₄ h₅ h₆ h₇ h₈
  | createEffect fn k => exact h.plain_createEffect hFrames hPlain hRoom hTracked
  | disposeEffect e k => exact h.plain_disposeEffect hFrames hPlain rfl hRead hTracked
  | createMemo fn k => exact h.plain_createMemo hFrames hPlain hRoom hTracked
  | memoGet m k =>
    obtain ⟨-, hMemo, hCount, -⟩ := noteMemoRead_tables (σ := σ) run m (σ.soliteMemoGet m)
      (.code run (k (σ.soliteMemoGet m)) :: fs)
    exact h.memoGet ⟨_, hFrames⟩ hRead.2 hTracked
      (framesOk_resume h hFrames hPlain (hPlain.1 _) hCount hMemo (.inl rfl))
  | storeMemo m v k => exact hPlain.1.elim

theorem Kept.tracking_code {m r : Nat} {b : Code} {fs : List Frame} (h : Kept σ)
    (hm : m < σ.memoCount) (hFrames : σ.frames = .code (some ((σ.memo m).trackingEffect, r)) b :: fs)
    (hWork : Recomputes σ m r b) (hTimely : Timely σ)
    (hTracked : Tracked (σ.codeStep (some ((σ.memo m).trackingEffect, r)) fs b)) :
    Kept (σ.codeStep (some ((σ.memo m).trackingEffect, r)) fs b) := by
  have hRead := hTimely.2 _ b fs hFrames
  have hTracking : Tracking σ (some ((σ.memo m).trackingEffect, r)) := ⟨m, r, hm, rfl⟩
  rcases hWork with ⟨rfl, hSettles⟩ | ⟨g, rfl, hRun, hLeads⟩
  · exact h.tracking_done hm hFrames hSettles hTracked
  · cases g with
    | value v => exact h.tracking_store hm hFrames hLeads hTracked
    | signalGet s k => exact h.tracking_signalGet hm hFrames hRun hLeads (hRead hTracking) hTracked
    | memoGet m' k =>
      have hm' := hRead.1 hTracking
      exact h.tracking_memoGet hm hFrames hRun hLeads hm' (hRead.2 hm') hTracked

/-- What one step keeps. -/
theorem Kept.step (h : Kept σ) (hTimely : Timely σ) : Kept σ.step := by
  have hTracked := h.toTracked.step hTimely.1
  unfold Runtime.step at hTracked ⊢
  cases hFrames : σ.frames with
  | nil => exact h
  | cons f fs =>
    rw [hFrames] at hTracked
    cases f with
    | flush snapshot =>
      cases snapshot with
      | nil => exact h.flush_nil hFrames hTracked
      | cons e rest =>
        have hRoom := hTimely.1
        unfold Roomy at hRoom
        rw [hFrames] at hRoom
        exact h.flush_cons hFrames hRoom hTracked
    | code run b =>
      rcases (h.framesOk _ fs hFrames).1 with hPlain | ⟨m, r, b', hEq, hm, hWork⟩
      · exact h.plain_code hFrames hPlain hTimely hTracked
      · cases hEq
        exact h.tracking_code hm hFrames hWork hTimely hTracked

theorem kept_start {program : Code} (hPlain : program.Plain) : Kept (start program) where
  toTracked := tracked_start program
  tracking _ hm := nomatch hm
  injective _ _ hm := nomatch hm
  alive _ hm := nomatch hm
  fn_memo _ hm := nomatch hm
  plain _ _ _ := trivial
  framesOk := framesOk_plain rfl ⟨hPlain, nofun⟩ nofun
  memos _ hm := nomatch hm
  watched _ _ _ hq := nomatch hq

/-- What a whole run keeps. -/
theorem Kept.run (h : Kept σ) (hRun : Run Timely σ τ) : Kept τ := by
  induction hRun with
  | refl => exact h
  | tail _ hStep ih =>
    obtain ⟨hTimely, rfl⟩ := hStep
    exact ih.step hTimely

/-- No memo is stale: a memo that is read has the value of its function, and at rest an effect has
read the value that the memo still has. -/
structure NeverStale (σ : Runtime) : Prop where
  get : ∀ run m k fs, σ.frames = .code run (.memoGet m k) :: fs → m < σ.memoCount →
    Evaluates σ (σ.memo m).fn (σ.soliteMemoGet m)
  reads : σ.TopLevel → σ.batchDepth = 0 → ∀ e, (σ.effect e).disposed = false →
    ∀ q ∈ (σ.effect e).memoReads, Evaluates σ (σ.memo q.1).fn q.2

/-- Memos are not stale where they are read in time. -/
theorem neverStale_of_timely {program : Code} (hPlain : program.Plain)
    (hRun : Run Timely (start program) σ) (hTimely : Timely σ) : NeverStale σ := by
  have h := (kept_start hPlain).run hRun
  constructor
  · intro run m k fs hFrames hm
    obtain ⟨hQuiet, -⟩ := (hTimely.2 run _ fs hFrames).2 hm
    obtain ⟨-, -, -, hSettles, -⟩ := relies_iff.1 (h.relies hm hQuiet fun s hSub => hSub)
    rw [soliteMemoGet_of_lt hm]
    exact hSettles.evaluates
  · intro hTop hDepth e hAlive q hq
    rcases h.watched e hAlive q hq with hPending | hRelies
    · exact absurd ((h.toTracked.idle hTop hDepth e).symm.trans hPending) Bool.false_ne_true
    · obtain ⟨-, -, -, hSettles, hCached⟩ := relies_iff.1 hRelies
      rw [← hCached]
      exact hSettles.evaluates

/-- A memo of a signal, read at top level. -/
def oneMemo : Code :=
  .createSignal 1 fun s =>
    .createMemo (.signalGet s .value) fun m => .memoGet m fun _ => .done

theorem neverStale_oneMemo : NeverStale (steps 5 (start oneMemo)) :=
  neverStale_of_timely (show oneMemo.Plain from fun _ _ _ => trivial)
    (run_steps fun k hk => match k, hk with
      | 0, _ => .of_head rfl trivial trivial
      | 1, _ => .of_head rfl (by decide) trivial
      | 2, _ => .of_head rfl trivial fun _ => Nat.one_pos
      | 3, _ => .of_head rfl trivial trivial
      | 4, _ => .of_head rfl trivial trivial)
    (.of_head rfl trivial
      ⟨fun hTracking => (nomatch hTracking), fun _ => ⟨⟨rfl, List.not_mem_nil⟩, nofun⟩⟩)

/-- A memo read in a batch after its signal was set. -/
def lateMemo : Code :=
  .createSignal 0 fun s =>
    .createMemo (.signalGet s .value) fun m =>
      .batchStart (.signalSet s 1 (.memoGet m fun _ => .batchEnd .done))

theorem not_neverStale_lateMemo : ¬ ∀ program σ, program.Plain →
    Run (fun _ => True) (start program) σ → NeverStale σ := by
  intro h
  have hStale := h lateMemo _ (fun _ _ _ => trivial) (run_steps (n := 7) fun _ _ => trivial)
  have hGet := hStale.get none 0 (fun _ => .batchEnd .done) [] rfl Nat.one_pos
  have hValue : Evaluates (steps 7 (start lateMemo)) (.signalGet 0 .value) 1 :=
    .signalGet (.value 1)
  exact absurd (hGet.unique hValue) (by decide)

end Runtime

end Calynda.Solite
