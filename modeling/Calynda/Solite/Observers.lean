import Calynda.Solite.MemoSteps

/-!
# Reads belong to the innermost effect

The stack of observers is the list of the effects whose callbacks run, the innermost one first,
as long as no more run than the stack has places.
-/

namespace Calynda.Solite

namespace Runtime

/-- Reads belong to the effect whose callback is being executed, and to none at top level. -/
structure TracksReads (σ : Runtime) : Prop where
  inEffect : ∀ e r rest fs, σ.frames = .code (some (e, r)) rest :: fs →
    σ.solidObserverCurrent = some e
  atTop : σ.TopLevel → σ.solidObserverCurrent = none
  subscribes : ∀ e r s k fs, σ.frames = .code (some (e, r)) (.signalGet s k) :: fs →
    s < σ.signalCount → ∀ s' e', e' ∈ (σ.step.signal s').subscribers ↔
      e' ∈ (σ.signal s').subscribers ∨ s' = s ∧ e' = e
  subscribesNone : ∀ s k, σ.frames = [.code none (.signalGet s k)] →
    ∀ s' e', e' ∈ (σ.step.signal s').subscribers ↔ e' ∈ (σ.signal s').subscribers

/-- The step from `ρ` starts run `r` of the effect. The runs of an effect have different numbers. -/
def Starts (ρ : Runtime) (e r : Nat) (fs : List Frame) : Prop :=
  ρ.runningEffects.length < ρ.step.runningEffects.length ∧
    ∃ b, ρ.step.frames = .code (some (e, r)) b :: fs

/-- At the end of a run that started in `ρ` the stack of observers is again what it was. -/
def Restores (ρ σ : Runtime) : Prop :=
  ∀ e r fs, Starts ρ e r fs → σ.frames = .code (some (e, r)) .done :: fs →
    σ.step.observerStack = ρ.observerStack

/-! ## What a step does to the stack -/

variable {σ τ ρ : Runtime}

/-- Nothing starts or ends. -/
structure SameRunning (σ τ : Runtime) : Prop where
  stack : τ.observerStack = σ.observerStack
  running : τ.runningEffects = σ.runningEffects

theorem SameRunning.refl (σ : Runtime) : SameRunning σ σ := ⟨rfl, rfl⟩

theorem SameRunning.trans (h : SameRunning σ τ) (h' : SameRunning τ ρ) : SameRunning σ ρ :=
  ⟨h'.stack.trans h.stack, h'.running.trans h.running⟩

/-- A step keeps what runs, starts an effect above it, or ends the innermost one. -/
inductive StackStep (σ : Runtime) : Runtime → Prop where
  | same {τ : Runtime} (h : SameRunning σ τ) : StackStep σ τ
  | start {τ : Runtime} (e r : Nat) (b : Code) (fs : List Frame)
      (frames : τ.frames = .code (some (e, r)) b :: fs)
      (running : fs.filterMap Frame.effect? = σ.runningEffects)
      (stack : τ.observerStack = (σ.solidObserverPush e).observerStack)
      (room : ObserverRoom σ → σ.runningEffects.length < solidObserverStackMax) : StackStep σ τ
  | finish {τ : Runtime} (e r : Nat) (fs : List Frame)
      (frames : σ.frames = .code (some (e, r)) .done :: fs) (frames' : τ.frames = fs)
      (stack : τ.observerStack = σ.observerStack.tail) : StackStep σ τ

theorem solidObserverPush_congr (h : τ.observerStack = σ.observerStack) (e : Nat) :
    (τ.solidObserverPush e).observerStack = (σ.solidObserverPush e).observerStack := by
  unfold solidObserverPush
  rw [h]
  split
  · rfl
  · exact h

theorem frames_solidObserverPush (e : Nat) : (σ.solidObserverPush e).frames = σ.frames := by
  unfold solidObserverPush
  split <;> rfl

theorem SameRunning.effectRun (h : SameRunning σ τ) (e : Nat)
    (hRoom : ObserverRoom σ → (τ.effect e).disposed = false →
      σ.runningEffects.length < solidObserverStackMax) : StackStep σ (τ.effectRun e) := by
  unfold Runtime.effectRun
  split
  case isTrue => exact .same h
  case isFalse hAlive =>
    rw [Bool.not_eq_true] at hAlive
    have hStarted : (τ.setEffect e (τ.effect e).startRun).observerStack = σ.observerStack := h.stack
    refine .start e ((τ.effect e).runs + 1) ((τ.effect e).fn (τ.effect e).runs) τ.frames ?_ h.running
      (solidObserverPush_congr hStarted e) fun hRoom' => hRoom hRoom' hAlive
    change _ :: ((τ.setEffect e (τ.effect e).startRun).solidObserverPush e).frames = _
    rw [frames_solidObserverPush]
    rfl

theorem sameRunning_flushPending (σ : Runtime) : SameRunning σ σ.soliteEffectFlushPending := by
  unfold soliteEffectFlushPending
  split
  · exact .refl σ
  · exact ⟨rfl, rfl⟩

theorem sameRunning_schedule (σ : Runtime) (e : Nat) : SameRunning σ (σ.soliteEffectSchedule e) := by
  unfold soliteEffectSchedule
  split
  · exact .refl σ
  · split
    · exact ⟨rfl, rfl⟩
    · exact .refl σ

theorem sameRunning_scheduleAll (l : List Nat) (σ : Runtime) :
    SameRunning σ (l.foldl soliteEffectSchedule σ) := by
  induction l generalizing σ with
  | nil => exact .refl σ
  | cons e l ih => exact (sameRunning_schedule σ e).trans (ih _)

theorem sameRunning_signalSet (σ : Runtime) (s : Nat) (v : CalyndaRtWord) :
    SameRunning σ (σ.soliteSignalSet s v) := by
  unfold soliteSignalSet
  split
  · split
    · exact .refl σ
    · have hSet : SameRunning σ (σ.setSignal s { σ.signal s with value := v }) := ⟨rfl, rfl⟩
      exact (hSet.trans (sameRunning_scheduleAll _ _)).trans (sameRunning_flushPending _)
  · exact .refl σ

theorem sameRunning_batchEnd (σ : Runtime) : SameRunning σ σ.soliteBatchEnd := by
  have hEnded : SameRunning σ { σ with batchDepth := σ.batchDepth - 1 } := ⟨rfl, rfl⟩
  unfold soliteBatchEnd
  dsimp only
  split
  · exact hEnded.trans (sameRunning_flushPending _)
  · exact hEnded

theorem sameRunning_dispose (σ : Runtime) (e : Nat) : SameRunning σ (σ.soliteEffectDispose e) := by
  unfold soliteEffectDispose
  split <;> exact ⟨rfl, rfl⟩

theorem sameRunning_subscribe (σ : Runtime) (s e : Nat) : SameRunning σ (σ.signalSubscribe s e) := by
  unfold signalSubscribe
  dsimp only
  split <;> exact ⟨rfl, rfl⟩

theorem sameRunning_signalGet (σ : Runtime) (s : Nat) : SameRunning σ (σ.soliteSignalGet s).1 := by
  unfold soliteSignalGet
  split
  · dsimp only
    split
    · exact sameRunning_subscribe σ s _
    · exact .refl σ
  · exact .refl σ

theorem sameRunning_noteRead (σ : Runtime) (run : Option (Nat × Nat)) (s : Nat) (v : CalyndaRtWord) :
    SameRunning σ (σ.noteRead run s v) := by
  unfold noteRead
  cases run with
  | none => exact .refl σ
  | some run =>
    dsimp only
    split <;> exact ⟨rfl, rfl⟩

theorem sameRunning_noteMemoRead (σ : Runtime) (run : Option (Nat × Nat)) (m : Nat)
    (v : CalyndaRtWord) : SameRunning σ (σ.noteMemoRead run m v) := by
  unfold noteMemoRead
  cases run with
  | none => exact .refl σ
  | some run =>
    dsimp only
    split <;> exact ⟨rfl, rfl⟩

/-- The frames with another rest of the code on top. -/
theorem SameRunning.resume {run : Option (Nat × Nat)} {b b' : Code} {fs : List Frame}
    (h : SameRunning σ τ) (hFrames : σ.frames = .code run b :: fs) :
    SameRunning σ (τ.withFrames (.code run b' :: fs)) := by
  refine ⟨h.stack, ?_⟩
  unfold runningEffects
  rw [hFrames]
  rfl

theorem setPending_disposed (σ : Runtime) (e : Nat) :
    ((σ.setEffect e ((σ.effect e).setPending false)).effect e).disposed =
      (σ.effect e).disposed := by
  change (Function.update σ.effect e ((σ.effect e).setPending false) e).disposed = _
  rw [Function.update_self]
  rfl

theorem stackStep (σ : Runtime) : StackStep σ σ.step := by
  unfold step
  cases hFrames : σ.frames with
  | nil => exact .same (.refl σ)
  | cons f fs =>
    cases f with
    | flush snapshot =>
      cases snapshot with
      | nil =>
        dsimp only [flushLoop]
        split <;> exact .same ⟨rfl, by unfold runningEffects; rw [hFrames]; rfl⟩
      | cons e rest =>
        have hFrom : SameRunning σ ((σ.setEffect e ((σ.effect e).setPending false)).withFrames
            (.flush rest :: fs)) := by
          refine ⟨rfl, ?_⟩
          unfold runningEffects
          rw [hFrames]
          rfl
        refine hFrom.effectRun e fun hRoom hAlive => ?_
        rw [ObserverRoom, hFrames] at hRoom
        refine hRoom ?_
        rw [← hAlive]
        exact (setPending_disposed σ e).symm
    | code run b =>
      have hSame : ∀ b', SameRunning σ (σ.withFrames (.code run b' :: fs)) :=
        fun b' => (SameRunning.refl σ).resume hFrames
      cases b with
      | done =>
        cases run with
        | none => exact .same (.refl σ)
        | some run => exact .finish run.1 run.2 fs hFrames rfl rfl
      | createSignal v k => exact .same ((hSame _).trans ⟨rfl, rfl⟩)
      | signalGet s k =>
        exact .same (((sameRunning_signalGet σ s).trans (sameRunning_noteRead _ run s _)).resume
          hFrames)
      | signalSet s v k => exact .same ((hSame k).trans (sameRunning_signalSet _ s v))
      | batchStart k => exact .same ((hSame k).trans ⟨rfl, rfl⟩)
      | batchEnd k => exact .same ((hSame k).trans (sameRunning_batchEnd _))
      | createEffect fn k =>
        have hFrom : SameRunning σ { (σ.withFrames (.code run (k σ.effectCount) :: fs)).setEffect
            σ.effectCount { fn := fn } with effectCount := σ.effectCount + 1 } :=
          (hSame (k σ.effectCount)).trans ⟨rfl, rfl⟩
        refine hFrom.effectRun σ.effectCount fun hRoom _ => ?_
        rw [ObserverRoom, hFrames] at hRoom
        exact hRoom
      | disposeEffect e k => exact .same ((hSame k).trans (sameRunning_dispose _ e))
      | createMemo fn k =>
        have hFrom : SameRunning σ { ({ (σ.withFrames (.code run (k σ.memoCount) :: fs)).setMemo
            σ.memoCount { fn := fn, trackingEffect := σ.effectCount } with
            memoCount := σ.memoCount + 1 }).setEffect σ.effectCount
              { fn := fun _ => memoRecomputeCb σ.memoCount fn } with
            effectCount := σ.effectCount + 1 } :=
          (hSame (k σ.memoCount)).trans ⟨rfl, rfl⟩
        refine hFrom.effectRun σ.effectCount fun hRoom _ => ?_
        rw [ObserverRoom, hFrames] at hRoom
        exact hRoom
      | memoGet m k => exact .same ((sameRunning_noteMemoRead σ run m _).resume hFrames)
      | storeMemo m v k => exact .same ((hSame k).trans ⟨rfl, rfl⟩)

/-! ## The stack lists what runs -/

/-- The invariant of the runs with room for observers. -/
def Stacked (σ : Runtime) : Prop := σ.observerStack = σ.runningEffects

theorem stacked_start (program : Code) : Stacked (start program) := rfl

theorem Stacked.push (h : Stacked σ) (e : Nat)
    (hRoom : σ.runningEffects.length < solidObserverStackMax) :
    (σ.solidObserverPush e).observerStack = e :: σ.runningEffects := by
  unfold solidObserverPush
  rw [h, if_pos hRoom]

theorem Stacked.step (h : Stacked σ) (hRoom : ObserverRoom σ) : Stacked σ.step := by
  unfold Stacked
  cases stackStep σ with
  | same hSame => rw [hSame.stack, hSame.running, h]
  | start e r b fs hFrames hRunning hStack hPush =>
    have hNow : σ.step.runningEffects = e :: fs.filterMap Frame.effect? := by
      rw [runningEffects, hFrames]
      rfl
    rw [hStack, h.push e (hPush hRoom), hNow, hRunning]
  | finish e r fs hFrames hFrames' hStack =>
    rw [hStack, h, runningEffects, runningEffects, hFrames, hFrames']
    rfl

theorem Stacked.run (h : Stacked σ) (hRun : Run ObserverRoom σ τ) : Stacked τ := by
  induction hRun with
  | refl => exact h
  | tail _ hStep ih =>
    obtain ⟨hRoom, rfl⟩ := hStep
    exact ih.step hRoom

theorem Stacked.inEffect (h : Stacked σ) {e r : Nat} {rest : Code} {fs : List Frame}
    (hFrames : σ.frames = .code (some (e, r)) rest :: fs) : σ.solidObserverCurrent = some e := by
  rw [solidObserverCurrent, h, runningEffects, hFrames]
  rfl

theorem Stacked.atTop (h : Stacked σ) (hTop : σ.TopLevel) : σ.solidObserverCurrent = none := by
  obtain ⟨rest, hFrames⟩ := hTop
  rw [solidObserverCurrent, h, runningEffects, hFrames]
  rfl

/-- A read subscribes the observer and no one else. -/
theorem mem_subscribers_signalGet {run : Option (Nat × Nat)} {s : Nat} {k : CalyndaRtWord → Code}
    {fs : List Frame} (hFrames : σ.frames = .code run (.signalGet s k) :: fs) (s' e : Nat) :
    e ∈ (σ.step.signal s').subscribers ↔ e ∈ (σ.signal s').subscribers ∨
      σ.solidObserverCurrent = some e ∧ s' = s ∧ s < σ.signalCount := by
  rw [step, hFrames]
  exact (got_signalGet run s k fs).subscribers s' e

theorem Stacked.tracksReads (h : Stacked σ) : TracksReads σ where
  inEffect _ _ _ _ hFrames := h.inEffect hFrames
  atTop := h.atTop
  subscribes e r s k fs hFrames hs s' e' := by
    rw [mem_subscribers_signalGet hFrames, h.inEffect hFrames, Option.some_inj]
    simp only [hs, and_true]
    rw [and_comm, @eq_comm _ e]
  subscribesNone s k hFrames s' e' := by
    rw [mem_subscribers_signalGet hFrames, h.atTop ⟨_, hFrames⟩]
    simp

/-- What runs below a started effect is what ran before. -/
theorem Starts.running {e r : Nat} {fs : List Frame} (h : Starts ρ e r fs) :
    fs.filterMap Frame.effect? = ρ.runningEffects := by
  obtain ⟨hMore, b, hFrames⟩ := h
  cases stackStep ρ with
  | same hSame =>
    rw [hSame.running] at hMore
    exact absurd hMore (Nat.lt_irrefl _)
  | start e' r' b' fs' hFrames' hRunning =>
    rw [hFrames] at hFrames'
    obtain ⟨-, rfl⟩ := List.cons.inj hFrames'
    exact hRunning
  | finish e' r' fs' hBefore hAfter =>
    have hFewer : ρ.runningEffects = e' :: ρ.step.runningEffects := by
      rw [runningEffects, hBefore, runningEffects, hAfter]
      rfl
    rw [hFewer, List.length_cons] at hMore
    exact absurd hMore (by omega)

/-- In a run in which at most 64 effects are inside each other, a read belongs to the effect whose
callback is executed, and each effect leaves the stack of observers as it found it. -/
theorem tracksReads_of_room {program : Code} (hRun : Run ObserverRoom (start program) ρ)
    (hLater : Run ObserverRoom ρ σ) : TracksReads σ ∧ Restores ρ σ := by
  have hStart := (stacked_start program).run hRun
  have hEnd := hStart.run hLater
  refine ⟨hEnd.tracksReads, fun e r fs hStarts hDone => ?_⟩
  have hPop : σ.step.observerStack = σ.observerStack.tail := by
    rw [step, hDone]
    rfl
  rw [hPop, hEnd, hStart, runningEffects, hDone, ← hStarts.running]
  rfl

/-- An effect that creates an effect which reads a signal. -/
def innerEffect : Code :=
  .createSignal 0 fun s =>
    .createEffect (fun _ => nestedEffect s 1) fun _ => .signalSet s 1 .done

theorem tracksReads_innerEffect :
    TracksReads (steps 5 (start innerEffect)) ∧
      Restores (steps 1 (start innerEffect)) (steps 5 (start innerEffect)) :=
  tracksReads_of_room (run_steps (by decide)) (run_steps (n := 4) (by decide))

/-- With 65 effects inside each other the read of the innermost one subscribes the one around it. -/
theorem not_tracksReads_deepEffects :
    ¬ ∀ program ρ σ, Run (fun _ => True) (start program) ρ → Run (fun _ => True) ρ σ →
      TracksReads σ ∧ Restores ρ σ := by
  intro h
  obtain ⟨hTracks, -⟩ := h deepEffects _ _ .refl (run_steps (n := 66) fun _ _ => trivial)
  have hInner : (steps 66 (start deepEffects)).frames.head?.bind Frame.effect? = some 64 := by
    decide +kernel
  have hObserver : (steps 66 (start deepEffects)).solidObserverCurrent = some 63 := by
    decide +kernel
  generalize steps 66 (start deepEffects) = σ at hTracks hInner hObserver
  cases hFrames : σ.frames with
  | nil =>
    rw [hFrames] at hInner
    exact nomatch hInner
  | cons f fs =>
    rw [hFrames] at hInner
    cases f with
    | flush => exact nomatch hInner
    | code run rest =>
      cases run with
      | none => exact nomatch hInner
      | some run =>
        have hIs : run.1 = 64 := Option.some.inj hInner
        rw [hTracks.inEffect run.1 run.2 rest fs hFrames, hIs] at hObserver
        exact absurd hObserver (by decide)

end Runtime

end Calynda.Solite
