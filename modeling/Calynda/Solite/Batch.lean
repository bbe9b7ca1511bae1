import Calynda.Solite.Effects
import Mathlib.Data.List.Perm.Subperm

/-!
# Batches of sets

With callbacks that only read, the effects that wait at the end of a batch run once each, and
they read what they would have read last without the batch.
-/

namespace Calynda.Solite

namespace Code

/-- The code only reads signals. -/
def ReadOnly : Code → Prop
  | .done => True
  | .signalGet _ k => ∀ v, (k v).ReadOnly
  | _ => False

/-- What code that only reads gets from the signals. -/
def trace (reading : Nat → Option CalyndaRtWord) : Code → List (Nat × CalyndaRtWord)
  | .signalGet s k =>
    match reading s with
    | some v => (s, v) :: (k v).trace reading
    | none => (k 0).trace reading
  | _ => []

def sets : List (Nat × CalyndaRtWord) → Code → Code
  | [], k => k
  | (s, v) :: l, k => .signalSet s v (sets l k)

/-- A signal that is not read does not matter. -/
theorem trace_congr {reading reading' : Nat → Option CalyndaRtWord} {s : Nat} {b : Code}
    (hSome : (reading s).isSome) (hSame : ∀ t, t ≠ s → reading' t = reading t)
    (hNot : ∀ v, (s, v) ∉ b.trace reading) : b.trace reading' = b.trace reading := by
  induction b with
  | signalGet t k ih =>
    have hNe : t ≠ s := by
      rintro rfl
      obtain ⟨v, hv⟩ := Option.isSome_iff_exists.1 hSome
      refine hNot v ?_
      rw [trace, hv]
      exact List.mem_cons_self
    rw [trace, trace, hSame t hNe]
    rw [trace] at hNot
    cases hRead : reading t with
    | none =>
      rw [hRead] at hNot
      exact ih 0 hNot
    | some v =>
      rw [hRead] at hNot
      exact congrArg ((t, v) :: ·) (ih v fun w hw => hNot w (List.mem_cons_of_mem _ hw))
  | _ => rfl

end Code

namespace Runtime

variable {σ τ ρ : Runtime}

/-- The values of the signals that there are. -/
def reading (σ : Runtime) (s : Nat) : Option CalyndaRtWord :=
  if s < σ.signalCount then some (σ.signal s).value else none

/-- Every callback is a function of the signals that it reads. -/
def OnlyReads (σ : Runtime) : Prop :=
  ∀ e, ((σ.effect e).fn 0).ReadOnly ∧ ∀ n, (σ.effect e).fn n = (σ.effect e).fn 0

/-! ## Running a callback that only reads -/

/-- From one state to the other, an effect has read a list of signals. -/
structure Ran (e : Nat) (l : List (Nat × CalyndaRtWord)) (σ τ : Runtime) : Prop where
  reading : τ.reading = σ.reading
  queue : τ.pendingQueue = σ.pendingQueue
  depth : τ.batchDepth = σ.batchDepth
  others : ∀ e', e' ≠ e → τ.effect e' = σ.effect e'
  self : τ.effect e = (σ.effect e).addReads l
  subscribers : ∀ s e', e' ∈ (τ.signal s).subscribers ↔
    e' ∈ (σ.signal s).subscribers ∨ e' = e ∧ ∃ v, (s, v) ∈ l

theorem Ran.trans {e : Nat} {l l' : List (Nat × CalyndaRtWord)} (h : Ran e l σ τ)
    (h' : Ran e l' τ ρ) : Ran e (l ++ l') σ ρ where
  reading := h'.reading.trans h.reading
  queue := h'.queue.trans h.queue
  depth := h'.depth.trans h.depth
  others e' hNe := (h'.others e' hNe).trans (h.others e' hNe)
  self := by
    rw [h'.self, h.self, SoliteEffect.addReads, SoliteEffect.addReads, List.append_assoc]
    rfl
  subscribers s e' := by
    rw [h'.subscribers, h.subscribers, or_assoc, ← and_or_left, ← exists_or]
    simp only [List.mem_append]

theorem ran_nil {e : Nat} {fs : List Frame} {os : List Nat} :
    Ran e [] σ { σ with frames := fs, observerStack := os } where
  reading := rfl
  queue := rfl
  depth := rfl
  others _ _ := rfl
  self := by
    rw [SoliteEffect.addReads, List.append_nil]
  subscribers s e' := by
    simp

theorem codeStep_signalGet {run : Option (Nat × Nat)} {s : Nat} {k : CalyndaRtWord → Code}
    {fs : List Frame} :
    σ.codeStep run fs (.signalGet s k) =
      ((σ.soliteSignalGet s).1.noteRead run s (σ.soliteSignalGet s).2).withFrames
        (.code run (k (σ.soliteSignalGet s).2) :: fs) := rfl

/-- One read of a running effect. -/
theorem ran_signalGet {e r s : Nat} (k : CalyndaRtWord → Code) (fs : List Frame) {os : List Nat}
    (hStack : σ.observerStack = e :: os) (hRun : (σ.effect e).runs = r) {v : CalyndaRtWord}
    (hv : σ.reading s = some v) :
    ∃ τ, σ.codeStep (some (e, r)) fs (.signalGet s k) = τ ∧ Ran e [(s, v)] σ τ ∧
      τ.frames = .code (some (e, r)) (k v) :: fs ∧ τ.observerStack = e :: os := by
  have hs : s < σ.signalCount := by
    unfold Runtime.reading at hv
    split at hv
    · assumption
    · exact nomatch hv
  have hValue : (σ.signal s).value = v := by
    rw [Runtime.reading, if_pos hs] at hv
    exact Option.some.inj hv
  have hGet : σ.soliteSignalGet s = (σ.signalSubscribe s e, v) := by
    rw [soliteSignalGet, if_pos hs, hValue, solidObserverCurrent, hStack]
    rfl
  have hSub : (σ.signalSubscribe s e).effect = σ.effect ∧
      (σ.signalSubscribe s e).signalCount = σ.signalCount ∧
      (σ.signalSubscribe s e).pendingQueue = σ.pendingQueue ∧
      (σ.signalSubscribe s e).batchDepth = σ.batchDepth ∧
      (σ.signalSubscribe s e).observerStack = σ.observerStack ∧
      (∀ t, ((σ.signalSubscribe s e).signal t).value = (σ.signal t).value) ∧
      ∀ t e', e' ∈ ((σ.signalSubscribe s e).signal t).subscribers ↔
        e' ∈ (σ.signal t).subscribers ∨ e' = e ∧ t = s := by
    unfold signalSubscribe
    dsimp only
    split
    case isTrue hMem =>
      refine ⟨rfl, rfl, rfl, rfl, rfl, fun _ => rfl, fun t e' => ⟨.inl, ?_⟩⟩
      rintro (h | ⟨rfl, rfl⟩)
      · exact h
      · exact hMem
    case isFalse =>
      refine ⟨rfl, rfl, rfl, rfl, rfl, fun t => ?_, fun t e' => ?_⟩
      · show (Function.update σ.signal s _ t).value = _
        by_cases hEq : t = s
        · subst hEq
          rw [Function.update_self]
        · rw [Function.update_of_ne hEq]
      · show e' ∈ (Function.update σ.signal s _ t).subscribers ↔ _
        by_cases hEq : t = s
        · subst hEq
          rw [Function.update_self, List.mem_append, List.mem_singleton]
          simp
        · rw [Function.update_of_ne hEq]
          simp [hEq]
  obtain ⟨hEffect, hCount, hQueue, hDepth, hObs, hValues, hSubs⟩ := hSub
  refine ⟨_, rfl, ?_⟩
  have hNote : (σ.signalSubscribe s e).noteRead (some (e, r)) s v =
      (σ.signalSubscribe s e).setEffect e
        ((σ.effect e).addReads [(s, v)]) := by
    unfold Runtime.noteRead
    dsimp only
    rw [hEffect, hCount, if_pos ⟨hRun.symm, hs⟩]
  have hStep : σ.codeStep (some (e, r)) fs (.signalGet s k) =
      ((σ.signalSubscribe s e).setEffect e
        ((σ.effect e).addReads [(s, v)])).withFrames
        (.code (some (e, r)) (k v) :: fs) := by
    rw [← hNote, codeStep_signalGet, hGet]
  rw [hStep]
  refine ⟨?_, rfl, hObs.trans hStack⟩
  exact
    { reading := by
        funext t
        show (if t < (σ.signalSubscribe s e).signalCount then
          some ((σ.signalSubscribe s e).signal t).value else none) = _
        rw [hCount, hValues]
        rfl
      queue := hQueue
      depth := hDepth
      others := by
        intro e' hNe
        show Function.update (σ.signalSubscribe s e).effect e _ e' = _
        rw [Function.update_of_ne hNe, hEffect]
      self := Function.update_self ..
      subscribers := by
        intro t e'
        refine (hSubs t e').trans ?_
        simp }

theorem roomy_code {run : Option (Nat × Nat)} {b : Code} {fs : List Frame} (hb : b.ReadOnly)
    (hFrames : σ.frames = .code run b :: fs) : Roomy σ := by
  unfold Roomy
  rw [hFrames]
  cases b with
  | done => trivial
  | signalGet s k => trivial
  | _ => exact hb.elim

theorem step_code {run : Option (Nat × Nat)} {b : Code} {fs : List Frame}
    (hFrames : σ.frames = .code run b :: fs) : σ.step = σ.codeStep run fs b := by
  unfold Runtime.step
  rw [hFrames]

/-- The callback of an effect, from its start to its end. -/
theorem run_callback {b : Code} (hb : b.ReadOnly) {e r : Nat} {fs : List Frame} {os : List Nat}
    (hFrames : σ.frames = .code (some (e, r)) b :: fs) (hStack : σ.observerStack = e :: os)
    (hRun : (σ.effect e).runs = r) :
    ∃ τ, Run Roomy σ τ ∧ τ.frames = fs ∧ τ.observerStack = os ∧ Ran e (b.trace σ.reading) σ τ := by
  induction b generalizing σ with
  | done =>
    refine ⟨_, .single ⟨roomy_code hb hFrames, step_code hFrames⟩, rfl, ?_, ran_nil⟩
    show σ.observerStack.tail = os
    rw [hStack]
    rfl
  | signalGet s k ih =>
    have hStep := step_code hFrames
    have hRoom := roomy_code hb hFrames
    rw [Code.trace]
    cases hv : σ.reading s with
    | none =>
      have hNot : ¬ s < σ.signalCount := fun hs => by
        rw [Runtime.reading, if_pos hs] at hv
        exact nomatch hv
      have hNote : σ.noteRead (some (e, r)) s 0 = σ := if_neg fun h => hNot h.2
      have hGet : σ.soliteSignalGet s = (σ, 0) := if_neg hNot
      rw [codeStep_signalGet, hGet, hNote] at hStep
      obtain ⟨τ, hRest, hτ⟩ := ih 0 (σ := σ.withFrames (.code (some (e, r)) (k 0) :: fs)) (hb 0) rfl
        hStack hRun
      refine ⟨τ, .head ⟨hRoom, hStep⟩ hRest, hτ.1, hτ.2.1, ?_⟩
      exact ran_nil.trans hτ.2.2
    | some v =>
      obtain ⟨τ, hGet, hRan, hτ, hStack'⟩ := ran_signalGet k fs hStack hRun hv
      have hRun' : (τ.effect e).runs = r := by
        rw [hRan.self]
        exact hRun
      obtain ⟨ρ, hRest, hρ⟩ := ih v (hb v) hτ hStack' hRun'
      refine ⟨ρ, .head ⟨hRoom, hStep.trans hGet⟩ hRest, hρ.1, hρ.2.1, ?_⟩
      have hTrans := hRan.trans hρ.2.2
      rw [hRan.reading] at hTrans
      exact hTrans
  | _ => exact hb.elim

/-! ## Flushing effects that only read -/

/-- From one state to the other, the effects of a list that are not disposed have run once. -/
structure Flushed (l : List Nat) (σ τ : Runtime) : Prop where
  reading : τ.reading = σ.reading
  depth : τ.batchDepth = σ.batchDepth
  others : ∀ e, e ∉ l → τ.effect e = σ.effect e
  fn : ∀ e, (τ.effect e).fn = (σ.effect e).fn
  disposed : ∀ e, (τ.effect e).disposed = (σ.effect e).disposed
  runs : ∀ e, (τ.effect e).runs ≤ (σ.effect e).runs + 1
  skipped : ∀ e ∈ l, (σ.effect e).disposed = true → (τ.effect e).reads = (σ.effect e).reads
  ran : ∀ e ∈ l, (σ.effect e).disposed = false →
    (τ.effect e).reads = ((σ.effect e).fn 0).trace σ.reading
  grown : ∀ s e, e ∈ (σ.signal s).subscribers → e ∈ (τ.signal s).subscribers
  kept : ∀ e, e ∉ l → ∀ s, e ∈ (τ.signal s).subscribers → e ∈ (σ.signal s).subscribers

theorem Flushed.onlyReads {l : List Nat} (h : Flushed l σ τ) (hOnly : OnlyReads σ) :
    OnlyReads τ := by
  intro e
  rw [h.fn]
  exact hOnly e

/-- One more effect in front. -/
theorem Flushed.cons {e : Nat} {l : List Nat} (h : Flushed [e] σ τ) (h' : Flushed l τ ρ)
    (hNew : e ∉ l) : Flushed (e :: l) σ ρ where
  reading := h'.reading.trans h.reading
  depth := h'.depth.trans h.depth
  others e' hNot := by
    obtain ⟨hNe, hRest⟩ := not_or.1 (mt List.mem_cons.2 hNot)
    exact (h'.others e' hRest).trans (h.others e' (mt List.mem_singleton.1 hNe))
  fn e' := (h'.fn e').trans (h.fn e')
  disposed e' := (h'.disposed e').trans (h.disposed e')
  runs e' := by
    by_cases hEq : e' = e
    · subst hEq
      rw [h'.others e' hNew]
      exact h.runs e'
    · rw [← h.others e' (mt List.mem_singleton.1 hEq)]
      exact h'.runs e'
  skipped e' hMem hDisposed := by
    by_cases hEq : e' = e
    · subst hEq
      rw [h'.others e' hNew]
      exact h.skipped e' List.mem_cons_self hDisposed
    · have hSame := h.others e' (mt List.mem_singleton.1 hEq)
      rw [← hSame] at hDisposed ⊢
      exact h'.skipped e' ((List.mem_cons.1 hMem).resolve_left hEq) hDisposed
  ran e' hMem hAlive := by
    by_cases hEq : e' = e
    · subst hEq
      rw [h'.others e' hNew]
      exact h.ran e' List.mem_cons_self hAlive
    · have hSame := h.others e' (mt List.mem_singleton.1 hEq)
      rw [← hSame] at hAlive
      rw [← hSame, ← h.reading]
      exact h'.ran e' ((List.mem_cons.1 hMem).resolve_left hEq) hAlive
  grown s e' hMem := h'.grown s e' (h.grown s e' hMem)
  kept e' hNot s hMem := by
    obtain ⟨hNe, hRest⟩ := not_or.1 (mt List.mem_cons.2 hNot)
    exact h.kept e' (mt List.mem_singleton.1 hNe) s (h'.kept e' hRest s hMem)

/-- Only one effect has changed, but for subscriptions that are new. -/
theorem Flushed.single {e : Nat} (hReading : τ.reading = σ.reading)
    (hDepth : τ.batchDepth = σ.batchDepth) (hOthers : ∀ e', e' ≠ e → τ.effect e' = σ.effect e')
    (hFn : (τ.effect e).fn = (σ.effect e).fn)
    (hDisposed : (τ.effect e).disposed = (σ.effect e).disposed)
    (hRuns : (τ.effect e).runs ≤ (σ.effect e).runs + 1)
    (hReads : (τ.effect e).reads =
      if (σ.effect e).disposed then (σ.effect e).reads else ((σ.effect e).fn 0).trace σ.reading)
    (hGrown : ∀ s e', e' ∈ (σ.signal s).subscribers → e' ∈ (τ.signal s).subscribers)
    (hKept : ∀ e', e' ≠ e → ∀ s, e' ∈ (τ.signal s).subscribers → e' ∈ (σ.signal s).subscribers) :
    Flushed [e] σ τ := by
  refine ⟨hReading, hDepth, fun e' hNot => hOthers e' (mt List.mem_singleton.2 hNot), ?_, ?_, ?_,
    ?_, ?_, hGrown, fun e' hNot => hKept e' (mt List.mem_singleton.2 hNot)⟩
  · intro e'
    by_cases hEq : e' = e
    · rw [hEq, hFn]
    · rw [hOthers e' hEq]
  · intro e'
    by_cases hEq : e' = e
    · rw [hEq, hDisposed]
    · rw [hOthers e' hEq]
  · intro e'
    by_cases hEq : e' = e
    · exact hEq ▸ hRuns
    · rw [hOthers e' hEq]
      exact Nat.le_succ _
  · intro e' he' hDead
    rw [List.mem_singleton.1 he'] at hDead ⊢
    rw [hReads, if_pos hDead]
  · intro e' he' hAlive
    rw [List.mem_singleton.1 he'] at hAlive ⊢
    rw [hReads, if_neg (by rw [hAlive]; exact Bool.false_ne_true)]

/-- The loop takes the next effect of the snapshot and runs it to its end. -/
theorem run_flush_one {e : Nat} {l : List Nat} {fs : List Frame}
    (hFrames : σ.frames = .flush (e :: l) :: fs)
    (hRoom : σ.observerStack.length < solidObserverStackMax) (hOnly : OnlyReads σ) :
    ∃ τ, Run Roomy σ τ ∧ τ.frames = .flush l :: fs ∧ τ.observerStack = σ.observerStack ∧
      τ.pendingQueue = σ.pendingQueue ∧ Flushed [e] σ τ := by
  have hRoomy : Roomy σ := by
    unfold Roomy
    rw [hFrames]
    exact fun _ => hRoom
  let cleared := (σ.setEffect e ((σ.effect e).setPending false)).withFrames (.flush l :: fs)
  have hStep : σ.step = cleared.effectRun e := by
    unfold Runtime.step
    rw [hFrames]
    rfl
  have hSelf : cleared.effect e = (σ.effect e).setPending false := Function.update_self ..
  have hOthers : ∀ e', e' ≠ e → cleared.effect e' = σ.effect e' := fun e' hNe =>
    Function.update_of_ne hNe ..
  cases hDisposed : (σ.effect e).disposed with
  | true =>
    rw [effectRun_of_disposed (by rw [hSelf]; exact hDisposed)] at hStep
    refine ⟨cleared, .single ⟨hRoomy, hStep⟩, rfl, rfl, rfl, .single rfl rfl hOthers ?_ ?_ ?_ ?_
      (fun _ _ h => h) fun _ _ _ h => h⟩
    · rw [hSelf]
      rfl
    · rw [hSelf]
      rfl
    · rw [hSelf]
      exact Nat.le_succ _
    · rw [hSelf, if_pos hDisposed]
      rfl
  | false =>
    rw [effectRun_of_alive (σ := cleared) (e := e) (by rw [hSelf]; exact hDisposed) hRoom,
      hSelf] at hStep
    let started : Runtime := { cleared with
      effect := Function.update cleared.effect e ((σ.effect e).setPending false).startRun
      observerStack := e :: σ.observerStack
      frames := .code (some (e, (σ.effect e).runs + 1)) ((σ.effect e).fn 0) :: .flush l :: fs }
    have hStart : started.effect e = ((σ.effect e).setPending false).startRun :=
      Function.update_self ..
    obtain ⟨hBody, hAlways⟩ := hOnly e
    have hRuns : (started.effect e).runs = (σ.effect e).runs + 1 := by
      rw [hStart]
      rfl
    obtain ⟨τ, hRest, hτ, hStack, hRan⟩ := run_callback hBody (σ := started) rfl rfl hRuns
    have hSelf' := hRan.self
    rw [hStart] at hSelf'
    have hStep' : σ.step = started := by
      rw [hStep, show ((σ.effect e).setPending false).fn ((σ.effect e).setPending false).runs =
        (σ.effect e).fn 0 from hAlways _]
      rfl
    refine ⟨τ, .head ⟨hRoomy, hStep'⟩ hRest, hτ, hStack, hRan.queue, .single hRan.reading
      hRan.depth (fun e' hNe => ?_) ?_ ?_ ?_ ?_ (fun s e' h => (hRan.subscribers s e').2 (.inl h))
      fun e' hNe s hMem => ((hRan.subscribers s e').1 hMem).resolve_right fun h => hNe h.1⟩
    · exact (hRan.others e' hNe).trans ((Function.update_of_ne hNe ..).trans (hOthers e' hNe))
    · rw [hSelf']
      rfl
    · rw [hSelf']
      rfl
    · rw [hSelf']
      exact Nat.le_refl _
    · rw [hSelf', if_neg (by rw [hDisposed]; exact Bool.false_ne_true)]
      rfl

/-- A flush whose queue is in its snapshot: it runs the snapshot and returns. -/
theorem run_flush {l : List Nat} {fs : List Frame} (hFrames : σ.frames = .flush l :: fs)
    (hRoom : σ.observerStack.length < solidObserverStackMax) (hOnly : OnlyReads σ)
    (hQueue : σ.pendingQueue = []) (hNodup : l.Nodup) :
    ∃ τ, Run Roomy σ τ ∧ τ.frames = fs ∧ τ.observerStack = σ.observerStack ∧ Flushed l σ τ := by
  induction l generalizing σ with
  | nil =>
    have hRoomy : Roomy σ := by
      unfold Roomy
      rw [hFrames]
      trivial
    have hStep : σ.step = σ.withFrames fs := by
      unfold Runtime.step
      rw [hFrames]
      exact if_pos hQueue
    refine ⟨σ.withFrames fs, .single ⟨hRoomy, hStep⟩, rfl, rfl, ?_⟩
    exact
      { reading := rfl
        depth := rfl
        others := fun _ _ => rfl
        fn := fun _ => rfl
        disposed := fun _ => rfl
        runs := fun _ => Nat.le_succ _
        skipped := fun _ h => nomatch h
        ran := fun _ h => nomatch h
        grown := fun _ _ h => h
        kept := fun _ _ _ h => h }
  | cons e l ih =>
    obtain ⟨hNew, hNodup⟩ := List.nodup_cons.1 hNodup
    obtain ⟨τ, hRun, hτ, hStack, hQueue', hOne⟩ := run_flush_one hFrames hRoom hOnly
    obtain ⟨ρ, hRest, hρ, hStack', hAll⟩ := ih hτ (hStack ▸ hRoom) (hOne.onlyReads hOnly)
      (hQueue'.trans hQueue) hNodup
    exact ⟨ρ, hRun.trans hRest, hρ, hStack'.trans hStack, hOne.cons hAll hNew⟩

/-- A flush takes the whole queue and returns: the effects that run schedule none. -/
theorem run_flush_queue {fs : List Frame} (hFrames : σ.frames = .flush [] :: fs)
    (hRoom : σ.observerStack.length < solidObserverStackMax) (hOnly : OnlyReads σ)
    (hNodup : σ.pendingQueue.Nodup) :
    ∃ τ, Run Roomy σ τ ∧ τ.frames = fs ∧ τ.observerStack = σ.observerStack ∧
      Flushed σ.pendingQueue σ τ := by
  by_cases hQueue : σ.pendingQueue = []
  · rw [hQueue]
    exact run_flush hFrames hRoom hOnly hQueue List.nodup_nil
  · have hRoomy : Roomy σ := by
      unfold Roomy
      rw [hFrames]
      trivial
    have hStep : σ.step = { σ with pendingQueue := [], frames := .flush σ.pendingQueue :: fs } := by
      unfold Runtime.step
      rw [hFrames]
      exact if_neg hQueue
    obtain ⟨τ, hRun, hτ, hStack, hFlushed⟩ :=
      run_flush (σ := { σ with pendingQueue := [], frames := .flush σ.pendingQueue :: fs }) rfl hRoom
        hOnly rfl hNodup
    exact ⟨τ, .head ⟨hRoomy, hStep⟩ hRun, hτ, hStack, { hFlushed with }⟩

/-! ## A set, with room for its effects -/

theorem foldl_schedule_effect {l : List Nat} (hNodup : l.Nodup)
    (hRoom : σ.pendingQueue.length + (σ.freshIn l).length ≤ solidPendingMax) (e : Nat) :
    (l.foldl soliteEffectSchedule σ).effect e =
      if e ∈ l ∧ (σ.effect e).disposed = false then (σ.effect e).setPending true
      else σ.effect e := by
  induction l generalizing σ with
  | nil =>
    rw [if_neg fun h => nomatch h.1]
    rfl
  | cons e₀ l ih =>
    obtain ⟨hNew, hNodup⟩ := List.nodup_cons.1 hNodup
    obtain ⟨hOne, hRest⟩ := room_cons hNew hRoom
    have hHead : (σ.soliteEffectSchedule e₀).effect =
        Function.update σ.effect e₀
          (if (σ.effect e₀).disposed = false then (σ.effect e₀).setPending true
            else σ.effect e₀) := by
      by_cases hSkip : (σ.effect e₀).disposed = true ∨ (σ.effect e₀).pending = true
      · rw [schedule_of_skipped hSkip]
        split
        case isTrue hAlive =>
          have hPending := hSkip.resolve_left (by rw [hAlive]; exact Bool.false_ne_true)
          rw [SoliteEffect.setPending, ← hPending, Function.update_eq_self]
        case isFalse => rw [Function.update_eq_self]
      · obtain ⟨hAlive, hIdle⟩ := not_or.1 hSkip
        rw [Bool.not_eq_true] at hAlive hIdle
        rw [schedule_of_fresh hAlive hIdle (hOne.resolve_right hSkip), if_pos hAlive]
    rw [List.foldl_cons, ih hNodup hRest, hHead]
    by_cases hEq : e = e₀
    · subst hEq
      rw [Function.update_self, if_neg fun h => hNew h.1]
      simp
    · rw [Function.update_of_ne hEq]
      simp [hEq]

theorem foldl_schedule_frame (l : List Nat) :
    (l.foldl soliteEffectSchedule σ).signal = σ.signal ∧
      (l.foldl soliteEffectSchedule σ).signalCount = σ.signalCount ∧
      (l.foldl soliteEffectSchedule σ).batchDepth = σ.batchDepth ∧
      (l.foldl soliteEffectSchedule σ).observerStack = σ.observerStack := by
  induction l generalizing σ with
  | nil => exact ⟨rfl, rfl, rfl, rfl⟩
  | cons e l ih =>
    obtain ⟨h₁, h₂, h₃, h₄⟩ := ih (σ := σ.soliteEffectSchedule e)
    rw [List.foldl_cons, h₁, h₂, h₃, h₄]
    unfold soliteEffectSchedule
    split
    · exact ⟨rfl, rfl, rfl, rfl⟩
    · split <;> exact ⟨rfl, rfl, rfl, rfl⟩

theorem foldl_schedule_length {l : List Nat} (h : σ.pendingQueue.length ≤ solidPendingMax) :
    (l.foldl soliteEffectSchedule σ).pendingQueue.length ≤ solidPendingMax := by
  induction l generalizing σ with
  | nil => exact h
  | cons e l ih =>
    refine ih ?_
    unfold soliteEffectSchedule
    split
    · exact h
    · split
      · rw [List.length_append, List.length_singleton]
        omega
      · exact h

/-- The state after a set that changes its signal, before the flush. -/
structure Changed (s : Nat) (v : CalyndaRtWord) (σ τ : Runtime) : Prop where
  reading : τ.reading = Function.update σ.reading s (some v)
  depth : τ.batchDepth = σ.batchDepth
  stack : τ.observerStack = σ.observerStack
  room : τ.pendingQueue.length ≤ solidPendingMax
  subscribers : ∀ t, (τ.signal t).subscribers = (σ.signal t).subscribers
  effect : ∀ e, τ.effect e =
    if e ∈ (σ.signal s).subscribers ∧ (σ.effect e).disposed = false then
      (σ.effect e).setPending true
    else σ.effect e

theorem exists_changed {s : Nat} {v : CalyndaRtWord} (hNodup : (σ.signal s).subscribers.Nodup)
    (hs : s < σ.signalCount) (hv : (σ.signal s).value ≠ v)
    (hRoom : σ.pendingQueue.length + (σ.fresh s).length ≤ solidPendingMax) :
    ∃ τ, σ.soliteSignalSet s v = τ.soliteEffectFlushPending ∧ τ.frames = σ.frames ∧
      Changed s v σ τ := by
  refine ⟨_, signalSet_of_changed hs hv, schedule_all_frames _ |>.1, ?_⟩
  obtain ⟨hSignal, hCount, hDepth, hStack⟩ :=
    foldl_schedule_frame (σ := σ.setSignal s { σ.signal s with value := v }) (σ.signal s).subscribers
  exact
    { reading := by
        funext t
        unfold Runtime.reading
        rw [hSignal, hCount]
        show (if t < σ.signalCount then some (Function.update σ.signal s _ t).value else none) = _
        by_cases hEq : t = s
        · subst hEq
          rw [Function.update_self, Function.update_self, if_pos hs]
        · rw [Function.update_of_ne hEq, Function.update_of_ne hEq]
      depth := hDepth
      stack := hStack
      room := foldl_schedule_length (Nat.le_trans (Nat.le_add_right _ _) hRoom)
      subscribers := by
        intro t
        rw [hSignal]
        show (Function.update σ.signal s _ t).subscribers = _
        by_cases hEq : t = s
        · subst hEq
          rw [Function.update_self]
        · rw [Function.update_of_ne hEq]
      effect := foldl_schedule_effect (σ := σ.setSignal s { σ.signal s with value := v }) hNodup hRoom }

/-! ## The batch against its sets one by one -/

/-- The state in a batch against the state after the same sets without it: where an effect waits
here, it has run there, on the values that the signals have now. -/
structure Follows (a b : Runtime) : Prop where
  tracked : Tracked a
  tracked' : Tracked b
  depth : a.batchDepth = 1
  depth' : b.batchDepth = 0
  stack : a.observerStack = []
  stack' : b.observerStack = []
  onlyReads : OnlyReads a
  reading : a.reading = b.reading
  fn : ∀ e, (a.effect e).fn = (b.effect e).fn
  disposed : ∀ e, (a.effect e).disposed = (b.effect e).disposed
  rest : ∀ e, (b.effect e).pending = false
  idle : ∀ e, (a.effect e).pending = false → (a.effect e).reads = (b.effect e).reads ∧
    ∀ s, e ∈ (b.signal s).subscribers → e ∈ (a.signal s).subscribers
  busy : ∀ e, (a.effect e).pending = true → (a.effect e).disposed = false ∧
    (b.effect e).reads = ((b.effect e).fn 0).trace b.reading
  grown : ∀ s e, e ∈ (a.signal s).subscribers → e ∈ (b.signal s).subscribers

theorem fn_of_changed {s : Nat} {v : CalyndaRtWord} (h : Changed s v σ τ) (e : Nat) :
    (τ.effect e).fn = (σ.effect e).fn ∧ (τ.effect e).disposed = (σ.effect e).disposed ∧
      (τ.effect e).reads = (σ.effect e).reads := by
  rw [h.effect]
  split <;> exact ⟨rfl, rfl, rfl⟩

theorem pending_of_changed {s : Nat} {v : CalyndaRtWord} (h : Changed s v σ τ) (e : Nat) :
    (τ.effect e).pending = true ↔
      (e ∈ (σ.signal s).subscribers ∧ (σ.effect e).disposed = false) ∨
        (σ.effect e).pending = true := by
  rw [h.effect]
  split
  case isTrue hFresh => exact iff_of_true rfl (.inl hFresh)
  case isFalse hOld => exact (or_iff_right hOld).symm

/-- A set of both keeps the two states together. -/
theorem Follows.changed {a b a' b' b'' : Runtime} {s : Nat} {v : CalyndaRtWord} (h : Follows a b)
    (hs : (b.reading s).isSome) (hA : Changed s v a a') (hB : Changed s v b b')
    (hTracked : Tracked a') (hTracked' : Tracked b'') (hFlushed : Flushed b'.pendingQueue b' b'')
    (hQueue : ∀ e, e ∈ b'.pendingQueue ↔ (b'.effect e).pending = true)
    (hStack : b''.observerStack = []) (hRest : ∀ e, (b''.effect e).pending = false) :
    Follows a' b'' := by
  have hMem (e : Nat) : e ∈ b'.pendingQueue ↔
      e ∈ (b.signal s).subscribers ∧ (b.effect e).disposed = false := by
    rw [hQueue, pending_of_changed hB, h.rest]
    simp
  have hReading : b'.reading = a'.reading := by rw [hA.reading, hB.reading, h.reading]
  have hFn (e : Nat) : (b''.effect e).fn = (b.effect e).fn :=
    (hFlushed.fn e).trans (fn_of_changed hB e).1
  have hDisposed (e : Nat) : (b''.effect e).disposed = (b.effect e).disposed :=
    (hFlushed.disposed e).trans (fn_of_changed hB e).2.1
  exact
    { tracked := hTracked
      tracked' := hTracked'
      depth := hA.depth.trans h.depth
      depth' := (hFlushed.depth.trans hB.depth).trans h.depth'
      stack := hA.stack.trans h.stack
      stack' := hStack
      onlyReads := by
        intro e
        rw [(fn_of_changed hA e).1]
        exact h.onlyReads e
      reading := hReading.symm.trans hFlushed.reading.symm
      fn := by
        intro e
        rw [(fn_of_changed hA e).1, hFn, h.fn]
      disposed := by
        intro e
        rw [(fn_of_changed hA e).2.1, hDisposed, h.disposed]
      rest := hRest
      idle := by
        intro e hIdle
        have hNot := mt (pending_of_changed hA e).2 (by rw [hIdle]; exact Bool.false_ne_true)
        obtain ⟨hNone, hOld⟩ := not_or.1 hNot
        rw [Bool.not_eq_true] at hOld
        obtain ⟨hReads, hSubs⟩ := h.idle e hOld
        -- It is not run without the batch either.
        have hSkipped : e ∉ b'.pendingQueue := by
          rw [hMem]
          rintro ⟨hSub, hAlive⟩
          exact hNone ⟨hSubs s hSub, (h.disposed e).trans hAlive⟩
        constructor
        · rw [(fn_of_changed hA e).2.2, hFlushed.others e hSkipped, (fn_of_changed hB e).2.2, hReads]
        · intro t hSub
          rw [hA.subscribers]
          refine hSubs t ?_
          rw [← hB.subscribers]
          exact hFlushed.kept e hSkipped t hSub
      busy := by
        intro e hPending
        have hAlive : (a.effect e).disposed = false := by
          rcases (pending_of_changed hA e).1 hPending with hFresh | hOld
          · exact hFresh.2
          · exact (h.busy e hOld).1
        have hAlive' : (b.effect e).disposed = false := (h.disposed e).symm.trans hAlive
        refine ⟨(fn_of_changed hA e).2.1.trans hAlive, ?_⟩
        rw [hFn, hFlushed.reading]
        by_cases hRuns : e ∈ b'.pendingQueue
        · rw [hFlushed.ran e hRuns ((fn_of_changed hB e).2.1.trans hAlive'), (fn_of_changed hB e).1]
        · -- It waited already, and it did not read the signal.
          have hNotSub : e ∉ (b.signal s).subscribers := fun hSub => hRuns ((hMem e).2 ⟨hSub, hAlive'⟩)
          have hOld : (a.effect e).pending = true := by
            rcases (pending_of_changed hA e).1 hPending with hFresh | hOld
            · exact absurd (h.grown s e hFresh.1) hNotSub
            · exact hOld
          have hTrace := (h.busy e hOld).2
          rw [hFlushed.others e hRuns, (fn_of_changed hB e).2.2, hTrace, hB.reading]
          refine (Code.trace_congr hs (fun t hNe => Function.update_of_ne hNe ..) ?_).symm
          intro w hw
          rw [← hTrace] at hw
          exact hNotSub (h.tracked'.subscribed e (s, w) hw)
      grown := by
        intro t e hSub
        rw [hA.subscribers] at hSub
        refine hFlushed.grown t e ?_
        rw [hB.subscribers]
        exact h.grown t e hSub }

theorem signalSet_eq_self {s : Nat} {v : CalyndaRtWord}
    (h : σ.reading s = none ∨ σ.reading s = some v) : σ.soliteSignalSet s v = σ := by
  unfold soliteSignalSet
  unfold Runtime.reading at h
  split
  case isTrue hs =>
    simp only [hs, if_true, reduceCtorEq, Option.some.injEq, false_or] at h
    exact if_pos h
  case isFalse => rfl

theorem reading_eq_some {s : Nat} {w : CalyndaRtWord} (h : σ.reading s = some w) :
    s < σ.signalCount ∧ (σ.signal s).value = w := by
  unfold Runtime.reading at h
  split at h
  case isTrue hs => exact ⟨hs, Option.some.inj h⟩
  case isFalse => exact nomatch h

theorem Tracked.idle (h : Tracked σ) (hTop : σ.TopLevel) (hDepth : σ.batchDepth = 0) (e : Nat) :
    (σ.effect e).pending = false := by
  rw [← Bool.not_eq_true, h.pending_iff, h.waiting_eq_nil hTop hDepth]
  exact List.not_mem_nil

/-- A set of the batch, and the same set without it together with the flush that follows. -/
theorem Follows.signalSet {a b : Runtime} {s : Nat} {v : CalyndaRtWord} {k k' : Code}
    (h : Follows a b) (hA : a.frames = [.code none (.signalSet s v k)])
    (hB : b.frames = [.code none (.signalSet s v k')]) (hRoom : Roomy a) :
    ∃ b', Run Roomy b b' ∧ Follows a.step b' ∧ a.step.frames = [.code none k] ∧
      b'.frames = [.code none k'] := by
  have hTracked := h.tracked.step hRoom
  have hStepA : a.step = (a.withFrames [.code none k]).soliteSignalSet s v := step_code hA
  have hStepB : b.step = (b.withFrames [.code none k']).soliteSignalSet s v := step_code hB
  by_cases hSame : b.reading s = none ∨ b.reading s = some v
  · have hA' := signalSet_eq_self (σ := a.withFrames [.code none k]) (h.reading ▸ hSame)
    have hB' := signalSet_eq_self (σ := b.withFrames [.code none k']) hSame
    rw [hA'] at hStepA
    rw [hB'] at hStepB
    have hRoomy : Roomy b := by
      unfold Roomy
      rw [hB]
      intro hs hv
      refine (hSame.elim (fun hNone => ?_) fun hSome => hv (reading_eq_some hSome).2).elim
      rw [Runtime.reading, if_pos hs] at hNone
      exact nomatch hNone
    rw [hStepA] at hTracked ⊢
    refine ⟨_, .single ⟨hRoomy, hStepB⟩, ?_, rfl, rfl⟩
    exact { h with tracked := hTracked, tracked' := h.tracked'.resume hB k' }
  obtain ⟨hSome, hNe⟩ := not_or.1 hSame
  obtain ⟨w, hw⟩ := Option.ne_none_iff_exists'.1 hSome
  have hwv : w ≠ v := fun hEq => hNe (hw.trans (congrArg some hEq))
  obtain ⟨hs, hValue⟩ := reading_eq_some ((congrFun h.reading s).trans hw)
  obtain ⟨hs', hValue'⟩ := reading_eq_some hw
  have hRoomA : a.pendingQueue.length + (a.fresh s).length ≤ solidPendingMax := by
    unfold Roomy at hRoom
    rw [hA] at hRoom
    exact hRoom hs (hValue ▸ hwv)
  obtain ⟨a', hSetA, hFramesA, hChangedA⟩ := exists_changed
    (σ := a.withFrames [.code none k]) (h.tracked.nodup_subscribers s) hs (hValue ▸ hwv) hRoomA
  replace hChangedA : Changed s v a a' := { hChangedA with }
  have hDepthA : 0 < a'.batchDepth := by
    rw [hChangedA.depth, h.depth]
    exact Nat.one_pos
  rw [hSetA, soliteEffectFlushPending, if_pos hDepthA] at hStepA
  rw [hStepA] at hTracked ⊢
  have hWaitingA : a'.waiting = a'.pendingQueue := by
    rw [waiting, hFramesA]
    exact List.append_nil _
  -- What is fresh without the batch waits in the batch after the set.
  have hFresh : b.fresh s ⊆ a'.pendingQueue := by
    intro e he
    obtain ⟨hSub, hAlive, -⟩ := mem_fresh.1 he
    rw [← hWaitingA, ← hTracked.pending_iff, pending_of_changed hChangedA]
    by_cases hPending : (a.effect e).pending = true
    · exact .inr hPending
    · rw [Bool.not_eq_true] at hPending
      exact .inl ⟨(h.idle e hPending).2 s hSub, (h.disposed e).trans hAlive⟩
  have hRoomB : b.pendingQueue.length + (b.fresh s).length ≤ solidPendingMax := by
    have hNil := h.tracked'.waiting_eq_nil ⟨_, hB⟩ h.depth'
    have hLength := (((h.tracked'.nodup_subscribers s).filter _).subperm hFresh).length_le
    rw [(List.append_eq_nil_iff.1 hNil).1, List.length_nil, Nat.zero_add]
    exact Nat.le_trans hLength hChangedA.room
  have hRoomy : Roomy b := by
    unfold Roomy
    rw [hB]
    exact fun _ _ => hRoomB
  obtain ⟨b', hSetB, hFramesB, hChangedB⟩ := exists_changed
    (σ := b.withFrames [.code none k']) (h.tracked'.nodup_subscribers s) hs' (hValue' ▸ hwv) hRoomB
  replace hChangedB : Changed s v b b' := { hChangedB with }
  have hDepthB : ¬ 0 < b'.batchDepth := by
    rw [hChangedB.depth, h.depth']
    exact Nat.lt_irrefl 0
  rw [hSetB, soliteEffectFlushPending, if_neg hDepthB] at hStepB
  have hTrackedB := h.tracked'.step hRoomy
  rw [hStepB] at hTrackedB
  have hWaitingB : (b'.push (.flush [])).waiting = b'.pendingQueue := by
    show b'.pendingQueue ++ ([] ++ b'.frames.flatMap Frame.waiting) = _
    rw [hFramesB]
    exact List.append_nil _
  have hStackB : b'.observerStack = [] := hChangedB.stack.trans h.stack'
  have hOnly : OnlyReads b' := by
    intro e
    rw [(fn_of_changed hChangedB e).1, ← h.fn]
    exact h.onlyReads e
  obtain ⟨b'', hRun, hFrames, hStack, hFlushed⟩ := run_flush_queue
    (σ := b'.push (.flush [])) (congrArg (Frame.flush [] :: ·) hFramesB)
    (by rw [show (b'.push (.flush [])).observerStack = _ from hStackB]; decide) hOnly
    (hWaitingB ▸ hTrackedB.nodup_waiting)
  replace hFlushed : Flushed b'.pendingQueue b' b'' := { hFlushed with }
  have hTracked'' := hTrackedB.run hRun
  have hDepth'' : b''.batchDepth = 0 := (hFlushed.depth.trans hChangedB.depth).trans h.depth'
  refine ⟨b'', .head ⟨hRoomy, hStepB⟩ hRun, ?_, hFramesA, hFrames⟩
  refine h.changed (by rw [hw]; rfl) hChangedA hChangedB hTracked hTracked'' hFlushed ?_
    (hStack.trans hStackB) (hTracked''.idle ⟨_, hFrames⟩ hDepth'')
  intro e
  rw [← hWaitingB]
  exact (hTrackedB.pending_iff e).symm

/-! ## Runs to the end of a program -/

/-- The program at top level has been run to its end. -/
def Completes (σ : Runtime) (program : Code) (τ : Runtime) : Prop :=
  Run Roomy (σ.running program) τ ∧ τ.frames = [.code none .done]

theorem step_of_halted (h : σ.frames = [.code none .done]) : σ.step = σ := step_code h

theorem Run.of_halted {ok : Runtime → Prop} (h : Run ok σ τ) (hσ : σ.step = σ) : τ = σ := by
  induction h with
  | refl => rfl
  | tail _ hStep ih =>
    obtain ⟨-, rfl⟩ := hStep
    rw [ih, hσ]

/-- A run has one end. -/
theorem Run.end_unique {ok ok' : Runtime → Prop} (h : Run ok σ τ) (h' : Run ok' σ ρ)
    (hτ : τ.step = τ) (hρ : ρ.step = ρ) : τ = ρ := by
  induction h using Relation.ReflTransGen.head_induction_on with
  | refl => exact (h'.of_halted hτ).symm
  | head hStep hRest ih =>
    obtain ⟨-, rfl⟩ := hStep
    rcases Relation.ReflTransGen.cases_head h' with rfl | ⟨_, ⟨-, rfl⟩, hRest'⟩
    · rw [hρ] at hRest
      exact Run.of_halted hRest hρ
    · exact ih hRest'

theorem Run.next {ok : Runtime → Prop} (h : Run ok σ τ) (hNe : σ ≠ τ) : ok σ ∧ Run ok σ.step τ := by
  rcases Relation.ReflTransGen.cases_head h with hEq | ⟨_, ⟨hOk, rfl⟩, hRest⟩
  · exact absurd hEq hNe
  · exact ⟨hOk, hRest⟩

/-- The end of an outermost batch, or of a batch that there is not. -/
theorem run_batchEnd {k : Code} (h : Tracked σ) (hFrames : σ.frames = [.code none (.batchEnd k)])
    (hOnly : OnlyReads σ) :
    ∃ τ, Run Roomy σ τ ∧ τ.frames = [.code none k] ∧
      (σ.batchDepth ≤ 1 → Flushed σ.pendingQueue σ { τ with batchDepth := σ.batchDepth }) ∧
      ∀ e, (τ.effect e).runs ≤ (σ.effect e).runs + 1 := by
  have hRoomy : Roomy σ := by
    unfold Roomy
    rw [hFrames]
    trivial
  have hTracked := h.step hRoomy
  have hStep : σ.step = (σ.withFrames [.code none k]).soliteBatchEnd := step_code hFrames
  by_cases hDepth : σ.batchDepth - 1 = 0
  · have hEnd : (σ.withFrames [.code none k]).soliteBatchEnd =
        { σ with batchDepth := σ.batchDepth - 1, frames := [.flush [], .code none k] } :=
      (if_pos hDepth).trans (if_neg (show ¬ 0 < σ.batchDepth - 1 by omega))
    rw [hEnd] at hStep
    rw [hStep] at hTracked
    have hStack : σ.observerStack = [] := by
      refine h.observers.trans ?_
      rw [hFrames]
      rfl
    have hWaiting := hTracked.nodup_waiting
    rw [waiting] at hWaiting
    obtain ⟨τ, hRun, hτ, -, hFlushed⟩ := run_flush_queue
      (σ := { σ with batchDepth := σ.batchDepth - 1, frames := [.flush [], .code none k] }) rfl
      (by rw [show Runtime.observerStack _ = _ from hStack]; decide) hOnly
      (List.Nodup.of_append_left hWaiting)
    refine ⟨τ, .head ⟨hRoomy, hStep⟩ hRun, hτ, fun _ => ?_, hFlushed.runs⟩
    exact { hFlushed with depth := rfl }
  · have hEnd : (σ.withFrames [.code none k]).soliteBatchEnd =
        { σ with batchDepth := σ.batchDepth - 1, frames := [.code none k] } := if_neg hDepth
    rw [hEnd] at hStep
    refine ⟨_, .single ⟨hRoomy, hStep⟩, rfl, fun hLe => absurd hLe (by omega), fun e => ?_⟩
    exact Nat.le_succ _

/-- The whole batch, set by set. -/
theorem Follows.run {l : List (Nat × CalyndaRtWord)} {a b c : Runtime} (h : Follows a b)
    (hA : a.frames = [.code none (Code.sets l (.batchEnd .done))])
    (hB : b.frames = [.code none (Code.sets l .done)]) (hRun : Run Roomy a c)
    (hEnd : c.frames = [.code none .done]) :
    ∃ d, Run Roomy b d ∧ d.frames = [.code none .done] ∧ c.reading = d.reading ∧
      ∀ e, (c.effect e).reads = (d.effect e).reads := by
  induction l generalizing a b with
  | nil =>
    obtain ⟨τ, hRun', hτ, hFlushed, -⟩ := run_batchEnd h.tracked hA h.onlyReads
    obtain rfl := hRun.end_unique hRun' (step_of_halted hEnd) (step_of_halted hτ)
    replace hFlushed := hFlushed (Nat.le_of_eq h.depth)
    refine ⟨b, .refl, hB, hFlushed.reading.trans h.reading, fun e => ?_⟩
    have hWaiting : a.waiting = a.pendingQueue := by
      rw [waiting, hA]
      exact List.append_nil _
    by_cases hPending : (a.effect e).pending = true
    · obtain ⟨hAlive, hReads⟩ := h.busy e hPending
      have hMem : e ∈ a.pendingQueue := by
        rw [← hWaiting, ← h.tracked.pending_iff]
        exact hPending
      rw [hReads, ← h.fn, ← h.reading]
      exact hFlushed.ran e hMem hAlive
    · have hNot : e ∉ a.pendingQueue := by
        rw [← hWaiting, ← h.tracked.pending_iff]
        exact hPending
      rw [Bool.not_eq_true] at hPending
      rw [← (h.idle e hPending).1]
      exact congrArg SoliteEffect.reads (hFlushed.others e hNot)
  | cons p l ih =>
    obtain ⟨s, v⟩ := p
    have hNe : a ≠ c := by
      rintro rfl
      cases hA.symm.trans hEnd
    obtain ⟨hRoom, hRest⟩ := hRun.next hNe
    obtain ⟨b', hRunB, hFollows, hA', hB'⟩ := h.signalSet hA hB hRoom
    obtain ⟨d, hRunD, hd⟩ := ih hFollows hA' hB' hRest
    exact ⟨d, hRunB.trans hRunD, hd⟩

/-- What the end of a batch and a batch of sets do when the callbacks only read: the effects run
at most once each, and they have read the same as after the sets one by one. -/
structure BatchesSets (σ : Runtime) : Prop where
  once : ∃ τ, Completes σ (.batchEnd .done) τ ∧ ∀ e, (τ.effect e).runs ≤ (σ.effect e).runs + 1
  same : σ.batchDepth = 0 → ∀ l a, Completes σ (.batchStart (Code.sets l (.batchEnd .done))) a →
    ∃ b, Completes σ (Code.sets l .done) b ∧ a.reading = b.reading ∧
      ∀ e, (a.effect e).reads = (b.effect e).reads

theorem Tracked.running (h : Tracked σ) (hTop : σ.TopLevel) (program : Code) :
    Tracked (σ.running program) := by
  obtain ⟨rest, hFrames⟩ := hTop
  exact h.resume hFrames program

theorem Tracked.batchesSets (h : Tracked σ) (hTop : σ.TopLevel) (hOnly : OnlyReads σ) :
    BatchesSets σ where
  once := by
    obtain ⟨τ, hRun, hτ, -, hOnce⟩ := run_batchEnd (h.running hTop (.batchEnd .done)) rfl hOnly
    exact ⟨τ, ⟨hRun, hτ⟩, hOnce⟩
  same hDepth l a hCompletes := by
    obtain ⟨hRun, hEnd⟩ := hCompletes
    have hNe : σ.running (.batchStart (Code.sets l (.batchEnd .done))) ≠ a := by
      rintro rfl
      exact nomatch hEnd
    obtain ⟨hRoom, hRest⟩ := hRun.next hNe
    have hStack : σ.observerStack = [] := by
      obtain ⟨rest, hFrames⟩ := hTop
      refine h.observers.trans ?_
      rw [hFrames]
      rfl
    have hIdle := h.idle hTop hDepth
    have hFollows : Follows (σ.running (.batchStart (Code.sets l (.batchEnd .done)))).step
        (σ.running (Code.sets l .done)) :=
      { tracked := (h.running hTop _).step hRoom
        tracked' := h.running hTop _
        depth := congrArg (· + 1) hDepth
        depth' := hDepth
        stack := hStack
        stack' := hStack
        onlyReads := hOnly
        reading := rfl
        fn := fun _ => rfl
        disposed := fun _ => rfl
        rest := hIdle
        idle := fun _ _ => ⟨rfl, fun _ hSub => hSub⟩
        busy := fun e hPending => absurd ((hIdle e).symm.trans hPending) Bool.false_ne_true
        grown := fun _ _ hSub => hSub }
    obtain ⟨b, hRunB, hb, hReading, hReads⟩ := hFollows.run rfl rfl hRest hEnd
    exact ⟨b, ⟨hRunB, hb⟩, hReading, hReads⟩

/-! ## Runs with room -/

/-- What holds at top level: outside of batches the effects are up to date, and batches of sets
do for callbacks that only read what the sets do. -/
def KeepsUp (σ : Runtime) : Prop :=
  (σ.batchDepth = 0 → UpToDate σ) ∧ (OnlyReads σ → BatchesSets σ)

/-- In a run that never finds the queue or the observer stack full, this holds whenever control
is back at top level. -/
theorem keepsUp_of_roomy {program : Code} (hRun : Run Roomy (start program) σ)
    (hTop : σ.TopLevel) : KeepsUp σ := by
  have h := (tracked_start program).run hRun
  exact ⟨h.upToDate hTop, h.batchesSets hTop⟩

/-- A signal, an effect that reads it, and a set. -/
def oneEffect : Code :=
  .createSignal 0 fun s =>
    .createEffect (fun _ => .signalGet s fun _ => .done) fun _ => .signalSet s 1 .done

theorem keepsUp_oneEffect : KeepsUp (steps 10 (start oneEffect)) :=
  keepsUp_of_roomy (run_steps (by decide)) (topLevel_of_atEnd (by decide))

/-- An effect that creates an effect, and so on, to the innermost one, which reads a signal. -/
def nestedEffect (s : Nat) : Nat → Code
  | 0 => .signalGet s fun _ => .done
  | n + 1 => .createEffect (fun _ => nestedEffect s n) fun _ => .done

def deepEffects : Code :=
  .createSignal 0 fun s =>
    .createEffect (fun _ => nestedEffect s solidObserverStackMax) fun _ => .signalSet s 1 .done

/-- With 65 effects inside each other the innermost one is not on the stack of observers: it is
not subscribed to what it reads. -/
theorem not_keepsUp_deepEffects :
    ¬ ∀ program σ, Run (fun _ => True) (start program) σ → σ.TopLevel → KeepsUp σ := by
  intro h
  have hTop : (steps 220 (start deepEffects)).TopLevel := topLevel_of_atEnd (by decide +kernel)
  obtain ⟨hUpToDate, -⟩ := h deepEffects _ (run_steps (n := 220) fun _ _ => trivial) hTop
  have hReads := (hUpToDate (by decide +kernel)).reads 64 (by decide +kernel) (0, 0)
    (by decide +kernel)
  exact absurd hReads (by decide +kernel)

end Runtime

end Calynda.Solite
