import Calynda.Solite.Runtime
import Mathlib.Data.List.Nodup

/-!
# Effects keep up with the signals

An effect one of whose reads is out of date waits in the queue or in the snapshot of an active
flush. At top level, outside of batches, nothing waits.
-/

namespace Calynda.Solite

namespace Frame

/-- The effects that an activation is still going to run. -/
def waiting : Frame → List Nat
  | .code _ _ => []
  | .flush snapshot => snapshot

end Frame

namespace Runtime

variable {σ τ : Runtime}

/-- The effects that the queue and the snapshots hold. -/
def waiting (σ : Runtime) : List Nat := σ.pendingQueue ++ σ.frames.flatMap Frame.waiting

/-- What links the tables of the runtime, whatever the values of the signals are. -/
structure Linked (σ : Runtime) : Prop where
  nodup_subscribers : ∀ s, (σ.signal s).subscribers.Nodup
  subscriber_lt : ∀ s, ∀ e ∈ (σ.signal s).subscribers, s < σ.signalCount ∧ e < σ.effectCount
  observers : σ.observerStack = σ.frames.filterMap Frame.effect?
  observer_lt : ∀ e ∈ σ.observerStack, e < σ.effectCount
  nodup_waiting : σ.waiting.Nodup
  pending_iff : ∀ e, (σ.effect e).pending = true ↔ e ∈ σ.waiting
  waiting_lt : ∀ e ∈ σ.waiting, e < σ.effectCount
  subscribed : ∀ e, ∀ r ∈ (σ.effect e).reads, e ∈ (σ.signal r.1).subscribers

/-- An effect with a read that is out of date is pending, or among those that are to be
scheduled. -/
def Current (σ : Runtime) (late : List Nat) : Prop :=
  ∀ e, (σ.effect e).disposed = false → ∀ r ∈ (σ.effect e).reads,
    (σ.signal r.1).value = r.2 ∨ (σ.effect e).pending = true ∨ e ∈ late

/-- Someone is going to empty the queue. -/
def Drained (σ : Runtime) : Prop :=
  σ.pendingQueue ≠ [] → 0 < σ.batchDepth ∨ ∃ l, Frame.flush l ∈ σ.frames

/-- The invariant of the runs with room. -/
structure Tracked (σ : Runtime) : Prop extends Linked σ where
  current : Current σ []
  drained : Drained σ

/-! ## The stack of activations -/

theorem Linked.withFrames {fs : List Frame} (h : Linked σ)
    (hEffect : fs.filterMap Frame.effect? = σ.frames.filterMap Frame.effect?)
    (hWaiting : fs.flatMap Frame.waiting = σ.frames.flatMap Frame.waiting) :
    Linked (σ.withFrames fs) := by
  have hSame : (σ.withFrames fs).waiting = σ.waiting := by
    unfold waiting
    exact congrArg (σ.pendingQueue ++ ·) hWaiting
  exact
    { h with
      observers := h.observers.trans hEffect.symm
      nodup_waiting := hSame ▸ h.nodup_waiting
      pending_iff := hSame ▸ h.pending_iff
      waiting_lt := hSame ▸ h.waiting_lt }

/-- The code of the top frame goes on. -/
theorem Tracked.resume {run : Option (Nat × Nat)} {b : Code} {fs : List Frame} (h : Tracked σ)
    (hFrames : σ.frames = .code run b :: fs) (b' : Code) :
    Tracked (σ.withFrames (.code run b' :: fs)) := by
  refine { h.toLinked.withFrames ?_ ?_ with current := h.current, drained := ?_ }
  · rw [hFrames]
    rfl
  · rw [hFrames]
    rfl
  · intro hQueue
    rcases h.drained hQueue with hDepth | ⟨l, hl⟩
    · exact .inl hDepth
    · refine .inr ⟨l, ?_⟩
      rw [hFrames] at hl
      rcases List.mem_cons.1 hl with hEq | hl
      · cases hEq
      · exact List.mem_cons_of_mem _ hl

/-! ## Running an effect -/

/-- A run of an effect that is not disposed starts. -/
theorem effectRun_of_alive {e : Nat} (hAlive : (σ.effect e).disposed = false)
    (hRoom : σ.observerStack.length < solidObserverStackMax) :
    σ.effectRun e =
      { σ with
        effect := Function.update σ.effect e (σ.effect e).startRun
        observerStack := e :: σ.observerStack
        frames := .code (some (e, (σ.effect e).runs + 1)) ((σ.effect e).fn (σ.effect e).runs) ::
          σ.frames } := by
  have hPush : (σ.setEffect e (σ.effect e).startRun).solidObserverPush e =
      { σ with
        effect := Function.update σ.effect e (σ.effect e).startRun
        observerStack := e :: σ.observerStack } := if_pos hRoom
  rw [Runtime.effectRun, if_neg (by rw [hAlive]; exact Bool.false_ne_true), hPush]
  rfl

theorem effectRun_of_disposed {e : Nat} (h : (σ.effect e).disposed = true) : σ.effectRun e = σ :=
  if_pos h

section EffectRun

variable {e : Nat} {late : List Nat}
  (hRoom : (σ.effect e).disposed = false → σ.observerStack.length < solidObserverStackMax)
include hRoom

theorem Linked.effectRun (h : Linked σ) (hLt : e < σ.effectCount) : Linked (σ.effectRun e) := by
  cases hAlive : (σ.effect e).disposed with
  | true => rwa [effectRun_of_disposed hAlive]
  | false =>
    rw [effectRun_of_alive hAlive (hRoom hAlive)]
    exact
      { h with
        observers := congrArg (e :: ·) h.observers
        observer_lt := List.forall_mem_cons.2 ⟨hLt, h.observer_lt⟩
        pending_iff := by
          intro e'
          refine Iff.trans ?_ (h.pending_iff e')
          show (Function.update σ.effect e _ e').pending = true ↔ _
          by_cases hEq : e' = e
          · subst hEq
            rw [Function.update_self]
            exact Iff.rfl
          · rw [Function.update_of_ne hEq]
        subscribed := by
          intro e' r hr
          replace hr : r ∈ (Function.update σ.effect e _ e').reads := hr
          by_cases hEq : e' = e
          · subst hEq
            rw [Function.update_self] at hr
            exact nomatch hr
          · rw [Function.update_of_ne hEq] at hr
            exact h.subscribed e' r hr }

theorem Current.effectRun (h : Current σ late) : Current (σ.effectRun e) late := by
  cases hAlive : (σ.effect e).disposed with
  | true => rwa [effectRun_of_disposed hAlive]
  | false =>
    rw [effectRun_of_alive hAlive (hRoom hAlive)]
    intro e' hAlive' r hr
    replace hAlive' : (Function.update σ.effect e _ e').disposed = false := hAlive'
    replace hr : r ∈ (Function.update σ.effect e _ e').reads := hr
    show _ ∨ (Function.update σ.effect e _ e').pending = true ∨ _
    by_cases hEq : e' = e
    · subst hEq
      rw [Function.update_self] at hr
      exact nomatch hr
    · rw [Function.update_of_ne hEq] at hAlive' hr ⊢
      exact h e' hAlive' r hr

theorem Drained.effectRun (h : Drained σ) : Drained (σ.effectRun e) := by
  cases hAlive : (σ.effect e).disposed with
  | true => rwa [effectRun_of_disposed hAlive]
  | false =>
    rw [effectRun_of_alive hAlive (hRoom hAlive)]
    intro hQueue
    rcases h hQueue with hDepth | ⟨l, hl⟩
    · exact .inl hDepth
    · exact .inr ⟨l, List.mem_cons_of_mem _ hl⟩

theorem Tracked.effectRun (h : Tracked σ) (hLt : e < σ.effectCount) : Tracked (σ.effectRun e) :=
  { h.toLinked.effectRun hRoom hLt with
    current := h.current.effectRun hRoom
    drained := h.drained.effectRun hRoom }

end EffectRun

/-! ## Scheduling -/

theorem mem_fresh {s e : Nat} : e ∈ σ.fresh s ↔
    e ∈ (σ.signal s).subscribers ∧ (σ.effect e).disposed = false ∧ (σ.effect e).pending = false := by
  simp [fresh]

theorem schedule_of_skipped {e : Nat} (h : (σ.effect e).disposed = true ∨ (σ.effect e).pending = true) :
    σ.soliteEffectSchedule e = σ := if_pos h

theorem schedule_of_fresh {e : Nat} (hAlive : (σ.effect e).disposed = false)
    (hIdle : (σ.effect e).pending = false) (hRoom : σ.pendingQueue.length < solidPendingMax) :
    σ.soliteEffectSchedule e =
      { σ with
        effect := Function.update σ.effect e ((σ.effect e).setPending true)
        pendingQueue := σ.pendingQueue ++ [e] } := by
  rw [soliteEffectSchedule, if_neg (by simp [hAlive, hIdle]), if_pos hRoom]
  rfl

theorem Linked.schedule {e : Nat} (h : Linked σ) (hLt : e < σ.effectCount)
    (hRoom : σ.pendingQueue.length < solidPendingMax ∨
      (σ.effect e).disposed = true ∨ (σ.effect e).pending = true) :
    Linked (σ.soliteEffectSchedule e) := by
  by_cases hSkip : (σ.effect e).disposed = true ∨ (σ.effect e).pending = true
  · rwa [schedule_of_skipped hSkip]
  obtain ⟨hAlive, hIdle⟩ := not_or.1 hSkip
  rw [Bool.not_eq_true] at hAlive hIdle
  rw [schedule_of_fresh hAlive hIdle (hRoom.resolve_right hSkip)]
  have hNew : e ∉ σ.waiting := fun hMem => by
    rw [(h.pending_iff e).2 hMem] at hIdle
    exact nomatch hIdle
  have hPerm : (σ.pendingQueue ++ [e] ++ σ.frames.flatMap Frame.waiting).Perm (e :: σ.waiting) := by
    rw [List.append_assoc, waiting]
    exact List.perm_middle
  exact
    { h with
      nodup_waiting := hPerm.nodup_iff.2 (List.nodup_cons.2 ⟨hNew, h.nodup_waiting⟩)
      pending_iff := by
        intro e'
        refine Iff.trans ?_ (hPerm.mem_iff.symm)
        rw [List.mem_cons]
        show (Function.update σ.effect e _ e').pending = true ↔ _
        by_cases hEq : e' = e
        · subst hEq
          rw [Function.update_self]
          exact iff_of_true rfl (.inl rfl)
        · rw [Function.update_of_ne hEq, or_iff_right hEq]
          exact h.pending_iff e'
      waiting_lt := by
        intro e' hMem
        rcases List.mem_cons.1 (hPerm.mem_iff.1 hMem) with rfl | hOld
        · exact hLt
        · exact h.waiting_lt e' hOld
      subscribed := by
        intro e' r hr
        replace hr : r ∈ (Function.update σ.effect e _ e').reads := hr
        by_cases hEq : e' = e
        · subst hEq
          rw [Function.update_self] at hr
          exact h.subscribed e' r hr
        · rw [Function.update_of_ne hEq] at hr
          exact h.subscribed e' r hr }

/-- A scheduled effect is not late any more. -/
theorem Current.schedule {e : Nat} {late : List Nat} (h : Current σ (e :: late))
    (hRoom : σ.pendingQueue.length < solidPendingMax ∨
      (σ.effect e).disposed = true ∨ (σ.effect e).pending = true) :
    Current (σ.soliteEffectSchedule e) late := by
  by_cases hSkip : (σ.effect e).disposed = true ∨ (σ.effect e).pending = true
  · rw [schedule_of_skipped hSkip]
    intro e' hAlive r hr
    rcases h e' hAlive r hr with hValue | hPending | hLate
    · exact .inl hValue
    · exact .inr (.inl hPending)
    · rcases List.mem_cons.1 hLate with rfl | hLate
      · rw [hAlive] at hSkip
        exact .inr (.inl (hSkip.resolve_left nofun))
      · exact .inr (.inr hLate)
  obtain ⟨hAlive, hIdle⟩ := not_or.1 hSkip
  rw [Bool.not_eq_true] at hAlive hIdle
  rw [schedule_of_fresh hAlive hIdle (hRoom.resolve_right hSkip)]
  intro e' hAlive' r hr
  replace hAlive' : (Function.update σ.effect e _ e').disposed = false := hAlive'
  replace hr : r ∈ (Function.update σ.effect e _ e').reads := hr
  show _ ∨ (Function.update σ.effect e _ e').pending = true ∨ _
  by_cases hEq : e' = e
  · subst hEq
    rw [Function.update_self]
    exact .inr (.inl rfl)
  · rw [Function.update_of_ne hEq] at hAlive' hr ⊢
    rcases h e' hAlive' r hr with hValue | hPending | hLate
    · exact .inl hValue
    · exact .inr (.inl hPending)
    · exact .inr (.inr ((List.mem_cons.1 hLate).resolve_left hEq))

/-- The members of a list that scheduling puts into the queue. -/
def freshIn (σ : Runtime) (l : List Nat) : List Nat :=
  l.filter fun e => !(σ.effect e).disposed && !(σ.effect e).pending

/-- Scheduling an effect leaves the others as they are. -/
theorem freshIn_schedule {e : Nat} {l : List Nat} (h : e ∉ l) :
    (σ.soliteEffectSchedule e).freshIn l = σ.freshIn l := by
  refine List.filter_congr fun e' he' => ?_
  have hNe : e' ≠ e := fun hEq => h (hEq ▸ he')
  unfold soliteEffectSchedule
  split
  · rfl
  · split
    · show (!(Function.update σ.effect e _ e').disposed && !(Function.update σ.effect e _ e').pending) = _
      rw [Function.update_of_ne hNe]
    · rfl

theorem schedule_frames {e : Nat} : (σ.soliteEffectSchedule e).frames = σ.frames ∧
    (σ.soliteEffectSchedule e).effectCount = σ.effectCount ∧
    (σ.soliteEffectSchedule e).batchDepth = σ.batchDepth := by
  unfold soliteEffectSchedule
  split
  · exact ⟨rfl, rfl, rfl⟩
  · split <;> exact ⟨rfl, rfl, rfl⟩

/-- Where there is room for a list, there is for its head and then for the rest. -/
theorem room_cons {e : Nat} {l : List Nat} (hNew : e ∉ l)
    (hRoom : σ.pendingQueue.length + (σ.freshIn (e :: l)).length ≤ solidPendingMax) :
    (σ.pendingQueue.length < solidPendingMax ∨ (σ.effect e).disposed = true ∨
      (σ.effect e).pending = true) ∧
      (σ.soliteEffectSchedule e).pendingQueue.length +
        ((σ.soliteEffectSchedule e).freshIn l).length ≤ solidPendingMax := by
  rw [freshIn_schedule hNew]
  by_cases hSkip : (σ.effect e).disposed = true ∨ (σ.effect e).pending = true
  · rw [schedule_of_skipped hSkip]
    refine ⟨.inr hSkip, Nat.le_trans (Nat.add_le_add_left (List.Sublist.length_le ?_) _) hRoom⟩
    exact (List.sublist_cons_self e l).filter _
  · obtain ⟨hAlive, hIdle⟩ := not_or.1 hSkip
    rw [Bool.not_eq_true] at hAlive hIdle
    have hCons : σ.freshIn (e :: l) = e :: σ.freshIn l :=
      List.filter_cons_of_pos (by simp [hAlive, hIdle])
    rw [hCons, List.length_cons] at hRoom
    have hLess : σ.pendingQueue.length < solidPendingMax := by omega
    rw [schedule_of_fresh hAlive hIdle hLess]
    simp only [List.length_append, List.length_singleton]
    exact ⟨.inl hLess, by omega⟩

/-- The loop of `solite_signal_set` over the subscribers, when there is room for all of them. -/
theorem schedule_all {l : List Nat} (h : Linked σ) (hCurrent : Current σ l) (hNodup : l.Nodup)
    (hLt : ∀ e ∈ l, e < σ.effectCount)
    (hRoom : σ.pendingQueue.length + (σ.freshIn l).length ≤ solidPendingMax) :
    Linked (l.foldl soliteEffectSchedule σ) ∧ Current (l.foldl soliteEffectSchedule σ) [] := by
  induction l generalizing σ with
  | nil => exact ⟨h, hCurrent⟩
  | cons e l ih =>
    obtain ⟨hNew, hNodup⟩ := List.nodup_cons.1 hNodup
    obtain ⟨hHead, hTail⟩ := List.forall_mem_cons.1 hLt
    obtain ⟨hOne, hRest⟩ := room_cons hNew hRoom
    refine ih (h.schedule hHead hOne) (hCurrent.schedule hOne) hNodup (fun e' he' => ?_) hRest
    rw [schedule_frames.2.1]
    exact hTail e' he'

theorem schedule_all_frames (l : List Nat) :
    (l.foldl soliteEffectSchedule σ).frames = σ.frames ∧
      (l.foldl soliteEffectSchedule σ).batchDepth = σ.batchDepth := by
  induction l generalizing σ with
  | nil => exact ⟨rfl, rfl⟩
  | cons e l ih =>
    rw [List.foldl_cons, ih.1, ih.2]
    exact ⟨schedule_frames.1, schedule_frames.2.2⟩

/-! ## Flushing -/

/-- A flush drains the queue, whatever was in it. -/
theorem Tracked.flushPending (h : Linked σ) (hCurrent : Current σ []) :
    Tracked σ.soliteEffectFlushPending := by
  unfold soliteEffectFlushPending
  split
  case isTrue hDepth => exact { h with current := hCurrent, drained := fun _ => .inl hDepth }
  case isFalse =>
    exact
      { Linked.withFrames (σ := σ) h rfl rfl with
        current := hCurrent
        drained := fun _ => .inr ⟨[], List.mem_cons_self⟩ }

/-- The effect at the head of a snapshot is about to run: it does not wait any more. -/
theorem Tracked.clear {e : Nat} {rest : List Nat} {fs : List Frame} (h : Tracked σ)
    (hFrames : σ.frames = .flush (e :: rest) :: fs) :
    Linked ((σ.setEffect e ((σ.effect e).setPending false)).withFrames (.flush rest :: fs)) ∧
      ((σ.setEffect e ((σ.effect e).setPending false)).withFrames (.flush rest :: fs)).Drained ∧
      e < σ.effectCount := by
  have hPerm : σ.waiting.Perm (e :: (σ.pendingQueue ++ (rest ++ fs.flatMap Frame.waiting))) := by
    rw [waiting, hFrames]
    exact List.perm_middle
  obtain ⟨hNew, hNodup⟩ := List.nodup_cons.1 (hPerm.nodup_iff.1 h.nodup_waiting)
  refine ⟨?_, ?_, h.waiting_lt e (hPerm.mem_iff.2 List.mem_cons_self)⟩
  · exact
    { h with
      observers := by
        refine h.observers.trans ?_
        rw [hFrames]
        rfl
      nodup_waiting := hNodup
      pending_iff := by
        intro e'
        show (Function.update σ.effect e _ e').pending = true ↔
          e' ∈ σ.pendingQueue ++ (rest ++ fs.flatMap Frame.waiting)
        by_cases hEq : e' = e
        · subst hEq
          rw [Function.update_self]
          exact iff_of_false nofun hNew
        · rw [Function.update_of_ne hEq, h.pending_iff, hPerm.mem_iff, List.mem_cons,
            or_iff_right hEq]
      waiting_lt := fun e' he' => h.waiting_lt e' (hPerm.mem_iff.2 (List.mem_cons_of_mem _ he'))
      subscribed := by
        intro e' r hr
        replace hr : r ∈ (Function.update σ.effect e _ e').reads := hr
        by_cases hEq : e' = e
        · subst hEq
          rw [Function.update_self] at hr
          exact h.subscribed e' r hr
        · rw [Function.update_of_ne hEq] at hr
          exact h.subscribed e' r hr }
  · exact fun _ => .inr ⟨rest, List.mem_cons_self⟩

theorem Tracked.flushLoop {snapshot : List Nat} {fs : List Frame} (h : Tracked σ)
    (hFrames : σ.frames = .flush snapshot :: fs) (hRoom : Roomy σ) :
    Tracked (σ.flushLoop fs snapshot) := by
  cases snapshot with
  | nil =>
    by_cases hEmpty : σ.pendingQueue = []
    · rw [Runtime.flushLoop, if_pos hEmpty]
      refine { h.toLinked.withFrames ?_ ?_ with
        current := h.current, drained := fun hQueue => absurd hEmpty hQueue }
      · rw [hFrames]
        rfl
      · rw [hFrames]
        rfl
    · rw [Runtime.flushLoop, if_neg hEmpty]
      -- The queue becomes the snapshot: nobody waits who did not, in the same order.
      have hSame : Runtime.waiting
          { σ with pendingQueue := [], frames := .flush σ.pendingQueue :: fs } = σ.waiting := by
        simp [waiting, hFrames, Frame.waiting]
      exact
        { h with
          observers := by
            refine h.observers.trans ?_
            rw [hFrames]
            rfl
          nodup_waiting := hSame ▸ h.nodup_waiting
          pending_iff := hSame ▸ h.pending_iff
          waiting_lt := hSame ▸ h.waiting_lt
          drained := fun hNe => absurd rfl hNe }
  | cons e rest =>
    obtain ⟨hLinked, hDrained, hLt⟩ := h.clear hFrames
    have hAlive : ((σ.setEffect e ((σ.effect e).setPending false)).withFrames
        (.flush rest :: fs)).effect e = (σ.effect e).setPending false := Function.update_self ..
    have hRoom' : (((σ.setEffect e ((σ.effect e).setPending false)).withFrames
        (.flush rest :: fs)).effect e).disposed = false →
        σ.observerStack.length < solidObserverStackMax := by
      rw [hAlive]
      unfold Roomy at hRoom
      rw [hFrames] at hRoom
      exact hRoom
    refine { hLinked.effectRun hRoom' hLt with current := ?_, drained := hDrained.effectRun hRoom' }
    -- The reads of the effect that runs start again from none; it is the only one cleared.
    cases hDisposed : (σ.effect e).disposed with
    | true =>
      have hDisposed' : (((σ.setEffect e ((σ.effect e).setPending false)).withFrames
          (.flush rest :: fs)).effect e).disposed = true := by rw [hAlive]; exact hDisposed
      rw [Runtime.flushLoop, effectRun_of_disposed hDisposed']
      intro e' hAlive' r hr
      replace hAlive' : (Function.update σ.effect e _ e').disposed = false := hAlive'
      replace hr : r ∈ (Function.update σ.effect e _ e').reads := hr
      show _ ∨ (Function.update σ.effect e _ e').pending = true ∨ _
      by_cases hEq : e' = e
      · subst hEq
        rw [Function.update_self] at hAlive'
        exact nomatch hDisposed.symm.trans hAlive'
      · rw [Function.update_of_ne hEq] at hAlive' hr ⊢
        exact h.current e' hAlive' r hr
    | false =>
      have hDisposed' : (((σ.setEffect e ((σ.effect e).setPending false)).withFrames
          (.flush rest :: fs)).effect e).disposed = false := by rw [hAlive]; exact hDisposed
      rw [Runtime.flushLoop, effectRun_of_alive hDisposed' (hRoom' hDisposed')]
      intro e' hAlive' r hr
      replace hAlive' : (Function.update (Function.update σ.effect e _) e _ e').disposed = false :=
        hAlive'
      replace hr : r ∈ (Function.update (Function.update σ.effect e _) e _ e').reads := hr
      show _ ∨ (Function.update (Function.update σ.effect e _) e _ e').pending = true ∨ _
      by_cases hEq : e' = e
      · subst hEq
        rw [Function.update_self] at hr
        exact nomatch hr
      · rw [Function.update_of_ne hEq, Function.update_of_ne hEq] at hAlive' hr ⊢
        exact h.current e' hAlive' r hr

theorem Tracked.batchStart (h : Tracked σ) : Tracked σ.soliteBatchStart :=
  { h with drained := fun _ => .inl (Nat.succ_pos _) }

theorem Tracked.batchEnd (h : Tracked σ) : Tracked σ.soliteBatchEnd := by
  have hLinked : Linked { σ with batchDepth := σ.batchDepth - 1 } := { h.toLinked with }
  unfold soliteBatchEnd
  dsimp only
  split
  case isTrue => exact Tracked.flushPending hLinked h.current
  case isFalse hDepth =>
    exact { hLinked with current := h.current, drained := fun _ => .inl (Nat.pos_of_ne_zero hDepth) }

/-! ## Signals -/

theorem Tracked.createSignal (h : Tracked σ) (v : CalyndaRtWord) :
    Tracked (σ.soliteCreateSignal v) := by
  have hOld : ∀ e, ∀ r ∈ (σ.effect e).reads, r.1 ≠ σ.signalCount := fun e r hr =>
    Nat.ne_of_lt (h.subscriber_lt r.1 e (h.subscribed e r hr)).1
  exact
    { h with
      nodup_subscribers := by
        intro s
        show (Function.update σ.signal σ.signalCount _ s).subscribers.Nodup
        by_cases hEq : s = σ.signalCount
        · subst hEq
          rw [Function.update_self]
          exact List.nodup_nil
        · rw [Function.update_of_ne hEq]
          exact h.nodup_subscribers s
      subscriber_lt := by
        intro s e he
        replace he : e ∈ (Function.update σ.signal σ.signalCount _ s).subscribers := he
        by_cases hEq : s = σ.signalCount
        · subst hEq
          rw [Function.update_self] at he
          exact nomatch he
        · rw [Function.update_of_ne hEq] at he
          obtain ⟨hs, he⟩ := h.subscriber_lt s e he
          exact ⟨Nat.lt_succ_of_lt hs, he⟩
      subscribed := by
        intro e r hr
        show e ∈ (Function.update σ.signal σ.signalCount _ r.1).subscribers
        rw [Function.update_of_ne (hOld e r hr)]
        exact h.subscribed e r hr
      current := by
        intro e hAlive r hr
        show (Function.update σ.signal σ.signalCount _ r.1).value = r.2 ∨ _
        rw [Function.update_of_ne (hOld e r hr)]
        exact h.current e hAlive r hr }

theorem signalSet_of_changed {s : Nat} {v : CalyndaRtWord} (hs : s < σ.signalCount)
    (hv : (σ.signal s).value ≠ v) :
    σ.soliteSignalSet s v =
      ((σ.signal s).subscribers.foldl soliteEffectSchedule
        (σ.setSignal s { σ.signal s with value := v })).soliteEffectFlushPending := by
  rw [soliteSignalSet, if_pos hs, if_neg hv]

theorem Tracked.signalSet {s : Nat} {v : CalyndaRtWord} (h : Tracked σ)
    (hRoom : s < σ.signalCount → (σ.signal s).value ≠ v →
      σ.pendingQueue.length + (σ.fresh s).length ≤ solidPendingMax) :
    Tracked (σ.soliteSignalSet s v) := by
  by_cases hs : s < σ.signalCount
  case neg => rwa [soliteSignalSet, if_neg hs]
  by_cases hv : (σ.signal s).value = v
  case pos => rwa [soliteSignalSet, if_pos hs, if_pos hv]
  rw [signalSet_of_changed hs hv]
  have hSubs (t : Nat) : ((σ.setSignal s { σ.signal s with value := v }).signal t).subscribers =
      (σ.signal t).subscribers := by
    show (Function.update σ.signal s _ t).subscribers = _
    by_cases hEq : t = s
    · subst hEq
      rw [Function.update_self]
    · rw [Function.update_of_ne hEq]
  have hLinked : Linked (σ.setSignal s { σ.signal s with value := v }) :=
    { h with
      nodup_subscribers := fun t => hSubs t ▸ h.nodup_subscribers t
      subscriber_lt := fun t => hSubs t ▸ h.subscriber_lt t
      subscribed := fun e r hr => hSubs r.1 ▸ h.subscribed e r hr }
  -- Only reads of the signal get out of date, and their effects are subscribed to it.
  have hCurrent : Current (σ.setSignal s { σ.signal s with value := v })
      (σ.signal s).subscribers := by
    intro e hAlive r hr
    show (Function.update σ.signal s _ r.1).value = r.2 ∨ _
    by_cases hEq : r.1 = s
    · exact .inr (.inr (hEq ▸ h.subscribed e r hr))
    · rw [Function.update_of_ne hEq]
      rcases h.current e hAlive r hr with hValue | hPending | hNone
      · exact .inl hValue
      · exact .inr (.inl hPending)
      · exact nomatch hNone
  obtain ⟨hAll, hAllCurrent⟩ := schedule_all hLinked hCurrent (h.nodup_subscribers s)
    (fun e he => (h.subscriber_lt s e he).2) (hRoom hs hv)
  exact Tracked.flushPending hAll hAllCurrent

theorem Tracked.subscribe {s e : Nat} (h : Tracked σ) (hs : s < σ.signalCount)
    (he : e < σ.effectCount) :
    Tracked (σ.signalSubscribe s e) ∧ e ∈ ((σ.signalSubscribe s e).signal s).subscribers ∧
      ∀ t, ((σ.signalSubscribe s e).signal t).value = (σ.signal t).value := by
  unfold signalSubscribe
  dsimp only
  split
  case isTrue hMem => exact ⟨h, hMem, fun _ => rfl⟩
  case isFalse hNew =>
    have hSubs (t : Nat) : ((σ.setSignal s { σ.signal s with
        subscribers := (σ.signal s).subscribers ++ [e] }).signal t).value = (σ.signal t).value ∧
        ((σ.setSignal s { σ.signal s with
          subscribers := (σ.signal s).subscribers ++ [e] }).signal t).subscribers =
          if t = s then (σ.signal s).subscribers ++ [e] else (σ.signal t).subscribers := by
      show (Function.update σ.signal s _ t).value = _ ∧ (Function.update σ.signal s _ t).subscribers = _
      by_cases hEq : t = s
      · subst hEq
        rw [Function.update_self, if_pos rfl]
        exact ⟨rfl, rfl⟩
      · rw [Function.update_of_ne hEq, if_neg hEq]
        exact ⟨rfl, rfl⟩
    refine ⟨?_, ?_, fun t => (hSubs t).1⟩
    · exact
      { h with
        nodup_subscribers := by
          intro t
          rw [(hSubs t).2]
          split
          · refine List.nodup_append.2 ⟨h.nodup_subscribers s, List.nodup_singleton e, ?_⟩
            rintro a ha b hb rfl
            exact hNew (List.mem_singleton.1 hb ▸ ha)
          · exact h.nodup_subscribers t
        subscriber_lt := by
          intro t e' he'
          rw [(hSubs t).2] at he'
          split at he'
          case isTrue hEq =>
            subst hEq
            rcases List.mem_append.1 he' with hOld | hLast
            · exact h.subscriber_lt t e' hOld
            · rw [List.mem_singleton.1 hLast]
              exact ⟨hs, he⟩
          case isFalse => exact h.subscriber_lt t e' he'
        subscribed := by
          intro e' r hr
          have hOld := h.subscribed e' r hr
          rw [(hSubs r.1).2]
          split
          case isTrue hEq => exact List.mem_append_left _ (hEq ▸ hOld)
          case isFalse => exact hOld
        current := by
          intro e' hAlive r hr
          rw [(hSubs r.1).1]
          exact h.current e' hAlive r hr }
    · rw [(hSubs s).2, if_pos rfl]
      exact List.mem_append_right _ List.mem_cons_self

theorem noteRead_frames (run : Option (Nat × Nat)) (s : Nat) (v : CalyndaRtWord) :
    (σ.noteRead run s v).frames = σ.frames := by
  unfold Runtime.noteRead
  split
  · rfl
  · dsimp only
    split <;> rfl

theorem Tracked.noteRead {run : Option (Nat × Nat)} {s : Nat} {v : CalyndaRtWord} (h : Tracked σ)
    (hSub : ∀ e r, run = some (e, r) → s < σ.signalCount → e ∈ (σ.signal s).subscribers)
    (hv : s < σ.signalCount → (σ.signal s).value = v) : Tracked (σ.noteRead run s v) := by
  unfold Runtime.noteRead
  split
  case h_1 => exact h
  case h_2 e r =>
    dsimp only
    split
    case isFalse => exact h
    case isTrue hLast =>
      have hUpdate (e' : Nat) : ((σ.setEffect e ((σ.effect e).addReads [(s, v)])).effect e').pending = (σ.effect e').pending ∧
          ((σ.setEffect e ((σ.effect e).addReads [(s, v)])).effect e').disposed = (σ.effect e').disposed ∧
          ∀ q ∈ ((σ.setEffect e ((σ.effect e).addReads [(s, v)])).effect e').reads,
            q ∈ (σ.effect e').reads ∨ e' = e ∧ q = (s, v) := by
        show (Function.update σ.effect e _ e').pending = _ ∧ (Function.update σ.effect e _ e').disposed = _ ∧
          ∀ q ∈ (Function.update σ.effect e _ e').reads, _
        by_cases hEq : e' = e
        · subst hEq
          rw [Function.update_self]
          refine ⟨rfl, rfl, fun q hq => ?_⟩
          rcases List.mem_append.1 hq with hOld | hNew
          · exact .inl hOld
          · exact .inr ⟨rfl, List.mem_singleton.1 hNew⟩
        · rw [Function.update_of_ne hEq]
          exact ⟨rfl, rfl, fun q hq => .inl hq⟩
      exact
        { h with
          pending_iff := fun e' => (hUpdate e').1 ▸ h.pending_iff e'
          subscribed := by
            intro e' q hq
            rcases (hUpdate e').2.2 q hq with hOld | ⟨rfl, rfl⟩
            · exact h.subscribed e' q hOld
            · exact hSub e' r rfl hLast.2
          current := by
            intro e' hAlive q hq
            rw [(hUpdate e').2.1] at hAlive
            rw [(hUpdate e').1]
            rcases (hUpdate e').2.2 q hq with hOld | ⟨rfl, rfl⟩
            · exact h.current e' hAlive q hOld
            · exact .inl (hv hLast.2) }

/-! ## Effects and memos -/

theorem Tracked.createEffect (h : Tracked σ) (fn : Nat → Code)
    (hRoom : σ.observerStack.length < solidObserverStackMax) :
    Tracked (σ.soliteCreateEffect fn) := by
  have hIdle : σ.effectCount ∉ σ.waiting := fun hMem => Nat.lt_irrefl _ (h.waiting_lt _ hMem)
  refine Tracked.effectRun (fun _ => hRoom) ?_ (Nat.lt_succ_self _)
  exact
    { h with
      subscriber_lt := fun s e he =>
        ⟨(h.subscriber_lt s e he).1, Nat.lt_succ_of_lt (h.subscriber_lt s e he).2⟩
      observer_lt := fun e he => Nat.lt_succ_of_lt (h.observer_lt e he)
      pending_iff := by
        intro e
        show (Function.update σ.effect σ.effectCount _ e).pending = true ↔ e ∈ σ.waiting
        by_cases hEq : e = σ.effectCount
        · subst hEq
          rw [Function.update_self]
          exact iff_of_false nofun hIdle
        · rw [Function.update_of_ne hEq]
          exact h.pending_iff e
      waiting_lt := fun e he => Nat.lt_succ_of_lt (h.waiting_lt e he)
      subscribed := by
        intro e r hr
        replace hr : r ∈ (Function.update σ.effect σ.effectCount _ e).reads := hr
        by_cases hEq : e = σ.effectCount
        · subst hEq
          rw [Function.update_self] at hr
          exact nomatch hr
        · rw [Function.update_of_ne hEq] at hr
          exact h.subscribed e r hr
      current := by
        intro e hAlive r hr
        replace hAlive : (Function.update σ.effect σ.effectCount _ e).disposed = false := hAlive
        replace hr : r ∈ (Function.update σ.effect σ.effectCount _ e).reads := hr
        show _ ∨ (Function.update σ.effect σ.effectCount _ e).pending = true ∨ _
        by_cases hEq : e = σ.effectCount
        · subst hEq
          rw [Function.update_self] at hr
          exact nomatch hr
        · rw [Function.update_of_ne hEq] at hAlive hr ⊢
          exact h.current e hAlive r hr }

/-- A change of the record of an effect that keeps what the invariant speaks of, unless the
effect gets disposed. -/
theorem Tracked.setEffect {e : Nat} {eff : SoliteEffect} (h : Tracked σ)
    (hPending : eff.pending = (σ.effect e).pending) (hReads : eff.reads = (σ.effect e).reads)
    (hDisposed : eff.disposed = false → (σ.effect e).disposed = false) :
    Tracked (σ.setEffect e eff) := by
  have hUpdate (e' : Nat) : ((σ.setEffect e eff).effect e').pending = (σ.effect e').pending ∧
      ((σ.setEffect e eff).effect e').reads = (σ.effect e').reads ∧
      (((σ.setEffect e eff).effect e').disposed = false → (σ.effect e').disposed = false) := by
    show (Function.update σ.effect e _ e').pending = _ ∧ (Function.update σ.effect e _ e').reads = _ ∧
      ((Function.update σ.effect e _ e').disposed = false → _)
    by_cases hEq : e' = e
    · subst hEq
      rw [Function.update_self]
      exact ⟨hPending, hReads, hDisposed⟩
    · rw [Function.update_of_ne hEq]
      exact ⟨rfl, rfl, id⟩
  exact
    { h with
      pending_iff := fun e' => (hUpdate e').1 ▸ h.pending_iff e'
      subscribed := fun e' r hr => h.subscribed e' r ((hUpdate e').2.1 ▸ hr)
      current := by
        intro e' hAlive r hr
        rw [(hUpdate e').2.1] at hr
        rw [(hUpdate e').1]
        exact h.current e' ((hUpdate e').2.2 hAlive) r hr }

theorem Tracked.setMemo (h : Tracked σ) (m : Nat) (memo : SoliteMemo) : Tracked (σ.setMemo m memo) :=
  { h with }

theorem Tracked.createMemo (h : Tracked σ) (fn : SoliteMemoFn)
    (hRoom : σ.observerStack.length < solidObserverStackMax) : Tracked (σ.solidCreateMemo fn) := by
  have hMemo : Tracked { σ.setMemo σ.memoCount { fn := fn, trackingEffect := σ.effectCount } with
      memoCount := σ.memoCount + 1 } := { h with }
  exact hMemo.createEffect _ hRoom

theorem noteMemoRead_frames (run : Option (Nat × Nat)) (m : Nat) (v : CalyndaRtWord) :
    (σ.noteMemoRead run m v).frames = σ.frames := by
  unfold Runtime.noteMemoRead
  split
  · rfl
  · dsimp only
    split <;> rfl

theorem Tracked.noteMemoRead (h : Tracked σ) (run : Option (Nat × Nat)) (m : Nat)
    (v : CalyndaRtWord) : Tracked (σ.noteMemoRead run m v) := by
  unfold Runtime.noteMemoRead
  split
  case h_1 => exact h
  case h_2 e r =>
    dsimp only
    split
    · exact h.setEffect rfl rfl id
    · exact h

theorem Tracked.done {e r : Nat} {fs : List Frame} (h : Tracked σ)
    (hFrames : σ.frames = .code (some (e, r)) .done :: fs) :
    Tracked (σ.withFrames fs).solidObserverPop := by
  have hStack : σ.observerStack = e :: fs.filterMap Frame.effect? := by
    refine h.observers.trans ?_
    rw [hFrames]
    rfl
  have hSame : (σ.withFrames fs).solidObserverPop.waiting = σ.waiting := by
    unfold waiting
    rw [hFrames]
    rfl
  exact
    { h with
      observers := by
        show σ.observerStack.tail = _
        rw [hStack]
        rfl
      observer_lt := fun e' he' => h.observer_lt e' (List.mem_of_mem_tail he')
      nodup_waiting := hSame ▸ h.nodup_waiting
      pending_iff := hSame ▸ h.pending_iff
      waiting_lt := hSame ▸ h.waiting_lt
      drained := by
        intro hQueue
        rcases h.drained hQueue with hDepth | ⟨l, hl⟩
        · exact .inl hDepth
        · rw [hFrames] at hl
          exact .inr ⟨l, (List.mem_cons.1 hl).resolve_left nofun⟩ }

/-! ## Steps and runs -/

theorem Tracked.signalGet {run : Option (Nat × Nat)} {s : Nat} {k : CalyndaRtWord → Code}
    {fs : List Frame} (h : Tracked σ) (hFrames : σ.frames = .code run (.signalGet s k) :: fs) :
    Tracked (σ.codeStep run fs (.signalGet s k)) := by
  have hStack : σ.observerStack = (run.map Prod.fst).toList ++ fs.filterMap Frame.effect? := by
    refine h.observers.trans ?_
    rw [hFrames]
    cases run <;> rfl
  have hCore : ∀ τ v, σ.soliteSignalGet s = (τ, v) → τ.frames = σ.frames ∧
      Tracked (τ.noteRead run s v) := by
    intro τ v hGet
    unfold soliteSignalGet at hGet
    split at hGet
    case isFalse hs =>
      obtain ⟨rfl, rfl⟩ := Prod.mk.inj hGet
      exact ⟨rfl, h.noteRead (fun _ _ _ hs' => absurd hs' hs) fun hs' => absurd hs' hs⟩
    case isTrue hs =>
      obtain ⟨hτ, rfl⟩ := Prod.mk.inj hGet
      cases run with
      | none =>
        have hSame : τ.frames = σ.frames ∧ Tracked τ := by
          split at hτ
          case h_1 e _ =>
            subst hτ
            refine ⟨?_, (h.subscribe hs ?_).1⟩
            · unfold signalSubscribe
              dsimp only
              split <;> rfl
            · exact h.observer_lt e (List.mem_of_mem_head? ‹_›)
          case h_2 => exact hτ ▸ ⟨rfl, h⟩
        exact hSame
      | some run =>
        obtain ⟨e, r⟩ := run
        have hHead : σ.solidObserverCurrent = some e := by
          rw [solidObserverCurrent, hStack]
          rfl
        rw [hHead] at hτ
        subst hτ
        have he : e < σ.effectCount := h.observer_lt e (List.mem_of_mem_head? hHead)
        obtain ⟨hSub, hMem, hValue⟩ := h.subscribe hs he
        refine ⟨?_, hSub.noteRead ?_ fun _ => hValue s⟩
        · unfold signalSubscribe
          dsimp only
          split <;> rfl
        · rintro e' r' hRun -
          cases hRun
          exact hMem
  have hStep : σ.codeStep run fs (.signalGet s k) =
      ((σ.soliteSignalGet s).1.noteRead run s (σ.soliteSignalGet s).2).withFrames
        (.code run (k (σ.soliteSignalGet s).2) :: fs) := rfl
  obtain ⟨hFrames', hTracked⟩ := hCore _ _ rfl
  rw [hStep]
  refine hTracked.resume (b := .signalGet s k) ?_ _
  rw [noteRead_frames, hFrames', hFrames]

/-- What one step keeps. -/
theorem Tracked.step (h : Tracked σ) (hRoom : Roomy σ) : Tracked σ.step := by
  unfold Runtime.step
  cases hFrames : σ.frames with
  | nil => exact h
  | cons f fs =>
    cases f with
    | flush snapshot => exact h.flushLoop hFrames hRoom
    | code run b =>
      unfold Roomy at hRoom
      rw [hFrames] at hRoom
      cases b with
      | done =>
        cases run with
        | none => exact h
        | some run => exact h.done hFrames
      | createSignal v k => exact (h.resume hFrames _).createSignal v
      | signalGet s k => exact h.signalGet hFrames
      | signalSet s v k => exact (h.resume hFrames _).signalSet hRoom
      | batchStart k => exact (h.resume hFrames _).batchStart
      | batchEnd k => exact (h.resume hFrames _).batchEnd
      | createEffect fn k => exact (h.resume hFrames _).createEffect fn hRoom
      | disposeEffect e k =>
        dsimp only [codeStep, soliteEffectDispose]
        split
        · exact (h.resume hFrames _).setEffect rfl rfl nofun
        · exact h.resume hFrames _
      | createMemo fn k =>
        exact (h.resume hFrames _).createMemo fn hRoom
      | memoGet m k =>
        refine (h.noteMemoRead run m (σ.soliteMemoGet m)).resume (b := .memoGet m k) ?_ _
        rw [noteMemoRead_frames, hFrames]
      | storeMemo m v k => exact (h.resume hFrames _).setMemo m _

theorem tracked_start (program : Code) : Tracked (start program) where
  nodup_subscribers _ := List.nodup_nil
  subscriber_lt _ _ he := nomatch he
  observers := rfl
  observer_lt _ he := nomatch he
  nodup_waiting := List.nodup_nil
  pending_iff _ := iff_of_false nofun nofun
  waiting_lt _ he := nomatch he
  subscribed _ _ hr := nomatch hr
  current _ _ _ hr := nomatch hr
  drained hQueue := absurd rfl hQueue

/-- What a whole run with room keeps. -/
theorem Tracked.run (h : Tracked σ) (hRun : Run Roomy σ τ) : Tracked τ := by
  induction hRun with
  | refl => exact h
  | tail _ hStep ih =>
    obtain ⟨hRoom, rfl⟩ := hStep
    exact ih.step hRoom

/-- At rest, no effect is pending, and every effect has read what the signals are. -/
structure UpToDate (σ : Runtime) : Prop where
  queue : σ.pendingQueue = []
  reads : ∀ e, (σ.effect e).disposed = false → ∀ r ∈ (σ.effect e).reads, (σ.signal r.1).value = r.2

theorem Tracked.waiting_eq_nil (h : Tracked σ) (hTop : σ.TopLevel) (hDepth : σ.batchDepth = 0) :
    σ.waiting = [] := by
  obtain ⟨rest, hFrames⟩ := hTop
  have hQueue : σ.pendingQueue = [] := by
    by_contra hQueue
    rcases h.drained hQueue with hPos | ⟨l, hl⟩
    · omega
    · rw [hFrames] at hl
      exact nomatch List.mem_singleton.1 hl
  rw [waiting, hQueue, hFrames]
  rfl

theorem Tracked.upToDate (h : Tracked σ) (hTop : σ.TopLevel) (hDepth : σ.batchDepth = 0) :
    UpToDate σ := by
  have hNone := h.waiting_eq_nil hTop hDepth
  refine ⟨(List.append_eq_nil_iff.1 hNone).1, fun e hAlive r hr => ?_⟩
  rcases h.current e hAlive r hr with hValue | hPending | hLate
  · exact hValue
  · rw [h.pending_iff, hNone] at hPending
    exact nomatch hPending
  · exact nomatch hLate

end Runtime

end Calynda.Solite
