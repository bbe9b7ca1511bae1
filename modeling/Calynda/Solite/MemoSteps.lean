import Calynda.Solite.Memo

/-!
# Steps and memos

What the calls of the runtime do to the tables that the memos depend on, and that they keep the
invariant when they come from code that is not the callback of a memo.
-/

namespace Calynda.Solite

namespace Runtime

variable {σ τ : Runtime} {D : Nat → Prop}

theorem framesOk_plain {f : Frame} {fs : List Frame} (hFrames : τ.frames = f :: fs)
    (hPlain : PlainFrame τ f) (hRest : ∀ f' ∈ fs, PlainFrame τ f') : FramesOk τ := by
  intro f' fs' hFrames'
  obtain ⟨rfl, rfl⟩ := List.cons.inj (hFrames.symm.trans hFrames')
  exact ⟨.inl hPlain, hRest⟩

theorem framesOk_of_all {fs : List Frame} (hFrames : τ.frames = fs)
    (hPlain : ∀ f ∈ fs, PlainFrame τ f) : FramesOk τ := by
  cases fs with
  | nil => exact fun f' fs' hFrames' => nomatch hFrames.symm.trans hFrames'
  | cons f fs =>
    exact framesOk_plain hFrames (hPlain f List.mem_cons_self)
      fun f' hf' => hPlain f' (List.mem_cons_of_mem _ hf')

/-! ### Reading a signal -/

/-- What reading a signal does to the tables. -/
structure Got (s : Nat) (σ τ : Runtime) : Prop where
  signalCount : τ.signalCount = σ.signalCount
  effectCount : τ.effectCount = σ.effectCount
  memo : τ.memo = σ.memo
  memoCount : τ.memoCount = σ.memoCount
  observerStack : τ.observerStack = σ.observerStack
  value : ∀ t, (τ.signal t).value = (σ.signal t).value
  subscribers : ∀ t e, e ∈ (τ.signal t).subscribers ↔ e ∈ (σ.signal t).subscribers ∨
    (σ.solidObserverCurrent = some e ∧ t = s ∧ s < σ.signalCount)
  effect : ∀ e, (τ.effect e).fn = (σ.effect e).fn ∧ (τ.effect e).runs = (σ.effect e).runs ∧
    (τ.effect e).memoReads = (σ.effect e).memoReads ∧
    (τ.effect e).disposed = (σ.effect e).disposed ∧ (τ.effect e).pending = (σ.effect e).pending

theorem got_subscribe {s e : Nat} (hs : s < σ.signalCount) (he : σ.solidObserverCurrent = some e) :
    Got s σ (σ.signalSubscribe s e) := by
  unfold signalSubscribe
  dsimp only
  split
  case isTrue hMem =>
    refine ⟨rfl, rfl, rfl, rfl, rfl, fun _ => rfl, fun t e' => ⟨.inl, ?_⟩, fun _ => ⟨rfl, rfl, rfl, rfl, rfl⟩⟩
    rintro (hOld | ⟨he', rfl, -⟩)
    · exact hOld
    · exact Option.some.inj (he.symm.trans he') ▸ hMem
  case isFalse =>
    refine ⟨rfl, rfl, rfl, rfl, rfl, fun t => ?_, fun t e' => ?_, fun _ => ⟨rfl, rfl, rfl, rfl, rfl⟩⟩
    · show (Function.update σ.signal s _ t).value = _
      by_cases hEq : t = s
      · subst hEq
        rw [Function.update_self]
      · rw [Function.update_of_ne hEq]
    · show e' ∈ (Function.update σ.signal s _ t).subscribers ↔ _
      by_cases hEq : t = s
      · subst hEq
        rw [Function.update_self, List.mem_append, List.mem_singleton, he]
        simp [hs, eq_comm]
      · rw [Function.update_of_ne hEq]
        simp [hEq]

theorem Got.trans_note {s : Nat} {v : CalyndaRtWord} (h : Got s σ τ) (run : Option (Nat × Nat))
    (fs : List Frame) : Got s σ ((τ.noteRead run s v).withFrames fs) := by
  have hNote : ((τ.noteRead run s v).withFrames fs).signal = τ.signal ∧
      ((τ.noteRead run s v).withFrames fs).signalCount = τ.signalCount ∧
      ((τ.noteRead run s v).withFrames fs).effectCount = τ.effectCount ∧
      ((τ.noteRead run s v).withFrames fs).memo = τ.memo ∧
      ((τ.noteRead run s v).withFrames fs).memoCount = τ.memoCount ∧
      ((τ.noteRead run s v).withFrames fs).observerStack = τ.observerStack ∧
      ∀ e, (((τ.noteRead run s v).withFrames fs).effect e).fn = (τ.effect e).fn ∧
        (((τ.noteRead run s v).withFrames fs).effect e).runs = (τ.effect e).runs ∧
        (((τ.noteRead run s v).withFrames fs).effect e).memoReads = (τ.effect e).memoReads ∧
        (((τ.noteRead run s v).withFrames fs).effect e).disposed = (τ.effect e).disposed ∧
        (((τ.noteRead run s v).withFrames fs).effect e).pending = (τ.effect e).pending := by
    unfold Runtime.noteRead
    split
    case h_1 => exact ⟨rfl, rfl, rfl, rfl, rfl, rfl, fun _ => ⟨rfl, rfl, rfl, rfl, rfl⟩⟩
    case h_2 e r =>
      dsimp only
      split
      case isFalse => exact ⟨rfl, rfl, rfl, rfl, rfl, rfl, fun _ => ⟨rfl, rfl, rfl, rfl, rfl⟩⟩
      case isTrue =>
        refine ⟨rfl, rfl, rfl, rfl, rfl, rfl, fun e' => ?_⟩
        have hUpdate : (((τ.setEffect e ((τ.effect e).addReads [(s, v)])).withFrames fs).effect e') =
            if e' = e then (τ.effect e).addReads [(s, v)] else τ.effect e' :=
          Function.update_apply ..
        rw [hUpdate]
        split
        case isTrue hEq =>
          subst hEq
          exact ⟨rfl, rfl, rfl, rfl, rfl⟩
        case isFalse => exact ⟨rfl, rfl, rfl, rfl, rfl⟩
  obtain ⟨hSignal, hCount, hEffects, hMemo, hMemos, hStack, hEffect⟩ := hNote
  exact
    { signalCount := hCount.trans h.signalCount
      effectCount := hEffects.trans h.effectCount
      memo := hMemo.trans h.memo
      memoCount := hMemos.trans h.memoCount
      observerStack := hStack.trans h.observerStack
      value := fun t => hSignal ▸ h.value t
      subscribers := fun t => hSignal ▸ h.subscribers t
      effect := by
        intro e
        obtain ⟨h₁, h₂, h₃, h₄, h₅⟩ := hEffect e
        rw [h₁, h₂, h₃, h₄, h₅]
        exact h.effect e }

theorem got_signalGet (run : Option (Nat × Nat)) (s : Nat) (k : CalyndaRtWord → Code)
    (fs : List Frame) : Got s σ (σ.codeStep run fs (.signalGet s k)) := by
  rw [codeStep_signalGet]
  refine Got.trans_note ?_ run _
  unfold soliteSignalGet
  split
  case isFalse hs =>
    exact ⟨rfl, rfl, rfl, rfl, rfl, fun _ => rfl, fun t e => by simp [hs], fun _ => ⟨rfl, rfl, rfl, rfl, rfl⟩⟩
  case isTrue hs =>
    dsimp only
    cases he : σ.solidObserverCurrent with
    | some e => exact got_subscribe hs he
    | none =>
      refine ⟨rfl, rfl, rfl, rfl, rfl, fun _ => rfl, fun t e => ?_, fun _ => ⟨rfl, rfl, rfl, rfl, rfl⟩⟩
      rw [he]
      simp

theorem Got.evolves {s : Nat} (h : Got s σ τ) : Evolves (fun _ => False) σ τ where
  signalCount := Nat.le_of_eq h.signalCount.symm
  effectCount := Nat.le_of_eq h.effectCount.symm
  memoCount := Nat.le_of_eq h.memoCount.symm
  value t _ _ := h.value t
  subscribers t e hSub := by
    rcases (h.subscribers t e).1 hSub with hOld | ⟨he, -⟩
    · exact .inl hOld
    · exact .inr (List.mem_of_mem_head? he)
  kept t e hSub := (h.subscribers t e).2 (.inl hSub)
  memo m _ := by
    rw [h.memo]
    exact ⟨rfl, rfl, fun _ => rfl⟩
  pending e hPending := .inl ((h.effect e).2.2.2.2 ▸ hPending)
  scheduled _ _ hD := hD.elim
  observers e he := .inl (h.observerStack ▸ he)

/-! ### Setting a signal -/

theorem foldl_schedule_tables (l : List Nat) :
    (l.foldl soliteEffectSchedule σ).effectCount = σ.effectCount ∧
      (l.foldl soliteEffectSchedule σ).memo = σ.memo ∧
      (l.foldl soliteEffectSchedule σ).memoCount = σ.memoCount := by
  induction l generalizing σ with
  | nil => exact ⟨rfl, rfl, rfl⟩
  | cons e l ih =>
    obtain ⟨h₁, h₂, h₃⟩ := ih (σ := σ.soliteEffectSchedule e)
    rw [List.foldl_cons, h₁, h₂, h₃]
    unfold soliteEffectSchedule
    split
    · exact ⟨rfl, rfl, rfl⟩
    · split <;> exact ⟨rfl, rfl, rfl⟩

theorem flushPending_tables : σ.soliteEffectFlushPending.signal = σ.signal ∧
    σ.soliteEffectFlushPending.signalCount = σ.signalCount ∧
    σ.soliteEffectFlushPending.effect = σ.effect ∧
    σ.soliteEffectFlushPending.effectCount = σ.effectCount ∧
    σ.soliteEffectFlushPending.memo = σ.memo ∧
    σ.soliteEffectFlushPending.memoCount = σ.memoCount ∧
    σ.soliteEffectFlushPending.observerStack = σ.observerStack ∧
    (σ.soliteEffectFlushPending.frames = σ.frames ∨
      σ.soliteEffectFlushPending.frames = .flush [] :: σ.frames) := by
  unfold soliteEffectFlushPending
  split
  · exact ⟨rfl, rfl, rfl, rfl, rfl, rfl, rfl, .inl rfl⟩
  · exact ⟨rfl, rfl, rfl, rfl, rfl, rfl, rfl, .inr rfl⟩

/-- What setting a signal does to the tables. -/
theorem evolves_signalSet {s : Nat} {v : CalyndaRtWord} (h : Tracked σ)
    (hRoom : s < σ.signalCount → (σ.signal s).value ≠ v →
      σ.pendingQueue.length + (σ.fresh s).length ≤ solidPendingMax) :
    (∃ D, Evolves D σ (σ.soliteSignalSet s v)) ∧
      (σ.soliteSignalSet s v).memoCount = σ.memoCount ∧
      KeepsEffects σ (σ.soliteSignalSet s v) ∧
      (∀ e, ((σ.soliteSignalSet s v).effect e).disposed = (σ.effect e).disposed) ∧
      ((σ.soliteSignalSet s v).frames = σ.frames ∨
        (σ.soliteSignalSet s v).frames = .flush [] :: σ.frames) := by
  by_cases hSame : s < σ.signalCount ∧ (σ.signal s).value ≠ v
  case neg =>
    have hEq : σ.soliteSignalSet s v = σ := by
      unfold soliteSignalSet
      split
      case isTrue hs => exact if_pos (not_not.1 fun hv => hSame ⟨hs, hv⟩)
      case isFalse => rfl
    rw [hEq]
    exact ⟨⟨_, Evolves.of_same rfl rfl rfl rfl (Nat.le_refl _) (fun _ h => h) fun _ h => .inl h⟩, rfl,
      fun _ => .inl ⟨rfl, rfl, id, id⟩, fun _ => rfl, .inl rfl⟩
  obtain ⟨hs, hv⟩ := hSame
  let changed := σ.setSignal s { σ.signal s with value := v }
  let scheduled := (σ.signal s).subscribers.foldl soliteEffectSchedule changed
  have hEffect : ∀ e, scheduled.effect e =
      if e ∈ (σ.signal s).subscribers ∧ (σ.effect e).disposed = false then
        (σ.effect e).setPending true
      else σ.effect e := foldl_schedule_effect (σ := changed) (h.nodup_subscribers s) (hRoom hs hv)
  obtain ⟨hSignal, hSignals, -, hStack⟩ :=
    foldl_schedule_frame (σ := changed) (σ.signal s).subscribers
  obtain ⟨hEffects, hMemo, hMemos⟩ := foldl_schedule_tables (σ := changed) (σ.signal s).subscribers
  obtain ⟨hF₁, hF₂, hF₃, hF₄, hF₅, hF₆, hF₇, hF₈⟩ := flushPending_tables (σ := scheduled)
  have hSet : σ.soliteSignalSet s v = scheduled.soliteEffectFlushPending := signalSet_of_changed hs hv
  have hFrames : scheduled.frames = σ.frames := (schedule_all_frames (σ := changed) _).1
  have hOf (t : Nat) : (scheduled.signal t).subscribers = (σ.signal t).subscribers ∧
      (t ≠ s → (scheduled.signal t).value = (σ.signal t).value) := by
    rw [hSignal]
    show (Function.update σ.signal s _ t).subscribers = _ ∧
      (_ → (Function.update σ.signal s _ t).value = _)
    by_cases hEq : t = s
    · subst hEq
      rw [Function.update_self]
      exact ⟨rfl, fun hNe => absurd rfl hNe⟩
    · rw [Function.update_of_ne hEq]
      exact ⟨rfl, fun _ => rfl⟩
  have hPending (e : Nat) : (σ.effect e).pending = true → (scheduled.effect e).pending = true := by
    intro hOld
    rw [hEffect]
    split
    · rfl
    · exact hOld
  rw [hSet]
  refine ⟨⟨(· = s), ?_⟩, hF₆.trans hMemos, fun e => .inl ?_, fun e => ?_, ?_⟩
  · exact
    { signalCount := Nat.le_of_eq (hF₂.trans hSignals).symm
      effectCount := Nat.le_of_eq (hF₄.trans hEffects).symm
      memoCount := Nat.le_of_eq (hF₆.trans hMemos).symm
      value := by
        intro t _ hNe
        rw [hF₁]
        exact (hOf t).2 hNe
      subscribers := by
        intro t e hSub
        rw [hF₁, (hOf t).1] at hSub
        exact .inl hSub
      kept := by
        intro t e hSub
        rwa [hF₁, (hOf t).1]
      memo := by
        intro m _
        rw [hF₅, hMemo]
        exact ⟨rfl, rfl, fun _ => rfl⟩
      pending := by
        intro e hNow
        rw [hF₃, hEffect] at hNow
        split at hNow
        case isTrue hFresh => exact .inr ⟨s, rfl, hFresh.1⟩
        case isFalse => exact .inl hNow
      scheduled := by
        rintro t e rfl hSub hAlive
        rw [hF₃, hEffect, if_pos ⟨hSub, hAlive⟩]
        rfl
      observers := by
        intro e he
        rw [hF₇, hStack] at he
        exact .inl he }
  · rw [hF₃]
    refine ⟨?_, ?_, ?_, hPending e⟩
    all_goals
      rw [hEffect]
      split
      · first | rfl | exact id
      · first | rfl | exact id
  · rw [hF₃, hEffect]
    split <;> rfl
  · rw [← hFrames]
    exact hF₈

/-! ### Reading a memo -/

theorem noteMemoRead_tables (run : Option (Nat × Nat)) (m : Nat) (v : CalyndaRtWord)
    (fs : List Frame) :
    Evolves (fun _ => False) σ ((σ.noteMemoRead run m v).withFrames fs) ∧
      ((σ.noteMemoRead run m v).withFrames fs).memo = σ.memo ∧
      ((σ.noteMemoRead run m v).withFrames fs).memoCount = σ.memoCount ∧
      ((σ.noteMemoRead run m v).withFrames fs).effectCount = σ.effectCount ∧
      ((σ.noteMemoRead run m v).withFrames fs).observerStack = σ.observerStack ∧
      ∀ e, (((σ.noteMemoRead run m v).withFrames fs).effect e).fn = (σ.effect e).fn ∧
        (((σ.noteMemoRead run m v).withFrames fs).effect e).runs = (σ.effect e).runs ∧
        (((σ.noteMemoRead run m v).withFrames fs).effect e).disposed = (σ.effect e).disposed ∧
        (((σ.noteMemoRead run m v).withFrames fs).effect e).pending = (σ.effect e).pending ∧
        ∀ q ∈ (((σ.noteMemoRead run m v).withFrames fs).effect e).memoReads,
          q ∈ (σ.effect e).memoReads ∨ q = (m, v) ∧ m < σ.memoCount ∧ ∃ r, run = some (e, r) := by
  unfold Runtime.noteMemoRead
  have hSame : Evolves (fun _ => False) σ (σ.withFrames fs) :=
    Evolves.of_same rfl rfl rfl rfl (Nat.le_refl _) (fun _ h => h) fun _ h => .inl h
  split
  case h_1 => exact ⟨hSame, rfl, rfl, rfl, rfl, fun _ => ⟨rfl, rfl, rfl, rfl, fun _ h => .inl h⟩⟩
  case h_2 e r =>
    dsimp only
    split
    case isFalse => exact ⟨hSame, rfl, rfl, rfl, rfl, fun _ => ⟨rfl, rfl, rfl, rfl, fun _ h => .inl h⟩⟩
    case isTrue hLast =>
      have hUpdate (e' : Nat) : ((σ.setEffect e (σ.effect e |>.addMemoReads [(m, v)])).withFrames fs).effect e' =
          if e' = e then (σ.effect e).addMemoReads [(m, v)] else σ.effect e' :=
        Function.update_apply ..
      refine ⟨Evolves.of_same rfl rfl rfl rfl (Nat.le_refl _) (fun e' hPending => ?_)
        (fun _ h => .inl h), rfl, rfl, rfl, rfl, fun e' => ?_⟩
      · rw [hUpdate] at hPending
        split at hPending
        case isTrue hEq => exact hEq ▸ hPending
        case isFalse => exact hPending
      · rw [hUpdate]
        split
        case isTrue hEq =>
          subst hEq
          refine ⟨rfl, rfl, rfl, rfl, fun q hq => ?_⟩
          rcases List.mem_append.1 hq with hOld | hNew
          · exact .inl hOld
          · exact .inr ⟨List.mem_singleton.1 hNew, hLast.2, r, rfl⟩
        case isFalse => exact ⟨rfl, rfl, rfl, rfl, fun _ h => .inl h⟩

/-! ## Reads in time -/

/-- The run is that of the tracking effect of a memo. -/
def Tracking (σ : Runtime) (run : Option (Nat × Nat)) : Prop :=
  ∃ m r, m < σ.memoCount ∧ run = some ((σ.memo m).trackingEffect, r)

/-- A memo is read while its tracking effect has nothing to do, and by an effect, if by one, that
is subscribed to all that the tracking effect is subscribed to. The functions of memos read what
there is, and nobody disposes of a tracking effect. -/
def TimelyCode (σ : Runtime) (run : Option (Nat × Nat)) : Code → Prop
  | .memoGet m _ => (Tracking σ run → m < σ.memoCount) ∧
      (m < σ.memoCount → σ.Quiet m ∧ ∀ e, σ.solidObserverCurrent = some e → σ.Covers e m)
  | .signalGet s _ => Tracking σ run → s < σ.signalCount
  | .disposeEffect e _ => ∀ m, m < σ.memoCount → (σ.memo m).trackingEffect ≠ e
  | _ => True

/-- The next step has room, and it respects the memos. -/
def Timely (σ : Runtime) : Prop :=
  Roomy σ ∧ ∀ run b fs, σ.frames = .code run b :: fs → TimelyCode σ run b

theorem Timely.of_head {run : Option (Nat × Nat)} {b : Code} {fs : List Frame}
    (hFrames : σ.frames = .code run b :: fs) (hRoom : Roomy σ) (hCode : TimelyCode σ run b) :
    Timely σ := by
  refine ⟨hRoom, fun run' b' fs' hFrames' => ?_⟩
  cases hFrames.symm.trans hFrames'
  exact hCode

theorem Kept.relies (h : Kept σ) {m : Nat} (hm : m < σ.memoCount) (hQuiet : σ.Quiet m) {e : Nat}
    (hCovers : σ.Covers e m) : Relies σ e m (σ.memo m).cachedValue := by
  have hSettles := ((h.memos m hm).resolve_left hQuiet.2).resolve_left
    (by rw [hQuiet.1]; exact Bool.false_ne_true)
  exact .memoGet hm hQuiet hCovers hSettles (.value _ _)

theorem Kept.observer_head (h : Kept σ) {e r : Nat} {b : Code} {fs : List Frame}
    (hFrames : σ.frames = .code (some (e, r)) b :: fs) : σ.solidObserverCurrent = some e := by
  rw [solidObserverCurrent, show σ.observerStack = _ from h.observers, hFrames]
  rfl

theorem soliteMemoGet_of_lt {m : Nat} (hm : m < σ.memoCount) :
    σ.soliteMemoGet m = (σ.memo m).cachedValue := if_pos hm

section PlainSteps

variable {run : Option (Nat × Nat)} {b : Code} {fs : List Frame} (h : Kept σ)
  (hFrames : σ.frames = .code run b :: fs) (hPlain : PlainFrame σ (.code run b))
include h hFrames hPlain

/-- The stack after a step of plain code that leaves the memos alone. -/
theorem framesOk_resume {b' : Code} (hb' : b'.Plain) (hCount : τ.memoCount = σ.memoCount)
    (hMemo : τ.memo = σ.memo)
    (hTop : τ.frames = .code run b' :: fs ∨ τ.frames = .flush [] :: .code run b' :: fs) :
    FramesOk τ := by
  have hSame : ∀ m, m < σ.memoCount → (τ.memo m).trackingEffect = (σ.memo m).trackingEffect :=
    fun m _ => by rw [hMemo]
  have hCode : PlainFrame τ (.code run b') :=
    PlainFrame.congr (σ := σ) (f := .code run b') ⟨hb', hPlain.2⟩ hCount hSame
  have hRest : ∀ f ∈ fs, PlainFrame τ f := fun f hf =>
    ((h.framesOk _ fs hFrames).2 f hf).congr hCount hSame
  rcases hTop with hTop | hTop
  · exact framesOk_plain hTop hCode hRest
  · exact framesOk_plain hTop trivial (List.forall_mem_cons.2 ⟨hCode, hRest⟩)

/-- A step of plain code that changes no effect, no signal and no memo. -/
theorem Kept.sameStep {b' : Code} (hb' : b'.Plain) (hTracked : Tracked τ)
    (hSignal : τ.signal = σ.signal) (hSignals : τ.signalCount = σ.signalCount)
    (hEffect : τ.effect = σ.effect) (hEffects : τ.effectCount = σ.effectCount)
    (hMemo : τ.memo = σ.memo) (hMemos : τ.memoCount = σ.memoCount)
    (hStack : τ.observerStack = σ.observerStack)
    (hTop : τ.frames = .code run b' :: fs ∨ τ.frames = .flush [] :: .code run b' :: fs) :
    Kept τ := by
  have hEvolves : Evolves (fun _ => False) σ τ :=
    Evolves.of_same hSignal hSignals hMemo hMemos (Nat.le_of_eq hEffects.symm)
      (fun e hPending => hEffect ▸ hPending) fun e he => .inl (hStack ▸ he)
  refine h.plainStep hEvolves hMemos (fun e => .inl ?_) (fun m hm => ?_)
    (fun m hm => h.not_observer hFrames hPlain hm) hTracked
    (framesOk_resume h hFrames hPlain hb' hMemos hMemo hTop)
  · rw [hEffect]
    exact ⟨rfl, rfl, id, id⟩
  · rw [hEffect]
    exact h.alive m hm

theorem Kept.plain_done (hTracked : Tracked (σ.withFrames fs).solidObserverPop) :
    Kept (σ.withFrames fs).solidObserverPop := by
  have hEvolves : Evolves (fun _ => False) σ (σ.withFrames fs).solidObserverPop :=
    Evolves.of_same rfl rfl rfl rfl (Nat.le_refl _) (fun _ hPending => hPending)
      fun e he => .inl (List.mem_of_mem_tail he)
  refine h.plainStep hEvolves rfl (fun e => .inl ⟨rfl, rfl, id, id⟩) h.alive
    (fun m hm => h.not_observer hFrames hPlain hm) hTracked (framesOk_of_all rfl ?_)
  exact fun f hf => ((h.framesOk _ fs hFrames).2 f hf).congr rfl fun _ _ => rfl

theorem Kept.plain_signalGet {s : Nat} {k : CalyndaRtWord → Code} (hb : b = .signalGet s k)
    (hTracked : Tracked (σ.codeStep run fs (.signalGet s k))) :
    Kept (σ.codeStep run fs (.signalGet s k)) := by
  have hGot := got_signalGet (σ := σ) run s k fs
  subst hb
  refine h.plainStep hGot.evolves hGot.memoCount (fun e => .inl ?_) (fun m hm => ?_)
    (fun m hm => h.not_observer hFrames hPlain hm) hTracked
    (framesOk_resume h hFrames hPlain (hPlain.1 _) hGot.memoCount hGot.memo (.inl rfl))
  · obtain ⟨hFn, -, hReads, hDisposed, hPending⟩ := hGot.effect e
    exact ⟨hFn, hReads, fun hAlive => hDisposed ▸ hAlive, fun hOld => hPending ▸ hOld⟩
  · rw [(hGot.effect _).2.2.2.1]
    exact h.alive m hm

theorem Kept.plain_signalSet {s : Nat} {v : CalyndaRtWord} {k : Code} (hb : b = .signalSet s v k)
    (hRoom : s < σ.signalCount → (σ.signal s).value ≠ v →
      σ.pendingQueue.length + (σ.fresh s).length ≤ solidPendingMax)
    (hTracked : Tracked ((σ.withFrames (.code run k :: fs)).soliteSignalSet s v)) :
    Kept ((σ.withFrames (.code run k :: fs)).soliteSignalSet s v) := by
  subst hb
  obtain ⟨⟨D, hEvolves⟩, hCount, hEffects, hDisposed, hTop⟩ :=
    evolves_signalSet (v := v) (h.resume hFrames k) hRoom
  replace hEvolves : Evolves D σ ((σ.withFrames (.code run k :: fs)).soliteSignalSet s v) :=
    { hEvolves with }
  have hMemo : ∀ m, m < σ.memoCount →
      (((σ.withFrames (.code run k :: fs)).soliteSignalSet s v).memo m).trackingEffect =
        (σ.memo m).trackingEffect := fun m hm => (hEvolves.memo m hm).2.1
  have hCode : PlainFrame ((σ.withFrames (.code run k :: fs)).soliteSignalSet s v) (.code run k) :=
    PlainFrame.congr (σ := σ) (f := .code run k) ⟨hPlain.1, hPlain.2⟩ hCount hMemo
  have hRest : ∀ f ∈ fs,
      PlainFrame ((σ.withFrames (.code run k :: fs)).soliteSignalSet s v) f := fun f hf =>
    ((h.framesOk _ fs hFrames).2 f hf).congr hCount hMemo
  refine h.plainStep hEvolves hCount hEffects (fun m hm => ?_)
    (fun m hm => h.not_observer hFrames hPlain hm) hTracked ?_
  · rw [hDisposed]
    exact h.alive m hm
  · rcases hTop with hTop | hTop
    · exact framesOk_plain hTop hCode hRest
    · exact framesOk_plain hTop trivial (List.forall_mem_cons.2 ⟨hCode, hRest⟩)

theorem Kept.plain_createSignal {v : CalyndaRtWord} {k : Nat → Code} (hb : b = .createSignal v k)
    (hTracked : Tracked
      ((σ.withFrames (.code run (k σ.signalCount) :: fs)).soliteCreateSignal v)) :
    Kept ((σ.withFrames (.code run (k σ.signalCount) :: fs)).soliteCreateSignal v) := by
  subst hb
  have hNew : ∀ e, e ∉ (σ.signal σ.signalCount).subscribers := fun e he =>
    Nat.lt_irrefl _ (h.subscriber_lt _ e he).1
  have hEvolves : Evolves (fun _ => False) σ
      ((σ.withFrames (.code run (k σ.signalCount) :: fs)).soliteCreateSignal v) :=
    { signalCount := Nat.le_succ _
      effectCount := Nat.le_refl _
      memoCount := Nat.le_refl _
      value := fun s hs _ =>
        congrArg SoliteSignal.value (Function.update_of_ne (Nat.ne_of_lt hs) ..)
      subscribers := by
        intro s e hSub
        replace hSub : e ∈ (Function.update σ.signal σ.signalCount _ s).subscribers := hSub
        by_cases hEq : s = σ.signalCount
        · subst hEq
          rw [Function.update_self] at hSub
          exact nomatch hSub
        · rw [Function.update_of_ne hEq] at hSub
          exact .inl hSub
      kept := by
        intro s e hSub
        show e ∈ (Function.update σ.signal σ.signalCount _ s).subscribers
        have hNe : s ≠ σ.signalCount := by
          rintro rfl
          exact hNew e hSub
        rwa [Function.update_of_ne hNe]
      memo := fun _ _ => ⟨rfl, rfl, fun _ => rfl⟩
      pending := fun _ hPending => .inl hPending
      scheduled := fun _ _ hD => hD.elim
      observers := fun _ he => .inl he }
  exact h.plainStep hEvolves rfl (fun e => .inl ⟨rfl, rfl, id, id⟩) h.alive
    (fun m hm => h.not_observer hFrames hPlain hm) hTracked
    (framesOk_resume h hFrames hPlain (hPlain.1 _) rfl rfl (.inl rfl))

theorem Kept.plain_disposeEffect {e : Nat} {k : Code} (hb : b = .disposeEffect e k)
    (hOther : ∀ m, m < σ.memoCount → (σ.memo m).trackingEffect ≠ e)
    (hTracked : Tracked ((σ.withFrames (.code run k :: fs)).soliteEffectDispose e)) :
    Kept ((σ.withFrames (.code run k :: fs)).soliteEffectDispose e) := by
  subst hb
  unfold soliteEffectDispose at hTracked ⊢
  split at hTracked
  case isFalse hLt =>
    rw [if_neg hLt]
    exact h.sameStep hFrames hPlain (show k.Plain from hPlain.1) hTracked rfl rfl rfl rfl rfl rfl rfl (.inl rfl)
  case isTrue hLt =>
    rw [if_pos hLt]
    have hUpdate (e' : Nat) : (((σ.withFrames (.code run k :: fs)).setEffect e
        { σ.effect e with disposed := true }).effect e') =
        if e' = e then { σ.effect e with disposed := true } else σ.effect e' :=
      Function.update_apply ..
    have hEvolves : Evolves (fun _ => False) σ ((σ.withFrames (.code run k :: fs)).setEffect e
        { σ.effect e with disposed := true }) := by
      refine Evolves.of_same rfl rfl rfl rfl (Nat.le_refl _) (fun e' hPending => ?_)
        fun _ he => .inl he
      rw [hUpdate] at hPending
      split at hPending
      case isTrue hEq => exact hEq ▸ hPending
      case isFalse => exact hPending
    refine h.plainStep hEvolves rfl (fun e' => .inl ?_) (fun m hm => ?_)
      (fun m hm => h.not_observer hFrames hPlain hm) hTracked
      (framesOk_resume h hFrames hPlain (show k.Plain from hPlain.1) rfl rfl (.inl rfl))
    · have hOf := hUpdate e'
      split at hOf
      case isTrue hEq =>
        subst hEq
        have hFn := congrArg SoliteEffect.fn hOf
        have hReads := congrArg SoliteEffect.memoReads hOf
        have hDisposed : _ = true := congrArg SoliteEffect.disposed hOf
        have hPending := congrArg SoliteEffect.pending hOf
        exact ⟨hFn, hReads, fun hAlive => (Bool.false_ne_true.symm (hDisposed.symm.trans hAlive)).elim,
          fun hOld => hPending.trans hOld⟩
      case isFalse =>
        exact ⟨congrArg SoliteEffect.fn hOf, congrArg SoliteEffect.memoReads hOf,
          fun hAlive => (congrArg SoliteEffect.disposed hOf).symm.trans hAlive,
          fun hOld => (congrArg SoliteEffect.pending hOf).trans hOld⟩
    · have hOf := hUpdate (σ.memo m).trackingEffect
      rw [if_neg (hOther m hm)] at hOf
      exact (congrArg SoliteEffect.disposed hOf).trans (h.alive m hm)

end PlainSteps

/-! ## Steps that create effects and memos -/

theorem Kept.plain_createEffect {run : Option (Nat × Nat)} {fs : List Frame} {fn k : Nat → Code}
    (h : Kept σ) (hFrames : σ.frames = .code run (.createEffect fn k) :: fs)
    (hPlain : PlainFrame σ (.code run (.createEffect fn k)))
    (hRoom : σ.observerStack.length < solidObserverStackMax)
    (hTracked : Tracked ((σ.withFrames (.code run (k σ.effectCount) :: fs)).soliteCreateEffect fn)) :
    Kept ((σ.withFrames (.code run (k σ.effectCount) :: fs)).soliteCreateEffect fn) := by
  let created : Runtime := { (σ.withFrames (.code run (k σ.effectCount) :: fs)).setEffect
    σ.effectCount { fn := fn } with effectCount := σ.effectCount + 1 }
  have hSelf : created.effect σ.effectCount = { fn := fn } := Function.update_self ..
  have hEq : (σ.withFrames (.code run (k σ.effectCount) :: fs)).soliteCreateEffect fn =
      { created with
        effect := Function.update created.effect σ.effectCount
          (SoliteEffect.startRun { fn := fn })
        observerStack := σ.effectCount :: σ.observerStack
        frames := .code (some (σ.effectCount, 1)) (fn 0) :: .code run (k σ.effectCount) :: fs } := by
    refine (effectRun_of_alive (σ := created) (e := σ.effectCount) (by rw [hSelf]) hRoom).trans ?_
    rw [hSelf]
    rfl
  rw [hEq] at hTracked ⊢
  have hOther (e : Nat) (hNe : e ≠ σ.effectCount) : Function.update created.effect σ.effectCount
      (SoliteEffect.startRun { fn := fn }) e = σ.effect e :=
    (Function.update_of_ne hNe ..).trans (Function.update_of_ne hNe ..)
  have hNew : Function.update created.effect σ.effectCount (SoliteEffect.startRun { fn := fn })
      σ.effectCount = SoliteEffect.startRun { fn := fn } := Function.update_self ..
  have hNotTracking (m : Nat) (hm : m < σ.memoCount) : (σ.memo m).trackingEffect ≠ σ.effectCount :=
    Nat.ne_of_lt (h.tracking m hm)
  refine h.plainStep (Evolves.of_same rfl rfl rfl rfl (Nat.le_succ _) (fun e hPending => ?_)
    fun e he => ?_) rfl (fun e => ?_) (fun m hm => ?_)
    (fun m hm => h.not_observer hFrames hPlain hm) hTracked (framesOk_plain rfl ?_ ?_)
  · by_cases hNe : e = σ.effectCount
    · subst hNe
      exact absurd ((congrArg SoliteEffect.pending hNew).symm.trans hPending) Bool.false_ne_true
    · exact (congrArg SoliteEffect.pending (hOther e hNe)).symm.trans hPending
  · rcases List.mem_cons.1 he with rfl | he
    · exact .inr (.inr (Nat.le_refl _))
    · exact .inl he
  · by_cases hNe : e = σ.effectCount
    · subst hNe
      refine .inr ⟨rfl, ?_, congrArg SoliteEffect.memoReads hNew⟩
      rw [show SoliteEffect.fn _ = fn from congrArg SoliteEffect.fn hNew]
      exact hPlain.1.1
    · have hSame := hOther e hNe
      exact .inl ⟨congrArg SoliteEffect.fn hSame, congrArg SoliteEffect.memoReads hSame,
        fun hAlive => (congrArg SoliteEffect.disposed hSame).symm.trans hAlive,
        fun hOld => (congrArg SoliteEffect.pending hSame).trans hOld⟩
  · exact (congrArg SoliteEffect.disposed (hOther _ (hNotTracking m hm))).trans (h.alive m hm)
  · refine ⟨hPlain.1.1 0, ?_⟩
    intro e r hRun m hm
    obtain ⟨rfl, -⟩ := Prod.mk.inj (Option.some.inj hRun)
    exact hNotTracking m hm
  · refine List.forall_mem_cons.2 ⟨?_, fun f hf => ?_⟩
    · exact PlainFrame.congr (σ := σ) (f := .code run (k σ.effectCount))
        ⟨hPlain.1.2 _, hPlain.2⟩ rfl fun _ _ => rfl
    · exact ((h.framesOk _ fs hFrames).2 f hf).congr rfl fun _ _ => rfl

/-- The effects of the stack are there already. -/
theorem Kept.frame_lt (h : Kept σ) {run : Option (Nat × Nat)} {b : Code}
    (hMem : .code run b ∈ σ.frames) {e r : Nat} (hRun : run = some (e, r)) : e < σ.effectCount := by
  refine h.observer_lt e ?_
  rw [show σ.observerStack = _ from h.observers]
  refine List.mem_filterMap.2 ⟨_, hMem, ?_⟩
  rw [hRun]
  rfl

/-- The creation of a memo leaves a new memo and its tracking effect, which has started. -/
structure MemoCreated (fn : SoliteMemoFn) (σ τ : Runtime) : Prop where
  effects : ∀ e, e ≠ σ.effectCount → τ.effect e = σ.effect e
  started : τ.effect σ.effectCount =
    SoliteEffect.startRun { fn := fun _ => memoRecomputeCb σ.memoCount fn }
  memos : ∀ m, m < σ.memoCount → τ.memo m = σ.memo m
  memo : τ.memo σ.memoCount = { fn := fn, trackingEffect := σ.effectCount }
  memoCount : τ.memoCount = σ.memoCount + 1
  effectCount : τ.effectCount = σ.effectCount + 1
  stack : τ.observerStack = σ.effectCount :: σ.observerStack
  signals : τ.signal = σ.signal ∧ τ.signalCount = σ.signalCount

section Created

variable {fn : SoliteMemoFn} {m : Nat}

theorem memoCreated (fn : SoliteMemoFn) (fs : List Frame)
    (hRoom : σ.observerStack.length < solidObserverStackMax) :
    MemoCreated fn σ ((σ.withFrames fs).solidCreateMemo fn) ∧
      ((σ.withFrames fs).solidCreateMemo fn).frames =
        .code (some (σ.effectCount, 1)) (memoRecomputeCb σ.memoCount fn) :: fs := by
  let created : Runtime := { σ with
    memo := Function.update σ.memo σ.memoCount { fn := fn, trackingEffect := σ.effectCount }
    memoCount := σ.memoCount + 1
    effect := Function.update σ.effect σ.effectCount
      { fn := fun _ => memoRecomputeCb σ.memoCount fn }
    effectCount := σ.effectCount + 1
    frames := fs }
  have hSelf : created.effect σ.effectCount =
      { fn := fun _ => memoRecomputeCb σ.memoCount fn } := Function.update_self ..
  have hEq : (σ.withFrames fs).solidCreateMemo fn = created.effectRun σ.effectCount := rfl
  rw [hEq, effectRun_of_alive (σ := created) (e := σ.effectCount) (by rw [hSelf]) hRoom, hSelf]
  exact ⟨⟨fun e hNe => (Function.update_of_ne hNe ..).trans (Function.update_of_ne hNe ..),
    Function.update_self .., fun m hm => Function.update_of_ne (Nat.ne_of_lt hm) ..,
    Function.update_self .., rfl, rfl, rfl, rfl, rfl⟩, rfl⟩

section After

variable (hCreated : MemoCreated fn σ τ)

include hCreated

theorem MemoCreated.old (hPaired : Paired σ) (hm : m < σ.memoCount) :
    τ.memo m = σ.memo m ∧
      τ.effect (σ.memo m).trackingEffect = σ.effect (σ.memo m).trackingEffect :=
  ⟨hCreated.memos m hm, hCreated.effects _ (Nat.ne_of_lt (hPaired.tracking m hm))⟩

theorem MemoCreated.lt_or_eq (hm : m < τ.memoCount) : m < σ.memoCount ∨ m = σ.memoCount := by
  rw [hCreated.memoCount] at hm
  exact Nat.lt_succ_iff_lt_or_eq.1 hm

theorem MemoCreated.evolves : Evolves (fun _ => False) σ τ where
  signalCount := Nat.le_of_eq hCreated.signals.2.symm
  effectCount := hCreated.effectCount ▸ Nat.le_succ _
  memoCount := hCreated.memoCount ▸ Nat.le_succ _
  value s _ _ := by rw [hCreated.signals.1]
  subscribers s e hSub := .inl (hCreated.signals.1 ▸ hSub)
  kept s e hSub := by rwa [hCreated.signals.1]
  memo m hm := by
    rw [hCreated.memos m hm]
    exact ⟨rfl, rfl, fun _ => rfl⟩
  pending e hPending := by
    by_cases hIs : e = σ.effectCount
    · rw [hIs, hCreated.started] at hPending
      exact nomatch hPending
    · rw [hCreated.effects e hIs] at hPending
      exact .inl hPending
  scheduled _ _ hD := hD.elim
  observers e he := by
    rw [hCreated.stack] at he
    rcases List.mem_cons.1 he with rfl | he
    · exact .inr (.inr (Nat.le_refl _))
    · exact .inl he

theorem MemoCreated.paired (h : Paired σ) : Paired τ where
  tracking m hm := by
    rcases hCreated.lt_or_eq hm with hm' | rfl
    · rw [(hCreated.old h hm').1, hCreated.effectCount]
      exact Nat.lt_succ_of_lt (h.tracking m hm')
    · rw [hCreated.memo, hCreated.effectCount]
      exact Nat.lt_succ_self _
  injective m m' hm hm' hEqual := by
    rcases hCreated.lt_or_eq hm with hOld | rfl <;> rcases hCreated.lt_or_eq hm' with hOld' | rfl
    · rw [(hCreated.old h hOld).1, (hCreated.old h hOld').1] at hEqual
      exact h.injective m m' hOld hOld' hEqual
    · rw [(hCreated.old h hOld).1, hCreated.memo] at hEqual
      exact absurd hEqual (Nat.ne_of_lt (h.tracking m hOld))
    · rw [hCreated.memo, (hCreated.old h hOld').1] at hEqual
      exact absurd hEqual.symm (Nat.ne_of_lt (h.tracking m' hOld'))
    · rfl
  alive m hm := by
    rcases hCreated.lt_or_eq hm with hm' | rfl
    · rw [(hCreated.old h hm').1, (hCreated.old h hm').2]
      exact h.alive m hm'
    · rw [hCreated.memo, hCreated.started]
      rfl
  fn_memo m hm := by
    rcases hCreated.lt_or_eq hm with hm' | rfl
    · rw [(hCreated.old h hm').1, (hCreated.old h hm').2]
      exact h.fn_memo m hm'
    · rw [hCreated.memo, hCreated.started]
      rfl
  plain e hNot n := by
    have hIs : e ≠ σ.effectCount := by
      rintro rfl
      refine hNot σ.memoCount (hCreated.memoCount ▸ Nat.lt_succ_self _) ?_
      rw [hCreated.memo]
    rw [hCreated.effects e hIs]
    refine h.plain e (fun m hm => ?_) n
    rw [← hCreated.memos m hm]
    exact hNot m (hCreated.memoCount ▸ Nat.lt_succ_of_lt hm)

/-- The frames below belong to effects that were there before. -/
theorem MemoCreated.plainFrame (h : Kept σ) {f : Frame} (hf : f ∈ σ.frames)
    (hOld : PlainFrame σ f) : PlainFrame τ f := by
  cases f with
  | flush l => trivial
  | code run b =>
    refine ⟨hOld.1, fun e r hRun m hm => ?_⟩
    rcases hCreated.lt_or_eq hm with hm' | rfl
    · rw [hCreated.memos m hm']
      exact hOld.2 e r hRun m hm'
    · rw [hCreated.memo]
      exact (Nat.ne_of_lt (h.frame_lt hf hRun)).symm

end After

theorem Kept.plain_createMemo {run : Option (Nat × Nat)} {fs : List Frame} {k : Nat → Code}
    (h : Kept σ) (hFrames : σ.frames = .code run (.createMemo fn k) :: fs)
    (hPlain : PlainFrame σ (.code run (.createMemo fn k)))
    (hRoom : σ.observerStack.length < solidObserverStackMax)
    (hTracked : Tracked ((σ.withFrames (.code run (k σ.memoCount) :: fs)).solidCreateMemo fn)) :
    Kept ((σ.withFrames (.code run (k σ.memoCount) :: fs)).solidCreateMemo fn) := by
  obtain ⟨hCreated, hTop⟩ :=
    memoCreated fn (.code run (k σ.memoCount) :: fs) hRoom
  generalize (σ.withFrames (.code run (k σ.memoCount) :: fs)).solidCreateMemo fn = τ
    at hTracked hCreated hTop ⊢
  have hEvolves := hCreated.evolves
  refine { hTracked, hCreated.paired h.toPaired with framesOk := ?_, memos := ?_, watched := ?_ }
  · intro f fs' hFrames'
    obtain ⟨rfl, rfl⟩ := List.cons.inj (hTop.symm.trans hFrames')
    refine ⟨.inr ⟨σ.memoCount, 1, _, by rw [hCreated.memo],
      hCreated.memoCount ▸ Nat.lt_succ_self _, .inr ⟨fn, rfl, ?_, ?_⟩⟩, ?_⟩
    · rw [hCreated.memo, hCreated.started]
      rfl
    · rw [hCreated.memo]
      exact .refl
    · refine List.forall_mem_cons.2 ⟨?_, fun f hf => ?_⟩
      · refine ⟨hPlain.1 _, (hCreated.plainFrame h (hFrames ▸ List.mem_cons_self) hPlain).2⟩
      · exact hCreated.plainFrame h (hFrames ▸ List.mem_cons_of_mem _ hf)
          ((h.framesOk _ fs hFrames).2 f hf)
  · intro m hm
    rcases hCreated.lt_or_eq hm with hm' | rfl
    · rw [(hCreated.old h.toPaired hm').1, (hCreated.old h.toPaired hm').2]
      rcases h.memos m hm' with hObs | hPending | hSettles
      · exact absurd hObs (h.not_observer hFrames hPlain hm')
      · exact .inr (.inl hPending)
      · exact .inr (.inr (hSettles.evolves hEvolves h.tracking fun _ hD => hD.elim))
    · rw [hCreated.memo, hCreated.stack]
      exact .inl List.mem_cons_self
  · intro e hAlive q hq
    by_cases hIs : e = σ.effectCount
    · rw [hIs, hCreated.started] at hq
      exact nomatch hq
    · rw [hCreated.effects e hIs] at hAlive hq ⊢
      rcases h.watched e hAlive q hq with hPending | hRelies
      · exact .inl hPending
      · exact .inr (Settles.evolves hRelies hEvolves h.tracking fun _ hD => hD.elim)

end Created

end Runtime

end Calynda.Solite
