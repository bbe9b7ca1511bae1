import Calynda.Solite.ControlFlow

/-!
# The children of windows

Each node knows what it has rendered, and the elements that it has in its window are these. The
invariant says so of every node that is not disposed, with the schedule of the effects, and is kept
by the steps that change the schedule alone and by those that change one node.
-/

namespace Calynda.Solite.ControlFlow

/-! ## Bookkeeping -/

/-- The children that a node has in its parent, in their order there. -/
def State.owned (σ : State) (n : Nat) : List (Nat × Nat) :=
  σ.children.filter fun p => decide (p.1 = (σ.node n).parent ∧ σ.renderedBy p.2 = n)

/-- What a node with these results has in its parent. -/
def Node.placed (node : Node) : List (Nat × Nat) :=
  (node.rendered.filterMap Prod.snd).map (Prod.mk node.parent)

/-- The record of a node is about what it has rendered; while its effect is running, a `For` counts
nothing yet and a `Show` has nothing. -/
structure Node.Kept (node : Node) (running : Bool) : Prop where
  forCurrent : node.isFor = true →
    (List.range node.rendered.length).map node.current = node.rendered.map Prod.snd
  forCount : node.isFor = true →
    node.childCount = if running then 0 else node.rendered.length
  showCurrent : node.isFor = false →
    (node.rendered = [] ∧ node.current 0 = none) ∨
      running = false ∧ ∃ item child, node.rendered = [(item, child)] ∧ node.current 0 = child

/-- A node has rendered what its signal said when it was read last. -/
structure Node.Mirrors (array : CalyndaRtWord → List CalyndaRtWord) (node : Node) : Prop where
  ofFor : node.isFor = true → node.rendered.map Prod.fst = array node.seen
  ofShow : node.isFor = false → (node.seen = 0 ↔ node.rendered = [])

/-- A node that is not disposed. -/
def State.Alive (σ : State) (n : Nat) : Prop := n < σ.nodeCount ∧ (σ.node n).disposed = false

/-- What holds of a node: it is subscribed to its signal, has seen the last value unless it is
pending, and its record is in order. -/
structure Tracks (array : CalyndaRtWord → List CalyndaRtWord) (σ : State) (n : Nat) : Prop where
  subscribed : n ∈ σ.subscribers (σ.node n).signal
  upToDate : (σ.node n).pending = true ∨ (σ.node n).seen = σ.value (σ.node n).signal
  kept : (σ.node n).Kept (decide (n ∈ σ.observerStack))
  mirrors : n ∉ σ.observerStack → (σ.node n).Mirrors array

/-- What holds of the children of all windows, of the appends and the removals. -/
structure Booked (σ : State) : Prop where
  children : ∀ p ∈ σ.children, p.2 < σ.elementCount ∧ σ.renderedBy p.2 < σ.nodeCount ∧
    p.1 = (σ.node (σ.renderedBy p.2)).parent
  logged : σ.appended.Perm (σ.removed ++ σ.children.map Prod.snd)
  nodup : σ.appended.Nodup
  appended : ∀ el ∈ σ.appended, el < σ.elementCount

/-- The invariant, with the effects that wait in snapshots and the nodes that are not in order. -/
structure Inv (array : CalyndaRtWord → List CalyndaRtWord) (σ : State) (waiting due : List Nat) :
    Prop where
  observers : ∀ n ∈ σ.observerStack, σ.Alive n
  fresh : ∀ n, (σ.node n).disposed = false → n < σ.nodeCount
  nodup : σ.observerStack.Nodup
  pending : ∀ n, (σ.node n).pending = true → n ∈ σ.pendingQueue ++ waiting
  nodes : ∀ n, σ.Alive n → n ∉ due → Tracks array σ n
  owned : ∀ n, σ.Alive n → σ.owned n = (σ.node n).placed
  dead : ∀ n < σ.nodeCount, (σ.node n).disposed = true → σ.owned n = []
  booked : Booked σ

/-- What a run changes neither of the stack nor of the nodes whose effects are running. -/
structure Keeps (σ τ : State) (but : List Nat) : Prop where
  observers : τ.observerStack = σ.observerStack
  count : σ.nodeCount ≤ τ.nodeCount
  fixed : ∀ n < σ.nodeCount, (τ.node n).isFor = (σ.node n).isFor ∧
    (τ.node n).parent = (σ.node n).parent ∧ (τ.node n).signal = (σ.node n).signal
  running : ∀ n ∈ σ.observerStack, n ∉ but →
    (τ.node n).rendered = (σ.node n).rendered ∧ (τ.node n).seen = (σ.node n).seen

variable {array : CalyndaRtWord → List CalyndaRtWord} {σ τ υ : State} {waiting due but : List Nat}
  {n : Nat}

theorem Keeps.refl (σ : State) (but : List Nat) : Keeps σ σ but where
  observers := rfl
  count := Nat.le_refl _
  fixed _ _ := ⟨rfl, rfl, rfl⟩
  running _ _ _ := ⟨rfl, rfl⟩

theorem Keeps.trans (h : Keeps σ τ but) (h' : Keeps τ υ but) : Keeps σ υ but where
  observers := h'.observers.trans h.observers
  count := Nat.le_trans h.count h'.count
  fixed n hn := by
    obtain ⟨a, b, c⟩ := h.fixed n hn
    obtain ⟨a', b', c'⟩ := h'.fixed n (Nat.lt_of_lt_of_le hn h.count)
    exact ⟨a'.trans a, b'.trans b, c'.trans c⟩
  running n hn hBut := by
    obtain ⟨a, b⟩ := h.running n hn hBut
    obtain ⟨a', b'⟩ := h'.running n (h.observers ▸ hn) hBut
    exact ⟨a'.trans a, b'.trans b⟩

theorem Keeps.weaken (h : Keeps σ τ []) (but : List Nat) : Keeps σ τ but where
  observers := h.observers
  count := h.count
  fixed := h.fixed
  running n hn _ := h.running n hn List.not_mem_nil

theorem Inv.weaken (h : Inv array σ waiting []) (due : List Nat) : Inv array σ waiting due :=
  { h with nodes := fun n hn _ => h.nodes n hn List.not_mem_nil }

/-- A node that is in order again. -/
theorem Inv.finish (h : Inv array σ waiting [n]) (hn : Tracks array σ n) :
    Inv array σ waiting [] := by
  refine { h with nodes := fun m hm _ => ?_ }
  by_cases hEq : m = n
  · exact hEq ▸ hn
  · exact h.nodes m hm (by simpa using hEq)

/-! ### Steps that change no children -/

/-- The record of a node without what the scheduler changes. -/
def Node.body (node : Node) : Node := { node with pending := false, calls := 0 }

/-- Nothing changes but the schedule, the subscriptions and the values. -/
structure Quiet (σ τ : State) : Prop where
  observers : τ.observerStack = σ.observerStack
  count : τ.nodeCount = σ.nodeCount
  body : ∀ n, (τ.node n).body = (σ.node n).body
  children : τ.children = σ.children
  elements : τ.elementCount = σ.elementCount
  renderedBy : τ.renderedBy = σ.renderedBy
  appended : τ.appended = σ.appended
  removed : τ.removed = σ.removed

namespace Quiet

theorem isFor (h : Quiet σ τ) (n : Nat) : (τ.node n).isFor = (σ.node n).isFor :=
  show (τ.node n).body.isFor = (σ.node n).body.isFor by rw [h.body n]

theorem parent (h : Quiet σ τ) (n : Nat) : (τ.node n).parent = (σ.node n).parent :=
  show (τ.node n).body.parent = (σ.node n).body.parent by rw [h.body n]

theorem signal (h : Quiet σ τ) (n : Nat) : (τ.node n).signal = (σ.node n).signal :=
  show (τ.node n).body.signal = (σ.node n).body.signal by rw [h.body n]

theorem seen (h : Quiet σ τ) (n : Nat) : (τ.node n).seen = (σ.node n).seen :=
  show (τ.node n).body.seen = (σ.node n).body.seen by rw [h.body n]

theorem rendered (h : Quiet σ τ) (n : Nat) : (τ.node n).rendered = (σ.node n).rendered :=
  show (τ.node n).body.rendered = (σ.node n).body.rendered by rw [h.body n]

theorem current (h : Quiet σ τ) (n : Nat) : (τ.node n).current = (σ.node n).current :=
  show (τ.node n).body.current = (σ.node n).body.current by rw [h.body n]

theorem childCount (h : Quiet σ τ) (n : Nat) : (τ.node n).childCount = (σ.node n).childCount :=
  show (τ.node n).body.childCount = (σ.node n).body.childCount by rw [h.body n]

theorem disposed (h : Quiet σ τ) (n : Nat) : (τ.node n).disposed = (σ.node n).disposed :=
  show (τ.node n).body.disposed = (σ.node n).body.disposed by rw [h.body n]

theorem alive (h : Quiet σ τ) (n : Nat) : τ.Alive n ↔ σ.Alive n := by
  rw [State.Alive, State.Alive, h.count, h.disposed]

theorem owned (h : Quiet σ τ) (n : Nat) : τ.owned n = σ.owned n := by
  rw [State.owned, State.owned, h.children, h.renderedBy, h.parent]

theorem placed (h : Quiet σ τ) (n : Nat) : (τ.node n).placed = (σ.node n).placed := by
  rw [Node.placed, Node.placed, h.rendered, h.parent]

theorem booked (h : Quiet σ τ) (hBooked : Booked σ) : Booked τ where
  children p hp := by
    rw [h.elements, h.renderedBy, h.count, h.parent]
    exact hBooked.children p (h.children ▸ hp)
  logged := by
    rw [h.appended, h.removed, h.children]
    exact hBooked.logged
  nodup := h.appended ▸ hBooked.nodup
  appended := by
    rw [h.appended, h.elements]
    exact hBooked.appended

theorem kept (h : Quiet σ τ) {running : Bool} (hKept : (σ.node n).Kept running) :
    (τ.node n).Kept running where
  forCurrent := by
    rw [h.isFor, h.current, h.rendered]
    exact hKept.forCurrent
  forCount := by
    rw [h.isFor, h.childCount, h.rendered]
    exact hKept.forCount
  showCurrent := by
    rw [h.isFor, h.current, h.rendered]
    exact hKept.showCurrent

theorem mirrors (h : Quiet σ τ) (hMirrors : (σ.node n).Mirrors array) :
    (τ.node n).Mirrors array where
  ofFor := by
    rw [h.isFor, h.rendered, h.seen]
    exact hMirrors.ofFor
  ofShow := by
    rw [h.isFor, h.rendered, h.seen]
    exact hMirrors.ofShow

theorem keeps (h : Quiet σ τ) : Keeps σ τ but where
  observers := h.observers
  count := Nat.le_of_eq h.count.symm
  fixed n _ := ⟨h.isFor n, h.parent n, h.signal n⟩
  running n _ _ := ⟨h.rendered n, h.seen n⟩

theorem trans (h : Quiet σ τ) (h' : Quiet τ υ) : Quiet σ υ where
  observers := h'.observers.trans h.observers
  count := h'.count.trans h.count
  body n := (h'.body n).trans (h.body n)
  children := h'.children.trans h.children
  elements := h'.elements.trans h.elements
  renderedBy := h'.renderedBy.trans h.renderedBy
  appended := h'.appended.trans h.appended
  removed := h'.removed.trans h.removed

end Quiet

theorem Inv.quiet {waiting' due' : List Nat} (h : Inv array σ waiting due) (hQuiet : Quiet σ τ)
    (hPending : ∀ n, (τ.node n).pending = true → n ∈ τ.pendingQueue ++ waiting')
    (hDue : ∀ n ∈ due, n ∈ due')
    (hSubscribed : ∀ s, ∀ n ∈ σ.subscribers s, n ∈ τ.subscribers s)
    (hUpToDate : ∀ n, σ.Alive n → n ∉ due' → Tracks array σ n →
      (τ.node n).pending = true ∨ (σ.node n).seen = τ.value (σ.node n).signal) :
    Inv array τ waiting' due' where
  observers n hn := (hQuiet.alive n).mpr (h.observers n (hQuiet.observers ▸ hn))
  fresh n hn := hQuiet.count ▸ h.fresh n (hQuiet.disposed n ▸ hn)
  nodup := hQuiet.observers ▸ h.nodup
  pending := hPending
  nodes n hn hNot := by
    have hAlive := (hQuiet.alive n).mp hn
    have hTracks := h.nodes n hAlive fun hMem => hNot (hDue n hMem)
    exact {
      subscribed := by
        rw [hQuiet.signal]
        exact hSubscribed _ n hTracks.subscribed
      upToDate := by
        rw [hQuiet.seen, hQuiet.signal]
        exact hUpToDate n hAlive hNot hTracks
      kept := by
        rw [hQuiet.observers]
        exact hQuiet.kept hTracks.kept
      mirrors := by
        rw [hQuiet.observers]
        exact fun hRunning => hQuiet.mirrors (hTracks.mirrors hRunning) }
  owned n hn := by
    rw [hQuiet.owned, hQuiet.placed]
    exact h.owned n ((hQuiet.alive n).mp hn)
  dead n hn hDisposed := by
    rw [hQuiet.owned]
    exact h.dead n (hQuiet.count ▸ hn) (hQuiet.disposed n ▸ hDisposed)
  booked := hQuiet.booked h.booked

/-! ### Scheduling -/

namespace Quiet

theorem refl (σ : State) : Quiet σ σ := ⟨rfl, rfl, fun _ => rfl, rfl, rfl, rfl, rfl, rfl⟩

theorem check (h : Quiet σ τ) (ok : Bool) : Quiet σ (τ.check ok) := { h with }

theorem setNode (node : Node) (h : node.body = (σ.node n).body) : Quiet σ (σ.setNode n node) where
  observers := rfl
  count := rfl
  body m := by
    by_cases hEq : m = n
    · rw [hEq, State.setNode_self, h]
    · rw [State.setNode_of_ne hEq]
  children := rfl
  elements := rfl
  renderedBy := rfl
  appended := rfl
  removed := rfl

end Quiet

/-- What scheduling an effect does: nothing is pending without being queued, and an effect of a
node that is not disposed is pending behind it. -/
structure Scheduled (σ τ : State) : Prop where
  quiet : Quiet σ τ
  value : τ.value = σ.value
  subscribers : τ.subscribers = σ.subscribers
  queue : ∀ n ∈ σ.pendingQueue, n ∈ τ.pendingQueue
  still : ∀ n, (σ.node n).pending = true → (τ.node n).pending = true
  pending : ∀ n, (τ.node n).pending = true → (σ.node n).pending = true ∨ n ∈ τ.pendingQueue
  clean : τ.clean = true → σ.clean = true

theorem Scheduled.refl (σ : State) : Scheduled σ σ :=
  ⟨Quiet.refl σ, rfl, rfl, fun _ h => h, fun _ h => h, fun _ h => .inl h, fun h => h⟩

theorem Scheduled.trans (h : Scheduled σ τ) (h' : Scheduled τ υ) : Scheduled σ υ where
  quiet := h.quiet.trans h'.quiet
  value := h'.value.trans h.value
  subscribers := h'.subscribers.trans h.subscribers
  queue n hn := h'.queue n (h.queue n hn)
  still n hn := h'.still n (h.still n hn)
  pending n hn := by
    obtain hn | hn := h'.pending n hn
    · exact (h.pending n hn).imp_right (h'.queue n)
    · exact .inr hn
  clean hClean := h.clean (h'.clean hClean)

theorem scheduled_schedule (σ : State) (n : Nat) : Scheduled σ (σ.soliteEffectSchedule n) := by
  rw [State.soliteEffectSchedule]
  split
  · exact Scheduled.refl σ
  · split
    · exact {
        quiet := { Quiet.setNode (n := n) { σ.node n with pending := true } rfl with }
        value := rfl
        subscribers := rfl
        queue := fun m hm => List.mem_append_left _ hm
        still := fun m hm => by
          by_cases hEq : m = n
          · rw [hEq]
            exact congrArg Node.pending (σ.setNode_self n _)
          · exact (congrArg Node.pending (State.setNode_of_ne hEq _)).trans hm
        pending := fun m hm => by
          by_cases hEq : m = n
          · exact .inr (by simp [hEq])
          · exact .inl ((congrArg Node.pending (State.setNode_of_ne hEq _)).symm.trans hm)
        clean := fun h => h }
    · exact {
        quiet := (Quiet.refl σ).check false
        value := rfl
        subscribers := rfl
        queue := fun _ h => h
        still := fun _ h => h
        pending := fun _ h => .inl h
        clean := fun h => (Bool.and_eq_true_iff.mp h).1 }

theorem pending_schedule (hClean : (σ.soliteEffectSchedule n).clean = true)
    (hAlive : (σ.node n).disposed = false) :
    ((σ.soliteEffectSchedule n).node n).pending = true := by
  rw [State.soliteEffectSchedule] at hClean ⊢
  split at hClean
  case isTrue h =>
    rw [if_pos h]
    exact h.resolve_left (by simp [hAlive])
  case isFalse h =>
    rw [if_neg h]
    split at hClean
    case isTrue hRoom =>
      rw [if_pos hRoom]
      exact congrArg Node.pending (σ.setNode_self n _)
    case isFalse => exact absurd hClean (by simp [State.check])

theorem scheduled_all (ns : List Nat) (σ : State) :
    Scheduled σ (ns.foldl State.soliteEffectSchedule σ) := by
  induction ns generalizing σ with
  | nil => exact Scheduled.refl σ
  | cons n ns ih => exact (scheduled_schedule σ n).trans (ih _)

theorem pending_all {ns : List Nat} (hClean : (ns.foldl State.soliteEffectSchedule σ).clean = true)
    (hMem : n ∈ ns) (hAlive : (σ.node n).disposed = false) :
    ((ns.foldl State.soliteEffectSchedule σ).node n).pending = true := by
  induction ns generalizing σ with
  | nil => exact absurd hMem List.not_mem_nil
  | cons m ns ih =>
    have hFirst := scheduled_schedule σ m
    have hRest := scheduled_all ns (σ.soliteEffectSchedule m)
    by_cases hEq : n = m
    · subst hEq
      exact hRest.still n (pending_schedule (hRest.clean hClean) hAlive)
    · exact ih hClean ((List.mem_cons.mp hMem).resolve_left hEq)
        ((hFirst.quiet.disposed n).trans hAlive)

/-! ### What code does -/

theorem mem_subscribers_subscribe {s s' m : Nat} (h : m ∈ σ.subscribers s') :
    m ∈ (σ.signalSubscribe s n).subscribers s' := by
  rw [State.signalSubscribe]
  split
  · exact h
  · by_cases hEq : s' = s
    · subst hEq
      simp [h]
    · simpa [hEq] using h

theorem mem_subscribe (σ : State) (s n : Nat) : n ∈ (σ.signalSubscribe s n).subscribers s := by
  rw [State.signalSubscribe]
  split
  · assumption
  · simp

theorem quiet_subscribe (σ : State) (s n : Nat) : Quiet σ (σ.signalSubscribe s n) := by
  rw [State.signalSubscribe]
  split
  · exact Quiet.refl σ
  · exact { Quiet.refl σ with }

theorem quiet_signalGet (σ : State) (s : Nat) : Quiet σ (σ.soliteSignalGet s) := by
  rw [State.soliteSignalGet]
  split
  · exact quiet_subscribe ..
  · exact Quiet.refl σ

/-- Reading a signal changes the subscriptions alone. -/
theorem signalGet_eq (σ : State) (s : Nat) : ∃ subscribers,
    σ.soliteSignalGet s = { σ with subscribers } ∧
      ∀ s', ∀ m ∈ σ.subscribers s', m ∈ subscribers s' := by
  rw [State.soliteSignalGet]
  split
  · next n _ =>
    refine ⟨(σ.signalSubscribe s n).subscribers, ?_, fun _ _ => mem_subscribers_subscribe⟩
    rw [State.signalSubscribe]
    split <;> rfl
  · exact ⟨_, rfl, fun _ _ h => h⟩

theorem Inv.signalGet (h : Inv array σ waiting due) (s : Nat) :
    Inv array (σ.soliteSignalGet s) waiting due := by
  have hQuiet := quiet_signalGet σ s
  obtain ⟨subscribers, hEq, hMem⟩ := signalGet_eq σ s
  rw [hEq] at hQuiet ⊢
  exact h.quiet hQuiet h.pending (fun _ => id) hMem fun _ _ _ hTracks => hTracks.upToDate

theorem Inv.change {s : Nat} {v : CalyndaRtWord} (h : Inv array σ waiting [])
    (hClean : (σ.change s v).clean = true) : Inv array (σ.change s v) waiting [] := by
  have hScheduled := scheduled_all (σ.subscribers s)
    { σ with value := Function.update σ.value s v }
  have hQuiet : Quiet σ (σ.change s v) := { hScheduled.quiet with }
  refine h.quiet hQuiet (fun n hn => ?_) (fun _ => id) (fun s' n hn => ?_)
    fun n hAlive _ hTracks => ?_
  · obtain hn | hn := hScheduled.pending n hn
    · exact (List.mem_append.mp (h.pending n hn)).elim
        (fun hn => List.mem_append_left _ (hScheduled.queue n hn)) (List.mem_append_right _)
    · exact List.mem_append_left _ hn
  · exact hScheduled.subscribers ▸ hn
  · obtain hPending | hSeen := hTracks.upToDate
    · exact .inl (hScheduled.still n hPending)
    · by_cases hEq : (σ.node n).signal = s
      · exact .inl (pending_all hClean (hEq ▸ hTracks.subscribed) hAlive.2)
      · refine .inr ?_
        rw [State.change, hScheduled.value, hSeen]
        exact (Function.update_of_ne hEq _ _).symm

theorem Inv.clear (h : Inv array σ waiting []) :
    Inv array { σ with pendingQueue := [] } (σ.pendingQueue ++ waiting) [] :=
  h.quiet { Quiet.refl σ with } h.pending (fun _ => id) (fun _ _ => id)
    fun _ _ _ hTracks => hTracks.upToDate

/-- An effect is taken from a snapshot. -/
theorem Inv.take (h : Inv array σ (n :: waiting) []) :
    Inv array (σ.setNode n { σ.node n with pending := false }) waiting [n] := by
  have hOther : ∀ m ≠ n, (σ.setNode n { σ.node n with pending := false }).node m = σ.node m :=
    fun m hm => State.setNode_of_ne hm _
  refine h.quiet (Quiet.setNode _ rfl) (fun m hm => ?_) (fun _ hm => absurd hm List.not_mem_nil)
    (fun _ _ => id) fun m _ hm hTracks => ?_
  · by_cases hEq : m = n
    · rw [hEq, State.setNode_self] at hm
      exact absurd hm Bool.false_ne_true
    · rw [hOther m hEq] at hm
      have hMem := h.pending m hm
      simp only [List.mem_append, List.mem_cons, hEq, false_or] at hMem
      exact List.mem_append.mpr hMem
  · rw [hOther m (by simpa using hm)]
    exact hTracks.upToDate

theorem Inv.of_dead (h : Inv array σ waiting [n]) (hDead : ¬ σ.Alive n) :
    Inv array σ waiting [] := by
  refine { h with nodes := fun m hm _ => h.nodes m hm ?_ }
  rw [List.mem_singleton]
  rintro rfl
  exact hDead hm

/-! ### Steps that change one node -/

/-- Nothing changes but one node, its children, and whether its effect is running. -/
structure Frame (σ τ : State) (n : Nat) : Prop where
  count : τ.nodeCount = σ.nodeCount
  node : ∀ m, m ≠ n → τ.node m = σ.node m
  isFor : (τ.node n).isFor = (σ.node n).isFor
  parent : (τ.node n).parent = (σ.node n).parent
  signal : (τ.node n).signal = (σ.node n).signal
  pending : (τ.node n).pending = (σ.node n).pending
  value : τ.value = σ.value
  queue : τ.pendingQueue = σ.pendingQueue
  subscribers : ∀ s, ∀ m ∈ σ.subscribers s, m ∈ τ.subscribers s
  observers : ∀ m, m ≠ n → (m ∈ τ.observerStack ↔ m ∈ σ.observerStack)
  nodup : σ.observerStack.Nodup → τ.observerStack.Nodup
  owned : ∀ m, m ≠ n → τ.owned m = σ.owned m
  booked : Booked τ

namespace Frame

theorem refl (h : Booked σ) (n : Nat) : Frame σ σ n where
  count := rfl
  node _ _ := rfl
  isFor := rfl
  parent := rfl
  signal := rfl
  pending := rfl
  value := rfl
  queue := rfl
  subscribers _ _ h := h
  observers _ _ := Iff.rfl
  nodup := id
  owned _ _ := rfl
  booked := h

theorem trans (h : Frame σ τ n) (h' : Frame τ υ n) : Frame σ υ n where
  count := h'.count.trans h.count
  node m hm := (h'.node m hm).trans (h.node m hm)
  isFor := h'.isFor.trans h.isFor
  parent := h'.parent.trans h.parent
  signal := h'.signal.trans h.signal
  pending := h'.pending.trans h.pending
  value := h'.value.trans h.value
  queue := h'.queue.trans h.queue
  subscribers s m hm := h'.subscribers s m (h.subscribers s m hm)
  observers m hm := (h'.observers m hm).trans (h.observers m hm)
  nodup hNodup := h'.nodup (h.nodup hNodup)
  owned m hm := (h'.owned m hm).trans (h.owned m hm)
  booked := h'.booked

theorem setNode (node : Node) (h : Booked σ) (hFor : node.isFor = (σ.node n).isFor)
    (hParent : node.parent = (σ.node n).parent) (hSignal : node.signal = (σ.node n).signal)
    (hPending : node.pending = (σ.node n).pending) : Frame σ (σ.setNode n node) n where
  count := rfl
  node m hm := State.setNode_of_ne hm _
  isFor := by rw [State.setNode_self, hFor]
  parent := by rw [State.setNode_self, hParent]
  signal := by rw [State.setNode_self, hSignal]
  pending := by rw [State.setNode_self, hPending]
  value := rfl
  queue := rfl
  subscribers _ _ h := h
  observers _ _ := Iff.rfl
  nodup := id
  owned m hm := by
    rw [State.owned, State.owned, State.setNode_of_ne hm]
    rfl
  booked := {
    children := fun p hp => by
      obtain ⟨hElement, hCount, hAt⟩ := h.children p hp
      refine ⟨hElement, hCount, ?_⟩
      by_cases hEq : σ.renderedBy p.2 = n
      · rw [show (σ.setNode n node).renderedBy p.2 = n from hEq, State.setNode_self, hParent, ← hEq]
        exact hAt
      · exact hAt.trans (congrArg Node.parent (State.setNode_of_ne hEq _)).symm
    logged := h.logged
    nodup := h.nodup
    appended := h.appended }

/-- The effect of the node starts or ends. -/
theorem restack (stack : List Nat) (h : Booked σ)
    (hMem : ∀ m, m ≠ n → (m ∈ stack ↔ m ∈ σ.observerStack))
    (hNodup : σ.observerStack.Nodup → stack.Nodup) :
    Frame σ { σ with observerStack := stack } n :=
  { refl h n with observers := hMem, nodup := hNodup, booked := { h with } }

end Frame

theorem Inv.frame (h : Inv array σ waiting [n]) (hFrame : Frame σ τ n)
    (hNode : τ.Alive n ∧ τ.owned n = (τ.node n).placed ∨
      (τ.node n).disposed = true ∧ τ.owned n = [] ∧ n ∉ τ.observerStack) :
    Inv array τ waiting [n] where
  observers m hm := by
    by_cases hEq : m = n
    · subst hEq
      obtain hNode | ⟨-, -, hNot⟩ := hNode
      · exact hNode.1
      · exact absurd hm hNot
    · have hAlive := h.observers m ((hFrame.observers m hEq).mp hm)
      rwa [State.Alive, hFrame.count, hFrame.node m hEq]
  fresh m hm := by
    rw [hFrame.count]
    by_cases hEq : m = n
    · subst hEq
      obtain hNode | ⟨hDead, -, -⟩ := hNode
      · exact hFrame.count ▸ hNode.1.1
      · exact absurd hm (by simp [hDead])
    · exact h.fresh m (hFrame.node m hEq ▸ hm)
  nodup := hFrame.nodup h.nodup
  pending m hm := by
    rw [hFrame.queue]
    by_cases hEq : m = n
    · subst hEq
      exact h.pending m (hFrame.pending ▸ hm)
    · exact h.pending m (hFrame.node m hEq ▸ hm)
  nodes m hm hNot := by
    have hEq : m ≠ n := by simpa using hNot
    rw [State.Alive, hFrame.count, hFrame.node m hEq] at hm
    have hTracks := h.nodes m hm hNot
    exact {
      subscribed := hFrame.node m hEq ▸ hFrame.subscribers _ m hTracks.subscribed
      upToDate := by
        rw [hFrame.node m hEq, hFrame.value]
        exact hTracks.upToDate
      kept := by
        rw [hFrame.node m hEq, decide_eq_decide.mpr (hFrame.observers m hEq)]
        exact hTracks.kept
      mirrors := by
        rw [hFrame.node m hEq, hFrame.observers m hEq]
        exact hTracks.mirrors }
  owned m hm := by
    by_cases hEq : m = n
    · subst hEq
      obtain hNode | ⟨hDead, -, -⟩ := hNode
      · exact hNode.2
      · exact absurd hm.2 (by simp [hDead])
    · rw [State.Alive, hFrame.count, hFrame.node m hEq] at hm
      rw [hFrame.owned m hEq, hFrame.node m hEq]
      exact h.owned m hm
  dead m hm hDead := by
    by_cases hEq : m = n
    · subst hEq
      obtain hNode | ⟨-, hOwned, -⟩ := hNode
      · exact absurd hNode.1.2 (by simp [hDead])
      · exact hOwned
    · rw [hFrame.owned m hEq]
      exact h.dead m (hFrame.count ▸ hm) (hFrame.node m hEq ▸ hDead)
  booked := hFrame.booked

/-! ### The bridge -/

theorem Booked.nodup_children (h : Booked σ) : (σ.children.map Prod.snd).Nodup :=
  (List.nodup_append.mp (h.logged.nodup_iff.mp h.nodup)).2.1

/-- A child of a node is removed. -/
theorem frame_remove {el : Nat} (h : Booked σ)
    (hMem : ((σ.node n).parent, el) ∈ σ.owned n) :
    Frame σ (σ.soliteBridgeWindowRemove (σ.node n).parent el) n ∧
      (σ.soliteBridgeWindowRemove (σ.node n).parent el).owned n =
        (σ.owned n).erase ((σ.node n).parent, el) := by
  obtain ⟨hChild, hOwner⟩ := List.mem_filter.mp hMem
  have hOwner : σ.renderedBy el = n := (of_decide_eq_true hOwner).2
  refine ⟨{ Frame.refl h n with owned := fun m hm => ?_, booked := ?_ }, ?_⟩
  · refine Eq.trans List.erase_filter.symm (List.erase_of_not_mem fun hBoth => hm ?_)
    exact (of_decide_eq_true (List.mem_filter.mp hBoth).2).2.symm.trans hOwner
  · exact {
      children := fun p hp => h.children p (List.mem_of_mem_erase hp)
      logged := by
        refine h.logged.trans ?_
        have hPerm := (List.perm_cons_erase hChild).map Prod.snd
        exact (hPerm.append_left σ.removed).trans (by simp [State.soliteBridgeWindowRemove])
      nodup := h.nodup
      appended := h.appended }
  · exact List.erase_filter.symm

end Calynda.Solite.ControlFlow
