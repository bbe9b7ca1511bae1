import Calynda.Solite.Rendering

/-!
# Mirroring

A `For` shows one child for each element of the list in its signal, and a `Show` one child while
its signal is not zero. This holds in every run in which no effect is started while it is running;
a callback that sets the signal of its own node breaks it.
-/

namespace Calynda.Solite.ControlFlow

variable {array : CalyndaRtWord → List CalyndaRtWord} {σ τ υ : State} {waiting due : List Nat}
  {n : Nat}

/-! ## Runs -/

theorem clean_change {s : Nat} {v : CalyndaRtWord} (h : (σ.change s v).clean = true) :
    σ.clean = true :=
  (scheduled_all (σ.subscribers s) { σ with value := Function.update σ.value s v }).clean h

theorem Runs.clean {task : Task} {b : Bool} (h : Runs array task σ b τ) (hClean : τ.clean = true) :
    σ.clean = true := by
  induction h with
  | done | held | empty | drained | last => exact hClean
  | signalGet _ ih => exact clean_signalGet _ _ ▸ ih hClean
  | signalSame _ _ ih | batchStart _ ih | flushed _ ih | skip _ _ ih => exact ih hClean
  | signalSet _ _ ihFlush ih => exact clean_change (ihFlush (ih hClean))
  | batchEnd _ _ ihFlush ih => exact ihFlush (ih hClean)
  | create _ _ ihEffect ih => exact ihEffect (ih hClean)
  | dispose _ ih => exact (clean_disposeNode (ih hClean)).1
  | round _ _ ihDrain ih => exact ihDrain (ih hClean)
  | start _ _ _ ihEffect ih => exact ihEffect (ih hClean)
  | forEffect _ _ ih =>
    have hStart := ih hClean
    rw [clean_forRemoveAll, clean_startEffect, Bool.and_eq_true_iff] at hStart
    exact hStart.1
  | hide _ _ =>
    have hStart := (clean_removeChild _ _).symm.trans hClean
    rw [clean_startEffect, Bool.and_eq_true_iff] at hStart
    exact hStart.1
  | render _ _ _ _ ih =>
    have hStart := ih ((clean_placeChild ..).symm.trans hClean)
    change (State.startEffect _ _).clean = true at hStart
    rw [clean_startEffect, Bool.and_eq_true_iff] at hStart
    exact hStart.1
  | keep _ _ _ =>
    change (State.startEffect _ _).clean = true at hClean
    rw [clean_startEffect, Bool.and_eq_true_iff] at hClean
    exact hClean.1
  | item _ _ ihCode ih => exact ihCode ((clean_placeChild ..).symm.trans (ih hClean))

/-- What holds when a task starts. -/
def Task.Pre (array : CalyndaRtWord → List CalyndaRtWord) (σ : State) (waiting : List Nat) :
    Task → Prop
  | .code _ | .flush | .loop => Inv array σ waiting []
  | .drain snapshot => Inv array σ (snapshot ++ waiting) []
  | .effect n => Inv array σ waiting [n] ∧ σ.Alive n ∧
      (n ∉ σ.observerStack → (σ.node n).Kept false)
  | .items n i rest => Inv array σ waiting [] ∧ n ∈ σ.observerStack ∧
      (σ.node n).isFor = true ∧ (σ.node n).rendered.length = i ∧
      (σ.node n).rendered.map Prod.fst ++ rest = array (σ.node n).seen

/-- What holds when it has ended. -/
def Task.Post (array : CalyndaRtWord → List CalyndaRtWord) (σ τ : State) (waiting : List Nat) :
    Task → Prop
  | .code _ | .flush | .loop | .drain _ | .effect _ => Inv array τ waiting [] ∧ Keeps σ τ []
  | .items n _ _ => Inv array τ waiting [] ∧ Keeps σ τ [n] ∧
      (τ.node n).seen = (σ.node n).seen ∧
      (τ.node n).rendered.map Prod.fst = array (τ.node n).seen

theorem Inv.call (h : Inv array σ waiting due) (n : Nat) :
    Inv array (σ.call n) waiting due ∧ Quiet σ (σ.call n) := by
  have hQuiet : Quiet σ (σ.call n) := Quiet.setNode _ rfl
  have hPending : ∀ m, ((σ.call n).node m).pending = (σ.node m).pending := fun m => by
    by_cases hEq : m = n
    · rw [hEq, State.call, State.setNode_self]
    · rw [State.call, State.setNode_of_ne hEq]
  refine ⟨h.quiet hQuiet (fun m hm => h.pending m (hPending m ▸ hm)) (fun _ => id)
    (fun _ _ => id) fun m _ _ hTracks => ?_, hQuiet⟩
  rw [hPending]
  exact hTracks.upToDate

theorem frame_pop {stack : List Nat} (h : Booked σ) (hStack : σ.observerStack = n :: stack) :
    Frame σ σ.pop n :=
  Frame.restack _ h (fun m hm => by rw [hStack]; simp [hm])
    fun hNodup => hNodup.sublist (List.tail_sublist _)

/-- The effect on top of the stack ends. -/
theorem Inv.pop {stack : List Nat} (h : Inv array σ waiting [n]) (hAlive : σ.Alive n)
    (hStack : σ.observerStack = n :: stack) :
    Inv array σ.pop waiting [n] ∧ n ∉ σ.pop.observerStack := by
  have hNodup := h.nodup
  rw [hStack, List.nodup_cons] at hNodup
  refine ⟨h.frame (frame_pop h.booked hStack) (.inl ⟨hAlive, h.owned n hAlive⟩), ?_⟩
  rw [State.pop, hStack]
  exact hNodup.1

/-- The state in which an effect has read its signal. -/
structure Started (array : CalyndaRtWord → List CalyndaRtWord) (σ τ : State) (waiting : List Nat)
    (n : Nat) : Prop where
  out : n ∉ σ.observerStack
  inv : Inv array τ waiting [n]
  alive : τ.Alive n
  frame : Frame σ τ n
  stack : τ.observerStack = n :: σ.observerStack
  kept : (τ.node n).Kept false
  owned : τ.owned n = (τ.node n).placed
  subscribed : n ∈ τ.subscribers (τ.node n).signal
  upToDate : (τ.node n).seen = τ.value (τ.node n).signal

theorem Started.of_start (h : Inv array σ waiting [n]) (hAlive : σ.Alive n)
    (hKept : n ∉ σ.observerStack → (σ.node n).Kept false)
    (hClean : (σ.startEffect n).clean = true) :
    Started array σ (σ.startEffect n) waiting n := by
  obtain ⟨-, hOut, hFrame, hStack, hNode, hSubscribed, hOwned⟩ :=
    startEffect_spec h.booked hClean
  have hAlive' : (σ.startEffect n).Alive n := by
    rw [State.Alive, hFrame.count, hNode]
    exact hAlive
  have hPlaced : (σ.startEffect n).owned n = ((σ.startEffect n).node n).placed := by
    rw [hOwned, hNode]
    exact h.owned n hAlive
  exact {
    out := hOut
    inv := h.frame hFrame (.inl ⟨hAlive', hPlaced⟩)
    alive := hAlive'
    frame := hFrame
    stack := hStack
    kept := by
      rw [hNode]
      exact { hKept hOut with }
    owned := hPlaced
    subscribed := by rwa [hNode]
    upToDate := by rw [hNode, hFrame.value] }

/-- The effect on top ends with its record in order. -/
theorem Inv.endEffect {stack : List Nat} (h : Inv array σ waiting [n]) (hAlive : σ.Alive n)
    (hStack : σ.observerStack = n :: stack)
    (hSubscribed : n ∈ σ.subscribers (σ.node n).signal)
    (hUpToDate : (σ.node n).pending = true ∨ (σ.node n).seen = σ.value (σ.node n).signal)
    (hKept : (σ.node n).Kept false) (hMirrors : (σ.node n).Mirrors array) :
    Inv array σ.pop waiting [] := by
  obtain ⟨hPop, hOut⟩ := h.pop hAlive hStack
  exact hPop.finish ⟨hSubscribed, hUpToDate, by rw [decide_eq_false hOut]; exact hKept,
    fun _ => hMirrors⟩

theorem keeps_effect {ρ : State} (hOut : n ∉ σ.observerStack) (hStart : Frame σ τ n)
    (hStack : τ.observerStack = n :: σ.observerStack) (hRun : Keeps τ υ [n])
    (hEnd : Frame υ ρ n) (hPop : ρ.observerStack = σ.observerStack) : Keeps σ ρ [] where
  observers := hPop
  count := by
    rw [hEnd.count]
    exact Nat.le_trans (Nat.le_of_eq hStart.count.symm) hRun.count
  fixed m hm := by
    obtain ⟨hFor, hParent, hSignal⟩ := hRun.fixed m (hStart.count.symm ▸ hm)
    by_cases hEq : m = n
    · subst hEq
      exact ⟨hEnd.isFor.trans (hFor.trans hStart.isFor),
        hEnd.parent.trans (hParent.trans hStart.parent),
        hEnd.signal.trans (hSignal.trans hStart.signal)⟩
    · rw [hEnd.node m hEq]
      rw [hStart.node m hEq] at hFor hParent hSignal
      exact ⟨hFor, hParent, hSignal⟩
  running m hm _ := by
    have hEq : m ≠ n := fun hEq => hOut (hEq ▸ hm)
    obtain ⟨hRendered, hSeen⟩ := hRun.running m (by rw [hStack]; exact List.mem_cons_of_mem _ hm)
      (by simpa using hEq)
    rw [hEnd.node m hEq, ← hStart.node m hEq]
    exact ⟨hRendered, hSeen⟩

theorem Node.Kept.put {node : Node} (h : node.Kept true) (hFor : node.isFor = true)
    (item : CalyndaRtWord) (child : Option Nat) :
    (node.put node.rendered.length item child).Kept true where
  forCurrent _ := by
    rw [Node.put, List.length_append, List.length_singleton, List.range_succ, List.map_append,
      List.map_append, ← h.forCurrent hFor]
    congr 1
    · refine List.map_congr_left fun i hi => ?_
      exact Function.update_of_ne (Nat.ne_of_lt (List.mem_range.mp hi)) ..
    · simp
  forCount _ := h.forCount hFor
  showCurrent hShow := absurd (hFor.symm.trans hShow) Bool.noConfusion

theorem quiet_change (σ : State) (s : Nat) (v : CalyndaRtWord) : Quiet σ (σ.change s v) :=
  { (scheduled_all (σ.subscribers s)
      { σ with value := Function.update σ.value s v }).quiet with }

theorem quiet_batch (σ : State) (depth : Nat) : Quiet σ { σ with batchDepth := depth } :=
  { Quiet.refl σ with }

theorem quiet_clear (σ : State) : Quiet σ { σ with pendingQueue := [] } :=
  { Quiet.refl σ with }

theorem Inv.batch (h : Inv array σ waiting due) (depth : Nat) :
    Inv array { σ with batchDepth := depth } waiting due :=
  h.quiet (quiet_batch σ depth) h.pending (fun _ => id) (fun _ _ => id)
    fun _ _ _ hTracks => hTracks.upToDate

theorem Inv.createNode (h : Inv array σ waiting []) (isFor : Bool) (parent signal : Nat)
    (render : Nat → CalyndaRtWord → Nat → Code) :
    Inv array (σ.createNode isFor parent signal render) waiting [σ.nodeCount] ∧
      (σ.createNode isFor parent signal render).Alive σ.nodeCount ∧
      ((σ.createNode isFor parent signal render).node σ.nodeCount).Kept false ∧
      Keeps σ (σ.createNode isFor parent signal render) [] := by
  have hNew : (σ.createNode isFor parent signal render).node σ.nodeCount =
      { isFor, parent, signal, render } := State.setNode_self ..
  have hOther : ∀ m < σ.nodeCount,
      (σ.createNode isFor parent signal render).node m = σ.node m :=
    fun m hm => State.setNode_of_ne (Nat.ne_of_lt hm) _
  refine ⟨h.create .., ⟨Nat.lt_succ_self _, by rw [hNew]⟩, ?_, ?_⟩
  · rw [hNew]
    exact Node.kept_of_new rfl rfl rfl false
  · exact {
      observers := rfl
      count := Nat.le_succ _
      fixed := fun m hm => by rw [hOther m hm]; exact ⟨rfl, rfl, rfl⟩
      running := fun m hm _ => by rw [hOther m (h.observers m hm).1]; exact ⟨rfl, rfl⟩ }

/-! ### The effect of a `For` -/

theorem Started.forItems (h : Started array σ τ waiting n) (hFor : (τ.node n).isFor = true) :
    (Task.items n 0 (array (τ.node n).seen)).Pre array (τ.forRemoveAll n) waiting ∧
      Frame σ (τ.forRemoveAll n) n ∧
      (τ.forRemoveAll n).observerStack = n :: σ.observerStack ∧
      ((τ.forRemoveAll n).node n).seen = (τ.node n).seen := by
  obtain ⟨hRemove, hNone, hNode, hStack, -⟩ :=
    forRemoveAll_spec h.inv.booked hFor h.kept h.owned
  have hAlive : (τ.forRemoveAll n).Alive n := by
    rw [State.Alive, hRemove.count, hNode]
    exact h.alive
  have hTop := hStack.trans h.stack
  have hInv : Inv array (τ.forRemoveAll n) waiting [n] :=
    h.inv.frame hRemove (.inl ⟨hAlive, by rw [hNone, hNode]; rfl⟩)
  have hMem : n ∈ (τ.forRemoveAll n).observerStack := by
    rw [hTop]
    exact List.mem_cons_self
  have hTracks : Tracks array (τ.forRemoveAll n) n := {
    subscribed := by
      rw [hNode]
      exact hRemove.subscribers _ n h.subscribed
    upToDate := by
      rw [hNode, hRemove.value]
      exact .inr h.upToDate
    kept := by
      rw [hNode, decide_eq_true hMem]
      exact ⟨fun _ => rfl, fun _ => rfl,
        fun hShow => absurd (hFor.symm.trans hShow) (fun h => by cases h)⟩
    mirrors := fun hOut => absurd hMem hOut }
  refine ⟨⟨hInv.finish hTracks, hMem, ?_, ?_, ?_⟩, h.frame.trans hRemove, hTop, ?_⟩ <;>
    rw [hNode]
  · exact hFor
  · rfl
  · rfl

theorem Started.forEnd (h : Started array σ τ waiting n) (hFor : (τ.node n).isFor = true)
    (hPost : (Task.items n 0 (array (τ.node n).seen)).Post array (τ.forRemoveAll n) υ waiting) :
    Inv array (υ.setNode n { υ.node n with childCount := (array (τ.node n).seen).length }).pop
        waiting [] ∧
      Keeps σ (υ.setNode n
        { υ.node n with childCount := (array (τ.node n).seen).length }).pop [] := by
  obtain ⟨hPre, hStart, hTop, hSeen⟩ := h.forItems hFor
  obtain ⟨hInv, hKeeps, hSame, hMapped⟩ := hPost
  have hStack : υ.observerStack = n :: σ.observerStack := hKeeps.observers.trans hTop
  have hMem : n ∈ υ.observerStack := by
    rw [hStack]
    exact List.mem_cons_self
  have hAlive := hInv.observers n hMem
  have hTracks := hInv.nodes n hAlive List.not_mem_nil
  have hKept := hTracks.kept
  rw [decide_eq_true hMem] at hKept
  have hForEnd : (υ.node n).isFor = true :=
    ((hKeeps.fixed n (hStart.count.symm ▸ h.frame.count ▸ h.alive.1)).1).trans hPre.2.2.1
  have hLength : (υ.node n).rendered.length = (array (τ.node n).seen).length := by
    rw [← hSeen, ← hSame, ← hMapped, List.length_map]
  have hCount := Frame.setNode (n := n)
    { υ.node n with childCount := (array (τ.node n).seen).length } hInv.booked rfl rfl rfl rfl
  let counted := υ.setNode n { υ.node n with childCount := (array (τ.node n).seen).length }
  have hNode : counted.node n =
      { υ.node n with childCount := (array (τ.node n).seen).length } := State.setNode_self ..
  have hCounted : counted.Alive n := by
    rw [State.Alive, hNode]
    exact hAlive
  have hOwned : counted.owned n = (counted.node n).placed := by
    rw [hNode]
    exact (owned_setNode υ n
      { υ.node n with childCount := (array (τ.node n).seen).length } rfl).trans
      (hInv.owned n hAlive)
  have hCountedInv : Inv array counted waiting [n] :=
    (hInv.weaken [n]).frame hCount (.inl ⟨hCounted, hOwned⟩)
  refine ⟨hCountedInv.endEffect hCounted hStack ?_ ?_ ?_ ?_, ?_⟩
  · rw [hNode]
    exact hTracks.subscribed
  · rw [hNode]
    exact hTracks.upToDate
  · rw [hNode]
    exact ⟨hKept.forCurrent, fun _ => hLength.symm,
      fun hShow => absurd (hForEnd.symm.trans hShow) (fun h => by cases h)⟩
  · rw [hNode]
    exact ⟨fun _ => hMapped, fun hShow => absurd (hForEnd.symm.trans hShow) (fun h => by cases h)⟩
  · exact keeps_effect h.out hStart hTop hKeeps
      (hCount.trans (frame_pop hCount.booked hStack)) (congrArg List.tail hStack)

/-- The result for an item is put into the node. -/
theorem Task.Pre.place {i : Nat} {item : CalyndaRtWord} {rest : List CalyndaRtWord}
    (hPre : (Task.items n i (item :: rest)).Pre array σ waiting) (hQuiet : Quiet σ (σ.call n))
    (hInv : Inv array τ waiting []) (hKeeps : Keeps (σ.call n) τ []) (made : Bool) :
    (Task.items n (i + 1) rest).Pre array (τ.placeChild n i item made) waiting ∧
      Keeps σ (τ.placeChild n i item made) [n] ∧
      ((τ.placeChild n i item made).node n).seen = (σ.node n).seen := by
  obtain ⟨hBefore, hMem, hFor, hLength, hMapped⟩ := hPre
  have hAll : Keeps σ τ [] := hQuiet.keeps.trans hKeeps
  obtain ⟨hRendered, hSeen⟩ := hAll.running n hMem List.not_mem_nil
  have hMemEnd : n ∈ τ.observerStack := hAll.observers.symm ▸ hMem
  have hAlive := hInv.observers n hMemEnd
  have hTracks := hInv.nodes n hAlive List.not_mem_nil
  have hKept := hTracks.kept
  rw [decide_eq_true hMemEnd] at hKept
  have hForEnd : (τ.node n).isFor = true :=
    (hAll.fixed n (hBefore.observers n hMem).1).1.trans hFor
  obtain ⟨child, hFrame, hOwned, hNode, hStack, -⟩ :=
    placeChild_spec hInv.booked hAlive.1 i item made
  have hAlive' : (τ.placeChild n i item made).Alive n := by
    rw [State.Alive, hFrame.count, hNode]
    exact hAlive
  have hPlaced : (τ.placeChild n i item made).Alive n ∧
      (τ.placeChild n i item made).owned n = ((τ.placeChild n i item made).node n).placed := by
    refine ⟨hAlive', ?_⟩
    rw [hOwned, hNode, Node.placed_put, hInv.owned n hAlive]
  have hMem' : n ∈ (τ.placeChild n i item made).observerStack := hStack.symm ▸ hMemEnd
  have hIndex : i = (τ.node n).rendered.length := by rw [hRendered, hLength]
  have hTracks' : Tracks array (τ.placeChild n i item made) n := {
    subscribed := by
      rw [hNode]
      exact hFrame.subscribers _ n hTracks.subscribed
    upToDate := by
      rw [hNode, hFrame.value]
      exact hTracks.upToDate
    kept := by
      rw [hNode, decide_eq_true hMem', hIndex]
      exact hKept.put hForEnd item child
    mirrors := fun hOut => absurd hMem' hOut }
  refine ⟨⟨((hInv.weaken [n]).frame hFrame (.inl hPlaced)).finish hTracks', hMem', ?_, ?_, ?_⟩,
    (hAll.weaken [n]).trans (hFrame.keeps hStack fun _ => List.mem_singleton_self n), ?_⟩
  · rw [hNode]
    exact hForEnd
  · rw [hNode, Node.put, List.length_append, hIndex]
    rfl
  · rw [hNode]
    simp only [Node.put, List.map_append, hRendered, hSeen, List.append_assoc]
    exact hMapped
  · rw [hNode]
    exact hSeen

/-! ### The effect of a `Show` -/

theorem Started.hide (h : Started array σ τ waiting n) (hFor : (τ.node n).isFor = false)
    (hSeen : (τ.node n).seen = 0) :
    Inv array (τ.removeChild n).pop waiting [] ∧ Keeps σ (τ.removeChild n).pop [] := by
  obtain ⟨hRemove, hNone, hRendered, hCurrent, hDisposed, hSame, hStack, -⟩ :=
    removeChild_spec h.inv.booked hFor h.kept h.owned
  have hTop := hStack.trans h.stack
  have hForEnd := hRemove.isFor.trans hFor
  have hAlive : (τ.removeChild n).Alive n := by
    rw [State.Alive, hRemove.count, hDisposed]
    exact h.alive
  have hOwned : (τ.removeChild n).owned n = ((τ.removeChild n).node n).placed := by
    rw [hNone, Node.placed, hRendered]
    rfl
  refine ⟨(h.inv.frame hRemove (.inl ⟨hAlive, hOwned⟩)).endEffect hAlive hTop ?_ ?_ ?_ ?_, ?_⟩
  · rw [hRemove.signal]
    exact hRemove.subscribers _ n h.subscribed
  · rw [hSame, hRemove.signal, hRemove.value]
    exact .inr h.upToDate
  · exact ⟨fun hTrue => absurd (hForEnd.symm.trans hTrue) (fun h => by cases h),
      fun hTrue => absurd (hForEnd.symm.trans hTrue) (fun h => by cases h),
      fun _ => .inl ⟨hRendered, hCurrent⟩⟩
  · exact ⟨fun hTrue => absurd (hForEnd.symm.trans hTrue) (fun h => by cases h),
      fun _ => iff_of_true (hSame.trans hSeen) hRendered⟩
  · exact keeps_effect h.out h.frame h.stack (Keeps.refl τ _)
      (hRemove.trans (frame_pop hRemove.booked hTop)) (congrArg List.tail hTop)

theorem Started.keep (h : Started array σ τ waiting n) (hFor : (τ.node n).isFor = false)
    (hSeen : (τ.node n).seen ≠ 0) (hCurrent : (τ.node n).current 0 ≠ none) :
    Inv array τ.pop waiting [] ∧ Keeps σ τ.pop [] := by
  refine ⟨h.inv.endEffect h.alive h.stack h.subscribed (.inr h.upToDate) h.kept ?_, ?_⟩
  · refine ⟨fun hTrue => absurd (hFor.symm.trans hTrue) nofun, fun _ => iff_of_false hSeen ?_⟩
    obtain ⟨-, hNone⟩ | ⟨-, item, child, hRendered, -⟩ := h.kept.showCurrent hFor
    · exact absurd hNone hCurrent
    · rw [hRendered]
      exact List.cons_ne_nil _ _
  · exact keeps_effect h.out h.frame h.stack (Keeps.refl τ _) (frame_pop h.inv.booked h.stack)
      (congrArg List.tail h.stack)

/-- A `Show` without a child is about to render one. -/
theorem Started.blank (h : Started array σ τ waiting n) (hFor : (τ.node n).isFor = false)
    (hCurrent : (τ.node n).current 0 = none) :
    Inv array ((τ.setNode n { τ.node n with rendered := [] }).call n) waiting [] ∧
      Quiet (τ.setNode n { τ.node n with rendered := [] })
        ((τ.setNode n { τ.node n with rendered := [] }).call n) := by
  have hNode : (τ.setNode n { τ.node n with rendered := [] }).node n =
      { τ.node n with rendered := [] } := State.setNode_self ..
  have hNone : τ.owned n = [] := by
    rw [h.owned, Node.placed]
    obtain ⟨hRendered, -⟩ | ⟨-, item, child, hRendered, hChild⟩ := h.kept.showCurrent hFor
    · rw [hRendered]
      rfl
    · rw [hRendered, ← hChild, hCurrent]
      rfl
  have hFrame := Frame.setNode (n := n) { τ.node n with rendered := [] } h.inv.booked
    rfl rfl rfl rfl
  have hAlive : (τ.setNode n { τ.node n with rendered := [] }).Alive n := by
    rw [State.Alive, hNode]
    exact h.alive
  have hOwned : (τ.setNode n { τ.node n with rendered := [] }).owned n =
      ((τ.setNode n { τ.node n with rendered := [] }).node n).placed := by
    rw [hNode]
    exact (owned_setNode τ n { τ.node n with rendered := [] } rfl).trans hNone
  have hMem : n ∈ τ.observerStack := by
    rw [h.stack]
    exact List.mem_cons_self
  have hTracks : Tracks array (τ.setNode n { τ.node n with rendered := [] }) n := {
    subscribed := by
      rw [hNode]
      exact h.subscribed
    upToDate := by
      rw [hNode]
      exact .inr h.upToDate
    kept := by
      rw [hNode]
      exact ⟨fun hTrue => absurd (hFor.symm.trans hTrue) (fun h => by cases h),
        fun hTrue => absurd (hFor.symm.trans hTrue) (fun h => by cases h),
        fun _ => .inl ⟨rfl, hCurrent⟩⟩
    mirrors := fun hOut => absurd hMem hOut }
  exact Inv.call ((h.inv.frame hFrame (.inl ⟨hAlive, hOwned⟩)).finish hTracks) n

theorem Started.renderEnd (h : Started array σ τ waiting n) (hFor : (τ.node n).isFor = false)
    (hSeen : (τ.node n).seen ≠ 0) {made : Bool}
    (hQuiet : Quiet (τ.setNode n { τ.node n with rendered := [] })
      ((τ.setNode n { τ.node n with rendered := [] }).call n))
    (hPost : Inv array υ waiting [] ∧
      Keeps ((τ.setNode n { τ.node n with rendered := [] }).call n) υ []) :
    Inv array (υ.placeChild n 0 (τ.node n).seen made).pop waiting [] ∧
      Keeps σ (υ.placeChild n 0 (τ.node n).seen made).pop [] := by
  obtain ⟨hInv, hKeeps⟩ := hPost
  have hNode : (τ.setNode n { τ.node n with rendered := [] }).node n =
      { τ.node n with rendered := [] } := State.setNode_self ..
  have hBlank := Frame.setNode (n := n) { τ.node n with rendered := [] } h.inv.booked
    rfl rfl rfl rfl
  have hAll : Keeps (τ.setNode n { τ.node n with rendered := [] }) υ [] :=
    hQuiet.keeps.trans hKeeps
  have hStack : υ.observerStack = n :: σ.observerStack := hAll.observers.trans h.stack
  have hMem : n ∈ υ.observerStack := by
    rw [hStack]
    exact List.mem_cons_self
  have hMemBlank : n ∈ τ.observerStack := by
    rw [h.stack]
    exact List.mem_cons_self
  obtain ⟨hRendered, hSame⟩ := hAll.running n hMemBlank List.not_mem_nil
  have hForEnd := (hAll.fixed n h.alive.1).1
  rw [hNode] at hRendered hSame hForEnd
  have hShow : (υ.node n).isFor = false := hForEnd.trans hFor
  have hSame : (υ.node n).seen = (τ.node n).seen := hSame
  have hAlive := hInv.observers n hMem
  have hTracks := hInv.nodes n hAlive List.not_mem_nil
  obtain ⟨child, hFrame, hOwned, hPut, hStackEnd, -⟩ :=
    placeChild_spec hInv.booked hAlive.1 0 (τ.node n).seen made
  have hAlive' : (υ.placeChild n 0 (τ.node n).seen made).Alive n := by
    rw [State.Alive, hFrame.count, hPut]
    exact hAlive
  have hPlaced : (υ.placeChild n 0 (τ.node n).seen made).owned n =
      ((υ.placeChild n 0 (τ.node n).seen made).node n).placed := by
    rw [hOwned, hPut, Node.placed_put, hInv.owned n hAlive]
  have hTop := hStackEnd.trans hStack
  have hFirst : ((υ.node n).put 0 (τ.node n).seen child).rendered = [((τ.node n).seen, child)] := by
    rw [Node.put, hRendered]
    rfl
  refine ⟨((hInv.weaken [n]).frame hFrame (.inl ⟨hAlive', hPlaced⟩)).endEffect hAlive' hTop
    ?_ ?_ ?_ ?_, ?_⟩
  · rw [hPut]
    exact hFrame.subscribers _ n hTracks.subscribed
  · rw [hPut, hFrame.value]
    exact hTracks.upToDate
  · rw [hPut]
    exact ⟨fun hTrue => absurd (hShow.symm.trans hTrue) (fun h => by cases h),
      fun hTrue => absurd (hShow.symm.trans hTrue) (fun h => by cases h),
      fun _ => .inr ⟨rfl, (τ.node n).seen, child, hFirst, by simp [Node.put]⟩⟩
  · rw [hPut]
    refine ⟨fun hTrue => absurd (hShow.symm.trans hTrue) (fun h => by cases h),
      fun _ => iff_of_false ?_ ?_⟩
    · exact fun hZero => hSeen (hSame.symm.trans hZero)
    · rw [hFirst]
      exact List.cons_ne_nil _ _
  · exact keeps_effect h.out (h.frame.trans hBlank) h.stack (hAll.weaken [n])
      (hFrame.trans (frame_pop hFrame.booked hTop)) (congrArg List.tail hTop)

/-- Under the invariant every task ends under the invariant, with the nodes of running effects as
they were. -/
theorem Runs.sound {task : Task} {b : Bool} (h : Runs array task σ b τ) (hClean : τ.clean = true) :
    ∀ waiting, task.Pre array σ waiting → task.Post array σ τ waiting := by
  induction h with
  | done | held | empty | drained => exact fun waiting hPre => ⟨hPre, Keeps.refl _ _⟩
  | signalGet _ ih =>
    intro waiting hPre
    obtain ⟨hInv, hKeeps⟩ := ih hClean waiting (hPre.signalGet _)
    exact ⟨hInv, (quiet_signalGet _ _).keeps.trans hKeeps⟩
  | signalSame _ _ ih | flushed _ ih => exact ih hClean
  | signalSet hFlush hRest ihFlush ih =>
    intro waiting hPre
    have hMid := hRest.clean hClean
    obtain ⟨hInv, hKeeps⟩ := ihFlush hMid waiting (Inv.change hPre (hFlush.clean hMid))
    obtain ⟨hInv', hKeeps'⟩ := ih hClean waiting hInv
    exact ⟨hInv', ((quiet_change ..).keeps.trans hKeeps).trans hKeeps'⟩
  | batchStart _ ih =>
    intro waiting hPre
    obtain ⟨hInv, hKeeps⟩ := ih hClean waiting (hPre.batch _)
    exact ⟨hInv, (quiet_batch ..).keeps.trans hKeeps⟩
  | batchEnd _ hRest ihFlush ih =>
    intro waiting hPre
    obtain ⟨hInv, hKeeps⟩ := ihFlush (hRest.clean hClean) waiting (hPre.batch _)
    obtain ⟨hInv', hKeeps'⟩ := ih hClean waiting hInv
    exact ⟨hInv', ((quiet_batch ..).keeps.trans hKeeps).trans hKeeps'⟩
  | create _ hRest ihEffect ih =>
    intro waiting hPre
    obtain ⟨hNew, hAlive, hKept, hCreate⟩ := hPre.createNode ..
    obtain ⟨hInv, hKeeps⟩ :=
      ihEffect (hRest.clean hClean) waiting ⟨hNew, hAlive, fun _ => hKept⟩
    obtain ⟨hInv', hKeeps'⟩ := ih hClean waiting hInv
    exact ⟨hInv', (hCreate.trans hKeeps).trans hKeeps'⟩
  | dispose hRest ih =>
    intro waiting hPre
    obtain ⟨hInv, hKeeps⟩ := Inv.dispose hPre (hRest.clean hClean)
    obtain ⟨hInv', hKeeps'⟩ := ih hClean waiting hInv
    exact ⟨hInv', hKeeps.trans hKeeps'⟩
  | round _ hRest ihDrain ih =>
    intro waiting hPre
    obtain ⟨hInv, hKeeps⟩ := ihDrain (hRest.clean hClean) waiting (Inv.clear hPre)
    obtain ⟨hInv', hKeeps'⟩ := ih hClean waiting hInv
    exact ⟨hInv', (quiet_clear _).keeps.trans (hKeeps.trans hKeeps')⟩
  | skip hDead _ ih =>
    intro waiting hPre
    have hInv := (Inv.take hPre).of_dead (by
      rw [State.Alive, State.setNode_self]
      simp [hDead])
    obtain ⟨hInv', hKeeps'⟩ := ih hClean waiting hInv
    refine ⟨hInv', Keeps.trans (Quiet.keeps (Quiet.setNode _ ?_)) hKeeps'⟩
    rfl
  | @start σ _ _ n rest _ _ hAlive _ hRest ihEffect ih =>
    intro waiting hPre
    have hAlive : σ.Alive n := ⟨hPre.fresh n hAlive, hAlive⟩
    have hQuiet : Quiet σ (σ.setNode n { σ.node n with pending := false }) :=
      Quiet.setNode _ rfl
    have hKept : n ∉ σ.observerStack → (σ.node n).Kept false := fun hOut => by
      rw [← decide_eq_false hOut]
      exact (hPre.nodes n hAlive List.not_mem_nil).kept
    obtain ⟨hInv, hKeeps⟩ := ihEffect (hRest.clean hClean) (rest ++ waiting)
      ⟨Inv.take hPre, (hQuiet.alive n).mpr hAlive, fun hOut => hQuiet.kept (hKept hOut)⟩
    obtain ⟨hInv', hKeeps'⟩ := ih hClean waiting hInv
    exact ⟨hInv', hQuiet.keeps.trans (hKeeps.trans hKeeps')⟩
  | forEffect hFor hRun ih =>
    intro waiting hPre
    have hStart := hRun.clean hClean
    rw [clean_forRemoveAll] at hStart
    have hStarted := Started.of_start hPre.1 hPre.2.1 hPre.2.2 hStart
    exact hStarted.forEnd hFor (ih hClean waiting (hStarted.forItems hFor).1)
  | hide hFor hSeen =>
    intro waiting hPre
    have hStart := (clean_removeChild _ _).symm.trans hClean
    exact (Started.of_start hPre.1 hPre.2.1 hPre.2.2 hStart).hide hFor hSeen
  | render hFor hSeen hCurrent hRun ih =>
    intro waiting hPre
    have hMid := (clean_placeChild ..).symm.trans hClean
    have hStarted := Started.of_start hPre.1 hPre.2.1 hPre.2.2 (hRun.clean hMid)
    obtain ⟨hBlank, hQuiet⟩ := hStarted.blank hFor hCurrent
    exact hStarted.renderEnd hFor hSeen hQuiet (ih hMid waiting hBlank)
  | keep hFor hSeen hCurrent =>
    intro waiting hPre
    exact (Started.of_start hPre.1 hPre.2.1 hPre.2.2 hClean).keep hFor hSeen hCurrent
  | last =>
    intro waiting hPre
    obtain ⟨hInv, -, -, -, hMapped⟩ := hPre
    exact ⟨hInv, Keeps.refl _ _, rfl, (List.append_nil _).symm.trans hMapped⟩
  | item hCode hRest ihCode ih =>
    intro waiting hPre
    have hMid := (clean_placeChild ..).symm.trans (hRest.clean hClean)
    obtain ⟨hCall, hQuiet⟩ := Inv.call hPre.1 _
    obtain ⟨hInv, hKeeps⟩ := ihCode hMid waiting hCall
    obtain ⟨hNext, hPlace, hSeen⟩ := hPre.place hQuiet hInv hKeeps _
    obtain ⟨hInv', hKeeps', hSeen', hMapped⟩ := ih hClean waiting hNext
    exact ⟨hInv', hPlace.trans hKeeps', hSeen'.trans hSeen, hMapped⟩

/-! ## Mirroring -/

/-- What is to hold where no effect is running and none is pending. The results of a node are
those of its callback on the elements of the list, or on the value that was there when a `Show`
rendered. -/
structure Mirrored (array : CalyndaRtWord → List CalyndaRtWord) (σ : State) : Prop where
  ofFor : ∀ n, σ.Alive n → (σ.node n).isFor = true →
    (σ.node n).rendered.map Prod.fst = array (σ.value (σ.node n).signal) ∧
      σ.owned n = (σ.node n).placed
  ofShow : ∀ n, σ.Alive n → (σ.node n).isFor = false →
    if σ.value (σ.node n).signal = 0 then σ.owned n = []
    else ∃ item child, (σ.node n).rendered = [(item, child)] ∧ σ.owned n = (σ.node n).placed
  once : (σ.children.map Prod.snd).Nodup
  removed : ∀ el ∈ σ.appended, el ∉ σ.children.map Prod.snd → σ.removed.count el = 1
  disposed : ∀ n < σ.nodeCount, (σ.node n).disposed = true → σ.owned n = []

theorem Booked.removed_once (h : Booked σ) {el : Nat} (hEl : el ∈ σ.appended)
    (hGone : el ∉ σ.children.map Prod.snd) : σ.removed.count el = 1 := by
  have hCount := h.logged.count_eq el
  rw [List.count_append, List.count_eq_zero.mpr hGone, Nat.add_zero,
    List.count_eq_one_of_mem h.nodup hEl] at hCount
  exact hCount.symm

theorem Inv.mirrored (h : Inv array σ [] []) (hStack : σ.observerStack = [])
    (hQueue : σ.pendingQueue = []) : Mirrored array σ := by
  have hSeen : ∀ n, σ.Alive n →
      (σ.node n).seen = σ.value (σ.node n).signal ∧ (σ.node n).Kept false ∧
        (σ.node n).Mirrors array := fun n hAlive => by
    have hTracks := h.nodes n hAlive List.not_mem_nil
    have hOut : n ∉ σ.observerStack := by
      rw [hStack]
      exact List.not_mem_nil
    refine ⟨hTracks.upToDate.resolve_left fun hPending => ?_, ?_, hTracks.mirrors hOut⟩
    · have hMem := h.pending n hPending
      rw [hQueue] at hMem
      exact List.not_mem_nil hMem
    · rw [← decide_eq_false hOut]
      exact hTracks.kept
  refine ⟨fun n hAlive hFor => ?_, fun n hAlive hFor => ?_, h.booked.nodup_children,
    fun el => h.booked.removed_once, h.dead⟩
  · obtain ⟨hValue, -, hMirrors⟩ := hSeen n hAlive
    exact ⟨hValue ▸ hMirrors.ofFor hFor, h.owned n hAlive⟩
  · obtain ⟨hValue, hKept, hMirrors⟩ := hSeen n hAlive
    have hShown := hMirrors.ofShow hFor
    rw [hValue] at hShown
    split
    · next hZero =>
      rw [h.owned n hAlive, Node.placed, hShown.mp hZero]
      rfl
    · next hZero =>
      obtain ⟨hNone, -⟩ | ⟨-, item, child, hRendered, -⟩ := hKept.showCurrent hFor
      · exact absurd (hShown.mpr hNone) hZero
      · exact ⟨item, child, hRendered, h.owned n hAlive⟩

theorem inv_start (array : CalyndaRtWord → List CalyndaRtWord) (value : Nat → CalyndaRtWord) :
    Inv array { value } [] [] where
  observers _ h := absurd h List.not_mem_nil
  fresh _ h := absurd h nofun
  nodup := List.nodup_nil
  pending _ h := absurd h nofun
  nodes _ h := absurd h.2 nofun
  owned _ h := absurd h.2 nofun
  dead _ h := absurd h (Nat.not_lt_zero _)
  booked := ⟨nofun, List.Perm.refl [], List.nodup_nil, nofun⟩

/-- Whatever the program and the callbacks do, `Show` and `For` mirror their signals. -/
def MirrorsSignals (array : CalyndaRtWord → List CalyndaRtWord) : Prop :=
  ∀ value program fuel element τ, run array fuel (.code program) { value } = some (element, τ) →
    τ.pendingQueue = [] → Mirrored array τ

/-- They do in a run in which no effect is started while it is running, none is disposed while it
is running, no node is disposed twice, and no queue is full. -/
theorem mirrored_of_clean {value : Nat → CalyndaRtWord} {program : Code} {fuel : Nat}
    {element : Bool} (h : run array fuel (.code program) { value } = some (element, τ))
    (hClean : τ.clean = true) (hQueue : τ.pendingQueue = []) : Mirrored array τ := by
  obtain ⟨hInv, hKeeps⟩ := (runs_of_run h).sound hClean [] (inv_start array value)
  exact hInv.mirrored hKeeps.observers hQueue

/-- A list of as many zeros as the word says. -/
def zeros (w : CalyndaRtWord) : List CalyndaRtWord := List.replicate w.toNat 0

/-- A `For` whose callbacks set the signal of a `Show`, in a batch, before it is disposed. -/
def listProgram : Code :=
  .create true 0 0 (fun _ _ _ => .signalSet 1 1 (.done true)) fun n =>
    .create false 0 1 (fun _ _ _ => .done true) fun _ =>
      .batchStart (.signalSet 0 2 (.batchEnd (.dispose n (.done false))))

theorem mirrored_of_clean_listProgram :
    ∃ τ, run zeros 30 (.code listProgram) {} = some (false, τ) ∧ τ.children = [(0, 0)] ∧
      Mirrored zeros τ := by
  have hEnd : (run zeros 30 (.code listProgram) {}).map
      (fun r => (r.1, r.2.children, r.2.clean, r.2.pendingQueue)) =
        some (false, [(0, 0)], true, []) := by
    decide +kernel
  obtain ⟨⟨element, τ⟩, hRun, hEnd⟩ := Option.map_eq_some_iff.mp hEnd
  simp only [Prod.mk.injEq] at hEnd
  obtain ⟨rfl, hChildren, hClean, hQueue⟩ := hEnd
  exact ⟨τ, hRun, hChildren, mirrored_of_clean hRun hClean hQueue⟩

/-- The callback empties the list of its own `For`. -/
def nestedProgram : Code :=
  .create true 0 0 (fun _ _ _ => .signalSet 0 0 (.done true)) fun _ => .signalSet 0 1 (.done false)

/-- The child is appended after the inner run, for a list that is empty by then. -/
theorem not_mirrorsSignals_nested : ¬ MirrorsSignals zeros := by
  intro h
  have hEnd : (run zeros 20 (.code nestedProgram) {}).map
      (fun r => (r.2.pendingQueue, r.2.nodeCount, (r.2.node 0).disposed, (r.2.node 0).isFor,
        r.2.value (r.2.node 0).signal, (r.2.owned 0).length)) =
        some ([], 1, false, true, 0, 1) := by
    decide +kernel
  obtain ⟨⟨element, τ⟩, hRun, hEnd⟩ := Option.map_eq_some_iff.mp hEnd
  simp only [Prod.mk.injEq] at hEnd
  obtain ⟨hQueue, hCount, hAlive, hFor, hValue, hOwned⟩ := hEnd
  have hNode : τ.Alive 0 := ⟨hCount ▸ Nat.zero_lt_one, hAlive⟩
  obtain ⟨hRendered, hPlaced⟩ := (h _ nestedProgram 20 element τ hRun hQueue).ofFor 0 hNode hFor
  rw [hValue] at hRendered
  have hNone : (τ.node 0).rendered = [] := List.map_eq_nil_iff.mp hRendered
  rw [hPlaced, Node.placed, hNone] at hOwned
  exact absurd hOwned Nat.zero_ne_one

end Calynda.Solite.ControlFlow
