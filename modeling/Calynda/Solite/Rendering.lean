import Calynda.Solite.Children
import Mathlib.Data.List.Nodup

/-!
# Rendering and removing

What the operations on one node do to its record and to the children of its window, as long as the
record says what has been rendered.
-/

namespace Calynda.Solite.ControlFlow

variable {array : CalyndaRtWord → List CalyndaRtWord} {σ τ υ : State} {waiting but : List Nat}
  {n : Nat}

/-- `for_remove_all` over the children that are there. -/
def State.removeAll (σ : State) (w : Nat) (els : List Nat) : State :=
  els.foldl (fun σ el => σ.soliteBridgeWindowRemove w el) σ

theorem removeAll_spec (els : List Nat) (h : Booked σ)
    (hOwned : σ.owned n = els.map (Prod.mk (σ.node n).parent)) :
    Frame σ (σ.removeAll (σ.node n).parent els) n ∧
      (σ.removeAll (σ.node n).parent els).owned n = [] ∧
      (σ.removeAll (σ.node n).parent els).node = σ.node ∧
      (σ.removeAll (σ.node n).parent els).observerStack = σ.observerStack ∧
      (σ.removeAll (σ.node n).parent els).clean = σ.clean := by
  induction els generalizing σ with
  | nil => exact ⟨Frame.refl h n, hOwned, rfl, rfl, rfl⟩
  | cons el els ih =>
    have hMem : ((σ.node n).parent, el) ∈ σ.owned n := by
      rw [hOwned]
      exact List.mem_map_of_mem List.mem_cons_self
    obtain ⟨hFrame, hErase⟩ := frame_remove h hMem
    rw [hOwned, List.map_cons, List.erase_cons_head] at hErase
    obtain ⟨hRest, hNone, hNode, hStack, hClean⟩ :=
      ih (σ := σ.soliteBridgeWindowRemove (σ.node n).parent el) hFrame.booked hErase
    exact ⟨hFrame.trans hRest, hNone, hNode, hStack, hClean⟩

theorem foldl_remove (node : Node) (indices : List Nat) (h : σ.node n = node) :
    indices.foldl (fun σ i => σ.removeCurrent n i) σ =
      σ.removeAll node.parent ((indices.map node.current).filterMap id) := by
  induction indices generalizing σ with
  | nil => rfl
  | cons i indices ih =>
    rw [List.foldl_cons, List.map_cons, State.removeCurrent]
    subst h
    cases hCurrent : (σ.node n).current i with
    | none =>
      rw [List.filterMap_cons_none rfl]
      exact ih rfl
    | some el =>
      exact ih (σ := σ.soliteBridgeWindowRemove (σ.node n).parent el) rfl

theorem forRemoveAll_spec (h : Booked σ) (hFor : (σ.node n).isFor = true)
    (hKept : (σ.node n).Kept false) (hOwned : σ.owned n = (σ.node n).placed) :
    Frame σ (σ.forRemoveAll n) n ∧ (σ.forRemoveAll n).owned n = [] ∧
      (σ.forRemoveAll n).node n = { σ.node n with childCount := 0, rendered := [] } ∧
      (σ.forRemoveAll n).observerStack = σ.observerStack ∧
      (σ.forRemoveAll n).clean = σ.clean := by
  have hEls : ((List.range (σ.node n).childCount).map (σ.node n).current).filterMap id =
      (σ.node n).rendered.filterMap Prod.snd := by
    rw [hKept.forCount hFor, if_neg Bool.false_ne_true, hKept.forCurrent hFor, List.filterMap_map]
    rfl
  rw [State.forRemoveAll, foldl_remove (σ.node n) _ rfl, hEls]
  obtain ⟨hFrame, hNone, hNode, hStack, hClean⟩ := removeAll_spec _ h hOwned
  refine ⟨hFrame.trans (Frame.setNode _ hFrame.booked rfl rfl rfl rfl), ?_, ?_, hStack, hClean⟩
  · refine Eq.trans ?_ hNone
    rw [State.owned, State.owned, State.setNode_self]
    rfl
  · rw [State.setNode_self, hNode]

/-- The child of a `Show` is removed, if there is one. -/
theorem removeChild_spec (h : Booked σ) (hFor : (σ.node n).isFor = false)
    (hKept : (σ.node n).Kept false) (hOwned : σ.owned n = (σ.node n).placed) :
    Frame σ (σ.removeChild n) n ∧ (σ.removeChild n).owned n = [] ∧
      ((σ.removeChild n).node n).rendered = [] ∧ ((σ.removeChild n).node n).current 0 = none ∧
      ((σ.removeChild n).node n).disposed = (σ.node n).disposed ∧
      ((σ.removeChild n).node n).seen = (σ.node n).seen ∧
      (σ.removeChild n).observerStack = σ.observerStack ∧
      (σ.removeChild n).clean = σ.clean := by
  have hRecord : (σ.node n).rendered = [] ∧ (σ.node n).current 0 = none ∨
      ∃ item child, (σ.node n).rendered = [(item, child)] ∧ (σ.node n).current 0 = child :=
    (hKept.showCurrent hFor).imp_right And.right
  rw [Node.placed] at hOwned
  cases hCurrent : (σ.node n).current 0 with
  | none =>
    have hOwned : σ.owned n = [] := by
      obtain ⟨hRendered, -⟩ | ⟨item, child, hRendered, hChild⟩ := hRecord
      · rw [hOwned, hRendered]
        rfl
      · rw [hOwned, hRendered, ← hChild, hCurrent]
        rfl
    have hEq : σ.removeChild n = σ.setNode n { σ.node n with rendered := [] } := by
      rw [State.removeChild, hCurrent]
    rw [hEq, State.setNode_self]
    refine ⟨Frame.setNode _ h rfl rfl rfl rfl, ?_, rfl, hCurrent, rfl, rfl, rfl, rfl⟩
    refine Eq.trans ?_ hOwned
    rw [State.owned, State.owned, State.setNode_self]
    rfl
  | some el =>
    obtain ⟨-, hNone⟩ | ⟨item, child, hRendered, hChild⟩ := hRecord
    · exact absurd (hCurrent.symm.trans hNone) (fun h => by cases h)
    · rw [hRendered, ← hChild, hCurrent] at hOwned
      have hOwned : σ.owned n = [((σ.node n).parent, el)] := hOwned
      have hMem : ((σ.node n).parent, el) ∈ σ.owned n := by simp [hOwned]
      obtain ⟨hFrame, hErase⟩ := frame_remove h hMem
      have hEq : σ.removeChild n =
          (σ.soliteBridgeWindowRemove (σ.node n).parent el).setNode n
            { σ.node n with
              current := Function.update (σ.node n).current 0 none, rendered := [] } := by
        rw [State.removeChild, hCurrent]
        rfl
      rw [hEq, State.setNode_self]
      refine ⟨hFrame.trans (Frame.setNode _ hFrame.booked rfl rfl rfl rfl), ?_, rfl,
        by simp, rfl, rfl, rfl, rfl⟩
      rw [hOwned, List.erase_cons_head] at hErase
      refine Eq.trans ?_ hErase
      rw [State.owned, State.owned, State.setNode_self]
      rfl

theorem Frame.newElement (h : Booked σ) (n : Nat) :
    Frame σ (σ.newElement n true).1 n ∧ (σ.newElement n true).1.owned n = σ.owned n := by
  have hSame : ∀ p ∈ σ.children,
      Function.update σ.renderedBy σ.elementCount n p.2 = σ.renderedBy p.2 := fun p hp =>
    Function.update_of_ne (Nat.ne_of_lt (h.children p hp).1) ..
  have hOwned : ∀ m, (σ.newElement n true).1.owned m = σ.owned m := fun m =>
    List.filter_congr fun p hp => by
      rw [decide_eq_decide]
      exact and_congr_right fun _ => by rw [← hSame p hp]; rfl
  refine ⟨{ Frame.refl h n with owned := fun m _ => hOwned m, booked := ?_ }, hOwned n⟩
  exact {
    children := fun p hp => by
      obtain ⟨hElement, hCount, hAt⟩ := h.children p hp
      rw [State.newElement, if_pos rfl]
      simp only [hSame p hp]
      exact ⟨Nat.lt_succ_of_lt hElement, hCount, hAt⟩
    logged := h.logged
    nodup := h.nodup
    appended := fun el hel => Nat.lt_succ_of_lt (h.appended el hel) }

/-- A child of a node is appended. -/
theorem frame_append {el : Nat} (h : Booked σ) (hElement : el < σ.elementCount)
    (hNew : el ∉ σ.appended) (hOwner : σ.renderedBy el = n) (hNode : n < σ.nodeCount) :
    Frame σ (σ.soliteBridgeWindowAppend (σ.node n).parent el) n ∧
      (σ.soliteBridgeWindowAppend (σ.node n).parent el).owned n =
        σ.owned n ++ [((σ.node n).parent, el)] := by
  refine ⟨{ Frame.refl h n with owned := fun m hm => ?_, booked := ?_ }, ?_⟩
  · refine (List.filter_append ..).trans ?_
    rw [List.filter_cons_of_neg, List.filter_nil, List.append_nil]
    · rfl
    · simp only [decide_eq_true_eq, not_and]
      exact fun _ hBy => hm (hBy.symm.trans hOwner)
  · exact {
      children := fun p hp => by
        obtain hp | hp := List.mem_append.mp hp
        · exact h.children p hp
        · rw [List.mem_singleton.mp hp]
          exact ⟨hElement, by rw [← hOwner] at hNode; exact hNode, by rw [← hOwner]; rfl⟩
      logged := by
        rw [State.soliteBridgeWindowAppend, List.map_append, ← List.append_assoc]
        exact h.logged.append_right _
      nodup := List.nodup_append.mpr ⟨h.nodup, List.nodup_singleton el, fun a ha b hb hEq =>
        hNew (List.mem_singleton.mp hb ▸ hEq ▸ ha)⟩
      appended := fun a ha => by
        obtain ha | ha := List.mem_append.mp ha
        · exact h.appended a ha
        · exact List.mem_singleton.mp ha ▸ hElement }
  · refine (List.filter_append ..).trans ?_
    rw [List.filter_cons_of_pos, List.filter_nil]
    · rfl
    · simp only [decide_eq_true_eq]
      exact ⟨rfl, hOwner⟩

/-- What the node is when the result of its callback has been put in. -/
def Node.put (node : Node) (i : Nat) (item : CalyndaRtWord) (child : Option Nat) : Node :=
  { node with
    current := Function.update node.current i child
    rendered := node.rendered ++ [(item, child)] }

theorem Node.placed_put (node : Node) (i : Nat) (item : CalyndaRtWord) (child : Option Nat) :
    (node.put i item child).placed = node.placed ++ child.toList.map (Prod.mk node.parent) := by
  cases child with
  | none => simp [Node.placed, Node.put]
  | some el => simp [Node.placed, Node.put]

theorem owned_setNode (σ : State) (n : Nat) (node : Node) (h : node.parent = (σ.node n).parent) :
    (σ.setNode n node).owned n = σ.owned n := by
  rw [State.owned, State.owned, State.setNode_self, h]
  rfl

theorem placeChild_spec (h : Booked σ) (hNode : n < σ.nodeCount) (i : Nat) (item : CalyndaRtWord)
    (made : Bool) :
    ∃ child, Frame σ (σ.placeChild n i item made) n ∧
      (σ.placeChild n i item made).owned n =
        σ.owned n ++ child.toList.map (Prod.mk (σ.node n).parent) ∧
      (σ.placeChild n i item made).node n = (σ.node n).put i item child ∧
      (σ.placeChild n i item made).observerStack = σ.observerStack ∧
      (σ.placeChild n i item made).clean = σ.clean := by
  cases made with
  | false =>
    refine ⟨none, Frame.setNode ((σ.node n).put i item none) h rfl rfl rfl rfl, ?_,
      State.setNode_self .., rfl, rfl⟩
    exact (owned_setNode σ n ((σ.node n).put i item none) rfl).trans (List.append_nil _).symm
  | true =>
    obtain ⟨hFrame, hOwned⟩ := Frame.newElement h n
    have hPut := Frame.setNode (n := n)
      (((σ.newElement n true).1.node n).put i item (some σ.elementCount)) hFrame.booked
      rfl rfl rfl rfl
    obtain ⟨hAppend, hLast⟩ := frame_append (n := n) hPut.booked
      (Nat.lt_succ_self σ.elementCount) (fun hMem => Nat.lt_irrefl _ (h.appended _ hMem))
      (Function.update_self ..) hNode
    rw [State.setNode_self] at hAppend hLast
    refine ⟨some σ.elementCount, hFrame.trans (hPut.trans hAppend), ?_, ?_, rfl, rfl⟩
    · refine hLast.trans ?_
      rw [owned_setNode (σ.newElement n true).1 n
        (((σ.newElement n true).1.node n).put i item (some σ.elementCount)) rfl, hOwned]
      rfl
    · exact State.setNode_self ..

/-! ### Effects -/

theorem clean_signalGet (σ : State) (s : Nat) : (σ.soliteSignalGet s).clean = σ.clean := by
  obtain ⟨subscribers, hEq, -⟩ := signalGet_eq σ s
  rw [hEq]

theorem clean_startEffect (σ : State) (n : Nat) : (σ.startEffect n).clean =
    (σ.clean && decide (n ∉ σ.observerStack ∧ σ.observerStack.length < solidObserverStackMax)) := by
  rw [State.startEffect]
  dsimp only [State.setNode]
  rw [clean_signalGet]
  split <;> rfl

theorem startEffect_spec (h : Booked σ) (hClean : (σ.startEffect n).clean = true) :
    σ.clean = true ∧ n ∉ σ.observerStack ∧ Frame σ (σ.startEffect n) n ∧
      (σ.startEffect n).observerStack = n :: σ.observerStack ∧
      (σ.startEffect n).node n = { σ.node n with seen := σ.value (σ.node n).signal } ∧
      n ∈ (σ.startEffect n).subscribers (σ.node n).signal ∧
      (σ.startEffect n).owned n = σ.owned n := by
  rw [clean_startEffect, Bool.and_eq_true_iff] at hClean
  obtain ⟨hOut, hRoom⟩ := of_decide_eq_true hClean.2
  have hCheck : σ.check (decide (n ∉ σ.observerStack ∧
      σ.observerStack.length < solidObserverStackMax)) = σ := by
    rw [hClean.2, State.check, Bool.and_true]
  rw [State.startEffect, hCheck, if_pos hRoom]
  let pushed : State := { σ with observerStack := n :: σ.observerStack }
  have hGet : pushed.soliteSignalGet (σ.node n).signal =
      pushed.signalSubscribe (σ.node n).signal n := rfl
  obtain ⟨subscribers, hEq, hMem⟩ := signalGet_eq pushed (σ.node n).signal
  have hSubscribed : n ∈ subscribers (σ.node n).signal := by
    have hIn := mem_subscribe pushed (σ.node n).signal n
    rwa [← hGet, hEq] at hIn
  have hPush := Frame.restack (n := n) (n :: σ.observerStack) h
    (fun m hm => by simp [hm]) fun hNodup => List.nodup_cons.mpr ⟨hOut, hNodup⟩
  have hRead : Frame pushed { pushed with subscribers } n :=
    { Frame.refl hPush.booked n with subscribers := hMem, booked := { hPush.booked with } }
  have hSeen := Frame.setNode (n := n) { σ.node n with seen := σ.value (σ.node n).signal }
    hRead.booked rfl rfl rfl rfl
  show σ.clean = true ∧ n ∉ σ.observerStack ∧
    Frame σ ((pushed.soliteSignalGet (σ.node n).signal).setNode n
      { (pushed.soliteSignalGet (σ.node n).signal).node n with
        seen := (pushed.soliteSignalGet (σ.node n).signal).value
          ((pushed.soliteSignalGet (σ.node n).signal).node n).signal }) n ∧ _
  rw [hEq]
  exact ⟨hClean.1, hOut, hPush.trans (hRead.trans hSeen), rfl, State.setNode_self ..,
    hSubscribed, owned_setNode _ _ _ rfl⟩

/-! ### Nodes -/

theorem Inv.create (h : Inv array σ waiting []) (isFor : Bool) (parent signal : Nat)
    (render : Nat → CalyndaRtWord → Nat → Code) :
    Inv array (σ.createNode isFor parent signal render) waiting [σ.nodeCount] := by
  have hOther : ∀ m, m ≠ σ.nodeCount →
      (σ.createNode isFor parent signal render).node m = σ.node m :=
    fun m hm => State.setNode_of_ne hm _
  have hNew : (σ.createNode isFor parent signal render).node σ.nodeCount =
      { isFor, parent, signal, render } := State.setNode_self ..
  have hOlder : ∀ {m}, (σ.createNode isFor parent signal render).Alive m → m ≠ σ.nodeCount →
      σ.Alive m := fun {m} hm hNe =>
    ⟨Nat.lt_of_le_of_ne (Nat.le_of_lt_succ hm.1) hNe, hOther m hNe ▸ hm.2⟩
  have hOwned : ∀ m, m ≠ σ.nodeCount →
      (σ.createNode isFor parent signal render).owned m = σ.owned m := fun m hm => by
    rw [State.owned, State.owned, hOther m hm]
    rfl
  have hNone : (σ.createNode isFor parent signal render).owned σ.nodeCount = [] :=
    List.filter_eq_nil_iff.mpr fun p hp hBy =>
      Nat.ne_of_lt (h.booked.children p hp).2.1 (of_decide_eq_true hBy).2
  exact {
    observers := fun m hm => by
      obtain ⟨hLt, hAlive⟩ := h.observers m hm
      exact ⟨Nat.lt_succ_of_lt hLt, (congrArg Node.disposed (hOther m (Nat.ne_of_lt hLt))).trans
        hAlive⟩
    fresh := fun m hm => by
      by_cases hEq : m = σ.nodeCount
      · rw [hEq]
        exact Nat.lt_succ_self _
      · exact Nat.lt_succ_of_lt (h.fresh m (hOther m hEq ▸ hm))
    nodup := h.nodup
    pending := fun m hm => by
      by_cases hEq : m = σ.nodeCount
      · rw [hEq, hNew] at hm
        exact absurd hm Bool.false_ne_true
      · exact h.pending m (hOther m hEq ▸ hm)
    nodes := fun m hm hNot => by
      have hEq : m ≠ σ.nodeCount := by simpa using hNot
      obtain ⟨hSubscribed, hUpToDate, hKept, hMirrors⟩ :=
        h.nodes m (hOlder hm hEq) List.not_mem_nil
      rw [← hOther m hEq] at hSubscribed hUpToDate hKept hMirrors
      exact ⟨hSubscribed, hUpToDate, hKept, hMirrors⟩
    owned := fun m hm => by
      by_cases hEq : m = σ.nodeCount
      · rw [hEq, hNone, hNew]
        rfl
      · rw [hOwned m hEq, hOther m hEq]
        exact h.owned m (hOlder hm hEq)
    dead := fun m hm hDead => by
      by_cases hEq : m = σ.nodeCount
      · rw [hEq, hNone]
      · rw [hOwned m hEq]
        exact h.dead m (Nat.lt_of_le_of_ne (Nat.le_of_lt_succ hm) hEq) (hOther m hEq ▸ hDead)
    booked := {
      children := fun p hp => by
        obtain ⟨hElement, hCount, hAt⟩ := h.booked.children p hp
        exact ⟨hElement, Nat.lt_succ_of_lt hCount,
          hAt.trans (congrArg Node.parent (hOther _ (Nat.ne_of_lt hCount))).symm⟩
      logged := h.booked.logged
      nodup := h.booked.nodup
      appended := h.booked.appended } }

/-- A node that has rendered nothing has its record in order. -/
theorem Node.kept_of_new {node : Node} (hRendered : node.rendered = [])
    (hCount : node.childCount = 0) (hCurrent : node.current 0 = none) (running : Bool) :
    node.Kept running where
  forCurrent _ := by
    rw [hRendered]
    rfl
  forCount _ := by
    rw [hRendered, hCount]
    exact (ite_self 0).symm
  showCurrent _ := .inl ⟨hRendered, hCurrent⟩

theorem Frame.keeps (h : Frame σ τ n) (hStack : τ.observerStack = σ.observerStack)
    (hNode : n ∈ σ.observerStack → n ∈ but) : Keeps σ τ but where
  observers := hStack
  count := Nat.le_of_eq h.count.symm
  fixed m _ := by
    by_cases hEq : m = n
    · rw [hEq]
      exact ⟨h.isFor, h.parent, h.signal⟩
    · rw [h.node m hEq]
      exact ⟨rfl, rfl, rfl⟩
  running m hm hBut := by
    rw [h.node m fun hEq => hBut (hEq ▸ hNode (hEq ▸ hm))]
    exact ⟨rfl, rfl⟩

theorem disposeNode_eq (σ : State) (n : Nat) : ∃ ok : Bool,
    (ok = true → σ.Alive n ∧ n ∉ σ.observerStack) ∧
    σ.disposeNode n =
      if (σ.node n).isFor then
        ((σ.check ok).setNode n { σ.node n with disposed := true }).forRemoveAll n
      else ((σ.check ok).setNode n { σ.node n with disposed := true }).removeChild n := by
  refine ⟨_, fun hOk => ?_, by rw [State.disposeNode]; dsimp only; rw [State.setNode_self]⟩
  obtain ⟨hLt, hAlive, hOut⟩ := of_decide_eq_true hOk
  exact ⟨⟨hLt, hAlive⟩, hOut⟩

theorem clean_forRemoveAll (σ : State) (n : Nat) : (σ.forRemoveAll n).clean = σ.clean := by
  rw [State.forRemoveAll, foldl_remove (σ.node n) _ rfl]
  dsimp only [State.setNode]
  rw [State.removeAll]
  generalize ((List.range (σ.node n).childCount).map (σ.node n).current).filterMap id = els
  induction els generalizing σ with
  | nil => rfl
  | cons el els ih => exact ih (σ.soliteBridgeWindowRemove (σ.node n).parent el)

theorem clean_removeChild (σ : State) (n : Nat) : (σ.removeChild n).clean = σ.clean := by
  rw [State.removeChild]
  split <;> rfl

theorem clean_placeChild (σ : State) (n i : Nat) (item : CalyndaRtWord) (made : Bool) :
    (σ.placeChild n i item made).clean = σ.clean := by
  cases made <;> rfl

theorem clean_disposeNode (h : (σ.disposeNode n).clean = true) :
    σ.clean = true ∧ σ.Alive n ∧ n ∉ σ.observerStack := by
  obtain ⟨ok, hOk, hEq⟩ := disposeNode_eq σ n
  have hCheck : (σ.check ok).clean = true := by
    rw [hEq] at h
    split at h
    · rwa [clean_forRemoveAll] at h
    · rwa [clean_removeChild] at h
  obtain ⟨hClean, hTrue⟩ := Bool.and_eq_true_iff.mp hCheck
  exact ⟨hClean, hOk hTrue⟩

/-- A node is disposed with all its children. -/
theorem Inv.dispose (h : Inv array σ waiting []) (hClean : (σ.disposeNode n).clean = true) :
    Inv array (σ.disposeNode n) waiting [] ∧ Keeps σ (σ.disposeNode n) [] := by
  obtain ⟨hBefore, hAlive, hOut⟩ := clean_disposeNode hClean
  obtain ⟨ok, -, hEq⟩ := disposeNode_eq σ n
  have hKept := (h.nodes n hAlive List.not_mem_nil).kept
  rw [decide_eq_false hOut] at hKept
  let marked : State := (σ.check ok).setNode n { σ.node n with disposed := true }
  have hMarked : marked.node n = { σ.node n with disposed := true } := State.setNode_self ..
  have hMark : Frame σ marked n := by
    have hCheck : Frame σ (σ.check ok) n :=
      { Frame.refl h.booked n with booked := { h.booked with } }
    exact hCheck.trans (Frame.setNode _ hCheck.booked rfl rfl rfl rfl)
  have hMarkKept : (marked.node n).Kept false := by
    rw [hMarked]
    exact { hKept with }
  have hMarkOwned : marked.owned n = (marked.node n).placed := by
    rw [hMarked]
    exact (owned_setNode (σ.check ok) n { σ.node n with disposed := true } rfl).trans
      (h.owned n hAlive)
  have hEnd : Frame σ (σ.disposeNode n) n ∧ ((σ.disposeNode n).node n).disposed = true ∧
      (σ.disposeNode n).owned n = [] ∧
      (σ.disposeNode n).observerStack = σ.observerStack := by
    rw [hEq]
    split
    · next hFor =>
      obtain ⟨hFrame, hNone, hNode, hStack, -⟩ :=
        forRemoveAll_spec hMark.booked (hMark.isFor.trans hFor) hMarkKept hMarkOwned
      exact ⟨hMark.trans hFrame, by rw [hNode, hMarked], hNone, hStack⟩
    · next hFor =>
      obtain ⟨hFrame, hNone, -, -, hNode, -, hStack, -⟩ :=
        removeChild_spec hMark.booked (hMark.isFor.trans (eq_false_of_ne_true hFor))
          hMarkKept hMarkOwned
      exact ⟨hMark.trans hFrame, by rw [hNode, hMarked], hNone, hStack⟩
  obtain ⟨hFrame, hDead, hNone, hStack⟩ := hEnd
  refine ⟨(((h.weaken [n]).frame hFrame (.inr ⟨hDead, hNone, hStack ▸ hOut⟩)).of_dead ?_),
    hFrame.keeps hStack fun hIn => absurd hIn hOut⟩
  exact fun hAlive => absurd hAlive.2 (by simp [hDead])

end Calynda.Solite.ControlFlow
