import Calynda.Solite.Runtime

/-!
# Show and For

The nodes `SoliteShow` and `SoliteFor` put the elements that their callbacks render into a window.
Their effects run when a signal changes, at once or at the end of a batch. A callback may read and
set signals, open and close batches, and create and dispose nodes, so that effects run inside of
effects.
-/

namespace Calynda.Solite.ControlFlow

/-! ## Programs -/

/-- What is left to do of a callback or of the program at top level. A render callback ends with an
element or with none, and may do something else each time it is called. -/
inductive Code where
  | done (element : Bool)
  | signalGet (s : Nat) (k : CalyndaRtWord → Code)
  | signalSet (s : Nat) (v : CalyndaRtWord) (k : Code)
  | batchStart (k : Code)
  | batchEnd (k : Code)
  | create (isFor : Bool) (parent signal : Nat) (render : Nat → CalyndaRtWord → Nat → Code)
      (k : Nat → Code)
  | dispose (n : Nat) (k : Code)

/-! ## The state -/

/-- A node with its tracking effect. What it read last, what it has rendered since, with the items,
and how often its callback was called is not part of the code's record. -/
structure Node where
  isFor : Bool := false
  parent : Nat := 0
  signal : Nat := 0
  render : Nat → CalyndaRtWord → Nat → Code := fun _ _ _ => .done false
  /-- `current_children`, or `current_child` as the first one. -/
  current : Nat → Option Nat := fun _ => none
  childCount : Nat := 0
  pending : Bool := false
  disposed : Bool := false
  seen : CalyndaRtWord := 0
  rendered : List (CalyndaRtWord × Option Nat) := []
  calls : Nat := 0

/-- The state of the runtime. The children of all windows are in one list, each with its window.
The node that rendered an element, the appends and the removals are kept for the statements, and
`clean` is lost in a step that finds no room, starts an effect that is running already, or disposes
a node that is not alive or whose effect is running. -/
structure State where
  value : Nat → CalyndaRtWord := fun _ => 0
  subscribers : Nat → List Nat := fun _ => []
  node : Nat → Node := fun _ => { disposed := true }
  nodeCount : Nat := 0
  pendingQueue : List Nat := []
  batchDepth : Nat := 0
  observerStack : List Nat := []
  children : List (Nat × Nat) := []
  elementCount : Nat := 0
  renderedBy : Nat → Nat := fun _ => 0
  appended : List Nat := []
  removed : List Nat := []
  clean : Bool := true

namespace State

variable (σ : State)

def setNode (n : Nat) (node : Node) : State := { σ with node := Function.update σ.node n node }

def check (ok : Bool) : State := { σ with clean := σ.clean && ok }

/-! ### The bridge -/

def soliteBridgeWindowAppend (w el : Nat) : State :=
  { σ with children := σ.children ++ [(w, el)], appended := σ.appended ++ [el] }

def soliteBridgeWindowRemove (w el : Nat) : State :=
  { σ with children := σ.children.erase (w, el), removed := σ.removed ++ [el] }

/-! ### Scheduling -/

def soliteEffectSchedule (n : Nat) : State :=
  if (σ.node n).disposed ∨ (σ.node n).pending then σ
  else if σ.pendingQueue.length < solidPendingMax then
    { σ.setNode n { σ.node n with pending := true } with pendingQueue := σ.pendingQueue ++ [n] }
  else σ.check false

/-- A signal gets another value, and its subscribers are scheduled. -/
def change (s : Nat) (v : CalyndaRtWord) : State :=
  (σ.subscribers s).foldl soliteEffectSchedule
    { σ with value := Function.update σ.value s v }

def signalSubscribe (s n : Nat) : State :=
  if n ∈ σ.subscribers s then σ
  else { σ with subscribers := Function.update σ.subscribers s (σ.subscribers s ++ [n]) }

def soliteSignalGet (s : Nat) : State :=
  match σ.observerStack.head? with
  | some n => σ.signalSubscribe s n
  | none => σ

/-! ### Nodes -/

def removeCurrent (n i : Nat) : State :=
  match (σ.node n).current i with
  | some el => σ.soliteBridgeWindowRemove (σ.node n).parent el
  | none => σ

/-- `for_remove_all`. -/
def forRemoveAll (n : Nat) : State :=
  let removed := (List.range (σ.node n).childCount).foldl (fun σ i => σ.removeCurrent n i) σ
  removed.setNode n { removed.node n with childCount := 0, rendered := [] }

/-- A new element, if the callback gives one. -/
def newElement (n : Nat) (made : Bool) : State × Option Nat :=
  if made then
    ({ σ with
        elementCount := σ.elementCount + 1
        renderedBy := Function.update σ.renderedBy σ.elementCount n }, some σ.elementCount)
  else (σ, none)

/-- The result of the callback is put into the node and its window. -/
def placeChild (n i : Nat) (item : CalyndaRtWord) (made : Bool) : State :=
  let (σ, child) := σ.newElement n made
  let node := σ.node n
  let placed := σ.setNode n { node with
    current := Function.update node.current i child
    rendered := node.rendered ++ [(item, child)] }
  match child with
  | some el => placed.soliteBridgeWindowAppend node.parent el
  | none => placed

/-- The child of a `Show` is removed. -/
def removeChild (n : Nat) : State :=
  match (σ.node n).current 0 with
  | some el =>
    let removed := σ.soliteBridgeWindowRemove (σ.node n).parent el
    removed.setNode n { removed.node n with
      current := Function.update (removed.node n).current 0 none, rendered := [] }
  | none => σ.setNode n { σ.node n with rendered := [] }

/-- `solite_show_dispose` and `solite_for_dispose`. -/
def disposeNode (n : Nat) : State :=
  let ok := n < σ.nodeCount ∧ (σ.node n).disposed = false ∧ n ∉ σ.observerStack
  let σ := (σ.check (decide ok)).setNode n { σ.node n with disposed := true }
  if (σ.node n).isFor then σ.forRemoveAll n else σ.removeChild n

def createNode (isFor : Bool) (parent signal : Nat)
    (render : Nat → CalyndaRtWord → Nat → Code) : State :=
  { σ.setNode σ.nodeCount { isFor, parent, signal, render } with nodeCount := σ.nodeCount + 1 }

end State

namespace State

@[simp] theorem setNode_self (σ : State) (n : Nat) (node : Node) :
    (σ.setNode n node).node n = node := by
  simp [setNode]

@[simp] theorem setNode_of_ne {σ : State} {n m : Nat} (h : m ≠ n) (node : Node) :
    (σ.setNode n node).node m = σ.node m := by
  simp [setNode, h]

end State

/-! ## Running -/

/-- What is to be run: code, `solite_effect_flush_pending` with its two loops, the effect of a node,
and the loop of a `For` over the items that are left. -/
inductive Task where
  | code (c : Code)
  | flush
  | loop
  | drain (snapshot : List Nat)
  | effect (n : Nat)
  | items (n i : Nat) (items : List CalyndaRtWord)

section Run

variable (array : CalyndaRtWord → List CalyndaRtWord)

/-- The callback of a node is called. -/
def State.call (σ : State) (n : Nat) : State :=
  σ.setNode n { σ.node n with calls := (σ.node n).calls + 1 }

/-- The start of an effect: it is pushed, and reads the signal of its node. -/
def State.startEffect (σ : State) (n : Nat) : State :=
  let σ := σ.check (decide (n ∉ σ.observerStack ∧ σ.observerStack.length < solidObserverStackMax))
  let σ := if σ.observerStack.length < solidObserverStackMax then
    { σ with observerStack := n :: σ.observerStack } else σ
  let σ := σ.soliteSignalGet (σ.node n).signal
  σ.setNode n { σ.node n with seen := σ.value (σ.node n).signal }

def State.pop (σ : State) : State := { σ with observerStack := σ.observerStack.tail }

/-- The result of a run, with whether it ends with an element; none where the fuel is used up. -/
def run : Nat → Task → State → Option (Bool × State)
  | 0, _, _ => none
  | _ + 1, .code (.done element), σ => some (element, σ)
  | fuel + 1, .code (.signalGet s k), σ => run fuel (.code (k (σ.value s))) (σ.soliteSignalGet s)
  | fuel + 1, .code (.signalSet s v k), σ =>
    if σ.value s = v then run fuel (.code k) σ
    else do
      let (_, σ) ← run fuel .flush (σ.change s v)
      run fuel (.code k) σ
  | fuel + 1, .code (.batchStart k), σ =>
    run fuel (.code k) { σ with batchDepth := σ.batchDepth + 1 }
  | fuel + 1, .code (.batchEnd k), σ => do
    let (_, σ) ← run fuel .flush { σ with batchDepth := σ.batchDepth - 1 }
    run fuel (.code k) σ
  | fuel + 1, .code (.create isFor parent signal render k), σ => do
    let (_, τ) ← run fuel (.effect σ.nodeCount) (σ.createNode isFor parent signal render)
    run fuel (.code (k σ.nodeCount)) τ
  | fuel + 1, .code (.dispose n k), σ => run fuel (.code k) (σ.disposeNode n)
  | fuel + 1, .flush, σ => if σ.batchDepth > 0 then some (false, σ) else run fuel .loop σ
  | fuel + 1, .loop, σ =>
    if σ.pendingQueue = [] then some (false, σ)
    else do
      let (_, σ) ← run fuel (.drain σ.pendingQueue) { σ with pendingQueue := [] }
      run fuel .loop σ
  | _ + 1, .drain [], σ => some (false, σ)
  | fuel + 1, .drain (n :: rest), σ =>
    let σ := σ.setNode n { σ.node n with pending := false }
    if (σ.node n).disposed then run fuel (.drain rest) σ
    else do
      let (_, σ) ← run fuel (.effect n) σ
      run fuel (.drain rest) σ
  | fuel + 1, .effect n, σ =>
    let σ := σ.startEffect n
    let seen := (σ.node n).seen
    if (σ.node n).isFor then do
      let (_, σ) ← run fuel (.items n 0 (array seen)) (σ.forRemoveAll n)
      some (false, (σ.setNode n { σ.node n with childCount := (array seen).length }).pop)
    else if seen = 0 then some (false, (σ.removeChild n).pop)
    else if (σ.node n).current 0 = none then do
      let σ := σ.setNode n { σ.node n with rendered := [] }
      let (made, σ) ← run fuel (.code ((σ.node n).render (σ.node n).calls seen 0)) (σ.call n)
      some (false, (σ.placeChild n 0 seen made).pop)
    else some (false, σ.pop)
  | _ + 1, .items _ _ [], σ => some (false, σ)
  | fuel + 1, .items n i (item :: rest), σ => do
    let (made, σ) ← run fuel (.code ((σ.node n).render (σ.node n).calls item i)) (σ.call n)
    run fuel (.items n (i + 1) rest) (σ.placeChild n i item made)

/-- The ways in which a task ends, without the fuel. -/
inductive Runs : Task → State → Bool → State → Prop
  | done {σ : State} {element : Bool} : Runs (.code (.done element)) σ element σ
  | signalGet {σ τ : State} {s : Nat} {k : CalyndaRtWord → Code} {b : Bool} :
      Runs (.code (k (σ.value s))) (σ.soliteSignalGet s) b τ →
      Runs (.code (.signalGet s k)) σ b τ
  | signalSame {σ τ : State} {s : Nat} {v : CalyndaRtWord} {k : Code} {b : Bool} :
      σ.value s = v → Runs (.code k) σ b τ → Runs (.code (.signalSet s v k)) σ b τ
  | signalSet {σ τ υ : State} {s : Nat} {v : CalyndaRtWord} {k : Code} {b c : Bool} :
      Runs .flush (σ.change s v) c τ → Runs (.code k) τ b υ →
      Runs (.code (.signalSet s v k)) σ b υ
  | batchStart {σ τ : State} {k : Code} {b : Bool} :
      Runs (.code k) { σ with batchDepth := σ.batchDepth + 1 } b τ →
      Runs (.code (.batchStart k)) σ b τ
  | batchEnd {σ τ υ : State} {k : Code} {b c : Bool} :
      Runs .flush { σ with batchDepth := σ.batchDepth - 1 } c τ → Runs (.code k) τ b υ →
      Runs (.code (.batchEnd k)) σ b υ
  | create {σ τ υ : State} {isFor : Bool} {parent signal : Nat}
      {render : Nat → CalyndaRtWord → Nat → Code} {k : Nat → Code} {b c : Bool} :
      Runs (.effect σ.nodeCount) (σ.createNode isFor parent signal render) c τ →
      Runs (.code (k σ.nodeCount)) τ b υ → Runs (.code (.create isFor parent signal render k)) σ b υ
  | dispose {σ τ : State} {n : Nat} {k : Code} {b : Bool} :
      Runs (.code k) (σ.disposeNode n) b τ → Runs (.code (.dispose n k)) σ b τ
  | held {σ : State} : Runs .flush σ false σ
  | flushed {σ τ : State} {b : Bool} : Runs .loop σ b τ → Runs .flush σ b τ
  | empty {σ : State} : Runs .loop σ false σ
  | round {σ τ υ : State} {b c : Bool} :
      Runs (.drain σ.pendingQueue) { σ with pendingQueue := [] } c τ → Runs .loop τ b υ →
      Runs .loop σ b υ
  | drained {σ : State} : Runs (.drain []) σ false σ
  | skip {σ τ : State} {n : Nat} {rest : List Nat} {b : Bool} :
      (σ.node n).disposed = true →
      Runs (.drain rest) (σ.setNode n { σ.node n with pending := false }) b τ →
      Runs (.drain (n :: rest)) σ b τ
  | start {σ τ υ : State} {n : Nat} {rest : List Nat} {b c : Bool} :
      (σ.node n).disposed = false →
      Runs (.effect n) (σ.setNode n { σ.node n with pending := false }) c τ →
      Runs (.drain rest) τ b υ → Runs (.drain (n :: rest)) σ b υ
  | forEffect {σ τ : State} {n : Nat} {c : Bool} :
      ((σ.startEffect n).node n).isFor = true →
      Runs (.items n 0 (array ((σ.startEffect n).node n).seen))
        ((σ.startEffect n).forRemoveAll n) c τ →
      Runs (.effect n) σ false
        (τ.setNode n { τ.node n with
          childCount := (array ((σ.startEffect n).node n).seen).length }).pop
  | hide {σ : State} {n : Nat} :
      ((σ.startEffect n).node n).isFor = false → ((σ.startEffect n).node n).seen = 0 →
      Runs (.effect n) σ false ((σ.startEffect n).removeChild n).pop
  | render {σ τ : State} {n : Nat} {made : Bool} :
      ((σ.startEffect n).node n).isFor = false → ((σ.startEffect n).node n).seen ≠ 0 →
      ((σ.startEffect n).node n).current 0 = none →
      Runs (.code (((σ.startEffect n).node n).render ((σ.startEffect n).node n).calls
          ((σ.startEffect n).node n).seen 0))
        (((σ.startEffect n).setNode n
          { (σ.startEffect n).node n with rendered := [] }).call n) made τ →
      Runs (.effect n) σ false (τ.placeChild n 0 ((σ.startEffect n).node n).seen made).pop
  | keep {σ : State} {n : Nat} :
      ((σ.startEffect n).node n).isFor = false → ((σ.startEffect n).node n).seen ≠ 0 →
      ((σ.startEffect n).node n).current 0 ≠ none → Runs (.effect n) σ false (σ.startEffect n).pop
  | last {σ : State} {n i : Nat} : Runs (.items n i []) σ false σ
  | item {σ τ υ : State} {n i : Nat} {item : CalyndaRtWord} {rest : List CalyndaRtWord}
      {b made : Bool} :
      Runs (.code ((σ.node n).render (σ.node n).calls item i)) (σ.call n) made τ →
      Runs (.items n (i + 1) rest) (τ.placeChild n i item made) b υ →
      Runs (.items n i (item :: rest)) σ b υ

end Run

/-- A run with fuel is one of them. -/
theorem runs_of_run {array : CalyndaRtWord → List CalyndaRtWord} {fuel : Nat} {task : Task}
    {σ τ : State} {b : Bool} (h : run array fuel task σ = some (b, τ)) :
    Runs array task σ b τ := by
  induction fuel generalizing task σ τ b with
  | zero => exact nomatch h
  | succ fuel ih =>
    have bind {r : Option (Bool × State)} {f : Bool × State → Option (Bool × State)}
        (h : r.bind f = some (b, τ)) : ∃ c υ, r = some (c, υ) ∧ f (c, υ) = some (b, τ) := by
      obtain ⟨⟨c, υ⟩, hr, hf⟩ := Option.bind_eq_some_iff.mp h
      exact ⟨c, υ, hr, hf⟩
    match task with
    | .code (.done element) =>
      obtain ⟨rfl, rfl⟩ := Prod.mk.inj (Option.some.inj h)
      exact .done
    | .code (.signalGet s k) => exact .signalGet (ih h)
    | .code (.signalSet s v k) =>
      rw [run] at h
      split at h
      · exact .signalSame (by assumption) (ih h)
      · obtain ⟨c, υ, hFlush, hRest⟩ := bind h
        exact .signalSet (ih hFlush) (ih hRest)
    | .code (.batchStart k) => exact .batchStart (ih h)
    | .code (.batchEnd k) =>
      obtain ⟨c, υ, hFlush, hRest⟩ := bind h
      exact .batchEnd (ih hFlush) (ih hRest)
    | .code (.create isFor parent signal render k) =>
      obtain ⟨c, υ, hEffect, hRest⟩ := bind h
      exact .create (ih hEffect) (ih hRest)
    | .code (.dispose n k) => exact .dispose (ih h)
    | .flush =>
      rw [run] at h
      split at h
      · obtain ⟨rfl, rfl⟩ := Prod.mk.inj (Option.some.inj h)
        exact .held
      · exact .flushed (ih h)
    | .loop =>
      rw [run] at h
      split at h
      · obtain ⟨rfl, rfl⟩ := Prod.mk.inj (Option.some.inj h)
        exact .empty
      · obtain ⟨c, υ, hDrain, hRest⟩ := bind h
        exact .round (ih hDrain) (ih hRest)
    | .drain [] =>
      obtain ⟨rfl, rfl⟩ := Prod.mk.inj (Option.some.inj h)
      exact .drained
    | .drain (n :: rest) =>
      rw [run] at h
      simp only [State.setNode_self] at h
      split at h
      · exact .skip (by assumption) (ih h)
      · next hAlive =>
        obtain ⟨c, υ, hEffect, hRest⟩ := bind h
        exact .start (eq_false_of_ne_true hAlive) (ih hEffect) (ih hRest)
    | .effect n =>
      rw [run] at h
      split at h
      · obtain ⟨c, υ, hItems, hRest⟩ := bind h
        obtain ⟨rfl, rfl⟩ := Prod.mk.inj (Option.some.inj hRest)
        exact .forEffect (by assumption) (ih hItems)
      · next hShow =>
        have hFor := eq_false_of_ne_true hShow
        split at h
        · obtain ⟨rfl, rfl⟩ := Prod.mk.inj (Option.some.inj h)
          exact .hide hFor (by assumption)
        · split at h
          · obtain ⟨made, υ, hCode, hRest⟩ := bind h
            obtain ⟨rfl, rfl⟩ := Prod.mk.inj (Option.some.inj hRest)
            simp only [State.setNode_self] at hCode
            exact .render hFor (by assumption) (by assumption) (ih hCode)
          · obtain ⟨rfl, rfl⟩ := Prod.mk.inj (Option.some.inj h)
            exact .keep hFor (by assumption) (by assumption)
    | .items n i [] =>
      obtain ⟨rfl, rfl⟩ := Prod.mk.inj (Option.some.inj h)
      exact .last
    | .items n i (item :: rest) =>
      obtain ⟨made, υ, hCode, hRest⟩ := bind h
      exact .item (ih hCode) (ih hRest)


end Calynda.Solite.ControlFlow
