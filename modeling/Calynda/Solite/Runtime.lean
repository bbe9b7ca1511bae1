import Mathlib.Logic.Function.Basic
import Mathlib.Logic.Relation

/-!
# The reactive runtime

Signals, effects and memos, with the queue of pending effects and the stack of observers. A
call of the runtime may run callbacks, which call the runtime again: what the C stack holds
then is a list of frames, and a step of the machine is a step of its top frame.
-/

namespace Calynda.Solite

abbrev CalyndaRtWord := BitVec 32

/-- `SOLID_PENDING_MAX` and `SOLID_OBSERVER_STACK_MAX`. -/
def solidPendingMax : Nat := 256

def solidObserverStackMax : Nat := 64

/-! ## Programs -/

/-- The function of a memo, which reads signals and other memos. -/
inductive SoliteMemoFn where
  | value (v : CalyndaRtWord)
  | signalGet (s : Nat) (k : CalyndaRtWord → SoliteMemoFn)
  | memoGet (m : Nat) (k : CalyndaRtWord → SoliteMemoFn)

/-- What is left to do of a callback or of the program at top level: the calls of the runtime,
with the rest as a function of what a call returns. A callback may do something else in each of
its runs. -/
inductive Code where
  | done
  | createSignal (v : CalyndaRtWord) (k : Nat → Code)
  | signalGet (s : Nat) (k : CalyndaRtWord → Code)
  | signalSet (s : Nat) (v : CalyndaRtWord) (k : Code)
  | batchStart (k : Code)
  | batchEnd (k : Code)
  | createEffect (fn : Nat → Code) (k : Nat → Code)
  | disposeEffect (e : Nat) (k : Code)
  | createMemo (fn : SoliteMemoFn) (k : Nat → Code)
  | memoGet (m : Nat) (k : CalyndaRtWord → Code)
  | storeMemo (m : Nat) (v : CalyndaRtWord) (k : Code)

/-- `memo_recompute_cb`. -/
def memoRecomputeCb (m : Nat) : SoliteMemoFn → Code
  | .value v => .storeMemo m v .done
  | .signalGet s k => .signalGet s fun v => memoRecomputeCb m (k v)
  | .memoGet m' k => .memoGet m' fun v => memoRecomputeCb m (k v)

/-! ## The state -/

structure SoliteSignal where
  value : CalyndaRtWord := 0
  subscribers : List Nat := []

/-- An effect. How often it was started and what its last started run has read so far is not
part of the code's record. -/
structure SoliteEffect where
  fn : Nat → Code := fun _ => .done
  pending : Bool := false
  disposed : Bool := false
  runs : Nat := 0
  reads : List (Nat × CalyndaRtWord) := []
  memoReads : List (Nat × CalyndaRtWord) := []

namespace SoliteEffect

def setPending (eff : SoliteEffect) (pending : Bool) : SoliteEffect := { eff with pending := pending }

/-- A new run, which has read nothing yet. -/
def startRun (eff : SoliteEffect) : SoliteEffect :=
  { eff with runs := eff.runs + 1, reads := [], memoReads := [] }

def addReads (eff : SoliteEffect) (l : List (Nat × CalyndaRtWord)) : SoliteEffect :=
  { eff with reads := eff.reads ++ l }

def addMemoReads (eff : SoliteEffect) (l : List (Nat × CalyndaRtWord)) : SoliteEffect :=
  { eff with memoReads := eff.memoReads ++ l }

end SoliteEffect

structure SoliteMemo where
  fn : SoliteMemoFn := .value 0
  cachedValue : CalyndaRtWord := 0
  trackingEffect : Nat := 0

/-- An activation on the C stack: the program at top level or the run of an effect, and the
loops of `solite_effect_flush_pending` with what is left of their snapshot. -/
inductive Frame where
  | code (run : Option (Nat × Nat)) (rest : Code)
  | flush (snapshot : List Nat)

/-- The state of the runtime. Records are numbered in the order of their creation. -/
structure Runtime where
  signal : Nat → SoliteSignal := fun _ => {}
  signalCount : Nat := 0
  effect : Nat → SoliteEffect := fun _ => {}
  effectCount : Nat := 0
  memo : Nat → SoliteMemo := fun _ => {}
  memoCount : Nat := 0
  pendingQueue : List Nat := []
  batchDepth : Nat := 0
  observerStack : List Nat := []
  frames : List Frame := []

namespace Runtime

variable (σ : Runtime)

def setSignal (s : Nat) (sig : SoliteSignal) : Runtime :=
  { σ with signal := Function.update σ.signal s sig }

def setEffect (e : Nat) (eff : SoliteEffect) : Runtime :=
  { σ with effect := Function.update σ.effect e eff }

def setMemo (m : Nat) (memo : SoliteMemo) : Runtime :=
  { σ with memo := Function.update σ.memo m memo }

def push (f : Frame) : Runtime := { σ with frames := f :: σ.frames }

def withFrames (fs : List Frame) : Runtime := { σ with frames := fs }

/-! ## The observer stack -/

def solidObserverPush (e : Nat) : Runtime :=
  if σ.observerStack.length < solidObserverStackMax then
    { σ with observerStack := e :: σ.observerStack }
  else σ

def solidObserverPop : Runtime := { σ with observerStack := σ.observerStack.tail }

def solidObserverCurrent : Option Nat := σ.observerStack.head?

/-! ## Scheduling -/

def soliteEffectSchedule (e : Nat) : Runtime :=
  if (σ.effect e).disposed ∨ (σ.effect e).pending then σ
  else if σ.pendingQueue.length < solidPendingMax then
    { σ.setEffect e ((σ.effect e).setPending true) with
      pendingQueue := σ.pendingQueue ++ [e] }
  else σ

/-- The callback of an effect is a new frame. -/
def effectRun (e : Nat) : Runtime :=
  if (σ.effect e).disposed then σ
  else
    ((σ.setEffect e (σ.effect e).startRun).solidObserverPush e).push
      (.code (some (e, (σ.effect e).runs + 1)) ((σ.effect e).fn (σ.effect e).runs))

def soliteEffectFlushPending : Runtime :=
  if σ.batchDepth > 0 then σ else σ.push (.flush [])

/-- The loops of `solite_effect_flush_pending`: the next effect of the snapshot, or a new
snapshot of the queue. -/
def flushLoop (fs : List Frame) : List Nat → Runtime
  | [] =>
    if σ.pendingQueue = [] then σ.withFrames fs
    else { σ with pendingQueue := [], frames := .flush σ.pendingQueue :: fs }
  | e :: rest =>
    ((σ.setEffect e ((σ.effect e).setPending false)).withFrames (.flush rest :: fs)).effectRun e

def soliteBatchStart : Runtime := { σ with batchDepth := σ.batchDepth + 1 }

def soliteBatchEnd : Runtime :=
  let ended := { σ with batchDepth := σ.batchDepth - 1 }
  if ended.batchDepth = 0 then ended.soliteEffectFlushPending else ended

def soliteCreateEffect (fn : Nat → Code) : Runtime :=
  let e := σ.effectCount
  ({ σ.setEffect e { fn := fn } with effectCount := e + 1 }).effectRun e

def soliteEffectDispose (e : Nat) : Runtime :=
  if e < σ.effectCount then σ.setEffect e { σ.effect e with disposed := true } else σ

/-! ## Signals -/

def soliteCreateSignal (v : CalyndaRtWord) : Runtime :=
  { σ.setSignal σ.signalCount { value := v } with signalCount := σ.signalCount + 1 }

def signalSubscribe (s e : Nat) : Runtime :=
  let sig := σ.signal s
  if e ∈ sig.subscribers then σ
  else σ.setSignal s { sig with subscribers := sig.subscribers ++ [e] }

def soliteSignalGet (s : Nat) : Runtime × CalyndaRtWord :=
  if s < σ.signalCount then
    (match σ.solidObserverCurrent with
      | some e => σ.signalSubscribe s e
      | none => σ,
      (σ.signal s).value)
  else (σ, 0)

def soliteSignalSet (s : Nat) (v : CalyndaRtWord) : Runtime :=
  if s < σ.signalCount then
    if (σ.signal s).value = v then σ
    else
      let changed := σ.setSignal s { σ.signal s with value := v }
      ((σ.signal s).subscribers.foldl soliteEffectSchedule changed).soliteEffectFlushPending
  else σ

/-! ## Memos -/

/-- The memo has its tracking effect from the start: nothing looks at it in the first run. -/
def solidCreateMemo (fn : SoliteMemoFn) : Runtime :=
  let m := σ.memoCount
  ({ σ.setMemo m { fn := fn, trackingEffect := σ.effectCount } with
      memoCount := m + 1 }).soliteCreateEffect fun _ => memoRecomputeCb m fn

def soliteMemoGet (m : Nat) : CalyndaRtWord :=
  if m < σ.memoCount then (σ.memo m).cachedValue else 0

/-! ## The machine -/

/-- The read counts for the effect when it belongs to its last started run. -/
def noteRead (run : Option (Nat × Nat)) (s : Nat) (v : CalyndaRtWord) : Runtime :=
  match run with
  | none => σ
  | some (e, r) =>
    let eff := σ.effect e
    if r = eff.runs ∧ s < σ.signalCount then
      σ.setEffect e (eff.addReads [(s, v)])
    else σ

def noteMemoRead (run : Option (Nat × Nat)) (m : Nat) (v : CalyndaRtWord) : Runtime :=
  match run with
  | none => σ
  | some (e, r) =>
    let eff := σ.effect e
    if r = eff.runs ∧ m < σ.memoCount then
      σ.setEffect e (eff.addMemoReads [(m, v)])
    else σ

/-- A step of the code of the top frame; `fs` is the stack below. -/
def codeStep (run : Option (Nat × Nat)) (fs : List Frame) : Code → Runtime
  | .done =>
    match run with
    | none => σ
    | some _ => (σ.withFrames fs).solidObserverPop
  | .createSignal v k => (σ.withFrames (.code run (k σ.signalCount) :: fs)).soliteCreateSignal v
  | .signalGet s k =>
    let (τ, v) := σ.soliteSignalGet s
    (τ.noteRead run s v).withFrames (.code run (k v) :: fs)
  | .signalSet s v k => (σ.withFrames (.code run k :: fs)).soliteSignalSet s v
  | .batchStart k => (σ.withFrames (.code run k :: fs)).soliteBatchStart
  | .batchEnd k => (σ.withFrames (.code run k :: fs)).soliteBatchEnd
  | .createEffect fn k =>
    (σ.withFrames (.code run (k σ.effectCount) :: fs)).soliteCreateEffect fn
  | .disposeEffect e k => (σ.withFrames (.code run k :: fs)).soliteEffectDispose e
  | .createMemo fn k => (σ.withFrames (.code run (k σ.memoCount) :: fs)).solidCreateMemo fn
  | .memoGet m k =>
    let v := σ.soliteMemoGet m
    (σ.noteMemoRead run m v).withFrames (.code run (k v) :: fs)
  | .storeMemo m v k =>
    (σ.withFrames (.code run k :: fs)).setMemo m { σ.memo m with cachedValue := v }

def step : Runtime :=
  match σ.frames with
  | [] => σ
  | .code run rest :: fs => σ.codeStep run fs rest
  | .flush snapshot :: fs => σ.flushLoop fs snapshot

/-- The runtime with a program to run at top level. -/
def running (program : Code) : Runtime := { σ with frames := [.code none program] }

def start (program : Code) : Runtime := ({ } : Runtime).running program

/-- The runs all of whose steps start in a state with some property. -/
def Run (ok : Runtime → Prop) : Runtime → Runtime → Prop :=
  Relation.ReflTransGen fun σ τ => ok σ ∧ σ.step = τ

/-- Control is in the program at top level. -/
def TopLevel : Prop := ∃ rest, σ.frames = [.code none rest]

/-- The program at top level is at its end. -/
def atEnd : Bool :=
  match σ.frames with
  | [.code none .done] => true
  | _ => false

def steps : Nat → Runtime → Runtime
  | 0, σ => σ
  | n + 1, σ => steps n σ.step

variable {σ} in
theorem topLevel_of_atEnd (h : σ.atEnd = true) : σ.TopLevel := by
  unfold atEnd at h
  split at h
  case h_1 hFrames => exact ⟨.done, hFrames⟩
  case h_2 => exact nomatch h

variable {σ} in
theorem run_steps {ok : Runtime → Prop} {n : Nat} (h : ∀ k < n, ok (steps k σ)) :
    Run ok σ (steps n σ) := by
  induction n generalizing σ with
  | zero => exact .refl
  | succ n ih =>
    exact .head ⟨h 0 (Nat.succ_pos n), rfl⟩ (ih fun k hk => h (k + 1) (Nat.succ_lt_succ hk))

/-! ## Room in the tables -/

/-- The effects that a change of the signal puts into the queue. -/
def fresh (s : Nat) : List Nat :=
  (σ.signal s).subscribers.filter fun e => !(σ.effect e).disposed && !(σ.effect e).pending

/-- The next step neither finds the queue full nor the observer stack. -/
def Roomy : Prop :=
  match σ.frames with
  | .flush (e :: _) :: _ =>
    (σ.effect e).disposed = false → σ.observerStack.length < solidObserverStackMax
  | .code _ (.createEffect _ _) :: _ => σ.observerStack.length < solidObserverStackMax
  | .code _ (.createMemo _ _) :: _ => σ.observerStack.length < solidObserverStackMax
  | .code _ (.signalSet s v _) :: _ =>
    s < σ.signalCount → (σ.signal s).value ≠ v →
      σ.pendingQueue.length + (σ.fresh s).length ≤ solidPendingMax
  | _ => True

instance : DecidablePred Roomy := fun σ => by
  unfold Roomy
  split <;> exact inferInstance

end Runtime

/-- The effect whose callback an activation runs. -/
def Frame.effect? : Frame → Option Nat
  | .code run _ => run.map Prod.fst
  | .flush _ => none

namespace Runtime

/-- The effects whose callbacks run, the innermost one first. -/
def runningEffects (σ : Runtime) : List Nat := σ.frames.filterMap Frame.effect?

/-- The next step does not start an effect inside as many as the stack of observers holds. -/
def ObserverRoom (σ : Runtime) : Prop :=
  match σ.frames with
  | .flush (e :: _) :: _ =>
    (σ.effect e).disposed = false → σ.runningEffects.length < solidObserverStackMax
  | .code _ (.createEffect _ _) :: _ => σ.runningEffects.length < solidObserverStackMax
  | .code _ (.createMemo _ _) :: _ => σ.runningEffects.length < solidObserverStackMax
  | _ => True

instance : DecidablePred ObserverRoom := fun σ => by
  unfold ObserverRoom
  split <;> exact inferInstance

end Runtime

end Calynda.Solite
