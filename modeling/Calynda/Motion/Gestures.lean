import Calynda.Lib.RingBuffer
import Calynda.Math.Rays
import Mathlib.Analysis.Real.Sqrt

/-!
# Gestures

The gestures of a remote, in exact arithmetic. Every update puts the last sample into a history of
thirty entries, and unless the cooldown of the last gesture is running it looks for a new one in the
last ten. The orientation and the pointer, on which no gesture depends, are left out.
-/

namespace Calynda.Motion

open List Calynda.Lib

/-! ## The state of a channel -/

def motionMaxChannels : Nat := 4

def motionGestureHistory : Nat := 30

structure MotionRawInput (K : Type*) where
  accel : CmVec3 K
  gyro : CmVec3 K
  mpConnected : Bool

inductive MotionGestureType where
  | none
  | swingLeft
  | swingRight
  | swingUp
  | swingDown
  | thrust
  | throw
  | twistCw
  | twistCcw
  | shake
  deriving DecidableEq

structure MotionGesture (K : Type*) where
  type : MotionGestureType
  intensity : K
  direction : CmVec3 K
  duration : K
  active : Bool

structure MotionGestureDetector (K : Type*) where
  accelHistory : List (CmVec3 K)
  gyroHistory : List (CmVec3 K)
  historyIndex : Nat
  historyCount : Nat
  swingThreshold : K
  thrustThreshold : K
  twistThreshold : K
  shakeThreshold : K
  cooldownTimer : K
  cooldownDuration : K
  lastGesture : MotionGesture K

structure MotionChannel (K : Type*) where
  channel : Nat
  active : Bool
  raw : MotionRawInput K
  gestureDet : MotionGestureDetector K

variable {K : Type*} [Field K]

def MotionGestureDetector.initial : MotionGestureDetector K where
  accelHistory := List.replicate motionGestureHistory cmVec3Zero
  gyroHistory := List.replicate motionGestureHistory cmVec3Zero
  historyIndex := 0
  historyCount := 0
  swingThreshold := 5 / 2
  thrustThreshold := 2
  twistThreshold := 300
  shakeThreshold := 3
  cooldownTimer := 0
  cooldownDuration := 3 / 10
  lastGesture := ⟨.none, 0, cmVec3Zero, 0, false⟩

def motionInit : List (MotionChannel K) :=
  (List.range motionMaxChannels).map fun i => ⟨i, false, ⟨cmVec3Zero, cmVec3Zero, false⟩, .initial⟩

def motionFeedRaw (ch : MotionChannel K) (accel gyro : CmVec3 K) (mpConnected : Bool) :
    MotionChannel K :=
  { ch with raw := ⟨accel, gyro, mpConnected⟩, active := true }

/-! ## The history -/

def pushHistory (det : MotionGestureDetector K) (accel gyro : CmVec3 K) :
    MotionGestureDetector K :=
  { det with
    accelHistory := det.accelHistory.set det.historyIndex accel
    gyroHistory := det.gyroHistory.set det.historyIndex gyro
    historyIndex := (det.historyIndex + 1) % motionGestureHistory
    historyCount :=
      if det.historyCount < motionGestureHistory then det.historyCount + 1 else det.historyCount }

/-- The entries that the loops over a history read, in their order. -/
def historyEntries (history : List (CmVec3 K)) (count start : Nat) : List (CmVec3 K) :=
  (List.range count).map fun i =>
    history.getD ((start + motionGestureHistory - i) % motionGestureHistory) cmVec3Zero

section Order

variable [LinearOrder K]

/-- One entry in the search for the longest. -/
def peakStep (best : CmVec3 K × K) (v : CmVec3 K) : CmVec3 K × K :=
  let mag2 := cmVec3Dot v v
  if mag2 > best.2 then (v, mag2) else best

def historyPeak (history : List (CmVec3 K)) (count start : Nat) : CmVec3 K :=
  ((historyEntries history count start).foldl peakStep (cmVec3Zero, 0)).1

def historyVariance (history : List (CmVec3 K)) (count start : Nat) : K :=
  if count < 2 then 0
  else
    let entries := historyEntries history count start
    let mean := cmVec3Scale (entries.foldl cmVec3Add cmVec3Zero) (1 / (count : K))
    entries.foldl (fun var v =>
      let d := cmVec3Sub v mean
      var + cmVec3Dot d d) 0 / (count : K)

/-! ## The detection -/

def motionClamp (v lo hi : K) : K := if v < lo then lo else if v > hi then hi else v

namespace MotionGestureDetector

variable (det : MotionGestureDetector K)

def prevIdx : Nat := (det.historyIndex + motionGestureHistory - 1) % motionGestureHistory

def window : Nat := if det.historyCount < 10 then det.historyCount else 10

def accelWindow : List (CmVec3 K) := historyEntries det.accelHistory det.window det.prevIdx

def gyroWindow : List (CmVec3 K) := historyEntries det.gyroHistory det.window det.prevIdx

/-- A gesture is reported, and its cooldown begins. -/
def report (type : MotionGestureType) (intensity : K) (direction : CmVec3 K) (dt : K) :
    MotionGestureDetector K :=
  { det with
    lastGesture := ⟨type, intensity, direction, det.window * dt, true⟩
    cooldownTimer := det.cooldownDuration }

/-- The kind and the direction of a swing, a thrust or a throw, by its dominant axis. -/
def swing (peakAccel : CmVec3 K) : MotionGestureType × CmVec3 K :=
  let ax := cmAbsf peakAccel.x
  let ay := cmAbsf peakAccel.y
  let az := cmAbsf peakAccel.z
  if az > ax ∧ az > ay ∧ az > det.thrustThreshold then
    (if peakAccel.y > 1 / 2 ∧ peakAccel.z < 0 then .throw else .thrust,
      cmVec3 0 0 (if peakAccel.z > 0 then 1 else -1))
  else if ax > ay then
    (if peakAccel.x > 0 then .swingRight else .swingLeft,
      cmVec3 (if peakAccel.x > 0 then 1 else -1) 0 0)
  else
    (if peakAccel.y > 0 then .swingUp else .swingDown,
      cmVec3 0 (if peakAccel.y > 0 then 1 else -1) 0)

/-- What `detect_gestures` does when no cooldown is running. -/
def classify (sqrt : K → K) (dt : K) : MotionGestureDetector K :=
  if det.historyCount < 5 then det
  else
    let var := historyVariance det.accelHistory det.window det.prevIdx
    if var > det.shakeThreshold * det.shakeThreshold then
      det.report .shake (motionClamp (sqrt var / 6) 0 1) (cmVec3 0 0 0) dt
    else
      let peakAccel := historyPeak det.accelHistory det.window det.prevIdx
      let peakMag := sqrt (cmVec3Dot peakAccel peakAccel)
      let peakGyro := historyPeak det.gyroHistory det.window det.prevIdx
      if cmAbsf peakGyro.z > det.twistThreshold then
        det.report (if peakGyro.z > 0 then .twistCcw else .twistCw)
          (motionClamp (cmAbsf peakGyro.z / 600) 0 1)
          (cmVec3 0 0 (if peakGyro.z > 0 then 1 else -1)) dt
      else if peakMag < det.swingThreshold then det
      else
        det.report (det.swing peakAccel).1 (motionClamp (peakMag / 5) 0 1) (det.swing peakAccel).2 dt

/-- The gesture of the last update is cleared. -/
def clearGesture : MotionGestureDetector K :=
  { det with lastGesture := { det.lastGesture with type := .none, active := false } }

end MotionGestureDetector

def detectGestures (sqrt : K → K) (raw : MotionRawInput K) (dt : K)
    (det : MotionGestureDetector K) : MotionGestureDetector K :=
  let det := (pushHistory det raw.accel raw.gyro).clearGesture
  if det.cooldownTimer > 0 then
    let det := { det with cooldownTimer := det.cooldownTimer - dt }
    if det.cooldownTimer > 0 then det else det.classify sqrt dt
  else det.classify sqrt dt

def motionUpdate (sqrt : K → K) (ch : MotionChannel K) (dt : K) : MotionChannel K :=
  if ch.active then { ch with gestureDet := detectGestures sqrt ch.raw dt ch.gestureDet } else ch

/-! ## Runs -/

inductive MotionCall (K : Type*) where
  | feedRaw (accel gyro : CmVec3 K) (mpConnected : Bool)
  | update (dt : K)

/-- The sample of an update, its time step and the detector after it. -/
structure MotionOutcome (K : Type*) where
  raw : MotionRawInput K
  dt : K
  det : MotionGestureDetector K

/-- What the updates of a run come to; an update of a channel that has not been fed does nothing. -/
def outcomes (sqrt : K → K) : MotionChannel K → List (MotionCall K) → List (MotionOutcome K)
  | _, [] => []
  | ch, .feedRaw accel gyro mpConnected :: calls =>
    outcomes sqrt (motionFeedRaw ch accel gyro mpConnected) calls
  | ch, .update dt :: calls =>
    let ch' := motionUpdate sqrt ch dt
    if ch.active then ⟨ch.raw, dt, ch'.gestureDet⟩ :: outcomes sqrt ch' calls
    else outcomes sqrt ch' calls

def MotionOutcome.Reports (o : MotionOutcome K) : Prop := o.det.lastGesture.active = true

/-- The time from one update to a later one. -/
def elapsed (dts : List K) (u v : Nat) : K := ((dts.take (v + 1)).drop (u + 1)).sum

/-- A sample is among the last ten when an update is made. -/
def InWindow (sample update : Nat) : Prop := sample ≤ update ∧ update < sample + 10

/-- One movement gives one gesture. -/
structure OneGesture (run : List (MotionOutcome K)) : Prop where
  accelWindow : ∀ n o, run[n]? = some o → o.det.accelWindow =
    ((run.take (n + 1)).map (·.raw.accel)).reverse.take (min (n + 1) 10)
  gyroWindow : ∀ n o, run[n]? = some o → o.det.gyroWindow =
    ((run.take (n + 1)).map (·.raw.gyro)).reverse.take (min (n + 1) 10)
  spaced : ∀ u v a b, u < v → run[u]? = some a → run[v]? = some b → a.Reports → b.Reports →
    b.det.cooldownDuration ≤ elapsed (run.map (·.dt)) u v
  fresh : ∀ u v a b, u < v → run[u]? = some a → run[v]? = some b → a.Reports → b.Reports →
    ∀ sample, InWindow sample u → ¬InWindow sample v

def MotionCall.dt? : MotionCall K → Option K
  | .feedRaw _ _ _ => none
  | .update dt => some dt

/-- The time steps of the updates after the first sample has been fed. -/
def activeDts (calls : List (MotionCall K)) : List K :=
  (calls.dropWhile fun call => call.dt?.isSome).filterMap (·.dt?)

/-- From the fifth update on, a window is over before a cooldown. -/
def CooldownsOutlast (dts : List K) : Prop :=
  ∀ u v, 4 ≤ u → u < v → v < u + 10 → v < dts.length → elapsed dts u v < 3 / 10

end Order

/-! ## The history of a run -/

/-- The history and the thresholds after some samples, the latest last. -/
structure Holds (us : List (MotionRawInput K × K)) (det : MotionGestureDetector K) : Prop where
  accel : RingHolds motionGestureHistory det.accelHistory det.historyIndex
    (us.map (·.1.accel)).reverse
  gyro : RingHolds motionGestureHistory det.gyroHistory det.historyIndex
    (us.map (·.1.gyro)).reverse
  count : det.historyCount = min us.length motionGestureHistory
  swing : det.swingThreshold = 5 / 2
  twist : det.twistThreshold = 300
  shake : det.shakeThreshold = 3
  duration : det.cooldownDuration = 3 / 10

variable {sqrt : K → K} {det : MotionGestureDetector K} {raw : MotionRawInput K} {dt : K}
  {us : List (MotionRawInput K × K)}

namespace Holds

theorem initial : Holds [] (MotionGestureDetector.initial : MotionGestureDetector K) :=
  ⟨.init length_replicate (by decide), .init length_replicate (by decide), rfl, rfl, rfl,
    rfl, rfl⟩

theorem pushed (h : Holds us det) (raw : MotionRawInput K) (dt : K) :
    Holds (us ++ [(raw, dt)]) (pushHistory det raw.accel raw.gyro).clearGesture := by
  refine ⟨?_, ?_, ?_, h.swing, h.twist, h.shake, h.duration⟩
  · rw [map_append, reverse_append]
    exact h.accel.push raw.accel
  · rw [map_append, reverse_append]
    exact h.gyro.push raw.gyro
  · show (if det.historyCount < motionGestureHistory then _ else _) = _
    rw [h.count, length_append, length_singleton]
    split_ifs <;> omega

theorem cooling (h : Holds us det) (timer : K) : Holds us { det with cooldownTimer := timer } :=
  ⟨h.accel, h.gyro, h.count, h.swing, h.twist, h.shake, h.duration⟩

theorem report (h : Holds us det) (type : MotionGestureType) (intensity : K)
    (direction : CmVec3 K) : Holds us (det.report type intensity direction dt) :=
  ⟨h.accel, h.gyro, h.count, h.swing, h.twist, h.shake, h.duration⟩

theorem window_eq (h : Holds us det) : det.window = min us.length 10 := by
  unfold MotionGestureDetector.window
  rw [h.count, motionGestureHistory]
  split_ifs <;> omega

/-- The entries that the detection looks at are the last samples. -/
theorem accelWindow (h : Holds us det) :
    det.accelWindow = (us.map (·.1.accel)).reverse.take (min us.length 10) := by
  unfold MotionGestureDetector.accelWindow
  rw [h.window_eq]
  exact h.accel.window cmVec3Zero (by rw [motionGestureHistory]; omega)
    (by rw [length_reverse, length_map]; omega)

theorem gyroWindow (h : Holds us det) :
    det.gyroWindow = (us.map (·.1.gyro)).reverse.take (min us.length 10) := by
  unfold MotionGestureDetector.gyroWindow
  rw [h.window_eq]
  exact h.gyro.window cmVec3Zero (by rw [motionGestureHistory]; omega)
    (by rw [length_reverse, length_map]; omega)

theorem accel_of_mem_window (h : Holds us det) {v : CmVec3 K} (hv : v ∈ det.accelWindow) :
    ∃ p ∈ us, p.1.accel = v := by
  rw [h.accelWindow] at hv
  exact mem_map.mp (mem_reverse.mp (mem_of_mem_take hv))

theorem gyro_of_mem_window (h : Holds us det) {v : CmVec3 K} (hv : v ∈ det.gyroWindow) :
    ∃ p ∈ us, p.1.gyro = v := by
  rw [h.gyroWindow] at hv
  exact mem_map.mp (mem_reverse.mp (mem_of_mem_take hv))

end Holds

section Order

variable [LinearOrder K]

theorem MotionGestureDetector.classify_cases (det : MotionGestureDetector K) (sqrt : K → K)
    (dt : K) : det.classify sqrt dt = det ∨ 5 ≤ det.historyCount ∧ ∃ type intensity direction,
      det.classify sqrt dt = det.report type intensity direction dt := by
  unfold classify
  dsimp only
  split_ifs with hFew
  · exact Or.inl rfl
  · exact Or.inr ⟨Nat.le_of_not_lt hFew, _, _, _, rfl⟩
  · exact Or.inr ⟨Nat.le_of_not_lt hFew, _, _, _, rfl⟩
  · exact Or.inr ⟨Nat.le_of_not_lt hFew, _, _, _, rfl⟩
  · exact Or.inl rfl
  · exact Or.inr ⟨Nat.le_of_not_lt hFew, _, _, _, rfl⟩

theorem Holds.classify (h : Holds us det) : Holds us (det.classify sqrt dt) := by
  rcases det.classify_cases sqrt dt with hSame | ⟨-, type, intensity, direction, hReport⟩
  · rw [hSame]
    exact h
  · rw [hReport]
    exact h.report type intensity direction

/-- An update cools down while there is cooldown left, and else looks for a gesture. -/
theorem detectGestures_cases (sqrt : K → K) (raw : MotionRawInput K) (dt : K)
    (det : MotionGestureDetector K) :
    (0 < det.cooldownTimer ∧ 0 < det.cooldownTimer - dt ∧ detectGestures sqrt raw dt det =
      { (pushHistory det raw.accel raw.gyro).clearGesture with
        cooldownTimer := det.cooldownTimer - dt }) ∨
    ∃ timer, (timer = det.cooldownTimer - dt ∧ det.cooldownTimer - dt ≤ 0 ∨
        timer = det.cooldownTimer ∧ det.cooldownTimer ≤ 0) ∧
      detectGestures sqrt raw dt det =
        { (pushHistory det raw.accel raw.gyro).clearGesture with cooldownTimer := timer }.classify
          sqrt dt := by
  unfold detectGestures
  dsimp only
  split_ifs with hRunning hLeft
  · exact Or.inl ⟨hRunning, hLeft, rfl⟩
  · exact Or.inr ⟨_, Or.inl ⟨rfl, le_of_not_gt hLeft⟩, rfl⟩
  · exact Or.inr ⟨_, Or.inr ⟨rfl, le_of_not_gt hRunning⟩, rfl⟩

theorem Holds.detect (h : Holds us det) :
    Holds (us ++ [(raw, dt)]) (detectGestures sqrt raw dt det) := by
  have hPushed := h.pushed raw dt
  rcases detectGestures_cases sqrt raw dt det with ⟨-, -, hDetect⟩ | ⟨timer, -, hDetect⟩
  · rw [hDetect]
    exact hPushed.cooling _
  · rw [hDetect]
    exact (hPushed.cooling timer).classify

/-- A gesture needs five samples. -/
theorem five_le_of_reports
    (h : (detectGestures sqrt raw dt det).lastGesture.active = true) :
    5 ≤ (detectGestures sqrt raw dt det).historyCount := by
  rcases detectGestures_cases sqrt raw dt det with ⟨-, -, hDetect⟩ | ⟨timer, -, hDetect⟩
  · rw [hDetect] at h
    exact absurd h Bool.false_ne_true
  · rw [hDetect] at h ⊢
    rcases MotionGestureDetector.classify_cases _ sqrt dt with
      hSame | ⟨hFive, type, intensity, direction, hReport⟩
    · rw [hSame] at h
      exact absurd h Bool.false_ne_true
    · rw [hReport]
      exact hFive

variable [IsStrictOrderedRing K]

/-- An update that reports nothing takes no more than its time from the cooldown, and one that
reports a gesture has waited for the end of the last cooldown. -/
theorem detectGestures_timer (sqrt : K → K) (raw : MotionRawInput K)
    (det : MotionGestureDetector K) (hdt : 0 < dt) :
    ((detectGestures sqrt raw dt det).lastGesture.active = false ∧
      det.cooldownTimer - dt ≤ (detectGestures sqrt raw dt det).cooldownTimer) ∨
    ((detectGestures sqrt raw dt det).lastGesture.active = true ∧ det.cooldownTimer ≤ dt ∧
      (detectGestures sqrt raw dt det).cooldownTimer = det.cooldownDuration) := by
  rcases detectGestures_cases sqrt raw dt det with ⟨-, -, hDetect⟩ | ⟨timer, hTimer, hDetect⟩
  · rw [hDetect]
    exact Or.inl ⟨rfl, le_rfl⟩
  · have hOver : det.cooldownTimer ≤ dt := by
      rcases hTimer with ⟨-, hLeft⟩ | ⟨-, hRest⟩
      · exact sub_nonpos.mp hLeft
      · exact hRest.trans hdt.le
    have hTakes : det.cooldownTimer - dt ≤ timer := by
      rcases hTimer with ⟨rfl, -⟩ | ⟨rfl, -⟩
      · exact le_rfl
      · exact sub_le_self _ hdt.le
    rw [hDetect]
    rcases MotionGestureDetector.classify_cases _ sqrt dt with
      hSame | ⟨-, type, intensity, direction, hReport⟩
    · rw [hSame]
      exact Or.inl ⟨rfl, hTakes⟩
    · rw [hReport]
      exact Or.inr ⟨rfl, hOver, rfl⟩

end Order

/-! ## Runs of updates -/

section Runs

theorem take_succ_eq {α : Type*} {l : List α} {n : Nat} (hn : n < l.length) :
    l.take (n + 1) = l.take n ++ [l[n]] := by
  rw [take_add_one, List.getElem?_eq_getElem hn, Option.toList_some]

/-- The time to an update, from that before it. -/
theorem elapsed_succ {dts : List K} {u v : Nat} (hLt : u < v) (hv : v < dts.length) :
    elapsed dts u v = ((dts.take v).drop (u + 1)).sum + dts[v] := by
  have hLength : u + 1 ≤ (dts.take v).length := by
    rw [length_take]
    omega
  rw [elapsed, take_succ_eq hv, drop_append_of_le_length hLength, sum_append,
    sum_singleton]

variable [LinearOrder K]

/-- The detector after updates with these samples and time steps. -/
def detectAll (sqrt : K → K) (det : MotionGestureDetector K) (us : List (MotionRawInput K × K)) :
    MotionGestureDetector K :=
  us.foldl (fun det u => detectGestures sqrt u.1 u.2 det) det

def detectRun (sqrt : K → K) :
    MotionGestureDetector K → List (MotionRawInput K × K) → List (MotionOutcome K)
  | _, [] => []
  | det, u :: us =>
    let det' := detectGestures sqrt u.1 u.2 det
    ⟨u.1, u.2, det'⟩ :: detectRun sqrt det' us

theorem detectAll_append (us vs : List (MotionRawInput K × K)) :
    detectAll sqrt det (us ++ vs) = detectAll sqrt (detectAll sqrt det us) vs :=
  foldl_append

theorem detectRun_getElem? (n : Nat) : (detectRun sqrt det us)[n]? =
    us[n]?.map fun u => ⟨u.1, u.2, detectAll sqrt det (us.take (n + 1))⟩ := by
  induction us generalizing det n with
  | nil => rfl
  | cons u us ih =>
    cases n with
    | zero => rfl
    | succ n =>
      rw [detectRun, List.getElem?_cons_succ, List.getElem?_cons_succ, ih]
      rfl

theorem detectRun_map {β : Type*} (f : MotionRawInput K → K → β) :
    (detectRun sqrt det us).map (fun o => f o.raw o.dt) = us.map fun u => f u.1 u.2 := by
  induction us generalizing det with
  | nil => rfl
  | cons u us ih =>
    rw [detectRun, map_cons, map_cons, ih]

/-- A run of calls is a run of updates with the samples that were fed last. -/
theorem outcomes_eq_detectRun (sqrt : K → K) (ch : MotionChannel K) (calls : List (MotionCall K)) :
    ∃ us, outcomes sqrt ch calls = detectRun sqrt ch.gestureDet us ∧
      us.map (·.2) = if ch.active then calls.filterMap (·.dt?) else activeDts calls := by
  induction calls generalizing ch with
  | nil =>
    refine ⟨[], rfl, ?_⟩
    split_ifs <;> rfl
  | cons call calls ih =>
    cases call with
    | feedRaw accel gyro mpConnected =>
      obtain ⟨us, hRun, hDts⟩ := ih (motionFeedRaw ch accel gyro mpConnected)
      refine ⟨us, hRun, ?_⟩
      rw [hDts.trans (if_pos rfl)]
      split_ifs <;> rfl
    | update dt =>
      obtain ⟨us, hRun, hDts⟩ := ih (motionUpdate sqrt ch dt)
      by_cases hActive : ch.active = true
      · have hUpdate : motionUpdate sqrt ch dt =
            { ch with gestureDet := detectGestures sqrt ch.raw dt ch.gestureDet } :=
          if_pos hActive
        rw [hUpdate] at hRun hDts
        refine ⟨(ch.raw, dt) :: us, ?_, ?_⟩
        · rw [outcomes, if_pos hActive, hUpdate, hRun]
          rfl
        · rw [if_pos hActive] at hDts ⊢
          rw [map_cons, hDts]
          rfl
      · have hUpdate : motionUpdate sqrt ch dt = ch := if_neg hActive
        rw [hUpdate] at hRun hDts
        refine ⟨us, ?_, ?_⟩
        · rw [outcomes, if_neg hActive, hUpdate, hRun]
        · rw [if_neg hActive] at hDts ⊢
          exact hDts

theorem detectAll_holds (sqrt : K → K) (us : List (MotionRawInput K × K)) :
    Holds us (detectAll sqrt .initial us) := by
  induction us using List.reverseRecOn with
  | nil => exact .initial
  | append_singleton us u ih =>
    rw [detectAll_append]
    exact ih.detect

theorem four_le_of_reports {n : Nat} (hn : n < us.length)
    (hReports : (detectAll sqrt .initial (us.take (n + 1))).lastGesture.active = true) : 4 ≤ n := by
  have hCount := (detectAll_holds sqrt (us.take (n + 1))).count
  have hFive : 5 ≤ (detectAll sqrt .initial (us.take (n + 1))).historyCount := by
    rw [take_succ_eq hn, detectAll_append] at hReports ⊢
    exact five_le_of_reports hReports
  rw [hCount, length_take] at hFive
  omega

/-! ## Windows and cooldowns -/

variable [IsStrictOrderedRing K]

/-- What is left of a cooldown is at least what has not passed of it. -/
theorem detectAll_timer (hPos : ∀ p ∈ us, 0 < p.2) {u : Nat} (hu : u < us.length)
    (hReports : (detectAll sqrt .initial (us.take (u + 1))).lastGesture.active = true) :
    3 / 10 - ((us.map (·.2)).drop (u + 1)).sum ≤ (detectAll sqrt .initial us).cooldownTimer := by
  induction us using List.reverseRecOn with
  | nil => exact absurd hu (Nat.not_lt_zero u)
  | append_singleton us p ih =>
    have hStep := detectGestures_timer sqrt p.1 (detectAll sqrt .initial us)
      (hPos p (mem_append_right us mem_cons_self))
    have hAfter : detectAll sqrt .initial (us ++ [p]) =
        detectGestures sqrt p.1 p.2 (detectAll sqrt .initial us) := detectAll_append us [p]
    have hDuration := (detectAll_holds sqrt us).duration
    have hUs : ∀ q ∈ us, 0 < q.2 := fun q hq => hPos q (mem_append_left [p] hq)
    have hNonneg : 0 ≤ (((us ++ [p]).map (·.2)).drop (u + 1)).sum := by
      refine sum_nonneg fun dt hdt => ?_
      obtain ⟨q, hq, rfl⟩ := mem_map.mp (mem_of_mem_drop hdt)
      exact (hPos q hq).le
    rw [length_append, length_singleton] at hu
    rw [hAfter]
    rcases hStep with ⟨hQuiet, hTimer⟩ | ⟨-, -, hTimer⟩
    · by_cases hLast : u = us.length
      · rw [hLast, take_of_length_le (by simp), hAfter, hQuiet] at hReports
        exact absurd hReports Bool.false_ne_true
      · have hu' : u + 1 ≤ us.length := by omega
        rw [take_append_of_le_length hu'] at hReports
        have hBefore := ih hUs (by omega) hReports
        rw [map_append, drop_append_of_le_length (by rw [length_map]; exact hu'),
          sum_append, map_singleton, sum_singleton]
        linarith
    · rw [hTimer, hDuration]
      exact sub_le_self _ hNonneg

/-- Two gestures are a cooldown apart. -/
theorem detectAll_spaced (hPos : ∀ p ∈ us, 0 < p.2) {u v : Nat} (hLt : u < v) (hv : v < us.length)
    (hFirst : (detectAll sqrt .initial (us.take (u + 1))).lastGesture.active = true)
    (hSecond : (detectAll sqrt .initial (us.take (v + 1))).lastGesture.active = true) :
    3 / 10 ≤ elapsed (us.map (·.2)) u v := by
  have hStep := detectGestures_timer sqrt us[v].1 (detectAll sqrt .initial (us.take v))
    (hPos us[v] (List.getElem_mem hv))
  rw [take_succ_eq hv, detectAll_append] at hSecond
  have hEarlier : (us.take v).take (u + 1) = us.take (u + 1) := by
    rw [take_take, Nat.min_eq_left hLt]
  have hBefore : 3 / 10 - (((us.take v).map (·.2)).drop (u + 1)).sum ≤
      (detectAll sqrt .initial (us.take v)).cooldownTimer :=
    detectAll_timer (fun p hp => hPos p (mem_of_mem_take hp))
      (by rw [length_take]; omega) (hEarlier.symm ▸ hFirst)
  rw [elapsed_succ hLt (by rw [length_map]; exact hv), List.getElem_map, ← map_take]
  rcases hStep with ⟨hQuiet, -⟩ | ⟨-, hOver, -⟩
  · exact absurd (hSecond.symm.trans hQuiet) Bool.false_ne_true.symm
  · linarith

/-- Where no cooldown ends before the window of its gesture does, no sample is reported twice. -/
theorem oneGesture_of_outlast (hPos : ∀ p ∈ us, 0 < p.2)
    (hOutlast : CooldownsOutlast (us.map (·.2))) :
    OneGesture (detectRun sqrt .initial us) := by
  have hLast : ∀ n o, (detectRun sqrt .initial us)[n]? = some o → ∃ hn : n < us.length,
      o = ⟨us[n].1, us[n].2, detectAll sqrt .initial (us.take (n + 1))⟩ := by
    intro n o hOut
    rw [detectRun_getElem?] at hOut
    obtain ⟨p, hp, rfl⟩ := Option.map_eq_some_iff.mp hOut
    obtain ⟨hn, rfl⟩ := List.getElem?_eq_some_iff.mp hp
    exact ⟨hn, rfl⟩
  have hDts : (detectRun sqrt .initial us).map (·.dt) = us.map (·.2) := detectRun_map fun _ dt => dt
  have hSamples : ∀ {β : Type _} (f : MotionRawInput K → β) (n : Nat),
      ((detectRun sqrt .initial us).take (n + 1)).map (fun o => f o.raw) =
        (us.take (n + 1)).map fun u => f u.1 := by
    intro β f n
    rw [map_take, map_take, detectRun_map fun raw _ => f raw]
  have hLength : ∀ n, n < us.length → (us.take (n + 1)).length = n + 1 := by
    intro n hn
    rw [length_take]
    omega
  constructor
  · intro n o hOut
    obtain ⟨hn, rfl⟩ := hLast n o hOut
    rw [hSamples (·.accel), (detectAll_holds sqrt _).accelWindow, hLength n hn]
  · intro n o hOut
    obtain ⟨hn, rfl⟩ := hLast n o hOut
    rw [hSamples (·.gyro), (detectAll_holds sqrt _).gyroWindow, hLength n hn]
  · intro u v a b hLt hu hv hFirst hSecond
    obtain ⟨_, rfl⟩ := hLast u a hu
    obtain ⟨hn, rfl⟩ := hLast v b hv
    rw [hDts, (detectAll_holds sqrt _).duration]
    exact detectAll_spaced hPos hLt hn hFirst hSecond
  · rintro u v a b hLt hu hv hFirst hSecond sample ⟨hOld, -⟩ ⟨-, hNew⟩
    obtain ⟨hm, rfl⟩ := hLast u a hu
    obtain ⟨hn, rfl⟩ := hLast v b hv
    have hFour := four_le_of_reports hm hFirst
    have hSpaced := detectAll_spaced hPos hLt hn hFirst hSecond
    exact absurd hSpaced (not_le_of_gt (hOutlast u v hFour hLt (by omega)
      (by rw [length_map]; exact hn)))

end Runs

/-! ## A spike that is reported twice -/

section Spike

/-- A turn about the axis of the remote, just above the threshold. -/
def spikeGyro : CmVec3 K := ⟨0, 0, 301⟩

/-- A remote at rest but for one spike. -/
def spikeSamples (u : Nat) (dts : List K) : List (MotionRawInput K × K) :=
  dts.zipIdx.map fun (dt, i) => (⟨cmVec3Zero, if i = u then spikeGyro else cmVec3Zero, true⟩, dt)

/-- A run that feeds a sample before every update. -/
def fedCalls (us : List (MotionRawInput K × K)) : List (MotionCall K) :=
  us.flatMap fun (raw, dt) => [.feedRaw raw.accel raw.gyro raw.mpConnected, .update dt]

theorem activeDts_fedCalls {α : Type*} (us : List (MotionRawInput α × α)) :
    activeDts (fedCalls us) = us.map (·.2) := by
  have hAll : (fedCalls us).filterMap (·.dt?) = us.map (·.2) := by
    induction us with
    | nil => rfl
    | cons u us ih =>
      rw [map_cons, ← ih]
      rfl
  rw [← hAll]
  cases us <;> rfl

theorem length_spikeSamples (u : Nat) (dts : List K) :
    (spikeSamples u dts).length = dts.length := by
  rw [spikeSamples, length_map, length_zipIdx]

theorem spikeSamples_dts (u : Nat) (dts : List K) : (spikeSamples u dts).map (·.2) = dts := by
  rw [spikeSamples, map_map]
  exact zipIdx_map_fst 0 dts

theorem spikeSamples_getElem? (u : Nat) (dts : List K) (n : Nat) : (spikeSamples u dts)[n]? =
    dts[n]?.map fun dt =>
      (⟨cmVec3Zero, if n = u then spikeGyro else cmVec3Zero, true⟩, dt) := by
  rw [spikeSamples, List.getElem?_map, List.getElem?_zipIdx, Option.map_map, Nat.zero_add]
  rfl

/-- A sample among the first `n` is at an index below `n`. -/
theorem mem_take_spikeSamples {u n : Nat} {dts : List K} {p : MotionRawInput K × K}
    (hp : p ∈ (spikeSamples u dts).take n) : ∃ i < n,
      p.1.accel = cmVec3Zero ∧ p.1.gyro = if i = u then spikeGyro else cmVec3Zero := by
  obtain ⟨i, hi⟩ := mem_iff_getElem?.mp hp
  rw [List.getElem?_take] at hi
  split_ifs at hi with hLt
  rw [spikeSamples_getElem?] at hi
  obtain ⟨dt, -, rfl⟩ := Option.map_eq_some_iff.mp hi
  exact ⟨i, hLt, rfl, rfl⟩

theorem historyVariance_zero {history : List (CmVec3 K)} {count start : Nat}
    (h : ∀ v ∈ historyEntries history count start, v = cmVec3Zero) :
    historyVariance history count start = 0 := by
  have hSum : ∀ l : List (CmVec3 K), (∀ v ∈ l, v = cmVec3Zero) →
      l.foldl cmVec3Add cmVec3Zero = cmVec3Zero := by
    intro l
    induction l with
    | nil => exact fun _ => rfl
    | cons v l ih =>
      intro h
      have hStep : cmVec3Add cmVec3Zero v = (cmVec3Zero : CmVec3 K) := by
        rw [h v mem_cons_self]
        simp [cmVec3Add, cmVec3Zero]
      rw [foldl_cons, hStep]
      exact ih fun w hw => h w (mem_cons_of_mem v hw)
  have hSquares : ∀ l : List (CmVec3 K), (∀ v ∈ l, v = cmVec3Zero) →
      l.foldl (fun var v => var + cmVec3Dot (cmVec3Sub v cmVec3Zero) (cmVec3Sub v cmVec3Zero))
        (0 : K) = 0 := by
    intro l
    induction l with
    | nil => exact fun _ => rfl
    | cons v l ih =>
      intro h
      have hStep : (0 : K) + cmVec3Dot (cmVec3Sub v cmVec3Zero) (cmVec3Sub v cmVec3Zero) = 0 := by
        rw [h v mem_cons_self]
        simp [cmVec3Sub, cmVec3Zero, cmVec3Dot]
      rw [foldl_cons, hStep]
      exact ih fun w hw => h w (mem_cons_of_mem v hw)
  have hMean : ∀ s : K, cmVec3Scale cmVec3Zero s = (cmVec3Zero : CmVec3 K) := by
    intro s
    simp [cmVec3Scale, cmVec3Zero]
  unfold historyVariance
  split_ifs
  · rfl
  · dsimp only
    rw [hSum _ h, hMean, hSquares _ h, zero_div]

variable [LinearOrder K]

theorem outcomes_fedCalls (ch : MotionChannel K) (us : List (MotionRawInput K × K)) :
    outcomes sqrt ch (fedCalls us) = detectRun sqrt ch.gestureDet us := by
  induction us generalizing ch with
  | nil => rfl
  | cons u us ih =>
    rw [detectRun, ← ih ⟨ch.channel, true, u.1, detectGestures sqrt u.1 u.2 ch.gestureDet⟩]
    rfl

theorem foldl_peakStep_zero {l : List (CmVec3 K)} (h : ∀ v ∈ l, v = cmVec3Zero) :
    l.foldl peakStep (cmVec3Zero, 0) = (cmVec3Zero, 0) := by
  induction l with
  | nil => rfl
  | cons v l ih =>
    have hStep : peakStep (cmVec3Zero, 0) v = ((cmVec3Zero, 0) : CmVec3 K × K) := by
      rw [h v mem_cons_self]
      simp [peakStep, cmVec3Dot]
    rw [foldl_cons, hStep]
    exact ih fun w hw => h w (mem_cons_of_mem v hw)

/-- The longest of some entries that are zero or `g`. -/
theorem foldl_peakStep_mem {g : CmVec3 K} (hg : 0 < cmVec3Dot g g) {l : List (CmVec3 K)}
    (h : ∀ v ∈ l, v = cmVec3Zero ∨ v = g) (hMem : g ∈ l) :
    l.foldl peakStep (cmVec3Zero, 0) = (g, cmVec3Dot g g) := by
  have hZero : cmVec3Dot cmVec3Zero cmVec3Zero = (0 : K) := by
    simp [cmVec3Dot]
  have hKept : ∀ l : List (CmVec3 K), (∀ v ∈ l, v = cmVec3Zero ∨ v = g) →
      l.foldl peakStep (g, cmVec3Dot g g) = (g, cmVec3Dot g g) := by
    intro l
    induction l with
    | nil => exact fun _ => rfl
    | cons v l ih =>
      intro h
      have hStep : peakStep (g, cmVec3Dot g g) v = (g, cmVec3Dot g g) := by
        refine if_neg ?_
        rcases h v mem_cons_self with rfl | rfl
        · rw [hZero]
          exact not_lt_of_gt hg
        · exact lt_irrefl _
      rw [foldl_cons, hStep]
      exact ih fun w hw => h w (mem_cons_of_mem v hw)
  induction l with
  | nil => exact absurd hMem not_mem_nil
  | cons v l ih =>
    have hRest := fun w hw => h w (mem_cons_of_mem v hw)
    rw [foldl_cons]
    rcases h v mem_cons_self with rfl | rfl
    · have hStep : peakStep (cmVec3Zero, 0) cmVec3Zero = ((cmVec3Zero, 0) : CmVec3 K × K) :=
        if_neg (by rw [hZero]; exact lt_irrefl _)
      have hTail : g ∈ l := (mem_cons.mp hMem).resolve_left fun hEq => by
        rw [hEq, hZero] at hg
        exact lt_irrefl _ hg
      rw [hStep]
      exact ih hRest hTail
    · have hStep : peakStep (cmVec3Zero, 0) v = (v, cmVec3Dot v v) := if_pos hg
      rw [hStep]
      exact hKept l hRest

/-- An update with no cooldown left looks for a gesture. -/
theorem detectGestures_over (sqrt : K → K) (raw : MotionRawInput K) {det : MotionGestureDetector K}
    (h : det.cooldownTimer - dt ≤ 0) : ∃ timer, detectGestures sqrt raw dt det =
      { (pushHistory det raw.accel raw.gyro).clearGesture with cooldownTimer := timer }.classify
        sqrt dt := by
  rcases detectGestures_cases sqrt raw dt det with ⟨-, hLeft, -⟩ | ⟨timer, -, hDetect⟩
  · exact absurd h (not_le_of_gt hLeft)
  · exact ⟨timer, hDetect⟩

theorem detectGestures_waits (sqrt : K → K) (raw : MotionRawInput K) {det : MotionGestureDetector K}
    (hRunning : 0 < det.cooldownTimer) (hLeft : 0 < det.cooldownTimer - dt) :
    (detectGestures sqrt raw dt det).cooldownTimer = det.cooldownTimer - dt := by
  rcases detectGestures_cases sqrt raw dt det with ⟨-, -, hDetect⟩ | ⟨_, ⟨-, hOver⟩ | ⟨-, hOver⟩, -⟩
  · rw [hDetect]
  · exact absurd hLeft (not_lt_of_ge hOver)
  · exact absurd hRunning (not_lt_of_ge hOver)

/-- The detector before update `n` of the run with the spike. -/
def spikeState (sqrt : K → K) (u : Nat) (dts : List K) (n : Nat) : MotionGestureDetector K :=
  detectAll sqrt .initial ((spikeSamples u dts).take n)

theorem spikeState_succ (sqrt : K → K) (u : Nat) {dts : List K} {n : Nat} (hn : n < dts.length) : ∃ raw,
    (spikeSamples u dts).take (n + 1) = (spikeSamples u dts).take n ++ [(raw, dts[n])] ∧
      spikeState sqrt u dts (n + 1) = detectGestures sqrt raw dts[n] (spikeState sqrt u dts n) := by
  have hLength : n < (spikeSamples u dts).length := by
    rw [length_spikeSamples]
    exact hn
  have hEntry := spikeSamples_getElem? u dts n
  rw [List.getElem?_eq_getElem hLength, List.getElem?_eq_getElem hn, Option.map_some,
    Option.some_inj] at hEntry
  have hTake := take_succ_eq hLength
  rw [hEntry] at hTake
  refine ⟨_, hTake, ?_⟩
  rw [spikeState, hTake, detectAll_append]
  rfl

variable [IsStrictOrderedRing K]

theorem spikeGyro_dot_pos : 0 < cmVec3Dot (spikeGyro : CmVec3 K) spikeGyro := by
  norm_num [cmVec3Dot, spikeGyro]

/-- Nothing is reported for a remote at rest. -/
theorem Holds.classify_rest (h : Holds us det) (hSqrt : sqrt 0 = 0)
    (hRest : ∀ p ∈ us, p.1.accel = cmVec3Zero ∧ p.1.gyro = cmVec3Zero) :
    det.classify sqrt dt = det := by
  have hAccel : ∀ v ∈ det.accelWindow, v = cmVec3Zero := by
    intro v hv
    obtain ⟨p, hp, rfl⟩ := h.accel_of_mem_window hv
    exact (hRest p hp).1
  have hGyro : ∀ v ∈ det.gyroWindow, v = cmVec3Zero := by
    intro v hv
    obtain ⟨p, hp, rfl⟩ := h.gyro_of_mem_window hv
    exact (hRest p hp).2
  have hPeakAccel : historyPeak det.accelHistory det.window det.prevIdx = cmVec3Zero :=
    congrArg Prod.fst (foldl_peakStep_zero hAccel)
  have hPeakGyro : historyPeak det.gyroHistory det.window det.prevIdx = cmVec3Zero :=
    congrArg Prod.fst (foldl_peakStep_zero hGyro)
  unfold MotionGestureDetector.classify
  dsimp only
  rw [historyVariance_zero hAccel, hPeakAccel, hPeakGyro, h.shake, h.twist, h.swing]
  norm_num [cmAbsf, cmVec3Dot, cmVec3Zero, hSqrt]

/-- A spike in the window is reported. -/
theorem Holds.classify_spike (h : Holds us det) (hFive : 5 ≤ us.length)
    (hSamples : ∀ p ∈ us, p.1.accel = cmVec3Zero ∧
      (p.1.gyro = cmVec3Zero ∨ p.1.gyro = spikeGyro)) (hSpike : spikeGyro ∈ det.gyroWindow) :
    (det.classify sqrt dt).lastGesture.active = true ∧
      (det.classify sqrt dt).cooldownTimer = 3 / 10 := by
  have hAccel : ∀ v ∈ det.accelWindow, v = cmVec3Zero := by
    intro v hv
    obtain ⟨p, hp, rfl⟩ := h.accel_of_mem_window hv
    exact (hSamples p hp).1
  have hGyro : ∀ v ∈ det.gyroWindow, v = cmVec3Zero ∨ v = spikeGyro := by
    intro v hv
    obtain ⟨p, hp, rfl⟩ := h.gyro_of_mem_window hv
    exact (hSamples p hp).2
  have hPeak : historyPeak det.gyroHistory det.window det.prevIdx = spikeGyro :=
    congrArg Prod.fst (foldl_peakStep_mem spikeGyro_dot_pos hGyro hSpike)
  have hCount : ¬det.historyCount < 5 := by
    rw [h.count, motionGestureHistory]
    omega
  have hShake : ¬(0 : K) > 3 * 3 := by
    norm_num
  have hTwist : cmAbsf (spikeGyro : CmVec3 K).z > 300 := by
    norm_num [cmAbsf, spikeGyro]
  unfold MotionGestureDetector.classify
  dsimp only
  rw [if_neg hCount, historyVariance_zero hAccel, hPeak, h.shake, h.twist, if_neg hShake,
    if_pos hTwist]
  exact ⟨rfl, h.duration⟩

section Twice

variable {dts : List K} {u : Nat} (hSqrt : sqrt 0 = 0) (hFour : 4 ≤ u)
  (hPos : ∀ dt ∈ dts, 0 < dt)

include hSqrt in
theorem spikeState_rest {n : Nat} (hn : n ≤ u) (hu : u < dts.length) :
    (spikeState sqrt u dts n).cooldownTimer = 0 := by
  induction n with
  | zero => rfl
  | succ n ih =>
    obtain ⟨raw, hTake, hNext⟩ := spikeState_succ sqrt u (by omega : n < dts.length)
    have hTimer := ih (by omega)
    have hPushed := (detectAll_holds sqrt ((spikeSamples u dts).take n)).pushed raw dts[n]
    rw [← hTake] at hPushed
    change Holds _ (pushHistory (spikeState sqrt u dts n) raw.accel raw.gyro).clearGesture
      at hPushed
    have hIdle : detectGestures sqrt raw dts[n] (spikeState sqrt u dts n) =
        (pushHistory (spikeState sqrt u dts n) raw.accel raw.gyro).clearGesture.classify
          sqrt dts[n] :=
      if_neg (by rw [gt_iff_lt]; exact not_lt_of_ge hTimer.le)
    rw [hNext, hIdle, hPushed.classify_rest hSqrt fun p hp => ?_]
    · exact hTimer
    · obtain ⟨i, hi, hAccel, hGyro⟩ := mem_take_spikeSamples hp
      rw [if_neg (by omega)] at hGyro
      exact ⟨hAccel, hGyro⟩

include hFour in
/-- While the spike is in the window it is reported as soon as no cooldown is left. -/
theorem spikeState_reports (sqrt : K → K) {n : Nat} (hFirst : u ≤ n) (hLast : n < u + 10) (hn : n < dts.length)
    (hOver : (spikeState sqrt u dts n).cooldownTimer - dts[n] ≤ 0) :
    (spikeState sqrt u dts (n + 1)).lastGesture.active = true ∧
      (spikeState sqrt u dts (n + 1)).cooldownTimer = 3 / 10 := by
  obtain ⟨raw, hTake, hNext⟩ := spikeState_succ sqrt u hn
  have hPushed := (detectAll_holds sqrt ((spikeSamples u dts).take n)).pushed raw dts[n]
  rw [← hTake] at hPushed
  obtain ⟨timer, hDetect⟩ := detectGestures_over sqrt raw hOver
  have hLength : ((spikeSamples u dts).take (n + 1)).length = n + 1 := by
    rw [length_take, length_spikeSamples]
    omega
  rw [hNext, hDetect]
  refine (hPushed.cooling timer).classify_spike (by omega) (fun p hp => ?_) ?_
  · obtain ⟨i, -, hAccel, hGyro⟩ := mem_take_spikeSamples hp
    refine ⟨hAccel, ?_⟩
    rw [hGyro]
    split_ifs
    · exact Or.inr rfl
    · exact Or.inl rfl
  · rw [(hPushed.cooling timer).gyroWindow, hLength]
    refine mem_iff_getElem?.mpr ⟨n - u, ?_⟩
    have hAge : (((spikeSamples u dts).take (n + 1)).map (·.1.gyro)).length - 1 - (n - u) = u := by
      rw [length_map, hLength]
      omega
    rw [List.getElem?_take, if_pos (by omega), List.getElem?_reverse (by
      rw [length_map, hLength]
      omega), hAge, List.getElem?_map, List.getElem?_take, if_pos (by omega),
      spikeSamples_getElem?, List.getElem?_eq_getElem (by omega), Option.map_some, Option.map_some,
      if_pos rfl]

include hSqrt hFour hPos in
theorem spikeState_waits {n : Nat} (hFirst : u ≤ n) (hn : n < dts.length)
    (hWaits : ∀ m, u < m → m ≤ n → elapsed dts u m < 3 / 10) :
    (spikeState sqrt u dts (n + 1)).cooldownTimer = 3 / 10 - elapsed dts u n := by
  induction n, hFirst using Nat.le_induction with
  | base =>
    have hRest := spikeState_rest hSqrt (le_refl u) hn
    have hReports := spikeState_reports hFour sqrt le_rfl (Nat.lt_add_of_pos_right
      (by decide)) hn (by rw [hRest]; linarith [hPos dts[u] (List.getElem_mem hn)])
    have hNone : elapsed dts u u = 0 := by
      rw [elapsed, drop_of_length_le (by rw [length_take]; omega), sum_nil]
    rw [hReports.2, hNone, sub_zero]
  | succ n hFirst ih =>
    have hBefore := ih (by omega) fun m hLt hLe => hWaits m hLt (by omega)
    obtain ⟨raw, -, hNext⟩ := spikeState_succ sqrt u hn
    have hNow := hWaits (n + 1) (by omega) le_rfl
    rw [elapsed_succ (by omega) hn] at hNow ⊢
    change elapsed dts u n + dts[n + 1] < 3 / 10 at hNow
    have hLeft : 0 < (spikeState sqrt u dts (n + 1)).cooldownTimer - dts[n + 1] := by
      rw [hBefore]
      linarith
    have hRunning : 0 < (spikeState sqrt u dts (n + 1)).cooldownTimer :=
      hLeft.trans (sub_lt_self _ (hPos _ (List.getElem_mem hn)))
    rw [hNext, detectGestures_waits sqrt raw hRunning hLeft, hBefore, sub_sub]
    rfl

include hSqrt hFour hPos in
/-- A spike is reported again if a cooldown is over while it still is in the window. -/
theorem not_oneGesture_spike {v : Nat} (hLt : u < v) (hNear : v < u + 10) (hv : v < dts.length)
    (hOver : 3 / 10 ≤ elapsed dts u v) :
    ¬OneGesture (detectRun sqrt .initial (spikeSamples u dts)) := by
  have hExists : ∃ m, u < m ∧ m ≤ v ∧ 3 / 10 ≤ elapsed dts u m := ⟨v, hLt, le_rfl, hOver⟩
  classical
  obtain ⟨hAfter, hBefore, hSpent⟩ := Nat.find_spec hExists
  have hFirst : ∀ m, u < m → m < Nat.find hExists → elapsed dts u m < 3 / 10 := by
    intro m hm hLess
    by_contra hNot
    exact Nat.find_min hExists hLess ⟨hm, by omega, not_lt.mp hNot⟩
  revert hAfter hBefore hSpent hFirst
  generalize Nat.find hExists = w
  intro hAfter hBefore hSpent hFirst hOne
  obtain ⟨n, rfl⟩ : ∃ n, w = n + 1 := ⟨w - 1, by omega⟩
  have hn : n + 1 < dts.length := by omega
  have hTimer := spikeState_waits hSqrt hFour hPos (by omega : u ≤ n) (by omega)
    fun m hm hLe => hFirst m hm (by omega)
  rw [elapsed_succ hAfter hn] at hSpent
  change 3 / 10 ≤ elapsed dts u n + dts[n + 1] at hSpent
  have hAgain := (spikeState_reports hFour sqrt (by omega) (by omega) hn
    (by rw [hTimer]; linarith)).1
  have hRest := spikeState_rest hSqrt (le_refl u) (by omega : u < dts.length)
  have hOnce := (spikeState_reports hFour sqrt le_rfl (by omega) (by omega : u < dts.length)
    (by rw [hRest]; linarith [hPos dts[u] (List.getElem_mem (by omega))])).1
  have hEntry : ∀ m (hm : m < dts.length), ∃ raw dt,
      (detectRun sqrt .initial (spikeSamples u dts))[m]? =
        some ⟨raw, dt, spikeState sqrt u dts (m + 1)⟩ := by
    intro m hm
    rw [detectRun_getElem?, spikeSamples_getElem?, List.getElem?_eq_getElem hm]
    exact ⟨_, _, rfl⟩
  obtain ⟨_, _, hu⟩ := hEntry u (by omega)
  obtain ⟨_, _, hw⟩ := hEntry (n + 1) hn
  exact hOne.fresh u (n + 1) _ _ hAfter hu hw hOnce hAgain u ⟨le_rfl, by omega⟩
    ⟨by omega, by omega⟩

end Twice

end Spike

/-! ## One movement, one gesture -/

variable [LinearOrder K] [IsStrictOrderedRing K]

/-- One movement gives one gesture, whatever is fed, if and only if no cooldown is over before the
window of its gesture is. -/
theorem oneGesture_iff (sqrt : K → K) (hSqrt : IsSqrt sqrt) (ch : MotionChannel K)
    (hCh : ch ∈ motionInit) (dts : List K) (hPos : ∀ dt ∈ dts, 0 < dt) :
    (∀ calls, activeDts calls = dts → OneGesture (outcomes sqrt ch calls)) ↔
      CooldownsOutlast dts := by
  obtain ⟨i, -, rfl⟩ := mem_map.mp hCh
  have hZero : sqrt 0 = 0 := by
    simpa using (hSqrt 0 le_rfl).2
  constructor
  · intro hAll u v hFour hLt hNear hv
    by_contra hOver
    refine not_oneGesture_spike hZero hFour hPos hLt hNear hv (not_lt.mp hOver) ?_
    have hRun := hAll (fedCalls (spikeSamples u dts))
      ((activeDts_fedCalls _).trans (spikeSamples_dts u dts))
    rw [outcomes_fedCalls] at hRun
    exact hRun
  · rintro hOutlast calls rfl
    obtain ⟨us, hRun, hDts⟩ := outcomes_eq_detectRun sqrt
      (⟨i, false, ⟨cmVec3Zero, cmVec3Zero, false⟩, .initial⟩ : MotionChannel K) calls
    rw [if_neg Bool.false_ne_true] at hDts
    rw [← hDts] at hOutlast hPos
    rw [hRun]
    exact oneGesture_of_outlast (fun p hp => hPos p.2 (mem_map_of_mem hp)) hOutlast

/-- Ten updates a second, of the first channel. -/
theorem oneGesture_iff_tenths :
    (∀ calls, activeDts calls = List.replicate 8 (1 / 10) → OneGesture (outcomes Real.sqrt
      ⟨0, false, ⟨cmVec3Zero, cmVec3Zero, false⟩, .initial⟩ calls)) ↔
      CooldownsOutlast (List.replicate 8 (1 / 10 : ℝ)) :=
  oneGesture_iff Real.sqrt (fun x hx => ⟨Real.sqrt_nonneg x, Real.mul_self_sqrt hx⟩) _
    (mem_map.mpr ⟨0, by decide, rfl⟩) _ fun dt hdt => by
      rw [eq_of_mem_replicate hdt]
      norm_num

/-- At ten updates a second a spike in the fifth sample is reported with the fifth update and again
with the eighth. -/
theorem spike_reported_twice :
    (∀ dt ∈ activeDts (fedCalls (spikeSamples 4 (List.replicate 8 (1 / 10 : ℝ)))), 0 < dt) ∧
      ¬OneGesture (outcomes Real.sqrt ⟨0, false, ⟨cmVec3Zero, cmVec3Zero, false⟩, .initial⟩
        (fedCalls (spikeSamples 4 (List.replicate 8 (1 / 10))))) := by
  have hPos : ∀ dt ∈ List.replicate 8 (1 / 10 : ℝ), 0 < dt := by
    intro dt hdt
    rw [eq_of_mem_replicate hdt]
    norm_num
  constructor
  · rw [activeDts_fedCalls, spikeSamples_dts]
    exact hPos
  · rw [outcomes_fedCalls]
    have hOver : 3 / 10 ≤ elapsed (List.replicate 8 (1 / 10 : ℝ)) 4 7 := by
      norm_num [elapsed]
    exact not_oneGesture_spike Real.sqrt_zero le_rfl hPos (by decide) (by decide) (by decide) hOver

/-- With more than thirty updates a second no cooldown is over too early. -/
theorem cooldownsOutlast_of_fast {dts : List K} (hFast : ∀ dt ∈ dts, dt < 1 / 30) :
    CooldownsOutlast dts := by
  intro u v _ hLt hNear hv
  have hLength : ((dts.take (v + 1)).drop (u + 1)).length = v - u := by
    rw [length_drop, length_take]
    omega
  have hSome : (dts.take (v + 1)).drop (u + 1) ≠ [] := ne_nil_of_length_pos (by omega)
  have hBound := sum_lt_sum_of_ne_nil hSome id (fun _ => (1 / 30 : K)) fun dt hdt =>
    hFast dt (mem_of_mem_take (mem_of_mem_drop hdt))
  have hNine : ((v - u : Nat) : K) ≤ 9 := by
    exact_mod_cast (by omega : v - u ≤ 9)
  rw [map_id, map_const', sum_replicate, hLength, nsmul_eq_mul] at hBound
  unfold elapsed
  linarith

end Calynda.Motion
