import Calynda.Jsx.Pieces
import Calynda.Lib.Doubling

/-!
# Writes of the rewriting

`rewrite_signal_expr` writes into a buffer that doubles once for each append, and
`emit_text_effects` into buffers of fixed sizes. A run ends at its first access that is outside
of a buffer or behind the terminator of its text.
-/

namespace Calynda.Jsx

open Lib

inductive Fault where
  /-- A write at or behind the end of a buffer. -/
  | write
  /-- A read behind the terminator of a text. -/
  | read
  deriving DecidableEq, Repr

/-! ## Rewriting -/

def WorkBuf.put (b : WorkBuf) (s : CText) : Except Fault WorkBuf :=
  match b.append s with
  | some b => .ok b
  | none => .error .write

def WorkBuf.close (b : WorkBuf) : Except Fault CText :=
  match b.finish with
  | some text => .ok text
  | none => .error .write

def WorkBuf.putGetter (b : WorkBuf) (name : CText) : Except Fault WorkBuf := do
  let b ← b.put "(int)solite_signal_get(sig_".toList
  let b ← b.put name
  b.put ")".toList

def WorkBuf.putSetter (b : WorkBuf) (name written : CText) : Except Fault WorkBuf := do
  let b ← b.put "solite_signal_set(sig_".toList
  let b ← b.put name
  let b ← b.put ", (CalyndaRtWord)(".toList
  let b ← b.put written
  b.put "))".toList

/-- The loop of `rewrite_signal_expr` up to its first fault. Without a closing parenthesis the
setter is written, and then the scan goes on behind the terminator. -/
def rewriteRun (signals : List SignalInfo) :
    Nat → Option Char → CText → WorkBuf → Except Fault WorkBuf
  | 0, _, _, _ => .error .read
  | _ + 1, _, [], b => .ok b
  | fuel + 1, prev, c :: rest, b =>
    match setterAt signals (c :: rest) with
    | some (name, args) =>
      match closeParen 1 args with
      | some (inner, after) => do
        let written ← (← rewriteRun signals fuel none inner (.ofText inner)).close
        rewriteRun signals fuel (some ')') after (← b.putSetter name written)
      | none => do
        let written ← (← rewriteRun signals fuel none args (.ofText args)).close
        let _ ← b.putSetter name written
        .error .read
    | none =>
      match getterAt signals prev (c :: rest) with
      | some (name, after) => do
        rewriteRun signals fuel (some ')') after (← b.putGetter name)
      | none => do
        rewriteRun signals fuel (some c) rest (← b.put [c])

def rewriteExprRun (signals : List SignalInfo) (raw : CText) : Except Fault CText :=
  if signals.isEmpty then .ok raw
  else do (← rewriteRun signals (raw.length + 1) none raw (.ofText raw)).close

/-! ## Templates -/

def fmtSize : Nat := 256

def argsSize : Nat := 512

/-- A write of some characters at the end of what a buffer of `size` characters holds. -/
def putFixed (size : Nat) (text s : CText) : Except Fault CText :=
  if text.length + s.length ≤ size then .ok (text ++ s) else .error .write

/-- The terminators of both buffers. -/
def endTemplate (fmt args : CText) : Except Fault (CText × CText) :=
  if fmt.length < fmtSize ∧ args.length < argsSize then .ok (fmt, args) else .error .write

/-- The loop of `emit_text_effects` over a template up to its first fault. -/
def templateRun (signals : List SignalInfo) :
    Nat → CText → CText → CText → Except Fault (CText × CText)
  | 0, _, _, _ => .error .read
  | _ + 1, [], fmt, args => endTemplate fmt args
  | fuel + 1, c :: rest, fmt, args =>
    if c = backtick then endTemplate fmt args
    else if c = '$' ∧ rest.head? = some leftBrace then do
      let rewritten ← rewriteExprRun signals (closeBrace 1 rest.tail).1
      let fmt ← putFixed fmtSize fmt ['%']
      let fmt ← putFixed fmtSize fmt ['d']
      let args ← if args = [] then pure [] else putFixed argsSize args [',', ' ']
      let args ← putFixed argsSize args rewritten
      templateRun signals fuel (closeBrace 1 rest.tail).2 fmt args
    else do
      let fmt ← putFixed fmtSize fmt [c]
      templateRun signals fuel rest fmt args

/-- The format and the arguments of the function of a reactive expression; without the name of a
signal in it there is none, and nothing is written. -/
def effectRun (signals : List SignalInfo) (raw : CText) : Except Fault (CText × CText) :=
  if hasSignalRef signals raw = false then pure ([], [])
  else if raw.head? = some backtick then templateRun signals (raw.length + 1) raw.tail [] []
  else do
    let rewritten ← rewriteExprRun signals (raw ++ ['(', ')'])
    pure (['%', 'd'], rewritten)

/-! ## Buffers that have doubled when they had to -/

/-- A buffer of `rewrite_signal_expr` with some text, whose first capacity was `cap`. -/
def grown (cap : Nat) (text : CText) : WorkBuf := ⟨text, roomFor cap text.length⟩

def startCap (raw : CText) : Nat := raw.length * 4 + 256

section Grown

variable {cap : Nat} {text s w : CText}

theorem ofText_eq (raw : CText) : WorkBuf.ofText raw = grown (startCap raw) [] := by
  rw [grown, List.length_nil, roomFor_zero]
  rfl

theorem close_grown (hCap : 0 < cap) (text : CText) : (grown cap text).close = .ok text := by
  have hLt := lt_roomFor hCap text.length
  rw [WorkBuf.close, WorkBuf.finish, grown, if_pos hLt]

theorem put_of_lt {b : WorkBuf} (h : b.text.length + s.length < b.cap) :
    b.put s = .ok ⟨b.text ++ s, b.cap⟩ := by
  have hStay : ¬ b.cap ≤ b.text.length + s.length := by omega
  rw [WorkBuf.put, WorkBuf.append]
  rw [if_neg hStay, if_pos (Nat.le_of_lt h)]

theorem put_of_le {b : WorkBuf} (h : b.cap ≤ b.text.length + s.length)
    (hDouble : b.text.length + s.length ≤ b.cap * 2) :
    b.put s = .ok ⟨b.text ++ s, b.cap * 2⟩ := by
  rw [WorkBuf.put, WorkBuf.append]
  rw [if_pos h, if_pos hDouble]

theorem put_overflow {b : WorkBuf} (h : b.cap * 2 < b.text.length + s.length) :
    b.put s = .error .write := by
  have hGrow : b.cap ≤ b.text.length + s.length := by omega
  rw [WorkBuf.put, WorkBuf.append]
  rw [if_pos hGrow, if_neg (Nat.not_le_of_lt h)]

/-- What ends in front of the end of the doubled buffer fits, and the buffer has the room for it. -/
theorem put_grown_of_lt (hCap : 0 < cap)
    (h : text.length + s.length < roomFor cap text.length * 2) :
    (grown cap text).put s = .ok (grown cap (text ++ s)) := by
  by_cases hGrow : roomFor cap text.length ≤ text.length + s.length
  · have hRoom := roomFor_double hCap hGrow h
    rw [put_of_le hGrow (Nat.le_of_lt h), grown, grown, List.length_append, hRoom]
  · have hStay : text.length + s.length < roomFor cap text.length := by omega
    have hRoom := roomFor_same hCap (Nat.le_add_right text.length s.length) hStay
    rw [put_of_lt hStay, grown, grown, List.length_append, hRoom]

/-- What is shorter than the first capacity fits. -/
theorem put_grown (hCap : 0 < cap) (h : s.length < cap) :
    (grown cap text).put s = .ok (grown cap (text ++ s)) := by
  have hLt := lt_roomFor hCap text.length
  have hLe := le_roomFor cap text.length
  exact put_grown_of_lt hCap (by omega)

/-- The argument of a setter fits where the buffer that is doubled once holds it. -/
theorem put_arg (hCap : 256 ≤ cap) (h : text.length + w.length ≤ roomFor cap text.length * 2) :
    ((grown cap text).put w >>= fun b => b.put "))".toList) =
      .ok (grown cap (text ++ w ++ "))".toList)) := by
  have hLe := le_roomFor cap text.length
  have hTwo : "))".toList.length = 2 := rfl
  rcases Nat.lt_or_eq_of_le h with hLt | hFull
  · rw [put_grown_of_lt (by omega) hLt]
    exact put_grown (by omega) (by omega)
  · -- the argument fills the doubled buffer, and the parentheses double it again
    have hOnce : roomFor cap (text.length + w.length - 1) = roomFor cap text.length * 2 :=
      roomFor_double (by omega) (by omega) (by omega)
    have hTwice : roomFor cap (text.length + w.length + 2) = roomFor cap text.length * 2 * 2 := by
      rw [← hOnce]
      exact roomFor_double (by omega) (by omega) (by omega)
    have hGrow : roomFor cap text.length ≤ text.length + w.length := by omega
    have hAgain : (⟨text ++ w, roomFor cap text.length * 2⟩ : WorkBuf).put "))".toList =
        .ok ⟨text ++ w ++ "))".toList, roomFor cap text.length * 2 * 2⟩ := by
      apply put_of_le
      · show roomFor cap text.length * 2 ≤ (text ++ w).length + 2
        rw [List.length_append]
        omega
      · show (text ++ w).length + 2 ≤ roomFor cap text.length * 2 * 2
        rw [List.length_append]
        omega
    have hPut : (grown cap text).put w = .ok ⟨text ++ w, roomFor cap text.length * 2⟩ :=
      put_of_le hGrow h
    rw [hPut]
    refine hAgain.trans ?_
    rw [grown, List.length_append, List.length_append, hTwo, hTwice]

/-- Three short texts one after another. -/
theorem put_three (hCap : 0 < cap) {a b c : CText} (ha : a.length < cap) (hb : b.length < cap)
    (hc : c.length < cap) :
    (do
      let buf ← (grown cap text).put a
      let buf ← buf.put b
      buf.put c) = .ok (grown cap (text ++ (a ++ b ++ c))) := by
  rw [put_grown hCap ha]
  show (WorkBuf.put _ b >>= _) = _
  rw [put_grown hCap hb]
  show WorkBuf.put _ c = _
  rw [put_grown hCap hc, List.append_assoc, List.append_assoc, List.append_assoc]

theorem putGetter_grown {name : CText} (hCap : 256 ≤ cap) (h : name.length < cap) :
    (grown cap text).putGetter name = .ok (grown cap (text ++ getterText name)) :=
  put_three (by omega) (Nat.lt_of_lt_of_le (by decide) hCap) h (Nat.lt_of_lt_of_le (by decide) hCap)

theorem putSetter_eq {name : CText} (hCap : 256 ≤ cap) (h : name.length < cap) :
    (grown cap text).putSetter name w =
      (grown cap (text ++ setterHead name)).put w >>= fun b => b.put "))".toList := by
  have hHead : _ = Except.ok (grown cap (text ++ setterHead name)) := put_three (by omega)
    (Nat.lt_of_lt_of_le (by decide : "solite_signal_set(sig_".toList.length < 256) hCap) h
    (Nat.lt_of_lt_of_le (by decide : ", (CalyndaRtWord)(".toList.length < 256) hCap)
  have hSplit : (grown cap text).putSetter name w =
      (do
        let b ← (grown cap text).put "solite_signal_set(sig_".toList
        let b ← b.put name
        b.put ", (CalyndaRtWord)(".toList) >>= fun b => b.put w >>= fun b => b.put "))".toList := by
    rw [WorkBuf.putSetter]
    simp only [bind_assoc]
  rw [hSplit, hHead]
  rfl

/-- A setter is written where its argument fits. -/
theorem putSetter_grown {name : CText} (hCap : 256 ≤ cap) (h : name.length < cap)
    (hFits : (text ++ setterHead name).length + w.length ≤
      roomFor cap (text ++ setterHead name).length * 2) :
    (grown cap text).putSetter name w =
      .ok (grown cap (text ++ setterHead name ++ w ++ "))".toList)) := by
  rw [putSetter_eq hCap h, put_arg hCap hFits]

theorem putSetter_overflow {name : CText} (hCap : 256 ≤ cap) (h : name.length < cap)
    (hOver : ¬ (text ++ setterHead name).length + w.length ≤
      roomFor cap (text ++ setterHead name).length * 2) :
    (grown cap text).putSetter name w = .error .write := by
  have hPut : (grown cap (text ++ setterHead name)).put w = .error .write :=
    put_overflow (Nat.lt_of_not_le hOver)
  rw [putSetter_eq hCap h, hPut]
  rfl

end Grown

/-! ## Texts that fit -/

namespace Pieces

/-- The pieces fit behind `n` characters in a buffer that was made for `cap`: each argument of a
setter ends at twice the room for what is written in front of it, at the latest. Behind an
argument that is never closed nothing is written. -/
def Fits : Nat → Nat → Pieces → Prop
  | _, _, done => True
  | cap, n, char _ rest => rest.Fits cap (n + 1)
  | cap, n, getter name rest => rest.Fits cap (n + (getterText name).length)
  | cap, n, setter name arg inner rest =>
    inner.Fits (startCap arg) 0 ∧ (inner.closed = true →
      n + (setterHead name).length + inner.render.length ≤
        roomFor cap (n + (setterHead name).length) * 2 ∧
      rest.Fits cap (n + (setterHead name).length + inner.render.length + 2))
  | cap, n, unclosed name arg inner =>
    inner.Fits (startCap arg) 0 ∧ (inner.closed = true →
      n + (setterHead name).length + inner.render.length ≤
        roomFor cap (n + (setterHead name).length) * 2)

end Pieces

section Runs

variable {signals : List SignalInfo} {fuel cap : Nat} {prev : Option Char} {c : Char}
  {p rest text name args arg after : CText}

theorem startCap_bounds (raw : CText) : 256 ≤ startCap raw ∧ raw.length < startCap raw := by
  unfold startCap
  omega

/-! One turn of the run. -/

theorem rewriteRun_setter (b : WorkBuf) (h : setterAt signals (c :: rest) = some (name, args))
    (hClose : closeParen 1 args = some (arg, after)) :
    rewriteRun signals (fuel + 1) prev (c :: rest) b =
      ((rewriteRun signals fuel none arg (.ofText arg) >>= WorkBuf.close) >>= b.putSetter name) >>=
        rewriteRun signals fuel (some ')') after := by
  rw [rewriteRun, h]
  dsimp only
  rw [hClose]
  simp only [bind_assoc]

theorem rewriteRun_unclosed (b : WorkBuf) (h : setterAt signals (c :: rest) = some (name, args))
    (hClose : closeParen 1 args = none) :
    rewriteRun signals (fuel + 1) prev (c :: rest) b =
      ((rewriteRun signals fuel none args (.ofText args) >>= WorkBuf.close) >>= b.putSetter name) >>=
        fun _ => .error .read := by
  rw [rewriteRun, h]
  dsimp only
  rw [hClose]
  simp only [bind_assoc]

theorem rewriteRun_getter (b : WorkBuf) (h : setterAt signals (c :: rest) = none)
    (hGetter : getterAt signals prev (c :: rest) = some (name, after)) :
    rewriteRun signals (fuel + 1) prev (c :: rest) b =
      b.putGetter name >>= rewriteRun signals fuel (some ')') after := by
  rw [rewriteRun, h]
  dsimp only
  rw [hGetter]

theorem rewriteRun_char (b : WorkBuf) (h : setterAt signals (c :: rest) = none)
    (hGetter : getterAt signals prev (c :: rest) = none) :
    rewriteRun signals (fuel + 1) prev (c :: rest) b =
      b.put [c] >>= rewriteRun signals fuel (some c) rest := by
  rw [rewriteRun, h]
  dsimp only
  rw [hGetter]

theorem length_append_two (text : CText) : (text ++ "))".toList).length = text.length + 2 :=
  List.length_append

/-- What is to become of a run: what fits is written, up to an argument that is never closed. -/
def runResult (signals : List SignalInfo) (fuel cap : Nat) (prev : Option Char) (p text : CText) :
    Except Fault WorkBuf :=
  if (piecesOf signals fuel prev p).closed then
    .ok (grown cap (text ++ (piecesOf signals fuel prev p).render))
  else .error .read

/-- What is to become of the argument of a setter. -/
def argResult (signals : List SignalInfo) (fuel : Nat) (arg : CText) : Except Fault CText :=
  if (piecesOf signals fuel none arg).closed then .ok (piecesOf signals fuel none arg).render
  else .error .read

theorem close_run (h : rewriteRun signals fuel none arg (grown (startCap arg) []) =
    runResult signals fuel (startCap arg) none arg []) :
    (rewriteRun signals fuel none arg (.ofText arg) >>= WorkBuf.close) =
      argResult signals fuel arg := by
  have hMin := (startCap_bounds arg).1
  rw [ofText_eq, h, runResult, argResult]
  split
  · exact close_grown (by omega) _
  · rfl

theorem rewriteRun_of_fits (hFuel : p.length < fuel) (hCap : p.length < cap) (hMin : 256 ≤ cap)
    (h : (piecesOf signals fuel prev p).Fits cap text.length) :
    rewriteRun signals fuel prev p (grown cap text) = runResult signals fuel cap prev p text := by
  induction fuel generalizing prev p cap text with
  | zero => exact absurd hFuel (Nat.not_lt_zero _)
  | succ fuel ih =>
    have hInner : ∀ {arg : CText}, arg.length < fuel →
        (piecesOf signals fuel none arg).Fits (startCap arg) 0 →
        (rewriteRun signals fuel none arg (.ofText arg) >>= WorkBuf.close) =
          argResult signals fuel arg := fun hArg hFits =>
      close_run (ih hArg (startCap_bounds _).2 (startCap_bounds _).1 hFits)
    cases p with
    | nil =>
      rw [rewriteRun, runResult, piecesOf, Pieces.render, List.append_nil]
      rfl
    | cons c rest =>
      rw [List.length_cons] at hFuel hCap
      cases turn_cases signals prev c rest with
      | setter hSetter hClose hLength =>
        rw [piecesOf_setter fuel hSetter hClose, Pieces.Fits, ← List.length_append] at h
        rw [rewriteRun_setter _ hSetter hClose, hInner (by omega) h.1, argResult, runResult,
          piecesOf_setter fuel hSetter hClose, Pieces.closed, Pieces.render]
        obtain ⟨-, hBehind⟩ := h
        cases hClosed : (piecesOf signals fuel none _).closed with
        | true =>
          obtain ⟨hArg, hRest⟩ := hBehind hClosed
          rw [← List.length_append, ← length_append_two] at hRest
          have hNext := ih (by omega) (by omega) hMin hRest
          rw [if_pos rfl, Bool.true_and, ← List.append_assoc, ← List.append_assoc,
            ← List.append_assoc]
          show (WorkBuf.putSetter _ _ _ >>= _) = _
          rw [putSetter_grown hMin (by omega) hArg]
          exact hNext
        | false => rfl
      | unclosed hSetter hClose hLength =>
        rw [piecesOf_unclosed fuel hSetter hClose, Pieces.Fits, ← List.length_append] at h
        rw [rewriteRun_unclosed _ hSetter hClose, hInner (by omega) h.1, argResult, runResult,
          piecesOf_unclosed fuel hSetter hClose, Pieces.closed]
        obtain ⟨-, hBehind⟩ := h
        cases hClosed : (piecesOf signals fuel none _).closed with
        | true =>
          rw [if_pos rfl]
          show (WorkBuf.putSetter _ _ _ >>= _) = _
          rw [putSetter_grown hMin (by omega) (hBehind hClosed)]
          rfl
        | false => rfl
      | getter hSetter hGetter hLength =>
        rw [piecesOf_getter fuel hSetter hGetter, Pieces.Fits, ← List.length_append] at h
        rw [rewriteRun_getter _ hSetter hGetter, putGetter_grown hMin (by omega), runResult,
          piecesOf_getter fuel hSetter hGetter, Pieces.closed, Pieces.render,
          ← List.append_assoc]
        exact ih (by omega) (by omega) hMin h
      | char hSetter hGetter =>
        have hOne : [c].length < cap := Nat.lt_of_lt_of_le (by decide : 1 < 256) hMin
        have hAppend : (text ++ [c]).length = text.length + 1 := List.length_append
        rw [piecesOf_char fuel hSetter hGetter, Pieces.Fits, ← hAppend] at h
        rw [rewriteRun_char _ hSetter hGetter, put_grown (by omega) hOne, runResult,
          piecesOf_char fuel hSetter hGetter, Pieces.closed, Pieces.render,
          List.append_cons text c (piecesOf signals fuel (some c) rest).render]
        exact ih (by omega) (by omega) hMin h

theorem close_of_fits (hArg : arg.length < fuel)
    (h : (piecesOf signals fuel none arg).Fits (startCap arg) 0) :
    (rewriteRun signals fuel none arg (.ofText arg) >>= WorkBuf.close) =
      argResult signals fuel arg :=
  close_run (rewriteRun_of_fits hArg (startCap_bounds arg).2 (startCap_bounds arg).1 h)

/-- What does not fit is a write outside of a buffer. -/
theorem rewriteRun_of_not_fits (hFuel : p.length < fuel) (hCap : p.length < cap)
    (hMin : 256 ≤ cap) (h : ¬ (piecesOf signals fuel prev p).Fits cap text.length) :
    rewriteRun signals fuel prev p (grown cap text) = .error .write := by
  induction fuel generalizing prev p cap text with
  | zero => exact absurd hFuel (Nat.not_lt_zero _)
  | succ fuel ih =>
    cases p with
    | nil => exact absurd trivial h
    | cons c rest =>
      rw [List.length_cons] at hFuel hCap
      cases turn_cases signals prev c rest with
      | @setter name args arg after hSetter hClose hLength =>
        rw [piecesOf_setter fuel hSetter hClose, Pieces.Fits, ← List.length_append] at h
        rw [rewriteRun_setter _ hSetter hClose]
        by_cases hFits : (piecesOf signals fuel none arg).Fits (startCap arg) 0
        · obtain ⟨hClosed, hOver⟩ := Classical.not_imp.1 fun hAll => h ⟨hFits, hAll⟩
          rw [close_of_fits (by omega) hFits, argResult, if_pos hClosed]
          show (WorkBuf.putSetter _ _ _ >>= _) = _
          by_cases hArg : (text ++ setterHead name).length +
              (piecesOf signals fuel none arg).render.length ≤
                roomFor cap (text ++ setterHead name).length * 2
          · rw [putSetter_grown hMin (by omega) hArg]
            refine ih (by omega) (by omega) hMin fun hRest => hOver ⟨hArg, ?_⟩
            rwa [length_append_two, List.length_append] at hRest
          · rw [putSetter_overflow hMin (by omega) hArg]
            rfl
        · have hRun : rewriteRun signals fuel none arg (grown (startCap arg) []) = .error .write :=
            ih (by omega) (startCap_bounds arg).2 (startCap_bounds arg).1 hFits
          rw [ofText_eq, hRun]
          rfl
      | @unclosed name args hSetter hClose hLength =>
        rw [piecesOf_unclosed fuel hSetter hClose, Pieces.Fits, ← List.length_append] at h
        rw [rewriteRun_unclosed _ hSetter hClose]
        by_cases hFits : (piecesOf signals fuel none args).Fits (startCap args) 0
        · obtain ⟨hClosed, hOver⟩ := Classical.not_imp.1 fun hAll => h ⟨hFits, hAll⟩
          rw [close_of_fits (by omega) hFits, argResult, if_pos hClosed]
          show (WorkBuf.putSetter _ _ _ >>= _) = _
          rw [putSetter_overflow hMin (by omega) hOver]
          rfl
        · have hRun : rewriteRun signals fuel none args (grown (startCap args) []) = .error .write :=
            ih (by omega) (startCap_bounds args).2 (startCap_bounds args).1 hFits
          rw [ofText_eq, hRun]
          rfl
      | getter hSetter hGetter hLength =>
        rw [piecesOf_getter fuel hSetter hGetter, Pieces.Fits, ← List.length_append] at h
        rw [rewriteRun_getter _ hSetter hGetter, putGetter_grown hMin (by omega)]
        exact ih (by omega) (by omega) hMin h
      | char hSetter hGetter =>
        have hOne : [c].length < cap := Nat.lt_of_lt_of_le (by decide : 1 < 256) hMin
        have hAppend : (text ++ [c]).length = text.length + 1 := List.length_append
        rw [piecesOf_char fuel hSetter hGetter, Pieces.Fits, ← hAppend] at h
        rw [rewriteRun_char _ hSetter hGetter, put_grown (by omega) hOne]
        exact ih (by omega) (by omega) hMin h

end Runs

/-! ## Whole expressions -/

/-- The text fits into the buffer that `rewrite_signal_expr` makes for it. -/
def ExprFits (signals : List SignalInfo) (raw : CText) : Prop :=
  (pieces signals raw).Fits (startCap raw) 0

section Expressions

variable {signals : List SignalInfo} {raw : CText}

/-- Without signals every character is copied. -/
theorem piecesOf_noSignals (fuel n : Nat) (prev : Option Char) (p : CText) (hFuel : p.length < fuel)
    (cap : Nat) : (piecesOf [] fuel prev p).Fits cap n ∧ (piecesOf [] fuel prev p).closed = true ∧
      (piecesOf [] fuel prev p).render = p := by
  induction fuel generalizing n prev p with
  | zero => exact absurd hFuel (Nat.not_lt_zero _)
  | succ fuel ih =>
    cases p with
    | nil => exact ⟨trivial, rfl, rfl⟩
    | cons c rest =>
      have hSetter : setterAt [] (c :: rest) = none := by
        unfold setterAt
        split <;> rfl
      obtain ⟨hFits, hClosed, hRender⟩ :=
        ih (n + 1) (some c) rest (Nat.lt_of_succ_lt_succ hFuel)
      rw [piecesOf_char fuel hSetter rfl, Pieces.Fits, Pieces.closed, Pieces.render, hRender]
      exact ⟨hFits, hClosed, rfl⟩

theorem rewriteExprRun_of_fits (h : ExprFits signals raw) : rewriteExprRun signals raw =
    if (pieces signals raw).closed then .ok (pieces signals raw).render else .error .read := by
  rw [rewriteExprRun]
  split
  case isTrue hEmpty =>
    obtain rfl := List.isEmpty_iff.1 hEmpty
    obtain ⟨-, hClosed, hRender⟩ :=
      piecesOf_noSignals (raw.length + 1) 0 none raw (Nat.lt_succ_self _) 0
    rw [pieces, hClosed, hRender]
    rfl
  case isFalse => exact close_of_fits (Nat.lt_succ_self _) h

theorem rewriteExprRun_of_not_fits (h : ¬ ExprFits signals raw) :
    rewriteExprRun signals raw = .error .write := by
  rw [rewriteExprRun]
  split
  case isTrue hEmpty =>
    obtain rfl := List.isEmpty_iff.1 hEmpty
    exact absurd (piecesOf_noSignals (raw.length + 1) 0 none raw (Nat.lt_succ_self _) _).1 h
  case isFalse =>
    have hRun : rewriteRun signals (raw.length + 1) none raw (grown (startCap raw) []) =
        .error .write :=
      rewriteRun_of_not_fits (Nat.lt_succ_self _) (startCap_bounds raw).2 (startCap_bounds raw).1 h
    rw [ofText_eq, hRun]
    rfl

theorem rewriteExprRun_ne_write :
    rewriteExprRun signals raw ≠ .error .write ↔ ExprFits signals raw := by
  by_cases h : ExprFits signals raw
  · rw [rewriteExprRun_of_fits h]
    refine iff_of_true ?_ h
    split <;> exact nofun
  · exact iff_of_false (not_not_intro (rewriteExprRun_of_not_fits h)) h

end Expressions

/-! ## The text that is written -/

section Written

variable {signals : List SignalInfo}

theorem toOption_bind {α β : Type} (x : Except Fault α) (f : α → Except Fault β) :
    (x >>= f).toOption = x.toOption.bind fun a => (f a).toOption := by
  cases x <;> rfl

theorem toOption_put (b : WorkBuf) (s : CText) : (b.put s).toOption = b.append s := by
  rw [WorkBuf.put]
  cases b.append s <;> rfl

theorem toOption_close (b : WorkBuf) : b.close.toOption = b.finish := by
  rw [WorkBuf.close]
  cases b.finish <;> rfl

/-- A run without a fault does what the loop does, and the loop has no result where one faults. -/
theorem toOption_rewriteRun (fuel : Nat) (prev : Option Char) (p : CText) (b : WorkBuf) :
    (rewriteRun signals fuel prev p b).toOption = rewriteLoop signals fuel prev p b := by
  induction fuel generalizing prev p b with
  | zero => rfl
  | succ fuel ih =>
    cases p with
    | nil => rfl
    | cons c rest =>
      rw [rewriteLoop]
      cases turn_cases signals prev c rest with
      | setter hSetter hClose hLength =>
        rw [rewriteRun_setter b hSetter hClose, hSetter]
        simp only [hClose, WorkBuf.putSetter, toOption_bind, toOption_put, toOption_close, ih,
          Option.bind_eq_bind, Option.bind_some, Option.bind_assoc]
      | unclosed hSetter hClose hLength =>
        rw [rewriteRun_unclosed b hSetter hClose, hSetter]
        simp only [hClose, toOption_bind, Option.bind_eq_bind, Option.bind_none]
        exact Option.bind_eq_none_iff.2 fun _ _ => rfl
      | getter hSetter hGetter hLength =>
        rw [rewriteRun_getter b hSetter hGetter, hSetter]
        simp only [hGetter, WorkBuf.putGetter, toOption_bind, toOption_put, ih,
          Option.bind_eq_bind, Option.bind_assoc]
      | char hSetter hGetter =>
        rw [rewriteRun_char b hSetter hGetter, hSetter]
        simp only [hGetter, toOption_bind, toOption_put, ih, Option.bind_eq_bind]

theorem toOption_rewriteExprRun (raw : CText) :
    (rewriteExprRun signals raw).toOption = rewriteSignalExpr signals raw := by
  rw [rewriteExprRun, rewriteSignalExpr]
  split
  · rfl
  · rw [toOption_bind, toOption_rewriteRun]
    exact congrArg _ (funext toOption_close)

/-- A text has a rewriting where it fits and every setter is closed, and then it is that of its
pieces. -/
theorem rewriteSignalExpr_eq_some {raw text : CText} : rewriteSignalExpr signals raw = some text ↔
    ExprFits signals raw ∧ (pieces signals raw).closed = true ∧
      (pieces signals raw).render = text := by
  rw [← toOption_rewriteExprRun]
  by_cases hFits : ExprFits signals raw
  · rw [rewriteExprRun_of_fits hFits, and_iff_right hFits]
    cases (pieces signals raw).closed with
    | true => exact Option.some_inj.trans (and_iff_right rfl).symm
    | false => exact iff_of_false nofun fun h => nomatch h.1
  · rw [rewriteExprRun_of_not_fits hFits]
    exact iff_of_false nofun fun h => hFits h.1

end Written

/-! ## Whole templates -/

inductive Segment where
  | char (c : Char)
  | expr (text : CText)

def segmentsOf : Nat → CText → List Segment
  | 0, _ => []
  | _ + 1, [] => []
  | fuel + 1, c :: rest =>
    if c = backtick then []
    else if c = '$' ∧ rest.head? = some leftBrace then
      .expr (closeBrace 1 rest.tail).1 :: segmentsOf fuel (closeBrace 1 rest.tail).2
    else .char c :: segmentsOf fuel rest

/-- The length of the arguments with one more. -/
def argsEnd (a : Nat) (rewritten : CText) : Nat := (if a = 0 then 0 else a + 2) + rewritten.length

/-- The segments fit behind `f` characters of the format and `a` of the arguments. -/
def SegmentsFit (signals : List SignalInfo) : Nat → Nat → List Segment → Prop
  | f, a, [] => f < fmtSize ∧ a < argsSize
  | f, a, .char _ :: rest => f + 1 ≤ fmtSize ∧ SegmentsFit signals (f + 1) a rest
  | f, a, .expr text :: rest =>
    ExprFits signals text ∧ ((pieces signals text).closed = true →
      f + 2 ≤ fmtSize ∧ argsEnd a (pieces signals text).render ≤ argsSize ∧
        SegmentsFit signals (f + 2) (argsEnd a (pieces signals text).render) rest)

section Templates

variable {signals : List SignalInfo} {fuel size : Nat} {fmt args text s : CText}

theorem length_closeBrace_le (depth : Nat) (p : CText) :
    (closeBrace depth p).2.length ≤ p.length := by
  induction p generalizing depth with
  | nil => exact Nat.le_refl _
  | cons c rest ih =>
    rw [closeBrace]
    dsimp only
    generalize (if c = leftBrace then depth + 1 else if c = rightBrace then depth - 1 else depth) = d
    split
    · exact Nat.le_succ _
    · exact Nat.le_succ_of_le (ih d)

theorem putFixed_of_le (h : text.length + s.length ≤ size) : putFixed size text s = .ok (text ++ s) :=
  if_pos h

theorem putFixed_of_lt (h : size < text.length + s.length) :
    putFixed size text s = .error .write := if_neg (Nat.not_le_of_lt h)

/-- A format specifier is written in two steps. -/
theorem putFmt_eq {α : Type} (next : CText → Except Fault α) :
    (do
      let fmt ← putFixed fmtSize fmt ['%']
      let fmt ← putFixed fmtSize fmt ['d']
      next fmt) =
    if fmt.length + 2 ≤ fmtSize then next (fmt ++ ['%', 'd']) else .error .write := by
  have hOne : (fmt ++ ['%']).length = fmt.length + 1 := List.length_append
  by_cases hFirst : fmt.length + 1 ≤ fmtSize
  · have hPut : putFixed fmtSize fmt ['%'] = .ok (fmt ++ ['%']) := putFixed_of_le hFirst
    rw [hPut]
    show (putFixed fmtSize (fmt ++ ['%']) ['d'] >>= next) = _
    split
    case isTrue hFits =>
      have hSecond : putFixed fmtSize (fmt ++ ['%']) ['d'] = .ok (fmt ++ ['%'] ++ ['d']) :=
        putFixed_of_le (by rw [hOne]; exact hFits)
      rw [hSecond, List.append_assoc]
      rfl
    case isFalse hFits =>
      have hSecond : putFixed fmtSize (fmt ++ ['%']) ['d'] = .error .write :=
        putFixed_of_lt (by rw [hOne]; exact Nat.lt_of_not_le hFits)
      rw [hSecond]
      rfl
  · have hPut : putFixed fmtSize fmt ['%'] = .error .write :=
      putFixed_of_lt (Nat.lt_of_not_le hFirst)
    rw [hPut, if_neg (by omega)]
    rfl

/-- The arguments with one more, behind a comma where they are not the first. -/
theorem putArgs_eq {α : Type} (w : CText) (next : CText → Except Fault α) :
    (do
      let args ← if args = [] then pure [] else putFixed argsSize args [',', ' ']
      let args ← putFixed argsSize args w
      next args) =
    if argsEnd args.length w ≤ argsSize then
      next ((if args = [] then [] else args ++ [',', ' ']) ++ w)
    else .error .write := by
  unfold argsEnd
  by_cases hEmpty : args = []
  · rw [if_pos hEmpty, if_pos hEmpty, hEmpty, List.length_nil, if_pos rfl]
    show (putFixed argsSize [] w >>= next) = _
    split
    case isTrue hFits =>
      rw [putFixed_of_le hFits]
      rfl
    case isFalse hFits =>
      rw [putFixed_of_lt (Nat.lt_of_not_le hFits)]
      rfl
  · have hLength : args.length ≠ 0 := fun h => hEmpty (List.length_eq_zero_iff.1 h)
    have hComma : (args ++ [',', ' ']).length = args.length + 2 := List.length_append
    rw [if_neg hEmpty, if_neg hEmpty, if_neg hLength]
    by_cases hFirst : args.length + 2 ≤ argsSize
    · have hPut : putFixed argsSize args [',', ' '] = .ok (args ++ [',', ' ']) := putFixed_of_le hFirst
      rw [hPut]
      show (putFixed argsSize (args ++ [',', ' ']) w >>= next) = _
      split
      case isTrue hFits =>
        rw [putFixed_of_le (by omega)]
        rfl
      case isFalse hFits =>
        rw [putFixed_of_lt (by omega)]
        rfl
    · have hPut : putFixed argsSize args [',', ' '] = .error .write :=
        putFixed_of_lt (Nat.lt_of_not_le hFirst)
      rw [hPut, if_neg (by omega)]
      rfl

theorem length_withComma (w : CText) :
    ((if args = [] then [] else args ++ [',', ' ']) ++ w).length = argsEnd args.length w := by
  unfold argsEnd
  by_cases hEmpty : args = []
  · rw [if_pos hEmpty, hEmpty]
    simp
  · have hLength : args.length ≠ 0 := fun h => hEmpty (List.length_eq_zero_iff.1 h)
    rw [if_neg hEmpty, if_neg hLength, List.length_append, List.length_append]
    rfl

theorem endTemplate_ne_write : endTemplate fmt args ≠ .error .write ↔
    SegmentsFit signals fmt.length args.length [] := by
  rw [endTemplate, SegmentsFit]
  split
  case isTrue h => exact iff_of_true nofun h
  case isFalse h => exact iff_of_false (not_not_intro rfl) h

/-- A template is written into its buffers exactly where its segments fit. -/
theorem templateRun_ne_write {p : CText} (hFuel : p.length < fuel) :
    templateRun signals fuel p fmt args ≠ .error .write ↔
      SegmentsFit signals fmt.length args.length (segmentsOf fuel p) := by
  induction fuel generalizing p fmt args with
  | zero => exact absurd hFuel (Nat.not_lt_zero _)
  | succ fuel ih =>
    cases p with
    | nil => exact endTemplate_ne_write
    | cons c rest =>
      rw [List.length_cons] at hFuel
      rw [templateRun, segmentsOf]
      split
      · exact endTemplate_ne_write
      · split
        · have hTail : rest.tail.length ≤ rest.length := by
            rw [List.length_tail]
            omega
          have hAfter := length_closeBrace_le 1 rest.tail
          generalize (closeBrace 1 rest.tail).1 = expr
          rw [SegmentsFit]
          by_cases hFits : ExprFits signals expr
          · rw [rewriteExprRun_of_fits hFits]
            cases hClosed : (pieces signals expr).closed with
            | false => exact iff_of_true nofun ⟨hFits, nofun⟩
            | true =>
              have hTwo : (fmt ++ ['%', 'd']).length = fmt.length + 2 := List.length_append
              rw [if_pos rfl, and_iff_right hFits, imp_iff_right rfl]
              show (putFixed fmtSize fmt ['%'] >>= _) ≠ _ ↔ _
              rw [putFmt_eq]
              split
              case isFalse hFmt => exact iff_of_false (not_not_intro rfl) fun h => hFmt h.1
              case isTrue hFmt =>
                rw [putArgs_eq, and_iff_right hFmt]
                split
                case isFalse hArgs =>
                  exact iff_of_false (not_not_intro rfl) fun h => hArgs h.1
                case isTrue hArgs =>
                  rw [and_iff_right hArgs, ← length_withComma, ← hTwo]
                  exact ih (by omega)
          · rw [rewriteExprRun_of_not_fits hFits]
            exact iff_of_false (not_not_intro rfl) fun h => hFits h.1
        · rw [SegmentsFit]
          have hAppend : (fmt ++ [c]).length = fmt.length + 1 := List.length_append
          by_cases hFits : fmt.length + 1 ≤ fmtSize
          · have hPut : putFixed fmtSize fmt [c] = .ok (fmt ++ [c]) := putFixed_of_le hFits
            rw [hPut, and_iff_right hFits, ← hAppend]
            exact ih (by omega)
          · have hPut : putFixed fmtSize fmt [c] = .error .write :=
              putFixed_of_lt (Nat.lt_of_not_le hFits)
            rw [hPut]
            exact iff_of_false (not_not_intro rfl) fun h => hFits h.1

end Templates

/-! ## Buffers of a text -/

/-- The text of a reactive expression fits into the buffers of its function, if it has one. -/
def EffectFits (signals : List SignalInfo) (raw : CText) : Prop :=
  if hasSignalRef signals raw = false then True
  else if raw.head? = some backtick then SegmentsFit signals 0 0 (segmentsOf (raw.length + 1) raw.tail)
  else ExprFits signals (raw ++ ['(', ')'])

/-- Neither the rewriting of a text nor the function of it as a reactive expression writes outside
of a buffer. -/
structure WithinBuffers (signals : List SignalInfo) (raw : CText) : Prop where
  rewrite : rewriteExprRun signals raw ≠ .error .write
  effect : effectRun signals raw ≠ .error .write

section WithinBuffers

variable {signals : List SignalInfo} {raw : CText}

theorem effectRun_ne_write : effectRun signals raw ≠ .error .write ↔ EffectFits signals raw := by
  rw [effectRun, EffectFits]
  split
  · exact iff_of_true nofun trivial
  split
  · refine templateRun_ne_write ?_
    rw [List.length_tail]
    omega
  · rw [← rewriteExprRun_ne_write]
    cases rewriteExprRun signals (raw ++ ['(', ')']) with
    | ok w => exact iff_of_true nofun nofun
    | error fault =>
      cases fault with
      | write => exact iff_of_false (not_not_intro rfl) (not_not_intro rfl)
      | read => exact iff_of_true nofun nofun

/-- The writes are inside of the buffers exactly for texts that fit: where the argument of each
setter ends at twice the room for what is in front of it, and a template that mentions a signal has
at most 255 characters of format and 511 of arguments. -/
theorem withinBuffers_iff (signals : List SignalInfo) (raw : CText) :
    WithinBuffers signals raw ↔ ExprFits signals raw ∧ EffectFits signals raw := by
  rw [← rewriteExprRun_ne_write, ← effectRun_ne_write]
  exact ⟨fun h => ⟨h.rewrite, h.effect⟩, fun h => ⟨h.1, h.2⟩⟩

end WithinBuffers

/-! ## A long argument -/

/-- Calls of a signal, one behind another. -/
def calls : Nat → CText
  | 0 => []
  | k + 1 => 'a' :: '(' :: ')' :: calls k

def aSignal : List SignalInfo := [⟨['a'], ['0']⟩]

theorem length_calls (k : Nat) : (calls k).length = 3 * k := by
  induction k with
  | zero => rfl
  | succ k ih =>
    rw [calls, List.length_cons, List.length_cons, List.length_cons, ih]
    omega

theorem closeParen_calls (k : Nat) : closeParen 1 (calls k ++ [')']) = some (calls k, []) := by
  induction k with
  | zero => rfl
  | succ k ih =>
    show ((closeParen 1 (calls k ++ [')'])).map _ |>.map _ |>.map _) = _
    rw [ih]
    rfl

/-- Each call is written as a getter of 29 characters. -/
theorem piecesOf_calls (fuel k : Nat) (prev : Option Char) (hPrev : atBoundary prev = true)
    (h : k < fuel) : (piecesOf aSignal fuel prev (calls k)).closed = true ∧
      (piecesOf aSignal fuel prev (calls k)).render.length = 29 * k := by
  induction k generalizing fuel prev with
  | zero =>
    obtain ⟨fuel, rfl⟩ : ∃ n, fuel = n + 1 := ⟨fuel - 1, by omega⟩
    exact ⟨rfl, rfl⟩
  | succ k ih =>
    obtain ⟨fuel, rfl⟩ : ∃ n, fuel = n + 1 := ⟨fuel - 1, by omega⟩
    obtain ⟨hClosed, hLength⟩ := ih fuel (some ')') rfl (by omega)
    have hGetter : getterAt aSignal prev (calls (k + 1)) = some (['a'], calls k) := by
      rw [getterAt, hPrev]
      rfl
    rw [calls, piecesOf_getter fuel rfl hGetter, Pieces.closed, Pieces.render, List.length_append,
      hLength]
    refine ⟨hClosed, ?_⟩
    have hText : (getterText ['a']).length = 29 := rfl
    omega

def setCalls (k : Nat) : CText := 's' :: ("et a(".toList ++ (calls k ++ [')']))

/-- The buffer of a setter with so many calls in its argument is too small when it has doubled. -/
theorem not_exprFits_calls {k : Nat} (h : 106 ≤ k) : ¬ ExprFits aSignal (setCalls k) := by
  intro hFits
  have hSetter : setterAt aSignal (setCalls k) = some (['a'], calls k ++ [')']) := rfl
  have hLength : (setCalls k).length = 3 * k + 7 := by
    rw [setCalls, List.length_cons, List.length_append, List.length_append, length_calls]
    show 5 + (3 * k + 1) + 1 = _
    omega
  have hHead : (setterHead ['a']).length = 41 := rfl
  have hCap : startCap (setCalls k) = (3 * k + 7) * 4 + 256 := by rw [startCap, hLength]
  have hRoom : roomFor (startCap (setCalls k)) 41 = startCap (setCalls k) := by
    have hSame : roomFor (startCap (setCalls k)) 41 = roomFor (startCap (setCalls k)) 0 :=
      roomFor_same (by omega) (Nat.zero_le 41) (by rw [roomFor_zero]; omega)
    rw [hSame, roomFor_zero]
  obtain ⟨hClosed, hCalls⟩ := piecesOf_calls (setCalls k).length k none rfl (by omega)
  have hPieces : pieces aSignal (setCalls k) = .setter ['a'] (calls k)
      (piecesOf aSignal (setCalls k).length none (calls k))
      (piecesOf aSignal (setCalls k).length (some ')') []) :=
    piecesOf_setter _ hSetter (closeParen_calls k)
  rw [ExprFits, hPieces] at hFits
  have hArg := (hFits.2 hClosed).1
  rw [Nat.zero_add, hHead, hCalls, hRoom, hCap] at hArg
  omega

theorem not_withinBuffers_of_le {k : Nat} (h : 106 ≤ k) : ¬ WithinBuffers aSignal (setCalls k) :=
  fun hWithin => not_exprFits_calls h (rewriteExprRun_ne_write.1 hWithin.rewrite)

/-- A setter of 325 characters is written behind the end of its buffer. -/
theorem not_withinBuffers_calls : ¬ WithinBuffers aSignal (setCalls 106) :=
  not_withinBuffers_of_le (Nat.le_refl 106)

end Calynda.Jsx
