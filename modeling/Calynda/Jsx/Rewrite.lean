import Mathlib.Data.List.Infix

/-!
# Texts of component files

The emitter of component files copies the texts of handlers and of reactive expressions into C,
with the signals in them rewritten to calls of the runtime. A text is the list of its bytes. A
result `none` is a write or a read outside a buffer.
-/

namespace Calynda.Jsx

abbrev CText := List Char

structure SignalInfo where
  name : CText
  initText : CText

def maxSignals : Nat := 32

/-- `strstr` finds something. -/
def strstr (text needle : CText) : Bool :=
  text.tails.any fun rest => needle.isPrefixOf rest

/-- The buffer of `rewrite_signal_expr` and its size. -/
structure WorkBuf where
  text : CText
  cap : Nat

/-- `APPEND` doubles the buffer once, whatever the length of what it appends. -/
def WorkBuf.append (b : WorkBuf) (s : CText) : Option WorkBuf :=
  let cap := if b.cap ≤ b.text.length + s.length then b.cap * 2 else b.cap
  if b.text.length + s.length ≤ cap then some ⟨b.text ++ s, cap⟩ else none

/-- The text up to the parenthesis that closes an open one, and what is behind it. Without one
the search ends at the terminator, and the rewriting goes on behind it. -/
def closeParen : Nat → CText → Option (CText × CText)
  | _, [] => none
  | depth, c :: rest =>
    let depth := if c = '(' then depth + 1 else if c = ')' then depth - 1 else depth
    if depth = 0 then some ([], rest)
    else (closeParen depth rest).map fun (inner, after) => (c :: inner, after)

/-- The signal of a text that starts with `set name(`, and the text behind the parenthesis. -/
def setterAt (signals : List SignalInfo) (p : CText) : Option (CText × CText) :=
  if "set ".toList.isPrefixOf p then
    let afterSet := (p.drop 4).dropWhile (· = ' ')
    (signals.find? fun s => (s.name ++ ['(']).isPrefixOf afterSet).map fun s =>
      (s.name, afterSet.drop (s.name.length + 1))
  else none

def atBoundary : Option Char → Bool
  | none => true
  | some c => !c.isAlphanum && c != '_'

/-- The signal of a text that starts with `name()`, and the text behind it. -/
def getterAt (signals : List SignalInfo) (prev : Option Char) (p : CText) :
    Option (CText × CText) :=
  (signals.find? fun s => atBoundary prev && (s.name ++ ['(', ')']).isPrefixOf p).map fun s =>
    (s.name, p.drop (s.name.length + 2))

/-- The terminator has to fit too. -/
def WorkBuf.finish (b : WorkBuf) : Option CText :=
  if b.text.length < b.cap then some b.text else none

def WorkBuf.ofText (raw : CText) : WorkBuf := ⟨[], raw.length * 4 + 256⟩

/-- The loop of `rewrite_signal_expr`, with the character before the text. Each turn consumes a
character at least. -/
def rewriteLoop (signals : List SignalInfo) :
    Nat → Option Char → CText → WorkBuf → Option WorkBuf
  | 0, _, _, _ => none
  | _ + 1, _, [], b => some b
  | fuel + 1, prev, c :: rest, b =>
    match setterAt signals (c :: rest) with
    | some (name, args) => do
      let (inner, after) ← closeParen 1 args
      let written ← (← rewriteLoop signals fuel none inner (.ofText inner)).finish
      let b ← b.append "solite_signal_set(sig_".toList
      let b ← b.append name
      let b ← b.append ", (CalyndaRtWord)(".toList
      let b ← b.append written
      let b ← b.append "))".toList
      rewriteLoop signals fuel (some ')') after b
    | none =>
      match getterAt signals prev (c :: rest) with
      | some (name, after) => do
        let b ← b.append "(int)solite_signal_get(sig_".toList
        let b ← b.append name
        let b ← b.append ")".toList
        rewriteLoop signals fuel (some ')') after b
      | none => do
        let b ← b.append [c]
        rewriteLoop signals fuel (some c) rest b

def rewriteSignalExpr (signals : List SignalInfo) (raw : CText) : Option CText :=
  if signals.isEmpty then some raw
  else (rewriteLoop signals (raw.length + 1) none raw (.ofText raw)).bind WorkBuf.finish

/-- A text mentions a signal where it contains its name. -/
def hasSignalRef (signals : List SignalInfo) (raw : CText) : Bool :=
  signals.any fun s => strstr raw s.name

/-! ## Handlers -/

/-- The text behind the first `->`. -/
def afterArrow : CText → Option CText
  | [] => none
  | '-' :: '>' :: rest => some rest
  | _ :: rest => afterArrow rest

/-- `__handler_N`, with the statement that it runs. -/
structure HandlerFn where
  handlerId : Nat
  body : CText

def handlerFn (signals : List SignalInfo) (hid : Nat) (raw : CText) : Option HandlerFn := do
  let body := ((afterArrow raw).getD raw).dropWhile (· = ' ')
  let rewritten ← rewriteSignalExpr signals body
  some ⟨hid, rewritten⟩

/-! ## Reactive expressions -/

/-- `__effect_N_fn` and its context, with the format and the arguments of its `snprintf`. -/
structure EffectFn where
  effectId : Nat
  fmt : CText
  args : CText

def backtick : Char := Char.ofNat 96

def leftBrace : Char := Char.ofNat 123

def rightBrace : Char := Char.ofNat 125

/-- The text up to the brace that closes an open one, or to the end. -/
def closeBrace : Nat → CText → CText × CText
  | _, [] => ([], [])
  | depth, c :: rest =>
    let depth := if c = leftBrace then depth + 1 else if c = rightBrace then depth - 1 else depth
    if depth = 0 then ([], rest)
    else
      let (inner, after) := closeBrace depth rest
      (c :: inner, after)

/-- The loop over a template, from behind its opening backtick. -/
def templateLoop (signals : List SignalInfo) :
    Nat → CText → CText → CText → Option (CText × CText)
  | 0, _, _, _ => none
  | _ + 1, [], fmt, args => some (fmt, args)
  | fuel + 1, c :: rest, fmt, args =>
    if c = backtick then some (fmt, args)
    else if c = '$' ∧ rest.head? = some leftBrace then do
      let (expr, after) := closeBrace 1 rest.tail
      let rewritten ← rewriteSignalExpr signals expr
      let comma := if args.isEmpty then [] else [',', ' ']
      templateLoop signals fuel after (fmt ++ ['%', 'd']) (args ++ comma ++ rewritten)
    else templateLoop signals fuel rest (fmt ++ [c]) args

/-- The function of a reactive expression: a template is written into buffers of fixed sizes, any
other text is read as the name of a signal. -/
def effectFn (signals : List SignalInfo) (eid : Nat) (raw : CText) : Option EffectFn :=
  if raw.head? = some backtick then do
    let (fmt, args) ← templateLoop signals raw.length raw.tail [] []
    if fmt.length < 256 ∧ args.length < 512 then some ⟨eid, fmt, args⟩ else none
  else do
    let rewritten ← rewriteSignalExpr signals (raw ++ ['(', ')'])
    some ⟨eid, ['%', 'd'], rewritten⟩

variable {signals : List SignalInfo} {n : Nat} {raw : CText}

/-- The number of a handler function is the one it is asked for. -/
theorem handlerFn_id {f : HandlerFn} (h : handlerFn signals n raw = some f) : f.handlerId = n := by
  simp only [handlerFn, Option.bind_eq_bind, Option.bind_eq_some_iff] at h
  obtain ⟨_, _, h⟩ := h
  cases h
  rfl

theorem effectFn_id {f : EffectFn} (h : effectFn signals n raw = some f) : f.effectId = n := by
  unfold effectFn at h
  split at h
  · simp only [Option.bind_eq_bind, Option.bind_eq_some_iff] at h
    obtain ⟨_, _, h⟩ := h
    split at h
    · cases h
      rfl
    · cases h
  · simp only [Option.bind_eq_bind, Option.bind_eq_some_iff] at h
    obtain ⟨_, _, h⟩ := h
    cases h
    rfl

end Calynda.Jsx
