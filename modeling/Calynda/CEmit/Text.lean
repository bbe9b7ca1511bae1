import Calynda.Tokenizer.Next
import Mathlib.Data.List.TakeWhile

/-!
# Text of literals

The text of a string or template segment goes from its token through the parser into a C string
literal of the emitted program. `passedText` is what that literal stands for, and `decodeText`
what the text of the source does.
-/

namespace Calynda

/-! ## From the token to the emitted program -/

def parserCopyTokenText (tok : Token) : List Char := tok.text

def copyTemplateSegmentText (tok : Token) : Option (List Char) :=
  let segment (startOffset endOffset : Nat) : List Char :=
    if tok.length < startOffset + endOffset then []
    else (tok.start.drop startOffset).take (tok.length - startOffset - endOffset)
  match tok.type with
  | .tokTemplateFull => some (segment 1 1)
  | .tokTemplateStart | .tokTemplateMiddle => some (segment 1 0)
  | .tokTemplateEnd => some (segment 1 1)
  | _ => none

def escapeChar (c : Char) : List Char := if c = '"' ∨ c = '\\' then ['\\', c] else [c]

/-- The loop over the characters of a text up to its terminator. -/
def emitEscaped (text : List Char) : List Char :=
  (text.takeWhile (· != nul)).flatMap escapeChar

def stringCall : List Char := "calynda_rt_make_string_copy(".toList

def cEmitString (text : List Char) : List Char :=
  stringCall ++ '"' :: emitEscaped text ++ ['"', ')']

def textPart : List Char := "\x7bCALYNDA_RT_TEMPLATE_TAG_TEXT, (CalyndaRtWord)(uintptr_t)".toList

def cEmitTemplateText (text : List Char) : List Char :=
  textPart ++ '"' :: emitEscaped text ++ ['"', '\x7d']

/-! ## String literals of C -/

/-- The simple escape sequences of C. The octal, hexadecimal and universal ones do not occur in
emitted text. -/
def cSimpleEscape (c : Char) : Option Char :=
  match c with
  | '\'' | '"' | '?' | '\\' => some c
  | 'a' => some (Char.ofNat 7)
  | 'b' => some (Char.ofNat 8)
  | 'f' => some (Char.ofNat 12)
  | 'n' => some '\n'
  | 'r' => some '\r'
  | 't' => some '\t'
  | 'v' => some (Char.ofNat 11)
  | _ => none

/-- The value of a literal after its opening quote, and the text after the closing one. A raw
newline is no character of a literal. -/
def readCChars : List Char → Option (List Char × List Char)
  | [] => none
  | '"' :: s => some ([], s)
  | '\n' :: _ => none
  | ['\\'] => none
  | '\\' :: c :: s => do
    let value ← cSimpleEscape c
    let (text, after) ← readCChars s
    some (value :: text, after)
  | c :: s => do
    let (text, after) ← readCChars s
    some (c :: text, after)

/-- The value of the literal that stands between the two texts. -/
def readCLiteral (before after emitted : List Char) : Option (List Char) :=
  if before ++ ['"'] <+: emitted then
    match readCChars (emitted.drop (before.length + 1)) with
    | some (value, rest) => if rest = after then some value else none
    | none => none
  else none

/-- What the emitted program passes on for a token. -/
def passedText (tok : Token) : Option (List Char) :=
  match tok.type with
  | .tokStringLit => readCLiteral stringCall [')'] (cEmitString (parserCopyTokenText tok))
  | _ => do
    let text ← copyTemplateSegmentText tok
    readCLiteral textPart ['\x7d'] (cEmitTemplateText text)

/-! ## Meaning of the source -/

/-- The text of a token between its delimiters. -/
def Token.between (tok : Token) : List Char :=
  match tok.type with
  | .tokTemplateStart | .tokTemplateMiddle => tok.text.drop 1
  | _ => (tok.text.drop 1).dropLast

def hexValue (c : Char) : Nat :=
  if isDigit c then c.toNat - '0'.toNat
  else if 'a' ≤ c then c.toNat - 'a'.toNat + 10
  else c.toNat - 'A'.toNat + 10

/-- The UTF-8 bytes of a code point of four hexadecimal digits. -/
def utf8Bytes (n : Nat) : List Char :=
  if n < 0x80 then [Char.ofNat n]
  else if n < 0x800 then [Char.ofNat (0xC0 + n / 64), Char.ofNat (0x80 + n % 64)]
  else [Char.ofNat (0xE0 + n / 4096), Char.ofNat (0x80 + n / 64 % 64), Char.ofNat (0x80 + n % 64)]

/-- The character that an escape of one character stands for. -/
def escapedChar (c : Char) : Char :=
  match c with
  | 'n' => '\n'
  | 't' => '\t'
  | 'r' => '\r'
  | '0' => nul
  | _ => c

def decodeText : List Char → List Char
  | '\\' :: 'u' :: a :: b :: c :: d :: s =>
    utf8Bytes (((hexValue a * 16 + hexValue b) * 16 + hexValue c) * 16 + hexValue d) ++
      decodeText s
  | '\\' :: c :: s => escapedChar c :: decodeText s
  | c :: s => c :: decodeText s
  | [] => []

/-- The text of a token reaches the runtime as it should. -/
def ReachesRuntime (tok : Token) : Prop := passedText tok = some (decodeText tok.between)

/-! ## What is passed -/

section Passed

variable {s text before after : List Char} {tok : Token}

theorem readCChars_escapeChar {c : Char} (hNewline : c ≠ '\n') (rest : List Char) :
    readCChars (escapeChar c ++ rest) =
      (readCChars rest).map fun x => (c :: x.1, x.2) := by
  unfold escapeChar
  by_cases hQuote : c = '"'
  · subst hQuote
    cases hRest : readCChars rest with
    | none => simp [readCChars, cSimpleEscape, hRest]
    | some x => simp [readCChars, cSimpleEscape, hRest]
  by_cases hBackslash : c = '\\'
  · subst hBackslash
    cases hRest : readCChars rest with
    | none => simp [readCChars, cSimpleEscape, hRest]
    | some x => simp [readCChars, cSimpleEscape, hRest]
  · cases hRest : readCChars rest with
    | none => simp [readCChars, hQuote, hBackslash, hRest]
    | some x => simp [readCChars, hQuote, hBackslash, hRest]

/-- An escaped text is read back, unless it has a newline. -/
theorem readCChars_escaped (text after : List Char) :
    readCChars (text.flatMap escapeChar ++ '"' :: after) =
      if '\n' ∈ text then none else some (text, after) := by
  induction text with
  | nil => rfl
  | cons c text ih =>
    rw [List.flatMap_cons, List.append_assoc]
    by_cases hNewline : c = '\n'
    · subst hNewline
      rw [if_pos List.mem_cons_self]
      rfl
    · rw [readCChars_escapeChar hNewline, ih]
      by_cases hRest : '\n' ∈ text
      · rw [if_pos hRest, if_pos (List.mem_cons_of_mem _ hRest)]
        rfl
      · rw [if_neg hRest, if_neg (List.not_mem_cons_of_ne_of_not_mem (Ne.symm hNewline) hRest)]
        rfl

/-- What the literal of a text without a NUL stands for. -/
theorem readCLiteral_emitEscaped (hNul : nul ∉ text) :
    readCLiteral before after (before ++ '"' :: emitEscaped text ++ '"' :: after) =
      if '\n' ∈ text then none else some text := by
  have hWhole : text.takeWhile (· != nul) = text := by
    rw [List.takeWhile_eq_self_iff]
    intro c hc
    have hNe : c ≠ nul := fun hEq => hNul (hEq ▸ hc)
    simpa using hNe
  have hEscaped : emitEscaped text = text.flatMap escapeChar := by
    rw [emitEscaped, hWhole]
  have hPrefix : before ++ ['"'] <+: before ++ '"' :: emitEscaped text ++ '"' :: after :=
    ⟨emitEscaped text ++ '"' :: after, by simp⟩
  have hDrop : (before ++ '"' :: emitEscaped text ++ '"' :: after).drop (before.length + 1) =
      emitEscaped text ++ '"' :: after := by
    have hSplit : before ++ '"' :: emitEscaped text ++ '"' :: after =
        (before ++ ['"']) ++ (emitEscaped text ++ '"' :: after) := by simp
    rw [hSplit]
    exact List.drop_left' (by simp)
  rw [readCLiteral, if_pos hPrefix, hDrop, hEscaped, readCChars_escaped]
  by_cases hNewline : '\n' ∈ text
  · rw [if_pos hNewline, if_pos hNewline]
  · rw [if_neg hNewline, if_neg hNewline]
    exact if_pos rfl

end Passed

/-! ## What is meant -/

section Meant

variable {stops s : List Char}

theorem length_utf8Bytes (n : Nat) : (utf8Bytes n).length ≤ 3 := by
  unfold utf8Bytes
  split
  · simp
  · split
    · simp
    · simp

theorem decodeText_plain {c : Char} (h : c ≠ '\\') (s : List Char) :
    decodeText (c :: s) = c :: decodeText s := by
  simp [decodeText, h]

/-- An escape makes the text shorter. -/
theorem decodeText_escape {x : List Char} (h : IsEscape x) (s : List Char) :
    ∃ bytes, bytes.length ≤ x.length ∧ decodeText ('\\' :: (x ++ s)) = bytes ++ decodeText s := by
  cases h with
  | simple hSimple =>
    rename_i c
    have hU : c ≠ 'u' := by
      rintro rfl
      exact absurd hSimple (by decide)
    exact ⟨[escapedChar c], Nat.le_refl 1, by simp [decodeText, hU]⟩
  | unicode _ => exact ⟨_, Nat.le_trans (length_utf8Bytes _) (by simp), rfl⟩

theorem length_decodeText (h : Escaped stops s) :
    (decodeText s).length ≤ s.length ∧ ('\\' ∈ s → (decodeText s).length < s.length) := by
  induction h with
  | nil => exact ⟨Nat.le_refl 0, fun h => absurd h List.not_mem_nil⟩
  | @plain c s hPlain _ _ ih =>
    rw [decodeText_plain hPlain, List.length_cons, List.length_cons]
    refine ⟨by omega, fun hMem => ?_⟩
    have hLt := ih.2 ((List.mem_cons.1 hMem).resolve_left (Ne.symm hPlain))
    omega
  | @escape x s hX _ ih =>
    obtain ⟨bytes, hBytes, hDecode⟩ := decodeText_escape hX s
    rw [hDecode, List.length_append, List.length_cons, List.length_append]
    exact ⟨by omega, fun _ => by omega⟩

theorem decodeText_eq (h : Escaped stops s) : decodeText s = s ↔ '\\' ∉ s := by
  constructor
  · intro hEq hMem
    have hLt := (length_decodeText h).2 hMem
    rw [hEq] at hLt
    exact Nat.lt_irrefl _ hLt
  · intro hNot
    induction h with
    | nil => rfl
    | plain hPlain _ _ ih =>
      rw [decodeText_plain hPlain, ih fun hMem => hNot (List.mem_cons_of_mem _ hMem)]
    | escape _ _ _ => exact absurd List.mem_cons_self hNot

theorem Escaped.not_mem_stops (h : Escaped stops s) {c : Char} (hStop : c ∈ stops)
    (hBackslash : c ≠ '\\') (hEscape : ∀ x, IsEscape x → c ∉ x) : c ∉ s := by
  induction h with
  | nil => exact List.not_mem_nil
  | plain hPlain hNot _ ih =>
    refine List.not_mem_cons_of_ne_of_not_mem ?_ ih
    rintro rfl
    exact hNot hStop
  | escape hX _ ih =>
    refine List.not_mem_cons_of_ne_of_not_mem hBackslash fun hMem => ?_
    rcases List.mem_append.1 hMem with hMem | hMem
    · exact hEscape _ hX hMem
    · exact ih hMem

end Meant

/-! ## Which text arrives -/

theorem IsEscape.not_mem_of_not {x : List Char} (h : IsEscape x) {c : Char}
    (hSimple : c ∉ simpleEscapes) (hU : c ≠ 'u') (hDigit : isXdigit c = false) : c ∉ x := by
  intro hMem
  cases h with
  | simple h =>
    rw [List.mem_singleton] at hMem
    exact hSimple (hMem ▸ h)
  | unicode h =>
    rcases List.mem_cons.1 hMem with hEq | hMem
    · exact hU hEq
    · rw [h c hMem] at hDigit
      exact nomatch hDigit

theorem Escaped.nul_not_mem {stops s : List Char} (h : Escaped (nul :: stops) s) : nul ∉ s :=
  h.not_mem_stops List.mem_cons_self (by decide) fun _ hX =>
    hX.not_mem_of_not (by decide) (by decide) (by decide)

section Tokens

variable {tok : Token} {s : List Char}

theorem passedText_string (h : tok.type = .tokStringLit)
    (hText : tok.text = '"' :: (s ++ ['"'])) (hS : Escaped [nul, '"', '\n'] s) :
    passedText tok = some ('"' :: (s ++ ['"'])) := by
  have hNul : nul ∉ '"' :: (s ++ ['"']) := by
    have hNot := hS.nul_not_mem
    simp [hNot]
    decide
  have hNewline : '\n' ∉ '"' :: (s ++ ['"']) := by
    have hNot : '\n' ∉ s := hS.not_mem_stops (by simp) (by decide) fun _ hX =>
      hX.not_mem_of_not (by decide) (by decide) (by decide)
    simp [hNot]
  unfold passedText
  rw [h]
  dsimp only
  rw [parserCopyTokenText, hText, cEmitString, readCLiteral_emitEscaped hNul, if_neg hNewline]

theorem passedText_template {stops : List Char} (h : tok.type ≠ .tokStringLit)
    (hCopy : copyTemplateSegmentText tok = some s) (hS : Escaped (nul :: stops) s) :
    passedText tok = if '\n' ∈ s then none else some s := by
  have hPassed : passedText tok = (copyTemplateSegmentText tok).bind fun text =>
      readCLiteral textPart ['\x7d'] (cEmitTemplateText text) := by
    unfold passedText
    split
    case h_1 hString => exact absurd hString h
    case h_2 => rfl
  rw [hPassed, hCopy, Option.bind_some, cEmitTemplateText, readCLiteral_emitEscaped hS.nul_not_mem]

/-- Cutting a token's characters is cutting its text. -/
theorem take_tail_start {c : Char} {rest : List Char} (hLength : tok.length = tok.text.length)
    (hText : tok.text = c :: (s ++ rest)) : tok.start.tail.take s.length = s := by
  have hLe : s.length ≤ tok.length - 1 := by
    rw [hLength, hText, List.length_cons, List.length_append]
    omega
  calc tok.start.tail.take s.length = tok.text.tail.take s.length := by
        rw [Token.text, ← List.drop_one, ← List.drop_one, List.drop_take, List.take_take,
          Nat.min_eq_left hLe]
    _ = s := by rw [hText, List.tail_cons, List.take_left]

/-- A string arrives with its quotes. -/
theorem reachesRuntime_string (h : tok.type = .tokStringLit)
    (hText : tok.text = '"' :: (s ++ ['"'])) (hS : Escaped [nul, '"', '\n'] s) :
    tok.between = s ∧ ¬ ReachesRuntime tok := by
  have hBetween : tok.between = s := by
    unfold Token.between
    rw [h, hText]
    simp
  refine ⟨hBetween, fun hReaches => ?_⟩
  rw [ReachesRuntime, passedText_string h hText hS, hBetween] at hReaches
  have hLength := congrArg List.length (Option.some.inj hReaches)
  have hLe := (length_decodeText hS).1
  rw [List.length_cons, List.length_append, List.length_singleton] at hLength
  omega

theorem reachesRuntime_template {stops : List Char} (h : tok.type ≠ .tokStringLit)
    (hCopy : copyTemplateSegmentText tok = some s) (hBetween : tok.between = s)
    (hS : Escaped (nul :: stops) s) :
    ReachesRuntime tok ↔ '\\' ∉ s ∧ '\n' ∉ s := by
  rw [ReachesRuntime, passedText_template h hCopy hS, hBetween, ← decodeText_eq hS]
  by_cases hNewline : '\n' ∈ s
  · rw [if_pos hNewline]
    exact iff_of_false nofun fun h => h.2 hNewline
  · rw [if_neg hNewline, Option.some.injEq]
    exact ⟨fun hEq => ⟨hEq.symm, hNewline⟩, fun h => h.1.symm⟩

/-- The text of an accepted token arrives exactly if it is that of a template, and has neither an
escape nor a newline. -/
theorem reachesRuntime_of_text (hLength : tok.length = tok.text.length)
    (hText : TextToken tok.type tok.text s) :
    tok.between = s ∧ (ReachesRuntime tok ↔
      tok.type ≠ .tokStringLit ∧ '\\' ∉ s ∧ '\n' ∉ s) := by
  have hTemplate : ∀ {stops : List Char}, tok.type ≠ .tokStringLit →
      copyTemplateSegmentText tok = some s → tok.between = s → Escaped (nul :: stops) s →
      tok.between = s ∧ (ReachesRuntime tok ↔
        tok.type ≠ .tokStringLit ∧ '\\' ∉ s ∧ '\n' ∉ s) := by
    intro stops hType hCopy hBetween hS
    refine ⟨hBetween, (reachesRuntime_template hType hCopy hBetween hS).trans ?_⟩
    exact (and_iff_right hType).symm
  generalize hType : tok.type = type at hText hTemplate ⊢
  generalize hWord : tok.text = word at hText
  cases hText with
  | string hS =>
    obtain ⟨hBetween, hNot⟩ := reachesRuntime_string hType hWord hS
    exact ⟨hBetween, iff_of_false hNot fun h => h.1 rfl⟩
  | full hS =>
    have hTake : tok.start.tail.take s.length = s := take_tail_start hLength hWord
    have hLong : ¬ s.length + 1 + 1 < 2 := by omega
    refine hTemplate nofun ?_ ?_ hS
    · simp [copyTemplateSegmentText, hType, hLength, hWord, hTake, hLong]
    · simp [Token.between, hType, hWord]
  | start hS | middle hS =>
    have hTake : tok.start.tail.take s.length = s :=
      take_tail_start hLength (hWord.trans (by rw [List.append_nil s]))
    refine hTemplate nofun ?_ ?_ hS
    · simp [copyTemplateSegmentText, hType, hLength, hWord, hTake]
    · simp [Token.between, hType, hWord]
  | last hS =>
    have hTake : tok.start.tail.take s.length = s := take_tail_start hLength hWord
    have hLong : ¬ s.length + 1 + 1 < 2 := by omega
    refine hTemplate nofun ?_ ?_ hS
    · simp [copyTemplateSegmentText, hType, hLength, hWord, hTake, hLong]
    · simp [Token.between, hType, hWord]

end Tokens

/-- The text of a token reaches the runtime exactly if the token is a template segment without
escapes and newlines. -/
theorem reachesRuntime_iff {t t' : Tokenizer} {tok : Token} (hNext : tokenizerNext t = (tok, t'))
    (hText : tok.type.isText = true) :
    ReachesRuntime tok ↔
      tok.type ≠ .tokStringLit ∧ '\\' ∉ tok.between ∧ '\n' ∉ tok.between := by
  obtain ⟨hLength, s, hToken⟩ := tokenizerScan_text hNext hText
  obtain ⟨hBetween, hReaches⟩ := reachesRuntime_of_text hLength hToken
  rw [hBetween]
  exact hReaches

/-- The source of the template segment of one letter. -/
def letterTemplate : List Char := ['\x60', 'a', '\x60']

theorem reachesRuntime_iff_letterTemplate :
    ReachesRuntime (tokenizerNext (tokenizerInit letterTemplate)).1 ↔
      (tokenizerNext (tokenizerInit letterTemplate)).1.type ≠ .tokStringLit ∧
        '\\' ∉ (tokenizerNext (tokenizerInit letterTemplate)).1.between ∧
        '\n' ∉ (tokenizerNext (tokenizerInit letterTemplate)).1.between :=
  reachesRuntime_iff (t := tokenizerInit letterTemplate) rfl rfl

/-- The source of the string literal of one letter. -/
def letterString : List Char := ['"', 'a', '"']

/-- The runtime gets the string of one letter with its quotes. -/
theorem not_reachesRuntime_letterString :
    (tokenizerNext (tokenizerInit letterString)).1.type = .tokStringLit ∧
      passedText (tokenizerNext (tokenizerInit letterString)).1 = some letterString ∧
      ¬ ReachesRuntime (tokenizerNext (tokenizerInit letterString)).1 := by
  refine ⟨rfl, rfl, ?_⟩
  unfold ReachesRuntime
  decide

end Calynda
