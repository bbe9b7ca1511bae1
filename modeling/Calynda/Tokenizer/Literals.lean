import Calynda.Tokenizer.State

/-!
# Literals

Scanners of numbers, characters, strings and template segments, and the text that they accept:
strings and segments are made of plain characters and of escapes.
-/

namespace Calynda

open Tokenizer

def isDigit (c : Char) : Bool := '0' ≤ c && c ≤ '9'

def isAlpha (c : Char) : Bool := ('a' ≤ c && c ≤ 'z') || ('A' ≤ c && c ≤ 'Z')

def isXdigit (c : Char) : Bool :=
  isDigit c || ('a' ≤ c && c ≤ 'f') || ('A' ≤ c && c ≤ 'F')

/-! ## Numbers -/

/-- Digits after `0b`, `0o` or `0x`. -/
def scanPrefixed (t : Tokenizer) (p : Char → Bool) (message : String) (start line col : Nat) :
    Token × Tokenizer :=
  let t := t.advanceChar
  if t.isAtEnd || !p t.peek then (errorToken message line col, t)
  else
    let t := t.skipWhile p
    (t.makeToken .tokIntLit start line col, t)

def scanFraction (t : Tokenizer) : Bool × Tokenizer :=
  if !t.isAtEnd && t.peek == '.' && isDigit t.peekNext then
    (true, t.advanceChar.skipWhile isDigit)
  else (false, t)

/-- The exponent of a number, if it has one; `none` where its digits are missing. -/
def scanExponent (isFloat : Bool) (t : Tokenizer) : Option Bool × Tokenizer :=
  if !t.isAtEnd && (t.peek == 'e' || t.peek == 'E') then
    let t := t.advanceChar
    let t := if !t.isAtEnd && (t.peek == '+' || t.peek == '-') then t.advanceChar else t
    if t.isAtEnd || !isDigit t.peek then (none, t) else (some true, t.skipWhile isDigit)
  else (some isFloat, t)

def scanDecimal (t : Tokenizer) (start line col : Nat) : Token × Tokenizer :=
  let t := t.skipWhile isDigit
  let (isFloat, t) := scanFraction t
  match scanExponent isFloat t with
  | (none, t) => (errorToken "Expected digit in exponent" line col, t)
  | (some isFloat, t) =>
    (t.makeToken (if isFloat then .tokFloatLit else .tokIntLit) start line col, t)

def tokenizerScanNumber (t : Tokenizer) (start line col : Nat) : Token × Tokenizer :=
  if t.source.getD start nul == '0' && !t.isAtEnd then
    let next := t.peek
    if next == 'b' || next == 'B' then
      scanPrefixed t (fun c => c == '0' || c == '1') "Expected binary digit after 0b" start line col
    else if next == 'o' || next == 'O' then
      scanPrefixed t (fun c => '0' ≤ c && c ≤ '7') "Expected octal digit after 0o" start line col
    else if next == 'x' || next == 'X' then
      scanPrefixed t isXdigit "Expected hex digit after 0x" start line col
    else scanDecimal t start line col
  else scanDecimal t start line col

/-! ## Escapes -/

def scanHexDigits : Nat → Tokenizer → Bool × Tokenizer
  | 0, t => (true, t)
  | n + 1, t =>
    if t.isAtEnd || !isXdigit t.peek then (false, t) else scanHexDigits n t.advanceChar

/-- The characters that stand for one after a backslash. -/
def simpleEscapes : List Char := ['n', 't', 'r', '\\', '\'', '"', '\x60', '$', '0']

def scanEscape (t : Tokenizer) : Bool × Tokenizer :=
  if t.isAtEnd then (false, t)
  else
    let c := t.peek
    let t := t.advanceChar
    if c ∈ simpleEscapes then (true, t)
    else if c = 'u' then scanHexDigits 4 t
    else (false, t)

/-! ## Characters, strings and templates -/

def scanCharEnd (t : Tokenizer) (start line col : Nat) : Token × Tokenizer :=
  if t.isAtEnd || t.peek != '\'' then (errorToken "Unterminated char literal" line col, t)
  else
    let t := t.advanceChar
    (t.makeToken .tokCharLit start line col, t)

def tokenizerScanChar (t : Tokenizer) (start line col : Nat) : Token × Tokenizer :=
  if t.isAtEnd || t.peek == '\n' then (errorToken "Unterminated char literal" line col, t)
  else if t.peek == '\\' then
    match scanEscape t.advanceChar with
    | (false, t) => (errorToken "Invalid escape in char literal" line col, t)
    | (true, t) => scanCharEnd t start line col
  else if t.peek == '\'' then (errorToken "Empty char literal" line col, t)
  else scanCharEnd t.advanceChar start line col

def scanStringFrom (start line col : Nat) : Nat → Tokenizer → Token × Tokenizer
  | 0, t => (errorToken "Unterminated string literal" line col, t)
  | fuel + 1, t =>
    if t.isAtEnd then (errorToken "Unterminated string literal" line col, t)
    else if t.peek = '"' then
      let t := t.advanceChar
      (t.makeToken .tokStringLit start line col, t)
    else if t.peek = '\n' then (errorToken "Unterminated string literal" line col, t)
    else if t.peek = '\\' then
      match scanEscape t.advanceChar with
      | (false, t) => (errorToken "Invalid escape in string" line col, t)
      | (true, t) => scanStringFrom start line col fuel t
    else scanStringFrom start line col fuel t.advanceChar

def tokenizerScanString (t : Tokenizer) (start line col : Nat) : Token × Tokenizer :=
  scanStringFrom start line col (t.left + 1) t

/-- The start of an interpolation: a counter for the braces in it is pushed. -/
def enterInterpolation (t : Tokenizer) : Tokenizer :=
  let t := t.advanceChar.advanceChar
  { t with
    interpolationBraceDepth := t.interpolationBraceDepth.set t.templateDepth.toNat 0
    templateDepth := t.templateDepth + 1 }

def scanTemplateFrom (start line col : Nat) (onInterp onEnd : TokenType) :
    Nat → Tokenizer → Token × Tokenizer
  | 0, t => (errorToken "Unterminated template literal" line col, t)
  | fuel + 1, t =>
    if t.isAtEnd then (errorToken "Unterminated template literal" line col, t)
    else if t.peek = '\\' then
      match scanEscape t.advanceChar with
      | (false, t) => (errorToken "Invalid escape in template literal" line col, t)
      | (true, t) => scanTemplateFrom start line col onInterp onEnd fuel t
    else if t.peek = '$' ∧ t.peekNext = '{' then
      if tokenizerMaxTemplateDepth ≤ t.templateDepth then
        (errorToken "Template interpolation nesting too deep" line col, t)
      else (t.makeToken onInterp start line col, enterInterpolation t)
    else if t.peek = '\x60' then
      let t := t.advanceChar
      (t.makeToken onEnd start line col, t)
    else scanTemplateFrom start line col onInterp onEnd fuel t.advanceChar

def tokenizerScanTemplateBody (t : Tokenizer) (start line col : Nat) (onInterp onEnd : TokenType) :
    Token × Tokenizer :=
  scanTemplateFrom start line col onInterp onEnd (t.left + 1) t

/-! ## Accepted text -/

/-- What may follow a backslash. -/
inductive IsEscape : List Char → Prop where
  | simple {c : Char} (h : c ∈ simpleEscapes) : IsEscape [c]
  | unicode {a b c d : Char} (h : ∀ x ∈ [a, b, c, d], isXdigit x = true) : IsEscape ['u', a, b, c, d]

/-- Text of characters other than those of `stops` and of escapes. -/
inductive Escaped (stops : List Char) : List Char → Prop where
  | nil : Escaped stops []
  | plain {c : Char} {s : List Char} (h : c ≠ '\\') (hStop : c ∉ stops) :
      Escaped stops s → Escaped stops (c :: s)
  | escape {x s : List Char} (h : IsEscape x) : Escaped stops s → Escaped stops ('\\' :: (x ++ s))

theorem scanHexDigits_reads {n : Nat} {t t' : Tokenizer} (h : scanHexDigits n t = (true, t')) :
    ∃ s, s.length = n ∧ (∀ x ∈ s, isXdigit x = true) ∧ Reads t s t' := by
  induction n generalizing t with
  | zero =>
    obtain rfl := congrArg Prod.snd h
    exact ⟨[], rfl, fun _ hx => absurd hx List.not_mem_nil, .refl t⟩
  | succ n ih =>
    rw [scanHexDigits] at h
    split at h
    case isTrue _ => exact nomatch congrArg Prod.fst h
    case isFalse hDigit =>
      rw [Bool.not_eq_true, Bool.or_eq_false_iff, Bool.not_eq_false'] at hDigit
      obtain ⟨s, hLength, hDigits, hReads⟩ := ih h
      refine ⟨t.peek :: s, congrArg (· + 1) hLength, fun x hx => ?_,
        (reads_advanceChar hDigit.1).trans hReads⟩
      rcases List.mem_cons.1 hx with rfl | hx
      · exact hDigit.2
      · exact hDigits x hx

theorem scanEscape_reads {t t' : Tokenizer} (h : scanEscape t = (true, t')) :
    ∃ s, IsEscape s ∧ Reads t s t' := by
  unfold scanEscape at h
  split at h
  case isTrue _ => exact nomatch congrArg Prod.fst h
  case isFalse hEnd =>
    rw [Bool.not_eq_true] at hEnd
    have hFirst := reads_advanceChar hEnd
    dsimp only at h
    split at h
    case isTrue hSimple =>
      obtain rfl := congrArg Prod.snd h
      exact ⟨[t.peek], .simple hSimple, hFirst⟩
    case isFalse _ =>
      split at h
      case isTrue hU =>
        obtain ⟨s, hLength, hDigits, hReads⟩ := scanHexDigits_reads h
        match s, hLength with
        | [a, b, c, d], _ =>
          rw [hU] at hFirst
          exact ⟨_, .unicode hDigits, hFirst.trans hReads⟩
      case isFalse _ => exact nomatch congrArg Prod.fst h

theorem ne_nul {t : Tokenizer} (h : t.isAtEnd = false) : t.peek ≠ nul := by
  simpa [isAtEnd] using h

section Scans

variable {t t' : Tokenizer} {tok : Token} {start line col : Nat} {onInterp onEnd : TokenType}

/-- An accepted string is read up to its closing quote. -/
theorem scanStringFrom_accepts {fuel : Nat}
    (h : scanStringFrom start line col fuel t = (tok, t')) (hType : tok.type ≠ .tokError) :
    ∃ s, Escaped [nul, '"', '\n'] s ∧ Reads t (s ++ ['"']) t' ∧
      tok = t'.makeToken .tokStringLit start line col := by
  have hError : ∀ {message : String} {t₁ : Tokenizer} {P : Prop},
      (errorToken message line col, t₁) = (tok, t') → P := by
    intro message t₁ P hEq
    exact absurd (congrArg (Token.type ·.1) hEq).symm hType
  induction fuel generalizing t with
  | zero => exact hError h
  | succ fuel ih =>
    rw [scanStringFrom] at h
    split at h
    case isTrue _ => exact hError h
    case isFalse hEnd =>
      rw [Bool.not_eq_true] at hEnd
      have hFirst := reads_advanceChar hEnd
      split at h
      case isTrue hQuote =>
        obtain ⟨rfl, rfl⟩ := Prod.mk.inj h
        exact ⟨[], .nil, hQuote ▸ hFirst, rfl⟩
      case isFalse hQuote =>
        split at h
        case isTrue _ => exact hError h
        case isFalse hNewline =>
          split at h
          case isTrue hBackslash =>
            split at h
            case h_1 => exact hError h
            case h_2 t₁ hEscape =>
              obtain ⟨x, hX, hReadsX⟩ := scanEscape_reads hEscape
              obtain ⟨s, hText, hReads, hTok⟩ := ih h
              rw [hBackslash] at hFirst
              refine ⟨'\\' :: (x ++ s), .escape hX hText, ?_, hTok⟩
              simpa [List.append_assoc] using hFirst.trans (hReadsX.trans hReads)
          case isFalse hBackslash =>
            obtain ⟨s, hText, hReads, hTok⟩ := ih h
            refine ⟨t.peek :: s, .plain hBackslash ?_ hText, hFirst.trans hReads, hTok⟩
            simp [hQuote, hNewline, ne_nul hEnd]

/-- An accepted segment is read up to its closing backquote, or to an interpolation. -/
theorem scanTemplateFrom_accepts {fuel : Nat}
    (h : scanTemplateFrom start line col onInterp onEnd fuel t = (tok, t'))
    (hType : tok.type ≠ .tokError) :
    ∃ s, Escaped [nul, '\x60'] s ∧
      ((Reads t (s ++ ['\x60']) t' ∧ tok = t'.makeToken onEnd start line col) ∨
        ∃ t₁, Reads t s t₁ ∧ tok = t₁.makeToken onInterp start line col ∧
          t' = enterInterpolation t₁ ∧ t₁.isAtEnd = false ∧ t₁.peek = '$' ∧ t₁.peekNext = '{' ∧
          t₁.templateDepth < tokenizerMaxTemplateDepth) := by
  have hError : ∀ {message : String} {t₁ : Tokenizer} {P : Prop},
      (errorToken message line col, t₁) = (tok, t') → P := by
    intro message t₁ P hEq
    exact absurd (congrArg (Token.type ·.1) hEq).symm hType
  induction fuel generalizing t with
  | zero => exact hError h
  | succ fuel ih =>
    rw [scanTemplateFrom] at h
    split at h
    case isTrue _ => exact hError h
    case isFalse hEnd =>
      rw [Bool.not_eq_true] at hEnd
      have hFirst := reads_advanceChar hEnd
      have hMore : ∀ {x : List Char} {t₁ : Tokenizer}, Reads t x t₁ →
          (∀ s, Escaped [nul, '\x60'] s → Escaped [nul, '\x60'] (x ++ s)) →
          scanTemplateFrom start line col onInterp onEnd fuel t₁ = (tok, t') →
          ∃ s, Escaped [nul, '\x60'] s ∧
            ((Reads t (s ++ ['\x60']) t' ∧ tok = t'.makeToken onEnd start line col) ∨
              ∃ t₁, Reads t s t₁ ∧ tok = t₁.makeToken onInterp start line col ∧
                t' = enterInterpolation t₁ ∧ t₁.isAtEnd = false ∧ t₁.peek = '$' ∧
                t₁.peekNext = '{' ∧ t₁.templateDepth < tokenizerMaxTemplateDepth) := by
        intro x t₁ hReadsX hText hRest
        obtain ⟨s, hS, hCases⟩ := ih hRest
        refine ⟨x ++ s, hText s hS, hCases.imp (fun hClose => ⟨?_, hClose.2⟩) ?_⟩
        · rw [List.append_assoc]
          exact hReadsX.trans hClose.1
        · rintro ⟨t₂, hReads, hInterp⟩
          exact ⟨t₂, hReadsX.trans hReads, hInterp⟩
      split at h
      case isTrue hBackslash =>
        split at h
        case h_1 => exact hError h
        case h_2 t₁ hEscape =>
          obtain ⟨x, hX, hReadsX⟩ := scanEscape_reads hEscape
          rw [hBackslash] at hFirst
          exact hMore (hFirst.trans hReadsX) (fun s hS => .escape hX hS) h
      case isFalse hBackslash =>
        split at h
        case isTrue hInterp =>
          split at h
          case isTrue _ => exact hError h
          case isFalse hDepth =>
            obtain ⟨rfl, rfl⟩ := Prod.mk.inj h
            exact ⟨[], .nil, .inr ⟨t, .refl t, rfl, rfl, hEnd, hInterp.1, hInterp.2,
              Int.lt_of_not_ge hDepth⟩⟩
        case isFalse _ =>
          split at h
          case isTrue hClose =>
            obtain ⟨rfl, rfl⟩ := Prod.mk.inj h
            exact ⟨[], .nil, .inl ⟨hClose ▸ hFirst, rfl⟩⟩
          case isFalse hClose =>
            exact hMore hFirst (fun s hS => .plain hBackslash (by simp [hClose, ne_nul hEnd]) hS) h

end Scans

end Calynda
