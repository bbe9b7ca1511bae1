import Calynda.Tokenizer.Literals

/-!
# The next token

Blanks and comments are skipped, and the first character that is left decides which scanner
reads the token.
-/

namespace Calynda

open Tokenizer

/-! ## Blanks and comments -/

/-- The end of a block comment, or of the source. -/
def skipBlockComment : Nat → Tokenizer → Tokenizer
  | 0, t => t
  | fuel + 1, t =>
    if t.isAtEnd then t
    else if t.peek = '*' ∧ t.peekNext = '/' then t.advanceChar.advanceChar
    else skipBlockComment fuel t.advanceChar

def skipWhitespaceFrom : Nat → Tokenizer → Tokenizer
  | 0, t => t
  | fuel + 1, t =>
    if t.peek = ' ' ∨ t.peek = '\t' ∨ t.peek = '\r' ∨ t.peek = '\n' then
      skipWhitespaceFrom fuel t.advanceChar
    else if t.peek = '/' ∧ t.peekNext = '/' then
      skipWhitespaceFrom fuel (t.skipWhile (· != '\n'))
    else if t.peek = '/' ∧ t.peekNext = '*' then
      let t := t.advanceChar.advanceChar
      skipWhitespaceFrom fuel (skipBlockComment t.left t)
    else t

def skipWhitespace (t : Tokenizer) : Tokenizer := skipWhitespaceFrom (t.left + 1) t

/-! ## Identifiers and punctuation -/

def keywords : List (String × TokenType) :=
  [("package", .tokPackage), ("import", .tokImport), ("start", .tokStart), ("boot", .tokBoot),
    ("extern", .tokExtern), ("var", .tokVar), ("public", .tokPublic), ("private", .tokPrivate),
    ("final", .tokFinal), ("void", .tokVoid), ("return", .tokReturn), ("exit", .tokExit),
    ("throw", .tokThrow), ("true", .tokTrue), ("false", .tokFalse), ("null", .tokNull),
    ("export", .tokExport), ("as", .tokAs), ("internal", .tokInternal), ("static", .tokStatic),
    ("union", .tokUnion), ("manual", .tokManual), ("arr", .tokArr), ("malloc", .tokMalloc),
    ("calloc", .tokCalloc), ("realloc", .tokRealloc), ("free", .tokFree), ("int8", .tokInt8),
    ("int16", .tokInt16), ("int32", .tokInt32), ("uint8", .tokUint8), ("uint16", .tokUint16),
    ("uint32", .tokUint32), ("float32", .tokFloat32), ("bool", .tokBool), ("char", .tokChar),
    ("string", .tokString), ("byte", .tokByte), ("sbyte", .tokSbyte), ("short", .tokShort),
    ("int", .tokInt), ("uint", .tokUint), ("float", .tokFloat), ("component", .tokComponent),
    ("signal", .tokSignal)]

def checkKeyword (text : List Char) : TokenType :=
  ((keywords.find? fun k => k.1.toList == text).map (·.2)).getD .tokIdentifier

def isWordChar (c : Char) : Bool := isAlpha c || isDigit c || c == '_'

def tokenizerScanIdentifier (t : Tokenizer) (start line col : Nat) : Token × Tokenizer :=
  let t := t.skipWhile isWordChar
  let text := (t.source.drop start).take (t.current - start)
  let type := if text = ['_'] then .tokUnderscore else checkKeyword text
  (t.makeToken type start line col, t)

/-- The longest of several operators with the same first character: the second characters with
their types, and the type of the first one alone. -/
def scanOperator (t : Tokenizer) (start line col : Nat) (alone : TokenType) :
    List (Char × TokenType) → Token × Tokenizer
  | [] => (t.makeToken alone start line col, t)
  | (c, type) :: longer =>
    match t.matchChar c with
    | some t => (t.makeToken type start line col, t)
    | none => scanOperator t start line col alone longer

/-- Operators that start with a doubled character, as `<<=`. -/
def scanShift (t : Tokenizer) (start line col : Nat) (c : Char)
    (shiftAssign shift orEqual alone : TokenType) : Token × Tokenizer :=
  match t.matchChar c with
  | some t => scanOperator t start line col shift [('=', shiftAssign)]
  | none => scanOperator t start line col alone [('=', orEqual)]

/-- Counts an opening brace in the innermost interpolation. -/
def openBrace (t : Tokenizer) : Tokenizer :=
  if t.templateDepth > 0 then
    { t with interpolationBraceDepth := t.interpolationBraceDepth.modify t.innermost (· + 1) }
  else t

/-- Counts a closing brace in the innermost interpolation. -/
def closeBrace (t : Tokenizer) : Tokenizer :=
  if t.templateDepth > 0 ∧ t.braceDepth > 0 then
    { t with interpolationBraceDepth := t.interpolationBraceDepth.modify t.innermost (· - 1) }
  else t

def tokenizerScanPunctuation (t : Tokenizer) (c : Char) (start line col : Nat) :
    Token × Tokenizer :=
  let single (type : TokenType) := (t.makeToken type start line col, t)
  match c with
  | '(' => single .tokLparen
  | ')' => single .tokRparen
  | '{' => (t.makeToken .tokLbrace start line col, openBrace t)
  | '}' => (t.makeToken .tokRbrace start line col, closeBrace t)
  | '[' => single .tokLbracket
  | ']' => single .tokRbracket
  | ';' => single .tokSemicolon
  | ',' => single .tokComma
  | '.' =>
    if t.peek = '.' ∧ t.peekNext = '.' then
      let t := t.advanceChar.advanceChar
      (t.makeToken .tokEllipsis start line col, t)
    else single .tokDot
  | '?' => single .tokQuestion
  | ':' => single .tokColon
  | '-' =>
    scanOperator t start line col .tokMinus
      [('>', .tokArrow), ('-', .tokMinusMinus), ('=', .tokMinusAssign)]
  | '+' => scanOperator t start line col .tokPlus [('+', .tokPlusPlus), ('=', .tokPlusAssign)]
  | '*' => scanOperator t start line col .tokStar [('=', .tokStarAssign)]
  | '/' => scanOperator t start line col .tokSlash [('=', .tokSlashAssign)]
  | '%' => scanOperator t start line col .tokPercent [('=', .tokPercentAssign)]
  | '=' => scanOperator t start line col .tokAssign [('=', .tokEq)]
  | '!' => scanOperator t start line col .tokBang [('=', .tokNeq)]
  | '<' => scanShift t start line col '<' .tokLshiftAssign .tokLshift .tokLte .tokLt
  | '>' => scanShift t start line col '>' .tokRshiftAssign .tokRshift .tokGte .tokGt
  | '&' => scanOperator t start line col .tokAmp [('&', .tokLogicAnd), ('=', .tokAmpAssign)]
  | '|' => scanOperator t start line col .tokPipe [('|', .tokLogicOr), ('=', .tokPipeAssign)]
  | '^' => scanOperator t start line col .tokCaret [('=', .tokCaretAssign)]
  | '~' => scanOperator t start line col .tokTilde [('&', .tokTildeAmp), ('^', .tokTildeCaret)]
  | '$' =>
    match t.matchChar '{' with
    | some t => (t.makeToken .tokDollarLbrace start line col, t)
    | none => (errorToken "Unexpected character '$'" line col, t)
  | '\'' => tokenizerScanChar t start line col
  | '"' => tokenizerScanString t start line col
  | '\x60' => tokenizerScanTemplateBody t start line col .tokTemplateStart .tokTemplateFull
  | _ => (errorToken "Unexpected character" line col, t)

/-! ## One token -/

def tokenizerInit (source : List Char) : Tokenizer where
  source := source
  current := 0
  line := 1
  column := 1
  templateDepth := 0
  interpolationBraceDepth := List.replicate tokenizerMaxTemplateDepth.toNat 0

/-- The innermost interpolation ends here. -/
def endsInterpolation (t : Tokenizer) : Bool :=
  t.templateDepth > 0 && t.braceDepth == 0 && t.peek == '}'

/-- The token at the read position, which no blank or comment follows. -/
def tokenizerScan (t : Tokenizer) : Token × Tokenizer :=
  let start := t.current
  let line := t.line
  let col := t.column
  if endsInterpolation t then
    let t := t.advanceChar
    tokenizerScanTemplateBody { t with templateDepth := t.templateDepth - 1 } start line col
      .tokTemplateMiddle .tokTemplateEnd
  else if t.isAtEnd then (t.makeToken .tokEof start line col, t)
  else
    let c := t.peek
    let t := t.advanceChar
    if isAlpha c || c == '_' then tokenizerScanIdentifier t start line col
    else if isDigit c then tokenizerScanNumber t start line col
    else tokenizerScanPunctuation t c start line col

def tokenizerNext (t : Tokenizer) : Token × Tokenizer := tokenizerScan (skipWhitespace t)

/-! ## Types of tokens -/

section Types

variable {P : TokenType → Prop} {t : Tokenizer} {start line col : Nat}

theorem checkKeyword_type (hIdentifier : P .tokIdentifier) (hKeywords : ∀ k ∈ keywords, P k.2)
    (text : List Char) : P (checkKeyword text) := by
  unfold checkKeyword
  cases hFind : keywords.find? fun k => k.1.toList == text with
  | none => exact hIdentifier
  | some k => exact hKeywords k (List.mem_of_find?_eq_some hFind)

theorem tokenizerScanIdentifier_type (hUnderscore : P .tokUnderscore)
    (hIdentifier : P .tokIdentifier) (hKeywords : ∀ k ∈ keywords, P k.2) :
    P (tokenizerScanIdentifier t start line col).1.type := by
  unfold tokenizerScanIdentifier
  dsimp only [makeToken]
  split
  · exact hUnderscore
  · exact checkKeyword_type hIdentifier hKeywords _

theorem scanOperator_type {alone : TokenType} {longer : List (Char × TokenType)} (hAlone : P alone)
    (hLonger : ∀ p ∈ longer, P p.2) : P (scanOperator t start line col alone longer).1.type := by
  induction longer with
  | nil => exact hAlone
  | cons p longer ih =>
    rw [scanOperator]
    split
    · exact hLonger p List.mem_cons_self
    · exact ih fun q hq => hLonger q (List.mem_cons_of_mem _ hq)

theorem scanShift_type {c : Char} {shiftAssign shift orEqual alone : TokenType}
    (hTypes : ∀ type ∈ [shiftAssign, shift, orEqual, alone], P type) :
    P (scanShift t start line col c shiftAssign shift orEqual alone).1.type := by
  unfold scanShift
  split
  · exact scanOperator_type (hTypes shift (by simp)) (by simpa using hTypes shiftAssign (by simp))
  · exact scanOperator_type (hTypes alone (by simp)) (by simpa using hTypes orEqual (by simp))

theorem scanPrefixed_type (hError : P .tokError) (hInt : P .tokIntLit) {p : Char → Bool}
    {message : String} : P (scanPrefixed t p message start line col).1.type := by
  unfold scanPrefixed
  dsimp only
  split
  · exact hError
  · exact hInt

theorem scanDecimal_type (hError : P .tokError) (hInt : P .tokIntLit) (hFloat : P .tokFloatLit) :
    P (scanDecimal t start line col).1.type := by
  unfold scanDecimal
  dsimp only
  split
  · exact hError
  case h_2 isFloat _ _ =>
    cases isFloat with
    | true => exact hFloat
    | false => exact hInt

theorem tokenizerScanNumber_type (hError : P .tokError) (hInt : P .tokIntLit)
    (hFloat : P .tokFloatLit) : P (tokenizerScanNumber t start line col).1.type := by
  unfold tokenizerScanNumber
  dsimp only
  split
  · split
    · exact scanPrefixed_type hError hInt
    · split
      · exact scanPrefixed_type hError hInt
      · split
        · exact scanPrefixed_type hError hInt
        · exact scanDecimal_type hError hInt hFloat
  · exact scanDecimal_type hError hInt hFloat

theorem scanCharEnd_type (hError : P .tokError) (hChar : P .tokCharLit) :
    P (scanCharEnd t start line col).1.type := by
  unfold scanCharEnd
  split
  · exact hError
  · exact hChar

theorem tokenizerScanChar_type (hError : P .tokError) (hChar : P .tokCharLit) :
    P (tokenizerScanChar t start line col).1.type := by
  unfold tokenizerScanChar
  split
  · exact hError
  · split
    · split
      · exact hError
      · exact scanCharEnd_type hError hChar
    · split
      · exact hError
      · exact scanCharEnd_type hError hChar

theorem tokenizerScanString_type (hError : P .tokError) (hString : P .tokStringLit) :
    P (tokenizerScanString t start line col).1.type := by
  by_cases hType : (tokenizerScanString t start line col).1.type = .tokError
  · exact hType ▸ hError
  · obtain ⟨s, -, -, hToken⟩ := scanStringFrom_accepts rfl hType
    rw [tokenizerScanString, hToken]
    exact hString

theorem tokenizerScanTemplateBody_type {onInterp onEnd : TokenType} (hError : P .tokError)
    (hInterp : P onInterp) (hEnd : P onEnd) :
    P (tokenizerScanTemplateBody t start line col onInterp onEnd).1.type := by
  by_cases hType : (tokenizerScanTemplateBody t start line col onInterp onEnd).1.type = .tokError
  · exact hType ▸ hError
  · obtain ⟨s, -, ⟨-, hToken⟩ | ⟨t₁, -, hToken, -⟩⟩ := scanTemplateFrom_accepts rfl hType
    · rw [tokenizerScanTemplateBody, hToken]
      exact hEnd
    · rw [tokenizerScanTemplateBody, hToken]
      exact hInterp

/-- The types of operators and of other marks. -/
def punctuationTypes : List TokenType :=
  [.tokLparen, .tokRparen, .tokLbrace, .tokRbrace, .tokLbracket, .tokRbracket, .tokSemicolon,
    .tokComma, .tokDot, .tokEllipsis, .tokArrow, .tokQuestion, .tokColon, .tokDollarLbrace,
    .tokAssign, .tokPlusAssign, .tokMinusAssign, .tokStarAssign, .tokSlashAssign,
    .tokPercentAssign, .tokAmpAssign, .tokPipeAssign, .tokCaretAssign, .tokLshiftAssign,
    .tokRshiftAssign, .tokEq, .tokNeq, .tokLt, .tokGt, .tokLte, .tokGte, .tokLogicOr,
    .tokLogicAnd, .tokPipe, .tokAmp, .tokCaret, .tokTilde, .tokTildeAmp, .tokTildeCaret,
    .tokLshift, .tokRshift, .tokPlus, .tokPlusPlus, .tokMinus, .tokMinusMinus, .tokStar,
    .tokSlash, .tokPercent, .tokBang, .tokCharLit, .tokError]

theorem tokenizerScanPunctuation_type {c : Char} (hMarks : ∀ type ∈ punctuationTypes, P type)
    (hString : c = '"' → P .tokStringLit)
    (hTemplate : c = '\x60' → P .tokTemplateStart ∧ P .tokTemplateFull) :
    P (tokenizerScanPunctuation t c start line col).1.type := by
  have hError : P .tokError := hMarks _ (by decide)
  have hChar : P .tokCharLit := hMarks _ (by decide)
  have hOperator : ∀ {t alone longer},
      (∀ type ∈ alone :: longer.map Prod.snd, type ∈ punctuationTypes) →
        P (scanOperator t start line col alone longer).1.type := by
    intro t alone longer h
    refine scanOperator_type (hMarks _ (h _ List.mem_cons_self)) fun p hp => hMarks _ (h _ ?_)
    exact List.mem_cons_of_mem _ (List.mem_map_of_mem hp)
  unfold tokenizerScanPunctuation
  dsimp only [makeToken]
  split
  case h_9 =>
    split
    · exact hMarks .tokEllipsis (by decide)
    · exact hMarks .tokDot (by decide)
  case h_25 =>
    split
    · exact hMarks .tokDollarLbrace (by decide)
    · exact hError
  case h_26 => exact tokenizerScanChar_type hError hChar
  case h_27 => exact tokenizerScanString_type hError (hString rfl)
  case h_28 =>
    exact tokenizerScanTemplateBody_type hError (hTemplate rfl).1 (hTemplate rfl).2
  case h_29 => exact hError
  case h_19 => exact scanShift_type fun type h => hMarks type (by revert type; decide)
  case h_20 => exact scanShift_type fun type h => hMarks type (by revert type; decide)
  all_goals first
    | (refine hOperator ?_; decide)
    | (dsimp only; refine hMarks _ ?_; decide)

end Types

/-! ## Tokens with text -/

/-- The types of strings and of template segments. -/
def TokenType.isText : TokenType → Bool
  | .tokStringLit | .tokTemplateFull | .tokTemplateStart | .tokTemplateMiddle
  | .tokTemplateEnd => true
  | _ => false

/-- The text of a string or segment, between its delimiters. -/
inductive TextToken : TokenType → List Char → List Char → Prop where
  | string {s : List Char} (h : Escaped [nul, '"', '\n'] s) :
      TextToken .tokStringLit ('"' :: (s ++ ['"'])) s
  | full {s : List Char} (h : Escaped [nul, '\x60'] s) :
      TextToken .tokTemplateFull ('\x60' :: (s ++ ['\x60'])) s
  | start {s : List Char} (h : Escaped [nul, '\x60'] s) :
      TextToken .tokTemplateStart ('\x60' :: s) s
  | middle {s : List Char} (h : Escaped [nul, '\x60'] s) :
      TextToken .tokTemplateMiddle ('}' :: s) s
  | last {s : List Char} (h : Escaped [nul, '\x60'] s) :
      TextToken .tokTemplateEnd ('}' :: (s ++ ['\x60'])) s

section TextTokens

variable {t t' : Tokenizer} {tok : Token} {start line col : Nat}

/-- A token is the text read from its start on. -/
theorem text_makeToken {s : List Char} (h : Moves t s t') (type : TokenType) (line col : Nat) :
    (t'.makeToken type t.current line col).text = s := by
  have hLength : t'.current - t.current = s.length := by
    have := h.current
    omega
  have hRest := h.rest
  unfold Tokenizer.rest at hRest
  rw [Token.text, makeToken, h.source, hRest, hLength, List.take_left]

theorem length_makeToken {s : List Char} (h : Moves t s t') (type : TokenType) (line col : Nat) :
    (t'.makeToken type t.current line col).length = s.length := by
  have hCurrent := h.current
  show t'.current - t.current = s.length
  omega

theorem tokenizerScanTemplateBody_text {d : Char} {t₀ : Tokenizer} {onInterp onEnd : TokenType}
    (hFirst : Moves t₀ [d] t)
    (h : tokenizerScanTemplateBody t t₀.current line col onInterp onEnd = (tok, t'))
    (hType : tok.type ≠ .tokError) :
    tok.length = tok.text.length ∧ ∃ s, Escaped [nul, '\x60'] s ∧
      ((tok.type = onEnd ∧ tok.text = d :: (s ++ ['\x60'])) ∨
        (tok.type = onInterp ∧ tok.text = d :: s)) := by
  obtain ⟨s, hText, ⟨hReads, rfl⟩ | ⟨t₁, hReads, rfl, -⟩⟩ := scanTemplateFrom_accepts h hType
  · have hAll := hFirst.trans hReads.toMoves
    rw [text_makeToken hAll, length_makeToken hAll]
    exact ⟨rfl, s, hText, .inl ⟨rfl, rfl⟩⟩
  · have hAll := hFirst.trans hReads.toMoves
    rw [text_makeToken hAll, length_makeToken hAll]
    exact ⟨rfl, s, hText, .inr ⟨rfl, rfl⟩⟩

theorem tokenizerScanIdentifier_isText :
    (tokenizerScanIdentifier t start line col).1.type.isText = false :=
  tokenizerScanIdentifier_type (P := fun type => type.isText = false) rfl rfl (by decide)

theorem tokenizerScanNumber_isText :
    (tokenizerScanNumber t start line col).1.type.isText = false :=
  tokenizerScanNumber_type (P := fun type => type.isText = false) rfl rfl rfl

theorem tokenizerScanPunctuation_isText {c : Char} (hString : c ≠ '"') (hTemplate : c ≠ '\x60') :
    (tokenizerScanPunctuation t c start line col).1.type.isText = false :=
  tokenizerScanPunctuation_type (P := fun type => type.isText = false) (by decide)
    (fun h => absurd h hString) fun h => absurd h hTemplate

theorem tokenizerScanPunctuation_text {c : Char} {t₀ : Tokenizer} (hFirst : Moves t₀ [c] t)
    (h : tokenizerScanPunctuation t c t₀.current line col = (tok, t'))
    (hText : tok.type.isText = true) :
    tok.length = tok.text.length ∧ ∃ s, TextToken tok.type tok.text s := by
  have hType : tok.type ≠ .tokError := by
    intro hError
    rw [hError] at hText
    exact nomatch hText
  by_cases hString : c = '"'
  · subst hString
    obtain ⟨s, hS, hReads, rfl⟩ := scanStringFrom_accepts h hType
    have hAll := hFirst.trans hReads.toMoves
    rw [text_makeToken hAll, length_makeToken hAll]
    exact ⟨rfl, s, .string hS⟩
  by_cases hTemplate : c = '\x60'
  · subst hTemplate
    obtain ⟨hLength, s, hS, ⟨hFull, hWord⟩ | ⟨hStart, hWord⟩⟩ :=
      tokenizerScanTemplateBody_text hFirst h hType
    · exact ⟨hLength, s, hFull ▸ hWord ▸ .full hS⟩
    · exact ⟨hLength, s, hStart ▸ hWord ▸ .start hS⟩
  · have hNot : (tokenizerScanPunctuation t c t₀.current line col).1.type.isText = false :=
      tokenizerScanPunctuation_isText hString hTemplate
    rw [h, hText] at hNot
    exact nomatch hNot

/-- The tokens with text are strings and segments as they should be. -/
theorem tokenizerScan_text (h : tokenizerScan t = (tok, t')) (hText : tok.type.isText = true) :
    tok.length = tok.text.length ∧ ∃ s, TextToken tok.type tok.text s := by
  have hType : tok.type ≠ .tokError := by
    intro hError
    rw [hError] at hText
    cases hText
  unfold tokenizerScan at h
  dsimp only at h
  split at h
  case isTrue hEnds =>
    have hPeek : t.peek = '}' := by
      simp only [endsInterpolation, Bool.and_eq_true, beq_iff_eq] at hEnds
      exact hEnds.2
    have hEnd : t.isAtEnd = false := by
      rw [isAtEnd, hPeek]
      decide
    have hFirst := (reads_advanceChar hEnd).toMoves
    rw [hPeek] at hFirst
    have hPopped : Moves t ['}'] { t.advanceChar with
        templateDepth := t.advanceChar.templateDepth - 1 } :=
      ⟨hFirst.source, hFirst.rest, hFirst.current, hFirst.place⟩
    obtain ⟨hLength, s, hS, ⟨hLast, hWord⟩ | ⟨hMiddle, hWord⟩⟩ :=
      tokenizerScanTemplateBody_text hPopped h hType
    · exact ⟨hLength, s, hLast ▸ hWord ▸ .last hS⟩
    · exact ⟨hLength, s, hMiddle ▸ hWord ▸ .middle hS⟩
  case isFalse _ =>
    split at h
    case isTrue _ =>
      obtain ⟨rfl, rfl⟩ := Prod.mk.inj h
      cases hText
    case isFalse hEnd =>
      rw [Bool.not_eq_true] at hEnd
      have hFirst := (reads_advanceChar hEnd).toMoves
      split at h
      case isTrue _ =>
        have hNot : (tokenizerScanIdentifier t.advanceChar t.current t.line
            t.column).1.type.isText = false := tokenizerScanIdentifier_isText
        rw [h, hText] at hNot
        cases hNot
      case isFalse _ =>
        split at h
        case isTrue _ =>
          have hNot : (tokenizerScanNumber t.advanceChar t.current t.line
              t.column).1.type.isText = false := tokenizerScanNumber_isText
          rw [h, hText] at hNot
          cases hNot
        case isFalse _ => exact tokenizerScanPunctuation_text hFirst h hText

end TextTokens

end Calynda
