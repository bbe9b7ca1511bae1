import Calynda.Lib.CString
import Calynda.Tokenizer.Lossless

/-!
# Which pipeline compiles a file

A file goes to the compiler of components as soon as the word `component` stands free anywhere in
its text. The tokenizer has a keyword there only outside of comments, strings and templates, and
a component is declared only where an identifier follows.
-/

namespace Calynda.Jsx

open CString Tokenizer

def componentWord : List Char := "component".toList

def isAlnum (c : Char) : Bool := isAlpha c || isDigit c

/-! ## The scan of the text -/

section Scan

variable (source : List Char)

/-- The loop of `jsx_source_has_components`, from position `p` on. -/
def hasComponentsFrom : Nat → Nat → Bool
  | 0, _ => false
  | fuel + 1, p =>
    match CString.strstr componentWord (source.drop p) with
    | none => false
    | some (before, _) =>
      let p := p + before.length
      if p > 0 ∧ isWordChar (source.getD (p - 1) nul) then hasComponentsFrom fuel (p + 9)
      else if isAlnum (source.getD (p + 9) nul) ∧ source.getD (p + 9) nul ≠ ' ' then
        hasComponentsFrom fuel (p + 9)
      else true

def jsxSourceHasComponents : Bool := hasComponentsFrom source (source.length + 1) 0

inductive Pipeline where
  | jsx | normal
  deriving DecidableEq, Repr

/-- The choice that `calynda_compile_to_c` makes for the text of a file. -/
def calyndaCompileToC : Pipeline :=
  if jsxSourceHasComponents source then .jsx else .normal

/-- A letter, a digit or an underscore stands directly in front of the position. -/
def WordCharBefore (i : Nat) : Prop := 0 < i ∧ isWordChar (source.getD (i - 1) nul) = true

/-- The word stands at a position, with no letter or digit next to it and no underscore in front
of it. -/
structure FreeMention (i : Nat) : Prop where
  word : componentWord <+: source.drop i
  before : ¬ WordCharBefore source i
  behind : isAlnum (source.getD (i + 9) nul) = false

end Scan

section Mentions

variable {source : List Char} {i j p fuel : Nat}

theorem getElem?_of_word (h : componentWord <+: source.drop i) {k : Nat} (hk : k < 9) :
    source[i + k]? = componentWord[k]? := by
  obtain ⟨rest, hRest⟩ := h
  rw [← List.getElem?_drop, ← hRest, List.getElem?_append_left hk]

/-- No two places of the word overlap, since it has its first letter only once. -/
theorem apart_of_words (hi : componentWord <+: source.drop i) (hj : componentWord <+: source.drop j)
    (h : i < j) : i + 9 ≤ j := by
  by_contra hLt
  have hInner := getElem?_of_word hi (show j - i < 9 by omega)
  have hFirst := getElem?_of_word hj (show 0 < 9 by omega)
  rw [show i + (j - i) = j + 0 by omega, hFirst] at hInner
  have hOther : ∀ k < 9, 0 < k → componentWord[0]? ≠ componentWord[k]? := by decide
  exact hOther (j - i) (by omega) (by omega) hInner

/-- The scan finds the word where it stands free. -/
theorem hasComponentsFrom_iff (h : source.length < p + fuel) :
    hasComponentsFrom source fuel p = true ↔ ∃ i, p ≤ i ∧ FreeMention source i := by
  induction fuel generalizing p with
  | zero =>
    refine iff_of_false Bool.false_ne_true ?_
    rintro ⟨i, hLe, hMention⟩
    have hWord := hMention.word
    rw [List.drop_eq_nil_of_le (by omega), List.prefix_nil] at hWord
    exact absurd hWord (by decide)
  | succ fuel ih =>
    rw [hasComponentsFrom]
    cases hFound : CString.strstr componentWord (source.drop p) with
    | none =>
      refine iff_of_false Bool.false_ne_true ?_
      rintro ⟨i, hLe, hMention⟩
      have hSuffix : source.drop i <:+ source.drop p := by
        rw [show i = p + (i - p) by omega, ← List.drop_drop]
        exact List.drop_suffix _ _
      exact strstr_none hFound hSuffix hMention.word
    | some found =>
      obtain ⟨before, found⟩ := found
      obtain ⟨hSplit, hWord⟩ := strstr_some hFound
      generalize hq : p + before.length = q
      have hAt : componentWord <+: source.drop q := by
        rw [← hq, ← List.drop_drop, hSplit, List.drop_left]
        exact hWord
      have hNext : ∀ i, p ≤ i → FreeMention source i → i = q ∨ q + 9 ≤ i := by
        intro i hLe hMention
        rcases Nat.lt_trichotomy i q with hLt | hEq | hLt
        · have hPrefix := hMention.word
          refine absurd ?_ (strstr_first hFound (show i - p < before.length by omega))
          rwa [List.drop_drop, show p + (i - p) = i by omega]
        · exact .inl hEq
        · exact .inr (apart_of_words hAt hMention.word hLt)
      have hSkip : ¬ FreeMention source q → ((∃ i, q + 9 ≤ i ∧ FreeMention source i) ↔
          ∃ i, p ≤ i ∧ FreeMention source i) := by
        intro hNot
        constructor
        · rintro ⟨i, hLe, hMention⟩
          exact ⟨i, by omega, hMention⟩
        · rintro ⟨i, hLe, hMention⟩
          refine ⟨i, (hNext i hLe hMention).resolve_left ?_, hMention⟩
          rintro rfl
          exact hNot hMention
      dsimp only
      rw [hq]
      split
      case isTrue hBefore =>
        rw [ih (by omega), hSkip fun hMention => hMention.before hBefore]
      case isFalse hBefore =>
        split
        case isTrue hBehind =>
          rw [ih (by omega), hSkip fun hMention => ?_]
          rw [hMention.behind] at hBehind
          exact Bool.false_ne_true hBehind.1
        case isFalse hBehind =>
          refine iff_of_true rfl ⟨q, by omega, hAt, hBefore, ?_⟩
          rw [not_and_not_right] at hBehind
          by_contra hAlnum
          have hSpace := hBehind (Bool.of_not_eq_false hAlnum)
          rw [hSpace] at hAlnum
          exact hAlnum rfl

theorem jsxSourceHasComponents_iff :
    jsxSourceHasComponents source = true ↔ ∃ i, FreeMention source i := by
  rw [jsxSourceHasComponents, hasComponentsFrom_iff (by omega)]
  simp only [Nat.zero_le, true_and]

end Mentions

/-! ## The keywords of the tokenizer -/

section Keywords

variable {t : Tokenizer} {source : List Char} {n : Nat}

theorem eq_of_checkKeyword {text : List Char} (h : checkKeyword text = .tokComponent) :
    text = componentWord := by
  unfold checkKeyword at h
  cases hFind : keywords.find? fun k => k.1.toList == text with
  | none =>
    rw [hFind] at h
    exact nomatch h
  | some k =>
    rw [hFind] at h
    have hMem := List.mem_of_find?_eq_some hFind
    have hText : k.1.toList = text := by simpa using List.find?_some hFind
    have hOnly : ∀ k ∈ keywords, k.2 = .tokComponent → k.1 = "component" := by decide
    rw [← hText, hOnly k hMem h]
    rfl

/-- A word is read to its last character. -/
theorem peek_skipWhile (t : Tokenizer) {p : Char → Bool} (hNul : p nul = false) :
    p (t.skipWhile p).peek = false := by
  rcases advanceWhile_stops (p := p) (Nat.le_refl t.left) with hEnd | hStop
  · have hPeek : (t.skipWhile p).peek = nul := by simpa [isAtEnd, skipWhile] using hEnd
    rw [hPeek, hNul]
  · exact hStop

/-- The keyword stands where its token is read, and no word goes on behind it. -/
theorem tokenizerScan_component (h : (tokenizerScan t).1.type = .tokComponent) :
    componentWord <+: t.rest ∧ isWordChar (t.source.getD (t.current + 9) nul) = false := by
  unfold tokenizerScan at h
  dsimp only at h
  split at h
  case isTrue =>
    refine absurd h (tokenizerScanTemplateBody_type (P := (· ≠ .tokComponent)) ?_ ?_ ?_)
    all_goals exact fun h => by cases h
  case isFalse =>
    split at h
    case isTrue => cases h
    case isFalse hEnd =>
      rw [Bool.not_eq_true] at hEnd
      have hFirst := reads_advanceChar hEnd
      split at h
      case isTrue =>
        obtain ⟨s, hReads, -⟩ := reads_advanceWhile isWordChar t.advanceChar.left t.advanceChar
        have hAll := hFirst.trans hReads
        have hText := text_makeToken hAll.toMoves .tokIdentifier t.line t.column
        have hWord : [t.peek] ++ s = componentWord := by
          unfold tokenizerScanIdentifier at h
          dsimp only [makeToken] at h
          split at h
          · cases h
          · rw [← hText]
            exact eq_of_checkKeyword h
        have hStop := peek_skipWhile t.advanceChar (p := isWordChar) (by decide)
        have hCurrent := hAll.current
        rw [hWord] at hAll hCurrent
        refine ⟨⟨_, hAll.rest.symm⟩, ?_⟩
        rw [peek, skipWhile, hAll.source, hCurrent] at hStop
        exact hStop
      case isFalse =>
        split at h
        case isTrue =>
          refine absurd h (tokenizerScanNumber_type (P := (· ≠ .tokComponent)) ?_ ?_ ?_)
          all_goals exact fun h => by cases h
        case isFalse =>
          exact absurd h (tokenizerScanPunctuation_type (P := (· ≠ .tokComponent))
            (by decide) (fun _ h => by cases h)
            fun _ => ⟨(fun h => by cases h), (fun h => by cases h)⟩)

variable (source n)

/-- A keyword of a component and then an identifier are read. -/
def DeclaresAt : Prop :=
  (tokenOf source n).type = .tokComponent ∧ (tokenOf source (n + 1)).type = .tokIdentifier

/-- A token that comes directly behind a character of a word: of a number, or of a text that the
tokenizer gave up. -/
def Glued : Prop := WordCharBefore source ((tokenOf source n).offset source)

variable {source n}

/-- A keyword that is not glued stands free. -/
theorem freeMention_of_declaresAt (hNul : nul ∉ source) (h : DeclaresAt source n)
    (hFree : ¬ Glued source n) : FreeMention source ((tokenOf source n).offset source) := by
  have hType : (tokenOf source n).type ≠ .tokError := by
    rw [h.1]
    exact nofun
  have hStart := fromStart_tokenizerAfter hNul n
  obtain ⟨t, gap, ht, hReads, -, hFrom, -⟩ := call_reads hNul n
  have hOffset : (tokenOf source n).offset source = t.current := by
    rw [ht]
    exact (lossless hNul).offset n hType
  have hToken : (tokenizerScan t).1.type = .tokComponent := by
    rw [ht]
    exact h.1
  obtain ⟨hWord, hBehind⟩ := tokenizerScan_component hToken
  rw [rest, hFrom.source_eq, ← hOffset] at hWord
  rw [hFrom.source_eq, ← hOffset, isWordChar, Bool.or_eq_false_iff] at hBehind
  exact ⟨hWord, hFree, hBehind.1⟩

end Keywords

/-! ## Files that are routed by their tokens -/

/-- A file goes to the compiler of components exactly when the tokenizer finds the declaration of
one in it, and else to the normal pipeline. -/
structure RoutedByTokens (source : List Char) : Prop where
  has : jsxSourceHasComponents source = true ↔ ∃ n, DeclaresAt source n
  normal : (∀ n, ¬ DeclaresAt source n) → calyndaCompileToC source = .normal

/-- The texts for which the scan and the tokenizer agree. -/
inductive Agreeing (source : List Char) : Prop where
  | declared {n : Nat} (h : DeclaresAt source n) (hFree : ¬ Glued source n)
  | unmentioned (h : ∀ n, ¬ DeclaresAt source n) (hFree : ∀ i, ¬ FreeMention source i)
  | elsewhere {n i : Nat} (h : DeclaresAt source n)
      (hGlued : ∀ n, DeclaresAt source n → Glued source n) (hFree : FreeMention source i)

/-- The routing follows the tokens where the keyword of a declaration stands free, or where there
is no declaration and the word stands free nowhere. Behind a number it is a keyword too, and then
it takes another place of the word for the scan to be right. -/
theorem routedByTokens_iff {source : List Char} (hNul : nul ∉ source) :
    RoutedByTokens source ↔ Agreeing source := by
  constructor
  · intro hRouted
    by_cases hDeclares : ∃ n, DeclaresAt source n
    · by_cases hFree : ∃ n, DeclaresAt source n ∧ ¬ Glued source n
      · obtain ⟨n, hDeclared, hNot⟩ := hFree
        exact .declared hDeclared hNot
      · obtain ⟨i, hMention⟩ := jsxSourceHasComponents_iff.1 (hRouted.has.2 hDeclares)
        obtain ⟨n, hDeclared⟩ := hDeclares
        refine .elsewhere hDeclared (fun m hm => ?_) hMention
        by_contra hNot
        exact hFree ⟨m, hm, hNot⟩
    · have hNone : ¬ ∃ i, FreeMention source i := fun hMention =>
        hDeclares (hRouted.has.1 (jsxSourceHasComponents_iff.2 hMention))
      exact .unmentioned (not_exists.1 hDeclares) (not_exists.1 hNone)
  · intro hAgreeing
    have hHas : jsxSourceHasComponents source = true ↔ ∃ n, DeclaresAt source n := by
      rw [jsxSourceHasComponents_iff]
      cases hAgreeing with
      | declared h hFree => exact iff_of_true ⟨_, freeMention_of_declaresAt hNul h hFree⟩ ⟨_, h⟩
      | unmentioned h hFree => exact iff_of_false (not_exists.2 hFree) (not_exists.2 h)
      | elsewhere h hGlued hFree => exact iff_of_true ⟨_, hFree⟩ ⟨_, h⟩
    refine ⟨hHas, fun hNone => ?_⟩
    have hNot : jsxSourceHasComponents source = false := by
      rw [← Bool.not_eq_true, hHas]
      exact not_exists.2 hNone
    rw [calyndaCompileToC, hNot]
    rfl

theorem routedByTokens_component :
    nul ∉ "component A".toList ∧ RoutedByTokens "component A".toList := by
  have hNul : nul ∉ "component A".toList := by decide
  have hDeclared : DeclaresAt "component A".toList 0 := by
    unfold DeclaresAt
    decide
  refine ⟨hNul, (routedByTokens_iff hNul).2 (.declared hDeclared ?_)⟩
  rintro ⟨hPos, -⟩
  exact absurd hPos (by decide)

/-- After a call that leaves the tokenizer as it is, the tokens stay the same. -/
theorem tokenizerAfter_stays {source : List Char} {k n : Nat}
    (h : tokenizerAfter source (k + 1) = tokenizerAfter source k) (hLe : k ≤ n) :
    tokenizerAfter source n = tokenizerAfter source k := by
  induction n, hLe using Nat.le_induction with
  | base => rfl
  | succ n hLe ih => rw [tokenizerAfter, ih, ← tokenizerAfter, h]

/-- A word in a comment sends a file without components away from the normal pipeline. -/
theorem not_routedByTokens_comment : ¬ RoutedByTokens "int32 x; // component".toList := by
  intro h
  obtain ⟨n, hType, -⟩ := h.has.1 (by decide)
  have hStays : tokenizerAfter "int32 x; // component".toList 5 =
      tokenizerAfter "int32 x; // component".toList 4 := by decide
  have hOther : ∀ n ≤ 4, (tokenOf "int32 x; // component".toList n).type ≠ .tokComponent := by
    decide
  rcases Nat.le_total n 4 with hLe | hLe
  · exact hOther n hLe hType
  · rw [tokenOf, tokenizerAfter_stays hStays hLe] at hType
    exact hOther 4 (Nat.le_refl 4) hType

end Calynda.Jsx
