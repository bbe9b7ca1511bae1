import Calynda.Jsx.Emit
import Mathlib.Data.List.DropRight

/-!
# Style strings

The scanner of a style attribute that is written as a string of declarations, each ending at a
semicolon, and the style texts of which it keeps every declaration.
-/

namespace Calynda.Jsx

open List

def cssBlank (c : Char) : Bool := c = ' ' || c = '\t'

def lineBreak (c : Char) : Bool := c = '\n' || c = '\r'

def cssSpace (c : Char) : Bool := cssBlank c || lineBreak c

/-- A value of digits, points and minus signs is a number, any other a string. -/
def styleValue (value : CText) : JsxExpr :=
  if value.all fun c => c.isDigit || c = '.' || c = '-' then .integer value else .string value

/-- The part of a text in front of a mark. -/
def upTo (mark : Char) (text : CText) : CText := text.takeWhile (· ≠ mark)

/-- The loop of `jsx_parse_css_string`. A name that runs into a semicolon or into the end stops
it. -/
def parseCssLoop : Nat → CText → Option (List JsxStyleProp)
  | 0, _ => none
  | fuel + 1, css =>
    let p := css.dropWhile cssSpace
    match p.dropWhile fun c => c ≠ ':' && c ≠ ';' with
    | ':' :: rest =>
      let name := (p.takeWhile fun c => c ≠ ':' && c ≠ ';').rdropWhile cssBlank
      let rest := rest.dropWhile cssBlank
      let value := (upTo ';' rest).rdropWhile cssBlank
      let after := (rest.dropWhile (· ≠ ';')).tail
      if name = [] ∨ value = [] then parseCssLoop fuel after
      else (parseCssLoop fuel after).map (⟨String.ofList name, styleValue value⟩ :: ·)
    | _ => some []

def jsxParseCssString (css : CText) : Option (List JsxStyleProp) :=
  parseCssLoop (css.length + 1) css

/-- The value of a style attribute from its string literal. -/
def styleAttribute (literal : CText) : Option JsxAttrValue :=
  (jsxParseCssString (if 2 ≤ literal.length then literal.tail.dropLast else [])).map .style

/-! ## What a style text declares -/

def trim (text : CText) : CText := (text.dropWhile cssSpace).rdropWhile cssSpace

/-- The text behind the first colon. -/
def behindColon (segment : CText) : CText := (segment.dropWhile (· ≠ ':')).tail

/-- The declaration of a segment, if it has the form of one. -/
def declaration (segment : CText) : Option JsxStyleProp :=
  let name := trim (upTo ':' segment)
  let value := trim (behindColon segment)
  if ':' ∉ segment ∨ name = [] ∨ value = [] then none
  else some ⟨String.ofList name, styleValue value⟩

def declarations (css : CText) : List JsxStyleProp := (css.splitOn ';').filterMap declaration

/-- The style attribute with the text is read in full. -/
def KeepsDeclarations (css : CText) : Prop :=
  ∃ props, styleAttribute ('"' :: css ++ ['"']) = some (.style props) ∧ props = declarations css

/-- No line break ends the name or stands at an end of the value, spaces and tabs aside. -/
structure NoBreaks (name value : CText) : Prop where
  name_end : ∀ c ∈ (name.rdropWhile cssBlank).getLast?, lineBreak c = false
  value_start : ∀ c ∈ (value.dropWhile cssBlank).head?, lineBreak c = false
  value_end : ∀ c ∈ (value.rdropWhile cssBlank).getLast?, lineBreak c = false

/-- A segment with a colon that the scanner reads as it is meant. -/
def PlainSegment (segment : CText) : Prop :=
  (upTo ':' segment).all cssSpace ∨ (behindColon segment).all cssBlank ∨
    NoBreaks (upTo ':' segment) (behindColon segment)

/-- The segments up to the first one without a colon are plain, and none behind it has the form of
a declaration. -/
def PlainSegments : List CText → Prop
  | [] => True
  | s :: rest =>
    if ':' ∈ s then PlainSegment s ∧ PlainSegments rest
    else ∀ t ∈ rest, declaration t = none

/-! ## The scanner by segments -/

/-- What the scanner records for a segment with a colon. -/
def scannedProp (segment : CText) : Option JsxStyleProp :=
  let name := ((upTo ':' segment).dropWhile cssSpace).rdropWhile cssBlank
  let value := ((behindColon segment).dropWhile cssBlank).rdropWhile cssBlank
  if name = [] ∨ value = [] then none else some ⟨String.ofList name, styleValue value⟩

def scannedProps : List CText → List JsxStyleProp
  | [] => []
  | s :: rest => if ':' ∈ s then (scannedProp s).toList ++ scannedProps rest else []

theorem dropWhile_append_of_stop {p : Char → Bool} (s : CText) {r : CText}
    (h : ∀ c ∈ r.head?, p c = false) : (s ++ r).dropWhile p = s.dropWhile p ++ r := by
  induction s with
  | nil =>
    cases r with
    | nil => rfl
    | cons c r => exact dropWhile_cons_of_neg (by simp [h c rfl])
  | cons c s ih =>
    by_cases hc : p c = true
    · rw [cons_append, dropWhile_cons_of_pos hc, dropWhile_cons_of_pos hc, ih]
    · rw [cons_append, dropWhile_cons_of_neg hc, dropWhile_cons_of_neg hc]
      rfl

theorem takeWhile_append_of_stop {p : Char → Bool} (s : CText) {r : CText}
    (h : ∀ c ∈ r.head?, p c = false) : (s ++ r).takeWhile p = s.takeWhile p := by
  induction s with
  | nil =>
    cases r with
    | nil => rfl
    | cons c r => exact takeWhile_cons_of_neg (by simp [h c rfl])
  | cons c s ih =>
    by_cases hc : p c = true
    · rw [cons_append, takeWhile_cons_of_pos hc, takeWhile_cons_of_pos hc, ih]
    · rw [cons_append, takeWhile_cons_of_neg hc, takeWhile_cons_of_neg hc]

theorem dropWhile_append_of_all {p : Char → Bool} {s : CText} (hs : ∀ c ∈ s, p c = true)
    {r : CText} (h : ∀ c ∈ r.head?, p c = false) : (s ++ r).dropWhile p = r := by
  rw [dropWhile_append_of_stop s h, dropWhile_eq_nil_iff.mpr hs, nil_append]

theorem takeWhile_append_of_all {p : Char → Bool} {s : CText} (hs : ∀ c ∈ s, p c = true)
    {r : CText} (h : ∀ c ∈ r.head?, p c = false) : (s ++ r).takeWhile p = s := by
  rw [takeWhile_append_of_stop s h, takeWhile_eq_self_iff.mpr hs]

/-- A text is its first segment and what is behind it: nothing, or a semicolon and a text. -/
theorem exists_segment (css : CText) : ∃ s r, css = s ++ r ∧ ';' ∉ s ∧
    (∀ c ∈ r.head?, c = ';') ∧ css.splitOn ';' = s :: (if r = [] then [] else r.tail.splitOn ';') := by
  by_cases h : ';' ∈ css
  · obtain ⟨s, rest, rfl, hs⟩ := eq_append_cons_of_mem h
    refine ⟨s, ';' :: rest, rfl, hs, by simp, ?_⟩
    have hFree : ∀ c ∈ s, (c == ';') = false := fun c hc => by
      rw [beq_eq_false_iff_ne]
      exact fun hEq => hs (hEq ▸ hc)
    exact splitOnP_append_cons_of_forall_mem hFree ';' rfl rest
  · refine ⟨css, [], (append_nil css).symm, h, nofun, ?_⟩
    refine splitOnP_eq_singleton fun c hc => ?_
    rw [beq_eq_false_iff_ne]
    exact fun hEq => h (hEq ▸ hc)

/-- A segment with a colon is its name, the colon and its value. -/
theorem exists_parts {s : CText} (h : ':' ∈ s) : s = upTo ':' s ++ ':' :: behindColon s ∧
    ':' ∉ upTo ':' s := by
  obtain ⟨a, b, rfl, ha⟩ := eq_append_cons_of_mem h
  have hAll : ∀ c ∈ a, decide (c ≠ ':') = true := fun c hc => by
    rw [decide_eq_true_iff]
    exact fun hEq => ha (hEq ▸ hc)
  have hUpTo : upTo ':' (a ++ ':' :: b) = a := takeWhile_append_of_all hAll (by simp)
  have hBehind : behindColon (a ++ ':' :: b) = b := by
    rw [behindColon, dropWhile_append_of_all hAll (by simp)]
    rfl
  rw [hUpTo, hBehind]
  exact ⟨rfl, ha⟩

/-- The characters that the scanner passes on its way to a colon or a semicolon. -/
theorem passes_of_notMem {a : CText} (hColon : ':' ∉ a) (hSemi : ';' ∉ a) :
    ∀ c ∈ a, (c ≠ ':' && c ≠ ';') = true := by
  intro c hc
  rw [Bool.and_eq_true, decide_eq_true_iff, decide_eq_true_iff]
  exact ⟨fun hEq => hColon (hEq ▸ hc), fun hEq => hSemi (hEq ▸ hc)⟩

theorem notMem_dropWhile {p : Char → Bool} {c : Char} {a : CText} (h : c ∉ a) : c ∉ a.dropWhile p :=
  fun hc => h ((dropWhile_suffix p).mem hc)

/-- The scanner reads segment by segment. -/
theorem parseCssLoop_eq {fuel : Nat} {css : CText} (hFuel : css.length < fuel) :
    parseCssLoop fuel css = some (scannedProps (css.splitOn ';')) := by
  induction fuel generalizing css with
  | zero => exact absurd hFuel (Nat.not_lt_zero _)
  | succ fuel ih =>
    obtain ⟨s, r, rfl, hSemi, hr, hSplit⟩ := exists_segment css
    have hSpace : ∀ c ∈ r.head?, cssSpace c = false := fun c hc => by
      rw [hr c hc]
      rfl
    have hStop : ∀ c ∈ r.head?, (c ≠ ':' && c ≠ ';') = false := fun c hc => by
      rw [hr c hc]
      rfl
    have hEnd : ∀ c ∈ r.head?, decide (c ≠ ';') = false := fun c hc => by
      rw [hr c hc]
      rfl
    rw [hSplit, parseCssLoop, scannedProps]
    dsimp only
    rw [dropWhile_append_of_stop s hSpace]
    by_cases hColon : ':' ∈ s
    · obtain ⟨hParts, hName⟩ := exists_parts hColon
      have hNameSemi : ';' ∉ upTo ':' s := fun hc => hSemi ((List.takeWhile_prefix _).mem hc)
      have hValueSemi : ';' ∉ behindColon s := fun hc => hSemi
        (hParts ▸ mem_append_right _ (mem_cons_of_mem _ hc))
      have hPass := passes_of_notMem (notMem_dropWhile (p := cssSpace) hName)
        (notMem_dropWhile (p := cssSpace) hNameSemi)
      have hDrop : s.dropWhile cssSpace =
          (upTo ':' s).dropWhile cssSpace ++ ':' :: behindColon s := by
        nth_rewrite 1 [hParts]
        exact dropWhile_append_of_stop _ (by simp [cssSpace, cssBlank, lineBreak])
      rw [hDrop, append_assoc, cons_append, dropWhile_append_of_all hPass (by simp),
        takeWhile_append_of_all hPass (by simp), if_pos hColon]
      split
      case h_2 hNot => exact absurd rfl (hNot _)
      case h_1 rest hCons =>
      obtain ⟨-, rfl⟩ := List.cons.inj hCons
      have hBlank : ∀ c ∈ r.head?, cssBlank c = false := fun c hc => by
        rw [hr c hc]
        rfl
      have hValue : ∀ c ∈ (behindColon s).dropWhile cssBlank, decide (c ≠ ';') = true := by
        intro c hc
        rw [decide_eq_true_iff]
        exact fun hEq => notMem_dropWhile hValueSemi (hEq ▸ hc)
      have hUpTo : upTo ';' ((behindColon s).dropWhile cssBlank ++ r) =
          (behindColon s).dropWhile cssBlank := takeWhile_append_of_all hValue hEnd
      rw [dropWhile_append_of_stop _ hBlank, hUpTo, dropWhile_append_of_all hValue hEnd]
      have hRest : parseCssLoop fuel r.tail =
          some (scannedProps (if r = [] then [] else r.tail.splitOn ';')) := by
        cases r with
        | nil =>
          have hPos : 0 < fuel := by
            have hLen := length_pos_of_mem hColon
            rw [append_nil] at hFuel
            omega
          exact (ih (show ([] : CText).length < fuel from hPos)).trans rfl
        | cons c r =>
          rw [tail_cons, if_neg (cons_ne_nil c r)]
          refine ih ?_
          rw [length_append, length_cons] at hFuel
          omega
      rw [hRest, scannedProp]
      split <;> rfl
    · have hPass := passes_of_notMem (notMem_dropWhile (p := cssSpace) hColon)
        (notMem_dropWhile (p := cssSpace) hSemi)
      rw [dropWhile_append_of_all hPass hStop, if_neg hColon]
      split
      case h_1 rest => exact absurd (hr ':' rfl) (by decide)
      case h_2 => rfl

theorem jsxParseCssString_eq (css : CText) :
    jsxParseCssString css = some (scannedProps (css.splitOn ';')) :=
  parseCssLoop_eq (Nat.lt_succ_self _)

theorem styleAttribute_eq (css : CText) : styleAttribute ('"' :: css ++ ['"']) =
    some (.style (scannedProps (css.splitOn ';'))) := by
  have hLength : 2 ≤ ('"' :: css ++ ['"']).length := by
    rw [length_append, length_cons, length_singleton]
    omega
  have hText : ('"' :: css ++ ['"']).tail.dropLast = css := by
    rw [cons_append, tail_cons, dropLast_concat]
  rw [styleAttribute, if_pos hLength, hText, jsxParseCssString_eq]
  rfl

theorem keepsDeclarations_iff_scanned (css : CText) :
    KeepsDeclarations css ↔ scannedProps (css.splitOn ';') = declarations css := by
  unfold KeepsDeclarations
  rw [styleAttribute_eq]
  simp

/-! ## One segment -/

section Segment

variable {name value : CText}

theorem cssSpace_of_blank {c : Char} (h : cssBlank c = true) : cssSpace c = true := by
  rw [cssSpace, h, Bool.true_or]

theorem cssSpace_of_lineBreak {c : Char} (h : lineBreak c = true) : cssSpace c = true := by
  rw [cssSpace, h, Bool.or_true]

/-- Trimming blanks at the end is trimming whitespace unless a line break ends what is left. -/
theorem rdropWhile_blank_eq {text : CText}
    (h : ∀ c ∈ (text.rdropWhile cssBlank).getLast?, lineBreak c = false) :
    text.rdropWhile cssBlank = text.rdropWhile cssSpace := by
  induction text using List.reverseRecOn with
  | nil => rfl
  | append_singleton text c ih =>
    by_cases hBlank : cssBlank c = true
    · rw [rdropWhile_concat_pos _ _ _ hBlank] at h ⊢
      rw [rdropWhile_concat_pos _ _ _ (cssSpace_of_blank hBlank)]
      exact ih h
    · rw [rdropWhile_concat_neg _ _ _ hBlank] at h ⊢
      have hNot := h c (by simp)
      rw [rdropWhile_concat_neg]
      rw [cssSpace, hNot, Bool.or_false]
      exact hBlank

theorem dropWhile_blank_eq {text : CText}
    (h : ∀ c ∈ (text.dropWhile cssBlank).head?, lineBreak c = false) :
    text.dropWhile cssBlank = text.dropWhile cssSpace := by
  induction text with
  | nil => rfl
  | cons c text ih =>
    by_cases hBlank : cssBlank c = true
    · rw [dropWhile_cons_of_pos hBlank] at h ⊢
      rw [dropWhile_cons_of_pos (cssSpace_of_blank hBlank)]
      exact ih h
    · rw [dropWhile_cons_of_neg hBlank] at h ⊢
      have hNot := h c rfl
      rw [dropWhile_cons_of_neg]
      rw [cssSpace, hNot, Bool.or_false]
      exact hBlank

/-- Trimming the end does not go past a character that stays. -/
theorem rdropWhile_append {p : Char → Bool} (w : CText) {t : CText} {c : Char}
    (hHead : t.head? = some c) (hc : p c = false) :
    (w ++ t).rdropWhile p = w ++ t.rdropWhile p ∧ t.rdropWhile p ≠ [] := by
  refine ⟨?_, fun hNil => ?_⟩
  · induction t using List.reverseRecOn with
    | nil => exact nomatch hHead
    | append_singleton t d ih =>
      rw [← append_assoc]
      by_cases hd : p d = true
      · rw [rdropWhile_concat_pos _ _ _ hd, rdropWhile_concat_pos _ _ _ hd]
        refine ih ?_
        cases t with
        | nil =>
          cases hHead
          exact absurd hd (by simp [hc])
        | cons e t => exact hHead
      · rw [rdropWhile_concat_neg _ _ _ hd, rdropWhile_concat_neg _ _ _ hd,
          append_assoc]
  · have hAll := rdropWhile_eq_nil_iff.mp hNil c (mem_of_mem_head? hHead)
    rw [hc] at hAll
    exact absurd hAll (by decide)

/-- What is left of a text after the whitespace at its start begins with something else. -/
theorem dropWhile_eq_nil_or {p : Char → Bool} (text : CText) :
    text.dropWhile p = [] ∧ (∀ c ∈ text, p c = true) ∨
      ∃ c, (text.dropWhile p).head? = some c ∧ p c = false := by
  rcases hDrop : text.dropWhile p with _ | ⟨c, rest⟩
  · exact .inl ⟨rfl, dropWhile_eq_nil_iff.mp hDrop⟩
  · refine .inr ⟨c, rfl, ?_⟩
    have hHead := head_dropWhile_not p
      (show text.dropWhile p ≠ [] by rw [hDrop]; exact cons_ne_nil c rest)
    simpa only [hDrop, head_cons] using hHead

/-- The end of a text is that of what is left behind the whitespace at its start. -/
theorem getLast?_rdropWhile_dropWhile {p q : Char → Bool} (hpq : ∀ c, q c = true → p c = true)
    {text : CText} (h : text.dropWhile p ≠ []) :
    ((text.dropWhile p).rdropWhile q).getLast? = (text.rdropWhile q).getLast? := by
  rcases dropWhile_eq_nil_or (p := p) text with ⟨hNil, -⟩ | ⟨c, hHead, hc⟩
  · exact absurd hNil h
  · have hcq : q c = false := by
      rw [← Bool.not_eq_true]
      exact fun hq => absurd (hpq c hq) (by simp [hc])
    obtain ⟨hAppend, hNe⟩ := rdropWhile_append (text.takeWhile p) hHead hcq
    rw [takeWhile_append_dropWhile] at hAppend
    rw [hAppend, getLast?_append_of_ne_nil _ hNe]

/-- No whitespace at the ends. -/
def IsTrimmed (text : CText) : Prop :=
  (∀ c ∈ text.head?, cssSpace c = false) ∧ ∀ c ∈ text.getLast?, cssSpace c = false

theorem isTrimmed_trim (text : CText) : IsTrimmed (trim text) := by
  unfold trim
  refine ⟨fun c hc => ?_, fun c hc => ?_⟩
  · rcases dropWhile_eq_nil_or (p := cssSpace) text with ⟨hNil, -⟩ | ⟨d, hHead, hd⟩
    · rw [hNil] at hc
      exact nomatch hc
    · obtain ⟨-, hNe⟩ := rdropWhile_append [] hHead hd
      obtain ⟨rest, hRest⟩ := List.rdropWhile_prefix cssSpace (l := text.dropWhile cssSpace)
      rw [← hRest, head?_append_of_ne_nil _ hNe] at hHead
      cases hHead.symm.trans hc
      exact hd
  · have hNe : (text.dropWhile cssSpace).rdropWhile cssSpace ≠ [] := fun hNil => by
      rw [hNil] at hc
      exact nomatch hc
    have hLast := rdropWhile_last_not cssSpace _ hNe
    rw [getLast?_eq_some_getLast hNe] at hc
    cases hc
    rwa [Bool.not_eq_true] at hLast

theorem styleValue_inj {v w : CText} (h : styleValue v = styleValue w) : v = w := by
  unfold styleValue at h
  split at h <;> split at h <;> cases h <;> rfl

variable {s : CText}

theorem scannedProp_of_plain (hColon : ':' ∈ s) (h : PlainSegment s) :
    scannedProp s = declaration s := by
  unfold scannedProp declaration trim
  dsimp only
  rcases h with hName | hValue | hBreaks
  · have hNil : (upTo ':' s).dropWhile cssSpace = [] :=
      dropWhile_eq_nil_iff.mpr (all_eq_true.mp hName)
    rw [hNil]
    rw [if_pos (.inl rfl), if_pos (.inr (.inl rfl))]
  · have hAll := all_eq_true.mp hValue
    have hNil : (behindColon s).dropWhile cssBlank = [] := dropWhile_eq_nil_iff.mpr hAll
    have hNil' : (behindColon s).dropWhile cssSpace = [] :=
      dropWhile_eq_nil_iff.mpr fun c hc => cssSpace_of_blank (hAll c hc)
    rw [hNil, hNil', if_pos (.inr rfl), if_pos (.inr (.inr rfl))]
  · have hName : ((upTo ':' s).dropWhile cssSpace).rdropWhile cssBlank =
        ((upTo ':' s).dropWhile cssSpace).rdropWhile cssSpace := by
      refine rdropWhile_blank_eq fun c hc => ?_
      by_cases hNil : (upTo ':' s).dropWhile cssSpace = []
      · rw [hNil] at hc
        exact nomatch hc
      · rw [getLast?_rdropWhile_dropWhile (fun c => cssSpace_of_blank) hNil] at hc
        exact hBreaks.name_end c hc
    have hStart := dropWhile_blank_eq hBreaks.value_start
    have hValue : ((behindColon s).dropWhile cssBlank).rdropWhile cssBlank =
        ((behindColon s).dropWhile cssBlank).rdropWhile cssSpace := by
      refine rdropWhile_blank_eq fun c hc => ?_
      by_cases hNil : (behindColon s).dropWhile cssBlank = []
      · rw [hNil] at hc
        exact nomatch hc
      · rw [getLast?_rdropWhile_dropWhile (fun c hc => hc) hNil] at hc
        exact hBreaks.value_end c hc
    rw [hName, hValue, hStart]
    simp [hColon]

/-- A segment that is not plain makes the scanner record what no segment declares. -/
theorem exists_scannedProp (h : ¬ PlainSegment s) :
    ∃ prop, scannedProp s = some prop ∧ ∀ t, declaration t ≠ some prop := by
  unfold PlainSegment at h
  rw [not_or, not_or] at h
  obtain ⟨hName, hValue, hBreaks⟩ := h
  have hName' : (upTo ':' s).dropWhile cssSpace ≠ [] := fun hNil =>
    hName (all_eq_true.mpr (dropWhile_eq_nil_iff.mp hNil))
  have hValue' : (behindColon s).dropWhile cssBlank ≠ [] := fun hNil =>
    hValue (all_eq_true.mpr (dropWhile_eq_nil_iff.mp hNil))
  have hNotNil : ∀ {p : Char → Bool} {text : CText}, (∀ c, cssBlank c = true → p c = true) →
      text.dropWhile p ≠ [] → (text.dropWhile p).rdropWhile cssBlank ≠ [] := by
    intro p text hp hNe
    rcases dropWhile_eq_nil_or (p := p) text with ⟨hNil, -⟩ | ⟨c, hHead, hc⟩
    · exact absurd hNil hNe
    · refine (rdropWhile_append [] hHead ?_).2
      rw [← Bool.not_eq_true]
      exact fun hBlank => absurd (hp c hBlank) (by simp [hc])
  have hN := hNotNil (fun c => cssSpace_of_blank) hName'
  have hV := hNotNil (fun c hc => hc) hValue'
  refine ⟨_, if_neg (not_or.mpr ⟨hN, hV⟩), fun t ht => hBreaks ?_⟩
  unfold declaration at ht
  dsimp only at ht
  split at ht
  · exact nomatch ht
  · have hProp := Option.some.inj ht
    rw [JsxStyleProp.mk.injEq] at hProp
    have hNameEq := String.ofList_injective hProp.1
    have hValueEq := styleValue_inj hProp.2
    have hNameTrim := isTrimmed_trim (upTo ':' t)
    have hValueTrim := isTrimmed_trim (behindColon t)
    rw [hNameEq] at hNameTrim
    rw [hValueEq] at hValueTrim
    have hNot : ∀ {c : Char}, cssSpace c = false → lineBreak c = false := fun {c} hc => by
      rw [← Bool.not_eq_true]
      exact fun hBreak => absurd (cssSpace_of_lineBreak hBreak) (by simp [hc])
    refine ⟨fun c hc => ?_, fun c hc => ?_, fun c hc => ?_⟩
    · rw [← getLast?_rdropWhile_dropWhile (fun c => cssSpace_of_blank) hName'] at hc
      exact hNot (hNameTrim.2 c hc)
    · obtain ⟨rest, hRest⟩ := List.rdropWhile_prefix cssBlank
        (l := (behindColon s).dropWhile cssBlank)
      rw [← hRest, head?_append_of_ne_nil _ hV] at hc
      exact hNot (hValueTrim.1 c hc)
    · rw [← getLast?_rdropWhile_dropWhile (fun c hc => hc) hValue'] at hc
      exact hNot (hValueTrim.2 c hc)

end Segment

/-! ## All segments -/

theorem scannedProps_eq_iff (segments : List CText) :
    scannedProps segments = segments.filterMap declaration ↔ PlainSegments segments := by
  induction segments with
  | nil => exact iff_of_true rfl trivial
  | cons s rest ih =>
    unfold scannedProps PlainSegments
    by_cases hColon : ':' ∈ s
    · rw [if_pos hColon, if_pos hColon]
      by_cases hPlain : PlainSegment s
      · rw [scannedProp_of_plain hColon hPlain, ← ih]
        have hCons : (s :: rest).filterMap declaration =
            (declaration s).toList ++ rest.filterMap declaration := by
          cases hDecl : declaration s with
          | none => rw [filterMap_cons_none hDecl]; rfl
          | some prop => rw [filterMap_cons_some hDecl]; rfl
        rw [hCons, append_cancel_left_eq]
        exact (and_iff_right hPlain).symm
      · refine iff_of_false (fun hEq => ?_) fun h => hPlain h.1
        obtain ⟨prop, hScanned, hNone⟩ := exists_scannedProp hPlain
        have hMem : prop ∈ (s :: rest).filterMap declaration := by
          rw [← hEq, hScanned]
          exact mem_cons_self
        obtain ⟨t, -, ht⟩ := mem_filterMap.mp hMem
        exact hNone t ht
    · have hNone : declaration s = none := by
        unfold declaration
        exact if_pos (.inl hColon)
      rw [if_neg hColon, if_neg hColon, filterMap_cons_none hNone, eq_comm,
        filterMap_eq_nil_iff]

/-- A style text is read in full exactly when its segments are plain up to the first without a
colon, behind which none has the form of a declaration. -/
theorem keepsDeclarations_iff (css : CText) :
    KeepsDeclarations css ↔ PlainSegments (css.splitOn ';') := by
  rw [keepsDeclarations_iff_scanned]
  exact scannedProps_eq_iff _

/-- The empty segment of `color: red;; width: 10` ends the scan. -/
theorem not_keepsDeclarations_emptySegment : ¬ ∀ css, KeepsDeclarations css := by
  intro h
  have hKeeps := h "color: red;; width: 10".toList
  rw [keepsDeclarations_iff_scanned] at hKeeps
  have hLength := congrArg List.length hKeeps
  exact absurd hLength (by decide)

end Calynda.Jsx
