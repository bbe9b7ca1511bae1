import Calynda.Decompiler.Externs
import Calynda.Decompiler.SymbolSearch
import Calynda.Tokenizer.Locality
import Calynda.Tokenizer.Lossless
import Mathlib.Data.List.ReduceOption

/-!
# Names that are emitted

Two sanitizers turn symbols into identifiers: one replaces the characters that no identifier has,
the other one drops most of them. The names of a module and of a package are identifiers of the
language, and different ones for different addresses, exactly if the symbols are so up to these
characters. Overloads have one name.
-/

namespace Calynda.Decompiler

open List CString FormatText StateExcept Tokenizer

/-! ## Identifiers of the language -/

/-- The tokenizer reads the whole text as one identifier, which starts with a letter or `_`. -/
structure LegalIdent (x : List Char) : Prop where
  first : ∃ c s, x = c :: s ∧ (isAlpha c || c == '_') = true
  type : (tokenizerNext (tokenizerInit x)).1.type = .tokIdentifier
  text : (tokenizerNext (tokenizerInit x)).1.text = x

theorem isAlphanum_eq (c : Char) : c.isAlphanum = (isAlpha c || isDigit c) := by
  rw [Bool.eq_iff_iff]
  have hUpper : c.isUpper = decide (c.val ≥ 'A'.val ∧ c.val ≤ 'Z'.val) := rfl
  have hLower : c.isLower = (decide (c.val ≥ 'a'.val) && decide (c.val ≤ 'z'.val)) := rfl
  have hAlpha : c.isAlpha = (c.isUpper || c.isLower) := rfl
  simp only [Char.isAlphanum, hAlpha, hUpper, hLower, Char.isDigit, isAlpha, isDigit, Char.le_def,
    ge_iff_le, Bool.or_eq_true, Bool.and_eq_true, decide_eq_true_eq]
  rw [or_comm (a := 'A'.val ≤ c.val ∧ c.val ≤ 'Z'.val)]

theorem isWordChar_eq (c : Char) : isWordChar c = (c.isAlphanum || c == '_') := by
  rw [isWordChar, isAlphanum_eq]

theorem checkKeyword_eq_iff (x : List Char) :
    checkKeyword x = .tokIdentifier ↔ ∀ k ∈ keywords, x ≠ k.1.toList := by
  unfold checkKeyword
  cases hFind : keywords.find? fun k => k.1.toList == x with
  | none =>
    refine iff_of_true rfl fun k hk hEq => ?_
    have hNot := find?_eq_none.1 hFind k hk
    rw [hEq] at hNot
    exact hNot (beq_self_eq_true _)
  | some k =>
    have hMem := mem_of_find?_eq_some hFind
    have hEq : k.1.toList = x := by simpa using find?_some hFind
    have hTypes : ∀ k ∈ keywords, k.2 ≠ .tokIdentifier := by decide
    exact iff_of_false (hTypes k hMem) fun h => h k hMem hEq.symm

section Word

variable {c : Char} {s : List Char}

/-- Behind its first character, a word is read to the end of the source. -/
theorem tokenizerNext_word (hWord : ∀ d ∈ c :: s, isWordChar d = true)
    (hFirst : (isAlpha c || c == '_') = true) :
    (tokenizerNext (tokenizerInit (c :: s))).1.text = c :: s ∧
      (tokenizerNext (tokenizerInit (c :: s))).1.type =
        if c :: s = ['_'] then .tokUnderscore else checkKeyword (c :: s) := by
  have hNot : ∀ d, isWordChar d = false → ∀ x ∈ c :: s, x ≠ d := by
    rintro d hd x hx rfl
    rw [hWord x hx] at hd
    exact nomatch hd
  have hc := fun d hd => hNot d hd c mem_cons_self
  have hNul : nul ∉ c :: s := fun h => hNot nul (by decide) nul h rfl
  have hPeek : (tokenizerInit (c :: s)).peek = c := rfl
  have hEnd : (tokenizerInit (c :: s)).isAtEnd = false := by
    rw [Tokenizer.isAtEnd, hPeek]
    exact beq_eq_false_iff_ne.2 (hc nul (by decide))
  have hBlank : skipWhitespace (tokenizerInit (c :: s)) = tokenizerInit (c :: s) := by
    rw [skipWhitespace, skipWhitespaceFrom, hPeek, if_neg, if_neg, if_neg]
    · exact fun h => hc '/' (by decide) h.1
    · exact fun h => hc '/' (by decide) h.1
    · exact not_or.2 ⟨hc ' ' (by decide), not_or.2 ⟨hc '\t' (by decide),
        not_or.2 ⟨hc '\r' (by decide), hc '\n' (by decide)⟩⟩⟩
  have hScan : tokenizerNext (tokenizerInit (c :: s)) =
      tokenizerScanIdentifier (tokenizerInit (c :: s)).advanceChar 0 1 1 := by
    rw [tokenizerNext, hBlank, tokenizerScan]
    dsimp only
    rw [if_neg (by rw [endsInterpolation]; exact Bool.false_ne_true), hEnd,
      if_neg Bool.false_ne_true, hPeek, if_pos hFirst]
    rfl
  have hReads := reads_advanceChar hEnd
  rw [hPeek] at hReads
  obtain ⟨x, hRest, hSource, hText⟩ := wordText_eq hReads
  have hAfter : (tokenizerInit (c :: s)).advanceChar.rest = s := by
    have hAll := hReads.rest
    exact (List.cons.inj hAll).2.symm
  have hDone : ((tokenizerInit (c :: s)).advanceChar.skipWhile isWordChar).rest = [] := by
    rcases advanceWhile_stops (p := isWordChar)
      (Nat.le_refl (tokenizerInit (c :: s)).advanceChar.left) with hAtEnd | hStop
    · exact rest_of_isAtEnd (by rw [hSource, hReads.source]; exact hNul)
        hAtEnd
    · cases hLeft : ((tokenizerInit (c :: s)).advanceChar.skipWhile isWordChar).rest with
      | nil => rfl
      | cons d y =>
        have hMem : d ∈ s := by
          rw [← hAfter, hRest, hLeft]
          exact mem_append_right _ mem_cons_self
        rw [← Tokenizer.skipWhile, peek_of_rest hLeft, hWord d (mem_cons_of_mem _ hMem)] at hStop
        exact nomatch hStop
  have hSame : x = s := by
    rw [hDone, append_nil] at hRest
    exact hRest.symm.trans hAfter
  rw [hSame] at hText
  have hWhole : (((tokenizerInit (c :: s)).advanceChar.skipWhile isWordChar).source.drop 0).take
      (((tokenizerInit (c :: s)).advanceChar.skipWhile isWordChar).current - 0) = c :: s := by
    rw [hSource]
    exact hText
  rw [hScan, tokenizerScanIdentifier]
  dsimp only
  refine ⟨hWhole, ?_⟩
  rw [hWhole]
  rfl

/-- A text of letters, digits and underscores is an identifier exactly if it starts with no digit
and is neither `_` nor a keyword. -/
theorem legalIdent_iff {x : List Char} (hWord : ∀ c ∈ x, isWordChar c = true) :
    LegalIdent x ↔ (∃ c s, x = c :: s ∧ isDigit c = false) ∧ x ≠ ['_'] ∧
      ∀ k ∈ keywords, x ≠ k.1.toList := by
  cases x with
  | nil =>
    refine iff_of_false (fun h => ?_) fun h => ?_
    · obtain ⟨c, s, hEq, -⟩ := h.first
      exact nomatch hEq
    · obtain ⟨⟨c, s, hEq, -⟩, -⟩ := h
      exact nomatch hEq
  | cons c s =>
    have hClass : isDigit c = false ↔ (isAlpha c || c == '_') = true := by
      have hThis := hWord c mem_cons_self
      rw [isWordChar, Bool.or_right_comm] at hThis
      constructor
      · intro hDigit
        rwa [hDigit, Bool.or_false] at hThis
      · intro hFirst
        refine Bool.eq_false_iff.2 fun hDigit => ?_
        rw [isDigit, Bool.and_eq_true, decide_eq_true_eq, decide_eq_true_eq] at hDigit
        rw [Bool.or_eq_true, isAlpha] at hFirst
        rcases hFirst with hFirst | hFirst
        · simp only [Bool.or_eq_true, Bool.and_eq_true, decide_eq_true_eq, Char.le_def,
            UInt32.le_iff_toNat_le] at hFirst hDigit
          have hNine : '9'.val.toNat = 57 := rfl
          have hUpper : 'A'.val.toNat = 65 := rfl
          have hLower : 'a'.val.toNat = 97 := rfl
          omega
        · rw [beq_iff_eq.1 hFirst] at hDigit
          exact absurd hDigit (by decide)
    rw [← checkKeyword_eq_iff]
    constructor
    · intro h
      obtain ⟨c', s', hEq, hFirst⟩ := h.first
      obtain ⟨rfl, rfl⟩ := List.cons.inj hEq
      have hType := (tokenizerNext_word hWord hFirst).2.symm.trans h.type
      refine ⟨⟨c, s, rfl, hClass.2 hFirst⟩, ?_, ?_⟩
      · intro hUnderscore
        rw [if_pos hUnderscore] at hType
        exact nomatch hType
      · split at hType
        · exact nomatch hType
        · exact hType
    · rintro ⟨⟨c', s', hEq, hDigit⟩, hUnderscore, hKeyword⟩
      obtain ⟨rfl, rfl⟩ := List.cons.inj hEq
      have hFirst := hClass.1 hDigit
      obtain ⟨hText, hType⟩ := tokenizerNext_word hWord hFirst
      rw [if_neg hUnderscore, hKeyword] at hType
      exact ⟨⟨c, s, rfl, hFirst⟩, hType, hText⟩

end Word

/-! ## Names that sanitizers make alike -/

/-- A letter or a digit stands for itself, and every other character for an underscore. -/
def SameChar (c d : Char) : Prop := c = d ∨ c.isAlphanum = false ∧ d.isAlphanum = false

theorem sanitizeChar_eq_iff {c d : Char} : sanitizeChar c = sanitizeChar d ↔ SameChar c d := by
  have hOne : ∀ c : Char, c.isAlphanum = true → sanitizeChar c = c := fun c h => by
    rw [sanitizeChar, h, Bool.true_or, if_pos rfl]
  have hOther : ∀ c : Char, c.isAlphanum = false → sanitizeChar c = '_' := fun c h => by
    unfold sanitizeChar
    rw [h, Bool.false_or]
    split
    case isTrue hEq => exact beq_iff_eq.1 hEq
    case isFalse => rfl
  have hNot : ('_' : Char).isAlphanum = false := rfl
  unfold SameChar
  cases hc : c.isAlphanum with
  | true =>
    cases hd : d.isAlphanum with
    | true => simp [hOne c hc, hOne d hd]
    | false =>
      rw [hOne c hc, hOther d hd]
      refine iff_of_false ?_ ?_
      · rintro rfl
        exact nomatch hc.symm.trans hNot
      · rintro (rfl | ⟨h, -⟩)
        · exact nomatch hc.symm.trans hd
        · exact nomatch h
  | false =>
    cases hd : d.isAlphanum with
    | true =>
      rw [hOther c hc, hOne d hd]
      refine iff_of_false ?_ ?_
      · intro h
        rw [← h, hNot] at hd
        exact nomatch hd
      · rintro (rfl | ⟨-, h⟩)
        · exact nomatch hd.symm.trans hc
        · exact nomatch h
    | false => simp [hOther c hc, hOther d hd]

theorem sanitize_eq_iff {s t : List Char} :
    sanitize s = sanitize t ↔ List.Forall₂ SameChar s t := by
  induction s generalizing t with
  | nil =>
    cases t with
    | nil => exact iff_of_true rfl .nil
    | cons d t => exact iff_of_false nofun nofun
  | cons c s ih =>
    cases t with
    | nil => exact iff_of_false nofun nofun
    | cons d t =>
      rw [List.forall₂_cons, ← ih, ← sanitizeChar_eq_iff]
      exact List.cons.injEq _ _ _ _ ▸ Iff.rfl

/-- The texts that become one underscore in an identifier. -/
def gaps : List (List Char) := ["::".toList, ['.'], ['-'], [' '], ['_']]

/-- A character that leaves no trace, in front of the text `s`. -/
structure Dropped (c : Char) (s : List Char) : Prop where
  notWord : c.isAlphanum = false
  notGap : [c] ∉ gaps
  alone : c = ':' → s.head? ≠ some ':'

/-- Names with the same letters and digits in the same order, and underscores or other gaps at the
same places between them. -/
inductive Alike : List Char → List Char → Prop
  | nil : Alike [] []
  | same {c : Char} {s t : List Char} (hc : c.isAlphanum = true) (h : Alike s t) :
      Alike (c :: s) (c :: t)
  | gap {p q s t : List Char} (hp : p ∈ gaps) (hq : q ∈ gaps) (h : Alike s t) :
      Alike (p ++ s) (q ++ t)
  | left {c : Char} {s t : List Char} (hc : Dropped c s) (h : Alike s t) : Alike (c :: s) t
  | right {c : Char} {s t : List Char} (hc : Dropped c t) (h : Alike s t) : Alike s (c :: t)

section Alike

variable {c : Char} {s t p : List Char}

theorem safeChars_word (hc : c.isAlphanum = true) : safeChars (c :: s) = c :: safeChars s := by
  have hColon : c ≠ ':' := by rintro rfl; exact nomatch hc
  rw [safeChars.eq_def]
  split
  case h_1 h => exact nomatch h
  case h_2 h => exact absurd (List.cons.inj h).1 hColon
  case h_3 h =>
    obtain ⟨rfl, rfl⟩ := List.cons.inj h
    rw [if_pos (Or.inl hc)]

theorem safeChars_gap (hp : p ∈ gaps) : safeChars (p ++ s) = '_' :: safeChars s := by
  simp only [gaps, mem_cons, not_mem_nil, or_false] at hp
  rcases hp with rfl | rfl | rfl | rfl | rfl
  · rfl
  all_goals
    rw [singleton_append, safeChars.eq_def]
    rfl

theorem safeChars_dropped (hc : Dropped c s) : safeChars (c :: s) = safeChars s := by
  have hNot := hc.notGap
  simp only [gaps, mem_cons, not_mem_nil, or_false, List.cons.injEq, and_true,
    not_or] at hNot
  rw [safeChars.eq_def]
  split
  case h_1 h => cases h
  case h_2 h =>
    obtain ⟨rfl, rfl⟩ := List.cons.inj h
    exact absurd rfl (hc.alone rfl)
  case h_3 h =>
    obtain ⟨rfl, rfl⟩ := List.cons.inj h
    rw [if_neg (by rw [hc.notWord]; exact fun h => h.elim (fun h => by cases h) hNot.2.2.2.2),
      if_neg (not_or.2 ⟨hNot.2.1, not_or.2 ⟨hNot.2.2.1, hNot.2.2.2.1⟩⟩)]

/-- A name is empty or starts with a letter or digit, a gap, or a character that is dropped. -/
theorem name_cases (s : List Char) :
    s = [] ∨ (∃ c s', s = c :: s' ∧ c.isAlphanum = true) ∨
      (∃ p s', s = p ++ s' ∧ p ∈ gaps) ∨ ∃ c s', s = c :: s' ∧ Dropped c s' := by
  cases s with
  | nil => exact Or.inl rfl
  | cons c s =>
    cases hc : c.isAlphanum with
    | true => exact Or.inr (Or.inl ⟨c, s, rfl, hc⟩)
    | false =>
      by_cases hGap : [c] ∈ gaps
      · exact Or.inr (Or.inr (Or.inl ⟨[c], s, rfl, hGap⟩))
      · by_cases hColon : c = ':' ∧ s.head? = some ':'
        · obtain ⟨rfl, hHead⟩ := hColon
          obtain ⟨s', rfl⟩ : ∃ s', s = ':' :: s' := by
            cases s with
            | nil => exact nomatch hHead
            | cons d s' => exact ⟨s', by rw [Option.some.inj hHead]⟩
          exact Or.inr (Or.inr (Or.inl ⟨"::".toList, s', rfl, mem_cons_self⟩))
        · exact Or.inr (Or.inr (Or.inr ⟨c, s, rfl, hc, hGap, fun h hHead => hColon ⟨h, hHead⟩⟩))

/-- The first characters that two names leave, with what is left of them. -/
theorem alike_iff : Alike s t ↔ safeChars s = safeChars t := by
  constructor
  · intro h
    induction h with
    | nil => rfl
    | same hc _ ih => rw [safeChars_word hc, safeChars_word hc, ih]
    | gap hp hq _ ih => rw [safeChars_gap hp, safeChars_gap hq, ih]
    | left hc _ ih => rw [safeChars_dropped hc, ih]
    | right hc _ ih => rw [safeChars_dropped hc, ih]
  · intro h
    have hUnderscore : ∀ c : Char, c.isAlphanum = true → c ≠ '_' := by
      rintro c hc rfl
      exact nomatch hc
    obtain ⟨n, hn⟩ : ∃ n, n = s.length + t.length := ⟨_, rfl⟩
    induction n using Nat.strong_induction_on generalizing s t with
    | _ n ih =>
      have hGapPos : ∀ p ∈ gaps, 0 < p.length := by decide
      rcases name_cases s with rfl | ⟨c, s', rfl, hc⟩ | ⟨p, s', rfl, hp⟩ | ⟨c, s', rfl, hc⟩
      · rcases name_cases t with rfl | ⟨d, t', rfl, hd⟩ | ⟨q, t', rfl, hq⟩ | ⟨d, t', rfl, hd⟩
        · exact .nil
        · rw [safeChars_word hd] at h
          exact nomatch h
        · rw [safeChars_gap hq] at h
          exact nomatch h
        · rw [safeChars_dropped hd] at h
          exact .right hd (ih _ (by rw [hn, length_cons]; omega) h rfl)
      · rcases name_cases t with rfl | ⟨d, t', rfl, hd⟩ | ⟨q, t', rfl, hq⟩ | ⟨d, t', rfl, hd⟩
        · rw [safeChars_word hc] at h
          exact nomatch h
        · rw [safeChars_word hc, safeChars_word hd] at h
          obtain ⟨rfl, hRest⟩ := List.cons.inj h
          exact .same hc (ih _ (by rw [hn, length_cons, length_cons]; omega) hRest rfl)
        · rw [safeChars_word hc, safeChars_gap hq] at h
          exact absurd (List.cons.inj h).1 (hUnderscore c hc)
        · rw [safeChars_dropped hd] at h
          exact .right hd (ih _ (by rw [hn, length_cons, length_cons]; omega) h rfl)
      · rcases name_cases t with rfl | ⟨d, t', rfl, hd⟩ | ⟨q, t', rfl, hq⟩ | ⟨d, t', rfl, hd⟩
        · rw [safeChars_gap hp] at h
          exact nomatch h
        · rw [safeChars_gap hp, safeChars_word hd] at h
          exact absurd (List.cons.inj h).1.symm (hUnderscore d hd)
        · rw [safeChars_gap hp, safeChars_gap hq] at h
          have hPos := hGapPos p hp
          refine .gap hp hq (ih _ ?_ (List.cons.inj h).2 rfl)
          rw [hn, length_append, length_append]
          omega
        · rw [safeChars_dropped hd] at h
          exact .right hd (ih _ (by rw [hn, length_cons]; omega) h rfl)
      · rw [safeChars_dropped hc] at h
        exact .left hc (ih _ (by rw [hn, length_cons]; omega) h rfl)

end Alike

/-! ## What a package binds -/

structure PkgState where
  pkgs : List (List Char)
  functionsEmitted : Nat
  bound : List (List Char × SymEntry)

def maxPackages : Nat := 64

section Packages

local instance lawfulBEqPackage : LawfulBEq (List Char) := inferInstance

/-- One symbol in the loop over the functions, from a limit of functions on (0 for none). -/
def emitSymbol (fuel passes : Nat) (img : DolImage) (ex : List ExternSymbol) (maxFunctions : Nat)
    (st : PkgState) (e : SymEntry) : Except Fault PkgState :=
  if ¬ inText img e.vaddr ∨ e.size = 0 then .ok st
  else if maxFunctions ≠ 0 ∧ maxFunctions ≤ st.functionsEmitted then .ok st
  else
    match emitSymbolPackage 64 e.name.toList with
    | .error f => .error f
    | .ok pkg =>
      if pkg ∉ st.pkgs ∧ maxPackages ≤ st.pkgs.length then .ok st
      else
        let st := if pkg ∈ st.pkgs then st else { st with pkgs := st.pkgs ++ [pkg] }
        match emitFunction fuel passes img ex e with
        | .emitted _ =>
          .ok { st with
            functionsEmitted := st.functionsEmitted + 1
            bound := st.bound ++ [(pkg, e)] }
        | _ => .ok st

end Packages

/-- The symbols of the globals, which are bound in the main package. -/
def globalSymbols (img : DolImage) (syms : List SymEntry) : List SymEntry :=
  syms.filter fun e => !inText img e.vaddr && e.name != ""

/-- The symbols that are bound, with their packages. -/
def emitCalBindings (fuel passes : Nat) (img : DolImage) (ex : List ExternSymbol)
    (maxFunctions : Nat) (syms : List SymEntry) : Except Fault (List (List Char × SymEntry)) :=
  (syms.foldlM (emitSymbol fuel passes img ex maxFunctions)
    { pkgs := ["main".toList]
      functionsEmitted := 0
      bound := (globalSymbols img syms).map ("main".toList, ·) }).map (·.bound)

/-! ## What the bindings name -/

/-- Names are identifiers, and one name belongs to one address. -/
structure NamesFit (names : List (BitVec 32 × List Char)) : Prop where
  legal : ∀ x ∈ names, LegalIdent x.2
  unique : ∀ x ∈ names, ∀ y ∈ names, x.2 = y.2 → x.1 = y.1

/-- The names of each module and of each package fit. -/
structure EmittedNamesFit (entries : List ExternSymbol) (bound : List (List Char × SymEntry)) :
    Prop where
  modules : ∀ m, NamesFit ((entries.filter (·.module = m)).map fun s => (s.vaddr, s.name.toList))
  packages : ∀ pkg, NamesFit ((bound.filter (·.1 = pkg)).map fun b =>
    (b.2.vaddr, emitSafeIdent symNameMax b.2.name.toList))

/-! ## When the names fit -/

/-- The symbol is an extern: what it demangles to, and its module. -/
structure ExternOf (e : SymEntry) (d : CwDemangled) (module : String) : Prop where
  demangled : cwDemangle e.name.toList = .ok d
  classified : module = externModule e d
  named : module ≠ ""

/-- A text that becomes an identifier with an underscore for each character that is no letter or
digit. -/
structure WordLike (s : List Char) : Prop where
  first : ∃ c t, s = c :: t ∧ c.isDigit = false
  more : ∀ c, s = [c] → c.isAlphanum = true
  notKeyword : ∀ k ∈ keywords, s ≠ k.1.toList

/-- A name that becomes an identifier without the characters that are dropped. -/
structure PlainName (s : List Char) : Prop where
  notEmpty : ¬ Alike s []
  notUnderscore : ¬ Alike s ['_']
  notDigit : ∀ d t, d.isDigit = true → ¬ Alike s (d :: t)
  notKeyword : ∀ k ∈ keywords, ¬ Alike s k.1.toList

/-- No extern has a name that is a keyword, a single character of no use or starts with a digit, no
two of them at different addresses agree in their letters and digits, and so for the symbols that a
package binds. -/
structure SourcesFit (syms : List SymEntry) (bound : List (List Char × SymEntry)) : Prop where
  wordLike : ∀ e ∈ syms, ∀ d m, ExternOf e d m →
    WordLike (externSource d e.name.toList m.toList)
  apart : ∀ e ∈ syms, ∀ e' ∈ syms, ∀ d d' m, ExternOf e d m → ExternOf e' d' m →
    List.Forall₂ SameChar (externSource d e.name.toList m.toList)
      (externSource d' e'.name.toList m.toList) → e.vaddr = e'.vaddr
  plain : ∀ b ∈ bound, PlainName b.2.name.toList
  boundApart : ∀ b ∈ bound, ∀ b' ∈ bound, b.1 = b'.1 → Alike b.2.name.toList b'.2.name.toList →
    b.2.vaddr = b'.2.vaddr

section Legal

theorem isWordChar_sanitize (s : List Char) : ∀ c ∈ sanitize s, isWordChar c = true := by
  intro c hc
  obtain ⟨d, -, rfl⟩ := mem_map.1 hc
  rw [isWordChar_eq, sanitizeChar]
  split
  case isTrue h => exact h
  case isFalse => rfl

theorem isWordChar_safeChars (s : List Char) : ∀ c ∈ safeChars s, isWordChar c = true := by
  fun_induction safeChars s with
  | case1 => exact nofun
  | case2 s ih => exact forall_mem_cons.2 ⟨rfl, ih⟩
  | case3 c s _ hWord ih =>
    refine forall_mem_cons.2 ⟨?_, ih⟩
    rw [isWordChar_eq]
    rcases hWord with h | rfl
    · rw [h, Bool.true_or]
    · rfl
  | case4 c s _ _ _ ih => exact forall_mem_cons.2 ⟨rfl, ih⟩
  | case5 c s _ _ _ ih => exact ih

theorem keyword_alphanum : ∀ k ∈ keywords, ∀ c ∈ k.1.toList, c.isAlphanum = true := by
  have hAll : keywords.all (fun k => k.1.toList.all Char.isAlphanum) = true := rfl
  exact fun k hk => all_eq_true.1 (all_eq_true.1 hAll k hk)

theorem sanitizeChar_of_alphanum {c : Char} (h : c.isAlphanum = true) : sanitizeChar c = c := by
  rw [sanitizeChar, h, Bool.true_or, if_pos rfl]

theorem sanitizeChar_eq_alphanum {c d : Char} (hd : d.isAlphanum = true) :
    sanitizeChar c = d ↔ c = d := by
  have hSame := @sanitizeChar_eq_iff c d
  rw [sanitizeChar_of_alphanum hd] at hSame
  rw [hSame, SameChar]
  refine or_iff_left fun h => ?_
  rw [hd] at h
  exact nomatch h.2

theorem sanitize_eq_keyword {s k : List Char} (hk : ∀ c ∈ k, c.isAlphanum = true) :
    sanitize s = k ↔ s = k := by
  induction k generalizing s with
  | nil => exact map_eq_nil_iff
  | cons d k ih =>
    cases s with
    | nil => exact iff_of_false nofun nofun
    | cons c s =>
      obtain ⟨hd, hk⟩ := forall_mem_cons.1 hk
      rw [sanitize, map_cons, List.cons.injEq, List.cons.injEq, sanitizeChar_eq_alphanum hd,
        ← sanitize, ih hk]

theorem isDigit_sanitizeChar (c : Char) : (sanitizeChar c).isDigit = c.isDigit := by
  cases hc : c.isAlphanum with
  | true => rw [sanitizeChar_of_alphanum hc]
  | false =>
    have hDigit : c.isDigit = false := by
      rw [Char.isAlphanum, Bool.or_eq_false_iff] at hc
      exact hc.2
    rw [hDigit]
    unfold sanitizeChar
    rw [hc, Bool.false_or]
    split
    case isTrue h => rw [beq_iff_eq.1 h]; rfl
    case isFalse => rfl

theorem sanitize_eq_underscore {s : List Char} :
    sanitize s = ['_'] ↔ ∃ c, s = [c] ∧ c.isAlphanum = false := by
  have hSelf : sanitize ['_'] = ['_'] := rfl
  rw [← hSelf, sanitize_eq_iff]
  constructor
  · intro h
    cases h with
    | @cons c _ s _ hc hRest =>
      cases hRest
      refine ⟨c, rfl, ?_⟩
      rcases hc with rfl | h
      · rfl
      · exact h.1
  · rintro ⟨c, rfl, hc⟩
    exact .cons (Or.inr ⟨hc, rfl⟩) .nil

theorem legalIdent_sanitize_iff {s : List Char} : LegalIdent (sanitize s) ↔ WordLike s := by
  rw [legalIdent_iff (isWordChar_sanitize s)]
  have hKeyword : (∀ k ∈ keywords, sanitize s ≠ k.1.toList) ↔ ∀ k ∈ keywords, s ≠ k.1.toList :=
    forall₂_congr fun k hk => not_congr (sanitize_eq_keyword (keyword_alphanum k hk))
  have hFirst : (∃ c t, sanitize s = c :: t ∧ isDigit c = false) ↔
      ∃ c t, s = c :: t ∧ c.isDigit = false := by
    cases s with
    | nil => exact iff_of_false (fun ⟨_, _, h, _⟩ => nomatch h) fun ⟨_, _, h, _⟩ => nomatch h
    | cons c s =>
      constructor
      · rintro ⟨d, t, hEq, hd⟩
        obtain ⟨rfl, -⟩ := List.cons.inj hEq
        exact ⟨c, s, rfl, (isDigit_sanitizeChar c).symm.trans hd⟩
      · rintro ⟨d, t, hEq, hd⟩
        obtain ⟨rfl, rfl⟩ := List.cons.inj hEq
        exact ⟨_, _, rfl, (isDigit_sanitizeChar c).trans hd⟩
  rw [hKeyword, hFirst, Ne, sanitize_eq_underscore]
  constructor
  · rintro ⟨hFirst, hMore, hKeyword⟩
    refine ⟨hFirst, fun c hc => ?_, hKeyword⟩
    by_contra hNot
    exact hMore ⟨c, hc, Bool.eq_false_iff.2 hNot⟩
  · rintro ⟨hFirst, hMore, hKeyword⟩
    refine ⟨hFirst, fun ⟨c, hc, hNot⟩ => ?_, hKeyword⟩
    rw [hMore c hc] at hNot
    exact nomatch hNot

theorem length_safeChars_le (s : List Char) : (safeChars s).length ≤ s.length := by
  fun_induction safeChars s with
  | case1 => exact Nat.le_refl _
  | case2 s ih => simp only [length_cons]; omega
  | case3 c s _ _ ih => simp only [length_cons]; omega
  | case4 c s _ _ _ ih => simp only [length_cons]; omega
  | case5 c s _ _ _ ih => simp only [length_cons]; omega

theorem emitSafeIdent_eq {s : List Char} (hLength : s.length < symNameMax) :
    emitSafeIdent symNameMax s = if safeChars s = [] then ['_'] else safeChars s := by
  have hFits : (safeChars s).take (symNameMax - 1) = safeChars s :=
    take_of_length_le (Nat.le_trans (length_safeChars_le s) (by omega))
  rw [emitSafeIdent, hFits]
  cases safeChars s with
  | nil => rfl
  | cons c t => rw [if_neg (cons_ne_nil c t)]

theorem safeChars_of_word {s : List Char} (h : ∀ c ∈ s, isWordChar c = true) :
    safeChars s = s := by
  induction s with
  | nil => rfl
  | cons c s ih =>
    obtain ⟨hc, hs⟩ := forall_mem_cons.1 h
    rw [isWordChar_eq, Bool.or_eq_true, beq_iff_eq] at hc
    rcases hc with hc | rfl
    · rw [safeChars_word hc, ih hs]
    · have hGap := @safeChars_gap s ['_'] (by decide)
      rw [singleton_append] at hGap
      rw [hGap, ih hs]

theorem legalIdent_emitSafeIdent_iff {s : List Char} (hLength : s.length < symNameMax) :
    LegalIdent (emitSafeIdent symNameMax s) ↔ PlainName s := by
  rw [emitSafeIdent_eq hLength]
  by_cases hEmpty : safeChars s = []
  · rw [if_pos hEmpty, legalIdent_iff fun c hc => by rw [mem_singleton.1 hc]; rfl]
    exact iff_of_false (fun h => h.2.1 rfl) fun h => h.notEmpty (alike_iff.2 hEmpty)
  · rw [if_neg hEmpty, legalIdent_iff (isWordChar_safeChars s)]
    have hKeyword : (∀ k ∈ keywords, safeChars s ≠ k.1.toList) ↔
        ∀ k ∈ keywords, ¬ Alike s k.1.toList :=
      forall₂_congr fun k hk => by
        have hWord : ∀ c ∈ k.1.toList, isWordChar c = true := fun c hc => by
          rw [isWordChar_eq, keyword_alphanum k hk c hc, Bool.true_or]
        rw [alike_iff, safeChars_of_word hWord]
    have hUnderscore : safeChars s ≠ ['_'] ↔ ¬ Alike s ['_'] := by
      rw [alike_iff]
      exact Iff.rfl
    rw [hKeyword, hUnderscore]
    constructor
    · rintro ⟨⟨c, t, hEq, hc⟩, hNot, hKeyword⟩
      refine ⟨fun h => hEmpty (alike_iff.1 h), hNot, fun d u hd h => ?_, hKeyword⟩
      have hWord : d.isAlphanum = true := by rw [Char.isAlphanum, hd, Bool.or_true]
      rw [alike_iff, safeChars_word hWord, hEq] at h
      rw [(List.cons.inj h).1] at hc
      exact nomatch hc.symm.trans hd
    · rintro ⟨-, hNot, hDigit, hKeyword⟩
      refine ⟨?_, hNot, hKeyword⟩
      cases hEq : safeChars s with
      | nil => exact absurd hEq hEmpty
      | cons c t =>
        refine ⟨c, t, rfl, Bool.eq_false_iff.2 fun hc => ?_⟩
        have hSelf := safeChars_of_word (isWordChar_safeChars s)
        rw [hEq] at hSelf
        exact hDigit c t hc (alike_iff.2 (hEq.trans hSelf.symm))

end Legal

/-! ## The externs of the two scans -/

section Entries

variable {σ : Type} {visit : σ → BitVec 32 → BitVec 32 → σ} {P : σ → Prop}

theorem scanWords_invariant (hStep : ∀ st va w, P st → P (visit st va w)) {bytes : List (BitVec 8)}
    {s : DolSection} {fuel : Nat} {off : BitVec 32} {st st' : σ}
    (h : scanWords visit bytes s fuel off st = .ok st') (hStart : P st) : P st' := by
  induction fuel generalizing off st with
  | zero => exact nomatch h
  | succ fuel ih =>
    rw [scanWords] at h
    split at h
    · obtain ⟨w, -, h⟩ := except_bind_eq_ok.1 h
      exact ih h (hStep st _ w hStart)
    · cases h
      exact hStart

theorem scanText_invariant (hStep : ∀ st va w, P st → P (visit st va w)) {fuel : Nat}
    {img : DolImage} {st st' : σ} (h : scanText visit fuel img st = .ok st') (hStart : P st) :
    P st' := by
  refine foldlM_invariant (P := fun _ => P) (fun s _ _ st st' hP hRun => ?_) h (n := 0) hStart
  split at hRun
  · exact scanWords_invariant hStep hRun hP
  · cases hRun
    exact hP

/-- An entry that the scan over calls adds. -/
structure UnmappedEntry (s : ExternSymbol) : Prop where
  module : s.module = "unmapped"
  name : s.name = "sub_" ++ hex8 s.vaddr

theorem externsScan_entries {fuel : Nat} {img : DolImage} {first entries : List ExternSymbol}
    (h : externsScan fuel img first = .ok entries) :
    ∃ more, entries = first ++ more ∧ ∀ s ∈ more, UnmappedEntry s := by
  refine scanText_invariant
    (P := fun entries => ∃ more, entries = first ++ more ∧ ∀ s ∈ more, UnmappedEntry s)
    (fun st va w hSt => ?_) h ⟨[], (append_nil _).symm, nofun⟩
  obtain ⟨more, rfl, hMore⟩ := hSt
  unfold visitExtern
  dsimp only
  split
  · exact ⟨more, rfl, hMore⟩
  · split
    · exact ⟨more, rfl, hMore⟩
    · refine ⟨_, append_assoc _ _ _, fun s hs => ?_⟩
      rcases mem_append.1 hs with hs | hs
      · exact hMore s hs
      · rw [mem_singleton.1 hs]
        exact ⟨rfl, rfl⟩

/-- The entry of an extern. -/
structure EntryOf (s : ExternSymbol) (e : SymEntry) (d : CwDemangled) : Prop where
  symbol : ExternOf e d s.module
  vaddr : s.vaddr = e.vaddr
  name : s.name.toList = sanitize (externSource d e.name.toList s.module.toList)

theorem externEntry_module (e : SymEntry) (d : CwDemangled) (m : String) :
    (externEntry e d m).module = m := rfl

theorem entryOf_externEntry {e : SymEntry} {d : CwDemangled}
    (hDemangled : cwDemangle e.name.toList = .ok d) (hNamed : externModule e d ≠ "") :
    EntryOf (externEntry e d (externModule e d)) e d := by
  refine ⟨?_, rfl, ?_⟩
  · rw [externEntry_module]
    exact ⟨hDemangled, rfl, hNamed⟩
  · rw [externEntry, String.toList_ofList, buildCalyndaName]

theorem externOfSymbol_eq_some {e : SymEntry} {s : ExternSymbol}
    (h : externOfSymbol e = .ok (some s)) : ∃ d, EntryOf s e d := by
  unfold externOfSymbol at h
  split at h
  · exact nomatch h
  · rename_i d hDemangled
    dsimp only at h
    split at h
    · exact nomatch h
    · rename_i hNamed
      obtain rfl := Option.some.inj (Except.ok.inj h)
      exact ⟨d, entryOf_externEntry hDemangled hNamed⟩

theorem externOfSymbol_of_externOf {e : SymEntry} {d : CwDemangled} {m : String}
    (h : ExternOf e d m) :
    ∃ s, externOfSymbol e = .ok (some s) ∧ EntryOf s e d ∧ s.module = m := by
  have hNamed := h.named
  rw [h.classified] at hNamed ⊢
  refine ⟨externEntry e d (externModule e d), ?_, entryOf_externEntry h.demangled hNamed,
    externEntry_module e d _⟩
  unfold externOfSymbol
  rw [h.demangled]
  dsimp only
  rw [if_neg hNamed]

theorem mem_of_mapM_ok {ε α β : Type} {f : α → Except ε β} {xs : List α} {ys : List β}
    (h : xs.mapM f = .ok ys) {y : β} : y ∈ ys ↔ ∃ x ∈ xs, f x = .ok y := by
  have hForall := forall₂_of_mapM_eq_ok h
  constructor
  · intro hy
    obtain ⟨x, hx, -, hOne⟩ := hForall.exists_of_mem_right hy
    exact ⟨x, hx, hOne⟩
  · rintro ⟨x, hx, hOne⟩
    obtain ⟨y', hy', -, hOther⟩ := hForall.exists_of_mem_left hx
    rwa [Except.ok.inj (hOne.symm.trans hOther)]

theorem mem_externsOfSymbols {syms : List SymEntry} {first : List ExternSymbol}
    (h : externsOfSymbols syms = .ok first) {s : ExternSymbol} :
    s ∈ first ↔ ∃ e ∈ syms, externOfSymbol e = .ok (some s) := by
  unfold externsOfSymbols at h
  cases hRun : syms.mapM externOfSymbol with
  | error f =>
    rw [hRun] at h
    exact nomatch h
  | ok found =>
    rw [hRun] at h
    obtain rfl := Except.ok.inj h
    rw [reduceOption_mem_iff, mem_of_mapM_ok hRun]

end Entries

/-! ## Unmapped names -/

section Unmapped

theorem hex8_inj {a b : BitVec 32} (h : hex8 a = hex8 b) : a = b := by
  have hDigits := congrArg (numberOf 16) (String.ofList_inj.1 h)
  rw [numberOf_leftpad, numberOf_leftpad, numberOf_toDigits (by decide) (by decide),
    numberOf_toDigits (by decide) (by decide)] at hDigits
  exact BitVec.eq_of_toNat_eq hDigits

theorem classified_ne_unmapped (raw : List Char) : externsClassify raw ≠ "unmapped" := by
  have hRules : ∀ rule ∈ kRules, rule.2 ≠ "unmapped" := by decide
  have hFold : ∀ (rules : List (String × String)), (∀ rule ∈ rules, rule.2 ≠ "unmapped") →
      ∀ best : Nat × String, best.2 ≠ "unmapped" →
      (rules.foldl (fun (best : Nat × String) rule =>
        if rule.1.length ≤ best.1 then best
        else if rule.1.toList.isPrefixOf raw then (rule.1.length, rule.2)
        else best) best).2 ≠ "unmapped" := by
    intro rules
    induction rules with
    | nil => exact fun _ best h => h
    | cons rule rules ih =>
      intro hAll best hBest
      obtain ⟨hRule, hRest⟩ := forall_mem_cons.1 hAll
      refine ih hRest _ ?_
      dsimp only
      split
      · exact hBest
      · split
        · exact hRule
        · exact hBest
  exact hFold kRules hRules (0, "") (by decide)

theorem UnmappedEntry.legal {s : ExternSymbol} (h : UnmappedEntry s) : LegalIdent s.name.toList := by
  have hName : s.name.toList = 's' :: 'u' :: 'b' :: '_' :: (hex8 s.vaddr).toList := by
    rw [h.name, String.toList_append]
    rfl
  have hHex : ∀ c ∈ (hex8 s.vaddr).toList, isWordChar c = true := by
    rw [hex8, String.toList_ofList]
    intro c hc
    rcases mem_append.1 hc with hc | hc
    · rw [(mem_replicate.1 hc).2]
      rfl
    · obtain ⟨k, hk, rfl⟩ := exists_digitChar_of_mem_toDigits hc
      have hDigits : ∀ k < 16, isWordChar k.digitChar = true := by decide
      exact hDigits k hk
  rw [hName, legalIdent_iff]
  · refine ⟨⟨'s', _, rfl, rfl⟩, nofun, fun k hk hEq => ?_⟩
    have hSub : ∀ k ∈ keywords, ¬ "sub_".toList <+: k.1.toList := by decide
    exact hSub k hk (hEq ▸ ⟨_, rfl⟩)
  · exact forall_mem_cons.2 ⟨rfl, forall_mem_cons.2 ⟨rfl, forall_mem_cons.2 ⟨rfl,
      forall_mem_cons.2 ⟨rfl, hHex⟩⟩⟩⟩

end Unmapped

/-! ## The names of a table -/

section Table

variable {fuel fuel' passes maxFunctions : Nat} {img : DolImage} {ex entries : List ExternSymbol}
  {syms : List SymEntry} {bound : List (List Char × SymEntry)}

theorem emitCalBindings_mem (h : emitCalBindings fuel passes img ex maxFunctions syms = .ok bound) :
    ∀ b ∈ bound, b.2 ∈ syms := by
  unfold emitCalBindings at h
  cases hRun : syms.foldlM (emitSymbol fuel passes img ex maxFunctions)
    { pkgs := ["main".toList], functionsEmitted := 0,
      bound := (globalSymbols img syms).map ("main".toList, ·) } with
  | error f =>
    rw [hRun] at h
    exact nomatch h
  | ok st =>
    rw [hRun] at h
    obtain rfl := Except.ok.inj h
    refine foldlM_invariant (P := fun _ st => ∀ b ∈ st.bound, b.2 ∈ syms)
      (fun e he _ st st' hSt hStep => ?_) hRun (n := 0) ?_
    · unfold emitSymbol at hStep
      split at hStep
      · cases hStep
        exact hSt
      · split at hStep
        · cases hStep
          exact hSt
        · split at hStep
          · exact nomatch hStep
          · split at hStep
            · cases hStep
              exact hSt
            · dsimp only at hStep
              have hBound : ∀ pkg, (if pkg ∈ st.pkgs then st
                  else { st with pkgs := st.pkgs ++ [pkg] }).bound = st.bound := by
                intro pkg
                split <;> rfl
              split at hStep
              · cases hStep
                dsimp only
                rw [hBound]
                exact forall_mem_append.2 ⟨hSt, fun b hb => mem_singleton.1 hb ▸ he⟩
              · cases hStep
                rw [hBound]
                exact hSt
    · intro b hb
      obtain ⟨e, he, rfl⟩ := mem_map.1 hb
      exact (mem_filter.1 he).1

/-- The entries are those of the externs of the table, and those of calls out of the text. -/
theorem externsBuild_entries (h : externsBuild fuel img syms = .ok entries) {s : ExternSymbol}
    (hs : s ∈ entries) : (∃ e ∈ syms, ∃ d, EntryOf s e d) ∨ UnmappedEntry s := by
  unfold externsBuild at h
  split at h
  · exact nomatch h
  · rename_i first hFirst
    split at h
    · exact nomatch h
    · rename_i all hScan
      obtain rfl := Except.ok.inj h
      obtain ⟨more, rfl, hMore⟩ := externsScan_entries hScan
      rcases mem_append.1 hs with hs | hs
      · obtain ⟨e, he, hOne⟩ := (mem_externsOfSymbols hFirst).1 hs
        exact Or.inl ⟨e, he, externOfSymbol_eq_some hOne⟩
      · exact Or.inr (hMore s hs)

theorem externsBuild_of_externOf (h : externsBuild fuel img syms = .ok entries) {e : SymEntry}
    (he : e ∈ syms) {d : CwDemangled} {m : String} (hExtern : ExternOf e d m) :
    ∃ s ∈ entries, EntryOf s e d ∧ s.module = m := by
  obtain ⟨s, hOne, hEntry, hModule⟩ := externOfSymbol_of_externOf hExtern
  unfold externsBuild at h
  split at h
  · exact nomatch h
  · rename_i first hFirst
    split at h
    · exact nomatch h
    · rename_i all hScan
      obtain rfl := Except.ok.inj h
      obtain ⟨more, rfl, -⟩ := externsScan_entries hScan
      exact ⟨s, mem_append_left _ ((mem_externsOfSymbols hFirst).2 ⟨e, he, hOne⟩), hEntry, hModule⟩

/-- The names of a table fit exactly if its symbols do. -/
theorem emittedNamesFit_iff (hNames : ∀ e ∈ syms, e.name.length < symNameMax)
    (hExterns : externsBuild fuel img syms = .ok entries)
    (hBound : emitCalBindings fuel' passes img ex maxFunctions syms = .ok bound) :
    EmittedNamesFit entries bound ↔ SourcesFit syms bound := by
  have hFits : ∀ b ∈ bound, b.2.name.toList.length < symNameMax := by
    intro b hb
    rw [String.length_toList]
    exact hNames b.2 (emitCalBindings_mem hBound b hb)
  have hInModule : ∀ s ∈ entries, (s.vaddr, s.name.toList) ∈
      (entries.filter (·.module = s.module)).map fun s => (s.vaddr, s.name.toList) :=
    fun s hs => mem_map.2 ⟨s, mem_filter.2 ⟨hs, by simp⟩, rfl⟩
  have hInPackage : ∀ b ∈ bound, (b.2.vaddr, emitSafeIdent symNameMax b.2.name.toList) ∈
      (bound.filter (·.1 = b.1)).map fun b =>
        (b.2.vaddr, emitSafeIdent symNameMax b.2.name.toList) :=
    fun b hb => mem_map.2 ⟨b, mem_filter.2 ⟨hb, by simp⟩, rfl⟩
  constructor
  · intro h
    refine ⟨?_, ?_, ?_, ?_⟩
    · intro e he d m hExtern
      obtain ⟨s, hs, hEntry, rfl⟩ := externsBuild_of_externOf hExterns he hExtern
      have hLegal := (h.modules s.module).legal _ (hInModule s hs)
      rw [hEntry.name] at hLegal
      exact legalIdent_sanitize_iff.1 hLegal
    · intro e he e' he' d d' m hExtern hExtern' hSame
      obtain ⟨s, hs, hEntry, rfl⟩ := externsBuild_of_externOf hExterns he hExtern
      obtain ⟨s', hs', hEntry', hModule⟩ := externsBuild_of_externOf hExterns he' hExtern'
      have hIn := hInModule s' hs'
      rw [hModule] at hIn
      have hName : s.name.toList = s'.name.toList := by
        rw [hEntry.name, hEntry'.name, hModule]
        exact sanitize_eq_iff.2 hSame
      have hAddr := (h.modules s.module).unique _ (hInModule s hs) _ hIn hName
      exact hEntry.vaddr.symm.trans (hAddr.trans hEntry'.vaddr)
    · intro b hb
      exact (legalIdent_emitSafeIdent_iff (hFits b hb)).1
        ((h.packages b.1).legal _ (hInPackage b hb))
    · intro b hb b' hb' hPkg hAlike
      have hIn := hInPackage b' hb'
      rw [← hPkg] at hIn
      refine (h.packages b.1).unique _ (hInPackage b hb) _ hIn ?_
      rw [emitSafeIdent_eq (hFits b hb), emitSafeIdent_eq (hFits b' hb'), alike_iff.1 hAlike]
  · intro h
    have hLegal : ∀ s ∈ entries, LegalIdent s.name.toList := by
      intro s hs
      rcases externsBuild_entries hExterns hs with ⟨e, he, d, hEntry⟩ | hUnmapped
      · rw [hEntry.name]
        exact legalIdent_sanitize_iff.2 (h.wordLike e he d s.module hEntry.symbol)
      · exact hUnmapped.legal
    have hUnique : ∀ s ∈ entries, ∀ s' ∈ entries, s.module = s'.module →
        s.name.toList = s'.name.toList → s.vaddr = s'.vaddr := by
      intro s hs s' hs' hModule hName
      rcases externsBuild_entries hExterns hs with ⟨e, he, d, hEntry⟩ | hUnmapped
      · rcases externsBuild_entries hExterns hs' with ⟨e', he', d', hEntry'⟩ | hUnmapped'
        · rw [hEntry.name, hEntry'.name, sanitize_eq_iff, ← hModule] at hName
          have hAddr := h.apart e he e' he' d d' s.module hEntry.symbol
            (hModule ▸ hEntry'.symbol) hName
          exact hEntry.vaddr.trans (hAddr.trans hEntry'.vaddr.symm)
        · rw [hUnmapped'.module] at hModule
          exact absurd (hEntry.symbol.classified.symm.trans hModule) (classified_ne_unmapped _)
      · rcases externsBuild_entries hExterns hs' with ⟨e', he', d', hEntry'⟩ | hUnmapped'
        · rw [hUnmapped.module] at hModule
          exact absurd (hEntry'.symbol.classified.symm.trans hModule.symm)
            (classified_ne_unmapped _)
        · rw [hUnmapped.name, hUnmapped'.name, String.toList_append, String.toList_append] at hName
          exact hex8_inj (String.toList_inj.1 (append_cancel_left hName))
    refine ⟨fun m => ⟨?_, ?_⟩, fun pkg => ⟨?_, ?_⟩⟩
    · intro x hx
      obtain ⟨s, hs, rfl⟩ := mem_map.1 hx
      exact hLegal s (mem_filter.1 hs).1
    · intro x hx y hy hEq
      obtain ⟨s, hs, rfl⟩ := mem_map.1 hx
      obtain ⟨s', hs', rfl⟩ := mem_map.1 hy
      obtain ⟨hs, hm⟩ := mem_filter.1 hs
      obtain ⟨hs', hm'⟩ := mem_filter.1 hs'
      exact hUnique s hs s' hs' ((of_decide_eq_true hm).trans (of_decide_eq_true hm').symm) hEq
    · intro x hx
      obtain ⟨b, hb, rfl⟩ := mem_map.1 hx
      obtain ⟨hb, -⟩ := mem_filter.1 hb
      exact (legalIdent_emitSafeIdent_iff (hFits b hb)).2 (h.plain b hb)
    · intro x hx y hy hEq
      obtain ⟨b, hb, rfl⟩ := mem_map.1 hx
      obtain ⟨b', hb', rfl⟩ := mem_map.1 hy
      obtain ⟨hb, hp⟩ := mem_filter.1 hb
      obtain ⟨hb', hp'⟩ := mem_filter.1 hb'
      refine h.boundApart b hb b' hb'
        ((of_decide_eq_true hp).trans (of_decide_eq_true hp').symm) (alike_iff.2 ?_)
      have hSome : ∀ b ∈ bound, safeChars b.2.name.toList ≠ [] := fun b hb hEmpty =>
        (h.plain b hb).notEmpty (alike_iff.2 hEmpty)
      dsimp only at hEq
      rwa [emitSafeIdent_eq (hFits b hb), emitSafeIdent_eq (hFits b' hb'), if_neg (hSome b hb),
        if_neg (hSome b' hb')] at hEq

end Table

/-! ## Two overloads -/

/-- `blr; blr`. -/
def overloadsImage : DolImage := dolImage [0x4E800020, 0x4E800020] [0]

/-- `EGG::Foo::adjust(int)` and `EGG::Foo::adjust(float)`. -/
def overloads : List SymEntry :=
  [{ vaddr := 0x80004000, size := 4, name := "adjust__Q23EGG3FooFi" },
    { vaddr := 0x80004004, size := 4, name := "adjust__Q23EGG3FooFf" }]

theorem overloads_entries : ∃ entries, externsBuild 3 overloadsImage overloads = .ok entries ∧
    entries.map (fun s => (s.vaddr, s.module, s.name)) =
      [(0x80004000, "egg", "Foo_adjust"), (0x80004004, "egg", "Foo_adjust")] := by
  have hRun : (externsBuild 3 overloadsImage overloads).toOption.map
      (·.map fun s => (s.vaddr, s.module, s.name)) =
        some [(0x80004000, "egg", "Foo_adjust"), (0x80004004, "egg", "Foo_adjust")] := by
    decide +kernel
  cases hEntries : externsBuild 3 overloadsImage overloads with
  | error f =>
    rw [hEntries] at hRun
    exact nomatch hRun
  | ok entries =>
    rw [hEntries] at hRun
    exact ⟨entries, rfl, Option.some.inj hRun⟩

theorem overloads_bound :
    ∃ bound, emitCalBindings cfgFuel 50 overloadsImage [] 0 overloads = .ok bound ∧
      bound = overloads.map ("main".toList, ·) := by
  have hRun : (emitCalBindings cfgFuel 50 overloadsImage [] 0 overloads).toOption =
      some (overloads.map ("main".toList, ·)) := by
    decide +kernel
  cases hBound : emitCalBindings cfgFuel 50 overloadsImage [] 0 overloads with
  | error f =>
    rw [hBound] at hRun
    exact nomatch hRun
  | ok bound =>
    rw [hBound] at hRun
    exact ⟨bound, rfl, Option.some.inj hRun⟩

theorem emittedNamesFit_overloads :
    ∃ entries bound, externsBuild 3 overloadsImage overloads = .ok entries ∧
      emitCalBindings cfgFuel 50 overloadsImage [] 0 overloads = .ok bound ∧
      (EmittedNamesFit entries bound ↔ SourcesFit overloads bound) := by
  obtain ⟨entries, hEntries, -⟩ := overloads_entries
  obtain ⟨bound, hBound, -⟩ := overloads_bound
  exact ⟨entries, bound, hEntries, hBound, emittedNamesFit_iff (by decide) hEntries hBound⟩

set_option maxRecDepth 20000 in
/-- Both are `Foo_adjust` in the module `egg`. -/
theorem not_emittedNamesFit_overloads :
    dolParse overloadsImage.bytes = .ok overloadsImage ∧
      ¬ ∀ fuel passes img ex maxFunctions syms entries bound,
        (∀ e ∈ syms, e.name.length < symNameMax) →
        externsBuild fuel img syms = .ok entries →
        emitCalBindings cfgFuel passes img ex maxFunctions syms = .ok bound →
        EmittedNamesFit entries bound := by
  refine ⟨rfl, fun h => ?_⟩
  obtain ⟨entries, hEntries, hNames⟩ := overloads_entries
  obtain ⟨bound, hBound, -⟩ := overloads_bound
  have hFit := h 3 50 overloadsImage [] 0 overloads entries bound (by decide) hEntries hBound
  have hIn : ∀ va, (va, "egg", "Foo_adjust") ∈ entries.map (fun s => (s.vaddr, s.module, s.name)) →
      (va, "Foo_adjust".toList) ∈
        (entries.filter (·.module = "egg")).map fun s => (s.vaddr, s.name.toList) := by
    intro va hva
    obtain ⟨s, hs, hEq⟩ := mem_map.1 hva
    obtain ⟨rfl, hRest⟩ := Prod.mk.inj hEq
    obtain ⟨hModule, hName⟩ := Prod.mk.inj hRest
    exact mem_map.2 ⟨s, mem_filter.2 ⟨hs, decide_eq_true hModule⟩, by rw [hName]⟩
  rw [hNames] at hIn
  have hSame := (hFit.modules "egg").unique _ (hIn 0x80004000 (by decide)) _
    (hIn 0x80004004 (by decide)) rfl
  exact absurd hSame (by decide)

end Calynda.Decompiler
