import Calynda.Decompiler.Image
import Calynda.Decompiler.Ppc
import Calynda.Decompiler.Symbols
import Calynda.Lib.Intervals

/-!
# Coverage statistics

The report on how much of the text of an image the sized symbols cover, and on the largest gaps
between them. The report counts the bytes of a symbol once for each symbol that has them.
-/

namespace Calynda.Decompiler

open List Lib

def symInText (img : DolImage) (vaddr size : BitVec 32) : Bool :=
  img.sections.any fun s =>
    s.kind = .text && s.virtualAddr ≤ vaddr && vaddr + size ≤ s.virtualAddr + s.size

def textSections (img : DolImage) : List DolSection := img.sections.filter (·.kind = .text)

def totalText (img : DolImage) : Nat := ((textSections img).map (·.size.toNat)).sum

def countUnknowns (img : DolImage) : Nat :=
  ((textSections img).map fun s =>
    match dolVaddrToPtr img s.virtualAddr with
    | none => 0
    | some (p, rem) =>
      (List.range (rem / 4)).countP fun k =>
        (ppcDecode (readU32Be img.bytes (p + 4 * k))
          (s.virtualAddr + BitVec.ofNat 32 (4 * k))).op = .unknown).sum

/-- The numbers that the report prints; its two percentages are quotients of these. A list of gaps
is printed only for two sized symbols or more. -/
structure Stats where
  textBytes : Nat
  textInstructions : Nat
  unknowns : Nat
  sizedSyms : Nat
  covered : Nat
  gaps : List (BitVec 32 × BitVec 32)

/-- The symbols that the report counts. -/
def sizedTextSyms (img : DolImage) (syms : List SymEntry) : List SymEntry :=
  syms.filter fun e => e.size ≠ 0 ∧ symInText img e.vaddr e.size

def gapSize (g : BitVec 32 × BitVec 32) : Nat := g.2.toNat

/-- A turn of the loop over the symbols: the end of the symbol before and the table of gaps. -/
def gapStep (st : Option (BitVec 32) × List (BitVec 32 × BitVec 32)) (e : SymEntry) :
    Option (BitVec 32) × List (BitVec 32 × BitVec 32) :=
  let top :=
    match st.1 with
    | some prevEnd =>
      if prevEnd < e.vaddr then insertTop gapSize (prevEnd, e.vaddr - prevEnd) st.2 else st.2
    | none => st.2
  (some (e.vaddr + e.size), top)

/-- A table that is missing is the empty one. The sum is of 64 bits, which the sizes of a table
that fits into memory do not exceed. -/
def emitStats (img : DolImage) (syms : List SymEntry) : Stats :=
  let sized := sizedTextSyms img syms
  let top := (sized.foldl gapStep (none, List.replicate 5 (0, 0))).2
  { textBytes := totalText img
    textInstructions := totalText img / 4
    unknowns := countUnknowns img
    sizedSyms := sized.length
    covered := (sized.map (·.size.toNat)).sum
    gaps := if 1 < sized.length then top.takeWhile (gapSize · ≠ 0) else [] }

/-! ## What the report should say -/

def DolSection.span (s : DolSection) : Span := ⟨s.virtualAddr.toNat, s.size.toNat⟩

def SymEntry.span (e : SymEntry) : Span := ⟨e.vaddr.toNat, e.size.toNat⟩

/-- The addresses of the text sections. -/
def textAddresses (img : DolImage) : Finset Nat :=
  (textSections img).foldr (fun s T => s.span.bytes ∪ T) ∅

def sizedSpans (img : DolImage) (syms : List SymEntry) : List Span :=
  (sizedTextSyms img syms).map SymEntry.span

/-- The text bytes in at least one sized symbol. -/
def coveredText (img : DolImage) (syms : List SymEntry) : Finset Nat :=
  coveredIn (textAddresses img) (sizedSpans img syms)

def gapSpan (g : BitVec 32 × BitVec 32) : Span := ⟨g.1.toNat, g.2.toNat⟩

/-- The listed gaps are the largest ones, in descending order: five, or all that there are. -/
structure LargestGaps (covered : Nat → Prop) (listed : List Span) : Prop where
  sorted : listed.Pairwise fun a b => b.size ≤ a.size
  nodup : listed.Nodup
  gap : ∀ g ∈ listed, Gap covered g
  length_le : listed.length ≤ 5
  rest : ∀ g, Gap covered g → g ∉ listed →
    listed.length = 5 ∧ ∀ g' ∈ listed, g.size ≤ g'.size

structure CountsOnce (img : DolImage) (syms : List SymEntry) : Prop where
  covered : (emitStats img syms).covered = (coveredText img syms).card
  covered_le : (emitStats img syms).covered ≤ (emitStats img syms).textBytes
  gaps : LargestGaps (Covered (sizedSpans img syms))
    ((emitStats img syms).gaps.map gapSpan)

/-- No sized symbol runs past the last address, and no two of them overlap. -/
structure SymbolsApart (img : DolImage) (syms : List SymEntry) : Prop where
  stop_lt : ∀ e ∈ sizedTextSyms img syms, e.vaddr.toNat + e.size.toNat < 2 ^ 32
  apart : (sizedTextSyms img syms).Pairwise fun e f => e.span.Apart f.span

/-! ## The covered figure -/

section

variable {img : DolImage} {syms : List SymEntry} {bytes : List (BitVec 8)}

theorem mem_textAddresses {a : Nat} :
    a ∈ textAddresses img ↔ ∃ s ∈ textSections img, s.span.Covers a := by
  unfold textAddresses
  induction textSections img with
  | nil => simp
  | cons s l ih =>
    rw [foldr_cons, Finset.mem_union, ih, Span.mem_bytes]
    simp only [mem_cons, exists_eq_or_imp]

theorem card_textAddresses_le (img : DolImage) : (textAddresses img).card ≤ totalText img := by
  unfold textAddresses totalText
  induction textSections img with
  | nil => simp
  | cons s l ih =>
    have hUnion := Finset.card_union_le s.span.bytes (l.foldr (fun s T => s.span.bytes ∪ T) ∅)
    rw [Span.card_bytes] at hUnion
    simp only [foldr_cons, map_cons, sum_cons]
    have hSize : s.span.size = s.size.toNat := rfl
    omega

theorem covered_emitStats (img : DolImage) (syms : List SymEntry) :
    (emitStats img syms).covered = ((sizedSpans img syms).map Span.size).sum := by
  simp only [emitStats, sizedSpans, map_map]
  rfl

/-- A sized symbol lies in the text exactly when it ends below the last address. -/
theorem bytes_subset_iff (hWell : img.WellFormed bytes) {e : SymEntry}
    (he : e ∈ sizedTextSyms img syms) :
    e.span.bytes ⊆ textAddresses img ↔ e.vaddr.toNat + e.size.toNat < 2 ^ 32 := by
  obtain ⟨-, hSize, hIn⟩ := (by simpa [sizedTextSyms] using he :
    e ∈ syms ∧ e.size ≠ 0 ∧ symInText img e.vaddr e.size = true)
  have hPos : 0 < e.size.toNat :=
    Nat.pos_of_ne_zero fun hZero => hSize (BitVec.eq_of_toNat_eq hZero)
  have hAddr := e.vaddr.isLt
  constructor
  · intro hSub
    by_contra hNot
    have hLast : 2 ^ 32 - 1 ∈ e.span.bytes := by
      rw [Span.mem_bytes]
      exact ⟨show e.vaddr.toNat ≤ _ by omega,
        show _ < e.vaddr.toNat + e.size.toNat by omega⟩
    obtain ⟨s, hs, -, hCovers⟩ := mem_textAddresses.1 (hSub hLast)
    have hFits := (hWell.fits s (mem_of_mem_filter hs)).addr_lt
    change _ < s.virtualAddr.toNat + s.size.toNat at hCovers
    omega
  · intro hLt a ha
    obtain ⟨s, hs, hKind, hLow, hHigh⟩ := (by simpa [symInText, and_assoc] using hIn :
      ∃ s ∈ img.sections, s.kind = .text ∧ s.virtualAddr ≤ e.vaddr ∧
        e.vaddr + e.size ≤ s.virtualAddr + s.size)
    have hFits := (hWell.fits s hs).addr_lt
    rw [BitVec.le_def] at hLow hHigh
    rw [BitVec.toNat_add, BitVec.toNat_add, Nat.mod_eq_of_lt hLt, Nat.mod_eq_of_lt hFits] at hHigh
    obtain ⟨hGe, hStop⟩ := Span.mem_bytes.1 ha
    change e.vaddr.toNat ≤ a at hGe
    change a < e.vaddr.toNat + e.size.toNat at hStop
    refine mem_textAddresses.2 ⟨s, mem_filter.2 ⟨hs, by simpa using hKind⟩, ?_, ?_⟩
    · exact le_trans hLow hGe
    · exact lt_of_lt_of_le hStop hHigh

/-- The figure counts each byte once exactly when no symbols overlap. -/
theorem covered_eq_card_iff (hWell : img.WellFormed bytes) :
    (emitStats img syms).covered = (coveredText img syms).card ↔ SymbolsApart img syms := by
  rw [covered_emitStats, eq_comm, coveredText, card_coveredIn_eq_iff]
  simp only [sizedSpans, forall_mem_map, pairwise_map]
  exact ⟨fun ⟨hIn, hApart⟩ => ⟨fun e he => (bytes_subset_iff hWell he).1 (hIn e he), hApart⟩,
    fun h => ⟨fun e he => (bytes_subset_iff hWell he).2 (h.stop_lt e he), h.apart⟩⟩

/-! ## The gaps -/

/-- The gaps that the loop puts into the table. -/
def gapsFound : Option (BitVec 32) → List SymEntry → List (BitVec 32 × BitVec 32)
  | _, [] => []
  | none, e :: l => gapsFound (some (e.vaddr + e.size)) l
  | some prevEnd, e :: l =>
    if prevEnd < e.vaddr then (prevEnd, e.vaddr - prevEnd) :: gapsFound (some (e.vaddr + e.size)) l
    else gapsFound (some (e.vaddr + e.size)) l

theorem foldl_gapStep (l : List SymEntry) (prev : Option (BitVec 32))
    (top : List (BitVec 32 × BitVec 32)) :
    (l.foldl gapStep (prev, top)).2 =
      (gapsFound prev l).foldl (fun top g => insertTop gapSize g top) top := by
  induction l generalizing prev top with
  | nil => rw [gapsFound]; rfl
  | cons e l ih =>
    cases prev with
    | none => exact ih _ _
    | some prevEnd =>
      rw [foldl_cons, gapStep, ih, gapsFound]
      dsimp only
      split <;> rfl

theorem ascending_sizedSpans (hSorted : syms.Pairwise fun e f => e.vaddr ≤ f.vaddr)
    (h : SymbolsApart img syms) : Ascending (sizedSpans img syms) := by
  have hPos : ∀ e ∈ sizedTextSyms img syms, 0 < e.size.toNat := by
    intro e he
    obtain ⟨-, hSize, -⟩ := (by simpa [sizedTextSyms] using he :
      e ∈ syms ∧ e.size ≠ 0 ∧ symInText img e.vaddr e.size = true)
    exact Nat.pos_of_ne_zero fun hZero => hSize (BitVec.eq_of_toNat_eq hZero)
  refine ⟨?_, ?_⟩
  · rw [sizedSpans, forall_mem_map]
    exact hPos
  · rw [sizedSpans, pairwise_map]
    have hBoth := h.apart.and (hSorted.sublist (filter_sublist ..))
    exact hBoth.imp_of_mem fun _ hf hef => hef.1.stop_le (hPos _ hf) (BitVec.le_def.1 hef.2)

/-- The loop finds the gaps between neighbours. -/
theorem gapsFound_eq {l : List SymEntry} (e : SymEntry)
    (hStop : ∀ f ∈ e :: l, f.vaddr.toNat + f.size.toNat < 2 ^ 32) :
    (gapsFound (some (e.vaddr + e.size)) l).map gapSpan =
      gapsOf ((e :: l).map SymEntry.span) := by
  induction l generalizing e with
  | nil => rw [gapsFound]; rfl
  | cons f l ih =>
    have hTail := ih f fun f' hf' => hStop f' (mem_cons_of_mem e hf')
    have hEnd : (e.vaddr + e.size).toNat = e.span.stop := by
      rw [BitVec.toNat_add, Nat.mod_eq_of_lt (hStop e (mem_cons_self ..))]
      rfl
    rw [map_cons, map_cons, gapsOf_cons_cons, gapsFound]
    rw [map_cons] at hTail
    by_cases hLt : e.vaddr + e.size < f.vaddr
    · have hNat : e.span.stop < f.span.start := by
        rw [← hEnd]
        exact BitVec.lt_def.1 hLt
      rw [if_pos hLt, if_pos hNat, map_cons, hTail]
      have hSub : (f.vaddr - (e.vaddr + e.size)).toNat = f.span.start - e.span.stop := by
        rw [BitVec.toNat_sub_of_le (BitVec.le_of_lt hLt), hEnd]
        rfl
      rw [gapSpan, hSub, hEnd]
    · have hNat : ¬ e.span.stop < f.span.start := by
        rw [← hEnd]
        exact fun hLt' => hLt (BitVec.lt_def.2 hLt')
      rw [if_neg hLt, if_neg hNat, hTail]

theorem gapsFound_sized (hApart : SymbolsApart img syms) :
    (gapsFound none (sizedTextSyms img syms)).map gapSpan =
      gapsOf (sizedSpans img syms) := by
  have hStop := hApart.stop_lt
  unfold sizedSpans
  cases hSized : sizedTextSyms img syms with
  | nil => rfl
  | cons e l =>
    rw [hSized] at hStop
    exact gapsFound_eq e hStop

/-- The entries of the table up to the first that is empty are all that are not. -/
theorem takeWhile_eq_filter {top : List (BitVec 32 × BitVec 32)}
    (h : top.Pairwise fun a b => gapSize b ≤ gapSize a) :
    top.takeWhile (gapSize · ≠ 0) = top.filter (gapSize · ≠ 0) := by
  induction top with
  | nil => rfl
  | cons g top ih =>
    obtain ⟨hHead, hTail⟩ := pairwise_cons.1 h
    by_cases hZero : gapSize g = 0
    · have hAll : top.filter (gapSize · ≠ 0) = [] := by
        refine filter_eq_nil_iff.2 fun g' hg' => ?_
        have hLe := hHead g' hg'
        rw [hZero, Nat.le_zero] at hLe
        simp [hLe]
      rw [filter_cons_of_neg (by simp [hZero]), hAll,
        takeWhile_cons_of_neg (by simp [hZero])]
    · rw [filter_cons_of_pos (by simp [hZero]), takeWhile_cons_of_pos (by simp [hZero]),
        ih hTail]

/-- A table of the largest gaps of a list, filled up with empty entries, lists the largest ones. -/
theorem largestGaps_of_largest {covered : Nat → Prop} {found top : List (BitVec 32 × BitVec 32)}
    (hGap : ∀ g, g ∈ found.map gapSpan ↔ Gap covered g) (hNodup : (found.map gapSpan).Nodup)
    (h : Largest gapSize (found.reverse ++ List.replicate 5 (0, 0)) top) (hLength : top.length = 5) :
    LargestGaps covered ((top.takeWhile (gapSize · ≠ 0)).map gapSpan) := by
  rw [takeWhile_eq_filter h.sorted]
  obtain ⟨rest, hPerm, hLe⟩ := h.rest
  have hPos : ∀ g ∈ found, gapSize g ≠ 0 := fun g hg =>
    Nat.ne_of_gt ((hGap _).1 (mem_map_of_mem hg)).size_pos
  have hAll : (top.filter (gapSize · ≠ 0) ++ rest.filter (gapSize · ≠ 0)).Perm found := by
    have hFilter := hPerm.filter (gapSize · ≠ 0)
    have hFound : found.reverse.filter (gapSize · ≠ 0) = found.reverse :=
      filter_eq_self.2 fun g hg => by simpa using hPos g (mem_reverse.1 hg)
    have hEmpty : (List.replicate 5 ((0, 0) : BitVec 32 × BitVec 32)).filter (gapSize · ≠ 0) = [] :=
      rfl
    rw [filter_append, filter_append, hFound, hEmpty, append_nil] at hFilter
    exact hFilter.trans (reverse_perm found)
  have hSpans := hAll.map gapSpan
  rw [map_append] at hSpans
  refine ⟨?_, ?_, fun g hg => ?_, ?_, fun g hg hNot => ?_⟩
  · rw [pairwise_map]
    exact h.sorted.sublist (filter_sublist ..)
  · exact (nodup_append.1 (hSpans.nodup_iff.2 hNodup)).1
  · exact (hGap g).1 (hSpans.subset (mem_append_left _ hg))
  · rw [length_map, ← hLength]
    exact length_filter_le ..
  · have hIn := hSpans.symm.subset ((hGap g).2 hg)
    rcases mem_append.1 hIn with hIn | hIn
    · exact absurd hIn hNot
    · obtain ⟨r, hr, rfl⟩ := mem_map.1 hIn
      obtain ⟨hr, hrPos⟩ := mem_filter.1 hr
      have hFull : top.filter (gapSize · ≠ 0) = top := by
        refine filter_eq_self.2 fun t ht => ?_
        have hBelow := hLe r hr t ht
        simp only [decide_eq_true_eq] at hrPos ⊢
        omega
      rw [hFull, length_map, forall_mem_map]
      exact ⟨hLength, fun t ht => hLe r hr t ht⟩

theorem length_foldl_insertTop (l : List (BitVec 32 × BitVec 32))
    (top : List (BitVec 32 × BitVec 32)) :
    (l.foldl (fun top g => insertTop gapSize g top) top).length = top.length := by
  induction l generalizing top with
  | nil => rfl
  | cons g l ih => rw [foldl_cons, ih, length_insertTop]

theorem largestGaps_emitStats (hSorted : syms.Pairwise fun e f => e.vaddr ≤ f.vaddr)
    (h : SymbolsApart img syms) :
    LargestGaps (Covered (sizedSpans img syms)) ((emitStats img syms).gaps.map gapSpan) := by
  have hAscending := ascending_sizedSpans hSorted h
  have hFound : (gapsFound none (sizedTextSyms img syms)).map gapSpan =
      gapsOf (sizedSpans img syms) := gapsFound_sized h
  have hGap : ∀ g, g ∈ (gapsFound none (sizedTextSyms img syms)).map gapSpan ↔
      Gap (Covered (sizedSpans img syms)) g := by
    intro g
    rw [hFound]
    exact mem_gapsOf_iff hAscending
  unfold emitStats
  dsimp only
  split
  case isTrue hMany =>
    rw [foldl_gapStep]
    refine largestGaps_of_largest hGap (hFound ▸ nodup_gapsOf hAscending) ?_ ?_
    · refine Largest.foldl ⟨by decide, [], ?_, ?_⟩ _
      · rw [append_nil]
      · exact fun r hr => absurd hr not_mem_nil
    · rw [length_foldl_insertTop, length_replicate]
  case isFalse hFew =>
    have hNone : ∀ g, ¬ Gap (Covered (sizedSpans img syms)) g := by
      intro g hg
      rw [← mem_gapsOf_iff hAscending] at hg
      have hShort : (sizedSpans img syms).length ≤ 1 := by
        rw [sizedSpans, length_map]
        exact Nat.not_lt.1 hFew
      rcases hSpans : sizedSpans img syms with _ | ⟨i, _ | ⟨j, rest⟩⟩ <;> rw [hSpans] at hg hShort
      · exact not_mem_nil hg
      · exact not_mem_nil hg
      · exact absurd hShort (by simp)
    exact ⟨List.Pairwise.nil, nodup_nil, fun g hg => absurd hg not_mem_nil, Nat.zero_le _,
      fun g hg => absurd hg (hNone g)⟩

/-- The statistics of a loaded image are right exactly when its sized symbols do not overlap. -/
theorem countsOnce_iff (hParse : dolParse bytes = .ok img)
    (hSorted : syms.Pairwise fun e f => e.vaddr ≤ f.vaddr) :
    CountsOnce img syms ↔ SymbolsApart img syms := by
  have hWell := wellFormed_of_dolParse hParse
  refine ⟨fun h => (covered_eq_card_iff hWell).1 h.covered, fun h => ?_⟩
  have hCovered := (covered_eq_card_iff hWell).2 h
  refine ⟨hCovered, ?_, largestGaps_emitStats hSorted h⟩
  rw [hCovered]
  exact (Finset.card_le_card (coveredIn_subset _ _)).trans (card_textAddresses_le img)

end

/-! ## A nested symbol -/

/-- An executable whose text is eight instructions. -/
def statsImage : DolImage where
  bytes :=
    [0, 0, 1, 0] ++ List.replicate 0x44 0 ++ [0x80, 0, 0x40, 0] ++ List.replicate 0x44 0 ++
      [0, 0, 0, 0x20] ++ List.replicate 0x4C 0 ++ [0x80, 0, 0x40, 0] ++ List.replicate 0x1C 0 ++
      List.replicate 0x20 0
  entrypoint := 0x80004000
  bssAddr := 0
  bssSize := 0
  sections :=
    [{ kind := .text, index := 0, fileOffset := 0x100, virtualAddr := 0x80004000, size := 0x20 }]

def twoFunctions : List SymEntry :=
  [{ vaddr := 0x80004000, size := 8, name := "main" },
    { vaddr := 0x80004010, size := 8, name := "exit" }]

def nestedFunctions : List SymEntry :=
  [{ vaddr := 0x80004000, size := 0x20, name := "main" },
    { vaddr := 0x80004000, size := 8, name := "entry" }]

set_option maxRecDepth 20000 in
theorem countsOnce_twoFunctions :
    dolParse statsImage.bytes = .ok statsImage ∧
      (CountsOnce statsImage twoFunctions ↔ SymbolsApart statsImage twoFunctions) := by
  have hParse : dolParse statsImage.bytes = .ok statsImage := rfl
  exact ⟨hParse, countsOnce_iff hParse (by decide)⟩

set_option maxRecDepth 20000 in
/-- The nested symbol counts 40 bytes of a text of 32. -/
theorem not_countsOnce_nestedFunctions :
    dolParse statsImage.bytes = .ok statsImage ∧
      ¬ ∀ bytes img (syms : List SymEntry), dolParse bytes = .ok img →
        (syms.Pairwise fun e f => e.vaddr ≤ f.vaddr) → CountsOnce img syms := by
  have hParse : dolParse statsImage.bytes = .ok statsImage := rfl
  refine ⟨hParse, fun h => ?_⟩
  have hLe := (h _ _ nestedFunctions hParse (by decide)).covered_le
  exact absurd hLe (by decide)

end Calynda.Decompiler
