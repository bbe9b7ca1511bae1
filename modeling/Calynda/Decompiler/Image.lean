import Calynda.Decompiler.Disc
import Calynda.Lib.StateExcept

/-!
# What the parser of an executable accepts

The header of an executable is 256 bytes that nothing else vouches for. An image that the
parser returns has only sections that fit the file and the address space, and a place that it
finds for an address lies with the rest of its section inside the file.
-/

namespace Calynda.Decompiler

def dolMaxSections : Nat := 18

/-- The image after `memset`. -/
def DolImage.zero : DolImage :=
  { bytes := [], entrypoint := 0, bssAddr := 0, bssSize := 0, sections := [] }

/-- The loop over the slots of one kind of section, on the image it fills. A slot that cannot be
pushed clears the image. -/
def pushSlots (bytes : List (BitVec 8)) (kind : DolSectionKind)
    (offsetsAt addrsAt sizesAt : Nat) : List Nat → DolImage → Option DolStatus × DolImage
  | [], img => (none, img)
  | i :: slots, img =>
    match pushSection img.sections kind i (readU32Be bytes (offsetsAt + 4 * i))
        (readU32Be bytes (addrsAt + 4 * i)) (readU32Be bytes (sizesAt + 4 * i)) bytes.length with
    | .error st => (some st, .zero)
    | .ok sections =>
      pushSlots bytes kind offsetsAt addrsAt sizesAt slots { img with sections := sections }

/-- The parser with the image it fills; no status stands for success. -/
def dolParseInto (bytes : List (BitVec 8)) : Option DolStatus × DolImage :=
  if bytes.length < dolHeaderSize then (some .tooSmall, .zero)
  else
    match pushSlots bytes .text 0x00 0x48 0x90 (List.range 7) { DolImage.zero with bytes := bytes } with
    | (some st, img) => (some st, img)
    | (none, img) =>
      match pushSlots bytes .data 0x1C 0x64 0xAC (List.range 11) img with
      | (some st, img) => (some st, img)
      | (none, img) =>
        let img := { img with bssAddr := readU32Be bytes 0xD8, bssSize := readU32Be bytes 0xDC,
                              entrypoint := readU32Be bytes 0xE0 }
        match dolSectionForVaddr img.sections img.entrypoint with
        | some { kind := .text, .. } => (none, img)
        | _ => (some .noEntrypoint, .zero)

theorem pushSlots_eq (bytes : List (BitVec 8)) (kind : DolSectionKind)
    (offsetsAt addrsAt sizesAt : Nat) (slots : List Nat) (img : DolImage) :
    pushSlots bytes kind offsetsAt addrsAt sizesAt slots img =
      match slots.foldlM (fun sections i =>
        pushSection sections kind i (readU32Be bytes (offsetsAt + 4 * i))
          (readU32Be bytes (addrsAt + 4 * i)) (readU32Be bytes (sizesAt + 4 * i)) bytes.length)
          img.sections with
      | .error st => (some st, .zero)
      | .ok sections => (none, { img with sections := sections }) := by
  induction slots generalizing img with
  | nil => rfl
  | cons i slots ih =>
    rw [pushSlots, List.foldlM_cons]
    cases pushSection img.sections kind i (readU32Be bytes (offsetsAt + 4 * i))
        (readU32Be bytes (addrsAt + 4 * i)) (readU32Be bytes (sizesAt + 4 * i)) bytes.length with
    | error st => rfl
    | ok sections => exact ih { img with sections := sections }

theorem pushSlots_range (bytes : List (BitVec 8)) (kind : DolSectionKind)
    (offsetsAt addrsAt sizesAt count : Nat) (img : DolImage) :
    pushSlots bytes kind offsetsAt addrsAt sizesAt (List.range count) img =
      match pushSections bytes kind offsetsAt addrsAt sizesAt count img.sections with
      | .error st => (some st, .zero)
      | .ok sections => (none, { img with sections := sections }) :=
  pushSlots_eq bytes kind offsetsAt addrsAt sizesAt (List.range count) img

/-- The image is cleared exactly where the parser without it reports an error. -/
theorem dolParseInto_eq (bytes : List (BitVec 8)) :
    dolParseInto bytes = match dolParse bytes with
      | .error st => (some st, .zero)
      | .ok img => (none, img) := by
  by_cases hSize : bytes.length < dolHeaderSize
  · simp only [dolParseInto, dolParse, if_pos hSize]
    rfl
  · simp only [dolParseInto, dolParse, if_neg hSize, pushSlots_range, DolImage.zero]
    cases hText : pushSections bytes .text 0x00 0x48 0x90 7 [] with
    | error st => rfl
    | ok text =>
      cases hData : pushSections bytes .data 0x1C 0x64 0xAC 11 text with
      | error st => simp only [hData, bind, Except.bind]
      | ok sections =>
        simp only [hData, bind, Except.bind]
        cases hEntry : dolSectionForVaddr sections (readU32Be bytes 0xE0) with
        | none => rfl
        | some s =>
          obtain ⟨kind, _⟩ := s
          cases kind <;> rfl

/-! ## Sections that fit -/

/-- A section lies inside the file and inside the address space, and is made of whole words. -/
structure DolSection.Fits (s : DolSection) (fileSize : Nat) : Prop where
  inside_file : s.fileOffset.toNat + s.size.toNat ≤ fileSize
  file_lt : s.fileOffset.toNat + s.size.toNat < 2 ^ 32
  addr_lt : s.virtualAddr.toNat + s.size.toNat < 2 ^ 32
  offset_aligned : s.fileOffset.toNat % 4 = 0
  addr_aligned : s.virtualAddr.toNat % 4 = 0
  size_aligned : s.size.toNat % 4 = 0

/-- The address lies in the section, with no wrap of the section's end. -/
def DolSection.Contains (s : DolSection) (vaddr : BitVec 32) : Prop :=
  s.virtualAddr.toNat ≤ vaddr.toNat ∧ vaddr.toNat < s.virtualAddr.toNat + s.size.toNat

structure DolImage.WellFormed (img : DolImage) (bytes : List (BitVec 8)) : Prop where
  bytes_eq : img.bytes = bytes
  fits : ∀ s ∈ img.sections, s.Fits bytes.length
  length_le : img.sections.length ≤ dolMaxSections
  entry : ∃ s ∈ img.sections, s.kind = .text ∧ s.Contains img.entrypoint

theorem toNat_mod_four {x : BitVec 32} (h : x &&& 3 = 0) : x.toNat % 4 = 0 := by
  have hNat := congrArg BitVec.toNat h
  rw [BitVec.toNat_and] at hNat
  exact (Nat.and_two_pow_sub_one_eq_mod x.toNat 2).symm.trans hNat

section Push

variable {sections sections' : List DolSection} {kind : DolSectionKind} {index : Nat}
  {off addr size : BitVec 32} {fileSize : Nat}

/-- A slot is empty or gives one section more, which fits. -/
theorem pushSection_ok
    (h : pushSection sections kind index off addr size fileSize = .ok sections') :
    sections' = sections ∨ ∃ s : DolSection, s.Fits fileSize ∧ sections' = sections ++ [s] := by
  unfold pushSection at h
  split_ifs at h with hEmpty hAligned hFile hInside hAddr
  · exact .inl (Except.ok.inj h).symm
  · simp only [not_or, not_not] at hAligned
    exact .inr ⟨_, ⟨Nat.not_lt.mp hInside, Nat.not_le.mp hFile, Nat.not_le.mp hAddr,
      toNat_mod_four hAligned.1, toNat_mod_four hAligned.2.1, toNat_mod_four hAligned.2.2⟩,
      (Except.ok.inj h).symm⟩

/-- The section is outside the file only if its end is a word. -/
theorem pushSection_badSection
    (h : pushSection sections kind index off addr size fileSize = .error .badSection) :
    size ≠ 0 ∧ off.toNat + size.toNat < 2 ^ 32 ∧ fileSize < off.toNat + size.toNat := by
  unfold pushSection at h
  split_ifs at h with hEmpty hAligned hFile hInside hAddr
  · exact absurd h (by simp)
  · exact absurd h (by simp)
  · exact ⟨hEmpty, Nat.not_le.mp hFile, hInside⟩
  · exact absurd h (by simp)

theorem pushSection_ne_tooSmall :
    pushSection sections kind index off addr size fileSize ≠ .error .tooSmall := by
  unfold pushSection
  split_ifs <;> exact nofun

end Push

section Parse

variable {bytes : List (BitVec 8)} {img : DolImage} {kind : DolSectionKind}
  {offsetsAt addrsAt sizesAt count : Nat} {sections sections' : List DolSection}

theorem pushSections_ok
    (h : pushSections bytes kind offsetsAt addrsAt sizesAt count sections = .ok sections')
    (hFits : ∀ s ∈ sections, s.Fits bytes.length) :
    (∀ s ∈ sections', s.Fits bytes.length) ∧ sections'.length ≤ sections.length + count := by
  have hPass := StateExcept.foldlM_invariant
    (P := fun n (acc : List DolSection) => (∀ s ∈ acc, s.Fits bytes.length) ∧ acc.length ≤ n)
    ?_ h ⟨hFits, Nat.le_refl sections.length⟩
  · rwa [List.length_range] at hPass
  · intro i _ n acc acc' hAcc hPush
    rcases pushSection_ok hPush with rfl | ⟨s, hs, rfl⟩
    · exact ⟨hAcc.1, Nat.le_succ_of_le hAcc.2⟩
    · refine ⟨fun s' hs' => ?_, by simpa using hAcc.2⟩
      rcases List.mem_append.mp hs' with hs' | hs'
      · exact hAcc.1 s' hs'
      · rwa [List.mem_singleton.mp hs']

theorem dolParse_ok (h : dolParse bytes = .ok img) :
    ∃ text, pushSections bytes .text 0x00 0x48 0x90 7 [] = .ok text ∧
      pushSections bytes .data 0x1C 0x64 0xAC 11 text = .ok img.sections ∧ img.bytes = bytes ∧
      ∃ s, dolSectionForVaddr img.sections img.entrypoint = some s ∧ s.kind = .text := by
  unfold dolParse at h
  by_cases hSize : bytes.length < dolHeaderSize
  · rw [if_pos hSize] at h
    exact nomatch h
  · rw [if_neg hSize] at h
    cases hText : pushSections bytes .text 0x00 0x48 0x90 7 [] with
    | error st =>
      rw [hText] at h
      exact nomatch h
    | ok text =>
      cases hData : pushSections bytes .data 0x1C 0x64 0xAC 11 text with
      | error st =>
        simp only [hText, hData, bind, Except.bind] at h
        exact nomatch h
      | ok sections =>
        simp only [hText, hData, bind, Except.bind] at h
        split at h
        · rename_i index fileOffset virtualAddr size hEntry
          cases h
          exact ⟨text, rfl, hData, rfl, _, hEntry, rfl⟩
        · exact nomatch h

/-- Where the errors of the parser come from. -/
theorem dolParse_error {st : DolStatus} (h : dolParse bytes = .error st) :
    st = .tooSmall ∧ bytes.length < dolHeaderSize ∨ st = .noEntrypoint ∨
      pushSections bytes .text 0x00 0x48 0x90 7 [] = .error st ∨
      ∃ text, pushSections bytes .data 0x1C 0x64 0xAC 11 text = .error st := by
  unfold dolParse at h
  by_cases hSize : bytes.length < dolHeaderSize
  · rw [if_pos hSize] at h
    cases h
    exact .inl ⟨rfl, hSize⟩
  · rw [if_neg hSize] at h
    cases hText : pushSections bytes .text 0x00 0x48 0x90 7 [] with
    | error st' =>
      rw [hText] at h
      cases h
      exact .inr (.inr (.inl rfl))
    | ok text =>
      cases hData : pushSections bytes .data 0x1C 0x64 0xAC 11 text with
      | error st' =>
        simp only [hText, hData, bind, Except.bind] at h
        cases h
        exact .inr (.inr (.inr ⟨text, hData⟩))
      | ok sections =>
        simp only [hText, hData, bind, Except.bind] at h
        split at h
        · exact nomatch h
        · cases h
          exact .inr (.inl rfl)

theorem Fits_contains_iff {s : DolSection} {fileSize : Nat} (h : s.Fits fileSize)
    (vaddr : BitVec 32) :
    (s.virtualAddr ≤ vaddr ∧ vaddr < s.virtualAddr + s.size) ↔ s.Contains vaddr := by
  rw [BitVec.le_def, BitVec.lt_def, BitVec.toNat_add, Nat.mod_eq_of_lt h.addr_lt]
  rfl

/-- The section of an address is the first one that contains it. -/
theorem dolSectionForVaddr_eq_some {s : DolSection} {vaddr : BitVec 32} {fileSize : Nat}
    (hFits : ∀ s ∈ sections, s.Fits fileSize) (h : dolSectionForVaddr sections vaddr = some s) :
    ∃ before after, sections = before ++ s :: after ∧ s.Contains vaddr ∧
      ∀ s' ∈ before, ¬ s'.Contains vaddr := by
  obtain ⟨hHere, before, after, rfl, hBefore⟩ := List.find?_eq_some_iff_append.mp h
  refine ⟨before, after, rfl, (Fits_contains_iff (hFits s (by simp)) vaddr).mp (by simpa using hHere),
    fun s' hs' hContains => ?_⟩
  have hNot := hBefore s' hs'
  simp [(Fits_contains_iff (hFits s' (by simp [hs'])) vaddr).mpr hContains] at hNot

theorem dolSectionForVaddr_eq_none {vaddr : BitVec 32} {fileSize : Nat}
    (hFits : ∀ s ∈ sections, s.Fits fileSize) (h : dolSectionForVaddr sections vaddr = none) :
    ∀ s ∈ sections, ¬ s.Contains vaddr := by
  intro s hs hContains
  have hNot := List.find?_eq_none.mp h s hs
  simp [(Fits_contains_iff (hFits s hs) vaddr).mpr hContains] at hNot

theorem wellFormed_of_dolParse (h : dolParse bytes = .ok img) : img.WellFormed bytes := by
  obtain ⟨text, hText, hData, hBytes, s, hEntry, hKind⟩ := dolParse_ok h
  obtain ⟨hTextFits, hTextLength⟩ := pushSections_ok hText (by simp)
  obtain ⟨hFits, hLength⟩ := pushSections_ok hData hTextFits
  obtain ⟨before, after, hSections, hContains, -⟩ := dolSectionForVaddr_eq_some hFits hEntry
  refine ⟨hBytes, hFits, Nat.le_trans hLength ?_, s, by simp [hSections], hKind, hContains⟩
  rw [List.length_nil] at hTextLength
  exact Nat.le_trans (Nat.add_le_add_right hTextLength 11) (by decide)

/-- A place found for an address lies with the rest of its section inside the file. -/
theorem DolImage.WellFormed.vaddrToPtr (h : img.WellFormed bytes) {vaddr : BitVec 32} {p r : Nat}
    (hPtr : dolVaddrToPtr img vaddr = some (p, r)) :
    ∃ before s after, img.sections = before ++ s :: after ∧ s.Contains vaddr ∧
      (∀ s' ∈ before, ¬ s'.Contains vaddr) ∧ s.fileOffset.toNat ≤ p ∧
      p + r = s.fileOffset.toNat + s.size.toNat ∧ p + r ≤ bytes.length := by
  obtain ⟨s, hSection, hEq⟩ := Option.map_eq_some_iff.mp hPtr
  obtain ⟨before, after, hSections, hContains, hFirst⟩ := dolSectionForVaddr_eq_some h.fits hSection
  have hFits := h.fits s (by simp [hSections])
  have hDelta : (vaddr - s.virtualAddr).toNat = vaddr.toNat - s.virtualAddr.toNat :=
    BitVec.toNat_sub_of_le (BitVec.le_def.mpr hContains.1)
  have hLt := hContains.2
  have hRest : (s.size - (vaddr - s.virtualAddr)).toNat =
      s.size.toNat - (vaddr.toNat - s.virtualAddr.toNat) := by
    rw [BitVec.toNat_sub_of_le (by rw [BitVec.le_def, hDelta]; omega), hDelta]
  simp only [hDelta, hRest, Prod.mk.injEq] at hEq
  obtain ⟨rfl, rfl⟩ := hEq
  have hInside := hFits.inside_file
  have hStart := hContains.1
  exact ⟨before, s, after, hSections, hContains, hFirst, by omega, by omega, by omega⟩

end Parse

end Calynda.Decompiler
