import Calynda.Decompiler.Image
import Calynda.Decompiler.Iso
import Calynda.Decompiler.WiiCrypto

/-!
# Extracting the executable of a disc

Both extractors read the header of the executable, find from its 18 sections where the file
ends, and read up to there: one from a plain disc, one from the plaintext of a partition. The
parser of the executable then checks every section against the length of what it is given.
-/

namespace Calynda.Decompiler

/-- The big-endian reader of the decrypted extractor. -/
def be32Local (bytes : List (BitVec 8)) (offset : Nat) : BitVec 32 := readU32Be bytes offset

def raiseEnd (maxEnd : BitVec 32) (slot : BitVec 32 × BitVec 32) : BitVec 32 :=
  if slot.2 ≠ 0 ∧ maxEnd < slot.1 + slot.2 then slot.1 + slot.2 else maxEnd

/-- The loop over the slots of one kind of section. -/
def raiseEnds (be : List (BitVec 8) → Nat → BitVec 32) (dolhdr : List (BitVec 8))
    (offsetsAt sizesAt count : Nat) (maxEnd : BitVec 32) : BitVec 32 :=
  (List.range count).foldl (fun maxEnd i =>
    raiseEnd maxEnd (be dolhdr (offsetsAt + i * 4), be dolhdr (sizesAt + i * 4))) maxEnd

def isoExtractGcDol (disc : DiscFile) (info : IsoInfo) : Except IsoStatus (List (BitVec 8)) :=
  if info.format = .wii then .error .encrypted
  else if info.format ≠ .gamecube then .error .unknownFormat
  else do
    let dolhdr ← isoReadAt disc info.gcDolOffset.toNat dolHeaderSize
    let maxEnd := BitVec.ofNat 32 dolHeaderSize
    let maxEnd := raiseEnds be32 dolhdr 0x00 0x90 7 maxEnd
    let maxEnd := raiseEnds be32 dolhdr 0x1C 0xAC 11 maxEnd
    isoReadAt disc info.gcDolOffset.toNat maxEnd.toNat

def isoExtractWiiDol (disc : DiscFile) (info : IsoInfo) (partitionIndex : Nat)
    (commonKey : AesBlock) : Except IsoStatus (List (BitVec 8)) :=
  if info.format ≠ .wii then .error .unknownFormat
  else
    match info.wiiPartitions[partitionIndex]? with
    | none => .error .nullArg
    | some partition =>
      match wiiPartitionOpen disc (partition.offset.setWidth 64) commonKey with
      | .error _ => .error .encrypted
      | .ok r =>
        match r.wiiPartitionRead 0 0x440 with
        | (.error _, _) => .error .encrypted
        | (.ok boot, r) =>
          let dolOff := ((be32Local boot 0x420).setWidth 64 <<< 2).toNat
          match r.wiiPartitionRead dolOff 0x100 with
          | (.error _, _) => .error .encrypted
          | (.ok dolhdr, r) =>
            let maxEnd := raiseEnds be32Local dolhdr 0x00 0x90 7 0x100
            let maxEnd := raiseEnds be32Local dolhdr 0x1C 0xAC 11 maxEnd
            match r.wiiPartitionRead dolOff maxEnd.toNat with
            | (.error _, _) => .error .encrypted
            | (.ok buf, _) => .ok buf

/-! ## The size of an executable -/

/-- The file offset and the size of each of the 18 section slots of a header. -/
def dolSlots (bytes : List (BitVec 8)) : List (BitVec 32 × BitVec 32) :=
  (List.range 7).map (fun i => (readU32Be bytes (i * 4), readU32Be bytes (0x90 + i * 4))) ++
    (List.range 11).map fun i => (readU32Be bytes (0x1C + i * 4), readU32Be bytes (0xAC + i * 4))

/-- The length that the extractors compute for a header. -/
def extractedSize (bytes : List (BitVec 8)) : Nat :=
  ((dolSlots bytes).foldl raiseEnd (BitVec.ofNat 32 dolHeaderSize)).toNat

/-- The ends of the sections that are there. -/
def sectionEnds (bytes : List (BitVec 8)) : List Nat :=
  ((dolSlots bytes).filter fun slot => slot.2 ≠ 0).map fun slot => slot.1.toNat + slot.2.toNat

def NoSlotWraps (bytes : List (BitVec 8)) : Prop :=
  ∀ slot ∈ dolSlots bytes, slot.2 ≠ 0 → slot.1.toNat + slot.2.toNat < 2 ^ 32

theorem raiseEnds_eq (be : List (BitVec 8) → Nat → BitVec 32) (hBe : be = readU32Be)
    (dolhdr : List (BitVec 8)) (maxEnd : BitVec 32) :
    raiseEnds be dolhdr 0x1C 0xAC 11 (raiseEnds be dolhdr 0x00 0x90 7 maxEnd) =
      (dolSlots dolhdr).foldl raiseEnd maxEnd := by
  simp only [raiseEnds, dolSlots, hBe, List.foldl_append, List.foldl_map, Nat.zero_add]

section RaiseEnd

variable {slots : List (BitVec 32 × BitVec 32)} {maxEnd : BitVec 32}

theorem le_raiseEnd (maxEnd : BitVec 32) (slot : BitVec 32 × BitVec 32) :
    maxEnd.toNat ≤ (raiseEnd maxEnd slot).toNat := by
  unfold raiseEnd
  split
  · rename_i h
    exact Nat.le_of_lt (BitVec.lt_def.mp h.2)
  · exact Nat.le_refl _

theorem le_foldl_raiseEnd (slots : List (BitVec 32 × BitVec 32)) (maxEnd : BitVec 32) :
    maxEnd.toNat ≤ (slots.foldl raiseEnd maxEnd).toNat := by
  induction slots generalizing maxEnd with
  | nil => exact Nat.le_refl _
  | cons slot slots ih => exact Nat.le_trans (le_raiseEnd maxEnd slot) (ih _)

/-- No section of the header ends behind the computed length, as far as its end is a word. -/
theorem end_le_foldl_raiseEnd {slot : BitVec 32 × BitVec 32} (hSlot : slot ∈ slots)
    (hSize : slot.2 ≠ 0) (hEnd : slot.1.toNat + slot.2.toNat < 2 ^ 32) :
    slot.1.toNat + slot.2.toNat ≤ (slots.foldl raiseEnd maxEnd).toNat := by
  induction slots generalizing maxEnd with
  | nil => exact absurd hSlot List.not_mem_nil
  | cons head slots ih =>
    rcases List.mem_cons.mp hSlot with rfl | hSlot
    · have hStep : slot.1.toNat + slot.2.toNat ≤ (raiseEnd maxEnd slot).toNat := by
        have hAdd : (slot.1 + slot.2).toNat = slot.1.toNat + slot.2.toNat := by
          rw [BitVec.toNat_add, Nat.mod_eq_of_lt hEnd]
        unfold raiseEnd
        split
        · exact Nat.le_of_eq hAdd.symm
        · rename_i hKeep
          rw [← hAdd]
          exact Nat.not_lt.mp fun hLt => hKeep ⟨hSize, BitVec.lt_def.mpr hLt⟩
      exact Nat.le_trans hStep (le_foldl_raiseEnd slots _)
    · exact ih hSlot

theorem foldl_raiseEnd_of_noWrap
    (h : ∀ slot ∈ slots, slot.2 ≠ 0 → slot.1.toNat + slot.2.toNat < 2 ^ 32) :
    (slots.foldl raiseEnd maxEnd).toNat =
      ((slots.filter fun slot => slot.2 ≠ 0).map fun slot => slot.1.toNat + slot.2.toNat).foldl max
        maxEnd.toNat := by
  induction slots generalizing maxEnd with
  | nil => rfl
  | cons slot slots ih =>
    rw [List.foldl_cons, ih fun s hs => h s (List.mem_cons_of_mem _ hs)]
    by_cases hSize : slot.2 = 0
    · simp [raiseEnd, hSize]
    · have hEnd := h slot List.mem_cons_self hSize
      have hAdd : (slot.1 + slot.2).toNat = slot.1.toNat + slot.2.toNat := by
        rw [BitVec.toNat_add, Nat.mod_eq_of_lt hEnd]
      have hStep : (raiseEnd maxEnd slot).toNat =
          max maxEnd.toNat (slot.1.toNat + slot.2.toNat) := by
        unfold raiseEnd
        by_cases hLt : maxEnd < slot.1 + slot.2
        · rw [if_pos ⟨hSize, hLt⟩, hAdd]
          rw [BitVec.lt_def, hAdd] at hLt
          omega
        · rw [if_neg fun hc => hLt hc.2]
          rw [BitVec.lt_def, hAdd] at hLt
          omega
      rw [hStep, List.filter_cons_of_pos (by simpa using hSize), List.map_cons, List.foldl_cons]

end RaiseEnd

/-! ## What the extractors return -/

/-- A buffer that holds the header it was sized by. -/
structure Sized (buf : List (BitVec 8)) : Prop where
  header : dolHeaderSize ≤ buf.length
  length_eq : buf.length = extractedSize buf

theorem readU32Be_take {bytes : List (BitVec 8)} {n k : Nat} (h : k + 4 ≤ n) :
    readU32Be (bytes.take n) k = readU32Be bytes k := by
  have hAt : ∀ i < n, (bytes.take n).getD i 0 = bytes.getD i 0 := fun i hi => by
    rw [List.getD_eq_getElem?_getD, List.getElem?_take_of_lt hi, ← List.getD_eq_getElem?_getD]
  unfold readU32Be
  rw [hAt _ (by omega), hAt _ (by omega), hAt _ (by omega), hAt _ (by omega)]

/-- The slots are read from the header alone. -/
theorem dolSlots_take (bytes : List (BitVec 8)) :
    dolSlots (bytes.take dolHeaderSize) = dolSlots bytes := by
  have hWord : ∀ {k}, k + 4 ≤ 0x100 →
      readU32Be (bytes.take dolHeaderSize) k = readU32Be bytes k := readU32Be_take
  unfold dolSlots
  congr 1 <;> refine List.map_congr_left fun i hi => ?_ <;> rw [List.mem_range] at hi
  · rw [hWord (by omega), hWord (by omega)]
  · rw [hWord (by omega), hWord (by omega)]

theorem extractedSize_take (bytes : List (BitVec 8)) :
    extractedSize (bytes.take dolHeaderSize) = extractedSize bytes := by
  rw [extractedSize, dolSlots_take, extractedSize]

theorem header_le_extractedSize (bytes : List (BitVec 8)) : dolHeaderSize ≤ extractedSize bytes :=
  le_foldl_raiseEnd (dolSlots bytes) (BitVec.ofNat 32 dolHeaderSize)

theorem sized_of_header {hdr buf : List (BitVec 8)} (hTake : buf.take dolHeaderSize = hdr)
    (hLength : buf.length = extractedSize hdr) : Sized buf := by
  refine ⟨by rw [hLength]; exact header_le_extractedSize hdr, ?_⟩
  rw [hLength, ← extractedSize_take buf, hTake]

theorem isoReadAt_eq_ok {disc : DiscFile} {off n : Nat} {bytes : List (BitVec 8)}
    (h : isoReadAt disc off n = .ok bytes) : bytes = disc.slice off n := by
  unfold isoReadAt at h
  split at h
  · rename_i hRead
    cases h
    exact (DiscFile.read_eq_some.mp hRead).2
  · exact nomatch h

theorem sized_of_isoExtractGcDol {disc : DiscFile} {info : IsoInfo} {buf : List (BitVec 8)}
    (h : isoExtractGcDol disc info = .ok buf) : Sized buf := by
  unfold isoExtractGcDol at h
  split_ifs at h
  cases hHeader : isoReadAt disc info.gcDolOffset.toNat dolHeaderSize with
  | error st =>
    rw [hHeader] at h
    exact nomatch h
  | ok hdr =>
    simp only [hHeader, bind, Except.bind, raiseEnds_eq be32 rfl] at h
    have hBuf : buf = disc.slice info.gcDolOffset.toNat (extractedSize hdr) := isoReadAt_eq_ok h
    have hHdr := isoReadAt_eq_ok hHeader
    refine sized_of_header (show buf.take dolHeaderSize = hdr from ?_) ?_
    · rw [hBuf, DiscFile.take_slice disc _ (header_le_extractedSize hdr), hHdr]
    · rw [hBuf, DiscFile.length_slice]

theorem isoExtractGcDol_of_le {disc : DiscFile} {info : IsoInfo} (hFormat : info.format = .gamecube)
    {size : Nat} (hSize : extractedSize (disc.slice info.gcDolOffset.toNat dolHeaderSize) = size)
    (hInside : info.gcDolOffset.toNat + size ≤ disc.size) :
    isoExtractGcDol disc info = .ok (disc.slice info.gcDolOffset.toNat size) := by
  have hHeader : dolHeaderSize ≤ size := hSize ▸ header_le_extractedSize _
  have hRead := DiscFile.read_of_le
    (Nat.le_trans (Nat.add_le_add_left hHeader info.gcDolOffset.toNat) hInside)
  have hEnd : ((dolSlots (disc.slice info.gcDolOffset.toNat dolHeaderSize)).foldl raiseEnd
      (BitVec.ofNat 32 dolHeaderSize)).toNat = size := hSize
  rw [isoExtractGcDol, if_neg (by rw [hFormat]; decide), if_neg (by simp [hFormat])]
  simp only [isoReadAt, hRead, bind, Except.bind, raiseEnds_eq be32 rfl, hEnd,
    DiscFile.read_of_le hInside]

/-- No read of the extractor reaches the end of what a group index addresses. -/
theorem le_addressable (x n : BitVec 32) :
    (x.setWidth 64 <<< 2).toNat + n.toNat ≤ WiiPartitionReader.addressable := by
  rw [DiscFile.toNat_shifted, WiiPartitionReader.addressable, wiiBlockDataSize]
  omega

theorem sized_of_isoExtractWiiDol {disc : DiscFile} {info : IsoInfo} {partitionIndex : Nat}
    {commonKey : AesBlock} {buf : List (BitVec 8)}
    (h : isoExtractWiiDol disc info partitionIndex commonKey = .ok buf) : Sized buf := by
  unfold isoExtractWiiDol at h
  split_ifs at h
  split at h
  · cases h
  split at h
  · cases h
  rename_i r hOpen
  split at h
  · cases h
  rename_i boot r₁ hBoot
  simp only at h
  split at h
  · cases h
  rename_i hdr r₂ hHdr
  rw [raiseEnds_eq be32Local rfl] at h
  split at h
  · cases h
  rename_i buf' r₃ hBuf
  cases h
  have hReads := WiiPartitionReader.reads_of_open hOpen
  have hBootLen : 0 + 0x440 ≤ WiiPartitionReader.addressable := by decide
  obtain ⟨-, hReads₁⟩ := hReads.wiiPartitionRead hBootLen
  rw [hBoot] at hReads₁
  obtain ⟨hValue, hReads₂⟩ := hReads₁.wiiPartitionRead (le_addressable (be32Local boot 0x420) 0x100)
  rw [show ((0x100 : BitVec 32).toNat = 0x100) from rfl, hHdr] at hValue hReads₂
  obtain ⟨hValue', -⟩ := hReads₂.wiiPartitionRead
    (le_addressable (be32Local boot 0x420) ((dolSlots hdr).foldl raiseEnd 0x100))
  rw [hBuf] at hValue'
  obtain ⟨hHdrEq, -⟩ := r.partition.eq_slice_of_readPlaintext hValue.symm
  obtain ⟨hBufEq, hBufLength⟩ := r.partition.eq_slice_of_readPlaintext hValue'.symm
  refine sized_of_header (show buf.take dolHeaderSize = hdr from ?_) hBufLength
  have hLe : dolHeaderSize ≤ ((dolSlots hdr).foldl raiseEnd 0x100).toNat :=
    header_le_extractedSize hdr
  rw [hBufEq, List.take_take, Nat.min_eq_left hLe, hHdrEq]
  rfl

/-- A buffer that one of the extractors returns. -/
inductive Extracted : List (BitVec 8) → Prop where
  | plain {disc info buf} (h : isoExtractGcDol disc info = .ok buf) : Extracted buf
  | decrypted {disc info partitionIndex commonKey buf}
      (h : isoExtractWiiDol disc info partitionIndex commonKey = .ok buf) : Extracted buf

theorem Extracted.sized {buf : List (BitVec 8)} (h : Extracted buf) : Sized buf := by
  cases h with
  | plain h => exact sized_of_isoExtractGcDol h
  | decrypted h => exact sized_of_isoExtractWiiDol h

section Parse

variable {buf : List (BitVec 8)}

theorem Sized.end_le (h : Sized buf) {slot : BitVec 32 × BitVec 32} (hSlot : slot ∈ dolSlots buf)
    (hSize : slot.2 ≠ 0) (hEnd : slot.1.toNat + slot.2.toNat < 2 ^ 32) :
    slot.1.toNat + slot.2.toNat ≤ buf.length := by
  rw [h.length_eq]
  exact end_le_foldl_raiseEnd hSlot hSize hEnd

theorem Sized.pushSections_ne_badSection (h : Sized buf) {kind : DolSectionKind}
    {offsetsAt addrsAt sizesAt count : Nat} {sections : List DolSection}
    (hSlots : ∀ i < count,
      (readU32Be buf (offsetsAt + 4 * i), readU32Be buf (sizesAt + 4 * i)) ∈ dolSlots buf) :
    pushSections buf kind offsetsAt addrsAt sizesAt count sections ≠ .error .badSection := by
  intro hRun
  obtain ⟨i, hi, acc, hPush⟩ := StateExcept.foldlM_error hRun
  obtain ⟨hSize, hEnd, hOutside⟩ := pushSection_badSection hPush
  have hLe := h.end_le (hSlots i (List.mem_range.mp hi)) hSize hEnd
  exact absurd hOutside (Nat.not_lt.mpr hLe)

theorem pushSections_ne_tooSmall {bytes : List (BitVec 8)} {kind : DolSectionKind}
    {offsetsAt addrsAt sizesAt count : Nat} {sections : List DolSection} :
    pushSections bytes kind offsetsAt addrsAt sizesAt count sections ≠ .error .tooSmall := by
  intro hRun
  obtain ⟨i, -, acc, hPush⟩ := StateExcept.foldlM_error hRun
  exact pushSection_ne_tooSmall hPush

theorem Sized.dolParse_ne_badSection (h : Sized buf) : dolParse buf ≠ .error .badSection := by
  intro hParse
  rcases dolParse_error hParse with ⟨hSt, -⟩ | hSt | hText | ⟨text, hData⟩
  · exact nomatch hSt
  · exact nomatch hSt
  · refine h.pushSections_ne_badSection (fun i hi => ?_) hText
    rw [Nat.zero_add, Nat.mul_comm]
    exact List.mem_append_left _ (List.mem_map.mpr ⟨i, List.mem_range.mpr hi, rfl⟩)
  · refine h.pushSections_ne_badSection (fun i hi => ?_) hData
    rw [Nat.mul_comm]
    exact List.mem_append_right _ (List.mem_map.mpr ⟨i, List.mem_range.mpr hi, rfl⟩)

theorem Sized.dolParse_ne_tooSmall (h : Sized buf) : dolParse buf ≠ .error .tooSmall := by
  intro hParse
  rcases dolParse_error hParse with ⟨-, hShort⟩ | hSt | hText | ⟨text, hData⟩
  · exact absurd hShort (Nat.not_lt.mpr h.header)
  · exact nomatch hSt
  · exact pushSections_ne_tooSmall hText
  · exact pushSections_ne_tooSmall hData

/-- Extraction and parsing agree on how far an executable reaches. -/
theorem dolParse_of_extracted (h : Extracted buf) :
    dolParse buf ≠ .error .tooSmall ∧ dolParse buf ≠ .error .badSection ∧
    (∀ slot ∈ dolSlots buf, slot.2 ≠ 0 → slot.1.toNat + slot.2.toNat < 2 ^ 32 →
      slot.1.toNat + slot.2.toNat ≤ buf.length) ∧
    (NoSlotWraps buf → buf.length = (sectionEnds buf).foldl max dolHeaderSize) ∧
    ∀ buf', Extracted buf' → buf'.take dolHeaderSize = buf.take dolHeaderSize →
      buf'.length = buf.length := by
  have hSized := h.sized
  refine ⟨hSized.dolParse_ne_tooSmall, hSized.dolParse_ne_badSection,
    fun slot hSlot hSize hEnd => hSized.end_le hSlot hSize hEnd, fun hWrap => ?_,
    fun buf' h' hTake => ?_⟩
  · rw [hSized.length_eq]
    exact foldl_raiseEnd_of_noWrap hWrap
  · rw [h'.sized.length_eq, hSized.length_eq, ← extractedSize_take buf', hTake, extractedSize_take]

/-- An executable of one text section, right behind its header. -/
def dolDisc : DiscFile where
  size := 0x1000
  size_lt := by decide
  byteAt k :=
    if k = 2 then 1 else if k = 0x48 then 0x80 else if k = 0x93 then 0x20
    else if k = 0xE0 then 0x80 else 0

theorem extracted_dolDisc : Extracted (dolDisc.slice 0 0x120) :=
  .plain (isoExtractGcDol_of_le (show ({ format := .gamecube } : IsoInfo).format = _ from rfl)
    (by decide +kernel) (by decide))

theorem dolParse_extracted_dolDisc :
    dolParse (dolDisc.slice 0 0x120) ≠ .error .tooSmall ∧
      dolParse (dolDisc.slice 0 0x120) ≠ .error .badSection :=
  ⟨(dolParse_of_extracted extracted_dolDisc).1, (dolParse_of_extracted extracted_dolDisc).2.1⟩

end Parse

end Calynda.Decompiler
