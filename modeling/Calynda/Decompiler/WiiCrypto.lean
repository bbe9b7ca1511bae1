import Calynda.Decompiler.Aes
import Calynda.Decompiler.Disc
import Calynda.Lib.ListArray
import Mathlib.Algebra.GroupWithZero.Nat

/-!
# Encrypted partitions

The user data of a Wii partition is stored in encrypted groups of 0x8000 bytes, each a hash
prologue and 0x7C00 bytes of payload. A reader decrypts the groups on demand and keeps the last
one. To its caller it is a plain read of one plaintext, the payloads of all groups of the file
one after the other.
-/

namespace Calynda.Decompiler

inductive WiiStatus where
  | nullArg
  | io
  | badKeyFile
  | outOfBounds
  deriving DecidableEq, Repr

def wiiBlockSize : Nat := 0x8000
def wiiBlockDataSize : Nat := 0x7C00
def wiiBlockHashSize : Nat := 0x400

structure WiiPartitionReader where
  fp : DiscFile
  partitionOffset : BitVec 64
  dataOffset : BitVec 64
  titleKey : AesBlock
  cachedGroup : BitVec 32
  cacheValid : Bool
  cache : List (BitVec 8)

def wiiReadAt (disc : DiscFile) (off : BitVec 64) (n : Nat) :
    Except WiiStatus (List (BitVec 8)) :=
  match disc.read off.toNat n with
  | some bytes => .ok bytes
  | none => .error .io

def wiiPartitionOpen (disc : DiscFile) (partitionOffset : BitVec 64) (commonKey : AesBlock) :
    Except WiiStatus WiiPartitionReader := do
  let hdr ← wiiReadAt disc partitionOffset 0x2C0
  let iv : AesBlock := Vector.ofFn fun i => if i.val < 8 then hdr.getD (0x1DC + i.val) 0 else 0
  let titleKey := blockAt (aes128CbcDecrypt commonKey iv ((hdr.drop 0x1BF).take 16)) 0
  .ok { fp := disc
        partitionOffset := partitionOffset
        dataOffset := (be32 hdr 0x2B8).setWidth 64 <<< 2
        titleKey := titleKey
        cachedGroup := 0
        cacheValid := false
        cache := List.replicate wiiBlockDataSize 0 }

/-- The payload of an encrypted group. Its initialisation vector is part of the hash prologue. -/
def decryptGroup (titleKey : AesBlock) (enc : List (BitVec 8)) : List (BitVec 8) :=
  let hashPlain :=
    aes128CbcDecrypt titleKey (Vector.replicate 16 0) (enc.take wiiBlockHashSize)
  aes128CbcDecrypt titleKey (blockAt hashPlain 0x3D0) (enc.drop wiiBlockHashSize)

namespace WiiPartitionReader

-- a read that fails leaves the reader as it was
def fetchGroup (r : WiiPartitionReader) (group : BitVec 32) :
    Except WiiStatus WiiPartitionReader :=
  if r.cacheValid ∧ r.cachedGroup = group then .ok r
  else
    let base := r.partitionOffset + r.dataOffset + group.setWidth 64 * BitVec.ofNat 64 wiiBlockSize
    match wiiReadAt r.fp base wiiBlockSize with
    | .error st => .error st
    | .ok enc =>
      .ok { r with cache := decryptGroup r.titleKey enc, cachedGroup := group, cacheValid := true }

/-- Reads group by group. The groups that were decrypted before a failure stay in the reader. -/
def wiiPartitionRead (r : WiiPartitionReader) (offset len : Nat) :
    Except WiiStatus (List (BitVec 8)) × WiiPartitionReader :=
  if _ : 0 < len then
    let group := BitVec.ofNat 32 (offset / wiiBlockDataSize)
    let within := offset % wiiBlockDataSize
    match r.fetchGroup group with
    | .error st => (.error st, r)
    | .ok r' =>
      let take := min len (wiiBlockDataSize - within)
      let next := r'.wiiPartitionRead ((offset + take) % 2 ^ 64) (len - take)
      (next.1.map ((r'.cache.drop within).take take ++ ·), next.2)
  else (.ok [], r)
termination_by len
decreasing_by
  have : offset % wiiBlockDataSize < wiiBlockDataSize := Nat.mod_lt _ (by decide)
  omega

/-- Reads one after the other, each with the reader that the last one left. -/
def readAll (r : WiiPartitionReader) :
    List (Nat × Nat) → List (Except WiiStatus (List (BitVec 8))) × WiiPartitionReader
  | [] => ([], r)
  | (offset, len) :: calls =>
    let first := r.wiiPartitionRead offset len
    let rest := first.2.readAll calls
    (first.1 :: rest.1, rest.2)

end WiiPartitionReader

/-! ## The plaintext of a partition -/

/-- What a reader reads, without its cache: the file, where the groups start, and their key. -/
structure WiiPartition where
  disc : DiscFile
  dataStart : Nat
  titleKey : AesBlock

namespace WiiPartition

variable (p : WiiPartition) {offset len g : Nat}

/-- The number of groups that lie wholly inside the file. -/
def groupCount : Nat := (p.disc.size - p.dataStart) / wiiBlockSize

def payload (g : Nat) : List (BitVec 8) :=
  decryptGroup p.titleKey (p.disc.slice (p.dataStart + g * wiiBlockSize) wiiBlockSize)

def plaintext : List (BitVec 8) := (List.range p.groupCount).flatMap p.payload

/-- The reads of an uncached reader. -/
def readPlaintext (offset len : Nat) : Except WiiStatus (List (BitVec 8)) :=
  if len = 0 ∨ offset + len ≤ p.plaintext.length then .ok ((p.plaintext.drop offset).take len)
  else .error .io

theorem length_payload (g : Nat) : (p.payload g).length = wiiBlockDataSize := by
  have hBody : ((p.disc.slice (p.dataStart + g * wiiBlockSize) wiiBlockSize).drop
      wiiBlockHashSize).length = wiiBlockDataSize := by
    rw [List.length_drop, DiscFile.length_slice]
    rfl
  rw [payload, decryptGroup, length_aes128CbcDecrypt _ _ (by rw [hBody]; decide), hBody]

theorem length_plaintext : p.plaintext.length = p.groupCount * wiiBlockDataSize :=
  List.length_flatMap_range fun g _ => p.length_payload g

theorem group_inside_iff :
    p.dataStart + g * wiiBlockSize + wiiBlockSize ≤ p.disc.size ↔ g < p.groupCount := by
  rw [groupCount, Nat.lt_iff_add_one_le, Nat.le_div_iff_mul_le (by decide), Nat.add_mul]
  have : 0 < wiiBlockSize := by decide
  omega

theorem readPlaintext_zero (offset : Nat) : p.readPlaintext offset 0 = .ok [] := by
  simp [readPlaintext]

theorem readPlaintext_of_ge (hLen : 0 < len) (h : p.groupCount ≤ offset / wiiBlockDataSize) :
    p.readPlaintext offset len = .error .io := by
  have hEnd : p.groupCount * wiiBlockDataSize ≤ offset :=
    (Nat.le_div_iff_mul_le (by decide)).mp h
  rw [readPlaintext, if_neg]
  rw [length_plaintext]
  omega

/-- A read takes what the group of its first byte holds, and goes on behind it. -/
theorem readPlaintext_of_lt (h : offset / wiiBlockDataSize < p.groupCount) {take : Nat}
    (hLen : take ≤ len) (hTake : offset % wiiBlockDataSize + take ≤ wiiBlockDataSize)
    (hPos : 0 < take) :
    p.readPlaintext offset len = (p.readPlaintext (offset + take) (len - take)).map
      (((p.payload (offset / wiiBlockDataSize)).drop (offset % wiiBlockDataSize)).take take ++ ·) := by
  have hOffset := Nat.div_add_mod' offset wiiBlockDataSize
  have hSlice : (p.plaintext.drop offset).take take =
      ((p.payload (offset / wiiBlockDataSize)).drop (offset % wiiBlockDataSize)).take take := by
    have := List.take_drop_flatMap_range (fun g _ => p.length_payload g) h hTake
    rwa [hOffset] at this
  have hGroup : (offset / wiiBlockDataSize + 1) * wiiBlockDataSize ≤
      p.groupCount * wiiBlockDataSize := Nat.mul_le_mul_right _ h
  rw [Nat.add_mul, Nat.one_mul] at hGroup
  have hBounds : (len = 0 ∨ offset + len ≤ p.plaintext.length) ↔
      (len - take = 0 ∨ offset + take + (len - take) ≤ p.plaintext.length) := by
    rw [length_plaintext]
    omega
  have hSplit : (p.plaintext.drop offset).take len = (p.plaintext.drop offset).take take ++
      (p.plaintext.drop (offset + take)).take (len - take) := by
    rw [← List.drop_drop, ← List.take_add, Nat.add_sub_cancel' hLen]
  by_cases hInside : len = 0 ∨ offset + len ≤ p.plaintext.length
  · rw [readPlaintext, if_pos hInside, readPlaintext, if_pos (hBounds.mp hInside), Except.map,
      hSplit, hSlice]
  · rw [readPlaintext, if_neg hInside, readPlaintext, if_neg (mt hBounds.mpr hInside), Except.map]

/-- The reads of an uncached reader, one after the other. -/
def readAll (calls : List (Nat × Nat)) : List (Except WiiStatus (List (BitVec 8))) :=
  calls.map fun call => p.readPlaintext call.1 call.2

theorem eq_slice_of_readPlaintext {bytes : List (BitVec 8)}
    (h : p.readPlaintext offset len = .ok bytes) :
    bytes = (p.plaintext.drop offset).take len ∧ bytes.length = len := by
  unfold readPlaintext at h
  split at h
  · rename_i hInside
    obtain rfl := (Except.ok.inj h).symm
    refine ⟨rfl, ?_⟩
    rw [List.length_take, List.length_drop]
    omega
  · exact absurd h (by simp)

theorem readPlaintext_add (offset m n : Nat) :
    p.readPlaintext offset (m + n) = (do
      let xs ← p.readPlaintext offset m
      let ys ← p.readPlaintext (offset + m) n
      .ok (xs ++ ys)) := by
  have hSplit : (p.plaintext.drop offset).take (m + n) = (p.plaintext.drop offset).take m ++
      (p.plaintext.drop (offset + m)).take n := by
    rw [← List.drop_drop, ← List.take_add]
  simp only [readPlaintext, hSplit, bind, Except.bind]
  by_cases hm : m = 0 ∨ offset + m ≤ p.plaintext.length
  · by_cases hn : n = 0 ∨ offset + m + n ≤ p.plaintext.length
    · rw [if_pos hm, if_pos hn, if_pos (by omega)]
    · rw [if_pos hm, if_neg hn, if_neg (by omega)]
  · rw [if_neg hm, if_neg (by omega)]

end WiiPartition

/-! ## The reader refines the plaintext -/

namespace WiiPartitionReader

variable {r r' : WiiPartitionReader} {p : WiiPartition} {offset len : Nat}

def partition (r : WiiPartitionReader) : WiiPartition :=
  { disc := r.fp, dataStart := r.partitionOffset.toNat + r.dataOffset.toNat, titleKey := r.titleKey }

/-- A valid cache holds the payload of its group. -/
def CacheHolds (r : WiiPartitionReader) : Prop :=
  r.cacheValid = true → r.cache = r.partition.payload r.cachedGroup.toNat

/-- A reader of a partition: no address it computes wraps, and only a group of the file is
cached. -/
structure Reads (r : WiiPartitionReader) (p : WiiPartition) : Prop where
  partition_eq : r.partition = p
  offset_lt : r.partitionOffset.toNat < 2 ^ 63
  data_lt : r.dataOffset.toNat < 2 ^ 34
  cached_lt : r.cacheValid = true → r.cachedGroup.toNat < p.groupCount
  cache_holds : r.CacheHolds

theorem Reads.group_base (h : r.Reads p) (group : BitVec 32) :
    (r.partitionOffset + r.dataOffset + group.setWidth 64 * BitVec.ofNat 64 wiiBlockSize).toNat =
      p.dataStart + group.toNat * wiiBlockSize := by
  have hOffset := h.offset_lt
  have hData := h.data_lt
  have hGroup := group.isLt
  rw [← h.partition_eq]
  simp only [partition, BitVec.toNat_add, BitVec.toNat_mul, BitVec.toNat_setWidth,
    BitVec.toNat_ofNat, wiiBlockSize]
  omega

theorem Reads.fetchGroup_of_lt (h : r.Reads p) {group : BitVec 32}
    (hGroup : group.toNat < p.groupCount) :
    ∃ r', r.fetchGroup group = .ok r' ∧ r'.Reads p ∧ r'.cache = p.payload group.toNat := by
  by_cases hCached : r.cacheValid ∧ r.cachedGroup = group
  · refine ⟨r, by rw [fetchGroup, if_pos hCached], h, ?_⟩
    rw [h.cache_holds hCached.1, h.partition_eq, hCached.2]
  · have hRead := DiscFile.read_of_le (p.group_inside_iff.mpr hGroup)
    have hDisc : r.fp = p.disc := congrArg WiiPartition.disc h.partition_eq
    have hKey : r.titleKey = p.titleKey := congrArg WiiPartition.titleKey h.partition_eq
    have hPayload : decryptGroup r.titleKey
        (p.disc.slice (p.dataStart + group.toNat * wiiBlockSize) wiiBlockSize) =
        p.payload group.toNat := by
      rw [hKey, WiiPartition.payload]
    let enc := p.disc.slice (p.dataStart + group.toNat * wiiBlockSize) wiiBlockSize
    refine ⟨{ r with cache := decryptGroup r.titleKey enc, cachedGroup := group,
                     cacheValid := true }, ?_, ?_, hPayload⟩
    · simp only [fetchGroup, if_neg hCached, wiiReadAt, h.group_base, hDisc, hRead]
      rfl
    · exact { partition_eq := h.partition_eq, offset_lt := h.offset_lt, data_lt := h.data_lt,
              cached_lt := fun _ => hGroup,
              cache_holds := fun _ => hPayload.trans (by rw [← h.partition_eq]; rfl) }

theorem Reads.fetchGroup_of_ge (h : r.Reads p) {group : BitVec 32}
    (hGroup : p.groupCount ≤ group.toNat) : r.fetchGroup group = .error .io := by
  have hCached : ¬ (r.cacheValid ∧ r.cachedGroup = group) := by
    rintro ⟨hValid, rfl⟩
    exact absurd (h.cached_lt hValid) (Nat.not_lt.mpr hGroup)
  have hRead : p.disc.read (p.dataStart + group.toNat * wiiBlockSize) wiiBlockSize = none :=
    DiscFile.read_eq_none.mpr
      (Nat.not_le.mp fun hLe => absurd (p.group_inside_iff.mp hLe) (Nat.not_lt.mpr hGroup))
  have hDisc : r.fp = p.disc := congrArg WiiPartition.disc h.partition_eq
  simp only [fetchGroup, if_neg hCached, wiiReadAt, h.group_base, hDisc, hRead]

/-- The bytes that a group index of 32 bits reaches. -/
def addressable : Nat := 2 ^ 32 * wiiBlockDataSize

theorem Reads.wiiPartitionRead (h : r.Reads p) (hLen : offset + len ≤ addressable) :
    (r.wiiPartitionRead offset len).1 = p.readPlaintext offset len ∧
      (r.wiiPartitionRead offset len).2.Reads p := by
  induction len using Nat.strongRecOn generalizing r offset with
  | ind len ih =>
    unfold WiiPartitionReader.wiiPartitionRead
    by_cases hPos : 0 < len
    · have hGroup : (BitVec.ofNat 32 (offset / wiiBlockDataSize)).toNat =
          offset / wiiBlockDataSize := by
        rw [BitVec.toNat_ofNat, Nat.mod_eq_of_lt]
        rw [Nat.div_lt_iff_lt_mul (by decide)]
        exact Nat.lt_of_lt_of_le (by omega) hLen
      have hWithin : offset % wiiBlockDataSize < wiiBlockDataSize := Nat.mod_lt _ (by decide)
      simp only [dif_pos hPos]
      by_cases hLt : offset / wiiBlockDataSize < p.groupCount
      · obtain ⟨r', hFetch, hReads, hCache⟩ := h.fetchGroup_of_lt (by rwa [hGroup])
        obtain ⟨take, hTake⟩ :
            ∃ take, min len (wiiBlockDataSize - offset % wiiBlockDataSize) = take := ⟨_, rfl⟩
        have hWrap : (offset + take) % 2 ^ 64 = offset + take := by
          apply Nat.mod_eq_of_lt
          have : addressable < 2 ^ 64 := by decide
          omega
        have hRest : offset + take + (len - take) ≤ addressable := by omega
        have hFits : offset % wiiBlockDataSize + take ≤ wiiBlockDataSize := by omega
        obtain ⟨hValue, hNext⟩ := ih (len - take) (by omega) hReads hRest
        rw [p.readPlaintext_of_lt hLt (by omega) hFits (by omega)]
        simp only [hFetch, hCache, hGroup, hTake, hWrap, hValue, true_and]
        exact hNext
      · have hGe : p.groupCount ≤ offset / wiiBlockDataSize := Nat.not_lt.mp hLt
        rw [h.fetchGroup_of_ge (by rwa [hGroup]), p.readPlaintext_of_ge hPos hGe]
        exact ⟨rfl, h⟩
    · obtain rfl : len = 0 := by omega
      simp only [Nat.lt_irrefl, dif_neg, not_false_eq_true, p.readPlaintext_zero, h, and_self]

theorem Reads.readAll (h : r.Reads p) {calls : List (Nat × Nat)}
    (hCalls : ∀ call ∈ calls, call.1 + call.2 ≤ addressable) :
    (r.readAll calls).1 = p.readAll calls ∧ (r.readAll calls).2.Reads p := by
  induction calls generalizing r with
  | nil => exact ⟨rfl, h⟩
  | cons call calls ih =>
    obtain ⟨hValue, hNext⟩ := h.wiiPartitionRead (hCalls call (by simp))
    obtain ⟨hValues, hRest⟩ := ih hNext fun c hc => hCalls c (by simp [hc])
    refine ⟨?_, hRest⟩
    simp only [WiiPartitionReader.readAll, WiiPartition.readAll, List.map_cons, hValue, hValues]

theorem exists_open (disc : DiscFile) (partitionOffset : BitVec 64) (commonKey : AesBlock)
    (h : partitionOffset.toNat + 0x2C0 ≤ disc.size) :
    ∃ r, wiiPartitionOpen disc partitionOffset commonKey = .ok r := by
  simp only [wiiPartitionOpen, wiiReadAt, DiscFile.read_of_le h]
  exact ⟨_, rfl⟩

theorem reads_of_open {disc : DiscFile} {partitionOffset : BitVec 64} {commonKey : AesBlock}
    (h : wiiPartitionOpen disc partitionOffset commonKey = .ok r) : r.Reads r.partition := by
  cases hHeader : disc.read partitionOffset.toNat 0x2C0 with
  | none => simp [wiiPartitionOpen, wiiReadAt, hHeader, bind, Except.bind] at h
  | some hdr =>
    simp only [wiiPartitionOpen, wiiReadAt, hHeader, bind, Except.bind, Except.ok.injEq] at h
    have hInside := (DiscFile.read_eq_some.mp hHeader).1
    have hSize := disc.size_lt
    subst h
    refine { partition_eq := rfl, offset_lt := by simp only; omega, data_lt := ?_,
             cached_lt := by simp, cache_holds := by simp [CacheHolds] }
    simp only [BitVec.toNat_shiftLeft, BitVec.toNat_setWidth, Nat.shiftLeft_eq]
    omega

/-- The calls that read the parts of a range, in order. -/
def partsOf (offset : Nat) : List Nat → List (Nat × Nat)
  | [] => []
  | len :: lens => (offset, len) :: partsOf (offset + len) lens

/-- What the calls deliver together, if all of them succeed. -/
def joined (results : List (Except WiiStatus (List (BitVec 8)))) :
    Except WiiStatus (List (BitVec 8)) :=
  results.foldr (fun result rest => do
    let xs ← result
    let ys ← rest
    .ok (xs ++ ys)) (.ok [])

theorem joined_readAll_partsOf (p : WiiPartition) (offset : Nat) (lens : List Nat) :
    joined (p.readAll (partsOf offset lens)) = p.readPlaintext offset lens.sum := by
  induction lens generalizing offset with
  | nil => exact (p.readPlaintext_zero offset).symm
  | cons len lens ih =>
    rw [List.sum_cons, p.readPlaintext_add, ← ih (offset + len)]
    rfl

theorem addressable_partsOf {lens : List Nat} (h : offset + lens.sum ≤ addressable) :
    ∀ call ∈ partsOf offset lens, call.1 + call.2 ≤ addressable := by
  induction lens generalizing offset with
  | nil => simp [partsOf]
  | cons len lens ih =>
    rw [List.sum_cons] at h
    intro call hCall
    rcases List.mem_cons.mp hCall with rfl | hCall
    · exact Nat.le_trans (by simp only; omega) h
    · exact ih (by omega) call hCall

/-- After any calls on an opened reader: every result is the one of the plaintext, the cache
holds what it says, a read is the reads of its parts, and two reads commute. -/
theorem readAll_of_open {disc : DiscFile} {partitionOffset : BitVec 64} {commonKey : AesBlock}
    (hOpen : wiiPartitionOpen disc partitionOffset commonKey = .ok r)
    {calls : List (Nat × Nat)} (hCalls : ∀ call ∈ calls, call.1 + call.2 ≤ addressable) :
    (r.readAll calls).1 = r.partition.readAll calls ∧
    (∀ (i offset len : Nat) (bytes : List (BitVec 8)), calls[i]? = some (offset, len) →
      (r.readAll calls).1[i]? = some (.ok bytes) →
      bytes = (r.partition.plaintext.drop offset).take len ∧ bytes.length = len) ∧
    (r.readAll calls).2.partition = r.partition ∧ (r.readAll calls).2.CacheHolds ∧
    (∀ offset lens, offset + lens.sum ≤ addressable →
      ((r.readAll calls).2.wiiPartitionRead offset lens.sum).1 =
        joined ((r.readAll calls).2.readAll (partsOf offset lens)).1) ∧
    (∀ c d : Nat × Nat, c.1 + c.2 ≤ addressable → d.1 + d.2 ≤ addressable →
      ((r.readAll calls).2.readAll [c, d]).1 = (((r.readAll calls).2.readAll [d, c]).1).reverse) := by
  obtain ⟨hResults, hReads⟩ := (reads_of_open hOpen).readAll hCalls
  refine ⟨hResults, ?_, hReads.partition_eq, hReads.cache_holds, ?_, ?_⟩
  · intro i offset len bytes hCall hResult
    rw [hResults, WiiPartition.readAll, List.getElem?_map, hCall] at hResult
    exact r.partition.eq_slice_of_readPlaintext (Option.some.inj hResult)
  · intro offset lens hLens
    rw [(hReads.wiiPartitionRead hLens).1, (hReads.readAll (addressable_partsOf hLens)).1,
      joined_readAll_partsOf]
  · intro c d hc hd
    have hBoth : ∀ x ∈ [c, d], x.1 + x.2 ≤ addressable := by simp [hc, hd]
    have hSwapped : ∀ x ∈ [d, c], x.1 + x.2 ≤ addressable := by simp [hc, hd]
    rw [(hReads.readAll hBoth).1, (hReads.readAll hSwapped).1]
    rfl

/-- A partition of two groups, with no hash and no ticket. -/
def blankDisc : DiscFile := { size := 0x10000, byteAt := fun _ => 0, size_lt := by decide }

theorem readAll_blankDisc :
    ∃ r, wiiPartitionOpen blankDisc 0 (Vector.replicate 16 0) = .ok r ∧
      (r.readAll [(0x7BFF, 2), (5, 3)]).1 = r.partition.readAll [(0x7BFF, 2), (5, 3)] := by
  obtain ⟨r, hr⟩ := exists_open blankDisc 0 (Vector.replicate 16 0) (by decide)
  exact ⟨r, hr, (readAll_of_open hr (by decide)).1⟩

end WiiPartitionReader

end Calynda.Decompiler
