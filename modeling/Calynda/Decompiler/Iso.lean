import Calynda.Decompiler.Disc

/-!
# Probing disc images

The loader recognises a disc by the magic words of its header and lists the partitions of a
Wii disc from the four tables of the partition info area. The info area stores every offset
divided by four: the offset of a table is scaled in 64 bits, the offset of a partition in 32.
-/

namespace Calynda.Decompiler

inductive IsoFormat where
  | unknown
  | gamecube
  | wii
  deriving DecidableEq, Repr

inductive IsoStatus where
  | ok
  | nullArg
  | io
  | tooSmall
  | unknownFormat
  | encrypted
  deriving DecidableEq, Repr

structure IsoWiiPartition where
  offset : BitVec 32
  type : BitVec 32
  deriving DecidableEq, Repr

/-- What a probe fills in; both texts end in a zero byte. -/
structure IsoInfo where
  format : IsoFormat := .unknown
  gameId : List (BitVec 8) := List.replicate 7 0
  gameTitle : List (BitVec 8) := List.replicate 65 0
  gcDolOffset : BitVec 32 := 0
  wiiPartitions : List IsoWiiPartition := []
  deriving DecidableEq, Repr

def wiiMagic : BitVec 32 := 0x5D1C9EA3
def gcMagic : BitVec 32 := 0xC2339F3D
def wiiPartTableAt : Nat := 0x40000

def isoReadAt (disc : DiscFile) (off n : Nat) : Except IsoStatus (List (BitVec 8)) :=
  match disc.read off n with
  | some bytes => .ok bytes
  | none => .error .io

/-- Appends the first records of a table, until the array of partitions is full. -/
def probeRecords (records : List (BitVec 8)) (count : Nat) (partitions : List IsoWiiPartition) :
    List IsoWiiPartition :=
  (List.range count).foldl (fun ps r =>
    if 32 ≤ ps.length then ps
    else ps ++ [{ offset := be32 records (r * 8) <<< 2, type := be32 records (r * 8 + 4) }])
    partitions

def probeTable (disc : DiscFile) (table : List (BitVec 8)) (partitions : List IsoWiiPartition)
    (i : Nat) : List IsoWiiPartition :=
  let count := be32 table (i * 8)
  let tbl := (be32 table (i * 8 + 4)).setWidth 64 <<< 2
  if count = 0 ∨ 8 < count then partitions
  else
    match isoReadAt disc tbl.toNat (count.toNat * 8) with
    | .error _ => partitions
    | .ok records => probeRecords records count.toNat partitions

def probeWiiPartitions (disc : DiscFile) : Except IsoStatus (List IsoWiiPartition) := do
  let table ← isoReadAt disc wiiPartTableAt 0x20
  .ok ((List.range 4).foldl (probeTable disc table) [])

def isoProbe (disc : DiscFile) : IsoStatus × IsoInfo :=
  match isoReadAt disc 0 0x440 with
  | .error _ => (.tooSmall, {})
  | .ok hdr =>
    let info : IsoInfo :=
      { gameId := hdr.take 6 ++ [0], gameTitle := (hdr.drop 0x20).take 64 ++ [0] }
    if be32 hdr 0x18 = wiiMagic then
      -- a failed read of the info area is not reported
      let partitions := (probeWiiPartitions disc).toOption.getD []
      (.ok, { info with format := .wii, wiiPartitions := partitions })
    else if be32 hdr 0x1C = gcMagic then
      (.ok, { info with format := .gamecube, gcDolOffset := be32 hdr 0x420 })
    else (.unknownFormat, info)

/-! ## The partition info area -/

namespace DiscFile

variable {disc : DiscFile} {i : Nat}

def tableCount (disc : DiscFile) (i : Nat) : Nat :=
  (disc.wordAt (wiiPartTableAt + 8 * i)).toNat

def tableOffset (disc : DiscFile) (i : Nat) : Nat :=
  4 * (disc.wordAt (wiiPartTableAt + 8 * i + 4)).toNat

/-- The records of one table: a partition's offset divided by four, and its type. -/
def tableRecords (disc : DiscFile) (i : Nat) : List (BitVec 32 × BitVec 32) :=
  (List.range (disc.tableCount i)).map fun r =>
    (disc.wordAt (disc.tableOffset i + 8 * r), disc.wordAt (disc.tableOffset i + 8 * r + 4))

def partitionRecords (disc : DiscFile) : List (BitVec 32 × BitVec 32) :=
  (List.range 4).flatMap disc.tableRecords

/-- What the probe keeps of a record. -/
def probedPartition (record : BitVec 32 × BitVec 32) : IsoWiiPartition :=
  { offset := record.1 <<< 2, type := record.2 }

/-- A Wii disc with its partition info area: a table that is there has at most eight records,
all of them inside the file. -/
structure HasPartitionInfo (disc : DiscFile) : Prop where
  magic : disc.wordAt 0x18 = wiiMagic
  info_inside : wiiPartTableAt + 0x20 ≤ disc.size
  count_le : ∀ i < 4, disc.tableCount i ≤ 8
  table_inside : ∀ i < 4, disc.tableCount i ≠ 0 →
    disc.tableOffset i + 8 * disc.tableCount i ≤ disc.size

/-- The probe lists the records of the tables, each with the byte offset it stands for. -/
def ProbesPartitions (disc : DiscFile) : Prop :=
  ∃ info, isoProbe disc = (.ok, info) ∧
    info.wiiPartitions.map (fun p => (p.offset.toNat, p.type)) =
      disc.partitionRecords.map fun record => (4 * record.1.toNat, record.2)

theorem probeRecords_slice (disc : DiscFile) (off : Nat) {count : Nat}
    {ps : List IsoWiiPartition} (h : ps.length + count ≤ 32) :
    probeRecords (disc.slice off (count * 8)) count ps =
      ps ++ (List.range count).map fun r =>
        { offset := disc.wordAt (off + 8 * r) <<< 2, type := disc.wordAt (off + 8 * r + 4) } := by
  suffices H : ∀ n ≤ count, (List.range n).foldl (fun ps r =>
      if 32 ≤ ps.length then ps
      else ps ++ [{ offset := be32 (disc.slice off (count * 8)) (r * 8) <<< 2,
                    type := be32 (disc.slice off (count * 8)) (r * 8 + 4) }]) ps =
      ps ++ (List.range n).map fun r =>
        { offset := disc.wordAt (off + 8 * r) <<< 2, type := disc.wordAt (off + 8 * r + 4) } from
    H count (Nat.le_refl count)
  intro n hn
  induction n with
  | zero => simp
  | succ n ih =>
    have hOffset : be32 (disc.slice off (count * 8)) (n * 8) = disc.wordAt (off + 8 * n) := by
      rw [be32, readU32Be_slice disc off (by omega), Nat.mul_comm]
    have hType : be32 (disc.slice off (count * 8)) (n * 8 + 4) = disc.wordAt (off + 8 * n + 4) := by
      rw [be32, readU32Be_slice disc off (by omega), Nat.mul_comm, Nat.add_assoc]
    have hRoom : ¬ 32 ≤ ps.length + n := by omega
    rw [List.range_succ, List.foldl_append, ih (by omega)]
    simp [hOffset, hType, hRoom]

theorem be32_table (disc : DiscFile) {k : Nat} (h : k + 4 ≤ 0x20) :
    be32 (disc.slice wiiPartTableAt 0x20) k = disc.wordAt (wiiPartTableAt + k) :=
  readU32Be_slice disc wiiPartTableAt h

theorem toNat_shifted (x : BitVec 32) : (x.setWidth 64 <<< 2).toNat = 4 * x.toNat := by
  simp only [BitVec.toNat_shiftLeft, BitVec.toNat_setWidth]
  have := x.isLt
  omega

theorem probeTable_eq (h : disc.HasPartitionInfo) (hi : i < 4) {ps : List IsoWiiPartition}
    (hRoom : ps.length + disc.tableCount i ≤ 32) :
    probeTable disc (disc.slice wiiPartTableAt 0x20) ps i =
      ps ++ (disc.tableRecords i).map probedPartition := by
  have hCount : be32 (disc.slice wiiPartTableAt 0x20) (i * 8) =
      disc.wordAt (wiiPartTableAt + 8 * i) := by
    rw [be32_table disc (by omega), Nat.mul_comm]
  have hOffset : ((be32 (disc.slice wiiPartTableAt 0x20) (i * 8 + 4)).setWidth 64 <<< 2).toNat =
      disc.tableOffset i := by
    rw [be32_table disc (by omega), toNat_shifted, tableOffset, Nat.mul_comm i 8, Nat.add_assoc]
  have hNat : (disc.wordAt (wiiPartTableAt + 8 * i)).toNat = disc.tableCount i := rfl
  have hLe := h.count_le i hi
  simp only [probeTable, hCount, hOffset]
  by_cases hZero : disc.tableCount i = 0
  · have hAbsent : disc.wordAt (wiiPartTableAt + 8 * i) = 0 := BitVec.eq_of_toNat_eq hZero
    rw [if_pos (Or.inl hAbsent), tableRecords, hZero]
    simp
  · have hPresent : ¬ (disc.wordAt (wiiPartTableAt + 8 * i) = 0 ∨
        8 < disc.wordAt (wiiPartTableAt + 8 * i)) := by
      rintro (h0 | h8)
      · exact hZero (by rw [← hNat, h0]; rfl)
      · rw [BitVec.lt_def, hNat] at h8
        exact absurd h8 (Nat.not_lt.mpr hLe)
    have hInside := h.table_inside i hi hZero
    rw [if_neg hPresent, hNat, isoReadAt, read_of_le (by omega)]
    simp only [probeRecords_slice disc (disc.tableOffset i) hRoom, tableRecords, List.map_map]
    rfl

theorem length_tableRecords (disc : DiscFile) (i : Nat) :
    (disc.tableRecords i).length = disc.tableCount i := by
  simp [tableRecords]

theorem probeWiiPartitions_eq (h : disc.HasPartitionInfo) :
    probeWiiPartitions disc = .ok (disc.partitionRecords.map probedPartition) := by
  have hTables : ∀ n ≤ 4,
      (List.range n).foldl (probeTable disc (disc.slice wiiPartTableAt 0x20)) [] =
        ((List.range n).flatMap disc.tableRecords).map probedPartition ∧
      ((List.range n).flatMap disc.tableRecords).length ≤ 8 * n := by
    intro n hn
    induction n with
    | zero => simp
    | succ n ih =>
      obtain ⟨hEq, hLen⟩ := ih (by omega)
      have hLe := h.count_le n (by omega)
      constructor
      · rw [List.range_succ, List.foldl_append, hEq, List.foldl_cons, List.foldl_nil,
          probeTable_eq h (by omega) (by rw [List.length_map]; omega)]
        simp
      · rw [List.range_succ, List.flatMap_append, List.length_append]
        simp only [List.flatMap_cons, List.flatMap_nil, List.append_nil, length_tableRecords]
        omega
  have hRead := read_of_le h.info_inside
  simp only [probeWiiPartitions, isoReadAt, hRead, bind, Except.bind, (hTables 4 (Nat.le_refl _)).1,
    partitionRecords]

theorem isoProbe_of_hasPartitionInfo (h : disc.HasPartitionInfo) :
    ∃ info, isoProbe disc = (.ok, info) ∧ info.format = .wii ∧
      info.wiiPartitions = disc.partitionRecords.map probedPartition := by
  have hHeader : 0 + 0x440 ≤ disc.size :=
    Nat.le_trans (by decide : 0 + 0x440 ≤ wiiPartTableAt + 0x20) h.info_inside
  have hMagic : be32 (disc.slice 0 0x440) 0x18 = wiiMagic := by
    rw [be32, readU32Be_slice disc 0 (by decide)]
    exact h.magic
  simp only [isoProbe, isoReadAt, read_of_le hHeader, hMagic, if_true, probeWiiPartitions_eq h]
  exact ⟨_, rfl, rfl, rfl⟩

theorem toNat_shiftLeft_two_eq (x : BitVec 32) :
    (x <<< 2).toNat = 4 * x.toNat ↔ x.toNat < 2 ^ 30 := by
  rw [BitVec.toNat_shiftLeft, Nat.shiftLeft_eq]
  have := x.isLt
  omega

/-- The scaling in 32 bits is right for the partitions below 4 GiB only. -/
theorem probesPartitions_iff (h : disc.HasPartitionInfo) :
    disc.ProbesPartitions ↔ ∀ record ∈ disc.partitionRecords, record.1.toNat < 2 ^ 30 := by
  obtain ⟨info, hProbe, -, hList⟩ := isoProbe_of_hasPartitionInfo h
  have hIff : disc.ProbesPartitions ↔
      info.wiiPartitions.map (fun p => (p.offset.toNat, p.type)) =
        disc.partitionRecords.map fun record => (4 * record.1.toNat, record.2) := by
    constructor
    · rintro ⟨info', hProbe', hEq⟩
      rw [hProbe, Prod.mk.injEq] at hProbe'
      rw [hProbe'.2]
      exact hEq
    · exact fun hEq => ⟨info, hProbe, hEq⟩
  rw [hIff, hList, List.map_map, List.map_inj_left]
  constructor
  · intro hEq record hMem
    exact (toNat_shiftLeft_two_eq record.1).mp (congrArg Prod.fst (hEq record hMem))
  · intro hSmall record hMem
    exact Prod.ext ((toNat_shiftLeft_two_eq record.1).mpr (hSmall record hMem)) rfl

/-- Four tables of one record each, all of them the same: a partition that starts at 4 GiB. -/
def farDisc : DiscFile where
  size := 0x100008000
  size_lt := by decide
  byteAt k :=
    if k = 0x18 then 0x5D else if k = 0x19 then 0x1C else if k = 0x1A then 0x9E
    else if k = 0x1B then 0xA3
    else if 0x40000 ≤ k ∧ k < 0x40020 then
      if k % 8 = 3 then 1 else if k % 8 = 5 then 1 else if k % 8 = 7 then 8 else 0
    else if k = 0x40020 then 0x40
    else 0

theorem farDisc_hasPartitionInfo : farDisc.HasPartitionInfo where
  magic := by decide
  info_inside := by decide
  count_le := by decide
  table_inside := by decide

theorem probesPartitions_farDisc_iff :
    farDisc.ProbesPartitions ↔ ∀ record ∈ farDisc.partitionRecords, record.1.toNat < 2 ^ 30 :=
  probesPartitions_iff farDisc_hasPartitionInfo

theorem not_probesPartitions_farDisc :
    farDisc.HasPartitionInfo ∧ (∀ i < 4, 1 ≤ farDisc.tableCount i ∧ farDisc.tableCount i ≤ 8) ∧
      ¬ farDisc.ProbesPartitions := by
  refine ⟨farDisc_hasPartitionInfo, by decide, fun h => ?_⟩
  obtain ⟨info, hProbe, -, hList⟩ := isoProbe_of_hasPartitionInfo farDisc_hasPartitionInfo
  obtain ⟨info', hProbe', hEq⟩ := h
  rw [hProbe, Prod.mk.injEq] at hProbe'
  rw [← hProbe'.2, hList] at hEq
  exact absurd hEq (by decide)

end DiscFile

end Calynda.Decompiler
