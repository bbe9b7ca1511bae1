import Mathlib.Algebra.Group.Nat.Defs

/-!
# DOL images

The loader of an executable: up to 7 text and 11 data sections, each mapped from a range of
the file to a range of virtual addresses.
-/

namespace Calynda.Decompiler

inductive DolStatus where
  | tooSmall
  | badSection
  | overflow
  | misaligned
  | noEntrypoint
  deriving DecidableEq, Repr

inductive DolSectionKind where
  | text
  | data
  deriving DecidableEq, Repr

structure DolSection where
  kind : DolSectionKind
  index : Nat
  fileOffset : BitVec 32
  virtualAddr : BitVec 32
  size : BitVec 32
  deriving DecidableEq, Repr

structure DolImage where
  bytes : List (BitVec 8)
  entrypoint : BitVec 32
  bssAddr : BitVec 32
  bssSize : BitVec 32
  sections : List DolSection
  deriving Repr

def dolHeaderSize : Nat := 0x100

def readU32Be (bytes : List (BitVec 8)) (offset : Nat) : BitVec 32 :=
  bytes.getD offset 0 ++ bytes.getD (offset + 1) 0 ++ bytes.getD (offset + 2) 0 ++
    bytes.getD (offset + 3) 0

def pushSection (sections : List DolSection) (kind : DolSectionKind) (index : Nat)
    (off addr size : BitVec 32) (fileSize : Nat) : Except DolStatus (List DolSection) :=
  if size = 0 then .ok sections
  else if off &&& 3 ≠ 0 ∨ addr &&& 3 ≠ 0 ∨ size &&& 3 ≠ 0 then .error .misaligned
  else if 2 ^ 32 ≤ off.toNat + size.toNat then .error .overflow
  else if fileSize < off.toNat + size.toNat then .error .badSection
  else if 2 ^ 32 ≤ addr.toNat + size.toNat then .error .overflow
  else
    let s : DolSection :=
      { kind := kind, index := index, fileOffset := off, virtualAddr := addr, size := size }
    .ok (sections ++ [s])

/-- Reads the slots of one kind of section, whose header fields start at the three offsets. -/
def pushSections (bytes : List (BitVec 8)) (kind : DolSectionKind) (offsetsAt addrsAt sizesAt : Nat)
    (count : Nat) (sections : List DolSection) : Except DolStatus (List DolSection) :=
  (List.range count).foldlM (fun sections i =>
    pushSection sections kind i (readU32Be bytes (offsetsAt + 4 * i))
      (readU32Be bytes (addrsAt + 4 * i)) (readU32Be bytes (sizesAt + 4 * i)) bytes.length)
    sections

def dolSectionForVaddr (sections : List DolSection) (vaddr : BitVec 32) : Option DolSection :=
  sections.find? fun s => s.virtualAddr ≤ vaddr ∧ vaddr < s.virtualAddr + s.size

def dolParse (bytes : List (BitVec 8)) : Except DolStatus DolImage := do
  if bytes.length < dolHeaderSize then .error .tooSmall
  let sections ← pushSections bytes .text 0x00 0x48 0x90 7 []
  let sections ← pushSections bytes .data 0x1C 0x64 0xAC 11 sections
  let entrypoint := readU32Be bytes 0xE0
  match dolSectionForVaddr sections entrypoint with
  | some { kind := .text, .. } =>
    .ok { bytes := bytes, entrypoint := entrypoint, bssAddr := readU32Be bytes 0xD8,
          bssSize := readU32Be bytes 0xDC, sections := sections }
  | _ => .error .noEntrypoint

/-- The place of an address in the file, with the number of bytes left in its section. -/
def dolVaddrToPtr (img : DolImage) (vaddr : BitVec 32) : Option (Nat × Nat) :=
  (dolSectionForVaddr img.sections vaddr).map fun s =>
    let delta := vaddr - s.virtualAddr
    (s.fileOffset.toNat + delta.toNat, (s.size - delta).toNat)

/-- The big-endian word at an address, if it is mapped. -/
def cfgReadWord (img : DolImage) (vaddr : BitVec 32) : Option (BitVec 32) :=
  match dolVaddrToPtr img vaddr with
  | some (offset, remaining) => if remaining < 4 then none else some (readU32Be img.bytes offset)
  | none => none

end Calynda.Decompiler
