import Calynda.Decompiler.Dol
import Mathlib.Algebra.Group.Nat.Defs

/-!
# Disc files

A disc image is read through a seekable file. The file is a fixed string of bytes; a read that
does not lie inside it fails and delivers nothing.
-/

namespace Calynda.Decompiler

/-- The big-endian reader of the disc loader and of the partition reader. -/
def be32 (bytes : List (BitVec 8)) (offset : Nat) : BitVec 32 := readU32Be bytes offset

/-- The size of a file is an `off_t`. -/
structure DiscFile where
  size : Nat
  byteAt : Nat → BitVec 8
  size_lt : size < 2 ^ 63

namespace DiscFile

variable {disc : DiscFile} {bytes : List (BitVec 8)} {off n k : Nat}

def slice (disc : DiscFile) (off n : Nat) : List (BitVec 8) :=
  (List.range n).map fun i => disc.byteAt (off + i)

-- `fseek` rejects an offset that is negative as a signed word, and no such offset is inside.
def read (disc : DiscFile) (off n : Nat) : Option (List (BitVec 8)) :=
  if off + n ≤ disc.size then some (disc.slice off n) else none

/-- The big-endian word at a place of the file. -/
def wordAt (disc : DiscFile) (off : Nat) : BitVec 32 :=
  disc.byteAt off ++ disc.byteAt (off + 1) ++ disc.byteAt (off + 2) ++ disc.byteAt (off + 3)

@[simp] theorem length_slice (disc : DiscFile) (off n : Nat) : (disc.slice off n).length = n := by
  simp [slice]

theorem getElem?_slice (disc : DiscFile) (off : Nat) (h : k < n) :
    (disc.slice off n)[k]? = some (disc.byteAt (off + k)) := by
  simp [slice, h]

theorem getD_slice (disc : DiscFile) (off : Nat) (h : k < n) :
    (disc.slice off n).getD k 0 = disc.byteAt (off + k) := by
  rw [List.getD_eq_getElem?_getD, getElem?_slice disc off h, Option.getD_some]

theorem take_slice (disc : DiscFile) (off : Nat) (h : k ≤ n) :
    (disc.slice off n).take k = disc.slice off k := by
  rw [slice, ← List.map_take, List.take_range, Nat.min_eq_left h, slice]

theorem read_eq_some :
    disc.read off n = some bytes ↔ off + n ≤ disc.size ∧ bytes = disc.slice off n := by
  simp only [read]
  split <;> rename_i h <;> simp [h, eq_comm]

theorem read_eq_none : disc.read off n = none ↔ disc.size < off + n := by
  simp [read]

theorem read_of_le (h : off + n ≤ disc.size) : disc.read off n = some (disc.slice off n) :=
  read_eq_some.mpr ⟨h, rfl⟩

theorem readU32Be_slice (disc : DiscFile) (off : Nat) (h : k + 4 ≤ n) :
    readU32Be (disc.slice off n) k = disc.wordAt (off + k) := by
  unfold readU32Be wordAt
  rw [getD_slice disc off (by omega), getD_slice disc off (by omega),
    getD_slice disc off (by omega), getD_slice disc off (by omega)]
  simp only [Nat.add_assoc]

end DiscFile

end Calynda.Decompiler
