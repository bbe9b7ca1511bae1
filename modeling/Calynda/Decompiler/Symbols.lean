/-!
# Symbol tables

The entries of a symbol file, sorted by address, with the searches over them.
-/

namespace Calynda.Decompiler

structure SymEntry where
  vaddr : BitVec 32
  size : BitVec 32 := 0
  name : String
  deriving DecidableEq, Repr

instance : Inhabited SymEntry := ⟨{ vaddr := 0, name := "" }⟩

def symLookupIn (syms : List SymEntry) (vaddr : BitVec 32) (lo hi : Nat) : Option String :=
  if _ : lo < hi then
    let mid := lo + (hi - lo) / 2
    let e := syms.getD mid default
    if e.vaddr = vaddr then some e.name
    else if e.vaddr < vaddr then symLookupIn syms vaddr (mid + 1) hi
    else symLookupIn syms vaddr lo mid
  else none
termination_by hi - lo

/-- The name of the entry at an address. -/
def symLookup (syms : List SymEntry) (vaddr : BitVec 32) : Option String :=
  symLookupIn syms vaddr 0 syms.length

def symFindByName (syms : List SymEntry) (name : String) : Option SymEntry :=
  syms.find? fun e => e.name = name

/-- The number of entries at or below an address. -/
def symCoveringIn (syms : List SymEntry) (addr : BitVec 32) (lo hi : Nat) : Nat :=
  if _ : lo < hi then
    let mid := lo + (hi - lo) / 2
    if (syms.getD mid default).vaddr ≤ addr then symCoveringIn syms addr (mid + 1) hi
    else symCoveringIn syms addr lo mid
  else lo
termination_by hi - lo

def symSize (e : SymEntry) : BitVec 32 := if e.size = 0 then 4 else e.size

/-- The last entry at or below an address, if the address lies in it. -/
def symCovering (syms : List SymEntry) (addr : BitVec 32) : Option SymEntry :=
  let lo := symCoveringIn syms addr 0 syms.length
  if lo = 0 then none
  else
    let e := syms.getD (lo - 1) default
    if addr < e.vaddr + symSize e then some e else none

/-- The digits that the formats %x and %08x print. -/
def hexDigits (x : BitVec 32) : String := String.ofList (Nat.toDigits 16 x.toNat)

def hex8 (x : BitVec 32) : String :=
  String.ofList ((Nat.toDigits 16 x.toNat).leftpad 8 '0')

end Calynda.Decompiler
