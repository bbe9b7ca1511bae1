import Calynda.Decompiler.Image
import Calynda.Decompiler.Ppc
import Calynda.Decompiler.Symbols

/-!
# Word-by-word scans of an image

The analyses that look at every instruction walk over the text sections four bytes at a time,
with no other bound than the size of the section. Here every read is checked against the file,
and a walk that does not come to its end runs out of fuel: over an image that the parser
accepted neither happens.
-/

namespace Calynda.Decompiler

inductive MemFault where
  | outOfBounds
  | outOfFuel
  deriving DecidableEq, Repr

/-- A read of four bytes, which have to lie in the file. -/
def loadWord (bytes : List (BitVec 8)) (offset : Nat) : Except MemFault (BitVec 32) :=
  if offset + 4 ≤ bytes.length then .ok (readU32Be bytes offset) else .error .outOfBounds

section Walk

variable {σ : Type} (visit : σ → BitVec 32 → BitVec 32 → σ)

/-- The loop over one section. The offset is a word: it wraps behind the last word of it. -/
def scanWords (bytes : List (BitVec 8)) (s : DolSection) :
    Nat → BitVec 32 → σ → Except MemFault σ
  | 0, _, _ => .error .outOfFuel
  | fuel + 1, off, st =>
    if off < s.size then do
      let word ← loadWord bytes (s.fileOffset.toNat + off.toNat)
      scanWords bytes s fuel (off + 4) (visit st (s.virtualAddr + off) word)
    else .ok st

def scanText (fuel : Nat) (img : DolImage) (st : σ) : Except MemFault σ :=
  img.sections.foldlM (fun st s =>
    if s.kind = .text then scanWords visit img.bytes s fuel 0 st else .ok st) st

end Walk

/-! ## The three scans -/

structure ExternSymbol where
  vaddr : BitVec 32
  module : String
  name : String
  rawName : String
  calSig : String
  isVariadic : Bool
  isUnmapped : Bool
  deriving DecidableEq, Repr

def inText (img : DolImage) (vaddr : BitVec 32) : Bool :=
  (dolSectionForVaddr img.sections vaddr).any fun s => s.kind = .text

def alreadyHave (entries : List ExternSymbol) (vaddr : BitVec 32) : Bool :=
  entries.any fun e => e.vaddr = vaddr

/-- A call whose target is in no text section is an external, once. -/
def visitExtern (img : DolImage) (entries : List ExternSymbol) (vaddr word : BitVec 32) :
    List ExternSymbol :=
  let insn := ppcDecode word vaddr
  if insn.op ≠ .bl ∧ insn.op ≠ .bla then entries
  else if inText img insn.target ∨ alreadyHave entries insn.target then entries
  else
    entries ++ [{ vaddr := insn.target, module := "unmapped", name := "sub_" ++ hex8 insn.target,
                  rawName := "sub_" ++ hex8 insn.target, calSig := "fn(...args) -> ()",
                  isVariadic := true, isUnmapped := true }]

/-- The scan of the inventory builder, from the entries that the symbols gave. -/
def externsScan (fuel : Nat) (img : DolImage) (entries : List ExternSymbol) :
    Except MemFault (List ExternSymbol) :=
  scanText (visitExtern img) fuel img entries

def visitCall (syms : List SymEntry) (lines : List String) (vaddr word : BitVec 32) :
    List String :=
  let insn := ppcDecode word vaddr
  if insn.op ≠ .bl ∧ insn.op ≠ .bla then lines
  else
    let caller := ((symCovering syms vaddr).map (·.name)).getD ("0x" ++ hex8 vaddr)
    let callee := (symLookup syms insn.target).getD ("0x" ++ hex8 insn.target)
    lines ++ [caller ++ " -> " ++ callee ++ "\n"]

/-- The lines of the call graph, one for each edge; none without symbols. -/
def emitCallGraph (fuel : Nat) (img : DolImage) (syms : List SymEntry) :
    Except MemFault (Option (List String)) :=
  if syms = [] then .ok none else do .ok (some (← scanText (visitCall syms) fuel img []))

def isDirectBranch (op : PpcOp) : Bool :=
  op = .b ∨ op = .ba ∨ op = .bl ∨ op = .bla ∨ op = .bc

def visitXref (syms : List SymEntry) (tstart tend : BitVec 32) (lines : List String)
    (vaddr word : BitVec 32) : List String :=
  let insn := ppcDecode word vaddr
  if ¬ isDirectBranch insn.op then lines
  else if insn.target < tstart ∨ tend ≤ insn.target then lines
  else
    let kind := if insn.op = .bl ∨ insn.op = .bla then "bl" else "b"
    let site := "  0x" ++ hex8 vaddr ++ "  " ++ kind ++ "  from "
    match symCovering syms vaddr with
    | some caller => lines ++ [site ++ caller.name ++ "+0x" ++ hexDigits (vaddr - caller.vaddr) ++ "\n"]
    | none => lines ++ [site ++ "0x" ++ hex8 vaddr ++ "\n"]

/-- The lines about the branches to a symbol; none if there is no such symbol. -/
def emitXrefs (fuel : Nat) (img : DolImage) (syms : List SymEntry) (targetName : String) :
    Except MemFault (Option (List String)) :=
  match symFindByName syms targetName with
  | none => .ok none
  | some target => do
    let tstart := target.vaddr
    let tend := target.vaddr + symSize target
    let header := "\ncross-references to " ++ targetName ++ " (0x" ++ hex8 tstart ++ "..0x" ++
      hex8 tend ++ "):\n"
    let lines ← scanText (visitXref syms tstart tend) fuel img []
    .ok (some (header :: lines ++ ["\n" ++ toString lines.length ++ " xref(s) found.\n"]))

/-! ## The word readers -/

/-- The word reader of the graph builder, with its read checked. -/
def cfgReadWordIn (img : DolImage) (vaddr : BitVec 32) :
    Except MemFault (Option (BitVec 32)) :=
  match dolVaddrToPtr img vaddr with
  | some (offset, remaining) =>
    if remaining < 4 then .ok none else (loadWord img.bytes offset).map some
  | none => .ok none

/-- The word reader of the class recovery, which is the same. -/
def classesReadBe32 (img : DolImage) (vaddr : BitVec 32) :
    Except MemFault (Option (BitVec 32)) :=
  match dolVaddrToPtr img vaddr with
  | none => .ok none
  | some (offset, remaining) =>
    if remaining < 4 then .ok none else (loadWord img.bytes offset).map some

/-! ## No scan leaves the file -/

/-- The addresses and words of a section, in order. -/
def sectionWords (bytes : List (BitVec 8)) (s : DolSection) : List (BitVec 32 × BitVec 32) :=
  (List.range (s.size.toNat / 4)).map fun i =>
    (s.virtualAddr + BitVec.ofNat 32 (4 * i), readU32Be bytes (s.fileOffset.toNat + 4 * i))

/-- More steps than any section has words. -/
def scanFuel : Nat := 2 ^ 30

section Runs

variable {σ : Type} {visit : σ → BitVec 32 → BitVec 32 → σ} {bytes : List (BitVec 8)}
  {s : DolSection} {fuel : Nat} {img : DolImage}

theorem loadWord_of_le {offset : Nat} (h : offset + 4 ≤ bytes.length) :
    loadWord bytes offset = .ok (readU32Be bytes offset) := if_pos h

/-- From its word i on, the loop visits the words that are left. -/
theorem scanWords_from (h : s.Fits bytes.length) {left i : Nat}
    (hLeft : i + left = s.size.toNat / 4) (hFuel : left < fuel) (st : σ) :
    scanWords visit bytes s fuel (BitVec.ofNat 32 (4 * i)) st =
      .ok (((List.range' i left).map fun i =>
        (s.virtualAddr + BitVec.ofNat 32 (4 * i),
          readU32Be bytes (s.fileOffset.toNat + 4 * i))).foldl
        (fun st w => visit st w.1 w.2) st) := by
  have hSize := h.size_aligned
  have hFile := h.file_lt
  have hInside := h.inside_file
  induction left generalizing i fuel st with
  | zero =>
    obtain ⟨fuel, rfl⟩ : ∃ f, fuel = f + 1 := ⟨fuel - 1, by omega⟩
    have hEnd : ¬ BitVec.ofNat 32 (4 * i) < s.size := by
      rw [BitVec.lt_def, BitVec.toNat_ofNat]
      omega
    rw [scanWords, if_neg hEnd]
    rfl
  | succ left ih =>
    obtain ⟨fuel, rfl⟩ : ∃ f, fuel = f + 1 := ⟨fuel - 1, by omega⟩
    have hOffset : (BitVec.ofNat 32 (4 * i)).toNat = 4 * i := by
      rw [BitVec.toNat_ofNat, Nat.mod_eq_of_lt (by omega)]
    have hHere : BitVec.ofNat 32 (4 * i) < s.size := by
      rw [BitVec.lt_def, hOffset]
      omega
    have hNext : BitVec.ofNat 32 (4 * i) + 4 = BitVec.ofNat 32 (4 * (i + 1)) := by
      rw [Nat.mul_add, BitVec.ofNat_add]
      rfl
    rw [scanWords, if_pos hHere, hOffset, loadWord_of_le (by omega), hNext]
    exact ih (by omega) (by omega) _

theorem scanWords_eq (h : s.Fits bytes.length) (hFuel : scanFuel ≤ fuel) (st : σ) :
    scanWords visit bytes s fuel 0 st =
      .ok ((sectionWords bytes s).foldl (fun st w => visit st w.1 w.2) st) := by
  have hSize := s.size.isLt
  have hEnough : s.size.toNat / 4 < fuel := Nat.lt_of_lt_of_le (by unfold scanFuel; omega) hFuel
  have hRun := @scanWords_from σ visit bytes s fuel h _ 0 (Nat.zero_add _) hEnough st
  rwa [← List.range_eq_range'] at hRun

/-- The words that a scan of the text sections visits. -/
def textWords (img : DolImage) : List (BitVec 32 × BitVec 32) :=
  (img.sections.filter fun s => s.kind = .text).flatMap (sectionWords img.bytes)

theorem scanText_eq (h : img.WellFormed bytes) (hFuel : scanFuel ≤ fuel) (st : σ) :
    scanText visit fuel img st = .ok ((textWords img).foldl (fun st w => visit st w.1 w.2) st) := by
  have hFits : ∀ s ∈ img.sections, s.Fits img.bytes.length := by
    rw [h.bytes_eq]
    exact h.fits
  unfold scanText textWords
  revert hFits
  induction img.sections generalizing st with
  | nil => exact fun _ => rfl
  | cons s sections ih =>
    intro hFits
    have hRest := fun st => ih st fun s' hs' => hFits s' (List.mem_cons_of_mem s hs')
    rw [List.foldlM_cons]
    by_cases hKind : s.kind = .text
    · rw [if_pos hKind, scanWords_eq (hFits s List.mem_cons_self) hFuel,
        List.filter_cons_of_pos (by simpa using hKind), List.flatMap_cons, List.foldl_append]
      exact hRest _
    · rw [if_neg hKind, List.filter_cons_of_neg (by simpa using hKind)]
      exact hRest _

theorem cfgReadWordIn_eq (h : img.WellFormed bytes) (vaddr : BitVec 32) :
    cfgReadWordIn img vaddr = .ok (cfgReadWord img vaddr) := by
  unfold cfgReadWordIn cfgReadWord
  cases hPtr : dolVaddrToPtr img vaddr with
  | none => rfl
  | some ptr =>
    obtain ⟨offset, remaining⟩ := ptr
    obtain ⟨_, _, _, _, _, _, _, _, hInside⟩ := h.vaddrToPtr hPtr
    simp only
    split
    · rfl
    · rw [loadWord_of_le (by rw [h.bytes_eq]; omega)]
      rfl

theorem classesReadBe32_eq (img : DolImage) (vaddr : BitVec 32) :
    classesReadBe32 img vaddr = cfgReadWordIn img vaddr := by
  unfold classesReadBe32 cfgReadWordIn
  cases dolVaddrToPtr img vaddr <;> rfl

/-- The parser clears the image or guards every later access to the file. -/
theorem dolParse_guards (bytes : List (BitVec 8)) :
    (∃ st, dolParseInto bytes = (some st, .zero)) ∨
    ∃ img, dolParseInto bytes = (none, img) ∧ img.WellFormed bytes ∧
      (∀ vaddr, match dolVaddrToPtr img vaddr with
        | none => ∀ s ∈ img.sections, ¬ s.Contains vaddr
        | some (p, r) => ∃ before s after, img.sections = before ++ s :: after ∧
            s.Contains vaddr ∧ (∀ s' ∈ before, ¬ s'.Contains vaddr) ∧ s.fileOffset.toNat ≤ p ∧
            p + r = s.fileOffset.toNat + s.size.toNat ∧ p + r ≤ bytes.length) ∧
      (∀ vaddr, cfgReadWordIn img vaddr = .ok (cfgReadWord img vaddr) ∧
        classesReadBe32 img vaddr = .ok (cfgReadWord img vaddr)) ∧
      ∀ fuel, scanFuel ≤ fuel →
        (∀ entries, ∃ out, externsScan fuel img entries = .ok out) ∧
        (∀ syms, ∃ out, emitCallGraph fuel img syms = .ok out) ∧
        ∀ syms name, ∃ out, emitXrefs fuel img syms name = .ok out := by
  rw [dolParseInto_eq]
  cases hParse : dolParse bytes with
  | error st => exact .inl ⟨st, rfl⟩
  | ok img =>
    have h := wellFormed_of_dolParse hParse
    refine .inr ⟨img, rfl, h, fun vaddr => ?_, fun vaddr => ?_, fun fuel hFuel => ⟨?_, ?_, ?_⟩⟩
    · split
      · rename_i hPtr
        exact dolSectionForVaddr_eq_none h.fits (Option.map_eq_none_iff.mp hPtr)
      · rename_i hPtr
        exact h.vaddrToPtr hPtr
    · exact ⟨cfgReadWordIn_eq h vaddr, (classesReadBe32_eq img vaddr).trans (cfgReadWordIn_eq h vaddr)⟩
    · exact fun entries => ⟨_, scanText_eq h hFuel entries⟩
    · intro syms
      unfold emitCallGraph
      split
      · exact ⟨none, rfl⟩
      · rw [scanText_eq h hFuel]
        exact ⟨_, rfl⟩
    · intro syms name
      unfold emitXrefs
      split
      · exact ⟨none, rfl⟩
      · simp only [scanText_eq h hFuel]
        exact ⟨_, rfl⟩

end Runs

end Calynda.Decompiler
