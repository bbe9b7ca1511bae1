import Calynda.Decompiler.Fold
import Calynda.Decompiler.Ssa
import Calynda.Decompiler.Symbols
import Calynda.Lib.Evidence

/-!
# Types of values

What is known of a value of the function: its kind, width and sign, the symbol it points to, and
whether two pieces of evidence disagreed. Six passes merge their evidence into these records, one for
every instruction, phi and stack slot. A table is a function of the index; the sizes are in the form.
-/

namespace Calynda.Decompiler.Typing

inductive TypeKind where
  | unknown
  | int
  | float
  | ptr
  | void
  deriving DecidableEq, Repr

inductive Signedness where
  | unknown
  | signed
  | unsigned
  deriving DecidableEq, Repr

instance : Fintype TypeKind := ⟨{.unknown, .int, .float, .ptr, .void}, by rintro (_ | _) <;> decide⟩

instance : Fintype Signedness := ⟨{.unknown, .signed, .unsigned}, by rintro (_ | _) <;> decide⟩

structure TypeInfo where
  kind : TypeKind := .unknown
  width : Nat := 0
  sign : Signedness := .unknown
  ptrToSym : Option String := none
  isArray : Bool := false
  arrayStride : BitVec 16 := 0
  conflict : Bool := false
  deriving DecidableEq, Repr

/-- The kind of both, and whether they conflict: an integer beside a pointer is a pointer. -/
def mergeKind (dst src : TypeKind) : TypeKind × Bool :=
  if dst = .unknown then (src, false)
  else if src = .unknown then (dst, false)
  else if dst ≠ src then
    if dst = .int ∧ src = .ptr ∨ dst = .ptr ∧ src = .int then (.ptr, false)
    else (.int, true)
  else (dst, false)

def mergeWidth (dst src : Nat) : Nat :=
  if src ≠ 0 ∧ dst ≠ 0 ∧ src ≠ dst then if src > dst then src else dst
  else if src ≠ 0 ∧ dst = 0 then src
  else dst

def mergeSign (dst src : Signedness) : Signedness × Bool :=
  if dst = .unknown then (src, false)
  else if src = .unknown then (dst, false)
  else if dst ≠ src then (.unsigned, true)
  else (dst, false)

def typesMerge (dst src : TypeInfo) : TypeInfo :=
  { kind := (mergeKind dst.kind src.kind).1
    width := mergeWidth dst.width src.width
    sign := (mergeSign dst.sign src.sign).1
    ptrToSym := dst.ptrToSym.or src.ptrToSym
    isArray := dst.isArray || src.isArray
    arrayStride := if src.isArray && !dst.isArray then src.arrayStride else dst.arrayStride
    conflict := dst.conflict || (mergeKind dst.kind src.kind).2 ||
      (mergeSign dst.sign src.sign).2 || src.conflict }

/-! ## The form the passes read -/

/-- An instruction with its effects, constant, stack slot and call site. -/
structure SsaInsn extends Decompiler.SsaInsn where
  slotId : Option Nat := none
  callSiteId : Option Nat := none
  deriving DecidableEq, Repr

instance : Inhabited SsaInsn :=
  ⟨{ pc := 0, insn := { raw := 0, addr := 0 }, effects := {}, const := none }⟩

/-- An instruction of a text, with its effects by the table. -/
def decodedInsn (pc w : BitVec 32) : SsaInsn :=
  { pc := pc, insn := ppcDecode w pc, effects := computeInsnEffects (ppcDecode w pc), const := none }

def SsaInsn.op (si : SsaInsn) : PpcOp := si.insn.op

structure SsaBlockInfo where
  firstInsn : Nat
  insnCount : Nat
  isLoopHeader : Bool := false
  loopDepth : BitVec 16 := 0
  deriving DecidableEq, Repr

def SsaBlockInfo.indices (b : SsaBlockInfo) : List Nat :=
  (List.range b.insnCount).map (b.firstInsn + ·)

structure Ssa where
  insns : List SsaInsn
  blocks : List SsaBlockInfo
  phiCount : Nat := 0
  slotCount : Nat := 0
  calls : List Decompiler.Ssa.SsaCallSite := []
  deriving DecidableEq, Repr

def Ssa.insn (ssa : Ssa) (i : Nat) : SsaInsn := ssa.insns.getD i default

def gprDefOf (si : SsaInsn) : Option Nat := si.effects.gprDef.filter (· < Ssa.ssaMaxReg)

structure Types where
  insnType : Nat → TypeInfo := fun _ => {}
  phiType : Nat → TypeInfo := fun _ => {}
  slotType : Nat → TypeInfo := fun _ => {}
  conflicts : Nat := 0

def Types.mergeInsn (t : Types) (i : Nat) (ty : TypeInfo) : Types :=
  { t with insnType := Function.update t.insnType i (typesMerge (t.insnType i) ty) }

def Types.mergeSlot (t : Types) (s : Nat) (ty : TypeInfo) : Types :=
  { t with slotType := Function.update t.slotType s (typesMerge (t.slotType s) ty) }

/-! ## Widths -/

def tiInt (w : Nat) : TypeInfo := { kind := .int, width := w }

def tiFloat (w : Nat) : TypeInfo := { kind := .float, width := w }

/-- What the operation says of the value it produces. -/
def widthInfo : PpcOp → TypeInfo
  | .lbz => tiInt 1
  | .lhz => tiInt 2
  | .lwz => tiInt 4
  | .lfs => tiFloat 4
  | .lfd => tiFloat 8
  | .addi | .addis | .ori | .andiDot | .mulli | .mr => tiInt 4
  | .fmr | .fneg | .fadd | .fsub | .fmul | .fdiv => tiFloat 8
  | _ => {}

/-- What the operation says of the slot it is stored to. -/
def storeInfo : PpcOp → Option TypeInfo
  | .stb => some (tiInt 1)
  | .sth => some (tiInt 2)
  | .stw => some (tiInt 4)
  | .stfs => some (tiFloat 4)
  | .stfd => some (tiFloat 8)
  | _ => none

def isLoadOp (op : PpcOp) : Bool := op = .lbz ∨ op = .lhz ∨ op = .lwz ∨ op = .lfs ∨ op = .lfd

def widthStep (ssa : Ssa) (t : Types) (i : Nat) : Types :=
  let si := ssa.insn i
  let info := widthInfo si.op
  let t := match storeInfo si.op, si.slotId with
    | some ty, some s => t.mergeSlot s ty
    | _, _ => t
  let t := if info.kind ≠ .unknown then t.mergeInsn i info else t
  match si.slotId with
  | some s => if isLoadOp si.op then t.mergeSlot s info else t
  | none => t

def typesPassWidth (ssa : Ssa) (t : Types) : Types :=
  (List.range ssa.insns.length).foldl (widthStep ssa) t

/-! ## Pointers -/

def isMainRam (v : BitVec 32) : Bool := 0x80000000 ≤ v ∧ v < 0x81800000

def constPtrStep (syms : Option (List SymEntry)) (ssa : Ssa) (t : Types) (i : Nat) : Types :=
  match (ssa.insn i).const with
  | none => t
  | some v =>
    if isMainRam v then
      match syms.bind (symCovering · v) with
      | some e => t.mergeInsn i { kind := .ptr, width := 4, ptrToSym := some e.name }
      | none => t
    else t

/-- One instruction of a block, with the pointer types the registers are taken to hold. -/
def ptrStep (ssa : Ssa) (s : Types × (Nat → TypeInfo)) (idx : Nat) : Types × (Nat → TypeInfo) :=
  let (t, gpr) := s
  let si := ssa.insn idx
  let gpr := match gprDefOf si with
    | some r =>
      if (t.insnType idx).kind = .ptr then Function.update gpr r (t.insnType idx) else gpr
    | none => gpr
  match si.op with
  | .addi | .ori | .mr =>
    if si.insn.ra < Ssa.ssaMaxReg ∧ (gpr si.insn.ra).kind = .ptr then
      let t := t.mergeInsn idx (gpr si.insn.ra)
      (t, match gprDefOf si with
        | some r => Function.update gpr r (t.insnType idx)
        | none => gpr)
    else (t, gpr)
  | _ =>
    (t, match gprDefOf si with
      | some r => if (t.insnType idx).kind ≠ .ptr then Function.update gpr r {} else gpr
      | none => gpr)

def ptrBlock (ssa : Ssa) (t : Types) (b : SsaBlockInfo) : Types :=
  (b.indices.foldl (ptrStep ssa) (t, fun _ => {})).1

def typesPassPtr (syms : Option (List SymEntry)) (ssa : Ssa) (t : Types) : Types :=
  ssa.blocks.foldl (ptrBlock ssa) ((List.range ssa.insns.length).foldl (constPtrStep syms ssa) t)

/-! ## Signatures -/

/-- The last index before `k`, from `first` on, that has a property. -/
def lastBefore (p : Nat → Bool) (first : Nat) : Nat → Option Nat
  | 0 => none
  | k + 1 => if first ≤ k then if p k then some k else lastBefore p first k else none

structure TypesExternSig where
  name : Option String
  vaddr : BitVec 32
  returnType : TypeInfo
  params : List TypeInfo
  deriving DecidableEq, Repr

def lookupSig (tab : List TypesExternSig) (target : BitVec 32) (name : Option String) :
    Option TypesExternSig :=
  tab.find? fun sig => target ≠ 0 ∧ sig.vaddr = target ∨ name.isSome ∧ sig.name = name

/-- The parameter type goes to the last definition of the register before the call. -/
def applyArgType (ssa : Ssa) (b : SsaBlockInfo) (callIdx : Nat) (t : Types)
    (defines : SsaInsn → Bool) (ty : TypeInfo) : Types :=
  match lastBefore (fun k => defines (ssa.insn k)) b.firstInsn callIdx with
  | some k => t.mergeInsn k ty
  | none => t

def definesGpr (r : Nat) (si : SsaInsn) : Bool := si.effects.gprDef = some r

def definesFpr (r : Nat) (si : SsaInsn) : Bool := si.effects.fprDef = some r

/-- The registers of one file that the mask has, in order, each with the next parameter. -/
def applyArgs (ssa : Ssa) (b : SsaBlockInfo) (callIdx first : Nat) (mask : BitVec 8)
    (defines : Nat → SsaInsn → Bool) (params : List TypeInfo) (s : Types × Nat) : Types × Nat :=
  (List.range 8).foldl (fun (t, pi) k =>
    match params[pi]? with
    | none => (t, pi)
    | some ty =>
      if mask.getLsbD k then
        (applyArgType ssa b callIdx t (defines (first + k)) ty, pi + 1)
      else (t, pi)) s

def signatureStep (syms : Option (List SymEntry)) (tab : List TypesExternSig) (ssa : Ssa)
    (b : SsaBlockInfo) (t : Types) (idx : Nat) : Types :=
  match (ssa.insn idx).callSiteId.bind (ssa.calls[·]?) with
  | none => t
  | some cs =>
    match lookupSig tab cs.target (syms.bind (symLookup · cs.target)) with
    | none => t
    | some sig =>
      let t := if cs.returnsGpr || cs.returnsFpr then t.mergeInsn idx sig.returnType else t
      let (t, pi) := applyArgs ssa b idx 3 cs.gprArgMask definesGpr sig.params (t, 0)
      (applyArgs ssa b idx 1 cs.fprArgMask definesFpr sig.params (t, pi)).1

def typesPassSignature (syms : Option (List SymEntry)) (tab : List TypesExternSig) (ssa : Ssa)
    (t : Types) : Types :=
  ssa.blocks.foldl (fun t b => b.indices.foldl (signatureStep syms tab ssa b) t) t

/-! ## Signs -/

def signedInt (w : Nat) : TypeInfo := { kind := .int, width := w, sign := .signed }

def unsignedInt (w : Nat) : TypeInfo := { kind := .int, width := w, sign := .unsigned }

def backProp (ssa : Ssa) (b : SsaBlockInfo) (t : Types) (start reg : Nat) (ty : TypeInfo) :
    Types :=
  match lastBefore (fun k => definesGpr reg (ssa.insn k)) b.firstInsn start with
  | some k => t.mergeInsn k ty
  | none => t

def signSeedStep (ssa : Ssa) (t : Types) (i : Nat) : Types :=
  match (ssa.insn i).op with
  | .lbz => t.mergeInsn i (unsignedInt 1)
  | .lhz => t.mergeInsn i (unsignedInt 2)
  | .lwz => t.mergeInsn i (unsignedInt 4)
  | .mulli => t.mergeInsn i (signedInt 4)
  | .addi => if (ssa.insn i).insn.imm.toInt < 0 then t.mergeInsn i (signedInt 4) else t
  | _ => t

def compareStep (ssa : Ssa) (b : SsaBlockInfo) (t : Types) (idx : Nat) : Types :=
  if (ssa.insn idx).op = .cmpwi then
    backProp ssa b t idx (ssa.insn idx).insn.ra (signedInt 4)
  else t

/-- One instruction of a block, with the signs the registers are taken to hold. -/
def signStep (ssa : Ssa) (s : Types × (Nat → Signedness)) (idx : Nat) :
    Types × (Nat → Signedness) :=
  let (t, sh) := s
  let si := ssa.insn idx
  let sh := match gprDefOf si with
    | some r =>
      if (t.insnType idx).sign ≠ .unknown then Function.update sh r (t.insnType idx).sign else sh
    | none => sh
  if (si.op = .mr ∨ si.op = .ori) ∧ si.insn.ra < Ssa.ssaMaxReg ∧ sh si.insn.ra ≠ .unknown then
    let sign := sh si.insn.ra
    (t.mergeInsn idx { kind := .int, width := 4, sign := sign },
      match gprDefOf si with
      | some r => Function.update sh r sign
      | none => sh)
  else (t, sh)

def signBlock (ssa : Ssa) (t : Types) (b : SsaBlockInfo) : Types :=
  (b.indices.foldl (signStep ssa) (t, fun _ => .unknown)).1

def typesPassSign (ssa : Ssa) (t : Types) : Types :=
  let t := (List.range ssa.insns.length).foldl (signSeedStep ssa) t
  let t := ssa.blocks.foldl (fun t b => b.indices.foldl (compareStep ssa b) t) t
  ssa.blocks.foldl (signBlock ssa) t

/-! ## Arrays -/

def elemWidth : PpcOp → Nat
  | .lbz | .stb => 1
  | .lhz | .sth => 2
  | .lwz | .stw | .lfs | .stfs => 4
  | .lfd | .stfd => 8
  | _ => 0

def Types.setArray (t : Types) (i : Nat) (stride : BitVec 16) : Types :=
  { t with insnType :=
      Function.update t.insnType i { t.insnType i with isArray := true, arrayStride := stride } }

def markBaseAsArray (ssa : Ssa) (b : SsaBlockInfo) (t : Types) (start reg : Nat)
    (stride : BitVec 16) : Types :=
  match lastBefore (fun k => definesGpr reg (ssa.insn k)) b.firstInsn start with
  | some k =>
    t.setArray k (if (t.insnType k).arrayStride = 0 then stride else (t.insnType k).arrayStride)
  | none => t

/-- An addition to a register inside a loop that a load or store of the block has as its base. -/
def inductionStep (ssa : Ssa) (b : SsaBlockInfo) (t : Types) (idx : Nat) : Types :=
  let insn := (ssa.insn idx).insn
  if insn.op = .addi ∧ insn.ra = insn.rd ∧ 0 < insn.imm.toInt ∧ insn.imm.toInt ≤ 4096 ∧
      b.indices.any (fun j => (ssa.insn j).insn.ra = insn.rd ∧ elemWidth (ssa.insn j).op ≠ 0) then
    let stride := insn.imm.setWidth 16
    markBaseAsArray ssa b ((t.mergeInsn idx {}).setArray idx stride) idx insn.rd stride
  else t

/-- Two offsets from one base, with the first offset seen of each base. -/
def offsetStep (ssa : Ssa) (b : SsaBlockInfo) (s : Types × (Nat → Option (BitVec 32))) (idx : Nat) :
    Types × (Nat → Option (BitVec 32)) :=
  let (t, first) := s
  let insn := (ssa.insn idx).insn
  if elemWidth insn.op = 0 ∨ Ssa.ssaMaxReg ≤ insn.ra ∨ insn.ra = 1 then (t, first)
  else
    match first insn.ra with
    | none => (t, Function.update first insn.ra (some insn.imm))
    | some off =>
      let diff := |(insn.imm - off).toInt|
      (if 0 < diff ∧ diff ≤ 4096 then
        markBaseAsArray ssa b t idx insn.ra (BitVec.ofInt 16 diff)
      else t, first)

def arrayBlock (ssa : Ssa) (t : Types) (b : SsaBlockInfo) : Types :=
  let t := if b.isLoopHeader || b.loopDepth ≠ 0 then b.indices.foldl (inductionStep ssa b) t else t
  (b.indices.foldl (offsetStep ssa b) (t, fun _ => none)).1

def typesPassArray (ssa : Ssa) (t : Types) : Types := ssa.blocks.foldl (arrayBlock ssa) t

/-! ## Conflicts -/

/-- An instruction and its slot take the other's evidence. -/
def conflictStep (ssa : Ssa) (t : Types) (i : Nat) : Types :=
  match (ssa.insn i).slotId with
  | none => t
  | some s =>
    let t := t.mergeInsn i (t.slotType s)
    t.mergeSlot s (t.insnType i)

def normalizeWidth (ti : TypeInfo) : TypeInfo :=
  if (ti.kind = .int ∨ ti.kind = .ptr) ∧ ti.width = 0 then { ti with width := 4 } else ti

/-- A phi without a width gets one only as an integer. -/
def normalizePhiWidth (ti : TypeInfo) : TypeInfo :=
  if ti.kind = .int ∧ ti.width = 0 then { ti with width := 4 } else ti

def countConflicts (table : Nat → TypeInfo) (n : Nat) : Nat :=
  (List.range n).countP fun i => (table i).conflict

def typesPassConflict (ssa : Ssa) (t : Types) : Types :=
  let t := (List.range ssa.insns.length).foldl (conflictStep ssa) t
  { insnType := fun i => normalizeWidth (t.insnType i)
    slotType := fun s => normalizeWidth (t.slotType s)
    phiType := fun p => normalizePhiWidth (t.phiType p)
    conflicts := countConflicts t.insnType ssa.insns.length +
      countConflicts t.slotType ssa.slotCount + countConflicts t.phiType ssa.phiCount }

/-! ## All passes -/

def typesBeforeConflict (ssa : Ssa) (syms : Option (List SymEntry)) (tab : List TypesExternSig) :
    Types :=
  let t := typesPassWidth ssa {}
  let t := typesPassPtr syms ssa t
  let t := typesPassSignature syms tab ssa t
  let t := typesPassSign ssa t
  typesPassArray ssa t

def typesBuild (ssa : Ssa) (syms : Option (List SymEntry)) (tab : List TypesExternSig) : Types :=
  typesPassConflict ssa (typesBeforeConflict ssa syms tab)

end Calynda.Decompiler.Typing
