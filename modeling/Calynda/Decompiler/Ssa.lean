import Calynda.Decompiler.Cfg
import Calynda.Decompiler.DefUse
import Calynda.Lib.DataFlow

/-!
# Register summaries of blocks and calls

The instructions of a function with the registers they write and read, the summaries of its
blocks, the live registers at the start of each block as a fixpoint over the edges, and the
calls with the registers that are used after them. The two kinds of registers are handled alike.
The record of an instruction holds what these passes use of it; constant folding has its own.
-/

namespace Calynda.Decompiler.Ssa

inductive RegKind where
  | gpr
  | fpr
  deriving DecidableEq, Repr

def ssaNoReg : BitVec 8 := 0xFF
def ssaNoVal : BitVec 32 := 0xFFFFFFFF
def ssaMaxReg : Nat := 32

/-- The mask of one register. -/
def regBit (r : Nat) : BitVec 64 := BitVec.twoPow 64 r

/-- The effect of an instruction on the registers of one kind. -/
structure RegEffect where
  def_ : BitVec 8 := ssaNoReg
  uses : BitVec 64 := 0
  deriving DecidableEq, Repr

/-- The mask of the register written, if there is one. -/
def RegEffect.defMask (e : RegEffect) : BitVec 64 :=
  if e.def_.toNat < ssaMaxReg then regBit e.def_.toNat else 0

structure SsaInsn where
  pc : BitVec 32
  insn : PpcInsn
  gpr : RegEffect := {}
  fpr : RegEffect := {}
  deriving DecidableEq, Repr

instance : Inhabited SsaInsn := ⟨{ pc := 0, insn := { raw := 0, addr := 0 } }⟩

def SsaInsn.effect (i : SsaInsn) : RegKind → RegEffect
  | .gpr => i.gpr
  | .fpr => i.fpr

/-- What a block does with the registers of one kind. -/
structure RegSummary where
  defs : BitVec 64 := 0
  usesBeforeDef : BitVec 64 := 0
  liveIn : BitVec 64 := 0
  lastDef : List (BitVec 32) := List.replicate ssaMaxReg ssaNoVal
  deriving DecidableEq, Repr

structure SsaBlockInfo where
  firstInsn : Nat
  insnCount : Nat
  gpr : RegSummary := {}
  fpr : RegSummary := {}
  deriving DecidableEq, Repr

instance : Inhabited SsaBlockInfo := ⟨{ firstInsn := 0, insnCount := 0 }⟩

def SsaBlockInfo.summary (b : SsaBlockInfo) : RegKind → RegSummary
  | .gpr => b.gpr
  | .fpr => b.fpr

structure SsaCallSite where
  insnIndex : Nat
  target : BitVec 32
  gprArgMask : BitVec 8
  fprArgMask : BitVec 8
  returnsGpr : Bool
  returnsFpr : Bool
  deriving DecidableEq, Repr

/-! ## Layout -/

/-- The blocks follow each other in the flat array of instructions. -/
def layoutBlocks (cursor : Nat) : List CfgBlock → List SsaBlockInfo
  | [] => []
  | b :: bs =>
    { firstInsn := cursor, insnCount := b.insnCount } :: layoutBlocks (cursor + b.insnCount) bs

/-! ## Effects -/

def setUse (uses : BitVec 64) (r : Nat) : BitVec 64 :=
  if r < ssaMaxReg then uses ||| regBit r else uses

def regEffect (def_ : Option Nat) (uses : List Nat) : RegEffect :=
  { def_ := def_.elim ssaNoReg (BitVec.ofNat 8), uses := uses.foldl setUse 0 }

def computeEffects (i : SsaInsn) : SsaInsn :=
  let e := computeInsnEffects i.insn
  { i with gpr := regEffect e.gprDef e.gprUses, fpr := regEffect e.fprDef e.fprUses }

/-! ## Summaries of blocks -/

/-- One instruction, with its index, in the loop over a block. -/
def summarizeInsn (s : RegSummary) (e : RegEffect) (index : Nat) : RegSummary :=
  { s with
    usesBeforeDef := s.usesBeforeDef ||| e.uses &&& ~~~s.defs
    defs := s.defs ||| e.defMask
    lastDef :=
      if e.def_.toNat < ssaMaxReg then s.lastDef.set e.def_.toNat (BitVec.ofNat 32 index)
      else s.lastDef }

def summarizeKind (kind : RegKind) (insns : List SsaInsn) (b : SsaBlockInfo) : RegSummary :=
  let s := (List.range b.insnCount).foldl (fun s k =>
    summarizeInsn s ((insns.getD (b.firstInsn + k) default).effect kind) (b.firstInsn + k))
    { b.summary kind with defs := 0, usesBeforeDef := 0 }
  { s with liveIn := s.usesBeforeDef }

def summarizeBlock (insns : List SsaInsn) (b : SsaBlockInfo) : SsaBlockInfo :=
  { b with gpr := summarizeKind .gpr insns b, fpr := summarizeKind .fpr insns b }

/-! ## Live registers -/

/-- What is live at the start of some successor of a block. -/
def liveOut (kind : RegKind) (cfg : Cfg) (blocks : List SsaBlockInfo) (bi : Nat) : BitVec 64 :=
  cfg.edges.foldl (fun live e =>
    if e.src ≠ bi ∨ e.dst = cfgInvalid then live
    else live ||| ((blocks.getD e.dst default).summary kind).liveIn) 0

def liveOutGpr (cfg : Cfg) (blocks : List SsaBlockInfo) (bi : Nat) : BitVec 64 :=
  liveOut .gpr cfg blocks bi

def liveOutFpr (cfg : Cfg) (blocks : List SsaBlockInfo) (bi : Nat) : BitVec 64 :=
  liveOut .fpr cfg blocks bi

/-- What is live at the start of a block when `live` is at its end. -/
def RegSummary.transfer (s : RegSummary) (live : BitVec 64) : BitVec 64 :=
  s.usesBeforeDef ||| live &&& ~~~s.defs

/-- The update of one block in place; none where nothing changes. -/
def updateLive (cfg : Cfg) (blocks : List SsaBlockInfo) (bi : Nat) : Option (List SsaBlockInfo) :=
  let b := blocks.getD bi default
  let newG := b.gpr.transfer (liveOutGpr cfg blocks bi)
  let newF := b.fpr.transfer (liveOutFpr cfg blocks bi)
  if newG ≠ b.gpr.liveIn ∨ newF ≠ b.fpr.liveIn then
    some (blocks.set bi
      { b with gpr := { b.gpr with liveIn := newG }, fpr := { b.fpr with liveIn := newF } })
  else none

/-- The summaries for a table of register effects; none when the passes do not suffice. -/
def solveDefuse (passes : Nat) (cfg : Cfg) (insns : List SsaInsn) : Option (List SsaBlockInfo) :=
  DataFlow.iterate (updateLive cfg) (List.range cfg.blocks.length).reverse passes
    ((layoutBlocks 0 cfg.blocks).map (summarizeBlock insns))

def ssaComputeDefuse (passes : Nat) (cfg : Cfg) (insns : List SsaInsn) :
    Option (List SsaInsn × List SsaBlockInfo) :=
  let insns := insns.map computeEffects
  (solveDefuse passes cfg insns).map fun blocks => (insns, blocks)

/-! ## Calls -/

def isCallOp (op : PpcOp) : Bool := op = .bl ∨ op = .bla

/-- The registers written after a call, and whether one register is used before. -/
def scanAfter (kind : RegKind) (reg : Nat) (rest : List SsaInsn) : BitVec 64 × Bool :=
  rest.foldl (fun (redef, usedAfter) nx =>
    (redef ||| (nx.effect kind).defMask,
      usedAfter || (nx.effect kind).uses &&& regBit reg &&& ~~~redef ≠ 0)) (0, false)

def returnsReg (kind : RegKind) (reg : Nat) (live : BitVec 64) (rest : List SsaInsn) : Bool :=
  let (redef, usedAfter) := scanAfter kind reg rest
  usedAfter || (live &&& regBit reg ≠ 0 && redef &&& regBit reg = 0)

/-- Eight registers from the first one on, as a mask of their own. -/
def argMask (first : Nat) (avail : BitVec 64) : BitVec 8 :=
  (List.range 8).foldl (fun mask k =>
    if avail &&& regBit (first + k) ≠ 0 then mask ||| BitVec.twoPow 8 k else mask) 0

/-- The masks of what was written before an instruction, and the sites so far. -/
structure CallScan where
  gdefs : BitVec 64 := 0
  fdefs : BitVec 64 := 0
  calls : List SsaCallSite
  deriving DecidableEq, Repr

/-- The instructions of a block. -/
def SsaBlockInfo.code (b : SsaBlockInfo) (insns : List SsaInsn) : List SsaInsn :=
  (List.range b.insnCount).map fun k => insns.getD (b.firstInsn + k) default

def callSite (cfg : Cfg) (blocks : List SsaBlockInfo) (insns : List SsaInsn) (bi : Nat)
    (b : SsaBlockInfo) (scan : CallScan) (k : Nat) (i : SsaInsn) : SsaCallSite :=
  let rest := (b.code insns).drop (k + 1)
  { insnIndex := b.firstInsn + k
    target := i.insn.target
    gprArgMask := argMask 3 (scan.gdefs ||| b.gpr.liveIn)
    fprArgMask := argMask 1 (scan.fdefs ||| b.fpr.liveIn)
    returnsGpr := returnsReg .gpr 3 (liveOutGpr cfg blocks bi) rest
    returnsFpr := returnsReg .fpr 1 (liveOutFpr cfg blocks bi) rest }

def scanCall (cfg : Cfg) (blocks : List SsaBlockInfo) (insns : List SsaInsn) (bi : Nat)
    (b : SsaBlockInfo) (scan : CallScan) (k : Nat) : CallScan :=
  let i := insns.getD (b.firstInsn + k) default
  { gdefs := scan.gdefs ||| i.gpr.defMask
    fdefs := scan.fdefs ||| i.fpr.defMask
    calls :=
      if isCallOp i.insn.op then scan.calls ++ [callSite cfg blocks insns bi b scan k i]
      else scan.calls }

def ssaReconstructCalls (cfg : Cfg) (blocks : List SsaBlockInfo) (insns : List SsaInsn) :
    List SsaCallSite :=
  (List.range cfg.blocks.length).foldl (fun calls bi =>
    let b := blocks.getD bi default
    ((List.range b.insnCount).foldl (scanCall cfg blocks insns bi b) { calls := calls }).calls) []

end Calynda.Decompiler.Ssa
