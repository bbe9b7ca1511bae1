import Calynda.Decompiler.Ppc

/-!
# Definitions and uses

The table of register effects of the decoded operations.
-/

namespace Calynda.Decompiler

/-- The registers that an instruction is taken to write and to read. -/
structure InsnEffects where
  gprDef : Option Nat := none
  fprDef : Option Nat := none
  gprUses : List Nat := []
  fprUses : List Nat := []
  deriving DecidableEq, Repr

/-- The use of a base register: register 0 stands for zero. -/
def baseUse (ra : Nat) : List Nat := if ra ≠ 0 then [ra] else []

def computeInsnEffects (insn : PpcInsn) : InsnEffects :=
  match insn.op with
  | .addi | .addis | .mulli => { gprDef := some insn.rd, gprUses := baseUse insn.ra }
  | .cmpwi => { gprUses := [insn.ra] }
  | .ori | .andiDot => { gprDef := some insn.ra, gprUses := [insn.rd] }
  | .mr => { gprDef := some insn.rd, gprUses := [insn.ra] }
  | .lwz | .lbz | .lhz | .lmw => { gprDef := some insn.rd, gprUses := baseUse insn.ra }
  | .stw | .stb | .sth | .stmw => { gprUses := insn.rd :: baseUse insn.ra }
  | .lfs | .lfd => { fprDef := some insn.rd, gprUses := baseUse insn.ra }
  | .stfs | .stfd => { fprUses := [insn.rd], gprUses := baseUse insn.ra }
  | .fmr | .fneg => { fprDef := some insn.rd, fprUses := [insn.rb] }
  | .fadd | .fsub | .fdiv | .fmul => { fprDef := some insn.rd, fprUses := [insn.ra, insn.rb] }
  | .mflr | .mfctr => { gprDef := some insn.rd }
  | .mtlr | .mtctr => { gprUses := [insn.rd] }
  | .bl | .bla => { gprDef := some 3 }
  | _ => {}

end Calynda.Decompiler
