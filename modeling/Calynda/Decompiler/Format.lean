import Calynda.Decompiler.Ppc
import Calynda.Lib.FormatText

/-!
# Printing PowerPC instructions

`ppcFormat` prints a decoded instruction as the disassembly shows it.
-/

namespace Calynda.Decompiler

open FormatText

def ppcMnemonic (op : PpcOp) : List Char :=
  match op with
  | .unknown => ".long".toList
  | .b => "b".toList
  | .ba => "ba".toList
  | .bl => "bl".toList
  | .bla => "bla".toList
  | .bc => "bc".toList
  | .blr => "blr".toList
  | .bctr => "bctr".toList
  | .addi => "addi".toList
  | .addis => "addis".toList
  | .mulli => "mulli".toList
  | .cmpwi => "cmpwi".toList
  | .ori => "ori".toList
  | .andiDot => "andi.".toList
  | .nop => "nop".toList
  | .lwz => "lwz".toList
  | .stw => "stw".toList
  | .lbz => "lbz".toList
  | .stb => "stb".toList
  | .lhz => "lhz".toList
  | .sth => "sth".toList
  | .lmw => "lmw".toList
  | .stmw => "stmw".toList
  | .lfs => "lfs".toList
  | .lfd => "lfd".toList
  | .stfs => "stfs".toList
  | .stfd => "stfd".toList
  | .fmr => "fmr".toList
  | .fneg => "fneg".toList
  | .fadd => "fadd".toList
  | .fsub => "fsub".toList
  | .fmul => "fmul".toList
  | .fdiv => "fdiv".toList
  | .mflr => "mflr".toList
  | .mtlr => "mtlr".toList
  | .mfctr => "mfctr".toList
  | .mtctr => "mtctr".toList
  | .mr => "mr".toList
  | .rlwinm => "rlwinm".toList
  | .rlwimi => "rlwimi".toList
  | .rlwnm => "rlwnm".toList
  | .cmpw => "cmpw".toList
  | .cmplw => "cmplw".toList
  | .cmplwi => "cmplwi".toList
  | .mullw => "mullw".toList
  | .mulhw => "mulhw".toList
  | .mulhwu => "mulhwu".toList
  | .divw => "divw".toList
  | .divwu => "divwu".toList
  | .lwzu => "lwzu".toList
  | .stwu => "stwu".toList
  | .lbzu => "lbzu".toList
  | .stbu => "stbu".toList
  | .lhzu => "lhzu".toList
  | .sthu => "sthu".toList
  | .lha => "lha".toList
  | .lhau => "lhau".toList
  | .lfsu => "lfsu".toList
  | .lfdu => "lfdu".toList
  | .stfsu => "stfsu".toList
  | .stfdu => "stfdu".toList
  | .and => "and".toList
  | .or => "or".toList
  | .xor => "xor".toList
  | .nand => "nand".toList
  | .nor => "nor".toList
  | .eqv => "eqv".toList
  | .andc => "andc".toList
  | .orc => "orc".toList
  | .slw => "slw".toList
  | .srw => "srw".toList
  | .sraw => "sraw".toList
  | .srawi => "srawi".toList
  | .add => "add".toList
  | .subf => "subf".toList
  | .neg => "neg".toList
  | .psAdd => "ps_add".toList
  | .psSub => "ps_sub".toList
  | .psMul => "ps_mul".toList
  | .psDiv => "ps_div".toList
  | .psMadd => "ps_madd".toList
  | .psMsub => "ps_msub".toList
  | .psMr => "ps_mr".toList
  | .psNeg => "ps_neg".toList
  | .psqL => "psq_l".toList
  | .psqSt => "psq_st".toList
  | .psqLu => "psq_lu".toList
  | .psqStu => "psq_stu".toList

/-- The alias of a pair of `BO` and `BI`, if it has one, and whether the target is all that is
printed after it. -/
def bcAlias (bo bi : Nat) : Option (List Char) × Bool :=
  let bit := bi % 4
  if bo = 16 then (some "bdnz".toList, true)
  else if bo = 18 then (some "bdz".toList, true)
  else if bo = 20 then (some "b".toList, true)
  else if bo = 12 then
    match bit with
    | 0 => (some "blt".toList, true)
    | 1 => (some "bgt".toList, true)
    | 2 => (some "beq".toList, true)
    | _ => (some "bso".toList, true)
  else if bo = 4 then
    match bit with
    | 0 => (some "bge".toList, true)
    | 1 => (some "ble".toList, true)
    | 2 => (some "bne".toList, true)
    | _ => (some "bns".toList, true)
  else (none, false)

def formatBc (insn : PpcInsn) : List TextItem :=
  let (name, targetOnly) := bcAlias insn.rd insn.ra
  let cr := insn.ra / 4 % 8
  let lk := if insn.lk ≠ 0 then "l".toList else []
  match name with
  | some name =>
    if targetOnly ∨ cr = 0 then [.lit (name ++ lk), .lit " 0x".toList, .hex8 insn.target]
    else
      [.lit (name ++ lk), .lit " cr".toList, .udec cr, .lit ", 0x".toList, .hex8 insn.target]
  | none =>
    [.lit ("bc".toList ++ lk), .lit " ".toList, .udec insn.rd, .lit ", ".toList, .udec insn.ra,
      .lit ", 0x".toList, .hex8 insn.target]

def ppcFormat (insn : PpcInsn) : List TextItem :=
  let m := ppcMnemonic insn.op
  let comma := TextItem.lit ", ".toList
  let gpr (r : Nat) (rest : List TextItem) := .lit "r".toList :: .udec r :: rest
  let fpr (r : Nat) (rest : List TextItem) := .lit "f".toList :: .udec r :: rest
  let access : List TextItem :=
    [comma, .sdec insn.imm.toInt, .lit "(r".toList, .udec insn.ra, .lit ")".toList]
  match insn.op with
  | .unknown => [.lit ".long 0x".toList, .hex8 insn.raw]
  | .b | .bl | .ba | .bla => [.lit m, .lit " 0x".toList, .hex8 insn.target]
  | .bc => formatBc insn
  | .blr | .bctr | .nop => [.lit m]
  | .addi | .addis | .mulli =>
    .lit m :: .lit " ".toList :: gpr insn.rd (comma :: gpr insn.ra [comma, .sdec insn.imm.toInt])
  | .cmpwi =>
    .lit m :: .lit " cr".toList :: .udec insn.rd :: comma ::
      gpr insn.ra [comma, .sdec insn.imm.toInt]
  | .ori | .andiDot =>
    .lit m :: .lit " ".toList :: gpr insn.ra (comma :: gpr insn.rd [comma, .sdec insn.imm.toInt])
  | .lwz | .stw | .lbz | .stb | .lhz | .sth | .lmw | .stmw =>
    .lit m :: .lit " ".toList :: gpr insn.rd access
  | .lfs | .lfd | .stfs | .stfd => .lit m :: .lit " ".toList :: fpr insn.rd access
  | .fmr | .fneg => .lit m :: .lit " ".toList :: fpr insn.rd (comma :: fpr insn.rb [])
  | .fadd | .fsub | .fmul | .fdiv =>
    .lit m :: .lit " ".toList :: fpr insn.rd (comma :: fpr insn.ra (comma :: fpr insn.rb []))
  | .mflr | .mfctr | .mtlr | .mtctr => .lit m :: .lit " ".toList :: gpr insn.rd []
  | .mr => .lit m :: .lit " ".toList :: gpr insn.rd (comma :: gpr insn.ra [])
  | .rlwinm | .rlwimi =>
    .lit m :: .lit " ".toList :: gpr insn.ra (comma ::
      gpr insn.rd [comma, .udec insn.sh, comma, .udec insn.mb, comma, .udec insn.me])
  | .rlwnm =>
    .lit m :: .lit " ".toList :: gpr insn.ra (comma :: gpr insn.rd (comma ::
      gpr insn.rb [comma, .udec insn.mb, comma, .udec insn.me]))
  | .cmpw | .cmplw =>
    .lit m :: .lit " cr".toList :: .udec insn.rd :: comma ::
      gpr insn.ra (comma :: gpr insn.rb [])
  | .cmplwi =>
    .lit m :: .lit " cr".toList :: .udec insn.rd :: comma ::
      gpr insn.ra [comma, .sdec insn.imm.toInt]
  | .and | .or | .xor | .nand | .nor | .eqv | .andc | .orc | .slw | .srw | .sraw =>
    .lit m :: .lit " ".toList :: gpr insn.ra (comma :: gpr insn.rd (comma :: gpr insn.rb []))
  | .mullw | .mulhw | .mulhwu | .divw | .divwu | .add | .subf =>
    .lit m :: .lit " ".toList :: gpr insn.rd (comma :: gpr insn.ra (comma :: gpr insn.rb []))
  | .srawi => .lit m :: .lit " ".toList :: gpr insn.ra (comma :: gpr insn.rd [comma, .udec insn.sh])
  | .neg => .lit m :: .lit " ".toList :: gpr insn.rd (comma :: gpr insn.ra [])
  | .lwzu | .stwu | .lbzu | .stbu | .lhzu | .sthu | .lha | .lhau =>
    .lit m :: .lit " ".toList :: gpr insn.rd access
  | .lfsu | .lfdu | .stfsu | .stfdu => .lit m :: .lit " ".toList :: fpr insn.rd access
  | .psAdd | .psSub | .psMul | .psDiv =>
    .lit m :: .lit " ".toList :: fpr insn.rd (comma :: fpr insn.ra (comma :: fpr insn.rb []))
  | .psMadd | .psMsub =>
    .lit m :: .lit " ".toList :: fpr insn.rd (comma :: fpr insn.ra (comma :: fpr insn.rb []))
  | .psMr | .psNeg => .lit m :: .lit " ".toList :: fpr insn.rd (comma :: fpr insn.rb [])
  | .psqL | .psqLu | .psqSt | .psqStu =>
    .lit m :: .lit " ".toList ::
      fpr insn.rd (access ++ [comma, .udec insn.sh, comma, .udec insn.mb])

/-- The text of an instruction in a buffer that is large enough. -/
def ppcText (insn : PpcInsn) : List Char := textOf (ppcFormat insn)

/-- `lwz r3, -8(r1)`. -/
example : ppcText (ppcDecode 0x8061FFF8 0) = "lwz r3, -8(r1)".toList := by rfl

end Calynda.Decompiler
