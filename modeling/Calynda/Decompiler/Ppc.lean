import Mathlib.Algebra.Group.Nat.Defs

/-!
# Decoding PowerPC instructions

`ppcDecode` maps a 32-bit word to the operation and the operand fields that the decompiler
knows of; any other word is `unknown` with all fields zero.
-/

namespace Calynda.Decompiler

inductive PpcOp where
  | unknown
  | b | ba | bl | bla
  | bc
  | blr | bctr
  | addi | addis | mulli
  | cmpwi
  | ori | andiDot
  | nop
  | lwz | stw | lbz | stb | lhz | sth
  | lmw | stmw
  | lfs | lfd | stfs | stfd
  | fmr | fneg | fadd | fsub | fmul | fdiv
  | mflr | mtlr | mfctr | mtctr
  | mr
  | rlwinm | rlwimi | rlwnm
  | cmpw | cmplw | cmplwi
  | mullw | mulhw | mulhwu | divw | divwu
  | lwzu | stwu | lbzu | stbu | lhzu | sthu | lha | lhau | lfsu | lfdu | stfsu | stfdu
  | and | or | xor | nand | nor | eqv | andc | orc
  | slw | srw | sraw | srawi
  | add | subf | neg
  | psAdd | psSub | psMul | psDiv | psMadd | psMsub | psMr | psNeg
  | psqL | psqSt | psqLu | psqStu
  deriving DecidableEq, Repr

structure PpcInsn where
  op : PpcOp := .unknown
  raw : BitVec 32
  addr : BitVec 32
  rd : Nat := 0
  ra : Nat := 0
  rb : Nat := 0
  imm : BitVec 32 := 0
  target : BitVec 32 := 0
  aa : Nat := 0
  lk : Nat := 0
  sh : Nat := 0
  mb : Nat := 0
  me : Nat := 0
  deriving DecidableEq, Repr

/-- The bits `msb` to `lsb` of a word, bit 0 being the most significant one. -/
def ppcBits (insn : BitVec 32) (msb lsb : Nat) : Nat :=
  insn.toNat / 2 ^ (31 - lsb) % 2 ^ (lsb - msb + 1)

def ppcSext (v width : Nat) : BitVec 32 := (BitVec.ofNat width v).signExtend 32

/-! ## The decoders of the instruction forms -/

section Forms

variable (insn vaddr : BitVec 32) (out : PpcInsn)

def decodeSpr : Nat :=
  let field := ppcBits insn 11 20
  field % 32 * 32 + field / 32 % 32

def decodeIformBranch : PpcInsn :=
  let disp := ppcSext (ppcBits insn 6 29 * 4) 26
  let aa := ppcBits insn 30 30
  let lk := ppcBits insn 31 31
  { out with
    aa := aa
    lk := lk
    target := if aa ≠ 0 then disp else vaddr + disp
    op := if aa ≠ 0 ∧ lk ≠ 0 then .bla else if aa ≠ 0 then .ba else if lk ≠ 0 then .bl else .b }

def decodeBformBranch : PpcInsn :=
  let disp := ppcSext (ppcBits insn 16 29 * 4) 16
  let aa := ppcBits insn 30 30
  { out with
    op := .bc
    rd := ppcBits insn 6 10
    ra := ppcBits insn 11 15
    aa := aa
    lk := ppcBits insn 31 31
    target := if aa ≠ 0 then disp else vaddr + disp }

def decodeOpcode19 : PpcInsn :=
  let xo := ppcBits insn 21 30
  let bo := ppcBits insn 6 10
  let bi := ppcBits insn 11 15
  let lk := ppcBits insn 31 31
  { out with
    lk := lk
    op := if xo = 16 ∧ bo = 20 ∧ bi = 0 ∧ lk = 0 then .blr
      else if xo = 528 ∧ bo = 20 ∧ bi = 0 ∧ lk = 0 then .bctr
      else out.op }

def decodeDformArith (op : PpcOp) : PpcInsn :=
  { out with
    op := op
    rd := ppcBits insn 6 10
    ra := ppcBits insn 11 15
    imm := ppcSext (ppcBits insn 16 31) 16 }

def decodeDformMem (op : PpcOp) : PpcInsn :=
  { out with
    op := op
    rd := ppcBits insn 6 10
    ra := ppcBits insn 11 15
    imm := ppcSext (ppcBits insn 16 31) 16 }

def decodeOri : PpcInsn :=
  let rd := ppcBits insn 6 10
  let ra := ppcBits insn 11 15
  let imm := BitVec.ofNat 32 (ppcBits insn 16 31)
  { out with
    rd := rd
    ra := ra
    imm := imm
    op := if rd = 0 ∧ ra = 0 ∧ imm = 0 then .nop else .ori }

def decodeAndiDot : PpcInsn :=
  { out with
    op := .andiDot
    rd := ppcBits insn 6 10
    ra := ppcBits insn 11 15
    imm := BitVec.ofNat 32 (ppcBits insn 16 31) }

def decodeCmpi : PpcInsn :=
  if ppcBits insn 10 10 ≠ 0 then out
  else
    { out with
      op := .cmpwi
      rd := ppcBits insn 6 8
      ra := ppcBits insn 11 15
      imm := ppcSext (ppcBits insn 16 31) 16 }

def decodeCmpli : PpcInsn :=
  if ppcBits insn 10 10 = 0 then
    { out with
      op := .cmplwi
      rd := ppcBits insn 6 8
      ra := ppcBits insn 11 15
      imm := BitVec.ofNat 32 (ppcBits insn 16 31) }
  else out

/-- `rlwinm`, `rlwimi` and `rlwnm`: the fields `rB` and `SH` share their bits. -/
def ppcDecodeMform (op : PpcOp) : PpcInsn :=
  { out with
    op := op
    rd := ppcBits insn 6 10
    ra := ppcBits insn 11 15
    rb := ppcBits insn 16 20
    sh := ppcBits insn 16 20
    mb := ppcBits insn 21 25
    me := ppcBits insn 26 30 }

def decodePsqDform (op : PpcOp) : PpcInsn :=
  { out with
    op := op
    rd := ppcBits insn 6 10
    ra := ppcBits insn 11 15
    sh := ppcBits insn 16 16
    mb := ppcBits insn 17 19
    imm := ppcSext (ppcBits insn 20 31) 12 }

def ppcDecodePsq : PpcInsn :=
  match ppcBits insn 0 5 with
  | 56 => decodePsqDform insn out .psqL
  | 57 => decodePsqDform insn out .psqLu
  | 60 => decodePsqDform insn out .psqSt
  | 61 => decodePsqDform insn out .psqStu
  | _ => out

def ppcDecodeOpcode4 : PpcInsn :=
  let frd := ppcBits insn 6 10
  let fra := ppcBits insn 11 15
  let frb := ppcBits insn 16 20
  let frc := ppcBits insn 21 25
  match ppcBits insn 21 30 with
  | 21 => { out with op := .psAdd, rd := frd, ra := fra, rb := frb }
  | 20 => { out with op := .psSub, rd := frd, ra := fra, rb := frb }
  | 18 => { out with op := .psDiv, rd := frd, ra := fra, rb := frb }
  | 72 => { out with op := .psMr, rd := frd, rb := frb }
  | 40 => { out with op := .psNeg, rd := frd, rb := frb }
  | _ =>
    match ppcBits insn 26 30 with
    | 25 => { out with op := .psMul, rd := frd, ra := fra, rb := frc }
    | 29 => { out with op := .psMadd, rd := frd, ra := fra, rb := frc }
    | 28 => { out with op := .psMsub, rd := frd, ra := fra, rb := frc }
    | _ => out

/-- The extended opcodes of primary opcode 31. -/
def kOp31 : List (Nat × PpcOp) :=
  [(0, .cmpw), (32, .cmplw),
    (235, .mullw), (75, .mulhw), (11, .mulhwu), (491, .divw), (459, .divwu),
    (28, .and), (444, .or), (316, .xor), (476, .nand), (124, .nor), (284, .eqv), (60, .andc),
    (412, .orc),
    (24, .slw), (536, .srw), (792, .sraw), (824, .srawi),
    (266, .add), (40, .subf), (104, .neg)]

def ppcDecodeOp31Xform : PpcInsn :=
  let rd := ppcBits insn 6 10
  let ra := ppcBits insn 11 15
  let rb := ppcBits insn 16 20
  match kOp31.lookup (ppcBits insn 21 30) with
  | none => out
  | some .cmpw =>
    if ppcBits insn 10 10 ≠ 0 then out
    else { out with op := .cmpw, rd := ppcBits insn 6 8, ra := ra, rb := rb }
  | some .cmplw =>
    if ppcBits insn 10 10 ≠ 0 then out
    else { out with op := .cmplw, rd := ppcBits insn 6 8, ra := ra, rb := rb }
  | some .srawi => { out with op := .srawi, rd := rd, ra := ra, sh := rb }
  | some .neg => { out with op := .neg, rd := rd, ra := ra }
  | some op => { out with op := op, rd := rd, ra := ra, rb := rb }

def decodeOpcode31 : PpcInsn :=
  let rd := ppcBits insn 6 10
  match ppcBits insn 21 30 with
  | 339 =>
    { out with
      rd := rd
      op := if decodeSpr insn = 8 then .mflr else if decodeSpr insn = 9 then .mfctr else out.op }
  | 467 =>
    { out with
      rd := rd
      op := if decodeSpr insn = 8 then .mtlr else if decodeSpr insn = 9 then .mtctr else out.op }
  | 444 =>
    let ra := ppcBits insn 11 15
    let rb := ppcBits insn 16 20
    if ppcBits insn 31 31 = 0 ∧ rd = rb then { out with op := .mr, rd := ra, ra := rd }
    else ppcDecodeOp31Xform insn out
  | _ => ppcDecodeOp31Xform insn out

def decodeOpcode63 : PpcInsn :=
  let frd := ppcBits insn 6 10
  let fra := ppcBits insn 11 15
  let frb := ppcBits insn 16 20
  let frc := ppcBits insn 21 25
  match ppcBits insn 21 30 with
  | 72 => { out with op := .fmr, rd := frd, rb := frb }
  | 40 => { out with op := .fneg, rd := frd, rb := frb }
  | 21 => { out with op := .fadd, rd := frd, ra := fra, rb := frb }
  | 20 => { out with op := .fsub, rd := frd, ra := fra, rb := frb }
  | 25 => { out with op := .fmul, rd := frd, ra := fra, rb := frc }
  | 18 => { out with op := .fdiv, rd := frd, ra := fra, rb := frb }
  | _ => out

end Forms

def ppcDecode (word vaddr : BitVec 32) : PpcInsn :=
  let out : PpcInsn := { raw := word, addr := vaddr }
  match ppcBits word 0 5 with
  | 4 => ppcDecodeOpcode4 word out
  | 7 => decodeDformArith word out .mulli
  | 10 => decodeCmpli word out
  | 11 => decodeCmpi word out
  | 14 => decodeDformArith word out .addi
  | 15 => decodeDformArith word out .addis
  | 16 => decodeBformBranch word vaddr out
  | 18 => decodeIformBranch word vaddr out
  | 19 => decodeOpcode19 word out
  | 20 => ppcDecodeMform word out .rlwimi
  | 21 => ppcDecodeMform word out .rlwinm
  | 23 => ppcDecodeMform word out .rlwnm
  | 24 => decodeOri word out
  | 28 => decodeAndiDot word out
  | 31 => decodeOpcode31 word out
  | 32 => decodeDformMem word out .lwz
  | 33 => decodeDformMem word out .lwzu
  | 34 => decodeDformMem word out .lbz
  | 35 => decodeDformMem word out .lbzu
  | 36 => decodeDformMem word out .stw
  | 37 => decodeDformMem word out .stwu
  | 38 => decodeDformMem word out .stb
  | 39 => decodeDformMem word out .stbu
  | 40 => decodeDformMem word out .lhz
  | 41 => decodeDformMem word out .lhzu
  | 42 => decodeDformMem word out .lha
  | 43 => decodeDformMem word out .lhau
  | 44 => decodeDformMem word out .sth
  | 45 => decodeDformMem word out .sthu
  | 46 => decodeDformMem word out .lmw
  | 47 => decodeDformMem word out .stmw
  | 48 => decodeDformMem word out .lfs
  | 49 => decodeDformMem word out .lfsu
  | 50 => decodeDformMem word out .lfd
  | 51 => decodeDformMem word out .lfdu
  | 52 => decodeDformMem word out .stfs
  | 53 => decodeDformMem word out .stfsu
  | 54 => decodeDformMem word out .stfd
  | 55 => decodeDformMem word out .stfdu
  | 56 => ppcDecodePsq word out
  | 57 => ppcDecodePsq word out
  | 60 => ppcDecodePsq word out
  | 61 => ppcDecodePsq word out
  | 63 => decodeOpcode63 word out
  | _ => out

/-- `lwz r3, 8(r1)` and `blr`. -/
example : ((ppcDecode 0x80610008 0).op, (ppcDecode 0x80610008 0).rd) = (.lwz, 3) ∧
    (ppcDecode 0x4E800020 0).op = .blr := by decide

/-! ## Primary opcodes -/

/-- The primary opcode of the words that decode to an operation. -/
def PpcOp.primary : PpcOp → Nat
  | .unknown => 0
  | .b | .ba | .bl | .bla => 18
  | .bc => 16
  | .blr | .bctr => 19
  | .addi => 14
  | .addis => 15
  | .mulli => 7
  | .cmpwi => 11
  | .cmplwi => 10
  | .ori | .nop => 24
  | .andiDot => 28
  | .lwz => 32
  | .lwzu => 33
  | .lbz => 34
  | .lbzu => 35
  | .stw => 36
  | .stwu => 37
  | .stb => 38
  | .stbu => 39
  | .lhz => 40
  | .lhzu => 41
  | .lha => 42
  | .lhau => 43
  | .sth => 44
  | .sthu => 45
  | .lmw => 46
  | .stmw => 47
  | .lfs => 48
  | .lfsu => 49
  | .lfd => 50
  | .lfdu => 51
  | .stfs => 52
  | .stfsu => 53
  | .stfd => 54
  | .stfdu => 55
  | .psqL => 56
  | .psqLu => 57
  | .psqSt => 60
  | .psqStu => 61
  | .fmr | .fneg | .fadd | .fsub | .fmul | .fdiv => 63
  | .rlwimi => 20
  | .rlwinm => 21
  | .rlwnm => 23
  | .mflr | .mtlr | .mfctr | .mtctr | .mr | .cmpw | .cmplw | .mullw | .mulhw | .mulhwu | .divw
  | .divwu | .and | .or | .xor | .nand | .nor | .eqv | .andc | .orc | .slw | .srw | .sraw
  | .srawi | .add | .subf | .neg => 31
  | .psAdd | .psSub | .psMul | .psDiv | .psMadd | .psMsub | .psMr | .psNeg => 4

section Primary

variable {insn : BitVec 32} {out : PpcInsn}

/-- The operation is one of the primary opcode `p`, or none. -/
def PpcInsn.FitsPrimary (insn : PpcInsn) (p : Nat) : Prop :=
  insn.op = .unknown ∨ insn.op.primary = p

theorem fitsPrimary_ppcDecodePsq (hOut : out.op = .unknown) :
    (ppcDecodePsq insn out).FitsPrimary (ppcBits insn 0 5) := by
  unfold ppcDecodePsq
  split
  case h_5 => exact .inl hOut
  all_goals
    rename_i hPrimary
    exact .inr hPrimary.symm

theorem fitsPrimary_ppcDecodeOpcode4 (hOut : out.op = .unknown) :
    (ppcDecodeOpcode4 insn out).FitsPrimary 4 := by
  unfold ppcDecodeOpcode4
  dsimp only
  split
  case h_6 =>
    split
    case h_4 => exact .inl hOut
    all_goals exact .inr rfl
  all_goals exact .inr rfl

theorem primary_kOp31 {xo : Nat} {op : PpcOp} (h : kOp31.lookup xo = some op) :
    op.primary = 31 := by
  have hAll : ∀ p ∈ kOp31, p.2.primary = 31 := by decide
  obtain ⟨l₁, l₂, hEq, -⟩ := List.lookup_eq_some_iff.1 h
  exact hAll (xo, op) (hEq ▸ List.mem_append_right _ List.mem_cons_self)

theorem fitsPrimary_ppcDecodeOp31Xform (hOut : out.op = .unknown) :
    (ppcDecodeOp31Xform insn out).FitsPrimary 31 := by
  unfold ppcDecodeOp31Xform
  dsimp only
  split
  case h_1 => exact .inl hOut
  case h_2 =>
    split
    · exact .inl hOut
    · exact .inr rfl
  case h_3 =>
    split
    · exact .inl hOut
    · exact .inr rfl
  case h_4 => exact .inr rfl
  case h_5 => exact .inr rfl
  case h_6 op _ _ _ _ hLookup => exact .inr (primary_kOp31 hLookup)

theorem fitsPrimary_decodeOpcode31 (hOut : out.op = .unknown) :
    (decodeOpcode31 insn out).FitsPrimary 31 := by
  unfold decodeOpcode31
  dsimp only
  split
  case h_1 =>
    by_cases hLr : decodeSpr insn = 8
    · exact .inr (by simp [hLr, PpcOp.primary])
    by_cases hCtr : decodeSpr insn = 9
    · exact .inr (by simp [hCtr, PpcOp.primary])
    · exact .inl (by simp [hLr, hCtr, hOut])
  case h_2 =>
    by_cases hLr : decodeSpr insn = 8
    · exact .inr (by simp [hLr, PpcOp.primary])
    by_cases hCtr : decodeSpr insn = 9
    · exact .inr (by simp [hCtr, PpcOp.primary])
    · exact .inl (by simp [hLr, hCtr, hOut])
  case h_3 =>
    split
    · exact .inr rfl
    · exact fitsPrimary_ppcDecodeOp31Xform hOut
  case h_4 => exact fitsPrimary_ppcDecodeOp31Xform hOut

theorem fitsPrimary_decodeOpcode63 (hOut : out.op = .unknown) :
    (decodeOpcode63 insn out).FitsPrimary 63 := by
  unfold decodeOpcode63
  dsimp only
  split
  case h_7 => exact .inl hOut
  all_goals exact .inr rfl

theorem fitsPrimary_decodeOpcode19 (hOut : out.op = .unknown) :
    (decodeOpcode19 insn out).FitsPrimary 19 := by
  unfold decodeOpcode19 PpcInsn.FitsPrimary
  dsimp only
  split
  · exact .inr rfl
  · split
    · exact .inr rfl
    · exact .inl hOut

theorem fitsPrimary_decodeIformBranch (vaddr : BitVec 32) :
    (decodeIformBranch insn vaddr out).FitsPrimary 18 := by
  unfold decodeIformBranch PpcInsn.FitsPrimary
  dsimp only
  split
  · exact .inr rfl
  · split
    · exact .inr rfl
    · split <;> exact .inr rfl

theorem fitsPrimary_decodeCmpi (hOut : out.op = .unknown) : (decodeCmpi insn out).FitsPrimary 11 := by
  unfold decodeCmpi
  split
  · exact .inl hOut
  · exact .inr rfl

theorem fitsPrimary_decodeCmpli (hOut : out.op = .unknown) :
    (decodeCmpli insn out).FitsPrimary 10 := by
  unfold decodeCmpli
  split
  · exact .inr rfl
  · exact .inl hOut

theorem fitsPrimary_decodeOri : (decodeOri insn out).FitsPrimary 24 := by
  unfold decodeOri PpcInsn.FitsPrimary
  dsimp only
  split <;> exact .inr rfl

/-- An operation tells the primary opcode of its word. -/
theorem fitsPrimary_ppcDecode (word vaddr : BitVec 32) :
    (ppcDecode word vaddr).FitsPrimary (ppcBits word 0 5) := by
  unfold ppcDecode
  dsimp only
  split
  case h_45 => exact .inl rfl
  all_goals
    rename_i hPrimary
    first
    | exact .inr hPrimary.symm
    | exact fitsPrimary_ppcDecodePsq rfl
    | exact hPrimary ▸ fitsPrimary_ppcDecodeOpcode4 rfl
    | exact hPrimary ▸ fitsPrimary_decodeOpcode31 rfl
    | exact hPrimary ▸ fitsPrimary_decodeOpcode63 rfl
    | exact hPrimary ▸ fitsPrimary_decodeOpcode19 rfl
    | exact hPrimary ▸ fitsPrimary_decodeIformBranch vaddr
    | exact hPrimary ▸ fitsPrimary_decodeCmpi rfl
    | exact hPrimary ▸ fitsPrimary_decodeCmpli rfl
    | exact hPrimary ▸ fitsPrimary_decodeOri

theorem ppcDecode_primary {word vaddr : BitVec 32} {op : PpcOp} (h : (ppcDecode word vaddr).op = op)
    (hKnown : op ≠ .unknown) : ppcBits word 0 5 = op.primary := by
  subst h
  exact ((fitsPrimary_ppcDecode word vaddr).resolve_left hKnown).symm

end Primary

/-! ## Branches -/

/-- The operations that the forms of the primary opcodes 16, 18 and 19 give. -/
def PpcOp.isBranch : PpcOp → Bool
  | .b | .ba | .bl | .bla | .bc | .blr | .bctr => true
  | _ => false

/-- No other word is a branch. -/
theorem isBranch_ppcDecode {word vaddr : BitVec 32} (h16 : ppcBits word 0 5 ≠ 16)
    (h18 : ppcBits word 0 5 ≠ 18) (h19 : ppcBits word 0 5 ≠ 19) :
    (ppcDecode word vaddr).op.isBranch = false := by
  have hFits := fitsPrimary_ppcDecode word vaddr
  unfold PpcInsn.FitsPrimary at hFits
  cases hOp : (ppcDecode word vaddr).op
  all_goals
    rw [hOp] at hFits
    first
    | rfl
    | (rcases hFits with hUnknown | hPrimary
       · exact nomatch hUnknown
       · first
         | exact absurd hPrimary.symm h16
         | exact absurd hPrimary.symm h18
         | exact absurd hPrimary.symm h19)

theorem ppcDecode_bform {word vaddr : BitVec 32} (h : ppcBits word 0 5 = 16) :
    ppcDecode word vaddr = decodeBformBranch word vaddr { raw := word, addr := vaddr } := by
  unfold ppcDecode
  rw [h]
  rfl

theorem ppcDecode_iform {word vaddr : BitVec 32} (h : ppcBits word 0 5 = 18) :
    ppcDecode word vaddr = decodeIformBranch word vaddr { raw := word, addr := vaddr } := by
  unfold ppcDecode
  rw [h]
  rfl

theorem ppcDecode_opcode19 {word vaddr : BitVec 32} (h : ppcBits word 0 5 = 19) :
    ppcDecode word vaddr = decodeOpcode19 word { raw := word, addr := vaddr } := by
  unfold ppcDecode
  rw [h]
  rfl

/-- A displacement of words keeps its two zero bits. -/
theorem ppcSext_aligned (v width : Nat) (hWidth : 2 ≤ width) (h : width ≤ 32) :
    (ppcSext (v * 4) width).toNat % 4 = 0 := by
  have hDvd : 4 ∣ 2 ^ width := by
    obtain ⟨k, rfl⟩ := Nat.exists_eq_add_of_le hWidth
    exact ⟨2 ^ k, by rw [Nat.pow_add]⟩
  have hSmall : (BitVec.ofNat width (v * 4)).toNat % 4 = 0 := by
    rw [BitVec.toNat_ofNat, Nat.mod_mod_of_dvd _ hDvd]
    omega
  rw [ppcSext, BitVec.toNat_signExtend, BitVec.toNat_setWidth]
  rw [Nat.mod_eq_of_lt (Nat.lt_of_lt_of_le (BitVec.isLt _) (Nat.pow_le_pow_right (by omega) h))]
  split
  · omega
  · omega

end Calynda.Decompiler
