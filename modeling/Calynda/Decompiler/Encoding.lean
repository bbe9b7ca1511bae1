import Calynda.Decompiler.Ppc
import Calynda.Lib.BitFields

/-!
# The encoding of instructions

The words that the architecture assigns to the instructions that the decoder knows, field by
field, and for which words the decoder inverts this assignment. It does where the bits that it
does not look at are zero; the fused multiplications have an operand more than its result.
-/

namespace Calynda.Decompiler

/-! ## The instructions of the architecture -/

/-- The operations with two registers and a sign-extended immediate or displacement. -/
def dOps : List PpcOp :=
  [.addi, .addis, .mulli, .lwz, .lwzu, .lbz, .lbzu, .stw, .stwu, .stb, .stbu, .lhz, .lhzu, .lha,
    .lhau, .sth, .sthu, .lmw, .stmw, .lfs, .lfsu, .lfd, .lfdu, .stfs, .stfsu, .stfd, .stfdu]

/-- The operations of primary opcode 31 with three register fields; `or` of a register with
itself is `mr`, and `srawi` has its shift amount in the third field. -/
def xOps : List PpcOp :=
  [.mullw, .mulhw, .mulhwu, .divw, .divwu, .and, .or, .xor, .nand, .nor, .eqv, .andc, .orc, .slw,
    .srw, .sraw, .srawi, .add, .subf]

/-- The extended opcode, with the overflow bit in front where there is one. -/
@[simp] def PpcOp.extended : PpcOp → Nat
  | .blr => 16
  | .bctr => 528
  | .mflr | .mfctr => 339
  | .mtlr | .mtctr => 467
  | .cmpw => 0
  | .cmplw => 32
  | .mullw => 235
  | .mulhw => 75
  | .mulhwu => 11
  | .divw => 491
  | .divwu => 459
  | .and => 28
  | .or => 444
  | .xor => 316
  | .nand => 476
  | .nor => 124
  | .eqv => 284
  | .andc => 60
  | .orc => 412
  | .slw => 24
  | .srw => 536
  | .sraw => 792
  | .srawi => 824
  | .add => 266
  | .subf => 40
  | .neg => 104
  | .fadd | .psAdd => 21
  | .fsub | .psSub => 20
  | .fdiv | .psDiv => 18
  | .fmul | .psMul => 25
  | .psMadd => 29
  | .psMsub => 28
  | .fmr | .psMr => 72
  | .fneg | .psNeg => 40
  | _ => 0

/-- The number of the link register and of the count register. -/
def PpcOp.sprNumber : PpcOp → Nat
  | .mflr | .mtlr => 8
  | _ => 9

/-- An instruction with its operands, in the order of its fields. -/
inductive GekkoInsn where
  | iform (li : BitVec 24) (aa lk : BitVec 1)
  | bform (bo bi : BitVec 5) (bd : BitVec 14) (aa lk : BitVec 1)
  | toRegister (op : PpcOp) (h : op ∈ [PpcOp.blr, .bctr])
  | dform (op : PpcOp) (h : op ∈ dOps) (d a : BitVec 5) (imm : BitVec 16)
  | logicalImm (op : PpcOp) (h : op ∈ [PpcOp.ori, .andiDot]) (s a : BitVec 5) (imm : BitVec 16)
  | compareImm (op : PpcOp) (h : op ∈ [PpcOp.cmpwi, .cmplwi]) (crf : BitVec 3) (a : BitVec 5)
      (imm : BitVec 16)
  | mform (op : PpcOp) (h : op ∈ [PpcOp.rlwinm, .rlwimi, .rlwnm]) (s a b mb me : BitVec 5)
  | quantized (op : PpcOp) (h : op ∈ [PpcOp.psqL, .psqLu, .psqSt, .psqStu]) (d a : BitVec 5)
      (w : BitVec 1) (i : BitVec 3) (disp : BitVec 12)
  | special (op : PpcOp) (h : op ∈ [PpcOp.mflr, .mfctr, .mtlr, .mtctr]) (r : BitVec 5)
  | compare (op : PpcOp) (h : op ∈ [PpcOp.cmpw, .cmplw]) (crf : BitVec 3) (a b : BitVec 5)
  | xform (op : PpcOp) (h : op ∈ xOps) (d a b : BitVec 5)
  | neg (d a : BitVec 5)
  | float (op : PpcOp) (h : op ∈ [PpcOp.fadd, .fsub, .fdiv, .psAdd, .psSub, .psDiv])
      (d a b : BitVec 5)
  | floatMove (op : PpcOp) (h : op ∈ [PpcOp.fmr, .fneg, .psMr, .psNeg]) (d b : BitVec 5)
  | floatMul (op : PpcOp) (h : op ∈ [PpcOp.fmul, .psMul]) (d a c : BitVec 5)
  | fused (op : PpcOp) (h : op ∈ [PpcOp.psMadd, .psMsub]) (d a c b : BitVec 5)

namespace GekkoInsn

/-- The fields of an instruction: what is not an operand or an opcode is reserved, and the
record bit is zero. -/
def fields : GekkoInsn → List (Nat × Nat)
  | iform li aa lk => [(6, 18), (24, li.toNat), (1, aa.toNat), (1, lk.toNat)]
  | bform bo bi bd aa lk =>
    [(6, 16), (5, bo.toNat), (5, bi.toNat), (14, bd.toNat), (1, aa.toNat), (1, lk.toNat)]
  | toRegister op _ => [(6, 19), (5, 20), (5, 0), (5, 0), (10, op.extended), (1, 0)]
  | dform op _ d a imm => [(6, op.primary), (5, d.toNat), (5, a.toNat), (16, imm.toNat)]
  | logicalImm op _ s a imm => [(6, op.primary), (5, s.toNat), (5, a.toNat), (16, imm.toNat)]
  | compareImm op _ crf a imm =>
    [(6, op.primary), (3, crf.toNat), (1, 0), (1, 0), (5, a.toNat), (16, imm.toNat)]
  | mform op _ s a b mb me =>
    [(6, op.primary), (5, s.toNat), (5, a.toNat), (5, b.toNat), (5, mb.toNat), (5, me.toNat),
      (1, 0)]
  | quantized op _ d a w i disp =>
    [(6, op.primary), (5, d.toNat), (5, a.toNat), (1, w.toNat), (3, i.toNat), (12, disp.toNat)]
  | special op _ r =>
    [(6, 31), (5, r.toNat), (5, op.sprNumber), (5, 0), (10, op.extended), (1, 0)]
  | compare op _ crf a b =>
    [(6, 31), (3, crf.toNat), (1, 0), (1, 0), (5, a.toNat), (5, b.toNat), (10, op.extended), (1, 0)]
  | xform op _ d a b =>
    [(6, 31), (5, d.toNat), (5, a.toNat), (5, b.toNat), (10, op.extended), (1, 0)]
  | neg d a => [(6, 31), (5, d.toNat), (5, a.toNat), (5, 0), (10, PpcOp.neg.extended), (1, 0)]
  | float op _ d a b =>
    [(6, op.primary), (5, d.toNat), (5, a.toNat), (5, b.toNat), (5, 0), (5, op.extended), (1, 0)]
  | floatMove op _ d b =>
    [(6, op.primary), (5, d.toNat), (5, 0), (5, b.toNat), (10, op.extended), (1, 0)]
  | floatMul op _ d a c =>
    [(6, op.primary), (5, d.toNat), (5, a.toNat), (5, 0), (5, c.toNat), (5, op.extended), (1, 0)]
  | fused op _ d a c b =>
    [(6, 4), (5, d.toNat), (5, a.toNat), (5, b.toNat), (5, c.toNat), (5, op.extended), (1, 0)]

/-- The word that the architecture assigns to an instruction. -/
def word (i : GekkoInsn) : BitVec 32 := BitVec.ofNat 32 (BitFields.pack i.fields)

/-- The target of a branch with a displacement of words. -/
def branchTarget (vaddr disp : BitVec 32) (aa : BitVec 1) : BitVec 32 :=
  if aa = 1 then disp else vaddr + disp

/-- The register fields of a decoded instruction. -/
def registers (out : PpcInsn) : List Nat := [out.rd, out.ra, out.rb]

/-- A decoded instruction has the operation of an instruction and all its operands. -/
def Shows (vaddr : BitVec 32) (out : PpcInsn) : GekkoInsn → Prop
  | iform li aa lk =>
    out.op = (if aa = 1 then (if lk = 1 then .bla else .ba) else if lk = 1 then .bl else .b) ∧
    out.target = branchTarget vaddr ((li ++ (0 : BitVec 2)).signExtend 32) aa
  | bform bo bi bd aa lk =>
    out.op = .bc ∧ out.rd = bo.toNat ∧ out.ra = bi.toNat ∧ out.aa = aa.toNat ∧
    out.lk = lk.toNat ∧
    out.target = branchTarget vaddr ((bd ++ (0 : BitVec 2)).signExtend 32) aa
  | toRegister op _ => out.op = op
  | dform op _ d a imm =>
    out.op = op ∧ out.rd = d.toNat ∧ out.ra = a.toNat ∧ out.imm = imm.signExtend 32
  | logicalImm op _ s a imm =>
    out.op = (if op = .ori ∧ s = 0 ∧ a = 0 ∧ imm = 0 then .nop else op) ∧
    out.rd = s.toNat ∧ out.ra = a.toNat ∧ out.imm = imm.setWidth 32
  | compareImm op _ crf a imm =>
    out.op = op ∧ out.rd = crf.toNat ∧ out.ra = a.toNat ∧
    out.imm = if op = .cmpwi then imm.signExtend 32 else imm.setWidth 32
  | mform op _ s a b mb me =>
    out.op = op ∧ out.rd = s.toNat ∧ out.ra = a.toNat ∧
    (if op = .rlwnm then out.rb else out.sh) = b.toNat ∧ out.mb = mb.toNat ∧ out.me = me.toNat
  | quantized op _ d a w i disp =>
    out.op = op ∧ out.rd = d.toNat ∧ out.ra = a.toNat ∧ out.sh = w.toNat ∧ out.mb = i.toNat ∧
    out.imm = disp.signExtend 32
  | special op _ r => out.op = op ∧ out.rd = r.toNat
  | compare op _ crf a b => out.op = op ∧ registers out = [crf.toNat, a.toNat, b.toNat]
  | xform op _ d a b =>
    if op = .or ∧ d = b then out.op = .mr ∧ out.rd = a.toNat ∧ out.ra = d.toNat
    else
      out.op = op ∧ out.rd = d.toNat ∧ out.ra = a.toNat ∧
      (if op = .srawi then out.sh else out.rb) = b.toNat
  | neg d a => out.op = .neg ∧ out.rd = d.toNat ∧ out.ra = a.toNat
  | float op _ d a b => out.op = op ∧ registers out = [d.toNat, a.toNat, b.toNat]
  | floatMove op _ d b => out.op = op ∧ out.rd = d.toNat ∧ out.rb = b.toNat
  | floatMul op _ d a c => out.op = op ∧ registers out = [d.toNat, a.toNat, c.toNat]
  | fused op _ d a c b => out.op = op ∧ registers out = [d.toNat, a.toNat, c.toNat, b.toNat]

end GekkoInsn

/-- The decoder is right about a word: it gives the instructions that are encoded so with all
their operands, and nothing where there is none. -/
def DecodesRight (word vaddr : BitVec 32) : Prop :=
  (∀ i : GekkoInsn, i.word = word → i.Shows vaddr (ppcDecode word vaddr)) ∧
    ((∀ i : GekkoInsn, i.word ≠ word) → (ppcDecode word vaddr).op = .unknown)

/-- The bits that the decoder ignores are zero, and the word is none of the multiplications
whose operands it does not all read. -/
def IgnoresNothing (word : BitVec 32) : Prop :=
  let xo := ppcBits word 21 30
  let xo5 := ppcBits word 26 30
  let ra := ppcBits word 11 15
  let rb := ppcBits word 16 20
  let rc := ppcBits word 31 31
  match ppcBits word 0 5 with
  | 4 =>
    if xo = 21 ∨ xo = 20 ∨ xo = 18 then rc = 0
    else if xo = 72 ∨ xo = 40 then ra = 0 ∧ rc = 0
    else if xo5 = 25 then rb = 0 ∧ rc = 0
    else xo5 ≠ 29 ∧ xo5 ≠ 28
  | 10 | 11 => ppcBits word 10 10 = 0 → ppcBits word 9 9 = 0
  | 19 => (xo = 16 ∨ xo = 528) → ppcBits word 6 10 = 20 → ra = 0 → rc = 0 → rb = 0
  | 20 | 21 | 23 => rc = 0
  | 31 =>
    if xo = 339 ∨ xo = 467 then decodeSpr word = 8 ∨ decodeSpr word = 9 → rc = 0
    else if xo = 0 ∨ xo = 32 then ppcBits word 10 10 = 0 → ppcBits word 9 9 = 0 ∧ rc = 0
    else if xo = 104 then rb = 0 ∧ rc = 0
    else xo ∈ xOps.map PpcOp.extended → rc = 0
  | 63 =>
    if xo = 21 ∨ xo = 20 ∨ xo = 18 then rc = 0
    else if xo = 72 ∨ xo = 40 then ra = 0 ∧ rc = 0
    else if xo = 25 then rb = 0 ∧ rc = 0
    else ¬ (xo5 = 25 ∧ rb = 0 ∧ rc = 0)
  | _ => True

/-! ## Words and their fields -/

section Fields

variable {i : GekkoInsn} {w vaddr : BitVec 32} {op : PpcOp}

theorem primary_lt (op : PpcOp) : op.primary < 2 ^ 6 := by
  cases op <;> decide

theorem extended_lt (op : PpcOp) : op.extended < 2 ^ 10 := by
  cases op <;> decide

theorem sprNumber_lt (op : PpcOp) : op.sprNumber < 2 ^ 5 := by
  cases op <;> decide

/-- The forms with an operand in front of the extended opcode have a short one. -/
theorem extended_lt_of_float
    (h : op ∈ [PpcOp.fadd, .fsub, .fdiv, .psAdd, .psSub, .psDiv] ∨ op ∈ [PpcOp.fmul, .psMul] ∨
      op ∈ [PpcOp.psMadd, .psMsub]) : op.extended < 2 ^ 5 := by
  revert h
  cases op <;> decide

theorem GekkoInsn.fit_fields (i : GekkoInsn) : BitFields.Fit i.fields := by
  unfold BitFields.Fit
  cases i
  all_goals
    simp only [GekkoInsn.fields, List.forall_mem_cons, List.not_mem_nil, false_implies,
      implies_true, and_true]
    and_intros
    all_goals
      first
      | omega
      | exact primary_lt _
      | exact extended_lt _
      | exact sprNumber_lt _
      | exact extended_lt_of_float (.inl ‹_›)
      | exact extended_lt_of_float (.inr (.inl ‹_›))
      | exact extended_lt_of_float (.inr (.inr ‹_›))

theorem GekkoInsn.width_fields (i : GekkoInsn) : BitFields.width i.fields = 32 := by
  cases i <;> rfl

theorem GekkoInsn.holds_word (i : GekkoInsn) : BitFields.Holds i.word.toNat i.fields := by
  have hLt := BitFields.pack_lt i.fit_fields
  rw [i.width_fields] at hLt
  rw [GekkoInsn.word, BitVec.toNat_ofNat, Nat.mod_eq_of_lt hLt]
  exact BitFields.holds_pack i.fit_fields

/-- A word is that of an instruction when it has its fields. -/
theorem GekkoInsn.word_eq (h : BitFields.Holds w.toNat i.fields) : i.word = w := by
  have hPack := BitFields.pack_of_holds h
  rw [i.width_fields, Nat.mod_eq_of_lt w.isLt] at hPack
  rw [GekkoInsn.word, ← hPack, BitVec.ofNat_toNat, BitVec.setWidth_eq]

end Fields

/-! ## The decoder by primary opcode -/

section Dispatch

variable {w vaddr : BitVec 32} {op : PpcOp}

/-- What the decoder starts from. -/
def blankInsn (w vaddr : BitVec 32) : PpcInsn := { raw := w, addr := vaddr }

theorem ppcDecode_dform (h : op ∈ dOps) (hp : ppcBits w 0 5 = op.primary) :
    ppcDecode w vaddr = decodeDformArith w (blankInsn w vaddr) op := by
  cases op
  all_goals
    first
    | exact absurd h (by decide)
    | (unfold ppcDecode
       rw [hp]
       rfl)

theorem ppcDecode_mform (h : op ∈ [PpcOp.rlwinm, .rlwimi, .rlwnm])
    (hp : ppcBits w 0 5 = op.primary) :
    ppcDecode w vaddr = ppcDecodeMform w (blankInsn w vaddr) op := by
  cases op
  all_goals
    first
    | exact absurd h (by decide)
    | (unfold ppcDecode
       rw [hp]
       rfl)

theorem ppcDecode_quantized (h : op ∈ [PpcOp.psqL, .psqLu, .psqSt, .psqStu])
    (hp : ppcBits w 0 5 = op.primary) :
    ppcDecode w vaddr = decodePsqDform w (blankInsn w vaddr) op := by
  cases op
  all_goals
    first
    | exact absurd h (by decide)
    | (unfold ppcDecode
       rw [hp]
       unfold ppcDecodePsq
       rw [hp]
       rfl)

theorem ppcDecode_four (hp : ppcBits w 0 5 = 4) :
    ppcDecode w vaddr = ppcDecodeOpcode4 w (blankInsn w vaddr) := by
  unfold ppcDecode
  rw [hp]
  rfl

theorem ppcDecode_cmpli (hp : ppcBits w 0 5 = 10) :
    ppcDecode w vaddr = decodeCmpli w (blankInsn w vaddr) := by
  unfold ppcDecode
  rw [hp]
  rfl

theorem ppcDecode_cmpi (hp : ppcBits w 0 5 = 11) :
    ppcDecode w vaddr = decodeCmpi w (blankInsn w vaddr) := by
  unfold ppcDecode
  rw [hp]
  rfl

theorem ppcDecode_twentyFour (hp : ppcBits w 0 5 = 24) :
    ppcDecode w vaddr = decodeOri w (blankInsn w vaddr) := by
  unfold ppcDecode
  rw [hp]
  rfl

theorem ppcDecode_andiDot (hp : ppcBits w 0 5 = 28) :
    ppcDecode w vaddr = decodeAndiDot w (blankInsn w vaddr) := by
  unfold ppcDecode
  rw [hp]
  rfl

theorem ppcDecode_thirtyOne (hp : ppcBits w 0 5 = 31) :
    ppcDecode w vaddr = decodeOpcode31 w (blankInsn w vaddr) := by
  unfold ppcDecode
  rw [hp]
  rfl

theorem ppcDecode_sixtyThree (hp : ppcBits w 0 5 = 63) :
    ppcDecode w vaddr = decodeOpcode63 w (blankInsn w vaddr) := by
  unfold ppcDecode
  rw [hp]
  rfl

theorem ppcBits_xo (w : BitVec 32) :
    ppcBits w 21 30 = ppcBits w 21 25 * 32 + ppcBits w 26 30 := by
  unfold ppcBits
  omega

theorem decodeSpr_eq (w : BitVec 32) :
    decodeSpr w = ppcBits w 16 20 * 32 + ppcBits w 11 15 := by
  simp only [decodeSpr, ppcBits]
  omega

theorem eq_zero_or_one (x : BitVec 1) : x = 0 ∨ x = 1 := by
  revert x
  decide

theorem ppcSext_toNat {n : Nat} (x : BitVec n) : ppcSext x.toNat n = x.signExtend 32 := by
  rw [ppcSext, BitVec.ofNat_toNat, BitVec.setWidth_eq]

/-- A displacement of words has two zero bits behind it. -/
theorem ppcSext_words {n : Nat} (x : BitVec n) :
    ppcSext (x.toNat * 4) (n + 2) = (x ++ (0 : BitVec 2)).signExtend 32 := by
  have hEq : BitVec.ofNat (n + 2) (x.toNat * 4) = x ++ (0 : BitVec 2) := by
    apply BitVec.eq_of_toNat_eq
    have hLt : x.toNat * 4 < 2 ^ (n + 2) := by
      rw [Nat.pow_add]
      exact Nat.mul_lt_mul_of_pos_right x.isLt (by decide)
    rw [BitVec.toNat_ofNat, Nat.mod_eq_of_lt hLt, BitVec.toNat_append, Nat.shiftLeft_eq]
    simp
  rw [ppcSext, hEq]

end Dispatch

/-! ## What the decoder makes of an instruction -/

namespace GekkoInsn

variable {i : GekkoInsn} {w vaddr : BitVec 32}

/-- The decoder reads every operand. -/
def AllRead : GekkoInsn → Prop
  | floatMul op _ _ _ c => op = .fmul → c = 0
  | fused .. => False
  | _ => True

theorem shows_branch {li : BitVec 24} {aa lk : BitVec 1}
    (h : BitFields.Holds w.toNat (iform li aa lk).fields) :
    (iform li aa lk).Shows vaddr (ppcDecode w vaddr) := by
  obtain ⟨hp, hLi, hAa, hLk, -⟩ := h
  replace hp : ppcBits w 0 5 = 18 := hp
  replace hLi : ppcBits w 6 29 = li.toNat := hLi
  replace hAa : ppcBits w 30 30 = aa.toNat := hAa
  replace hLk : ppcBits w 31 31 = lk.toNat := hLk
  rw [ppcDecode_iform hp]
  have hDisp := ppcSext_words li
  simp only [Shows, decodeIformBranch, hLi, hAa, hLk, branchTarget, hDisp]
  rcases eq_zero_or_one aa with rfl | rfl <;> rcases eq_zero_or_one lk with rfl | rfl <;>
    exact ⟨rfl, rfl⟩

theorem shows_bform {bo bi : BitVec 5} {bd : BitVec 14} {aa lk : BitVec 1}
    (h : BitFields.Holds w.toNat (bform bo bi bd aa lk).fields) :
    (bform bo bi bd aa lk).Shows vaddr (ppcDecode w vaddr) := by
  obtain ⟨hp, hBo, hBi, hBd, hAa, hLk, -⟩ := h
  replace hp : ppcBits w 0 5 = 16 := hp
  replace hBo : ppcBits w 6 10 = bo.toNat := hBo
  replace hBi : ppcBits w 11 15 = bi.toNat := hBi
  replace hBd : ppcBits w 16 29 = bd.toNat := hBd
  replace hAa : ppcBits w 30 30 = aa.toNat := hAa
  replace hLk : ppcBits w 31 31 = lk.toNat := hLk
  rw [ppcDecode_bform hp]
  have hDisp := ppcSext_words bd
  simp only [Shows, decodeBformBranch, hBo, hBi, hBd, hAa, hLk, branchTarget, hDisp, true_and]
  rcases eq_zero_or_one aa with rfl | rfl <;> rfl

theorem shows_dform {op : PpcOp} {hOp : op ∈ dOps} {d a : BitVec 5} {imm : BitVec 16}
    (h : BitFields.Holds w.toNat (dform op hOp d a imm).fields) :
    (dform op hOp d a imm).Shows vaddr (ppcDecode w vaddr) := by
  obtain ⟨hp, hD, hA, hImm, -⟩ := h
  replace hD : ppcBits w 6 10 = d.toNat := hD
  replace hA : ppcBits w 11 15 = a.toNat := hA
  replace hImm : ppcBits w 16 31 = imm.toNat := hImm
  rw [ppcDecode_dform hOp hp]
  simp only [Shows, decodeDformArith, hD, hA, hImm, ppcSext_toNat, and_self]

theorem toNat_eq_zero_iff {n : Nat} (x : BitVec n) : x.toNat = 0 ↔ x = 0 :=
  ⟨fun h => BitVec.eq_of_toNat_eq h, fun h => by rw [h]; rfl⟩

theorem shows_logicalImm {op : PpcOp} {hOp : op ∈ [PpcOp.ori, .andiDot]} {s a : BitVec 5}
    {imm : BitVec 16} (h : BitFields.Holds w.toNat (logicalImm op hOp s a imm).fields) :
    (logicalImm op hOp s a imm).Shows vaddr (ppcDecode w vaddr) := by
  obtain ⟨hp, hS, hA, hImm, -⟩ := h
  replace hp : ppcBits w 0 5 = op.primary := hp
  replace hS : ppcBits w 6 10 = s.toNat := hS
  replace hA : ppcBits w 11 15 = a.toNat := hA
  replace hImm : ppcBits w 16 31 = imm.toNat := hImm
  simp only [List.mem_cons, List.not_mem_nil, or_false] at hOp
  rcases hOp with rfl | rfl
  · rw [ppcDecode_twentyFour hp]
    have hZero : BitVec.setWidth 32 imm = 0 ↔ imm = 0 := by
      rw [← toNat_eq_zero_iff, ← toNat_eq_zero_iff imm, BitVec.toNat_setWidth,
        Nat.mod_eq_of_lt (by omega)]
    simp only [Shows, decodeOri, hS, hA, hImm, BitVec.ofNat_toNat, toNat_eq_zero_iff, hZero,
      true_and, and_self]
  · rw [ppcDecode_andiDot hp]
    simp only [Shows, decodeAndiDot, hS, hA, hImm, BitVec.ofNat_toNat, reduceCtorEq, false_and,
      if_false, and_self]

theorem shows_compareImm {op : PpcOp} {hOp : op ∈ [PpcOp.cmpwi, .cmplwi]} {crf : BitVec 3}
    {a : BitVec 5} {imm : BitVec 16}
    (h : BitFields.Holds w.toNat (compareImm op hOp crf a imm).fields) :
    (compareImm op hOp crf a imm).Shows vaddr (ppcDecode w vaddr) := by
  obtain ⟨hp, hCrf, -, hL, hA, hImm, -⟩ := h
  replace hp : ppcBits w 0 5 = op.primary := hp
  replace hCrf : ppcBits w 6 8 = crf.toNat := hCrf
  replace hL : ppcBits w 10 10 = 0 := hL
  replace hA : ppcBits w 11 15 = a.toNat := hA
  replace hImm : ppcBits w 16 31 = imm.toNat := hImm
  simp only [List.mem_cons, List.not_mem_nil, or_false] at hOp
  rcases hOp with rfl | rfl
  · rw [ppcDecode_cmpi hp]
    simp only [Shows, decodeCmpi, hL, ne_eq, not_true_eq_false, if_false, hCrf, hA, hImm,
      ppcSext_toNat, if_true, and_self]
  · rw [ppcDecode_cmpli hp]
    simp only [Shows, decodeCmpli, hL, if_true, hCrf, hA, hImm, BitVec.ofNat_toNat, reduceCtorEq,
      if_false, and_self]

theorem shows_mform {op : PpcOp} {hOp : op ∈ [PpcOp.rlwinm, .rlwimi, .rlwnm]}
    {s a b mb me : BitVec 5} (h : BitFields.Holds w.toNat (mform op hOp s a b mb me).fields) :
    (mform op hOp s a b mb me).Shows vaddr (ppcDecode w vaddr) := by
  obtain ⟨hp, hS, hA, hB, hMb, hMe, -⟩ := h
  replace hS : ppcBits w 6 10 = s.toNat := hS
  replace hA : ppcBits w 11 15 = a.toNat := hA
  replace hB : ppcBits w 16 20 = b.toNat := hB
  replace hMb : ppcBits w 21 25 = mb.toNat := hMb
  replace hMe : ppcBits w 26 30 = me.toNat := hMe
  rw [ppcDecode_mform hOp hp]
  simp only [Shows, ppcDecodeMform, hS, hA, hB, hMb, hMe, ite_self, and_self]

theorem shows_quantized {op : PpcOp} {hOp : op ∈ [PpcOp.psqL, .psqLu, .psqSt, .psqStu]}
    {d a : BitVec 5} {u : BitVec 1} {q : BitVec 3} {disp : BitVec 12}
    (h : BitFields.Holds w.toNat (quantized op hOp d a u q disp).fields) :
    (quantized op hOp d a u q disp).Shows vaddr (ppcDecode w vaddr) := by
  obtain ⟨hp, hD, hA, hU, hQ, hDisp, -⟩ := h
  replace hD : ppcBits w 6 10 = d.toNat := hD
  replace hA : ppcBits w 11 15 = a.toNat := hA
  replace hU : ppcBits w 16 16 = u.toNat := hU
  replace hQ : ppcBits w 17 19 = q.toNat := hQ
  replace hDisp : ppcBits w 20 31 = disp.toNat := hDisp
  rw [ppcDecode_quantized hOp hp]
  simp only [Shows, decodePsqDform, hD, hA, hU, hQ, hDisp, ppcSext_toNat, and_self]

theorem shows_toRegister {op : PpcOp} {hOp : op ∈ [PpcOp.blr, .bctr]}
    (h : BitFields.Holds w.toNat (toRegister op hOp).fields) :
    (toRegister op hOp).Shows vaddr (ppcDecode w vaddr) := by
  obtain ⟨hp, hBo, hBi, -, hXo, hLk, -⟩ := h
  replace hp : ppcBits w 0 5 = 19 := hp
  replace hBo : ppcBits w 6 10 = 20 := hBo
  replace hBi : ppcBits w 11 15 = 0 := hBi
  replace hXo : ppcBits w 21 30 = op.extended := hXo
  replace hLk : ppcBits w 31 31 = 0 := hLk
  rw [ppcDecode_opcode19 hp]
  simp only [List.mem_cons, List.not_mem_nil, or_false] at hOp
  rcases hOp with rfl | rfl <;> simp [Shows, decodeOpcode19, hBo, hBi, hXo, hLk, PpcOp.extended]

theorem shows_special {op : PpcOp} {hOp : op ∈ [PpcOp.mflr, .mfctr, .mtlr, .mtctr]}
    {r : BitVec 5} (h : BitFields.Holds w.toNat (special op hOp r).fields) :
    (special op hOp r).Shows vaddr (ppcDecode w vaddr) := by
  obtain ⟨hp, hR, hLow, hHigh, hXo, -⟩ := h
  replace hp : ppcBits w 0 5 = 31 := hp
  replace hR : ppcBits w 6 10 = r.toNat := hR
  replace hLow : ppcBits w 11 15 = op.sprNumber := hLow
  replace hHigh : ppcBits w 16 20 = 0 := hHigh
  replace hXo : ppcBits w 21 30 = op.extended := hXo
  have hSpr : decodeSpr w = op.sprNumber := by rw [decodeSpr_eq, hLow, hHigh, Nat.zero_mul, Nat.zero_add]
  rw [ppcDecode_thirtyOne hp]
  simp only [List.mem_cons, List.not_mem_nil, or_false] at hOp
  rcases hOp with rfl | rfl | rfl | rfl <;>
    simp [Shows, decodeOpcode31, hXo, hSpr, hR, PpcOp.extended, PpcOp.sprNumber]

theorem shows_compare {op : PpcOp} {hOp : op ∈ [PpcOp.cmpw, .cmplw]} {crf : BitVec 3}
    {a b : BitVec 5} (h : BitFields.Holds w.toNat (compare op hOp crf a b).fields) :
    (compare op hOp crf a b).Shows vaddr (ppcDecode w vaddr) := by
  obtain ⟨hp, hCrf, -, hL, hA, hB, hXo, -⟩ := h
  replace hp : ppcBits w 0 5 = 31 := hp
  replace hCrf : ppcBits w 6 8 = crf.toNat := hCrf
  replace hL : ppcBits w 10 10 = 0 := hL
  replace hA : ppcBits w 11 15 = a.toNat := hA
  replace hB : ppcBits w 16 20 = b.toNat := hB
  replace hXo : ppcBits w 21 30 = op.extended := hXo
  rw [ppcDecode_thirtyOne hp]
  simp only [List.mem_cons, List.not_mem_nil, or_false] at hOp
  rcases hOp with rfl | rfl <;>
    simp [Shows, registers, decodeOpcode31, ppcDecodeOp31Xform, kOp31, List.lookup_cons, hXo, hL, hCrf,
      hA, hB, PpcOp.extended]

theorem shows_neg {d a : BitVec 5} (h : BitFields.Holds w.toNat (neg d a).fields) :
    (neg d a).Shows vaddr (ppcDecode w vaddr) := by
  obtain ⟨hp, hD, hA, -, hXo, -⟩ := h
  replace hp : ppcBits w 0 5 = 31 := hp
  replace hD : ppcBits w 6 10 = d.toNat := hD
  replace hA : ppcBits w 11 15 = a.toNat := hA
  replace hXo : ppcBits w 21 30 = 104 := hXo
  rw [ppcDecode_thirtyOne hp]
  simp [Shows, decodeOpcode31, ppcDecodeOp31Xform, kOp31, List.lookup_cons, hXo, hD, hA]

theorem shows_xform {op : PpcOp} {hOp : op ∈ xOps} {d a b : BitVec 5}
    (h : BitFields.Holds w.toNat (xform op hOp d a b).fields) :
    (xform op hOp d a b).Shows vaddr (ppcDecode w vaddr) := by
  obtain ⟨hp, hD, hA, hB, hXo, hRc, -⟩ := h
  replace hp : ppcBits w 0 5 = 31 := hp
  replace hD : ppcBits w 6 10 = d.toNat := hD
  replace hA : ppcBits w 11 15 = a.toNat := hA
  replace hB : ppcBits w 16 20 = b.toNat := hB
  replace hXo : ppcBits w 21 30 = op.extended := hXo
  replace hRc : ppcBits w 31 31 = 0 := hRc
  rw [ppcDecode_thirtyOne hp]
  have hSame : d.toNat = b.toNat ↔ d = b := BitVec.toNat_inj
  by_cases hOr : op = .or
  · subst hOr
    by_cases hEq : d = b
    · simp [Shows, decodeOpcode31, hXo, hRc, hD, hA, hB, PpcOp.extended, hEq]
    · simp [Shows, decodeOpcode31, ppcDecodeOp31Xform, kOp31, List.lookup_cons, hXo, hRc, hD, hA, hB,
        PpcOp.extended, hEq, hSame]
  · simp only [xOps, List.mem_cons, List.not_mem_nil, or_false] at hOp
    rcases hOp with rfl | rfl | rfl | rfl | rfl | rfl | rfl | rfl | rfl | rfl | rfl | rfl | rfl |
      rfl | rfl | rfl | rfl | rfl | rfl
    all_goals
      first
      | exact absurd rfl hOr
      | simp [Shows, decodeOpcode31, ppcDecodeOp31Xform, kOp31, List.lookup_cons, hXo, hD, hA, hB,
          PpcOp.extended]

theorem shows_float {op : PpcOp}
    {hOp : op ∈ [PpcOp.fadd, .fsub, .fdiv, .psAdd, .psSub, .psDiv]} {d a b : BitVec 5}
    (h : BitFields.Holds w.toNat (float op hOp d a b).fields) :
    (float op hOp d a b).Shows vaddr (ppcDecode w vaddr) := by
  obtain ⟨hp, hD, hA, hB, hC, hXo, -⟩ := h
  replace hp : ppcBits w 0 5 = op.primary := hp
  replace hD : ppcBits w 6 10 = d.toNat := hD
  replace hA : ppcBits w 11 15 = a.toNat := hA
  replace hB : ppcBits w 16 20 = b.toNat := hB
  replace hC : ppcBits w 21 25 = 0 := hC
  replace hXo : ppcBits w 26 30 = op.extended := hXo
  have hLong : ppcBits w 21 30 = op.extended := by rw [ppcBits_xo, hC, hXo, Nat.zero_mul, Nat.zero_add]
  simp only [List.mem_cons, List.not_mem_nil, or_false] at hOp
  rcases hOp with rfl | rfl | rfl | rfl | rfl | rfl
  all_goals
    first
    | rw [ppcDecode_sixtyThree hp]
    | rw [ppcDecode_four hp]
    simp [Shows, registers, decodeOpcode63, ppcDecodeOpcode4, hLong, hD, hA, hB, PpcOp.extended]

theorem shows_floatMove {op : PpcOp} {hOp : op ∈ [PpcOp.fmr, .fneg, .psMr, .psNeg]}
    {d b : BitVec 5} (h : BitFields.Holds w.toNat (floatMove op hOp d b).fields) :
    (floatMove op hOp d b).Shows vaddr (ppcDecode w vaddr) := by
  obtain ⟨hp, hD, -, hB, hXo, -⟩ := h
  replace hp : ppcBits w 0 5 = op.primary := hp
  replace hD : ppcBits w 6 10 = d.toNat := hD
  replace hB : ppcBits w 16 20 = b.toNat := hB
  replace hXo : ppcBits w 21 30 = op.extended := hXo
  simp only [List.mem_cons, List.not_mem_nil, or_false] at hOp
  rcases hOp with rfl | rfl | rfl | rfl
  all_goals
    first
    | rw [ppcDecode_sixtyThree hp]
    | rw [ppcDecode_four hp]
    simp [Shows, decodeOpcode63, ppcDecodeOpcode4, hXo, hD, hB, PpcOp.extended]

theorem ppcDecodeOpcode4_of_ne {out : PpcInsn} (h : ∀ k ∈ [21, 20, 18, 72, 40], ppcBits w 21 30 ≠ k) :
    ppcDecodeOpcode4 w out =
      match ppcBits w 26 30 with
      | 25 => { out with op := .psMul, rd := ppcBits w 6 10, ra := ppcBits w 11 15, rb := ppcBits w 21 25 }
      | 29 => { out with op := .psMadd, rd := ppcBits w 6 10, ra := ppcBits w 11 15, rb := ppcBits w 21 25 }
      | 28 => { out with op := .psMsub, rd := ppcBits w 6 10, ra := ppcBits w 11 15, rb := ppcBits w 21 25 }
      | _ => out := by
  unfold ppcDecodeOpcode4
  dsimp only
  split
  case h_6 => rfl
  all_goals
    rename_i hXo
    exact absurd hXo (h _ (by decide))

theorem shows_floatMul {op : PpcOp} {hOp : op ∈ [PpcOp.fmul, .psMul]} {d a c : BitVec 5}
    (h : BitFields.Holds w.toNat (floatMul op hOp d a c).fields) (hC : op = .fmul → c = 0) :
    (floatMul op hOp d a c).Shows vaddr (ppcDecode w vaddr) := by
  obtain ⟨hp, hD, hA, -, hRc, hXo, -⟩ := h
  replace hp : ppcBits w 0 5 = op.primary := hp
  replace hD : ppcBits w 6 10 = d.toNat := hD
  replace hA : ppcBits w 11 15 = a.toNat := hA
  replace hRc : ppcBits w 21 25 = c.toNat := hRc
  replace hXo : ppcBits w 26 30 = op.extended := hXo
  have hLong : ppcBits w 21 30 = c.toNat * 32 + op.extended := by rw [ppcBits_xo, hRc, hXo]
  simp only [List.mem_cons, List.not_mem_nil, or_false] at hOp
  rcases hOp with rfl | rfl
  · rw [ppcDecode_sixtyThree hp]
    have hZero : c.toNat = 0 := (toNat_eq_zero_iff c).2 (hC rfl)
    rw [hZero] at hLong hRc
    simp [Shows, registers, decodeOpcode63, hLong, hD, hA, hRc, PpcOp.extended, hZero]
  · rw [ppcDecode_four hp]
    -- No long extended opcode ends like the short one of the multiplication.
    have hNe : ∀ k ∈ [21, 20, 18, 72, 40], ppcBits w 21 30 ≠ k := by
      simp only [List.mem_cons, List.not_mem_nil, or_false, hLong, PpcOp.extended]
      omega
    rw [ppcDecodeOpcode4_of_ne hNe]
    simp [Shows, registers, hXo, hD, hA, hRc, PpcOp.extended]

/-- The decoder gives every instruction whose operands it reads. -/
theorem shows_of_allRead (h : i.AllRead) : i.Shows vaddr (ppcDecode i.word vaddr) := by
  have hHolds := i.holds_word
  cases i with
  | iform li aa lk => exact shows_branch hHolds
  | bform bo bi bd aa lk => exact shows_bform hHolds
  | toRegister op hOp => exact shows_toRegister hHolds
  | dform op hOp d a imm => exact shows_dform hHolds
  | logicalImm op hOp s a imm => exact shows_logicalImm hHolds
  | compareImm op hOp crf a imm => exact shows_compareImm hHolds
  | mform op hOp s a b mb me => exact shows_mform hHolds
  | quantized op hOp d a u q disp => exact shows_quantized hHolds
  | special op hOp r => exact shows_special hHolds
  | compare op hOp crf a b => exact shows_compare hHolds
  | xform op hOp d a b => exact shows_xform hHolds
  | neg d a => exact shows_neg hHolds
  | float op hOp d a b => exact shows_float hHolds
  | floatMove op hOp d b => exact shows_floatMove hHolds
  | floatMul op hOp d a c => exact shows_floatMul hHolds h
  | fused op hOp d a c b => exact h.elim

end GekkoInsn

end Calynda.Decompiler
