import Calynda.Decompiler.Encoding
import Mathlib.Data.Nat.Basic

/-!
# Where the decoder inverts the encoding

The words that the decoder is right about are those whose ignored bits are zero.
-/

namespace Calynda.Decompiler

/-! ## The bits that the decoder ignores -/

namespace GekkoInsn

variable {i : GekkoInsn} {w vaddr : BitVec 32} {op : PpcOp}

theorem ignoresNothing_dform (h : op ∈ dOps) (hp : ppcBits w 0 5 = op.primary) :
    IgnoresNothing w := by
  cases op
  all_goals
    first
    | exact absurd h (by decide)
    | (unfold IgnoresNothing
       rw [hp]
       trivial)

theorem ignoresNothing_quantized (h : op ∈ [PpcOp.psqL, .psqLu, .psqSt, .psqStu])
    (hp : ppcBits w 0 5 = op.primary) : IgnoresNothing w := by
  cases op
  all_goals
    first
    | exact absurd h (by decide)
    | (unfold IgnoresNothing
       rw [hp]
       trivial)

theorem ignoresNothing_mform (h : op ∈ [PpcOp.rlwinm, .rlwimi, .rlwnm])
    (hp : ppcBits w 0 5 = op.primary) : IgnoresNothing w ↔ ppcBits w 31 31 = 0 := by
  cases op
  all_goals
    first
    | exact absurd h (by decide)
    | (unfold IgnoresNothing
       rw [hp]
       exact Iff.rfl)

theorem ignoresNothing_four (hp : ppcBits w 0 5 = 4) :
    IgnoresNothing w ↔
      if ppcBits w 21 30 = 21 ∨ ppcBits w 21 30 = 20 ∨ ppcBits w 21 30 = 18 then
        ppcBits w 31 31 = 0
      else if ppcBits w 21 30 = 72 ∨ ppcBits w 21 30 = 40 then
        ppcBits w 11 15 = 0 ∧ ppcBits w 31 31 = 0
      else if ppcBits w 26 30 = 25 then ppcBits w 16 20 = 0 ∧ ppcBits w 31 31 = 0
      else ppcBits w 26 30 ≠ 29 ∧ ppcBits w 26 30 ≠ 28 := by
  unfold IgnoresNothing
  rw [hp]
  exact Iff.rfl

theorem ignoresNothing_ten (hp : ppcBits w 0 5 = 10) :
    IgnoresNothing w ↔ (ppcBits w 10 10 = 0 → ppcBits w 9 9 = 0) := by
  unfold IgnoresNothing
  rw [hp]
  exact Iff.rfl

theorem ignoresNothing_eleven (hp : ppcBits w 0 5 = 11) :
    IgnoresNothing w ↔ (ppcBits w 10 10 = 0 → ppcBits w 9 9 = 0) := by
  unfold IgnoresNothing
  rw [hp]
  exact Iff.rfl

theorem ignoresNothing_nineteen (hp : ppcBits w 0 5 = 19) :
    IgnoresNothing w ↔
      ((ppcBits w 21 30 = 16 ∨ ppcBits w 21 30 = 528) → ppcBits w 6 10 = 20 →
        ppcBits w 11 15 = 0 → ppcBits w 31 31 = 0 → ppcBits w 16 20 = 0) := by
  unfold IgnoresNothing
  rw [hp]
  exact Iff.rfl

theorem ignoresNothing_thirtyOne (hp : ppcBits w 0 5 = 31) :
    IgnoresNothing w ↔
      if ppcBits w 21 30 = 339 ∨ ppcBits w 21 30 = 467 then
        decodeSpr w = 8 ∨ decodeSpr w = 9 → ppcBits w 31 31 = 0
      else if ppcBits w 21 30 = 0 ∨ ppcBits w 21 30 = 32 then
        ppcBits w 10 10 = 0 → ppcBits w 9 9 = 0 ∧ ppcBits w 31 31 = 0
      else if ppcBits w 21 30 = 104 then ppcBits w 16 20 = 0 ∧ ppcBits w 31 31 = 0
      else ppcBits w 21 30 ∈ xOps.map PpcOp.extended → ppcBits w 31 31 = 0 := by
  unfold IgnoresNothing
  rw [hp]
  exact Iff.rfl

theorem ignoresNothing_sixtyThree (hp : ppcBits w 0 5 = 63) :
    IgnoresNothing w ↔
      if ppcBits w 21 30 = 21 ∨ ppcBits w 21 30 = 20 ∨ ppcBits w 21 30 = 18 then
        ppcBits w 31 31 = 0
      else if ppcBits w 21 30 = 72 ∨ ppcBits w 21 30 = 40 then
        ppcBits w 11 15 = 0 ∧ ppcBits w 31 31 = 0
      else if ppcBits w 21 30 = 25 then ppcBits w 16 20 = 0 ∧ ppcBits w 31 31 = 0
      else ¬ (ppcBits w 26 30 = 25 ∧ ppcBits w 16 20 = 0 ∧ ppcBits w 31 31 = 0) := by
  unfold IgnoresNothing
  rw [hp]
  exact Iff.rfl

/-- The reserved bits of an instruction are zero. -/
theorem ignoresNothing_of_allRead (h : i.AllRead) : IgnoresNothing i.word := by
  have hHolds := i.holds_word
  cases i with
  | iform li aa lk =>
    replace hHolds : ppcBits (iform li aa lk).word 0 5 = 18 := hHolds.1
    unfold IgnoresNothing
    rw [hHolds]
    trivial
  | bform bo bi bd aa lk =>
    replace hHolds : ppcBits (bform bo bi bd aa lk).word 0 5 = 16 := hHolds.1
    unfold IgnoresNothing
    rw [hHolds]
    trivial
  | toRegister op hOp =>
    obtain ⟨hp, -, -, hB, -, -⟩ := hHolds
    exact (ignoresNothing_nineteen hp).2 fun _ _ _ _ => hB
  | dform op hOp d a imm => exact ignoresNothing_dform hOp hHolds.1
  | logicalImm op hOp s a imm =>
    have hp : ppcBits (logicalImm op hOp s a imm).word 0 5 = op.primary := hHolds.1
    unfold IgnoresNothing
    rw [hp]
    simp only [List.mem_cons, List.not_mem_nil, or_false] at hOp
    rcases hOp with rfl | rfl <;> trivial
  | compareImm op hOp crf a imm =>
    obtain ⟨hp, -, hNine, -⟩ := hHolds
    simp only [List.mem_cons, List.not_mem_nil, or_false] at hOp
    rcases hOp with rfl | rfl
    · exact (ignoresNothing_eleven hp).2 fun _ => hNine
    · exact (ignoresNothing_ten hp).2 fun _ => hNine
  | mform op hOp s a b mb me =>
    obtain ⟨hp, -, -, -, -, -, hRc, -⟩ := hHolds
    exact (ignoresNothing_mform hOp hp).2 hRc
  | quantized op hOp d a u q disp => exact ignoresNothing_quantized hOp hHolds.1
  | special op hOp r =>
    obtain ⟨hp, -, -, -, hXo, hRc, -⟩ := hHolds
    rw [ignoresNothing_thirtyOne hp, if_pos]
    · exact fun _ => hRc
    · simp only [List.mem_cons, List.not_mem_nil, or_false] at hOp
      rcases hOp with rfl | rfl | rfl | rfl
      · exact .inl hXo
      · exact .inl hXo
      · exact .inr hXo
      · exact .inr hXo
  | compare op hOp crf a b =>
    obtain ⟨hp, -, hNine, -, -, -, hXo, hRc, -⟩ := hHolds
    replace hXo : ppcBits (compare op hOp crf a b).word 21 30 = op.extended := hXo
    rw [ignoresNothing_thirtyOne hp, hXo]
    simp only [List.mem_cons, List.not_mem_nil, or_false] at hOp
    rcases hOp with rfl | rfl <;> exact fun _ => ⟨hNine, hRc⟩
  | xform op hOp d a b =>
    obtain ⟨hp, -, -, -, hXo, hRc, -⟩ := hHolds
    replace hXo : ppcBits (xform op hOp d a b).word 21 30 = op.extended := hXo
    have hOther : ∀ op ∈ xOps, ¬ (op.extended = 339 ∨ op.extended = 467) ∧
        ¬ (op.extended = 0 ∨ op.extended = 32) ∧ op.extended ≠ 104 := by decide
    obtain ⟨hSpr, hCmp, hNeg⟩ := hOther op hOp
    rw [ignoresNothing_thirtyOne hp, hXo, if_neg hSpr, if_neg hCmp, if_neg hNeg]
    exact fun _ => hRc
  | neg d a =>
    obtain ⟨hp, -, -, hB, hXo, hRc, -⟩ := hHolds
    replace hXo : ppcBits (neg d a).word 21 30 = 104 := hXo
    rw [ignoresNothing_thirtyOne hp, hXo]
    exact ⟨hB, hRc⟩
  | float op hOp d a b =>
    obtain ⟨hp, -, -, -, hC, hXo, hRc, -⟩ := hHolds
    replace hC : ppcBits (float op hOp d a b).word 21 25 = 0 := hC
    replace hXo : ppcBits (float op hOp d a b).word 26 30 = op.extended := hXo
    have hLong : ppcBits (float op hOp d a b).word 21 30 = op.extended := by
      rw [ppcBits_xo, hC, hXo, Nat.zero_mul, Nat.zero_add]
    simp only [List.mem_cons, List.not_mem_nil, or_false] at hOp
    rcases hOp with rfl | rfl | rfl | rfl | rfl | rfl
    all_goals
      first
      | rw [ignoresNothing_sixtyThree hp, hLong]
      | rw [ignoresNothing_four hp, hLong]
      exact hRc
  | floatMove op hOp d b =>
    obtain ⟨hp, -, hA, -, hXo, hRc, -⟩ := hHolds
    replace hXo : ppcBits (floatMove op hOp d b).word 21 30 = op.extended := hXo
    simp only [List.mem_cons, List.not_mem_nil, or_false] at hOp
    rcases hOp with rfl | rfl | rfl | rfl
    all_goals
      first
      | rw [ignoresNothing_sixtyThree hp, hXo]
      | rw [ignoresNothing_four hp, hXo]
      exact ⟨hA, hRc⟩
  | floatMul op hOp d a c =>
    obtain ⟨hp, -, -, hB, hC, hXo, hRc, -⟩ := hHolds
    replace hC : ppcBits (floatMul op hOp d a c).word 21 25 = c.toNat := hC
    replace hXo : ppcBits (floatMul op hOp d a c).word 26 30 = op.extended := hXo
    have hLong : ppcBits (floatMul op hOp d a c).word 21 30 = c.toNat * 32 + op.extended := by
      rw [ppcBits_xo, hC, hXo]
    simp only [List.mem_cons, List.not_mem_nil, or_false] at hOp
    rcases hOp with rfl | rfl
    · have hZero : c.toNat = 0 := (toNat_eq_zero_iff c).2 (h rfl)
      rw [hZero] at hLong
      rw [ignoresNothing_sixtyThree hp, hLong]
      exact ⟨hB, hRc⟩
    · rw [ignoresNothing_four hp, hLong, hXo, if_neg, if_neg,
        if_pos (show PpcOp.psMul.extended = 25 from rfl)]
      · exact ⟨hB, hRc⟩
      · simp only [PpcOp.extended]
        omega
      · simp only [PpcOp.extended]
        omega
  | fused op hOp d a c b => exact h.elim

/-- The decoder takes the whole extended opcode of a multiplication. -/
theorem decodeOpcode63_fmul {out : PpcInsn} (hOut : out.op = .unknown)
    (h : (decodeOpcode63 w out).op = .fmul) : ppcBits w 21 30 = 25 := by
  unfold decodeOpcode63 at h
  dsimp only at h
  split at h
  case h_5 hXo => exact hXo
  case h_7 => exact nomatch hOut.symm.trans h
  all_goals exact nomatch h

/-- A multiplication with an operand that is not read. -/
theorem not_ignoresNothing_of_not_allRead (h : ¬ i.AllRead) : ¬ IgnoresNothing i.word := by
  have hHolds := i.holds_word
  cases i with
  | floatMul op hOp d a c =>
    simp only [AllRead, Classical.not_imp] at h
    obtain ⟨rfl, hNe⟩ := h
    obtain ⟨hp, -, -, hB, hC, hXo, hRc, -⟩ := hHolds
    replace hC : ppcBits (floatMul .fmul hOp d a c).word 21 25 = c.toNat := hC
    replace hXo : ppcBits (floatMul .fmul hOp d a c).word 26 30 = 25 := hXo
    have hPos : c.toNat ≠ 0 := fun hZero => hNe ((toNat_eq_zero_iff c).1 hZero)
    have hLong := ppcBits_xo (floatMul .fmul hOp d a c).word
    rw [hC, hXo] at hLong
    rw [ignoresNothing_sixtyThree hp, if_neg (by omega), if_neg (by omega), if_neg (by omega)]
    exact fun hNot => hNot ⟨hXo, hB, hRc⟩
  | fused op hOp d a c b =>
    obtain ⟨hp, -, -, -, -, hXo, -⟩ := hHolds
    replace hXo : ppcBits (fused op hOp d a c b).word 26 30 = op.extended := hXo
    have hLong := ppcBits_xo (fused op hOp d a c b).word
    rw [hXo] at hLong
    simp only [List.mem_cons, List.not_mem_nil, or_false] at hOp
    rcases hOp with rfl | rfl
    · replace hXo : ppcBits (fused .psMadd hOp d a c b).word 26 30 = 29 := hXo
      replace hLong : ppcBits (fused .psMadd hOp d a c b).word 21 30 = _ * 32 + 29 := hLong
      rw [ignoresNothing_four hp, if_neg (by omega), if_neg (by omega), if_neg (by omega)]
      exact fun hNot => hNot.1 hXo
    · replace hXo : ppcBits (fused .psMsub hOp d a c b).word 26 30 = 28 := hXo
      replace hLong : ppcBits (fused .psMsub hOp d a c b).word 21 30 = _ * 32 + 28 := hLong
      rw [ignoresNothing_four hp, if_neg (by omega), if_neg (by omega), if_neg (by omega)]
      exact fun hNot => hNot.2 hXo
  | _ => exact absurd trivial h

theorem not_shows_of_not_allRead (h : ¬ i.AllRead) : ¬ i.Shows vaddr (ppcDecode i.word vaddr) := by
  have hHolds := i.holds_word
  cases i with
  | floatMul op hOp d a c =>
    simp only [AllRead, Classical.not_imp] at h
    obtain ⟨rfl, hNe⟩ := h
    obtain ⟨hp, -, -, -, hC, hXo, -⟩ := hHolds
    replace hC : ppcBits (floatMul .fmul hOp d a c).word 21 25 = c.toNat := hC
    replace hXo : ppcBits (floatMul .fmul hOp d a c).word 26 30 = 25 := hXo
    have hPos : c.toNat ≠ 0 := fun hZero => hNe ((toNat_eq_zero_iff c).1 hZero)
    have hLong := ppcBits_xo (floatMul .fmul hOp d a c).word
    rw [hC, hXo] at hLong
    rw [ppcDecode_sixtyThree hp]
    rintro ⟨hFmul, -⟩
    have hXo' := decodeOpcode63_fmul rfl hFmul
    omega
  | fused op hOp d a c b =>
    rintro ⟨-, hRegisters⟩
    exact absurd (congrArg List.length hRegisters) (show 3 ≠ 4 by decide)
  | _ => exact absurd trivial h

/-! ## The instruction of a word -/

/-- The bits of a word as an operand. -/
def field (w : BitVec 32) (msb lsb : Nat) : BitVec (lsb - msb + 1) :=
  BitVec.ofNat (lsb - msb + 1) (ppcBits w msb lsb)

theorem toNat_field (w : BitVec 32) (msb lsb : Nat) :
    ppcBits w msb lsb = (field w msb lsb).toNat := by
  rw [field, BitVec.toNat_ofNat, ppcBits, Nat.mod_mod]

theorem exists_branch (hp : ppcBits w 0 5 = 18) : ∃ i : GekkoInsn, i.word = w :=
  ⟨iform (field w 6 29) (field w 30 30) (field w 31 31),
    word_eq ⟨hp, toNat_field w 6 29, toNat_field w 30 30, toNat_field w 31 31, trivial⟩⟩

theorem exists_bform (hp : ppcBits w 0 5 = 16) : ∃ i : GekkoInsn, i.word = w :=
  ⟨bform (field w 6 10) (field w 11 15) (field w 16 29) (field w 30 30) (field w 31 31),
    word_eq ⟨hp, toNat_field w 6 10, toNat_field w 11 15, toNat_field w 16 29, toNat_field w 30 30,
      toNat_field w 31 31, trivial⟩⟩

theorem exists_dform (op : PpcOp) (h : op ∈ dOps) (hp : ppcBits w 0 5 = op.primary) :
    ∃ i : GekkoInsn, i.word = w :=
  ⟨dform op h (field w 6 10) (field w 11 15) (field w 16 31),
    word_eq ⟨hp, toNat_field w 6 10, toNat_field w 11 15, toNat_field w 16 31, trivial⟩⟩

theorem exists_logicalImm (op : PpcOp) (h : op ∈ [PpcOp.ori, .andiDot]) (hp : ppcBits w 0 5 = op.primary) :
    ∃ i : GekkoInsn, i.word = w :=
  ⟨logicalImm op h (field w 6 10) (field w 11 15) (field w 16 31),
    word_eq ⟨hp, toNat_field w 6 10, toNat_field w 11 15, toNat_field w 16 31, trivial⟩⟩

theorem exists_compareImm (op : PpcOp) (h : op ∈ [PpcOp.cmpwi, .cmplwi]) (hp : ppcBits w 0 5 = op.primary)
    (hNine : ppcBits w 9 9 = 0) (hTen : ppcBits w 10 10 = 0) : ∃ i : GekkoInsn, i.word = w :=
  ⟨compareImm op h (field w 6 8) (field w 11 15) (field w 16 31),
    word_eq ⟨hp, toNat_field w 6 8, hNine, hTen, toNat_field w 11 15, toNat_field w 16 31, trivial⟩⟩

theorem exists_mform (op : PpcOp) (h : op ∈ [PpcOp.rlwinm, .rlwimi, .rlwnm]) (hp : ppcBits w 0 5 = op.primary)
    (hRc : ppcBits w 31 31 = 0) : ∃ i : GekkoInsn, i.word = w :=
  ⟨mform op h (field w 6 10) (field w 11 15) (field w 16 20) (field w 21 25) (field w 26 30),
    word_eq ⟨hp, toNat_field w 6 10, toNat_field w 11 15, toNat_field w 16 20, toNat_field w 21 25,
      toNat_field w 26 30, hRc, trivial⟩⟩

theorem exists_quantized (op : PpcOp) (h : op ∈ [PpcOp.psqL, .psqLu, .psqSt, .psqStu])
    (hp : ppcBits w 0 5 = op.primary) : ∃ i : GekkoInsn, i.word = w :=
  ⟨quantized op h (field w 6 10) (field w 11 15) (field w 16 16) (field w 17 19) (field w 20 31),
    word_eq ⟨hp, toNat_field w 6 10, toNat_field w 11 15, toNat_field w 16 16, toNat_field w 17 19,
      toNat_field w 20 31, trivial⟩⟩

theorem exists_float (op : PpcOp) (h : op ∈ [PpcOp.fadd, .fsub, .fdiv, .psAdd, .psSub, .psDiv])
    (hp : ppcBits w 0 5 = op.primary) (hXo : ppcBits w 21 30 = op.extended)
    (hRc : ppcBits w 31 31 = 0) : ∃ i : GekkoInsn, i.word = w := by
  have hLt := extended_lt_of_float (.inl h)
  have hLong := ppcBits_xo w
  have hShort : ppcBits w 26 30 < 32 := Nat.mod_lt _ (by decide)
  have hC : ppcBits w 21 25 = 0 := by omega
  have hLow : ppcBits w 26 30 = op.extended := by omega
  exact ⟨float op h (field w 6 10) (field w 11 15) (field w 16 20),
    word_eq ⟨hp, toNat_field w 6 10, toNat_field w 11 15, toNat_field w 16 20, hC, hLow, hRc,
      trivial⟩⟩

theorem exists_floatMove (op : PpcOp) (h : op ∈ [PpcOp.fmr, .fneg, .psMr, .psNeg])
    (hp : ppcBits w 0 5 = op.primary) (hXo : ppcBits w 21 30 = op.extended)
    (hA : ppcBits w 11 15 = 0) (hRc : ppcBits w 31 31 = 0) : ∃ i : GekkoInsn, i.word = w :=
  ⟨floatMove op h (field w 6 10) (field w 16 20),
    word_eq ⟨hp, toNat_field w 6 10, hA, toNat_field w 16 20, hXo, hRc, trivial⟩⟩

theorem exists_floatMul (op : PpcOp) (h : op ∈ [PpcOp.fmul, .psMul]) (hp : ppcBits w 0 5 = op.primary)
    (hXo : ppcBits w 26 30 = 25) (hB : ppcBits w 16 20 = 0) (hRc : ppcBits w 31 31 = 0) :
    ∃ i : GekkoInsn, i.word = w := by
  have hExtended : op.extended = 25 := by
    simp only [List.mem_cons, List.not_mem_nil, or_false] at h
    rcases h with rfl | rfl <;> rfl
  exact ⟨floatMul op h (field w 6 10) (field w 11 15) (field w 21 25),
    word_eq ⟨hp, toNat_field w 6 10, toNat_field w 11 15, hB, toNat_field w 21 25,
      hXo.trans hExtended.symm, hRc, trivial⟩⟩

theorem exists_toRegister (op : PpcOp) (h : op ∈ [PpcOp.blr, .bctr]) (hp : ppcBits w 0 5 = 19)
    (hXo : ppcBits w 21 30 = op.extended) (hBo : ppcBits w 6 10 = 20) (hBi : ppcBits w 11 15 = 0)
    (hB : ppcBits w 16 20 = 0) (hLk : ppcBits w 31 31 = 0) : ∃ i : GekkoInsn, i.word = w :=
  ⟨toRegister op h, word_eq ⟨hp, hBo, hBi, hB, hXo, hLk, trivial⟩⟩

theorem exists_special (op : PpcOp) (h : op ∈ [PpcOp.mflr, .mfctr, .mtlr, .mtctr]) (hp : ppcBits w 0 5 = 31)
    (hXo : ppcBits w 21 30 = op.extended) (hSpr : decodeSpr w = op.sprNumber)
    (hRc : ppcBits w 31 31 = 0) : ∃ i : GekkoInsn, i.word = w := by
  have hNumber := sprNumber_lt op
  have hLow : ppcBits w 11 15 < 32 := Nat.mod_lt _ (by decide)
  rw [decodeSpr_eq] at hSpr
  have hHigh : ppcBits w 16 20 = 0 := by omega
  have hLowEq : ppcBits w 11 15 = op.sprNumber := by omega
  exact ⟨special op h (field w 6 10),
    word_eq ⟨hp, toNat_field w 6 10, hLowEq, hHigh, hXo, hRc, trivial⟩⟩

theorem exists_compare (op : PpcOp) (h : op ∈ [PpcOp.cmpw, .cmplw]) (hp : ppcBits w 0 5 = 31)
    (hXo : ppcBits w 21 30 = op.extended) (hNine : ppcBits w 9 9 = 0)
    (hTen : ppcBits w 10 10 = 0) (hRc : ppcBits w 31 31 = 0) : ∃ i : GekkoInsn, i.word = w :=
  ⟨compare op h (field w 6 8) (field w 11 15) (field w 16 20),
    word_eq ⟨hp, toNat_field w 6 8, hNine, hTen, toNat_field w 11 15, toNat_field w 16 20, hXo, hRc,
      trivial⟩⟩

theorem exists_neg (hp : ppcBits w 0 5 = 31) (hXo : ppcBits w 21 30 = 104)
    (hB : ppcBits w 16 20 = 0) (hRc : ppcBits w 31 31 = 0) : ∃ i : GekkoInsn, i.word = w :=
  ⟨neg (field w 6 10) (field w 11 15),
    word_eq ⟨hp, toNat_field w 6 10, toNat_field w 11 15, hB, hXo, hRc, trivial⟩⟩

theorem exists_xform (op : PpcOp) (h : op ∈ xOps) (hp : ppcBits w 0 5 = 31)
    (hXo : ppcBits w 21 30 = op.extended) (hRc : ppcBits w 31 31 = 0) :
    ∃ i : GekkoInsn, i.word = w :=
  ⟨xform op h (field w 6 10) (field w 11 15) (field w 16 20),
    word_eq ⟨hp, toNat_field w 6 10, toNat_field w 11 15, toNat_field w 16 20, hXo, hRc, trivial⟩⟩

/-! ## The words that the decoder knows -/

theorem known_four (hp : ppcBits w 0 5 = 4) :
    (ppcDecode w vaddr).op ≠ .unknown ↔
      ppcBits w 21 30 ∈ [21, 20, 18, 72, 40] ∨ ppcBits w 26 30 ∈ [25, 29, 28] := by
  rw [ppcDecode_four hp]
  by_cases hLong : ppcBits w 21 30 ∈ [21, 20, 18, 72, 40]
  · refine ⟨fun _ => .inl hLong, fun _ => ?_⟩
    simp only [List.mem_cons, List.not_mem_nil, or_false] at hLong
    rcases hLong with h | h | h | h | h <;> simp [ppcDecodeOpcode4, h]
  · have hNe : ∀ k ∈ [21, 20, 18, 72, 40], ppcBits w 21 30 ≠ k := fun k hk hEq => hLong (hEq ▸ hk)
    rw [ppcDecodeOpcode4_of_ne hNe, or_iff_right hLong]
    split
    case h_4 h25 h29 h28 =>
      refine ⟨fun h => absurd rfl h, fun h => ?_⟩
      simp only [List.mem_cons, List.not_mem_nil, or_false] at h
      rcases h with h | h | h
      · exact (h25 h).elim
      · exact (h29 h).elim
      · exact (h28 h).elim
    all_goals
      rename_i hShort
      rw [hShort]
      exact ⟨fun _ => by decide, fun _ h => by cases h⟩

theorem known_sixtyThree (hp : ppcBits w 0 5 = 63) :
    (ppcDecode w vaddr).op ≠ .unknown ↔ ppcBits w 21 30 ∈ [72, 40, 21, 20, 25, 18] := by
  rw [ppcDecode_sixtyThree hp]
  unfold decodeOpcode63
  dsimp only
  split
  case h_7 h72 h40 h21 h20 h25 h18 =>
    refine ⟨fun h => absurd rfl h, fun h => ?_⟩
    simp only [List.mem_cons, List.not_mem_nil, or_false] at h
    rcases h with h | h | h | h | h | h
    · exact (h72 h).elim
    · exact (h40 h).elim
    · exact (h21 h).elim
    · exact (h20 h).elim
    · exact (h25 h).elim
    · exact (h18 h).elim
  all_goals
    rename_i hXo
    rw [hXo]
    exact ⟨fun _ => by decide, fun _ => nofun⟩

theorem known_ten (hp : ppcBits w 0 5 = 10) :
    (ppcDecode w vaddr).op ≠ .unknown ↔ ppcBits w 10 10 = 0 := by
  rw [ppcDecode_cmpli hp, decodeCmpli]
  by_cases hTen : ppcBits w 10 10 = 0
  · rw [if_pos hTen]
    exact ⟨fun _ => hTen, fun _ h => by cases h⟩
  · rw [if_neg hTen]
    exact ⟨fun h => absurd rfl h, fun h => absurd h hTen⟩

theorem known_eleven (hp : ppcBits w 0 5 = 11) :
    (ppcDecode w vaddr).op ≠ .unknown ↔ ppcBits w 10 10 = 0 := by
  rw [ppcDecode_cmpi hp, decodeCmpi]
  by_cases hTen : ppcBits w 10 10 = 0
  · rw [if_neg (not_not_intro hTen)]
    exact ⟨fun _ => hTen, fun _ h => by cases h⟩
  · rw [if_pos hTen]
    exact ⟨fun h => absurd rfl h, fun h => absurd h hTen⟩

theorem known_nineteen (hp : ppcBits w 0 5 = 19) :
    (ppcDecode w vaddr).op ≠ .unknown ↔
      (ppcBits w 21 30 = 16 ∨ ppcBits w 21 30 = 528) ∧ ppcBits w 6 10 = 20 ∧
        ppcBits w 11 15 = 0 ∧ ppcBits w 31 31 = 0 := by
  rw [ppcDecode_opcode19 hp]
  by_cases hBlr : ppcBits w 21 30 = 16 ∧ ppcBits w 6 10 = 20 ∧ ppcBits w 11 15 = 0 ∧ ppcBits w 31 31 = 0
  · simp only [decodeOpcode19, if_pos hBlr]
    exact ⟨fun _ => ⟨.inl hBlr.1, hBlr.2⟩, fun _ h => by cases h⟩
  by_cases hBctr : ppcBits w 21 30 = 528 ∧ ppcBits w 6 10 = 20 ∧ ppcBits w 11 15 = 0 ∧ ppcBits w 31 31 = 0
  · simp only [decodeOpcode19, if_neg hBlr, if_pos hBctr]
    exact ⟨fun _ => ⟨.inr hBctr.1, hBctr.2⟩, fun _ h => by cases h⟩
  · simp only [decodeOpcode19, if_neg hBlr, if_neg hBctr]
    refine ⟨fun h => absurd rfl h, ?_⟩
    rintro ⟨hXo | hXo, hRest⟩
    · exact absurd ⟨hXo, hRest⟩ hBlr
    · exact absurd ⟨hXo, hRest⟩ hBctr

theorem lookup_kOp31_eq_none {xo : Nat} (hCmp : ¬ (xo = 0 ∨ xo = 32)) (hNeg : xo ≠ 104)
    (hOps : xo ∉ xOps.map PpcOp.extended) : kOp31.lookup xo = none := by
  have hCover : ∀ p ∈ kOp31, p.1 = 0 ∨ p.1 = 32 ∨ p.1 = 104 ∨ p.1 ∈ xOps.map PpcOp.extended := by
    decide
  rw [List.lookup_eq_none_iff]
  intro p hp
  rw [bne_iff_ne]
  rintro rfl
  rcases hCover p hp with h | h | h | h
  · exact hCmp (.inl h)
  · exact hCmp (.inr h)
  · exact hNeg h
  · exact hOps h

theorem decodeOpcode31_known {out : PpcInsn} (h : ppcBits w 21 30 ∈ xOps.map PpcOp.extended) :
    (decodeOpcode31 w out).op ≠ .unknown := by
  simp only [xOps, PpcOp.extended, List.map_cons, List.map_nil, List.mem_cons, List.not_mem_nil,
    or_false] at h
  rcases h with h | h | h | h | h | h | h | h | h | h | h | h | h | h | h | h | h | h | h
  case inr.inr.inr.inr.inr.inr.inl =>
    by_cases hMr : ppcBits w 31 31 = 0 ∧ ppcBits w 6 10 = ppcBits w 16 20
    · simp [decodeOpcode31, h, hMr]
    · simp [decodeOpcode31, ppcDecodeOp31Xform, kOp31, List.lookup_cons, h, hMr]
  all_goals simp [decodeOpcode31, ppcDecodeOp31Xform, kOp31, List.lookup_cons, h]

theorem known_thirtyOne (hp : ppcBits w 0 5 = 31) :
    (ppcDecode w vaddr).op ≠ .unknown ↔
      if ppcBits w 21 30 = 339 ∨ ppcBits w 21 30 = 467 then decodeSpr w = 8 ∨ decodeSpr w = 9
      else if ppcBits w 21 30 = 0 ∨ ppcBits w 21 30 = 32 then ppcBits w 10 10 = 0
      else ppcBits w 21 30 = 104 ∨ ppcBits w 21 30 ∈ xOps.map PpcOp.extended := by
  rw [ppcDecode_thirtyOne hp]
  by_cases hSpr : ppcBits w 21 30 = 339 ∨ ppcBits w 21 30 = 467
  · rw [if_pos hSpr]
    by_cases hLr : decodeSpr w = 8
    · refine ⟨fun _ => .inl hLr, fun _ => ?_⟩
      rcases hSpr with h | h <;> simp [decodeOpcode31, h, hLr]
    by_cases hCtr : decodeSpr w = 9
    · refine ⟨fun _ => .inr hCtr, fun _ => ?_⟩
      rcases hSpr with h | h <;> simp [decodeOpcode31, h, hCtr]
    · refine ⟨fun h => ?_, fun h => (h.elim hLr hCtr).elim⟩
      rcases hSpr with hXo | hXo <;> simp [decodeOpcode31, hXo, hLr, hCtr, blankInsn] at h
  rw [if_neg hSpr]
  by_cases hCmp : ppcBits w 21 30 = 0 ∨ ppcBits w 21 30 = 32
  · rw [if_pos hCmp]
    by_cases hTen : ppcBits w 10 10 = 0
    · refine ⟨fun _ => hTen, fun _ => ?_⟩
      rcases hCmp with h | h <;>
        simp [decodeOpcode31, ppcDecodeOp31Xform, kOp31, List.lookup_cons, h, hTen]
    · refine ⟨fun h => ?_, fun h => absurd h hTen⟩
      rcases hCmp with hXo | hXo <;>
        simp [decodeOpcode31, ppcDecodeOp31Xform, kOp31, List.lookup_cons, hXo, hTen, blankInsn] at h
  rw [if_neg hCmp]
  by_cases hOps : ppcBits w 21 30 = 104 ∨ ppcBits w 21 30 ∈ xOps.map PpcOp.extended
  · refine ⟨fun _ => hOps, fun _ => ?_⟩
    rcases hOps with hNeg | hMem
    · simp [decodeOpcode31, ppcDecodeOp31Xform, kOp31, List.lookup_cons, hNeg]
    · exact decodeOpcode31_known hMem
  · refine ⟨fun h => absurd ?_ h, fun h => absurd h hOps⟩
    obtain ⟨hNeg, hMem⟩ := not_or.1 hOps
    have hNone := lookup_kOp31_eq_none hCmp hNeg hMem
    unfold decodeOpcode31
    dsimp only
    split
    case h_1 hXo => exact absurd (.inl hXo) hSpr
    case h_2 hXo => exact absurd (.inr hXo) hSpr
    case h_3 hXo => exact absurd (hXo ▸ by decide) hMem
    case h_4 =>
      unfold ppcDecodeOp31Xform
      rw [hNone]
      rfl

/-- A word that the decoder knows and whose ignored bits are zero is that of an instruction. -/
theorem exists_of_four (hp : ppcBits w 0 5 = 4) (hBits : IgnoresNothing w)
    (hKnown : (ppcDecode w vaddr).op ≠ .unknown) : ∃ i : GekkoInsn, i.word = w := by
  rw [known_four hp] at hKnown
  rw [ignoresNothing_four hp] at hBits
  by_cases hAdd : ppcBits w 21 30 = 21 ∨ ppcBits w 21 30 = 20 ∨ ppcBits w 21 30 = 18
  · rw [if_pos hAdd] at hBits
    rcases hAdd with hXo | hXo | hXo
    · exact exists_float .psAdd (by decide) hp hXo hBits
    · exact exists_float .psSub (by decide) hp hXo hBits
    · exact exists_float .psDiv (by decide) hp hXo hBits
  rw [if_neg hAdd] at hBits
  by_cases hMove : ppcBits w 21 30 = 72 ∨ ppcBits w 21 30 = 40
  · rw [if_pos hMove] at hBits
    rcases hMove with hXo | hXo
    · exact exists_floatMove .psMr (by decide) hp hXo hBits.1 hBits.2
    · exact exists_floatMove .psNeg (by decide) hp hXo hBits.1 hBits.2
  rw [if_neg hMove] at hBits
  by_cases hMul : ppcBits w 26 30 = 25
  · rw [if_pos hMul] at hBits
    exact exists_floatMul .psMul (by decide) hp hMul hBits.1 hBits.2
  · rw [if_neg hMul] at hBits
    simp only [List.mem_cons, List.not_mem_nil, or_false] at hKnown
    omega

theorem exists_of_sixtyThree (hp : ppcBits w 0 5 = 63) (hBits : IgnoresNothing w)
    (hKnown : (ppcDecode w vaddr).op ≠ .unknown) : ∃ i : GekkoInsn, i.word = w := by
  rw [known_sixtyThree hp] at hKnown
  rw [ignoresNothing_sixtyThree hp] at hBits
  by_cases hAdd : ppcBits w 21 30 = 21 ∨ ppcBits w 21 30 = 20 ∨ ppcBits w 21 30 = 18
  · rw [if_pos hAdd] at hBits
    rcases hAdd with hXo | hXo | hXo
    · exact exists_float .fadd (by decide) hp hXo hBits
    · exact exists_float .fsub (by decide) hp hXo hBits
    · exact exists_float .fdiv (by decide) hp hXo hBits
  rw [if_neg hAdd] at hBits
  by_cases hMove : ppcBits w 21 30 = 72 ∨ ppcBits w 21 30 = 40
  · rw [if_pos hMove] at hBits
    rcases hMove with hXo | hXo
    · exact exists_floatMove .fmr (by decide) hp hXo hBits.1 hBits.2
    · exact exists_floatMove .fneg (by decide) hp hXo hBits.1 hBits.2
  rw [if_neg hMove] at hBits
  have hMul : ppcBits w 21 30 = 25 := by
    simp only [List.mem_cons, List.not_mem_nil, or_false] at hKnown
    omega
  have hLong := ppcBits_xo w
  have hShort : ppcBits w 26 30 < 32 := Nat.mod_lt _ (by decide)
  rw [if_pos hMul] at hBits
  exact exists_floatMul .fmul (by decide) hp (by omega) hBits.1 hBits.2

theorem exists_of_thirtyOne (hp : ppcBits w 0 5 = 31) (hBits : IgnoresNothing w)
    (hKnown : (ppcDecode w vaddr).op ≠ .unknown) : ∃ i : GekkoInsn, i.word = w := by
  rw [known_thirtyOne hp] at hKnown
  rw [ignoresNothing_thirtyOne hp] at hBits
  by_cases hSpr : ppcBits w 21 30 = 339 ∨ ppcBits w 21 30 = 467
  · rw [if_pos hSpr] at hKnown hBits
    rcases hSpr with hXo | hXo <;> rcases hKnown with hNum | hNum
    · exact exists_special .mflr (by decide) hp hXo hNum (hBits (.inl hNum))
    · exact exists_special .mfctr (by decide) hp hXo hNum (hBits (.inr hNum))
    · exact exists_special .mtlr (by decide) hp hXo hNum (hBits (.inl hNum))
    · exact exists_special .mtctr (by decide) hp hXo hNum (hBits (.inr hNum))
  rw [if_neg hSpr] at hKnown hBits
  by_cases hCmp : ppcBits w 21 30 = 0 ∨ ppcBits w 21 30 = 32
  · rw [if_pos hCmp] at hKnown hBits
    obtain ⟨hNine, hRc⟩ := hBits hKnown
    rcases hCmp with hXo | hXo
    · exact exists_compare .cmpw (by decide) hp hXo hNine hKnown hRc
    · exact exists_compare .cmplw (by decide) hp hXo hNine hKnown hRc
  rw [if_neg hCmp] at hKnown hBits
  by_cases hNeg : ppcBits w 21 30 = 104
  · rw [if_pos hNeg] at hBits
    exact exists_neg hp hNeg hBits.1 hBits.2
  · rw [if_neg hNeg] at hBits
    have hMem := hKnown.resolve_left hNeg
    obtain ⟨op, hOp, hXo⟩ := List.mem_map.1 hMem
    exact exists_xform op hOp hp hXo.symm (hBits hMem)

theorem exists_of_nineteen (hp : ppcBits w 0 5 = 19) (hBits : IgnoresNothing w)
    (hKnown : (ppcDecode w vaddr).op ≠ .unknown) : ∃ i : GekkoInsn, i.word = w := by
  obtain ⟨hXo, hBo, hBi, hLk⟩ := (known_nineteen hp).1 hKnown
  have hB := (ignoresNothing_nineteen hp).1 hBits hXo hBo hBi hLk
  rcases hXo with hXo | hXo
  · exact exists_toRegister .blr (by decide) hp hXo hBo hBi hB hLk
  · exact exists_toRegister .bctr (by decide) hp hXo hBo hBi hB hLk

theorem exists_of_known (hBits : IgnoresNothing w) (hKnown : (ppcDecode w vaddr).op ≠ .unknown) :
    ∃ i : GekkoInsn, i.word = w := by
  cases hOp : (ppcDecode w vaddr).op with
  | unknown => exact absurd hOp hKnown
  | _ =>
    have hp := ppcDecode_primary hOp nofun
    first
    | exact exists_dform _ (by decide) hp
    | exact exists_of_four hp hBits hKnown
    | exact exists_of_thirtyOne hp hBits hKnown
    | exact exists_of_sixtyThree hp hBits hKnown
    | exact exists_branch hp
    | exact exists_bform hp
    | exact exists_of_nineteen hp hBits hKnown
    | exact exists_logicalImm .ori (by decide) hp
    | exact exists_logicalImm .andiDot (by decide) hp
    | exact exists_mform _ (by decide) hp ((ignoresNothing_mform (by decide) hp).1 hBits)
    | exact exists_quantized _ (by decide) hp
    | (have hTen := (known_ten hp).1 hKnown
       exact exists_compareImm .cmplwi (by decide) hp ((ignoresNothing_ten hp).1 hBits hTen) hTen)
    | (have hTen := (known_eleven hp).1 hKnown
       exact exists_compareImm .cmpwi (by decide) hp ((ignoresNothing_eleven hp).1 hBits hTen) hTen)

theorem known_of_mform (op : PpcOp) (h : op ∈ [PpcOp.rlwinm, .rlwimi, .rlwnm])
    (hp : ppcBits w 0 5 = op.primary) : (ppcDecode w vaddr).op ≠ .unknown := by
  rw [ppcDecode_mform h hp]
  rintro hUnknown
  replace hUnknown : op = .unknown := hUnknown
  rw [hUnknown] at h
  exact absurd h (by decide)

/-- The bits matter only in words that the decoder knows, the multiplication of registers apart. -/
theorem known_of_not_ignoresNothing (vaddr : BitVec 32) (h : ¬ IgnoresNothing w) :
    (ppcDecode w vaddr).op ≠ .unknown ∨ ∃ i : GekkoInsn, i.word = w := by
  by_cases hFour : ppcBits w 0 5 = 4
  · rw [ignoresNothing_four hFour] at h
    rw [known_four hFour]
    simp only [List.mem_cons, List.not_mem_nil, or_false]
    refine .inl ?_
    split_ifs at h <;> omega
  by_cases hThirtyOne : ppcBits w 0 5 = 31
  · rw [ignoresNothing_thirtyOne hThirtyOne] at h
    rw [known_thirtyOne hThirtyOne]
    refine .inl ?_
    split_ifs at h ⊢
    · exact (Classical.not_imp.1 h).1
    · exact (Classical.not_imp.1 h).1
    · exact .inl ‹_›
    · exact .inr (Classical.not_imp.1 h).1
  by_cases hSixtyThree : ppcBits w 0 5 = 63
  · rw [ignoresNothing_sixtyThree hSixtyThree] at h
    rw [known_sixtyThree hSixtyThree]
    simp only [List.mem_cons, List.not_mem_nil, or_false]
    split_ifs at h
    · exact .inl (by omega)
    · exact .inl (by omega)
    · exact .inl (by omega)
    · obtain ⟨hXo, hB, hRc⟩ := not_not.1 h
      exact .inr (exists_floatMul .fmul (by decide) hSixtyThree hXo hB hRc)
  by_cases hNineteen : ppcBits w 0 5 = 19
  · rw [ignoresNothing_nineteen hNineteen] at h
    rw [known_nineteen hNineteen]
    refine .inl ?_
    simp only [Classical.not_imp] at h
    obtain ⟨hXo, hBo, hBi, hLk, -⟩ := h
    exact ⟨hXo, hBo, hBi, hLk⟩
  by_cases hTen : ppcBits w 0 5 = 10
  · rw [ignoresNothing_ten hTen] at h
    exact .inl ((known_ten hTen).2 (Classical.not_imp.1 h).1)
  by_cases hEleven : ppcBits w 0 5 = 11
  · rw [ignoresNothing_eleven hEleven] at h
    exact .inl ((known_eleven hEleven).2 (Classical.not_imp.1 h).1)
  refine .inl ?_
  unfold IgnoresNothing at h
  dsimp only at h
  split at h
  case h_5 hp => exact known_of_mform .rlwimi (by decide) hp
  case h_6 hp => exact known_of_mform .rlwinm (by decide) hp
  case h_7 hp => exact known_of_mform .rlwnm (by decide) hp
  all_goals contradiction

end GekkoInsn

open GekkoInsn in
/-- The decoder inverts the encoding at a word exactly when the bits that it ignores are zero
there, and it is none of the multiplications whose operands it does not all read. -/
theorem decodesRight_iff (word vaddr : BitVec 32) :
    DecodesRight word vaddr ↔ IgnoresNothing word := by
  constructor
  · rintro ⟨hShows, hNone⟩
    by_contra hBits
    have hExists : ∃ i : GekkoInsn, i.word = word := by
      by_contra hNot
      rcases known_of_not_ignoresNothing vaddr hBits with hKnown | hExists
      · exact hKnown (hNone fun i hi => hNot ⟨i, hi⟩)
      · exact hNot hExists
    obtain ⟨i, rfl⟩ := hExists
    have hNotRead : ¬ i.AllRead := fun hRead => hBits (ignoresNothing_of_allRead hRead)
    exact not_shows_of_not_allRead hNotRead (hShows i rfl)
  · intro hBits
    constructor
    · rintro i rfl
      refine shows_of_allRead ?_
      by_contra hNotRead
      exact not_ignoresNothing_of_not_allRead hNotRead hBits
    · intro hNone
      by_contra hKnown
      obtain ⟨i, hi⟩ := exists_of_known hBits hKnown
      exact hNone i hi

/-- `fmul f1, f2, f3` is not decoded. -/
theorem not_decodesRight_fmul : ¬ DecodesRight 0xFC2200F2 0 := by
  intro h
  have hShows := h.1 (.floatMul .fmul (by decide) 1 2 3) (by decide)
  exact absurd hShows.1 (by decide)

end Calynda.Decompiler
