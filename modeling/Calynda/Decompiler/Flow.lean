import Calynda.Decompiler.Blocks

/-!
# Control flow of PowerPC instructions

Where control goes after one instruction, by the architecture: the branch instructions, with
calls taken to return to the next instruction, and everything else going on to it.
-/

namespace Calynda.Decompiler

/-- The registers that decide on branches. -/
structure BranchState where
  ctr : BitVec 32
  srr0 : BitVec 32
  cr : Nat → Bool

/-- On to the next instruction, to an address, or back to the caller. -/
inductive Flow where
  | next
  | jump (a : BitVec 32)
  | ret
  deriving DecidableEq

/-- The condition part of a `BO` field: bit 0 ignores the condition register, bit 1 is the value
its bit must have. -/
def condOk (bo bi : Nat) (st : BranchState) : Bool :=
  bo.testBit 4 || st.cr bi == bo.testBit 3

/-- The counter part: bit 2 ignores the counter, bit 3 asks for it to reach zero. -/
def ctrOk (bo : Nat) (st : BranchState) : Bool :=
  bo.testBit 2 || ((st.ctr - 1 != 0) != bo.testBit 1)

/-- Branches that are taken in every state. -/
def branchAlways (bo : Nat) : Bool := bo.testBit 4 && bo.testBit 2

/-- The target of a branch with a displacement field of words. -/
def branchTarget (w va : BitVec 32) (disp : BitVec 32) : BitVec 32 :=
  if ppcBits w 30 30 ≠ 0 then disp else va + disp

def iformTarget (w va : BitVec 32) : BitVec 32 :=
  branchTarget w va (ppcSext (ppcBits w 6 29 * 4) 26)

def bformTarget (w va : BitVec 32) : BitVec 32 :=
  branchTarget w va (ppcSext (ppcBits w 16 29 * 4) 16)

/-- Where control goes from the word `w` at `va`. -/
def ppcFlow (w va : BitVec 32) (st : BranchState) : Flow :=
  let bo := ppcBits w 6 10
  let bi := ppcBits w 11 15
  let lk := ppcBits w 31 31
  match ppcBits w 0 5 with
  | 18 => if lk ≠ 0 then .next else .jump (iformTarget w va)
  | 16 => if ctrOk bo st ∧ condOk bo bi st ∧ lk = 0 then .jump (bformTarget w va) else .next
  | 19 =>
    match ppcBits w 21 30 with
    | 16 => if ctrOk bo st ∧ condOk bo bi st ∧ lk = 0 then .ret else .next
    | 528 => if condOk bo bi st ∧ lk = 0 then .jump (st.ctr &&& ~~~3) else .next
    | 50 => .jump (st.srr0 &&& ~~~3)
    | _ => .next
  | _ => .next

/-- The target of a branch or call that has it in its word. -/
def directTarget (w va : BitVec 32) : Option (BitVec 32) :=
  match ppcBits w 0 5 with
  | 18 => some (iformTarget w va)
  | 16 => some (bformTarget w va)
  | _ => none

theorem directTarget_iform {w : BitVec 32} (h : ppcBits w 0 5 = 18) (va : BitVec 32) :
    directTarget w va = some (iformTarget w va) := by
  rw [directTarget, h]
  rfl

/-- `b` and `ba`, but not `bl` and `bla`. -/
def isIformJump (w : BitVec 32) : Prop := ppcBits w 0 5 = 18 ∧ ppcBits w 31 31 = 0

def isBform (w : BitVec 32) : Prop := ppcBits w 0 5 = 16

theorem directTarget_bform {w : BitVec 32} (h : isBform w) (va : BitVec 32) :
    directTarget w va = some (bformTarget w va) := by
  unfold isBform at h
  rw [directTarget, h]
  rfl

/-- The conditional returns and `blr`. -/
def isReturn (w : BitVec 32) : Prop :=
  ppcBits w 0 5 = 19 ∧ ppcBits w 21 30 = 16 ∧ ppcBits w 31 31 = 0

/-- The jumps to the counter register, on a condition or not. -/
def isCtrJump (w : BitVec 32) : Prop :=
  ppcBits w 0 5 = 19 ∧ ppcBits w 21 30 = 528 ∧ ppcBits w 31 31 = 0

/-- The return from an interrupt. -/
def isRfi (w : BitVec 32) : Prop := ppcBits w 0 5 = 19 ∧ ppcBits w 21 30 = 50

/-- The fields `BO` and `BI` of `blr` and `bctr`. -/
def isPlain (w : BitVec 32) : Prop := ppcBits w 6 10 = 20 ∧ ppcBits w 11 15 = 0

/-! ## What the decoder knows of branches -/

variable {w va : BitVec 32}

theorem isDirect_ppcDecode :
    (ppcDecode w va).op.isDirect = true ↔ isBform w ∨ isIformJump w := by
  unfold isBform isIformJump
  by_cases h16 : ppcBits w 0 5 = 16
  · rw [ppcDecode_bform h16]
    exact iff_of_true rfl (.inl h16)
  by_cases h18 : ppcBits w 0 5 = 18
  · rw [ppcDecode_iform h18, decodeIformBranch]
    by_cases hAa : ppcBits w 30 30 = 0
    · by_cases hLk : ppcBits w 31 31 = 0
      · simp [hAa, hLk, h18, PpcOp.isDirect]
      · simp [hAa, hLk, h18, PpcOp.isDirect]
    · by_cases hLk : ppcBits w 31 31 = 0
      · simp [hAa, hLk, h18, PpcOp.isDirect]
      · simp [hAa, hLk, h18, PpcOp.isDirect]
  refine iff_of_false (fun hOp => ?_) (fun h => h.elim h16 fun h => h18 h.1)
  by_cases h19 : ppcBits w 0 5 = 19
  · rw [ppcDecode_opcode19 h19, decodeOpcode19] at hOp
    dsimp only at hOp
    split at hOp
    · cases hOp
    · split at hOp <;> cases hOp
  · have hNot : (ppcDecode w va).op.isBranch = false := isBranch_ppcDecode h16 h18 h19
    cases hCase : (ppcDecode w va).op <;> rw [hCase] at hNot hOp <;> contradiction

theorem op_ppcDecode_return (h : ppcBits w 0 5 = 19) :
    (ppcDecode w va).op = .blr ↔ isReturn w ∧ isPlain w := by
  rw [ppcDecode_opcode19 h, decodeOpcode19]
  unfold isReturn isPlain
  dsimp only
  split
  case isTrue hBlr => exact iff_of_true rfl ⟨⟨h, hBlr.1, hBlr.2.2.2⟩, hBlr.2.1, hBlr.2.2.1⟩
  case isFalse hBlr =>
    refine iff_of_false ?_ fun ⟨⟨_, hXo, hLk⟩, hBo, hBi⟩ => hBlr ⟨hXo, hBo, hBi, hLk⟩
    split <;> exact nofun

theorem op_ppcDecode_bctr (h : ppcBits w 0 5 = 19) :
    (ppcDecode w va).op = .bctr ↔ isCtrJump w ∧ isPlain w := by
  rw [ppcDecode_opcode19 h, decodeOpcode19]
  unfold isCtrJump isPlain
  dsimp only
  split
  case isTrue hBlr =>
    refine iff_of_false nofun fun ⟨⟨_, hXo, _⟩, _⟩ => ?_
    exact absurd (hBlr.1.symm.trans hXo) (by decide)
  case isFalse hBlr =>
    split
    case isTrue hBctr =>
      exact iff_of_true rfl ⟨⟨h, hBctr.1, hBctr.2.2.2⟩, hBctr.2.1, hBctr.2.2.1⟩
    case isFalse hBctr =>
      exact iff_of_false nofun fun ⟨⟨_, hXo, hLk⟩, hBo, hBi⟩ => hBctr ⟨hXo, hBo, hBi, hLk⟩

/-- The words that end a block. -/
def endsBlockWord (w : BitVec 32) : Prop :=
  isBform w ∨ isIformJump w ∨ (isReturn w ∨ isCtrJump w) ∧ isPlain w

theorem endsBlock_ppcDecode : (ppcDecode w va).op.endsBlock = true ↔ endsBlockWord w := by
  have hOps : (ppcDecode w va).op.endsBlock = true ↔ (ppcDecode w va).op.isDirect = true ∨
      (ppcDecode w va).op = .blr ∨ (ppcDecode w va).op = .bctr := by
    cases (ppcDecode w va).op <;> simp [PpcOp.endsBlock, PpcOp.isDirect]
  rw [hOps, isDirect_ppcDecode, or_assoc, endsBlockWord, or_and_right]
  refine or_congr Iff.rfl (or_congr Iff.rfl ?_)
  by_cases h19 : ppcBits w 0 5 = 19
  · rw [op_ppcDecode_return h19, op_ppcDecode_bctr h19]
  · refine iff_of_false (fun hOp => ?_) fun h => ?_
    · by_cases h16 : ppcBits w 0 5 = 16
      · rw [ppcDecode_bform h16] at hOp
        exact hOp.elim (fun h => by cases h) (fun h => by cases h)
      by_cases h18 : ppcBits w 0 5 = 18
      · rw [ppcDecode_iform h18, decodeIformBranch] at hOp
        dsimp only at hOp
        split at hOp
        · exact hOp.elim (fun h => by cases h) (fun h => by cases h)
        · split at hOp
          · exact hOp.elim (fun h => by cases h) (fun h => by cases h)
          · split at hOp <;> exact hOp.elim (fun h => by cases h) (fun h => by cases h)
      have hNot : (ppcDecode w va).op.isBranch = false := isBranch_ppcDecode h16 h18 h19
      rcases hOp with hOp | hOp
      · rw [hOp] at hNot
        contradiction
      · rw [hOp] at hNot
        contradiction
    · rcases h with h | h
      · exact h19 h.1.1
      · exact h19 h.1.1

theorem target_ppcDecode {a : BitVec 32} (h : directTarget w va = some a) :
    (ppcDecode w va).target = a := by
  unfold directTarget at h
  split at h
  case h_1 h18 =>
    rw [ppcDecode_iform h18, ← Option.some.inj h]
    rfl
  case h_2 h16 =>
    rw [ppcDecode_bform h16, ← Option.some.inj h]
    rfl
  case h_3 => exact nomatch h

/-! ## Flow by kind of word -/

theorem ppcFlow_iform (h : ppcBits w 0 5 = 18) (st : BranchState) :
    ppcFlow w va st =
      if ppcBits w 31 31 ≠ 0 then .next else .jump (iformTarget w va) := by
  rw [ppcFlow, h]
  rfl

theorem ppcFlow_bform (h : isBform w) (st : BranchState) :
    ppcFlow w va st =
      if ctrOk (ppcBits w 6 10) st ∧ condOk (ppcBits w 6 10) (ppcBits w 11 15) st ∧
        ppcBits w 31 31 = 0 then .jump (bformTarget w va) else .next := by
  unfold isBform at h
  rw [ppcFlow, h]
  rfl

theorem ppcFlow_return (h : isReturn w) (st : BranchState) :
    ppcFlow w va st =
      if ctrOk (ppcBits w 6 10) st ∧ condOk (ppcBits w 6 10) (ppcBits w 11 15) st then .ret
      else .next := by
  obtain ⟨h19, hXo, hLk⟩ := h
  simp only [ppcFlow, h19, hXo, hLk, and_true]

theorem ppcFlow_other (hBform : ¬ isBform w) (hIform : ppcBits w 0 5 ≠ 18) (hReturn : ¬ isReturn w)
    (hCtr : ¬ isCtrJump w) (hRfi : ¬ isRfi w) (st : BranchState) : ppcFlow w va st = .next := by
  unfold isReturn at hReturn
  unfold isCtrJump at hCtr
  unfold ppcFlow
  dsimp only
  split
  case h_1 h18 => exact absurd h18 hIform
  case h_2 h16 => exact absurd h16 hBform
  case h_3 h19 =>
    split
    case h_1 hXo => exact if_neg fun h => hReturn ⟨h19, hXo, h.2.2⟩
    case h_2 hXo => exact if_neg fun h => hCtr ⟨h19, hXo, h.2⟩
    case h_3 hXo => exact absurd ⟨h19, hXo⟩ hRfi
    case h_4 => rfl
  case h_4 => rfl

/-- A state in which a conditional branch is taken. -/
def takenState (bo : Nat) : BranchState where
  ctr := if bo.testBit 1 then 1 else 2
  srr0 := 0
  cr _ := bo.testBit 3

theorem condOk_takenState (bo bi : Nat) : condOk bo bi (takenState bo) = true := by
  simp [condOk, takenState]

theorem ctrOk_takenState (bo : Nat) : ctrOk bo (takenState bo) = true := by
  unfold ctrOk takenState
  cases h2 : bo.testBit 2 with
  | true => rfl
  | false =>
    cases h1 : bo.testBit 1 with
    | true => simp
    | false => simp

/-- A state in which a branch that is not always taken is not taken. -/
def skippedState (bo : Nat) : BranchState where
  ctr := if bo.testBit 1 then 2 else 1
  srr0 := 0
  cr _ := !bo.testBit 3

theorem skippedState_not_taken {bo : Nat} (h : branchAlways bo = false) (bi : Nat) :
    ¬ (ctrOk bo (skippedState bo) = true ∧ condOk bo bi (skippedState bo) = true) := by
  intro ⟨hCtr, hCond⟩
  have hIgnoresCond : bo.testBit 4 = true := by
    simpa [condOk, skippedState] using hCond
  have hReadsCtr : bo.testBit 2 = false := by
    rw [branchAlways, hIgnoresCond, Bool.true_and] at h
    exact h
  unfold ctrOk skippedState at hCtr
  rw [hReadsCtr] at hCtr
  cases h1 : bo.testBit 1 with
  | true => simp [h1] at hCtr
  | false => simp [h1] at hCtr

theorem taken_of_always {bo : Nat} (h : branchAlways bo = true) (bi : Nat) (st : BranchState) :
    ctrOk bo st = true ∧ condOk bo bi st = true := by
  unfold branchAlways at h
  rw [Bool.and_eq_true] at h
  simp [ctrOk, condOk, h.1, h.2]

/-- Word addresses lose nothing with their two low bits. -/
theorem and_not_three {a : BitVec 32} (h : a.toNat % 4 = 0) : a &&& ~~~3 = a := by
  apply BitVec.eq_of_getLsbD_eq
  intro i hi
  have hLow : i < 2 → a.getLsbD i = false := by
    intro hi
    have hMod : a.toNat % 2 ^ 2 = 0 := h
    have hBit : (a.toNat % 2 ^ 2).testBit i = a.toNat.testBit i := by
      rw [Nat.testBit_mod_two_pow]
      simp [hi]
    rw [BitVec.getLsbD, ← hBit, hMod, Nat.zero_testBit]
  have hHigh : 2 ≤ i → (3 : BitVec 32).getLsbD i = false := by
    intro hi
    rw [BitVec.getLsbD]
    exact Nat.testBit_lt_two_pow (Nat.lt_of_lt_of_le (by decide : 3 < 2 ^ 2)
      (Nat.pow_le_pow_right (by decide) hi))
  by_cases hCase : i < 2
  · simp [hLow hCase]
  · rw [BitVec.getLsbD_and, BitVec.getLsbD_not, hHigh (Nat.le_of_not_lt hCase)]
    simp [hi]

/-- An indirect jump can go to any word address. -/
theorem ppcFlow_indirect (h : isCtrJump w ∨ isRfi w) {a : BitVec 32} (ha : a.toNat % 4 = 0) :
    ∃ st, ppcFlow w va st = .jump a := by
  rcases h with ⟨h19, hXo, hLk⟩ | ⟨h19, hXo⟩
  · refine ⟨⟨a, 0, fun _ => (ppcBits w 6 10).testBit 3⟩, ?_⟩
    simp only [ppcFlow, h19, hXo, hLk, condOk, beq_self_eq_true, Bool.or_true, and_self, if_true]
    rw [and_not_three ha]
  · refine ⟨⟨0, a, fun _ => false⟩, ?_⟩
    simp only [ppcFlow, h19, hXo]
    rw [and_not_three ha]

end Calynda.Decompiler
