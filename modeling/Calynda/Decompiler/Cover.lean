import Calynda.Decompiler.Summary
import Mathlib.Data.Fintype.Fin

/-!
# Which summaries cover their instructions

Form by form: the summary of a decoded word covers its execution exactly if the word is one of
`PpcInsn.summarized`.
-/

namespace Calynda.Decompiler

open List

variable {fpu : FloatUnit} {word vaddr : BitVec 32}

/-! ## States -/

/-- A state with the same value in all registers of a kind, and zero elsewhere. -/
def Machine.flat (c : BitVec 32) (x : Fpr) (fpscr : BitVec 32) : Machine where
  gpr _ := c
  fpr _ := x
  mem _ := 0
  spr _ := 0
  cr := 0
  fpscr := fpscr

/-- A state with a value of its own in one general purpose register. -/
def Machine.single (r : Nat) (v c : BitVec 32) : Machine :=
  { Machine.flat c 0 0 with gpr := Function.update (fun _ => c) r v }

theorem byteAt_flat (c : BitVec 32) (x : Fpr) (fpscr ea : BitVec 32) :
    (Machine.flat c x fpscr).byteAt ea = 0 := rfl

theorem halfAt_flat (c : BitVec 32) (x : Fpr) (fpscr ea : BitVec 32) :
    (Machine.flat c x fpscr).halfAt ea = 0 := by
  show 0#8 ++ 0#8 = 0#16
  decide

theorem wordAt_flat (c : BitVec 32) (x : Fpr) (fpscr ea : BitVec 32) :
    (Machine.flat c x fpscr).wordAt ea = 0 := by
  rw [Machine.wordAt, halfAt_flat, halfAt_flat]
  decide

theorem Machine.single_self (r : Nat) (v c : BitVec 32) : (Machine.single r v c).gpr r = v := by
  simp [Machine.single]

theorem Machine.single_of_ne {r r' : Nat} (h : r' ≠ r) (v c : BitVec 32) :
    (Machine.single r v c).gpr r' = c := by
  simp [Machine.single, Machine.flat, Function.update_of_ne h]

section Agree

variable {e : InsnEffects} {s s' : Machine}

theorem AgreeOn.base (h : AgreeOn e s s') {a : Nat} (hUses : ∀ r ∈ baseUse a, r ∈ e.gprUses) :
    s.gpr.base a = s'.gpr.base a := by
  unfold Gprs.base
  split
  case isTrue => rfl
  case isFalse hNe => exact h.gpr a (hUses a (by simp [baseUse, hNe]))

theorem AgreeOn.address (h : AgreeOn e s s')
    (hUses : ∀ r ∈ baseUse (fieldA word), r ∈ e.gprUses) : s.address word = s'.address word := by
  rw [Machine.address, Machine.address, h.base hUses]

theorem wordAt_congr (h : s.mem = s'.mem) : s.wordAt = s'.wordAt := by
  funext ea
  rw [Machine.wordAt, Machine.wordAt, Machine.halfAt, Machine.halfAt, Machine.halfAt,
    Machine.halfAt, h]

theorem halfAt_congr (h : s.mem = s'.mem) : s.halfAt = s'.halfAt := by
  funext ea
  rw [Machine.halfAt, Machine.halfAt, h]

theorem doubleAt_congr (h : s.mem = s'.mem) : s.doubleAt = s'.doubleAt := by
  funext ea
  rw [Machine.doubleAt, Machine.doubleAt, wordAt_congr h]

end Agree

theorem exists_fpr_ne (x : Fpr) : ∃ y : Fpr, x ≠ y := by
  by_cases h : x = 0
  · exact ⟨1, h ▸ by decide⟩
  · exact ⟨0, h⟩

/-! ## Loads and stores -/

section Memory

variable {op : PpcOp} {insn : PpcInsn}

/-- The instruction that `ppcDecode` fills in for a word. -/
def blank (word vaddr : BitVec 32) : PpcInsn := { raw := word, addr := vaddr }

/-- A load of the table. -/
theorem covers_load {v : Machine → BitVec 32 → BitVec 32}
    (hDecode : ppcDecode word vaddr = decodeDformMem word (blank word vaddr) op)
    (hEffects : ∀ insn : PpcInsn, insn.op = op →
      computeInsnEffects insn = { gprDef := some insn.rd, gprUses := baseUse insn.ra })
    (hRun : ∀ s, exec fpu word s = { gprs := [(fieldD word, v s (s.address word))] })
    (hv : ∀ s s', s.mem = s'.mem → v s = v s') : SummaryCovers fpu word vaddr := by
  unfold SummaryCovers
  rw [hDecode, hEffects _ rfl]
  refine (covers_gpr hRun rfl rfl).2 fun s s' hAgree => ?_
  rw [hv s s' hAgree.mem, hAgree.address fun r hr => hr]

theorem covers_floatLoad {v : Machine → BitVec 32 → Fpr}
    (hDecode : ppcDecode word vaddr = decodeDformMem word (blank word vaddr) op)
    (hEffects : ∀ insn : PpcInsn, insn.op = op →
      computeInsnEffects insn = { fprDef := some insn.rd, gprUses := baseUse insn.ra })
    (hRun : ∀ s, exec fpu word s = { fprs := [(fieldD word, v s (s.address word))] })
    (hv : ∀ s s', s.mem = s'.mem → v s = v s') : SummaryCovers fpu word vaddr := by
  unfold SummaryCovers
  rw [hDecode, hEffects _ rfl]
  refine (covers_fpr hRun rfl rfl).2 fun s s' hAgree => ?_
  rw [hv s s' hAgree.mem, hAgree.address fun r hr => hr]

/-- A word that writes nothing. -/
theorem covers_quiet (hRun : ∀ s, exec fpu word s = {})
    (hGpr : (computeInsnEffects (ppcDecode word vaddr)).gprDef = none)
    (hFpr : (computeInsnEffects (ppcDecode word vaddr)).fprDef = none) :
    SummaryCovers fpu word vaddr := covers_silent hRun hGpr hFpr

/-- The words without a summary. -/
theorem summaryCovers_unsaid (hEffects : computeInsnEffects (ppcDecode word vaddr) = {})
    (hSpare : (ppcDecode word vaddr).op.spare = []) :
    SummaryCovers fpu word vaddr ↔ Covers (exec fpu word) {} [] := by
  rw [SummaryCovers, hEffects, hSpare]

/-- A word without a summary changes a register that all registers are equal to. -/
theorem not_covers_flat {v : Machine → BitVec 32} {d : Nat} (c : BitVec 32)
    (hRun : ∀ s, exec fpu word s = { gprs := [(d, v s)] }) (hv : v (.flat c 0 0) ≠ c) :
    ¬ Covers (exec fpu word) {} [] := fun hCovers =>
  hv ((covers_unsaid_gpr hRun).1 hCovers (.flat c 0 0))

/-- A load with update and without a summary gives its register zero, where it held one. -/
theorem not_covers_loadUpdate {v : Machine → BitVec 32} {base : Nat × BitVec 32} {d : Nat}
    (hRun : exec fpu word (.flat 1 0 0) = { gprs := [base, (d, v (.flat 1 0 0))] })
    (hv : v (.flat 1 0 0) ≠ 1) : ¬ Covers (exec fpu word) {} [] := by
  refine not_covers_of_gpr (s := .flat 1 0 0) (r := d) nofun ?_
  rw [hRun, writeAll, foldl_cons, foldl_cons, foldl_nil, Function.update_self]
  exact hv

/-- A load of a floating point register without a summary. -/
theorem not_covers_floatLoad {v : Machine → Fpr} {base : Machine → List (Nat × BitVec 32)} {d : Nat}
    (hRun : ∀ s, exec fpu word s = { gprs := base s, fprs := [(d, v s)] })
    (hv : ∀ x y, v (.flat 0 x 0) = v (.flat 0 y 0)) : ¬ Covers (exec fpu word) {} [] := by
  obtain ⟨x, hNe⟩ := exists_fpr_ne (v (.flat 0 0 0))
  refine not_covers_of_fpr (s := .flat 0 x 0) (r := d) nofun ?_
  rw [hRun, writeAll, foldl_cons, foldl_nil, Function.update_self, hv x 0]
  exact hNe

/-- A store with update and without a summary, which changes its base unless its displacement is
zero. -/
theorem covers_update {a : Nat} {disp : BitVec 32}
    (hRun : ∀ s, exec fpu word s = { gprs := [(a, s.gpr a + disp)] }) :
    Covers (exec fpu word) {} [] ↔ disp = 0 := by
  refine (covers_unsaid_gpr hRun).trans ⟨fun h => ?_, fun h s => ?_⟩
  · have hZero := h (.flat 0 0 0)
    have hGpr : (Machine.flat 0 0 0).gpr a = 0 := rfl
    rw [hGpr] at hZero
    simpa using hZero
  · simp [h]

/-- The displacement of an update that leaves the base alone. -/
theorem summaryCovers_update {disp : BitVec 32}
    (hEffects : computeInsnEffects (ppcDecode word vaddr) = {})
    (hSpare : (ppcDecode word vaddr).op.spare = [])
    (hRun : ∀ s, exec fpu word s = { gprs := [(fieldA word, s.gpr (fieldA word) + disp)] }) :
    SummaryCovers fpu word vaddr ↔ disp = 0 :=
  (summaryCovers_unsaid hEffects hSpare).trans (covers_update hRun)

end Memory

/-! ## The forms -/

/-- The summary covers the word exactly if it is on the list. -/
def CoversExactly (fpu : FloatUnit) (word vaddr : BitVec 32) : Prop :=
  SummaryCovers fpu word vaddr ↔ (ppcDecode word vaddr).summarized = true

section Forms

theorem exec_of_primary {p : Nat} (h : ppcBits word 0 5 = p) (s : Machine) :
    exec fpu word s = execPrimary fpu word s p := by
  rw [exec, h]

theorem coversExactly_of_covers (h : SummaryCovers fpu word vaddr)
    (hSummarized : (ppcDecode word vaddr).summarized = true) : CoversExactly fpu word vaddr :=
  iff_of_true h hSummarized

theorem coversExactly_unsaid (hEffects : computeInsnEffects (ppcDecode word vaddr) = {})
    (hSpare : (ppcDecode word vaddr).op.spare = [])
    (hNot : ¬ Covers (exec fpu word) {} [])
    (hSummarized : (ppcDecode word vaddr).summarized = false) : CoversExactly fpu word vaddr := by
  rw [CoversExactly, summaryCovers_unsaid hEffects hSpare, hSummarized]
  exact iff_of_false hNot nofun

/-- The operations of the D-form accesses. -/
def memOp : Nat → Option PpcOp
  | 32 => some .lwz
  | 33 => some .lwzu
  | 34 => some .lbz
  | 35 => some .lbzu
  | 36 => some .stw
  | 37 => some .stwu
  | 38 => some .stb
  | 39 => some .stbu
  | 40 => some .lhz
  | 41 => some .lhzu
  | 42 => some .lha
  | 43 => some .lhau
  | 44 => some .sth
  | 45 => some .sthu
  | 46 => some .lmw
  | 47 => some .stmw
  | 48 => some .lfs
  | 49 => some .lfsu
  | 50 => some .lfd
  | 51 => some .lfdu
  | 52 => some .stfs
  | 53 => some .stfsu
  | 54 => some .stfd
  | 55 => some .stfdu
  | _ => none

theorem ppcDecode_mem {p : Nat} {op : PpcOp} (h : ppcBits word 0 5 = p) (hOp : memOp p = some op) :
    ppcDecode word vaddr = decodeDformMem word (blank word vaddr) op := by
  unfold memOp at hOp
  split at hOp
  case h_25 => exact nomatch hOp
  all_goals
    obtain rfl := Option.some.inj hOp
    rw [ppcDecode, h]
    rfl

/-- Loads with a summary. -/
theorem coversExactly_load (h : ppcBits word 0 5 ∈ [32, 34, 40]) :
    CoversExactly fpu word vaddr := by
  simp only [mem_cons, not_mem_nil, or_false] at h
  rcases h with h | h | h
  · have hDecode : ppcDecode word vaddr = decodeDformMem word (blank word vaddr) _ :=
      ppcDecode_mem h rfl
    refine coversExactly_of_covers (covers_load (v := fun s => s.wordAt) hDecode
      (fun insn hOp => by rw [computeInsnEffects, hOp]) (exec_of_primary h)
      fun s s' => wordAt_congr) ?_
    rw [hDecode]
    rfl
  · have hDecode : ppcDecode word vaddr = decodeDformMem word (blank word vaddr) _ :=
      ppcDecode_mem h rfl
    refine coversExactly_of_covers (covers_load (v := fun s ea => (s.byteAt ea).setWidth 32) hDecode
      (fun insn hOp => by rw [computeInsnEffects, hOp]) (exec_of_primary h)
      fun s s' hMem => ?_) ?_
    · funext ea
      rw [Machine.byteAt, Machine.byteAt, hMem]
    · rw [hDecode]
      rfl
  · have hDecode : ppcDecode word vaddr = decodeDformMem word (blank word vaddr) _ :=
      ppcDecode_mem h rfl
    refine coversExactly_of_covers (covers_load (v := fun s ea => (s.halfAt ea).setWidth 32) hDecode
      (fun insn hOp => by rw [computeInsnEffects, hOp]) (exec_of_primary h)
      fun s s' hMem => ?_) ?_
    · rw [halfAt_congr hMem]
    · rw [hDecode]
      rfl

theorem coversExactly_floatLoad (h : ppcBits word 0 5 ∈ [48, 50]) :
    CoversExactly fpu word vaddr := by
  simp only [mem_cons, not_mem_nil, or_false] at h
  rcases h with h | h
  · have hDecode : ppcDecode word vaddr = decodeDformMem word (blank word vaddr) _ :=
      ppcDecode_mem h rfl
    refine coversExactly_of_covers (covers_floatLoad (v := fun s ea => fpu.fromSingle (s.wordAt ea))
      hDecode (fun insn hOp => by rw [computeInsnEffects, hOp]) (exec_of_primary h)
      fun s s' hMem => ?_) ?_
    · rw [wordAt_congr hMem]
    · rw [hDecode]
      rfl
  · have hDecode : ppcDecode word vaddr = decodeDformMem word (blank word vaddr) _ :=
      ppcDecode_mem h rfl
    refine coversExactly_of_covers (covers_floatLoad (v := fun s => s.doubleAt)
      hDecode (fun insn hOp => by rw [computeInsnEffects, hOp]) (exec_of_primary h)
      fun s s' hMem => doubleAt_congr hMem) ?_
    rw [hDecode]
    rfl

/-- Stores write no register. -/
theorem coversExactly_store (h : ppcBits word 0 5 ∈ [36, 38, 44, 47, 52, 54]) :
    CoversExactly fpu word vaddr := by
  simp only [mem_cons, not_mem_nil, or_false] at h
  rcases h with h | h | h | h | h | h
  all_goals
    have hDecode : ppcDecode word vaddr = decodeDformMem word (blank word vaddr) _ :=
      ppcDecode_mem h rfl
    refine coversExactly_of_covers (covers_quiet (exec_of_primary h) ?_ ?_) ?_
    all_goals
      rw [hDecode]
      rfl

/-- Loads with update, and those with a sign, have no summary. -/
theorem coversExactly_loadUpdate (h : ppcBits word 0 5 ∈ [33, 35, 41, 42, 43]) :
    CoversExactly fpu word vaddr := by
  simp only [mem_cons, not_mem_nil, or_false] at h
  rcases h with h | h | h | h | h
  all_goals
    have hDecode : ppcDecode word vaddr = decodeDformMem word (blank word vaddr) _ :=
      ppcDecode_mem h rfl
    refine coversExactly_unsaid (by rw [hDecode]; rfl) (by rw [hDecode]; rfl) ?_ (by rw [hDecode]; rfl)
  · exact not_covers_loadUpdate (v := fun s => s.wordAt (s.addressU word)) (exec_of_primary h _)
      (by rw [wordAt_flat]; decide)
  · exact not_covers_loadUpdate (v := fun s => (s.byteAt (s.addressU word)).setWidth 32)
      (exec_of_primary h _) (by rw [byteAt_flat]; decide)
  · exact not_covers_loadUpdate (v := fun s => (s.halfAt (s.addressU word)).setWidth 32)
      (exec_of_primary h _) (by rw [halfAt_flat]; decide)
  · exact not_covers_flat (v := fun s => (s.halfAt (s.address word)).signExtend 32) 1
      (exec_of_primary h) (by rw [halfAt_flat]; decide)
  · exact not_covers_loadUpdate (v := fun s => (s.halfAt (s.addressU word)).signExtend 32)
      (exec_of_primary h _) (by rw [halfAt_flat]; decide)

/-- Loads of floating point registers with update have no summary. -/
theorem coversExactly_floatLoadUpdate (h : ppcBits word 0 5 ∈ [49, 51]) :
    CoversExactly fpu word vaddr := by
  simp only [mem_cons, not_mem_nil, or_false] at h
  rcases h with h | h
  all_goals
    have hDecode : ppcDecode word vaddr = decodeDformMem word (blank word vaddr) _ :=
      ppcDecode_mem h rfl
    refine coversExactly_unsaid (by rw [hDecode]; rfl) (by rw [hDecode]; rfl) ?_ (by rw [hDecode]; rfl)
  · exact not_covers_floatLoad (v := fun s => fpu.fromSingle (s.wordAt (s.addressU word)))
      (exec_of_primary h) fun x y => rfl
  · exact not_covers_floatLoad (v := fun s => s.doubleAt (s.addressU word))
      (exec_of_primary h) fun x y => rfl

/-- Stores with update have no summary, but may leave their base as it is. -/
theorem coversExactly_storeUpdate (h : ppcBits word 0 5 ∈ [37, 39, 45, 53, 55]) :
    CoversExactly fpu word vaddr := by
  simp only [mem_cons, not_mem_nil, or_false] at h
  rcases h with h | h | h | h | h
  all_goals
    have hDecode : ppcDecode word vaddr = decodeDformMem word (blank word vaddr) _ :=
      ppcDecode_mem h rfl
    refine (summaryCovers_update (by rw [hDecode]; rfl) (by rw [hDecode]; rfl)
      (exec_of_primary h)).trans ?_
    rw [hDecode]
    exact beq_iff_eq.symm

/-! ### Immediate operands -/

theorem coversExactly_addi (h : ppcBits word 0 5 ∈ [14, 15]) : CoversExactly fpu word vaddr := by
  simp only [mem_cons, not_mem_nil, or_false] at h
  rcases h with h | h
  · have hDecode : ppcDecode word vaddr = decodeDformArith word (blank word vaddr) .addi := by
      rw [ppcDecode, h]
      rfl
    rw [CoversExactly, SummaryCovers, hDecode]
    refine iff_of_true ((covers_gpr (exec_of_primary h) rfl rfl).2 fun s s' hAgree => ?_) rfl
    rw [hAgree.base (a := fieldA word) fun r hr => hr]
  · have hDecode : ppcDecode word vaddr = decodeDformArith word (blank word vaddr) .addis := by
      rw [ppcDecode, h]
      rfl
    rw [CoversExactly, SummaryCovers, hDecode]
    refine iff_of_true ((covers_gpr (exec_of_primary h) rfl rfl).2 fun s s' hAgree => ?_) rfl
    rw [hAgree.base (a := fieldA word) fun r hr => hr]

/-- `mulli` reads register 0, where the summary takes it for zero. -/
theorem coversExactly_mulli (h : ppcBits word 0 5 = 7) : CoversExactly fpu word vaddr := by
  have hDecode : ppcDecode word vaddr = decodeDformArith word (blank word vaddr) .mulli := by
    rw [ppcDecode, h]
    rfl
  have hList : (decodeDformArith word (blank word vaddr) .mulli).summarized = true ↔
      fieldA word ≠ 0 ∨ simm word = 0 := by
    show (fieldA word != 0 || simm word == 0) = true ↔ _
    rw [Bool.or_eq_true, bne_iff_ne, beq_iff_eq]
  rw [CoversExactly, SummaryCovers, hDecode, hList]
  refine (covers_gpr (exec_of_primary h) rfl rfl).trans ⟨fun hSame => ?_, fun hList s s' hAgree => ?_⟩
  · by_cases hBase : fieldA word = 0
    · have hAgree : AgreeOn (computeInsnEffects (decodeDformArith word (blank word vaddr) .mulli))
          (.flat 0 0 0) (.flat 1 0 0) := by
        refine ⟨fun r hr => ?_, fun r hr => absurd hr not_mem_nil, rfl, rfl, rfl, rfl⟩
        have hUses : r ∈ baseUse (fieldA word) := hr
        rw [baseUse, hBase] at hUses
        exact absurd hUses (by simp)
      have hEq : 0 * simm word = 1 * simm word := hSame _ _ hAgree
      exact .inr (by simpa using hEq.symm)
    · exact .inl hBase
  · rcases hList with hBase | hZero
    · rw [hAgree.gpr _ (show fieldA word ∈ baseUse (fieldA word) by simp [baseUse, hBase])]
    · simp [hZero]

/-- `ori` and `andi.` read the register of `rS` and write that of `rA`. -/
theorem coversExactly_ori (h : ppcBits word 0 5 = 24) : CoversExactly fpu word vaddr := by
  have hDecode : ppcDecode word vaddr = decodeOri word (blank word vaddr) := by
    rw [ppcDecode, h]
    rfl
  rw [CoversExactly, SummaryCovers, hDecode]
  by_cases hNop : fieldD word = 0 ∧ fieldA word = 0 ∧ uimm word = 0
  · have hOp : (decodeOri word (blank word vaddr)).op = .nop := if_pos hNop
    rw [computeInsnEffects, PpcInsn.summarized, hOp]
    refine iff_of_true ((covers_unsaid_gpr (exec_of_primary h)).2 fun s => ?_) rfl
    simp [hNop]
  · have hOp : (decodeOri word (blank word vaddr)).op = .ori := if_neg hNop
    rw [PpcInsn.summarized, hOp]
    refine iff_of_true ((covers_gpr (exec_of_primary h) ?_ ?_).2 fun s s' hAgree => ?_) rfl
    · rw [computeInsnEffects, hOp]
      rfl
    · rw [computeInsnEffects, hOp]
    · rw [computeInsnEffects, hOp] at hAgree
      rw [hAgree.gpr (fieldD word) mem_cons_self]

theorem coversExactly_andiDot (h : ppcBits word 0 5 = 28) : CoversExactly fpu word vaddr := by
  have hDecode : ppcDecode word vaddr = decodeAndiDot word (blank word vaddr) := by
    rw [ppcDecode, h]
    rfl
  rw [CoversExactly, SummaryCovers, hDecode]
  refine iff_of_true ((covers_gpr (exec_of_primary h) rfl rfl).2 fun s s' hAgree => ?_) rfl
  rw [hAgree.gpr (fieldD word) mem_cons_self]

/-! ### Compares and branches -/

/-- The operations that write no register and define none. -/
def quietOps : List PpcOp :=
  [.cmpw, .cmplw, .cmpwi, .cmplwi, .b, .ba, .bc, .blr, .bctr, .psqSt, .mtlr, .mtctr]

theorem coversExactly_quiet {op : PpcOp} (hRun : ∀ s, exec fpu word s = {})
    (hOp : (ppcDecode word vaddr).op = op) (hQuiet : op ∈ quietOps) :
    CoversExactly fpu word vaddr := by
  refine coversExactly_of_covers (covers_quiet hRun ?_ ?_) ?_
  all_goals
    first
    | rw [computeInsnEffects, hOp]
    | rw [PpcInsn.summarized, hOp]
    simp only [quietOps, mem_cons, not_mem_nil, or_false] at hQuiet
    rcases hQuiet with rfl | rfl | rfl | rfl | rfl | rfl | rfl | rfl | rfl | rfl | rfl | rfl
  all_goals rfl

/-- Compares with an immediate write no register. -/
theorem coversExactly_cmpi (h : ppcBits word 0 5 ∈ [10, 11])
    (hKnown : (ppcDecode word vaddr).op ≠ .unknown) : CoversExactly fpu word vaddr := by
  have hAll : ∀ op : PpcOp, op.primary ∈ [10, 11] → op ∈ quietOps := by
    intro op
    cases op <;> decide
  have hQuiet := hAll _ (ppcDecode_primary rfl hKnown ▸ h)
  simp only [mem_cons, not_mem_nil, or_false] at h
  rcases h with h | h
  all_goals exact coversExactly_quiet (exec_of_primary h) rfl hQuiet

/-- A call leaves register 3 to its callee, and does not write it. -/
theorem not_summaryCovers_call (hRun : ∀ s, exec fpu word s = {})
    (hOp : (ppcDecode word vaddr).op = .bl ∨ (ppcDecode word vaddr).op = .bla) :
    ¬ SummaryCovers fpu word vaddr ∧ (ppcDecode word vaddr).summarized = false := by
  have hEffects : computeInsnEffects (ppcDecode word vaddr) = { gprDef := some 3 } := by
    rcases hOp with hOp | hOp
    all_goals rw [computeInsnEffects, hOp]
  refine ⟨fun hCovers => ?_, ?_⟩
  · rw [SummaryCovers, hEffects] at hCovers
    have hAgree : AgreeOn { gprDef := some 3 } (.flat 0 0 0) (.flat 1 0 0) :=
      ⟨nofun, nofun, rfl, rfl, rfl, rfl⟩
    have hSame := (hCovers _ _ hAgree).2.2.1 3 rfl
    rw [hRun, hRun] at hSame
    exact absurd (show (0 : BitVec 32) = 1 from hSame) (by decide)
  · rcases hOp with hOp | hOp
    all_goals rw [PpcInsn.summarized, hOp]

/-- Branches write no register. -/
theorem coversExactly_branch (h : ppcBits word 0 5 ∈ [16, 18, 19])
    (hKnown : (ppcDecode word vaddr).op ≠ .unknown) : CoversExactly fpu word vaddr := by
  have hAll : ∀ op : PpcOp, op.primary ∈ [16, 18, 19] → op ∈ quietOps ∨ op = .bl ∨ op = .bla := by
    intro op
    cases op <;> decide
  have hOp := hAll _ (ppcDecode_primary rfl hKnown ▸ h)
  have hRun : ∀ s, exec fpu word s = {} := by
    simp only [mem_cons, not_mem_nil, or_false] at h
    rcases h with h | h | h
    all_goals exact exec_of_primary h
  rcases hOp with hQuiet | hCall
  · exact coversExactly_quiet hRun rfl hQuiet
  · obtain ⟨hNot, hList⟩ := not_summaryCovers_call hRun hCall
    rw [CoversExactly, hList]
    exact iff_of_false hNot nofun

/-! ### Several registers, pairs in memory -/

theorem writeAll_of_not_mem {regs : Gprs} {writes : List (Nat × BitVec 32)} {r : Nat}
    (h : r ∉ writes.map (·.1)) : writeAll regs writes r = regs r := by
  induction writes generalizing regs with
  | nil => rfl
  | cons p writes ih =>
    rw [map_cons, mem_cons, not_or] at h
    exact (ih h.2).trans (Function.update_of_ne h.1 _ _)

theorem writeAll_of_forall {regs : Gprs} {writes : List (Nat × BitVec 32)} {r : Nat} {v : BitVec 32}
    (h : r ∈ writes.map (·.1)) (hAll : ∀ p ∈ writes, p.2 = v) : writeAll regs writes r = v := by
  induction writes generalizing regs with
  | nil => exact absurd h not_mem_nil
  | cons p writes ih =>
    have hRest : ∀ q ∈ writes, q.2 = v := fun q hq => hAll q (mem_cons_of_mem _ hq)
    by_cases hMem : r ∈ writes.map (·.1)
    · exact ih hMem hRest
    · rw [map_cons, mem_cons] at h
      obtain rfl := h.resolve_right hMem
      refine (writeAll_of_not_mem hMem).trans ?_
      exact (Function.update_self p.1 p.2 regs).trans (hAll p mem_cons_self)

/-- `lmw` defines the first of its registers only. -/
theorem coversExactly_lmw (h : ppcBits word 0 5 = 46) : CoversExactly fpu word vaddr := by
  have hDecode : ppcDecode word vaddr = decodeDformMem word (blank word vaddr) .lmw :=
    ppcDecode_mem h rfl
  have hD : fieldD word < 32 := Nat.mod_lt _ (by decide)
  have hList : (decodeDformMem word (blank word vaddr) .lmw).summarized = true ↔
      fieldD word = 31 := beq_iff_eq
  rw [CoversExactly, SummaryCovers, hDecode, hList]
  constructor
  · intro hCovers
    refine Classical.byContradiction fun hNe => ?_
    have hSame := (hCovers (.flat 1 0 0) (.flat 1 0 0) (.refl _ _)).1 (fieldD word + 1)
      (fun hEq => Nat.succ_ne_self _ (Option.some.inj hEq).symm) not_mem_nil
    rw [exec_of_primary h, execPrimary] at hSame
    rw [writeAll_of_forall (v := 0)] at hSame
    · exact absurd (show (0 : BitVec 32) = 1 from hSame) (by decide)
    · rw [map_map]
      exact mem_map.2 ⟨1, mem_range.2 (by omega), rfl⟩
    · intro p hp
      obtain ⟨k, -, rfl⟩ := mem_map.1 hp
      exact wordAt_flat _ _ _ _
  · intro hLast
    refine (covers_gpr (d := fieldD word) (v := fun s => s.wordAt (s.address word)) (fun s => ?_)
      rfl rfl).2 fun s s' hAgree => ?_
    · rw [exec_of_primary h, execPrimary, hLast]
      simp
    · rw [wordAt_congr hAgree.mem, hAgree.address fun r hr => hr]

/-- The quantized accesses of pairs. -/
theorem coversExactly_psq (h : ppcBits word 0 5 ∈ [56, 57, 60, 61]) :
    CoversExactly fpu word vaddr := by
  simp only [mem_cons, not_mem_nil, or_false] at h
  rcases h with h | h | h | h
  · have hDecode : ppcDecode word vaddr = decodePsqDform word (blank word vaddr) .psqL := by
      rw [ppcDecode, h, ppcDecodePsq, h]
      rfl
    refine coversExactly_unsaid (by rw [hDecode]; rfl) (by rw [hDecode]; rfl) ?_ (by rw [hDecode]; rfl)
    exact not_covers_floatLoad (exec_of_primary h) fun x y => rfl
  · have hDecode : ppcDecode word vaddr = decodePsqDform word (blank word vaddr) .psqLu := by
      rw [ppcDecode, h, ppcDecodePsq, h]
      rfl
    refine coversExactly_unsaid (by rw [hDecode]; rfl) (by rw [hDecode]; rfl) ?_ (by rw [hDecode]; rfl)
    exact not_covers_floatLoad (exec_of_primary h) fun x y => rfl
  · have hDecode : ppcDecode word vaddr = decodePsqDform word (blank word vaddr) .psqSt := by
      rw [ppcDecode, h, ppcDecodePsq, h]
      rfl
    have hOp : (ppcDecode word vaddr).op = .psqSt := by
      rw [hDecode]
      rfl
    exact coversExactly_quiet (exec_of_primary h) hOp (by decide)
  · have hDecode : ppcDecode word vaddr = decodePsqDform word (blank word vaddr) .psqStu := by
      rw [ppcDecode, h, ppcDecodePsq, h]
      rfl
    refine (summaryCovers_update (by rw [hDecode]; rfl) (by rw [hDecode]; rfl)
      (exec_of_primary h)).trans ?_
    rw [hDecode]
    exact beq_iff_eq.symm

/-! ### Rotations -/

theorem fieldMb_lt (word : BitVec 32) : fieldMb word < 32 := Nat.mod_lt _ (by decide)

theorem fieldMe_lt (word : BitVec 32) : fieldMe word < 32 := Nat.mod_lt _ (by decide)

theorem fieldB_lt (word : BitVec 32) : fieldB word < 32 := Nat.mod_lt _ (by decide)

/-- The masks: no one is empty, and which have all bits. -/
theorem rotMask_bits : ∀ b e : Fin 32,
    (rotMask b e = BitVec.allOnes 32 ↔ (b.val + 31) % 32 = e.val) ∧ rotMask b e ≠ 0 := by
  decide +kernel

theorem rotMask_eq_allOnes {mb me : Nat} (hMb : mb < 32) (hMe : me < 32) :
    rotMask mb me = BitVec.allOnes 32 ↔ (mb + 31) % 32 = me :=
  (rotMask_bits ⟨mb, hMb⟩ ⟨me, hMe⟩).1

theorem rotMask_ne_zero {mb me : Nat} (hMb : mb < 32) (hMe : me < 32) : rotMask mb me ≠ 0 :=
  (rotMask_bits ⟨mb, hMb⟩ ⟨me, hMe⟩).2

/-- What rotations and arithmetic shifts make of one, of zero and of all bits. -/
theorem shifted_bits : ∀ k : Fin 32,
    (((1 : BitVec 32).rotateLeft k = 1 → k.val = 0) ∧ (0 : BitVec 32).rotateLeft k = 0 ∧
      (BitVec.allOnes 32).rotateLeft k = BitVec.allOnes 32) ∧
    ((1 : BitVec 32).sshiftRight k = 1 → k.val = 0) ∧ (0 : BitVec 32).sshiftRight k = 0 := by
  decide +kernel

theorem rotateLeft_one {n : Nat} (hn : n < 32) (h : (1 : BitVec 32).rotateLeft n = 1) : n = 0 :=
  (shifted_bits ⟨n, hn⟩).1.1 h

/-- A rotated word that comes out the same for the complement of the mask: the mask has all bits. -/
theorem mask_of_rotated {mask : BitVec 32} {n : Nat} (h : rotated (~~~mask) mask n = ~~~mask) :
    mask = BitVec.allOnes 32 := by
  have hZero : ~~~mask = 0 := by
    have hAnd : ~~~mask &&& mask = ~~~mask := by
      conv_lhs => rw [← h, rotated]
      rw [BitVec.and_assoc, BitVec.and_self]
      exact h
    rw [← hAnd]
    simp
  calc mask = ~~~(~~~mask) := BitVec.not_not.symm
    _ = ~~~0 := by rw [hZero]
    _ = BitVec.allOnes 32 := by decide

theorem rotateLeft_none (r : BitVec 32) : r.rotateLeft 0 = r := by
  refine BitVec.eq_of_getLsbD_eq fun i hi => ?_
  simp [hi]

theorem rotateLeft_zeros {n : Nat} (hn : n < 32) : (0 : BitVec 32).rotateLeft n = 0 :=
  (shifted_bits ⟨n, hn⟩).1.2.1

theorem rotateLeft_allOnes {n : Nat} (hn : n < 32) :
    (BitVec.allOnes 32).rotateLeft n = BitVec.allOnes 32 :=
  (shifted_bits ⟨n, hn⟩).1.2.2

/-- The rotations that keep every register. -/
theorem rotated_eq_iff {mask : BitVec 32} {n d a : Nat} (hn : n < 32) :
    (∀ s : Machine, rotated (s.gpr d) mask n = s.gpr a) ↔
      d = a ∧ n = 0 ∧ mask = BitVec.allOnes 32 := by
  constructor
  · intro h
    obtain rfl : mask = BitVec.allOnes 32 := mask_of_rotated (h (.flat (~~~mask) 0 0))
    have hRotate : ∀ s : Machine, (s.gpr d).rotateLeft n = s.gpr a := by
      intro s
      rw [← h s, rotated, BitVec.and_allOnes]
    refine ⟨?_, rotateLeft_one hn (hRotate (.flat 1 0 0)), rfl⟩
    refine Classical.byContradiction fun hNe => ?_
    have hOther := hRotate (.single a 1 0)
    rw [Machine.single_self, Machine.single_of_ne hNe, rotateLeft_zeros hn] at hOther
    exact absurd hOther (by decide)
  · rintro ⟨rfl, rfl, rfl⟩ s
    rw [rotated, BitVec.and_allOnes, rotateLeft_none]

/-- The rotations whose inserted bits are those that were there. -/
theorem inserted_eq_iff {mask : BitVec 32} {n d a : Nat} (hn : n < 32) (hMask : mask ≠ 0) :
    (∀ s : Machine, rotated (s.gpr d) mask n ||| s.gpr a &&& ~~~mask = s.gpr a) ↔
      d = a ∧ n = 0 := by
  constructor
  · intro h
    have hSame : d = a := by
      refine Classical.byContradiction fun hNe => hMask ?_
      have hOther := h (.single a 0 (BitVec.allOnes 32))
      rw [Machine.single_self, Machine.single_of_ne hNe, rotated, rotateLeft_allOnes hn,
        BitVec.allOnes_and] at hOther
      simpa using hOther
    subst hSame
    refine ⟨rfl, Classical.byContradiction fun hZero => ?_⟩
    obtain ⟨j, hj⟩ : ∃ j, mask.getLsbD j = true := by
      refine Classical.byContradiction fun hNone => hMask (BitVec.eq_of_getLsbD_eq fun i _ => ?_)
      rw [Bool.eq_false_iff.2 fun hi => hNone ⟨i, hi⟩]
      simp
    have hLt : j < 32 := BitVec.lt_of_getLsbD hj
    have hBit := congrArg (BitVec.getLsbD · j) (h (.flat (BitVec.twoPow 32 j) 0 0))
    have hGpr : (Machine.flat (BitVec.twoPow 32 j) 0 0).gpr d = BitVec.twoPow 32 j := rfl
    have hIn : mask[j] = true := by rwa [← BitVec.getLsbD_eq_getElem hLt]
    rw [hGpr] at hBit
    simp [rotated, hLt, hIn] at hBit
    rw [Nat.mod_eq_of_lt hn] at hBit
    split at hBit
    · omega
    · omega
  · rintro ⟨rfl, rfl⟩ s
    rw [rotated, rotateLeft_none]
    refine BitVec.eq_of_getLsbD_eq fun i hi => ?_
    simp only [BitVec.getLsbD_or, BitVec.getLsbD_and, BitVec.getLsbD_not, hi, decide_true,
      Bool.true_and]
    cases mask.getLsbD i with
    | false => simp
    | true => simp

/-- `rlwimi`, `rlwinm` and `rlwnm` have no summary. -/
theorem coversExactly_rotate (h : ppcBits word 0 5 ∈ [20, 21, 23]) :
    CoversExactly fpu word vaddr := by
  have hFull := rotMask_eq_allOnes (fieldMb_lt word) (fieldMe_lt word)
  have hMask := rotMask_ne_zero (fieldMb_lt word) (fieldMe_lt word)
  simp only [mem_cons, not_mem_nil, or_false] at h
  rcases h with h | h | h
  · have hDecode : ppcDecode word vaddr = ppcDecodeMform word (blank word vaddr) .rlwimi := by
      rw [ppcDecode, h]
      rfl
    rw [CoversExactly, summaryCovers_unsaid (by rw [hDecode]; rfl) (by rw [hDecode]; rfl)]
    refine (covers_unsaid_gpr (exec_of_primary h)).trans ?_
    rw [inserted_eq_iff (fieldB_lt word) hMask, hDecode]
    show _ ↔ (fieldD word == fieldA word && fieldB word == 0) = true
    rw [Bool.and_eq_true, beq_iff_eq, beq_iff_eq]
  · have hDecode : ppcDecode word vaddr = ppcDecodeMform word (blank word vaddr) .rlwinm := by
      rw [ppcDecode, h]
      rfl
    rw [CoversExactly, summaryCovers_unsaid (by rw [hDecode]; rfl) (by rw [hDecode]; rfl)]
    refine (covers_unsaid_gpr (exec_of_primary h)).trans ?_
    rw [rotated_eq_iff (fieldB_lt word), hFull, hDecode]
    show _ ↔ (fieldD word == fieldA word && fieldB word == 0 &&
      (fieldMb word + 31) % 32 == fieldMe word) = true
    rw [Bool.and_eq_true, Bool.and_eq_true, beq_iff_eq, beq_iff_eq, beq_iff_eq, and_assoc]
  · have hDecode : ppcDecode word vaddr = ppcDecodeMform word (blank word vaddr) .rlwnm := by
      rw [ppcDecode, h]
      rfl
    refine coversExactly_unsaid (by rw [hDecode]; rfl) (by rw [hDecode]; rfl) (fun hCovers => ?_)
      (by rw [hDecode]; rfl)
    have hSame := (covers_unsaid_gpr (exec_of_primary h)).1 hCovers
    have hOnes := hSame (.flat 1 0 0)
    rw [mask_of_rotated (hSame (.flat (~~~(rotMask (fieldMb word) (fieldMe word))) 0 0)), rotated,
      BitVec.and_allOnes] at hOnes
    have hRotate : (1 : BitVec 32).rotateLeft ((1 : BitVec 32).toNat % 32) = 1 := hOnes
    exact absurd hRotate (by decide)

/-! ### Floating point arithmetic -/

theorem covers_floatOp {v : Machine → Fpr} {uses : List Nat}
    (hEffects : computeInsnEffects (ppcDecode word vaddr) =
      { fprDef := some (fieldD word), fprUses := uses })
    (hRun : ∀ s, exec fpu word s = { fprs := [(fieldD word, v s)] })
    (hv : ∀ s s', (∀ r ∈ uses, s.fpr r = s'.fpr r) → s.fpscr = s'.fpscr → v s = v s') :
    SummaryCovers fpu word vaddr := by
  rw [SummaryCovers, hEffects]
  exact (covers_fpr hRun rfl rfl).2 fun s s' hAgree => hv s s' hAgree.fpr hAgree.fpscr

/-- The words of primary opcode 63 have their summary. -/
theorem coversExactly_opcode63 (h : ppcBits word 0 5 = 63)
    (hKnown : (ppcDecode word vaddr).op ≠ .unknown) : CoversExactly fpu word vaddr := by
  have hDecode : ppcDecode word vaddr = decodeOpcode63 word (blank word vaddr) := by
    rw [ppcDecode, h]
    rfl
  have hExec : ∀ s, exec fpu word s = exec63 fpu word s := exec_of_primary h
  unfold decodeOpcode63 at hDecode
  unfold exec63 at hExec
  dsimp only at hDecode hExec
  split at hDecode
  case h_7 => exact absurd (by rw [hDecode]; rfl) hKnown
  all_goals
    rename_i hXo
    rw [hXo] at hExec
    refine coversExactly_of_covers (covers_floatOp (by rw [hDecode]; rfl) hExec
      fun s s' hUses hFpscr => ?_) (by rw [hDecode]; rfl)
  · exact hUses (fieldB word) mem_cons_self
  · rw [hUses (fieldB word) mem_cons_self]
  · rw [hFpscr, hUses (fieldA word) mem_cons_self,
      hUses (fieldB word) (mem_cons_of_mem _ mem_cons_self)]
  · rw [hFpscr, hUses (fieldA word) mem_cons_self,
      hUses (fieldB word) (mem_cons_of_mem _ mem_cons_self)]
  · rw [hFpscr, hUses (fieldA word) mem_cons_self,
      hUses (fieldC word) (mem_cons_of_mem _ mem_cons_self)]
  · rw [hFpscr, hUses (fieldA word) mem_cons_self,
      hUses (fieldB word) (mem_cons_of_mem _ mem_cons_self)]

/-- A pair that comes out changed. -/
theorem not_covers_pair {v : Machine → Fpr} {d : Nat} {c : BitVec 32} {x : Fpr}
    (hRun : ∀ s, exec fpu word s = { fprs := [(d, v s)] }) (hv : v (.flat 0 x c) ≠ x) :
    ¬ Covers (exec fpu word) {} [] := fun hCovers =>
  hv ((covers_unsaid_fpr hRun).1 hCovers (.flat 0 x c))

/-- The arithmetic of pairs has no summary. -/
theorem coversExactly_opcode4 (hFpu : fpu.Changes) (h : ppcBits word 0 5 = 4)
    (hKnown : (ppcDecode word vaddr).op ≠ .unknown) : CoversExactly fpu word vaddr := by
  have hDecode : ppcDecode word vaddr = ppcDecodeOpcode4 word (blank word vaddr) := by
    rw [ppcDecode, h]
    rfl
  have hExec : ∀ s, exec fpu word s = exec4 fpu word s := exec_of_primary h
  unfold ppcDecodeOpcode4 at hDecode
  unfold exec4 at hExec
  dsimp only at hDecode hExec
  split at hDecode
  case h_6 =>
    simp only at hExec
    split at hDecode
    case h_4 => exact absurd (by rw [hDecode]; rfl) hKnown
    all_goals
      rename_i hXo
      rw [hXo] at hExec
      refine coversExactly_unsaid (by rw [hDecode]; rfl) (by rw [hDecode]; rfl) ?_
        (by rw [hDecode]; rfl)
    · obtain ⟨c, x, hx⟩ := hFpu.psMul
      exact not_covers_pair hExec hx
    · obtain ⟨c, x, hx⟩ := hFpu.psMadd
      exact not_covers_pair hExec hx
    · obtain ⟨c, x, hx⟩ := hFpu.psMsub
      exact not_covers_pair hExec hx
  all_goals
    rename_i hXo
    rw [hXo] at hExec
  case h_4 =>
    rw [CoversExactly, summaryCovers_unsaid (by rw [hDecode]; rfl) (by rw [hDecode]; rfl),
      covers_unsaid_fpr hExec, hDecode]
    show _ ↔ (fieldD word == fieldB word) = true
    rw [beq_iff_eq]
    refine ⟨fun hSame => ?_, fun hEq s => by rw [hEq]⟩
    refine Classical.byContradiction fun hNe => ?_
    have hOther := hSame { Machine.flat 0 0 0 with fpr := Function.update (fun _ => 0) (fieldD word) 1 }
    dsimp only at hOther
    rw [Function.update_self, Function.update_of_ne (Ne.symm hNe)] at hOther
    exact absurd hOther (by decide)
  all_goals
    refine coversExactly_unsaid (by rw [hDecode]; rfl) (by rw [hDecode]; rfl) ?_
      (by rw [hDecode]; rfl)
  · obtain ⟨c, x, hx⟩ := hFpu.psAdd
    exact not_covers_pair hExec hx
  · obtain ⟨c, x, hx⟩ := hFpu.psSub
    exact not_covers_pair hExec hx
  · obtain ⟨c, x, hx⟩ := hFpu.psDiv
    exact not_covers_pair hExec hx
  · obtain ⟨x, hx⟩ := hFpu.psNeg
    exact not_covers_pair (c := 0) hExec hx

/-! ### Primary opcode 31 -/

theorem ppcDecode_opcode31 (h : ppcBits word 0 5 = 31) :
    ppcDecode word vaddr = decodeOpcode31 word (blank word vaddr) := by
  rw [ppcDecode, h]
  rfl

/-- The extended opcodes that are decoded. -/
theorem opcode31_known (h : ppcBits word 0 5 = 31) (hKnown : (ppcDecode word vaddr).op ≠ .unknown) :
    ppcBits word 21 30 ∈ 339 :: 467 :: kOp31.map (·.1) := by
  refine Classical.byContradiction fun hNot => hKnown ?_
  rw [mem_cons, mem_cons, not_or, not_or] at hNot
  obtain ⟨h339, h467, hTable⟩ := hNot
  have hLookup : kOp31.lookup (ppcBits word 21 30) = none := by
    refine lookup_eq_none_iff.2 fun p hp => ?_
    rw [bne_iff_ne]
    intro hEq
    exact hTable (hEq ▸ mem_map_of_mem hp)
  have hOut : ppcDecodeOp31Xform word (blank word vaddr) = blank word vaddr := by
    rw [ppcDecodeOp31Xform, hLookup]
  rw [ppcDecode_opcode31 h, decodeOpcode31]
  split
  case h_1 hXo => exact absurd hXo h339
  case h_2 hXo => exact absurd hXo h467
  case h_3 hXo => exact absurd (hXo ▸ by decide) hTable
  case h_4 =>
    rw [hOut]
    rfl

/-- The table gives the operation and the three fields. -/
theorem ppcDecode_op31 {xo : Nat} {op : PpcOp} (h : ppcBits word 0 5 = 31)
    (hXo : ppcBits word 21 30 = xo) (hTable : kOp31.lookup xo = some op)
    (hPlain : op ∉ [.cmpw, .cmplw, .srawi, .neg, .or]) :
    ppcDecode word vaddr =
      { blank word vaddr with op := op, rd := fieldD word, ra := fieldA word, rb := fieldB word } := by
  have hLookup : kOp31.lookup (ppcBits word 21 30) = some op := by rw [hXo, hTable]
  have hForm : ppcDecodeOp31Xform word (blank word vaddr) =
      { blank word vaddr with
        op := op, rd := fieldD word, ra := fieldA word, rb := fieldB word } := by
    rw [ppcDecodeOp31Xform, hLookup]
    simp only [mem_cons, not_mem_nil, or_false, not_or] at hPlain
    obtain ⟨hCmpw, hCmplw, hSrawi, hNeg, -⟩ := hPlain
    dsimp only
    split
    case h_1 hEq => exact nomatch hEq
    case h_2 hEq => exact absurd (Option.some.inj hEq) hCmpw
    case h_3 hEq => exact absurd (Option.some.inj hEq) hCmplw
    case h_4 hEq => exact absurd (Option.some.inj hEq) hSrawi
    case h_5 hEq => exact absurd (Option.some.inj hEq) hNeg
    case h_6 hEq =>
      rw [Option.some.inj hEq]
      rfl
  rw [ppcDecode_opcode31 h, decodeOpcode31]
  split
  case h_1 hOther =>
    rw [hOther] at hLookup
    exact nomatch hLookup
  case h_2 hOther =>
    rw [hOther] at hLookup
    exact nomatch hLookup
  case h_3 hOther =>
    rw [hOther] at hLookup
    have hOr : PpcOp.or = op := Option.some.inj hLookup
    subst hOr
    exact absurd (by decide) hPlain
  case h_4 => exact hForm

theorem op_op31 {xo : Nat} {op : PpcOp} (h : ppcBits word 0 5 = 31)
    (hXo : ppcBits word 21 30 = xo) (hTable : kOp31.lookup xo = some op)
    (hPlain : op ∉ [.cmpw, .cmplw, .srawi, .neg, .or]) : (ppcDecode word vaddr).op = op := by
  rw [ppcDecode_op31 h hXo hTable hPlain]

theorem exec_op31 {xo : Nat} (h : ppcBits word 0 5 = 31) (hXo : ppcBits word 21 30 = xo)
    (s : Machine) : exec fpu word s = exec31Xo word s xo := by
  rw [exec_of_primary h]
  show exec31 word s = _
  rw [exec31, hXo]

/-- Arithmetic, logic and shifts change registers that all hold 2. -/
theorem coversExactly_xform {d : Nat} {op : PpcOp} {v : Machine → BitVec 32}
    (hDecode : (ppcDecode word vaddr).op = op) (hRun : ∀ s, exec fpu word s = { gprs := [(d, v s)] })
    (hv : v (.flat 2 0 0) ≠ 2)
    (hOp : op ∈ [.mullw, .mulhw, .mulhwu, .divw, .divwu, .xor, .nand, .nor, .eqv, .andc, .orc, .slw,
      .srw, .sraw, .add, .subf, .neg]) : CoversExactly fpu word vaddr := by
  refine coversExactly_unsaid ?_ ?_ (not_covers_flat 2 hRun hv) ?_
  all_goals
    first
    | rw [computeInsnEffects, hDecode]
    | rw [PpcInsn.summarized, hDecode]
    | rw [hDecode]
    simp only [mem_cons, not_mem_nil, or_false] at hOp
    rcases hOp with rfl | rfl | rfl | rfl | rfl | rfl | rfl | rfl | rfl | rfl | rfl | rfl | rfl |
      rfl | rfl | rfl | rfl
  all_goals rfl

/-- The words of the table whose result is not the value of an operand. -/
theorem coversExactly_op31 (h : ppcBits word 0 5 = 31)
    (hXo : ppcBits word 21 30 ∈ [235, 75, 11, 491, 459, 316, 476, 124, 284, 60, 412, 24, 536, 792,
      266, 40]) : CoversExactly fpu word vaddr := by
  simp only [mem_cons, not_mem_nil, or_false] at hXo
  rcases hXo with hXo | hXo | hXo | hXo | hXo | hXo | hXo | hXo | hXo | hXo | hXo | hXo | hXo | hXo |
    hXo | hXo
  · exact coversExactly_xform (op_op31 h hXo rfl (by decide)) (exec_op31 h hXo)
      (show (2 : BitVec 32) * 2 ≠ 2 by decide) (by decide)
  · exact coversExactly_xform (op_op31 h hXo rfl (by decide)) (exec_op31 h hXo)
      (show highWord ((2 : BitVec 32).signExtend 64 * (2 : BitVec 32).signExtend 64) ≠ 2 by decide) (by decide)
  · exact coversExactly_xform (op_op31 h hXo rfl (by decide)) (exec_op31 h hXo)
      (show highWord ((2 : BitVec 32).setWidth 64 * (2 : BitVec 32).setWidth 64) ≠ 2 by decide) (by decide)
  · exact coversExactly_xform (op_op31 h hXo rfl (by decide)) (exec_op31 h hXo)
      (show (2 : BitVec 32).sdiv 2 ≠ 2 by decide) (by decide)
  · exact coversExactly_xform (op_op31 h hXo rfl (by decide)) (exec_op31 h hXo)
      (show (2 : BitVec 32) / 2 ≠ 2 by decide) (by decide)
  · exact coversExactly_xform (op_op31 h hXo rfl (by decide)) (exec_op31 h hXo)
      (show (2 : BitVec 32) ^^^ 2 ≠ 2 by decide) (by decide)
  · exact coversExactly_xform (op_op31 h hXo rfl (by decide)) (exec_op31 h hXo)
      (show ~~~((2 : BitVec 32) &&& 2) ≠ 2 by decide) (by decide)
  · exact coversExactly_xform (op_op31 h hXo rfl (by decide)) (exec_op31 h hXo)
      (show ~~~((2 : BitVec 32) ||| 2) ≠ 2 by decide) (by decide)
  · exact coversExactly_xform (op_op31 h hXo rfl (by decide)) (exec_op31 h hXo)
      (show ~~~((2 : BitVec 32) ^^^ 2) ≠ 2 by decide) (by decide)
  · exact coversExactly_xform (op_op31 h hXo rfl (by decide)) (exec_op31 h hXo)
      (show (2 : BitVec 32) &&& ~~~2 ≠ 2 by decide) (by decide)
  · exact coversExactly_xform (op_op31 h hXo rfl (by decide)) (exec_op31 h hXo)
      (show (2 : BitVec 32) ||| ~~~2 ≠ 2 by decide) (by decide)
  · exact coversExactly_xform (op_op31 h hXo rfl (by decide)) (exec_op31 h hXo)
      (show (2 : BitVec 32) <<< ((2 : BitVec 32).toNat % 64) ≠ 2 by decide) (by decide)
  · exact coversExactly_xform (op_op31 h hXo rfl (by decide)) (exec_op31 h hXo)
      (show (2 : BitVec 32) >>> ((2 : BitVec 32).toNat % 64) ≠ 2 by decide) (by decide)
  · exact coversExactly_xform (op_op31 h hXo rfl (by decide)) (exec_op31 h hXo)
      (show (2 : BitVec 32).sshiftRight ((2 : BitVec 32).toNat % 64) ≠ 2 by decide) (by decide)
  · exact coversExactly_xform (op_op31 h hXo rfl (by decide)) (exec_op31 h hXo)
      (show (2 : BitVec 32) + 2 ≠ 2 by decide) (by decide)
  · exact coversExactly_xform (op_op31 h hXo rfl (by decide)) (exec_op31 h hXo)
      (show (2 : BitVec 32) - 2 ≠ 2 by decide) (by decide)

/-- `neg` has its two fields only. -/
theorem coversExactly_neg (h : ppcBits word 0 5 = 31) (hXo : ppcBits word 21 30 = 104) :
    CoversExactly fpu word vaddr := by
  have hOp : (ppcDecode word vaddr).op = .neg := by
    rw [ppcDecode_opcode31 h, decodeOpcode31, hXo]
    dsimp only
    rw [ppcDecodeOp31Xform, hXo]
    rfl
  exact coversExactly_xform hOp (exec_op31 h hXo) (show -(2 : BitVec 32) ≠ 2 by decide) (by decide)

/-- Moves from and to the link and the count register. -/
theorem coversExactly_spr (h : ppcBits word 0 5 = 31) (hXo : ppcBits word 21 30 ∈ [339, 467])
    (hKnown : (ppcDecode word vaddr).op ≠ .unknown) : CoversExactly fpu word vaddr := by
  simp only [mem_cons, not_mem_nil, or_false] at hXo
  rcases hXo with hXo | hXo
  · have hDecode : ppcDecode word vaddr = { blank word vaddr with
        rd := fieldD word
        op := if decodeSpr word = 8 then .mflr else if decodeSpr word = 9 then .mfctr else .unknown } := by
      rw [ppcDecode_opcode31 h, decodeOpcode31, hXo]
      rfl
    have hOp : (ppcDecode word vaddr).op = .mflr ∨ (ppcDecode word vaddr).op = .mfctr := by
      rw [hDecode] at hKnown ⊢
      by_cases hLr : decodeSpr word = 8
      · exact .inl (if_pos hLr)
      by_cases hCtr : decodeSpr word = 9
      · exact .inr ((if_neg hLr).trans (if_pos hCtr))
      · exact absurd ((if_neg hLr).trans (if_neg hCtr)) hKnown
    have hEffects : computeInsnEffects (ppcDecode word vaddr) = { gprDef := some (fieldD word) } := by
      have hD : (ppcDecode word vaddr).rd = fieldD word := by rw [hDecode]
      rcases hOp with hOp | hOp
      all_goals rw [computeInsnEffects, hOp, hD]
    have hList : (ppcDecode word vaddr).summarized = true := by
      rcases hOp with hOp | hOp
      all_goals rw [PpcInsn.summarized, hOp]
    refine coversExactly_of_covers ?_ hList
    rw [SummaryCovers, hEffects]
    refine (covers_gpr (exec_op31 h hXo) rfl rfl).2 fun s s' hAgree => ?_
    rw [hAgree.spr]
  · have hDecode : ppcDecode word vaddr = { blank word vaddr with
        rd := fieldD word
        op := if decodeSpr word = 8 then .mtlr else if decodeSpr word = 9 then .mtctr else .unknown } := by
      rw [ppcDecode_opcode31 h, decodeOpcode31, hXo]
      rfl
    have hQuiet : (ppcDecode word vaddr).op ∈ quietOps := by
      rw [hDecode] at hKnown ⊢
      by_cases hLr : decodeSpr word = 8
      · simp [hLr, quietOps]
      by_cases hCtr : decodeSpr word = 9
      · simp [hCtr, quietOps]
      · exact absurd ((if_neg hLr).trans (if_neg hCtr)) hKnown
    exact coversExactly_quiet (exec_op31 h hXo) rfl hQuiet

/-- Compares of two registers write none. -/
theorem coversExactly_cmp (h : ppcBits word 0 5 = 31) (hXo : ppcBits word 21 30 ∈ [0, 32])
    (hKnown : (ppcDecode word vaddr).op ≠ .unknown) : CoversExactly fpu word vaddr := by
  simp only [mem_cons, not_mem_nil, or_false] at hXo
  have hQuiet : (ppcDecode word vaddr).op ∈ quietOps := by
    rcases hXo with hXo | hXo
    all_goals
      have hForm : ppcDecode word vaddr = ppcDecodeOp31Xform word (blank word vaddr) := by
        rw [ppcDecode_opcode31 h, decodeOpcode31, hXo]
        rfl
      rw [hForm, ppcDecodeOp31Xform, hXo] at hKnown ⊢
      by_cases hWide : ppcBits word 10 10 = 0
      · simp [kOp31, hWide, quietOps, lookup_cons]
      · exact absurd (by simp [kOp31, hWide, lookup_cons, blank]) hKnown
  rcases hXo with hXo | hXo
  all_goals exact coversExactly_quiet (exec_op31 h hXo) rfl hQuiet

/-! ### Copies -/

/-- `and` and `or` keep their result register only if all three are the same one. -/
theorem and_eq_iff {d a b : Nat} : (∀ s : Machine, s.gpr d &&& s.gpr b = s.gpr a) ↔ d = a ∧ b = a := by
  constructor
  · intro h
    have hOther := h (.single a 1 0)
    rw [Machine.single_self] at hOther
    constructor
    · refine Classical.byContradiction fun hNe => ?_
      rw [Machine.single_of_ne hNe] at hOther
      exact absurd hOther (by simp)
    · refine Classical.byContradiction fun hNe => ?_
      rw [Machine.single_of_ne hNe] at hOther
      exact absurd hOther (by simp)
  · rintro ⟨rfl, rfl⟩ s
    exact BitVec.and_self

theorem or_eq_iff {d a b : Nat} : (∀ s : Machine, s.gpr d ||| s.gpr b = s.gpr a) ↔ d = a ∧ b = a := by
  constructor
  · intro h
    have hOther := h (.single a 0 (BitVec.allOnes 32))
    rw [Machine.single_self] at hOther
    constructor
    · refine Classical.byContradiction fun hNe => ?_
      rw [Machine.single_of_ne hNe, BitVec.allOnes_or] at hOther
      exact absurd hOther (by decide)
    · refine Classical.byContradiction fun hNe => ?_
      rw [Machine.single_of_ne hNe, BitVec.or_allOnes] at hOther
      exact absurd hOther (by decide)
  · rintro ⟨rfl, rfl⟩ s
    exact BitVec.or_self

theorem shiftRight_eq_iff {d a n : Nat} (hn : n < 32) :
    (∀ s : Machine, (s.gpr d).sshiftRight n = s.gpr a) ↔ d = a ∧ n = 0 := by
  obtain ⟨-, hOne, hZeros⟩ := shifted_bits ⟨n, hn⟩
  constructor
  · intro h
    refine ⟨Classical.byContradiction fun hNe => ?_, hOne (h (.flat 1 0 0))⟩
    have hOther := h (.single a 1 0)
    rw [Machine.single_self, Machine.single_of_ne hNe] at hOther
    exact absurd (hZeros.symm.trans hOther) (by decide)
  · rintro ⟨rfl, rfl⟩ s
    exact BitVec.sshiftRight_zero

theorem coversExactly_and (h : ppcBits word 0 5 = 31) (hXo : ppcBits word 21 30 = 28) :
    CoversExactly fpu word vaddr := by
  have hDecode : ppcDecode word vaddr = { blank word vaddr with
      op := .and, rd := fieldD word, ra := fieldA word, rb := fieldB word } :=
    ppcDecode_op31 h hXo rfl (by decide)
  rw [CoversExactly, summaryCovers_unsaid (by rw [hDecode]; rfl) (by rw [hDecode]; rfl),
    covers_unsaid_gpr (exec_op31 h hXo), and_eq_iff, hDecode]
  show _ ↔ (fieldD word == fieldA word && fieldB word == fieldA word) = true
  rw [Bool.and_eq_true, beq_iff_eq, beq_iff_eq]

theorem coversExactly_srawi (h : ppcBits word 0 5 = 31) (hXo : ppcBits word 21 30 = 824) :
    CoversExactly fpu word vaddr := by
  have hDecode : ppcDecode word vaddr = { blank word vaddr with
      op := .srawi, rd := fieldD word, ra := fieldA word, sh := fieldB word } := by
    rw [ppcDecode_opcode31 h, decodeOpcode31, hXo]
    dsimp only
    rw [ppcDecodeOp31Xform, hXo]
    rfl
  rw [CoversExactly, summaryCovers_unsaid (by rw [hDecode]; rfl) (by rw [hDecode]; rfl),
    covers_unsaid_gpr (exec_op31 h hXo), shiftRight_eq_iff (fieldB_lt word), hDecode]
  show _ ↔ (fieldD word == fieldA word && fieldB word == 0) = true
  rw [Bool.and_eq_true, beq_iff_eq, beq_iff_eq]

/-- `or` of one register with itself is `mr`, which has a summary. -/
theorem coversExactly_or (h : ppcBits word 0 5 = 31) (hXo : ppcBits word 21 30 = 444) :
    CoversExactly fpu word vaddr := by
  by_cases hMove : ppcBits word 31 31 = 0 ∧ fieldD word = fieldB word
  · have hDecode : ppcDecode word vaddr = { blank word vaddr with
        op := .mr, rd := fieldA word, ra := fieldD word } := by
      rw [ppcDecode_opcode31 h, decodeOpcode31, hXo]
      exact if_pos hMove
    rw [CoversExactly, SummaryCovers, hDecode]
    refine iff_of_true ((covers_gpr (exec_op31 h hXo) rfl rfl).2 fun s s' hAgree => ?_) rfl
    rw [← hMove.2, hAgree.gpr (fieldD word) mem_cons_self]
  · have hDecode : ppcDecode word vaddr = { blank word vaddr with
        op := .or, rd := fieldD word, ra := fieldA word, rb := fieldB word } := by
      rw [ppcDecode_opcode31 h, decodeOpcode31, hXo]
      refine (if_neg hMove).trans ?_
      rw [ppcDecodeOp31Xform, hXo]
      rfl
    rw [CoversExactly, summaryCovers_unsaid (by rw [hDecode]; rfl) (by rw [hDecode]; rfl),
      covers_unsaid_gpr (exec_op31 h hXo), or_eq_iff, hDecode]
    show _ ↔ (fieldD word == fieldA word && fieldB word == fieldA word) = true
    rw [Bool.and_eq_true, beq_iff_eq, beq_iff_eq]

/-- The extended opcodes that the table gives and no form of its own has. -/
theorem opcode31_rest : ∀ xo ∈ 339 :: 467 :: kOp31.map (·.1),
    xo ∉ [339, 467, 0, 32, 28, 444, 824, 104] → xo ∈ [235, 75, 11, 491, 459, 316, 476, 124, 284, 60,
      412, 24, 536, 792, 266, 40] := by
  decide

theorem coversExactly_opcode31 (h : ppcBits word 0 5 = 31)
    (hKnown : (ppcDecode word vaddr).op ≠ .unknown) : CoversExactly fpu word vaddr := by
  have hXo := opcode31_known h hKnown
  by_cases hSpr : ppcBits word 21 30 ∈ [339, 467]
  · exact coversExactly_spr h hSpr hKnown
  by_cases hCmp : ppcBits word 21 30 ∈ [0, 32]
  · exact coversExactly_cmp h hCmp hKnown
  by_cases hAnd : ppcBits word 21 30 = 28
  · exact coversExactly_and h hAnd
  by_cases hOr : ppcBits word 21 30 = 444
  · exact coversExactly_or h hOr
  by_cases hSrawi : ppcBits word 21 30 = 824
  · exact coversExactly_srawi h hSrawi
  by_cases hNeg : ppcBits word 21 30 = 104
  · exact coversExactly_neg h hNeg
  · refine coversExactly_op31 h (opcode31_rest _ hXo ?_)
    simp only [mem_cons, not_mem_nil, or_false, not_or] at hSpr hCmp ⊢
    exact ⟨hSpr.1, hSpr.2, hCmp.1, hCmp.2, hAnd, hOr, hSrawi, hNeg⟩

end Forms

/-! ## All words -/

theorem primary_known (hKnown : (ppcDecode word vaddr).op ≠ .unknown) : ppcBits word 0 5 ∈
    [4, 7, 10, 11, 14, 15, 16, 18, 19, 20, 21, 23, 24, 28, 31, 32, 33, 34, 35, 36, 37, 38, 39, 40,
      41, 42, 43, 44, 45, 46, 47, 48, 49, 50, 51, 52, 53, 54, 55, 56, 57, 60, 61, 63] := by
  rw [ppcDecode_primary rfl hKnown]
  cases hOp : (ppcDecode word vaddr).op
  case unknown => exact absurd hOp hKnown
  all_goals decide

/-- The primary opcodes of the forms, one list for each. -/
def primaryForms : List (List Nat) :=
  [[4], [63], [31], [10, 11], [16, 18, 19], [14, 15], [7], [24], [28], [20, 21, 23], [32, 34, 40],
    [33, 35, 41, 42, 43], [36, 38, 44, 47, 52, 54], [37, 39, 45, 53, 55], [48, 50], [49, 51],
    [56, 57, 60, 61]]

theorem primary_rest : ∀ p ∈ [4, 7, 10, 11, 14, 15, 16, 18, 19, 20, 21, 23, 24, 28, 31, 32, 33, 34,
    35, 36, 37, 38, 39, 40, 41, 42, 43, 44, 45, 46, 47, 48, 49, 50, 51, 52, 53, 54, 55, 56, 57, 60,
    61, 63], (∀ forms ∈ primaryForms, p ∉ forms) → p = 46 := by
  decide

/-- The summary of a decoded word covers its execution exactly if the word is one of those
`PpcInsn.summarized` lists. -/
theorem summaryCovers_iff (hFpu : fpu.Changes) (hKnown : (ppcDecode word vaddr).op ≠ .unknown) :
    SummaryCovers fpu word vaddr ↔ (ppcDecode word vaddr).summarized = true := by
  have hPrimary := primary_known hKnown
  by_cases h4 : ppcBits word 0 5 = 4
  · exact coversExactly_opcode4 hFpu h4 hKnown
  by_cases h63 : ppcBits word 0 5 = 63
  · exact coversExactly_opcode63 h63 hKnown
  by_cases h31 : ppcBits word 0 5 = 31
  · exact coversExactly_opcode31 h31 hKnown
  by_cases hCmpi : ppcBits word 0 5 ∈ [10, 11]
  · exact coversExactly_cmpi hCmpi hKnown
  by_cases hBranch : ppcBits word 0 5 ∈ [16, 18, 19]
  · exact coversExactly_branch hBranch hKnown
  by_cases hAddi : ppcBits word 0 5 ∈ [14, 15]
  · exact coversExactly_addi hAddi
  by_cases hMulli : ppcBits word 0 5 = 7
  · exact coversExactly_mulli hMulli
  by_cases hOri : ppcBits word 0 5 = 24
  · exact coversExactly_ori hOri
  by_cases hAndi : ppcBits word 0 5 = 28
  · exact coversExactly_andiDot hAndi
  by_cases hRotate : ppcBits word 0 5 ∈ [20, 21, 23]
  · exact coversExactly_rotate hRotate
  by_cases hLoad : ppcBits word 0 5 ∈ [32, 34, 40]
  · exact coversExactly_load hLoad
  by_cases hUpdate : ppcBits word 0 5 ∈ [33, 35, 41, 42, 43]
  · exact coversExactly_loadUpdate hUpdate
  by_cases hStore : ppcBits word 0 5 ∈ [36, 38, 44, 47, 52, 54]
  · exact coversExactly_store hStore
  by_cases hStoreUpdate : ppcBits word 0 5 ∈ [37, 39, 45, 53, 55]
  · exact coversExactly_storeUpdate hStoreUpdate
  by_cases hFloat : ppcBits word 0 5 ∈ [48, 50]
  · exact coversExactly_floatLoad hFloat
  by_cases hFloatUpdate : ppcBits word 0 5 ∈ [49, 51]
  · exact coversExactly_floatLoadUpdate hFloatUpdate
  by_cases hPsq : ppcBits word 0 5 ∈ [56, 57, 60, 61]
  · exact coversExactly_psq hPsq
  · refine coversExactly_lmw (primary_rest _ hPrimary ?_)
    intro forms hForms
    simp only [primaryForms, mem_cons, not_mem_nil, or_false] at hForms
    rcases hForms with rfl | rfl | rfl | rfl | rfl | rfl | rfl | rfl | rfl | rfl | rfl | rfl | rfl |
      rfl | rfl | rfl | rfl
    all_goals
      first
      | assumption
      | exact mt mem_singleton.1 ‹_›

/-! ## An instance -/

/-- The pairs of ones, of twos and of fours. -/
def ones : Fpr := 0x3F8000003F800000

def twos : Fpr := 0x4000000040000000

def fours : Fpr := 0x4080000040800000

/-- A unit that computes with these pairs, and with zero. -/
def smallUnit : FloatUnit where
  fadd _ _ _ := 0
  fsub _ _ _ := 0
  fmul _ _ _ := 0
  fdiv _ _ _ := 0
  fneg x := x ^^^ 0x8000000000000000
  psAdd _ x y := if x = ones ∧ y = ones then twos else 0
  psSub _ _ _ := 0
  psMul _ x y := if x = twos ∧ y = twos then fours else 0
  psDiv _ x y := if x = y then ones else 0
  psMadd _ x y z := if x = ones ∧ y = ones ∧ z = ones then twos else 0
  psMsub _ _ _ _ := 0
  psNeg x := x ^^^ 0x8000000080000000
  fromSingle _ := 0
  dequantize _ _ _ _ := 0

theorem smallUnit_changes : smallUnit.Changes where
  psAdd := ⟨0, ones, by decide⟩
  psSub := ⟨0, ones, by decide⟩
  psMul := ⟨0, twos, by decide⟩
  psDiv := ⟨0, twos, by decide⟩
  psMadd := ⟨0, ones, by decide⟩
  psMsub := ⟨0, ones, by decide⟩
  psNeg := ⟨ones, by decide⟩

/-- `lwz r3, 8(r1)`. -/
theorem summaryCovers_iff_lwz :
    SummaryCovers smallUnit 0x80610008 0 ↔ (ppcDecode 0x80610008 0).summarized = true :=
  summaryCovers_iff smallUnit_changes (by decide)

/-- `add r3, r4, r5` has no summary. -/
theorem not_summaryCovers_add :
    (ppcDecode 0x7C642A14 0).op = .add ∧ ¬ SummaryCovers smallUnit 0x7C642A14 0 := by
  refine ⟨by decide, ?_⟩
  have hExact : CoversExactly smallUnit 0x7C642A14 0 := coversExactly_opcode31 (by decide) (by decide)
  rw [CoversExactly] at hExact
  rw [hExact]
  decide

end Calynda.Decompiler
