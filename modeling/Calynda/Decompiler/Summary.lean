import Calynda.Decompiler.DefUse
import Calynda.Decompiler.Exec

/-!
# Summaries of register effects

`computeInsnEffects` says of each decoded instruction which register it writes and which ones it
reads. `Covers` is what the analyses built on it rely on.
-/

namespace Calynda.Decompiler

/-- The states agree on what the summary says is read, and on all but the registers. -/
structure AgreeOn (e : InsnEffects) (s s' : Machine) : Prop where
  gpr : ∀ r ∈ e.gprUses, s.gpr r = s'.gpr r
  fpr : ∀ r ∈ e.fprUses, s.fpr r = s'.fpr r
  mem : s.mem = s'.mem
  spr : s.spr = s'.spr
  cr : s.cr = s'.cr
  fpscr : s.fpscr = s'.fpscr

/-- What `run` does to the registers is covered by the summary: it changes none but those that are
defined, besides those of `spare`, and these come out the same in states that agree. -/
def Covers (run : Machine → RegWrites) (e : InsnEffects) (spare : List Nat) : Prop :=
  ∀ s s', AgreeOn e s s' →
    (∀ r, e.gprDef ≠ some r → r ∉ spare → writeAll s.gpr (run s).gprs r = s.gpr r) ∧
    (∀ r, e.fprDef ≠ some r → writeAll s.fpr (run s).fprs r = s.fpr r) ∧
    (∀ r, e.gprDef = some r → writeAll s.gpr (run s).gprs r = writeAll s'.gpr (run s').gprs r) ∧
    (∀ r, e.fprDef = some r → writeAll s.fpr (run s).fprs r = writeAll s'.fpr (run s').fprs r)

/-- The registers that an instruction may change besides those of its summary. -/
def PpcOp.spare : PpcOp → List Nat
  | .bl | .bla => volatileGprs
  | _ => []

/-- The summary of a word covers its execution. -/
def SummaryCovers (fpu : FloatUnit) (word vaddr : BitVec 32) : Prop :=
  Covers (exec fpu word) (computeInsnEffects (ppcDecode word vaddr)) (ppcDecode word vaddr).op.spare

/-- A rotation mask of all bits. -/
def PpcInsn.fullMask (insn : PpcInsn) : Bool := (insn.mb + 31) % 32 == insn.me

/-- The decoded instructions with a right summary. Those without one in the table are here only
if they write no register or leave the written one as it is. -/
def PpcInsn.summarized (insn : PpcInsn) : Bool :=
  match insn.op with
  | .b | .ba | .bc | .blr | .bctr | .nop => true
  | .addi | .addis | .ori | .andiDot | .mr => true
  | .mulli => insn.ra != 0 || insn.imm == 0
  | .cmpwi | .cmplwi | .cmpw | .cmplw => true
  | .lwz | .lbz | .lhz | .stw | .stb | .sth | .stmw => true
  | .lmw => insn.rd == 31
  | .lfs | .lfd | .stfs | .stfd | .psqSt => true
  | .stwu | .stbu | .sthu | .stfsu | .stfdu | .psqStu => insn.imm == 0
  | .fmr | .fneg | .fadd | .fsub | .fmul | .fdiv => true
  | .mflr | .mtlr | .mfctr | .mtctr => true
  | .and | .or => insn.rd == insn.ra && insn.rb == insn.ra
  | .rlwinm => insn.rd == insn.ra && insn.sh == 0 && insn.fullMask
  | .rlwimi => insn.rd == insn.ra && insn.sh == 0
  | .srawi => insn.rd == insn.ra && insn.sh == 0
  | .psMr => insn.rd == insn.rb
  | _ => false

/-- Facts about the arithmetic of pairs: there is a value that the operation changes if it is
given for all of its operands, as 1 is changed by addition. -/
structure FloatUnit.Changes (fpu : FloatUnit) : Prop where
  psAdd : ∃ c x, fpu.psAdd c x x ≠ x
  psSub : ∃ c x, fpu.psSub c x x ≠ x
  psMul : ∃ c x, fpu.psMul c x x ≠ x
  psDiv : ∃ c x, fpu.psDiv c x x ≠ x
  psMadd : ∃ c x, fpu.psMadd c x x x ≠ x
  psMsub : ∃ c x, fpu.psMsub c x x x ≠ x
  psNeg : ∃ x, fpu.psNeg x ≠ x

/-! ## Runs with one result -/

section Runs

variable {run : Machine → RegWrites} {e : InsnEffects} {spare : List Nat}

theorem AgreeOn.refl (e : InsnEffects) (s : Machine) : AgreeOn e s s :=
  ⟨fun _ _ => rfl, fun _ _ => rfl, rfl, rfl, rfl, rfl⟩

/-- A run without writes is covered by a summary without definitions. -/
theorem covers_silent (hRun : ∀ s, run s = {}) (hGpr : e.gprDef = none) (hFpr : e.fprDef = none) :
    Covers run e spare := by
  intro s s' _
  rw [hRun, hGpr, hFpr]
  exact ⟨fun _ _ _ => rfl, fun _ _ => rfl, nofun, nofun⟩

/-- One general purpose register is defined and written. -/
theorem covers_gpr {d : Nat} {v : Machine → BitVec 32} (hRun : ∀ s, run s = { gprs := [(d, v s)] })
    (hGpr : e.gprDef = some d) (hFpr : e.fprDef = none) :
    Covers run e spare ↔ ∀ s s', AgreeOn e s s' → v s = v s' := by
  have hWritten : ∀ s, writeAll s.gpr (run s).gprs d = v s := by
    intro s
    rw [hRun]
    exact Function.update_self d (v s) s.gpr
  constructor
  · intro h s s' hAgree
    have hSame := (h s s' hAgree).2.2.1 d hGpr
    rwa [hWritten, hWritten] at hSame
  · intro h s s' hAgree
    refine ⟨fun r hr _ => ?_, fun r _ => ?_, fun r hr => ?_, fun r hr => ?_⟩
    · rw [hRun]
      exact Function.update_of_ne (fun hEq => hr (hGpr.trans (congrArg some hEq.symm))) _ _
    · rw [hRun]
      rfl
    · obtain rfl : d = r := Option.some.inj (hGpr.symm.trans hr)
      rw [hWritten, hWritten]
      exact h s s' hAgree
    · rw [hFpr] at hr
      exact nomatch hr

/-- One floating point register is defined and written. -/
theorem covers_fpr {d : Nat} {v : Machine → Fpr} (hRun : ∀ s, run s = { fprs := [(d, v s)] })
    (hGpr : e.gprDef = none) (hFpr : e.fprDef = some d) :
    Covers run e spare ↔ ∀ s s', AgreeOn e s s' → v s = v s' := by
  have hWritten : ∀ s, writeAll s.fpr (run s).fprs d = v s := by
    intro s
    rw [hRun]
    exact Function.update_self d (v s) s.fpr
  constructor
  · intro h s s' hAgree
    have hSame := (h s s' hAgree).2.2.2 d hFpr
    rwa [hWritten, hWritten] at hSame
  · intro h s s' hAgree
    refine ⟨fun r _ _ => ?_, fun r hr => ?_, fun r hr => ?_, fun r hr => ?_⟩
    · rw [hRun]
      rfl
    · rw [hRun]
      exact Function.update_of_ne (fun hEq => hr (hFpr.trans (congrArg some hEq.symm))) _ _
    · rw [hGpr] at hr
      exact nomatch hr
    · obtain rfl : d = r := Option.some.inj (hFpr.symm.trans hr)
      rw [hWritten, hWritten]
      exact h s s' hAgree

/-- No register is defined and one is written: it must come out as it was. -/
theorem covers_unsaid_gpr {d : Nat} {v : Machine → BitVec 32}
    (hRun : ∀ s, run s = { gprs := [(d, v s)] }) :
    Covers run {} [] ↔ ∀ s, v s = s.gpr d := by
  have hWrites : ∀ s, writeAll s.gpr (run s).gprs = Function.update s.gpr d (v s) := by
    intro s
    rw [hRun]
    rfl
  constructor
  · intro h s
    have hSame := (h s s (.refl _ s)).1 d nofun List.not_mem_nil
    rwa [hWrites, Function.update_self] at hSame
  · intro h s s' _
    refine ⟨fun r _ _ => ?_, fun r _ => ?_, nofun, nofun⟩
    · rw [hWrites, h, Function.update_eq_self]
    · rw [hRun]
      rfl

theorem covers_unsaid_fpr {d : Nat} {v : Machine → Fpr}
    (hRun : ∀ s, run s = { fprs := [(d, v s)] }) :
    Covers run {} [] ↔ ∀ s, v s = s.fpr d := by
  have hWrites : ∀ s, writeAll s.fpr (run s).fprs = Function.update s.fpr d (v s) := by
    intro s
    rw [hRun]
    rfl
  constructor
  · intro h s
    have hSame := (h s s (.refl _ s)).2.1 d nofun
    rwa [hWrites, Function.update_self] at hSame
  · intro h s s' _
    refine ⟨fun r _ _ => ?_, fun r _ => ?_, nofun, nofun⟩
    · rw [hRun]
      rfl
    · rw [hWrites, h, Function.update_eq_self]

/-- A register that is not defined comes out changed. -/
theorem not_covers_of_gpr {s : Machine} {r : Nat} (hDef : e.gprDef ≠ some r)
    (h : writeAll s.gpr (run s).gprs r ≠ s.gpr r) : ¬ Covers run e [] := fun hCovers =>
  h ((hCovers s s (.refl e s)).1 r hDef List.not_mem_nil)

theorem not_covers_of_fpr {s : Machine} {r : Nat} (hDef : e.fprDef ≠ some r)
    (h : writeAll s.fpr (run s).fprs r ≠ s.fpr r) : ¬ Covers run e spare := fun hCovers =>
  h ((hCovers s s (.refl e s)).2.1 r hDef)

end Runs

end Calynda.Decompiler
