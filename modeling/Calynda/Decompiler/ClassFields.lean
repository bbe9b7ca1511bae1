import Calynda.Decompiler.Exec
import Calynda.Decompiler.Flow
import Calynda.Decompiler.Types

/-!
# Fields of classes

The fields of a class are the loads and stores through `r3` that a scan over its virtual methods
finds. The scan goes over the words of a method in their order, up to the first call or return, and
does not look at what happens to `r3`. An access is one to the object if control can reach it from
the start of the method with `r3` as it was.
-/

namespace Calynda.Decompiler

open Typing

/-! ## Classes -/

structure ClassField where
  offset : BitVec 16
  width : Nat
  kind : TypeKind
  isVtablePtr : Bool := false
  vtableVaddr : BitVec 32 := 0
  deriving DecidableEq, Repr

structure VTable where
  vaddr : BitVec 32
  methods : List (BitVec 32)
  deriving DecidableEq, Repr

structure ClassInfo where
  vaddr : BitVec 32
  primaryVtable : BitVec 32
  fields : List ClassField
  deriving DecidableEq, Repr

structure Classes where
  vtables : List VTable
  classes : List ClassInfo
  deriving DecidableEq, Repr

def classesFindVtable (vtables : List VTable) (vaddr : BitVec 32) : Option VTable :=
  vtables.find? fun v => v.vaddr = vaddr

/-- A field that is there already is widened, and gets a kind if it has none. -/
def classesAddField (fields : List ClassField) (f : ClassField) : List ClassField :=
  match fields with
  | [] => [f]
  | g :: fields =>
    if g.offset = f.offset then
      { g with
        width := if g.width < f.width then f.width else g.width
        kind := if g.kind = .unknown then f.kind else g.kind } :: fields
    else g :: classesAddField fields f

/-! ## Vtables and objects -/

def classesIsTextVaddr (img : DolImage) (v : BitVec 32) : Bool :=
  (dolSectionForVaddr img.sections v).any fun s => s.kind = .text

/-- The text pointers from an address on, at most as many as the first argument. -/
def consecutiveTextPtrs (img : DolImage) : Nat → BitVec 32 → List (BitVec 32)
  | 0, _ => []
  | cap + 1, vaddr =>
    match cfgReadWord img vaddr with
    | none => []
    | some w =>
      if classesIsTextVaddr img w then w :: consecutiveTextPtrs img cap (vaddr + 4) else []

def isDataSymbol (img : DolImage) (e : SymEntry) : Bool :=
  (dolSectionForVaddr img.sections e.vaddr).any fun s => s.kind = .data

def classesScanVtables (img : DolImage) (syms : List SymEntry) : List VTable :=
  syms.filterMap fun e =>
    let cap := (if e.size ≠ 0 then e.size.toNat else 16) / 4
    let methods := consecutiveTextPtrs img cap e.vaddr
    if isDataSymbol img e ∧ 2 ≤ cap ∧ 2 ≤ methods.length then
      some { vaddr := e.vaddr, methods := methods }
    else none

def vtableField (offset : BitVec 16) (vtable : BitVec 32) : ClassField where
  offset := offset
  width := 4
  kind := .ptr
  isVtablePtr := true
  vtableVaddr := vtable

def classesScanObjects (img : DolImage) (syms : List SymEntry) (vtables : List VTable) :
    List ClassInfo :=
  syms.filterMap fun e => do
    let w ← cfgReadWord img e.vaddr
    if isDataSymbol img e ∧ classesFindVtable vtables e.vaddr = none ∧
        (classesFindVtable vtables w).isSome then
      some { vaddr := e.vaddr, primaryVtable := w, fields := [vtableField 0 w] }
    else none

/-- The first word behind the object's own vtable pointer that is another vtable, with its
offset. -/
def secondaryVtable (img : DolImage) (vtables : List VTable) (ci : ClassInfo) (words : Nat) :
    Nat → Nat → Option (Nat × BitVec 32)
  | 0, _ => none
  | left + 1, w =>
    if w < words ∧ w < 64 then
      match cfgReadWord img (ci.vaddr + BitVec.ofNat 32 (w * 4)) with
      | none => none
      | some val =>
        if val ≠ ci.primaryVtable ∧ (classesFindVtable vtables val).isSome then
          some (w * 4, val)
        else secondaryVtable img vtables ci words left (w + 1)
    else none

def classesDetectMi (img : DolImage) (syms : List SymEntry) (vtables : List VTable)
    (ci : ClassInfo) : ClassInfo :=
  match syms.find? fun e => e.vaddr = ci.vaddr with
  | none => ci
  | some e =>
    if e.size < 8 then ci
    else
      match secondaryVtable img vtables ci (e.size.toNat / 4) 64 1 with
      | none => ci
      | some (off, val) =>
        { ci with fields := classesAddField ci.fields (vtableField (BitVec.ofNat 16 off) val) }

/-! ## The scan of a method -/

/-- The width and kind of a plain load or store. -/
def opWidth : PpcOp → Option (Nat × TypeKind)
  | .lbz | .stb => some (1, .int)
  | .lhz | .sth => some (2, .int)
  | .lwz | .stw => some (4, .int)
  | .lfs | .stfs => some (4, .float)
  | .lfd | .stfd => some (8, .float)
  | _ => none

/-- The field that an instruction accesses through `r3`. -/
def fieldOf (insn : PpcInsn) : Option ClassField :=
  match opWidth insn.op with
  | none => none
  | some (width, kind) =>
    if insn.ra ≠ 3 then none
    else if insn.imm.toInt < 0 ∨ 0x4000 < insn.imm.toInt then none
    else some { offset := insn.imm.setWidth 16, width := width, kind := kind }

/-- The accesses found from `pc` on, with their addresses. -/
def scanFrom (img : DolImage) (stop : BitVec 32) : Nat → BitVec 32 → List (BitVec 32 × ClassField)
  | 0, _ => []
  | left + 1, pc =>
    if pc < stop then
      match cfgReadWord img pc with
      | none => []
      | some raw =>
        let insn := ppcDecode raw pc
        -- r3 may not be the object after a call
        if insn.op = .bl ∨ insn.op = .bla ∨ insn.op = .blr ∨ insn.op = .bctr then []
        else
          ((fieldOf insn).map fun f => (pc, f)).toList ++ scanFrom img stop left (pc + 4)
    else []

/-- A method of unknown size counts as one of 4096 bytes, which are 1024 instructions. -/
def scanMethod (img : DolImage) (vaddr size : BitVec 32) : List (BitVec 32 × ClassField) :=
  let size := if size = 0 ∨ 4096 < size then 4096 else size
  scanFrom img (vaddr + size) 1024 vaddr

def methodSize (syms : List SymEntry) (vaddr : BitVec 32) : BitVec 32 :=
  match symCovering syms vaddr with
  | some e => if e.vaddr = vaddr then e.size else 0
  | none => 0

/-- The methods that are scanned for a class. -/
def methodsOf (vtables : List VTable) (ci : ClassInfo) : List (BitVec 32) :=
  if ci.primaryVtable = 0 then []
  else ((classesFindVtable vtables ci.primaryVtable).map (·.methods)).getD []

/-- What the scans record for a class: the method, the address of the access, and the field. -/
def recordedAccesses (img : DolImage) (syms : List SymEntry) (vtables : List VTable) (ci : ClassInfo) :
    List (BitVec 32 × BitVec 32 × ClassField) :=
  (methodsOf vtables ci).flatMap fun fn =>
    (scanMethod img fn (methodSize syms fn)).map fun access => (fn, access)

def addFields (fields : List ClassField) (rs : List (BitVec 32 × BitVec 32 × ClassField)) :
    List ClassField :=
  rs.foldl (fun fields r => classesAddField fields r.2.2) fields

def classesBuildFields (img : DolImage) (syms : List SymEntry) (c : Classes) : Classes :=
  { c with
    classes := c.classes.map fun ci =>
      { ci with
        fields := addFields ci.fields (recordedAccesses img syms c.vtables ci) } }

/-- The classes as they come to the scan for fields. -/
def classesBefore (img : DolImage) (syms : List SymEntry) : Classes :=
  let vtables := classesScanVtables img syms
  { vtables := vtables
    classes := (classesScanObjects img syms vtables).map (classesDetectMi img syms vtables) }

def classesBuild (img : DolImage) (syms : List SymEntry) : Classes :=
  classesBuildFields img syms (classesBefore img syms)

/-! ## Executions -/

structure ExecState where
  pc : BitVec 32
  gpr : Gprs

/-- Where control is after an instruction at `va`. -/
def Flow.LeadsTo (va a : BitVec 32) : Flow → Prop
  | .next => a = va + 4
  | .jump b => a = b
  | .ret => False

/-- One instruction, with whatever decides on branches and whatever memory holds. -/
def ExecStep (img : DolImage) (s s' : ExecState) : Prop :=
  ∃ w st, cfgReadWord img s.pc = some w ∧ GprStep w s.gpr s'.gpr ∧
    (ppcFlow w s.pc st).LeadsTo s.pc s'.pc

/-- The instruction at an address does not write `r3`. -/
def KeepsThis (img : DolImage) (pc : BitVec 32) : Prop :=
  ∀ w, cfgReadWord img pc = some w → 3 ∉ gprWrites w

/-- Executions in which no instruction overwrites `r3`. -/
def Intact (img : DolImage) : ExecState → ExecState → Prop :=
  Relation.ReflTransGen fun s s' => ExecStep img s s' ∧ KeepsThis img s.pc

/-- The address that a load or store accesses. -/
def Gprs.address (g : Gprs) (w : BitVec 32) : BitVec 32 := g.base (fieldA w) + simm w

/-- Some execution of the method at `fn` accesses the field of its object at `pc`, before `r3` is
overwritten. -/
def AccessesThis (img : DolImage) (fn pc : BitVec 32) (f : ClassField) : Prop :=
  ∃ s₀ s w, s₀.pc = fn ∧ Intact img s₀ s ∧ s.pc = pc ∧ cfgReadWord img pc = some w ∧
    (opWidth (ppcDecode w pc).op).isSome ∧ s.gpr.address w = s₀.gpr 3 + f.offset.setWidth 32

/-- The fields that the scans add come from accesses to the object, and no other access is
recorded. -/
def FieldsBelong (img : DolImage) (syms : List SymEntry) (c : Classes) : Prop :=
  ∀ ci ∈ c.classes,
    (∀ f ∈ addFields ci.fields (recordedAccesses img syms c.vtables ci),
      f.offset ∉ ci.fields.map (·.offset) →
      ∃ fn ∈ methodsOf c.vtables ci, ∃ pc, AccessesThis img fn pc f) ∧
    ∀ r ∈ recordedAccesses img syms c.vtables ci, AccessesThis img r.1 r.2.1 r.2.2

/-! ## The flow of control in a method -/

/-- Some state goes on from the word to the next one. -/
def MayPass (w : BitVec 32) : Prop :=
  ¬ isIformJump w ∧ ¬ isRfi w ∧
    ¬ (isBform w ∧ ppcBits w 31 31 = 0 ∧ branchAlways (ppcBits w 6 10) = true) ∧
    ¬ (isReturn w ∧ branchAlways (ppcBits w 6 10) = true) ∧
    ¬ (isCtrJump w ∧ (ppcBits w 6 10).testBit 4 = true)

/-- Some state jumps from the word at `va` to `a`. -/
def MayJump (w va a : BitVec 32) : Prop :=
  isIformJump w ∧ a = iformTarget w va ∨
    isBform w ∧ ppcBits w 31 31 = 0 ∧ a = bformTarget w va ∨
    (isCtrJump w ∨ isRfi w) ∧ a.toNat % 4 = 0

/-- Control may go from one address to another, and `r3` is not written on the way. -/
def KeptEdge (img : DolImage) (va a : BitVec 32) : Prop :=
  ∃ w, cfgReadWord img va = some w ∧ 3 ∉ gprWrites w ∧ (MayPass w ∧ a = va + 4 ∨ MayJump w va a)

/-- Every access that is recorded lies on a path from the start of its method on which no
instruction in front of it writes `r3`. -/
def ReachedIntact (img : DolImage) (syms : List SymEntry) (c : Classes) : Prop :=
  ∀ ci ∈ c.classes, ∀ r ∈ recordedAccesses img syms c.vtables ci,
    Relation.ReflTransGen (KeptEdge img) r.1 r.2.1

section Flow

variable {w va a : BitVec 32}

theorem ppcFlow_ctrJump (h : isCtrJump w) (st : BranchState) :
    ppcFlow w va st =
      if condOk (ppcBits w 6 10) (ppcBits w 11 15) st then .jump (st.ctr &&& ~~~3) else .next := by
  obtain ⟨h19, hXo, hLk⟩ := h
  simp only [ppcFlow, h19, hXo, hLk, and_true]

theorem ppcFlow_rfi (h : isRfi w) (st : BranchState) :
    ppcFlow w va st = .jump (st.srr0 &&& ~~~3) := by
  obtain ⟨h19, hXo⟩ := h
  simp only [ppcFlow, h19, hXo]

theorem toNat_and_not_three (x : BitVec 32) : (x &&& ~~~3).toNat % 4 = 0 := by
  apply toNat_mod_of_and
  rw [BitVec.and_assoc, show ~~~(3 : BitVec 32) &&& 3 = 0#32 from rfl, BitVec.and_zero]
  rfl

/-- The kinds of words that decide on the flow of control exclude each other. -/
theorem flow_kinds (w : BitVec 32) :
    isBform w ∧ ¬ isIformJump w ∧ ¬ isRfi w ∧ ¬ isReturn w ∧ ¬ isCtrJump w ∨
      ppcBits w 0 5 = 18 ∧ ¬ isBform w ∧ ¬ isRfi w ∧ ¬ isReturn w ∧ ¬ isCtrJump w ∨
      isReturn w ∧ ¬ isBform w ∧ ¬ isIformJump w ∧ ¬ isRfi w ∧ ¬ isCtrJump w ∨
      isCtrJump w ∧ ¬ isBform w ∧ ¬ isIformJump w ∧ ¬ isRfi w ∧ ¬ isReturn w ∨
      isRfi w ∧ ¬ isBform w ∧ ¬ isIformJump w ∧ ¬ isReturn w ∧ ¬ isCtrJump w ∨
      ¬ isBform w ∧ ppcBits w 0 5 ≠ 18 ∧ ¬ isReturn w ∧ ¬ isCtrJump w ∧ ¬ isRfi w := by
  unfold isBform isIformJump isRfi isReturn isCtrJump
  omega

theorem exists_next_iff : (∃ st, ppcFlow w va st = .next) ↔ MayPass w := by
  rcases flow_kinds w with ⟨hB, hI, hR, hRet, hCtr⟩ | ⟨h18, hB, hR, hRet, hCtr⟩ |
    ⟨hRet, hB, hI, hR, hCtr⟩ | ⟨hCtr, hB, hI, hR, hRet⟩ | ⟨hR, hB, hI, hRet, hCtr⟩ |
    ⟨hB, h18, hRet, hCtr, hR⟩
  · constructor
    · rintro ⟨st, hNext⟩
      refine ⟨hI, hR, fun ⟨_, hLk, hAlways⟩ => ?_, fun h => hRet h.1, fun h => hCtr h.1⟩
      obtain ⟨hCount, hCond⟩ := taken_of_always hAlways (ppcBits w 11 15) st
      rw [ppcFlow_bform hB, if_pos ⟨hCount, hCond, hLk⟩] at hNext
      cases hNext
    · rintro ⟨-, -, hNot, -, -⟩
      refine ⟨skippedState (ppcBits w 6 10), ?_⟩
      rw [ppcFlow_bform hB, if_neg]
      rintro ⟨hCount, hCond, hLk⟩
      cases hAlways : branchAlways (ppcBits w 6 10) with
      | true => exact hNot ⟨hB, hLk, hAlways⟩
      | false => exact skippedState_not_taken hAlways _ ⟨hCount, hCond⟩
  · constructor
    · rintro ⟨st, hNext⟩
      refine ⟨fun hI => ?_, hR, fun h => hB h.1, fun h => hRet h.1, fun h => hCtr h.1⟩
      rw [ppcFlow_iform h18, if_neg (not_not.2 hI.2)] at hNext
      cases hNext
    · rintro ⟨hI, -⟩
      refine ⟨takenState 0, ?_⟩
      rw [ppcFlow_iform h18, if_pos fun hLk => hI ⟨h18, hLk⟩]
  · constructor
    · rintro ⟨st, hNext⟩
      refine ⟨hI, hR, fun h => hB h.1, fun ⟨_, hAlways⟩ => ?_, fun h => hCtr h.1⟩
      rw [ppcFlow_return hRet, if_pos (taken_of_always hAlways _ st)] at hNext
      cases hNext
    · rintro ⟨-, -, -, hNot, -⟩
      refine ⟨skippedState (ppcBits w 6 10), ?_⟩
      rw [ppcFlow_return hRet, if_neg]
      cases hAlways : branchAlways (ppcBits w 6 10) with
      | true => exact absurd ⟨hRet, hAlways⟩ hNot
      | false => exact skippedState_not_taken hAlways _
  · constructor
    · rintro ⟨st, hNext⟩
      refine ⟨hI, hR, fun h => hB h.1, fun h => hRet h.1, fun ⟨_, hIgnores⟩ => ?_⟩
      rw [ppcFlow_ctrJump hCtr, if_pos (by rw [condOk, hIgnores, Bool.true_or])] at hNext
      cases hNext
    · rintro ⟨-, -, -, -, hNot⟩
      have hReads : (ppcBits w 6 10).testBit 4 = false :=
        Bool.eq_false_iff.2 fun h => hNot ⟨hCtr, h⟩
      refine ⟨skippedState (ppcBits w 6 10), ?_⟩
      rw [ppcFlow_ctrJump hCtr, if_neg]
      simp [condOk, skippedState, hReads]
  · refine iff_of_false ?_ fun h => h.2.1 hR
    rintro ⟨st, hNext⟩
    rw [ppcFlow_rfi hR] at hNext
    cases hNext
  · refine iff_of_true ⟨takenState 0, ppcFlow_other hB h18 hRet hCtr hR _⟩ ?_
    exact ⟨fun h => h18 h.1, hR, fun h => hB h.1, fun h => hRet h.1, fun h => hCtr h.1⟩

theorem exists_jump_iff : (∃ st, ppcFlow w va st = .jump a) ↔ MayJump w va a := by
  rcases flow_kinds w with ⟨hB, hI, hR, hRet, hCtr⟩ | ⟨h18, hB, hR, hRet, hCtr⟩ |
    ⟨hRet, hB, hI, hR, hCtr⟩ | ⟨hCtr, hB, hI, hR, hRet⟩ | ⟨hR, hB, hI, hRet, hCtr⟩ |
    ⟨hB, h18, hRet, hCtr, hR⟩
  · constructor
    · rintro ⟨st, hJump⟩
      rw [ppcFlow_bform hB] at hJump
      split at hJump
      case isTrue hTaken =>
        exact Or.inr (Or.inl ⟨hB, hTaken.2.2, (Flow.jump.inj hJump).symm⟩)
      case isFalse _ => exact nomatch hJump
    · rintro (⟨h, -⟩ | ⟨-, hLk, rfl⟩ | ⟨h, -⟩)
      · exact absurd h hI
      · refine ⟨takenState (ppcBits w 6 10), ?_⟩
        rw [ppcFlow_bform hB, if_pos ⟨ctrOk_takenState _, condOk_takenState _ _, hLk⟩]
      · exact absurd h (not_or.2 ⟨hCtr, hR⟩)
  · constructor
    · rintro ⟨st, hJump⟩
      rw [ppcFlow_iform h18] at hJump
      split at hJump
      case isTrue _ => exact nomatch hJump
      case isFalse hLk => exact Or.inl ⟨⟨h18, not_not.1 hLk⟩, (Flow.jump.inj hJump).symm⟩
    · rintro (⟨h, rfl⟩ | ⟨h, -⟩ | ⟨h, -⟩)
      · refine ⟨takenState 0, ?_⟩
        rw [ppcFlow_iform h18, if_neg (not_not.2 h.2)]
      · exact absurd h hB
      · exact absurd h (not_or.2 ⟨hCtr, hR⟩)
  · refine iff_of_false ?_ ?_
    · rintro ⟨st, hJump⟩
      rw [ppcFlow_return hRet] at hJump
      split at hJump <;> exact nomatch hJump
    · rintro (⟨h, -⟩ | ⟨h, -⟩ | ⟨h, -⟩)
      · exact hI h
      · exact hB h
      · exact h.elim hCtr hR
  · constructor
    · rintro ⟨st, hJump⟩
      rw [ppcFlow_ctrJump hCtr] at hJump
      split at hJump
      case isTrue _ =>
        obtain rfl := Flow.jump.inj hJump
        exact Or.inr (Or.inr ⟨Or.inl hCtr, toNat_and_not_three _⟩)
      case isFalse _ => exact nomatch hJump
    · rintro (⟨h, -⟩ | ⟨h, -⟩ | ⟨-, hAligned⟩)
      · exact absurd h hI
      · exact absurd h hB
      · exact ppcFlow_indirect (Or.inl hCtr) hAligned
  · constructor
    · rintro ⟨st, hJump⟩
      rw [ppcFlow_rfi hR] at hJump
      obtain rfl := Flow.jump.inj hJump
      exact Or.inr (Or.inr ⟨Or.inr hR, toNat_and_not_three _⟩)
    · rintro (⟨h, -⟩ | ⟨h, -⟩ | ⟨-, hAligned⟩)
      · exact absurd h hI
      · exact absurd h hB
      · exact ppcFlow_indirect (Or.inr hR) hAligned
  · refine iff_of_false ?_ ?_
    · rintro ⟨st, hJump⟩
      rw [ppcFlow_other hB h18 hRet hCtr hR] at hJump
      exact nomatch hJump
    · rintro (⟨h, -⟩ | ⟨h, -⟩ | ⟨h, -⟩)
      · exact h18 h.1
      · exact hB h
      · exact h.elim hCtr hR

end Flow

/-! ## Executions and paths -/

section Paths

variable {img : DolImage} {s₀ s : ExecState}

theorem Intact.path (h : Intact img s₀ s) :
    Relation.ReflTransGen (KeptEdge img) s₀.pc s.pc ∧ s.gpr 3 = s₀.gpr 3 := by
  induction h with
  | refl => exact ⟨.refl, rfl⟩
  | tail _ hLast ih =>
    obtain ⟨⟨w, st, hw, hStep, hFlow⟩, hKeeps⟩ := hLast
    refine ⟨ih.1.tail ⟨w, hw, hKeeps w hw, ?_⟩, (hStep.frame (hKeeps w hw)).trans ih.2⟩
    cases hCase : ppcFlow w _ st with
    | next =>
      rw [hCase] at hFlow
      exact Or.inl ⟨exists_next_iff.1 ⟨st, hCase⟩, hFlow⟩
    | jump b =>
      rw [hCase] at hFlow
      exact Or.inr (exists_jump_iff.1 ⟨st, by rw [hCase, hFlow]⟩)
    | ret =>
      rw [hCase] at hFlow
      exact hFlow.elim

/-- A step with any word is possible. -/
theorem exists_gprStep (w : BitVec 32) (g : Gprs) : ∃ g', GprStep w g g' := by
  unfold GprStep
  dsimp only
  split
  case h_4 => exact ⟨g, fun _ _ => rfl⟩
  all_goals exact ⟨_, rfl⟩

theorem exists_intact {fn pc : BitVec 32} (h : Relation.ReflTransGen (KeptEdge img) fn pc)
    (g : Gprs) : ∃ s, Intact img ⟨fn, g⟩ s ∧ s.pc = pc := by
  induction h with
  | refl => exact ⟨⟨fn, g⟩, .refl, rfl⟩
  | @tail va a _ hEdge ih =>
    obtain ⟨s, hRun, rfl⟩ := ih
    obtain ⟨w, hw, hKept, hGoes⟩ := hEdge
    obtain ⟨g', hStep⟩ := exists_gprStep w s.gpr
    have hKeeps : KeepsThis img s.pc := by
      intro w' hw'
      obtain rfl := Option.some.inj (hw.symm.trans hw')
      exact hKept
    have hFlow : ∃ st, (ppcFlow w s.pc st).LeadsTo s.pc a := by
      rcases hGoes with ⟨hPass, rfl⟩ | hJump
      · obtain ⟨st, hNext⟩ := exists_next_iff.2 hPass
        exact ⟨st, by rw [hNext]; rfl⟩
      · obtain ⟨st, hTo⟩ := exists_jump_iff.2 hJump
        exact ⟨st, by rw [hTo]; rfl⟩
    obtain ⟨st, hFlow⟩ := hFlow
    exact ⟨⟨a, g'⟩, hRun.tail ⟨⟨w, st, hw, hStep, hFlow⟩, hKeeps⟩, rfl⟩

end Paths

/-! ## What the scan records -/

section Recorded

variable {img : DolImage} {stop pc : BitVec 32} {f : ClassField}

theorem mem_scanFrom {left : Nat} {start : BitVec 32} (h : (pc, f) ∈ scanFrom img stop left start) :
    ∃ w, cfgReadWord img pc = some w ∧ fieldOf (ppcDecode w pc) = some f := by
  induction left generalizing start with
  | zero => exact absurd h List.not_mem_nil
  | succ left ih =>
    rw [scanFrom] at h
    split at h
    · split at h
      · exact absurd h List.not_mem_nil
      · rename_i raw hRead
        dsimp only at h
        split at h
        · exact absurd h List.not_mem_nil
        · rcases List.mem_append.1 h with h | h
          · obtain ⟨f', hField, hEq⟩ := Option.map_eq_some_iff.1 (Option.mem_toList.1 h)
            obtain ⟨rfl, rfl⟩ := Prod.mk.inj hEq
            exact ⟨raw, hRead, hField⟩
          · exact ih h
    · exact absurd h List.not_mem_nil

theorem decode_of_opWidth {w : BitVec 32} (h : (opWidth (ppcDecode w pc).op).isSome) :
    (ppcDecode w pc).ra = fieldA w ∧ (ppcDecode w pc).imm = simm w := by
  cases hOp : (ppcDecode w pc).op <;> rw [hOp] at h <;> try contradiction
  all_goals
    have hPrimary := ppcDecode_primary hOp (fun h => by cases h)
    rw [ppcDecode, hPrimary]
    exact ⟨rfl, rfl⟩

/-- A load or store that is recorded accesses memory at its offset from `r3`. -/
theorem fieldOf_address {w : BitVec 32} (h : fieldOf (ppcDecode w pc) = some f) (g : Gprs) :
    (opWidth (ppcDecode w pc).op).isSome ∧ g.address w = g 3 + f.offset.setWidth 32 := by
  unfold fieldOf at h
  cases hWidth : opWidth (ppcDecode w pc).op with
  | none =>
    rw [hWidth] at h
    exact nomatch h
  | some width =>
    refine ⟨rfl, ?_⟩
    rw [hWidth] at h
    dsimp only at h
    split at h
    · exact nomatch h
    · rename_i hBase
      split at h
      · exact nomatch h
      · rename_i hRange
        obtain rfl := Option.some.inj h
        obtain ⟨hRa, hImm⟩ := @decode_of_opWidth pc w (by rw [hWidth]; rfl)
        rw [not_not, hRa] at hBase
        rw [hImm] at hRange ⊢
        rw [Gprs.address, hBase, Gprs.base, if_neg (by decide)]
        congr 1
        have hLo : 0 ≤ (simm w).toInt ∧ (simm w).toInt ≤ 0x4000 := by omega
        rw [BitVec.toInt_eq_toNat_cond] at hLo
        apply BitVec.eq_of_toNat_eq
        simp only [BitVec.toNat_setWidth]
        split at hLo <;> omega

theorem mem_classesAddField {fields : List ClassField} {g : ClassField}
    (h : g ∈ classesAddField fields f) :
    g.offset = f.offset ∨ g.offset ∈ fields.map (·.offset) := by
  induction fields with
  | nil => exact Or.inl (congrArg ClassField.offset (List.mem_singleton.1 h))
  | cons x fields ih =>
    rw [classesAddField] at h
    split at h
    · rcases List.mem_cons.1 h with rfl | h
      · exact Or.inr List.mem_cons_self
      · exact Or.inr (List.mem_cons_of_mem _ (List.mem_map_of_mem h))
    · rcases List.mem_cons.1 h with rfl | h
      · exact Or.inr List.mem_cons_self
      · exact (ih h).imp_right (List.mem_cons_of_mem _)

/-- A field that the scans add has the offset of an access that they record. -/
theorem mem_addFields {fields : List ClassField} {rs : List (BitVec 32 × BitVec 32 × ClassField)}
    {g : ClassField} (h : g ∈ addFields fields rs) :
    g.offset ∈ fields.map (·.offset) ∨ ∃ r ∈ rs, g.offset = r.2.2.offset := by
  induction rs generalizing fields with
  | nil => exact Or.inl (List.mem_map_of_mem h)
  | cons r rs ih =>
    rcases ih h with hOld | ⟨r', hr', hEq⟩
    · obtain ⟨x, hx, hxg⟩ := List.mem_map.1 hOld
      rcases mem_classesAddField hx with hNew | hOld
      · exact Or.inr ⟨r, List.mem_cons_self, hxg.symm.trans hNew⟩
      · exact Or.inl (hxg ▸ hOld)
    · exact Or.inr ⟨r', List.mem_cons_of_mem _ hr', hEq⟩

end Recorded

section Fields

variable {img : DolImage} {syms : List SymEntry} {c : Classes}

theorem mem_recordedAccesses {vtables : List VTable} {ci : ClassInfo}
    {r : BitVec 32 × BitVec 32 × ClassField} (h : r ∈ recordedAccesses img syms vtables ci) :
    r.1 ∈ methodsOf vtables ci ∧
      ∃ w, cfgReadWord img r.2.1 = some w ∧ fieldOf (ppcDecode w r.2.1) = some r.2.2 := by
  obtain ⟨fn, hFn, h⟩ := List.mem_flatMap.1 h
  obtain ⟨⟨pc, f⟩, hAccess, rfl⟩ := List.mem_map.1 h
  exact ⟨hFn, mem_scanFrom hAccess⟩

/-- An access that is recorded is one to the object exactly if a path leads to it on which `r3` is
not written. -/
theorem accessesThis_iff {fn pc : BitVec 32} {f : ClassField} {w : BitVec 32}
    (hRead : cfgReadWord img pc = some w) (hField : fieldOf (ppcDecode w pc) = some f) :
    AccessesThis img fn pc f ↔ Relation.ReflTransGen (KeptEdge img) fn pc := by
  constructor
  · rintro ⟨s₀, s, w', rfl, hRun, rfl, -, -, -⟩
    exact hRun.path.1
  · intro hPath
    obtain ⟨s, hRun, hPc⟩ := exists_intact hPath fun _ => 0
    obtain ⟨hOp, hAddress⟩ := fieldOf_address hField s.gpr
    refine ⟨⟨fn, fun _ => 0⟩, s, w, rfl, hRun, hPc, hRead, hOp, ?_⟩
    rw [hAddress, hRun.path.2]

/-- The fields that are found belong to the object exactly if every access that is recorded lies on
a path without a write to `r3` in front of it. -/
theorem fieldsBelong_iff (img : DolImage) (syms : List SymEntry) (c : Classes) :
    FieldsBelong img syms c ↔ ReachedIntact img syms c := by
  constructor
  · intro h ci hci r hr
    obtain ⟨-, w, hRead, hField⟩ := mem_recordedAccesses hr
    exact (accessesThis_iff hRead hField).1 ((h ci hci).2 r hr)
  · intro h ci hci
    have hAll : ∀ r ∈ recordedAccesses img syms c.vtables ci, AccessesThis img r.1 r.2.1 r.2.2 := by
      intro r hr
      obtain ⟨-, w, hRead, hField⟩ := mem_recordedAccesses hr
      exact (accessesThis_iff hRead hField).2 (h ci hci r hr)
    refine ⟨fun f hf hNew => ?_, hAll⟩
    rcases mem_addFields hf with hOld | ⟨r, hr, hOffset⟩
    · exact absurd hOld hNew
    · obtain ⟨s₀, s, w, hStart, hRun, hPc, hRead, hOp, hAddress⟩ := hAll r hr
      refine ⟨r.1, (mem_recordedAccesses hr).1, r.2.1, s₀, s, w, hStart, hRun, hPc, hRead, hOp, ?_⟩
      rw [hAddress, hOffset]

end Fields

/-! ## Code without branches -/

section Straight

variable {img : DolImage} {fn : BitVec 32} {k : Nat} {word : Nat → BitVec 32}

/-- The address of an instruction of a method. -/
def insnAddr (fn : BitVec 32) (j : Nat) : BitVec 32 := fn + BitVec.ofNat 32 (4 * j)

theorem insnAddr_succ (fn : BitVec 32) (j : Nat) : insnAddr fn j + 4 = insnAddr fn (j + 1) := by
  rw [insnAddr, insnAddr, Nat.mul_succ, BitVec.ofNat_add, BitVec.add_assoc]
  rfl

/-- The first `k` instructions of a method, none of them a branch. -/
structure StraightTo (img : DolImage) (fn : BitVec 32) (k : Nat) (word : Nat → BitVec 32) :
    Prop where
  small : k < 2 ^ 30
  read : ∀ j < k, cfgReadWord img (insnAddr fn j) = some (word j)
  passes : ∀ j < k, MayPass (word j)
  stays : ∀ j < k, ∀ va a, ¬ MayJump (word j) va a

theorem StraightTo.edge_iff (h : StraightTo img fn k word) {j : Nat} (hj : j < k) {a : BitVec 32} :
    KeptEdge img (insnAddr fn j) a ↔ 3 ∉ gprWrites (word j) ∧ a = insnAddr fn (j + 1) := by
  rw [← insnAddr_succ]
  constructor
  · rintro ⟨w, hw, hKept, hGoes⟩
    obtain rfl := Option.some.inj ((h.read j hj).symm.trans hw)
    exact ⟨hKept, hGoes.elim And.right fun hJump => absurd hJump (h.stays j hj _ _)⟩
  · rintro ⟨hKept, rfl⟩
    exact ⟨word j, h.read j hj, hKept, Or.inl ⟨h.passes j hj, rfl⟩⟩

end Straight

/-! ## A pointer in `r3` -/

/-- A method `lwz r3, 8(r3); lwz r4, 4(r3); blr` in the vtable at 0x80005000, twice, and an object
behind the vtable. -/
def chainImage : DolImage :=
  dolImage [0x80630008, 0x80830004, 0x4E800020] [0x80004000, 0x80004000, 0x80005000]

def chainSyms : List SymEntry :=
  [{ vaddr := 0x80004000, size := 12, name := "get" },
    { vaddr := 0x80005000, size := 8, name := "table" },
    { vaddr := 0x80005008, size := 4, name := "object" }]

set_option maxRecDepth 20000 in
/-- The second load goes through the pointer that the first one put into `r3`. -/
theorem not_fieldsBelong_chain :
    dolParse chainImage.bytes = .ok chainImage ∧
      ¬ ∀ img syms, FieldsBelong img syms (classesBefore img syms) := by
  refine ⟨rfl, fun h => ?_⟩
  have hClasses : (classesBefore chainImage chainSyms).classes =
      [{ vaddr := 0x80005008, primaryVtable := 0x80005000, fields := [vtableField 0 0x80005000] }] := by
    rfl
  have hRecorded : (0x80004000, 0x80004004, { offset := 4, width := 4, kind := .int }) ∈
      recordedAccesses chainImage chainSyms (classesBefore chainImage chainSyms).vtables
        { vaddr := 0x80005008, primaryVtable := 0x80005000, fields := [vtableField 0 0x80005000] } := by
    decide +kernel
  obtain ⟨s₀, s, -, hStart, hRun, hPc, -⟩ :=
    (h chainImage chainSyms _ (hClasses ▸ List.mem_singleton_self _)).2 _ hRecorded
  obtain ⟨hPath, -⟩ := hRun.path
  rw [hStart, hPc] at hPath
  rcases hPath.cases_head with hEq | ⟨a, ⟨w, hw, hKept, -⟩, -⟩
  · exact absurd hEq (by decide)
  · have hRead : cfgReadWord chainImage 0x80004000 = some 0x80630008 := rfl
    obtain rfl := Option.some.inj (hRead.symm.trans hw)
    exact hKept (by decide)

end Calynda.Decompiler
