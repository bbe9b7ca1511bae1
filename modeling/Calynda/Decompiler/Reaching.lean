import Calynda.Decompiler.Types

/-!
# Propagation along reaching definitions

Inside a block, two of the passes over the types hand on what they know of a register to the `addi`,
`ori` or `mr` that reads it. They keep a shadow of each register. What a shadow should hold is the
type of the last instruction of the block that wrote the register; the conditions under which a step
of the pass keeps the shadows so, and gives the instruction what its source holds, are exact.
-/

namespace Calynda.Decompiler.Typing

/-! ## Definitions that reach an instruction -/

/-- A register is written if the table of effects says so or the architecture. -/
def writesGpr (ssa : Ssa) (r j : Nat) : Bool :=
  gprDefOf (ssa.insn j) = some r ∨ r ∈ gprWrites (ssa.insn j).insn.raw

section Writes

variable {ssa : Ssa} {r j : Nat}

theorem writesGpr_of_def (h : gprDefOf (ssa.insn j) = some r) : writesGpr ssa r j = true :=
  decide_eq_true (.inl h)

theorem writesGpr_of_mem (h : r ∈ gprWrites (ssa.insn j).insn.raw) : writesGpr ssa r j = true :=
  decide_eq_true (.inr h)

theorem writesGpr_eq_false (hDef : gprDefOf (ssa.insn j) ≠ some r)
    (h : r ∉ gprWrites (ssa.insn j).insn.raw) : writesGpr ssa r j = false :=
  decide_eq_false (not_or.2 ⟨hDef, h⟩)

end Writes

/-- What a type says of the value, and the type that hands it on. -/
structure Evidence (ε : Type) where
  of : TypeInfo → Option ε
  toType : ε → TypeInfo

section Evidence

variable {ε : Type} (ev : Evidence ε) (ssa : Ssa) (b : SsaBlockInfo)

/-- The evidence of the last instruction of the block before `idx` that writes a register. -/
def reaching (t : Types) (idx r : Nat) : Option ε :=
  (lastBefore (writesGpr ssa r) b.firstInsn idx).bind fun j => ev.of (t.insnType j)

/-- The type of an instruction with the evidence that it is given. -/
def Evidence.given (ty : TypeInfo) (e : Option ε) : TypeInfo :=
  e.elim ty fun x => typesMerge ty (ev.toType x)

end Evidence

/-- The register whose type an instruction hands on. Register 0 of an `addi` stands for zero. -/
def sourceReg (insn : PpcInsn) : Option Nat :=
  match insn.op with
  | .addi => if insn.ra ≠ 0 then some insn.ra else none
  | .ori => some insn.rd
  | .mr => some insn.ra
  | _ => none

/-- The types and the shadows before each instruction of a block. -/
abbrev Run (ε : Type) := Nat → Types × (Nat → Option ε)

/-- The propagation of a pass follows the definitions that reach: before every instruction each shadow
holds the evidence of the last one that wrote the register, so that nothing else is passed on, and an
instruction is given just what reaches the source that it hands on. -/
structure Follows {ε : Type} (ev : Evidence ε) (ssa : Ssa) (b : SsaBlockInfo) (run : Run ε) : Prop where
  shadows : ∀ k ≤ b.insnCount, ∀ r,
    (run k).2 r = reaching ev ssa b (run k).1 (b.firstInsn + k) r
  given : ∀ k < b.insnCount, (run (k + 1)).1.insnType (b.firstInsn + k) =
    ev.given ((run k).1.insnType (b.firstInsn + k))
      ((sourceReg (ssa.insn (b.firstInsn + k)).insn).bind
        (reaching ev ssa b (run k).1 (b.firstInsn + k)))

/-- A pass over the instructions of a block goes through the states that its steps lead to. -/
theorem foldl_indices {σ : Type} (b : SsaBlockInfo) (step : σ → Nat → σ) (state : Nat → σ)
    (hStep : ∀ k, state (k + 1) = step (state k) (b.firstInsn + k)) :
    b.indices.foldl step (state 0) = state b.insnCount := by
  have hState : ∀ n, ((List.range n).map (b.firstInsn + ·)).foldl step (state 0) = state n := by
    intro n
    induction n with
    | zero => rfl
    | succ n ih =>
      rw [List.range_succ, List.map_append, List.foldl_append, ih, hStep]
      rfl
  exact hState b.insnCount

section Reaching

variable {ε : Type} {ev : Evidence ε} {ssa : Ssa} {b : SsaBlockInfo}

theorem lastBefore_lt {p : Nat → Bool} {first : Nat} : ∀ {k j : Nat},
    lastBefore p first k = some j → j < k
  | k + 1, j, h => by
    rw [lastBefore] at h
    split_ifs at h with hFirst hp
    · cases h
      exact Nat.lt_succ_self k
    · exact Nat.lt_succ_of_lt (lastBefore_lt h)

theorem reaching_first (t : Types) (r : Nat) : reaching ev ssa b t b.firstInsn r = none := by
  rw [reaching]
  cases h : b.firstInsn with
  | zero => rfl
  | succ n => rw [lastBefore, if_neg (by omega), Option.bind_none]

/-- One instruction further the written registers have its evidence, and the others what they had. -/
theorem reaching_succ {t t' : Types} {idx : Nat} (hIdx : b.firstInsn ≤ idx)
    (hFrame : ∀ j ≠ idx, t'.insnType j = t.insnType j) (r : Nat) :
    reaching ev ssa b t' (idx + 1) r =
      if writesGpr ssa r idx then ev.of (t'.insnType idx) else reaching ev ssa b t idx r := by
  rw [reaching, lastBefore, if_pos hIdx]
  split
  case isTrue => rfl
  case isFalse =>
    rw [reaching]
    cases hLast : lastBefore (writesGpr ssa r) b.firstInsn idx with
    | none => rfl
    | some j =>
      have hLt := lastBefore_lt hLast
      rw [Option.bind_some, Option.bind_some, hFrame j (by omega)]

/-- A step does right by the shadows before it. -/
structure StepRight (ev : Evidence ε) (ssa : Ssa) (idx : Nat) (s s' : Types × (Nat → Option ε)) :
    Prop where
  shadows : ∀ r, s'.2 r = if writesGpr ssa r idx then ev.of (s'.1.insnType idx) else s.2 r
  given :
    s'.1.insnType idx = ev.given (s.1.insnType idx) ((sourceReg (ssa.insn idx).insn).bind s.2)

/-- A block follows its definitions exactly if every step does right. -/
theorem follows_iff_stepRight {run : Run ε} (hStart : ∀ r, (run 0).2 r = none)
    (hFrame : ∀ k, ∀ j ≠ b.firstInsn + k, (run (k + 1)).1.insnType j = (run k).1.insnType j) :
    Follows ev ssa b run ↔
      ∀ k < b.insnCount, StepRight ev ssa (b.firstInsn + k) (run k) (run (k + 1)) := by
  constructor
  · intro h k hk
    have hShadows : (run k).2 = reaching ev ssa b (run k).1 (b.firstInsn + k) :=
      funext (h.shadows k hk.le)
    refine ⟨fun r => ?_, ?_⟩
    · rw [h.shadows (k + 1) hk r, ← Nat.add_assoc,
        reaching_succ (Nat.le_add_right _ _) (hFrame k), hShadows]
    · rw [hShadows]
      exact h.given k hk
  · intro h
    have hInv : ∀ k ≤ b.insnCount, ∀ r,
        (run k).2 r = reaching ev ssa b (run k).1 (b.firstInsn + k) r := by
      intro k
      induction k with
      | zero =>
        intro _ r
        rw [hStart, Nat.add_zero, reaching_first]
      | succ k ih =>
        intro hk r
        rw [(h k hk).shadows, ih (by omega), ← Nat.add_assoc,
          reaching_succ (Nat.le_add_right _ _) (hFrame k)]
    refine ⟨hInv, fun k hk => ?_⟩
    rw [(h k hk).given, show (run k).2 = _ from funext (hInv k hk.le)]

end Reaching

/-! ## Pointers -/

def ptrEvidence : Evidence TypeInfo where
  of ty := if ty.kind = .ptr then some ty else none
  toType := id

section Pointers

variable (ssa : Ssa) (b : SsaBlockInfo) (t : Types)

/-- The state of `ptrBlock` before the `k`-th instruction of the block. -/
def ptrStateAt : Nat → Types × (Nat → TypeInfo)
  | 0 => (t, fun _ => {})
  | k + 1 => ptrStep ssa (ptrStateAt k) (b.firstInsn + k)

def ptrRun : Run TypeInfo := fun k =>
  ((ptrStateAt ssa b t k).1, fun r => ptrEvidence.of ((ptrStateAt ssa b t k).2 r))

theorem ptrBlock_eq : ptrBlock ssa t b = (ptrStateAt ssa b t b.insnCount).1 :=
  congrArg Prod.fst (foldl_indices b (ptrStep ssa) (ptrStateAt ssa b t) fun _ => rfl)

variable (s : Types × (Nat → TypeInfo)) (idx : Nat)

/-- What a step hands on: the shadow of the register `ra`, in which its own type may be already. -/
def readPtr : Option TypeInfo :=
  let si := ssa.insn idx
  if (si.op = .addi ∨ si.op = .ori ∨ si.op = .mr) ∧ si.insn.ra < Ssa.ssaMaxReg then
    ptrEvidence.of
      (if (s.1.insnType idx).kind = .ptr ∧ gprDefOf si = some si.insn.ra then s.1.insnType idx
      else s.2 si.insn.ra)
  else none

/-- The steps that keep to the definitions. -/
structure PtrStepOk : Prop where
  /-- What is read is worth the same as the shadow of the source. -/
  reads : ptrEvidence.given (s.1.insnType idx) (readPtr ssa s idx) =
    ptrEvidence.given (s.1.insnType idx)
      ((sourceReg (ssa.insn idx).insn).bind fun r => ptrEvidence.of (s.2 r))
  /-- A register that is written without an entry in the table held what the instruction has. -/
  hidden : ∀ r ∈ gprWrites (ssa.insn idx).insn.raw, gprDefOf (ssa.insn idx) ≠ some r →
    ptrEvidence.of (s.2 r) = ptrEvidence.of (ptrEvidence.given (s.1.insnType idx)
      ((sourceReg (ssa.insn idx).insn).bind fun r => ptrEvidence.of (s.2 r)))
  /-- An `addi`, `ori` or `mr` that is no pointer does not redefine one. -/
  stale : ∀ r, gprDefOf (ssa.insn idx) = some r →
    (ssa.insn idx).op = .addi ∨ (ssa.insn idx).op = .ori ∨ (ssa.insn idx).op = .mr →
    (s.1.insnType idx).kind ≠ .ptr → readPtr ssa s idx = none → (s.2 r).kind ≠ .ptr

variable {ssa b t s idx}

/-- The step by what it hands on. -/
theorem ptrStep_eq : ptrStep ssa s idx =
    match readPtr ssa s idx with
    | some p =>
      (s.1.mergeInsn idx p, match gprDefOf (ssa.insn idx) with
        | some r => Function.update s.2 r ((s.1.mergeInsn idx p).insnType idx)
        | none => s.2)
    | none =>
      (s.1, match gprDefOf (ssa.insn idx) with
        | some r =>
          if (s.1.insnType idx).kind = .ptr then Function.update s.2 r (s.1.insnType idx)
          else if (ssa.insn idx).op = .addi ∨ (ssa.insn idx).op = .ori ∨
            (ssa.insn idx).op = .mr then s.2
          else Function.update s.2 r {}
        | none => s.2) := by
  obtain ⟨t, gpr⟩ := s
  unfold ptrStep readPtr
  dsimp only
  split
  case h_4 hAddi hOri hMr =>
    have hOp : ¬((ssa.insn idx).op = .addi ∨ (ssa.insn idx).op = .ori ∨
        (ssa.insn idx).op = .mr) := by
      rintro (h | h | h)
      · exact hAddi h
      · exact hOri h
      · exact hMr h
    rw [if_neg fun h => hOp h.1]
    cases gprDefOf (ssa.insn idx) with
    | none => rfl
    | some r => by_cases hPtr : (t.insnType idx).kind = .ptr <;> simp [hPtr, hOp]
  all_goals
    rename_i hOp
    by_cases hRa : (ssa.insn idx).insn.ra < Ssa.ssaMaxReg
    case neg => cases gprDefOf (ssa.insn idx) <;> simp [hRa, hOp]
    cases hDef : gprDefOf (ssa.insn idx) with
    | none =>
      by_cases hRead : (gpr (ssa.insn idx).insn.ra).kind = .ptr <;>
        simp [hRa, hOp, hRead, ptrEvidence]
    | some r =>
      by_cases hPtr : (t.insnType idx).kind = .ptr
      · by_cases hr : r = (ssa.insn idx).insn.ra
        · subst hr
          simp [hRa, hOp, hPtr, ptrEvidence]
        · by_cases hRead : (gpr (ssa.insn idx).insn.ra).kind = .ptr <;>
            simp [hRa, hOp, hPtr, hr, hRead, ptrEvidence, Function.update_of_ne (Ne.symm hr)]
      · by_cases hRead : (gpr (ssa.insn idx).insn.ra).kind = .ptr <;>
          simp [hRa, hOp, hPtr, hRead, ptrEvidence]

theorem ptrStep_insnType :
    (ptrStep ssa s idx).1.insnType idx =
      ptrEvidence.given (s.1.insnType idx) (readPtr ssa s idx) := by
  rw [ptrStep_eq]
  cases readPtr ssa s idx with
  | none => rfl
  | some p => exact Function.update_self idx _ _

theorem ptrStep_frame {j : Nat} (h : j ≠ idx) :
    (ptrStep ssa s idx).1.insnType j = s.1.insnType j := by
  rw [ptrStep_eq]
  cases readPtr ssa s idx with
  | none => rfl
  | some p => exact Function.update_of_ne h _ _

theorem ptrStep_shadow (r : Nat) : ptrEvidence.of ((ptrStep ssa s idx).2 r) =
    if gprDefOf (ssa.insn idx) = some r then
      if ((ssa.insn idx).op = .addi ∨ (ssa.insn idx).op = .ori ∨ (ssa.insn idx).op = .mr) ∧
          (s.1.insnType idx).kind ≠ .ptr ∧ readPtr ssa s idx = none then ptrEvidence.of (s.2 r)
      else ptrEvidence.of ((ptrStep ssa s idx).1.insnType idx)
    else ptrEvidence.of (s.2 r) := by
  rw [ptrStep_eq]
  cases hDef : gprDefOf (ssa.insn idx) with
  | none => cases readPtr ssa s idx <;> rfl
  | some r' =>
    by_cases hr : r' = r
    case neg =>
      have hNe : r ≠ r' := Ne.symm hr
      rw [if_neg (by simpa using hr)]
      cases readPtr ssa s idx with
      | some p =>
        dsimp only
        rw [Function.update_of_ne hNe]
      | none =>
        dsimp only
        split_ifs
        · rw [Function.update_of_ne hNe]
        · rfl
        · rw [Function.update_of_ne hNe]
    case pos =>
      subst hr
      rw [if_pos rfl]
      cases readPtr ssa s idx with
      | some p => simp
      | none =>
        by_cases hPtr : (s.1.insnType idx).kind = .ptr
        · simp [hPtr]
        · by_cases hOp : (ssa.insn idx).op = .addi ∨ (ssa.insn idx).op = .ori ∨
            (ssa.insn idx).op = .mr
          · simp [hPtr, hOp]
          · simp [hPtr, hOp, ptrEvidence]

/-- A step does right by its shadows exactly if it is one that keeps to the definitions. -/
theorem ptrStep_right_iff :
    StepRight ptrEvidence ssa idx (s.1, fun r => ptrEvidence.of (s.2 r))
      ((ptrStep ssa s idx).1, fun r => ptrEvidence.of ((ptrStep ssa s idx).2 r)) ↔
    PtrStepOk ssa s idx := by
  constructor
  · intro h
    have hGiven := h.given
    refine ⟨ptrStep_insnType.symm.trans hGiven, fun r hr hDef => ?_, fun r hDef hOp hPtr hRead => ?_⟩
    · have hShadow := h.shadows r
      dsimp only at hShadow
      rw [ptrStep_shadow, if_neg hDef, if_pos (writesGpr_of_mem hr), hGiven] at hShadow
      exact hShadow
    · have hShadow := h.shadows r
      dsimp only at hShadow
      rw [ptrStep_shadow, if_pos hDef, if_pos ⟨hOp, hPtr, hRead⟩,
        if_pos (writesGpr_of_def hDef), ptrStep_insnType, hRead] at hShadow
      intro hKind
      exact absurd hShadow (by simp [ptrEvidence, Evidence.given, hKind, hPtr])
  · intro h
    have hGiven := ptrStep_insnType.trans h.reads
    refine ⟨fun r => ?_, hGiven⟩
    dsimp only
    rw [ptrStep_shadow]
    by_cases hDef : gprDefOf (ssa.insn idx) = some r
    · rw [if_pos hDef, if_pos (writesGpr_of_def hDef)]
      split
      case isTrue hStale =>
        obtain ⟨hOp, hPtr, hRead⟩ := hStale
        have hKind := h.stale r hDef hOp hPtr hRead
        rw [ptrStep_insnType, hRead]
        simp [ptrEvidence, Evidence.given, hKind, hPtr]
      case isFalse => rfl
    · rw [if_neg hDef]
      by_cases hr : r ∈ gprWrites (ssa.insn idx).insn.raw
      · rw [if_pos (writesGpr_of_mem hr), hGiven]
        exact h.hidden r hr hDef
      · rw [writesGpr_eq_false hDef hr, if_neg Bool.false_ne_true]

end Pointers

/-! ## Signs -/

def knownSign (sign : Signedness) : Option Signedness := if sign ≠ .unknown then some sign else none

def signEvidence : Evidence Signedness where
  of ty := knownSign ty.sign
  toType sign := { kind := .int, width := 4, sign := sign }

section Signs

variable (ssa : Ssa) (b : SsaBlockInfo) (t : Types)

/-- The state of `signBlock` before the `k`-th instruction of the block. -/
def signStateAt : Nat → Types × (Nat → Signedness)
  | 0 => (t, fun _ => .unknown)
  | k + 1 => signStep ssa (signStateAt k) (b.firstInsn + k)

def signRun : Run Signedness := fun k =>
  ((signStateAt ssa b t k).1, fun r => knownSign ((signStateAt ssa b t k).2 r))

theorem signBlock_eq : signBlock ssa t b = (signStateAt ssa b t b.insnCount).1 :=
  congrArg Prod.fst (foldl_indices b (signStep ssa) (signStateAt ssa b t) fun _ => rfl)

variable (s : Types × (Nat → Signedness)) (idx : Nat)

/-- What a step hands on: nothing for an `addi`. -/
def readSign : Option Signedness :=
  let si := ssa.insn idx
  if (si.op = .mr ∨ si.op = .ori) ∧ si.insn.ra < Ssa.ssaMaxReg then
    knownSign
      (if (s.1.insnType idx).sign ≠ .unknown ∧ gprDefOf si = some si.insn.ra then
        (s.1.insnType idx).sign
      else s.2 si.insn.ra)
  else none

/-- The steps that keep to the definitions. -/
structure SignStepOk : Prop where
  /-- What is read is worth the same as the shadow of the source. -/
  reads : signEvidence.given (s.1.insnType idx) (readSign ssa s idx) =
    signEvidence.given (s.1.insnType idx)
      ((sourceReg (ssa.insn idx).insn).bind fun r => knownSign (s.2 r))
  /-- A register that is written without an entry in the table held what the instruction has. -/
  hidden : ∀ r ∈ gprWrites (ssa.insn idx).insn.raw, gprDefOf (ssa.insn idx) ≠ some r →
    knownSign (s.2 r) = signEvidence.of (signEvidence.given (s.1.insnType idx)
      ((sourceReg (ssa.insn idx).insn).bind fun r => knownSign (s.2 r)))
  /-- An instruction without a sign does not redefine a register with one. -/
  stale : ∀ r, gprDefOf (ssa.insn idx) = some r → (s.1.insnType idx).sign = .unknown →
    readSign ssa s idx = none → s.2 r = .unknown
  /-- No unsigned instruction is handed a signed value. -/
  overruled : ∀ r, gprDefOf (ssa.insn idx) = some r → (s.1.insnType idx).sign = .unsigned →
    readSign ssa s idx ≠ some .signed

variable {ssa b t s idx}

/-- The step by what it hands on. -/
theorem signStep_eq : signStep ssa s idx =
    match readSign ssa s idx with
    | some sign =>
      (s.1.mergeInsn idx (signEvidence.toType sign), match gprDefOf (ssa.insn idx) with
        | some r => Function.update s.2 r sign
        | none => s.2)
    | none =>
      (s.1, match gprDefOf (ssa.insn idx) with
        | some r =>
          if (s.1.insnType idx).sign ≠ .unknown then
            Function.update s.2 r (s.1.insnType idx).sign
          else s.2
        | none => s.2) := by
  obtain ⟨t, sh⟩ := s
  unfold signStep readSign
  dsimp only
  by_cases hOp : (ssa.insn idx).op = .mr ∨ (ssa.insn idx).op = .ori
  case neg => cases gprDefOf (ssa.insn idx) <;> simp [hOp]
  by_cases hRa : (ssa.insn idx).insn.ra < Ssa.ssaMaxReg
  case neg => cases gprDefOf (ssa.insn idx) <;> simp [hRa]
  cases hDef : gprDefOf (ssa.insn idx) with
  | none =>
    by_cases hRead : sh (ssa.insn idx).insn.ra = .unknown <;>
      simp [hRa, hOp, hRead, knownSign, signEvidence]
  | some r =>
    by_cases hSign : (t.insnType idx).sign = .unknown
    · by_cases hRead : sh (ssa.insn idx).insn.ra = .unknown <;>
        simp [hRa, hOp, hSign, hRead, knownSign, signEvidence]
    · by_cases hr : r = (ssa.insn idx).insn.ra
      · subst hr
        simp [hRa, hOp, hSign, knownSign, signEvidence]
      · by_cases hRead : sh (ssa.insn idx).insn.ra = .unknown <;>
          simp [hRa, hOp, hSign, hr, hRead, knownSign, signEvidence,
            Function.update_of_ne (Ne.symm hr)]

theorem signStep_insnType :
    (signStep ssa s idx).1.insnType idx =
      signEvidence.given (s.1.insnType idx) (readSign ssa s idx) := by
  rw [signStep_eq]
  cases readSign ssa s idx with
  | none => rfl
  | some p => exact Function.update_self idx _ _

theorem signStep_frame {j : Nat} (h : j ≠ idx) :
    (signStep ssa s idx).1.insnType j = s.1.insnType j := by
  rw [signStep_eq]
  cases readSign ssa s idx with
  | none => rfl
  | some p => exact Function.update_of_ne h _ _

theorem knownSign_readSign {sign : Signedness} (h : readSign ssa s idx = some sign) :
    knownSign sign = some sign := by
  have hIdem : ∀ x y : Signedness, knownSign x = some y → knownSign y = some y := by decide
  unfold readSign at h
  dsimp only at h
  split at h
  case isTrue => exact hIdem _ _ h
  case isFalse => exact nomatch h

theorem signStep_shadow (r : Nat) : knownSign ((signStep ssa s idx).2 r) =
    if gprDefOf (ssa.insn idx) = some r then
      (readSign ssa s idx).or ((knownSign (s.1.insnType idx).sign).or (knownSign (s.2 r)))
    else knownSign (s.2 r) := by
  rw [signStep_eq]
  cases hDef : gprDefOf (ssa.insn idx) with
  | none => cases readSign ssa s idx <;> rfl
  | some r' =>
    by_cases hr : r' = r
    case neg =>
      have hNe : r ≠ r' := Ne.symm hr
      rw [if_neg (by simpa using hr)]
      cases readSign ssa s idx with
      | some p =>
        dsimp only
        rw [Function.update_of_ne hNe]
      | none =>
        dsimp only
        split
        · rw [Function.update_of_ne hNe]
        · rfl
    case pos =>
      subst hr
      rw [if_pos rfl]
      cases hRead : readSign ssa s idx with
      | some p =>
        dsimp only
        rw [Function.update_self, knownSign_readSign hRead]
        rfl
      | none =>
        by_cases hSign : (s.1.insnType idx).sign = .unknown <;> simp [hSign, knownSign]

/-- A step does right by its shadows exactly if it is one that keeps to the definitions. -/
theorem signStep_right_iff :
    StepRight signEvidence ssa idx (s.1, fun r => knownSign (s.2 r))
      ((signStep ssa s idx).1, fun r => knownSign ((signStep ssa s idx).2 r)) ↔
    SignStepOk ssa s idx := by
  -- what a defined register has to satisfy
  have hDefined : ∀ r, gprDefOf (ssa.insn idx) = some r →
      ((readSign ssa s idx).or ((knownSign (s.1.insnType idx).sign).or (knownSign (s.2 r))) =
          signEvidence.of (signEvidence.given (s.1.insnType idx) (readSign ssa s idx)) ↔
        ((s.1.insnType idx).sign = .unknown → readSign ssa s idx = none → s.2 r = .unknown) ∧
          ((s.1.insnType idx).sign = .unsigned → readSign ssa s idx ≠ some .signed)) := by
    intro r _
    cases hRead : readSign ssa s idx with
    | none =>
      simp only [Evidence.given, signEvidence, Option.elim_none, Option.none_or, knownSign]
      cases (s.1.insnType idx).sign <;> cases s.2 r <;> decide
    | some sign =>
      have hKnown := knownSign_readSign hRead
      simp only [Evidence.given, signEvidence, Option.elim_some, Option.some_or, typesMerge]
      revert hKnown
      cases (s.1.insnType idx).sign <;> cases sign <;> cases s.2 r <;> decide
  constructor
  · intro h
    have hGiven := h.given
    have hShadow : ∀ r, gprDefOf (ssa.insn idx) = some r → _ := fun r hDef => by
      have hAt := h.shadows r
      dsimp only at hAt
      rw [signStep_shadow, if_pos hDef, if_pos (writesGpr_of_def hDef), signStep_insnType,
        hDefined r hDef] at hAt
      exact hAt
    refine ⟨signStep_insnType.symm.trans hGiven, fun r hr hDef => ?_, fun r hDef =>
      (hShadow r hDef).1, fun r hDef => (hShadow r hDef).2⟩
    have hAt := h.shadows r
    dsimp only at hAt
    rw [signStep_shadow, if_neg hDef, if_pos (writesGpr_of_mem hr), hGiven] at hAt
    exact hAt
  · intro h
    have hGiven := signStep_insnType.trans h.reads
    refine ⟨fun r => ?_, hGiven⟩
    dsimp only
    rw [signStep_shadow]
    by_cases hDef : gprDefOf (ssa.insn idx) = some r
    · rw [if_pos hDef, if_pos (writesGpr_of_def hDef), signStep_insnType]
      exact (hDefined r hDef).2 ⟨h.stale r hDef, h.overruled r hDef⟩
    · rw [if_neg hDef]
      by_cases hr : r ∈ gprWrites (ssa.insn idx).insn.raw
      · rw [if_pos (writesGpr_of_mem hr), hGiven]
        exact h.hidden r hr hDef
      · rw [writesGpr_eq_false hDef hr, if_neg Bool.false_ne_true]

end Signs

/-! ## Both passes -/

/-- Pointers and signs follow the definitions of a block exactly if every step of the pass keeps to
them: it reads its source, it clears what it redefines, and it hides no definition. -/
theorem propagation_follows_iff (ssa : Ssa) (b : SsaBlockInfo) (t t' : Types) :
    (Follows ptrEvidence ssa b (ptrRun ssa b t) ↔
      ∀ k < b.insnCount, PtrStepOk ssa (ptrStateAt ssa b t k) (b.firstInsn + k)) ∧
    (Follows signEvidence ssa b (signRun ssa b t') ↔
      ∀ k < b.insnCount, SignStepOk ssa (signStateAt ssa b t' k) (b.firstInsn + k)) := by
  refine ⟨?_, ?_⟩
  · rw [follows_iff_stepRight (fun _ => rfl) fun k _ hj => ptrStep_frame hj]
    exact forall₂_congr fun k _ => ptrStep_right_iff
  · rw [follows_iff_stepRight (fun _ => rfl) fun k _ hj => signStep_frame hj]
    exact forall₂_congr fun k _ => signStep_right_iff

/-- `addi r3, r5, 4` and `mr r6, r3`, after the address of a symbol has been put into `r3`. -/
def overwrittenPointer : Ssa where
  insns := [decodedInsn 0 0x3C608000, decodedInsn 4 0x38650004, decodedInsn 8 0x7C661B78]
  blocks := [{ firstInsn := 0, insnCount := 3 }]

/-- The types before the propagation: the first instruction is a pointer. -/
def overwrittenTypes : Types where
  insnType i := if i = 0 then { kind := .ptr, width := 4, ptrToSym := some "table" } else tiInt 4

/-- The `mr` is given the pointer that the `addi` has overwritten. -/
theorem not_follows_overwrittenPointer : ¬ ∀ (ssa : Ssa) (b : SsaBlockInfo) (t t' : Types),
    Follows ptrEvidence ssa b (ptrRun ssa b t) ∧ Follows signEvidence ssa b (signRun ssa b t') := by
  intro h
  have hGiven := (h overwrittenPointer { firstInsn := 0, insnCount := 3 } overwrittenTypes
    {}).1.given 2 (by decide)
  exact absurd hGiven (by decide)

end Calynda.Decompiler.Typing
