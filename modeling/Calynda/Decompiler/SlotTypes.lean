import Calynda.Decompiler.TypeMerge

/-!
# Slots and their accesses

The last pass goes once over the instructions, and each access and its slot take the other's evidence.
An access keeps what the slot said then: it agrees with the slot in the end exactly if no later
access brings anything that the slot and its first access do not say.
-/

namespace Calynda.Decompiler.Typing

/-! ## Agreement -/

def TypeInfo.verdict (t : TypeInfo) : TypeKind × Signedness × Bool := (t.kind, t.sign, t.conflict)

/-- Every access says what its slot says, and the conflicts are counted. -/
def SlotsAgree (ssa : Ssa) (t : Types) : Prop :=
  (∀ i < ssa.insns.length, ∀ s, (ssa.insn i).slotId = some s →
    (t.insnType i).verdict = (t.slotType s).verdict) ∧
  t.conflicts = countConflicts t.insnType ssa.insns.length +
    countConflicts t.slotType ssa.slotCount + countConflicts t.phiType ssa.phiCount

/-- The accesses of a slot, in order. -/
def accesses (ssa : Ssa) (s : Nat) : List Nat :=
  (List.range ssa.insns.length).filter fun i => (ssa.insn i).slotId = some s

/-- The evidence `a` brings nothing that `m` does not say. -/
structure BringsNothing (m a : TypeInfo) : Prop where
  kind : a.kind = .unknown ∨ a.kind = m.kind ∨ a.kind = .int ∧ m.kind = .ptr ∨
    a.kind.IsFloatOrVoid ∧ m.kind = .int ∧ m.conflict = true
  sign : a.sign = .unknown ∨ a.sign = m.sign ∨
    a.sign = .signed ∧ m.sign = .unsigned ∧ m.conflict = true
  flag : a.conflict = true → m.conflict = true

/-- The first access is no float or void access of a pointer, and with it the slot says all that the
later ones do. -/
def SlotSettled (ssa : Ssa) (t : Types) (s : Nat) : Prop :=
  match accesses ssa s with
  | [] => True
  | i :: later =>
    ¬((t.slotType s).kind = .ptr ∧ (t.insnType i).kind.IsFloatOrVoid) ∧
      ∀ j ∈ later, BringsNothing (typesMerge (t.slotType s) (t.insnType i)) (t.insnType j)

/-! ## Merging verdicts -/

abbrev Verdict := TypeKind × Signedness × Bool

def mergeVerdict (a b : Verdict) : Verdict :=
  ((mergeKind a.1 b.1).1, (mergeSign a.2.1 b.2.1).1,
    a.2.2 || (mergeKind a.1 b.1).2 || (mergeSign a.2.1 b.2.1).2 || b.2.2)

theorem verdict_typesMerge (a b : TypeInfo) :
    (typesMerge a b).verdict = mergeVerdict a.verdict b.verdict := rfl

/-- What the slot says once it has met an access. -/
def slotAfter (s a : Verdict) : Verdict := mergeVerdict s (mergeVerdict a s)

def TypeKind.rank : TypeKind → Nat
  | .unknown => 0
  | .float | .void => 1
  | .int => 2
  | .ptr => 3

def Signedness.rank : Signedness → Nat
  | .unknown => 0
  | .signed => 1
  | .unsigned => 2

def rank (v : Verdict) : Nat := v.1.rank + v.2.1.rank + v.2.2.toNat

/-- A slot only gains evidence. -/
theorem slotAfter_eq_or_rank_lt : ∀ s a, slotAfter s a = s ∨ rank s < rank (slotAfter s a) := by
  decide +kernel

theorem mergeVerdict_self : ∀ v, mergeVerdict v v = v := by
  decide +kernel

/-- But for a float or void access of a pointer, slot and access agree once they have met. -/
theorem meet_agrees : ∀ s a : Verdict, ¬(s.1 = .ptr ∧ a.1.IsFloatOrVoid) →
    mergeVerdict a s = mergeVerdict s a ∧ slotAfter s a = mergeVerdict s a := by
  decide +kernel

theorem meet_clash : ∀ s a : Verdict, s.1 = .ptr → a.1.IsFloatOrVoid →
    (mergeVerdict a s).1 = .int := by
  decide +kernel

theorem slotAfter_ptr : ∀ s a : Verdict, s.1 = .ptr → (slotAfter s a).1 = .ptr := by
  decide +kernel

def VerdictBringsNothing (m a : Verdict) : Prop :=
  (a.1 = .unknown ∨ a.1 = m.1 ∨ a.1 = .int ∧ m.1 = .ptr ∨
    a.1.IsFloatOrVoid ∧ m.1 = .int ∧ m.2.2 = true) ∧
  (a.2.1 = .unknown ∨ a.2.1 = m.2.1 ∨ a.2.1 = .signed ∧ m.2.1 = .unsigned ∧ m.2.2 = true) ∧
  (a.2.2 = true → m.2.2 = true)

instance (m a : Verdict) : Decidable (VerdictBringsNothing m a) :=
  inferInstanceAs (Decidable ((_ ∨ _ ∨ _ ∧ _ ∨ _ ∧ _ ∧ _) ∧ (_ ∨ _ ∨ _ ∧ _ ∧ _) ∧ (_ → _)))

theorem mergeVerdict_eq_iff : ∀ a m, mergeVerdict a m = m ↔ VerdictBringsNothing m a := by
  decide +kernel

theorem bringsNothing_iff (m a : TypeInfo) :
    BringsNothing m a ↔ mergeVerdict a.verdict m.verdict = m.verdict := by
  rw [mergeVerdict_eq_iff]
  exact ⟨fun h => ⟨h.kind, h.sign, h.flag⟩, fun h => ⟨h.1, h.2.1, h.2.2⟩⟩

/-! ## One slot of a run -/

section Run

variable {ssa : Ssa} {s : Nat} {t : Types}

theorem conflictStep_eq {i : Nat} (hi : (ssa.insn i).slotId = some s) (t : Types) :
    conflictStep ssa t i =
      { t with
        insnType := Function.update t.insnType i (typesMerge (t.insnType i) (t.slotType s))
        slotType := Function.update t.slotType s
          (typesMerge (t.slotType s) (typesMerge (t.insnType i) (t.slotType s))) } := by
  simp [conflictStep, hi, Types.mergeInsn, Types.mergeSlot]

/-- Two states that agree on a slot and on its accesses. -/
structure SameSlot (ssa : Ssa) (s : Nat) (t t' : Types) : Prop where
  slot : t.slotType s = t'.slotType s
  insn : ∀ i, (ssa.insn i).slotId = some s → t.insnType i = t'.insnType i

/-- Only the accesses of a slot matter to it. -/
theorem SameSlot.foldl_filter : ∀ {l : List Nat} {t t' : Types}, SameSlot ssa s t t' →
    SameSlot ssa s (l.foldl (conflictStep ssa) t)
      ((l.filter fun i => (ssa.insn i).slotId = some s).foldl (conflictStep ssa) t')
  | [], _, _, h => h
  | i :: l, t, t', h => by
    by_cases hi : (ssa.insn i).slotId = some s
    · rw [List.filter_cons_of_pos (by simpa using hi), List.foldl_cons, List.foldl_cons]
      refine SameSlot.foldl_filter ⟨?_, fun j hj => ?_⟩
      · simp [conflictStep_eq hi, h.slot, h.insn i hi]
      · rw [conflictStep_eq hi, conflictStep_eq hi]
        by_cases hij : j = i
        · subst hij
          simp [h.slot, h.insn j hj]
        · simp [hij, h.insn j hj]
    · rw [List.filter_cons_of_neg (by simpa using hi), List.foldl_cons]
      refine SameSlot.foldl_filter ⟨?_, fun j hj => ?_⟩
      · cases hOther : (ssa.insn i).slotId with
        | none => simpa [conflictStep, hOther] using h.slot
        | some s' =>
          have hNe : s ≠ s' := fun hEq => hi (hEq ▸ hOther)
          simpa [conflictStep_eq hOther, hNe] using h.slot
      · cases hOther : (ssa.insn i).slotId with
        | none => simpa [conflictStep, hOther] using h.insn j hj
        | some s' =>
          have hNe : j ≠ i := fun hEq => hi (hEq ▸ hj)
          simpa [conflictStep_eq hOther, hNe] using h.insn j hj

/-- An instruction that the run does not come to keeps its type. -/
theorem insnType_foldl_of_notMem {i : Nat} : ∀ {l : List Nat} {t : Types}, i ∉ l →
    (l.foldl (conflictStep ssa) t).insnType i = t.insnType i
  | [], _, _ => rfl
  | j :: l, t, h => by
    rw [List.mem_cons, not_or] at h
    rw [List.foldl_cons, insnType_foldl_of_notMem h.2]
    cases hj : (ssa.insn j).slotId with
    | none => simp [conflictStep, hj]
    | some s => simp [conflictStep_eq hj, h.1]

theorem insnType_conflictStep_of_mem {i j : Nat} {l : List Nat} {t : Types} (h : i ∉ l)
    (hj : j ∈ l) : (conflictStep ssa t i).insnType j = t.insnType j :=
  insnType_foldl_of_notMem (l := [i]) (by
    rw [List.mem_singleton]
    rintro rfl
    exact h hj)

theorem verdict_slot_step {i : Nat} (hi : (ssa.insn i).slotId = some s) (t : Types) :
    ((conflictStep ssa t i).slotType s).verdict =
      slotAfter (t.slotType s).verdict (t.insnType i).verdict := by
  rw [conflictStep_eq hi, slotAfter, ← verdict_typesMerge, ← verdict_typesMerge]
  simp

theorem verdict_insn_step {i : Nat} (hi : (ssa.insn i).slotId = some s) (t : Types) :
    ((conflictStep ssa t i).insnType i).verdict =
      mergeVerdict (t.insnType i).verdict (t.slotType s).verdict := by
  rw [conflictStep_eq hi, ← verdict_typesMerge]
  simp

/-- Where each access brings nothing, all end with what the slot says. -/
theorem agree_of_bringsNothing {v : Verdict} : ∀ {l : List Nat} {t : Types}, l.Nodup →
    (∀ i ∈ l, (ssa.insn i).slotId = some s) → (t.slotType s).verdict = v →
    (∀ i ∈ l, mergeVerdict (t.insnType i).verdict v = v) →
    ((l.foldl (conflictStep ssa) t).slotType s).verdict = v ∧
      ∀ i ∈ l, ((l.foldl (conflictStep ssa) t).insnType i).verdict = v
  | [], _, _, _, hSlot, _ => ⟨hSlot, fun _ h => nomatch h⟩
  | i :: l, t, hNodup, hAcc, hSlot, hNothing => by
    have hi := hAcc i List.mem_cons_self
    have hiNothing := hNothing i List.mem_cons_self
    obtain ⟨hNotMem, hNodup⟩ := List.nodup_cons.1 hNodup
    have hStep : ((conflictStep ssa t i).slotType s).verdict = v := by
      rw [verdict_slot_step hi, slotAfter, hSlot, hiNothing, mergeVerdict_self]
    have hKeeps : ∀ j ∈ l, (conflictStep ssa t i).insnType j = t.insnType j := fun _ =>
      insnType_conflictStep_of_mem hNotMem
    obtain ⟨hEnd, hAll⟩ := agree_of_bringsNothing hNodup
      (fun j hj => hAcc j (List.mem_cons_of_mem i hj)) hStep
      (fun j hj => by rw [hKeeps j hj]; exact hNothing j (List.mem_cons_of_mem i hj))
    refine ⟨hEnd, List.forall_mem_cons.2 ⟨?_, hAll⟩⟩
    rw [List.foldl_cons, insnType_foldl_of_notMem hNotMem, verdict_insn_step hi, hSlot, hiNothing]

theorem rank_le_foldl : ∀ {l : List Nat} {t : Types}, (∀ i ∈ l, (ssa.insn i).slotId = some s) →
    (rank (t.slotType s).verdict ≤ rank ((l.foldl (conflictStep ssa) t).slotType s).verdict) ∧
      ((t.slotType s).kind = .ptr → ((l.foldl (conflictStep ssa) t).slotType s).kind = .ptr)
  | [], _, _ => ⟨le_rfl, id⟩
  | i :: l, t, hAcc => by
    have hi := hAcc i List.mem_cons_self
    obtain ⟨hRank, hPtr⟩ := rank_le_foldl (t := conflictStep ssa t i)
      fun j hj => hAcc j (List.mem_cons_of_mem i hj)
    have hStep := slotAfter_eq_or_rank_lt (t.slotType s).verdict (t.insnType i).verdict
    rw [← verdict_slot_step hi] at hStep
    refine ⟨le_trans ?_ hRank, fun h => hPtr ?_⟩
    · rcases hStep with hStep | hStep
      · rw [hStep]
      · exact hStep.le
    · exact (congrArg Prod.fst (verdict_slot_step hi t)).trans (slotAfter_ptr _ _ h)

/-- Where all end with what the slot said at the start, each access brings nothing. -/
theorem bringsNothing_of_agree {v : Verdict} : ∀ {l : List Nat} {t : Types}, l.Nodup →
    (∀ i ∈ l, (ssa.insn i).slotId = some s) → (t.slotType s).verdict = v →
    ((l.foldl (conflictStep ssa) t).slotType s).verdict = v →
    (∀ i ∈ l, ((l.foldl (conflictStep ssa) t).insnType i).verdict = v) →
    ∀ i ∈ l, mergeVerdict (t.insnType i).verdict v = v
  | [], _, _, _, _, _, _ => fun _ h => nomatch h
  | i :: l, t, hNodup, hAcc, hSlot, hEnd, hAll => by
    have hi := hAcc i List.mem_cons_self
    have hAcc' := fun j hj => hAcc j (List.mem_cons_of_mem i hj)
    obtain ⟨hNotMem, hNodup⟩ := List.nodup_cons.1 hNodup
    have hRank := (rank_le_foldl (t := conflictStep ssa t i) hAcc').1
    rw [List.foldl_cons] at hEnd hAll
    rw [hEnd, verdict_slot_step hi, hSlot] at hRank
    have hStep : ((conflictStep ssa t i).slotType s).verdict = v := by
      rw [verdict_slot_step hi, hSlot]
      exact (slotAfter_eq_or_rank_lt v _).resolve_right hRank.not_gt
    have hKeeps : ∀ j ∈ l, (conflictStep ssa t i).insnType j = t.insnType j := fun _ =>
      insnType_conflictStep_of_mem hNotMem
    have hRest := bringsNothing_of_agree hNodup hAcc' hStep hEnd
      fun j hj => hAll j (List.mem_cons_of_mem i hj)
    refine List.forall_mem_cons.2 ⟨?_, fun j hj => hKeeps j hj ▸ hRest j hj⟩
    have hHead := hAll i List.mem_cons_self
    rwa [insnType_foldl_of_notMem hNotMem, verdict_insn_step hi, hSlot] at hHead

end Run

/-! ## The pass -/

@[simp]
theorem verdict_normalizeWidth (ti : TypeInfo) : (normalizeWidth ti).verdict = ti.verdict := by
  unfold normalizeWidth
  split_ifs <;> rfl

@[simp]
theorem conflict_normalizeWidth (ti : TypeInfo) : (normalizeWidth ti).conflict = ti.conflict :=
  congrArg (·.2.2) (verdict_normalizeWidth ti)

@[simp]
theorem conflict_normalizePhiWidth (ti : TypeInfo) :
    (normalizePhiWidth ti).conflict = ti.conflict := by
  unfold normalizePhiWidth
  split_ifs <;> rfl

theorem conflicts_typesPassConflict (ssa : Ssa) (t : Types) :
    (typesPassConflict ssa t).conflicts =
      countConflicts (typesPassConflict ssa t).insnType ssa.insns.length +
        countConflicts (typesPassConflict ssa t).slotType ssa.slotCount +
        countConflicts (typesPassConflict ssa t).phiType ssa.phiCount := by
  simp [typesPassConflict, countConflicts]

theorem mem_accesses {ssa : Ssa} {s i : Nat} :
    i ∈ accesses ssa s ↔ i < ssa.insns.length ∧ (ssa.insn i).slotId = some s := by
  simp [accesses]

theorem nodup_accesses (ssa : Ssa) (s : Nat) : (accesses ssa s).Nodup := List.nodup_range.filter _

/-- The accesses of a slot agree with it after they have gone over it in order. -/
theorem slotSettled_iff (ssa : Ssa) (t : Types) (s : Nat) :
    SlotSettled ssa t s ↔ ∀ i ∈ accesses ssa s,
      (((accesses ssa s).foldl (conflictStep ssa) t).insnType i).verdict =
        (((accesses ssa s).foldl (conflictStep ssa) t).slotType s).verdict := by
  have hNodup := nodup_accesses ssa s
  have hAcc : ∀ i ∈ accesses ssa s, (ssa.insn i).slotId = some s := fun i hi =>
    (mem_accesses.1 hi).2
  unfold SlotSettled
  cases hList : accesses ssa s with
  | nil => simp
  | cons i later =>
    rw [hList] at hNodup hAcc
    have hi := hAcc i List.mem_cons_self
    have hAcc' := fun j hj => hAcc j (List.mem_cons_of_mem i hj)
    obtain ⟨hNotMem, hNodup⟩ := List.nodup_cons.1 hNodup
    have hKeeps : ∀ j ∈ later, (conflictStep ssa t i).insnType j = t.insnType j := fun _ =>
      insnType_conflictStep_of_mem hNotMem
    have hHead : (((i :: later).foldl (conflictStep ssa) t).insnType i).verdict =
        mergeVerdict (t.insnType i).verdict (t.slotType s).verdict := by
      rw [List.foldl_cons, insnType_foldl_of_notMem hNotMem, verdict_insn_step hi]
    have hSlot := verdict_slot_step hi t
    simp only [bringsNothing_iff, verdict_typesMerge]
    constructor
    · rintro ⟨hFirst, hLater⟩
      obtain ⟨hMeet, hAfter⟩ := meet_agrees (t.slotType s).verdict (t.insnType i).verdict hFirst
      rw [hAfter] at hSlot
      obtain ⟨hEnd, hAll⟩ := agree_of_bringsNothing hNodup hAcc' hSlot
        (fun j hj => by rw [hKeeps j hj]; exact hLater j hj)
      refine List.forall_mem_cons.2 ⟨?_, fun j hj => (hAll j hj).trans hEnd.symm⟩
      rw [hHead, hMeet]
      exact hEnd.symm
    · intro hAgree
      obtain ⟨hAgreeHead, hAgreeLater⟩ := List.forall_mem_cons.1 hAgree
      rw [hHead] at hAgreeHead
      obtain ⟨hRank, hPtr⟩ := rank_le_foldl (t := conflictStep ssa t i) hAcc'
      have hFirst : ¬((t.slotType s).kind = .ptr ∧ (t.insnType i).kind.IsFloatOrVoid) := by
        rintro ⟨hKind, hFloat⟩
        have hStays := hPtr ((congrArg Prod.fst hSlot).trans (slotAfter_ptr _ _ hKind))
        have hInt := meet_clash (t.slotType s).verdict (t.insnType i).verdict hKind hFloat
        rw [hAgreeHead] at hInt
        exact absurd (hStays.symm.trans hInt) (by decide)
      obtain ⟨hMeet, hAfter⟩ := meet_agrees (t.slotType s).verdict (t.insnType i).verdict hFirst
      rw [hAfter] at hSlot
      rw [hMeet] at hAgreeHead
      refine ⟨hFirst, fun j hj => ?_⟩
      have hLater := bringsNothing_of_agree hNodup hAcc' hSlot hAgreeHead.symm
        (fun j hj => (hAgreeLater j hj).trans hAgreeHead.symm) j hj
      rwa [hKeeps j hj] at hLater

theorem slotsAgree_typesPassConflict (ssa : Ssa) (t : Types) :
    SlotsAgree ssa (typesPassConflict ssa t) ↔ ∀ s, SlotSettled ssa t s := by
  have hSelf : ∀ s, SameSlot ssa s t t := fun s => ⟨rfl, fun _ _ => rfl⟩
  have hSame := fun s => (hSelf s).foldl_filter (l := List.range ssa.insns.length)
  rw [SlotsAgree, and_iff_left (conflicts_typesPassConflict ssa t)]
  simp only [slotSettled_iff, mem_accesses, and_imp, typesPassConflict, verdict_normalizeWidth]
  constructor
  · intro h s i hi hs
    rw [accesses, ← (hSame s).insn i hs, ← (hSame s).slot]
    exact h i hi s hs
  · intro h i hi s hs
    have hAgree := h s i hi hs
    rwa [accesses, ← (hSame s).insn i hs, ← (hSame s).slot] at hAgree

/-- The types of the slots and of their accesses agree exactly if no later access of a slot brings
anything new before the last pass. -/
theorem typesBuild_slotsAgree_iff (ssa : Ssa) (syms : Option (List SymEntry))
    (tab : List TypesExternSig) :
    SlotsAgree ssa (typesBuild ssa syms tab) ↔
      ∀ s, SlotSettled ssa (typesBeforeConflict ssa syms tab) s :=
  slotsAgree_typesPassConflict ssa _

/-- `stw r3, 8(r1)` and `lwz r4, 8(r1)`. -/
def storeThenLoad : Ssa where
  insns := [{ decodedInsn 0x80004000 0x90610008 with slotId := some 0 },
    { decodedInsn 0x80004004 0x80810008 with slotId := some 0 }]
  blocks := [{ firstInsn := 0, insnCount := 2 }]
  slotCount := 1

/-- The load makes the slot unsigned, and the store before it is left without a sign. -/
theorem not_slotsAgree_storeThenLoad : ¬SlotsAgree storeThenLoad (typesBuild storeThenLoad none []) :=
  fun h => absurd (h.1 0 (by decide) 0 (by decide)) (by decide +kernel)

end Calynda.Decompiler.Typing
