import Calynda.Decompiler.Types

/-!
# Parameters and registers

A call hands the types of a signature to registers: first to the integer registers of its mask, in
order, then to the float registers of its mask, with one count of the parameters for both. By the
convention integer and float parameters are counted apart, and the masks do not matter.
-/

namespace Calynda.Decompiler.Typing

open Decompiler.Ssa (RegKind)

/-! ## The convention -/

def isFloatParam (ty : TypeInfo) : Bool := ty.kind = .float

/-- The register that carries parameter `j`. -/
def carrier (params : List TypeInfo) (j : Nat) : RegKind × Nat :=
  if isFloatParam (params.getD j {}) then (.fpr, 1 + (params.take j).countP isFloatParam)
  else (.gpr, 3 + (params.take j).countP (fun ty => !isFloatParam ty))

/-! ## What a call merges -/

def defines (reg : RegKind × Nat) (si : SsaInsn) : Bool :=
  match reg.1 with
  | .gpr => definesGpr reg.2 si
  | .fpr => definesFpr reg.2 si

/-- The last definition of a register in the block before the call. -/
def definition (ssa : Ssa) (b : SsaBlockInfo) (callIdx : Nat) (reg : RegKind × Nat) : Option Nat :=
  lastBefore (fun k => defines reg (ssa.insn k)) b.firstInsn callIdx

/-- The registers of a mask, in order. -/
def handed (kind : RegKind) (first : Nat) (mask : BitVec 8) : List (RegKind × Nat) :=
  ((List.range 8).filter mask.getLsbD).map fun k => (kind, first + k)

/-- The registers with the parameters they are handed, and the places of these. -/
def assignments (gprMask fprMask : BitVec 8) (params : List TypeInfo) :
    List ((RegKind × Nat) × TypeInfo × Nat) :=
  (handed .gpr 3 gprMask).zip params.zipIdx ++
    (handed .fpr 1 fprMask).zip (params.zipIdx.drop (handed .gpr 3 gprMask).length)

/-- The instructions into which a call merges parameter types, with the places of these. -/
def argMerges (ssa : Ssa) (b : SsaBlockInfo) (callIdx : Nat) (gprMask fprMask : BitVec 8)
    (params : List TypeInfo) : List (Nat × TypeInfo × Nat) :=
  (assignments gprMask fprMask params).filterMap fun a =>
    (definition ssa b callIdx a.1).map (·, a.2)

/-- Each parameter type is merged only into the definition of the register that carries it. -/
def MergedIntoCarriers (ssa : Ssa) (b : SsaBlockInfo) (callIdx : Nat) (gprMask fprMask : BitVec 8)
    (params : List TypeInfo) : Prop :=
  ∀ m ∈ argMerges ssa b callIdx gprMask fprMask params,
    definition ssa b callIdx (carrier params m.2.2) = some m.1

/-- Every integer register that is handed a parameter and defined before the call comes after no
register that the mask lacks and no float parameter; every float register that is handed one and
defined has a float parameter, and as many float parameters before it as float registers. -/
structure MasksFit (ssa : Ssa) (b : SsaBlockInfo) (callIdx : Nat) (gprMask fprMask : BitVec 8)
    (params : List TypeInfo) : Prop where
  gpr : ∀ j < params.length, ∀ reg, (handed .gpr 3 gprMask)[j]? = some reg →
    (definition ssa b callIdx reg).isSome →
      ∀ i ≤ j, gprMask.getLsbD i = true ∧ isFloatParam (params.getD i {}) = false
  fpr : ∀ j < params.length, ∀ i r, j = (handed .gpr 3 gprMask).length + i →
    (handed .fpr 1 fprMask)[i]? = some (.fpr, r) → (definition ssa b callIdx (.fpr, r)).isSome →
      isFloatParam (params.getD j {}) = true ∧ r = 1 + (params.take j).countP isFloatParam

/-- The effects are those of the table, as the form is built. -/
def EffectsByTable (ssa : Ssa) : Prop := ∀ i, (ssa.insn i).effects = computeInsnEffects (ssa.insn i).insn

/-! ## The pass makes these merges -/

section Pass

variable {ssa : Ssa} {b : SsaBlockInfo} {callIdx : Nat}

def applyAssignment (ssa : Ssa) (b : SsaBlockInfo) (callIdx : Nat) (t : Types)
    (a : (RegKind × Nat) × TypeInfo × Nat) : Types :=
  applyArgType ssa b callIdx t (defines a.1) a.2.1

theorem foldl_applyAssignment (l : List ((RegKind × Nat) × TypeInfo × Nat)) (t : Types) :
    l.foldl (applyAssignment ssa b callIdx) t =
      (l.filterMap fun a => (definition ssa b callIdx a.1).map (·, a.2)).foldl
        (fun t m => t.mergeInsn m.1 m.2.1) t := by
  induction l generalizing t with
  | nil => rfl
  | cons a l ih =>
    rw [List.foldl_cons, ih, List.filterMap_cons]
    cases hDef : definition ssa b callIdx a.1 with
    | none =>
      rw [definition] at hDef
      simp [applyAssignment, applyArgType, hDef]
    | some k =>
      rw [definition] at hDef
      simp [applyAssignment, applyArgType, hDef]

/-- The walk over the registers of one file, from any parameter on. -/
theorem applyArgs_walk (kind : RegKind) (first : Nat) (mask : BitVec 8) (params : List TypeInfo)
    (ks : List Nat) (t : Types) (pi : Nat) :
    ks.foldl (fun (s : Types × Nat) k =>
      match params[s.2]? with
      | none => (s.1, s.2)
      | some ty =>
        if mask.getLsbD k then
          (applyArgType ssa b callIdx s.1 (defines (kind, first + k)) ty, s.2 + 1)
        else (s.1, s.2)) (t, pi) =
      ((((ks.filter mask.getLsbD).map fun k => (kind, first + k)).zip (params.zipIdx.drop pi)).foldl
        (applyAssignment ssa b callIdx) t,
        pi + min (ks.filter mask.getLsbD).length (params.length - pi)) := by
  induction ks generalizing t pi with
  | nil => simp
  | cons k ks ih =>
    rw [List.foldl_cons]
    cases hParam : params[pi]? with
    | none =>
      have hLen := List.getElem?_eq_none_iff.1 hParam
      have hDrop : params.zipIdx.drop pi = [] := List.drop_eq_nil_of_le (by simpa using hLen)
      simp only
      rw [ih, hDrop]
      simp [Nat.sub_eq_zero_of_le hLen]
    | some ty =>
      obtain ⟨hLt, hGet⟩ := List.getElem?_eq_some_iff.1 hParam
      have hDrop : params.zipIdx.drop pi = (ty, pi) :: params.zipIdx.drop (pi + 1) := by
        rw [List.drop_eq_getElem_cons (by simpa using hLt)]
        simp [hGet]
      simp only
      by_cases hBit : mask.getLsbD k = true
      · rw [if_pos hBit, ih, List.filter_cons_of_pos hBit, hDrop, List.map_cons,
          List.zip_cons_cons, List.foldl_cons, List.length_cons]
        refine Prod.ext rfl ?_
        simp only
        omega
      · rw [if_neg hBit, ih, List.filter_cons_of_neg hBit]

theorem definesGpr_iff {r : Nat} {si : SsaInsn} :
    defines (.gpr, r) si = true ↔ si.effects.gprDef = some r := decide_eq_true_iff

theorem definesFpr_iff {r : Nat} {si : SsaInsn} :
    defines (.fpr, r) si = true ↔ si.effects.fprDef = some r := decide_eq_true_iff

theorem signatureStep_eq {syms : Option (List SymEntry)} {tab : List TypesExternSig}
    {cs : Decompiler.Ssa.SsaCallSite} {sig : TypesExternSig}
    (hCall : (ssa.insn callIdx).callSiteId.bind (ssa.calls[·]?) = some cs)
    (hSig : lookupSig tab cs.target (syms.bind (symLookup · cs.target)) = some sig) (t : Types) :
    signatureStep syms tab ssa b t callIdx =
      (argMerges ssa b callIdx cs.gprArgMask cs.fprArgMask sig.params).foldl
        (fun t m => t.mergeInsn m.1 m.2.1)
        (if cs.returnsGpr || cs.returnsFpr then t.mergeInsn callIdx sig.returnType else t) := by
  have hGpr : ∀ t, applyArgs ssa b callIdx 3 cs.gprArgMask definesGpr sig.params (t, 0) = _ :=
    fun t => applyArgs_walk .gpr 3 cs.gprArgMask sig.params (List.range 8) t 0
  have hFpr : ∀ t pi, applyArgs ssa b callIdx 1 cs.fprArgMask definesFpr sig.params (t, pi) = _ :=
    fun t pi => applyArgs_walk .fpr 1 cs.fprArgMask sig.params (List.range 8) t pi
  have hDrop : sig.params.zipIdx.drop
      (min ((List.range 8).filter cs.gprArgMask.getLsbD).length sig.params.length) =
      sig.params.zipIdx.drop ((List.range 8).filter cs.gprArgMask.getLsbD).length := by
    rcases Nat.le_total ((List.range 8).filter cs.gprArgMask.getLsbD).length sig.params.length
      with hLe | hLe
    · rw [Nat.min_eq_left hLe]
    · rw [Nat.min_eq_right hLe, List.drop_eq_nil_of_le (by simp),
        List.drop_eq_nil_of_le (by simpa using hLe)]
  rw [argMerges, ← foldl_applyAssignment, assignments, List.foldl_append, signatureStep, hCall]
  simp only [hSig, hGpr, hFpr, List.drop_zero, Nat.zero_add, Nat.sub_zero, hDrop]
  simp only [handed, List.length_map]

end Pass

/-! ## The registers are those of the convention -/

/-- A place in a mask comes at or before the register it has, and is that register exactly if no
earlier one is missing. -/
theorem getElem_filter_mask : ∀ mask : BitVec 8, ∀ j < 8,
    ∀ p ∈ ((List.range 8).filter mask.getLsbD)[j]?,
      j ≤ p ∧ (p = j ↔ ∀ i ≤ j, mask.getLsbD i = true) := by
  decide +kernel

theorem handed_getElem {kind : RegKind} {first j : Nat} {mask : BitVec 8} {reg : RegKind × Nat}
    (h : (handed kind first mask)[j]? = some reg) :
    ∃ p, reg = (kind, first + p) ∧ j ≤ p ∧ (p = j ↔ ∀ i ≤ j, mask.getLsbD i = true) := by
  rw [handed, List.getElem?_map, Option.map_eq_some_iff] at h
  obtain ⟨p, hp, rfl⟩ := h
  have hLt := (List.getElem?_eq_some_iff.1 hp).1
  have hLe := List.length_filter_le mask.getLsbD (List.range 8)
  rw [List.length_range] at hLe
  exact ⟨p, rfl, getElem_filter_mask mask j (by omega) p hp⟩

theorem mem_assignments {gprMask fprMask : BitVec 8} {params : List TypeInfo}
    {reg : RegKind × Nat} {ty : TypeInfo} {j : Nat} :
    (reg, ty, j) ∈ assignments gprMask fprMask params ↔ params[j]? = some ty ∧
      ((handed .gpr 3 gprMask)[j]? = some reg ∨
        ∃ i, j = (handed .gpr 3 gprMask).length + i ∧ (handed .fpr 1 fprMask)[i]? = some reg) := by
  rw [assignments, List.mem_append, List.mem_iff_getElem?, List.mem_iff_getElem?]
  simp only [List.getElem?_zip_eq_some, List.getElem?_drop, List.getElem?_zipIdx,
    Option.map_eq_some_iff, Prod.mk.injEq]
  constructor
  · rintro (⟨i, hReg, ty', hTy, rfl, rfl⟩ | ⟨i, hReg, ty', hTy, rfl, rfl⟩)
    · rw [Nat.zero_add]
      exact ⟨hTy, Or.inl hReg⟩
    · rw [Nat.zero_add]
      exact ⟨hTy, Or.inr ⟨i, rfl, hReg⟩⟩
  · rintro ⟨hTy, hReg | ⟨i, rfl, hReg⟩⟩
    · exact Or.inl ⟨j, hReg, ty, hTy, by simp⟩
    · exact Or.inr ⟨i, hReg, ty, hTy, by simp⟩

/-- No instruction of the table writes two registers. -/
theorem eq_of_defines {si : SsaInsn} (h : si.effects = computeInsnEffects si.insn)
    {reg reg' : RegKind × Nat} (hReg : defines reg si = true) (hReg' : defines reg' si = true) :
    reg = reg' := by
  have hOne : si.effects.gprDef = none ∨ si.effects.fprDef = none := by
    rw [h]
    unfold computeInsnEffects
    split <;> simp
  obtain ⟨kind, r⟩ := reg
  obtain ⟨kind', r'⟩ := reg'
  cases kind <;> cases kind' <;> simp only [definesGpr_iff, definesFpr_iff] at hReg hReg'
  · rw [Option.some.inj (hReg.symm.trans hReg')]
  · simp [hReg, hReg'] at hOne
  · simp [hReg, hReg'] at hOne
  · rw [Option.some.inj (hReg.symm.trans hReg')]

theorem lastBefore_eq_some {p : Nat → Bool} {first : Nat} : ∀ {k j : Nat},
    lastBefore p first k = some j → p j = true
  | k + 1, j, h => by
    rw [lastBefore] at h
    split_ifs at h with hFirst hp
    · cases h
      exact hp
    · exact lastBefore_eq_some h

theorem eq_of_definition {ssa : Ssa} (hEffects : EffectsByTable ssa) {b : SsaBlockInfo}
    {callIdx k : Nat} {reg reg' : RegKind × Nat} (h : definition ssa b callIdx reg = some k)
    (h' : definition ssa b callIdx reg' = some k) : reg = reg' :=
  eq_of_defines (hEffects k) (lastBefore_eq_some h) (lastBefore_eq_some h')

theorem countP_not_le (params : List TypeInfo) (j : Nat) :
    (params.take j).countP (fun ty => !isFloatParam ty) ≤ j :=
  List.countP_le_length.trans (List.length_take_le j params)

/-- All parameters before one are integers if they are counted in full. -/
theorem not_isFloatParam_of_countP {params : List TypeInfo} {j : Nat} (hj : j < params.length) :
    (params.take j).countP (fun ty => !isFloatParam ty) = j ↔
      ∀ i < j, isFloatParam (params.getD i {}) = false := by
  have hLen : (params.take j).length = j := by
    rw [List.length_take]
    omega
  constructor
  · intro h i hi
    have hAll := List.countP_eq_length.1 (h.trans hLen.symm)
    have hMem : params.getD i {} ∈ params.take j := by
      rw [List.getD_eq_getElem?_getD, List.getElem?_eq_getElem (by omega), Option.getD_some]
      exact List.mem_take_iff_getElem.2 ⟨i, by omega, rfl⟩
    simpa using hAll _ hMem
  · intro h
    refine (List.countP_eq_length.2 fun ty hTy => ?_).trans hLen
    obtain ⟨i, hi, rfl⟩ := List.getElem_of_mem hTy
    rw [List.length_take] at hi
    have hParam := h i (by omega)
    rw [List.getD_eq_getElem?_getD, List.getElem?_eq_getElem (by omega), Option.getD_some] at hParam
    simp [hParam]

theorem mergedIntoCarriers_iff {ssa : Ssa} (hEffects : EffectsByTable ssa) (b : SsaBlockInfo)
    (callIdx : Nat) (gprMask fprMask : BitVec 8) (params : List TypeInfo) :
    MergedIntoCarriers ssa b callIdx gprMask fprMask params ↔
      MasksFit ssa b callIdx gprMask fprMask params := by
  have hMerges : ∀ {reg ty j k}, (reg, ty, j) ∈ assignments gprMask fprMask params →
      definition ssa b callIdx reg = some k →
        (k, ty, j) ∈ argMerges ssa b callIdx gprMask fprMask params := by
    intro reg ty j k hMem hDef
    exact List.mem_filterMap.2 ⟨_, hMem, by rw [hDef]; rfl⟩
  constructor
  · intro h
    refine ⟨fun j hj reg hReg hDef => ?_, fun j hj i r hEq hReg hDef => ?_⟩
    · obtain ⟨k, hk⟩ := Option.isSome_iff_exists.1 hDef
      have hMem : (reg, params[j], j) ∈ assignments gprMask fprMask params :=
        mem_assignments.2 ⟨List.getElem?_eq_getElem hj, Or.inl hReg⟩
      have hCarrier := eq_of_definition hEffects hk (h _ (hMerges hMem hk))
      obtain ⟨p, rfl, hle, hBits⟩ := handed_getElem hReg
      simp only [carrier] at hCarrier
      split_ifs at hCarrier with hFloat
      · cases hCarrier
      · have hCount := countP_not_le params j
        have hp : 3 + p = 3 + (params.take j).countP fun ty => !isFloatParam ty :=
          congrArg Prod.snd hCarrier
        have hAll := (not_isFloatParam_of_countP hj).1 (by omega)
        intro i hi
        refine ⟨hBits.1 (by omega) i hi, ?_⟩
        rcases Nat.lt_or_eq_of_le hi with hi | rfl
        · exact hAll i hi
        · simpa using hFloat
    · obtain ⟨k, hk⟩ := Option.isSome_iff_exists.1 hDef
      have hMem : ((RegKind.fpr, r), params[j], j) ∈ assignments gprMask fprMask params :=
        mem_assignments.2 ⟨List.getElem?_eq_getElem hj, Or.inr ⟨i, hEq, hReg⟩⟩
      have hCarrier := eq_of_definition hEffects hk (h _ (hMerges hMem hk))
      simp only [carrier] at hCarrier
      split_ifs at hCarrier with hFloat
      · exact ⟨hFloat, congrArg Prod.snd hCarrier⟩
      · cases hCarrier
  · rintro h ⟨k, ty, j⟩ hMerge
    obtain ⟨⟨reg, ty', j'⟩, hMem, hMap⟩ := List.mem_filterMap.1 hMerge
    obtain ⟨k', hDef, hEq⟩ := Option.map_eq_some_iff.1 hMap
    cases hEq
    obtain ⟨hTy, hReg⟩ := mem_assignments.1 hMem
    have hj := (List.getElem?_eq_some_iff.1 hTy).1
    have hSome : (definition ssa b callIdx reg).isSome := by rw [hDef]; rfl
    show definition ssa b callIdx (carrier params j) = some k
    rcases hReg with hReg | ⟨i, hEq, hReg⟩
    · have hFit := h.gpr j hj reg hReg hSome
      obtain ⟨p, rfl, -, hBits⟩ := handed_getElem hReg
      have hp := hBits.2 fun i hi => (hFit i hi).1
      have hAll := (not_isFloatParam_of_countP hj).2 fun i hi => (hFit i hi.le).2
      have hInt : ¬isFloatParam (params.getD j {}) = true := by
        rw [(hFit j le_rfl).2]
        exact Bool.false_ne_true
      rw [carrier, if_neg hInt, hAll, ← hp]
      exact hDef
    · obtain ⟨p, rfl, -, -⟩ := handed_getElem hReg
      obtain ⟨hFloat, hr⟩ := h.fpr j hj i _ hEq hReg hSome
      rw [carrier, if_pos hFloat, ← hr]
      exact hDef

/-- A call merges each parameter type only where the register that carries the parameter is defined,
exactly if its masks and the kinds of its parameters fit. -/
theorem signatureStep_carriers_iff {ssa : Ssa} (hEffects : EffectsByTable ssa)
    {syms : Option (List SymEntry)} {tab : List TypesExternSig} (b : SsaBlockInfo) {callIdx : Nat}
    {cs : Decompiler.Ssa.SsaCallSite} {sig : TypesExternSig}
    (hCall : (ssa.insn callIdx).callSiteId.bind (ssa.calls[·]?) = some cs)
    (hSig : lookupSig tab cs.target (syms.bind (symLookup · cs.target)) = some sig) (t : Types) :
    signatureStep syms tab ssa b t callIdx =
      (argMerges ssa b callIdx cs.gprArgMask cs.fprArgMask sig.params).foldl
        (fun t m => t.mergeInsn m.1 m.2.1)
        (if cs.returnsGpr || cs.returnsFpr then t.mergeInsn callIdx sig.returnType else t) ∧
    (MergedIntoCarriers ssa b callIdx cs.gprArgMask cs.fprArgMask sig.params ↔
      MasksFit ssa b callIdx cs.gprArgMask cs.fprArgMask sig.params) :=
  ⟨signatureStep_eq hCall hSig t, mergedIntoCarriers_iff hEffects b callIdx _ _ _⟩

def floatSite : Decompiler.Ssa.SsaCallSite :=
  { insnIndex := 2, target := 0x80004018, gprArgMask := 1, fprArgMask := 1
    returnsGpr := false, returnsFpr := false }

/-- `addi r3, 0, 5`, `lfs f1, 0(r2)` and a call of a function of one float. -/
def floatCall : Ssa where
  insns := [decodedInsn 0x80004000 0x38600005, decodedInsn 0x80004004 0xC0220000,
    { decodedInsn 0x80004008 0x48000011 with callSiteId := some 0 }]
  blocks := [{ firstInsn := 0, insnCount := 3 }]
  calls := [floatSite]

def floatSig : TypesExternSig :=
  { name := some "sqrtf", vaddr := 0x80004018, returnType := tiFloat 4, params := [tiFloat 4] }

theorem floatCall_effects : EffectsByTable floatCall
  | 0 | 1 | 2 | _ + 3 => rfl

theorem floatCall_call :
    (floatCall.insn 2).callSiteId.bind (floatCall.calls[·]?) = some floatSite := rfl

theorem floatCall_sig : lookupSig [floatSig] floatSite.target
    (Option.bind (none : Option (List SymEntry)) (symLookup · floatSite.target)) = some floatSig := by
  decide +kernel

theorem signatureStep_carriers_iff_floatCall :
    MergedIntoCarriers floatCall { firstInsn := 0, insnCount := 3 } 2 1 1 [tiFloat 4] ↔
      MasksFit floatCall { firstInsn := 0, insnCount := 3 } 2 1 1 [tiFloat 4] :=
  (signatureStep_carriers_iff floatCall_effects { firstInsn := 0, insnCount := 3 }
    floatCall_call floatCall_sig {}).2

/-- The float goes to the definition of the integer register that the mask has, too. -/
theorem not_mergedIntoCarriers_floatCall :
    ¬MergedIntoCarriers floatCall { firstInsn := 0, insnCount := 3 } 2 1 1 [tiFloat 4] ∧
      ((typesPassSignature none [floatSig] floatCall {}).insnType 0).kind = .float :=
  ⟨fun h => absurd (h (0, tiFloat 4, 0) (by decide +kernel)) (by decide +kernel), by decide +kernel⟩

end Calynda.Decompiler.Typing
