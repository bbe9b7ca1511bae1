import Calynda.Decompiler.Ssa
import Mathlib.Data.Fintype.Prod

/-!
# Live registers

The live registers of a block are those that some path from its start uses before it defines
them, with paths over single instructions. The summaries of the blocks and the passes over the
edges compute exactly these, and so does the look-ahead behind a call.
-/

namespace Calynda.Decompiler.Ssa

open List

instance : Fintype RegKind := ⟨{.gpr, .fpr}, fun kind => by cases kind <;> decide⟩

/-! ## Paths through the code -/

/-- The instructions of a block by its index. -/
def blockCode (cfg : Cfg) (insns : List SsaInsn) (b : Nat) : List SsaInsn :=
  ((layoutBlocks 0 cfg.blocks)[b]?).elim [] fun info => info.code insns

/-- A block with the number of its instructions that lie behind. -/
abbrev CodePoint := Nat × Nat

/-- The index of an instruction in the flat array. -/
def insnIndex (cfg : Cfg) (p : CodePoint) : Nat :=
  ((layoutBlocks 0 cfg.blocks)[p.1]?).elim 0 (·.firstInsn) + p.2

def SsaInsn.Uses (i : SsaInsn) (kind : RegKind) (r : Nat) : Prop :=
  (i.effect kind).uses.getLsbD r = true

def SsaInsn.Defines (i : SsaInsn) (kind : RegKind) (r : Nat) : Prop :=
  (i.effect kind).def_.toNat = r

instance (i : SsaInsn) (kind : RegKind) (r : Nat) : Decidable (i.Uses kind r) :=
  inferInstanceAs (Decidable (_ = true))

instance (i : SsaInsn) (kind : RegKind) (r : Nat) : Decidable (i.Defines kind r) :=
  inferInstanceAs (Decidable (_ = r))

section Points

variable (cfg : Cfg) (insns : List SsaInsn) (kind : RegKind) (r : Nat)

def insnAt (p : CodePoint) : Option SsaInsn := (blockCode cfg insns p.1)[p.2]?

/-- Control goes behind the next instruction of the block, or from its end along an edge. -/
inductive CodeStep : CodePoint → CodePoint → Prop where
  | next {b k : Nat} (h : k < (blockCode cfg insns b).length) : CodeStep (b, k) (b, k + 1)
  | edge {b b' : Nat} (h : cfg.graph.Edge b b') (hLt : b' < cfg.blocks.length) :
      CodeStep (b, (blockCode cfg insns b).length) (b', 0)

def UsesAt (p : CodePoint) : Prop := ∃ i, insnAt cfg insns p = some i ∧ i.Uses kind r

def DefinesAt (p : CodePoint) : Prop := ∃ i, insnAt cfg insns p = some i ∧ i.Defines kind r

/-- Some path from a point uses the register with no definition before. -/
def LiveAt (p : CodePoint) : Prop :=
  DataFlow.Live (CodeStep cfg insns) (UsesAt cfg insns kind r) (DefinesAt cfg insns kind r) p

end Points

/-! ## Straight-line code -/

section Straight

variable {kind : RegKind} {r : Nat} {i : SsaInsn} {code rest : List SsaInsn}

/-- The code uses the register before it defines it. -/
def usedFirst (kind : RegKind) (r : Nat) : List SsaInsn → Bool
  | [] => false
  | i :: rest => i.Uses kind r || (!decide (i.Defines kind r) && usedFirst kind r rest)

def writesReg (kind : RegKind) (r : Nat) (code : List SsaInsn) : Bool :=
  code.any fun i => i.Defines kind r

theorem usedFirst_append :
    usedFirst kind r (code ++ rest) =
      (usedFirst kind r code || (!writesReg kind r code && usedFirst kind r rest)) := by
  induction code with
  | nil => simp [usedFirst, writesReg]
  | cons i code ih =>
    simp only [cons_append, usedFirst, ih, writesReg, any_cons]
    by_cases hUse : i.Uses kind r <;> by_cases hDef : i.Defines kind r <;> simp [hUse, hDef]

theorem writesReg_append :
    writesReg kind r (code ++ rest) = (writesReg kind r code || writesReg kind r rest) :=
  any_append

@[simp] theorem usedFirst_singleton : usedFirst kind r [i] = decide (i.Uses kind r) := by
  simp [usedFirst]

@[simp] theorem writesReg_singleton : writesReg kind r [i] = decide (i.Defines kind r) := by
  simp [writesReg]

theorem decide_uses : decide (i.Uses kind r) = (i.effect kind).uses.getLsbD r := by
  by_cases h : i.Uses kind r
  · rw [decide_eq_true h]
    exact h.symm
  · rw [decide_eq_false h]
    exact (Bool.eq_false_iff.mpr h).symm

theorem getLsbD_defMask (e : RegEffect) (hr : r < ssaMaxReg) :
    e.defMask.getLsbD r = decide (e.def_.toNat = r) := by
  unfold RegEffect.defMask
  have hr' : r < 32 := hr
  split
  · rename_i h
    have h' : e.def_.toNat < 32 := h
    rw [regBit, BitVec.getLsbD_twoPow]
    simp only [Bool.and_eq_decide]
    congr 1
    exact propext ⟨fun hh => by simpa using hh.2, fun hh => by simp [hh]; omega⟩
  · rename_i h
    rw [BitVec.ofNat_eq_ofNat, BitVec.getLsbD_zero, eq_comm, decide_eq_false_iff_not]
    rintro rfl
    exact h hr

theorem and_regBit_ne_zero (x : BitVec 64) (hr : r < 64) :
    (x &&& regBit r ≠ 0) ↔ x.getLsbD r = true := by
  rw [regBit, BitVec.and_twoPow]
  split
  · rename_i h
    simp only [h, iff_true]
    intro hZero
    have := congrArg (fun y => BitVec.getLsbD y r) hZero
    simp [hr] at this
  · rename_i h
    simp [h]

end Straight

/-! ## Summaries -/

/-- The register's last definition in the code that starts at an index. -/
def IsLastDef (kind : RegKind) (r : Nat) (code : List SsaInsn) (first : Nat) (v : BitVec 32) :
    Prop :=
  (v = ssaNoVal ∧ ∀ i ∈ code, ¬ i.Defines kind r) ∨
  ∃ k i, code[k]? = some i ∧ i.Defines kind r ∧
    (∀ j i', k < j → code[j]? = some i' → ¬ i'.Defines kind r) ∧ v = BitVec.ofNat 32 (first + k)

/-- A summary says of every register what the code does with it. -/
structure RegSummary.Describes (s : RegSummary) (kind : RegKind) (code : List SsaInsn)
    (first : Nat) : Prop where
  length_lastDef : s.lastDef.length = ssaMaxReg
  defs : ∀ r < ssaMaxReg, s.defs.getLsbD r = writesReg kind r code
  uses : ∀ r < ssaMaxReg, s.usesBeforeDef.getLsbD r = usedFirst kind r code
  lastDef : ∀ r < ssaMaxReg, IsLastDef kind r code first (s.lastDef.getD r 0)

section Summary

variable {kind : RegKind} {r : Nat} {i : SsaInsn} {code : List SsaInsn} {first : Nat}
  {s : RegSummary} {v : BitVec 32}

theorem IsLastDef.append_other (h : IsLastDef kind r code first v) (hOther : ¬ i.Defines kind r) :
    IsLastDef kind r (code ++ [i]) first v := by
  rcases h with ⟨hv, hNone⟩ | ⟨k, j, hk, hDef, hAfter, hv⟩
  · refine .inl ⟨hv, fun j hj => ?_⟩
    rcases mem_append.mp hj with hj | hj
    · exact hNone j hj
    · rwa [mem_singleton.mp hj]
  · have hLt : k < code.length := (List.getElem?_eq_some_iff.mp hk).1
    refine .inr ⟨k, j, by rwa [List.getElem?_append_left hLt], hDef, fun m j' hm hj' => ?_, hv⟩
    by_cases hmLt : m < code.length
    · rw [List.getElem?_append_left hmLt] at hj'
      exact hAfter m j' hm hj'
    · rw [List.getElem?_append_right (Nat.not_lt.mp hmLt)] at hj'
      have hMem := mem_of_getElem? hj'
      rwa [mem_singleton.mp hMem]

theorem IsLastDef.append_self (hDef : i.Defines kind r) :
    IsLastDef kind r (code ++ [i]) first (BitVec.ofNat 32 (first + code.length)) := by
  refine .inr ⟨code.length, i, by simp, hDef, fun m j hm hj => ?_, rfl⟩
  rw [List.getElem?_eq_none (by simp; omega)] at hj
  cases hj

theorem describes_summarizeInsn (h : s.Describes kind code first) (i : SsaInsn) :
    (summarizeInsn s (i.effect kind) (first + code.length)).Describes kind (code ++ [i]) first where
  length_lastDef := by
    simp only [summarizeInsn]
    split <;> simp [h.length_lastDef]
  defs r hr := by
    simp only [summarizeInsn, BitVec.getLsbD_or, h.defs r hr, getLsbD_defMask _ hr,
      writesReg_append, writesReg_singleton]
    rfl
  uses r hr := by
    have hr' : r < 64 := Nat.lt_of_lt_of_le hr (by decide)
    simp only [summarizeInsn, BitVec.getLsbD_or, BitVec.getLsbD_and, BitVec.getLsbD_not, hr',
      decide_true, Bool.true_and, h.defs r hr, h.uses r hr, usedFirst_append, usedFirst_singleton]
    rw [Bool.and_comm]
    rw [decide_uses]
  lastDef r hr := by
    simp only [summarizeInsn]
    by_cases hDef : i.Defines kind r
    · have hLt : (i.effect kind).def_.toNat < ssaMaxReg := by rwa [hDef]
      rw [if_pos hLt, hDef, getD_set_self (by rwa [h.length_lastDef])]
      exact .append_self hDef
    · split
      · rw [getD_set_of_ne hDef]
        exact (h.lastDef r hr).append_other hDef
      · exact (h.lastDef r hr).append_other hDef

theorem describes_summarizeKind (insns : List SsaInsn) {b : SsaBlockInfo}
    (hFresh : (b.summary kind).lastDef = List.replicate ssaMaxReg ssaNoVal) :
    (summarizeKind kind insns b).Describes kind (b.code insns) b.firstInsn := by
  have hLoop : ∀ n, ((List.range n).foldl (fun s k =>
      summarizeInsn s ((insns.getD (b.firstInsn + k) default).effect kind) (b.firstInsn + k))
      { b.summary kind with defs := 0, usesBeforeDef := 0 }).Describes kind
        ((List.range n).map fun k => insns.getD (b.firstInsn + k) default) b.firstInsn := by
    intro n
    induction n with
    | zero =>
      refine ⟨by simp [hFresh], fun r _ => by simp [writesReg], fun r _ => by simp [usedFirst],
        fun r hr => .inl ⟨?_, by simp⟩⟩
      simp only [hFresh, range_zero, foldl_nil]
      rw [getD_eq_getElem _ _ (by rwa [length_replicate]), List.getElem_replicate]
    | succ n ih =>
      have hStep := describes_summarizeInsn ih (insns.getD (b.firstInsn + n) default)
      rw [length_map, length_range] at hStep
      rw [range_succ, foldl_append, map_append]
      exact hStep
  have h := hLoop b.insnCount
  exact ⟨h.length_lastDef, h.defs, h.uses, h.lastDef⟩

end Summary

/-! ## Liveness along the blocks -/

section Paths

variable {cfg : Cfg} {insns : List SsaInsn} {kind : RegKind} {r b k : Nat}

theorem liveAt_end :
    LiveAt cfg insns kind r (b, (blockCode cfg insns b).length) ↔
      ∃ b', cfg.graph.Edge b b' ∧ b' < cfg.blocks.length ∧ LiveAt cfg insns kind r (b', 0) := by
  have hNone : insnAt cfg insns (b, (blockCode cfg insns b).length) = none :=
    List.getElem?_eq_none (Nat.le_refl _)
  rw [LiveAt, DataFlow.live_iff]
  constructor
  · rintro (⟨i, hi, -⟩ | ⟨-, q, hStep, hLive⟩)
    · exact nomatch hNone.symm.trans hi
    · generalize hp : (b, (blockCode cfg insns b).length) = p at hStep
      cases hStep with
      | next h =>
        cases hp
        exact absurd h (Nat.lt_irrefl _)
      | edge h hLt =>
        cases hp
        exact ⟨_, h, hLt, hLive⟩
  · rintro ⟨b', hEdge, hLt, hLive⟩
    refine .inr ⟨?_, (b', 0), .edge hEdge hLt, hLive⟩
    rintro ⟨i, hi, -⟩
    exact nomatch hNone.symm.trans hi

theorem liveAt_insn {i : SsaInsn} (hi : insnAt cfg insns (b, k) = some i) :
    LiveAt cfg insns kind r (b, k) ↔
      i.Uses kind r ∨ ¬ i.Defines kind r ∧ LiveAt cfg insns kind r (b, k + 1) := by
  have hLt : k < (blockCode cfg insns b).length := (List.getElem?_eq_some_iff.mp hi).1
  have hUses : UsesAt cfg insns kind r (b, k) ↔ i.Uses kind r := by
    simp only [UsesAt, hi, Option.some.injEq, exists_eq_left']
  have hDefines : DefinesAt cfg insns kind r (b, k) ↔ i.Defines kind r := by
    simp only [DefinesAt, hi, Option.some.injEq, exists_eq_left']
  rw [LiveAt, DataFlow.live_iff, hUses, hDefines]
  refine or_congr Iff.rfl (and_congr Iff.rfl ⟨?_, fun h => ⟨_, .next hLt, h⟩⟩)
  rintro ⟨q, hStep, hLive⟩
  generalize hp : (b, k) = p at hStep
  cases hStep with
  | next h =>
    cases hp
    exact hLive
  | edge h hLt' =>
    cases hp
    exact absurd hLt (Nat.lt_irrefl _)

/-- Within a block: used first, or not written up to the end and live there. -/
theorem liveAt_drop (hk : k ≤ (blockCode cfg insns b).length) :
    LiveAt cfg insns kind r (b, k) ↔
      usedFirst kind r ((blockCode cfg insns b).drop k) = true ∨
      writesReg kind r ((blockCode cfg insns b).drop k) = false ∧
        LiveAt cfg insns kind r (b, (blockCode cfg insns b).length) := by
  obtain ⟨left, hLeft⟩ := Nat.exists_eq_add_of_le hk
  induction left generalizing k with
  | zero =>
    obtain rfl : (blockCode cfg insns b).length = k := hLeft
    simp [usedFirst, writesReg]
  | succ left ih =>
    have hLt : k < (blockCode cfg insns b).length := by omega
    have hi : insnAt cfg insns (b, k) = some ((blockCode cfg insns b).get ⟨k, hLt⟩) :=
      List.getElem?_eq_getElem hLt
    rw [liveAt_insn hi, ih (by omega) (by omega), drop_eq_getElem_cons hLt]
    simp only [get_eq_getElem, usedFirst, writesReg, any_cons]
    generalize (blockCode cfg insns b).drop (k + 1) = rest
    generalize hEq : (blockCode cfg insns b)[k] = i
    by_cases hUse : i.Uses kind r <;> by_cases hDef : i.Defines kind r <;> simp [hUse, hDef]

/-! ## The equations of a block -/

def liveInOf (blocks : List SsaBlockInfo) (kind : RegKind) (b : Nat) : BitVec 64 :=
  ((blocks.getD b default).summary kind).liveIn

theorem getLsbD_liveOut {blocks : List SsaBlockInfo} :
    (liveOut kind cfg blocks b).getLsbD r = true ↔
      ∃ b', cfg.graph.Edge b b' ∧ (liveInOf blocks kind b').getLsbD r = true := by
  have hFold : ∀ (edges : List CfgEdge) (live : BitVec 64),
      (edges.foldl (fun live e =>
        if e.src ≠ b ∨ e.dst = cfgInvalid then live
        else live ||| ((blocks.getD e.dst default).summary kind).liveIn) live).getLsbD r = true ↔
      live.getLsbD r = true ∨ ∃ e ∈ edges, e.src = b ∧ e.dst ≠ cfgInvalid ∧
        (liveInOf blocks kind e.dst).getLsbD r = true := by
    intro edges
    induction edges with
    | nil => simp
    | cons e edges ih =>
      intro live
      rw [foldl_cons, ih]
      by_cases hSkip : e.src ≠ b ∨ e.dst = cfgInvalid
      · rw [if_pos hSkip, exists_mem_cons_iff]
        refine or_congr Iff.rfl ⟨.inr, ?_⟩
        rintro (⟨hSrc, hDst, -⟩ | h)
        · exact absurd hSkip (by simp [hSrc, hDst])
        · exact h
      · have hTake : e.src = b ∧ e.dst ≠ cfgInvalid := by
          simpa only [not_or, not_not] using hSkip
        rw [if_neg hSkip, BitVec.getLsbD_or, Bool.or_eq_true, exists_mem_cons_iff, or_assoc]
        refine or_congr Iff.rfl (or_congr ?_ Iff.rfl)
        simp only [hTake, true_and, liveInOf, ne_eq, not_false_eq_true]
  rw [liveOut, hFold, BitVec.ofNat_eq_ofNat, BitVec.getLsbD_zero]
  simp only [Bool.false_eq_true, false_or]
  constructor
  · rintro ⟨e, he, hSrc, hDst, hBit⟩
    exact ⟨e.dst, ⟨e, he, hSrc, rfl, hDst⟩, hBit⟩
  · rintro ⟨b', ⟨e, he, hSrc, rfl, hDst⟩, hBit⟩
    exact ⟨e, he, hSrc, hDst, hBit⟩

theorem getLsbD_transfer {s : RegSummary} {live : BitVec 64} (hr : r < 64) :
    (s.transfer live).getLsbD r =
      (s.usesBeforeDef.getLsbD r || (live.getLsbD r && !s.defs.getLsbD r)) := by
  simp [RegSummary.transfer, hr]

end Paths

/-! ## The passes over the edges -/

section Solve

variable {cfg : Cfg} {insns : List SsaInsn} {blocks blocks' : List SsaBlockInfo} {kind : RegKind}
  {b bi r : Nat}

def SsaBlockInfo.eraseLive (b : SsaBlockInfo) : SsaBlockInfo :=
  { b with gpr := { b.gpr with liveIn := 0 }, fpr := { b.fpr with liveIn := 0 } }

theorem length_layoutBlocks (cursor : Nat) (bs : List CfgBlock) :
    (layoutBlocks cursor bs).length = bs.length := by
  induction bs generalizing cursor with
  | nil => rfl
  | cons b bs ih => rw [layoutBlocks, length_cons, ih, length_cons]

theorem fresh_of_mem_layoutBlocks {cursor : Nat} {bs : List CfgBlock} {info : SsaBlockInfo}
    (h : info ∈ layoutBlocks cursor bs) (kind : RegKind) :
    (info.summary kind).lastDef = List.replicate ssaMaxReg ssaNoVal := by
  induction bs generalizing cursor with
  | nil => exact absurd h not_mem_nil
  | cons b bs ih =>
    rcases mem_cons.mp h with rfl | h
    · cases kind <;> rfl
    · exact ih h

/-- The summaries of the blocks before the passes. -/
def initialBlocks (cfg : Cfg) (insns : List SsaInsn) : List SsaBlockInfo :=
  (layoutBlocks 0 cfg.blocks).map (summarizeBlock insns)

/-- The passes change nothing of the summaries but the live registers. -/
def KeepsSummaries (cfg : Cfg) (insns : List SsaInsn) (blocks : List SsaBlockInfo) : Prop :=
  blocks.map (·.eraseLive) = (initialBlocks cfg insns).map (·.eraseLive)

theorem KeepsSummaries.length_eq (h : KeepsSummaries cfg insns blocks) :
    blocks.length = cfg.blocks.length := by
  have hLength := congrArg List.length h
  simpa only [initialBlocks, length_map, length_layoutBlocks] using hLength

/-- A block of the state is a block of the layout, with its summaries. -/
theorem KeepsSummaries.block (h : KeepsSummaries cfg insns blocks) (hb : b < cfg.blocks.length) :
    ∃ info ∈ layoutBlocks 0 cfg.blocks, (layoutBlocks 0 cfg.blocks)[b]? = some info ∧
      (blocks.getD b default).eraseLive = (summarizeBlock insns info).eraseLive := by
  have hBlock : b < blocks.length := by rwa [h.length_eq]
  have hInfo : b < (layoutBlocks 0 cfg.blocks).length := by rwa [length_layoutBlocks]
  have hAt := congrArg (fun l : List SsaBlockInfo => l[b]?) h
  simp only [initialBlocks, List.getElem?_map, List.getElem?_eq_getElem hBlock,
    List.getElem?_eq_getElem hInfo, Option.map_some, Option.some.injEq] at hAt
  refine ⟨_, List.getElem_mem hInfo, List.getElem?_eq_getElem hInfo, ?_⟩
  rw [getD_eq_getElem _ _ hBlock]
  exact hAt

theorem KeepsSummaries.firstInsn_eq (h : KeepsSummaries cfg insns blocks)
    (hb : b < cfg.blocks.length) :
    (blocks.getD b default).firstInsn = insnIndex cfg (b, 0) := by
  obtain ⟨info, -, hInfo, hErased⟩ := h.block hb
  have hFirst := congrArg SsaBlockInfo.firstInsn hErased
  rw [insnIndex, hInfo]
  exact hFirst

theorem KeepsSummaries.code_eq (h : KeepsSummaries cfg insns blocks) (hb : b < cfg.blocks.length) :
    (blocks.getD b default).code insns = blockCode cfg insns b := by
  obtain ⟨info, -, hInfo, hErased⟩ := h.block hb
  have hFirst : (blocks.getD b default).firstInsn = info.firstInsn := by
    have hEq := congrArg SsaBlockInfo.firstInsn hErased
    exact hEq
  have hCount : (blocks.getD b default).insnCount = info.insnCount := by
    have hEq := congrArg SsaBlockInfo.insnCount hErased
    exact hEq
  rw [SsaBlockInfo.code, hFirst, hCount, blockCode, hInfo]
  rfl

theorem KeepsSummaries.describes (h : KeepsSummaries cfg insns blocks) (hb : b < cfg.blocks.length)
    (kind : RegKind) :
    ((blocks.getD b default).summary kind).Describes kind (blockCode cfg insns b)
      (blocks.getD b default).firstInsn := by
  obtain ⟨info, hMem, hInfo, hErased⟩ := h.block hb
  have hFirst : (blocks.getD b default).firstInsn = info.firstInsn := by
    have hEq := congrArg SsaBlockInfo.firstInsn hErased
    exact hEq
  have hCode : blockCode cfg insns b = info.code insns := by rw [blockCode, hInfo]; rfl
  have hDescribes := describes_summarizeKind insns (fresh_of_mem_layoutBlocks hMem kind)
  have hSummary : { (blocks.getD b default).summary kind with liveIn := 0 } =
      { summarizeKind kind insns info with liveIn := 0 } := by
    cases kind with
    | gpr =>
      have hEq := congrArg SsaBlockInfo.gpr hErased
      exact hEq
    | fpr =>
      have hEq := congrArg SsaBlockInfo.fpr hErased
      exact hEq
  have hDefs := congrArg RegSummary.defs hSummary
  have hUses := congrArg RegSummary.usesBeforeDef hSummary
  have hLast := congrArg RegSummary.lastDef hSummary
  simp only at hDefs hUses hLast
  rw [hFirst, hCode]
  exact ⟨by rw [hLast]; exact hDescribes.length_lastDef,
    by rw [hDefs]; exact hDescribes.defs, by rw [hUses]; exact hDescribes.uses,
    by rw [hLast]; exact hDescribes.lastDef⟩

/-- No register is live in a block that is not there. -/
theorem KeepsSummaries.lt_of_live (h : KeepsSummaries cfg insns blocks)
    (hLive : (liveInOf blocks kind b).getLsbD r = true) : b < cfg.blocks.length := by
  by_contra hGe
  rw [liveInOf, getD_eq_default _ _ (by rw [h.length_eq]; omega)] at hLive
  cases kind <;> simp [SsaBlockInfo.summary, default] at hLive

/-- The state of the passes: only live registers are collected, and only what an update of the
block would confirm. -/
structure Solving (cfg : Cfg) (insns : List SsaInsn) (blocks : List SsaBlockInfo) : Prop where
  keeps : KeepsSummaries cfg insns blocks
  sound : ∀ b < cfg.blocks.length, ∀ kind, ∀ r < ssaMaxReg,
    (liveInOf blocks kind b).getLsbD r = true → LiveAt cfg insns kind r (b, 0)
  rising : ∀ b < cfg.blocks.length, ∀ kind r, (liveInOf blocks kind b).getLsbD r = true →
    (((blocks.getD b default).summary kind).transfer (liveOut kind cfg blocks b)).getLsbD r = true

/-- What an update of a block would collect is live, if what is collected is. -/
theorem Solving.live_of_transfer (h : Solving cfg insns blocks) (hb : b < cfg.blocks.length)
    (hr : r < ssaMaxReg)
    (hBit : (((blocks.getD b default).summary kind).transfer
      (liveOut kind cfg blocks b)).getLsbD r = true) : LiveAt cfg insns kind r (b, 0) := by
  have hDescribes := h.keeps.describes hb kind
  rw [getLsbD_transfer (Nat.lt_of_lt_of_le hr (by decide)), hDescribes.uses r hr,
    hDescribes.defs r hr, Bool.or_eq_true, Bool.and_eq_true, Bool.not_eq_true'] at hBit
  rw [liveAt_drop (Nat.zero_le _), drop_zero]
  refine hBit.imp id fun ⟨hOut, hClear⟩ => ⟨hClear, liveAt_end.mpr ?_⟩
  obtain ⟨b', hEdge, hLive⟩ := getLsbD_liveOut.mp hOut
  have hLt := h.keeps.lt_of_live hLive
  exact ⟨b', hEdge, hLt, h.sound b' hLt kind r hr hLive⟩

theorem solving_initialBlocks : Solving cfg insns (initialBlocks cfg insns) := by
  have hUses : ∀ b < cfg.blocks.length, ∀ kind, liveInOf (initialBlocks cfg insns) kind b =
      (((initialBlocks cfg insns).getD b default).summary kind).usesBeforeDef := by
    intro b hb kind
    have hLt : b < (initialBlocks cfg insns).length := by
      rwa [initialBlocks, length_map, length_layoutBlocks]
    rw [liveInOf, getD_eq_getElem _ _ hLt]
    simp only [initialBlocks, List.getElem_map]
    cases kind <;> rfl
  refine ⟨rfl, fun b hb kind r hr hBit => ?_, fun b hb kind r hBit => ?_⟩
  · have hKeeps : KeepsSummaries cfg insns (initialBlocks cfg insns) := rfl
    rw [hUses b hb kind, (hKeeps.describes hb kind).uses r hr] at hBit
    rw [liveAt_drop (Nat.zero_le _), drop_zero]
    exact .inl hBit
  · rw [hUses b hb kind] at hBit
    rw [getLsbD_transfer (BitVec.lt_of_getLsbD hBit), hBit, Bool.true_or]

/-! The update of one block -/

theorem updateLive_eq_none (h : updateLive cfg blocks bi = none) (kind : RegKind) :
    ((blocks.getD bi default).summary kind).transfer (liveOut kind cfg blocks bi) =
      liveInOf blocks kind bi := by
  unfold updateLive at h
  simp only [ite_eq_right_iff, reduceCtorEq, imp_false, not_or, ne_eq, not_not] at h
  cases kind with
  | gpr => exact h.1
  | fpr => exact h.2

/-- An update sets the live registers of its block, and adds one at least. -/
theorem updateLive_eq_some (h : updateLive cfg blocks bi = some blocks')
    (hbi : bi < blocks.length) :
    blocks'.map (·.eraseLive) = blocks.map (·.eraseLive) ∧
    (∀ b kind, liveInOf blocks' kind b =
      if b = bi then ((blocks.getD bi default).summary kind).transfer (liveOut kind cfg blocks bi)
      else liveInOf blocks kind b) ∧
    ∃ kind, liveInOf blocks' kind bi ≠ liveInOf blocks kind bi := by
  unfold updateLive at h
  simp only [ite_eq_iff, reduceCtorEq, and_false, or_false, Option.some.injEq] at h
  obtain ⟨hNew, rfl⟩ := h
  have hLive : ∀ b kind, liveInOf (blocks.set bi
      { blocks.getD bi default with
        gpr := { (blocks.getD bi default).gpr with
          liveIn := (blocks.getD bi default).gpr.transfer (liveOutGpr cfg blocks bi) }
        fpr := { (blocks.getD bi default).fpr with
          liveIn := (blocks.getD bi default).fpr.transfer (liveOutFpr cfg blocks bi) } }) kind b =
      if b = bi then ((blocks.getD bi default).summary kind).transfer (liveOut kind cfg blocks bi)
      else liveInOf blocks kind b := by
    intro b kind
    by_cases hb : b = bi
    · subst hb
      rw [if_pos rfl, liveInOf, getD_set_self hbi]
      cases kind <;> rfl
    · rw [if_neg hb, liveInOf, getD_set_of_ne (Ne.symm hb), liveInOf]
  refine ⟨map_set_of_eq _ (d := default) rfl, hLive, ?_⟩
  rcases hNew with hNew | hNew
  · exact ⟨.gpr, by rw [hLive, if_pos rfl]; exact hNew⟩
  · exact ⟨.fpr, by rw [hLive, if_pos rfl]; exact hNew⟩

theorem getD_eraseLive (h : blocks'.map (·.eraseLive) = blocks.map (·.eraseLive)) (b : Nat) :
    (blocks'.getD b default).eraseLive = (blocks.getD b default).eraseLive := by
  rw [← getD_map (f := SsaBlockInfo.eraseLive), ← getD_map (f := SsaBlockInfo.eraseLive), h]

theorem transfer_congr (h : blocks'.map (·.eraseLive) = blocks.map (·.eraseLive)) (b : Nat)
    (kind : RegKind) (live : BitVec 64) :
    ((blocks'.getD b default).summary kind).transfer live =
      ((blocks.getD b default).summary kind).transfer live := by
  have hErased := getD_eraseLive h b
  have hTransfer : ∀ b : SsaBlockInfo,
      (b.summary kind).transfer live = (b.eraseLive.summary kind).transfer live := by
    intro b
    cases kind <;> rfl
  rw [hTransfer, hTransfer (blocks.getD b default), hErased]

/-- Every live register of the one state is live in the other. -/
def LiveLe (blocks blocks' : List SsaBlockInfo) : Prop :=
  ∀ b kind r, (liveInOf blocks kind b).getLsbD r = true → (liveInOf blocks' kind b).getLsbD r = true

theorem LiveLe.transfer (h : LiveLe blocks blocks') {s : RegSummary}
    (hBit : (s.transfer (liveOut kind cfg blocks b)).getLsbD r = true) :
    (s.transfer (liveOut kind cfg blocks' b)).getLsbD r = true := by
  have hr := BitVec.lt_of_getLsbD hBit
  rw [getLsbD_transfer hr, Bool.or_eq_true, Bool.and_eq_true] at hBit ⊢
  refine hBit.imp id (And.imp_left fun hOut => ?_)
  obtain ⟨b', hEdge, hLive⟩ := getLsbD_liveOut.mp hOut
  exact getLsbD_liveOut.mpr ⟨b', hEdge, h b' kind r hLive⟩

theorem Solving.step (h : Solving cfg insns blocks) (hbi : bi < cfg.blocks.length)
    (hUpdate : updateLive cfg blocks bi = some blocks') :
    Solving cfg insns blocks' ∧ LiveLe blocks blocks' ∧
      ∃ kind, liveInOf blocks' kind bi ≠ liveInOf blocks kind bi := by
  obtain ⟨hErased, hLive, hNew⟩ := updateLive_eq_some hUpdate (by rwa [h.keeps.length_eq])
  have hLe : LiveLe blocks blocks' := by
    intro b kind r hBit
    rw [hLive]
    split
    · rename_i hb
      subst hb
      exact h.rising b hbi kind r hBit
    · exact hBit
  refine ⟨⟨hErased.trans h.keeps, fun b hb kind r hr hBit => ?_, fun b hb kind r hBit => ?_⟩, hLe, hNew⟩
  · rw [hLive] at hBit
    split at hBit
    · rename_i hEq
      subst hEq
      exact h.live_of_transfer hb hr hBit
    · exact h.sound b hb kind r hr hBit
  · rw [transfer_congr hErased]
    rw [hLive] at hBit
    split at hBit
    · rename_i hEq
      subst hEq
      exact hLe.transfer hBit
    · exact hLe.transfer (h.rising b hb kind r hBit)

/-- The number of live registers collected. -/
def liveCount (cfg : Cfg) (blocks : List SsaBlockInfo) : Nat :=
  (Finset.univ.filter fun t : Fin cfg.blocks.length × RegKind × Fin 64 =>
    (liveInOf blocks t.2.1 t.1).getLsbD t.2.2 = true).card

theorem liveCount_lt (hLe : LiveLe blocks blocks') (hbi : bi < cfg.blocks.length)
    (hNew : liveInOf blocks' kind bi ≠ liveInOf blocks kind bi) :
    liveCount cfg blocks < liveCount cfg blocks' := by
  obtain ⟨r, hr, hBit, hOld⟩ : ∃ r, r < 64 ∧ (liveInOf blocks' kind bi).getLsbD r = true ∧
      (liveInOf blocks kind bi).getLsbD r ≠ true := by
    by_contra hNone
    refine hNew (BitVec.eq_of_getLsbD_eq fun r hr => ?_)
    by_cases hOld : (liveInOf blocks kind bi).getLsbD r = true
    · rw [hOld, hLe bi kind r hOld]
    · have hBit : ¬ (liveInOf blocks' kind bi).getLsbD r = true :=
        fun hBit => hNone ⟨r, hr, hBit, hOld⟩
      rw [Bool.not_eq_true] at hBit hOld
      rw [hBit, hOld]
  apply Finset.card_lt_card
  rw [Finset.ssubset_iff_of_subset fun t ht => by
    rw [Finset.mem_filter] at ht ⊢
    exact ⟨ht.1, hLe _ _ _ ht.2⟩]
  refine ⟨(⟨bi, hbi⟩, kind, ⟨r, hr⟩), ?_, ?_⟩
  · rw [Finset.mem_filter]
    exact ⟨Finset.mem_univ _, hBit⟩
  · rw [Finset.mem_filter]
    exact fun h => hOld h.2

theorem progress_updateLive (cfg : Cfg) (insns : List SsaInsn) :
    DataFlow.Progress (updateLive cfg) (List.range cfg.blocks.length).reverse
      (Solving cfg insns) (liveCount cfg) (128 * cfg.blocks.length) where
  keep blocks bi hbi blocks' h hUpdate := by
    have hLt : bi < cfg.blocks.length := mem_range.mp (mem_reverse.mp hbi)
    obtain ⟨hNext, hLe, kind, hNew⟩ := h.step hLt hUpdate
    exact ⟨hNext, liveCount_lt hLe hLt hNew⟩
  le_bound blocks _ := by
    refine (Finset.card_le_univ _).trans ?_
    simp only [Fintype.card_prod, Fintype.card_fin]
    have hKinds : Fintype.card RegKind = 2 := rfl
    rw [hKinds]
    omega

/-- The state at the end of the passes. -/
structure Solved (cfg : Cfg) (insns : List SsaInsn) (blocks : List SsaBlockInfo) : Prop
    extends Solving cfg insns blocks where
  stable : ∀ b < cfg.blocks.length, ∀ kind,
    ((blocks.getD b default).summary kind).transfer (liveOut kind cfg blocks b) =
      liveInOf blocks kind b

/-- The passes come to an end, within 128 for each block and one. -/
theorem exists_solveDefuse (cfg : Cfg) (insns : List SsaInsn) {passes : Nat}
    (h : 128 * cfg.blocks.length < passes) :
    ∃ blocks, solveDefuse passes cfg insns = some blocks ∧ Solved cfg insns blocks := by
  have hEnough : 128 * cfg.blocks.length < passes + liveCount cfg (initialBlocks cfg insns) := by
    omega
  obtain ⟨blocks, hRun, hSolving, hStable⟩ :=
    (progress_updateLive cfg insns).iterate solving_initialBlocks hEnough
  refine ⟨blocks, hRun, hSolving, fun b hb kind => updateLive_eq_none (hStable b ?_) kind⟩
  exact mem_reverse.mpr (mem_range.mpr hb)

/-- What is live behind some instructions of a block, by the state of the passes. -/
theorem Solved.live_drop (h : Solved cfg insns blocks) (hb : b < cfg.blocks.length)
    {r : Nat} (hr : r < ssaMaxReg) {k : Nat} (hk : k ≤ (blockCode cfg insns b).length) :
    LiveAt cfg insns kind r (b, k) ↔
      usedFirst kind r ((blockCode cfg insns b).drop k) = true ∨
      writesReg kind r ((blockCode cfg insns b).drop k) = false ∧
        (liveOut kind cfg blocks b).getLsbD r = true := by
  have hLiveIn : ∀ b < cfg.blocks.length, (liveInOf blocks kind b).getLsbD r = true ↔
      usedFirst kind r (blockCode cfg insns b) = true ∨
      writesReg kind r (blockCode cfg insns b) = false ∧
        (liveOut kind cfg blocks b).getLsbD r = true := by
    intro b hb
    have hDescribes := h.keeps.describes hb kind
    rw [← h.stable b hb kind, getLsbD_transfer (Nat.lt_of_lt_of_le hr (by decide)),
      hDescribes.uses r hr, hDescribes.defs r hr, Bool.or_eq_true, Bool.and_eq_true,
      Bool.not_eq_true', and_comm]
  constructor
  · intro hLive
    suffices H : ∀ p, LiveAt cfg insns kind r p → p.1 < cfg.blocks.length →
        p.2 ≤ (blockCode cfg insns p.1).length →
        usedFirst kind r ((blockCode cfg insns p.1).drop p.2) = true ∨
        writesReg kind r ((blockCode cfg insns p.1).drop p.2) = false ∧
          (liveOut kind cfg blocks p.1).getLsbD r = true from H (b, k) hLive hb hk
    intro p hp
    refine DataFlow.Live.closed (S := fun p => p.1 < cfg.blocks.length →
        p.2 ≤ (blockCode cfg insns p.1).length →
        usedFirst kind r ((blockCode cfg insns p.1).drop p.2) = true ∨
        writesReg kind r ((blockCode cfg insns p.1).drop p.2) = false ∧
          (liveOut kind cfg blocks p.1).getLsbD r = true) ?_ ?_ hp
    · rintro ⟨b, k⟩ ⟨i, hi, hUse⟩ - -
      obtain ⟨hLt, rfl⟩ := List.getElem?_eq_some_iff.mp hi
      rw [drop_eq_getElem_cons hLt]
      simp only [usedFirst, hUse, decide_true, Bool.true_or, true_or]
    · rintro _ _ hStep hClear hNext hb hk
      cases hStep with
      | @next b k hLt =>
        have hi : insnAt cfg insns (b, k) = some ((blockCode cfg insns b).get ⟨k, hLt⟩) :=
          List.getElem?_eq_getElem hLt
        have hKeep : ¬ ((blockCode cfg insns b).get ⟨k, hLt⟩).Defines kind r :=
          fun hDef => hClear ⟨_, hi, hDef⟩
        rw [get_eq_getElem] at hKeep
        simp only [drop_eq_getElem_cons hLt, usedFirst, writesReg, any_cons, hKeep,
          decide_false, Bool.not_false, Bool.true_and, Bool.false_or, Bool.or_eq_true]
        rcases hNext hb hLt with hUse | hOut
        · exact .inl (.inr hUse)
        · exact .inr hOut
      | @edge b b' hEdge hLt =>
        have hIn := (hLiveIn b' hLt).mpr (by simpa only [drop_zero] using hNext hLt (Nat.zero_le _))
        refine .inr ⟨by rw [drop_length]; rfl, getLsbD_liveOut.mpr ⟨b', hEdge, hIn⟩⟩
  · intro hBits
    rw [liveAt_drop hk]
    refine hBits.imp id fun ⟨hClear, hOut⟩ => ⟨hClear, liveAt_end.mpr ?_⟩
    obtain ⟨b', hEdge, hLive⟩ := getLsbD_liveOut.mp hOut
    have hLt := h.keeps.lt_of_live hLive
    exact ⟨b', hEdge, hLt, h.sound b' hLt kind r hr hLive⟩

/-- The live registers of a block are those of the paths from its start. -/
theorem Solved.liveIn_iff (h : Solved cfg insns blocks) (hb : b < cfg.blocks.length)
    (hr : r < ssaMaxReg) :
    (liveInOf blocks kind b).getLsbD r = true ↔ LiveAt cfg insns kind r (b, 0) := by
  refine ⟨h.sound b hb kind r hr, fun hLive => ?_⟩
  have hDescribes := h.keeps.describes hb kind
  rw [← h.stable b hb kind, getLsbD_transfer (Nat.lt_of_lt_of_le hr (by decide)),
    hDescribes.uses r hr, hDescribes.defs r hr, Bool.or_eq_true, Bool.and_eq_true,
    Bool.not_eq_true', and_comm]
  simpa only [drop_zero] using (h.live_drop hb hr (Nat.zero_le _)).mp hLive

end Solve

/-! ## Calls -/

section Calls

variable {cfg : Cfg} {insns : List SsaInsn} {blocks : List SsaBlockInfo} {kind : RegKind}
  {b r : Nat}

theorem decide_usedAfter (uses redef : BitVec 64) (hr : r < 64) :
    decide (uses &&& regBit r &&& ~~~redef ≠ 0) = (uses.getLsbD r && !redef.getLsbD r) := by
  rw [Bool.eq_iff_iff, decide_eq_true_iff, BitVec.and_assoc, BitVec.and_comm (regBit r),
    ← BitVec.and_assoc, and_regBit_ne_zero _ hr]
  simp [hr]

/-- The look-ahead finds whether a register is used first, and whether it is written. -/
theorem scanAfter_spec (hr : r < ssaMaxReg) (rest : List SsaInsn) :
    (scanAfter kind r rest).1.getLsbD r = writesReg kind r rest ∧
      (scanAfter kind r rest).2 = usedFirst kind r rest := by
  have hr' : r < 64 := Nat.lt_of_lt_of_le hr (by decide)
  unfold scanAfter
  induction rest using List.reverseRecOn with
  | nil => simp [writesReg, usedFirst]
  | append_singleton rest i ih =>
    obtain ⟨hWritten, hUsed⟩ := ih
    simp only [decide_usedAfter _ _ hr'] at hWritten hUsed ⊢
    rw [foldl_append, foldl_cons, foldl_nil]
    refine ⟨?_, ?_⟩
    · simp only [BitVec.getLsbD_or, hWritten, getLsbD_defMask _ hr, writesReg_append,
        writesReg_singleton]
      rfl
    · simp only [hWritten, hUsed, usedFirst_append, usedFirst_singleton, decide_uses]
      rw [Bool.and_comm]

theorem returnsReg_iff (hr : r < ssaMaxReg) (live : BitVec 64) (rest : List SsaInsn) :
    returnsReg kind r live rest = true ↔
      usedFirst kind r rest = true ∨ writesReg kind r rest = false ∧ live.getLsbD r = true := by
  have hr' : r < 64 := Nat.lt_of_lt_of_le hr (by decide)
  obtain ⟨hWritten, hUsed⟩ := @scanAfter_spec kind r hr rest
  have hClear : (scanAfter kind r rest).1 &&& regBit r = 0 ↔ writesReg kind r rest = false := by
    rw [← hWritten, ← Bool.not_eq_true, ← and_regBit_ne_zero _ hr', not_not]
  simp only [returnsReg, hUsed, Bool.or_eq_true, Bool.and_eq_true, decide_eq_true_eq, hClear,
    and_regBit_ne_zero live hr']
  exact or_congr Iff.rfl and_comm

def IsCallAt (cfg : Cfg) (insns : List SsaInsn) (p : CodePoint) : Bool :=
  (insnAt cfg insns p).any fun i => isCallOp i.insn.op

/-- The places of the calls, in the order of the program. -/
def callPoints (cfg : Cfg) (insns : List SsaInsn) : List CodePoint :=
  (List.range cfg.blocks.length).flatMap fun b =>
    ((List.range (blockCode cfg insns b).length).map fun k => (b, k)).filter (IsCallAt cfg insns)

/-- A site says whether the result registers are live right behind its call. -/
structure IsCallSite (cfg : Cfg) (insns : List SsaInsn) (p : CodePoint) (site : SsaCallSite) :
    Prop where
  index : site.insnIndex = insnIndex cfg p
  returns_gpr : site.returnsGpr = true ↔ LiveAt cfg insns .gpr 3 (p.1, p.2 + 1)
  returns_fpr : site.returnsFpr = true ↔ LiveAt cfg insns .fpr 1 (p.1, p.2 + 1)

theorem Solved.isCallSite (h : Solved cfg insns blocks) (hb : b < cfg.blocks.length) {k : Nat}
    (hk : k < (blockCode cfg insns b).length) (scan : CallScan) (i : SsaInsn) :
    IsCallSite cfg insns (b, k) (callSite cfg blocks insns b (blocks.getD b default) scan k i) := by
  have hCode := h.keeps.code_eq hb
  refine ⟨?_, ?_, ?_⟩
  · simp only [callSite, h.keeps.firstInsn_eq hb]
    rfl
  · simp only [callSite, hCode, liveOutGpr]
    rw [returnsReg_iff (by decide), h.live_drop hb (by decide) hk]
  · simp only [callSite, hCode, liveOutFpr]
    rw [returnsReg_iff (by decide), h.live_drop hb (by decide) hk]

theorem forall₂_append {α β : Type} {R : α → β → Prop} {xs xs' : List α} {ys ys' : List β}
    (h : List.Forall₂ R xs ys) (h' : List.Forall₂ R xs' ys') :
    List.Forall₂ R (xs ++ xs') (ys ++ ys') := rel_append h h'

/-- The scan of one block appends the sites of its calls. -/
theorem Solved.scanBlock (h : Solved cfg insns blocks) (hb : b < cfg.blocks.length)
    (calls : List SsaCallSite) {n : Nat} (hn : n ≤ (blockCode cfg insns b).length) :
    ∃ sites, ((List.range n).foldl (scanCall cfg blocks insns b (blocks.getD b default))
        { calls := calls }).calls = calls ++ sites ∧
      List.Forall₂ (IsCallSite cfg insns)
        (((List.range n).map fun k => (b, k)).filter (IsCallAt cfg insns)) sites := by
  induction n with
  | zero => exact ⟨[], by simp, .nil⟩
  | succ n ih =>
    obtain ⟨sites, hCalls, hSites⟩ := ih (by omega)
    have hLt : n < (blockCode cfg insns b).length := by omega
    have hInsn : insnAt cfg insns (b, n) =
        some (insns.getD ((blocks.getD b default).firstInsn + n) default) := by
      have hCode := h.keeps.code_eq hb
      rw [insnAt, ← hCode, SsaBlockInfo.code, List.getElem?_map, List.getElem?_range, Option.map_some]
      rw [← hCode, SsaBlockInfo.code, length_map, length_range] at hLt
      exact hLt
    rw [range_succ, foldl_append, map_append, filter_append]
    simp only [foldl_cons, foldl_nil, map_cons, map_nil, scanCall, hCalls]
    by_cases hOp : isCallOp (insns.getD ((blocks.getD b default).firstInsn + n) default).insn.op = true
    · have hHere : IsCallAt cfg insns (b, n) = true := by rw [IsCallAt, hInsn]; exact hOp
      rw [if_pos hOp, filter_cons_of_pos hHere, append_assoc]
      exact ⟨_, rfl, forall₂_append hSites (.cons (h.isCallSite hb hLt _ _) .nil)⟩
    · have hNot : ¬ IsCallAt cfg insns (b, n) = true := by rw [IsCallAt, hInsn]; exact hOp
      rw [if_neg hOp, filter_cons_of_neg hNot]
      exact ⟨sites, rfl, by simpa using hSites⟩

theorem Solved.calls (h : Solved cfg insns blocks) :
    List.Forall₂ (IsCallSite cfg insns) (callPoints cfg insns)
      (ssaReconstructCalls cfg blocks insns) := by
  unfold callPoints ssaReconstructCalls
  suffices H : ∀ n ≤ cfg.blocks.length, List.Forall₂ (IsCallSite cfg insns)
      ((List.range n).flatMap fun b =>
        ((List.range (blockCode cfg insns b).length).map fun k => (b, k)).filter
          (IsCallAt cfg insns))
      ((List.range n).foldl (fun calls bi =>
        ((List.range (blocks.getD bi default).insnCount).foldl
          (scanCall cfg blocks insns bi (blocks.getD bi default)) { calls := calls }).calls) []) from
    H _ (Nat.le_refl _)
  intro n hn
  induction n with
  | zero => exact .nil
  | succ n ih =>
    have hCount : (blocks.getD n default).insnCount = (blockCode cfg insns n).length := by
      rw [← h.keeps.code_eq hn, SsaBlockInfo.code, length_map, length_range]
    rw [range_succ, flatMap_append, foldl_append]
    simp only [foldl_cons, foldl_nil, flatMap_cons, flatMap_nil,
      append_nil]
    obtain ⟨sites, hEq, hSites⟩ := h.scanBlock hn ((List.range n).foldl (fun calls bi =>
      ((List.range (blocks.getD bi default).insnCount).foldl
        (scanCall cfg blocks insns bi (blocks.getD bi default)) { calls := calls }).calls) [])
      (Nat.le_of_eq hCount)
    rw [hEq]
    rw [hCount] at hSites
    exact forall₂_append (ih (by omega)) hSites

/-- More passes than the live registers of all blocks can need. -/
def enoughPasses (cfg : Cfg) : Nat := 128 * cfg.blocks.length + 1

/-- The summaries, the live registers and the calls are those of the paths through the code. -/
theorem ssaComputeDefuse_live (cfg : Cfg) (insns : List SsaInsn) :
    ∃ blocks, blocks.length = cfg.blocks.length ∧
      (∀ more, solveDefuse (enoughPasses cfg + more) cfg insns = some blocks) ∧
      (∀ decoded more, decoded.map computeEffects = insns →
        ssaComputeDefuse (enoughPasses cfg + more) cfg decoded = some (insns, blocks)) ∧
      (∀ b < cfg.blocks.length, ∀ kind, ∀ r < ssaMaxReg,
        ((liveInOf blocks kind b).getLsbD r = true ↔ LiveAt cfg insns kind r (b, 0)) ∧
        IsLastDef kind r (blockCode cfg insns b) (insnIndex cfg (b, 0))
          (((blocks.getD b default).summary kind).lastDef.getD r 0)) ∧
      List.Forall₂ (IsCallSite cfg insns) (callPoints cfg insns)
        (ssaReconstructCalls cfg blocks insns) := by
  obtain ⟨blocks, hRun, hSolved⟩ := exists_solveDefuse cfg insns (Nat.lt_succ_self _)
  have hMore : ∀ more, solveDefuse (enoughPasses cfg + more) cfg insns = some blocks :=
    DataFlow.iterate_add hRun
  refine ⟨blocks, hSolved.keeps.length_eq, hMore, ?_, ?_, hSolved.calls⟩
  · rintro decoded more rfl
    rw [ssaComputeDefuse, hMore more]
    rfl
  · intro b hb kind r hr
    refine ⟨hSolved.liveIn_iff hb hr, ?_⟩
    have hLast := (hSolved.keeps.describes hb kind).lastDef r hr
    rwa [hSolved.keeps.firstInsn_eq hb] at hLast

end Calls

end Calynda.Decompiler.Ssa
