import Calynda.Decompiler.Build
import Calynda.Decompiler.Flow

/-!
# The graph as a picture of the function

What a graph must show of the instructions it is built from, and which instructions it shows
so: conditional returns and indirect jumps are not among them, nor are conditional branches out
of the function.
-/

namespace Calynda.Decompiler

/-- The graph has an edge from block `i` to the block that starts at `a`. -/
def Cfg.EdgeTo (cfg : Cfg) (i : Nat) (a : BitVec 32) : Prop :=
  ∃ edge ∈ cfg.edges, edge.src = i ∧ ∃ span, cfg.spans[edge.dst]? = some span ∧ span.1 = a

/-- The graph shows that control may leave the function after block `i`. -/
def Cfg.MayLeave (cfg : Cfg) (i : Nat) : Prop :=
  (∃ edge ∈ cfg.edges, edge.src = i ∧ (edge.kind = .ret ∨ edge.kind = .indirectUnknown)) ∨
    ∃ sw ∈ cfg.switches, sw.blockIndex = i

def InRange (s e a : BitVec 32) : Prop := s ≤ a ∧ a < e

/-- The address after the last instruction of a block that stops at `stop`; a return has none. -/
def Flow.destination (stop : BitVec 32) : Flow → Option (BitVec 32)
  | .next => some stop
  | .jump a => some a
  | .ret => none

/-- The graph shows a step from block `i`: an edge to where it goes in the function, or that it may
leave. -/
def ShowsStep (s e : BitVec 32) (cfg : Cfg) (i : Nat) (stop : BitVec 32) (flow : Flow) : Prop :=
  (∀ a, flow.destination stop = some a → InRange s e a → cfg.EdgeTo i a) ∧
    ((∀ a, flow.destination stop = some a → ¬ InRange s e a) → cfg.MayLeave i)

/-- The graph shows what the instructions of `[s, e)` do: its blocks tile the function, control
goes straight on inside them, branches go to their starts, and each step out of a block is
shown. -/
structure FaithfulTo (img : DolImage) (s e : BitVec 32) (cfg : Cfg) : Prop where
  tiles : Tiles e s cfg.spans
  straight : ∀ span ∈ cfg.spans, ∀ va w, va.toNat % 4 = 0 → span.1 ≤ va →
    va.toNat + 4 < span.2.toNat → cfgReadWord img va = some w → ∀ st, ppcFlow w va st = .next
  targets : ∀ va ∈ insnAddrs s e, ∀ w a, cfgReadWord img va = some w →
    directTarget w va = some a → InRange s e a → a ∈ cfg.spans.map Prod.fst
  steps : ∀ i span w st, cfg.spans[i]? = some span → cfgReadWord img (span.2 - 4) = some w →
    ShowsStep s e cfg i span.2 (ppcFlow w (span.2 - 4) st)

/-! ## Instructions that the graph shows -/

/-- Blocks start at the start of the function, at targets of branches that are no `bl`, and after
branches. -/
def StartsBlock (img : DolImage) (s e a : BitVec 32) : Prop :=
  a = s ∨ ∃ va ∈ insnAddrs s e, ∃ w, cfgReadWord img va = some w ∧
    ((isBform w ∨ isIformJump w) ∧ directTarget w va = some a ∨ endsBlockWord w ∧ a = va + 4)

/-- The instruction `w` at `va` is none of those that the graph does not show. -/
structure Shown (img : DolImage) (s e va w : BitVec 32) : Prop where
  ctrJump : ¬ isCtrJump w
  rfi : ¬ isRfi w
  returns : isReturn w → isPlain w ∨ va + 4 = e
  taken : isBform w → ppcBits w 31 31 = 0 → InRange s e (bformTarget w va)
  last : isBform w → va + 4 = e → ppcBits w 31 31 = 0 ∧ branchAlways (ppcBits w 6 10) = true
  calls : ppcBits w 0 5 = 18 → ppcBits w 31 31 ≠ 0 → InRange s e (iformTarget w va) →
    StartsBlock img s e (iformTarget w va)

/-- Every instruction of the function is shown. -/
def AllShown (img : DolImage) (s e : BitVec 32) : Prop :=
  ∀ va ∈ insnAddrs s e, ∀ w, cfgReadWord img va = some w → Shown img s e va w

/-! ## From the graph of direct branches to the graph handed out -/

/-- The passes after the first keep its blocks and edges, and add edges and switches for jump
tables only. -/
structure Finishes (img : DolImage) (direct cfg : Cfg) : Prop where
  spans : cfg.spans = direct.spans
  kept : ∀ edge ∈ direct.edges, edge.kind ≠ .indirectUnknown → edge ∈ cfg.edges
  added : ∀ edge ∈ cfg.edges, edge ∈ direct.edges ∨ ∃ bi, edge ∈ tableEdges img direct bi
  switches : ∀ sw ∈ cfg.switches, ∃ b, direct.blocks[sw.blockIndex]? = some b ∧
    recoverTable img b ≠ none

section Finishes

variable {fuel : Nat} {img : DolImage} {s e : BitVec 32} {cfg direct : Cfg}
variable {leaders : List (BitVec 32)}

theorem spans_congr {cfg cfg' : Cfg}
    (h : cfg'.blocks.map (·.extent) = cfg.blocks.map (·.extent)) : cfg'.spans = cfg.spans := by
  have hMap : ∀ cfg : Cfg, cfg.spans = (cfg.blocks.map (·.extent)).map fun x => (x.1, x.2.1) := by
    intro cfg
    rw [List.map_map]
    rfl
  rw [hMap, hMap, h]

theorem cfgBuild_finishes (hFuel : cfgFuel ≤ fuel) (hRun : cfgBuild fuel img s e = .ok cfg) :
    AlignedRange s e ∧ ∃ direct leaders, IsDirectGraph img s e leaders direct ∧
      Finishes img direct cfg := by
  obtain ⟨hRange, leaders, direct, before, hStages⟩ := cfgBuild_stages hFuel hRun
  have hShape := hStages.shape
  have hRecovered := hStages.recovered
  refine ⟨hRange, direct, leaders, hStages.isDirect, ?_, ?_, ?_, ?_⟩
  · rw [spans_congr hStages.same.extents, spans_congr hRecovered.same.extents, spans_congr hShape.extents]
  · intro edge hEdge hKind
    rw [hStages.edges]
    exact hRecovered.kept edge (hShape.edges ▸ hEdge) hKind
  · intro edge hEdge
    rw [hStages.edges] at hEdge
    rcases hRecovered.added edge hEdge with hOld | ⟨bi, -, hTable⟩
    · exact .inl (hShape.edges ▸ hOld)
    · exact .inr ⟨bi, tableEdges_congr hShape.extents bi ▸ hTable⟩
  · intro sw hsw
    rw [hStages.switches] at hsw
    rcases hRecovered.switches sw hsw with hOld | ⟨b', hb', hTable⟩
    · rw [hShape.switches, hStages.isDirect.switches] at hOld
      exact absurd hOld List.not_mem_nil
    · have hAt : (before.blocks[sw.blockIndex]?).map (·.extent) =
          (direct.blocks[sw.blockIndex]?).map (·.extent) := by
        rw [← List.getElem?_map, ← List.getElem?_map, hShape.extents]
      rw [hb', Option.map_some] at hAt
      obtain ⟨b, hb, hExtent⟩ := Option.map_eq_some_iff.1 hAt.symm
      exact ⟨b, hb, recoverTable_congr hExtent ▸ hTable⟩

end Finishes

/-! ## Blocks and leaders -/

section Direct

variable {img : DolImage} {s e a : BitVec 32} {direct cfg : Cfg} {leaders : List (BitVec 32)}
variable {i : Nat} {b : CfgBlock} {w : BitVec 32}

theorem cfgBlockOfVaddr_spec {blocks : List CfgBlock} (h : a ∈ blocks.map (·.startVaddr)) :
    ∃ b, blocks[cfgBlockOfVaddr blocks a]? = some b ∧ b.startVaddr = a := by
  unfold cfgBlockOfVaddr
  cases hFind : blocks.findIdx? (·.startVaddr = a) with
  | none =>
    obtain ⟨b, hb, rfl⟩ := List.mem_map.1 h
    exact absurd (List.findIdx?_eq_none_iff.1 hFind b hb) (by simp)
  | some i =>
    obtain ⟨hi, hStart, -⟩ := List.findIdx?_eq_some_iff_getElem.1 hFind
    exact ⟨blocks[i], List.getElem?_eq_getElem hi, by simpa using hStart⟩

theorem cfgBlockOfVaddr_eq_invalid {blocks : List CfgBlock} (h : a ∉ blocks.map (·.startVaddr)) :
    cfgBlockOfVaddr blocks a = cfgInvalid := by
  unfold cfgBlockOfVaddr
  rw [List.findIdx?_eq_none_iff.2 fun b hb => ?_, Option.getD_none]
  simp only [decide_eq_false_iff_not]
  rintro rfl
  exact h (List.mem_map_of_mem hb)

theorem splitBlocks_stop {ls : List (BitVec 32)} (hb : b ∈ splitBlocks e ls) :
    b.endVaddr = e ∨ b.endVaddr ∈ ls := by
  induction ls using splitBlocks.induct with
  | case1 => exact absurd hb List.not_mem_nil
  | case2 l =>
    obtain rfl := List.mem_singleton.1 hb
    exact .inl rfl
  | case3 l l' ls ih =>
    rcases List.mem_cons.1 hb with rfl | hb
    · exact .inr (List.mem_cons_of_mem _ List.mem_cons_self)
    · exact (ih hb).imp_right (List.mem_cons_of_mem _)

theorem Tiles.exists_span {s e : BitVec 32} {spans : List (BitVec 32 × BitVec 32)}
    (h : Tiles e s spans) (hs : s ≤ a) (he : a < e) :
    ∃ (i : Nat) (span : BitVec 32 × BitVec 32), spans[i]? = some span ∧ span.1 ≤ a ∧ a < span.2 := by
  induction spans generalizing s with
  | nil =>
    rw [Tiles] at h
    subst h
    rw [BitVec.le_def] at hs
    rw [BitVec.lt_def] at he
    omega
  | cons span spans ih =>
    obtain ⟨rfl, -, hRest⟩ := h
    by_cases hIn : a < span.2
    · exact ⟨0, span, rfl, hs, hIn⟩
    · obtain ⟨i, span', hi, hSpan'⟩ := ih hRest (BitVec.not_lt.1 hIn)
      exact ⟨i + 1, span', hi, hSpan'⟩

theorem Tiles.bounds {s e : BitVec 32} {spans : List (BitVec 32 × BitVec 32)} (h : Tiles e s spans) :
    s ≤ e ∧ ∀ span ∈ spans, s ≤ span.1 ∧ span.1 < span.2 ∧ span.2 ≤ e := by
  induction spans generalizing s with
  | nil =>
    rw [Tiles] at h
    exact ⟨h ▸ BitVec.le_refl _, fun _ hMem => absurd hMem List.not_mem_nil⟩
  | cons span spans ih =>
    obtain ⟨rfl, hLt, hRest⟩ := h
    obtain ⟨hLe, hSpans⟩ := ih hRest
    have hFirst : span.1 ≤ span.2 := BitVec.le_of_lt hLt
    refine ⟨BitVec.le_trans hFirst hLe, fun span' hMem => ?_⟩
    rcases List.mem_cons.1 hMem with rfl | hMem
    · exact ⟨BitVec.le_refl _, hLt, hLe⟩
    · obtain ⟨hStart, hRest'⟩ := hSpans span' hMem
      exact ⟨BitVec.le_trans hFirst hStart, hRest'⟩

namespace IsDirectGraph

theorem starts (h : IsDirectGraph img s e leaders direct) :
    direct.blocks.map (·.startVaddr) = leaders := by
  rw [h.blocks, splitBlocks_starts]

theorem mem_starts (h : IsDirectGraph img s e leaders direct) :
    a ∈ direct.spans.map Prod.fst ↔ a ∈ leaders := by
  rw [← h.starts, Cfg.spans, List.map_map]
  rfl

/-- The leaders, by the words of the function. -/
theorem mem_leaders (h : IsDirectGraph img s e leaders direct) (ha : InRange s e a) :
    a ∈ leaders ↔ StartsBlock img s e a := by
  rw [mem_collectLeaders h.collected, StartsBlock]
  refine or_congr Iff.rfl (exists_congr fun va => and_congr_right fun hva => exists_congr fun w =>
    and_congr_right fun _ => ?_)
  rw [mem_leadersOf, endsBlock_ppcDecode, isDirect_ppcDecode]
  refine or_congr (and_congr_right fun hDirect => ?_) ⟨fun h => ⟨h.1, h.2.1⟩, fun h => ⟨h.1, h.2, ha.2⟩⟩
  have hTarget : ∃ t, directTarget w va = some t := by
    unfold directTarget
    rcases hDirect with h16 | ⟨h18, -⟩
    · rw [h16]
      exact ⟨_, rfl⟩
    · rw [h18]
      exact ⟨_, rfl⟩
  obtain ⟨t, hTarget⟩ := hTarget
  rw [hTarget, target_ppcDecode hTarget, Option.some.injEq]
  exact ⟨fun h => h.1.symm, fun h => ⟨h.symm, ha⟩⟩

theorem tiles (h : IsDirectGraph img s e leaders direct) (hRange : AlignedRange s e) :
    Tiles e s direct.spans := by
  have hMem : s ∈ leaders := (mem_collectLeaders h.collected).2 (.inl rfl)
  have hSorted := collectLeaders_pairwise h.collected
  have hIn : ∀ a ∈ leaders, s ≤ a ∧ a < e := fun a ha =>
    have hAddr := (mem_insnAddrs hRange.start hRange.stop hRange.lt).1
      (collectLeaders_range hRange h.collected ha)
    ⟨hAddr.1, hAddr.2.1⟩
  cases hLeaders : leaders with
  | nil =>
    rw [hLeaders] at hMem
    exact absurd hMem List.not_mem_nil
  | cons l ls =>
    rw [hLeaders] at hMem hSorted hIn
    have hFirst : l = s := by
      rcases List.mem_cons.1 hMem with hEq | hLater
      · exact hEq.symm
      · have hLt := (List.pairwise_cons.1 hSorted).1 s hLater
        have hLe := (hIn l List.mem_cons_self).1
        rw [BitVec.le_def] at hLe
        omega
    rw [← hFirst, Cfg.spans, h.blocks, hLeaders]
    exact tiles_splitBlocks hSorted fun a ha => (hIn a ha).2

theorem leader_inRange (h : IsDirectGraph img s e leaders direct) (hRange : AlignedRange s e)
    (ha : a ∈ leaders) : InRange s e a :=
  have hAddr := (mem_insnAddrs hRange.start hRange.stop hRange.lt).1
    (collectLeaders_range hRange h.collected ha)
  ⟨hAddr.1, hAddr.2.1⟩

/-- A leader has its block. -/
theorem block_of_leader (h : IsDirectGraph img s e leaders direct) (hRange : AlignedRange s e)
    (ha : a ∈ leaders) : cfgBlockOfVaddr direct.blocks a ≠ cfgInvalid ∧
      ∃ span, direct.spans[cfgBlockOfVaddr direct.blocks a]? = some span ∧ span.1 = a := by
  obtain ⟨b, hb, rfl⟩ := cfgBlockOfVaddr_spec (h.starts.symm ▸ ha)
  refine ⟨(h.wellFormed hRange).ne_invalid (List.getElem?_eq_some_iff.1 hb).1,
    (b.startVaddr, b.endVaddr), ?_, rfl⟩
  rw [Cfg.spans, List.getElem?_map, hb, Option.map_some]

theorem no_block (h : IsDirectGraph img s e leaders direct) (ha : a ∉ leaders) :
    cfgBlockOfVaddr direct.blocks a = cfgInvalid :=
  cfgBlockOfVaddr_eq_invalid (h.starts.symm ▸ ha)

theorem no_span_invalid (h : IsDirectGraph img s e leaders direct) (hRange : AlignedRange s e) :
    direct.spans[cfgInvalid]? = none := by
  have hLength := (h.wellFormed hRange).blocks_le
  exact List.getElem?_eq_none (by simpa [Cfg.spans] using hLength)

/-- A block lies in the function, and its last instruction in the block. -/
theorem block_bounds (h : IsDirectGraph img s e leaders direct) (hRange : AlignedRange s e)
    (hb : direct.blocks[i]? = some b) :
    b.endVaddr - 4 ∈ insnAddrs s e ∧ (b.endVaddr - 4).toNat = b.endVaddr.toNat - 4 ∧
      b.startVaddr.toNat + 4 ≤ b.endVaddr.toNat ∧ b.endVaddr.toNat ≤ e.toNat ∧
      b.startVaddr.toNat % 4 = 0 ∧ b.endVaddr.toNat % 4 = 0 := by
  have hMem : b ∈ splitBlocks e leaders := h.blocks ▸ List.mem_of_getElem? hb
  have hSpan : (b.startVaddr, b.endVaddr) ∈ direct.spans :=
    List.mem_map.2 ⟨b, List.mem_of_getElem? hb, rfl⟩
  obtain ⟨hStart, hLt, hEnd⟩ := (h.tiles hRange).bounds.2 _ hSpan
  rw [BitVec.lt_def] at hLt
  rw [BitVec.le_def] at hStart hEnd
  dsimp only at hStart hLt hEnd
  have hAligned : ∀ a ∈ leaders, a.toNat % 4 = 0 := fun a ha =>
    ((mem_insnAddrs hRange.start hRange.stop hRange.lt).1
      (collectLeaders_range hRange h.collected ha)).2.2
  have hStartAligned : b.startVaddr.toNat % 4 = 0 :=
    hAligned _ (splitBlocks_starts e leaders ▸ List.mem_map_of_mem hMem)
  have hEndAligned : b.endVaddr.toNat % 4 = 0 := by
    rcases splitBlocks_stop hMem with hEq | hLeader
    · rw [hEq]
      exact hRange.stop
    · exact hAligned _ hLeader
  have hLast : (b.endVaddr - 4).toNat = b.endVaddr.toNat - 4 := by
    rw [BitVec.toNat_sub_of_le]
    · rfl
    · rw [BitVec.le_def]
      simp
      omega
  refine ⟨?_, hLast, by omega, hEnd, hStartAligned, hEndAligned⟩
  rw [mem_insnAddrs hRange.start hRange.stop hRange.lt, BitVec.le_def, BitVec.lt_def, hLast]
  omega

end IsDirectGraph

/-! ## Edges of the last instruction -/

theorem recoverTable_of_op {b : CfgBlock} (hw : cfgReadWord img (b.endVaddr - 4) = some w)
    (hTable : recoverTable img b ≠ none) :
    (ppcDecode w (b.endVaddr - 4)).op = .bctr ∧ b.startVaddr < b.endVaddr - 4 := by
  unfold recoverTable at hTable
  rw [hw] at hTable
  by_cases hOp : (ppcDecode w (b.endVaddr - 4)).op = .bctr
  · refine ⟨hOp, ?_⟩
    by_contra hLt
    refine hTable ?_
    have hBase : findTableBase img b = none := by
      rw [findTableBase, findTableBaseFrom, if_neg hLt]
    rw [hBase]
    split
    · rfl
    · simp
  · refine absurd ?_ hTable
    split
    · rfl
    · rw [Option.bind_eq_bind, Option.bind_some]
      exact if_pos hOp

theorem edgesOf_other {blocks : List CfgBlock} {insn : PpcInsn} (hOp : insn.op.endsBlock = false) :
    edgesOf blocks i b insn =
      if cfgBlockOfVaddr blocks b.endVaddr ≠ cfgInvalid then
        [.plain i (cfgBlockOfVaddr blocks b.endVaddr) .fallthrough]
      else [.plain i cfgInvalid .ret] := by
  unfold edgesOf
  cases hCase : insn.op <;> first | rfl | (rw [hCase] at hOp; contradiction)

theorem edgesOf_bform {blocks : List CfgBlock} {va : BitVec 32} (h : isBform w) :
    edgesOf blocks i b (ppcDecode w va) =
      (if cfgBlockOfVaddr blocks (bformTarget w va) ≠ cfgInvalid then
          [.plain i (cfgBlockOfVaddr blocks (bformTarget w va)) .condTaken] else []) ++
        (if cfgBlockOfVaddr blocks b.endVaddr ≠ cfgInvalid then
          [.plain i (cfgBlockOfVaddr blocks b.endVaddr) .condNotTaken] else []) := by
  rw [ppcDecode_bform h]
  rfl

theorem edgesOf_iform {blocks : List CfgBlock} {va : BitVec 32} (h : isIformJump w) :
    edgesOf blocks i b (ppcDecode w va) =
      if cfgBlockOfVaddr blocks (iformTarget w va) = cfgInvalid then [.plain i cfgInvalid .ret]
      else [.plain i (cfgBlockOfVaddr blocks (iformTarget w va)) .uncond] := by
  have hTarget : (ppcDecode w va).target = iformTarget w va :=
    target_ppcDecode (directTarget_iform h.1 va)
  have hOp : (ppcDecode w va).op = .b ∨ (ppcDecode w va).op = .ba := by
    rw [ppcDecode_iform h.1, decodeIformBranch]
    dsimp only
    rw [h.2]
    by_cases hAa : ppcBits w 30 30 = 0
    · exact .inl (by simp [hAa])
    · exact .inr (by simp [hAa])
  unfold edgesOf
  rw [hTarget]
  rcases hOp with hOp | hOp
  · rw [hOp]
  · rw [hOp]

/-- A conditional return does not end a block. -/
theorem isReturn.not_endsBlock (h : isReturn w) (hPlain : ¬ isPlain w) : ¬ endsBlockWord w := by
  rintro (h16 | ⟨h18, -⟩ | ⟨-, h'⟩)
  · exact absurd (h.1.symm.trans h16) (by decide)
  · exact absurd (h.1.symm.trans h18) (by decide)
  · exact hPlain h'

/-- The graph at a block and the last word of the block. -/
structure AtLast (img : DolImage) (s e : BitVec 32) (leaders : List (BitVec 32))
    (direct cfg : Cfg) (i : Nat) (b : CfgBlock) (w : BitVec 32) : Prop where
  range : AlignedRange s e
  graph : IsDirectGraph img s e leaders direct
  finishes : Finishes img direct cfg
  block : direct.blocks[i]? = some b
  word : cfgReadWord img (b.endVaddr - 4) = some w

namespace AtLast

theorem edge_mem (h : AtLast img s e leaders direct cfg i b w) {edge : CfgEdge}
    (hEdge : edge ∈ edgesOf direct.blocks i b (ppcDecode w (b.endVaddr - 4)))
    (hKind : edge.kind ≠ .indirectUnknown) : edge ∈ cfg.edges :=
  h.finishes.kept edge (h.graph.mem_edges.2 ⟨b, i, w, h.block, h.word, hEdge⟩) hKind

theorem edgeTo (h : AtLast img s e leaders direct cfg i b w) (kind : CfgEdgeKind)
    (ha : a ∈ leaders) (hKind : kind ≠ .indirectUnknown)
    (hEdge : cfgBlockOfVaddr direct.blocks a ≠ cfgInvalid →
      CfgEdge.plain i (cfgBlockOfVaddr direct.blocks a) kind ∈
        edgesOf direct.blocks i b (ppcDecode w (b.endVaddr - 4))) : cfg.EdgeTo i a := by
  obtain ⟨hNe, span, hSpan, hStart⟩ := h.graph.block_of_leader h.range ha
  refine ⟨_, h.edge_mem (hEdge hNe) hKind, rfl, span, ?_, hStart⟩
  rw [h.finishes.spans]
  exact hSpan

theorem mayLeave (h : AtLast img s e leaders direct cfg i b w)
    (hEdge : CfgEdge.plain i cfgInvalid .ret ∈
      edgesOf direct.blocks i b (ppcDecode w (b.endVaddr - 4))) : cfg.MayLeave i :=
  .inl ⟨_, h.edge_mem hEdge nofun, rfl, .inl rfl⟩

/-- Edges out of the block come from its last instruction, or it has a jump table. -/
theorem edge_cases (h : AtLast img s e leaders direct cfg i b w) {edge : CfgEdge}
    (hEdge : edge ∈ cfg.edges) (hSrc : edge.src = i) :
    edge ∈ edgesOf direct.blocks i b (ppcDecode w (b.endVaddr - 4)) ∨
      recoverTable img b ≠ none := by
  rcases h.finishes.added edge hEdge with hDirect | ⟨bi, hTable⟩
  · obtain ⟨b', i', w', hb', hw', hMem⟩ := h.graph.mem_edges.1 hDirect
    obtain rfl : i' = i := (mem_edgesOf hMem).1.symm.trans hSrc
    obtain rfl := Option.some.inj (hb'.symm.trans h.block)
    obtain rfl := Option.some.inj (hw'.symm.trans h.word)
    exact .inl hMem
  · obtain rfl : bi = i := (mem_tableEdges hTable).1.symm.trans hSrc
    refine .inr fun hNone => ?_
    rw [tableEdges, h.block] at hTable
    dsimp only at hTable
    rw [hNone] at hTable
    exact absurd hTable List.not_mem_nil

theorem of_mayLeave (h : AtLast img s e leaders direct cfg i b w) (hLeave : cfg.MayLeave i) :
    (∃ edge ∈ edgesOf direct.blocks i b (ppcDecode w (b.endVaddr - 4)),
      edge.kind = .ret ∨ edge.kind = .indirectUnknown) ∨
      (ppcDecode w (b.endVaddr - 4)).op = .bctr := by
  rcases hLeave with ⟨edge, hEdge, hSrc, hKind⟩ | ⟨sw, hsw, rfl⟩
  · refine (h.edge_cases hEdge hSrc).imp (fun hMem => ⟨edge, hMem, hKind⟩) fun hTable => ?_
    exact (recoverTable_of_op h.word hTable).1
  · obtain ⟨b', hb', hTable⟩ := h.finishes.switches sw hsw
    obtain rfl := Option.some.inj (hb'.symm.trans h.block)
    exact .inr (recoverTable_of_op h.word hTable).1

theorem stop_mem (h : AtLast img s e leaders direct cfg i b w) (hIn : InRange s e b.endVaddr) :
    b.endVaddr ∈ leaders := by
  rcases splitBlocks_stop (h.graph.blocks ▸ List.mem_of_getElem? h.block) with hEq | hMem
  · exact absurd (hEq ▸ hIn.2) (BitVec.lt_irrefl e)
  · exact hMem

/-- An instruction that is no jump goes on to the next block, or off the end. -/
theorem other (h : AtLast img s e leaders direct cfg i b w) (hWord : ¬ endsBlockWord w) :
    (InRange s e b.endVaddr → cfg.EdgeTo i b.endVaddr) ∧
      (¬ InRange s e b.endVaddr → cfg.MayLeave i) := by
  have hOp : (ppcDecode w (b.endVaddr - 4)).op.endsBlock = false := by
    rw [← Bool.not_eq_true, endsBlock_ppcDecode]
    exact hWord
  constructor
  · intro hIn
    refine h.edgeTo .fallthrough (h.stop_mem hIn) nofun fun hNe => ?_
    rw [edgesOf_other hOp, if_pos hNe]
    exact List.mem_singleton_self _
  · intro hOut
    refine h.mayLeave ?_
    have hInvalid := h.graph.no_block fun hMem => hOut (h.graph.leader_inRange h.range hMem)
    rw [edgesOf_other hOp, if_neg (not_not.2 hInvalid)]
    exact List.mem_singleton_self _

theorem showsStep_next (h : AtLast img s e leaders direct cfg i b w) (hWord : ¬ endsBlockWord w) :
    ShowsStep s e cfg i b.endVaddr .next := by
  obtain ⟨hInside, hLeaving⟩ := h.other hWord
  refine ⟨fun a hDest hIn => ?_, fun hOut => hLeaving (hOut _ rfl)⟩
  obtain rfl := Option.some.inj hDest
  exact hInside hIn

theorem target_mem (h : AtLast img s e leaders direct cfg i b w) (hWord : isBform w ∨ isIformJump w)
    (hTarget : directTarget w (b.endVaddr - 4) = some a) (hIn : InRange s e a) : a ∈ leaders := by
  have hva := (h.graph.block_bounds h.range h.block).1
  exact (h.graph.mem_leaders hIn).2 (.inr ⟨_, hva, w, h.word, .inl ⟨hWord, hTarget⟩⟩)

theorem stop_eq (h : AtLast img s e leaders direct cfg i b w) (hOut : ¬ InRange s e b.endVaddr) :
    b.endVaddr - 4 + 4 = e := by
  obtain ⟨hva, -, hStart, hEnd, -, -⟩ := h.graph.block_bounds h.range h.block
  obtain ⟨hLe, -, -⟩ := (mem_insnAddrs h.range.start h.range.stop h.range.lt).1 hva
  rw [BitVec.sub_add_cancel]
  apply BitVec.eq_of_toNat_eq
  by_contra hNe
  refine hOut ⟨?_, ?_⟩
  · rw [BitVec.le_def] at hLe ⊢
    have hLast := (h.graph.block_bounds h.range h.block).2.1
    omega
  · rw [BitVec.lt_def]
    omega

theorem showsStep_bform (h : AtLast img s e leaders direct cfg i b w)
    (hShown : Shown img s e (b.endVaddr - 4) w) (hWord : isBform w) (st : BranchState) :
    ShowsStep s e cfg i b.endVaddr (ppcFlow w (b.endVaddr - 4) st) := by
  rw [ppcFlow_bform hWord]
  split
  case isTrue hTaken =>
    have hIn := hShown.taken hWord hTaken.2.2
    refine ⟨fun a hDest _ => ?_, fun hOut => absurd hIn (hOut _ rfl)⟩
    obtain rfl := Option.some.inj hDest
    have hMem := h.target_mem (.inl hWord) (directTarget_bform hWord _) hIn
    refine h.edgeTo .condTaken hMem nofun fun hNe => ?_
    rw [edgesOf_bform hWord, if_pos hNe]
    exact List.mem_append_left _ (List.mem_singleton_self _)
  case isFalse hNot =>
    refine ⟨fun a hDest hIn => ?_, fun hOut => ?_⟩
    · obtain rfl := Option.some.inj hDest
      refine h.edgeTo .condNotTaken (h.stop_mem hIn) nofun fun hNe => ?_
      rw [edgesOf_bform hWord, if_pos hNe]
      exact List.mem_append_right _ (List.mem_singleton_self _)
    · obtain ⟨hLk, hAlways⟩ := hShown.last hWord (h.stop_eq (hOut _ rfl))
      obtain ⟨hCtr, hCond⟩ := taken_of_always hAlways (ppcBits w 11 15) st
      exact absurd ⟨hCtr, hCond, hLk⟩ hNot

theorem showsStep_iform (h : AtLast img s e leaders direct cfg i b w) (hWord : isIformJump w)
    (st : BranchState) : ShowsStep s e cfg i b.endVaddr (ppcFlow w (b.endVaddr - 4) st) := by
  rw [ppcFlow_iform hWord.1, if_neg (not_not.2 hWord.2)]
  refine ⟨fun a hDest hIn => ?_, fun hOut => ?_⟩
  · obtain rfl := Option.some.inj hDest
    have hMem := h.target_mem (.inr hWord) (directTarget_iform hWord.1 _) hIn
    refine h.edgeTo .uncond hMem nofun fun hNe => ?_
    rw [edgesOf_iform hWord, if_neg hNe]
    exact List.mem_singleton_self _
  · refine h.mayLeave ?_
    have hInvalid := h.graph.no_block fun hMem =>
      hOut _ rfl (h.graph.leader_inRange h.range hMem)
    rw [edgesOf_iform hWord, if_pos hInvalid]
    exact List.mem_singleton_self _

theorem showsStep_return (h : AtLast img s e leaders direct cfg i b w)
    (hShown : Shown img s e (b.endVaddr - 4) w) (hWord : isReturn w) (st : BranchState) :
    ShowsStep s e cfg i b.endVaddr (ppcFlow w (b.endVaddr - 4) st) := by
  have hRet : cfg.MayLeave i → ShowsStep s e cfg i b.endVaddr .ret := fun hLeave =>
    ⟨fun _ hDest => (nomatch hDest), fun _ => hLeave⟩
  by_cases hPlain : isPlain w
  · have hFlow : ppcFlow w (b.endVaddr - 4) st = .ret := by
      rw [ppcFlow_return hWord, hPlain.1]
      exact if_pos (taken_of_always (by decide) _ st)
    rw [hFlow]
    refine hRet (h.mayLeave ?_)
    have hOp : (ppcDecode w (b.endVaddr - 4)).op = .blr :=
      (op_ppcDecode_return hWord.1).2 ⟨hWord, hPlain⟩
    unfold edgesOf
    rw [hOp]
    exact List.mem_singleton_self _
  · -- an unknown word for the decoder, at the end of the function
    have hEnd : b.endVaddr - 4 + 4 = e := (hShown.returns hWord).resolve_left hPlain
    rw [BitVec.sub_add_cancel] at hEnd
    have hNotJump := hWord.not_endsBlock hPlain
    rw [ppcFlow_return hWord]
    split
    · exact hRet ((h.other hNotJump).2 fun hIn => BitVec.lt_irrefl e (hEnd ▸ hIn.2))
    · exact h.showsStep_next hNotJump

theorem showsStep (h : AtLast img s e leaders direct cfg i b w)
    (hShown : Shown img s e (b.endVaddr - 4) w) (st : BranchState) :
    ShowsStep s e cfg i b.endVaddr (ppcFlow w (b.endVaddr - 4) st) := by
  by_cases hBform : isBform w
  · exact h.showsStep_bform hShown hBform st
  by_cases hReturn : isReturn w
  · exact h.showsStep_return hShown hReturn st
  by_cases hIform : isIformJump w
  · exact h.showsStep_iform hIform st
  · have hNext : ppcFlow w (b.endVaddr - 4) st = .next := by
      by_cases h18 : ppcBits w 0 5 = 18
      · rw [ppcFlow_iform h18, if_pos fun hLk => hIform ⟨h18, hLk⟩]
      · exact ppcFlow_other hBform h18 hReturn hShown.ctrJump hShown.rfi st
    rw [hNext]
    refine h.showsStep_next ?_
    rintro (h' | h' | ⟨h' | h', -⟩)
    · exact hBform h'
    · exact hIform h'
    · exact hReturn h'
    · exact hShown.ctrJump h'

end AtLast

/-! ## Both directions -/

theorem IsDirectGraph.block_of_span (h : IsDirectGraph img s e leaders direct)
    {span : BitVec 32 × BitVec 32} (hSpan : direct.spans[i]? = some span) :
    ∃ b w, direct.blocks[i]? = some b ∧ span = (b.startVaddr, b.endVaddr) ∧
      cfgReadWord img (b.endVaddr - 4) = some w := by
  rw [Cfg.spans, List.getElem?_map] at hSpan
  obtain ⟨b, hb, rfl⟩ := Option.map_eq_some_iff.1 hSpan
  obtain ⟨w, hw⟩ := h.mapped b (List.mem_of_getElem? hb)
  exact ⟨b, w, hb, rfl, hw⟩

/-- Inside a block nothing ends a block. -/
theorem IsDirectGraph.not_endsBlock (h : IsDirectGraph img s e leaders direct)
    (hRange : AlignedRange s e) (hb : b ∈ direct.blocks) {va : BitVec 32}
    (hva : va ∈ insnAddrs s e) (hStart : b.startVaddr ≤ va)
    (hStop : va.toNat + 4 < b.endVaddr.toNat) (hEnd : b.endVaddr.toNat ≤ e.toNat)
    (hw : cfgReadWord img va = some w) : ¬ endsBlockWord w := by
  intro hWord
  obtain ⟨hNext, -⟩ := hRange.next hva
  obtain ⟨hLe, -, -⟩ := (mem_insnAddrs hRange.start hRange.stop hRange.lt).1 hva
  rw [BitVec.le_def] at hLe hStart
  have hIn : InRange s e (va + 4) := by
    constructor
    · rw [BitVec.le_def]
      omega
    · rw [BitVec.lt_def]
      omega
  have hLeader : va + 4 ∈ leaders :=
    (h.mem_leaders hIn).2 (.inr ⟨va, hva, w, hw, .inr ⟨hWord, rfl⟩⟩)
  rcases splitBlocks_gap (collectLeaders_pairwise h.collected) (h.blocks ▸ hb) hLeader with
    hBefore | hAfter
  · omega
  · omega

/-- A function whose instructions are all shown has a faithful graph. -/
theorem faithfulTo_of_allShown (hRange : AlignedRange s e)
    (hGraph : IsDirectGraph img s e leaders direct) (hFinishes : Finishes img direct cfg)
    (hShown : AllShown img s e) : FaithfulTo img s e cfg := by
  refine ⟨?_, ?_, ?_, ?_⟩
  · rw [hFinishes.spans]
    exact hGraph.tiles hRange
  · intro span hSpan va w hAligned hStart hStop hw st
    rw [hFinishes.spans] at hSpan
    obtain ⟨b, hb, rfl⟩ := List.mem_map.1 hSpan
    obtain ⟨hFirst, -, hEnd⟩ := (hGraph.tiles hRange).bounds.2 _ hSpan
    have hva : va ∈ insnAddrs s e := by
      rw [mem_insnAddrs hRange.start hRange.stop hRange.lt]
      refine ⟨BitVec.le_trans hFirst hStart, ?_, hAligned⟩
      rw [BitVec.le_def] at hEnd
      rw [BitVec.lt_def]
      omega
    have hNot := hGraph.not_endsBlock hRange hb hva hStart hStop hEnd hw
    have hWord := hShown va hva w hw
    have hNotEnd : va + 4 ≠ e := by
      intro hEq
      have hNext := (hRange.next hva).1
      rw [BitVec.le_def] at hEnd
      rw [hEq] at hNext
      dsimp only at hStop hEnd
      omega
    by_cases h18 : ppcBits w 0 5 = 18
    · rw [ppcFlow_iform h18, if_pos fun hLk => hNot (.inr (.inl ⟨h18, hLk⟩))]
    · refine ppcFlow_other (fun h16 => hNot (.inl h16)) h18 (fun hReturn => ?_) hWord.ctrJump
        hWord.rfi st
      rcases hWord.returns hReturn with hPlain | hEq
      · exact hNot (.inr (.inr ⟨.inl hReturn, hPlain⟩))
      · exact hNotEnd hEq
  · intro va hva w a hw hTarget hIn
    rw [hFinishes.spans, hGraph.mem_starts, hGraph.mem_leaders hIn]
    by_cases hDirect : isBform w ∨ isIformJump w
    · exact .inr ⟨va, hva, w, hw, .inl ⟨hDirect, hTarget⟩⟩
    · have h18 : ppcBits w 0 5 = 18 := by
        unfold directTarget at hTarget
        split at hTarget
        case h_1 h18 => exact h18
        case h_2 h16 => exact absurd (.inl h16) hDirect
        case h_3 => exact nomatch hTarget
      have hCall : ppcBits w 31 31 ≠ 0 := fun hLk => hDirect (.inr ⟨h18, hLk⟩)
      obtain rfl := Option.some.inj ((directTarget_iform h18 va).symm.trans hTarget)
      exact (hShown va hva w hw).calls h18 hCall hIn
  · intro i span w st hSpan hw
    rw [hFinishes.spans] at hSpan
    obtain ⟨b, w', hb, rfl, hw'⟩ := hGraph.block_of_span hSpan
    obtain rfl := Option.some.inj (hw'.symm.trans hw)
    have hLast : AtLast img s e leaders direct cfg i b w' := ⟨hRange, hGraph, hFinishes, hb, hw'⟩
    exact hLast.showsStep (hShown _ (hGraph.block_bounds hRange hb).1 w' hw') st

/-- An instruction is the last one of its block or has another one after it there. -/
theorem exists_block (hRange : AlignedRange s e) (hGraph : IsDirectGraph img s e leaders direct)
    (hFinishes : Finishes img direct cfg) {va : BitVec 32} (hva : va ∈ insnAddrs s e)
    (hw : cfgReadWord img va = some w) :
    ∃ i b, direct.blocks[i]? = some b ∧
      ((va = b.endVaddr - 4 ∧ AtLast img s e leaders direct cfg i b w) ∨
        (b.startVaddr ≤ va ∧ va.toNat + 4 < b.endVaddr.toNat)) := by
  obtain ⟨hLe, hLt, hAligned⟩ := (mem_insnAddrs hRange.start hRange.stop hRange.lt).1 hva
  obtain ⟨i, span, hSpan, hStart, hStop⟩ := (hGraph.tiles hRange).exists_span hLe hLt
  obtain ⟨b, w', hb, rfl, hw'⟩ := hGraph.block_of_span hSpan
  obtain ⟨-, hLast, -, -, -, hEnd⟩ := hGraph.block_bounds hRange hb
  rw [BitVec.lt_def] at hStop
  dsimp only at hStop
  refine ⟨i, b, hb, ?_⟩
  by_cases hEq : va = b.endVaddr - 4
  · subst hEq
    exact .inl ⟨rfl, hRange, hGraph, hFinishes, hb, hw⟩
  · refine .inr ⟨hStart, ?_⟩
    have hNe : va.toNat ≠ (b.endVaddr - 4).toNat := fun hNat => hEq (BitVec.eq_of_toNat_eq hNat)
    omega

section Faithful

variable {va : BitVec 32}

/-- In a faithful graph an instruction that does not always go on is the last one of its block,
and its steps are shown. -/
theorem FaithfulTo.atLast (h : FaithfulTo img s e cfg) (hRange : AlignedRange s e)
    (hGraph : IsDirectGraph img s e leaders direct) (hFinishes : Finishes img direct cfg)
    (hva : va ∈ insnAddrs s e) (hw : cfgReadWord img va = some w)
    (hWord : va + 4 = e ∨ ∃ st, ppcFlow w va st ≠ .next) :
    ∃ i b, AtLast img s e leaders direct cfg i b w ∧ va = b.endVaddr - 4 ∧
      ∀ st, ShowsStep s e cfg i b.endVaddr (ppcFlow w va st) := by
  obtain ⟨i, b, hb, ⟨rfl, hLast⟩ | ⟨hStart, hStop⟩⟩ := exists_block hRange hGraph hFinishes hva hw
  · refine ⟨i, b, hLast, rfl, fun st => ?_⟩
    refine h.steps i (b.startVaddr, b.endVaddr) w st ?_ hw
    rw [hFinishes.spans, Cfg.spans, List.getElem?_map, hb, Option.map_some]
  · exfalso
    have hSpan : (b.startVaddr, b.endVaddr) ∈ cfg.spans := by
      rw [hFinishes.spans]
      exact List.mem_map.2 ⟨b, List.mem_of_getElem? hb, rfl⟩
    rcases hWord with hEnd | ⟨st, hFlow⟩
    · have hNext := (hRange.next hva).1
      have hLe := (hGraph.block_bounds hRange hb).2.2.2.1
      rw [hEnd] at hNext
      omega
    · have hAligned := ((mem_insnAddrs hRange.start hRange.stop hRange.lt).1 hva).2.2
      exact hFlow (h.straight _ hSpan va w hAligned hStart hStop hw st)

/-- The block of a jump to a register shows no step back to that jump. -/
theorem AtLast.not_edgeTo_self (h : AtLast img s e leaders direct cfg i b w)
    (hWord : isCtrJump w ∨ isRfi w) : ¬ cfg.EdgeTo i (b.endVaddr - 4) := by
  rintro ⟨edge, hEdge, hSrc, span, hSpan, hStart⟩
  rw [h.finishes.spans] at hSpan
  obtain ⟨-, hLast, hBounds, -⟩ := h.graph.block_bounds h.range h.block
  have hNoSpan := h.graph.no_span_invalid h.range
  have hLeader : b.endVaddr - 4 ∈ leaders :=
    h.graph.mem_starts.1 (hStart ▸ List.mem_map_of_mem (List.mem_of_getElem? hSpan))
  rcases h.edge_cases hEdge hSrc with hMem | hTable
  · -- the edges of its word go nowhere or to the next block
    have hNext : edge.dst = cfgInvalid ∨ edge.dst = cfgBlockOfVaddr direct.blocks b.endVaddr := by
      by_cases hOp : (ppcDecode w (b.endVaddr - 4)).op = .bctr
      · unfold edgesOf at hMem
        rw [hOp] at hMem
        exact .inl (List.mem_singleton.1 hMem ▸ rfl)
      · have h19 : ppcBits w 0 5 = 19 := hWord.elim And.left And.left
        have hNotJump : (ppcDecode w (b.endVaddr - 4)).op.endsBlock = false := by
          rw [← Bool.not_eq_true, endsBlock_ppcDecode]
          rintro (h16 | ⟨h18, -⟩ | ⟨⟨-, hXo, -⟩ | hCtr, hPlain⟩)
          · exact absurd (h19.symm.trans h16) (by decide)
          · exact absurd (h19.symm.trans h18) (by decide)
          · rcases hWord with ⟨-, hXo', -⟩ | ⟨-, hXo'⟩
            · exact absurd (hXo.symm.trans hXo') (by decide)
            · exact absurd (hXo.symm.trans hXo') (by decide)
          · exact hOp ((op_ppcDecode_bctr h19).2 ⟨hCtr, hPlain⟩)
        rw [edgesOf_other hNotJump] at hMem
        split at hMem
        · exact .inr (List.mem_singleton.1 hMem ▸ rfl)
        · exact .inl (List.mem_singleton.1 hMem ▸ rfl)
    rcases hNext with hInvalid | hStop
    · rw [hInvalid, hNoSpan] at hSpan
      exact nomatch hSpan
    · by_cases hMemStop : b.endVaddr ∈ leaders
      · obtain ⟨-, span', hSpan', hStart'⟩ := h.graph.block_of_leader h.range hMemStop
        rw [← hStop, hSpan] at hSpan'
        obtain rfl := Option.some.inj hSpan'
        have hEq := congrArg BitVec.toNat (hStart.symm.trans hStart')
        omega
      · rw [hStop, h.graph.no_block hMemStop, hNoSpan] at hSpan
        exact nomatch hSpan
  · -- a jump at the start of its block has no table
    have hLt := (recoverTable_of_op h.word hTable).2
    rw [BitVec.lt_def] at hLt
    rcases splitBlocks_gap (collectLeaders_pairwise h.graph.collected)
      (h.graph.blocks ▸ List.mem_of_getElem? h.block) hLeader with hBefore | hAfter
    · omega
    · omega

/-- After a conditional branch the graph shows no way out of the function. -/
theorem AtLast.not_mayLeave_bform (h : AtLast img s e leaders direct cfg i b w)
    (hWord : isBform w) : ¬ cfg.MayLeave i := by
  intro hLeave
  rcases h.of_mayLeave hLeave with ⟨edge, hEdge, hKind⟩ | hOp
  · rw [edgesOf_bform hWord] at hEdge
    rcases List.mem_append.1 hEdge with hEdge | hEdge
    iterate 2
      split at hEdge
      · rw [List.mem_singleton.1 hEdge] at hKind
        exact hKind.elim nofun nofun
      · exact absurd hEdge List.not_mem_nil
  · rw [ppcDecode_bform hWord] at hOp
    exact nomatch hOp

/-- Nor after a conditional return inside the function. -/
theorem AtLast.not_mayLeave_return (h : AtLast img s e leaders direct cfg i b w)
    (hWord : isReturn w) (hPlain : ¬ isPlain w) (hIn : InRange s e b.endVaddr) :
    ¬ cfg.MayLeave i := by
  have hOp : (ppcDecode w (b.endVaddr - 4)).op.endsBlock = false := by
    rw [← Bool.not_eq_true, endsBlock_ppcDecode]
    exact hWord.not_endsBlock hPlain
  have hNe := (h.graph.block_of_leader h.range (h.stop_mem hIn)).1
  intro hLeave
  rcases h.of_mayLeave hLeave with ⟨edge, hEdge, hKind⟩ | hCtr
  · rw [edgesOf_other hOp, if_pos hNe] at hEdge
    rw [List.mem_singleton.1 hEdge] at hKind
    exact hKind.elim nofun nofun
  · rw [hCtr] at hOp
    exact nomatch hOp

/-- The instructions of a function with a faithful graph are all shown. -/
theorem FaithfulTo.allShown (h : FaithfulTo img s e cfg) (hRange : AlignedRange s e)
    (hGraph : IsDirectGraph img s e leaders direct) (hFinishes : Finishes img direct cfg) :
    AllShown img s e := by
  intro va hva w hw
  obtain ⟨hLe, hLt, hAligned⟩ := (mem_insnAddrs hRange.start hRange.stop hRange.lt).1 hva
  have hIndirect : ¬ (isCtrJump w ∨ isRfi w) := by
    intro hWord
    obtain ⟨st, hFlow⟩ : ∃ st, ppcFlow w va st = .jump va := ppcFlow_indirect hWord hAligned
    obtain ⟨i, b, hLast, rfl, hSteps⟩ := h.atLast hRange hGraph hFinishes hva hw
      (.inr ⟨st, by rw [hFlow]; exact nofun⟩)
    have hStep := hSteps st
    rw [hFlow] at hStep
    exact hLast.not_edgeTo_self hWord (hStep.1 _ rfl ⟨hLe, hLt⟩)
  have hTaken := ctrOk_takenState (ppcBits w 6 10)
  have hCond := condOk_takenState (ppcBits w 6 10) (ppcBits w 11 15)
  refine ⟨fun hCtr => hIndirect (.inl hCtr), fun hRfi => hIndirect (.inr hRfi), ?_, ?_, ?_, ?_⟩
  · intro hReturn
    by_contra hNot
    obtain ⟨hPlain, hEnd⟩ := not_or.1 hNot
    have hFlow : ppcFlow w va (takenState (ppcBits w 6 10)) = .ret := by
      rw [ppcFlow_return hReturn, if_pos ⟨hTaken, hCond⟩]
    obtain ⟨i, b, hLast, rfl, hSteps⟩ := h.atLast hRange hGraph hFinishes hva hw
      (.inr ⟨_, by rw [hFlow]; exact nofun⟩)
    have hIn : InRange s e b.endVaddr := by
      by_contra hOut
      exact hEnd (hLast.stop_eq hOut)
    have hStep := hSteps (takenState (ppcBits w 6 10))
    rw [hFlow] at hStep
    exact hLast.not_mayLeave_return hReturn hPlain hIn (hStep.2 fun _ hDest => nomatch hDest)
  · intro hBform hLk
    by_contra hOut
    have hFlow : ppcFlow w va (takenState (ppcBits w 6 10)) = .jump (bformTarget w va) := by
      rw [ppcFlow_bform hBform, if_pos ⟨hTaken, hCond, hLk⟩]
    obtain ⟨i, b, hLast, rfl, hSteps⟩ := h.atLast hRange hGraph hFinishes hva hw
      (.inr ⟨_, by rw [hFlow]; exact nofun⟩)
    have hStep := hSteps (takenState (ppcBits w 6 10))
    rw [hFlow] at hStep
    refine hLast.not_mayLeave_bform hBform (hStep.2 fun a hDest => ?_)
    obtain rfl := Option.some.inj hDest
    exact hOut
  · intro hBform hEnd
    by_contra hNot
    obtain ⟨st, hFlow⟩ : ∃ st, ppcFlow w va st = .next := by
      by_cases hLk : ppcBits w 31 31 = 0
      · have hSometimes : branchAlways (ppcBits w 6 10) = false := by
          rw [← Bool.not_eq_true]
          exact fun hAlways => hNot ⟨hLk, hAlways⟩
        refine ⟨skippedState (ppcBits w 6 10), ?_⟩
        rw [ppcFlow_bform hBform, if_neg]
        exact fun hOk => skippedState_not_taken hSometimes _ ⟨hOk.1, hOk.2.1⟩
      · refine ⟨takenState (ppcBits w 6 10), ?_⟩
        rw [ppcFlow_bform hBform, if_neg fun hOk => hLk hOk.2.2]
    obtain ⟨i, b, hLast, rfl, hSteps⟩ := h.atLast hRange hGraph hFinishes hva hw (.inl hEnd)
    have hStep := hSteps st
    rw [hFlow] at hStep
    rw [BitVec.sub_add_cancel] at hEnd
    refine hLast.not_mayLeave_bform hBform (hStep.2 fun a hDest hIn => ?_)
    obtain rfl := Option.some.inj hDest
    exact BitVec.lt_irrefl e (hEnd ▸ hIn.2)
  · intro h18 _ hIn
    have hStart := h.targets va hva w _ hw (directTarget_iform h18 va) hIn
    rw [hFinishes.spans, hGraph.mem_starts] at hStart
    exact (hGraph.mem_leaders hIn).1 hStart

end Faithful

end Direct

/-- The graph of a function is a faithful picture of it exactly if every instruction is one that
graphs show. -/
theorem cfgBuild_faithfulTo_iff {fuel : Nat} {img : DolImage} {startVaddr endVaddr : BitVec 32}
    {cfg : Cfg} (hFuel : cfgFuel ≤ fuel) (hRun : cfgBuild fuel img startVaddr endVaddr = .ok cfg) :
    FaithfulTo img startVaddr endVaddr cfg ↔ AllShown img startVaddr endVaddr := by
  obtain ⟨hRange, direct, leaders, hGraph, hFinishes⟩ := cfgBuild_finishes hFuel hRun
  constructor
  · intro h
    exact h.allShown hRange hGraph hFinishes
  · exact faithfulTo_of_allShown hRange hGraph hFinishes

/-! ## A function with a conditional return -/

/-- `beqlr; li r3, 1; blr`. -/
def conditionalReturnImage : DolImage :=
  dolImage [0x4D820020, 0x38600001, 0x4E800020] [0]

def conditionalReturnCfg : Cfg where
  blocks := [{ cfgAddBlock 0x80004000 0x8000400C with idom := 0 }]
  edges := [.plain 0 cfgInvalid .ret]
  switches := []
  entryBlock := 0
  isIrreducible := false

theorem cfgBuild_conditionalReturnImage :
    cfgBuild cfgFuel conditionalReturnImage 0x80004000 0x8000400C = .ok conditionalReturnCfg := by
  rfl

theorem cfgBuild_faithfulTo_iff_conditionalReturnImage :
    FaithfulTo conditionalReturnImage 0x80004000 0x8000400C conditionalReturnCfg ↔
      AllShown conditionalReturnImage 0x80004000 0x8000400C :=
  cfgBuild_faithfulTo_iff (Nat.le_refl _) cfgBuild_conditionalReturnImage

set_option maxRecDepth 20000 in
/-- The return in the first instruction, taken where the condition holds, is lost in the middle of
the only block. -/
theorem not_faithfulTo_conditionalReturnImage :
    dolParse conditionalReturnImage.bytes = .ok conditionalReturnImage ∧
      ∃ cfg, cfgBuild cfgFuel conditionalReturnImage 0x80004000 0x8000400C = .ok cfg ∧
        ¬ FaithfulTo conditionalReturnImage 0x80004000 0x8000400C cfg := by
  refine ⟨rfl, conditionalReturnCfg, cfgBuild_conditionalReturnImage, fun h => ?_⟩
  have hStraight := h.straight (0x80004000, 0x8000400C) (List.mem_singleton_self _) 0x80004000
    0x4D820020 rfl (BitVec.le_refl _) (by decide) rfl ⟨0, 0, fun _ => true⟩
  exact absurd hStraight (by decide)

end Calynda.Decompiler
