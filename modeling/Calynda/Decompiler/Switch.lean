import Calynda.Decompiler.Blocks

/-!
# Jump tables

For a block that ends in `bctr`, the instructions before it are searched for the address of a
table of code addresses; each entry that starts a block becomes a `switchCase` edge.
-/

namespace Calynda.Decompiler

def vaddrInText (img : DolImage) (va : BitVec 32) : Bool :=
  match dolSectionForVaddr img.sections va with
  | some s => s.kind = .text
  | none => false

/-- The upper half of the table address and the register it was found in. -/
abbrev TableHigh := Option (BitVec 32 × Nat)

/-- The walk back from `va`, of at most `walks` further instructions. -/
def findTableBaseFrom (img : DolImage) (stop : BitVec 32) :
    Nat → BitVec 32 → TableHigh → Option (BitVec 32)
  | 0, _, _ => none
  | walks + 1, va, hi =>
    if stop < va then
      let va := va - 4
      match cfgReadWord img va with
      | none => none
      | some w =>
        let insn := ppcDecode w va
        if insn.op = .addis ∧ insn.ra = 0 then
          findTableBaseFrom img stop walks va (some (insn.imm <<< 16, insn.rd))
        else
          match hi with
          | none => findTableBaseFrom img stop walks va hi
          | some (high, hiReg) =>
            if insn.op = .addi ∧ insn.ra = hiReg ∧ insn.rd = hiReg then some (high + insn.imm)
            else if insn.op = .ori ∧ insn.ra = hiReg ∧ insn.rd = hiReg then
              some (high ||| insn.imm)
            else findTableBaseFrom img stop walks va hi
    else none

def findTableBase (img : DolImage) (b : CfgBlock) : Option (BitVec 32) :=
  findTableBaseFrom img b.startVaddr 16 (b.endVaddr - 4) none

/-- The entries of the table from number `i` on, of at most `count` more. -/
def recoverCasesFrom (img : DolImage) (tableVa : BitVec 32) : Nat → Nat → List CfgSwitchCase
  | 0, _ => []
  | count + 1, i =>
    match cfgReadWord img (tableVa + BitVec.ofNat 32 (i * 4)) with
    | none => []
    | some w =>
      if w &&& 3 ≠ 0 then []
      else if vaddrInText img w = false then []
      else { caseValue := i, targetVaddr := w } :: recoverCasesFrom img tableVa count (i + 1)

def recoverCases (img : DolImage) (tableVa : BitVec 32) : List CfgSwitchCase :=
  recoverCasesFrom img tableVa 256 0

/-- The edges to those case targets that start a block. -/
def switchCaseEdges (blocks : List CfgBlock) (bi : Nat) (cases : List CfgSwitchCase) :
    List CfgEdge :=
  (cases.filter fun c => cfgBlockOfVaddr blocks c.targetVaddr ≠ cfgInvalid).map fun c =>
    { src := bi, dst := cfgBlockOfVaddr blocks c.targetVaddr, kind := .switchCase,
      caseValue := c.caseValue }

def registerSwitch (cfg : Cfg) (bi : Nat) (tableVa : BitVec 32) (cases : List CfgSwitchCase) : Cfg :=
  { cfg with
    edges := cfg.edges.filter (fun e => ¬ (e.src = bi ∧ e.kind = .indirectUnknown)) ++
      switchCaseEdges cfg.blocks bi cases
    switches := cfg.switches ++
      [{ blockIndex := bi, tableVaddr := tableVa, defaultVaddr := 0, cases := cases }]
    blocks := cfg.blocks.modify bi fun b => { b with regionKind := .switch } }

/-- The table of the jump that ends a block, with its entries. -/
def recoverTable (img : DolImage) (b : CfgBlock) : Option (BitVec 32 × List CfgSwitchCase) :=
  if b.insnCount = 0 then none
  else do
    let w ← cfgReadWord img (b.endVaddr - 4)
    if (ppcDecode w (b.endVaddr - 4)).op ≠ .bctr then none
    let tableVa ← findTableBase img b
    let cases := recoverCases img tableVa
    if cases = [] then none else some (tableVa, cases)

def recoverSwitch (img : DolImage) (cfg : Cfg) (bi : Nat) : Cfg :=
  match cfg.blocks[bi]? with
  | none => cfg
  | some b =>
    match recoverTable img b with
    | none => cfg
    | some (tableVa, cases) => registerSwitch cfg bi tableVa cases

def cfgRecoverSwitches (img : DolImage) (cfg : Cfg) : Cfg :=
  (List.range cfg.blocks.length).foldl (recoverSwitch img) cfg

/-! ## What recovery changes -/

variable {img : DolImage} {cfg cfg' cfg'' : Cfg}

/-- The edges that the jump table of block `bi` stands for. -/
def tableEdges (img : DolImage) (cfg : Cfg) (bi : Nat) : List CfgEdge :=
  match cfg.blocks[bi]? with
  | none => []
  | some b =>
    match recoverTable img b with
    | none => []
    | some (_, cases) => switchCaseEdges cfg.blocks bi cases

/-- Two graphs whose blocks are the same up to the kinds of region. -/
structure SameBlocks (cfg cfg' : Cfg) : Prop where
  entry : cfg'.entryBlock = cfg.entryBlock
  extents : cfg'.blocks.map (·.extent) = cfg.blocks.map (·.extent)
  idoms : ∀ b, cfg'.idomOf b = cfg.idomOf b
  header : ∀ b, cfg'.headerOf b = cfg.headerOf b
  loopDepth : ∀ b, cfg'.loopDepthOf b = cfg.loopDepthOf b

namespace SameBlocks

theorem refl (cfg : Cfg) : SameBlocks cfg cfg :=
  ⟨rfl, rfl, fun _ => rfl, fun _ => rfl, fun _ => rfl⟩

theorem trans (h : SameBlocks cfg cfg') (h' : SameBlocks cfg' cfg'') : SameBlocks cfg cfg'' where
  entry := h'.entry.trans h.entry
  extents := h'.extents.trans h.extents
  idoms b := (h'.idoms b).trans (h.idoms b)
  header b := (h'.header b).trans (h.header b)
  loopDepth b := (h'.loopDepth b).trans (h.loopDepth b)

theorem length_blocks (h : SameBlocks cfg cfg') : cfg'.blocks.length = cfg.blocks.length := by
  simpa using congrArg List.length h.extents

/-- Only the kind of region of some blocks differs. -/
theorem of_blocks_eq {blocks : List CfgBlock}
    (h : ∀ {β : Type} (g : CfgBlock → β), (∀ b k m, g { b with regionKind := k, ifMerge := m } = g b) →
      blocks.map g = cfg.blocks.map g)
    (hBlocks : cfg'.blocks = blocks) (hEntry : cfg'.entryBlock = cfg.entryBlock) :
    SameBlocks cfg cfg' where
  entry := hEntry
  extents := by
    rw [hBlocks]
    exact h _ fun _ _ _ => rfl
  idoms b := by
    unfold Cfg.idomOf
    rw [hBlocks, h _ fun _ _ _ => rfl]
  header b := by
    unfold Cfg.headerOf
    rw [hBlocks, h _ fun _ _ _ => rfl]
  loopDepth b := by
    unfold Cfg.loopDepthOf
    rw [hBlocks, h _ fun _ _ _ => rfl]

end SameBlocks

theorem cfgBlockOfVaddr_congr {blocks blocks' : List CfgBlock}
    (h : blocks'.map (·.extent) = blocks.map (·.extent)) (vaddr : BitVec 32) :
    cfgBlockOfVaddr blocks' vaddr = cfgBlockOfVaddr blocks vaddr := by
  have hFind : ∀ l : List CfgBlock, l.findIdx? (·.startVaddr = vaddr) =
      (l.map (·.extent)).findIdx? (fun x => decide (x.1 = vaddr)) := by
    intro l
    rw [List.findIdx?_map]
    rfl
  unfold cfgBlockOfVaddr
  rw [hFind, hFind, h]

theorem recoverTable_congr {b b' : CfgBlock} (h : b'.extent = b.extent) :
    recoverTable img b' = recoverTable img b := by
  have hStart : b'.startVaddr = b.startVaddr := congrArg Prod.fst h
  have hEnd : b'.endVaddr = b.endVaddr := congrArg (·.2.1) h
  have hCount : b'.insnCount = b.insnCount := congrArg (·.2.2) h
  unfold recoverTable findTableBase
  rw [hStart, hEnd, hCount]

theorem tableEdges_congr (h : cfg'.blocks.map (·.extent) = cfg.blocks.map (·.extent)) (bi : Nat) :
    tableEdges img cfg' bi = tableEdges img cfg bi := by
  have hAt : (cfg'.blocks[bi]?).map (·.extent) = (cfg.blocks[bi]?).map (·.extent) := by
    rw [← List.getElem?_map, ← List.getElem?_map, h]
  unfold tableEdges
  cases hb : cfg.blocks[bi]? with
  | none =>
    rw [hb] at hAt
    rw [Option.map_eq_none_iff.1 hAt]
  | some b =>
    rw [hb] at hAt
    obtain ⟨b', hb', hExtent⟩ := Option.map_eq_some_iff.1 hAt
    simp only [hb', recoverTable_congr hExtent, switchCaseEdges, cfgBlockOfVaddr_congr h]

theorem mem_switchCaseEdges {blocks : List CfgBlock} {bi : Nat} {cases : List CfgSwitchCase}
    {e : CfgEdge} (h : e ∈ switchCaseEdges blocks bi cases) :
    e.src = bi ∧ e.dst ≠ cfgInvalid ∧ e.dst < blocks.length ∧ e.kind = .switchCase := by
  obtain ⟨c, hc, rfl⟩ := List.mem_map.1 h
  have hValid : cfgBlockOfVaddr blocks c.targetVaddr ≠ cfgInvalid := by
    simpa using (List.mem_filter.1 hc).2
  exact ⟨rfl, hValid, cfgBlockOfVaddr_lt hValid, rfl⟩

theorem mem_tableEdges {bi : Nat} {e : CfgEdge} (h : e ∈ tableEdges img cfg bi) :
    e.src = bi ∧ e.dst ≠ cfgInvalid ∧ e.dst < cfg.blocks.length ∧ e.kind = .switchCase ∧
      bi < cfg.blocks.length := by
  unfold tableEdges at h
  split at h
  case h_1 => exact absurd h List.not_mem_nil
  case h_2 b hb =>
    split at h
    case h_1 => exact absurd h List.not_mem_nil
    case h_2 =>
      obtain ⟨hSrc, hDst, hLt, hKind⟩ := mem_switchCaseEdges h
      exact ⟨hSrc, hDst, hLt, hKind, (List.getElem?_eq_some_iff.1 hb).1⟩

/-- Unresolved indirect branches have no target. -/
def UnknownsLeave (cfg : Cfg) : Prop :=
  ∀ e ∈ cfg.edges, e.kind = .indirectUnknown → e.dst = cfgInvalid

/-- What recovery up to some block does: the blocks keep what they record, and the edges inside
the function are joined by those of the tables. -/
structure SwitchesRecovered (img : DolImage) (cfg cfg' : Cfg) (tables : Nat → Prop) : Prop where
  same : SameBlocks cfg cfg'
  unknowns : UnknownsLeave cfg'
  edges : ∀ e, e ∈ cfg'.edges ∧ e.dst ≠ cfgInvalid ↔
    (e ∈ cfg.edges ∧ e.dst ≠ cfgInvalid) ∨ ∃ bi, tables bi ∧ e ∈ tableEdges img cfg bi
  kept : ∀ e ∈ cfg.edges, e.kind ≠ .indirectUnknown → e ∈ cfg'.edges
  added : ∀ e ∈ cfg'.edges, e ∈ cfg.edges ∨ ∃ bi, tables bi ∧ e ∈ tableEdges img cfg bi
  switches : ∀ sw ∈ cfg'.switches, sw ∈ cfg.switches ∨
    ∃ b, cfg.blocks[sw.blockIndex]? = some b ∧ recoverTable img b ≠ none

theorem recoverSwitch_spec (hUnknowns : UnknownsLeave cfg) (bi : Nat) :
    SwitchesRecovered img cfg (recoverSwitch img cfg bi) (· = bi) := by
  have hNone : tableEdges img cfg bi = [] → SwitchesRecovered img cfg cfg (· = bi) := by
    intro hNil
    refine ⟨.refl cfg, hUnknowns, fun e => (or_iff_left ?_).symm, fun _ he _ => he,
      fun _ he => .inl he, fun _ h => .inl h⟩
    rintro ⟨_, rfl, he⟩
    rw [hNil] at he
    exact absurd he List.not_mem_nil
  unfold recoverSwitch
  split
  case h_1 hb => exact hNone (by simp [tableEdges, hb])
  case h_2 b hb =>
    split
    case h_1 hTable => exact hNone (by simp [tableEdges, hb, hTable])
    case h_2 tableVa cases hTable =>
      have hEdges : tableEdges img cfg bi = switchCaseEdges cfg.blocks bi cases := by
        simp [tableEdges, hb, hTable]
      refine ⟨?_, ?_, fun e => ?_, fun e he hKind => ?_, fun e he => ?_, fun sw hsw => ?_⟩
      · refine SameBlocks.of_blocks_eq (fun g hg => ?_) rfl rfl
        exact List.map_modify_of_eq g _ (fun b => hg b .switch b.ifMerge) _ _
      · intro e he hKind
        rcases List.mem_append.1 he with he | he
        · exact hUnknowns e (List.mem_filter.1 he).1 hKind
        · rw [(mem_switchCaseEdges he).2.2.2] at hKind
          exact nomatch hKind
      · simp only [registerSwitch, List.mem_append, List.mem_filter, exists_eq_left, hEdges]
        constructor
        · rintro ⟨⟨he, -⟩ | he, hDst⟩
          · exact .inl ⟨he, hDst⟩
          · exact .inr he
        · rintro (⟨he, hDst⟩ | he)
          · refine ⟨.inl ⟨he, ?_⟩, hDst⟩
            simp only [decide_not, Bool.not_eq_true', decide_eq_false_iff_not]
            exact fun h => hDst (hUnknowns e he h.2)
          · exact ⟨.inr he, (mem_switchCaseEdges he).2.1⟩
      · refine List.mem_append_left _ (List.mem_filter.2 ⟨he, ?_⟩)
        simp only [decide_not, Bool.not_eq_true', decide_eq_false_iff_not]
        exact fun h => hKind h.2
      · rcases List.mem_append.1 he with he | he
        · exact .inl (List.mem_filter.1 he).1
        · exact .inr ⟨bi, rfl, hEdges ▸ he⟩
      · rcases List.mem_append.1 hsw with hsw | hsw
        · exact .inl hsw
        · rw [List.mem_singleton.1 hsw]
          exact .inr ⟨b, hb, by simp [hTable]⟩

theorem SwitchesRecovered.trans {tables tables' : Nat → Prop}
    (h : SwitchesRecovered img cfg cfg' tables) (h' : SwitchesRecovered img cfg' cfg'' tables') :
    SwitchesRecovered img cfg cfg'' fun bi => tables bi ∨ tables' bi where
  same := h.same.trans h'.same
  unknowns := h'.unknowns
  edges e := by
    rw [h'.edges, h.edges, or_assoc]
    refine or_congr Iff.rfl ?_
    simp only [tableEdges_congr h.same.extents, or_and_right, exists_or]
  kept e he hKind := h'.kept e (h.kept e he hKind) hKind
  added e he := by
    simp only [or_and_right, exists_or, ← or_assoc]
    refine (h'.added e he).imp (h.added e) ?_
    simp only [tableEdges_congr h.same.extents]
    exact id
  switches sw hsw := by
    rcases h'.switches sw hsw with hsw | ⟨b', hb', hTable⟩
    · exact h.switches sw hsw
    · have hAt : (cfg'.blocks[sw.blockIndex]?).map (·.extent) =
          (cfg.blocks[sw.blockIndex]?).map (·.extent) := by
        rw [← List.getElem?_map, ← List.getElem?_map, h.same.extents]
      rw [hb', Option.map_some] at hAt
      obtain ⟨b, hb, hExtent⟩ := Option.map_eq_some_iff.1 hAt.symm
      exact .inr ⟨b, hb, recoverTable_congr hExtent ▸ hTable⟩

theorem recoverSwitches_spec (bis : List Nat) (hUnknowns : UnknownsLeave cfg) :
    SwitchesRecovered img cfg (bis.foldl (recoverSwitch img) cfg) (· ∈ bis) := by
  induction bis generalizing cfg with
  | nil =>
    refine ⟨.refl cfg, hUnknowns, fun e => (or_iff_left ?_).symm, fun _ he _ => he,
      fun _ he => .inl he, fun _ h => .inl h⟩
    rintro ⟨bi, hMem, -⟩
    exact absurd hMem List.not_mem_nil
  | cons bi bis ih =>
    have hStep : SwitchesRecovered img cfg (recoverSwitch img cfg bi) (· = bi) :=
      recoverSwitch_spec hUnknowns bi
    have hRest := hStep.trans (ih hStep.unknowns)
    refine ⟨hRest.same, hRest.unknowns, fun e => (hRest.edges e).trans ?_, hRest.kept,
      fun e he => ?_, hRest.switches⟩
    · simp only [List.mem_cons]
    · simpa only [List.mem_cons] using hRest.added e he

/-- Recovery adds the edges of the tables of all blocks. -/
theorem cfgRecoverSwitches_edges (hUnknowns : UnknownsLeave cfg) (e : CfgEdge) :
    e ∈ (cfgRecoverSwitches img cfg).edges ∧ e.dst ≠ cfgInvalid ↔
      (e ∈ cfg.edges ∧ e.dst ≠ cfgInvalid) ∨ ∃ bi, e ∈ tableEdges img cfg bi := by
  refine ((recoverSwitches_spec _ hUnknowns).edges e).trans (or_congr Iff.rfl ?_)
  refine exists_congr fun bi => ⟨And.right, fun h => ⟨?_, h⟩⟩
  exact List.mem_range.2 (mem_tableEdges h).2.2.2.2

end Calynda.Decompiler
