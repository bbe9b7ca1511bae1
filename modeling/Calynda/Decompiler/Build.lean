import Calynda.Decompiler.Regions

/-!
# Building the graph of a function

`cfgBuild` runs the passes one after the other: blocks and edges, immediate dominators, loops,
jump tables, regions. The edges of the jump tables come after the facts about dominance and
loops; `cfgBuild_hasFacts_iff` says when these facts still hold for all edges.
-/

namespace Calynda.Decompiler

open FlowGraph

inductive CfgBuildError where
  | badArgs
  | leaders
  | wiring
  | fault (fault : CfgFault)
  deriving DecidableEq, Repr

def liftFault {α : Type} : Except CfgFault α → Except CfgBuildError α
  | .ok a => .ok a
  | .error f => .error (.fault f)

def orError {α : Type} (error : CfgBuildError) : Option α → Except CfgBuildError α
  | some a => .ok a
  | none => .error error

/-- The passes up to the one that recovers jump tables. -/
def cfgBuildDirect (fuel : Nat) (img : DolImage) (startVaddr endVaddr : BitVec 32) :
    Except CfgBuildError Cfg :=
  if endVaddr ≤ startVaddr ∨ startVaddr &&& 3 ≠ 0 ∨ endVaddr &&& 3 ≠ 0 then .error .badArgs
  else do
    let leaders ← orError .leaders (collectLeaders img startVaddr endVaddr)
    let cfg ← orError .wiring (splitAndWire img endVaddr leaders)
    let cfg ← liftFault (cfgComputeDominance fuel cfg)
    liftFault (cfgClassifyLoops fuel cfg)

def cfgBuild (fuel : Nat) (img : DolImage) (startVaddr endVaddr : BitVec 32) :
    Except CfgBuildError Cfg := do
  let cfg ← cfgBuildDirect fuel img startVaddr endVaddr
  liftFault (cfgClassifyRegions (cfgRecoverSwitches img cfg) fuel)

/-- Enough for the passes over any function. -/
def cfgFuel : Nat := dominanceFuel (2 ^ 30)

section Direct

variable {fuel : Nat} {img : DolImage} {s e : BitVec 32} {cfg direct : Cfg}

theorem bind_eq_ok {ε α β : Type} {x : Except ε α} {f : α → Except ε β} {b : β} :
    (x >>= f) = .ok b ↔ ∃ a, x = .ok a ∧ f a = .ok b := by
  cases x with
  | error error => exact iff_of_false nofun fun ⟨_, h, _⟩ => nomatch h
  | ok a => exact ⟨fun h => ⟨a, rfl, h⟩, fun ⟨_, h, hf⟩ => by cases h; exact hf⟩

theorem liftFault_eq_ok {α : Type} {x : Except CfgFault α} {a : α} :
    liftFault x = .ok a ↔ x = .ok a := by
  cases x with
  | error f => exact iff_of_false nofun nofun
  | ok a' => simp [liftFault]

theorem orError_eq_ok {α : Type} {error : CfgBuildError} {x : Option α} {a : α} :
    orError error x = .ok a ↔ x = some a := by
  cases x with
  | none => exact iff_of_false nofun nofun
  | some a' => simp [orError]

theorem toNat_mod_of_and {x : BitVec 32} (h : x &&& 3 = 0) : x.toNat % 4 = 0 := by
  have hNat := congrArg BitVec.toNat h
  rw [BitVec.toNat_and] at hNat
  exact (Nat.and_two_pow_sub_one_eq_mod x.toNat 2).symm.trans hNat

theorem sameIdoms_withIdoms_fields (cfg : Cfg) (idom : List Nat) :
    cfg.SameShape (cfg.withIdoms idom) ∧ ∀ b, (cfg.withIdoms idom).headerOf b = cfg.headerOf b := by
  have hMap : ∀ {β : Type} (g : CfgBlock → β), (∀ b d, g { b with idom := d } = g b) →
      (cfg.withIdoms idom).blocks.map g = cfg.blocks.map g := by
    intro β g hg
    refine List.ext_getElem (by simp [Cfg.withIdoms]) fun j hj hj' => ?_
    simp [Cfg.withIdoms, hg]
  refine ⟨⟨rfl, rfl, hMap _ fun _ _ => rfl, rfl⟩, fun b => ?_⟩
  unfold Cfg.headerOf
  rw [hMap _ fun _ _ => rfl]

/-- Up to the recovery of jump tables the facts are those of the edges. -/
theorem cfgBuildDirect_spec (hFuel : cfgFuel ≤ fuel) (h : cfgBuildDirect fuel img s e = .ok cfg) :
    AlignedRange s e ∧ ∃ direct leaders, directGraph img s e = some direct ∧
      IsDirectGraph img s e leaders direct ∧ direct.SameShape cfg ∧ cfg.HasIdoms ∧ cfg.HasLoops := by
  unfold cfgBuildDirect at h
  split at h
  case isTrue _ => exact nomatch h
  case isFalse hArgs =>
    simp only [not_or, not_not] at hArgs
    obtain ⟨hLt, hStart, hStop⟩ := hArgs
    have hRange : AlignedRange s e :=
      ⟨toNat_mod_of_and hStart, toNat_mod_of_and hStop, by simpa using hLt⟩
    obtain ⟨leaders, hLeaders, h⟩ := bind_eq_ok.1 h
    obtain ⟨direct, hDirect, h⟩ := bind_eq_ok.1 h
    obtain ⟨cfg₁, hDominance, h⟩ := bind_eq_ok.1 h
    rw [orError_eq_ok] at hLeaders hDirect
    rw [liftFault_eq_ok] at hDominance h
    have hGraph : directGraph img s e = some direct := by
      rw [directGraph, hLeaders]
      exact hDirect
    obtain ⟨leaders', hIs⟩ := isDirectGraph_of_eq_some hGraph
    have hWf := hIs.wellFormed hRange
    have hBlocks : direct.blocks.length ≤ 2 ^ 30 := by
      rw [hIs.blocks, length_splitBlocks]
      exact hIs.leaders_length hRange
    have hEnough : dominanceFuel direct.blocks.length ≤ fuel := by
      refine Nat.le_trans ?_ hFuel
      unfold cfgFuel dominanceFuel
      have := Nat.mul_le_mul hBlocks hBlocks
      omega
    obtain ⟨idom, hRun, hIdoms⟩ := cfgComputeDominance_correct direct hWf hEnough
    obtain rfl := Except.ok.inj (hRun.symm.trans hDominance)
    obtain ⟨hShape, hHeader⟩ := sameIdoms_withIdoms_fields direct idom
    have hLoopFuel : (direct.withIdoms idom).blocks.length < fuel := by
      rw [hShape.length_blocks]
      unfold dominanceFuel at hEnough
      omega
    obtain ⟨cfg₂, hRun₂, hSame, hLoops⟩ := cfgClassifyLoops_spec (hShape.wellFormed hWf) hIdoms
      (fun b => (hHeader b).trans (hIs.headerOf_eq_false b)) hLoopFuel
    obtain rfl := Except.ok.inj (hRun₂.symm.trans h)
    exact ⟨hRange, direct, leaders', hGraph, hIs, hShape.trans hSame.toSameShape,
      hSame.hasIdoms hIdoms, hLoops⟩

/-- The stages of a finished build: the graph of the direct branches, the same with dominance and
loops, the jump tables and the regions. -/
structure BuildStages (img : DolImage) (s e : BitVec 32) (leaders : List (BitVec 32))
    (direct before cfg : Cfg) : Prop where
  graph : directGraph img s e = some direct
  isDirect : IsDirectGraph img s e leaders direct
  shape : direct.SameShape before
  idoms : before.HasIdoms
  loops : before.HasLoops
  unknowns : UnknownsLeave before
  recovered : SwitchesRecovered img before (cfgRecoverSwitches img before)
    (· ∈ List.range before.blocks.length)
  edges : cfg.edges = (cfgRecoverSwitches img before).edges
  switches : cfg.switches = (cfgRecoverSwitches img before).switches
  same : SameBlocks (cfgRecoverSwitches img before) cfg

theorem cfgBuild_stages (hFuel : cfgFuel ≤ fuel) (h : cfgBuild fuel img s e = .ok cfg) :
    AlignedRange s e ∧ ∃ leaders direct before, BuildStages img s e leaders direct before cfg := by
  obtain ⟨before, hBefore, hRegions⟩ := bind_eq_ok.1 h
  rw [liftFault_eq_ok] at hRegions
  obtain ⟨hEdges, hSwitches, hSame⟩ := cfgClassifyRegions_keeps hRegions
  obtain ⟨hRange, direct, leaders, hGraph, hIs, hShape, hIdoms, hLoops⟩ :=
    cfgBuildDirect_spec hFuel hBefore
  have hUnknowns : UnknownsLeave before := by
    rw [UnknownsLeave, hShape.edges]
    exact hIs.unknownsLeave
  exact ⟨hRange, leaders, direct, before, hGraph, hIs, hShape, hIdoms, hLoops, hUnknowns,
    recoverSwitches_spec _ hUnknowns, hEdges, hSwitches, hSame⟩

end Direct

/-! ## Facts after further edges -/

/-- The facts recorded are those of all edges, and every block that is reached, by a jump table or
not, counts as reached. -/
structure Cfg.HasFacts (cfg : Cfg) : Prop where
  idoms : cfg.HasIdoms
  loops : cfg.HasLoops
  reached : ∀ b, cfg.graph.Reachable b → cfg.idomOf b ≠ cfgInvalid

/-- An edge that changes no fact of a graph: from a reached block it goes to a reached block and
not past its immediate dominator, and a loop that it closes has its header already. -/
structure EdgeFits (cfg : Cfg) (e : CfgEdge) : Prop where
  reached : cfg.graph.Reachable e.src → cfg.graph.Reachable e.dst
  below : cfg.graph.Reachable e.src → e.dst = cfg.entryBlock ∨
    ∃ d, cfg.graph.IsImmediateDominator d e.dst ∧ cfg.graph.Dominates d e.src
  header : cfg.Dom e.dst e.src → EnteredFromBelow cfg cfg.edges e.dst

theorem Cfg.SameShape.edgeFits {cfg cfg' : Cfg} (h : cfg.SameShape cfg') {e : CfgEdge}
    (hFits : EdgeFits cfg e) : EdgeFits cfg' e where
  reached := by
    rw [h.graph]
    exact hFits.reached
  below := by
    rw [h.graph, h.entry]
    exact hFits.below
  header := by
    simp only [Cfg.Dom, EnteredFromBelow, h.graph, h.edges]
    exact hFits.header

theorem Cfg.SameShape.symm {cfg cfg' : Cfg} (h : cfg.SameShape cfg') : cfg'.SameShape cfg :=
  ⟨h.edges.symm, h.entry.symm, h.extents.symm, h.switches.symm⟩

section Joined

variable {before after : Cfg} {joining : CfgEdge → Prop}

/-- The blocks of one graph with the edges of another one joined to its own. -/
structure Joined (before after : Cfg) (joining : CfgEdge → Prop) : Prop where
  same : SameBlocks before after
  edges : ∀ e, e ∈ after.edges ∧ e.dst ≠ cfgInvalid ↔
    (e ∈ before.edges ∧ e.dst ≠ cfgInvalid) ∨ joining e
  inside : ∀ e, joining e →
    e.src < before.blocks.length ∧ e.dst < before.blocks.length ∧ e.kind = .switchCase

namespace Joined

theorem edge_iff (h : Joined before after joining) (p b : Nat) :
    after.graph.Edge p b ↔ before.graph.Edge p b ∨ ∃ e, joining e ∧ e.src = p ∧ e.dst = b := by
  constructor
  · rintro ⟨e, he, rfl, rfl, hDst⟩
    rcases (h.edges e).1 ⟨he, hDst⟩ with ⟨hOld, -⟩ | hJoin
    · exact .inl ⟨e, hOld, rfl, rfl, hDst⟩
    · exact .inr ⟨e, hJoin, rfl, rfl⟩
  · rintro (⟨e, he, rfl, rfl, hDst⟩ | ⟨e, hJoin, rfl, rfl⟩)
    · exact ⟨e, ((h.edges e).2 (.inl ⟨he, hDst⟩)).1, rfl, rfl, hDst⟩
    · obtain ⟨he, hDst⟩ := (h.edges e).2 (.inr hJoin)
      exact ⟨e, he, rfl, rfl, hDst⟩

theorem extends_graph (h : Joined before after joining) : Extends before.graph after.graph where
  entry := h.same.entry
  edge p b hEdge := (h.edge_iff p b).2 (.inl hEdge)

theorem reachable_lt (h : Joined before after joining) (hWf : before.WellFormed) {b : Nat}
    (hReach : after.graph.Reachable b) : b < before.blocks.length := by
  refine Reachable.closed (S := (· < before.blocks.length)) ?_ (fun p b _ hEdge => ?_) hReach
  · show after.entryBlock < _
    rw [h.same.entry]
    exact hWf.entry_lt
  · rcases (h.edge_iff p b).1 hEdge with hOld | ⟨e, hJoin, -, rfl⟩
    · exact (hWf.edge_lt hOld).2
    · exact (h.inside e hJoin).2.1

/-- Where the fields are right for both graphs, the joining edges do not go past immediate
dominators. -/
theorem below_of_hasIdoms (h : Joined before after joining) (hBefore : before.HasIdoms)
    (hAfter : after.HasIdoms) {e : CfgEdge} (hJoin : joining e)
    (hDst : before.graph.Reachable e.dst) :
    e.dst = before.entryBlock ∨
      ∃ d, before.graph.IsImmediateDominator d e.dst ∧ before.graph.Dominates d e.src := by
  by_cases hEntry : e.dst = before.entryBlock
  · exact .inl hEntry
  · have hExt := h.extends_graph
    have hImm := hAfter.immediate e.dst (hExt.reachable hDst) fun hEq =>
      hEntry (hEq.trans h.same.entry)
    rw [h.same.idoms] at hImm
    exact .inr ⟨_, hBefore.immediate e.dst hDst hEntry,
      hExt.dominates (hImm.strict.of_edge ((h.edge_iff _ _).2 (.inr ⟨e, hJoin, rfl, rfl⟩)))⟩

/-- The fields are right for both graphs only if the joining edges reach nothing new. -/
theorem reached_of_hasIdoms (h : Joined before after joining) (hWf : before.WellFormed)
    (hBefore : before.HasIdoms) (hAfter : after.HasIdoms) {e : CfgEdge} (hJoin : joining e)
    (hSrc : before.graph.Reachable e.src) : before.graph.Reachable e.dst := by
  by_contra hNot
  have hEntry : e.dst ≠ after.entryBlock := by
    intro hEq
    exact hNot (hEq.trans h.same.entry ▸ reachable_entry)
  have hReach : after.graph.Reachable e.dst :=
    (h.extends_graph.reachable hSrc).step ((h.edge_iff _ _).2 (.inr ⟨e, hJoin, rfl, rfl⟩))
  have hImm := hAfter.immediate e.dst hReach hEntry
  rw [h.same.idoms, hBefore.unreachable e.dst hNot] at hImm
  have hLt := h.reachable_lt hWf (hReach.of_dominates hImm.strict.1)
  exact hWf.ne_invalid hLt rfl

/-- Fitting edges are such that nothing about dominance changes. -/
theorem extendsBelow (h : Joined before after joining) (hReached : ∀ e, joining e → before.graph.Reachable e.src →
      before.graph.Reachable e.dst)
    (hBelow : ∀ e, joining e → before.graph.Reachable e.src → e.dst = before.entryBlock ∨
      ∃ d, before.graph.IsImmediateDominator d e.dst ∧ before.graph.Dominates d e.src) :
    ExtendsBelow before.graph after.graph where
  toExtends := h.extends_graph
  reached p b hp hEdge := by
    rcases (h.edge_iff p b).1 hEdge with hOld | ⟨e, hJoin, rfl, rfl⟩
    · exact hp.step hOld
    · exact hReached e hJoin hp
  below p b hp hEdge := by
    rcases (h.edge_iff p b).1 hEdge with hOld | ⟨e, hJoin, rfl, rfl⟩
    · exact .inl hOld
    · exact .inr (hBelow e hJoin hp)

theorem Dom_iff (h : ExtendsBelow before.graph after.graph) (a b : Nat) :
    after.Dom a b ↔ before.Dom a b := by
  unfold Cfg.Dom
  rw [h.reachable_iff, h.dominates_iff]

/-- Between graphs with the same dominance the fields stay right. -/
theorem hasIdoms_of_extendsBelow (h : Joined before after joining) (hBefore : before.HasIdoms)
    (hExt : ExtendsBelow before.graph after.graph) : after.HasIdoms where
  entry := by
    rw [h.same.entry, h.same.idoms]
    exact hBefore.entry
  immediate b hReach hEntry := by
    rw [h.same.idoms]
    rw [h.same.entry] at hEntry
    exact hExt.isImmediateDominator (hBefore.immediate b (hExt.reachable_iff.1 hReach) hEntry)
  unreachable b hReach := by
    rw [h.same.idoms]
    exact hBefore.unreachable b fun hOld => hReach (hExt.reachable_iff.2 hOld)

/-- A block is entered from below in the joined graph if it is in the first one, or if a joining
edge does it. -/
theorem enteredFromBelow_iff (h : Joined before after joining)
    (hExt : ExtendsBelow before.graph after.graph) (b : Nat) :
    EnteredFromBelow after after.edges b ↔
      EnteredFromBelow before before.edges b ∨
        ∃ e, joining e ∧ e.dst = b ∧ before.Dom b e.src := by
  constructor
  · rintro ⟨e, he, hTo, hDst, hDom⟩
    rw [Dom_iff hExt] at hDom
    rcases (h.edges e).1 ⟨he, hDst⟩ with ⟨hOld, -⟩ | hJoin
    · exact .inl ⟨e, hOld, hTo, hDst, hDom⟩
    · exact .inr ⟨e, hJoin, hTo, hDom⟩
  · rintro (⟨e, he, hTo, hDst, hDom⟩ | ⟨e, hJoin, hTo, hDom⟩)
    · exact ⟨e, ((h.edges e).2 (.inl ⟨he, hDst⟩)).1, hTo, hDst, (Dom_iff hExt _ _).2 hDom⟩
    · obtain ⟨he, hDst⟩ := (h.edges e).2 (.inr hJoin)
      exact ⟨e, he, hTo, hDst, (Dom_iff hExt _ _).2 hDom⟩

theorem headersAbove_eq (h : Joined before after joining)
    (hExt : ExtendsBelow before.graph after.graph) (i cur : Nat) :
    headersAbove after i cur = headersAbove before i cur := by
  ext x
  simp only [headersAbove, Set.mem_ofPred_eq, h.same.header, Dom_iff hExt]

/-- The facts about the first graph are facts about the joined one exactly if every joining edge
fits. -/
theorem hasFacts_iff (h : Joined before after joining) (hWf : before.WellFormed)
    (hIdoms : before.HasIdoms) (hLoops : before.HasLoops) :
    after.HasFacts ↔ ∀ e, joining e → EdgeFits before e := by
  constructor
  · intro hFacts e hJoin
    have hReached : ∀ e, joining e → before.graph.Reachable e.src → before.graph.Reachable e.dst :=
      fun _ hJoin => h.reached_of_hasIdoms hWf hIdoms hFacts.idoms hJoin
    have hBelow := fun e hJoin hSrc =>
      h.below_of_hasIdoms hIdoms hFacts.idoms hJoin (hReached e hJoin hSrc)
    have hExt := h.extendsBelow hReached hBelow
    refine ⟨hReached e hJoin, hBelow e hJoin, fun hDom => ?_⟩
    have hLt := (h.inside e hJoin).2.1
    have hHeader := (hFacts.loops.header e.dst (h.same.length_blocks ▸ hLt)).2
      ((h.enteredFromBelow_iff hExt _).2 (.inr ⟨e, hJoin, rfl, hDom⟩))
    rw [h.same.header] at hHeader
    exact (hLoops.header e.dst hLt).1 hHeader
  · intro hFits
    have hExt := h.extendsBelow (fun e hJoin => (hFits e hJoin).reached)
      fun e hJoin => (hFits e hJoin).below
    have hAfter := h.hasIdoms_of_extendsBelow hIdoms hExt
    refine ⟨hAfter, ⟨fun b hb => ?_, fun b hb => ?_⟩, fun b hReach hInvalid => ?_⟩
    · rw [h.same.length_blocks] at hb
      rw [h.same.header, hLoops.header b hb, h.enteredFromBelow_iff hExt, or_iff_left_of_imp]
      rintro ⟨e, hJoin, rfl, hDom⟩
      exact (hFits e hJoin).header hDom
    · rw [h.same.length_blocks] at hb
      rw [h.same.loopDepth, hLoops.loopDepth b hb, h.headersAbove_eq hExt]
    · have hLt := h.reachable_lt hWf hReach
      rw [h.same.idoms] at hInvalid
      by_cases hEntry : b = before.entryBlock
      · subst hEntry
        exact hWf.ne_invalid hLt (hIdoms.entry.symm.trans hInvalid)
      · have hOld := hExt.reachable_iff.1 hReach
        have hImm := hIdoms.immediate b hOld hEntry
        rw [hInvalid] at hImm
        exact hWf.ne_invalid (hWf.reachable_lt (hOld.of_dominates hImm.strict.1)) rfl

end Joined

end Joined

/-! ## The facts about the graph handed out -/

/-- Each case edge of the function's jump tables changes no fact about the graph of its direct
branches. -/
def TablesFit (img : DolImage) (startVaddr endVaddr : BitVec 32) : Prop :=
  ∀ direct, directGraph img startVaddr endVaddr = some direct →
    ∀ bi, ∀ e ∈ tableEdges img direct bi, EdgeFits direct e

/-- The facts about dominance and loops are those of the final edges exactly if the jump tables
change none of them. -/
theorem cfgBuild_hasFacts_iff {fuel : Nat} {img : DolImage} {startVaddr endVaddr : BitVec 32}
    {cfg : Cfg} (hFuel : cfgFuel ≤ fuel) (hRun : cfgBuild fuel img startVaddr endVaddr = .ok cfg) :
    cfg.HasFacts ↔ TablesFit img startVaddr endVaddr := by
  obtain ⟨hRange, leaders, direct, before, hStages⟩ := cfgBuild_stages hFuel hRun
  have hShape := hStages.shape
  have hJoined : Joined before cfg fun e => ∃ bi, e ∈ tableEdges img before bi := by
    refine ⟨hStages.recovered.same.trans hStages.same, fun e => ?_, ?_⟩
    · rw [hStages.edges]
      exact cfgRecoverSwitches_edges hStages.unknowns e
    · rintro e ⟨bi, he⟩
      obtain ⟨hSrc, -, hDst, hKind, hLt⟩ := mem_tableEdges he
      exact ⟨hSrc ▸ hLt, hDst, hKind⟩
  rw [hJoined.hasFacts_iff (hShape.wellFormed (hStages.isDirect.wellFormed hRange)) hStages.idoms
    hStages.loops]
  constructor
  · intro hFits direct' hDirect' bi e he
    obtain rfl := Option.some.inj (hStages.graph.symm.trans hDirect')
    rw [← tableEdges_congr hShape.extents] at he
    exact hShape.symm.edgeFits (hFits e ⟨bi, he⟩)
  · rintro hFits e ⟨bi, he⟩
    rw [tableEdges_congr hShape.extents] at he
    exact hShape.edgeFits (hFits direct hStages.graph bi e he)

/-! ## A function with a jump table -/

def wordBytes (w : BitVec 32) : List (BitVec 8) :=
  [w.extractLsb' 24 8, w.extractLsb' 16 8, w.extractLsb' 8 8, w.extractLsb' 0 8]

/-- A file with a text section at 0x80004000 and a data section at 0x80005000. -/
def dolFile (text data : List (BitVec 32)) : List (BitVec 8) :=
  let size (ws : List (BitVec 32)) : BitVec 32 := BitVec.ofNat 32 (4 * ws.length)
  let slot (n : Nat) (w : BitVec 32) := w :: List.replicate (n - 1) 0
  let header := slot 7 0x100 ++ slot 11 (0x100 + size text) ++ slot 7 0x80004000 ++
    slot 11 0x80005000 ++ slot 7 (size text) ++ slot 11 (size data) ++ [0, 0, 0x80004000] ++
    List.replicate 7 0
  (header ++ text ++ data).flatMap wordBytes

def dolImage (text data : List (BitVec 32)) : DolImage where
  bytes := dolFile text data
  entrypoint := 0x80004000
  bssAddr := 0
  bssSize := 0
  sections :=
    [{ kind := .text, index := 0, fileOffset := 0x100, virtualAddr := 0x80004000,
       size := BitVec.ofNat 32 (4 * text.length) },
     { kind := .data, index := 0, fileOffset := 0x100 + BitVec.ofNat 32 (4 * text.length),
       virtualAddr := 0x80005000, size := BitVec.ofNat 32 (4 * data.length) }]

/-- `addi r4, r4, 0x5000; lis r4, 0x8000; bctr; blr`, with a table at 0x80005000 whose one entry
is the `blr`. -/
def jumpTableImage : DolImage :=
  dolImage [0x38845000, 0x3C808000, 0x4E800420, 0x4E800020] [0x8000400C, 0]

def jumpTableCfg : Cfg where
  blocks :=
    [{ cfgAddBlock 0x80004000 0x8000400C with idom := 0, regionKind := .switch },
     cfgAddBlock 0x8000400C 0x80004010]
  edges :=
    [.plain 1 cfgInvalid .ret, { src := 0, dst := 1, kind := .switchCase, caseValue := 0 }]
  switches :=
    [{ blockIndex := 0, tableVaddr := 0x80005000, defaultVaddr := 0,
       cases := [{ caseValue := 0, targetVaddr := 0x8000400C }] }]
  entryBlock := 0
  isIrreducible := false

theorem cfgBuild_jumpTableImage :
    cfgBuild cfgFuel jumpTableImage 0x80004000 0x80004010 = .ok jumpTableCfg := by
  rfl

theorem cfgBuild_hasFacts_iff_jumpTableImage :
    jumpTableCfg.HasFacts ↔ TablesFit jumpTableImage 0x80004000 0x80004010 :=
  cfgBuild_hasFacts_iff (Nat.le_refl _) cfgBuild_jumpTableImage

set_option maxRecDepth 20000 in
/-- The case target is reached through the table only, and counts as unreachable. -/
theorem not_hasFacts_jumpTableImage :
    dolParse jumpTableImage.bytes = .ok jumpTableImage ∧
      ∃ cfg, cfgBuild cfgFuel jumpTableImage 0x80004000 0x80004010 = .ok cfg ∧ ¬ cfg.HasFacts := by
  refine ⟨rfl, jumpTableCfg, cfgBuild_jumpTableImage, fun hFacts => ?_⟩
  have hEdge : jumpTableCfg.graph.Edge 0 1 :=
    ⟨_, List.mem_cons_of_mem _ (List.mem_singleton_self _), rfl, rfl, by decide⟩
  exact hFacts.reached 1 (FlowGraph.reachable_entry.step hEdge) rfl

end Calynda.Decompiler
