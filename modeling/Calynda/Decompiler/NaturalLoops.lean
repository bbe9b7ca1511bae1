import Calynda.Decompiler.Loops
import Calynda.Lib.NaturalLoop

/-!
# Loop facts and natural loops

The depth of a block counts the headers that strictly dominate it: the blocks behind a loop count it
too, and its header does not. The outermost header of a graph has depth zero.
-/

namespace Calynda.Decompiler

/-- The `is_loop_exit` field of a block. -/
def Cfg.exitOf (cfg : Cfg) (b : Nat) : Bool := (cfg.blocks.map (·.isLoopExit)).getD b false

/-- The loop fields of the reachable blocks are those of the natural loops of the graph. -/
structure Cfg.LoopFactsMatch (cfg : Cfg) : Prop where
  loopDepth : ∀ b, cfg.graph.Reachable b →
    (cfg.loopDepthOf b).toNat = {h | cfg.graph.NaturalLoop h b}.ncard
  loopExit : ∀ b, cfg.graph.Reachable b →
    (cfg.exitOf b = true ↔ ∃ h, cfg.graph.NaturalLoop h b ∧
      ∃ s, cfg.graph.Edge b s ∧ ¬cfg.graph.NaturalLoop h s)

section Facts

variable {cfg cfg' : Cfg} {fuel : Nat}

/-! ## Exits -/

/-- What neither the header marks nor the depths change. -/
structure KeptByDepths {β : Type} (g : Cfg → β) : Prop where
  header : ∀ cfg i, g (cfg.modifyBlock i fun b => { b with isLoopHeader := true }) = g cfg
  depth : ∀ (cfg : Cfg) (depth : List (BitVec 16)),
    g { cfg with blocks := cfg.blocks.mapIdx fun i b => { b with loopDepth := depth.getD i 0 } } =
      g cfg

section Kept

variable {β : Type} {g : Cfg → β} (hKept : KeptByDepths g)
include hKept

theorem KeptByDepths.markHeader {e : CfgEdge} (h : markHeader fuel cfg e = .ok cfg') :
    g cfg' = g cfg := by
  unfold Decompiler.markHeader at h
  split at h
  · cases h
    rfl
  · cases hDom : dominates cfg e.dst fuel e.src with
    | error f =>
      rw [hDom] at h
      cases h
    | ok r =>
      rw [hDom] at h
      cases r with
      | false =>
        cases h
        rfl
      | true =>
        cases h
        exact hKept.header cfg e.dst

theorem KeptByDepths.markHeaders : ∀ {edges : List CfgEdge} {cfg : Cfg},
    edges.foldlM (Decompiler.markHeader fuel) cfg = .ok cfg' → g cfg' = g cfg
  | [], _, h => by
    cases h
    rfl
  | e :: edges, cfg, h => by
    rw [List.foldlM_cons] at h
    cases hStep : Decompiler.markHeader fuel cfg e with
    | error f =>
      rw [hStep] at h
      cases h
    | ok cfg₁ =>
      rw [hStep] at h
      exact (KeptByDepths.markHeaders h).trans (hKept.markHeader hStep)

theorem KeptByDepths.setLoopDepths (h : setLoopDepths fuel cfg = .ok cfg') : g cfg' = g cfg := by
  unfold Decompiler.setLoopDepths at h
  cases hDepths : (List.range cfg.blocks.length).mapM fun i => countHeaders cfg i fuel i 0 with
  | error f =>
    rw [hDepths] at h
    cases h
  | ok depth =>
    rw [hDepths] at h
    cases h
    exact hKept.depth cfg depth

/-- The pass marks exits in a graph that differs in headers and depths only. -/
theorem KeptByDepths.cfgClassifyLoops (h : cfgClassifyLoops fuel cfg = .ok cfg') :
    cfg' = cfg ∨ ∃ cfg₁, cfg' = cfg₁.edges.foldl markExit cfg₁ ∧ g cfg₁ = g cfg := by
  unfold Decompiler.cfgClassifyLoops at h
  split at h
  · cases h
    exact Or.inl rfl
  · cases hHeaders : cfg.edges.foldlM (Decompiler.markHeader fuel) cfg with
    | error f =>
      rw [hHeaders] at h
      cases h
    | ok cfg₁ =>
      rw [hHeaders] at h
      replace h : (Decompiler.setLoopDepths fuel cfg₁ >>= fun cfg =>
        .ok (cfg.edges.foldl markExit cfg)) = .ok cfg' := h
      cases hDepths : Decompiler.setLoopDepths fuel cfg₁ with
      | error f =>
        rw [hDepths] at h
        cases h
      | ok cfg₂ =>
        rw [hDepths] at h
        cases h
        exact Or.inr ⟨cfg₂, rfl, (hKept.setLoopDepths hDepths).trans (hKept.markHeaders hHeaders)⟩

end Kept

theorem keptByDepths_exitOf (b : Nat) : KeptByDepths fun cfg => cfg.exitOf b where
  header cfg i := by
    show (List.map _ (List.modify _ _ _)).getD b false = _
    rw [List.map_modify_of_eq _ _ (by intro; rfl)]
    rfl
  depth cfg depth := by
    unfold Cfg.exitOf
    congr 1
    refine List.ext_getElem (by simp) fun i hi hi' => ?_
    simp

/-- Only a block inside some loops by its depth is marked as an exit. -/
theorem exitOf_markExits : ∀ {edges : List CfgEdge} {cfg : Cfg} {b : Nat},
    (edges.foldl markExit cfg).exitOf b = true → cfg.exitOf b = true ∨ cfg.loopDepthOf b ≠ 0
  | [], _, _, h => Or.inl h
  | e :: edges, cfg, b, h => by
    rw [List.foldl_cons] at h
    rcases exitOf_markExits h with hExit | hDepth
    · unfold markExit at hExit
      dsimp only at hExit
      split_ifs at hExit with hDst hLt
      · exact Or.inl hExit
      · by_cases hEq : b = e.src
        · subst hEq
          refine Or.inr fun hZero => ?_
          have hLt : cfg.loopDepthOf e.dst < cfg.loopDepthOf e.src := hLt
          rw [hZero] at hLt
          exact absurd hLt (by simp)
        · refine Or.inl ?_
          rw [← hExit, Cfg.exitOf, Cfg.exitOf, Cfg.modifyBlock]
          simp [List.getD_eq_getElem?_getD, Ne.symm hEq]
      · exact Or.inl hExit
    · exact Or.inr ((sameLoops_markExit cfg e).loopDepth b ▸ hDepth)

theorem exitOf_cfgClassifyLoops (h : cfgClassifyLoops fuel cfg = .ok cfg') {b : Nat}
    (hFresh : cfg.exitOf b = false) (hExit : cfg'.exitOf b = true) : cfg'.loopDepthOf b ≠ 0 := by
  rcases (keptByDepths_exitOf b).cfgClassifyLoops h with rfl | ⟨cfg₁, rfl, hKept⟩
  · rw [hFresh] at hExit
    cases hExit
  · rw [(sameLoops_markExits _ _).loopDepth b]
    refine (exitOf_markExits hExit).resolve_left ?_
    rw [hKept, hFresh]
    exact Bool.false_ne_true

/-! ## Depths -/

theorem headerOf_iff_loopHeader (hWf : cfg.WellFormed) (hLoops : cfg.HasLoops) {h : Nat}
    (hReach : cfg.graph.Reachable h) : cfg.headerOf h = true ↔ cfg.graph.LoopHeader h := by
  rw [hLoops.header h (hWf.reachable_lt hReach)]
  constructor
  · rintro ⟨e, he, rfl, hDst, hDom⟩
    have hEdge : cfg.graph.Edge e.src e.dst := ⟨e, he, rfl, rfl, hDst⟩
    rcases hDom with hEq | ⟨hSrc, hDom⟩
    · exact ⟨e.src, hEq ▸ hReach, hEdge, hEq ▸ FlowGraph.Dominates.refl _ _⟩
    · exact ⟨e.src, hSrc, hEdge, hDom⟩
  · rintro ⟨u, hSrc, ⟨e, he, rfl, rfl, hDst⟩, hDom⟩
    exact ⟨e, he, rfl, hDst, Or.inr ⟨hSrc, hDom⟩⟩

/-- What the depth of a reachable block counts. -/
theorem headersAbove_eq (hWf : cfg.WellFormed) (hLoops : cfg.HasLoops) {b : Nat}
    (hReach : cfg.graph.Reachable b) :
    headersAbove cfg b b = {h | cfg.graph.LoopHeader h ∧ cfg.graph.StrictlyDominates h b} := by
  ext h
  simp only [headersAbove, Set.mem_ofPred_eq]
  constructor
  · rintro ⟨hHeader, hNe, rfl | ⟨-, hDom⟩⟩
    · exact absurd rfl hNe
    · exact ⟨(headerOf_iff_loopHeader hWf hLoops (hReach.of_dominates hDom)).1 hHeader, hDom, hNe⟩
  · rintro ⟨hHeader, hDom, hNe⟩
    exact ⟨(headerOf_iff_loopHeader hWf hLoops hHeader.reachable).2 hHeader, hNe,
      Or.inr ⟨hReach, hDom⟩⟩

theorem naturalLoops_finite (hWf : cfg.WellFormed) (b : Nat) :
    {h | cfg.graph.NaturalLoop h b}.Finite :=
  (Set.finite_lt_nat cfg.blocks.length).subset fun _ h => hWf.reachable_lt h.1.reachable

/-- The outermost header lies in its own loop, and no header is above it. -/
theorem not_loopFactsMatch (hWf : cfg.WellFormed) (hLoops : cfg.HasLoops)
    (hHeader : ∃ h, cfg.graph.LoopHeader h) : ¬cfg.LoopFactsMatch := by
  intro hMatch
  obtain ⟨rpo, -, hRpo⟩ := buildRpo_valid hWf _ (Nat.lt_succ_self _)
  obtain ⟨h, hHeader, hFirst⟩ := hRpo.numbering.exists_first_header hHeader
  have hReach := hHeader.reachable
  have hNone : headersAbove cfg h h = ∅ := by
    rw [headersAbove_eq hWf hLoops hReach]
    exact Set.eq_empty_of_forall_notMem fun a ha => hFirst a ha.1 ha.2
  have hZero : cfg.loopDepthOf h = 0 := by
    rw [hLoops.loopDepth h (hWf.reachable_lt hReach), hNone, Set.ncard_empty]
    rfl
  have hOwn : 0 < {a | cfg.graph.NaturalLoop a h}.ncard :=
    (Set.ncard_pos (naturalLoops_finite hWf h)).2 ⟨h, hHeader.naturalLoop⟩
  rw [← hMatch.loopDepth h hReach, hZero] at hOwn
  exact absurd hOwn (by decide)

theorem loopFactsMatch_of_no_header (hWf : cfg.WellFormed) (hLoops : cfg.HasLoops)
    (hExit : ∀ b, cfg.exitOf b = true → cfg.loopDepthOf b ≠ 0)
    (hNone : ¬∃ h, cfg.graph.LoopHeader h) : cfg.LoopFactsMatch := by
  have hZero : ∀ b, cfg.graph.Reachable b → cfg.loopDepthOf b = 0 := by
    intro b hReach
    have hAbove : headersAbove cfg b b = ∅ := by
      rw [headersAbove_eq hWf hLoops hReach]
      exact Set.eq_empty_of_forall_notMem fun a ha => hNone ⟨a, ha.1⟩
    rw [hLoops.loopDepth b (hWf.reachable_lt hReach), hAbove, Set.ncard_empty]
    rfl
  refine ⟨fun b hReach => ?_, fun b hReach => ?_⟩
  · have hEmpty : {h | cfg.graph.NaturalLoop h b} = ∅ :=
      Set.eq_empty_of_forall_notMem fun a ha => hNone ⟨a, ha.1⟩
    rw [hZero b hReach, hEmpty, Set.ncard_empty]
    rfl
  · refine iff_of_false (fun h => hExit b h (hZero b hReach)) ?_
    rintro ⟨h, hLoop, -⟩
    exact hNone ⟨h, hLoop.1⟩

end Facts

/-- The pass finds the facts of the natural loops exactly where the graph has no loop. -/
theorem cfgClassifyLoops_match_iff {cfg : Cfg} {fuel : Nat} (hWf : cfg.WellFormed)
    (hIdoms : cfg.HasIdoms) (hFresh : ∀ b, cfg.headerOf b = false ∧ cfg.exitOf b = false)
    (hFuel : cfg.blocks.length < fuel) :
    ∃ cfg', cfgClassifyLoops fuel cfg = .ok cfg' ∧ cfg'.graph = cfg.graph ∧
      (cfg'.LoopFactsMatch ↔ ¬∃ h, cfg.graph.LoopHeader h) := by
  obtain ⟨cfg', hRun, hSame, hLoops⟩ :=
    cfgClassifyLoops_spec hWf hIdoms (fun b => (hFresh b).1) hFuel
  have hWf' := hSame.wellFormed hWf
  refine ⟨cfg', hRun, hSame.graph, ?_⟩
  rw [← hSame.graph]
  exact ⟨fun hMatch hHeader => not_loopFactsMatch hWf' hLoops hHeader hMatch,
    loopFactsMatch_of_no_header hWf' hLoops fun b =>
      exitOf_cfgClassifyLoops hRun (hFresh b).2⟩

/-- A head with a body that goes back to it, and what comes after the loop. -/
def whileCfg : Cfg where
  blocks := List.replicate 4 (.fresh 0)
  edges := [(0, 1), (1, 2), (1, 3), (2, 1)].map fun (src, dst) =>
    { src := src, dst := dst, kind := .condTaken, caseValue := -1 }
  switches := []
  entryBlock := 0
  isIrreducible := false

theorem hasIdoms_of_run {cfg : Cfg} {idom : List Nat} (fuel : Nat) (hWf : cfg.WellFormed)
    (hFuel : dominanceFuel cfg.blocks.length ≤ fuel)
    (hRun : cfgComputeDominance fuel cfg = .ok (cfg.withIdoms idom)) :
    (cfg.withIdoms idom).HasIdoms := by
  obtain ⟨idom', hRun', hIdoms⟩ := cfgComputeDominance_correct cfg hWf hFuel
  exact Except.ok.inj (hRun'.symm.trans hRun) ▸ hIdoms

theorem whileCfg_hasIdoms : (whileCfg.withIdoms [0, 0, 1, 1]).HasIdoms :=
  hasIdoms_of_run 25
    { blocks_le := by decide, entry_lt := by decide, src_lt := by decide, dst_lt := by decide }
    (by decide) rfl

theorem whileCfg_wellFormed : (whileCfg.withIdoms [0, 0, 1, 1]).WellFormed where
  blocks_le := by decide
  entry_lt := by decide
  src_lt := by decide
  dst_lt := by decide

theorem whileCfg_fresh (b : Nat) : (whileCfg.withIdoms [0, 0, 1, 1]).headerOf b = false ∧
    (whileCfg.withIdoms [0, 0, 1, 1]).exitOf b = false :=
  match b with
  | 0 | 1 | 2 | 3 | _ + 4 => ⟨rfl, rfl⟩

theorem cfgClassifyLoops_match_iff_whileCfg :
    ∃ cfg', cfgClassifyLoops 5 (whileCfg.withIdoms [0, 0, 1, 1]) = .ok cfg' ∧
      cfg'.graph = (whileCfg.withIdoms [0, 0, 1, 1]).graph ∧ (cfg'.LoopFactsMatch ↔
        ¬∃ h, (whileCfg.withIdoms [0, 0, 1, 1]).graph.LoopHeader h) :=
  cfgClassifyLoops_match_iff whileCfg_wellFormed whileCfg_hasIdoms whileCfg_fresh (by decide)

/-- The head of the loop gets depth zero, and what comes after the loop gets depth one. -/
theorem not_loopFactsMatch_whileCfg :
    ∃ cfg', cfgClassifyLoops 5 (whileCfg.withIdoms [0, 0, 1, 1]) = .ok cfg' ∧
      cfg'.blocks.map (·.loopDepth) = [0, 0, 1, 1] ∧
      cfg'.blocks.map (·.isLoopExit) = [false, false, true, false] ∧ ¬cfg'.LoopFactsMatch := by
  have hFuel : (whileCfg.withIdoms [0, 0, 1, 1]).blocks.length < 5 := by decide
  obtain ⟨cfg', hRun, hSame, hLoops⟩ := cfgClassifyLoops_spec whileCfg_wellFormed whileCfg_hasIdoms
    (fun b => (whileCfg_fresh b).1) hFuel
  have hEdge : ∀ {p b}, { src := p, dst := b, kind := .condTaken, caseValue := -1 } ∈
      whileCfg.edges ∧ b ≠ cfgInvalid → (whileCfg.withIdoms [0, 0, 1, 1]).graph.Edge p b :=
    fun h => ⟨_, h.1, rfl, rfl, h.2⟩
  have hReach : (whileCfg.withIdoms [0, 0, 1, 1]).graph.Reachable 2 :=
    (FlowGraph.reachable_entry.step (hEdge (b := 1) (by decide))).step (hEdge (by decide))
  have hDom := (whileCfg_hasIdoms.immediate 2 hReach (by decide)).strict.1
  refine ⟨cfg', hRun, ?_, ?_, not_loopFactsMatch (hSame.wellFormed whileCfg_wellFormed) hLoops ?_⟩
  · exact (Except.ok.inj (hRun.symm.trans rfl)) ▸ rfl
  · exact (Except.ok.inj (hRun.symm.trans rfl)) ▸ rfl
  · rw [hSame.graph]
    exact ⟨1, 2, hReach, hEdge (by decide), hDom⟩

end Calynda.Decompiler
