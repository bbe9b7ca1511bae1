import Calynda.Decompiler.Build
import Calynda.Decompiler.Irreducible
import Calynda.Decompiler.RegionWalk

/-!
# The regions of a built graph

A branch gives its block two edges at most and a table only those of its cases, so that the walks of
the region pass stay within their stack, and what it records for a block is what the arms do.
-/

namespace Calynda.Decompiler

variable {cfg cfg' : Cfg} {fuel : Nat} {img : DolImage} {s e : BitVec 32}

/-! ## Two successors -/

theorem length_edgesOf_le (blocks : List CfgBlock) (i : Nat) (b : CfgBlock) (insn : PpcInsn) :
    (edgesOf blocks i b insn).length ≤ 2 := by
  unfold edgesOf
  dsimp only
  split
  any_goals split_ifs
  all_goals exact Nat.le_of_ble_eq_true rfl

/-- Edges that are listed block by block, two for each at most. -/
theorem length_filter_flatMap_le {f : CfgBlock × Nat → List CfgEdge}
    (hSrc : ∀ x, ∀ e ∈ f x, e.src = x.2) (hTwo : ∀ x, (f x).length ≤ 2) (i : Nat)
    (bs : List CfgBlock) (n : Nat) :
    (((bs.zipIdx n).flatMap f).filter fun e => e.src = i ∧ e.kind ≠ .switchCase).length ≤ 2 := by
  induction bs generalizing n with
  | nil => exact Nat.zero_le 2
  | cons b bs ih =>
    rw [List.zipIdx_cons, List.flatMap_cons, List.filter_append]
    by_cases hHere : n = i
    · rw [List.append_right_eq_self.mpr (List.filter_eq_nil_iff.mpr fun e he hTakes => ?_)]
      · exact (List.length_filter_le _ _).trans (hTwo (b, n))
      · obtain ⟨x, hx, hMem⟩ := List.mem_flatMap.mp he
        have hLater := List.le_snd_of_mem_zipIdx hx
        have hEdge := hSrc x e hMem
        have hAt := (of_decide_eq_true hTakes).1
        omega
    · rw [List.append_left_eq_self.mpr (List.filter_eq_nil_iff.mpr fun e he hTakes =>
        hHere ((hSrc _ e he).symm.trans (of_decide_eq_true hTakes).1))]
      exact ih (n + 1)

theorem IsDirectGraph.twoSuccs {ls : List (BitVec 32)} (h : IsDirectGraph img s e ls cfg) :
    cfg.TwoSuccs := by
  intro i
  rw [h.edges]
  refine length_filter_flatMap_le (fun x e he => ?_) (fun x => ?_) i _ 0
  · dsimp only at he
    cases hw : cfgReadWord img (x.1.endVaddr - 4) <;> rw [hw] at he
    · cases he
    · exact (mem_edgesOf he).1
  · dsimp only
    cases cfgReadWord img (x.1.endVaddr - 4)
    · exact Nat.zero_le 2
    · exact length_edgesOf_le _ _ _ _

theorem Cfg.TwoSuccs.recovered (h : cfg.TwoSuccs) (bis : List Nat) :
    (bis.foldl (recoverSwitch img) cfg).TwoSuccs := by
  induction bis generalizing cfg with
  | nil => exact h
  | cons bi bis ih =>
    refine ih fun b => ?_
    unfold recoverSwitch
    split
    · exact h b
    split
    · exact h b
    next tableVa cases _ =>
    rw [registerSwitch, List.filter_append, List.append_right_eq_self.mpr
      (List.filter_eq_nil_iff.mpr fun e he hTakes =>
        (of_decide_eq_true hTakes).2 (mem_switchCaseEdges he).2.2.2)]
    exact (List.filter_sublist.filter _).length_le.trans (h b)

/-! ## The region pass -/

/-- What the region pass needs of a graph. -/
structure Walkable (cfg : Cfg) (fuel : Nat) : Prop where
  wellFormed : cfg.WellFormed
  upward : ∀ a, ∀ b < cfg.blocks.length, ∃ found, dominates cfg a fuel b = .ok found
  twoSuccs : cfg.TwoSuccs
  enough : 2 * cfg.blocks.length + 1 < fuel

/-- Two forward edges of a block, in their order: with two successors at most, its only ones. -/
def Cfg.Arms (cfg : Cfg) (i : Nat) (edges : List CfgEdge) (s1 s2 : Nat) : Prop :=
  ∃ e1 e2, [e1, e2].Sublist edges ∧ (e1.src = i ∧ e1.dst = s1 ∧ e1.IsForward cfg) ∧
    e2.src = i ∧ e2.dst = s2 ∧ e2.IsForward cfg

/-- The arms of a conditional meet first in the block that is recorded, which is one of them if that
arm is empty; those of an unstructured region never meet. -/
structure RegionFits (cfg : Cfg) (i : Nat) (b : CfgBlock) : Prop where
  meets : b.regionKind = .ifThen ∨ b.regionKind = .ifElse → ∃ s1 s2,
    cfg.Arms i cfg.edges s1 s2 ∧ b.ifMerge ≠ cfgInvalid ∧ NearestCommon cfg s1 s2 b.ifMerge ∧
    (b.regionKind = .ifThen ↔ s1 = b.ifMerge ∨ s2 = b.ifMerge)
  parts : b.regionKind = .unstructured → ∃ s1 s2,
    cfg.Arms i cfg.edges s1 s2 ∧ NearestCommon cfg s1 s2 cfgInvalid

namespace Walkable

theorem decides (h : Walkable cfg fuel) : Decides cfg fuel :=
  fun e he => h.upward e.dst e.src (h.wellFormed.src_lt e he)

theorem forwardSuccs (h : Walkable cfg fuel) (i : Nat) : ∃ s, forwardSuccs cfg fuel i = .ok s ∧
    (s.1 ≠ cfgInvalid → ∃ e ∈ cfg.edges, e.src = i ∧ e.dst = s.1 ∧ e.IsForward cfg) ∧
    (s.2 ≠ cfgInvalid → cfg.Arms i cfg.edges s.1 s.2) := by
  have hBack : ∀ e ∈ cfg.edges, ∃ back, isBack cfg fuel e.src e.dst = .ok back ∧
      (back = false → ¬cfg.GoesBack e.src e.dst) := by
    intro e he
    obtain ⟨back, hRun⟩ := h.decides e he
    refine ⟨back, hRun, ?_⟩
    rintro rfl hGoes
    cases hRun.symm.trans ((h.decides.goesBack_iff he).mpr hGoes)
  unfold Decompiler.forwardSuccs
  generalize cfg.edges = edges at hBack
  induction edges using List.reverseRecOn with
  | nil => exact ⟨_, rfl, fun hSome => absurd rfl hSome, fun hSome => absurd rfl hSome⟩
  | append_singleton edges e ih =>
    obtain ⟨⟨s1, s2⟩, hRun, hFirst, hSecond⟩ :=
      ih fun e' he' => hBack e' (List.mem_append_left _ he')
    obtain ⟨back, hTest, hForward⟩ := hBack e List.mem_concat_self
    have hOld : (s1 ≠ cfgInvalid → ∃ e' ∈ edges ++ [e], e'.src = i ∧ e'.dst = s1 ∧
        e'.IsForward cfg) ∧ (s2 ≠ cfgInvalid → cfg.Arms i (edges ++ [e]) s1 s2) := by
      refine ⟨fun hSome => ?_, fun hSome => ?_⟩
      · exact (hFirst hSome).imp fun _ he' => he'.imp_left (List.mem_append_left _)
      · obtain ⟨e1, e2, hSub, hArms⟩ := hSecond hSome
        exact ⟨e1, e2, hSub.trans (List.sublist_append_left _ _), hArms⟩
    simp only [List.foldlM_append, hRun, List.foldlM_cons, List.foldlM_nil, bind_pure]
    show ∃ s, (if e.src ≠ i then _ else _) = _ ∧ _
    split
    · exact ⟨_, rfl, hOld⟩
    split
    · exact ⟨_, rfl, hOld⟩
    split
    · exact ⟨_, rfl, hOld⟩
    next hSrc hDst hKind =>
    rw [hTest]
    cases back with
    | true => exact ⟨_, rfl, hOld⟩
    | false =>
      have hArm : e.src = i ∧ e.dst = e.dst ∧ e.IsForward cfg :=
        ⟨not_not.mp hSrc, rfl, hDst, fun hCase => hKind (Or.inl hCase), hForward rfl⟩
      refine ⟨_, rfl, ?_⟩
      by_cases h1 : s1 = cfgInvalid
      · rw [if_pos h1]
        refine ⟨fun _ => ⟨e, List.mem_concat_self, hArm⟩, fun h2 => ?_⟩
        obtain ⟨_, _, -, ⟨-, hEq, hValid⟩, -⟩ := hSecond h2
        exact absurd (hEq.trans h1) hValid.1
      rw [if_neg h1]
      by_cases h2 : s2 = cfgInvalid
      · rw [if_pos h2]
        obtain ⟨e1, hMem, hArm1⟩ := hFirst h1
        exact ⟨hOld.1, fun _ => ⟨e1, e, (List.singleton_sublist.mpr hMem).append (.refl [e]),
          hArm1, hArm⟩⟩
      · rw [if_neg h2]
        exact hOld

theorem regionOf (h : Walkable cfg fuel) (i : Nat) (b : CfgBlock) :
    ∃ b', regionOf cfg fuel i b = .ok b' ∧ RegionFits cfg i b' := by
  obtain ⟨⟨s1, s2⟩, hSuccs, -, hArms⟩ := h.forwardSuccs i
  unfold Decompiler.regionOf
  split
  next hSwitch => exact ⟨b, rfl, by simp [hSwitch], by simp [hSwitch]⟩
  split
  · exact ⟨_, rfl, by simp, by simp⟩
  rw [hSuccs]
  show ∃ b', (if s1 = cfgInvalid ∨ s2 = cfgInvalid then _ else _) = _ ∧ _
  split
  · exact ⟨_, rfl, by simp, by simp⟩
  next hSome =>
  have hArms := hArms fun hNone => hSome (Or.inr hNone)
  obtain ⟨h1, h2⟩ : s1 < cfg.blocks.length ∧ s2 < cfg.blocks.length := by
    obtain ⟨e1, e2, hSub, ⟨-, rfl, hValid1⟩, -, rfl, hValid2⟩ := hArms
    exact ⟨(h.wellFormed.dst_lt e1 (hSub.mem (by simp))).resolve_left hValid1.1,
      (h.wellFormed.dst_lt e2 (hSub.mem (by simp))).resolve_left hValid2.1⟩
  obtain ⟨merge, hRun, hMeet⟩ :=
    firstCommon_nearest h.wellFormed h.decides h.twoSuccs h.enough h1 h2
  rw [hRun]
  show ∃ b', (if merge = cfgInvalid then _ else _) = _ ∧ _
  split
  next hNone => exact ⟨_, rfl, by simp, fun _ => ⟨s1, s2, hArms, hNone ▸ hMeet⟩⟩
  next hMerge =>
  refine ⟨_, rfl, fun _ => ⟨s1, s2, hArms, hMerge, hMeet, ?_⟩, ?_⟩
  all_goals dsimp only; split <;> simp [*]

/-- Unless the pass flags the graph, it says of each block what its arms do. -/
theorem classified (h : Walkable cfg fuel) (hRun : cfgClassifyRegions cfg fuel = .ok cfg') :
    cfg'.isIrreducible = true ∨ ∀ i b, cfg'.blocks[i]? = some b → RegionFits cfg i b := by
  unfold cfgClassifyRegions at hRun
  rw [if_neg (Nat.ne_zero_of_lt h.wellFormed.entry_lt)] at hRun
  obtain ⟨flag, -, hRun⟩ := bind_eq_ok.1 hRun
  cases flag with
  | true =>
    cases hRun
    exact Or.inl rfl
  | false =>
    choose g hg using fun x : CfgBlock × Nat => h.regionOf x.2 x.1
    obtain ⟨blocks, hBlocks, hEnd⟩ := bind_eq_ok.1 hRun
    rw [mapM_eq_ok (g := g) fun x _ => (hg x).1] at hBlocks
    cases hBlocks
    cases hEnd
    refine Or.inr fun i b hb => ?_
    rw [List.getElem?_map, List.getElem?_zipIdx, Option.map_map, Nat.zero_add] at hb
    obtain ⟨b', -, rfl⟩ := Option.map_eq_some_iff.mp hb
    exact (hg (b', i)).2

end Walkable

/-! ## Built graphs -/

/-- The graph that the region pass gets may be walked, and so may the one with its regions. -/
theorem walkable_of_cfgBuildDirect (hFuel : cfgFuel ≤ fuel)
    (h : cfgBuildDirect fuel img s e = .ok cfg)
    (hEdges : cfg'.edges = (cfgRecoverSwitches img cfg).edges)
    (hRegions : SameBlocks (cfgRecoverSwitches img cfg) cfg') : Walkable cfg' fuel := by
  obtain ⟨hRange, direct, leaders, -, hIs, hShape, hIdoms, -⟩ := cfgBuildDirect_spec hFuel h
  have hWf : cfg.WellFormed := hShape.wellFormed (hIs.wellFormed hRange)
  have hUnknowns : UnknownsLeave cfg := fun e he => hIs.unknownsLeave e (hShape.edges ▸ he)
  have hTwo : cfg.TwoSuccs := fun i => hShape.edges ▸ hIs.twoSuccs i
  have hBlocks : cfg.blocks.length ≤ 2 ^ 30 := by
    rw [hShape.length_blocks, hIs.blocks, length_splitBlocks]
    exact hIs.leaders_length hRange
  have hEnough : 2 * 2 ^ 30 + 1 < cfgFuel := by decide
  have hRecovered : SwitchesRecovered img cfg (cfgRecoverSwitches img cfg) _ :=
    recoverSwitches_spec _ hUnknowns
  have hSame : SameBlocks cfg cfg' := hRecovered.same.trans hRegions
  have hLength := hSame.length_blocks
  have hEnds : ∀ e ∈ cfg'.edges, e.src < cfg'.blocks.length ∧
      (e.dst = cfgInvalid ∨ e.dst < cfg'.blocks.length) := by
    intro e he
    rw [hLength]
    rcases hRecovered.added e (hEdges ▸ he) with hOld | ⟨bi, -, hTable⟩
    · exact ⟨hWf.src_lt e hOld, hWf.dst_lt e hOld⟩
    · obtain ⟨rfl, -, hDst, -, hSrc⟩ := mem_tableEdges hTable
      exact ⟨hSrc, Or.inr hDst⟩
  constructor
  · refine ⟨hLength ▸ hWf.blocks_le, ?_, fun e he => (hEnds e he).1, fun e he => (hEnds e he).2⟩
    rw [hSame.entry, hLength]
    exact hWf.entry_lt
  · intro a b hb
    rw [dominates_congr hSame.idoms]
    exact (dominates_spec hWf hIdoms (hLength ▸ hb) (by omega)).imp fun _ hr => hr.1
  · exact fun i => hEdges ▸ hTwo.recovered _ i
  · omega

theorem RegionFits.congr {i : Nat} {b : CfgBlock} (h : RegionFits cfg i b)
    (hEdges : cfg'.edges = cfg.edges) (hIdoms : ∀ b, cfg'.idomOf b = cfg.idomOf b) :
    RegionFits cfg' i b := by
  have hEdge : CfgEdge.IsForward cfg' = CfgEdge.IsForward cfg := by
    funext e
    simp only [CfgEdge.IsForward, Cfg.GoesBack, isBack, dominates_congr hIdoms]
  have hForward : cfg'.Forward = cfg.Forward := by
    funext p b
    rw [Cfg.Forward, hEdge, hEdges, ← Cfg.Forward]
  have hArms : cfg'.Arms = cfg.Arms := by
    funext i edges s1 s2
    rw [Cfg.Arms, hEdge, ← Cfg.Arms]
  have hMeet : NearestCommon cfg' = NearestCommon cfg := by
    funext s1 s2 merge
    exact propext ⟨fun h => ⟨hForward ▸ h.1, hForward ▸ h.2⟩,
      fun h => ⟨hForward ▸ h.1, hForward ▸ h.2⟩⟩
  constructor <;> rw [hArms, hEdges, hMeet]
  · exact h.meets
  · exact h.parts

/-- No block has more than two successors, cases apart, no walk leaves its stack, and unless the
graph is flagged its conditionals are those that its edges make. -/
structure Cfg.RegionsFit (cfg : Cfg) (fuel : Nat) : Prop where
  twoSuccs : cfg.TwoSuccs
  walks : ∀ start < cfg.blocks.length, ∃ mark, boundedReach cfg fuel start = .ok mark
  regions : cfg.isIrreducible = true ∨ ∀ i b, cfg.blocks[i]? = some b → RegionFits cfg i b

theorem cfgBuild_regionsFit (hFuel : cfgFuel ≤ fuel) (hRun : cfgBuild fuel img s e = .ok cfg) :
    cfg.RegionsFit fuel := by
  obtain ⟨before, hBefore, hRegions⟩ := bind_eq_ok.1 hRun
  rw [liftFault_eq_ok] at hRegions
  obtain ⟨hEdges, -, hSame⟩ := cfgClassifyRegions_keeps hRegions
  have hPass := walkable_of_cfgBuildDirect hFuel hBefore rfl (.refl _)
  have h := walkable_of_cfgBuildDirect hFuel hBefore hEdges hSame
  refine ⟨h.twoSuccs, fun start hStart => ?_, (hPass.classified hRegions).imp id ?_⟩
  · obtain ⟨mark, hWalk, -⟩ :=
      boundedReach_spec h.wellFormed h.decides h.twoSuccs h.enough hStart
    exact ⟨mark, hWalk⟩
  · exact fun hFits i b hb => (hFits i b hb).congr hEdges hSame.idoms

/-- `lis r4, 0; beq 8; nop; blr`: a branch over one instruction. -/
def skipImage : DolImage := dolImage [0x3C800000, 0x41820008, 0x60000000, 0x4E800020] [0]

theorem cfgBuild_regionsFit_skipImage : ∃ cfg,
    cfgBuild cfgFuel skipImage 0x80004000 0x80004010 = .ok cfg ∧
    cfg.blocks.map (·.regionKind) = [.ifThen, .linear, .linear] ∧ cfg.RegionsFit cfgFuel := by
  have hRun : cfgBuild cfgFuel skipImage 0x80004000 0x80004010 = .ok ⟨_, _, _, _, _⟩ := rfl
  exact ⟨_, hRun, rfl, cfgBuild_regionsFit le_rfl hRun⟩

end Calynda.Decompiler
