import Calynda.Decompiler.Dominance
import Mathlib.Data.Set.Card

/-!
# Loops

Loop headers are the targets of edges from blocks they dominate, by a walk up the `idom`
fields; the loop depth of a block counts the headers above it.
-/

namespace Calynda.Decompiler

/-- Whether `a` is met on the way up from `b`. -/
def dominates (cfg : Cfg) (a : Nat) : Nat → Nat → Except CfgFault Bool
  | 0, _ => .error .outOfFuel
  | fuel + 1, b =>
    if b = cfgInvalid then .ok false
    else if b = a then .ok true
    else if cfg.idomOf b = b then .ok (a = b)
    else dominates cfg a fuel (cfg.idomOf b)

/-- Counts the headers on the way up from `cur`, the block `i` itself apart. -/
def countHeaders (cfg : Cfg) (i : Nat) : Nat → Nat → BitVec 16 → Except CfgFault (BitVec 16)
  | 0, _, _ => .error .outOfFuel
  | fuel + 1, cur, d =>
    if cur = cfgInvalid then .ok d
    else
      let d := if (cfg.blocks.map (·.isLoopHeader)).getD cur false ∧ cur ≠ i then d + 1 else d
      if cfg.idomOf cur = cur then .ok d
      else countHeaders cfg i fuel (cfg.idomOf cur) d

def Cfg.modifyBlock (cfg : Cfg) (i : Nat) (f : CfgBlock → CfgBlock) : Cfg :=
  { cfg with blocks := cfg.blocks.modify i f }

/-- Marks the target of one edge, if it dominates the source. -/
def markHeader (fuel : Nat) (cfg : Cfg) (e : CfgEdge) : Except CfgFault Cfg :=
  if e.dst = cfgInvalid then .ok cfg
  else do
    if ← dominates cfg e.dst fuel e.src then
      .ok (cfg.modifyBlock e.dst fun b => { b with isLoopHeader := true })
    else .ok cfg

def setLoopDepths (fuel : Nat) (cfg : Cfg) : Except CfgFault Cfg := do
  let depth ← (List.range cfg.blocks.length).mapM fun i => countHeaders cfg i fuel i 0
  .ok { cfg with blocks := cfg.blocks.mapIdx fun i b => { b with loopDepth := depth.getD i 0 } }

/-- Marks the source of one edge, if the target lies in fewer loops. -/
def markExit (cfg : Cfg) (e : CfgEdge) : Cfg :=
  let depths := cfg.blocks.map (·.loopDepth)
  if e.dst = cfgInvalid then cfg
  else if depths.getD e.dst 0 < depths.getD e.src 0 then
    cfg.modifyBlock e.src fun b => { b with isLoopExit := true }
  else cfg

def cfgClassifyLoops (fuel : Nat) (cfg : Cfg) : Except CfgFault Cfg :=
  if cfg.blocks.length = 0 then .ok cfg
  else do
    let cfg ← cfg.edges.foldlM (markHeader fuel) cfg
    let cfg ← setLoopDepths fuel cfg
    .ok (cfg.edges.foldl markExit cfg)

/-! ## Walks up the dominator tree -/

section Walks

variable {cfg : Cfg} {a b fuel : Nat} {rpo : Rpo}

theorem Dom_of_idom (hIdoms : cfg.HasIdoms) (hReach : cfg.graph.Reachable b)
    (hEntry : b ≠ cfg.entryBlock) (hNe : a ≠ b) : cfg.Dom a b ↔ cfg.Dom a (cfg.idomOf b) := by
  have hImm := hIdoms.immediate b hReach hEntry
  have hParent := hReach.of_dominates hImm.strict.1
  constructor
  · intro h
    obtain ⟨-, hDom⟩ := h.resolve_left hNe
    exact .inr ⟨hParent, hImm.closest a ⟨hDom, hNe⟩⟩
  · rintro (rfl | ⟨-, hDom⟩)
    · exact .inr ⟨hReach, hImm.strict.1⟩
    · exact .inr ⟨hReach, hDom.trans hImm.strict.1⟩

theorem Dom_entry : cfg.Dom a cfg.entryBlock ↔ a = cfg.entryBlock := by
  refine ⟨?_, .inl⟩
  rintro (h | ⟨-, hDom⟩)
  · exact h
  · exact hDom.eq_entry

theorem Dom_unreachable (hReach : ¬ cfg.graph.Reachable b) : cfg.Dom a b ↔ a = b :=
  ⟨fun h => h.resolve_right fun h' => hReach h'.1, .inl⟩

theorem idomOf_ne (hIdoms : cfg.HasIdoms) (hReach : cfg.graph.Reachable b)
    (hEntry : b ≠ cfg.entryBlock) : cfg.idomOf b ≠ b :=
  (hIdoms.immediate b hReach hEntry).strict.2

theorem idomOf_pos_lt (hRpo : rpo.Valid cfg) (hIdoms : cfg.HasIdoms)
    (hReach : cfg.graph.Reachable b) (hEntry : b ≠ cfg.entryBlock) :
    rpo.posOf (cfg.idomOf b) < rpo.posOf b := by
  have hImm := hIdoms.immediate b hReach hEntry
  have hParent := hReach.of_dominates hImm.strict.1
  refine Nat.lt_of_le_of_ne (hRpo.numbering.pos_le hReach hImm.strict.1) fun hEq => ?_
  exact hImm.strict.2 (hRpo.numbering.injective _ _ hParent hReach hEq)

/-- The walk from a reachable block decides dominance. -/
theorem dominates_reachable (hWf : cfg.WellFormed) (hRpo : rpo.Valid cfg) (hIdoms : cfg.HasIdoms) :
    ∀ (fuel b : Nat), cfg.graph.Reachable b → rpo.posOf b < fuel →
      ∃ r, dominates cfg a fuel b = .ok r ∧ (r = true ↔ cfg.Dom a b) := by
  intro fuel
  induction fuel with
  | zero =>
    intro b _ hFuel
    exact absurd hFuel (Nat.not_lt_zero _)
  | succ fuel ih =>
    intro b hReach hFuel
    rw [dominates, if_neg (hWf.ne_invalid (hWf.reachable_lt hReach))]
    by_cases hEq : b = a
    · exact ⟨true, if_pos hEq, iff_of_true rfl (.inl hEq.symm)⟩
    · rw [if_neg hEq]
      by_cases hEntry : b = cfg.entryBlock
      · subst hEntry
        refine ⟨false, ?_, iff_of_false Bool.false_ne_true fun h => hEq (Dom_entry.1 h).symm⟩
        rw [if_pos hIdoms.entry]
        simp [Ne.symm hEq]
      · rw [if_neg (idomOf_ne hIdoms hReach hEntry)]
        have hParent := hReach.of_dominates (hIdoms.immediate b hReach hEntry).strict.1
        have hLt := idomOf_pos_lt hRpo hIdoms hReach hEntry
        obtain ⟨r, hRun, hDom⟩ := ih (cfg.idomOf b) hParent (by omega)
        exact ⟨r, hRun, hDom.trans (Dom_of_idom hIdoms hReach hEntry (Ne.symm hEq)).symm⟩

/-- With enough fuel the walk decides dominance, from any block. -/
theorem dominates_spec (hWf : cfg.WellFormed) (hIdoms : cfg.HasIdoms) (hb : b < cfg.blocks.length)
    (hFuel : cfg.blocks.length < fuel) :
    ∃ r, dominates cfg a fuel b = .ok r ∧ (r = true ↔ cfg.Dom a b) := by
  obtain ⟨rpo, -, hRpo⟩ := buildRpo_valid hWf _ (Nat.lt_succ_self _)
  by_cases hReach : cfg.graph.Reachable b
  · refine dominates_reachable hWf hRpo hIdoms fuel b hReach ?_
    exact Nat.lt_trans (Nat.lt_of_lt_of_le (hRpo.pos_lt hReach) (hRpo.length_le hWf)) hFuel
  · obtain ⟨n, rfl⟩ : ∃ n, fuel = n + 2 := ⟨fuel - 2, by omega⟩
    have hInvalid := hIdoms.unreachable b hReach
    rw [dominates, if_neg (hWf.ne_invalid hb)]
    by_cases hEq : b = a
    · exact ⟨true, if_pos hEq, iff_of_true rfl (.inl hEq.symm)⟩
    · refine ⟨false, ?_, iff_of_false Bool.false_ne_true fun h =>
        hEq ((Dom_unreachable hReach).1 h).symm⟩
      rw [if_neg hEq, hInvalid, if_neg (Ne.symm (hWf.ne_invalid hb)), dominates, if_pos rfl]

/-- The headers above block `i` that the walk from `cur` still meets. -/
def headersAbove (cfg : Cfg) (i cur : Nat) : Set Nat :=
  {h | cfg.headerOf h = true ∧ h ≠ i ∧ cfg.Dom h cur}

theorem headersAbove_finite (hWf : cfg.WellFormed) {i cur : Nat} (hCur : cur < cfg.blocks.length) :
    (headersAbove cfg i cur).Finite := by
  refine (Set.finite_lt_nat cfg.blocks.length).subset ?_
  rintro h ⟨-, -, hDom⟩
  rcases hDom with rfl | ⟨hReach, hDom⟩
  · exact hCur
  · exact hWf.reachable_lt (hReach.of_dominates hDom)

theorem not_Dom_idom (hRpo : rpo.Valid cfg) (hIdoms : cfg.HasIdoms)
    (hReach : cfg.graph.Reachable b) (hEntry : b ≠ cfg.entryBlock) :
    ¬ cfg.Dom b (cfg.idomOf b) := by
  have hLt := idomOf_pos_lt hRpo hIdoms hReach hEntry
  have hParent := hReach.of_dominates (hIdoms.immediate b hReach hEntry).strict.1
  rintro (hEq | ⟨-, hDom⟩)
  · exact idomOf_ne hIdoms hReach hEntry hEq.symm
  · exact absurd (hRpo.numbering.pos_le hParent hDom) (Nat.not_le_of_lt hLt)

/-- One step of the walk counts the block it is at. -/
theorem ncard_headersAbove (hWf : cfg.WellFormed) (hRpo : rpo.Valid cfg) (hIdoms : cfg.HasIdoms)
    {i cur : Nat} (hReach : cfg.graph.Reachable cur) (hEntry : cur ≠ cfg.entryBlock) :
    (headersAbove cfg i cur).ncard =
      (if cfg.headerOf cur = true ∧ cur ≠ i then 1 else 0) +
        (headersAbove cfg i (cfg.idomOf cur)).ncard := by
  have hParent := hReach.of_dominates (hIdoms.immediate cur hReach hEntry).strict.1
  have hNot := not_Dom_idom hRpo hIdoms hReach hEntry
  have hOther : ∀ h, h ≠ cur →
      (h ∈ headersAbove cfg i cur ↔ h ∈ headersAbove cfg i (cfg.idomOf cur)) := by
    intro h hNe
    simp only [headersAbove, Set.mem_ofPred_eq, Dom_of_idom hIdoms hReach hEntry hNe]
  by_cases hCount : cfg.headerOf cur = true ∧ cur ≠ i
  · have hInsert : headersAbove cfg i cur = insert cur (headersAbove cfg i (cfg.idomOf cur)) := by
      ext h
      by_cases hEq : h = cur
      · subst hEq
        exact iff_of_true ⟨hCount.1, hCount.2, .inl rfl⟩ (Set.mem_insert _ _)
      · rw [hOther h hEq, Set.mem_insert_iff, or_iff_right hEq]
    rw [hInsert, if_pos hCount, Set.ncard_insert_of_notMem (fun h => hNot h.2.2)
      (headersAbove_finite hWf (hWf.reachable_lt hParent)), Nat.add_comm]
  · have hSame : headersAbove cfg i cur = headersAbove cfg i (cfg.idomOf cur) := by
      ext h
      by_cases hEq : h = cur
      · subst hEq
        exact iff_of_false (fun h => hCount ⟨h.1, h.2.1⟩) fun h => hNot h.2.2
      · exact hOther h hEq
    rw [hSame, if_neg hCount, Nat.zero_add]

theorem ncard_headersAbove_entry {i : Nat} :
    (headersAbove cfg i cfg.entryBlock).ncard =
      if cfg.headerOf cfg.entryBlock = true ∧ cfg.entryBlock ≠ i then 1 else 0 := by
  by_cases hCount : cfg.headerOf cfg.entryBlock = true ∧ cfg.entryBlock ≠ i
  · have hSingle : headersAbove cfg i cfg.entryBlock = {cfg.entryBlock} := by
      ext h
      refine ⟨fun hMem => Dom_entry.1 hMem.2.2, ?_⟩
      rintro rfl
      exact ⟨hCount.1, hCount.2, .inl rfl⟩
    rw [hSingle, if_pos hCount, Set.ncard_singleton]
  · have hEmpty : headersAbove cfg i cfg.entryBlock = ∅ := by
      ext h
      refine iff_of_false (fun hMem => ?_) (Set.notMem_empty _)
      obtain rfl := Dom_entry.1 hMem.2.2
      exact hCount ⟨hMem.1, hMem.2.1⟩
    rw [hEmpty, if_neg hCount, Set.ncard_empty]

theorem countHeaders_reachable (hWf : cfg.WellFormed) (hRpo : rpo.Valid cfg)
    (hIdoms : cfg.HasIdoms) {i : Nat} :
    ∀ (fuel cur : Nat) (d : BitVec 16), cfg.graph.Reachable cur → rpo.posOf cur < fuel →
      countHeaders cfg i fuel cur d = .ok (d + BitVec.ofNat 16 (headersAbove cfg i cur).ncard) := by
  intro fuel
  induction fuel with
  | zero =>
    intro cur d _ hFuel
    exact absurd hFuel (Nat.not_lt_zero _)
  | succ fuel ih =>
    intro cur d hReach hFuel
    have hBump : (if cfg.headerOf cur = true ∧ cur ≠ i then d + 1 else d) =
        d + BitVec.ofNat 16 (if cfg.headerOf cur = true ∧ cur ≠ i then 1 else 0) := by
      split
      · rfl
      · exact (BitVec.add_zero d).symm
    rw [countHeaders, if_neg (hWf.ne_invalid (hWf.reachable_lt hReach))]
    show (if cfg.idomOf cur = cur then
        .ok (if cfg.headerOf cur = true ∧ cur ≠ i then d + 1 else d)
      else countHeaders cfg i fuel (cfg.idomOf cur)
        (if cfg.headerOf cur = true ∧ cur ≠ i then d + 1 else d)) = _
    rw [hBump]
    by_cases hEntry : cur = cfg.entryBlock
    · subst hEntry
      rw [if_pos hIdoms.entry, ncard_headersAbove_entry]
    · have hParent := hReach.of_dominates (hIdoms.immediate cur hReach hEntry).strict.1
      have hLt := idomOf_pos_lt hRpo hIdoms hReach hEntry
      rw [if_neg (idomOf_ne hIdoms hReach hEntry), ih _ _ hParent (by omega),
        ncard_headersAbove hWf hRpo hIdoms hReach hEntry, BitVec.ofNat_add, BitVec.add_assoc]

/-- The walk from a block counts the headers above it. -/
theorem countHeaders_spec (hWf : cfg.WellFormed) (hIdoms : cfg.HasIdoms) {i : Nat}
    (hi : i < cfg.blocks.length) (hFuel : cfg.blocks.length < fuel) :
    countHeaders cfg i fuel i 0 = .ok (BitVec.ofNat 16 (headersAbove cfg i i).ncard) := by
  obtain ⟨rpo, -, hRpo⟩ := buildRpo_valid hWf _ (Nat.lt_succ_self _)
  by_cases hReach : cfg.graph.Reachable i
  · have hPos := Nat.lt_of_lt_of_le (hRpo.pos_lt hReach) (hRpo.length_le hWf)
    rw [countHeaders_reachable hWf hRpo hIdoms fuel i 0 hReach (Nat.lt_trans hPos hFuel)]
    exact congrArg Except.ok (BitVec.zero_add _)
  · obtain ⟨n, rfl⟩ : ∃ n, fuel = n + 2 := ⟨fuel - 2, by omega⟩
    have hEmpty : headersAbove cfg i i = ∅ := by
      ext h
      refine iff_of_false (fun hMem => ?_) (Set.notMem_empty _)
      exact hMem.2.1 ((Dom_unreachable hReach).1 hMem.2.2)
    have hSelf : ¬ (cfg.headerOf i = true ∧ i ≠ i) := fun h => h.2 rfl
    rw [countHeaders, if_neg (hWf.ne_invalid hi), hIdoms.unreachable i hReach,
      if_neg (Ne.symm (hWf.ne_invalid hi)), countHeaders, if_pos rfl, hEmpty, Set.ncard_empty]
    exact congrArg Except.ok (if_neg hSelf)

end Walks

/-! ## The passes over the edges and blocks -/

section Passes

variable {cfg cfg' : Cfg} {fuel : Nat}

theorem dominates_congr (h : ∀ b, cfg'.idomOf b = cfg.idomOf b) (a : Nat) :
    ∀ fuel b, dominates cfg' a fuel b = dominates cfg a fuel b := by
  intro fuel
  induction fuel with
  | zero => exact fun _ => rfl
  | succ fuel ih =>
    intro b
    rw [dominates, dominates, h b, ih]

/-- Two graphs of the same shape with the same `idom` fields. -/
structure SameIdoms (cfg cfg' : Cfg) : Prop extends cfg.SameShape cfg' where
  idoms : ∀ b, cfg'.idomOf b = cfg.idomOf b

theorem SameIdoms.refl (cfg : Cfg) : SameIdoms cfg cfg := ⟨.refl cfg, fun _ => rfl⟩

theorem SameIdoms.trans {cfg'' : Cfg} (h : SameIdoms cfg cfg') (h' : SameIdoms cfg' cfg'') :
    SameIdoms cfg cfg'' :=
  ⟨h.toSameShape.trans h'.toSameShape, fun b => (h'.idoms b).trans (h.idoms b)⟩

theorem SameIdoms.hasIdoms (h : SameIdoms cfg cfg') (hIdoms : cfg.HasIdoms) : cfg'.HasIdoms where
  entry := by
    rw [h.entry, h.idoms]
    exact hIdoms.entry
  immediate b := by
    rw [h.graph, h.entry, h.idoms]
    exact hIdoms.immediate b
  unreachable b := by
    rw [h.graph, h.idoms]
    exact hIdoms.unreachable b

theorem SameIdoms.Dom_iff (h : SameIdoms cfg cfg') (a b : Nat) : cfg'.Dom a b ↔ cfg.Dom a b := by
  unfold Cfg.Dom
  rw [h.graph]

theorem sameIdoms_modifyBlock (cfg : Cfg) (i : Nat) {f : CfgBlock → CfgBlock}
    (hExtent : ∀ b, (f b).extent = b.extent) (hIdom : ∀ b, (f b).idom = b.idom) :
    SameIdoms cfg (cfg.modifyBlock i f) where
  edges := rfl
  entry := rfl
  extents := List.map_modify_of_eq _ _ hExtent _ _
  switches := rfl
  idoms b := by
    unfold Cfg.idomOf
    rw [Cfg.modifyBlock, List.map_modify_of_eq _ _ hIdom]

theorem headerOf_modifyBlock_of_eq (i : Nat) {f : CfgBlock → CfgBlock}
    (hf : ∀ b, (f b).isLoopHeader = b.isLoopHeader) (b : Nat) :
    (cfg.modifyBlock i f).headerOf b = cfg.headerOf b := by
  unfold Cfg.headerOf
  rw [Cfg.modifyBlock, List.map_modify_of_eq _ _ hf]

theorem headerOf_markHeader {i : Nat} (hi : i < cfg.blocks.length) (b : Nat) :
    (cfg.modifyBlock i fun b => { b with isLoopHeader := true }).headerOf b = true ↔
      cfg.headerOf b = true ∨ b = i := by
  have hMap : (cfg.modifyBlock i fun b => { b with isLoopHeader := true }).blocks.map
      (·.isLoopHeader) = (cfg.blocks.map (·.isLoopHeader)).set i true := by
    refine List.ext_getElem (by simp [Cfg.modifyBlock]) fun j hj hj' => ?_
    simp only [Cfg.modifyBlock, List.getElem_map, List.getElem_modify, List.getElem_set]
    split <;> rfl
  unfold Cfg.headerOf
  rw [hMap]
  by_cases hEq : b = i
  · subst hEq
    rw [List.getD_set_self (by simpa using hi)]
    exact iff_of_true rfl (.inr rfl)
  · rw [List.getD_set_of_ne (Ne.symm hEq), or_iff_left hEq]

/-- A block that some of the edges enter from a block it dominates. -/
def EnteredFromBelow (cfg : Cfg) (edges : List CfgEdge) (b : Nat) : Prop :=
  ∃ e ∈ edges, e.dst = b ∧ e.dst ≠ cfgInvalid ∧ cfg.Dom b e.src

theorem markHeaders_spec (hWf : cfg.WellFormed) (hIdoms : cfg.HasIdoms)
    (hFuel : cfg.blocks.length < fuel) :
    ∀ (edges : List CfgEdge) (cfg₁ : Cfg), (∀ e ∈ edges, e ∈ cfg.edges) → SameIdoms cfg cfg₁ →
      ∃ cfg₂, edges.foldlM (markHeader fuel) cfg₁ = .ok cfg₂ ∧ SameIdoms cfg cfg₂ ∧
        ∀ b, cfg₂.headerOf b = true ↔ cfg₁.headerOf b = true ∨ EnteredFromBelow cfg edges b := by
  intro edges
  induction edges with
  | nil =>
    intro cfg₁ _ hSame
    refine ⟨cfg₁, rfl, hSame, fun b => (or_iff_left ?_).symm⟩
    rintro ⟨e, he, -⟩
    exact absurd he List.not_mem_nil
  | cons e edges ih =>
    intro cfg₁ hEdges hSame
    have hMem := hEdges e List.mem_cons_self
    have hTail : ∀ e' ∈ edges, e' ∈ cfg.edges := fun e' he' => hEdges e' (List.mem_cons_of_mem _ he')
    have hCons : ∀ b, EnteredFromBelow cfg (e :: edges) b ↔
        (e.dst = b ∧ e.dst ≠ cfgInvalid ∧ cfg.Dom b e.src) ∨ EnteredFromBelow cfg edges b := by
      intro b
      simp only [EnteredFromBelow, List.mem_cons, exists_eq_or_imp]
    rw [List.foldlM_cons]
    by_cases hDst : e.dst = cfgInvalid
    · obtain ⟨cfg₂, hRun, hSame₂, hHeader⟩ := ih cfg₁ hTail hSame
      refine ⟨cfg₂, ?_, hSame₂, fun b => ?_⟩
      · rw [markHeader, if_pos hDst]
        exact hRun
      · rw [hHeader b, hCons b, or_iff_right (a := e.dst = b ∧ _)]
        exact fun h => h.2.1 hDst
    · obtain ⟨r, hDominates, hDom⟩ := dominates_spec (a := e.dst) hWf hIdoms (hWf.src_lt e hMem) hFuel
      have hStep : markHeader fuel cfg₁ e = .ok (if r = true then
          cfg₁.modifyBlock e.dst fun b => { b with isLoopHeader := true } else cfg₁) := by
        rw [markHeader, if_neg hDst, dominates_congr hSame.idoms, hDominates]
        cases r <;> rfl
      have hDstLt : e.dst < cfg₁.blocks.length :=
        hSame.length_blocks ▸ (hWf.dst_lt e hMem).resolve_left hDst
      rw [hStep]
      by_cases hTrue : r = true
      · rw [if_pos hTrue]
        obtain ⟨cfg₂, hRun, hSame₂, hHeader⟩ := ih
          (cfg₁.modifyBlock e.dst fun b => { b with isLoopHeader := true }) hTail
          (hSame.trans (sameIdoms_modifyBlock cfg₁ e.dst (fun _ => rfl) fun _ => rfl))
        refine ⟨cfg₂, hRun, hSame₂, fun b => ?_⟩
        rw [hHeader b, headerOf_markHeader hDstLt, hCons b, or_assoc]
        refine or_congr Iff.rfl (or_congr ⟨?_, fun h => h.1.symm⟩ Iff.rfl)
        rintro rfl
        exact ⟨rfl, hDst, hDom.1 hTrue⟩
      · rw [if_neg hTrue]
        obtain ⟨cfg₂, hRun, hSame₂, hHeader⟩ := ih cfg₁ hTail hSame
        refine ⟨cfg₂, hRun, hSame₂, fun b => ?_⟩
        rw [hHeader b, hCons b, or_iff_right (a := e.dst = b ∧ _)]
        rintro ⟨rfl, -, h⟩
        exact hTrue (hDom.2 h)

theorem mapM_eq_ok {α β : Type} {f : α → Except CfgFault β} {g : α → β} {l : List α}
    (h : ∀ a ∈ l, f a = .ok (g a)) : l.mapM f = .ok (l.map g) := by
  induction l with
  | nil => rfl
  | cons a l ih =>
    rw [List.mapM_cons, h a List.mem_cons_self, ih fun b hb => h b (List.mem_cons_of_mem _ hb)]
    rfl

theorem setLoopDepths_spec (hWf : cfg.WellFormed) (hIdoms : cfg.HasIdoms)
    (hFuel : cfg.blocks.length < fuel) :
    ∃ cfg', setLoopDepths fuel cfg = .ok cfg' ∧ SameIdoms cfg cfg' ∧
      (∀ b, cfg'.headerOf b = cfg.headerOf b) ∧
      ∀ b < cfg.blocks.length, cfg'.loopDepthOf b = BitVec.ofNat 16 (headersAbove cfg b b).ncard := by
  have hRun : (List.range cfg.blocks.length).mapM (fun i => countHeaders cfg i fuel i 0) =
      .ok ((List.range cfg.blocks.length).map fun i =>
        BitVec.ofNat 16 (headersAbove cfg i i).ncard) :=
    mapM_eq_ok fun i hi => countHeaders_spec hWf hIdoms (List.mem_range.1 hi) hFuel
  have hMap : ∀ (depth : List (BitVec 16)) {β : Type} (g : CfgBlock → β),
      (∀ b d, g { b with loopDepth := d } = g b) →
      (cfg.blocks.mapIdx fun i b => { b with loopDepth := depth.getD i 0 }).map g =
        cfg.blocks.map g := by
    intro depth β g hg
    refine List.ext_getElem (by simp) fun j hj hj' => ?_
    simp [hg]
  rw [setLoopDepths, hRun]
  refine ⟨_, rfl, ⟨⟨rfl, rfl, hMap _ _ fun _ _ => rfl, rfl⟩, fun b => ?_⟩, fun b => ?_, fun b hb => ?_⟩
  · unfold Cfg.idomOf
    rw [hMap _ _ fun _ _ => rfl]
  · unfold Cfg.headerOf
    rw [hMap _ _ fun _ _ => rfl]
  · unfold Cfg.loopDepthOf
    rw [List.getD_eq_getElem _ _ (by simpa using hb)]
    simp [hb]

theorem loopDepthOf_modifyBlock_of_eq (i : Nat) {f : CfgBlock → CfgBlock}
    (hf : ∀ b, (f b).loopDepth = b.loopDepth) (b : Nat) :
    (cfg.modifyBlock i f).loopDepthOf b = cfg.loopDepthOf b := by
  unfold Cfg.loopDepthOf
  rw [Cfg.modifyBlock, List.map_modify_of_eq _ _ hf]

/-- Two graphs that record the same about dominance and loops. -/
structure SameLoops (cfg cfg' : Cfg) : Prop extends SameIdoms cfg cfg' where
  header : ∀ b, cfg'.headerOf b = cfg.headerOf b
  loopDepth : ∀ b, cfg'.loopDepthOf b = cfg.loopDepthOf b

theorem SameLoops.refl (cfg : Cfg) : SameLoops cfg cfg :=
  ⟨.refl cfg, fun _ => rfl, fun _ => rfl⟩

theorem SameLoops.trans {cfg'' : Cfg} (h : SameLoops cfg cfg') (h' : SameLoops cfg' cfg'') :
    SameLoops cfg cfg'' where
  toSameIdoms := h.toSameIdoms.trans h'.toSameIdoms
  header b := (h'.header b).trans (h.header b)
  loopDepth b := (h'.loopDepth b).trans (h.loopDepth b)

theorem sameLoops_markExit (cfg : Cfg) (e : CfgEdge) : SameLoops cfg (markExit cfg e) := by
  unfold markExit
  dsimp only
  split
  · exact .refl cfg
  · split
    · exact {
        toSameIdoms := sameIdoms_modifyBlock cfg e.src (fun _ => rfl) fun _ => rfl
        header := headerOf_modifyBlock_of_eq e.src fun _ => rfl
        loopDepth := loopDepthOf_modifyBlock_of_eq e.src fun _ => rfl }
    · exact .refl cfg

theorem sameLoops_markExits (edges : List CfgEdge) (cfg : Cfg) :
    SameLoops cfg (edges.foldl markExit cfg) := by
  induction edges generalizing cfg with
  | nil => exact .refl cfg
  | cons e edges ih => exact (sameLoops_markExit cfg e).trans (ih (markExit cfg e))

/-- The loop facts are those of the edges: a header is entered from a block it dominates, and
the depth of a block is the number of headers above it. -/
structure Cfg.HasLoops (cfg : Cfg) : Prop where
  header : ∀ b < cfg.blocks.length, cfg.headerOf b = true ↔ EnteredFromBelow cfg cfg.edges b
  loopDepth : ∀ b < cfg.blocks.length,
    cfg.loopDepthOf b = BitVec.ofNat 16 (headersAbove cfg b b).ncard

theorem headersAbove_congr (hSame : SameIdoms cfg cfg')
    (hHeader : ∀ b, cfg'.headerOf b = cfg.headerOf b) (i cur : Nat) :
    headersAbove cfg' i cur = headersAbove cfg i cur := by
  ext h
  simp only [headersAbove, Set.mem_ofPred_eq, hHeader, hSame.Dom_iff]

theorem SameLoops.hasLoops (h : SameLoops cfg cfg') (hLoops : cfg.HasLoops) : cfg'.HasLoops where
  header b hb := by
    rw [h.header, hLoops.header b (h.length_blocks ▸ hb), h.edges]
    simp only [EnteredFromBelow, h.toSameIdoms.Dom_iff]
  loopDepth b hb := by
    rw [h.loopDepth, hLoops.loopDepth b (h.length_blocks ▸ hb),
      headersAbove_congr h.toSameIdoms h.header]

/-- With the right `idom` fields and no block marked before, the pass finds the loops. -/
theorem cfgClassifyLoops_spec (hWf : cfg.WellFormed) (hIdoms : cfg.HasIdoms)
    (hFresh : ∀ b, cfg.headerOf b = false) (hFuel : cfg.blocks.length < fuel) :
    ∃ cfg', cfgClassifyLoops fuel cfg = .ok cfg' ∧ SameIdoms cfg cfg' ∧ cfg'.HasLoops := by
  have hNonempty : cfg.blocks.length ≠ 0 := by
    have := hWf.entry_lt
    omega
  obtain ⟨cfg₁, hRun₁, hSame₁, hHeader⟩ :=
    markHeaders_spec hWf hIdoms hFuel cfg.edges cfg (fun _ h => h) (.refl cfg)
  obtain ⟨cfg₂, hRun₂, hSame₂, hHeader₂, hDepth⟩ :=
    setLoopDepths_spec (hSame₁.wellFormed hWf) (hSame₁.hasIdoms hIdoms)
      (hSame₁.length_blocks ▸ hFuel)
  have hLoops : cfg₂.HasLoops := by
    constructor
    · intro b _
      rw [hHeader₂, hHeader b, hFresh b, (hSame₁.trans hSame₂).edges]
      simp only [Bool.false_eq_true, false_or, EnteredFromBelow, (hSame₁.trans hSame₂).Dom_iff]
    · intro b hb
      rw [hDepth b (hSame₂.length_blocks ▸ hb), headersAbove_congr hSame₂ hHeader₂]
  refine ⟨cfg₂.edges.foldl markExit cfg₂, ?_, ?_, ?_⟩
  · rw [cfgClassifyLoops, if_neg hNonempty, hRun₁]
    show (setLoopDepths fuel cfg₁ >>= _) = _
    rw [hRun₂]
    rfl
  · exact (hSame₁.trans hSame₂).trans (sameLoops_markExits _ _).toSameIdoms
  · exact (sameLoops_markExits _ _).hasLoops hLoops

end Passes

end Calynda.Decompiler
