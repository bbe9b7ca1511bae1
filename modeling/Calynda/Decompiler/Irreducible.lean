import Calynda.Decompiler.NaturalLoops
import Calynda.Decompiler.Regions

/-!
# The irreducibility flag

The pass looks for edges that enter the blocks a header dominates from a block that it does not.
Between reachable blocks there is no such edge but one to the header itself: the flag only ever
reports a jump from an unreachable block.
-/

namespace Calynda.Decompiler

/-- An unreachable block has an edge to a block that a loop header strictly dominates. -/
def Cfg.DeadEdgeIntoLoop (cfg : Cfg) : Prop :=
  ∃ u b h, cfg.graph.Edge u b ∧ ¬cfg.graph.Reachable u ∧ cfg.graph.Reachable b ∧
    cfg.graph.LoopHeader h ∧ cfg.graph.StrictlyDominates h b

section Runs

variable {α σ : Type} {f : α → Except CfgFault Bool} {l : List α}

theorem anyM_eq_ok (h : ∀ a ∈ l, ∃ r, f a = .ok r) :
    ∃ r, l.anyM f = .ok r ∧ (r = true ↔ ∃ a ∈ l, f a = .ok true) := by
  induction l with
  | nil => exact ⟨false, rfl, by simp⟩
  | cons a l ih =>
    obtain ⟨r, hr⟩ := h a List.mem_cons_self
    obtain ⟨rest, hRun, hRest⟩ := ih fun b hb => h b (List.mem_cons_of_mem _ hb)
    cases r with
    | true =>
      refine ⟨true, ?_, iff_of_true rfl ⟨a, List.mem_cons_self, hr⟩⟩
      rw [List.anyM, hr]
      rfl
    | false =>
      refine ⟨rest, ?_, hRest.trans ?_⟩
      · rw [List.anyM, hr]
        exact hRun
      · simp [hr]

/-- A run whose steps keep an invariant and add at most `k` to a measure. -/
theorem foldlM_eq_ok {g : σ → α → Except CfgFault σ} {P : σ → Prop} {m : σ → Nat} {k : Nat}
    (h : ∀ a ∈ l, ∀ s, P s → ∃ s', g s a = .ok s' ∧ P s' ∧ m s' ≤ m s + k) {s : σ} (hs : P s) :
    ∃ s', l.foldlM g s = .ok s' ∧ P s' ∧ m s' ≤ m s + k * l.length := by
  induction l generalizing s with
  | nil => exact ⟨s, rfl, hs, by simp⟩
  | cons a l ih =>
    obtain ⟨s₁, hStep, hs₁, hm₁⟩ := h a List.mem_cons_self s hs
    obtain ⟨s₂, hRun, hs₂, hm₂⟩ := ih (fun b hb => h b (List.mem_cons_of_mem _ hb)) hs₁
    refine ⟨s₂, ?_, hs₂, ?_⟩
    · rw [List.foldlM_cons, hStep]
      exact hRun
    · rw [List.length_cons, Nat.mul_succ]
      omega

end Runs

section Flag

variable {cfg : Cfg} {fuel : Nat} (hWf : cfg.WellFormed) (hIdoms : cfg.HasIdoms)
  (hFuel : cfg.blocks.length < fuel)
include hWf hIdoms hFuel

theorem entersBeside_spec (h : Nat) {e : CfgEdge} (he : e ∈ cfg.edges) :
    ∃ r, entersBeside cfg fuel h e = .ok r ∧
      (r = true ↔ e.dst ≠ cfgInvalid ∧ e.dst ≠ h ∧ cfg.Dom h e.dst ∧ ¬cfg.Dom h e.src) := by
  unfold entersBeside
  by_cases hDst : e.dst = cfgInvalid
  · exact ⟨false, if_pos hDst, iff_of_false Bool.false_ne_true fun h => h.1 hDst⟩
  rw [if_neg hDst]
  by_cases hEq : e.dst = h
  · exact ⟨false, if_pos hEq, iff_of_false Bool.false_ne_true fun h => h.2.1 hEq⟩
  rw [if_neg hEq]
  obtain ⟨toIn, hRunTo, hTo⟩ :=
    dominates_spec (a := h) hWf hIdoms ((hWf.dst_lt e he).resolve_left hDst) hFuel
  obtain ⟨frIn, hRunFr, hFr⟩ := dominates_spec (a := h) hWf hIdoms (hWf.src_lt e he) hFuel
  refine ⟨toIn && !frIn, ?_, ?_⟩
  · rw [hRunTo]
    show (dominates cfg h fuel e.src >>= _) = _
    rw [hRunFr]
    rfl
  · rw [Bool.and_eq_true, hTo, Bool.not_eq_true', ← Bool.not_eq_true, hFr]
    simp [hDst, hEq]

/-- An edge that enters beside a reachable header comes from an unreachable block. -/
theorem enters_iff {h : Nat} {e : CfgEdge} (he : e ∈ cfg.edges) (hLoops : cfg.HasLoops)
    (hh : h < cfg.blocks.length) :
    (cfg.headerOf h = true ∧ entersBeside cfg fuel h e = .ok true) ↔
      cfg.graph.Edge e.src e.dst ∧ ¬cfg.graph.Reachable e.src ∧ cfg.graph.Reachable e.dst ∧
        cfg.graph.LoopHeader h ∧ cfg.graph.StrictlyDominates h e.dst := by
  obtain ⟨r, hRun, hr⟩ := entersBeside_spec hWf hIdoms hFuel h he
  have hTrue : entersBeside cfg fuel h e = .ok true ↔ r = true := by
    rw [hRun]
    exact Except.ok.injEq .. |>.to_iff
  rw [hTrue, hr]
  constructor
  · rintro ⟨hHeader, hDst, hNe, hIn, hOut⟩
    have hEdge : cfg.graph.Edge e.src e.dst := ⟨e, he, rfl, rfl, hDst⟩
    obtain ⟨hReach, hDom⟩ := hIn.resolve_left (Ne.symm hNe)
    have hStrict : cfg.graph.StrictlyDominates h e.dst := ⟨hDom, Ne.symm hNe⟩
    refine ⟨hEdge, fun hSrc => hOut (Or.inr ⟨hSrc, hStrict.of_edge hEdge⟩), hReach, ?_, hStrict⟩
    exact (headerOf_iff_loopHeader hWf hLoops (hReach.of_dominates hDom)).1 hHeader
  · rintro ⟨⟨_, -, -, hTo, hDst⟩, hSrc, hReach, hHeader, hStrict⟩
    refine ⟨(headerOf_iff_loopHeader hWf hLoops hHeader.reachable).2 hHeader, hTo ▸ hDst,
      Ne.symm hStrict.2, Or.inr ⟨hReach, hStrict.1⟩, ?_⟩
    rintro (rfl | hIn)
    · exact hSrc hHeader.reachable
    · exact hSrc hIn.1

theorem detectIrreducible_spec (hLoops : cfg.HasLoops) :
    ∃ r, detectIrreducible cfg fuel = .ok r ∧ (r = true ↔ cfg.DeadEdgeIntoLoop) := by
  have hEdges : ∀ h, ∃ r, cfg.edges.anyM (entersBeside cfg fuel h) = .ok r ∧
      (r = true ↔ ∃ e ∈ cfg.edges, entersBeside cfg fuel h e = .ok true) := fun h =>
    anyM_eq_ok fun e he => (entersBeside_spec hWf hIdoms hFuel h he).imp fun _ hr => hr.1
  have hHeaders : ∀ h ∈ List.range cfg.blocks.length, ∃ r,
      (if (cfg.blocks.map (·.isLoopHeader)).getD h false then
        cfg.edges.anyM (entersBeside cfg fuel h) else .ok false) = .ok r := by
    intro h _
    obtain ⟨r, hRun, -⟩ := hEdges h
    split
    · exact ⟨r, hRun⟩
    · exact ⟨false, rfl⟩
  obtain ⟨r, hRun, hr⟩ := anyM_eq_ok hHeaders
  refine ⟨r, hRun, hr.trans ?_⟩
  constructor
  · rintro ⟨h, hh, hTrue⟩
    split at hTrue
    next hHeader =>
      obtain ⟨r, hRun, hr⟩ := hEdges h
      rw [hRun] at hTrue
      obtain ⟨e, he, hEnters⟩ := hr.1 (Except.ok.inj hTrue)
      obtain ⟨hEdge, hSrc, hDst, hLoop, hStrict⟩ :=
        (enters_iff hWf hIdoms hFuel he hLoops (List.mem_range.1 hh)).1 ⟨hHeader, hEnters⟩
      exact ⟨e.src, e.dst, h, hEdge, hSrc, hDst, hLoop, hStrict⟩
    next => cases hTrue
  · rintro ⟨u, b, h, ⟨e, he, rfl, rfl, hDst⟩, hSrc, hReach, hLoop, hStrict⟩
    have hLt := hWf.reachable_lt hLoop.reachable
    obtain ⟨hHeader, hEnters⟩ := (enters_iff hWf hIdoms hFuel he hLoops hLt).2
      ⟨⟨e, he, rfl, rfl, hDst⟩, hSrc, hReach, hLoop, hStrict⟩
    refine ⟨h, List.mem_range.2 hLt, ?_⟩
    have hHeader : (cfg.blocks.map (·.isLoopHeader)).getD h false = true := hHeader
    obtain ⟨r, hRun, hr⟩ := hEdges h
    rw [if_pos hHeader, hRun, hr.2 ⟨e, he, hEnters⟩]

/-! ## The other blocks -/

theorem isBack_spec {e : CfgEdge} (he : e ∈ cfg.edges) :
    ∃ r, isBack cfg fuel e.src e.dst = .ok r :=
  (dominates_spec hWf hIdoms (hWf.src_lt e he) hFuel).imp fun _ hr => hr.1

theorem forwardEdge_spec (b : Nat) {e : CfgEdge} (he : e ∈ cfg.edges) :
    ∃ r, forwardEdge cfg fuel b e = .ok r ∧ (r = true → e.dst < cfg.blocks.length) := by
  unfold forwardEdge
  split_ifs with hSkip hCase
  · exact ⟨false, rfl, fun h => absurd h Bool.false_ne_true⟩
  · exact ⟨false, rfl, fun h => absurd h Bool.false_ne_true⟩
  · obtain ⟨r, hr⟩ := isBack_spec hWf hIdoms hFuel he
    rw [not_or] at hSkip
    refine ⟨!r, ?_, fun _ => (hWf.dst_lt e he).resolve_left hSkip.2⟩
    rw [hr]
    rfl

theorem forwardSuccs_spec (bi : Nat) : ∃ s, forwardSuccs cfg fuel bi = .ok s ∧
    (s.1 = cfgInvalid ∨ s.1 < cfg.blocks.length) ∧
    (s.2 = cfgInvalid ∨ s.2 < cfg.blocks.length) := by
  obtain ⟨s, hRun, hs, -⟩ := foldlM_eq_ok (l := cfg.edges) (m := fun _ => 0) (k := 0)
    (g := fun (s : Nat × Nat) e =>
      if e.src ≠ bi then .ok (s.1, s.2)
      else if e.dst = cfgInvalid then .ok (s.1, s.2)
      else if e.kind = .switchCase ∨ e.kind = .switchDefault then .ok (s.1, s.2)
      else do
        if ← isBack cfg fuel e.src e.dst then .ok (s.1, s.2)
        else .ok (if s.1 = cfgInvalid then (e.dst, s.2)
          else if s.2 = cfgInvalid then (s.1, e.dst) else (s.1, s.2)))
    (P := fun s => (s.1 = cfgInvalid ∨ s.1 < cfg.blocks.length) ∧
      (s.2 = cfgInvalid ∨ s.2 < cfg.blocks.length))
    (fun e he s hs => by
      have hDst := hWf.dst_lt e he
      obtain ⟨r, hr⟩ := isBack_spec hWf hIdoms hFuel he
      split
      · exact ⟨_, rfl, hs, le_rfl⟩
      split
      · exact ⟨_, rfl, hs, le_rfl⟩
      split
      · exact ⟨_, rfl, hs, le_rfl⟩
      rw [hr]
      cases r with
      | true => exact ⟨_, rfl, hs, le_rfl⟩
      | false =>
        refine ⟨_, rfl, ?_, le_rfl⟩
        split
        · exact ⟨hDst, hs.2⟩
        split
        · exact ⟨hs.1, hDst⟩
        · exact hs)
    (s := (cfgInvalid, cfgInvalid)) ⟨Or.inl rfl, Or.inl rfl⟩
  exact ⟨s, hRun, hs⟩

/-- Marking a block of the stack takes at most one block off the unmarked ones for all its edges. -/
theorem forwardReachLoop_spec : ∀ (n : Nat) (stack : List Nat) (mark : List Bool),
    mark.length = cfg.blocks.length → (∀ b ∈ stack, b < cfg.blocks.length) →
    mark.count false * (cfg.edges.length + 1) + stack.length < n →
    ∃ mark', forwardReachLoop cfg fuel n stack mark = .ok mark' := by
  intro n
  induction n with
  | zero => exact fun _ _ _ _ h => absurd h (Nat.not_lt_zero _)
  | succ n ih =>
    intro stack mark hLen hStack hn
    cases stack with
    | nil => exact ⟨mark, rfl⟩
    | cons b stack =>
      have hRest := fun c hc => hStack c (List.mem_cons_of_mem b hc)
      rw [List.length_cons] at hn
      rw [forwardReachLoop]
      split_ifs with hMarked
      · exact ih stack mark hLen hRest (by omega)
      · have hb : b < mark.length := hLen ▸ hStack b List.mem_cons_self
        have hFalse : mark[b] = false := by
          simpa [List.getD_eq_getElem?_getD, hb] using hMarked
        have hCount : (mark.set b true).count false + 1 = mark.count false := by
          rw [List.count_set hb, hFalse]
          have := List.count_pos_iff.2 (hFalse ▸ List.getElem_mem hb)
          simp
          omega
        obtain ⟨stack', hRun, hStack', hLen'⟩ := foldlM_eq_ok (l := cfg.edges) (k := 1)
          (m := List.length) (P := fun stack : List Nat => ∀ c ∈ stack, c < cfg.blocks.length)
          (g := fun stack e => do
            let forward ← forwardEdge cfg fuel b e
            .ok (if forward ∧ (mark.set b true).getD e.dst false = false then e.dst :: stack
              else stack))
          (fun e he s hs => by
            obtain ⟨r, hr, hDst⟩ := forwardEdge_spec hWf hIdoms hFuel b he
            rw [hr]
            refine ⟨_, rfl, ?_, ?_⟩
            · split_ifs with h
              · exact List.forall_mem_cons.2 ⟨hDst h.1, hs⟩
              · exact hs
            · split_ifs <;> simp) hRest
        obtain ⟨mark', hMark⟩ := ih stack' (mark.set b true) (by simpa using hLen)
          hStack' (by
            rw [← hCount, Nat.succ_mul] at hn
            omega)
        refine ⟨mark', ?_⟩
        show (cfg.edges.foldlM _ stack >>= _) = _
        rw [hRun]
        exact hMark

/-- A block joins the queue once, when it is seen. -/
theorem firstCommonLoop_spec (m1 : List Bool) : ∀ (n : Nat) (queue : List Nat) (seen : List Bool),
    seen.length = cfg.blocks.length → (∀ b ∈ queue, b < cfg.blocks.length) →
    queue.length + seen.count false < n →
    ∃ merge, firstCommonLoop cfg fuel m1 n queue seen = .ok merge := by
  intro n
  induction n with
  | zero => exact fun _ _ _ _ h => absurd h (Nat.not_lt_zero _)
  | succ n ih =>
    intro queue seen hLen hQueue hn
    cases queue with
    | nil => exact ⟨cfgInvalid, rfl⟩
    | cons b queue =>
      rw [firstCommonLoop]
      split
      · exact ⟨b, rfl⟩
      obtain ⟨s, hRun, ⟨hLen', hQueue'⟩, hCount⟩ := foldlM_eq_ok (l := cfg.edges) (k := 0)
        (m := fun s : List Nat × List Bool => s.1.length + s.2.count false)
        (P := fun s => s.2.length = cfg.blocks.length ∧ ∀ c ∈ s.1, c < cfg.blocks.length)
        (g := fun s e => do
          let forward ← forwardEdge cfg fuel b e
          .ok (if forward ∧ s.2.getD e.dst false = false then
            (s.1 ++ [e.dst], s.2.set e.dst true) else (s.1, s.2)))
        (fun e he s hs => by
          obtain ⟨r, hr, hDst⟩ := forwardEdge_spec hWf hIdoms hFuel b he
          rw [hr]
          refine ⟨_, rfl, ?_, ?_⟩
          · split
            next h =>
              refine ⟨by simpa using hs.1, fun c hc => ?_⟩
              rcases List.mem_append.1 hc with hc | hc
              · exact hs.2 c hc
              · exact List.mem_singleton.1 hc ▸ hDst h.1
            next => exact hs
          · split
            next h =>
              have hLt : e.dst < s.2.length := hs.1 ▸ hDst h.1
              have hFalse : s.2[e.dst] = false := by
                simpa [List.getD_eq_getElem?_getD, hLt] using h.2
              have hPos := List.count_pos_iff.2 (hFalse ▸ List.getElem_mem hLt)
              rw [List.length_append, List.count_set hLt, hFalse]
              simp
              omega
            next => exact le_rfl)
        (s := (queue, seen)) ⟨hLen, fun c hc => hQueue c (List.mem_cons_of_mem b hc)⟩
      rw [List.length_cons] at hn
      obtain ⟨merge, hMerge⟩ := ih s.1 s.2 hLen' hQueue' (by
        simp only [Nat.zero_mul, Nat.add_zero] at hCount
        omega)
      refine ⟨merge, ?_⟩
      show (cfg.edges.foldlM _ (queue, seen) >>= _) = _
      rw [hRun]
      exact hMerge

/-- Fuel for the walks from one block. -/
def regionFuel (cfg : Cfg) : Nat := cfg.blocks.length * (cfg.edges.length + 1) + 2

theorem regionOf_spec (hEnough : regionFuel cfg ≤ fuel) (i : Nat) (b : CfgBlock) :
    ∃ b', regionOf cfg fuel i b = .ok b' := by
  unfold regionFuel at hEnough
  unfold regionOf
  split
  · exact ⟨_, rfl⟩
  split
  · exact ⟨_, rfl⟩
  obtain ⟨⟨s1, s2⟩, hRun, h1, h2⟩ := forwardSuccs_spec hWf hIdoms hFuel i
  rw [hRun]
  show ∃ b', (if s1 = cfgInvalid ∨ s2 = cfgInvalid then _ else _) = _
  split
  · exact ⟨_, rfl⟩
  next hValid =>
  rw [not_or] at hValid
  have h1 := h1.resolve_left hValid.1
  have h2 := h2.resolve_left hValid.2
  have hBlocks : cfg.blocks.length ≤ cfg.blocks.length * (cfg.edges.length + 1) :=
    Nat.le_mul_of_pos_right _ (Nat.succ_pos _)
  obtain ⟨m1, hReach⟩ := forwardReachLoop_spec hWf hIdoms hFuel fuel [s1]
    (List.replicate cfg.blocks.length false) (by simp) (by simpa using h1)
    (by simp; omega)
  obtain ⟨merge, hMerge⟩ := firstCommonLoop_spec hWf hIdoms hFuel m1 fuel [s2]
    ((List.replicate cfg.blocks.length false).set s2 true) (by simp) (by simpa using h2) (by
      have := List.count_le_length (a := false)
        (l := (List.replicate cfg.blocks.length false).set s2 true)
      simp only [List.length_set, List.length_replicate] at this
      simp only [List.length_singleton]
      omega)
  have hCommon : firstCommon cfg fuel s1 s2 = .ok merge := by
    rw [firstCommon, forwardReach, hReach]
    exact hMerge
  rw [hCommon]
  show ∃ b', (if merge = cfgInvalid then _ else _) = _
  split <;> exact ⟨_, rfl⟩

/-- The pass returns, and it sets the flag exactly for a jump from an unreachable block. -/
theorem cfgClassifyRegions_spec (hEnough : regionFuel cfg ≤ fuel) (hLoops : cfg.HasLoops) :
    ∃ cfg', cfgClassifyRegions cfg fuel = .ok cfg' ∧
      (cfg'.isIrreducible = true ↔ cfg.isIrreducible = true ∨ cfg.DeadEdgeIntoLoop) := by
  have hNonempty : cfg.blocks.length ≠ 0 := by
    have := hWf.entry_lt
    omega
  obtain ⟨r, hDetect, hr⟩ := detectIrreducible_spec hWf hIdoms hFuel hLoops
  rw [cfgClassifyRegions, if_neg hNonempty, hDetect]
  cases r with
  | true => exact ⟨_, rfl, iff_of_true rfl (Or.inr (hr.1 rfl))⟩
  | false =>
    choose g hg using fun a : CfgBlock × Nat => regionOf_spec hWf hIdoms hFuel hEnough a.2 a.1
    refine ⟨{ cfg with blocks := cfg.blocks.zipIdx.map g }, ?_, ?_⟩
    · show (cfg.blocks.zipIdx.mapM (fun a => regionOf cfg fuel a.2 a.1) >>= _) = _
      rw [mapM_eq_ok fun a _ => hg a]
      rfl
    · show cfg.isIrreducible = true ↔ _
      rw [← hr]
      simp

end Flag

theorem isIrreducible_cfgClassifyLoops {cfg cfg' : Cfg} {fuel : Nat}
    (h : cfgClassifyLoops fuel cfg = .ok cfg') : cfg'.isIrreducible = cfg.isIrreducible := by
  have hKept : KeptByDepths Cfg.isIrreducible := ⟨fun _ _ => rfl, fun _ _ => rfl⟩
  have hExits : ∀ (edges : List CfgEdge) (cfg : Cfg),
      (edges.foldl markExit cfg).isIrreducible = cfg.isIrreducible := by
    intro edges
    induction edges with
    | nil => exact fun _ => rfl
    | cons e edges ih =>
      intro cfg
      rw [List.foldl_cons, ih, markExit]
      split_ifs <;> rfl
  rcases hKept.cfgClassifyLoops h with rfl | ⟨cfg₁, rfl, hFlag⟩
  · rfl
  · exact (hExits _ _).trans hFlag

/-- The flag tells irreducible graphs exactly where the graph is irreducible just when an unreachable
block jumps into a loop. -/
theorem cfgClassifyRegions_irreducible_iff {cfg : Cfg} {fuel : Nat} (hWf : cfg.WellFormed)
    (hIdoms : cfg.HasIdoms) (hFresh : ∀ b, cfg.headerOf b = false)
    (hFlag : cfg.isIrreducible = false) (hEnough : regionFuel cfg ≤ fuel) :
    ∃ cfg₁ cfg₂, cfgClassifyLoops fuel cfg = .ok cfg₁ ∧ cfgClassifyRegions cfg₁ fuel = .ok cfg₂ ∧
      ((cfg₂.isIrreducible = true ↔ cfg.graph.Irreducible) ↔
        (cfg.graph.Irreducible ↔ cfg.DeadEdgeIntoLoop)) := by
  have hFuel : cfg.blocks.length < fuel := by
    have hBlocks : cfg.blocks.length ≤ cfg.blocks.length * (cfg.edges.length + 1) :=
      Nat.le_mul_of_pos_right _ (Nat.succ_pos _)
    unfold regionFuel at hEnough
    omega
  obtain ⟨cfg₁, hRun₁, hSame, hLoops⟩ := cfgClassifyLoops_spec hWf hIdoms hFresh hFuel
  have hEnough₁ : regionFuel cfg₁ ≤ fuel := by
    rwa [regionFuel, hSame.length_blocks, hSame.edges]
  obtain ⟨cfg₂, hRun₂, hIff⟩ := cfgClassifyRegions_spec (hSame.wellFormed hWf)
    (hSame.hasIdoms hIdoms) (hSame.length_blocks ▸ hFuel) hEnough₁ hLoops
  have hFlag₁ := (isIrreducible_cfgClassifyLoops hRun₁).trans hFlag
  have hDead : cfg₁.DeadEdgeIntoLoop ↔ cfg.DeadEdgeIntoLoop := by
    rw [Cfg.DeadEdgeIntoLoop, Cfg.DeadEdgeIntoLoop, hSame.graph]
  refine ⟨cfg₁, cfg₂, hRun₁, hRun₂, ?_⟩
  rw [hIff, hFlag₁, hDead]
  simp only [Bool.false_eq_true, false_or]
  exact ⟨Iff.symm, Iff.symm⟩

theorem cfgClassifyRegions_irreducible_iff_whileCfg :
    ∃ cfg₁ cfg₂, cfgClassifyLoops 22 (whileCfg.withIdoms [0, 0, 1, 1]) = .ok cfg₁ ∧
      cfgClassifyRegions cfg₁ 22 = .ok cfg₂ ∧
      ((cfg₂.isIrreducible = true ↔ (whileCfg.withIdoms [0, 0, 1, 1]).graph.Irreducible) ↔
        ((whileCfg.withIdoms [0, 0, 1, 1]).graph.Irreducible ↔
          (whileCfg.withIdoms [0, 0, 1, 1]).DeadEdgeIntoLoop)) :=
  cfgClassifyRegions_irreducible_iff whileCfg_wellFormed whileCfg_hasIdoms
    (fun b => (whileCfg_fresh b).1) rfl (by decide)

/-- Two blocks that go to each other, each entered from the first block. -/
def twoEntryCfg : Cfg where
  blocks := List.replicate 3 (.fresh 0)
  edges := [(0, 1), (0, 2), (1, 2), (2, 1)].map fun (src, dst) =>
    { src := src, dst := dst, kind := .condTaken, caseValue := -1 }
  switches := []
  entryBlock := 0
  isIrreducible := false

theorem twoEntryCfg_irreducible : (twoEntryCfg.withIdoms [0, 0, 0]).graph.Irreducible := by
  have hEdge : ∀ {p b}, { src := p, dst := b, kind := .condTaken, caseValue := -1 } ∈
      twoEntryCfg.edges ∧ b ≠ cfgInvalid → (twoEntryCfg.withIdoms [0, 0, 0]).graph.Edge p b :=
    fun h => ⟨_, h.1, rfl, rfl, h.2⟩
  refine ⟨[1, 2], ⟨1, [2], rfl, ?_⟩, 1, 2, by decide, ⟨by decide, [0], ?_, by decide⟩,
    ⟨by decide, [0], ?_, by decide⟩⟩
  · exact .cons_cons (hEdge (by decide)) (.cons_cons (hEdge (by decide)) (.singleton _))
  · exact FlowGraph.Path.entry.step (hEdge (by decide))
  · exact FlowGraph.Path.entry.step (hEdge (by decide))

/-- A loop with two entries has no header, and is not reported. -/
theorem not_flagged_twoEntryCfg :
    (twoEntryCfg.withIdoms [0, 0, 0]).HasIdoms ∧
      ∃ cfg₁ cfg₂, cfgClassifyLoops 17 (twoEntryCfg.withIdoms [0, 0, 0]) = .ok cfg₁ ∧
        cfgClassifyRegions cfg₁ 17 = .ok cfg₂ ∧
        ¬(cfg₂.isIrreducible = true ↔ (twoEntryCfg.withIdoms [0, 0, 0]).graph.Irreducible) := by
  refine ⟨hasIdoms_of_run 25
    { blocks_le := by decide, entry_lt := by decide, src_lt := by decide, dst_lt := by decide }
    (by decide) rfl, _, _, rfl, rfl, fun h => ?_⟩
  exact absurd (h.2 twoEntryCfg_irreducible) (by decide)

end Calynda.Decompiler
