import Calynda.Decompiler.NaturalLoops
import Calynda.Decompiler.Regions
import Calynda.Lib.GraphSearch

/-!
# The walks of the region pass

The stack of `forward_reach` has room for as many blocks as there are, although a block may be pushed
twice. With two successors at most it is enough: each block that is marked makes room for two. What
is marked is what forward edges reach, and the block where two arms meet is the nearest one.
-/

namespace Calynda.Decompiler

open List Calynda.Lib

variable (cfg : Cfg)

/-! ## The walk with its stack -/

/-- A write to the stack, which has `room` places. -/
def pushBlock (room : Nat) (stack : List Nat) (b : Nat) : Except CfgFault (List Nat) :=
  if stack.length < room then .ok (b :: stack) else .error .invalidIndex

def pushSuccs (walkFuel b : Nat) (mark : List Bool) (edges : List CfgEdge) (stack : List Nat) :
    Except CfgFault (List Nat) :=
  edges.foldlM (fun stack e => do
    let forward ← forwardEdge cfg walkFuel b e
    if forward ∧ mark.getD e.dst false = false then pushBlock cfg.blocks.length stack e.dst
    else .ok stack) stack

/-- `forwardReachLoop` with a stack of `block_count` entries. -/
def boundedReachLoop (walkFuel : Nat) : Nat → List Nat → List Bool → Except CfgFault (List Bool)
  | 0, _, _ => .error .outOfFuel
  | _ + 1, [], mark => .ok mark
  | fuel + 1, b :: stack, mark =>
    if mark.getD b false then boundedReachLoop walkFuel fuel stack mark
    else do
      let mark := mark.set b true
      let stack ← pushSuccs cfg walkFuel b mark cfg.edges stack
      boundedReachLoop walkFuel fuel stack mark

/-- `forward_reach`. -/
def boundedReach (fuel start : Nat) : Except CfgFault (List Bool) := do
  let stack ← pushBlock cfg.blocks.length [] start
  boundedReachLoop cfg fuel fuel stack (List.replicate cfg.blocks.length false)

/-- `first_common`. -/
def boundedCommon (fuel s1 s2 : Nat) : Except CfgFault Nat := do
  let m1 ← boundedReach cfg fuel s1
  firstCommonLoop cfg fuel m1 fuel [s2] ((List.replicate cfg.blocks.length false).set s2 true)

/-! ## Forward edges -/

/-- The walk up from `src` meets `dst`. -/
def Cfg.GoesBack (src dst : Nat) : Prop := ∃ fuel, isBack cfg fuel src dst = .ok true

/-- An edge that the walks follow. -/
def CfgEdge.IsForward (e : CfgEdge) : Prop :=
  e.dst ≠ cfgInvalid ∧ e.kind ≠ .switchCase ∧ ¬cfg.GoesBack e.src e.dst

def Cfg.Forward (p b : Nat) : Prop := ∃ e ∈ cfg.edges, e.src = p ∧ e.dst = b ∧ e.IsForward cfg

/-- The `idom` fields name blocks, and the way up from each block ends. -/
structure Cfg.IdomsLeadUp (cfg : Cfg) : Prop where
  inside : ∀ b < cfg.blocks.length, cfg.idomOf b = cfgInvalid ∨ cfg.idomOf b < cfg.blocks.length
  ends : ∀ b < cfg.blocks.length, ∃ n,
    cfg.idomOf^[n] b = cfgInvalid ∨ cfg.idomOf (cfg.idomOf^[n] b) = cfg.idomOf^[n] b

/-- No block has more than two outgoing edges, those to the cases of a switch apart. -/
def Cfg.TwoSuccs (cfg : Cfg) : Prop :=
  ∀ b, (cfg.edges.filter fun e => e.src = b ∧ e.kind ≠ .switchCase).length ≤ 2

/-- What the search for a block where two arms meet is for. -/
structure NearestCommon (cfg : Cfg) (s1 s2 merge : Nat) : Prop where
  invalid_iff : merge = cfgInvalid ↔ ¬∃ c, Relation.ReflTransGen cfg.Forward s1 c ∧
    Relation.ReflTransGen cfg.Forward s2 c
  nearest : merge ≠ cfgInvalid → Relation.ReflTransGen cfg.Forward s1 merge ∧
    ∃ n, WalkTo cfg.Forward s2 n merge ∧
      ∀ m c, Relation.ReflTransGen cfg.Forward s1 c → WalkTo cfg.Forward s2 m c → n ≤ m

variable {cfg} {fuel b : Nat}

theorem dominates_mono {a r : Nat} {found : Bool} (h : dominates cfg a fuel b = .ok found)
    (hLe : fuel ≤ r) : dominates cfg a r b = .ok found := by
  induction fuel generalizing b r with
  | zero => cases h
  | succ fuel ih =>
    obtain ⟨r, rfl⟩ : ∃ s, r = s + 1 := ⟨r - 1, by omega⟩
    rw [dominates] at h ⊢
    split_ifs at h ⊢ with hInvalid hMet hTop
    · exact h
    · exact h
    · exact h
    · exact ih h (Nat.le_of_succ_le_succ hLe)

/-- A walk up is over where its way ends. -/
theorem dominates_total {n : Nat} (a : Nat)
    (hEnds : cfg.idomOf^[n] b = cfgInvalid ∨ cfg.idomOf (cfg.idomOf^[n] b) = cfg.idomOf^[n] b) :
    ∃ found, dominates cfg a (n + 1) b = .ok found := by
  induction n generalizing b with
  | zero =>
    rw [dominates]
    split_ifs with hInvalid hMet hTop
    · exact ⟨_, rfl⟩
    · exact ⟨_, rfl⟩
    · exact ⟨_, rfl⟩
    · exact absurd hEnds (not_or.mpr ⟨hInvalid, hTop⟩)
  | succ n ih =>
    rw [dominates]
    split_ifs with hInvalid hMet hTop
    · exact ⟨_, rfl⟩
    · exact ⟨_, rfl⟩
    · exact ⟨_, rfl⟩
    · exact ih hEnds

/-- With so much fuel every edge is decided. -/
def Decides (cfg : Cfg) (fuel : Nat) : Prop :=
  ∀ e ∈ cfg.edges, ∃ back, isBack cfg fuel e.src e.dst = .ok back

theorem Cfg.IdomsLeadUp.decides (h : cfg.IdomsLeadUp) (hWf : cfg.WellFormed) :
    ∃ enough, ∀ fuel, enough ≤ fuel → Decides cfg fuel := by
  have hSome : ∀ edges : List CfgEdge, (∀ e ∈ edges, e ∈ cfg.edges) → ∃ enough, ∀ fuel,
      enough ≤ fuel → ∀ e ∈ edges, ∃ back, isBack cfg fuel e.src e.dst = .ok back := by
    intro edges
    induction edges with
    | nil => exact fun _ => ⟨0, fun _ _ e he => absurd he not_mem_nil⟩
    | cons e edges ih =>
      intro hIn
      obtain ⟨enough, hRest⟩ := ih fun e' he' => hIn e' (mem_cons_of_mem e he')
      obtain ⟨n, hEnds⟩ := h.ends e.src (hWf.src_lt e (hIn e mem_cons_self))
      obtain ⟨back, hBack⟩ := dominates_total e.dst hEnds
      refine ⟨max enough (n + 1), fun fuel hFuel e' he' => ?_⟩
      rcases mem_cons.mp he' with rfl | hMem
      · exact ⟨back, dominates_mono hBack ((Nat.le_max_right _ _).trans hFuel)⟩
      · exact hRest fuel ((Nat.le_max_left _ _).trans hFuel) e' hMem
  exact hSome cfg.edges fun _ he => he

theorem Decides.goesBack_iff (h : Decides cfg fuel) {e : CfgEdge} (he : e ∈ cfg.edges) :
    isBack cfg fuel e.src e.dst = .ok true ↔ cfg.GoesBack e.src e.dst := by
  refine ⟨fun hBack => ⟨fuel, hBack⟩, ?_⟩
  rintro ⟨other, hOther⟩
  obtain ⟨back, hBack⟩ := h e he
  have hLater := dominates_mono hBack (Nat.le_max_left fuel other)
  rw [dominates_mono hOther (Nat.le_max_right fuel other)] at hLater
  rw [hBack, Except.ok.inj hLater]

/-- What the test of an edge says. -/
theorem Decides.forwardEdge (h : Decides cfg fuel) (b : Nat) {e : CfgEdge} (he : e ∈ cfg.edges) :
    ∃ r, forwardEdge cfg fuel b e = .ok r ∧ (r = true ↔ e.src = b ∧ e.IsForward cfg) := by
  unfold Decompiler.forwardEdge CfgEdge.IsForward
  by_cases hSkip : e.src ≠ b ∨ e.dst = cfgInvalid
  · refine ⟨false, if_pos hSkip, iff_of_false Bool.false_ne_true fun hForward => ?_⟩
    exact hSkip.elim (fun hNe => hNe hForward.1) hForward.2.1
  rw [if_neg hSkip]
  rw [not_or, not_not] at hSkip
  by_cases hCase : e.kind = .switchCase
  · exact ⟨false, if_pos hCase, iff_of_false Bool.false_ne_true fun hForward =>
      hForward.2.2.1 hCase⟩
  rw [if_neg hCase]
  obtain ⟨back, hBack⟩ := h e he
  refine ⟨!back, ?_, ?_⟩
  · rw [hBack]
    rfl
  · rw [← h.goesBack_iff he, hBack, Except.ok.injEq, Bool.not_eq_true', Bool.not_eq_true]
    simp [hSkip, hCase]

/-! ## The height of the stack -/

/-- The targets that are pushed for a block. -/
def pushed (fuel b : Nat) (cfg : Cfg) (mark : List Bool) (edges : List CfgEdge) : List Nat :=
  (edges.filter fun e => forwardEdge cfg fuel b e matches .ok true && !mark.getD e.dst false).map
    (·.dst)

theorem mem_pushed (h : Decides cfg fuel) {mark : List Bool} {v : Nat} :
    v ∈ pushed fuel b cfg mark cfg.edges ↔ cfg.Forward b v ∧ mark.getD v false = false := by
  simp only [pushed, mem_map, mem_filter, Bool.and_eq_true, Bool.not_eq_true']
  constructor
  · rintro ⟨e, ⟨he, hTakes, hMark⟩, rfl⟩
    obtain ⟨r, hRun, hr⟩ := h.forwardEdge b he
    rw [hRun] at hTakes
    cases r with
    | false => cases hTakes
    | true => exact ⟨⟨e, he, (hr.mp rfl).1, rfl, (hr.mp rfl).2⟩, hMark⟩
  · rintro ⟨⟨e, he, hSrc, rfl, hForward⟩, hMark⟩
    obtain ⟨r, hRun, hr⟩ := h.forwardEdge b he
    rw [hr.mpr ⟨hSrc, hForward⟩] at hRun
    refine ⟨e, ⟨he, ?_, hMark⟩, rfl⟩
    rw [hRun]

theorem length_pushed_le (h : Decides cfg fuel) (hTwo : cfg.TwoSuccs) (b : Nat)
    (mark : List Bool) : (pushed fuel b cfg mark cfg.edges).length ≤ 2 := by
  refine Nat.le_trans ?_ (hTwo b)
  rw [pushed, length_map]
  have hSub : ∀ e ∈ cfg.edges,
      (forwardEdge cfg fuel b e matches .ok true && !mark.getD e.dst false) = true →
        decide (e.src = b ∧ e.kind ≠ .switchCase) = true := by
    intro e he hTakes
    obtain ⟨r, hRun, hr⟩ := h.forwardEdge b he
    rw [hRun, Bool.and_eq_true] at hTakes
    cases r with
    | false => cases hTakes.1
    | true => exact decide_eq_true ⟨(hr.mp rfl).1, (hr.mp rfl).2.2.1⟩
  rw [← countP_eq_length_filter, ← countP_eq_length_filter]
  exact countP_mono_left hSub

/-- The pushes go well if there is room for all of them. -/
theorem pushSuccs_ok {mark : List Bool} {edges : List CfgEdge} {stack : List Nat}
    (h : ∀ e ∈ edges, ∃ r, forwardEdge cfg fuel b e = .ok r)
    (hRoom : stack.length + (pushed fuel b cfg mark edges).length ≤ cfg.blocks.length) :
    pushSuccs cfg fuel b mark edges stack =
      .ok ((pushed fuel b cfg mark edges).reverse ++ stack) := by
  induction edges generalizing stack with
  | nil => rfl
  | cons e edges ih =>
    have hRest := fun e' he' => h e' (mem_cons_of_mem e he')
    obtain ⟨r, hRun⟩ := h e mem_cons_self
    rw [pushSuccs, foldlM_cons, hRun]
    by_cases hTakes : r = true ∧ mark.getD e.dst false = false
    · obtain ⟨rfl, hMark⟩ := hTakes
      have hPushed : pushed fuel b cfg mark (e :: edges) =
          e.dst :: pushed fuel b cfg mark edges := by
        rw [pushed, filter_cons_of_pos, pushed, map_cons]
        rw [hRun, hMark]
        rfl
      rw [hPushed, length_cons] at hRoom
      have hPush : pushBlock cfg.blocks.length stack e.dst = .ok (e.dst :: stack) :=
        if_pos (by omega)
      have hAfter : pushSuccs cfg fuel b mark edges (e.dst :: stack) =
          .ok ((pushed fuel b cfg mark edges).reverse ++ e.dst :: stack) :=
        ih hRest (by rw [length_cons]; omega)
      rw [hPushed, reverse_cons, append_assoc]
      show ((if _ then _ else _) >>= _) = _
      rw [if_pos ⟨rfl, hMark⟩, hPush]
      exact hAfter
    · have hPushed : pushed fuel b cfg mark (e :: edges) = pushed fuel b cfg mark edges := by
        rw [pushed, filter_cons_of_neg, pushed]
        rw [hRun]
        cases r with
        | false => simp
        | true => simpa using hTakes
      rw [hPushed] at hRoom ⊢
      show ((if _ then _ else _) >>= _) = _
      rw [if_neg hTakes]
      exact ih hRest hRoom

theorem getD_set_iff {mark : List Bool} {v : Nat} (hb : b < mark.length) :
    (mark.set b true).getD v false = true ↔ v = b ∨ mark.getD v false = true := by
  by_cases hEq : v = b
  · subst hEq
    exact iff_of_true (getD_set_self hb true false) (Or.inl rfl)
  · rw [getD_set_of_ne (Ne.symm hEq), or_iff_right hEq]

theorem count_set_false {mark : List Bool} (hb : b < mark.length)
    (hUnmarked : mark.getD b false = false) :
    (mark.set b true).count false + 1 = mark.count false := by
  have hFalse : mark[b] = false := by
    simpa [getD_eq_getElem?_getD, hb] using hUnmarked
  have hPos := count_pos_iff.2 (hFalse ▸ getElem_mem hb)
  rw [count_set hb, hFalse]
  simp
  omega

/-- The marked blocks and the stack before each step. -/
structure ReachState (cfg : Cfg) (start : Nat) (stack : List Nat) (mark : List Bool) : Prop where
  length : mark.length = cfg.blocks.length
  inside : ∀ b ∈ stack, b < cfg.blocks.length
  height : stack.length + mark.count false ≤ cfg.blocks.length + 1
  visiting : Visiting cfg.Forward start (fun v => mark.getD v false = true) stack

theorem Cfg.Forward.lt (hWf : cfg.WellFormed) {p b : Nat} (h : cfg.Forward p b) :
    b < cfg.blocks.length := by
  obtain ⟨e, he, -, rfl, hForward⟩ := h
  exact (hWf.dst_lt e he).resolve_left hForward.1

/-- One block is marked, and all that is pushed for it finds room. -/
theorem ReachState.visit {start : Nat} {stack : List Nat} {mark : List Bool}
    (h : ReachState cfg start (b :: stack) mark) (hWf : cfg.WellFormed)
    (hDecides : Decides cfg fuel) (hTwo : cfg.TwoSuccs) (hUnmarked : mark.getD b false = false) :
    ∃ stack', pushSuccs cfg fuel b (mark.set b true) cfg.edges stack = .ok stack' ∧
      ReachState cfg start stack' (mark.set b true) ∧ stack'.length ≤ stack.length + 2 := by
  have hb : b < mark.length := h.length.symm ▸ h.inside b mem_cons_self
  have hCount := count_set_false hb hUnmarked
  have hHeight := h.height
  rw [length_cons] at hHeight
  have hPushed := length_pushed_le hDecides hTwo b (mark.set b true)
  have hLt : ∀ v ∈ pushed fuel b cfg (mark.set b true) cfg.edges, v < cfg.blocks.length :=
    fun v hv => ((mem_pushed hDecides).mp hv).1.lt hWf
  -- the last block to be marked has nothing left to push
  have hRoom : stack.length + (pushed fuel b cfg (mark.set b true) cfg.edges).length ≤
      cfg.blocks.length := by
    rcases Nat.eq_zero_or_pos (pushed fuel b cfg (mark.set b true) cfg.edges).length with
      hNone | hSome
    · omega
    · obtain ⟨v, hv⟩ := exists_mem_of_length_pos hSome
      have hLeft := ((mem_pushed hDecides).mp hv).2
      have hInside : v < (mark.set b true).length := by
        rw [length_set, h.length]
        exact hLt v hv
      have := count_set_false hInside hLeft
      omega
  refine ⟨_, pushSuccs_ok (fun e he => ?_) hRoom, ⟨?_, ?_, ?_, ?_⟩, ?_⟩
  · exact (hDecides.forwardEdge b he).imp fun _ hr => hr.1
  · rw [length_set, h.length]
  · intro v hv
    rcases mem_append.mp hv with hNew | hOld
    · exact hLt v (mem_reverse.mp hNew)
    · exact h.inside v (mem_cons_of_mem b hOld)
  · rw [length_append, length_reverse]
    omega
  · refine h.visiting.visit (fun v => getD_set_iff hb) fun v => ?_
    rw [mem_append, mem_reverse, mem_pushed hDecides, or_comm, Bool.not_eq_true]
  · rw [length_append, length_reverse]
    omega

theorem boundedReachLoop_spec (hWf : cfg.WellFormed) (hDecides : Decides cfg fuel)
    (hTwo : cfg.TwoSuccs) {start : Nat} : ∀ (n : Nat) (stack : List Nat) (mark : List Bool),
    ReachState cfg start stack mark → 2 * mark.count false + stack.length < n →
      ∃ mark', boundedReachLoop cfg fuel n stack mark = .ok mark' ∧
        ReachState cfg start [] mark' := by
  intro n
  induction n with
  | zero => exact fun _ _ _ hn => absurd hn (Nat.not_lt_zero _)
  | succ n ih =>
    intro stack mark hState hn
    cases stack with
    | nil => exact ⟨mark, rfl, hState⟩
    | cons b stack =>
      rw [length_cons] at hn
      rw [boundedReachLoop]
      split_ifs with hMarked
      · refine ih stack mark ⟨hState.length, ?_, ?_, hState.visiting.skip hMarked⟩ (by omega)
        · exact fun v hv => hState.inside v (mem_cons_of_mem b hv)
        · have hHeight := hState.height
          rw [length_cons] at hHeight
          omega
      · have hUnmarked := Bool.eq_false_of_not_eq_true hMarked
        obtain ⟨stack', hRun, hNext, hLength⟩ :=
          hState.visit hWf hDecides hTwo hUnmarked
        have hb : b < mark.length := hState.length.symm ▸ hState.inside b mem_cons_self
        have hCount := count_set_false hb hUnmarked
        obtain ⟨mark', hLoop, hEnd⟩ := ih stack' _ hNext (by omega)
        refine ⟨mark', ?_, hEnd⟩
        show (pushSuccs cfg fuel b (mark.set b true) cfg.edges stack >>= _) = _
        rw [hRun]
        exact hLoop

/-- The walk stays within its stack, and what it marks is what forward edges reach. -/
theorem boundedReach_spec (hWf : cfg.WellFormed) (hDecides : Decides cfg fuel)
    (hTwo : cfg.TwoSuccs) (hFuel : 2 * cfg.blocks.length + 1 < fuel) {start : Nat}
    (hStart : start < cfg.blocks.length) :
    ∃ mark, boundedReach cfg fuel start = .ok mark ∧ mark.length = cfg.blocks.length ∧
      ∀ b, mark.getD b false = true ↔ Relation.ReflTransGen cfg.Forward start b := by
  have hInit : ReachState cfg start [start] (List.replicate cfg.blocks.length false) := by
    refine ⟨length_replicate, ?_, ?_, Visiting.init fun v => ?_⟩
    · exact fun b hb => mem_singleton.mp hb ▸ hStart
    · rw [count_replicate_self, length_singleton, Nat.add_comm]
    · rw [getD_replicate_self]
      exact Bool.false_ne_true
  obtain ⟨mark, hRun, hEnd⟩ := boundedReachLoop_spec hWf hDecides hTwo fuel _ _ hInit (by
    rw [count_replicate_self, length_singleton]
    exact hFuel)
  refine ⟨mark, ?_, hEnd.length, hEnd.visiting.marked_iff⟩
  have hFirst : pushBlock cfg.blocks.length [] start = .ok [start] :=
    if_pos (Nat.zero_lt_of_lt hStart)
  rw [boundedReach, hFirst]
  exact hRun

/-! ## The nearest common block -/

/-- One edge in the search from the second arm. -/
def enqueueEdge (cfg : Cfg) (fuel b : Nat) (s : List Nat × List Bool) (e : CfgEdge) :
    Except CfgFault (List Nat × List Bool) := do
  let forward ← forwardEdge cfg fuel b e
  .ok (if forward ∧ s.2.getD e.dst false = false then (s.1 ++ [e.dst], s.2.set e.dst true)
    else (s.1, s.2))

/-- What the edges from `b` put into the queue. -/
structure Enqueued (cfg : Cfg) (b : Nat) (edges : List CfgEdge) (seen : List Bool)
    (fresh : List Nat) (seen' : List Bool) : Prop where
  nodup : fresh.Nodup
  mem_iff : ∀ v, v ∈ fresh ↔
    (∃ e ∈ edges, e.src = b ∧ e.dst = v ∧ e.IsForward cfg) ∧ seen.getD v false = false
  seen_iff : ∀ v, seen'.getD v false = true ↔ seen.getD v false = true ∨ v ∈ fresh
  length : seen'.length = seen.length
  count : fresh.length + seen'.count false = seen.count false

theorem enqueueEdges_spec (hWf : cfg.WellFormed) (hDecides : Decides cfg fuel) (b : Nat) :
    ∀ (edges : List CfgEdge), (∀ e ∈ edges, e ∈ cfg.edges) →
      ∀ (queue : List Nat) (seen : List Bool), seen.length = cfg.blocks.length →
        ∃ fresh seen', edges.foldlM (enqueueEdge cfg fuel b) (queue, seen) =
            .ok (queue ++ fresh, seen') ∧ Enqueued cfg b edges seen fresh seen' := by
  intro edges
  induction edges with
  | nil =>
    refine fun _ queue seen _ => ⟨[], seen, ?_, nodup_nil, ?_, ?_, rfl, ?_⟩
    · rw [append_nil]
      rfl
    · simp
    · simp
    · rw [length_nil, Nat.zero_add]
  | cons e edges ih =>
    intro hIn queue seen hLength
    have hRest := fun e' he' => hIn e' (mem_cons_of_mem e he')
    obtain ⟨r, hRun, hr⟩ := hDecides.forwardEdge b (hIn e mem_cons_self)
    rw [foldlM_cons, enqueueEdge, hRun]
    by_cases hTakes : r = true ∧ seen.getD e.dst false = false
    · obtain ⟨hSrc, hForward⟩ := hr.mp hTakes.1
      have hLt : e.dst < seen.length :=
        hLength.symm ▸ (hWf.dst_lt e (hIn e mem_cons_self)).resolve_left hForward.1
      have hSet : (seen.set e.dst true).length = cfg.blocks.length := by
        rw [length_set, hLength]
      obtain ⟨fresh, seen', hLoop, h⟩ := ih hRest (queue ++ [e.dst]) _ hSet
      have hFresh : ∀ v, v ∈ fresh ↔ v ≠ e.dst ∧
          (∃ e' ∈ edges, e'.src = b ∧ e'.dst = v ∧ e'.IsForward cfg) ∧
            seen.getD v false = false := by
        intro v
        rw [h.mem_iff, ← Bool.not_eq_true, getD_set_iff hLt, not_or, Bool.not_eq_true]
        exact and_left_comm
      refine ⟨e.dst :: fresh, seen', ?_, ?_, fun v => ?_, fun v => ?_, ?_, ?_⟩
      · show (Except.ok (if _ then _ else _) >>= _) = _
        rw [if_pos hTakes, append_cons queue e.dst fresh]
        exact hLoop
      · exact nodup_cons.mpr ⟨fun hMem => ((hFresh e.dst).mp hMem).1 rfl, h.nodup⟩
      · rw [mem_cons, hFresh, exists_mem_cons_iff]
        by_cases hEq : v = e.dst
        · subst hEq
          exact iff_of_true (Or.inl rfl) ⟨Or.inl ⟨hSrc, rfl, hForward⟩, hTakes.2⟩
        · simp [hEq, Ne.symm hEq]
      · rw [h.seen_iff, getD_set_iff hLt, mem_cons, or_assoc, or_left_comm]
      · rw [h.length, length_set]
      · have hCount := count_set_false hLt hTakes.2
        have := h.count
        rw [length_cons]
        omega
    · obtain ⟨fresh, seen', hLoop, h⟩ := ih hRest queue seen hLength
      refine ⟨fresh, seen', ?_, h.nodup, fun v => ?_, h.seen_iff, h.length, h.count⟩
      · show (Except.ok (if _ then _ else _) >>= _) = _
        rw [if_neg hTakes]
        exact hLoop
      · rw [h.mem_iff, exists_mem_cons_iff]
        refine and_congr_left fun hSeen => (or_iff_right ?_).symm
        rintro ⟨hSrc, rfl, hForward⟩
        exact hTakes ⟨hr.mpr ⟨hSrc, hForward⟩, hSeen⟩

/-- The first marked block that leaves the queue is the nearest one. -/
theorem firstCommonLoop_nearest (hWf : cfg.WellFormed) (hDecides : Decides cfg fuel)
    {m1 : List Bool} {s1 s2 : Nat}
    (hMarks : ∀ b, m1.getD b false = true ↔ Relation.ReflTransGen cfg.Forward s1 b) :
    ∀ (n : Nat) (queue : List Nat) (seen : List Bool) (level : Nat → Nat),
      seen.length = cfg.blocks.length → (∀ b ∈ queue, b < cfg.blocks.length) →
      Frontier cfg.Forward s2 (Relation.ReflTransGen cfg.Forward s1)
        (fun v => seen.getD v false = true) level queue →
      queue.length + seen.count false < n →
        ∃ merge, firstCommonLoop cfg fuel m1 n queue seen = .ok merge ∧
          NearestCommon cfg s1 s2 merge := by
  intro n
  induction n with
  | zero => exact fun _ _ _ _ _ _ hn => absurd hn (Nat.not_lt_zero _)
  | succ n ih =>
    intro queue seen level hLength hInside hFrontier hn
    cases queue with
    | nil =>
      refine ⟨cfgInvalid, rfl, iff_of_true rfl ?_, fun hNe => absurd rfl hNe⟩
      rintro ⟨c, hFirst, hSecond⟩
      obtain ⟨m, hWalk⟩ := exists_walkTo hSecond
      exact hFrontier.no_goal hWalk hFirst
    | cons b queue =>
      rw [firstCommonLoop]
      by_cases hMarked : m1.getD b false = true
      · have hFirst := (hMarks b).mp hMarked
        obtain ⟨m, hWalk, hLeast⟩ := hFrontier.nearest
        have hValid : b ≠ cfgInvalid :=
          ((hInside b mem_cons_self).trans_le hWf.blocks_le).ne
        refine ⟨b, if_pos hMarked, ?_, fun _ => ⟨hFirst, m, hWalk, hLeast⟩⟩
        exact iff_of_false hValid fun hNone => hNone ⟨b, hFirst, hWalk.reaches⟩
      · rw [if_neg hMarked]
        obtain ⟨fresh, seen', hRun, h⟩ :=
          enqueueEdges_spec hWf hDecides b cfg.edges (fun _ he => he) queue seen hLength
        have hNext : ∀ v, v ∈ fresh ↔ cfg.Forward b v ∧ ¬seen.getD v false = true := by
          intro v
          rw [h.mem_iff, Bool.not_eq_true]
          rfl
        have hVisit := hFrontier.visit (fun hFirst => hMarked ((hMarks b).mpr hFirst)) h.nodup
          hNext h.seen_iff
        have hLeft := h.count
        rw [length_cons] at hn
        obtain ⟨merge, hLoop, hNearest⟩ := ih _ seen' _ (h.length.trans hLength)
          (fun v hv => (mem_append.mp hv).elim
            (fun hOld => hInside v (mem_cons_of_mem b hOld))
            fun hNew => ((hNext v).mp hNew).1.lt hWf)
          hVisit (by rw [length_append]; omega)
        refine ⟨merge, ?_, hNearest⟩
        show (cfg.edges.foldlM (enqueueEdge cfg fuel b) (queue, seen) >>= _) = _
        rw [hRun]
        exact hLoop

theorem boundedCommon_spec (hWf : cfg.WellFormed) (hDecides : Decides cfg fuel)
    (hTwo : cfg.TwoSuccs)
    (hFuel : 2 * cfg.blocks.length + 1 < fuel) {s1 s2 : Nat} (h1 : s1 < cfg.blocks.length)
    (h2 : s2 < cfg.blocks.length) :
    ∃ merge, boundedCommon cfg fuel s1 s2 = .ok merge ∧ NearestCommon cfg s1 s2 merge := by
  obtain ⟨m1, hRun, -, hMarks⟩ := boundedReach_spec hWf hDecides hTwo hFuel h1
  have hLt : s2 < (List.replicate cfg.blocks.length false).length := by
    rw [length_replicate]
    exact h2
  have hNone : (List.replicate cfg.blocks.length false).getD s2 false = false :=
    getD_replicate_self _ _ _
  have hSeen : ∀ v, ((List.replicate cfg.blocks.length false).set s2 true).getD v false = true ↔
      v = s2 := by
    intro v
    rw [getD_set_iff hLt, getD_replicate_self]
    exact or_iff_left Bool.false_ne_true
  have hLeft := count_set_false hLt hNone
  rw [count_replicate_self] at hLeft
  obtain ⟨merge, hLoop, hNearest⟩ := firstCommonLoop_nearest hWf hDecides hMarks fuel [s2]
    _ _ (by rw [length_set, length_replicate])
    (fun b hb => mem_singleton.mp hb ▸ h2) (Frontier.init hSeen) (by
      rw [length_singleton]
      omega)
  refine ⟨merge, ?_, hNearest⟩
  rw [boundedCommon, hRun]
  exact hLoop

theorem ends_of_dominates {a : Nat} (h : dominates cfg a fuel b = .ok false) : ∃ n,
    cfg.idomOf^[n] b = cfgInvalid ∨ cfg.idomOf (cfg.idomOf^[n] b) = cfg.idomOf^[n] b := by
  induction fuel generalizing b with
  | zero => cases h
  | succ fuel ih =>
    rw [dominates] at h
    split_ifs at h with hInvalid hMet hTop
    · exact ⟨0, Or.inl hInvalid⟩
    · cases h
    · exact ⟨0, Or.inr hTop⟩
    · exact (ih h).imp' (· + 1) fun _ hn => hn

/-- Immediate dominators lead up to the entry. -/
theorem Cfg.HasIdoms.idomsLeadUp (hIdoms : cfg.HasIdoms) (hWf : cfg.WellFormed) :
    cfg.IdomsLeadUp := by
  refine ⟨fun b _ => ?_, fun b hb => ?_⟩
  · by_cases hReach : cfg.graph.Reachable b
    · by_cases hEntry : b = cfg.entryBlock
      · exact Or.inr (hEntry ▸ hIdoms.entry.symm ▸ hWf.entry_lt)
      · have hParent := hReach.of_dominates (hIdoms.immediate b hReach hEntry).strict.1
        exact Or.inr (hWf.reachable_lt hParent)
    · exact Or.inl (hIdoms.unreachable b hReach)
  · obtain ⟨found, hRun, hFound⟩ := dominates_spec (a := cfgInvalid) hWf hIdoms hb (Nat.lt_succ_self _)
    cases found with
    | false => exact ends_of_dominates hRun
    | true =>
      rcases hFound.mp rfl with hEq | ⟨hReach, hDom⟩
      · exact absurd hEq.symm (hWf.ne_invalid hb)
      · exact absurd rfl (hWf.ne_invalid (hWf.reachable_lt (hReach.of_dominates hDom)))

/-- No walk writes beyond its stack, the blocks it marks are those that forward edges reach, and
the search from the second arm finds the nearest of those that the first arm reaches. -/
theorem regionWalk_within_stack (cfg : Cfg) (hWf : cfg.WellFormed) (hUp : cfg.IdomsLeadUp)
    (hTwo : cfg.TwoSuccs) : ∃ enough, ∀ fuel, enough ≤ fuel →
      (∀ start < cfg.blocks.length, ∃ mark, boundedReach cfg fuel start = .ok mark ∧
        mark.length = cfg.blocks.length ∧
        ∀ b, mark.getD b false = true ↔ Relation.ReflTransGen cfg.Forward start b) ∧
      ∀ s1 < cfg.blocks.length, ∀ s2 < cfg.blocks.length, ∃ merge,
        boundedCommon cfg fuel s1 s2 = .ok merge ∧ NearestCommon cfg s1 s2 merge := by
  obtain ⟨enough, hDecides⟩ := hUp.decides hWf
  refine ⟨max enough (2 * cfg.blocks.length + 2), fun fuel hFuel => ?_⟩
  have hEdges := hDecides fuel ((Nat.le_max_left _ _).trans hFuel)
  have hSteps : 2 * cfg.blocks.length + 1 < fuel := (Nat.le_max_right _ _).trans hFuel
  constructor
  · exact fun _ hStart => boundedReach_spec hWf hEdges hTwo hSteps hStart
  · exact fun _ h1 _ h2 => boundedCommon_spec hWf hEdges hTwo hSteps h1 h2

/-- A block with a branch over the next one: the walk from it pushes the last block twice. -/
def shortcutCfg : Cfg where
  blocks := List.replicate 3 { CfgBlock.fresh 0 with idom := 0 }
  edges := [(0, 2), (0, 1), (1, 2)].map fun (src, dst) =>
    { src := src, dst := dst, kind := .condTaken, caseValue := -1 }
  switches := []
  entryBlock := 0
  isIrreducible := false

theorem Cfg.twoSuccs_of_edges (h : ∀ e ∈ cfg.edges,
    (cfg.edges.filter fun e' => e'.src = e.src ∧ e'.kind ≠ .switchCase).length ≤ 2) :
    cfg.TwoSuccs := by
  intro b
  by_cases hSome : ∃ e ∈ cfg.edges, e.src = b
  · obtain ⟨e, he, rfl⟩ := hSome
    exact h e he
  · rw [filter_eq_nil_iff.mpr, length_nil]
    · exact Nat.zero_le 2
    · intro e he hTakes
      exact hSome ⟨e, he, (of_decide_eq_true hTakes).1⟩

theorem regionWalk_within_stack_shortcutCfg : ∃ enough, ∀ fuel, enough ≤ fuel →
    (∀ start < shortcutCfg.blocks.length, ∃ mark, boundedReach shortcutCfg fuel start = .ok mark ∧
      mark.length = shortcutCfg.blocks.length ∧
      ∀ b, mark.getD b false = true ↔ Relation.ReflTransGen shortcutCfg.Forward start b) ∧
    ∀ s1 < shortcutCfg.blocks.length, ∀ s2 < shortcutCfg.blocks.length, ∃ merge,
      boundedCommon shortcutCfg fuel s1 s2 = .ok merge ∧ NearestCommon shortcutCfg s1 s2 merge :=
  regionWalk_within_stack shortcutCfg
    { blocks_le := by decide, entry_lt := by decide, src_lt := by decide, dst_lt := by decide }
    { inside := by decide, ends := fun b hb => ⟨1, Or.inr (by revert b; decide)⟩ }
    (Cfg.twoSuccs_of_edges (by decide))

/-! ## The walks without their stack -/

theorem foldlM_of_pushSuccs {walkFuel : Nat} {mark : List Bool} {edges : List CfgEdge}
    {stack stack' : List Nat} (h : pushSuccs cfg walkFuel b mark edges stack = .ok stack') :
    edges.foldlM (fun stack e => do
      let forward ← forwardEdge cfg walkFuel b e
      .ok (if forward ∧ mark.getD e.dst false = false then e.dst :: stack else stack)) stack =
        .ok stack' := by
  induction edges generalizing stack with
  | nil => exact h
  | cons e edges ih =>
    rw [pushSuccs, foldlM_cons] at h
    rw [foldlM_cons]
    cases hRun : forwardEdge cfg walkFuel b e with
    | error fault =>
      rw [hRun] at h
      cases h
    | ok forward =>
      rw [hRun] at h
      change ((if _ then _ else _) >>= _) = _ at h
      show (Except.ok (if _ then _ else _) >>= _) = _
      by_cases hTakes : forward = true ∧ mark.getD e.dst false = false
      · rw [if_pos hTakes, pushBlock] at h
        rw [if_pos hTakes]
        by_cases hRoom : stack.length < cfg.blocks.length
        · rw [if_pos hRoom] at h
          exact ih h
        · rw [if_neg hRoom] at h
          cases h
      · rw [if_neg hTakes] at h ⊢
        exact ih h

theorem forwardReachLoop_of_bounded {walkFuel n : Nat} {stack : List Nat} {mark mark' : List Bool}
    (h : boundedReachLoop cfg walkFuel n stack mark = .ok mark') :
    forwardReachLoop cfg walkFuel n stack mark = .ok mark' := by
  induction n generalizing stack mark with
  | zero => cases h
  | succ n ih =>
    cases stack with
    | nil => exact h
    | cons b stack =>
      rw [boundedReachLoop] at h
      rw [forwardReachLoop]
      split_ifs at h ⊢ with hMarked
      · exact ih h
      · change (pushSuccs cfg walkFuel b (mark.set b true) cfg.edges stack >>= _) = _ at h
        cases hRun : pushSuccs cfg walkFuel b (mark.set b true) cfg.edges stack with
        | error fault =>
          rw [hRun] at h
          cases h
        | ok stack' =>
          rw [hRun] at h
          show (cfg.edges.foldlM _ stack >>= _) = _
          rw [foldlM_of_pushSuccs hRun]
          exact ih h

/-- A walk that stays within the stack is the walk without one. -/
theorem forwardReach_of_bounded {start : Nat} {mark : List Bool}
    (h : boundedReach cfg fuel start = .ok mark) : forwardReach cfg fuel start = .ok mark := by
  rw [boundedReach, pushBlock] at h
  by_cases hRoom : ([] : List Nat).length < cfg.blocks.length
  · rw [if_pos hRoom] at h
    exact forwardReachLoop_of_bounded h
  · rw [if_neg hRoom] at h
    cases h

/-- What the pass takes for the block where the arms meet is the nearest one. -/
theorem firstCommon_nearest (hWf : cfg.WellFormed) (hDecides : Decides cfg fuel)
    (hTwo : cfg.TwoSuccs) (hFuel : 2 * cfg.blocks.length + 1 < fuel) {s1 s2 : Nat}
    (h1 : s1 < cfg.blocks.length) (h2 : s2 < cfg.blocks.length) :
    ∃ merge, firstCommon cfg fuel s1 s2 = .ok merge ∧ NearestCommon cfg s1 s2 merge := by
  obtain ⟨m1, hReach, -⟩ := boundedReach_spec hWf hDecides hTwo hFuel h1
  obtain ⟨merge, hRun, hNearest⟩ := boundedCommon_spec hWf hDecides hTwo hFuel h1 h2
  refine ⟨merge, ?_, hNearest⟩
  rw [boundedCommon, hReach] at hRun
  rw [firstCommon, forwardReach_of_bounded hReach]
  exact hRun

end Calynda.Decompiler
