import Calynda.Decompiler.Preds
import Mathlib.Data.List.Nodup
import Mathlib.Data.List.Perm.Subperm

/-!
# Reverse postorder

The depth-first walk from the entry and the numbering it gives. A walk appends the blocks it
finishes; `Walked` says what one call appends: blocks not seen before, with all their
successors seen, and each but the one the call is for after an edge from a block that is
finished later. Reversed, the list numbers the reachable blocks so that each but the entry has
an earlier predecessor.
-/

namespace Calynda.Decompiler

open List

/-- Ways in which the analysis of a graph can fail to give a result: a loop or recursion that
does not end, or the use of `cfgInvalid` as an index. -/
inductive CfgFault where
  | outOfFuel
  | invalidIndex
  deriving DecidableEq, Repr

structure DfsState where
  seen : List Bool
  order : List Nat
  deriving Repr

/-- One visit of the depth-first walk; `fuel` bounds the depth of the recursion. -/
def dfsPost (cfg : Cfg) : Nat → Nat → DfsState → Except CfgFault DfsState
  | 0, _, _ => .error .outOfFuel
  | fuel + 1, bi, st =>
    if st.seen.getD bi false then .ok st
    else do
      let st ← cfg.edges.foldlM (fun st e =>
        if e.src ≠ bi then .ok st
        else if e.dst = cfgInvalid then .ok st
        else dfsPost cfg fuel e.dst st) { st with seen := st.seen.set bi true }
      .ok { st with order := st.order ++ [bi] }

structure Rpo where
  order : List Nat
  pos : List Nat
  deriving Repr

/-- Maps each block of `order` to its index. -/
def rpoPositions (blockCount : Nat) (order : List Nat) : List Nat :=
  order.zipIdx.foldl (fun pos p => pos.set p.1 p.2) (List.replicate blockCount cfgInvalid)

def buildRpo (fuel : Nat) (cfg : Cfg) : Except CfgFault Rpo := do
  let nb := cfg.blocks.length
  let st ← dfsPost cfg fuel cfg.entryBlock { seen := List.replicate nb false, order := [] }
  .ok { order := st.order.reverse, pos := rpoPositions nb st.order.reverse }

/-! ## The walk -/

variable {cfg : Cfg} {st st' st'' : DfsState} {news news' : List Nat} {From : Nat → Prop}

/-- What a part of the walk adds; the blocks in `From` are those it was called for. -/
structure Walked (cfg : Cfg) (From : Nat → Prop) (st st' : DfsState) (news : List Nat) : Prop where
  length_seen : st'.seen.length = st.seen.length
  order : st'.order = st.order ++ news
  seen : ∀ v < st.seen.length, st'.seen.getD v false = true ↔ st.seen.getD v false = true ∨ v ∈ news
  fresh : ∀ v ∈ news, v < st.seen.length ∧ st.seen.getD v false = false
  nodup : news.Nodup
  closed : ∀ v ∈ news, ∀ w, cfg.graph.Edge v w → st'.seen.getD w false = true
  finished : ∀ pre b post, news = pre ++ b :: post → From b ∨ ∃ p ∈ post, cfg.graph.Edge p b

namespace Walked

theorem nothing (From : Nat → Prop) (st : DfsState) : Walked cfg From st st [] where
  length_seen := rfl
  order := (append_nil _).symm
  seen _ _ := by simp
  fresh _ h := absurd h not_mem_nil
  nodup := nodup_nil
  closed _ h := absurd h not_mem_nil
  finished pre b post h := by simp at h

theorem seen_mono (h : Walked cfg From st st' news) {v : Nat} (hv : st.seen.getD v false = true) :
    st'.seen.getD v false = true := by
  by_cases hLt : v < st.seen.length
  · exact (h.seen v hLt).2 (.inl hv)
  · rw [getD_eq_default _ _ (Nat.le_of_not_lt hLt)] at hv
    exact absurd hv Bool.false_ne_true

theorem append (h : Walked cfg From st st' news) (h' : Walked cfg From st' st'' news') :
    Walked cfg From st st'' (news ++ news') where
  length_seen := h'.length_seen.trans h.length_seen
  order := by rw [h'.order, h.order, append_assoc]
  seen v hv := by
    rw [h'.seen v (h.length_seen ▸ hv), h.seen v hv, mem_append, or_assoc]
  fresh v hv := by
    rcases mem_append.1 hv with hv | hv
    · exact h.fresh v hv
    · obtain ⟨hLt, hUnseen⟩ := h'.fresh v hv
      refine ⟨h.length_seen ▸ hLt, ?_⟩
      by_contra hSeen
      rw [h.seen_mono (Bool.of_not_eq_false hSeen)] at hUnseen
      exact Bool.false_ne_true hUnseen.symm
  nodup := by
    refine nodup_append.2 ⟨h.nodup, h'.nodup, ?_⟩
    rintro a ha b hb rfl
    have hSeen := (h.seen a (h.fresh a ha).1).2 (.inr ha)
    rw [(h'.fresh a hb).2] at hSeen
    exact Bool.false_ne_true hSeen
  closed v hv w hEdge := by
    rcases mem_append.1 hv with hv | hv
    · exact h'.seen_mono (h.closed v hv w hEdge)
    · exact h'.closed v hv w hEdge
  finished pre b post hEq := by
    rcases append_eq_append_iff.1 hEq with ⟨mid, hPre, hNews'⟩ | ⟨mid, hNews, hPost⟩
    · exact h'.finished mid b post hNews'
    · cases mid with
      | nil => exact h'.finished [] b post (by simpa using hPost.symm)
      | cons c mid =>
        obtain ⟨rfl, rfl⟩ := List.cons.inj hPost
        rcases h.finished pre b mid hNews with hFrom | ⟨p, hp, hEdge⟩
        · exact .inl hFrom
        · exact .inr ⟨p, mem_append_left _ hp, hEdge⟩

/-- The walk only ever marks more blocks. -/
theorem count_le (h : Walked cfg From st st' news) :
    st'.seen.count false ≤ st.seen.count false :=
  count_false_le h.length_seen fun _ => h.seen_mono

theorem imp {From' : Nat → Prop} (h : Walked cfg From st st' news) (hImp : ∀ v, From v → From' v) :
    Walked cfg From' st st' news :=
  { h with finished := fun pre b post hEq => (h.finished pre b post hEq).imp_left (hImp b) }

end Walked

/-- Marking a block leaves one unmarked block less. -/
theorem count_set_true {seen : List Bool} {bi : Nat} (hLt : bi < seen.length)
    (hUnseen : seen.getD bi false = false) :
    (seen.set bi true).count false + 1 = seen.count false := by
  rw [getD_eq_getElem _ _ hLt] at hUnseen
  have hPos : 0 < seen.count false := count_pos_iff.2 (hUnseen ▸ List.getElem_mem hLt)
  rw [count_set hLt, hUnseen]
  simp
  omega

/-- The visit of `bi` from what the visits of its successors add. -/
theorem Walked.visit {bi : Nat} (hLt : bi < st.seen.length) (hUnseen : st.seen.getD bi false = false)
    (h : Walked cfg (cfg.graph.Edge bi) { st with seen := st.seen.set bi true } st' news)
    (hSuccessors : ∀ w, cfg.graph.Edge bi w → st'.seen.getD w false = true) :
    Walked cfg (· = bi) st { st' with order := st'.order ++ [bi] } (news ++ [bi]) := by
  have hLength : (st.seen.set bi true).length = st.seen.length := length_set
  have hSelf : (st.seen.set bi true).getD bi false = true := getD_set_self hLt _ _
  refine ⟨h.length_seen.trans hLength, ?_, ?_, ?_, ?_, ?_, ?_⟩
  · simp [h.order]
  · intro v hv
    have hSeen := h.seen v (hLength ▸ hv)
    simp only at hSeen ⊢
    rw [hSeen, mem_append, mem_singleton]
    by_cases hEq : v = bi
    · subst hEq
      exact iff_of_true (.inl hSelf) (.inr (.inr rfl))
    · rw [getD_set_of_ne (Ne.symm hEq), or_iff_left hEq]
  · intro v hv
    rcases mem_append.1 hv with hv | hv
    · obtain ⟨hvLt, hvUnseen⟩ := h.fresh v hv
      have hNe : bi ≠ v := by
        rintro rfl
        exact Bool.false_ne_true (hvUnseen.symm.trans hSelf)
      refine ⟨hLength ▸ hvLt, ?_⟩
      rwa [getD_set_of_ne hNe] at hvUnseen
    · obtain rfl := mem_singleton.1 hv
      exact ⟨hLt, hUnseen⟩
  · refine nodup_append.2 ⟨h.nodup, by simp, ?_⟩
    intro a ha b hb hEq
    obtain rfl := mem_singleton.1 hb
    subst hEq
    exact Bool.false_ne_true ((h.fresh a ha).2.symm.trans hSelf)
  · intro v hv w hEdge
    rcases mem_append.1 hv with hv | hv
    · exact h.closed v hv w hEdge
    · obtain rfl := mem_singleton.1 hv
      exact hSuccessors w hEdge
  · intro pre b post hEq
    rcases append_eq_append_iff.1 hEq with ⟨mid, -, hLast⟩ | ⟨mid, hNews, hPost⟩
    · have hMem : b ∈ [bi] := hLast ▸ mem_append_right _ mem_cons_self
      exact .inl (mem_singleton.1 hMem)
    · cases mid with
      | nil =>
        have hHead : b = bi := (List.cons.inj (by simpa using hPost)).1
        exact .inl hHead
      | cons c mid =>
        obtain ⟨rfl, rfl⟩ := List.cons.inj hPost
        -- a block the call for `bi` reached first comes before `bi` itself
        rcases h.finished pre b mid hNews with hFrom | ⟨p, hp, hEdge⟩
        · exact .inr ⟨bi, mem_append_right _ (mem_singleton_self _), hFrom⟩
        · exact .inr ⟨p, mem_append_left _ hp, hEdge⟩

/-- The loop over the edges, from what the visits it makes do. -/
theorem foldlM_walked {bi fuel : Nat}
    (hVisit : ∀ b st, b < cfg.blocks.length → st.seen.length = cfg.blocks.length →
      st.seen.count false < fuel →
      ∃ st' news, dfsPost cfg fuel b st = .ok st' ∧ Walked cfg (· = b) st st' news ∧
        st'.seen.getD b false = true)
    (hWf : cfg.WellFormed) :
    ∀ (edges : List CfgEdge) (st : DfsState), (∀ e ∈ edges, e ∈ cfg.edges) →
      st.seen.length = cfg.blocks.length → st.seen.count false < fuel →
      ∃ st' news, edges.foldlM (fun st e =>
          if e.src ≠ bi then .ok st
          else if e.dst = cfgInvalid then .ok st
          else dfsPost cfg fuel e.dst st) st = .ok st' ∧
        Walked cfg (cfg.graph.Edge bi) st st' news ∧
        ∀ e ∈ edges, e.src = bi → e.dst ≠ cfgInvalid → st'.seen.getD e.dst false = true := by
  intro edges
  induction edges with
  | nil =>
    intro st _ _ _
    exact ⟨st, [], rfl, .nothing _ _, fun _ h => absurd h not_mem_nil⟩
  | cons e edges ih =>
    intro st hEdges hLength hFuel
    have hTail : ∀ e' ∈ edges, e' ∈ cfg.edges := fun e' he' => hEdges e' (mem_cons_of_mem _ he')
    have hMem := hEdges e mem_cons_self
    rw [foldlM_cons]
    by_cases hSrc : e.src = bi
    · by_cases hDst : e.dst = cfgInvalid
      · obtain ⟨st', news, hRun, hWalked, hSeen⟩ := ih st hTail hLength hFuel
        refine ⟨st', news, ?_, hWalked, ?_⟩
        · rw [if_neg (not_not.2 hSrc), if_pos hDst]
          exact hRun
        · intro e' he' hSrc' hDst'
          rcases mem_cons.1 he' with rfl | he'
          · exact absurd hDst hDst'
          · exact hSeen e' he' hSrc' hDst'
      · obtain ⟨st₁, news₁, hRun₁, hWalked₁, hSeen₁⟩ :=
          hVisit e.dst st ((hWf.dst_lt e hMem).resolve_left hDst) hLength hFuel
        obtain ⟨st', news, hRun, hWalked, hSeen⟩ := ih st₁ hTail
          (hWalked₁.length_seen.trans hLength) (Nat.lt_of_le_of_lt hWalked₁.count_le hFuel)
        have hEdge : ∀ v, v = e.dst → cfg.graph.Edge bi v := by
          rintro v rfl
          exact ⟨e, hMem, hSrc, rfl, hDst⟩
        refine ⟨st', news₁ ++ news, ?_, (hWalked₁.imp hEdge).append hWalked, ?_⟩
        · rw [if_neg (not_not.2 hSrc), if_neg hDst, hRun₁]
          exact hRun
        · intro e' he' hSrc' hDst'
          rcases mem_cons.1 he' with rfl | he'
          · exact hWalked.seen_mono hSeen₁
          · exact hSeen e' he' hSrc' hDst'
    · obtain ⟨st', news, hRun, hWalked, hSeen⟩ := ih st hTail hLength hFuel
      refine ⟨st', news, ?_, hWalked, ?_⟩
      · rw [if_pos hSrc]
        exact hRun
      · intro e' he' hSrc' hDst'
        rcases mem_cons.1 he' with rfl | he'
        · exact absurd hSrc' hSrc
        · exact hSeen e' he' hSrc' hDst'

/-- With a fuel above the number of unseen blocks a visit ends. -/
theorem dfsPost_walked (hWf : cfg.WellFormed) :
    ∀ (fuel bi : Nat) (st : DfsState), bi < cfg.blocks.length →
      st.seen.length = cfg.blocks.length → st.seen.count false < fuel →
      ∃ st' news, dfsPost cfg fuel bi st = .ok st' ∧ Walked cfg (· = bi) st st' news ∧
        st'.seen.getD bi false = true := by
  intro fuel
  induction fuel with
  | zero =>
    intro bi st _ _ hFuel
    exact absurd hFuel (Nat.not_lt_zero _)
  | succ fuel ih =>
    intro bi st hLt hLength hFuel
    rw [dfsPost]
    by_cases hSeen : st.seen.getD bi false = true
    · exact ⟨st, [], if_pos hSeen, .nothing _ _, hSeen⟩
    · rw [if_neg hSeen]
      have hUnseen : st.seen.getD bi false = false := by simpa using hSeen
      have hCount := count_set_true (hLength ▸ hLt) hUnseen
      obtain ⟨st', news, hRun, hWalked, hSuccessors⟩ :=
        foldlM_walked ih hWf cfg.edges { st with seen := st.seen.set bi true }
          (fun _ he => he) (length_set.trans hLength) (by simp only; omega)
      have hVisit := hWalked.visit (hLength ▸ hLt) hUnseen fun w hEdge => by
        obtain ⟨e, he, hSrc, rfl, hDst⟩ := hEdge
        exact hSuccessors e he hSrc hDst
      refine ⟨_, news ++ [bi], ?_, hVisit, ?_⟩
      · rw [hRun]
        rfl
      · exact (hVisit.seen bi (hLength ▸ hLt)).2
          (.inr (mem_append_right _ (mem_singleton_self _)))

/-! ## The numbering -/

theorem getD_foldl_set_of_not_mem {order : List Nat} {v : Nat} (hv : v ∉ order) (k : Nat)
    (pos : List Nat) (d : Nat) :
    ((order.zipIdx k).foldl (fun pos p => pos.set p.1 p.2) pos).getD v d = pos.getD v d := by
  induction order generalizing pos k with
  | nil => rfl
  | cons b order ih =>
    have hNe : v ≠ b := fun hEq => hv (hEq ▸ mem_cons_self)
    have hTail : v ∉ order := fun hMem => hv (mem_cons_of_mem _ hMem)
    rw [zipIdx_cons, foldl_cons, ih hTail, getD_set_of_ne (Ne.symm hNe)]

theorem getD_foldl_set {order : List Nat} (hNodup : order.Nodup) (k : Nat) (pos : List Nat)
    (hLt : ∀ b ∈ order, b < pos.length) (d : Nat) {i : Nat} (hi : i < order.length) :
    ((order.zipIdx k).foldl (fun pos p => pos.set p.1 p.2) pos).getD order[i] d = k + i := by
  induction order generalizing pos k i with
  | nil => exact absurd hi (Nat.not_lt_zero _)
  | cons b order ih =>
    obtain ⟨hNotMem, hNodup⟩ := nodup_cons.1 hNodup
    rw [zipIdx_cons, foldl_cons]
    cases i with
    | zero =>
      rw [List.getElem_cons_zero, getD_foldl_set_of_not_mem hNotMem,
        getD_set_self (hLt b mem_cons_self), Nat.add_zero]
    | succ i =>
      have hTail : ∀ c ∈ order, c < (pos.set b k).length := fun c hc => by
        rw [length_set]
        exact hLt c (mem_cons_of_mem _ hc)
      rw [List.getElem_cons_succ, ih hNodup (k + 1) _ hTail (by simpa using hi)]
      omega

/-- The position of a block, `cfgInvalid` for one that the walk did not reach. -/
def Rpo.posOf (rpo : Rpo) (b : Nat) : Nat := rpo.pos.getD b cfgInvalid

/-- `rpo` lists the reachable blocks, each but the entry after one of its predecessors. -/
structure Rpo.Valid (cfg : Cfg) (rpo : Rpo) : Prop where
  nodup : rpo.order.Nodup
  mem_order : ∀ b, b ∈ rpo.order ↔ cfg.graph.Reachable b
  pos : ∀ i (h : i < rpo.order.length), rpo.posOf rpo.order[i] = i
  earlier : ∀ pre b post, rpo.order = pre ++ b :: post →
    b = cfg.entryBlock ∨ ∃ p ∈ pre, cfg.graph.Edge p b

theorem buildRpo_valid (hWf : cfg.WellFormed) (fuel : Nat) (hFuel : cfg.blocks.length < fuel) :
    ∃ rpo, buildRpo fuel cfg = .ok rpo ∧ rpo.Valid cfg := by
  obtain ⟨st, news, hRun, hWalked, hEntrySeen⟩ := dfsPost_walked hWf fuel cfg.entryBlock
    { seen := List.replicate cfg.blocks.length false, order := [] } hWf.entry_lt
    length_replicate (by simpa using hFuel)
  have hOrder : st.order = news := by simpa using hWalked.order
  have hUnseen : ∀ v, (List.replicate cfg.blocks.length false).getD v false = false :=
    fun v => getD_replicate_self _ _ _
  have hSeen : ∀ v, v < cfg.blocks.length → (st.seen.getD v false = true ↔ v ∈ news) := by
    intro v hv
    rw [hWalked.seen v (by simpa using hv), or_iff_right]
    intro h
    exact Bool.false_ne_true ((hUnseen v).symm.trans h)
  have hLt : ∀ v ∈ news, v < cfg.blocks.length := fun v hv => by
    simpa using (hWalked.fresh v hv).1
  have hEarlier : ∀ pre b post, st.order.reverse = pre ++ b :: post →
      b = cfg.entryBlock ∨ ∃ p ∈ pre, cfg.graph.Edge p b := by
    intro pre b post hEq
    have hNews : news = post.reverse ++ b :: pre.reverse := by
      rw [← hOrder, ← reverse_reverse st.order, hEq]
      simp
    rcases hWalked.finished _ b _ hNews with hFrom | ⟨p, hp, hEdge⟩
    · exact .inl hFrom
    · exact .inr ⟨p, mem_reverse.1 hp, hEdge⟩
  refine ⟨{ order := st.order.reverse, pos := rpoPositions cfg.blocks.length st.order.reverse },
    ?_, ?_, ?_, ?_, hEarlier⟩
  · simp only [buildRpo, hRun]
    rfl
  · exact nodup_reverse.2 (hOrder ▸ hWalked.nodup)
  · intro b
    simp only [mem_reverse, hOrder]
    constructor
    · -- going back along the earlier predecessors leads to the entry
      intro hb
      have hReach : ∀ n pre b post, pre.length = n → st.order.reverse = pre ++ b :: post →
          cfg.graph.Reachable b := by
        intro n
        induction n using Nat.strongRecOn with
        | ind n ih =>
          intro pre b post hn hEq
          rcases hEarlier pre b post hEq with rfl | ⟨p, hp, hEdge⟩
          · exact FlowGraph.reachable_entry
          · obtain ⟨pre', mid, rfl⟩ := append_of_mem hp
            refine FlowGraph.Reachable.step (ih pre'.length ?_ pre' p (mid ++ b :: post) rfl ?_) hEdge
            · subst hn
              simp
            · simpa using hEq
      obtain ⟨pre, post, hEq⟩ := append_of_mem (mem_reverse.2 (hOrder ▸ hb))
      exact hReach _ pre b post rfl hEq
    · refine FlowGraph.Reachable.closed (S := (· ∈ news)) ?_ ?_
      · exact (hSeen _ hWf.entry_lt).1 hEntrySeen
      · intro p c hp hEdge
        exact (hSeen c (hWf.edge_lt hEdge).2).1 (hWalked.closed p hp c hEdge)
  · intro i hi
    have hPos := getD_foldl_set (nodup_reverse.2 (hOrder ▸ hWalked.nodup)) 0
      (List.replicate cfg.blocks.length cfgInvalid)
      (fun b hb => by simpa using hLt b (hOrder ▸ mem_reverse.1 hb)) cfgInvalid hi
    simpa [Rpo.posOf, rpoPositions] using hPos

variable {rpo : Rpo}

theorem Rpo.Valid.pos_lt (hRpo : rpo.Valid cfg) {b : Nat} (hb : cfg.graph.Reachable b) :
    rpo.posOf b < rpo.order.length := by
  obtain ⟨i, hi, rfl⟩ := List.getElem_of_mem ((hRpo.mem_order b).2 hb)
  rw [hRpo.pos i hi]
  exact hi

/-- The positions order the reachable blocks as the iteration needs it. -/
theorem Rpo.Valid.numbering (hRpo : rpo.Valid cfg) : cfg.graph.Numbering rpo.posOf where
  injective a b ha hb hEq := by
    obtain ⟨i, hi, rfl⟩ := List.getElem_of_mem ((hRpo.mem_order a).2 ha)
    obtain ⟨j, hj, rfl⟩ := List.getElem_of_mem ((hRpo.mem_order b).2 hb)
    rw [hRpo.pos i hi, hRpo.pos j hj] at hEq
    subst hEq
    rfl
  earlier b hb hNe := by
    obtain ⟨pre, post, hEq⟩ := append_of_mem ((hRpo.mem_order b).2 hb)
    rcases hRpo.earlier pre b post hEq with hEntry | ⟨p, hp, hEdge⟩
    · exact absurd hEntry hNe
    · have hpMem : p ∈ rpo.order := hEq ▸ mem_append_left _ hp
      obtain ⟨i, hi, rfl⟩ := List.getElem_of_mem hp
      have hPosP : rpo.posOf pre[i] = i := by
        have h := hRpo.pos i (by simp [hEq]; omega)
        simpa [hEq, List.getElem_append_left hi] using h
      have hPosB : rpo.posOf b = pre.length := by
        have h := hRpo.pos pre.length (by simp [hEq])
        simpa [hEq] using h
      refine ⟨_, (hRpo.mem_order _).1 hpMem, hEdge, ?_⟩
      rw [hPosP, hPosB]
      exact hi

theorem Rpo.Valid.length_le (hRpo : rpo.Valid cfg) (hWf : cfg.WellFormed) :
    rpo.order.length ≤ cfg.blocks.length := by
  have hSub : rpo.order ⊆ List.range cfg.blocks.length := fun b hb =>
    mem_range.2 (hWf.reachable_lt ((hRpo.mem_order b).1 hb))
  simpa using (subperm_of_subset hRpo.nodup hSub).length_le

end Calynda.Decompiler
