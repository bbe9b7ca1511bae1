import Calynda.Decompiler.Cfg
import Mathlib.Data.List.Induction
import Mathlib.Algebra.GroupWithZero.Nat

/-!
# Predecessor lists

`buildPreds` lays the sources of the edges out by target: a count for each block, the running
sums of the counts, and one pass that puts each source at the next free place of its target.
`predsOf_buildPreds` says that the slice of a block lists the sources of its edges in order.
-/

namespace Calynda.Decompiler

structure Preds where
  offsets : List Nat
  preds : List Nat

/-- `offsets[t + 1]` counts the edges into `t`. -/
def countPreds (blockCount : Nat) (edges : List CfgEdge) : List Nat :=
  edges.foldl (fun offsets e =>
    if e.dst = cfgInvalid then offsets
    else offsets.set (e.dst + 1) (offsets.getD (e.dst + 1) 0 + 1)) (List.replicate (blockCount + 1) 0)

def sumOffsets (blockCount : Nat) (counts : List Nat) : List Nat :=
  (List.range blockCount).foldl (fun offsets i =>
    offsets.set (i + 1) (offsets.getD (i + 1) 0 + offsets.getD i 0)) counts

/-- The places filled so far, and for each block how many of its places are. -/
structure PredsFill where
  preds : List Nat
  cursor : List Nat

def fillPred (offsets : List Nat) (fill : PredsFill) (e : CfgEdge) : PredsFill :=
  if e.dst = cfgInvalid then fill
  else
    { preds := fill.preds.set (offsets.getD e.dst 0 + fill.cursor.getD e.dst 0) e.src
      cursor := fill.cursor.set e.dst (fill.cursor.getD e.dst 0 + 1) }

def buildPreds (cfg : Cfg) : Preds :=
  let nb := cfg.blocks.length
  let offsets := sumOffsets nb (countPreds nb cfg.edges)
  let fill := cfg.edges.foldl (fillPred offsets)
    { preds := List.replicate (offsets.getD nb 0) 0, cursor := List.replicate nb 0 }
  { offsets := offsets, preds := fill.preds }

/-- The entries from `offsets[b]` up to `offsets[b + 1]`. -/
def Preds.predsOf (p : Preds) (b : Nat) : List Nat :=
  (List.range' (p.offsets.getD b 0) (p.offsets.getD (b + 1) 0 - p.offsets.getD b 0)).map
    fun k => p.preds.getD k 0

/-! ## The layout -/

/-- The sources of the edges into `t`, in the order of the edges. -/
def sourcesOf (edges : List CfgEdge) (t : Nat) : List Nat :=
  (edges.filter (fun e => e.dst = t ∧ e.dst ≠ cfgInvalid)).map (·.src)

theorem mem_sourcesOf {cfg : Cfg} {p b : Nat} :
    p ∈ sourcesOf cfg.edges b ↔ cfg.graph.Edge p b := by
  simp only [sourcesOf, List.mem_map, List.mem_filter, decide_eq_true_eq]
  constructor
  · rintro ⟨e, ⟨he, hDst, hNe⟩, rfl⟩
    exact ⟨e, he, rfl, hDst, hNe⟩
  · rintro ⟨e, he, rfl, hDst, hNe⟩
    exact ⟨e, ⟨he, hDst, hNe⟩, rfl⟩

/-- Where the slice of `t` starts. -/
def slotStart (edges : List CfgEdge) (t : Nat) : Nat :=
  ((List.range t).map fun i => (sourcesOf edges i).length).sum

theorem slotStart_succ (edges : List CfgEdge) (t : Nat) :
    slotStart edges (t + 1) = slotStart edges t + (sourcesOf edges t).length := by
  simp [slotStart, List.range_succ]

theorem slotStart_mono (edges : List CfgEdge) {s t : Nat} (h : s ≤ t) :
    slotStart edges s ≤ slotStart edges t := by
  induction h with
  | refl => exact Nat.le_refl _
  | @step t _ ih =>
    rw [slotStart_succ]
    omega

theorem sourcesOf_append_self (edges : List CfgEdge) {e : CfgEdge} (h : e.dst ≠ cfgInvalid) :
    sourcesOf (edges ++ [e]) e.dst = sourcesOf edges e.dst ++ [e.src] := by
  simp [sourcesOf, h]

theorem sourcesOf_append_of_ne (edges : List CfgEdge) {e : CfgEdge} {t : Nat}
    (h : e.dst = cfgInvalid ∨ e.dst ≠ t) : sourcesOf (edges ++ [e]) t = sourcesOf edges t := by
  rcases h with h | h
  · simp [sourcesOf, h]
  · simp [sourcesOf, h]

theorem countPreds_append (nb : Nat) (edges : List CfgEdge) (e : CfgEdge) :
    countPreds nb (edges ++ [e]) =
      if e.dst = cfgInvalid then countPreds nb edges
      else (countPreds nb edges).set (e.dst + 1) ((countPreds nb edges).getD (e.dst + 1) 0 + 1) := by
  simp [countPreds]

@[simp] theorem length_countPreds (nb : Nat) (edges : List CfgEdge) :
    (countPreds nb edges).length = nb + 1 := by
  induction edges using List.reverseRecOn with
  | nil => simp [countPreds]
  | append_singleton edges e ih =>
    rw [countPreds_append]
    split <;> simp [ih]

theorem countPreds_zero (nb : Nat) (edges : List CfgEdge) : (countPreds nb edges).getD 0 0 = 0 := by
  induction edges using List.reverseRecOn with
  | nil => exact List.getD_replicate_self _ _ _
  | append_singleton edges e ih =>
    rw [countPreds_append]
    split
    case isTrue _ => exact ih
    case isFalse _ => rw [List.getD_set_of_ne (Nat.succ_ne_zero _), ih]

theorem countPreds_succ {nb : Nat} {edges : List CfgEdge} {t : Nat} (ht : t < nb)
    (hDst : ∀ e ∈ edges, e.dst = cfgInvalid ∨ e.dst < nb) :
    (countPreds nb edges).getD (t + 1) 0 = (sourcesOf edges t).length := by
  induction edges using List.reverseRecOn with
  | nil => exact List.getD_replicate_self _ _ _
  | append_singleton edges e ih =>
    have ih := ih fun e' he' => hDst e' (List.mem_append_left _ he')
    rw [countPreds_append]
    by_cases hInvalid : e.dst = cfgInvalid
    · rw [if_pos hInvalid, ih, sourcesOf_append_of_ne edges (.inl hInvalid)]
    · rw [if_neg hInvalid]
      by_cases hEq : e.dst = t
      · subst hEq
        rw [List.getD_set_self (by simp [ht]), ih, sourcesOf_append_self edges hInvalid]
        simp
      · rw [List.getD_set_of_ne (by omega), ih, sourcesOf_append_of_ne edges (.inr hEq)]

/-- After the first `k` sums. -/
def summed (counts : List Nat) (k : Nat) : List Nat :=
  (List.range k).foldl (fun offsets i =>
    offsets.set (i + 1) (offsets.getD (i + 1) 0 + offsets.getD i 0)) counts

theorem summed_succ (counts : List Nat) (k : Nat) :
    summed counts (k + 1) =
      (summed counts k).set (k + 1) ((summed counts k).getD (k + 1) 0 + (summed counts k).getD k 0) := by
  simp [summed, List.range_succ]

@[simp] theorem length_summed (counts : List Nat) (k : Nat) :
    (summed counts k).length = counts.length := by
  induction k with
  | zero => rfl
  | succ k ih => simp [summed_succ, ih]

/-- The sums reach one index further with each step and leave what lies behind. -/
theorem summed_spec {cfg : Cfg} (hWf : cfg.WellFormed) {k : Nat} (hk : k ≤ cfg.blocks.length) :
    (∀ j ≤ k, (summed (countPreds cfg.blocks.length cfg.edges) k).getD j 0 =
        slotStart cfg.edges j) ∧
      ∀ j, k ≤ j → j < cfg.blocks.length →
        (summed (countPreds cfg.blocks.length cfg.edges) k).getD (j + 1) 0 =
          (sourcesOf cfg.edges j).length := by
  induction k with
  | zero =>
    refine ⟨fun j hj => ?_, fun j _ hj => countPreds_succ hj hWf.dst_lt⟩
    obtain rfl := Nat.le_zero.1 hj
    exact countPreds_zero _ _
  | succ k ih =>
    obtain ⟨hBelow, hAbove⟩ := ih (by omega)
    rw [summed_succ]
    constructor
    · intro j hj
      by_cases hEq : j = k + 1
      · subst hEq
        rw [List.getD_set_self (by simp; omega), hAbove k (Nat.le_refl _) (by omega),
          hBelow k (Nat.le_refl _), slotStart_succ]
        omega
      · rw [List.getD_set_of_ne (by omega)]
        exact hBelow j (by omega)
    · intro j hj hLt
      rw [List.getD_set_of_ne (by omega)]
      exact hAbove j (by omega) hLt

/-- After the edges `filled` each block has its sources among them at the start of its slice. -/
structure Filled (cfg : Cfg) (filled : List CfgEdge) (fill : PredsFill) : Prop where
  length_preds : fill.preds.length = slotStart cfg.edges cfg.blocks.length
  length_cursor : fill.cursor.length = cfg.blocks.length
  cursor : ∀ t < cfg.blocks.length, fill.cursor.getD t 0 = (sourcesOf filled t).length
  preds : ∀ t < cfg.blocks.length, ∀ j < (sourcesOf filled t).length,
    fill.preds.getD (slotStart cfg.edges t + j) 0 = (sourcesOf filled t).getD j 0

theorem length_sourcesOf_le {filled rest : List CfgEdge} (t : Nat) :
    (sourcesOf filled t).length ≤ (sourcesOf (filled ++ rest) t).length := by
  simp [sourcesOf]

theorem Filled.step {cfg : Cfg} (hWf : cfg.WellFormed) {offsets : List Nat}
    (hOffsets : ∀ t ≤ cfg.blocks.length, offsets.getD t 0 = slotStart cfg.edges t)
    {filled rest : List CfgEdge} {e : CfgEdge} (hEdges : filled ++ e :: rest = cfg.edges)
    {fill : PredsFill} (h : Filled cfg filled fill) :
    Filled cfg (filled ++ [e]) (fillPred offsets fill e) := by
  unfold fillPred
  by_cases hInvalid : e.dst = cfgInvalid
  · rw [if_pos hInvalid]
    have hSame : ∀ t, sourcesOf (filled ++ [e]) t = sourcesOf filled t := fun t =>
      sourcesOf_append_of_ne filled (.inl hInvalid)
    refine ⟨h.length_preds, h.length_cursor, ?_, ?_⟩
    · intro t ht
      rw [hSame]
      exact h.cursor t ht
    · intro t ht j hj
      rw [hSame] at hj ⊢
      exact h.preds t ht j hj
  · rw [if_neg hInvalid]
    have hMem : e ∈ cfg.edges := hEdges ▸ List.mem_append_right _ List.mem_cons_self
    have hDst : e.dst < cfg.blocks.length := (hWf.dst_lt e hMem).resolve_left hInvalid
    have hSelf := sourcesOf_append_self filled hInvalid
    -- the slice of each block has room for its next source
    have hRoom : ∀ t, (sourcesOf (filled ++ [e]) t).length ≤ (sourcesOf cfg.edges t).length := by
      intro t
      have hSplit : cfg.edges = (filled ++ [e]) ++ rest := by simp [← hEdges]
      rw [hSplit]
      exact length_sourcesOf_le t
    have hRoomDst := hRoom e.dst
    have hSucc := slotStart_succ cfg.edges e.dst
    have hEnd := slotStart_mono cfg.edges (show e.dst + 1 ≤ cfg.blocks.length from hDst)
    rw [hSelf, List.length_append, List.length_singleton] at hRoomDst
    rw [hOffsets e.dst (Nat.le_of_lt hDst), h.cursor e.dst hDst]
    refine ⟨by simpa using h.length_preds, by simpa using h.length_cursor, ?_, ?_⟩
    · intro t ht
      by_cases hEq : e.dst = t
      · subst hEq
        rw [List.getD_set_self (h.length_cursor ▸ hDst), hSelf]
        simp
      · rw [List.getD_set_of_ne hEq, h.cursor t ht, sourcesOf_append_of_ne filled (.inr hEq)]
    · intro t ht j hj
      by_cases hEq : e.dst = t
      · subst hEq
        rw [hSelf] at hj ⊢
        by_cases hLast : j = (sourcesOf filled e.dst).length
        · subst hLast
          rw [List.getD_set_self (by rw [h.length_preds]; omega)]
          simp
        · have hLt : j < (sourcesOf filled e.dst).length := by
            simp only [List.length_append, List.length_singleton] at hj
            omega
          rw [List.getD_set_of_ne (by omega), h.preds e.dst ht j hLt,
            List.getD_append _ _ _ _ hLt]
      · have hSame := sourcesOf_append_of_ne filled (.inr hEq)
        have hRoomT := hRoom t
        rw [hSame] at hj hRoomT ⊢
        -- the place written lies in the slice of another block
        have hNe : slotStart cfg.edges e.dst + (sourcesOf filled e.dst).length ≠
            slotStart cfg.edges t + j := by
          have hSuccT := slotStart_succ cfg.edges t
          rcases Nat.lt_or_gt_of_ne hEq with hLt | hLt
          · have := slotStart_mono cfg.edges (show e.dst + 1 ≤ t from hLt)
            omega
          · have := slotStart_mono cfg.edges (show t + 1 ≤ e.dst from hLt)
            omega
        rw [List.getD_set_of_ne hNe]
        exact h.preds t ht j hj

theorem Filled.run {cfg : Cfg} (hWf : cfg.WellFormed) {offsets : List Nat}
    (hOffsets : ∀ t ≤ cfg.blocks.length, offsets.getD t 0 = slotStart cfg.edges t) :
    ∀ (rest filled : List CfgEdge) (fill : PredsFill), filled ++ rest = cfg.edges →
      Filled cfg filled fill → Filled cfg cfg.edges (rest.foldl (fillPred offsets) fill) := by
  intro rest
  induction rest with
  | nil =>
    intro filled fill hEdges h
    rw [← hEdges, List.append_nil]
    exact h
  | cons e rest ih =>
    intro filled fill hEdges h
    exact ih (filled ++ [e]) _ (by simpa using hEdges) (h.step hWf hOffsets hEdges)

/-- The slice of a block lists the sources of the edges into it. -/
theorem predsOf_buildPreds {cfg : Cfg} (hWf : cfg.WellFormed) {b : Nat}
    (hb : b < cfg.blocks.length) : (buildPreds cfg).predsOf b = sourcesOf cfg.edges b := by
  have hOffsets : ∀ t ≤ cfg.blocks.length, (buildPreds cfg).offsets.getD t 0 =
      slotStart cfg.edges t := (summed_spec hWf (Nat.le_refl _)).1
  have hFilled : Filled cfg cfg.edges
      (cfg.edges.foldl (fillPred (buildPreds cfg).offsets)
        { preds := List.replicate ((buildPreds cfg).offsets.getD cfg.blocks.length 0) 0
          cursor := List.replicate cfg.blocks.length 0 }) := by
    refine Filled.run hWf hOffsets cfg.edges [] _ rfl ⟨?_, by simp, ?_, ?_⟩
    · simpa using hOffsets _ (Nat.le_refl _)
    · intro t _
      exact List.getD_replicate_self _ _ _
    · intro t _ j hj
      exact absurd hj (Nat.not_lt_zero _)
  have hSucc := slotStart_succ cfg.edges b
  rw [Preds.predsOf, hOffsets b (Nat.le_of_lt hb), hOffsets (b + 1) hb, hSucc, Nat.add_sub_cancel_left]
  refine List.ext_getElem (by simp) fun j hj hj' => ?_
  have hPlace := hFilled.preds b hb j hj'
  rw [List.getD_eq_getElem _ _ hj'] at hPlace
  simpa [buildPreds] using hPlace

end Calynda.Decompiler
