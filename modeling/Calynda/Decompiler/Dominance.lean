import Calynda.Lib.DominatorTree
import Calynda.Decompiler.Rpo
import Mathlib.Algebra.Order.BigOperators.Group.List
import Mathlib.Algebra.Order.Group.Nat

/-!
# Immediate dominators

`cfgComputeDominance` passes over the blocks in reverse postorder until no parent changes.
`cfgComputeDominance_correct` says that it ends for every graph and gives each reachable block
its immediate dominator: one visit of a block is a step of `FlowGraph.Relaxed`, and every
change moves a parent towards the entry.
-/

namespace Calynda.Decompiler

open FlowGraph

/-- The inner loop of `intersect`: follow `idom` until the position is at most `limit`. -/
def climb (idom pos : List Nat) (limit : Nat) : Nat → Nat → Except CfgFault Nat
  | 0, _ => .error .outOfFuel
  | fuel + 1, b =>
    if limit < pos.getD b cfgInvalid then
      if idom.getD b cfgInvalid = cfgInvalid then .error .invalidIndex
      else climb idom pos limit fuel (idom.getD b cfgInvalid)
    else .ok b

def intersect (idom pos : List Nat) : Nat → Nat → Nat → Except CfgFault Nat
  | 0, _, _ => .error .outOfFuel
  | fuel + 1, b1, b2 =>
    if b1 = b2 then .ok b1
    else do
      let b1 ← climb idom pos (pos.getD b2 cfgInvalid) (fuel + 1) b1
      let b2 ← climb idom pos (pos.getD b1 cfgInvalid) (fuel + 1) b2
      intersect idom pos fuel b1 b2

/-- The parent that the predecessors with a parent give a block. -/
def newIdom (fuel : Nat) (idom pos : List Nat) (preds : List Nat) : Except CfgFault Nat :=
  preds.foldlM (fun new p =>
    if idom.getD p cfgInvalid = cfgInvalid then .ok new
    else if new = cfgInvalid then .ok p
    else intersect idom pos fuel p new) cfgInvalid

structure IdomState where
  idom : List Nat
  changed : Bool

def updateIdom (fuel : Nat) (cfg : Cfg) (preds : Preds) (rpo : Rpo) (st : IdomState) (b : Nat) :
    Except CfgFault IdomState :=
  if b = cfg.entryBlock then .ok st
  else do
    let new ← newIdom fuel st.idom rpo.pos (preds.predsOf b)
    if new ≠ cfgInvalid ∧ st.idom.getD b cfgInvalid ≠ new then
      .ok { idom := st.idom.set b new, changed := true }
    else .ok st

/-- The outer loop: passes until one changes nothing. -/
def idomPasses (fuel : Nat) (cfg : Cfg) (preds : Preds) (rpo : Rpo) :
    Nat → List Nat → Except CfgFault (List Nat)
  | 0, _ => .error .outOfFuel
  | passes + 1, idom => do
    let st ← rpo.order.foldlM (updateIdom fuel cfg preds rpo) { idom := idom, changed := false }
    if st.changed then idomPasses fuel cfg preds rpo passes st.idom
    else .ok st.idom

def Cfg.withIdoms (cfg : Cfg) (idom : List Nat) : Cfg :=
  { cfg with blocks := cfg.blocks.mapIdx fun i b => { b with idom := idom.getD i cfgInvalid } }

def cfgComputeDominance (fuel : Nat) (cfg : Cfg) : Except CfgFault Cfg :=
  let nb := cfg.blocks.length
  if nb = 0 then .ok cfg
  else do
    let rpo ← buildRpo fuel cfg
    let idom ← idomPasses fuel cfg (buildPreds cfg) rpo fuel
      ((List.replicate nb cfgInvalid).set cfg.entryBlock cfg.entryBlock)
    .ok (cfg.withIdoms idom)

/-! ## Parents -/

/-- The map of parents that an array of `idom` fields stands for. -/
def parentOf (idom : List Nat) (b : Nat) : Option Nat :=
  if idom.getD b cfgInvalid = cfgInvalid then none else some (idom.getD b cfgInvalid)

theorem parentOf_eq_some {idom : List Nat} {b d : Nat} :
    parentOf idom b = some d ↔ idom.getD b cfgInvalid = d ∧ d ≠ cfgInvalid := by
  unfold parentOf
  split
  case isTrue h =>
    refine iff_of_false nofun ?_
    rintro ⟨rfl, hNe⟩
    exact hNe h
  case isFalse h =>
    constructor
    · intro hEq
      obtain rfl := Option.some.inj hEq
      exact ⟨rfl, h⟩
    · rintro ⟨rfl, -⟩
      rfl

theorem parentOf_set {idom : List Nat} {b z : Nat} (hb : b < idom.length) (hz : z ≠ cfgInvalid) :
    parentOf (idom.set b z) = setParent (parentOf idom) b z := by
  funext x
  by_cases hEq : x = b
  · subst hEq
    rw [setParent_self, parentOf_eq_some]
    exact ⟨List.getD_set_self hb _ _, hz⟩
  · rw [setParent_of_ne hEq]
    unfold parentOf
    rw [List.getD_set_of_ne (Ne.symm hEq)]

/-! ## The nearest common ancestor -/

section Intersect

variable {cfg : Cfg} {rpo : Rpo} {idom : List Nat} {x y limit fuel : Nat}

/-- Climbing ends at the first ancestor that is early enough. -/
theorem climb_spec (hTree : PartialTree cfg.graph rpo.posOf (parentOf idom))
    (hLimit : rpo.posOf cfg.entryBlock ≤ limit) :
    ∀ (fuel x : Nat), (∃ d, parentOf idom x = some d) → rpo.posOf x < fuel →
      ∃ z, climb idom rpo.pos limit fuel x = .ok z ∧ Ancestor (parentOf idom) x z ∧
        rpo.posOf z ≤ limit ∧
        ∀ a, Ancestor (parentOf idom) x a → rpo.posOf a ≤ limit → Ancestor (parentOf idom) z a := by
  intro fuel
  induction fuel with
  | zero =>
    intro x _ hFuel
    exact absurd hFuel (Nat.not_lt_zero _)
  | succ fuel ih =>
    intro x hx hFuel
    rw [climb]
    by_cases hLate : limit < rpo.posOf x
    · obtain ⟨d, hd⟩ := hx
      obtain ⟨hIdom, hValid⟩ := parentOf_eq_some.1 hd
      have hEntry : x ≠ cfg.entryBlock := by
        rintro rfl
        exact absurd hLimit (Nat.not_le_of_lt hLate)
      have hLt := hTree.earlier _ _ hd hEntry
      obtain ⟨z, hRun, hAnc, hLe, hAll⟩ := ih d (hTree.processed _ _ hd) (by omega)
      refine ⟨z, ?_, .head hd hAnc, hLe, ?_⟩
      · rw [hIdom, if_neg hValid]
        exact (if_pos hLate).trans hRun
      · intro a ha haLe
        rcases (ancestor_iff hd).1 ha with rfl | ha
        · exact absurd haLe (Nat.not_le_of_lt hLate)
        · exact hAll a ha haLe
    · refine ⟨x, if_neg hLate, .refl _, Nat.le_of_not_lt hLate, ?_⟩
      intro a ha _
      exact ha

/-- `intersect` ends at the nearest common ancestor. -/
theorem intersect_spec (hPos : cfg.graph.Numbering rpo.posOf)
    (hTree : PartialTree cfg.graph rpo.posOf (parentOf idom)) :
    ∀ (fuel x y : Nat), (∃ d, parentOf idom x = some d) → (∃ d, parentOf idom y = some d) →
      rpo.posOf x + rpo.posOf y < fuel →
      ∃ z, intersect idom rpo.pos fuel x y = .ok z ∧
        ∀ a, Ancestor (parentOf idom) z a ↔
          Ancestor (parentOf idom) x a ∧ Ancestor (parentOf idom) y a := by
  intro fuel
  induction fuel with
  | zero =>
    intro x y _ _ hFuel
    exact absurd hFuel (Nat.not_lt_zero _)
  | succ fuel ih =>
    intro x y hx hy hFuel
    rw [intersect]
    by_cases hEq : x = y
    · subst hEq
      exact ⟨x, if_pos rfl, fun a => (and_self_iff).symm⟩
    · rw [if_neg hEq]
      have hyReach := hTree.reachable_ancestor hy (.refl _)
      obtain ⟨x', hRunX, hAncX, hLeX, hAllX⟩ := climb_spec hTree (hPos.entry_le hyReach)
        (fuel + 1) x hx (by omega)
      have hx' := hTree.processed_ancestor hx hAncX
      have hx'Reach := hTree.reachable_ancestor hx hAncX
      obtain ⟨y', hRunY, hAncY, hLeY, hAllY⟩ := climb_spec hTree (hPos.entry_le hx'Reach)
        (fuel + 1) y hy (by omega)
      have hy' := hTree.processed_ancestor hy hAncY
      have hPosX := hTree.pos_le hAncX
      have hPosY := hTree.pos_le hAncY
      -- at different vertices one of the two loops makes a step
      have hPosNe : rpo.posOf x ≠ rpo.posOf y := fun h =>
        hEq (hPos.injective _ _ (hTree.reachable_ancestor hx (.refl _)) hyReach h)
      obtain ⟨z, hRun, hMeet⟩ := ih x' y' hx' hy' (by omega)
      refine ⟨z, ?_, fun a => ?_⟩
      · show (climb idom rpo.pos (rpo.posOf y) (fuel + 1) x >>= fun b1 =>
          climb idom rpo.pos (rpo.posOf b1) (fuel + 1) y >>= fun b2 =>
            intersect idom rpo.pos fuel b1 b2) = _
        rw [hRunX]
        show (climb idom rpo.pos (rpo.posOf x') (fuel + 1) y >>= fun b2 =>
          intersect idom rpo.pos fuel x' b2) = _
        rw [hRunY]
        exact hRun
      · rw [hMeet a]
        constructor
        · rintro ⟨hxa, hya⟩
          exact ⟨hAncX.trans hxa, hAncY.trans hya⟩
        · rintro ⟨hxa, hya⟩
          have hx'a := hAllX a hxa (hTree.pos_le hya)
          exact ⟨hx'a, hAllY a hya (hTree.pos_le hx'a)⟩

end Intersect

/-! ## One visit of a block -/

section Update

variable {cfg : Cfg} {rpo : Rpo} {idom : List Nat} {b fuel : Nat}

/-- The predecessors seen so far give no parent yet, or their nearest common ancestor. -/
def MeetOf (idom : List Nat) (ps : List Nat) (new : Nat) : Prop :=
  (new = cfgInvalid ∧ ∀ p ∈ ps, parentOf idom p = none) ∨
    (∃ d, parentOf idom new = some d) ∧ new ≠ cfgInvalid ∧
      ∀ a, Ancestor (parentOf idom) new a ↔
        ∀ p ∈ ps, (∃ d, parentOf idom p = some d) → Ancestor (parentOf idom) p a

theorem parentOf_eq_none {p : Nat} : parentOf idom p = none ↔ idom.getD p cfgInvalid = cfgInvalid := by
  unfold parentOf
  split
  case isTrue h => exact iff_of_true rfl h
  case isFalse h => exact iff_of_false nofun h

theorem newIdom_meetOf (hWf : cfg.WellFormed) (hRpo : rpo.Valid cfg)
    (hTree : PartialTree cfg.graph rpo.posOf (parentOf idom))
    (hFuel : 2 * rpo.order.length ≤ fuel) (ps : List Nat) :
    ∃ new, newIdom fuel idom rpo.pos ps = .ok new ∧ MeetOf idom ps new := by
  induction ps using List.reverseRecOn with
  | nil => exact ⟨cfgInvalid, rfl, .inl ⟨rfl, fun _ h => absurd h List.not_mem_nil⟩⟩
  | append_singleton ps p ih =>
    obtain ⟨new, hRun, hMeet⟩ := ih
    have hStep : newIdom fuel idom rpo.pos (ps ++ [p]) =
        if idom.getD p cfgInvalid = cfgInvalid then .ok new
        else if new = cfgInvalid then .ok p
        else intersect idom rpo.pos fuel p new := by
      unfold newIdom at hRun ⊢
      rw [List.foldlM_append, hRun]
      show (pure new >>= _) = _
      rw [pure_bind, List.foldlM_cons]
      exact bind_pure _
    rw [hStep]
    by_cases hp : parentOf idom p = none
    · refine ⟨new, if_pos (parentOf_eq_none.1 hp), ?_⟩
      rcases hMeet with ⟨hNew, hNone⟩ | ⟨hNew, hValid, hMeet⟩
      · refine .inl ⟨hNew, fun q hq => ?_⟩
        rcases List.mem_append.1 hq with hq | hq
        · exact hNone q hq
        · exact List.mem_singleton.1 hq ▸ hp
      · refine .inr ⟨hNew, hValid, fun a => (hMeet a).trans ⟨fun h q hq hProc => ?_, fun h q hq => ?_⟩⟩
        · rcases List.mem_append.1 hq with hq | hq
          · exact h q hq hProc
          · obtain ⟨d, hd⟩ := hProc
            rw [List.mem_singleton.1 hq, hp] at hd
            exact nomatch hd
        · exact h q (List.mem_append_left _ hq)
    · obtain ⟨d, hd⟩ := Option.ne_none_iff_exists'.1 hp
      rw [if_neg (fun h => hp (parentOf_eq_none.2 h))]
      have hpReach := hTree.reachable _ _ hd
      rcases hMeet with ⟨hNew, hNone⟩ | ⟨hNew, hValid, hMeet⟩
      · refine ⟨p, if_pos hNew, .inr ⟨⟨d, hd⟩, hWf.ne_invalid (hWf.reachable_lt hpReach), ?_⟩⟩
        intro a
        constructor
        · intro h q hq hProc
          rcases List.mem_append.1 hq with hq | hq
          · obtain ⟨d', hd'⟩ := hProc
            rw [hNone q hq] at hd'
            exact nomatch hd'
          · exact List.mem_singleton.1 hq ▸ h
        · intro h
          exact h p (List.mem_append_right _ (List.mem_singleton_self _)) ⟨d, hd⟩
      · have hPosP := hRpo.pos_lt hpReach
        have hPosNew := hRpo.pos_lt (hTree.reachable_ancestor hNew (.refl _))
        obtain ⟨z, hRunZ, hMeetZ⟩ := intersect_spec hRpo.numbering hTree fuel p new ⟨d, hd⟩ hNew
          (by omega)
        have hpz := ((hMeetZ z).1 (.refl _)).1
        have hz := hTree.processed_ancestor ⟨d, hd⟩ hpz
        refine ⟨z, (if_neg hValid).trans hRunZ, .inr ⟨hz, ?_, fun a => ?_⟩⟩
        · exact hWf.ne_invalid (hWf.reachable_lt (hTree.reachable_ancestor hz (.refl _)))
        · rw [hMeetZ a, hMeet a]
          constructor
          · rintro ⟨hpa, hAll⟩ q hq hProc
            rcases List.mem_append.1 hq with hq | hq
            · exact hAll q hq hProc
            · exact List.mem_singleton.1 hq ▸ hpa
          · intro h
            exact ⟨h p (List.mem_append_right _ (List.mem_singleton_self _)) ⟨d, hd⟩,
              fun q hq => h q (List.mem_append_left _ hq)⟩

/-- How far the blocks are from having the entry as parent. -/
def idomWeight (rpo : Rpo) (idom : List Nat) (b : Nat) : Nat :=
  match parentOf idom b with
  | none => rpo.order.length
  | some d => rpo.posOf d

def idomMeasure (rpo : Rpo) (idom : List Nat) : Nat :=
  (rpo.order.map (idomWeight rpo idom)).sum

/-- Every block listed, the entry apart, has the nearest common ancestor of its predecessors as
its parent. -/
def IdomsMeet (cfg : Cfg) (idom : List Nat) (bs : List Nat) : Prop :=
  ∀ b ∈ bs, b ≠ cfg.entryBlock →
    ∃ d, parentOf idom b = some d ∧
      IsMeet (parentOf idom) (ProcessedPred cfg.graph (parentOf idom) b) d

/-- What the visits of the blocks `bs` do: nothing, with all parents being as they should, or
some parent moves towards the entry. -/
structure Updated (cfg : Cfg) (rpo : Rpo) (bs : List Nat) (st st' : IdomState) : Prop where
  length_idom : st'.idom.length = st.idom.length
  outcome : (st' = st ∧ IdomsMeet cfg st.idom bs) ∨
    (st'.changed = true ∧ idomMeasure rpo st'.idom < idomMeasure rpo st.idom)

theorem Updated.nothing (cfg : Cfg) (rpo : Rpo) (st : IdomState) : Updated cfg rpo [] st st where
  length_idom := rfl
  outcome := .inl ⟨rfl, fun _ h => absurd h List.not_mem_nil⟩

theorem Updated.append {bs bs' : List Nat} {st st' st'' : IdomState}
    (h : Updated cfg rpo bs st st') (h' : Updated cfg rpo bs' st' st'') :
    Updated cfg rpo (bs ++ bs') st st'' where
  length_idom := h'.length_idom.trans h.length_idom
  outcome := by
    rcases h.outcome with ⟨rfl, hMeet⟩ | ⟨hChanged, hLt⟩
    · refine h'.outcome.imp_left fun ⟨hEq, hMeet'⟩ => ⟨hEq, fun b hb => ?_⟩
      exact (List.mem_append.1 hb).elim (hMeet b) (hMeet' b)
    · rcases h'.outcome with ⟨rfl, -⟩ | ⟨hChanged', hLt'⟩
      · exact .inr ⟨hChanged, hLt⟩
      · exact .inr ⟨hChanged', Nat.lt_trans hLt' hLt⟩

theorem idomMeasure_set_lt {z : Nat} (hMem : b ∈ rpo.order) (hb : b < idom.length)
    (hz : z ≠ cfgInvalid) (hLt : rpo.posOf z < idomWeight rpo idom b) :
    idomMeasure rpo (idom.set b z) < idomMeasure rpo idom := by
  have hWeight : ∀ x, idomWeight rpo (idom.set b z) x =
      if x = b then rpo.posOf z else idomWeight rpo idom x := by
    intro x
    unfold idomWeight
    rw [parentOf_set hb hz]
    by_cases hEq : x = b
    · subst hEq
      rw [setParent_self, if_pos rfl]
    · rw [setParent_of_ne hEq, if_neg hEq]
  refine List.sum_lt_sum _ _ ?_ ⟨b, hMem, ?_⟩
  · intro x _
    rw [hWeight x]
    split
    case isTrue hEq => exact hEq ▸ Nat.le_of_lt hLt
    case isFalse _ => exact Nat.le_refl _
  · rw [hWeight b, if_pos rfl]
    exact hLt

/-- The visit of one block is a step of the iteration. -/
theorem updateIdom_spec (hWf : cfg.WellFormed) (hRpo : rpo.Valid cfg)
    (hFuel : 2 * rpo.order.length ≤ fuel) {st : IdomState}
    (hLength : st.idom.length = cfg.blocks.length) (hMem : b ∈ rpo.order)
    (hRel : Relaxed cfg.graph rpo.posOf (rpo.posOf b) (parentOf st.idom)) :
    ∃ st', updateIdom fuel cfg (buildPreds cfg) rpo st b = .ok st' ∧ Updated cfg rpo [b] st st' ∧
      Relaxed cfg.graph rpo.posOf (rpo.posOf b + 1) (parentOf st'.idom) := by
  have hReach := (hRpo.mem_order b).1 hMem
  have hPos := hRpo.numbering
  by_cases hEntry : b = cfg.entryBlock
  · subst hEntry
    refine ⟨st, if_pos rfl, ⟨rfl, .inl ⟨rfl, fun x hx hNe => ?_⟩⟩, hRel.skip_entry hPos⟩
    exact absurd (List.mem_singleton.1 hx) hNe
  · have hLt := hWf.reachable_lt hReach
    obtain ⟨new, hRun, hMeetOf⟩ := newIdom_meetOf hWf hRpo hRel.toPartialTree hFuel
      (sourcesOf cfg.edges b)
    have hPred : ∀ p, ProcessedPred cfg.graph (parentOf st.idom) b p ↔
        p ∈ sourcesOf cfg.edges b ∧ ∃ d, parentOf st.idom p = some d := fun p => by
      rw [mem_sourcesOf]
      exact Iff.rfl
    -- an earlier predecessor has its parent, so the visit finds one
    obtain ⟨p, hp, -⟩ := hRel.exists_earlier hPos hReach hEntry
    have hpMem := (hPred p).1 hp
    have hFound : new ≠ cfgInvalid ∧
        IsMeet (parentOf st.idom) (ProcessedPred cfg.graph (parentOf st.idom) b) new := by
      rcases hMeetOf with ⟨-, hNone⟩ | ⟨-, hValid, hMeet⟩
      · obtain ⟨d, hd⟩ := hpMem.2
        rw [hNone p hpMem.1] at hd
        exact nomatch hd
      · refine ⟨hValid, fun a => (hMeet a).trans ⟨fun h q hq => ?_, fun h q hq hProc => ?_⟩⟩
        · exact h q ((hPred q).1 hq).1 ((hPred q).1 hq).2
        · exact h q ((hPred q).2 ⟨hq, hProc⟩)
    obtain ⟨hValid, hMeet⟩ := hFound
    have hRelax := hRel.relax hPos hReach hEntry hMeet
    rw [← parentOf_set (hLength ▸ hLt) hValid] at hRelax
    rw [updateIdom, if_neg hEntry, predsOf_buildPreds hWf hLt, hRun]
    by_cases hSame : st.idom.getD b cfgInvalid = new
    · have hParent : parentOf st.idom b = some new := parentOf_eq_some.2 ⟨hSame, hValid⟩
      have hSet : parentOf (st.idom.set b new) = parentOf st.idom := by
        rw [parentOf_set (hLength ▸ hLt) hValid]
        funext x
        by_cases hEq : x = b
        · rw [hEq, setParent_self, hParent]
        · exact setParent_of_ne hEq
      refine ⟨st, if_neg (fun h => h.2 hSame), ⟨rfl, .inl ⟨rfl, fun x hx _ => ?_⟩⟩, hSet ▸ hRelax⟩
      obtain rfl := List.mem_singleton.1 hx
      exact ⟨new, hParent, hMeet⟩
    · refine ⟨_, if_pos ⟨hValid, hSame⟩, ⟨List.length_set, .inr ⟨rfl, ?_⟩⟩, hRelax⟩
      have hNewReach := hRel.reachable_ancestor (hRel.meet_processed hPos hReach hEntry hMeet) (.refl _)
      refine idomMeasure_set_lt hMem (hLength ▸ hLt) hValid ?_
      unfold idomWeight
      cases hOld : parentOf st.idom b with
      | none => exact hRpo.pos_lt hNewReach
      | some d =>
        have hAnc := hRel.ancestor_meet hEntry hMeet hOld
        have hNe : rpo.posOf new ≠ rpo.posOf d := by
          intro hEq
          have hdReach := hRel.reachable_ancestor (hRel.processed _ _ hOld) (.refl _)
          obtain rfl := hPos.injective _ _ hNewReach hdReach hEq
          exact hSame (parentOf_eq_some.1 hOld).1
        exact Nat.lt_of_le_of_ne (hRel.pos_le hAnc) hNe

/-- One pass. -/
theorem idomPass_spec (hWf : cfg.WellFormed) (hRpo : rpo.Valid cfg)
    (hFuel : 2 * rpo.order.length ≤ fuel) :
    ∀ (rest visited : List Nat) (st : IdomState), visited ++ rest = rpo.order →
      st.idom.length = cfg.blocks.length →
      Relaxed cfg.graph rpo.posOf visited.length (parentOf st.idom) →
      ∃ st', rest.foldlM (updateIdom fuel cfg (buildPreds cfg) rpo) st = .ok st' ∧
        Updated cfg rpo rest st st' ∧
        Relaxed cfg.graph rpo.posOf rpo.order.length (parentOf st'.idom) := by
  intro rest
  induction rest with
  | nil =>
    intro visited st hOrder _ hRel
    refine ⟨st, rfl, .nothing _ _ _, ?_⟩
    rw [← hOrder, List.append_nil]
    exact hRel
  | cons b rest ih =>
    intro visited st hOrder hLength hRel
    have hAt : rpo.posOf b = visited.length := by
      have h := hRpo.pos visited.length (by simp [← hOrder])
      simpa [← hOrder] using h
    have hMem : b ∈ rpo.order := hOrder ▸ List.mem_append_right _ List.mem_cons_self
    obtain ⟨st₁, hRun₁, hUpdated₁, hRel₁⟩ :=
      updateIdom_spec hWf hRpo hFuel hLength hMem (hAt ▸ hRel)
    obtain ⟨st', hRun, hUpdated, hRel'⟩ := ih (visited ++ [b]) st₁ (by simpa using hOrder)
      (hUpdated₁.length_idom.trans hLength) (by simpa [hAt] using hRel₁)
    refine ⟨st', ?_, hUpdated₁.append hUpdated, hRel'⟩
    rw [List.foldlM_cons, hRun₁]
    exact hRun

/-- The passes end with parents that no visit changes. -/
theorem idomPasses_spec (hWf : cfg.WellFormed) (hRpo : rpo.Valid cfg)
    (hFuel : 2 * rpo.order.length ≤ fuel) :
    ∀ (passes : Nat) (idom : List Nat), idom.length = cfg.blocks.length →
      Relaxed cfg.graph rpo.posOf 0 (parentOf idom) → idomMeasure rpo idom < passes →
      ∃ idom', idomPasses fuel cfg (buildPreds cfg) rpo passes idom = .ok idom' ∧
        idom'.length = cfg.blocks.length ∧
        Relaxed cfg.graph rpo.posOf rpo.order.length (parentOf idom') ∧
        IdomsMeet cfg idom' rpo.order := by
  intro passes
  induction passes with
  | zero =>
    intro idom _ _ hMeasure
    exact absurd hMeasure (Nat.not_lt_zero _)
  | succ passes ih =>
    intro idom hLength hRel hMeasure
    obtain ⟨st', hRun, hUpdated, hRel'⟩ := idomPass_spec hWf hRpo hFuel rpo.order []
      { idom := idom, changed := false } rfl hLength hRel
    rw [idomPasses, hRun]
    rcases hUpdated.outcome with ⟨rfl, hMeet⟩ | ⟨hChanged, hLt⟩
    · exact ⟨idom, rfl, hLength, hRel', hMeet⟩
    · have hRestart := hRel'.restart fun v hv => hRpo.pos_lt hv
      obtain ⟨idom', hRun', hRest⟩ := ih st'.idom (hUpdated.length_idom.trans hLength) hRestart
        (by simp only at hLt; omega)
      refine ⟨idom', ?_, hRest⟩
      show (if st'.changed = true then _ else _) = _
      rw [if_pos hChanged]
      exact hRun'

end Update

/-! ## The result -/

section Result

variable {cfg : Cfg} {rpo : Rpo} {idom : List Nat}

/-- Enough for the walk, for each climb and for the passes. -/
def dominanceFuel (blockCount : Nat) : Nat := blockCount * blockCount + 2 * blockCount + 1

theorem parentOf_initial (hWf : cfg.WellFormed) :
    parentOf ((List.replicate cfg.blocks.length cfgInvalid).set cfg.entryBlock cfg.entryBlock) =
      fun v => if v = cfg.graph.entry then some cfg.graph.entry else none := by
  rw [parentOf_set (by simpa using hWf.entry_lt) (hWf.ne_invalid hWf.entry_lt)]
  funext v
  by_cases hEq : v = cfg.entryBlock
  · subst hEq
    exact setParent_self.trans (if_pos rfl).symm
  · rw [setParent_of_ne hEq]
    exact (parentOf_eq_none.2 (List.getD_replicate_self _ _ _)).trans (if_neg hEq).symm

theorem idomMeasure_le (hTree : PartialTree cfg.graph rpo.posOf (parentOf idom))
    (hRpo : rpo.Valid cfg) : idomMeasure rpo idom ≤ rpo.order.length * rpo.order.length := by
  have hWeight : ∀ n ∈ rpo.order.map (idomWeight rpo idom), n ≤ rpo.order.length := by
    intro n hn
    obtain ⟨b, -, rfl⟩ := List.mem_map.1 hn
    unfold idomWeight
    cases hb : parentOf idom b with
    | none => exact Nat.le_refl _
    | some d =>
      have hd := hTree.reachable_ancestor (hTree.processed _ _ hb) (.refl _)
      exact Nat.le_of_lt (hRpo.pos_lt hd)
  have hSum := List.sum_le_card_nsmul _ _ hWeight
  rw [List.length_map] at hSum
  exact hSum

theorem idomOf_withIdoms (hLength : idom.length = cfg.blocks.length) (b : Nat) :
    (cfg.withIdoms idom).idomOf b = idom.getD b cfgInvalid := by
  have hMap : (cfg.withIdoms idom).blocks.map (·.idom) = idom := by
    refine List.ext_getElem (by simp [Cfg.withIdoms, hLength]) fun i hi hi' => ?_
    simp [Cfg.withIdoms, hi']
  rw [Cfg.idomOf, hMap]

/-- Parents that no visit changes are the immediate dominators. -/
theorem hasIdoms_of_meet (hRpo : rpo.Valid cfg) (hLength : idom.length = cfg.blocks.length)
    (hRel : Relaxed cfg.graph rpo.posOf rpo.order.length (parentOf idom))
    (hMeet : IdomsMeet cfg idom rpo.order) : (cfg.withIdoms idom).HasIdoms := by
  have hAll : ∀ v, cfg.graph.Reachable v → ∃ d, parentOf idom v = some d := fun v hv =>
    hRel.before v hv (hRpo.pos_lt hv)
  have hFix : ∀ b d, parentOf idom b = some d → b ≠ cfg.graph.entry →
      IsMeet (parentOf idom) (ProcessedPred cfg.graph (parentOf idom) b) d := by
    intro b d hb hEntry
    obtain ⟨d', hd', hIsMeet⟩ := hMeet b ((hRpo.mem_order b).2 (hRel.reachable _ _ hb)) hEntry
    obtain rfl := Option.some.inj (hb.symm.trans hd')
    exact hIsMeet
  refine ⟨?_, ?_, ?_⟩
  · rw [idomOf_withIdoms hLength]
    exact (parentOf_eq_some.1 hRel.root).1
  · intro b hReach hEntry
    obtain ⟨d, hb⟩ := hAll b hReach
    rw [idomOf_withIdoms hLength, (parentOf_eq_some.1 hb).1]
    exact hRel.isImmediateDominator hAll hFix hb hEntry
  · intro b hReach
    rw [idomOf_withIdoms hLength]
    by_contra hValid
    exact hReach (hRel.reachable b _ (parentOf_eq_some.2 ⟨rfl, hValid⟩))

/-- For every graph the computation ends, without the use of `cfgInvalid` as an index, and
gives every reachable block its immediate dominator. -/
theorem cfgComputeDominance_correct (cfg : Cfg) (hWf : cfg.WellFormed) {fuel : Nat}
    (hFuel : dominanceFuel cfg.blocks.length ≤ fuel) :
    ∃ idom, cfgComputeDominance fuel cfg = .ok (cfg.withIdoms idom) ∧
      (cfg.withIdoms idom).HasIdoms := by
  have hNonempty : cfg.blocks.length ≠ 0 := by
    have := hWf.entry_lt
    omega
  unfold dominanceFuel at hFuel
  obtain ⟨rpo, hRunRpo, hRpo⟩ := buildRpo_valid hWf fuel (by omega)
  have hCount := hRpo.length_le hWf
  have hRel := Relaxed.initial hRpo.numbering
  rw [← parentOf_initial hWf] at hRel
  have hMeasure := idomMeasure_le hRel.toPartialTree hRpo
  have hSquare := Nat.mul_le_mul hCount hCount
  have hEnough : 2 * rpo.order.length ≤ fuel := by omega
  obtain ⟨idom, hRunPasses, hLength, hRelaxed, hMeet⟩ :=
    idomPasses_spec hWf hRpo hEnough fuel _ (by simp) hRel (by omega)
  refine ⟨idom, ?_, hasIdoms_of_meet hRpo hLength hRelaxed hMeet⟩
  simp only [cfgComputeDominance, if_neg hNonempty, hRunRpo]
  show (idomPasses fuel cfg (buildPreds cfg) rpo fuel _ >>= _) = _
  rw [hRunPasses]
  rfl

/-- A block as `cfg_add_block` makes it. -/
def CfgBlock.fresh (startVaddr : BitVec 32) : CfgBlock where
  startVaddr := startVaddr
  endVaddr := 0
  insnCount := 0
  idom := cfgInvalid
  isLoopHeader := false
  isLoopExit := false
  loopDepth := 0
  regionKind := .linear
  ifMerge := cfgInvalid

/-- A loop with two ways in, parallel edges, a self-loop, an edge back into the entry, a return
and an unreachable block. -/
def crossedLoopCfg : Cfg where
  blocks := List.replicate 5 (.fresh 0)
  edges := [(0, 1), (0, 2), (1, 2), (2, 1), (1, 2), (1, 1), (2, 3), (3, 0), (3, cfgInvalid),
    (4, 3)].map fun (src, dst) => { src := src, dst := dst, kind := .condTaken, caseValue := -1 }
  switches := []
  entryBlock := 0
  isIrreducible := false

theorem cfgComputeDominance_crossedLoopCfg :
    ∃ idom, cfgComputeDominance 36 crossedLoopCfg = .ok (crossedLoopCfg.withIdoms idom) ∧
      (crossedLoopCfg.withIdoms idom).HasIdoms :=
  cfgComputeDominance_correct crossedLoopCfg
    { blocks_le := by decide, entry_lt := by decide, src_lt := by decide, dst_lt := by decide }
    (by decide)

example : (cfgComputeDominance 36 crossedLoopCfg).map (fun cfg => cfg.blocks.map (·.idom)) =
    .ok [0, 0, 0, 2, cfgInvalid] := by rfl

end Result

end Calynda.Decompiler
