import Mathlib.Data.Rat.Floor
import Calynda.Physics.Broadphase

/-!
# The pairs that are reported

The pass over the grid reports each pair of neighbouring bodies with room in their cells once, and
the pass over the planes each pair of a plane and another body. Together they report what they
should if no pair is without room and none is met in both passes.
-/

namespace Calynda.Physics

open List

/-- A pair without its order. -/
def unordered (p : Nat × Nat) : Sym2 Nat := s(p.1, p.2)

theorem nodup_unordered {l : List (Nat × Nat)} (h : l.Nodup)
    (hAsymm : ∀ a b, (a, b) ∈ l → (b, a) ∉ l) : (l.map unordered).Nodup := by
  refine h.map_on fun p hP q hQ hEq => ?_
  rcases Sym2.mk_eq_mk_iff.mp hEq with hSame | hSwap
  · exact hSame
  · exact absurd hP (hSwap ▸ hAsymm q.1 q.2 hQ)

theorem mem_unordered {l : List (Nat × Nat)} {i j : Nat} :
    s(i, j) ∈ l.map unordered ↔ (i, j) ∈ l ∨ (j, i) ∈ l := by
  rw [mem_map]
  constructor
  · rintro ⟨⟨a, b⟩, hMem, hEq⟩
    rcases Sym2.eq_iff.mp hEq with ⟨rfl, rfl⟩ | ⟨rfl, rfl⟩
    · exact Or.inl hMem
    · exact Or.inr hMem
  · rintro (hMem | hMem)
    · exact ⟨(i, j), hMem, rfl⟩
    · exact ⟨(j, i), hMem, Sym2.eq_swap⟩

/-- Each pair that `qualifies` is reported once and no other one. -/
structure ReportsOnce (qualifies : Nat → Nat → Bool) (contacts : List (Nat × Nat)) : Prop where
  once : (contacts.map unordered).Nodup
  exact : ∀ i j, s(i, j) ∈ contacts.map unordered ↔ qualifies i j = true

section Pairs

variable {K : Type*} (bodies : Nat → PhysBody K) (count : Nat) (narrow : Nat → Nat → Bool)

/-- Two active bodies that collide, that are not both static, and of which each one's mask has the
layer of the other one. -/
def qualifies (i j : Nat) : Bool :=
  decide (i < count ∧ j < count ∧ i ≠ j) && (bodies i).active && (bodies j).active &&
    narrow i j && !((bodies i).isStatic && (bodies j).isStatic) && layersMeet (bodies i) (bodies j)

/-- The qualifying pairs, each from the first body to the second one. -/
def qualifyingPairs : List (Nat × Nat) :=
  (List.range count).flatMap fun j =>
    ((List.range j).filter fun i => qualifies bodies count narrow i j).map fun i => (i, j)

/-- The pass over the planes has this pair. -/
structure MeetsPlane (b p : Nat) : Prop where
  inRange : b < count ∧ p < count
  active : (bodies b).active = true ∧ (bodies p).active = true
  plane : isPlane (bodies p) = true ∧ isPlane (bodies b) = false
  mask : (bodies p).collisionMask &&& (bodies b).collisionLayer ≠ 0

theorem mem_planePairs {b p : Nat} : (b, p) ∈ planePairs bodies count ↔ MeetsPlane bodies count b p := by
  rw [planePairs, mem_flatMap]
  constructor
  · rintro ⟨q, hQ, hPair⟩
    split_ifs at hPair with hPlane
    · obtain ⟨b', hB, hEq⟩ := mem_map.mp hPair
      obtain ⟨rfl, rfl⟩ := Prod.mk.inj hEq
      simp only [mem_filter, mem_range, Bool.and_eq_true, decide_eq_true_eq,
        Bool.not_eq_true', ne_eq] at hB hPlane
      exact ⟨⟨hB.1, mem_range.mp hQ⟩, ⟨hB.2.1.1.2, hPlane.1⟩, ⟨hPlane.2, hB.2.1.2⟩, hB.2.2⟩
    · exact absurd hPair not_mem_nil
  · rintro ⟨⟨hB, hP⟩, ⟨hActiveB, hActiveP⟩, ⟨hPlane, hOther⟩, hMask⟩
    have hNe : p ≠ b := by
      rintro rfl
      exact absurd hPlane (by simp [hOther])
    refine ⟨p, mem_range.mpr hP, ?_⟩
    rw [if_pos (by simp [hActiveP, hPlane])]
    refine mem_map.mpr ⟨b, mem_filter.mpr ⟨mem_range.mpr hB, ?_⟩, rfl⟩
    simpa [hNe, hActiveB, hOther] using hMask

theorem planePairs_nodup : (planePairs bodies count).Nodup := by
  rw [planePairs, nodup_flatMap]
  refine ⟨fun p _ => ?_, nodup_range.imp fun {p q} hNe => ?_⟩
  · split_ifs
    · exact (nodup_range.filter _).map fun b b' hEq => (Prod.mk.inj hEq).1
    · exact nodup_nil
  · rw [Function.onFun_apply, disjoint_left]
    intro pair hP hQ
    split_ifs at hP hQ
    all_goals try exact absurd hP not_mem_nil
    all_goals try exact absurd hQ not_mem_nil
    obtain ⟨b, -, rfl⟩ := mem_map.mp hP
    obtain ⟨b', -, hEq⟩ := mem_map.mp hQ
    exact hNe (Prod.mk.inj hEq).2.symm

theorem qualifyingPairs_nodup : ((qualifyingPairs bodies count narrow).map unordered).Nodup := by
  have hLess : ∀ i j, (i, j) ∈ qualifyingPairs bodies count narrow → i < j := by
    intro i j hPair
    obtain ⟨j', -, hPair⟩ := mem_flatMap.mp hPair
    obtain ⟨i', hI, hEq⟩ := mem_map.mp hPair
    obtain ⟨rfl, rfl⟩ := Prod.mk.inj hEq
    exact mem_range.mp (mem_filter.mp hI).1
  refine nodup_unordered ?_ fun a b hAB hBA => Nat.lt_asymm (hLess a b hAB) (hLess b a hBA)
  rw [qualifyingPairs, nodup_flatMap]
  refine ⟨fun j _ => (nodup_range.filter _).map fun i i' hEq => (Prod.mk.inj hEq).1,
    nodup_range.imp fun {j j'} hNe => ?_⟩
  rw [Function.onFun_apply, disjoint_left]
  intro pair hJ hJ'
  obtain ⟨i, -, rfl⟩ := mem_map.mp hJ
  obtain ⟨i', -, hEq⟩ := mem_map.mp hJ'
  exact hNe (Prod.mk.inj hEq).2.symm

variable {bodies count narrow}

theorem qualifies_iff {i j : Nat} : qualifies bodies count narrow i j = true ↔
    (i < count ∧ j < count ∧ i ≠ j) ∧ (bodies i).active = true ∧ (bodies j).active = true ∧
      narrow i j = true ∧ ¬((bodies i).isStatic = true ∧ (bodies j).isStatic = true) ∧
      layersMeet (bodies i) (bodies j) = true := by
  simp only [qualifies, Bool.and_eq_true, decide_eq_true_eq, Bool.not_eq_true', Bool.and_eq_false_iff,
    not_and_or, Bool.not_eq_true]
  tauto

theorem qualifies_symm (hSymm : ∀ i j, narrow i j = narrow j i) {i j : Nat}
    (h : qualifies bodies count narrow i j = true) : qualifies bodies count narrow j i = true := by
  obtain ⟨⟨hI, hJ, hNe⟩, hActiveI, hActiveJ, hNarrow, hStatic, hLayers⟩ := qualifies_iff.mp h
  refine qualifies_iff.mpr ⟨⟨hJ, hI, hNe.symm⟩, hActiveJ, hActiveI, hSymm i j ▸ hNarrow,
    fun hBoth => hStatic hBoth.symm, ?_⟩
  simp only [layersMeet, decide_eq_true_eq] at hLayers ⊢
  exact hLayers.symm

/-- What is reported once is as much as what qualifies. -/
theorem ReportsOnce.length_eq (hSymm : ∀ i j, narrow i j = narrow j i) {contacts : List (Nat × Nat)}
    (h : ReportsOnce (qualifies bodies count narrow) contacts) :
    contacts.length = (qualifyingPairs bodies count narrow).length := by
  have hPerm : (contacts.map unordered).Perm
      ((qualifyingPairs bodies count narrow).map unordered) := by
    refine (perm_ext_iff_of_nodup h.once (qualifyingPairs_nodup bodies count narrow)).mpr
      fun pair => ?_
    induction pair using Sym2.ind with
    | _ i j =>
      have hMem : ∀ i j, (i, j) ∈ qualifyingPairs bodies count narrow ↔
          qualifies bodies count narrow i j = true ∧ i < j := by
        intro i j
        simp only [qualifyingPairs, mem_flatMap, mem_map, mem_filter, mem_range,
          Prod.mk.injEq]
        constructor
        · rintro ⟨j', -, i', ⟨hLess, hQ⟩, rfl, rfl⟩
          exact ⟨hQ, hLess⟩
        · rintro ⟨hQ, hLess⟩
          exact ⟨j, (qualifies_iff.mp hQ).1.2.1, i, ⟨hLess, hQ⟩, rfl, rfl⟩
      rw [h.exact, mem_unordered, hMem, hMem]
      constructor
      · intro hQ
        rcases Nat.lt_or_gt_of_ne (qualifies_iff.mp hQ).1.2.2 with hLess | hLess
        · exact Or.inl ⟨hQ, hLess⟩
        · exact Or.inr ⟨qualifies_symm hSymm hQ, hLess⟩
      · rintro (⟨hQ, -⟩ | ⟨hQ, -⟩)
        · exact hQ
        · exact qualifies_symm hSymm hQ
  simpa using hPerm.length_eq

/-- What the pass over the planes reports. -/
theorem mem_planeReports {i j : Nat} :
    s(i, j) ∈ ((planePairs bodies count).filter fun p => narrow p.1 p.2).map unordered ↔
      (MeetsPlane bodies count i j ∧ narrow i j = true) ∨
        (MeetsPlane bodies count j i ∧ narrow j i = true) := by
  rw [mem_unordered, mem_filter, mem_filter, mem_planePairs, mem_planePairs]

theorem planeReports_nodup : (((planePairs bodies count).filter
    fun p => narrow p.1 p.2).map unordered).Nodup := by
  refine nodup_unordered ((planePairs_nodup bodies count).filter _) fun a b hAB hBA => ?_
  have hB := ((mem_planePairs bodies count).mp (mem_filter.mp hAB).1).plane.1
  have hB' := ((mem_planePairs bodies count).mp (mem_filter.mp hBA).1).plane.2
  exact absurd hB (by simp [hB'])

end Pairs

section Grid

variable {K : Type*} [Field K] [LinearOrder K] [FloorRing K] (g : PhysSpatialGrid K)
  (bodies : Nat → PhysBody K) (count : Nat) (narrow : Nat → Nat → Bool)

def cellOf (i : Nat) : Cell := gridCoords g (bodies i).position

/-- Fewer active bodies than a cell has room for come before this one in its cell. -/
def HasRoom (i : Nat) : Prop :=
  ((List.range i).filter fun j =>
    (bodies j).active && decide (cellOf g bodies j = cellOf g bodies i)).length < physGridMaxPerCell

/-- Where the two passes report what they should: two planes or two other bodies are in cells with
room for them (the planes in neighbouring cells), and a plane and another body that the pass over
the planes reports qualify and are not reported by the pass over the grid as well. -/
structure PassesAgree : Prop where
  room : ∀ i j, qualifies bodies count narrow i j = true → isPlane (bodies i) = isPlane (bodies j) →
    HasRoom g bodies i ∧ HasRoom g bodies j ∧
      (isPlane (bodies i) = true → AdjacentCells (cellOf g bodies i) (cellOf g bodies j))
  planes : ∀ b p, MeetsPlane bodies count b p → narrow b p = true →
    qualifies bodies count narrow b p = true ∧
      ¬(HasRoom g bodies b ∧ HasRoom g bodies p ∧
        AdjacentCells (cellOf g bodies b) (cellOf g bodies p))

theorem clampCoord_mem (i : Int) : 0 ≤ clampCoord i ∧ clampCoord i < physGridDim := by
  dsimp only [clampCoord, physGridDim]
  split_ifs <;> omega

theorem mem_gridCells {c : Cell} (h : inGrid c = true) : c ∈ gridCells := by
  obtain ⟨x, y, z⟩ := c
  replace h := of_decide_eq_true h
  have hCoord : ∀ i : Int, 0 ≤ i → i < 32 → i ∈ (List.range 32).map Int.ofNat := by
    intro i hLow hHigh
    exact mem_map.mpr ⟨i.toNat, mem_range.mpr (by omega), by simp [hLow]⟩
  refine mem_flatMap.mpr ⟨x, hCoord x h.1.1 h.1.2, mem_flatMap.mpr ⟨y, hCoord y h.2.1.1
    h.2.1.2, mem_map.mpr ⟨z, hCoord z h.2.2.1 h.2.2.2, rfl⟩⟩⟩

theorem cellOf_inGrid (i : Nat) : inGrid (cellOf g bodies i) = true := by
  exact decide_eq_true ⟨clampCoord_mem _, clampCoord_mem _, clampCoord_mem _⟩

theorem gridBuild_cellsOf : CellsOf bodies (gridBuild g bodies count) (cellOf g bodies) where
  mem c i hMem := by
    rw [gridBuild_eq] at hMem
    have hBoth := (mem_filter.mp (mem_of_mem_take hMem)).2
    exact of_decide_eq_true (Bool.and_eq_true_iff.mp hBoth).2
  sorted c := by
    rw [gridBuild_eq]
    exact (pairwise_lt_range.filter _).take
  active c i hMem := by
    rw [gridBuild_eq] at hMem
    have hBoth := (mem_filter.mp (mem_of_mem_take hMem)).2
    exact (Bool.and_eq_true_iff.mp hBoth).1
  inside i := ⟨mem_gridCells (cellOf_inGrid g bodies i), cellOf_inGrid g bodies i⟩

theorem inserted_iff {i : Nat} (hRange : i < count) (hActive : (bodies i).active = true) :
    Inserted (gridBuild g bodies count) (cellOf g bodies) i ↔ HasRoom g bodies i := by
  obtain ⟨rest, rfl⟩ : ∃ rest, count = i + 1 + rest := ⟨count - (i + 1), by omega⟩
  set p : Nat → Bool := fun j =>
    (bodies j).active && decide (cellOf g bodies j = cellOf g bodies i) with hP
  have hSelf : p i = true := by simp [hP, hActive]
  have hSplit : (List.range (i + 1 + rest)).filter p =
      (List.range i).filter p ++ i :: ((List.range rest).map (i + 1 + ·)).filter p := by
    rw [range_add, range_succ, filter_append, filter_append,
      filter_cons_of_pos hSelf, filter_nil, append_assoc]
    rfl
  rw [Inserted, gridBuild_eq]
  change i ∈ ((List.range (i + 1 + rest)).filter p).take physGridMaxPerCell ↔
    ((List.range i).filter p).length < physGridMaxPerCell
  rw [hSplit, take_append, mem_append]
  have hBefore : i ∉ ((List.range i).filter p).take physGridMaxPerCell := fun hMem =>
    absurd (mem_range.mp (mem_filter.mp (mem_of_mem_take hMem)).1) (Nat.lt_irrefl i)
  constructor
  · rintro (hMem | hMem)
    · exact absurd hMem hBefore
    · by_contra hFull
      rw [Nat.sub_eq_zero_of_le (Nat.not_lt.mp hFull), take_zero] at hMem
      exact absurd hMem not_mem_nil
  · intro hRoom
    obtain ⟨k, hK⟩ := Nat.exists_eq_add_of_lt hRoom
    refine Or.inr ?_
    rw [show physGridMaxPerCell - ((List.range i).filter p).length = k + 1 by omega,
      take_succ_cons]
    exact .head _

variable {g bodies count narrow}

theorem lt_of_inserted {i : Nat} (h : Inserted (gridBuild g bodies count) (cellOf g bodies) i) :
    i < count := by
  rw [Inserted, gridBuild_eq] at h
  exact mem_range.mp (mem_filter.mp (mem_of_mem_take h)).1

/-- What the pass over the grid reports. -/
theorem mem_gridReports (hSymm : ∀ i j, narrow i j = narrow j i) {i j : Nat} :
    s(i, j) ∈ ((gridPairs bodies (gridBuild g bodies count)).filter
        fun p => narrow p.1 p.2).map unordered ↔
      qualifies bodies count narrow i j = true ∧ HasRoom g bodies i ∧ HasRoom g bodies j ∧
        AdjacentCells (cellOf g bodies i) (cellOf g bodies j) := by
  have hCells := gridBuild_cellsOf g bodies count
  -- a pair in its order
  have hPair : ∀ i j, (i, j) ∈ (gridPairs bodies (gridBuild g bodies count)).filter
      (fun p => narrow p.1 p.2) ↔ qualifies bodies count narrow i j = true ∧ HasRoom g bodies i ∧
        HasRoom g bodies j ∧ Ahead (cellOf g bodies) i j := by
    intro i j
    rw [mem_filter, mem_gridPairs hCells, qualifies_iff]
    constructor
    · rintro ⟨⟨hI, hJ, hAhead, hPasses⟩, hNarrow⟩
      have hActiveI := hCells.active _ i hI
      have hActiveJ := hCells.active _ j hJ
      have hNe := ((ahead_total _).mp (Or.inl hAhead)).1
      simp only [passesFilters, Bool.and_eq_true, Bool.not_eq_true', Bool.and_eq_false_iff] at hPasses
      refine ⟨⟨⟨lt_of_inserted hI, lt_of_inserted hJ, hNe⟩, hActiveI, hActiveJ, hNarrow, ?_,
        hPasses.2⟩, ?_, ?_, hAhead⟩
      · rintro ⟨hStaticI, hStaticJ⟩
        simp [hStaticI, hStaticJ] at hPasses
      · exact (inserted_iff g bodies count (lt_of_inserted hI) hActiveI).mp hI
      · exact (inserted_iff g bodies count (lt_of_inserted hJ) hActiveJ).mp hJ
    · rintro ⟨⟨⟨hI, hJ, -⟩, hActiveI, hActiveJ, hNarrow, hStatic, hLayers⟩, hRoomI, hRoomJ, hAhead⟩
      refine ⟨⟨(inserted_iff g bodies count hI hActiveI).mpr hRoomI,
        (inserted_iff g bodies count hJ hActiveJ).mpr hRoomJ, hAhead, ?_⟩, hNarrow⟩
      simp only [passesFilters, hActiveJ, hLayers, Bool.and_true, Bool.true_and,
        Bool.not_eq_true', Bool.and_eq_false_iff]
      exact (not_and_or.mp hStatic).imp Bool.eq_false_of_not_eq_true Bool.eq_false_of_not_eq_true
  rw [mem_unordered, hPair, hPair]
  constructor
  · rintro (⟨hQ, hRoomI, hRoomJ, hAhead⟩ | ⟨hQ, hRoomJ, hRoomI, hAhead⟩)
    · exact ⟨hQ, hRoomI, hRoomJ, ((ahead_total _).mp (Or.inl hAhead)).2⟩
    · exact ⟨qualifies_symm hSymm hQ, hRoomI, hRoomJ, ((ahead_total _).mp (Or.inr hAhead)).2⟩
  · rintro ⟨hQ, hRoomI, hRoomJ, hNear⟩
    rcases (ahead_total _).mpr ⟨(qualifies_iff.mp hQ).1.2.2, hNear⟩ with hAhead | hAhead
    · exact Or.inl ⟨hQ, hRoomI, hRoomJ, hAhead⟩
    · exact Or.inr ⟨qualifies_symm hSymm hQ, hRoomJ, hRoomI, hAhead⟩

/-- All that is reported as long as there is room for it. -/
def reports (g : PhysSpatialGrid K) (bodies : Nat → PhysBody K) (count : Nat)
    (narrow : Nat → Nat → Bool) : List (Nat × Nat) :=
  (gridPairs bodies (gridBuild g bodies count) ++ planePairs bodies count).filter
    fun p => narrow p.1 p.2

theorem detectCollisions_eq :
    detectCollisions g bodies count narrow = (reports g bodies count narrow).take physMaxContacts := by
  rw [detectCollisions, recordContacts_eq _ _ _ (Nat.zero_le _), nil_append]
  rfl

theorem gridReports_nodup : (((gridPairs bodies (gridBuild g bodies count)).filter
    fun p => narrow p.1 p.2).map unordered).Nodup := by
  have hCells := gridBuild_cellsOf g bodies count
  refine nodup_unordered ((gridPairs_nodup hCells).filter _) fun a b hAB hBA => ?_
  have hAhead := ((mem_gridPairs hCells).mp (mem_filter.mp hAB).1).2.2.1
  exact ahead_asymm _ hAhead ((mem_gridPairs hCells).mp (mem_filter.mp hBA).1).2.2.1

/-- The reports are the right ones if and only if the two passes agree. -/
theorem reportsOnce_iff (hSymm : ∀ i j, narrow i j = narrow j i)
    (hNear : ∀ i j, narrow i j = true → AdjacentCells (cellOf g bodies i) (cellOf g bodies j) ∨
      isPlane (bodies i) = true ∨ isPlane (bodies j) = true) :
    ReportsOnce (qualifies bodies count narrow) (reports g bodies count narrow) ↔
      PassesAgree g bodies count narrow := by
  have hMem : ∀ i j, s(i, j) ∈ (reports g bodies count narrow).map unordered ↔
      (qualifies bodies count narrow i j = true ∧ HasRoom g bodies i ∧ HasRoom g bodies j ∧
        AdjacentCells (cellOf g bodies i) (cellOf g bodies j)) ∨
      (MeetsPlane bodies count i j ∧ narrow i j = true) ∨
        (MeetsPlane bodies count j i ∧ narrow j i = true) := by
    intro i j
    rw [reports, filter_append, map_append, mem_append, mem_gridReports hSymm,
      mem_planeReports]
  have hOnce : ((reports g bodies count narrow).map unordered).Nodup ↔
      ∀ i j, MeetsPlane bodies count i j → narrow i j = true →
        ¬(qualifies bodies count narrow i j = true ∧ HasRoom g bodies i ∧ HasRoom g bodies j ∧
          AdjacentCells (cellOf g bodies i) (cellOf g bodies j)) := by
    rw [reports, filter_append, map_append, nodup_append]
    constructor
    · rintro ⟨-, -, hApart⟩ i j hPlane hNarrow hGrid
      exact hApart _ ((mem_gridReports hSymm).mpr hGrid) _
        (mem_planeReports.mpr (Or.inl ⟨hPlane, hNarrow⟩)) rfl
    · refine fun hApart => ⟨gridReports_nodup, planeReports_nodup, fun pair hGrid pair' hPlane => ?_⟩
      rintro rfl
      induction pair using Sym2.ind with
      | _ i j =>
        have hMeets := (mem_gridReports hSymm).mp hGrid
        rcases mem_planeReports.mp hPlane with ⟨hIJ, hNarrow⟩ | ⟨hJI, hNarrow⟩
        · exact hApart i j hIJ hNarrow hMeets
        · rw [Sym2.eq_swap] at hGrid
          exact hApart j i hJI hNarrow ((mem_gridReports hSymm).mp hGrid)
  constructor
  · intro hReports
    refine ⟨fun i j hQ hKind => ?_, fun b p hPlane hNarrow => ?_⟩
    · rcases (hMem i j).mp ((hReports.exact i j).mpr hQ) with ⟨-, hRoomI, hRoomJ, hAdjacent⟩ |
        ⟨hPlane, -⟩ | ⟨hPlane, -⟩
      · exact ⟨hRoomI, hRoomJ, fun _ => hAdjacent⟩
      · exact absurd (hKind.symm.trans hPlane.plane.2) (by simp [hPlane.plane.1])
      · exact absurd (hKind.trans hPlane.plane.2) (by simp [hPlane.plane.1])
    · have hQ := (hReports.exact b p).mp ((hMem b p).mpr (Or.inr (Or.inl ⟨hPlane, hNarrow⟩)))
      exact ⟨hQ, fun hGrid => hOnce.mp hReports.once b p hPlane hNarrow ⟨hQ, hGrid⟩⟩
  · intro hAgree
    refine ⟨hOnce.mpr fun i j hPlane hNarrow hGrid =>
      (hAgree.planes i j hPlane hNarrow).2 hGrid.2, fun i j => ?_⟩
    rw [hMem]
    constructor
    · rintro (⟨hQ, -⟩ | ⟨hPlane, hNarrow⟩ | ⟨hPlane, hNarrow⟩)
      · exact hQ
      · exact (hAgree.planes i j hPlane hNarrow).1
      · exact qualifies_symm hSymm (hAgree.planes j i hPlane hNarrow).1
    · intro hQ
      obtain ⟨⟨hI, hJ, hNe⟩, hActiveI, hActiveJ, hNarrow, hStatic, hLayers⟩ := qualifies_iff.mp hQ
      obtain ⟨hMaskI, hMaskJ⟩ := of_decide_eq_true hLayers
      cases hPlaneI : isPlane (bodies i) <;> cases hPlaneJ : isPlane (bodies j)
      · -- neither one is a plane
        obtain ⟨hRoomI, hRoomJ, -⟩ := hAgree.room i j hQ (hPlaneI.trans hPlaneJ.symm)
        have hAdjacent := (hNear i j hNarrow).resolve_right (by simp [hPlaneI, hPlaneJ])
        exact Or.inl ⟨hQ, hRoomI, hRoomJ, hAdjacent⟩
      · exact Or.inr (Or.inl ⟨⟨⟨hI, hJ⟩, ⟨hActiveI, hActiveJ⟩, ⟨hPlaneJ, hPlaneI⟩, hMaskJ⟩, hNarrow⟩)
      · exact Or.inr (Or.inr ⟨⟨⟨hJ, hI⟩, ⟨hActiveJ, hActiveI⟩, ⟨hPlaneI, hPlaneJ⟩, hMaskI⟩,
          hSymm i j ▸ hNarrow⟩)
      · obtain ⟨hRoomI, hRoomJ, hAdjacent⟩ := hAgree.room i j hQ (hPlaneI.trans hPlaneJ.symm)
        exact Or.inl ⟨hQ, hRoomI, hRoomJ, hAdjacent hPlaneI⟩

/-- With room for another contact than the qualifying ones nothing has been dropped. -/
theorem reportsOnce_of_detect (hSymm : ∀ i j, narrow i j = narrow j i)
    (hLess : (qualifyingPairs bodies count narrow).length < physMaxContacts)
    (h : ReportsOnce (qualifies bodies count narrow) (detectCollisions g bodies count narrow)) :
    ReportsOnce (qualifies bodies count narrow) (reports g bodies count narrow) := by
  have hLength := h.length_eq hSymm
  rw [detectCollisions_eq] at h hLength
  rw [length_take] at hLength
  rw [take_of_length_le (by omega)] at h
  exact h

/-- Where the passes agree each qualifying pair is reported once and no other one. With room for
another contact than the qualifying ones it is reported so only where they agree. -/
theorem detectCollisions_once (hSymm : ∀ i j, narrow i j = narrow j i)
    (hNear : ∀ i j, narrow i j = true → AdjacentCells (cellOf g bodies i) (cellOf g bodies j) ∨
      isPlane (bodies i) = true ∨ isPlane (bodies j) = true)
    (hFew : (qualifyingPairs bodies count narrow).length ≤ physMaxContacts) :
    (PassesAgree g bodies count narrow →
      ReportsOnce (qualifies bodies count narrow) (detectCollisions g bodies count narrow)) ∧
    ((qualifyingPairs bodies count narrow).length < physMaxContacts →
      ReportsOnce (qualifies bodies count narrow) (detectCollisions g bodies count narrow) →
      PassesAgree g bodies count narrow) := by
  rw [← reportsOnce_iff hSymm hNear]
  constructor
  · intro hReports
    rw [detectCollisions_eq, take_of_length_le (hReports.length_eq hSymm ▸ hFew)]
    exact hReports
  · exact reportsOnce_of_detect hSymm

omit [Field K] [LinearOrder K] [FloorRing K] in
theorem adjacentCells_refl (c : Cell) : AdjacentCells c c := by
  refine ⟨⟨?_, ?_⟩, ⟨?_, ?_⟩, ⟨?_, ?_⟩⟩ <;> omega

theorem hasRoom_of_lt {i : Nat} (h : i < physGridMaxPerCell) : HasRoom g bodies i :=
  lt_of_le_of_lt ((length_filter_le _ _).trans_eq length_range) h

end Grid

/-- The grid that `phys_world_init` makes. -/
def initialGrid : PhysSpatialGrid ℚ := ⟨4, ⟨-64, -64, -64⟩⟩

/-- Three balls in a row, of which the last one is in the next cell. -/
def rowOfBalls : Nat → PhysBody ℚ
  | 0 => createdBody 0 cmVec3Zero 1 (.sphere 2)
  | 1 => createdBody 1 ⟨3, 0, 0⟩ 1 (.sphere 2)
  | i + 2 => createdBody (i + 2) ⟨6, 0, 0⟩ 1 (.sphere 2)

def nextInRow (i j : Nat) : Bool := i + 1 == j || j + 1 == i

theorem cellOf_rowOfBalls : ∀ i, cellOf initialGrid rowOfBalls i = (16, 16, 16) ∨
    cellOf initialGrid rowOfBalls i = (17, 16, 16)
  | 0 => Or.inl (by decide +kernel)
  | 1 => Or.inl (by decide +kernel)
  | _ + 2 => by
    have hCell : gridCoords initialGrid ⟨6, 0, 0⟩ = (17, 16, 16) := by decide +kernel
    exact Or.inr hCell

theorem detectCollisions_once_balls :
    ReportsOnce (qualifies rowOfBalls 3 nextInRow)
      (detectCollisions initialGrid rowOfBalls 3 nextInRow) := by
  have hFew : (qualifyingPairs rowOfBalls 3 nextInRow).length ≤ physMaxContacts := by
    decide +kernel
  have hSymm : ∀ i j, nextInRow i j = nextInRow j i := fun i j => Bool.or_comm _ _
  have hRoom : ∀ i < 3, HasRoom initialGrid rowOfBalls i := fun i hi =>
    hasRoom_of_lt (hi.trans (by decide))
  have hCells : ∀ i j, AdjacentCells (cellOf initialGrid rowOfBalls i)
      (cellOf initialGrid rowOfBalls j) := by
    intro i j
    rcases cellOf_rowOfBalls i with hI | hI <;> rcases cellOf_rowOfBalls j with hJ | hJ <;>
      rw [hI, hJ] <;> exact ⟨by decide, by decide, by decide⟩
  have hNoPlane : ∀ i, isPlane (rowOfBalls i) = false
    | 0 => rfl
    | 1 => rfl
    | _ + 2 => rfl
  have hAgree : PassesAgree initialGrid rowOfBalls 3 nextInRow := by
    refine ⟨fun i j hQ _ => ?_, fun b p hPlane _ => ?_⟩
    · obtain ⟨hI, hJ, -⟩ := (qualifies_iff.mp hQ).1
      exact ⟨hRoom i hI, hRoom j hJ, fun _ => hCells i j⟩
    · exact nomatch (hNoPlane p).symm.trans hPlane.plane.1
  exact (detectCollisions_once hSymm (fun i j _ => Or.inl (hCells i j)) hFew).1 hAgree

/-- A ball on a plane. -/
def ballOnPlane : Nat → PhysBody ℚ
  | 0 => createdBody 0 cmVec3Zero 0 (.plane ⟨0, 1, 0⟩ 0)
  | i + 1 => createdBody (i + 1) cmVec3Zero 1 (.sphere 1)

/-- The two passes report the ball and the plane. -/
theorem detectCollisions_twice :
    ¬ReportsOnce (qualifies ballOnPlane 2 fun i j => i + j == 1)
      (detectCollisions initialGrid ballOnPlane 2 fun i j => i + j == 1) := by
  intro hDetect
  have hSymm : ∀ i j : Nat, (i + j == 1) = (j + i == 1) := fun i j => by rw [Nat.add_comm]
  have hNear : ∀ i j : Nat, (i + j == 1) = true →
      AdjacentCells (cellOf initialGrid ballOnPlane i) (cellOf initialGrid ballOnPlane j) ∨
        isPlane (ballOnPlane i) = true ∨ isPlane (ballOnPlane j) = true := by
    intro i j hSum
    have hZero : i = 0 ∨ j = 0 := by
      have hOne := eq_of_beq hSum
      omega
    rcases hZero with rfl | rfl
    · exact Or.inr (Or.inl rfl)
    · exact Or.inr (Or.inr rfl)
  have hLess : (qualifyingPairs ballOnPlane 2 fun i j => i + j == 1).length < physMaxContacts := by
    decide +kernel
  have hReports := reportsOnce_of_detect hSymm hLess hDetect
  have hMeets : MeetsPlane ballOnPlane 2 1 0 :=
    ⟨by decide, ⟨rfl, rfl⟩, ⟨rfl, rfl⟩, by decide +kernel⟩
  refine (((reportsOnce_iff hSymm hNear).mp hReports).planes 1 0 hMeets rfl).2
    ⟨hasRoom_of_lt (by decide), hasRoom_of_lt (by decide), adjacentCells_refl _⟩

end Calynda.Physics
