import Calynda.Physics.World
import Mathlib.Algebra.Order.Floor.Ring
import Mathlib.Data.Sym.Sym2

/-!
# The broad phase

Active bodies go into the cells of a grid, and a cell has room for so many only. Bodies of one cell
are tested against each other and against those of half of the cells around, so that two cells meet
once. The planes are tested against all other bodies in a pass of their own.
-/

namespace Calynda.Physics

/-- `PHYS_GRID_DIM`. -/
def physGridDim : Int := 32

/-- `PHYS_GRID_MAX_PER_CELL`. -/
def physGridMaxPerCell : Nat := 16

/-- `PHYS_MAX_CONTACTS`. -/
def physMaxContacts : Nat := 512

abbrev Cell := Int × Int × Int

/-- The side of a cell, and the corner that the grid starts at. -/
structure PhysSpatialGrid (K : Type*) where
  cellSize : K
  origin : CmVec3 K

section Grid

variable {K : Type*} [Field K] [LinearOrder K] [FloorRing K]

/-- The conversion of a number to an integer. -/
def truncate (q : K) : Int := if 0 ≤ q then ⌊q⌋ else ⌈q⌉

def clampCoord (i : Int) : Int :=
  let i := if i < 0 then 0 else i
  if i ≥ physGridDim then physGridDim - 1 else i

def gridCoords (g : PhysSpatialGrid K) (pos : CmVec3 K) : Cell :=
  (clampCoord (truncate ((pos.x - g.origin.x) / g.cellSize)),
    clampCoord (truncate ((pos.y - g.origin.y) / g.cellSize)),
    clampCoord (truncate ((pos.z - g.origin.z) / g.cellSize)))

def gridInsert (g : PhysSpatialGrid K) (cells : Cell → List Nat) (bodyIndex : Nat)
    (pos : CmVec3 K) : Cell → List Nat :=
  let cell := gridCoords g pos
  if (cells cell).length < physGridMaxPerCell then
    Function.update cells cell (cells cell ++ [bodyIndex])
  else cells

/-- The bodies in the cells, after the first `count` ones. -/
def gridBuild (g : PhysSpatialGrid K) (bodies : Nat → PhysBody K) : Nat → Cell → List Nat
  | 0 => fun _ => []
  | i + 1 =>
    let cells := gridBuild g bodies i
    if (bodies i).active then gridInsert g cells i (bodies i).position else cells

end Grid

section Pairs

variable {K : Type*} (bodies : Nat → PhysBody K)

/-- `dx`, `dy` and `dz` to the cells of which the other half of the cells around are left out. -/
def offsets : List Cell :=
  [0, 1].flatMap fun dx => [-1, 0, 1].flatMap fun dy =>
    ([-1, 0, 1].filter fun dz =>
      ¬(dx = 0 ∧ dy = 0 ∧ dz = 0) ∧ ¬(dx = 0 ∧ (dy < 0 ∨ dy = 0 ∧ dz ≤ 0))).map fun dz =>
        (dx, dy, dz)

def inGrid (c : Cell) : Bool :=
  (0 ≤ c.1 ∧ c.1 < physGridDim) ∧ (0 ≤ c.2.1 ∧ c.2.1 < physGridDim) ∧
    (0 ≤ c.2.2 ∧ c.2.2 < physGridDim)

def gridCells : List Cell :=
  let coords := (List.range 32).map Int.ofNat
  coords.flatMap fun x => coords.flatMap fun y => coords.map fun z => (x, y, z)

/-- The filter by layers. -/
def layersMeet (a b : PhysBody K) : Bool :=
  a.collisionMask &&& b.collisionLayer ≠ 0 ∧ b.collisionMask &&& a.collisionLayer ≠ 0

/-- Whether a pair goes on to the narrow phase. -/
def passesFilters (a b : PhysBody K) : Bool :=
  b.active && !(a.isStatic && b.isStatic) && layersMeet a b

def neighbours (cells : Cell → List Nat) (c : Cell) : List Nat :=
  offsets.flatMap fun d =>
    let n := (c.1 + d.1, c.2.1 + d.2.1, c.2.2 + d.2.2)
    if inGrid n then cells n else []

/-- The pairs of the bodies of a cell with those that come after them and with those around. -/
def cellPairs (around : List Nat) : List Nat → List (Nat × Nat)
  | [] => []
  | a :: rest =>
    (if (bodies a).active then
      ((rest ++ around).filter fun b => passesFilters (bodies a) (bodies b)).map fun b => (a, b)
    else []) ++ cellPairs around rest

def gridPairs (cells : Cell → List Nat) : List (Nat × Nat) :=
  gridCells.flatMap fun c => cellPairs bodies (neighbours cells c) (cells c)

def isPlane (b : PhysBody K) : Bool :=
  match b.collider with
  | .plane _ _ => true
  | _ => false

/-- The pairs of the pass over the planes, each with its plane last. -/
def planePairs (count : Nat) : List (Nat × Nat) :=
  (List.range count).flatMap fun p =>
    if (bodies p).active && isPlane (bodies p) then
      ((List.range count).filter fun b =>
        p ≠ b && (bodies b).active && !isPlane (bodies b) &&
          decide ((bodies p).collisionMask &&& (bodies b).collisionLayer ≠ 0)).map fun b => (b, p)
    else []

end Pairs

/-- A pair that collides is recorded. Where there is no room for another one, the pass ends. -/
def recordContacts (narrow : Nat → Nat → Bool) :
    List (Nat × Nat) → List (Nat × Nat) → List (Nat × Nat)
  | [], contacts => contacts
  | (a, b) :: pairs, contacts =>
    if contacts.length ≥ physMaxContacts then contacts
    else if narrow a b then recordContacts narrow pairs (contacts ++ [(a, b)])
    else recordContacts narrow pairs contacts

section Detect

variable {K : Type*} [Field K] [LinearOrder K] [FloorRing K] (g : PhysSpatialGrid K)
  (bodies : Nat → PhysBody K) (count : Nat) (narrow : Nat → Nat → Bool)

/-- The pairs of bodies with a contact, where the narrow phase is left open. -/
def detectCollisions : List (Nat × Nat) :=
  let cells := gridBuild g bodies count
  recordContacts narrow (gridPairs bodies cells ++ planePairs bodies count) []

end Detect

/-! ## The passes as lists -/

theorem recordContacts_eq (narrow : Nat → Nat → Bool) (pairs contacts : List (Nat × Nat))
    (h : contacts.length ≤ physMaxContacts) : recordContacts narrow pairs contacts =
      (contacts ++ pairs.filter fun p => narrow p.1 p.2).take physMaxContacts := by
  induction pairs generalizing contacts with
  | nil => simp [recordContacts, List.take_of_length_le h]
  | cons p pairs ih =>
    obtain ⟨a, b⟩ := p
    rw [recordContacts]
    by_cases hFull : contacts.length ≥ physMaxContacts
    · have hLength : contacts.length = physMaxContacts := le_antisymm h hFull
      rw [if_pos hFull, List.take_append, hLength, Nat.sub_self, List.take_zero, List.append_nil,
        List.take_of_length_le h]
    · rw [if_neg hFull]
      by_cases hNarrow : narrow a b
      · rw [if_pos hNarrow, ih]
        · simp [hNarrow]
        · rw [List.length_append, List.length_singleton]
          exact Nat.lt_of_not_le hFull
      · rw [if_neg hNarrow, ih contacts h]
        simp [hNarrow]

section Grid

variable {K : Type*} [Field K] [LinearOrder K] [FloorRing K] (g : PhysSpatialGrid K)
  (bodies : Nat → PhysBody K)

/-- A cell holds the first active bodies that lie in it. -/
theorem gridBuild_eq (count : Nat) (c : Cell) : gridBuild g bodies count c =
    ((List.range count).filter fun i =>
      (bodies i).active && decide (gridCoords g (bodies i).position = c)).take
        physGridMaxPerCell := by
  induction count with
  | zero => rfl
  | succ i ih =>
    set before := (List.range i).filter fun i =>
      (bodies i).active && decide (gridCoords g (bodies i).position = c) with hBefore
    rw [List.range_succ, List.filter_append, gridBuild, ← hBefore]
    by_cases hActive : (bodies i).active
    · rw [if_pos hActive, gridInsert]
      by_cases hCell : gridCoords g (bodies i).position = c
      · have hOne : ([i].filter fun i =>
            (bodies i).active && decide (gridCoords g (bodies i).position = c)) = [i] := by
          simp [hActive, hCell]
        rw [hOne, hCell, ih]
        split_ifs with hRoom
        · have hFew : before.length < physGridMaxPerCell := by
            rw [List.length_take] at hRoom
            omega
          rw [Function.update_self, List.take_of_length_le hFew.le, List.take_of_length_le]
          rw [List.length_append, List.length_singleton]
          exact hFew
        · have hMany : physGridMaxPerCell ≤ before.length := by
            rw [List.length_take] at hRoom
            omega
          rw [ih, List.take_append_of_le_length hMany]
      · have hNone : ([i].filter fun i =>
            (bodies i).active && decide (gridCoords g (bodies i).position = c)) = [] := by
          simp [hCell]
        rw [hNone, List.append_nil, ← ih]
        split_ifs
        · exact Function.update_of_ne (Ne.symm hCell) _ _
        · rfl
    · rw [if_neg hActive, ih]
      simp [hActive]

end Grid

/-! ## The cells around -/

/-- Two cells are equal or next to each other. -/
def AdjacentCells (c d : Cell) : Prop :=
  (d.1 - c.1 ≤ 1 ∧ c.1 - d.1 ≤ 1) ∧ (d.2.1 - c.2.1 ≤ 1 ∧ c.2.1 - d.2.1 ≤ 1) ∧
    (d.2.2 - c.2.2 ≤ 1 ∧ c.2.2 - d.2.2 ≤ 1)

theorem mem_offsets (d : Cell) : d ∈ offsets ↔
    (0 ≤ d.1 ∧ d.1 ≤ 1) ∧ (-1 ≤ d.2.1 ∧ d.2.1 ≤ 1) ∧ (-1 ≤ d.2.2 ∧ d.2.2 ≤ 1) ∧
      ¬(d.1 = 0 ∧ (d.2.1 < 0 ∨ d.2.1 = 0 ∧ d.2.2 ≤ 0)) := by
  obtain ⟨x, y, z⟩ := d
  have hOne : ∀ i : Int, i ∈ [0, 1] ↔ 0 ≤ i ∧ i ≤ 1 := by
    intro i
    simp only [List.mem_cons, List.not_mem_nil, or_false]
    omega
  have hThree : ∀ i : Int, i ∈ [-1, 0, 1] ↔ -1 ≤ i ∧ i ≤ 1 := by
    intro i
    simp only [List.mem_cons, List.not_mem_nil, or_false]
    omega
  simp only [offsets, List.mem_flatMap, List.mem_map, List.mem_filter, hOne, hThree,
    Prod.mk.injEq, decide_eq_true_eq]
  constructor
  · rintro ⟨dx, hx, dy, hy, dz, ⟨hz, hNot⟩, rfl, rfl, rfl⟩
    omega
  · rintro ⟨hx, hy, hz, hNot⟩
    exact ⟨x, hx, y, hy, z, ⟨hz, by omega⟩, rfl, rfl, rfl⟩

theorem offsets_nodup : offsets.Nodup := by
  decide

section Pairs

variable {K : Type*} (bodies : Nat → PhysBody K) (cells : Cell → List Nat) (coords : Nat → Cell)

/-- The cells hold bodies that lie in them, from the first to the last. -/
structure CellsOf : Prop where
  mem : ∀ c, ∀ i ∈ cells c, coords i = c
  sorted : ∀ c, (cells c).Pairwise (· < ·)
  active : ∀ c, ∀ i ∈ cells c, (bodies i).active = true
  inside : ∀ i, coords i ∈ gridCells ∧ inGrid (coords i) = true

/-- A body that found room in its cell. -/
def Inserted (i : Nat) : Prop := i ∈ cells (coords i)

/-- The first one of two bodies of neighbouring cells to be tested. -/
def Ahead (a b : Nat) : Prop :=
  coords a = coords b ∧ a < b ∨ coords b - coords a ∈ offsets

theorem ahead_asymm {a b : Nat} (h : Ahead coords a b) : ¬Ahead coords b a := by
  simp only [Ahead, mem_offsets, Prod.ext_iff, Prod.fst_sub, Prod.snd_sub] at h ⊢
  omega

theorem ahead_total {a b : Nat} :
    (Ahead coords a b ∨ Ahead coords b a) ↔ a ≠ b ∧ AdjacentCells (coords a) (coords b) := by
  simp only [Ahead, AdjacentCells, mem_offsets, Prod.ext_iff, Prod.fst_sub, Prod.snd_sub]
  constructor
  · rintro ((h | h) | (h | h)) <;> refine ⟨?_, by omega⟩
    · omega
    · rintro rfl
      omega
    · omega
    · rintro rfl
      omega
  · rintro ⟨hNe, hNear⟩
    omega

variable {bodies cells coords} (hCells : CellsOf bodies cells coords)

include hCells

theorem mem_neighbours {c : Cell} {b : Nat} :
    b ∈ neighbours cells c ↔ Inserted cells coords b ∧ coords b - c ∈ offsets := by
  rw [neighbours, List.mem_flatMap]
  constructor
  · rintro ⟨d, hD, hIn⟩
    dsimp only at hIn
    split_ifs at hIn with hInside
    · have hCoords := hCells.mem _ b hIn
      have hDiff : coords b - c = d := by
        rw [hCoords]
        ext <;> simp
      exact ⟨by rw [Inserted, hCoords]; exact hIn, hDiff ▸ hD⟩
    · exact absurd hIn List.not_mem_nil
  · rintro ⟨hIn, hD⟩
    have hSum : (c.1 + (coords b - c).1, c.2.1 + (coords b - c).2.1, c.2.2 + (coords b - c).2.2) =
        coords b := by
      ext <;> simp
    refine ⟨_, hD, ?_⟩
    dsimp only
    rw [hSum, if_pos (hCells.inside b).2]
    exact hIn

theorem neighbours_nodup (c : Cell) : (neighbours cells c).Nodup := by
  rw [neighbours, List.nodup_flatMap]
  refine ⟨fun d _ => ?_, offsets_nodup.imp fun {d e} hNe => ?_⟩
  · dsimp only
    split_ifs
    · exact (hCells.sorted _).imp Nat.ne_of_lt
    · exact List.nodup_nil
  · rw [Function.onFun_apply, List.disjoint_left]
    intro b hD hE
    dsimp only at hD hE
    split_ifs at hD hE
    all_goals try exact absurd hD List.not_mem_nil
    all_goals try exact absurd hE List.not_mem_nil
    have hEq := (hCells.mem _ b hD).symm.trans (hCells.mem _ b hE)
    simp only [Prod.mk.injEq, add_right_inj] at hEq
    exact hNe (Prod.ext hEq.1 (Prod.ext hEq.2.1 hEq.2.2))

omit hCells in
theorem mem_cellPairs {around l : List Nat} (hSorted : l.Pairwise (· < ·)) {a b : Nat} :
    (a, b) ∈ cellPairs bodies around l ↔ a ∈ l ∧ (bodies a).active = true ∧
      passesFilters (bodies a) (bodies b) = true ∧ (b ∈ l ∧ a < b ∨ b ∈ around) := by
  induction l with
  | nil => simp [cellPairs]
  | cons c rest ih =>
    obtain ⟨hFirst, hRest⟩ := List.pairwise_cons.mp hSorted
    have hMine : (a, b) ∈ (if (bodies c).active then
        ((rest ++ around).filter fun b => passesFilters (bodies c) (bodies b)).map fun b => (c, b)
        else []) ↔ c = a ∧ (bodies a).active = true ∧
          passesFilters (bodies a) (bodies b) = true ∧ (b ∈ rest ∨ b ∈ around) := by
      split_ifs with hActive
      · simp only [List.mem_map, List.mem_filter, List.mem_append, Prod.mk.injEq]
        constructor
        · rintro ⟨b', ⟨hIn, hPasses⟩, rfl, rfl⟩
          exact ⟨rfl, hActive, hPasses, hIn⟩
        · rintro ⟨rfl, -, hPasses, hIn⟩
          exact ⟨b, ⟨hIn, hPasses⟩, rfl, rfl⟩
      · simp only [List.not_mem_nil, false_iff]
        rintro ⟨rfl, hA, -⟩
        exact hActive hA
    rw [cellPairs, List.mem_append, hMine, ih hRest]
    constructor
    · rintro (⟨rfl, hA, hPasses, hIn⟩ | ⟨hMem, hA, hPasses, hIn⟩)
      · exact ⟨.head _, hA, hPasses, hIn.imp_left fun hB => ⟨.tail _ hB, hFirst b hB⟩⟩
      · exact ⟨.tail _ hMem, hA, hPasses, hIn.imp_left fun hB => ⟨.tail _ hB.1, hB.2⟩⟩
    · rintro ⟨hMem, hA, hPasses, hIn⟩
      rcases List.mem_cons.mp hMem with rfl | hLater
      · refine Or.inl ⟨rfl, hA, hPasses, hIn.imp_left fun hB => ?_⟩
        rcases List.mem_cons.mp hB.1 with rfl | hB'
        · exact absurd hB.2 (Nat.lt_irrefl _)
        · exact hB'
      · refine Or.inr ⟨hLater, hA, hPasses, hIn.imp_left fun hB => ⟨?_, hB.2⟩⟩
        rcases List.mem_cons.mp hB.1 with rfl | hB'
        · exact absurd (hFirst a hLater) (Nat.lt_asymm hB.2)
        · exact hB'

omit hCells in
theorem cellPairs_nodup {around l : List Nat} (hSorted : l.Pairwise (· < ·))
    (hAround : around.Nodup) (hApart : ∀ b ∈ around, b ∉ l) :
    (cellPairs bodies around l).Nodup := by
  induction l with
  | nil => exact List.nodup_nil
  | cons c rest ih =>
    obtain ⟨hFirst, hRest⟩ := List.pairwise_cons.mp hSorted
    have hApart' : ∀ b ∈ around, b ∉ rest := fun b hB hMem => hApart b hB (.tail _ hMem)
    have hTargets : (rest ++ around).Nodup :=
      List.nodup_append.mpr ⟨hRest.imp Nat.ne_of_lt, hAround, fun x hX y hY hEq =>
        hApart' y hY (hEq ▸ hX)⟩
    rw [cellPairs]
    refine List.nodup_append.mpr ⟨?_, ih hRest hApart', ?_⟩
    · split_ifs
      · exact (hTargets.filter _).map fun x y hEq => (Prod.mk.inj hEq).2
      · exact List.nodup_nil
    · rintro ⟨a, b⟩ hMine ⟨a', b'⟩ hOther hEq
      obtain ⟨rfl, rfl⟩ := Prod.mk.inj hEq
      have hA : a = c := by
        split_ifs at hMine
        · obtain ⟨b', -, hPair⟩ := List.mem_map.mp hMine
          exact (Prod.mk.inj hPair).1.symm
        · exact absurd hMine List.not_mem_nil
      exact absurd (hFirst a ((mem_cellPairs hRest).mp hOther).1) (hA ▸ Nat.lt_irrefl _)

theorem mem_gridPairs {a b : Nat} : (a, b) ∈ gridPairs bodies cells ↔
    Inserted cells coords a ∧ Inserted cells coords b ∧ Ahead coords a b ∧
      passesFilters (bodies a) (bodies b) = true := by
  rw [gridPairs, List.mem_flatMap]
  constructor
  · rintro ⟨c, -, hPair⟩
    obtain ⟨hA, -, hPasses, hB⟩ := (mem_cellPairs (hCells.sorted c)).mp hPair
    obtain rfl := hCells.mem c a hA
    rcases hB with ⟨hB, hLess⟩ | hB
    · have hEq := hCells.mem _ b hB
      exact ⟨hA, by rw [Inserted, hEq]; exact hB, Or.inl ⟨hEq.symm, hLess⟩, hPasses⟩
    · obtain ⟨hIn, hD⟩ := (mem_neighbours hCells).mp hB
      exact ⟨hA, hIn, Or.inr hD, hPasses⟩
  · rintro ⟨hA, hB, hAhead, hPasses⟩
    refine ⟨coords a, (hCells.inside a).1, (mem_cellPairs (hCells.sorted _)).mpr
      ⟨hA, hCells.active _ a hA, hPasses, ?_⟩⟩
    rcases hAhead with ⟨hEq, hLess⟩ | hD
    · exact Or.inl ⟨by rw [hEq]; exact hB, hLess⟩
    · exact Or.inr ((mem_neighbours hCells).mpr ⟨hB, hD⟩)

omit hCells in
theorem gridCells_nodup : gridCells.Nodup := by
  have hCoords : ((List.range 32).map Int.ofNat).Nodup :=
    List.nodup_range.map fun i j hEq => Int.ofNat.inj hEq
  rw [gridCells, List.nodup_flatMap]
  refine ⟨fun x _ => ?_, hCoords.imp fun {x x'} hNe => ?_⟩
  · rw [List.nodup_flatMap]
    refine ⟨fun y _ => ?_, hCoords.imp fun {y y'} hNe => ?_⟩
    · exact hCoords.map fun z z' hEq => (Prod.mk.inj (Prod.mk.inj hEq).2).2
    · rw [Function.onFun_apply, List.disjoint_left]
      intro c hC hC'
      obtain ⟨z, -, rfl⟩ := List.mem_map.mp hC
      obtain ⟨z', -, hEq⟩ := List.mem_map.mp hC'
      exact hNe (Prod.mk.inj (Prod.mk.inj hEq).2).1.symm
  · rw [Function.onFun_apply, List.disjoint_left]
    intro c hC hC'
    obtain ⟨y, -, hC⟩ := List.mem_flatMap.mp hC
    obtain ⟨y', -, hC'⟩ := List.mem_flatMap.mp hC'
    obtain ⟨z, -, rfl⟩ := List.mem_map.mp hC
    obtain ⟨z', -, hEq⟩ := List.mem_map.mp hC'
    exact hNe (Prod.mk.inj hEq).1.symm

theorem gridPairs_nodup : (gridPairs bodies cells).Nodup := by
  rw [gridPairs, List.nodup_flatMap]
  refine ⟨fun c _ => ?_, gridCells_nodup.imp fun {c d} hNe => ?_⟩
  · refine cellPairs_nodup (hCells.sorted c) (neighbours_nodup hCells c) fun b hB hMem => ?_
    obtain ⟨-, hD⟩ := (mem_neighbours hCells).mp hB
    rw [hCells.mem c b hMem, sub_self, mem_offsets] at hD
    simp at hD
  · rw [Function.onFun_apply, List.disjoint_left]
    rintro ⟨a, b⟩ hC hD
    have hA := ((mem_cellPairs (hCells.sorted c)).mp hC).1
    have hA' := ((mem_cellPairs (hCells.sorted d)).mp hD).1
    exact hNe ((hCells.mem c a hA).symm.trans (hCells.mem d a hA'))

end Pairs

end Calynda.Physics
