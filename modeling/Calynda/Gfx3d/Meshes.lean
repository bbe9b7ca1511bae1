import Calynda.Gfx3d.Scene
import Calynda.Lib.Blocks
import Mathlib.Tactic.IntervalCases

/-!
# Generated meshes

A sphere and a plane are grids: their vertices stand row by row, and each cell of the grid is cut
into two triangles. The triangles name their vertices by numbers of sixteen bits.
-/

namespace Calynda.Gfx3d

open Calynda.Lib

variable {K : Type*} [Field K] [LinearOrder K]

/-- What the language leaves undefined. -/
inductive MemoryFault where
  | overflow
  | outOfBounds
  deriving DecidableEq

def intMax : Nat := 2 ^ 31 - 1

/-- A sum or a product of type `int` that is not negative. -/
def checkInt (n : Nat) : Except MemoryFault Nat :=
  if n ≤ intMax then .ok n else .error .overflow

/-- How many elements fit where `malloc` has been asked for `count` of them, by a `size_t` of 32
bits. -/
def mallocRoom (size count : Nat) : Nat := size * count % 2 ^ 32 / size

structure Gfx3dVertex (K : Type*) where
  pos : CmVec3 K
  nrm : CmVec3 K
  uv : K × K
  color : BitVec 8 × BitVec 8 × BitVec 8 × BitVec 8

/-- `sizeof(Gfx3dVertex)`. -/
def sizeofVertex : Nat := 36

/-- A mesh with its buffers. -/
structure IndexedMesh (K : Type*) [CommRing K] [LinearOrder K] where
  vertexCount : Nat
  vertices : List (Gfx3dVertex K)
  indexCount : Nat
  indices : List (BitVec 16)
  bounds : CmAABB K

/-- `gfx3d_mesh_create`, where `malloc` tells which of its calls succeed, from the `call`-th on. -/
def indexedMeshCreate (malloc : Nat → Bool) (call : Nat) (verts : List (Gfx3dVertex K))
    (vertCount : Nat) (indices : List (BitVec 16)) (idxCount : Nat) : Option (IndexedMesh K) :=
  if malloc call ∧ malloc (call + 1) ∧ malloc (call + 2) then
    some
      { vertexCount := vertCount
        vertices := verts.take (mallocRoom sizeofVertex vertCount)
        indexCount := idxCount
        indices := indices.take (mallocRoom 2 idxCount)
        bounds := computeBounds (verts.map (·.pos)) }
  else none

/-- The numbers in the two triangles of a cell with the vertex `a` at its start, in rows of `cols`
vertices. -/
def cellNumbers (cols a : Nat) : List Nat :=
  let b := a + cols
  [a, b, a + 1, a + 1, b, b + 1]

def gridVertices (vertexAt : Nat → Nat → Gfx3dVertex K) (nx ny : Nat) : List (Gfx3dVertex K) :=
  blocks (ny + 1) fun j => blocks (nx + 1) fun i => [vertexAt j i]

/-- The numbers are stored in sixteen bits. -/
def gridIndices (nx ny : Nat) : List (BitVec 16) :=
  blocks ny fun j => blocks nx fun i =>
    (cellNumbers (nx + 1) (j * (nx + 1) + i)).map (BitVec.ofNat 16)

/-- The numbers of vertices and of indices, computed in `int`. -/
def gridCounts (nx ny : Nat) : Except MemoryFault (Nat × Nat) := do
  let cols ← checkInt (nx + 1)
  let rows ← checkInt (ny + 1)
  let vertCount ← checkInt (cols * rows)
  let cells ← checkInt (nx * ny)
  let idxCount ← checkInt (cells * 6)
  .ok (vertCount, idxCount)

/-- The generator of a grid of `nx` by `ny` cells with its vertices, which may give `NULL`. -/
def gridMesh (malloc : Nat → Bool) (vertexAt : Nat → Nat → Gfx3dVertex K) (nx ny : Nat) :
    Except MemoryFault (Option (IndexedMesh K)) :=
  match gridCounts nx ny with
  | .error f => .error f
  | .ok (vertCount, idxCount) =>
    let verts := gridVertices vertexAt nx ny
    let indices := gridIndices nx ny
    if malloc 0 = false ∨ malloc 1 = false then .ok none
    -- the loops write as many elements, whatever the buffers have room for
    else if mallocRoom sizeofVertex vertCount < verts.length ∨
        mallocRoom 2 idxCount < indices.length then .error .outOfBounds
    else .ok (indexedMeshCreate malloc 2 verts vertCount indices idxCount)

/-- `CM_PI`. -/
def cmPi : K := 314159265358979323846 / 10 ^ 20

def white : BitVec 8 × BitVec 8 × BitVec 8 × BitVec 8 := (255, 255, 255, 255)

/-- The vertex in row `j` and column `i` of a sphere. -/
def sphereVertex (sin cos : K → K) (radius : K) (slices nStacks j i : Nat) : Gfx3dVertex K :=
  let phi : K := cmPi * j / nStacks
  let theta : K := 2 * cmPi * i / slices
  let n : CmVec3 K := ⟨sin phi * cos theta, cos phi, sin phi * sin theta⟩
  { pos := ⟨n.x * radius, n.y * radius, n.z * radius⟩
    nrm := n
    uv := (i / slices, j / nStacks)
    color := white }

/-- The vertex in row `z` and column `x` of a plane. -/
def planeVertex (width depth : K) (subdivX subdivZ z x : Nat) : Gfx3dVertex K :=
  { pos := ⟨-width * (1 / 2) + width * x / subdivX, 0, -depth * (1 / 2) + depth * z / subdivZ⟩
    nrm := ⟨0, 1, 0⟩
    uv := (x / subdivX, z / subdivZ)
    color := white }

def gfx3dMeshCreateSphere (sin cos : K → K) (malloc : Nat → Bool) (radius : K)
    (slices nStacks : Nat) : Except MemoryFault (Option (IndexedMesh K)) :=
  gridMesh malloc (sphereVertex sin cos radius slices nStacks) slices nStacks

def gfx3dMeshCreatePlane (malloc : Nat → Bool) (width depth : K) (subdivX subdivZ : Nat) :
    Except MemoryFault (Option (IndexedMesh K)) :=
  gridMesh malloc (planeVertex width depth subdivX subdivZ) subdivX subdivZ

/-! ## Triangulated grids -/

/-- A vertex of a grid, by its column and its row. -/
abbrev GridPoint := Nat × Nat

/-- The vertex with a number, in rows of `nx + 1` vertices. -/
def gridPoint (nx v : Nat) : GridPoint := (v % (nx + 1), v / (nx + 1))

/-- Twice the area of a triangle, with the sign of the way it is gone round. -/
def winding (p q r : GridPoint) : ℤ :=
  ((q.1 : ℤ) - p.1) * ((r.2 : ℤ) - p.2) - ((q.2 : ℤ) - p.2) * ((r.1 : ℤ) - p.1)

/-- The number that stands at a place of the index buffer. -/
def IndexedMesh.indexAt (m : IndexedMesh K) (place : Nat) : Nat := (m.indices.getD place 0).toNat

/-- The corners of the `t`-th triangle, in their order. -/
def IndexedMesh.triangle (nx : Nat) (m : IndexedMesh K) (t : Nat) : List GridPoint :=
  [gridPoint nx (m.indexAt (3 * t)), gridPoint nx (m.indexAt (3 * t + 1)),
    gridPoint nx (m.indexAt (3 * t + 2))]

/-- Two triangles cut a cell along the diagonal that does not start at its vertex `(i, j)`. -/
structure CutsCell (i j : Nat) (t₁ t₂ : List GridPoint) : Prop where
  first : t₁.Perm [(i, j), (i, j + 1), (i + 1, j)]
  second : t₂.Perm [(i, j + 1), (i + 1, j), (i + 1, j + 1)]

/-- The buffers of a triangulated grid. -/
structure GridValid (vertexAt : Nat → Nat → Gfx3dVertex K) (nx ny : Nat) (m : IndexedMesh K) :
    Prop where
  vertexCount : m.vertexCount = (nx + 1) * (ny + 1)
  vertices : m.vertices.length = m.vertexCount
  indexCount : m.indexCount = 6 * nx * ny
  indices : m.indices.length = m.indexCount
  below : ∀ index ∈ m.indices, index.toNat < m.vertexCount
  -- what a number stands for is what the generator has computed for that vertex of the grid
  computed : ∀ place < m.indexCount,
    m.vertices[m.indexAt place]? =
      some (vertexAt (gridPoint nx (m.indexAt place)).2 (gridPoint nx (m.indexAt place)).1)
  cells : ∀ j < ny, ∀ i < nx,
    CutsCell i j (m.triangle nx (2 * (j * nx + i))) (m.triangle nx (2 * (j * nx + i) + 1))
  winding : ∀ t < 2 * nx * ny, ∀ p q r, m.triangle nx t = [p, q, r] → winding p q r = -1

/-- Whatever `malloc` does, a generator gives `NULL` or a triangulated grid. -/
def GridSound (create : (Nat → Bool) → Except MemoryFault (Option (IndexedMesh K)))
    (vertexAt : Nat → Nat → Gfx3dVertex K) (nx ny : Nat) : Prop :=
  ∀ malloc, create malloc ≠ .ok none →
    ∃ m, create malloc = .ok (some m) ∧ GridValid vertexAt nx ny m

/-! ## What the loops write -/

variable {malloc : Nat → Bool} {vertexAt : Nat → Nat → Gfx3dVertex K} {nx ny i j k : Nat}

omit [Field K] [LinearOrder K] in
theorem length_gridVertices : (gridVertices vertexAt nx ny).length = (ny + 1) * (nx + 1) := by
  rw [gridVertices, length_blocks_blocks fun _ _ _ _ => List.length_singleton, Nat.mul_one]

variable (vertexAt) in
omit [Field K] [LinearOrder K] in
theorem getElem?_gridVertices (hj : j ≤ ny) (hi : i ≤ nx) :
    (gridVertices vertexAt nx ny)[j * (nx + 1) + i]? = some (vertexAt j i) := by
  have hAt := getElem?_blocks_blocks (f := fun j i => [vertexAt j i])
    (fun _ _ _ _ => List.length_singleton) (Nat.lt_succ_of_le hj) (Nat.lt_succ_of_le hi) Nat.zero_lt_one
  rw [Nat.mul_one, Nat.add_zero] at hAt
  exact hAt

theorem length_gridIndices : (gridIndices nx ny).length = ny * nx * 6 :=
  length_blocks_blocks fun _ _ _ _ => rfl

theorem getElem?_gridIndices (hj : j < ny) (hi : i < nx) (hk : k < 6) :
    (gridIndices nx ny)[(j * nx + i) * 6 + k]? =
      ((cellNumbers (nx + 1) (j * (nx + 1) + i)).map (BitVec.ofNat 16))[k]? :=
  getElem?_blocks_blocks (f := fun j i =>
    (cellNumbers (nx + 1) (j * (nx + 1) + i)).map (BitVec.ofNat 16))
    (fun _ _ _ _ => rfl) hj hi hk

theorem gridPoint_number (hi : i ≤ nx) : gridPoint nx (j * (nx + 1) + i) = (i, j) := by
  have hLess : i < nx + 1 := Nat.lt_succ_of_le hi
  rw [gridPoint, Nat.mul_comm, Nat.mul_add_mod, Nat.mod_eq_of_lt hLess,
    Nat.mul_add_div (Nat.succ_pos nx), Nat.div_eq_of_lt hLess, Nat.add_zero]

/-- The points of the numbers of a cell. -/
theorem gridPoint_cellNumbers (hi : i < nx) :
    (cellNumbers (nx + 1) (j * (nx + 1) + i)).map (gridPoint nx) =
      [(i, j), (i, j + 1), (i + 1, j), (i + 1, j), (i, j + 1), (i + 1, j + 1)] := by
  have hBelow : j * (nx + 1) + i + (nx + 1) = (j + 1) * (nx + 1) + i := by
    rw [Nat.succ_mul, Nat.add_right_comm]
  have hStart : gridPoint nx (j * (nx + 1) + i) = (i, j) := gridPoint_number hi.le
  have hNext : gridPoint nx (j * (nx + 1) + (i + 1)) = (i + 1, j) := gridPoint_number hi
  have hDown : gridPoint nx ((j + 1) * (nx + 1) + i) = (i, j + 1) := gridPoint_number hi.le
  have hAcross : gridPoint nx ((j + 1) * (nx + 1) + (i + 1)) = (i + 1, j + 1) :=
    gridPoint_number hi
  rw [← Nat.add_assoc] at hNext hAcross
  simp only [cellNumbers, hBelow, List.map_cons, List.map_nil, hStart, hNext, hDown, hAcross]

theorem cellNumbers_lt (hj : j < ny) (hi : i < nx) :
    ∀ v ∈ cellNumbers (nx + 1) (j * (nx + 1) + i), v < (nx + 1) * (ny + 1) := by
  have hRows : (j + 2) * (nx + 1) ≤ (ny + 1) * (nx + 1) :=
    Nat.mul_le_mul_right _ (Nat.succ_le_succ hj)
  rw [Nat.add_mul, Nat.mul_comm (ny + 1)] at hRows
  intro v hv
  simp only [cellNumbers, List.mem_cons, List.not_mem_nil, or_false] at hv
  omega

/-! ## Grids that sixteen bits can number -/

/-- Every vertex has a number of sixteen bits. -/
def Numbered (nx ny : Nat) : Prop := (nx + 1) * (ny + 1) ≤ 2 ^ 16

theorem Numbered.cells_le (h : Numbered nx ny) : nx * ny ≤ 2 ^ 16 :=
  (Nat.mul_le_mul (Nat.le_succ nx) (Nat.le_succ ny)).trans h

theorem gridCounts_of_numbered (h : Numbered nx ny) :
    gridCounts nx ny = .ok ((nx + 1) * (ny + 1), nx * ny * 6) := by
  have hCols : nx + 1 ≤ (nx + 1) * (ny + 1) := Nat.le_mul_of_pos_right _ (Nat.succ_pos ny)
  have hRows : ny + 1 ≤ (nx + 1) * (ny + 1) := Nat.le_mul_of_pos_left _ (Nat.succ_pos nx)
  have hCells := h.cells_le
  have hVerts : (nx + 1) * (ny + 1) ≤ 2 ^ 16 := h
  have hCheck : ∀ n ≤ 6 * 2 ^ 16, checkInt n = .ok n := fun n hn =>
    if_pos (hn.trans (by decide))
  simp only [gridCounts, hCheck (nx + 1) (by omega), hCheck (ny + 1) (by omega),
    hCheck _ (show (nx + 1) * (ny + 1) ≤ 6 * 2 ^ 16 by omega),
    hCheck _ (show nx * ny ≤ 6 * 2 ^ 16 by omega),
    hCheck _ (show nx * ny * 6 ≤ 6 * 2 ^ 16 by omega), bind, Except.bind]

theorem mallocRoom_of_lt {size count : Nat} (hSize : 0 < size) (h : size * count < 2 ^ 32) :
    mallocRoom size count = count := by
  rw [mallocRoom, Nat.mod_eq_of_lt h, Nat.mul_div_cancel_left _ hSize]

/-- The buffers of the grid. -/
def filledMesh (vertexAt : Nat → Nat → Gfx3dVertex K) (nx ny : Nat) : IndexedMesh K where
  vertexCount := (nx + 1) * (ny + 1)
  vertices := gridVertices vertexAt nx ny
  indexCount := nx * ny * 6
  indices := gridIndices nx ny
  bounds := computeBounds ((gridVertices vertexAt nx ny).map (·.pos))

theorem gridMesh_of_numbered (malloc : Nat → Bool) (h : Numbered nx ny) :
    gridMesh malloc vertexAt nx ny = .ok none ∨
      gridMesh malloc vertexAt nx ny = .ok (some (filledMesh vertexAt nx ny)) := by
  have hVerts : mallocRoom sizeofVertex ((nx + 1) * (ny + 1)) = (nx + 1) * (ny + 1) := by
    apply mallocRoom_of_lt
    · decide
    · have hFits : (nx + 1) * (ny + 1) ≤ 2 ^ 16 := h
      rw [sizeofVertex]
      omega
  have hIndices : mallocRoom 2 (nx * ny * 6) = nx * ny * 6 := by
    apply mallocRoom_of_lt
    · decide
    · have hFits := h.cells_le
      omega
  have hVertsLength : (gridVertices vertexAt nx ny).length = (nx + 1) * (ny + 1) := by
    rw [length_gridVertices, Nat.mul_comm]
  have hIndicesLength : (gridIndices nx ny).length = nx * ny * 6 := by
    rw [length_gridIndices, Nat.mul_comm ny]
  unfold gridMesh
  rw [gridCounts_of_numbered h]
  dsimp only
  rw [hVerts, hIndices, hVertsLength, hIndicesLength]
  split_ifs with hDenied hRoom
  · exact Or.inl rfl
  · exact absurd hRoom (by simp)
  · unfold indexedMeshCreate
    split_ifs with hGranted
    · right
      rw [hVerts, hIndices, List.take_of_length_le hVertsLength.le,
        List.take_of_length_le hIndicesLength.le]
      rfl
    · exact Or.inl rfl

variable (vertexAt) in
/-- The number that a grid stores for a corner of a cell. -/
theorem filledMesh_indexAt (h : Numbered nx ny) (hj : j < ny) (hi : i < nx) (hk : k < 6) :
    (cellNumbers (nx + 1) (j * (nx + 1) + i))[k]? =
      some ((filledMesh vertexAt nx ny).indexAt ((j * nx + i) * 6 + k)) := by
  have hLength : k < (cellNumbers (nx + 1) (j * (nx + 1) + i)).length := hk
  have hAt := getElem?_gridIndices hj hi hk
  rw [List.getElem?_map, List.getElem?_eq_getElem hLength] at hAt
  have hSmall : (cellNumbers (nx + 1) (j * (nx + 1) + i))[k] < 2 ^ 16 :=
    (cellNumbers_lt hj hi _ (List.getElem_mem hLength)).trans_le h
  have hIndex : (filledMesh vertexAt nx ny).indexAt ((j * nx + i) * 6 + k) =
      (cellNumbers (nx + 1) (j * (nx + 1) + i))[k] := by
    rw [IndexedMesh.indexAt, List.getD_eq_getElem?_getD, filledMesh, hAt, Option.map_some,
      Option.getD_some, BitVec.toNat_ofNat, Nat.mod_eq_of_lt hSmall]
  rw [List.getElem?_eq_getElem hLength, hIndex]

variable (vertexAt) in
/-- The two triangles of a cell. -/
theorem filledMesh_triangles (h : Numbered nx ny) (hj : j < ny) (hi : i < nx) :
    (filledMesh vertexAt nx ny).triangle nx (2 * (j * nx + i)) =
        [(i, j), (i, j + 1), (i + 1, j)] ∧
      (filledMesh vertexAt nx ny).triangle nx (2 * (j * nx + i) + 1) =
        [(i + 1, j), (i, j + 1), (i + 1, j + 1)] := by
  have hAt : ∀ k < 6, [(i, j), (i, j + 1), (i + 1, j), (i + 1, j), (i, j + 1), (i + 1, j + 1)][k]? =
      some (gridPoint nx ((filledMesh vertexAt nx ny).indexAt ((j * nx + i) * 6 + k))) := by
    intro k hk
    rw [← gridPoint_cellNumbers hi, List.getElem?_map, filledMesh_indexAt vertexAt h hj hi hk,
      Option.map_some]
  have hFirst : 3 * (2 * (j * nx + i)) = (j * nx + i) * 6 := by omega
  have hSecond : 3 * (2 * (j * nx + i) + 1) = (j * nx + i) * 6 + 3 := by omega
  simp only [IndexedMesh.triangle, hFirst, hSecond]
  have h0 := Option.some.inj (hAt 0 (by decide))
  have h1 := Option.some.inj (hAt 1 (by decide))
  have h2 := Option.some.inj (hAt 2 (by decide))
  have h3 := Option.some.inj (hAt 3 (by decide))
  have h4 := Option.some.inj (hAt 4 (by decide))
  have h5 := Option.some.inj (hAt 5 (by decide))
  simp only [Nat.add_zero] at h0
  simp only [Nat.add_assoc, Nat.reduceAdd]
  rw [← h0, ← h1, ← h2, ← h3, ← h4, ← h5]
  exact ⟨rfl, rfl⟩

theorem winding_upper : winding (i, j) (i, j + 1) (i + 1, j) = -1 := by
  simp [winding]

theorem winding_lower : winding (i + 1, j) (i, j + 1) (i + 1, j + 1) = -1 := by
  simp [winding]

theorem filledMesh_indexCount : (filledMesh vertexAt nx ny).indexCount = 6 * nx * ny := by
  have hCount : nx * ny * 6 = 6 * nx * ny := by rw [Nat.mul_comm, Nat.mul_assoc]
  exact hCount

theorem filledMesh_valid (h : Numbered nx ny) :
    GridValid vertexAt nx ny (filledMesh vertexAt nx ny) where
  vertexCount := rfl
  vertices := by
    rw [filledMesh, length_gridVertices, Nat.mul_comm]
  indexCount := filledMesh_indexCount
  indices := by
    rw [filledMesh, length_gridIndices, Nat.mul_comm ny]
  below := by
    intro index hIndex
    obtain ⟨j, hj, hRow⟩ := mem_blocks.mp hIndex
    obtain ⟨i, hi, hCell⟩ := mem_blocks.mp hRow
    obtain ⟨v, hv, rfl⟩ := List.mem_map.mp hCell
    have hBelow := cellNumbers_lt hj hi v hv
    rw [BitVec.toNat_ofNat, Nat.mod_eq_of_lt (hBelow.trans_le h)]
    exact hBelow
  computed := by
    intro place hPlace
    rw [filledMesh_indexCount, Nat.mul_comm, Nat.mul_comm 6, ← Nat.mul_assoc] at hPlace
    obtain ⟨j, hj, i, hi, k, hk, rfl⟩ := exists_block hPlace
    have hNumber := filledMesh_indexAt vertexAt h hj hi hk
    have hMem := List.mem_of_getElem? hNumber
    have hPoint := List.mem_map_of_mem (f := gridPoint nx) hMem
    rw [gridPoint_cellNumbers hi] at hPoint
    generalize (filledMesh vertexAt nx ny).indexAt ((j * nx + i) * 6 + k) = v at hPoint ⊢
    have hSplit : v / (nx + 1) * (nx + 1) + v % (nx + 1) = v := Nat.div_add_mod' v (nx + 1)
    have hInside : v / (nx + 1) ≤ ny ∧ v % (nx + 1) ≤ nx := by
      simp only [gridPoint, List.mem_cons, Prod.mk.injEq, List.not_mem_nil, or_false] at hPoint
      omega
    have hVertex := getElem?_gridVertices vertexAt hInside.1 hInside.2
    rw [hSplit] at hVertex
    exact hVertex
  cells := by
    intro j hj i hi
    obtain ⟨hFirst, hSecond⟩ := filledMesh_triangles vertexAt h hj hi
    refine ⟨?_, ?_⟩
    · rw [hFirst]
    · rw [hSecond]
      exact List.Perm.swap _ _ _
  winding := by
    intro t ht p q r hTriangle
    rw [Nat.mul_comm, Nat.mul_comm 2, ← Nat.mul_assoc] at ht
    obtain ⟨j, hj, i, hi, k, hk, rfl⟩ := exists_block ht
    obtain ⟨hFirst, hSecond⟩ := filledMesh_triangles vertexAt h hj hi
    rw [Nat.mul_comm] at hTriangle
    interval_cases k
    · rw [Nat.add_zero, hFirst] at hTriangle
      cases hTriangle
      exact winding_upper
    · rw [hSecond] at hTriangle
      cases hTriangle
      exact winding_lower

/-! ## When generated meshes are valid -/

theorem gridMesh_ne_null (h : ∀ call, malloc call = true) :
    gridMesh malloc vertexAt nx ny ≠ .ok none := by
  unfold gridMesh
  cases gridCounts nx ny with
  | error f => exact fun hEq => by cases hEq
  | ok counts =>
    dsimp only
    rw [if_neg (by simp [h])]
    split_ifs
    · exact fun hEq => by cases hEq
    · rw [indexedMeshCreate, if_pos ⟨h _, h _, h _⟩]
      exact fun hEq => by cases hEq

/-- The last corner of the last cell is the last vertex. -/
theorem GridValid.numbered {m : IndexedMesh K} (h : GridValid vertexAt nx ny m) (hx : 1 ≤ nx)
    (hy : 1 ≤ ny) : Numbered nx ny := by
  obtain ⟨x, rfl⟩ := Nat.exists_eq_add_of_le' hx
  obtain ⟨y, rfl⟩ := Nat.exists_eq_add_of_le' hy
  have hCell := (h.cells y (Nat.lt_succ_self y) x (Nat.lt_succ_self x)).second
  have hCorner : (x + 1, y + 1) ∈ m.triangle (x + 1) (2 * (y * (x + 1) + x) + 1) :=
    hCell.mem_iff.mpr (by simp)
  have hLast : ∃ place, gridPoint (x + 1) (m.indexAt place) = (x + 1, y + 1) := by
    simp only [IndexedMesh.triangle, List.mem_cons, List.not_mem_nil, or_false] at hCorner
    rcases hCorner with hEq | hEq | hEq
    · exact ⟨_, hEq.symm⟩
    · exact ⟨_, hEq.symm⟩
    · exact ⟨_, hEq.symm⟩
  obtain ⟨place, hPoint⟩ := hLast
  obtain ⟨hColumn, hRow⟩ := Prod.mk.inj hPoint
  have hSmall : m.indexAt place < 2 ^ 16 := BitVec.isLt _
  have hSplit := Nat.div_add_mod' (m.indexAt place) (x + 1 + 1)
  rw [hColumn, hRow] at hSplit
  have hCount : (x + 1 + 1) * (y + 1 + 1) = (y + 1) * (x + 1 + 1) + (x + 1) + 1 := by
    rw [Nat.mul_comm, Nat.succ_mul, Nat.add_assoc, Nat.add_assoc]
  rw [Numbered, hCount, hSplit]
  exact hSmall

theorem gridSound_iff (hx : 1 ≤ nx) (hy : 1 ≤ ny) :
    GridSound (fun malloc => gridMesh malloc vertexAt nx ny) vertexAt nx ny ↔ Numbered nx ny := by
  constructor
  · intro hSound
    obtain ⟨m, -, hValid⟩ := hSound (fun _ => true) (gridMesh_ne_null fun _ => rfl)
    exact hValid.numbered hx hy
  · intro hNumbered malloc hNotNull
    have hMesh := (gridMesh_of_numbered malloc hNumbered).resolve_left hNotNull
    exact ⟨_, hMesh, filledMesh_valid hNumbered⟩

/-- The generators of spheres and of planes give triangulated grids exactly if sixteen bits number
all vertices. -/
theorem generated_meshes_valid_iff (sin cos : K → K) (radius width depth : K) (hx : 1 ≤ nx)
    (hy : 1 ≤ ny) :
    (GridSound (fun malloc => gfx3dMeshCreateSphere sin cos malloc radius nx ny)
        (sphereVertex sin cos radius nx ny) nx ny ↔ (nx + 1) * (ny + 1) ≤ 65536) ∧
      (GridSound (fun malloc => gfx3dMeshCreatePlane malloc width depth nx ny)
        (planeVertex width depth nx ny) nx ny ↔ (nx + 1) * (ny + 1) ≤ 65536) :=
  ⟨gridSound_iff hx hy, gridSound_iff hx hy⟩

theorem generated_meshes_valid_small :
    GridSound (fun malloc => gfx3dMeshCreateSphere id id malloc (2 : ℚ) 24 16)
        (sphereVertex id id 2 24 16) 24 16 ∧
      GridSound (fun malloc => gfx3dMeshCreatePlane malloc (10 : ℚ) 10 24 16)
        (planeVertex 10 10 24 16) 24 16 := by
  obtain ⟨hSphere, hPlane⟩ :=
    generated_meshes_valid_iff id id (2 : ℚ) 10 10 (show 1 ≤ 24 by decide) (show 1 ≤ 16 by decide)
  exact ⟨hSphere.mpr (by decide), hPlane.mpr (by decide)⟩

/-- A sphere of 256 slices and 255 stacks has more vertices than there are numbers. -/
theorem sphere_wraps :
    ¬∀ nx ny, 1 ≤ nx → 1 ≤ ny →
      GridSound (fun malloc => gfx3dMeshCreateSphere id id malloc (2 : ℚ) nx ny)
        (sphereVertex id id 2 nx ny) nx ny := by
  intro hAll
  have hNumbered : (256 + 1) * (255 + 1) ≤ 2 ^ 16 :=
    (gridSound_iff (by decide) (by decide)).mp (hAll 256 255 (by decide) (by decide))
  exact absurd hNumbered (by decide)

end Calynda.Gfx3d
