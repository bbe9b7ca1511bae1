import Calynda.Gfx3d.Meshes

/-!
# Textures

The pixels of a texture are rearranged into tiles of four by four texels. A tile holds the alpha
and red bytes of its texels first and their green and blue bytes after them.
-/

namespace Calynda.Gfx3d

open Calynda.Lib

abbrev Byte := BitVec 8

/-- How many tiles a loop starts that counts to `n` in steps of four. -/
def tileCount (n : Nat) : Nat := (n + 3) / 4

/-- The places of the four bytes of a texel, in the order of the source. -/
inductive Channel where
  | red
  | green
  | blue
  | alpha
  deriving DecidableEq

def Channel.offset : Channel → Nat
  | .red => 0
  | .green => 1
  | .blue => 2
  | .alpha => 3

/-- The place of a byte in the source. -/
def sourceIndex (w x y : Nat) (c : Channel) : Nat := (y * w + x) * 4 + c.offset

/-- One half of a tile, with two channels of each of its texels. -/
def halfTile (w x y : Nat) (first second : Channel) : List Nat :=
  blocks 4 fun b => blocks 4 fun a =>
    [sourceIndex w (x + a) (y + b) first, sourceIndex w (x + a) (y + b) second]

/-- The places that `rgba8_to_gx` reads, in the order in which it writes what it has read. -/
def tiledReads (w h : Nat) : List Nat :=
  blocks (tileCount h) fun ty => blocks (tileCount w) fun tx =>
    halfTile w (4 * tx) (4 * ty) .alpha .red ++ halfTile w (4 * tx) (4 * ty) .green .blue

/-- The tiles of an image, each byte of the buffer with what has been written to it. A read past
the source or a write past the buffer is undefined. -/
def rgba8ToGx (memalign : Bool) (src : List Byte) (w h : Nat) :
    Except MemoryFault (Option (List (Option Byte))) :=
  match checkInt (w * h * 4) with
  | .error f => .error f
  | .ok size =>
    if memalign = false then .ok none
    else if (∃ place ∈ tiledReads w h, src.length ≤ place) ∨ size < (tiledReads w h).length then
      .error .outOfBounds
    else
      let written := (tiledReads w h).map fun place => some (src.getD place 0)
      .ok (some (written ++ List.replicate (size - written.length) none))

structure Gfx3dTexture where
  width : Nat
  height : Nat
  data : List (Option Byte)
  dataSize : Nat

/-- The calls of `calloc` and of `memalign` may fail. -/
def gfx3dTextureCreateRgba (calloc memalign : Bool) (width height : Nat) (rgbaData : List Byte) :
    Except MemoryFault (Option Gfx3dTexture) :=
  if calloc = false then .ok none
  else
    match rgba8ToGx memalign rgbaData width height with
    | .error f => .error f
    | .ok none => .ok none
    | .ok (some data) => .ok (some { width, height, data, dataSize := width * height * 4 })

def gfx3dTextureCreateSolid (calloc memalign : Bool) (r g b a : Byte) :
    Except MemoryFault (Option Gfx3dTexture) :=
  gfx3dTextureCreateRgba calloc memalign 1 1 [r, g, b, a]

/-! ## Tiles -/

/-- The place in its half of a tile for the first or the second byte of a texel. -/
def placeInHalf (x y k : Nat) : Nat := (y % 4 * 4 + x % 4) * 2 + k

/-- The place of a byte in the tiles: those in rows, 64 bytes each, and the halves of 32 bytes. -/
def tiledIndex (w x y : Nat) (c : Channel) : Nat :=
  (y / 4 * (w / 4) + x / 4) * 64 +
    match c with
    | .alpha => placeInHalf x y 0
    | .red => placeInHalf x y 1
    | .green => 32 + placeInHalf x y 0
    | .blue => 32 + placeInHalf x y 1

/-- The image that tiles stand for. -/
def untile (w h : Nat) (data : List (Option Byte)) : List (Option Byte) :=
  blocks h fun y => blocks w fun x =>
    [Channel.red, .green, .blue, .alpha].map fun c => data.getD (tiledIndex w x y c) none

/-- The tiles hold the image, and nothing else. -/
structure TilesImage (w h : Nat) (src : List Byte) (tex : Gfx3dTexture) : Prop where
  size : tex.data.length = tex.dataSize
  filled : ∀ byte ∈ tex.data, byte.isSome
  texel : ∀ x < w, ∀ y < h, ∀ c,
    tex.data[tiledIndex w x y c]? = some src[sourceIndex w x y c]?
  untile : untile w h tex.data = src.map some

/-- Whatever the allocator does, an image becomes `NULL` or its tiles. -/
def TilingSound (w h : Nat) : Prop :=
  ∀ src : List Byte, src.length = w * h * 4 → ∀ calloc memalign,
    gfx3dTextureCreateRgba calloc memalign w h src ≠ .ok none →
      ∃ tex, gfx3dTextureCreateRgba calloc memalign w h src = .ok (some tex) ∧
        TilesImage w h src tex

/-! ## What is read -/

variable {w h x y a b k : Nat} {first second : Channel} {c : Channel}

theorem length_halfTile : (halfTile w x y first second).length = 32 := by
  calc (halfTile w x y first second).length = 4 * 4 * 2 :=
        length_blocks_blocks fun _ _ _ _ => rfl
    _ = 32 := rfl

theorem getElem?_halfTile (hb : b < 4) (ha : a < 4) (hk : k < 2) :
    (halfTile w x y first second)[(b * 4 + a) * 2 + k]? =
      [sourceIndex w (x + a) (y + b) first, sourceIndex w (x + a) (y + b) second][k]? :=
  getElem?_blocks_blocks (f := fun b a =>
    [sourceIndex w (x + a) (y + b) first, sourceIndex w (x + a) (y + b) second])
    (fun _ _ _ _ => rfl) hb ha hk

theorem length_tiledReads : (tiledReads w h).length = tileCount h * tileCount w * 64 := by
  apply length_blocks_blocks
  intro _ _ _ _
  rw [List.length_append, length_halfTile, length_halfTile]

theorem Channel.offset_lt (c : Channel) : c.offset < 4 := by
  cases c <;> decide

theorem sourceIndex_lt (hx : x < w) (hy : y < h) : sourceIndex w x y c < w * h * 4 := by
  have hOffset := c.offset_lt
  have hRow : (y + 1) * w ≤ h * w := Nat.mul_le_mul_right w hy
  rw [Nat.succ_mul, Nat.mul_comm h] at hRow
  rw [sourceIndex]
  omega

/-- The byte that is read for a place in the tiles. -/
theorem getElem?_tiledReads (hw : 4 ∣ w) (hh : 4 ∣ h) (hx : x < w) (hy : y < h) :
    (tiledReads w h)[tiledIndex w x y c]? = some (sourceIndex w x y c) := by
  obtain ⟨m, rfl⟩ := hw
  obtain ⟨n, rfl⟩ := hh
  have hColumns : tileCount (4 * m) = m := by rw [tileCount]; omega
  have hRows : tileCount (4 * n) = n := by rw [tileCount]; omega
  have hTx : x / 4 < m := by omega
  have hTy : y / 4 < n := by omega
  have hA : x % 4 < 4 := Nat.mod_lt x (by decide)
  have hB : y % 4 < 4 := Nat.mod_lt y (by decide)
  have hX : 4 * (x / 4) + x % 4 = x := Nat.div_add_mod x 4
  have hY : 4 * (y / 4) + y % 4 = y := Nat.div_add_mod y 4
  have hTile : ∀ place < 64, (tiledReads (4 * m) (4 * n))[(y / 4 * m + x / 4) * 64 + place]? =
      (halfTile (4 * m) (4 * (x / 4)) (4 * (y / 4)) .alpha .red ++
        halfTile (4 * m) (4 * (x / 4)) (4 * (y / 4)) .green .blue)[place]? := by
    intro place hPlace
    rw [tiledReads, hColumns, hRows]
    refine getElem?_blocks_blocks (f := fun ty tx =>
      halfTile (4 * m) (4 * tx) (4 * ty) .alpha .red ++
        halfTile (4 * m) (4 * tx) (4 * ty) .green .blue) (fun _ _ _ _ => ?_) hTy hTx hPlace
    rw [List.length_append, length_halfTile, length_halfTile]
  have hSmall : ∀ k < 2, placeInHalf x y k < 32 := by
    intro k hk
    rw [placeInHalf]
    omega
  have hFirst : ∀ k < 2, (tiledReads (4 * m) (4 * n))[(y / 4 * m + x / 4) * 64 +
      placeInHalf x y k]? = [sourceIndex (4 * m) x y .alpha, sourceIndex (4 * m) x y .red][k]? := by
    intro k hk
    rw [hTile _ ((hSmall k hk).trans (by decide)),
      List.getElem?_append_left (length_halfTile.symm ▸ hSmall k hk), placeInHalf,
      getElem?_halfTile hB hA hk, hX, hY]
  have hSecond : ∀ k < 2, (tiledReads (4 * m) (4 * n))[(y / 4 * m + x / 4) * 64 +
      (32 + placeInHalf x y k)]? =
        [sourceIndex (4 * m) x y .green, sourceIndex (4 * m) x y .blue][k]? := by
    intro k hk
    rw [hTile _ (Nat.add_lt_add_left (hSmall k hk) 32),
      List.getElem?_append_right (length_halfTile.symm ▸ Nat.le_add_right 32 _), length_halfTile,
      Nat.add_sub_cancel_left, placeInHalf, getElem?_halfTile hB hA hk, hX, hY]
  have hWidth : 4 * m / 4 = m := Nat.mul_div_cancel_left m (by decide)
  unfold tiledIndex
  rw [hWidth]
  cases c with
  | alpha => exact hFirst 0 (by decide)
  | red => exact hFirst 1 (by decide)
  | green => exact hSecond 0 (by decide)
  | blue => exact hSecond 1 (by decide)

/-! ## Images of whole tiles -/

theorem tileCount_mul (hw : 4 ∣ w) : tileCount w * 4 = w := by
  rw [tileCount]
  omega

theorem length_tiledReads_of_dvd (hw : 4 ∣ w) (hh : 4 ∣ h) :
    (tiledReads w h).length = w * h * 4 := by
  have hColumns := tileCount_mul hw
  have hRows := tileCount_mul hh
  calc (tiledReads w h).length = tileCount h * tileCount w * 64 := length_tiledReads
    _ = tileCount w * 4 * (tileCount h * 4) * 4 := by ring
    _ = w * h * 4 := by rw [hColumns, hRows]

theorem tiledReads_lt (hw : 4 ∣ w) (hh : 4 ∣ h) : ∀ place ∈ tiledReads w h, place < w * h * 4 := by
  intro place hPlace
  obtain ⟨ty, hTy, hRow⟩ := mem_blocks.mp hPlace
  obtain ⟨tx, hTx, hTile⟩ := mem_blocks.mp hRow
  have hHalf : ∀ first second, place ∈ halfTile w (4 * tx) (4 * ty) first second →
      place < w * h * 4 := by
    intro first second hMem
    obtain ⟨b, hb, hRow⟩ := mem_blocks.mp hMem
    obtain ⟨a, ha, hPair⟩ := mem_blocks.mp hRow
    have hX : 4 * tx + a < w := by
      have := tileCount_mul hw
      omega
    have hY : 4 * ty + b < h := by
      have := tileCount_mul hh
      omega
    simp only [List.mem_cons, List.not_mem_nil, or_false] at hPair
    rcases hPair with rfl | rfl
    · exact sourceIndex_lt hX hY
    · exact sourceIndex_lt hX hY
  exact (List.mem_append.mp hTile).elim (hHalf _ _) (hHalf _ _)

theorem rgba8ToGx_of_dvd {src : List Byte} (hw : 4 ∣ w) (hh : 4 ∣ h) (hInt : w * h * 4 ≤ intMax)
    (hSrc : src.length = w * h * 4) :
    rgba8ToGx true src w h =
      .ok (some ((tiledReads w h).map fun place => some (src.getD place 0))) := by
  have hLength := length_tiledReads_of_dvd hw hh
  have hInside : ¬((∃ place ∈ tiledReads w h, src.length ≤ place) ∨
      w * h * 4 < (tiledReads w h).length) := by
    rintro (⟨place, hPlace, hBeyond⟩ | hMore)
    · exact absurd (hSrc ▸ tiledReads_lt hw hh place hPlace) hBeyond.not_gt
    · exact absurd hLength hMore.ne'
  rw [rgba8ToGx, checkInt, if_pos hInt]
  dsimp only
  rw [if_neg (by decide), if_neg hInside, List.length_map, hLength, Nat.sub_self,
    List.replicate_zero, List.append_nil]

theorem tilesImage_of_dvd {src : List Byte} (hw : 4 ∣ w) (hh : 4 ∣ h)
    (hSrc : src.length = w * h * 4) :
    TilesImage w h src
      { width := w
        height := h
        data := (tiledReads w h).map fun place => some (src.getD place 0)
        dataSize := w * h * 4 } := by
  have hTexel : ∀ x < w, ∀ y < h, ∀ c,
      ((tiledReads w h).map fun place => some (src.getD place 0))[tiledIndex w x y c]? =
        some src[sourceIndex w x y c]? := by
    intro x hx y hy c
    have hInside : sourceIndex w x y c < src.length := hSrc.symm ▸ sourceIndex_lt hx hy
    rw [List.getElem?_map, getElem?_tiledReads hw hh hx hy, Option.map_some,
      List.getD_eq_getElem?_getD, List.getElem?_eq_getElem hInside, Option.getD_some]
  refine ⟨?_, ?_, hTexel, ?_⟩
  · rw [List.length_map]
    exact length_tiledReads_of_dvd hw hh
  · intro byte hByte
    obtain ⟨place, -, rfl⟩ := List.mem_map.mp hByte
    rfl
  · apply blocks_blocks_eq
    · rw [List.length_map, hSrc, Nat.mul_comm w]
    · exact fun _ _ _ _ => rfl
    · intro y hy x hx k hk
      have hAt : ∀ c, ((tiledReads w h).map fun place => some (src.getD place 0)).getD
          (tiledIndex w x y c) none = src[sourceIndex w x y c]? := by
        intro c
        rw [List.getD_eq_getElem?_getD, hTexel x hx y hy c, Option.getD_some]
      have hSome : ∀ c : Channel, src[sourceIndex w x y c]?.map some =
          some src[sourceIndex w x y c]? := by
        intro c
        have hInside : sourceIndex w x y c < src.length := hSrc.symm ▸ sourceIndex_lt hx hy
        rw [List.getElem?_eq_getElem hInside]
        rfl
      simp only [hAt, List.getElem?_map]
      interval_cases k
      · exact (hSome .red).symm
      · exact (hSome .green).symm
      · exact (hSome .blue).symm
      · exact (hSome .alpha).symm

/-! ## When the tiling is lossless -/

/-- The buffer is too small for images with tiles that are not whole. -/
theorem dvd_of_length_le (hw : 1 ≤ w) (hh : 1 ≤ h) (hFits : (tiledReads w h).length ≤ w * h * 4) :
    4 ∣ w ∧ 4 ∣ h := by
  have hColumns : w ≤ tileCount w * 4 := by rw [tileCount]; omega
  have hRows : h ≤ tileCount h * 4 := by rw [tileCount]; omega
  have hAll : tileCount w * 4 * (tileCount h * 4) * 4 = (tiledReads w h).length := by
    rw [length_tiledReads]
    ring
  have hLe : tileCount w * 4 * (tileCount h * 4) ≤ w * h := by
    rw [← hAll] at hFits
    exact Nat.le_of_mul_le_mul_right hFits (by decide)
  have hWidth : tileCount w * 4 = w := by
    refine le_antisymm (not_lt.mp fun hLess => absurd hLe ?_) hColumns
    have hMore : w * h < tileCount w * 4 * h := Nat.mul_lt_mul_of_pos_right hLess hh
    exact (hMore.trans_le (Nat.mul_le_mul_left _ hRows)).not_ge
  have hHeight : tileCount h * 4 = h := by
    refine le_antisymm (not_lt.mp fun hLess => absurd hLe ?_) hRows
    have hMore : w * h < w * (tileCount h * 4) := Nat.mul_lt_mul_of_pos_left hLess hw
    exact (hMore.trans_le (Nat.mul_le_mul_right _ hColumns)).not_ge
  exact ⟨⟨_, (hWidth.symm.trans (Nat.mul_comm _ _))⟩, ⟨_, (hHeight.symm.trans (Nat.mul_comm _ _))⟩⟩

theorem rgba8ToGx_ok {src : List Byte} {result : Option (List (Option Byte))}
    (hOk : rgba8ToGx true src w h = .ok result) :
    w * h * 4 ≤ intMax ∧ (tiledReads w h).length ≤ w * h * 4 := by
  by_cases hInt : w * h * 4 ≤ intMax
  · rw [rgba8ToGx, checkInt, if_pos hInt] at hOk
    dsimp only at hOk
    rw [if_neg (by decide)] at hOk
    split_ifs at hOk with hFault
    exact ⟨hInt, not_lt.mp fun hLess => hFault (Or.inr hLess)⟩
  · rw [rgba8ToGx, checkInt, if_neg hInt] at hOk
    cases hOk

theorem TilingSound.fits (hSound : TilingSound w h) :
    w * h * 4 ≤ intMax ∧ (tiledReads w h).length ≤ w * h * 4 := by
  have hCreate : ∀ src, gfx3dTextureCreateRgba true true w h src =
      match rgba8ToGx true src w h with
      | .error f => .error f
      | .ok none => .ok none
      | .ok (some data) => .ok (some
          { width := w, height := h, data, dataSize := w * h * 4 }) := fun src => rfl
  have hZeros := hSound (List.replicate (w * h * 4) 0) List.length_replicate true true
  rw [hCreate] at hZeros
  cases hResult : rgba8ToGx true (List.replicate (w * h * 4) 0) w h with
  | error f =>
    rw [hResult] at hZeros
    obtain ⟨tex, hTex, -⟩ := hZeros fun hEq => by cases hEq
    cases hTex
  | ok result => exact rgba8ToGx_ok hResult

/-- Tiles hold an image exactly if they are whole, unless its size is beyond `int`. -/
theorem tilingSound_iff (hw : 1 ≤ w) (hh : 1 ≤ h) :
    TilingSound w h ↔ 4 ∣ w ∧ 4 ∣ h ∧ w * h * 4 < 2 ^ 31 := by
  constructor
  · intro hSound
    obtain ⟨hInt, hFits⟩ := hSound.fits
    obtain ⟨hWidth, hHeight⟩ := dvd_of_length_le hw hh hFits
    exact ⟨hWidth, hHeight, Nat.lt_of_le_pred (by decide) hInt⟩
  · rintro ⟨hWidth, hHeight, hSize⟩ src hSrc calloc memalign hNotNull
    have hInt : w * h * 4 ≤ intMax := Nat.le_pred_of_lt hSize
    unfold gfx3dTextureCreateRgba at hNotNull ⊢
    cases calloc with
    | false => exact absurd rfl hNotNull
    | true =>
      rw [if_neg (by decide)] at hNotNull ⊢
      cases memalign with
      | false =>
        rw [rgba8ToGx, checkInt, if_pos hInt] at hNotNull
        exact absurd rfl hNotNull
      | true =>
        rw [rgba8ToGx_of_dvd hWidth hHeight hInt hSrc]
        exact ⟨_, rfl, tilesImage_of_dvd hWidth hHeight hSrc⟩

theorem tilingSound_eight : TilingSound 8 4 :=
  (tilingSound_iff (by decide) (by decide)).mpr (by decide)

/-- The texture of one pixel is read beyond the pixel. -/
theorem createSolid_outOfBounds :
    gfx3dTextureCreateSolid true true 1 2 3 4 = .error .outOfBounds ∧ ¬TilingSound 1 1 := by
  refine ⟨rfl, fun hSound => ?_⟩
  exact absurd hSound.fits.2 (by decide)

end Calynda.Gfx3d
