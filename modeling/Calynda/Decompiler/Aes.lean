/-!
# AES-128

The block cipher of disc partitions, over blocks of sixteen bytes in column-major order, and its
chaining mode.
-/

namespace Calynda.Decompiler

abbrev AesBlock := Vector (BitVec 8) 16

set_option maxRecDepth 4096 in
def sbox : Vector (BitVec 8) 256 :=
  #v[
    0x63, 0x7c, 0x77, 0x7b, 0xf2, 0x6b, 0x6f, 0xc5, 0x30, 0x01, 0x67, 0x2b, 0xfe, 0xd7, 0xab, 0x76,
    0xca, 0x82, 0xc9, 0x7d, 0xfa, 0x59, 0x47, 0xf0, 0xad, 0xd4, 0xa2, 0xaf, 0x9c, 0xa4, 0x72, 0xc0,
    0xb7, 0xfd, 0x93, 0x26, 0x36, 0x3f, 0xf7, 0xcc, 0x34, 0xa5, 0xe5, 0xf1, 0x71, 0xd8, 0x31, 0x15,
    0x04, 0xc7, 0x23, 0xc3, 0x18, 0x96, 0x05, 0x9a, 0x07, 0x12, 0x80, 0xe2, 0xeb, 0x27, 0xb2, 0x75,
    0x09, 0x83, 0x2c, 0x1a, 0x1b, 0x6e, 0x5a, 0xa0, 0x52, 0x3b, 0xd6, 0xb3, 0x29, 0xe3, 0x2f, 0x84,
    0x53, 0xd1, 0x00, 0xed, 0x20, 0xfc, 0xb1, 0x5b, 0x6a, 0xcb, 0xbe, 0x39, 0x4a, 0x4c, 0x58, 0xcf,
    0xd0, 0xef, 0xaa, 0xfb, 0x43, 0x4d, 0x33, 0x85, 0x45, 0xf9, 0x02, 0x7f, 0x50, 0x3c, 0x9f, 0xa8,
    0x51, 0xa3, 0x40, 0x8f, 0x92, 0x9d, 0x38, 0xf5, 0xbc, 0xb6, 0xda, 0x21, 0x10, 0xff, 0xf3, 0xd2,
    0xcd, 0x0c, 0x13, 0xec, 0x5f, 0x97, 0x44, 0x17, 0xc4, 0xa7, 0x7e, 0x3d, 0x64, 0x5d, 0x19, 0x73,
    0x60, 0x81, 0x4f, 0xdc, 0x22, 0x2a, 0x90, 0x88, 0x46, 0xee, 0xb8, 0x14, 0xde, 0x5e, 0x0b, 0xdb,
    0xe0, 0x32, 0x3a, 0x0a, 0x49, 0x06, 0x24, 0x5c, 0xc2, 0xd3, 0xac, 0x62, 0x91, 0x95, 0xe4, 0x79,
    0xe7, 0xc8, 0x37, 0x6d, 0x8d, 0xd5, 0x4e, 0xa9, 0x6c, 0x56, 0xf4, 0xea, 0x65, 0x7a, 0xae, 0x08,
    0xba, 0x78, 0x25, 0x2e, 0x1c, 0xa6, 0xb4, 0xc6, 0xe8, 0xdd, 0x74, 0x1f, 0x4b, 0xbd, 0x8b, 0x8a,
    0x70, 0x3e, 0xb5, 0x66, 0x48, 0x03, 0xf6, 0x0e, 0x61, 0x35, 0x57, 0xb9, 0x86, 0xc1, 0x1d, 0x9e,
    0xe1, 0xf8, 0x98, 0x11, 0x69, 0xd9, 0x8e, 0x94, 0x9b, 0x1e, 0x87, 0xe9, 0xce, 0x55, 0x28, 0xdf,
    0x8c, 0xa1, 0x89, 0x0d, 0xbf, 0xe6, 0x42, 0x68, 0x41, 0x99, 0x2d, 0x0f, 0xb0, 0x54, 0xbb, 0x16]

set_option maxRecDepth 4096 in
def invSbox : Vector (BitVec 8) 256 :=
  #v[
    0x52, 0x09, 0x6a, 0xd5, 0x30, 0x36, 0xa5, 0x38, 0xbf, 0x40, 0xa3, 0x9e, 0x81, 0xf3, 0xd7, 0xfb,
    0x7c, 0xe3, 0x39, 0x82, 0x9b, 0x2f, 0xff, 0x87, 0x34, 0x8e, 0x43, 0x44, 0xc4, 0xde, 0xe9, 0xcb,
    0x54, 0x7b, 0x94, 0x32, 0xa6, 0xc2, 0x23, 0x3d, 0xee, 0x4c, 0x95, 0x0b, 0x42, 0xfa, 0xc3, 0x4e,
    0x08, 0x2e, 0xa1, 0x66, 0x28, 0xd9, 0x24, 0xb2, 0x76, 0x5b, 0xa2, 0x49, 0x6d, 0x8b, 0xd1, 0x25,
    0x72, 0xf8, 0xf6, 0x64, 0x86, 0x68, 0x98, 0x16, 0xd4, 0xa4, 0x5c, 0xcc, 0x5d, 0x65, 0xb6, 0x92,
    0x6c, 0x70, 0x48, 0x50, 0xfd, 0xed, 0xb9, 0xda, 0x5e, 0x15, 0x46, 0x57, 0xa7, 0x8d, 0x9d, 0x84,
    0x90, 0xd8, 0xab, 0x00, 0x8c, 0xbc, 0xd3, 0x0a, 0xf7, 0xe4, 0x58, 0x05, 0xb8, 0xb3, 0x45, 0x06,
    0xd0, 0x2c, 0x1e, 0x8f, 0xca, 0x3f, 0x0f, 0x02, 0xc1, 0xaf, 0xbd, 0x03, 0x01, 0x13, 0x8a, 0x6b,
    0x3a, 0x91, 0x11, 0x41, 0x4f, 0x67, 0xdc, 0xea, 0x97, 0xf2, 0xcf, 0xce, 0xf0, 0xb4, 0xe6, 0x73,
    0x96, 0xac, 0x74, 0x22, 0xe7, 0xad, 0x35, 0x85, 0xe2, 0xf9, 0x37, 0xe8, 0x1c, 0x75, 0xdf, 0x6e,
    0x47, 0xf1, 0x1a, 0x71, 0x1d, 0x29, 0xc5, 0x89, 0x6f, 0xb7, 0x62, 0x0e, 0xaa, 0x18, 0xbe, 0x1b,
    0xfc, 0x56, 0x3e, 0x4b, 0xc6, 0xd2, 0x79, 0x20, 0x9a, 0xdb, 0xc0, 0xfe, 0x78, 0xcd, 0x5a, 0xf4,
    0x1f, 0xdd, 0xa8, 0x33, 0x88, 0x07, 0xc7, 0x31, 0xb1, 0x12, 0x10, 0x59, 0x27, 0x80, 0xec, 0x5f,
    0x60, 0x51, 0x7f, 0xa9, 0x19, 0xb5, 0x4a, 0x0d, 0x2d, 0xe5, 0x7a, 0x9f, 0x93, 0xc9, 0x9c, 0xef,
    0xa0, 0xe0, 0x3b, 0x4d, 0xae, 0x2a, 0xf5, 0xb0, 0xc8, 0xeb, 0xbb, 0x3c, 0x83, 0x53, 0x99, 0x61,
    0x17, 0x2b, 0x04, 0x7e, 0xba, 0x77, 0xd6, 0x26, 0xe1, 0x69, 0x14, 0x63, 0x55, 0x21, 0x0c, 0x7d]

def rcon : Vector (BitVec 8) 11 :=
  #v[0x00, 0x01, 0x02, 0x04, 0x08, 0x10, 0x20, 0x40, 0x80, 0x1b, 0x36]

def sboxAt (x : BitVec 8) : BitVec 8 := sbox.get x.toFin

def invSboxAt (x : BitVec 8) : BitVec 8 := invSbox.get x.toFin

def xtime (x : BitVec 8) : BitVec 8 := (x <<< 1) ^^^ (((x >>> 7) &&& 1) * 0x1b)

/-- The product of two bytes in the field of the cipher. -/
def gmul (a b : BitVec 8) : BitVec 8 :=
  (Fin.foldl 8 (fun (p, a, b) _ => (if b &&& 1 = 1 then p ^^^ a else p, xtime a, b >>> 1))
    ((0, a, b) : BitVec 8 × BitVec 8 × BitVec 8)).1

structure Aes128Ctx where
  roundKeys : Vector AesBlock 11

def nextRoundKey (prev : AesBlock) (rc : BitVec 8) : AesBlock :=
  let t := #v[sboxAt prev[13] ^^^ rc, sboxAt prev[14], sboxAt prev[15], sboxAt prev[12]]
  Fin.foldl 16 (fun cur i =>
    cur.set i ((if h : i.val < 4 then t[i.val] else cur[i.val - 4]) ^^^ prev[i])) prev

def aes128Init (key : AesBlock) : Aes128Ctx :=
  { roundKeys := Fin.foldl 10 (fun keys r =>
      keys.set (r.val + 1) (nextRoundKey keys[r.val] rcon[r.val + 1])) (Vector.replicate 11 key) }

def addRoundKey (s rk : AesBlock) : AesBlock := Vector.zipWith (· ^^^ ·) s rk

def invSubBytes (s : AesBlock) : AesBlock := s.map invSboxAt

/-- Row `k` of the state is rotated by `k` columns. -/
def invShiftRows (s : AesBlock) : AesBlock :=
  #v[s[0], s[13], s[10], s[7],
    s[4], s[1], s[14], s[11],
    s[8], s[5], s[2], s[15],
    s[12], s[9], s[6], s[3]]

def invMixColumn (a0 a1 a2 a3 : BitVec 8) : Vector (BitVec 8) 4 :=
  #v[gmul a0 0x0e ^^^ gmul a1 0x0b ^^^ gmul a2 0x0d ^^^ gmul a3 0x09,
    gmul a0 0x09 ^^^ gmul a1 0x0e ^^^ gmul a2 0x0b ^^^ gmul a3 0x0d,
    gmul a0 0x0d ^^^ gmul a1 0x09 ^^^ gmul a2 0x0e ^^^ gmul a3 0x0b,
    gmul a0 0x0b ^^^ gmul a1 0x0d ^^^ gmul a2 0x09 ^^^ gmul a3 0x0e]

def invMixColumns (s : AesBlock) : AesBlock :=
  invMixColumn s[0] s[1] s[2] s[3] ++ invMixColumn s[4] s[5] s[6] s[7] ++
    invMixColumn s[8] s[9] s[10] s[11] ++ invMixColumn s[12] s[13] s[14] s[15]

def aes128DecryptBlock (ctx : Aes128Ctx) (input : AesBlock) : AesBlock :=
  let s := addRoundKey input ctx.roundKeys[10]
  let s := Fin.foldl 9 (fun s i =>
    invMixColumns (addRoundKey (invSubBytes (invShiftRows s)) ctx.roundKeys[9 - i.val])) s
  addRoundKey (invSubBytes (invShiftRows s)) ctx.roundKeys[0]

/-- The block of a buffer that starts at a place. -/
def blockAt (bytes : List (BitVec 8)) (off : Nat) : AesBlock :=
  Vector.ofFn fun i => bytes.getD (off + i.val) 0

def cbcDecryptBlocks (ctx : Aes128Ctx) (prev : AesBlock) : List AesBlock → List AesBlock
  | [] => []
  | block :: rest =>
    Vector.zipWith (· ^^^ ·) (aes128DecryptBlock ctx block) prev ::
      cbcDecryptBlocks ctx block rest

def aes128CbcDecrypt (key iv : AesBlock) (input : List (BitVec 8)) : List (BitVec 8) :=
  let blocks := (List.range ((input.length + 15) / 16)).map fun i => blockAt input (16 * i)
  (cbcDecryptBlocks (aes128Init key) iv blocks).flatMap Vector.toList

theorem length_cbcDecryptBlocks (ctx : Aes128Ctx) (prev : AesBlock) (blocks : List AesBlock) :
    (cbcDecryptBlocks ctx prev blocks).length = blocks.length := by
  induction blocks generalizing prev with
  | nil => rfl
  | cons block rest ih => simp [cbcDecryptBlocks, ih]

/-- A buffer of whole blocks keeps its length. -/
theorem length_aes128CbcDecrypt (key iv : AesBlock) {input : List (BitVec 8)}
    (h : 16 ∣ input.length) : (aes128CbcDecrypt key iv input).length = input.length := by
  have hBytes : ∀ blocks : List AesBlock,
      (blocks.flatMap Vector.toList).length = 16 * blocks.length := by
    intro blocks
    induction blocks with
    | nil => rfl
    | cons block rest ih =>
      rw [List.flatMap_cons, List.length_append, ih, Vector.length_toList, List.length_cons]
      omega
  rw [aes128CbcDecrypt, hBytes, length_cbcDecryptBlocks, List.length_map, List.length_range]
  omega

/-! ## Encryption -/

def subBytes (s : AesBlock) : AesBlock := s.map sboxAt

def shiftRows (s : AesBlock) : AesBlock :=
  #v[s[0], s[5], s[10], s[15],
    s[4], s[9], s[14], s[3],
    s[8], s[13], s[2], s[7],
    s[12], s[1], s[6], s[11]]

def mixColumn (a0 a1 a2 a3 : BitVec 8) : Vector (BitVec 8) 4 :=
  let t := a0 ^^^ a1 ^^^ a2 ^^^ a3
  #v[a0 ^^^ (t ^^^ xtime (a0 ^^^ a1)),
    a1 ^^^ (t ^^^ xtime (a1 ^^^ a2)),
    a2 ^^^ (t ^^^ xtime (a2 ^^^ a3)),
    a3 ^^^ (t ^^^ xtime (a3 ^^^ a0))]

def mixColumns (s : AesBlock) : AesBlock :=
  mixColumn s[0] s[1] s[2] s[3] ++ mixColumn s[4] s[5] s[6] s[7] ++
    mixColumn s[8] s[9] s[10] s[11] ++ mixColumn s[12] s[13] s[14] s[15]

def aes128EncryptBlock (ctx : Aes128Ctx) (input : AesBlock) : AesBlock :=
  let s := addRoundKey input ctx.roundKeys[0]
  let s := Fin.foldl 9 (fun s i =>
    addRoundKey (mixColumns (shiftRows (subBytes s))) ctx.roundKeys[i.val + 1]) s
  addRoundKey (shiftRows (subBytes s)) ctx.roundKeys[10]

/-! ## Columns and rounds -/

def onColumn (f : BitVec 8 → BitVec 8 → BitVec 8 → BitVec 8 → Vector (BitVec 8) 4)
    (col : Vector (BitVec 8) 4) : Vector (BitVec 8) 4 :=
  f col[0] col[1] col[2] col[3]

theorem toList_column : ∀ col : Vector (BitVec 8) 4, col.toList = [col[0], col[1], col[2], col[3]]
  | ⟨⟨[_, _, _, _]⟩, _⟩ => rfl

/-- The state with four given columns. -/
def ofColumns (c0 c1 c2 c3 : Vector (BitVec 8) 4) : AesBlock :=
  #v[c0[0], c0[1], c0[2], c0[3], c1[0], c1[1], c1[2], c1[3],
    c2[0], c2[1], c2[2], c2[3], c3[0], c3[1], c3[2], c3[3]]

theorem ofColumns_eta : ∀ s : AesBlock,
    ofColumns #v[s[0], s[1], s[2], s[3]] #v[s[4], s[5], s[6], s[7]] #v[s[8], s[9], s[10], s[11]]
      #v[s[12], s[13], s[14], s[15]] = s
  | ⟨⟨[_, _, _, _, _, _, _, _, _, _, _, _, _, _, _, _]⟩, _⟩ => rfl

def encryptRound (rk s : AesBlock) : AesBlock := addRoundKey (mixColumns (shiftRows (subBytes s))) rk

def decryptRound (rk s : AesBlock) : AesBlock :=
  invMixColumns (addRoundKey (invSubBytes (invShiftRows s)) rk)

theorem aes128EncryptBlock_eq (ctx : Aes128Ctx) (b : AesBlock) :
    aes128EncryptBlock ctx b =
      addRoundKey (shiftRows (subBytes (Fin.foldl 9
        (fun s i => encryptRound ctx.roundKeys[i.val + 1] s)
        (addRoundKey b ctx.roundKeys[0])))) ctx.roundKeys[10] := rfl

theorem aes128DecryptBlock_eq (ctx : Aes128Ctx) (b : AesBlock) :
    aes128DecryptBlock ctx b =
      addRoundKey (invSubBytes (invShiftRows (Fin.foldl 9
        (fun s i => decryptRound ctx.roundKeys[i.rev.val + 1] s)
        (addRoundKey b ctx.roundKeys[10])))) ctx.roundKeys[0] := by
  have hKey : ∀ i : Fin 9, ctx.roundKeys[9 - i.val] = ctx.roundKeys[i.rev.val + 1] := by
    intro i
    congr 1
    rw [Fin.val_rev]
    omega
  simp only [← hKey]
  rfl

end Calynda.Decompiler
