import Calynda.Decompiler.Aes
import Mathlib.Data.Fintype.EquivFin
import Mathlib.Data.LawfulXor.Basic
import Mathlib.Tactic.IntervalCases

/-!
# Encryption, and the inverse laws

Each step of a round has its inverse: the tables are mutually inverse, the row shifts are opposite
rotations, and the two column matrices multiply to the identity already as polynomials, before
`xtime` reduces anything. A run of rounds is then unwound from the inside, and a chain of blocks
block by block, in buffers that may be one.
-/

namespace Calynda.Decompiler

/-! ## One step undoes another -/

theorem xor_left_comm (a b c : BitVec 8) : a ^^^ (b ^^^ c) = b ^^^ (a ^^^ c) := by
  rw [← BitVec.xor_assoc, BitVec.xor_comm a b, BitVec.xor_assoc]

theorem addRoundKey_addRoundKey (s rk : AesBlock) : addRoundKey (addRoundKey s rk) rk = s := by
  refine Vector.ext fun i hi => ?_
  simp [addRoundKey]

theorem invSboxAt_sboxAt : ∀ x : BitVec 8, invSboxAt (sboxAt x) = x := by
  decide +kernel

/-- There are no more bytes than the table has values, so its inverse on one side is one on both. -/
theorem sboxAt_invSboxAt (x : BitVec 8) : sboxAt (invSboxAt x) = x := by
  have hFinite : Finite (BitVec 8) := Finite.of_injective BitVec.toFin fun _ _ => BitVec.eq_of_toFin_eq
  have hInjective : Function.Injective sboxAt := Function.LeftInverse.injective invSboxAt_sboxAt
  obtain ⟨y, rfl⟩ := Finite.surjective_of_injective hInjective x
  rw [invSboxAt_sboxAt]

theorem invSubBytes_subBytes (s : AesBlock) : invSubBytes (subBytes s) = s := by
  refine Vector.ext fun i hi => ?_
  simp [invSubBytes, subBytes, invSboxAt_sboxAt]

theorem subBytes_invSubBytes (s : AesBlock) : subBytes (invSubBytes s) = s := by
  refine Vector.ext fun i hi => ?_
  simp [invSubBytes, subBytes, sboxAt_invSboxAt]

theorem invShiftRows_shiftRows (s : AesBlock) : invShiftRows (shiftRows s) = s := by
  refine Vector.ext fun i hi => ?_
  interval_cases i <;> rfl

theorem shiftRows_invShiftRows (s : AesBlock) : shiftRows (invShiftRows s) = s := by
  refine Vector.ext fun i hi => ?_
  interval_cases i <;> rfl

/-! ## The column matrices -/

/-- Reduction after a shift adds the polynomial exactly when a bit was shifted out. -/
theorem xtime_reduction : ∀ x : BitVec 8, ((x >>> 7) &&& 1) * 0x1b = if x.msb then 0x1b else 0 := by
  decide +kernel

theorem xtime_xor (x y : BitVec 8) : xtime (x ^^^ y) = xtime x ^^^ xtime y := by
  rw [xtime, xtime, xtime, xtime_reduction, xtime_reduction, xtime_reduction, BitVec.msb_xor,
    BitVec.shiftLeft_xor_distrib]
  cases x.msb <;> cases y.msb <;>
    simp [BitVec.xor_assoc, xor_left_comm, BitVec.xor_comm]

theorem gmul_nine (a : BitVec 8) : gmul a 9#8 = a ^^^ xtime (xtime (xtime a)) := by
  simp [gmul, Fin.foldl_succ, Fin.foldl_zero]

theorem gmul_eleven (a : BitVec 8) :
    gmul a 11#8 = a ^^^ (xtime a ^^^ xtime (xtime (xtime a))) := by
  simp [gmul, Fin.foldl_succ, Fin.foldl_zero, BitVec.xor_assoc]

theorem gmul_thirteen (a : BitVec 8) :
    gmul a 13#8 = a ^^^ (xtime (xtime a) ^^^ xtime (xtime (xtime a))) := by
  simp [gmul, Fin.foldl_succ, Fin.foldl_zero, BitVec.xor_assoc]

theorem gmul_fourteen (a : BitVec 8) :
    gmul a 14#8 = xtime a ^^^ (xtime (xtime a) ^^^ xtime (xtime (xtime a))) := by
  simp [gmul, Fin.foldl_succ, Fin.foldl_zero, BitVec.xor_assoc]

/-- What applying the matrix twice does to a column. -/
def mixTwice (a0 a1 a2 a3 : BitVec 8) : Vector (BitVec 8) 4 :=
  let u := xtime (xtime (a0 ^^^ a2))
  let v := xtime (xtime (a1 ^^^ a3))
  #v[a0 ^^^ u, a1 ^^^ v, a2 ^^^ u, a3 ^^^ v]

theorem mixColumn_eq (a0 a1 a2 a3 : BitVec 8) :
    mixColumn a0 a1 a2 a3 =
      #v[xtime a0 ^^^ (xtime a1 ^^^ (a1 ^^^ (a2 ^^^ a3))),
        xtime a1 ^^^ (xtime a2 ^^^ (a0 ^^^ (a2 ^^^ a3))),
        xtime a2 ^^^ (xtime a3 ^^^ (a0 ^^^ (a1 ^^^ a3))),
        xtime a3 ^^^ (xtime a0 ^^^ (a0 ^^^ (a1 ^^^ a2)))] := by
  simp [mixColumn, xtime_xor, BitVec.xor_assoc, xor_left_comm, BitVec.xor_comm]

theorem onColumn_mixColumn_mixColumn (a0 a1 a2 a3 : BitVec 8) :
    onColumn mixColumn (mixColumn a0 a1 a2 a3) = mixTwice a0 a1 a2 a3 := by
  simp [onColumn, mixColumn_eq, mixTwice, xtime_xor, BitVec.xor_assoc, xor_left_comm,
    BitVec.xor_comm]

theorem invMixColumn_eq (a0 a1 a2 a3 : BitVec 8) :
    invMixColumn a0 a1 a2 a3 = onColumn mixColumn (mixTwice a0 a1 a2 a3) := by
  simp [onColumn, mixColumn_eq, mixTwice, invMixColumn, gmul_nine, gmul_eleven, gmul_thirteen,
    gmul_fourteen, xtime_xor, BitVec.xor_assoc, xor_left_comm, BitVec.xor_comm]

theorem onColumn_mixTwice_mixTwice (a0 a1 a2 a3 : BitVec 8) :
    onColumn mixTwice (mixTwice a0 a1 a2 a3) = #v[a0, a1, a2, a3] := by
  simp [onColumn, mixTwice, xtime_xor, BitVec.xor_assoc]

theorem onColumn_congr {f g h : BitVec 8 → BitVec 8 → BitVec 8 → BitVec 8 → Vector (BitVec 8) 4}
    (hfg : ∀ a0 a1 a2 a3, onColumn f (g a0 a1 a2 a3) = h a0 a1 a2 a3) (col : Vector (BitVec 8) 4) :
    onColumn f (onColumn g col) = onColumn h col :=
  hfg col[0] col[1] col[2] col[3]

theorem onColumn_invMixColumn (col : Vector (BitVec 8) 4) :
    onColumn invMixColumn col = onColumn mixColumn (onColumn mixTwice col) :=
  invMixColumn_eq col[0] col[1] col[2] col[3]

theorem onColumn_mixTwice_cancel (col : Vector (BitVec 8) 4) :
    onColumn mixTwice (onColumn mixTwice col) = col := by
  refine (onColumn_mixTwice_mixTwice col[0] col[1] col[2] col[3]).trans ?_
  refine Vector.ext fun i hi => ?_
  interval_cases i <;> rfl

/-- The matrix applied four times is the identity, and its inverse applies it three times. -/
theorem invMixColumn_mixColumn (col : Vector (BitVec 8) 4) :
    onColumn invMixColumn (onColumn mixColumn col) = col := by
  have hTwice := onColumn_congr onColumn_mixColumn_mixColumn
  rw [onColumn_invMixColumn, ← hTwice, hTwice col, hTwice, onColumn_mixTwice_cancel]

theorem mixColumn_invMixColumn (col : Vector (BitVec 8) 4) :
    onColumn mixColumn (onColumn invMixColumn col) = col := by
  have hTwice := onColumn_congr onColumn_mixColumn_mixColumn
  rw [onColumn_invMixColumn, hTwice, onColumn_mixTwice_cancel]

theorem append_columns (c0 c1 c2 c3 : Vector (BitVec 8) 4) :
    c0 ++ c1 ++ c2 ++ c3 = ofColumns c0 c1 c2 c3 := by
  rw [← Vector.toList_inj, Vector.toList_append, Vector.toList_append, Vector.toList_append,
    toList_column c0, toList_column c1, toList_column c2, toList_column c3]
  rfl

theorem mixColumns_ofColumns (c0 c1 c2 c3 : Vector (BitVec 8) 4) :
    mixColumns (ofColumns c0 c1 c2 c3) =
      ofColumns (onColumn mixColumn c0) (onColumn mixColumn c1) (onColumn mixColumn c2)
        (onColumn mixColumn c3) :=
  append_columns (onColumn mixColumn c0) (onColumn mixColumn c1) (onColumn mixColumn c2)
    (onColumn mixColumn c3)

theorem invMixColumns_ofColumns (c0 c1 c2 c3 : Vector (BitVec 8) 4) :
    invMixColumns (ofColumns c0 c1 c2 c3) =
      ofColumns (onColumn invMixColumn c0) (onColumn invMixColumn c1) (onColumn invMixColumn c2)
        (onColumn invMixColumn c3) :=
  append_columns (onColumn invMixColumn c0) (onColumn invMixColumn c1) (onColumn invMixColumn c2)
    (onColumn invMixColumn c3)

theorem invMixColumns_mixColumns (s : AesBlock) : invMixColumns (mixColumns s) = s := by
  rw [← ofColumns_eta s, mixColumns_ofColumns, invMixColumns_ofColumns]
  simp only [invMixColumn_mixColumn]

theorem mixColumns_invMixColumns (s : AesBlock) : mixColumns (invMixColumns s) = s := by
  rw [← ofColumns_eta s, invMixColumns_ofColumns, mixColumns_ofColumns]
  simp only [mixColumn_invMixColumn]

/-! ## A block -/

/-- Rounds are unwound from the inside: each undoes the last one still standing. -/
theorem foldl_rev_foldl {σ : Type*} {h : σ → σ} :
    ∀ {n : Nat} {A B : Fin n → σ → σ}, (∀ i s, B i (h (A i s)) = h s) → ∀ s,
      Fin.foldl n (fun s i => B i.rev s) (h (Fin.foldl n (fun s i => A i s) s)) = h s
  | 0, _, _, _, s => by rw [Fin.foldl_zero, Fin.foldl_zero]
  | n + 1, A, B, hAB, s => by
    have hLast := hAB (Fin.last n) (Fin.foldl n (fun s i => A i.castSucc s) s)
    have hRest := foldl_rev_foldl (fun i => hAB i.castSucc) s
    rw [Fin.foldl_succ_last (f := fun s i => A i s), Fin.foldl_succ, Fin.rev_zero, hLast]
    simpa only [Fin.rev_succ] using hRest

theorem decryptRound_encryptRound (rk s : AesBlock) :
    decryptRound rk (shiftRows (subBytes (encryptRound rk s))) = shiftRows (subBytes s) := by
  rw [decryptRound, invShiftRows_shiftRows, invSubBytes_subBytes, encryptRound,
    addRoundKey_addRoundKey, invMixColumns_mixColumns]

theorem encryptRound_decryptRound (rk s : AesBlock) :
    encryptRound rk (invSubBytes (invShiftRows (decryptRound rk s))) =
      invSubBytes (invShiftRows s) := by
  rw [encryptRound, subBytes_invSubBytes, shiftRows_invShiftRows, decryptRound,
    mixColumns_invMixColumns, addRoundKey_addRoundKey]

theorem aes128DecryptBlock_encryptBlock (ctx : Aes128Ctx) (b : AesBlock) :
    aes128DecryptBlock ctx (aes128EncryptBlock ctx b) = b := by
  have hRounds := foldl_rev_foldl (σ := AesBlock) (h := fun s => shiftRows (subBytes s))
    (fun i : Fin 9 => decryptRound_encryptRound ctx.roundKeys[i.val + 1])
    (addRoundKey b ctx.roundKeys[0])
  rw [aes128DecryptBlock_eq, aes128EncryptBlock_eq, addRoundKey_addRoundKey, hRounds,
    invShiftRows_shiftRows, invSubBytes_subBytes, addRoundKey_addRoundKey]

theorem aes128EncryptBlock_decryptBlock (ctx : Aes128Ctx) (b : AesBlock) :
    aes128EncryptBlock ctx (aes128DecryptBlock ctx b) = b := by
  have hRounds := foldl_rev_foldl (σ := AesBlock) (h := fun s => invSubBytes (invShiftRows s))
    (fun i : Fin 9 => encryptRound_decryptRound ctx.roundKeys[i.rev.val + 1])
    (addRoundKey b ctx.roundKeys[10])
  simp only [Fin.rev_rev] at hRounds
  rw [aes128EncryptBlock_eq, aes128DecryptBlock_eq, addRoundKey_addRoundKey, hRounds,
    subBytes_invSubBytes, shiftRows_invShiftRows, addRoundKey_addRoundKey]

/-! ## A chain of blocks -/

def cbcEncryptStep (ctx : Aes128Ctx) (prev block : AesBlock) : AesBlock × AesBlock :=
  let out := aes128EncryptBlock ctx (addRoundKey block prev)
  (out, out)

def cbcDecryptStep (ctx : Aes128Ctx) (prev block : AesBlock) : AesBlock × AesBlock :=
  (addRoundKey (aes128DecryptBlock ctx block) prev, block)

section Chain

variable (f : AesBlock → AesBlock → AesBlock × AesBlock)

/-- What a chain writes, where `f` gives a block's output and what the next block is chained to. -/
def chainBlocks : AesBlock → List AesBlock → List AesBlock
  | _, [] => []
  | prev, block :: rest => (f prev block).1 :: chainBlocks (f prev block).2 rest

variable {f}

theorem chainBlocks_cancel {g : AesBlock → AesBlock → AesBlock × AesBlock}
    (h : ∀ prev block, g prev (f prev block).1 = (block, (f prev block).2)) (prev : AesBlock)
    (blocks : List AesBlock) : chainBlocks g prev (chainBlocks f prev blocks) = blocks := by
  induction blocks generalizing prev with
  | nil => rfl
  | cons block rest ih => rw [chainBlocks, chainBlocks, h, ih]

end Chain

theorem cbcDecryptStep_encryptStep (ctx : Aes128Ctx) (prev block : AesBlock) :
    cbcDecryptStep ctx prev (cbcEncryptStep ctx prev block).1 =
      (block, (cbcEncryptStep ctx prev block).2) := by
  rw [cbcDecryptStep, cbcEncryptStep, aes128DecryptBlock_encryptBlock, addRoundKey_addRoundKey]

theorem cbcEncryptStep_decryptStep (ctx : Aes128Ctx) (prev block : AesBlock) :
    cbcEncryptStep ctx prev (cbcDecryptStep ctx prev block).1 =
      (block, (cbcDecryptStep ctx prev block).2) := by
  rw [cbcEncryptStep, cbcDecryptStep, addRoundKey_addRoundKey, aes128EncryptBlock_decryptBlock]

theorem cbcDecryptBlocks_eq_chainBlocks (ctx : Aes128Ctx) (prev : AesBlock)
    (blocks : List AesBlock) :
    cbcDecryptBlocks ctx prev blocks = chainBlocks (cbcDecryptStep ctx) prev blocks := by
  induction blocks generalizing prev with
  | nil => rfl
  | cons block rest ih => rw [cbcDecryptBlocks, chainBlocks, ih]; rfl

/-! ## Buffers -/

abbrev Buffer := Nat → BitVec 8

def blockIn (m : Buffer) (p : Nat) : AesBlock := Vector.ofFn fun i => m (p + i.val)

def storeBlock (m : Buffer) (p : Nat) (block : AesBlock) : Buffer :=
  fun a => if h : p ≤ a ∧ a < p + 16 then block.get ⟨a - p, by omega⟩ else m a

/-- The chaining loop at an offset: a block is read whole before its output is written, and the
block the next one is chained to is copied. -/
def chainFrom (f : AesBlock → AesBlock → AesBlock × AesBlock) (inp out : Nat) :
    Nat → Nat → AesBlock → Buffer → Buffer
  | 0, _, _, m => m
  | n + 1, off, prev, m =>
    let step := f prev (blockIn m (inp + off))
    chainFrom f inp out n (off + 16) step.2 (storeBlock m (out + off) step.1)

def aes128CbcEncryptAt (key iv : AesBlock) (inp out len : Nat) (m : Buffer) : Buffer :=
  chainFrom (cbcEncryptStep (aes128Init key)) inp out ((len + 15) / 16) 0 iv m

def aes128CbcDecryptAt (key iv : AesBlock) (inp out len : Nat) (m : Buffer) : Buffer :=
  chainFrom (cbcDecryptStep (aes128Init key)) inp out ((len + 15) / 16) 0 iv m

def bytesIn (m : Buffer) (p len : Nat) : List (BitVec 8) := (List.range len).map fun i => m (p + i)

def blocksIn (m : Buffer) (p : Nat) : Nat → List AesBlock
  | 0 => []
  | n + 1 => blockIn m p :: blocksIn m (p + 16) n

theorem blockIn_congr {m m' : Buffer} {p : Nat} (h : ∀ a, p ≤ a → a < p + 16 → m a = m' a) :
    blockIn m p = blockIn m' p := by
  refine Vector.ext fun i hi => ?_
  simp only [blockIn, Vector.getElem_ofFn]
  exact h _ (by omega) (by omega)

theorem blocksIn_congr {m m' : Buffer} :
    ∀ {n p : Nat}, (∀ a, p ≤ a → a < p + 16 * n → m a = m' a) → blocksIn m p n = blocksIn m' p n
  | 0, _, _ => rfl
  | n + 1, p, h => by
    have hHead : blockIn m p = blockIn m' p := blockIn_congr fun a hl hr => h a hl (by omega)
    have hTail : blocksIn m (p + 16) n = blocksIn m' (p + 16) n :=
      blocksIn_congr fun a hl hr => h a (by omega) (by omega)
    rw [blocksIn, blocksIn, hHead, hTail]

theorem storeBlock_of_outside {m : Buffer} {p a : Nat} {block : AesBlock}
    (h : a < p ∨ p + 16 ≤ a) : storeBlock m p block a = m a :=
  dif_neg (by omega)

theorem blockIn_storeBlock (m : Buffer) (p : Nat) (block : AesBlock) :
    blockIn (storeBlock m p block) p = block := by
  refine Vector.ext fun i hi => ?_
  have hIn : p ≤ p + i ∧ p + i < p + 16 := by omega
  simp only [blockIn, Vector.getElem_ofFn, storeBlock, dif_pos hIn, Nat.add_sub_cancel_left]
  rfl

/-- The loop leaves what lies before its output alone. -/
theorem chainFrom_of_lt {f : AesBlock → AesBlock → AesBlock × AesBlock} {inp out a : Nat} :
    ∀ {n off : Nat} {prev : AesBlock} {m : Buffer}, a < out + off →
      chainFrom f inp out n off prev m a = m a
  | 0, _, _, _, _ => rfl
  | n + 1, off, prev, m, h => by
    rw [chainFrom, chainFrom_of_lt (by omega), storeBlock_of_outside (Or.inl h)]

/-- What the loop writes, where no block is written over before it is read. -/
theorem blocksIn_chainFrom {f : AesBlock → AesBlock → AesBlock × AesBlock} {inp out : Nat} :
    ∀ {n off : Nat}, (out ≤ inp ∨ inp + (off + 16 * n) ≤ out) → ∀ (prev : AesBlock) (m : Buffer),
      blocksIn (chainFrom f inp out n off prev m) (out + off) n =
        chainBlocks f prev (blocksIn m (inp + off) n)
  | 0, _, _, _, _ => rfl
  | n + 1, off, h, prev, m => by
    have hAfter : out ≤ inp ∨ inp + (off + 16 + 16 * n) ≤ out := by omega
    have hRest := blocksIn_chainFrom (f := f) hAfter
    have hUnread : blocksIn (storeBlock m (out + off) (f prev (blockIn m (inp + off))).1)
        (inp + (off + 16)) n = blocksIn m (inp + off + 16) n :=
      blocksIn_congr fun a hl hr => by
        have hOutside : a < out + off ∨ out + off + 16 ≤ a := by omega
        rw [storeBlock_of_outside hOutside]
    have hFirst : blockIn (chainFrom f inp out (n + 1) off prev m) (out + off) =
        (f prev (blockIn m (inp + off))).1 := by
      rw [chainFrom, ← blockIn_storeBlock m (out + off) (f prev (blockIn m (inp + off))).1]
      refine blockIn_congr fun a hl hr => ?_
      have hBefore : a < out + (off + 16) := by omega
      rw [chainFrom_of_lt hBefore, blockIn_storeBlock]
    rw [blocksIn, blocksIn, chainBlocks, hFirst, ← hUnread]
    exact congrArg _ (hRest _ _)

theorem bytesIn_sixteen (m : Buffer) (p : Nat) : bytesIn m p 16 = (blockIn m p).toList := by
  refine List.ext_getElem (by simp [bytesIn]) fun i hl hr => ?_
  simp [bytesIn, blockIn]

theorem bytesIn_add (m : Buffer) (p k len : Nat) :
    bytesIn m p (k + len) = bytesIn m p k ++ bytesIn m (p + k) len := by
  rw [bytesIn, List.range_add, List.map_append, List.map_map]
  simp [bytesIn, Nat.add_assoc]

theorem bytesIn_eq_flatMap (m : Buffer) :
    ∀ n p : Nat, bytesIn m p (16 * n) = (blocksIn m p n).flatMap Vector.toList
  | 0, _ => rfl
  | n + 1, p => by
    rw [Nat.mul_succ, Nat.add_comm, bytesIn_add, bytesIn_sixteen, bytesIn_eq_flatMap m n (p + 16),
      blocksIn, List.flatMap_cons]

/-- An output buffer the cipher may be given: the input buffer, or one apart from it. -/
def OutputFor (inp out len : Nat) : Prop := out = inp ∨ inp + len ≤ out ∨ out + len ≤ inp

section Buffers

variable {key iv : AesBlock} {inp out len n : Nat} {m : Buffer}

theorem blocksIn_aes128CbcEncryptAt (hLen : len = 16 * n) (h : OutputFor inp out len) :
    blocksIn (aes128CbcEncryptAt key iv inp out len m) out n =
      chainBlocks (cbcEncryptStep (aes128Init key)) iv (blocksIn m inp n) := by
  have hBlocks : (len + 15) / 16 = n := by omega
  have hApart : out ≤ inp ∨ inp + (0 + 16 * n) ≤ out := by
    rcases h with h | h | h <;> omega
  rw [aes128CbcEncryptAt, hBlocks]
  exact blocksIn_chainFrom hApart iv m

theorem blocksIn_aes128CbcDecryptAt (hLen : len = 16 * n) (h : OutputFor inp out len) :
    blocksIn (aes128CbcDecryptAt key iv inp out len m) out n =
      chainBlocks (cbcDecryptStep (aes128Init key)) iv (blocksIn m inp n) := by
  have hBlocks : (len + 15) / 16 = n := by omega
  have hApart : out ≤ inp ∨ inp + (0 + 16 * n) ≤ out := by
    rcases h with h | h | h <;> omega
  rw [aes128CbcDecryptAt, hBlocks]
  exact blocksIn_chainFrom hApart iv m

end Buffers

/-- The buffers hold what decrypting the list of bytes gives. -/
theorem bytesIn_aes128CbcDecryptAt (key iv : AesBlock) (m : Buffer) {inp out len : Nat}
    (hLen : 16 ∣ len) (h : OutputFor inp out len) :
    bytesIn (aes128CbcDecryptAt key iv inp out len m) out len =
      aes128CbcDecrypt key iv (bytesIn m inp len) := by
  obtain ⟨n, rfl⟩ := hLen
  have hCount : ((bytesIn m inp (16 * n)).length + 15) / 16 = n := by
    simp only [bytesIn, List.length_map, List.length_range]
    omega
  have hBlocks : ∀ k inp, (List.range k).map (fun i => blockIn m (inp + 16 * i)) =
      blocksIn m inp k := by
    intro k
    induction k with
    | zero => exact fun _ => rfl
    | succ k ih =>
      intro inp
      rw [List.range_succ_eq_map, List.map_cons, List.map_map, blocksIn, ← ih]
      simp [Nat.mul_add, Nat.add_assoc, Nat.add_comm 16]
  have hRead : ∀ i ∈ List.range n,
      blockAt (bytesIn m inp (16 * n)) (16 * i) = blockIn m (inp + 16 * i) := by
    intro i hi
    have hi := List.mem_range.1 hi
    refine Vector.ext fun k hk => ?_
    simp only [blockAt, blockIn, Vector.getElem_ofFn, bytesIn]
    have hIn : 16 * i + k < 16 * n := by omega
    simp [List.getD_eq_getElem?_getD, hIn, Nat.add_assoc]
  rw [bytesIn_eq_flatMap, blocksIn_aes128CbcDecryptAt rfl h, aes128CbcDecrypt, hCount,
    cbcDecryptBlocks_eq_chainBlocks, ← hBlocks]
  rw [List.map_congr_left hRead]

theorem bytesIn_aes128CbcDecryptAt_in_place :
    bytesIn (aes128CbcDecryptAt default default 0 0 32 (BitVec.ofNat 8)) 0 32 =
      aes128CbcDecrypt default default (bytesIn (BitVec.ofNat 8) 0 32) :=
  bytesIn_aes128CbcDecryptAt _ _ _ (by decide) (Or.inl rfl)

/-- Encrypting and decrypting undo each other, whether the buffers are apart or one. -/
theorem aes128Cbc_inverse (key iv : AesBlock) (len : Nat) (hLen : 16 ∣ len) :
    (∀ (m : Buffer) (inp mid out : Nat), OutputFor inp mid len → OutputFor mid out len →
      bytesIn (aes128CbcDecryptAt key iv mid out len (aes128CbcEncryptAt key iv inp mid len m)) out
          len = bytesIn m inp len ∧
        bytesIn (aes128CbcEncryptAt key iv mid out len (aes128CbcDecryptAt key iv inp mid len m))
          out len = bytesIn m inp len) ∧
    (∀ (m : Buffer) (inp out : Nat), OutputFor inp out len →
      bytesIn (aes128CbcEncryptAt key iv inp inp len m) inp len =
          bytesIn (aes128CbcEncryptAt key iv inp out len m) out len ∧
        bytesIn (aes128CbcDecryptAt key iv inp inp len m) inp len =
          bytesIn (aes128CbcDecryptAt key iv inp out len m) out len) ∧
    ∀ (ctx : Aes128Ctx) (block : AesBlock),
      aes128DecryptBlock ctx (aes128EncryptBlock ctx block) = block ∧
        aes128EncryptBlock ctx (aes128DecryptBlock ctx block) = block := by
  obtain ⟨n, rfl⟩ := hLen
  refine ⟨fun m inp mid out hMid hOut => ⟨?_, ?_⟩, fun m inp out h => ⟨?_, ?_⟩, fun ctx block =>
    ⟨aes128DecryptBlock_encryptBlock ctx block, aes128EncryptBlock_decryptBlock ctx block⟩⟩
  · rw [bytesIn_eq_flatMap, bytesIn_eq_flatMap, blocksIn_aes128CbcDecryptAt rfl hOut,
      blocksIn_aes128CbcEncryptAt rfl hMid,
      chainBlocks_cancel (cbcDecryptStep_encryptStep (aes128Init key))]
  · rw [bytesIn_eq_flatMap, bytesIn_eq_flatMap, blocksIn_aes128CbcEncryptAt rfl hOut,
      blocksIn_aes128CbcDecryptAt rfl hMid,
      chainBlocks_cancel (cbcEncryptStep_decryptStep (aes128Init key))]
  · rw [bytesIn_eq_flatMap, bytesIn_eq_flatMap, blocksIn_aes128CbcEncryptAt rfl h,
      blocksIn_aes128CbcEncryptAt rfl (Or.inl rfl)]
  · rw [bytesIn_eq_flatMap, bytesIn_eq_flatMap, blocksIn_aes128CbcDecryptAt rfl h,
      blocksIn_aes128CbcDecryptAt rfl (Or.inl rfl)]

theorem aes128Cbc_inverse_two_blocks :
    16 ∣ 32 ∧ bytesIn (aes128CbcDecryptAt (Vector.replicate 16 1) (Vector.replicate 16 0) 64 64 32
      (aes128CbcEncryptAt (Vector.replicate 16 1) (Vector.replicate 16 0) 0 64 32
        (fun a => BitVec.ofNat 8 a))) 64 32 = bytesIn (fun a => BitVec.ofNat 8 a) 0 32 :=
  ⟨by decide, ((aes128Cbc_inverse (Vector.replicate 16 1) (Vector.replicate 16 0) 32
    (by decide)).1 (fun a => BitVec.ofNat 8 a) 0 64 64 (Or.inr (Or.inl (by decide)))
    (Or.inl rfl)).1⟩

end Calynda.Decompiler
