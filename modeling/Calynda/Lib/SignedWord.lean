import Mathlib.Tactic.Ring

/-!
# Signed and unsigned readings of a word

A word of `w` bits is read as a number in two ways. Addition, subtraction and multiplication
do not depend on the reading; for the operations that do, the two results are compared here:
each theorem says for exactly which operands they are the same word.
-/

namespace SignedWord

variable {w : Nat}

/-! ## Comparisons -/

theorem slt_eq_ult_iff (x y : BitVec w) : x.slt y = x.ult y ↔ x.msb = y.msb := by
  constructor
  · intro h
    by_contra hMsb
    rw [BitVec.slt_eq_not_ult_of_msb_neq hMsb] at h
    cases hUlt : x.ult y <;> rw [hUlt] at h <;> exact nomatch h
  · exact BitVec.slt_eq_ult_of_msb_eq

theorem sle_eq_ule_iff (x y : BitVec w) : x.sle y = x.ule y ↔ x.msb = y.msb := by
  have h := slt_eq_ult_iff y x
  rw [BitVec.sle_eq_not_slt, BitVec.ule_eq_not_ult, Bool.not_inj_iff, h]
  exact eq_comm

/-! ## Shifts and complements -/

theorem sshiftRight_eq_ushiftRight_iff (x : BitVec w) (s : Nat) :
    x.sshiftRight s = x >>> s ↔ x.msb = false ∨ s = 0 := by
  constructor
  · intro h
    by_contra hNot
    rw [not_or, Bool.not_eq_false] at hNot
    have hMsb := congrArg BitVec.msb h
    rw [BitVec.msb_sshiftRight, BitVec.msb_ushiftRight, hNot.1] at hMsb
    simp [hNot.2] at hMsb
  · rintro (h | rfl)
    · exact BitVec.sshiftRight_eq_of_msb_false h
    · simp

theorem not_and_eq_and_not_iff (x y : BitVec w) :
    ~~~(x &&& y) = x &&& ~~~y ↔ x = BitVec.allOnes w := by
  constructor
  · intro h
    refine BitVec.eq_of_getElem_eq fun i hi => ?_
    have hBit := congrArg (fun z => z.getLsbD i) h
    simp only [BitVec.getLsbD_not, BitVec.getLsbD_and, hi, decide_true, Bool.true_and] at hBit
    rw [BitVec.getElem_allOnes, ← BitVec.getLsbD_eq_getElem]
    cases hx : x.getLsbD i
    · rw [hx] at hBit
      exact nomatch hBit
    · rfl
  · rintro rfl
    simp

theorem not_xor_eq_xor_not (x y : BitVec w) : ~~~(x ^^^ y) = x ^^^ ~~~y := by
  ext i hi
  simp

/-! ## Division

`n` is the number of words; a word of value `a` is negative when `n ≤ 2 * a`, and then has
the magnitude `n - a`. -/

section
variable {n a b : Nat}

/-- A negative number over a non-negative one. -/
theorem neg_div_eq_iff (ha : n ≤ 2 * a) (han : a < n) (hb : 0 < b) (hbn : 2 * b < n) :
    (n - (n - a) / b) % n = a / b ↔ b = 1 := by
  constructor
  · intro h
    by_contra hOne
    have hTwo : 2 ≤ b := by omega
    have hSmall : a / b ≤ a / 2 := Nat.div_le_div_left hTwo (by omega)
    have hPos : 1 ≤ a / b := (Nat.one_le_div_iff hb).2 (by omega)
    have hQuot : (n - a) / b ≤ (n - a) / 2 := Nat.div_le_div_left hTwo (by omega)
    rcases Nat.eq_zero_or_pos ((n - a) / b) with hZero | hQuotPos
    · rw [hZero, Nat.sub_zero, Nat.mod_self] at h
      omega
    · rw [Nat.mod_eq_of_lt (by omega)] at h
      omega
  · rintro rfl
    rw [Nat.div_one, Nat.div_one, Nat.mod_eq_of_lt (by omega)]
    omega

/-- A non-negative number over a negative one. -/
theorem div_neg_eq_iff (ha : 2 * a < n) (hb : n ≤ 2 * b) (hbn : b < n) :
    (n - a / (n - b)) % n = a / b ↔ a < n - b := by
  rw [Nat.div_eq_of_lt (show a < b by omega)]
  constructor
  · intro h
    by_contra hGe
    have hPos : 1 ≤ a / (n - b) := (Nat.one_le_div_iff (by omega)).2 (by omega)
    have hLe : a / (n - b) ≤ a := Nat.div_le_self _ _
    rw [Nat.mod_eq_of_lt (by omega)] at h
    omega
  · intro h
    rw [Nat.div_eq_of_lt h, Nat.sub_zero, Nat.mod_self]

/-- Two negative numbers. -/
theorem neg_div_neg_eq_iff (ha : n ≤ 2 * a) (han : a < n) (hb : n ≤ 2 * b) (hbn : b < n) :
    (n - a) / (n - b) = a / b ↔ a = b := by
  rcases Nat.lt_trichotomy a b with h | rfl | h
  · rw [Nat.div_eq_of_lt h]
    have hPos : 1 ≤ (n - a) / (n - b) := (Nat.one_le_div_iff (by omega)).2 (by omega)
    omega
  · rw [Nat.div_self (by omega), Nat.div_self (by omega)]
    exact iff_of_true rfl rfl
  · rw [Nat.div_eq_of_lt (show n - a < n - b by omega)]
    have hPos : 1 ≤ a / b := (Nat.one_le_div_iff (by omega)).2 (by omega)
    omega

/-- The remainder of a negative number by a non-negative one. -/
theorem neg_mod_eq_iff (ha : n ≤ 2 * a) (han : a < n) (hb : 0 < b) (hbn : 2 * b < n) :
    (n - (n - a) % b) % n = a % b ↔ b ∣ n - a ∧ b ∣ n := by
  have hRem : (n - a) % b < b := Nat.mod_lt _ hb
  have hRem' : a % b < b := Nat.mod_lt _ hb
  have hSum : b ∣ n - a → (b ∣ n ↔ a % b = 0) := by
    intro hDvd
    have hAdd := Nat.dvd_add_right (c := a) hDvd
    rwa [Nat.sub_add_cancel (by omega), Nat.dvd_iff_mod_eq_zero (n := a)] at hAdd
  rcases Nat.eq_zero_or_pos ((n - a) % b) with hZero | hPos
  · have hDvd : b ∣ n - a := Nat.dvd_of_mod_eq_zero hZero
    rw [hZero, Nat.sub_zero, Nat.mod_self, hSum hDvd]
    exact ⟨fun h => ⟨hDvd, h.symm⟩, fun h => h.2.symm⟩
  · rw [Nat.mod_eq_of_lt (by omega)]
    refine ⟨fun h => by omega, fun h => ?_⟩
    rw [Nat.mod_eq_zero_of_dvd h.1] at hPos
    omega

/-- The remainder of a non-negative number by a negative one. -/
theorem mod_neg_eq_iff (ha : 2 * a < n) (hb : n ≤ 2 * b) (hbn : b < n) :
    a % (n - b) = a % b ↔ a < n - b := by
  rw [Nat.mod_eq_of_lt (show a < b by omega)]
  constructor
  · intro h
    have hLt : a % (n - b) < n - b := Nat.mod_lt _ (by omega)
    omega
  · exact Nat.mod_eq_of_lt

/-- The remainder of two negative numbers. -/
theorem neg_mod_neg_eq_iff (ha : n ≤ 2 * a) (han : a < n) (hb : n ≤ 2 * b) (hbn : b < n) :
    (n - (n - a) % (n - b)) % n = a % b ↔ a = b := by
  rcases Nat.lt_trichotomy a b with h | rfl | h
  · rw [Nat.mod_eq_of_lt h]
    have hLt : (n - a) % (n - b) < n - b := Nat.mod_lt _ (by omega)
    rcases Nat.eq_zero_or_pos ((n - a) % (n - b)) with hZero | hPos
    · rw [hZero, Nat.sub_zero, Nat.mod_self]
      omega
    · rw [Nat.mod_eq_of_lt (by omega)]
      omega
  · rw [Nat.mod_self, Nat.mod_self, Nat.sub_zero, Nat.mod_self]
    exact iff_of_true rfl rfl
  · rw [Nat.mod_eq_of_lt (show n - a < n - b by omega), Nat.mod_eq_sub_mod (Nat.le_of_lt h),
      Nat.mod_eq_of_lt (show a - b < b by omega), Nat.mod_eq_of_lt (by omega)]
    omega

end

/-- The operands for which the signed quotient is the unsigned one. -/
def QuotientsAgree (x y : BitVec w) : Prop :=
  (0 ≤ x.toInt ∧ 0 ≤ y.toInt) ∨ y.toInt = 1 ∨
    (0 ≤ x.toInt ∧ y.toInt < 0 ∧ x.toInt < -y.toInt) ∨ (x.toInt < 0 ∧ x.toInt = y.toInt)

/-- The operands for which the signed remainder is the unsigned one. -/
def RemaindersAgree (x y : BitVec w) : Prop :=
  (0 ≤ x.toInt ∧ 0 ≤ y.toInt) ∨
    (0 ≤ x.toInt ∧ y.toInt < 0 ∧ x.toInt < -y.toInt) ∨ (x.toInt < 0 ∧ x.toInt = y.toInt) ∨
    (x.toInt < 0 ∧ 0 < y.toInt ∧ y.toInt ∣ x.toInt ∧ y.toInt ∣ (2 ^ w : Nat))

/-- The two readings of a word. -/
theorem toInt_of_msb (x : BitVec w) :
    (x.msb = false → x.toInt = x.toNat ∧ 2 * x.toNat < 2 ^ w) ∧
      (x.msb = true →
        x.toInt = x.toNat - (2 ^ w : Nat) ∧ 2 ^ w ≤ 2 * x.toNat ∧ x.toNat < 2 ^ w) := by
  have hLt := x.isLt
  rw [BitVec.msb_eq_toInt, BitVec.toInt_eq_toNat_cond]
  refine ⟨fun h => ?_, fun h => ?_⟩
  · split at h
    · next hHalf => exact ⟨by rw [if_pos hHalf], hHalf⟩
    · simp only [decide_eq_false_iff_not, not_lt] at h
      omega
  · split at h
    · simp only [decide_eq_true_eq] at h
      omega
    · next hHalf => exact ⟨by rw [if_neg hHalf], by omega, hLt⟩

theorem toNat_neg_of_msb {x : BitVec w} (h : x.msb = true) : (-x).toNat = 2 ^ w - x.toNat := by
  obtain ⟨-, hHalf, hLt⟩ := (toInt_of_msb x).2 h
  rw [BitVec.toNat_neg, Nat.mod_eq_of_lt (by omega)]

theorem sdiv_eq_udiv_iff (x y : BitVec w) (hy : y ≠ 0) :
    x.sdiv y = x / y ↔ QuotientsAgree x y := by
  have hyPos : 0 < y.toNat :=
    Nat.pos_of_ne_zero fun h => hy (BitVec.eq_of_toNat_eq (by simpa using h))
  unfold QuotientsAgree
  rw [BitVec.sdiv_eq, ← BitVec.toNat_inj]
  cases hx : x.msb <;> cases hyMsb : y.msb <;>
    simp only [BitVec.udiv_eq, BitVec.toNat_udiv]
  · obtain ⟨hxInt, -⟩ := (toInt_of_msb x).1 hx
    obtain ⟨hyInt, -⟩ := (toInt_of_msb y).1 hyMsb
    exact iff_of_true trivial (.inl (by omega))
  · obtain ⟨hxInt, hxHalf⟩ := (toInt_of_msb x).1 hx
    obtain ⟨hyInt, hyHalf, hyLt⟩ := (toInt_of_msb y).2 hyMsb
    rw [BitVec.toNat_neg, BitVec.toNat_udiv, toNat_neg_of_msb hyMsb,
      div_neg_eq_iff hxHalf hyHalf hyLt]
    omega
  · obtain ⟨hxInt, hxHalf, hxLt⟩ := (toInt_of_msb x).2 hx
    obtain ⟨hyInt, hyHalf⟩ := (toInt_of_msb y).1 hyMsb
    rw [BitVec.toNat_neg, BitVec.toNat_udiv, toNat_neg_of_msb hx,
      neg_div_eq_iff hxHalf hxLt hyPos hyHalf]
    omega
  · obtain ⟨hxInt, hxHalf, hxLt⟩ := (toInt_of_msb x).2 hx
    obtain ⟨hyInt, hyHalf, hyLt⟩ := (toInt_of_msb y).2 hyMsb
    rw [toNat_neg_of_msb hx, toNat_neg_of_msb hyMsb,
      neg_div_neg_eq_iff hxHalf hxLt hyHalf hyLt]
    omega

theorem srem_eq_umod_iff (x y : BitVec w) (hy : y ≠ 0) :
    x.srem y = x % y ↔ RemaindersAgree x y := by
  have hyPos : 0 < y.toNat :=
    Nat.pos_of_ne_zero fun h => hy (BitVec.eq_of_toNat_eq (by simpa using h))
  unfold RemaindersAgree
  rw [BitVec.srem_eq, ← BitVec.toNat_inj]
  cases hx : x.msb <;> cases hyMsb : y.msb <;> simp only [BitVec.toNat_umod]
  · obtain ⟨hxInt, -⟩ := (toInt_of_msb x).1 hx
    obtain ⟨hyInt, -⟩ := (toInt_of_msb y).1 hyMsb
    exact iff_of_true trivial (.inl (by omega))
  · obtain ⟨hxInt, hxHalf⟩ := (toInt_of_msb x).1 hx
    obtain ⟨hyInt, hyHalf, hyLt⟩ := (toInt_of_msb y).2 hyMsb
    rw [toNat_neg_of_msb hyMsb, mod_neg_eq_iff hxHalf hyHalf hyLt]
    omega
  · obtain ⟨hxInt, hxHalf, hxLt⟩ := (toInt_of_msb x).2 hx
    obtain ⟨hyInt, hyHalf⟩ := (toInt_of_msb y).1 hyMsb
    have hDvd : (y.toInt ∣ x.toInt) ↔ y.toNat ∣ 2 ^ w - x.toNat := by
      rw [← Int.dvd_neg, hyInt, ← Int.natCast_dvd_natCast]
      rw [show -x.toInt = ((2 ^ w - x.toNat : Nat) : Int) by omega]
    have hDvd' : (y.toInt ∣ (2 ^ w : Nat)) ↔ y.toNat ∣ 2 ^ w := by
      rw [hyInt, Int.natCast_dvd_natCast]
    rw [BitVec.toNat_neg, BitVec.toNat_umod, toNat_neg_of_msb hx,
      neg_mod_eq_iff hxHalf hxLt hyPos hyHalf, ← hDvd, ← hDvd']
    constructor
    · intro h
      exact .inr (.inr (.inr ⟨by omega, by omega, h⟩))
    · rintro (h | h | h | ⟨-, -, h⟩)
      · omega
      · omega
      · omega
      · exact h
  · obtain ⟨hxInt, hxHalf, hxLt⟩ := (toInt_of_msb x).2 hx
    obtain ⟨hyInt, hyHalf, hyLt⟩ := (toInt_of_msb y).2 hyMsb
    rw [BitVec.toNat_neg, BitVec.toNat_umod, toNat_neg_of_msb hx, toNat_neg_of_msb hyMsb,
      neg_mod_neg_eq_iff hxHalf hxLt hyHalf hyLt]
    omega

end SignedWord
