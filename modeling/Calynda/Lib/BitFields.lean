import Mathlib.Algebra.Group.Nat.Defs

/-!
# Words made of bit fields

A layout lists the fields of a word from the most significant one on, each with its width and
its value. The word of a layout is the only one of its width that has these fields.
-/

namespace BitFields

/-- The number of bits of a layout. -/
def width : List (Nat × Nat) → Nat
  | [] => 0
  | (w, _) :: fields => w + width fields

def pack : List (Nat × Nat) → Nat
  | [] => 0
  | (_, v) :: fields => v * 2 ^ width fields + pack fields

/-- The low bits of a number are the fields of the layout. -/
def Holds (n : Nat) : List (Nat × Nat) → Prop
  | [] => True
  | (w, v) :: fields => n / 2 ^ width fields % 2 ^ w = v ∧ Holds n fields

/-- Every value fits its field. -/
def Fit (fields : List (Nat × Nat)) : Prop := ∀ f ∈ fields, f.2 < 2 ^ f.1

variable {fields : List (Nat × Nat)} {n : Nat}

theorem pack_lt (h : Fit fields) : pack fields < 2 ^ width fields := by
  induction fields with
  | nil => exact Nat.one_pos
  | cons f fields ih =>
    obtain ⟨w, v⟩ := f
    have hRest := ih fun f hf => h f (List.mem_cons_of_mem _ hf)
    have hHead : v + 1 ≤ 2 ^ w := h (w, v) List.mem_cons_self
    have hMul := Nat.mul_le_mul_right (2 ^ width fields) hHead
    rw [Nat.add_mul, Nat.one_mul] at hMul
    rw [pack, width, Nat.pow_add]
    omega

theorem holds_add_pack (h : Fit fields) (m : Nat) : Holds (m * 2 ^ width fields + pack fields) fields := by
  induction fields generalizing m with
  | nil => trivial
  | cons f fields ih =>
    obtain ⟨w, v⟩ := f
    have hFit : Fit fields := fun f hf => h f (List.mem_cons_of_mem _ hf)
    have hHead : v < 2 ^ w := h (w, v) List.mem_cons_self
    have hEq : m * 2 ^ (w + width fields) + (v * 2 ^ width fields + pack fields) =
        (m * 2 ^ w + v) * 2 ^ width fields + pack fields := by
      rw [Nat.add_mul, Nat.pow_add, Nat.mul_assoc, Nat.add_assoc]
    rw [pack, width, hEq]
    refine ⟨?_, ih hFit _⟩
    rw [Nat.add_comm, Nat.add_mul_div_right _ _ (Nat.two_pow_pos _),
      Nat.div_eq_of_lt (pack_lt hFit), Nat.zero_add, Nat.add_comm, Nat.add_mul_mod_self_right,
      Nat.mod_eq_of_lt hHead]

theorem holds_pack (h : Fit fields) : Holds (pack fields) fields := by
  have hHolds := holds_add_pack h 0
  rwa [Nat.zero_mul, Nat.zero_add] at hHolds

theorem pack_of_holds (h : Holds n fields) : n % 2 ^ width fields = pack fields := by
  induction fields with
  | nil => exact Nat.mod_one n
  | cons f fields ih =>
    obtain ⟨w, v⟩ := f
    rw [width, Nat.add_comm, Nat.pow_add, Nat.mod_mul, ih h.2, h.1, pack, Nat.mul_comm, Nat.add_comm]

end BitFields
