import Calynda.Sema.Merging

/-!
# The order of merged types

Promoting a list of numbers gives one result in all orders where one of them absorbs the others,
or where signed and unsigned types meet in one way only. Which lists of types merge alike in all
orders follows.
-/

namespace Calynda

open List Calynda.Lib

namespace NumClass

/-! ## Promotion in any order -/

def joinOp (a b : NumClass) : Option NumClass := some (a.join b)

def IsUnsigned : NumClass → Prop
  | .int false _ => True
  | _ => False

instance : DecidablePred IsUnsigned
  | .float64 => isFalse id
  | .float32 => isFalse id
  | .int false _ => isTrue trivial
  | .int true _ => isFalse id

/-- Lists that promote to one type in any order: floating types absorb integers, types of one
sign grow only, an unsigned type of 64 bits absorbs all integers; signed and unsigned types meet
at 64 bits where the signed ones are that wide, or meet once where none is. -/
inductive Stable (cs : List NumClass) : Prop where
  | float64 (h : .float64 ∈ cs)
  | float32 (h : .float32 ∈ cs)
  | oneSign (s : Bool) (h : ∀ c ∈ cs, ∃ w, c = .int s w)
  | uint64 (h : .int false 64 ∈ cs)
  | signedWide (h : ∀ w, .int true w ∈ cs → w = 64)
  | oneUnsigned (h : ∀ w, .int true w ∈ cs → w < 64) (hOne : cs.countP (IsUnsigned ·) = 1)

section Join

variable {s : Bool} {w v : Nat}

theorem join_float64 (c : NumClass) : float64.join c = float64 ∧ c.join float64 = float64 := by
  cases c <;> exact ⟨rfl, rfl⟩

theorem join_float32 {c : NumClass} (h : c ≠ .float64) :
    float32.join c = float32 ∧ c.join float32 = float32 := by
  cases c with
  | float64 => exact absurd rfl h
  | float32 => exact ⟨rfl, rfl⟩
  | int s w => exact ⟨rfl, rfl⟩

theorem join_same : (int s w).join (int s v) = int s (max w v) := if_pos rfl

theorem join_narrow (hs : s = !t) (h : max w v < 64) :
    (int s w).join (int t v) = int true 64 := by
  have hNe : s ≠ t := by
    rw [hs]
    exact Bool.not_ne_self t
  simp only [join, hNe, h, if_false, if_true]

theorem join_wide (hs : s = !t) (h : 64 ≤ max w v) :
    (int s w).join (int t v) = int false 64 := by
  have hNe : s ≠ t := by
    rw [hs]
    exact Bool.not_ne_self t
  simp only [join, hNe, Nat.not_lt.mpr h, if_false]

/-- An unsigned type of 64 bits absorbs the integers up to that width. -/
theorem join_uint64 (h : w ≤ 64) :
    (int false 64).join (int s w) = int false 64 ∧ (int s w).join (int false 64) = int false 64 := by
  cases s with
  | false =>
    rw [join_same, join_same, Nat.max_eq_left h, Nat.max_eq_right h]
    exact ⟨rfl, rfl⟩
  | true =>
    exact ⟨join_wide rfl (Nat.le_max_left _ _), join_wide rfl (Nat.le_max_right _ _)⟩

end Join

/-- An integer of at most 64 bits. -/
def IsInt (c : NumClass) : Prop := ∃ s w, c = .int s w ∧ w ≤ 64

theorem absorbs_float64 : Absorbs joinOp (fun _ => True) .float64 where
  closed := fun x y _ _ => ⟨x.join y, rfl, trivial⟩
  mem := trivial
  left := fun x _ => congrArg some (join_float64 x).1
  right := fun x _ => congrArg some (join_float64 x).2

theorem join_ne_float64 {a b : NumClass} (ha : a ≠ .float64) (hb : b ≠ .float64) :
    a.join b ≠ .float64 := by
  cases a with
  | float64 => exact absurd rfl ha
  | float32 => rw [(join_float32 hb).1]; exact ha
  | int s w =>
    cases b with
    | float64 => exact absurd rfl hb
    | float32 => rw [(join_float32 ha).2]; exact hb
    | int t v =>
      unfold join
      simp only
      split_ifs <;> simp

theorem absorbs_float32 : Absorbs joinOp (· ≠ .float64) .float32 where
  closed := fun x y hx hy => ⟨x.join y, rfl, join_ne_float64 hx hy⟩
  mem := by simp
  left := fun _ hx => congrArg some (join_float32 hx).1
  right := fun _ hx => congrArg some (join_float32 hx).2

theorem absorbs_widest (s : Bool) (m : Nat) :
    Absorbs joinOp (fun c => ∃ w, c = .int s w ∧ w ≤ m) (.int s m) where
  closed := by
    rintro _ _ ⟨w, rfl, hw⟩ ⟨v, rfl, hv⟩
    exact ⟨_, rfl, max w v, join_same, Nat.max_le.mpr ⟨hw, hv⟩⟩
  mem := ⟨m, rfl, le_rfl⟩
  left := by
    rintro _ ⟨w, rfl, hw⟩
    rw [joinOp, join_same, Nat.max_eq_left hw]
  right := by
    rintro _ ⟨w, rfl, hw⟩
    rw [joinOp, join_same, Nat.max_eq_right hw]

theorem isInt_join {a b : NumClass} (ha : a.IsInt) (hb : b.IsInt) : (a.join b).IsInt := by
  obtain ⟨s, w, rfl, hw⟩ := ha
  obtain ⟨t, v, rfl, hv⟩ := hb
  by_cases hSign : s = t
  · subst hSign
    exact ⟨s, max w v, join_same, Nat.max_le.mpr ⟨hw, hv⟩⟩
  · have hs : s = !t := Bool.eq_not_of_ne hSign
    by_cases h : max w v < 64
    · exact ⟨true, 64, join_narrow hs h, le_rfl⟩
    · exact ⟨false, 64, join_wide hs (Nat.not_lt.mp h), le_rfl⟩

theorem absorbs_uint64 : Absorbs joinOp IsInt (.int false 64) where
  closed := fun x y hx hy => ⟨x.join y, rfl, isInt_join hx hy⟩
  mem := ⟨false, 64, rfl, le_rfl⟩
  left := by
    rintro _ ⟨s, w, rfl, hw⟩
    exact congrArg some (join_uint64 hw).1
  right := by
    rintro _ ⟨s, w, rfl, hw⟩
    exact congrArg some (join_uint64 hw).2

/-! ## Signed and unsigned types that meet -/

theorem mem_unsigned {c : NumClass} (h : c.IsInt) : c.IsUnsigned ∨ ∃ w, c = .int true w ∧ w ≤ 64 := by
  obtain ⟨s, w, rfl, hw⟩ := h
  cases s with
  | false => exact .inl trivial
  | true => exact .inr ⟨w, rfl, hw⟩

theorem unsigned_cases {c : NumClass} (h : c.IsInt) (hU : c.IsUnsigned) :
    ∃ w, c = .int false w ∧ w ≤ 64 := by
  obtain ⟨s, w, rfl, hw⟩ := h
  cases s with
  | false => exact ⟨w, rfl, hw⟩
  | true => exact hU.elim

/-- Unsigned types and signed ones of 64 bits promote to the unsigned type of 64 bits. -/
theorem foldlM_signedWide {cs : List NumClass} {a : NumClass} (ha : a.IsInt)
    (hcs : ∀ c ∈ cs, c.IsInt) (hWide : ∀ w, .int true w ∈ a :: cs → w = 64)
    (hMeet : a = .int false 64 ∨ (a.IsUnsigned ∧ ∃ c ∈ cs, ¬ c.IsUnsigned) ∨
      (¬ a.IsUnsigned ∧ ∃ c ∈ cs, c.IsUnsigned)) :
    cs.foldlM joinOp a = some (.int false 64) := by
  induction cs generalizing a with
  | nil =>
    rcases hMeet with rfl | ⟨-, c, hc, -⟩ | ⟨-, c, hc, -⟩
    · rfl
    · cases hc
    · cases hc
  | cons b cs ih =>
    have hb := hcs b mem_cons_self
    have hcs' : ∀ c ∈ cs, c.IsInt := fun c hc => hcs c (mem_cons_of_mem b hc)
    change cs.foldlM joinOp (a.join b) = _
    have hMax : a = .int false 64 ∨ a.join b = .int false 64 →
        cs.foldlM joinOp (a.join b) = some (.int false 64) := by
      intro h
      have hJoin : a.join b = .int false 64 := by
        rcases h with rfl | h
        · obtain ⟨s, w, rfl, hw⟩ := hb
          exact (join_uint64 hw).1
        · exact h
      rw [hJoin]
      exact absorbs_uint64.foldlM_self hcs'
    by_cases hFull : a = .int false 64
    · exact hMax (.inl hFull)
    · by_cases hSame : a.IsUnsigned ↔ b.IsUnsigned
      · -- the types that have not met yet stay on their side
        have hNext : ∃ c ∈ cs, (a.IsUnsigned ↔ ¬ c.IsUnsigned) := by
          rcases hMeet with h | ⟨hU, c, hc, hcU⟩ | ⟨hU, c, hc, hcU⟩
          · exact absurd h hFull
          · rcases mem_cons.mp hc with rfl | hc
            · exact absurd (hSame.mp hU) hcU
            · exact ⟨c, hc, iff_of_true hU hcU⟩
          · rcases mem_cons.mp hc with rfl | hc
            · exact absurd (hSame.mpr hcU) hU
            · exact ⟨c, hc, iff_of_false hU (not_not.mpr hcU)⟩
        obtain ⟨c, hc, hOpposite⟩ := hNext
        rcases mem_unsigned ha with hU | ⟨w, rfl, hw⟩
        · obtain ⟨w, rfl, hw⟩ := unsigned_cases ha hU
          obtain ⟨v, rfl, hv⟩ := unsigned_cases hb (hSame.mp hU)
          rw [join_same]
          refine ih ⟨false, _, rfl, Nat.max_le.mpr ⟨hw, hv⟩⟩ hcs' ?_ (.inr (.inl ⟨trivial, c, hc,
            hOpposite.mp hU⟩))
          intro u hu
          rcases mem_cons.mp hu with h | hu
          · cases h
          · exact hWide u (mem_cons_of_mem _ (mem_cons_of_mem _ hu))
        · have hbU : ¬ b.IsUnsigned := fun h => (hSame.mpr h).elim
          rcases mem_unsigned hb with h | ⟨v, rfl, hv⟩
          · exact absurd h hbU
          · obtain rfl := hWide w mem_cons_self
            obtain rfl := hWide v (mem_cons_of_mem _ mem_cons_self)
            rw [join_self]
            refine ih ha hcs' ?_ (.inr (.inr ⟨hbU, c, hc, not_not.mp fun h => hbU
              (hOpposite.mpr h).elim⟩))
            intro u hu
            exact hWide u (mem_cons_of_mem _ hu)
      · refine hMax (.inr ?_)
        rcases mem_unsigned ha with hU | ⟨w, rfl, hw⟩
        · obtain ⟨w, rfl, hw⟩ := unsigned_cases ha hU
          rcases mem_unsigned hb with hbU | ⟨v, rfl, hv⟩
          · exact absurd (iff_of_true hU hbU) hSame
          · obtain rfl := hWide v (mem_cons_of_mem _ mem_cons_self)
            exact join_wide rfl (Nat.le_max_right _ _)
        · obtain rfl := hWide w mem_cons_self
          rcases mem_unsigned hb with hbU | ⟨v, rfl, hv⟩
          · obtain ⟨v, rfl, hv⟩ := unsigned_cases hb hbU
            exact join_wide rfl (Nat.le_max_left _ _)
          · exact absurd (iff_of_false id id) hSame

/-- A single unsigned type among signed ones, all below 64 bits, promotes to the signed type of 64
bits. -/
theorem foldlM_oneUnsigned {cs : List NumClass} {a : NumClass}
    (hcs : ∀ c ∈ cs, ∃ s w, c = .int s w ∧ w < 64)
    (hMeet : (∃ w, a = .int true w ∧ w < 64 ∧ cs.countP (IsUnsigned ·) = 1) ∨
      (∃ w, a = .int false w ∧ w < 64 ∧ cs.countP (IsUnsigned ·) = 0 ∧ cs ≠ []) ∨
      (a = .int true 64 ∧ cs.countP (IsUnsigned ·) = 0)) :
    cs.foldlM joinOp a = some (.int true 64) := by
  induction cs generalizing a with
  | nil =>
    rcases hMeet with ⟨w, -, -, h⟩ | ⟨w, -, -, -, h⟩ | ⟨rfl, -⟩
    · cases h
    · exact absurd rfl h
    · rfl
  | cons b cs ih =>
    obtain ⟨s, v, rfl, hv⟩ := hcs b mem_cons_self
    have hcs' : ∀ c ∈ cs, ∃ s w, c = .int s w ∧ w < 64 :=
      fun c hc => hcs c (mem_cons_of_mem _ hc)
    change cs.foldlM joinOp (a.join (.int s v)) = _
    rw [countP_cons] at hMeet
    rcases hMeet with ⟨w, rfl, hw, hCount⟩ | ⟨w, rfl, hw, hCount, -⟩ | ⟨rfl, hCount⟩
    · cases s with
      | false =>
        rw [join_narrow (s := true) (t := false) rfl (Nat.max_lt.mpr ⟨hw, hv⟩)]
        rw [if_pos (decide_eq_true (show IsUnsigned (.int false v) from trivial))] at hCount
        exact ih hcs' (.inr (.inr ⟨rfl, by omega⟩))
      | true =>
        rw [join_same]
        exact ih hcs' (.inl ⟨_, rfl, Nat.max_lt.mpr ⟨hw, hv⟩, hCount⟩)
    · cases s with
      | false =>
        rw [if_pos (decide_eq_true (show IsUnsigned (.int false v) from trivial))] at hCount
        omega
      | true =>
        rw [join_narrow (s := false) (t := true) rfl (Nat.max_lt.mpr ⟨hw, hv⟩)]
        exact ih hcs' (.inr (.inr ⟨rfl, hCount⟩))
    · cases s with
      | false =>
        rw [if_pos (decide_eq_true (show IsUnsigned (.int false v) from trivial))] at hCount
        omega
      | true =>
        rw [join_same, Nat.max_eq_left hv.le]
        exact ih hcs' (.inr (.inr ⟨rfl, hCount⟩))

/-! ## Which lists promote alike in all orders -/

theorem isInt_of_valid {c : NumClass} (h : c.Valid) (h64 : c ≠ .float64) (h32 : c ≠ .float32) :
    c.IsInt := by
  cases c with
  | float64 => exact absurd rfl h64
  | float32 => exact absurd rfl h32
  | int s w =>
    refine ⟨s, w, rfl, ?_⟩
    rcases h with rfl | rfl | rfl | rfl <;> decide

section Lists

variable {cs : List NumClass}

theorem isInt_of_not_float (hValid : ∀ c ∈ cs, c.Valid) (h64 : .float64 ∉ cs)
    (h32 : .float32 ∉ cs) : ∀ c ∈ cs, c.IsInt := by
  intro c hc
  exact isInt_of_valid (hValid c hc) (fun h => h64 (h ▸ hc)) (fun h => h32 (h ▸ hc))

/-- The width of an integer. -/
def width : NumClass → Nat
  | .int _ w => w
  | _ => 0

theorem exists_widest {s : Bool} (h : ∀ c ∈ cs, ∃ w, c = .int s w) (hNe : cs ≠ []) :
    ∃ m, .int s m ∈ cs ∧ ∀ c ∈ cs, ∃ w, c = .int s w ∧ w ≤ m := by
  obtain ⟨c, hc⟩ := exists_mem_of_ne_nil cs hNe
  obtain ⟨d, hd, hMax⟩ := cs.toFinset.exists_max_image width ⟨c, mem_toFinset.mpr hc⟩
  obtain ⟨m, rfl⟩ := h d (mem_toFinset.mp hd)
  refine ⟨m, mem_toFinset.mp hd, fun e he => ?_⟩
  obtain ⟨w, rfl⟩ := h e he
  exact ⟨w, rfl, hMax _ (mem_toFinset.mpr he)⟩

/-- A stable list has one fold. -/
theorem Stable.exists_fold (hStable : Stable cs) (hValid : ∀ c ∈ cs, c.Valid) (hNe : cs ≠ []) :
    ∃ r, ∀ cs', cs.Perm cs' → partialFold joinOp cs' = some r := by
  by_cases h64 : .float64 ∈ cs
  · refine ⟨.float64, fun cs' hPerm => ?_⟩
    exact absorbs_float64.fold_eq (fun _ _ => trivial) (hPerm.mem_iff.mp h64)
  by_cases h32 : .float32 ∈ cs
  · refine ⟨.float32, fun cs' hPerm => ?_⟩
    exact absorbs_float32.fold_eq (fun c hc h => h64 (h ▸ hPerm.mem_iff.mpr hc))
      (hPerm.mem_iff.mp h32)
  have hInt := isInt_of_not_float hValid h64 h32
  have hOneSign : ∀ s, (∀ c ∈ cs, ∃ w, c = .int s w) →
      ∃ r, ∀ cs', cs.Perm cs' → partialFold joinOp cs' = some r := by
    intro s h
    obtain ⟨m, hm, hMax⟩ := exists_widest h hNe
    exact ⟨_, fun cs' hPerm => (absorbs_widest s m).fold_eq
      (fun c hc => hMax c (hPerm.mem_iff.mpr hc)) (hPerm.mem_iff.mp hm)⟩
  -- otherwise types of both signs meet
  by_cases hU : ∃ c ∈ cs, c.IsUnsigned
  swap
  · refine hOneSign true fun c hc => ?_
    rcases mem_unsigned (hInt c hc) with h | ⟨w, hw, -⟩
    · exact absurd ⟨c, hc, h⟩ hU
    · exact ⟨w, hw⟩
  by_cases hS : ∃ c ∈ cs, ¬ c.IsUnsigned
  swap
  · refine hOneSign false fun c hc => ?_
    by_cases h : c.IsUnsigned
    · obtain ⟨w, hw, -⟩ := unsigned_cases (hInt c hc) h
      exact ⟨w, hw⟩
    · exact absurd ⟨c, hc, h⟩ hS
  cases hStable with
  | float64 h => exact absurd h h64
  | float32 h => exact absurd h h32
  | oneSign s h => exact hOneSign s h
  | uint64 h =>
    exact ⟨_, fun cs' hPerm => absorbs_uint64.fold_eq
      (fun c hc => hInt c (hPerm.mem_iff.mpr hc)) (hPerm.mem_iff.mp h)⟩
  | signedWide h =>
    refine ⟨.int false 64, fun cs' hPerm => ?_⟩
    obtain ⟨u, hu, hUnsigned⟩ := hU
    obtain ⟨t, ht, hSigned⟩ := hS
    cases cs' with
    | nil => exact absurd (perm_nil.mp hPerm) hNe
    | cons a l =>
      rw [partialFold_cons]
      have hInt' : ∀ c ∈ a :: l, c.IsInt := fun c hc => hInt c (hPerm.mem_iff.mpr hc)
      refine foldlM_signedWide (hInt' a mem_cons_self)
        (fun c hc => hInt' c (mem_cons_of_mem a hc))
        (fun w hw => h w (hPerm.mem_iff.mpr hw)) (.inr ?_)
      by_cases haU : a.IsUnsigned
      · rcases mem_cons.mp (hPerm.mem_iff.mp ht) with rfl | ht
        · exact absurd haU hSigned
        · exact .inl ⟨haU, t, ht, hSigned⟩
      · rcases mem_cons.mp (hPerm.mem_iff.mp hu) with rfl | hu
        · exact absurd hUnsigned haU
        · exact .inr ⟨haU, u, hu, hUnsigned⟩
  | oneUnsigned h hOne =>
    by_cases hWide : .int false 64 ∈ cs
    · exact ⟨_, fun cs' hPerm => absorbs_uint64.fold_eq
        (fun c hc => hInt c (hPerm.mem_iff.mpr hc)) (hPerm.mem_iff.mp hWide)⟩
    refine ⟨.int true 64, fun cs' hPerm => ?_⟩
    have hNarrow : ∀ c ∈ cs', ∃ s w, c = .int s w ∧ w < 64 := by
      intro c hc
      have hc' := hPerm.mem_iff.mpr hc
      rcases mem_unsigned (hInt c hc') with hcU | ⟨w, rfl, hw⟩
      · obtain ⟨w, rfl, hw⟩ := unsigned_cases (hInt c hc') hcU
        refine ⟨false, w, rfl, lt_of_le_of_ne hw fun hEq => hWide ?_⟩
        rw [← hEq]
        exact hc'
      · exact ⟨true, w, rfl, h w hc'⟩
    obtain ⟨t, ht, hSigned⟩ := hS
    cases cs' with
    | nil => exact absurd (perm_nil.mp hPerm) hNe
    | cons a l =>
      rw [hPerm.countP_eq, countP_cons] at hOne
      rw [partialFold_cons]
      refine foldlM_oneUnsigned (fun c hc => hNarrow c (mem_cons_of_mem a hc)) ?_
      obtain ⟨s, w, rfl, hw⟩ := hNarrow a mem_cons_self
      cases s with
      | true => exact .inl ⟨w, rfl, hw, hOne⟩
      | false =>
        rw [if_pos (decide_eq_true (show IsUnsigned (.int false w) from trivial))] at hOne
        refine .inr (.inl ⟨w, rfl, hw, by omega, ?_⟩)
        rintro rfl
        rw [mem_singleton.mp (hPerm.mem_iff.mp ht)] at hSigned
        exact hSigned trivial

/-- An order in which a wide signed type, or two unsigned ones, come after types of the other sign
have met. -/
theorem exists_order_uint64 (hStable : ¬ Stable cs) (hInt : ∀ c ∈ cs, c.IsInt)
    (hNarrowU : ∀ c ∈ cs, c.IsUnsigned → ∃ w, c = .int false w ∧ w < 64)
    (hs : ∃ w, .int true w ∈ cs ∧ w < 64) (hu : ∃ c ∈ cs, c.IsUnsigned) :
    ∃ lb, cs.Perm lb ∧ partialFold joinOp lb = some (.int false 64) := by
  obtain ⟨w, hs, hw⟩ := hs
  obtain ⟨u, hu, huU⟩ := hu
  obtain ⟨v, rfl, hv⟩ := hNarrowU u hu huU
  by_cases hWide : .int true 64 ∈ cs
  · have hPerm := perm_cons_erase hWide
    have hu' : .int false v ∈ cs.erase (.int true 64) := by
      rcases mem_cons.mp (hPerm.mem_iff.mp hu) with h | h
      · cases h
      · exact h
    have hPerm' := hPerm.trans ((perm_cons_erase hu').cons _)
    refine ⟨_, hPerm', ?_⟩
    change List.foldlM joinOp ((int true 64).join (.int false v)) _ = _
    rw [join_wide (s := true) (t := false) rfl (Nat.le_max_left _ _)]
    exact absorbs_uint64.foldlM_self fun c hc =>
      hInt c (mem_of_mem_erase (mem_of_mem_erase hc))
  · have hNarrow : ∀ x, .int true x ∈ cs → x < 64 := by
      intro x hx
      obtain ⟨_, _, h, hLe⟩ := hInt _ hx
      cases h
      exact lt_of_le_of_ne hLe fun h => hWide (h ▸ hx)
    have hCount : cs.countP (IsUnsigned ·) ≠ 1 := fun h => hStable (.oneUnsigned hNarrow h)
    rw [countP_eq_length_filter] at hCount
    have huFilter : .int false v ∈ cs.filter (IsUnsigned ·) :=
      mem_filter.mpr ⟨hu, decide_eq_true huU⟩
    cases hFilter : cs.filter (IsUnsigned ·) with
    | nil =>
      rw [hFilter] at huFilter
      cases huFilter
    | cons a l =>
      cases l with
      | nil =>
        rw [hFilter] at hCount
        exact absurd rfl hCount
      | cons b l =>
        have hMem : ∀ c ∈ a :: b :: l, ∃ x, c = .int false x ∧ x < 64 := by
          intro c hc
          rw [← hFilter] at hc
          exact hNarrowU c (mem_filter.mp hc).1 (of_decide_eq_true (mem_filter.mp hc).2)
        obtain ⟨x, rfl, hx⟩ := hMem a mem_cons_self
        obtain ⟨y, rfl, hy⟩ := hMem b (mem_cons_of_mem _ mem_cons_self)
        have hsFilter : .int true w ∈ cs.filter fun c => !decide c.IsUnsigned :=
          mem_filter.mpr ⟨hs, rfl⟩
        have hSplit := (filter_append_perm (fun c => decide (IsUnsigned c)) cs).symm
        rw [hFilter] at hSplit
        have hPerm := hSplit.trans (((perm_cons_erase hsFilter).append_left _).trans
          perm_middle)
        refine ⟨_, hPerm, ?_⟩
        change List.foldlM joinOp (((int true w).join (.int false x)).join (.int false y)) _ = _
        rw [join_narrow (s := true) (t := false) rfl (Nat.max_lt.mpr ⟨hw, hx⟩),
          join_wide (s := true) (t := false) rfl (Nat.le_max_left _ _)]
        refine absorbs_uint64.foldlM_self fun c hc => ?_
        have hc' : c ∈ int true w :: (int false x :: int false y :: l ++
            (cs.filter fun c => !decide c.IsUnsigned).erase (.int true w)) :=
          mem_cons_of_mem _ (mem_cons_of_mem _ (mem_cons_of_mem _ hc))
        exact hInt c (hPerm.mem_iff.mpr hc')

/-- Where a list is not stable, the unsigned types before the signed ones promote to the signed type
of 64 bits, and another order to the unsigned one. -/
theorem exists_orders_of_not_stable (hStable : ¬ Stable cs) (hValid : ∀ c ∈ cs, c.Valid) :
    ∃ la lb, cs.Perm la ∧ cs.Perm lb ∧ partialFold joinOp la = some (.int true 64) ∧
      partialFold joinOp lb = some (.int false 64) := by
  have h64 : .float64 ∉ cs := fun h => hStable (.float64 h)
  have h32 : .float32 ∉ cs := fun h => hStable (.float32 h)
  have hInt := isInt_of_not_float hValid h64 h32
  have hNarrowU : ∀ c ∈ cs, c.IsUnsigned → ∃ w, c = .int false w ∧ w < 64 := by
    intro c hc hcU
    obtain ⟨w, rfl, hw⟩ := unsigned_cases (hInt c hc) hcU
    refine ⟨w, rfl, lt_of_le_of_ne hw fun hEq => hStable (.uint64 ?_)⟩
    rw [← hEq]
    exact hc
  obtain ⟨w, hs, hw⟩ : ∃ w, .int true w ∈ cs ∧ w < 64 := by
    by_contra hNone
    refine hStable (.signedWide fun w hw => ?_)
    obtain ⟨_, _, h, hLe⟩ := hInt _ hw
    cases h
    exact le_antisymm hLe (Nat.not_lt.mp fun h => hNone ⟨w, hw, h⟩)
  obtain ⟨u, hu, huU⟩ : ∃ c ∈ cs, c.IsUnsigned := by
    by_contra hNone
    refine hStable (.oneSign true fun c hc => ?_)
    rcases mem_unsigned (hInt c hc) with h | ⟨v, hv, -⟩
    · exact absurd ⟨c, hc, h⟩ hNone
    · exact ⟨v, hv⟩
  have hSplit : cs.Perm (cs.filter (IsUnsigned ·) ++ cs.filter fun c => !decide c.IsUnsigned) :=
    (filter_append_perm _ cs).symm
  have hsFilter : .int true w ∈ cs.filter fun c => !decide c.IsUnsigned := by
    rw [mem_filter]
    exact ⟨hs, rfl⟩
  have hSigned := perm_cons_erase hsFilter
  have huFilter : u ∈ cs.filter (IsUnsigned ·) := mem_filter.mpr ⟨hu, decide_eq_true huU⟩
  obtain ⟨lb, hlb, hFold⟩ := exists_order_uint64 hStable hInt hNarrowU ⟨w, hs, hw⟩ ⟨u, hu, huU⟩
  refine ⟨_, lb, hSplit.trans (hSigned.append_left _), hlb, ?_, hFold⟩
  have hClosed : ∀ x y, (∃ m, x = .int false m ∧ m < 64) → (∃ m, y = .int false m ∧ m < 64) →
      ∃ z, joinOp x y = some z ∧ ∃ m, z = .int false m ∧ m < 64 := by
    rintro _ _ ⟨m, rfl, hm⟩ ⟨v, rfl, hv⟩
    exact ⟨_, rfl, max m v, join_same, Nat.max_lt.mpr ⟨hm, hv⟩⟩
  obtain ⟨_, hUnsigned, m, rfl, hm⟩ := fold_closed hClosed
    (fun c hc => hNarrowU c (mem_filter.mp hc).1 (of_decide_eq_true (mem_filter.mp hc).2))
    (ne_nil_of_mem huFilter)
  rw [partialFold_append (ne_nil_of_mem huFilter), hUnsigned]
  change List.foldlM joinOp ((int false m).join (.int true w)) _ = _
  rw [join_narrow (s := false) (t := true) rfl (Nat.max_lt.mpr ⟨hm, hw⟩)]
  refine (absorbs_widest true 64).foldlM_self fun c hc => ?_
  obtain ⟨hc, hcS⟩ := mem_filter.mp (mem_of_mem_erase hc)
  rcases mem_unsigned (hInt c hc) with h | h
  · simp [h] at hcS
  · exact h

end Lists

end NumClass

end Calynda
