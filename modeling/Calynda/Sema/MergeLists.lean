import Calynda.Sema.MergeOrder

/-!
# Lists of merged types

Types merge within a class: the numeric types, for return types void and null, and any other type
with itself. The external type merges with all. A list merges alike in all orders where an
external type does not hide two classes, and its numeric types promote alike.
-/

namespace Calynda

open Calynda.Lib

namespace TypeForm

/-! ## Classes -/

/-- A member of the class within which a type merges. -/
def cls (ret : Bool) : TypeForm → TypeForm
  | .value p 0 => if tcPrimitiveIsIntegral p then .value .int8 0 else .value p 0
  | .null => if ret then .void else .null
  | a => a

variable {ret : Bool} {a b z : TypeForm}

theorem merge_self (a : TypeForm) : merge ret a a = some a := by
  unfold merge
  rw [if_neg, if_pos rfl]
  rintro ⟨-, ⟨rfl, h⟩ | ⟨rfl, h⟩⟩ <;> cases h

theorem merge_external (a : TypeForm) :
    merge ret .external a = some .external ∧ merge ret a .external = some .external := by
  cases a <;> cases ret <;> exact ⟨rfl, rfl⟩

theorem merge_numeric {p q : AstPrimitiveType} (hp : tcPrimitiveIsIntegral p = true)
    (hq : tcPrimitiveIsIntegral q = true) :
    merge ret (.value p 0) (.value q 0) = some (.value (mergeNum p q) 0) := by
  unfold merge
  rw [if_neg (by simp)]
  by_cases h : p = q
  · subst h
    simp [mergeNum]
  · simp [h, hp, hq]

/-- Other types merge within their class. -/
theorem cls_of_merge (ha : a ≠ .external) (hb : b ≠ .external) (h : merge ret a b = some z) :
    z ≠ .external ∧ cls ret a = cls ret b ∧ cls ret z = cls ret a := by
  unfold merge at h
  split_ifs at h with hVoid hEq hExternal
  · cases h
    obtain ⟨rfl, ⟨rfl, rfl⟩ | ⟨rfl, rfl⟩⟩ := hVoid <;> simp [cls]
  · cases h
    exact ⟨ha, by rw [hEq], rfl⟩
  · rcases hExternal with h | h
    · exact absurd h ha
    · exact absurd h hb
  · split at h
    · rename_i p q
      split at h
      · rename_i hIntegral
        cases h
        simp [cls, hIntegral, isIntegral_mergeNum hIntegral.1]
      · cases h
    · cases h

theorem cls_cases (ret : Bool) (a : TypeForm) :
    (∃ p, a = .value p 0 ∧ tcPrimitiveIsIntegral p = true ∧ cls ret a = .value .int8 0) ∨
      (ret = true ∧ a = .null ∧ cls ret a = .void) ∨ cls ret a = a := by
  cases a with
  | value p d =>
    cases d with
    | zero =>
      by_cases hp : tcPrimitiveIsIntegral p = true
      · exact .inl ⟨p, rfl, hp, if_pos hp⟩
      · exact .inr (.inr (if_neg hp))
    | succ d => exact .inr (.inr rfl)
  | null =>
    cases ret with
    | true => exact .inr (.inl ⟨rfl, rfl, rfl⟩)
    | false => exact .inr (.inr rfl)
  | _ => exact .inr (.inr rfl)

theorem numeric_of_cls (h : cls ret a = .value .int8 0) : a.Numeric := by
  rcases cls_cases ret a with ⟨p, rfl, hp, -⟩ | ⟨-, -, ha⟩ | ha
  · exact ⟨p, rfl, hp⟩
  · cases ha.symm.trans h
  · exact ⟨.int8, ha.symm.trans h, rfl⟩

theorem void_of_cls (h : cls ret a = .void) : a = .void ∨ ret = true ∧ a = .null := by
  rcases cls_cases ret a with ⟨p, -, -, ha⟩ | ⟨hRet, rfl, -⟩ | ha
  · cases ha.symm.trans h
  · exact .inr ⟨hRet, rfl⟩
  · exact .inl (ha.symm.trans h)

theorem eq_of_cls (h : cls ret a = b) (hNumeric : b ≠ .value .int8 0) (hVoid : b ≠ .void) :
    a = b := by
  rcases cls_cases ret a with ⟨p, -, -, ha⟩ | ⟨-, -, ha⟩ | ha
  · exact absurd (h.symm.trans ha) hNumeric
  · exact absurd (h.symm.trans ha) hVoid
  · exact ha.symm.trans h

theorem exists_numerics {types : List TypeForm} (h : ∀ x ∈ types, x.Numeric) :
    ∃ ps : List AstPrimitiveType, types = ps.map (.value · 0) ∧
      ∀ p ∈ ps, tcPrimitiveIsIntegral p = true := by
  induction types with
  | nil => exact ⟨[], rfl, nofun⟩
  | cons x types ih =>
    obtain ⟨p, rfl, hp⟩ := h x List.mem_cons_self
    obtain ⟨ps, rfl, hps⟩ := ih fun y hy => h y (List.mem_cons_of_mem _ hy)
    refine ⟨p :: ps, rfl, fun q hq => ?_⟩
    rcases List.mem_cons.mp hq with rfl | hq
    · exact hp
    · exact hps q hq

theorem merge_void_null : merge true .void .null = some .void ∧ merge true .null .void = some .void :=
  ⟨rfl, rfl⟩

theorem exists_merge (h : cls ret a = cls ret b) : ∃ z, merge ret a b = some z := by
  rcases cls_cases ret a with ⟨p, rfl, hp, ha⟩ | ⟨hRet, rfl, ha⟩ | ha
  · rw [ha] at h
    rcases cls_cases ret b with ⟨q, rfl, hq, hb⟩ | ⟨-, -, hb⟩ | hb
    · exact ⟨_, merge_numeric hp hq⟩
    · rw [hb] at h
      cases h
    · rw [hb] at h
      subst h
      exact ⟨_, merge_numeric hp rfl⟩
  · rw [ha] at h
    rcases cls_cases ret b with ⟨q, rfl, hq, hb⟩ | ⟨-, rfl, hb⟩ | hb
    · rw [hb] at h
      cases h
    · exact ⟨_, merge_self _⟩
    · rw [hb] at h
      subst hRet h
      exact ⟨_, merge_void_null.2⟩
  · rw [ha] at h
    rcases cls_cases ret b with ⟨q, rfl, hq, hb⟩ | ⟨hRet, rfl, hb⟩ | hb
    · rw [hb] at h
      subst h
      exact ⟨_, merge_numeric rfl hq⟩
    · rw [hb] at h
      subst hRet h
      exact ⟨_, merge_void_null.1⟩
    · rw [hb] at h
      subst h
      exact ⟨_, merge_self _⟩

/-! ## Lists -/

section Lists

variable {types : List TypeForm}

theorem fold_external (hAll : ∀ x ∈ types, x ≠ .external → ∀ y ∈ types, y ≠ .external →
    cls ret x = cls ret y) (hMem : .external ∈ types) :
    partialFold (merge ret) types = some .external := by
  by_cases hOther : ∃ x ∈ types, x ≠ .external
  · obtain ⟨x, hx, hNe⟩ := hOther
    have hAbsorbs : Absorbs (merge ret)
        (fun y => y = .external ∨ y ≠ .external ∧ cls ret y = cls ret x) .external := by
      refine ⟨?_, .inl rfl, fun y _ => (merge_external y).1, fun y _ => (merge_external y).2⟩
      rintro y y' (rfl | ⟨hy, hyCls⟩) hy'
      · exact ⟨_, (merge_external y').1, .inl rfl⟩
      · rcases hy' with rfl | ⟨hy', hyCls'⟩
        · exact ⟨_, (merge_external y).2, .inl rfl⟩
        · obtain ⟨z, hz⟩ := exists_merge (hyCls.trans hyCls'.symm)
          obtain ⟨hzNe, -, hzCls⟩ := cls_of_merge hy hy' hz
          exact ⟨z, hz, .inr ⟨hzNe, hzCls.trans hyCls⟩⟩
    refine hAbsorbs.fold_eq (fun y hy => ?_) hMem
    by_cases h : y = .external
    · exact .inl h
    · exact .inr ⟨h, hAll y hy h x hx hNe⟩
  · have hAbsorbs : Absorbs (merge ret) (fun y => y = .external) .external :=
      ⟨fun y y' hy hy' => ⟨_, by rw [hy, hy', merge_self], rfl⟩, rfl,
        fun y _ => (merge_external y).1, fun y _ => (merge_external y).2⟩
    refine hAbsorbs.fold_eq (fun y hy => ?_) hMem
    by_contra h
    exact hOther ⟨y, hy, h⟩

/-- Without an external type a list merges only within a class. -/
theorem fold_eq_none (hNone : .external ∉ types) {x y : TypeForm} (hx : x ∈ types) (hy : y ∈ types)
    (hxy : cls ret x ≠ cls ret y) : partialFold (merge ret) types = none := by
  rw [Option.eq_none_iff_forall_ne_some]
  intro r hr
  have hClass := class_of_fold (Q := fun a => a ≠ .external) (c := cls ret)
    (fun a b z ha hb hz => cls_of_merge ha hb hz) (fun a ha h => hNone (h ▸ ha)) hr
  exact hxy ((hClass x hx).trans (hClass y hy).symm)

theorem fold_of_eq (hMem : a ∈ types) (h : ∀ x ∈ types, x = a) :
    partialFold (merge ret) types = some a := by
  have hAbsorbs : Absorbs (merge ret) (fun x => x = a) a :=
    ⟨fun x y hx hy => ⟨a, by rw [hx, hy, merge_self], rfl⟩, rfl,
      fun x hx => by rw [hx, merge_self], fun x hx => by rw [hx, merge_self]⟩
  exact hAbsorbs.fold_eq h hMem

theorem fold_void (hMem : .void ∈ types) (h : ∀ x ∈ types, x = .void ∨ x = .null) :
    partialFold (merge true) types = some .void := by
  have hAbsorbs : Absorbs (merge true) (fun x => x = .void ∨ x = .null) .void := by
    refine ⟨?_, .inl rfl, ?_, ?_⟩
    · rintro x y (rfl | rfl) (rfl | rfl)
      · exact ⟨_, rfl, .inl rfl⟩
      · exact ⟨_, rfl, .inl rfl⟩
      · exact ⟨_, rfl, .inl rfl⟩
      · exact ⟨_, rfl, .inr rfl⟩
    · rintro x (rfl | rfl) <;> rfl
    · rintro x (rfl | rfl) <;> rfl
  exact hAbsorbs.fold_eq h hMem

end Lists

/-! ## Numbers -/

section Numbers

variable {ps : List AstPrimitiveType}

def mergeNumOp (p q : AstPrimitiveType) : Option AstPrimitiveType := some (mergeNum p q)

theorem fold_numeric (h : ∀ p ∈ ps, tcPrimitiveIsIntegral p = true) :
    partialFold (merge ret) (ps.map (.value · 0)) =
      (partialFold mergeNumOp ps).map (.value · 0) := by
  refine partialFold_map (Q := fun p => tcPrimitiveIsIntegral p = true) ?_ ?_ h
  · intro p q hp hq
    exact merge_numeric hp hq
  · intro p q z hp _ hz
    cases hz
    exact isIntegral_mergeNum hp

theorem fold_numClass (h : ∀ p ∈ ps, tcPrimitiveIsIntegral p = true) :
    partialFold NumClass.joinOp (ps.map numClass) = (partialFold mergeNumOp ps).map numClass := by
  refine partialFold_map (Q := fun p => tcPrimitiveIsIntegral p = true) ?_ ?_ h
  · intro p q hp hq
    exact congrArg some (numClass_mergeNum hp hq).symm
  · intro p q z hp _ hz
    cases hz
    exact isIntegral_mergeNum hp

/-- The type to which different types promote is no alias. -/
theorem foldlM_canonical {p r : AstPrimitiveType} (hp : tcPrimitiveIsIntegral p = true)
    (h : ∀ q ∈ ps, tcPrimitiveIsIntegral q = true)
    (hDiffer : p = (numClass p).prim ∨ ∃ q ∈ ps, q ≠ p) (hr : ps.foldlM mergeNumOp p = some r) :
    r = (numClass r).prim := by
  induction ps generalizing p with
  | nil =>
    cases hr
    rcases hDiffer with h | ⟨q, hq, -⟩
    · exact h
    · cases hq
  | cons q ps ih =>
    have hq := h q List.mem_cons_self
    have h' : ∀ q ∈ ps, tcPrimitiveIsIntegral q = true := fun x hx => h x (List.mem_cons_of_mem q hx)
    refine ih (p := mergeNum p q) (isIntegral_mergeNum hp) h' ?_ hr
    by_cases hpq : p = q
    · subst hpq
      rw [mergeNum, if_pos rfl]
      rcases hDiffer with h | ⟨x, hx, hNe⟩
      · exact .inl h
      · rcases List.mem_cons.mp hx with rfl | hx
        · exact absurd rfl hNe
        · exact .inr ⟨x, hx, hNe⟩
    · rw [numClass_mergeNum hp hq, mergeNum, if_neg hpq]
      exact .inl rfl

theorem fold_canonical (h : ∀ p ∈ ps, tcPrimitiveIsIntegral p = true) {p q : AstPrimitiveType}
    (hp : p ∈ ps) (hq : q ∈ ps) (hpq : p ≠ q) {r : AstPrimitiveType}
    (hr : partialFold mergeNumOp ps = some r) : r = (numClass r).prim := by
  cases ps with
  | nil => cases hp
  | cons a ps =>
    refine foldlM_canonical (h a List.mem_cons_self) (fun x hx => h x (List.mem_cons_of_mem a hx))
      (.inr ?_) hr
    by_cases hpa : p = a
    · subst hpa
      rcases List.mem_cons.mp hq with h | hq
      · exact absurd h.symm hpq
      · exact ⟨q, hq, fun h => hpq h.symm⟩
    · rcases List.mem_cons.mp hp with h | hp
      · exact absurd h hpa
      · exact ⟨p, hp, hpa⟩

end Numbers

/-! ## Merging in any order -/

/-- Two forms are the same up to the aliases. -/
def Same (a b : TypeForm) : Prop := SameType a.checked b.checked

theorem Same.refl (a : TypeForm) : Same a a := by
  unfold Same SameType
  cases a <;> simp [tcCheckedTypeEquals, checked, tcCheckedTypeInvalid, tcCheckedTypeVoid,
    tcCheckedTypeNull, tcCheckedTypeExternal, tcCheckedTypeValue, tcCheckedTypeNamed,
    tcCheckedTypeTypeParam]

theorem same_value {p q : AstPrimitiveType} (h : Same (.value p 0) (.value q 0)) :
    aliasOf p = aliasOf q := by
  have hEquals : (decide (aliasOf p = aliasOf q) && 0 == 0) = true := h
  rw [Bool.and_eq_true] at hEquals
  exact of_decide_eq_true hEquals.1

theorem value_of_same {q : AstPrimitiveType} (h : Same z (.value q 0)) : ∃ p, z = .value p 0 := by
  cases z with
  | value p d =>
    have hDepth : d = 0 := by
      simp [Same, SameType, tcCheckedTypeEquals, checked, tcCheckedTypeValue] at h
      exact h.2
    exact ⟨p, by rw [hDepth]⟩
  | _ =>
    simp [Same, SameType, tcCheckedTypeEquals, checked, tcCheckedTypeInvalid, tcCheckedTypeVoid,
      tcCheckedTypeNull, tcCheckedTypeExternal, tcCheckedTypeNamed, tcCheckedTypeTypeParam,
      tcCheckedTypeValue] at h

theorem aliasOf_unsigned {p : AstPrimitiveType} (h : numClass p = .int false 64) :
    aliasOf p = .uint64 := by
  cases p <;> first | rfl | exact absurd h (by decide)

theorem aliasOf_signed {p : AstPrimitiveType} (h : numClass p = .int true 64) :
    aliasOf p = .int64 ∨ aliasOf p = .float64 := by
  cases p <;> first | exact .inl rfl | exact .inr rfl | exact absurd h (by decide)

end TypeForm

open TypeForm

/-- Lists of numeric types that promote to one type in any order. -/
def PromotesInAnyOrder (ps : List AstPrimitiveType) : Prop :=
  (∃ p ∈ ps, tcPrimitiveIsFloat p = true) ∨
    (∀ p ∈ ps, tcPrimitiveIsSigned p = true) ∨ (∀ p ∈ ps, tcPrimitiveIsSigned p = false) ∨
    (∃ p ∈ ps, tcPrimitiveIsSigned p = false ∧ tcPrimitiveWidth p = 64) ∨
    (∀ p ∈ ps, tcPrimitiveIsSigned p = true → tcPrimitiveWidth p = 64) ∨
    ((∀ p ∈ ps, tcPrimitiveIsSigned p = true → tcPrimitiveWidth p < 64) ∧
      ps.countP (fun p => !tcPrimitiveIsSigned p) = 1)

/-- Lists of types that merge alike in any order: an external type does not hide two types that do
not merge, and numeric types promote alike. -/
structure Orderless (merge : CheckedType → CheckedType → Option CheckedType)
    (types : List TypeForm) : Prop where
  external : .external ∈ types → ∀ a ∈ types, a ≠ .external → ∀ b ∈ types, b ≠ .external →
    (merge a.checked b.checked).isSome
  numeric : ∀ ps : List AstPrimitiveType, types = ps.map (fun p => .value p 0) →
    (∀ p ∈ ps, tcPrimitiveIsIntegral p = true) → PromotesInAnyOrder ps

section Stable

variable {ps : List AstPrimitiveType}

theorem numClass_of_not_float {p : AstPrimitiveType} (h : tcPrimitiveIsFloat p = false) :
    numClass p = .int (tcPrimitiveIsSigned p) (tcPrimitiveWidth p) := by
  cases p <;> first | rfl | cases h

theorem stable_iff (ps : List AstPrimitiveType) :
    NumClass.Stable (ps.map numClass) ↔ PromotesInAnyOrder ps := by
  by_cases hFloat : ∃ p ∈ ps, tcPrimitiveIsFloat p = true
  · refine iff_of_true ?_ (.inl hFloat)
    obtain ⟨p, hp, hFloat⟩ := hFloat
    have hMem : numClass p ∈ ps.map numClass := List.mem_map_of_mem hp
    cases p <;> first | exact .float32 hMem | exact .float64 hMem | cases hFloat
  · have hInt : ∀ p ∈ ps, numClass p = .int (tcPrimitiveIsSigned p) (tcPrimitiveWidth p) := by
      intro p hp
      refine numClass_of_not_float ?_
      by_contra h
      exact hFloat ⟨p, hp, by simpa using h⟩
    have hMem : ∀ s w, .int s w ∈ ps.map numClass ↔
        ∃ p ∈ ps, tcPrimitiveIsSigned p = s ∧ tcPrimitiveWidth p = w := by
      intro s w
      rw [List.mem_map]
      refine exists_congr fun p => and_congr_right fun hp => ?_
      rw [hInt p hp, NumClass.int.injEq]
    have hCount : (ps.map numClass).countP (NumClass.IsUnsigned ·) =
        ps.countP fun p => !tcPrimitiveIsSigned p := by
      rw [List.countP_map]
      refine List.countP_congr fun p hp => ?_
      rw [Function.comp_apply, hInt p hp]
      cases tcPrimitiveIsSigned p with
      | true => exact iff_of_false (of_decide_eq_true ·) nofun
      | false => exact iff_of_true (decide_eq_true trivial) rfl
    constructor
    · rintro (h | h | ⟨s, h⟩ | h | h | ⟨h, hOne⟩)
      · obtain ⟨p, hp, hEq⟩ := List.mem_map.mp h
        rw [hInt p hp] at hEq
        cases hEq
      · obtain ⟨p, hp, hEq⟩ := List.mem_map.mp h
        rw [hInt p hp] at hEq
        cases hEq
      · have hSign : ∀ p ∈ ps, tcPrimitiveIsSigned p = s := by
          intro p hp
          obtain ⟨w, hw⟩ := h _ (List.mem_map_of_mem hp)
          rw [hInt p hp] at hw
          exact (NumClass.int.inj hw).1
        cases s with
        | true => exact .inr (.inl hSign)
        | false => exact .inr (.inr (.inl hSign))
      · obtain ⟨p, hp, hSign, hWidth⟩ := (hMem _ _).mp h
        exact .inr (.inr (.inr (.inl ⟨p, hp, hSign, hWidth⟩)))
      · exact .inr (.inr (.inr (.inr (.inl fun p hp hSign =>
          h _ ((hMem _ _).mpr ⟨p, hp, hSign, rfl⟩)))))
      · refine .inr (.inr (.inr (.inr (.inr ⟨fun p hp hSign =>
          h _ ((hMem _ _).mpr ⟨p, hp, hSign, rfl⟩), ?_⟩))))
        rw [← hCount]
        exact hOne
    · have hOneSign : ∀ s, (∀ p ∈ ps, tcPrimitiveIsSigned p = s) →
          NumClass.Stable (ps.map numClass) := by
        intro s h
        refine .oneSign s fun c hc => ?_
        obtain ⟨p, hp, rfl⟩ := List.mem_map.mp hc
        exact ⟨tcPrimitiveWidth p, by rw [hInt p hp, h p hp]⟩
      rintro (h | h | h | ⟨p, hp, h⟩ | h | ⟨h, hOne⟩)
      · exact absurd h hFloat
      · exact hOneSign true h
      · exact hOneSign false h
      · exact .uint64 ((hMem _ _).mpr ⟨p, hp, h⟩)
      · refine .signedWide fun w hw => ?_
        obtain ⟨p, hp, hSign, rfl⟩ := (hMem _ _).mp hw
        exact h p hp hSign
      · refine .oneUnsigned (fun w hw => ?_) (hCount.trans hOne)
        obtain ⟨p, hp, hSign, rfl⟩ := (hMem _ _).mp hw
        exact h p hp hSign

end Stable

section Main

variable {ret : Bool} {types : List TypeForm}

/-- The lists of forms that merge alike in any order. -/
structure OrderlessForms (ret : Bool) (types : List TypeForm) : Prop where
  external : .external ∈ types → ∀ a ∈ types, a ≠ .external → ∀ b ∈ types, b ≠ .external →
    cls ret a = cls ret b
  numeric : ∀ ps : List AstPrimitiveType, types = ps.map (fun p => .value p 0) →
    (∀ p ∈ ps, tcPrimitiveIsIntegral p = true) → NumClass.Stable (ps.map numClass)

theorem valid_map {ps : List AstPrimitiveType} (h : ∀ p ∈ ps, tcPrimitiveIsIntegral p = true) :
    ∀ c ∈ ps.map numClass, c.Valid := by
  intro c hc
  obtain ⟨p, hp, rfl⟩ := List.mem_map.mp hc
  exact valid_numClass (h p hp)

/-- A permutation of a mapped list is the map of a permutation. -/
theorem exists_perm_map {α β : Type} {f : α → β} {k m : List β} (h : k.Perm m) {l : List α}
    (hl : l.map f = k) : ∃ l', l.Perm l' ∧ m = l'.map f := by
  induction h generalizing l with
  | nil =>
    rw [List.map_eq_nil_iff] at hl
    exact ⟨[], by rw [hl], rfl⟩
  | cons x _ ih =>
    obtain ⟨a, l₀, rfl, rfl, hl'⟩ := List.map_eq_cons_iff.mp hl
    obtain ⟨l', hPerm, rfl⟩ := ih hl'
    exact ⟨a :: l', hPerm.cons a, rfl⟩
  | swap x y k =>
    obtain ⟨a, l₀, rfl, rfl, hl'⟩ := List.map_eq_cons_iff.mp hl
    obtain ⟨b, l₁, rfl, rfl, rfl⟩ := List.map_eq_cons_iff.mp hl'
    exact ⟨b :: a :: l₁, List.Perm.swap b a l₁, rfl⟩
  | trans _ _ ih ih' =>
    obtain ⟨l', hPerm, rfl⟩ := ih hl
    obtain ⟨l'', hPerm', rfl⟩ := ih' rfl
    exact ⟨l'', hPerm.trans hPerm', rfl⟩

theorem fold_of_stable {ps ps' : List AstPrimitiveType}
    (hIntegral : ∀ p ∈ ps, tcPrimitiveIsIntegral p = true)
    (hStable : NumClass.Stable (ps.map numClass)) (hNe : ps ≠ []) (hPerm : ps.Perm ps') :
    partialFold mergeNumOp ps = partialFold mergeNumOp ps' := by
  have hIntegral' : ∀ p ∈ ps', tcPrimitiveIsIntegral p = true :=
    fun p hp => hIntegral p (hPerm.mem_iff.mpr hp)
  obtain ⟨c, hc⟩ := hStable.exists_fold (valid_map hIntegral) (by simpa using hNe)
  have hFold := hc _ (List.Perm.refl _)
  have hFold' := hc _ (hPerm.map numClass)
  rw [fold_numClass hIntegral] at hFold
  rw [fold_numClass hIntegral'] at hFold'
  obtain ⟨r, hr, hrc⟩ := Option.map_eq_some_iff.mp hFold
  obtain ⟨r', hr', hrc'⟩ := Option.map_eq_some_iff.mp hFold'
  rw [hr, hr']
  by_cases hSame : ∃ p ∈ ps, ∃ q ∈ ps, p ≠ q
  · obtain ⟨p, hp, q, hq, hpq⟩ := hSame
    rw [fold_canonical hIntegral hp hq hpq hr, fold_canonical hIntegral'
      (hPerm.mem_iff.mp hp) (hPerm.mem_iff.mp hq) hpq hr', hrc, hrc']
  · obtain ⟨p, hp⟩ := List.exists_mem_of_ne_nil _ hNe
    have hAll : ∀ q ∈ ps, q = p := by
      intro q hq
      by_contra h
      exact hSame ⟨q, hq, p, hp, h⟩
    have hAbsorbs : Absorbs mergeNumOp (fun x => x = p) p := by
      refine ⟨fun x y hx hy => ⟨p, ?_, rfl⟩, rfl, ?_, ?_⟩
      · rw [hx, hy, mergeNumOp, mergeNum, if_pos rfl]
      · rintro x rfl
        rw [mergeNumOp, mergeNum, if_pos rfl]
      · rintro x rfl
        rw [mergeNumOp, mergeNum, if_pos rfl]
    rw [← hr, ← hr', hAbsorbs.fold_eq hAll hp, hAbsorbs.fold_eq
      (fun q hq => hAll q (hPerm.mem_iff.mpr hq)) (hPerm.mem_iff.mp hp)]

/-- Different types of one class are numeric, or void and null. -/
theorem numeric_or_void (hAll : ∀ x ∈ types, cls ret x = cls ret a)
    (hDiffer : ¬ ∀ x ∈ types, x = a) (ha : a ∈ types) :
    (∃ ps : List AstPrimitiveType, types = ps.map (.value · 0) ∧
      ∀ p ∈ ps, tcPrimitiveIsIntegral p = true) ∨
    (ret = true ∧ .void ∈ types ∧ ∀ x ∈ types, x = .void ∨ x = .null) := by
  by_cases hNumeric : cls ret a = .value .int8 0
  · exact .inl (exists_numerics fun x hx => numeric_of_cls ((hAll x hx).trans hNumeric))
  by_cases hVoid : cls ret a = .void
  · have hTypes : ∀ x ∈ types, x = .void ∨ ret = true ∧ x = .null :=
      fun x hx => void_of_cls ((hAll x hx).trans hVoid)
    have hRet : ret = true := by
      by_contra hRet
      have hEq : ∀ x ∈ types, x = .void := fun x hx => (hTypes x hx).resolve_right fun h => hRet h.1
      exact hDiffer fun x hx => (hEq x hx).trans (hEq a ha).symm
    refine .inr ⟨hRet, ?_, fun x hx => (hTypes x hx).imp id And.right⟩
    by_contra hMem
    have hEq : ∀ x ∈ types, x = .null :=
      fun x hx => ((hTypes x hx).resolve_left fun h => hMem (h ▸ hx)).2
    exact hDiffer fun x hx => (hEq x hx).trans (hEq a ha).symm
  · refine absurd (fun x hx => ?_) hDiffer
    exact (eq_of_cls (hAll x hx) hNumeric hVoid).trans (eq_of_cls rfl hNumeric hVoid).symm

theorem orderFree_of_orderless (h : OrderlessForms ret types) :
    OrderFree (merge ret) Same types := by
  by_cases hNil : types = []
  · subst hNil
    intro l' hl'
    rw [List.nil_perm.mp hl']
    exact Option.Rel.none
  by_cases hExternal : .external ∈ types
  · refine OrderFree.of_const Same.refl (r := some .external) fun l' hl' => ?_
    exact fold_external (fun x hx hxNe y hy hyNe => h.external hExternal x
      (hl'.mem_iff.mpr hx) hxNe y (hl'.mem_iff.mpr hy) hyNe) (hl'.mem_iff.mp hExternal)
  by_cases hClass : ∃ x ∈ types, ∃ y ∈ types, cls ret x ≠ cls ret y
  · obtain ⟨x, hx, y, hy, hxy⟩ := hClass
    refine OrderFree.of_const Same.refl (r := none) fun l' hl' => ?_
    exact fold_eq_none (fun h => hExternal (hl'.mem_iff.mpr h)) (hl'.mem_iff.mp hx)
      (hl'.mem_iff.mp hy) hxy
  obtain ⟨a, ha⟩ := List.exists_mem_of_ne_nil _ hNil
  have hAll : ∀ x ∈ types, cls ret x = cls ret a := by
    intro x hx
    by_contra hNe
    exact hClass ⟨x, hx, a, ha, hNe⟩
  by_cases hEq : ∀ x ∈ types, x = a
  · refine OrderFree.of_const Same.refl (r := some a) fun l' hl' => ?_
    exact fold_of_eq (hl'.mem_iff.mp ha) fun x hx => hEq x (hl'.mem_iff.mpr hx)
  -- different types of one class are numeric, or void and null
  rcases numeric_or_void hAll hEq ha with ⟨ps, rfl, hIntegral⟩ | ⟨rfl, hVoid, hTypes⟩
  · intro l' hl'
    obtain ⟨ps', hPerm, rfl⟩ := exists_perm_map hl' rfl
    have hIntegral' : ∀ p ∈ ps', tcPrimitiveIsIntegral p = true :=
      fun p hp => hIntegral p (hPerm.mem_iff.mpr hp)
    have hNe : ps ≠ [] := fun h => hNil (by rw [h, List.map_nil])
    rw [fold_numeric hIntegral, fold_numeric hIntegral',
      ← fold_of_stable hIntegral (h.numeric ps rfl hIntegral) hNe hPerm]
    cases (partialFold mergeNumOp ps).map (TypeForm.value · 0) with
    | none => exact Option.Rel.none
    | some z => exact Option.Rel.some (Same.refl z)
  · refine OrderFree.of_const Same.refl (r := some .void) fun l' hl' => ?_
    exact fold_void (hl'.mem_iff.mp hVoid) fun x hx => hTypes x (hl'.mem_iff.mpr hx)

theorem externals_of_orderFree (h : OrderFree (merge ret) Same types) (hMem : .external ∈ types)
    (ha : a ∈ types) (haNe : a ≠ .external) (hb : b ∈ types) (hbNe : b ≠ .external) :
    cls ret a = cls ret b := by
  by_contra hCls
  have hab : a ≠ b := fun h => hCls (by rw [h])
  have hPerm := (List.perm_cons_erase ha).trans
    ((List.perm_cons_erase ((List.mem_erase_of_ne hab.symm).mpr hb)).cons a)
  refine OrderFree.not_of_fails (List.perm_cons_erase hMem) hPerm (a := .external) ?_ ?_ h
  · have hAbsorbs : ∀ l : List TypeForm, l.foldlM (merge ret) .external = some .external := by
      intro l
      induction l with
      | nil => rfl
      | cons x l ih =>
        rw [List.foldlM_cons, (merge_external x).1]
        exact ih
    exact hAbsorbs _
  · have hNone : merge ret a b = none := by
      rw [Option.eq_none_iff_forall_ne_some]
      intro z hz
      exact hCls (cls_of_merge haNe hbNe hz).2.1
    rw [partialFold_cons, List.foldlM_cons, hNone]
    rfl

/-- Where numbers do not promote alike, one order has a signed and another an unsigned type. -/
theorem stable_of_orderFree {ps : List AstPrimitiveType}
    (hIntegral : ∀ p ∈ ps, tcPrimitiveIsIntegral p = true)
    (h : OrderFree (merge ret) Same (ps.map (.value · 0))) :
    NumClass.Stable (ps.map numClass) := by
  by_contra hStable
  obtain ⟨la, lb, hla, hlb, hFoldA, hFoldB⟩ :=
    NumClass.exists_orders_of_not_stable hStable (valid_map hIntegral)
  have hOrder : ∀ {l c}, (ps.map numClass).Perm l → partialFold NumClass.joinOp l = some c →
      ∃ r z, partialFold (merge ret) (ps.map (.value · 0)) = some z ∧ Same z (.value r 0) ∧
        numClass r = c := by
    intro l c hl hFold
    obtain ⟨ps', hPerm, rfl⟩ := exists_perm_map hl rfl
    have hIntegral' : ∀ p ∈ ps', tcPrimitiveIsIntegral p = true :=
      fun p hp => hIntegral p (hPerm.mem_iff.mpr hp)
    rw [fold_numClass hIntegral'] at hFold
    obtain ⟨r, hr, hrc⟩ := Option.map_eq_some_iff.mp hFold
    have hRel := h _ (hPerm.map _)
    rw [fold_numeric hIntegral', hr] at hRel
    cases hz : partialFold (merge ret) (ps.map (.value · 0)) with
    | none =>
      rw [hz] at hRel
      cases hRel
    | some z =>
      rw [hz] at hRel
      cases hRel with
      | some hSame => exact ⟨r, z, rfl, hSame, hrc⟩
  obtain ⟨r, z, hz, hSame, hr⟩ := hOrder hla hFoldA
  obtain ⟨r', z', hz', hSame', hr'⟩ := hOrder hlb hFoldB
  obtain rfl : z = z' := Option.some.inj (hz.symm.trans hz')
  obtain ⟨p, rfl⟩ := value_of_same hSame
  have hAlias := (same_value hSame).symm.trans (same_value hSame')
  rw [aliasOf_unsigned hr'] at hAlias
  rcases aliasOf_signed hr with h | h <;> cases h.symm.trans hAlias

theorem orderFree_iff : OrderFree (merge ret) Same types ↔ OrderlessForms ret types := by
  refine ⟨fun h => ⟨fun hMem a ha haNe b hb hbNe => ?_, ?_⟩, orderFree_of_orderless⟩
  · exact externals_of_orderFree h hMem ha haNe hb hbNe
  · rintro ps rfl hIntegral
    exact stable_of_orderFree hIntegral h

theorem orderless_iff {op : CheckedType → CheckedType → Option CheckedType}
    (hOp : ∀ a b : TypeForm, op a.checked b.checked = (merge ret a b).map checked) :
    Orderless op types ↔ OrderlessForms ret types := by
  have hSome : ∀ a ≠ .external, ∀ b ≠ .external,
      (op a.checked b.checked).isSome ↔ cls ret a = cls ret b := by
    intro a ha b hb
    rw [hOp, Option.isSome_map, Option.isSome_iff_exists]
    exact ⟨fun ⟨z, hz⟩ => (cls_of_merge ha hb hz).2.1, exists_merge⟩
  constructor
  · intro h
    refine ⟨fun hMem a ha haNe b hb hbNe => ?_, fun ps hps hIntegral => ?_⟩
    · exact (hSome a haNe b hbNe).mp (h.external hMem a ha haNe b hb hbNe)
    · exact (stable_iff ps).mpr (h.numeric ps hps hIntegral)
  · intro h
    refine ⟨fun hMem a ha haNe b hb hbNe => ?_, fun ps hps hIntegral => ?_⟩
    · exact (hSome a haNe b hbNe).mpr (h.external hMem a ha haNe b hb hbNe)
    · exact (stable_iff ps).mp (h.numeric ps hps hIntegral)

theorem mergesInAnyOrder_iff {op : CheckedType → CheckedType → Option CheckedType}
    (hOp : ∀ a b : TypeForm, op a.checked b.checked = (merge ret a b).map checked) :
    MergesInAnyOrder op types ↔ Orderless op types := by
  have hFold : ∀ l : List TypeForm,
      mergeAll op (l.map checked) = (partialFold (merge ret) l).map checked := fun l =>
    partialFold_map (Q := fun _ => True) (fun a b _ _ => hOp a b) (fun _ _ _ _ _ _ => trivial)
      fun _ _ => trivial
  rw [orderless_iff hOp, ← orderFree_iff]
  refine forall_congr' fun l => imp_congr_right fun _ => ?_
  rw [hFold, hFold]
  cases partialFold (merge ret) types <;> cases partialFold (merge ret) l <;>
    simp [Same]

end Main

end Calynda
