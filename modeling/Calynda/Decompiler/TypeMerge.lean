import Calynda.Decompiler.Types

/-!
# Order of evidence

When the result of merging a list of types does not depend on its order. A kind is merged by a join,
except that a pointer meets a float or a void: they fall back to an integer, which the next pointer
turns into a pointer again.
-/

namespace Calynda.Decompiler.Typing

open Calynda.Lib

/-- A list of evidence merged from the unknown type. -/
def typesFold (l : List TypeInfo) : TypeInfo := l.foldl typesMerge {}

/-! ## Order independence -/

def KindsDisagree (a b : TypeKind) : Prop :=
  a ≠ .unknown ∧ b ≠ .unknown ∧ a ≠ b ∧ ¬(a = .int ∧ b = .ptr) ∧ ¬(a = .ptr ∧ b = .int)

def SignsDisagree (a b : Signedness) : Prop := a ≠ .unknown ∧ b ≠ .unknown ∧ a ≠ b

def Disagree (x y : TypeInfo) : Prop := KindsDisagree x.kind y.kind ∨ SignsDisagree x.sign y.sign

/-- What a list of evidence is to determine whatever its order and repetitions. -/
def TypeInfo.evidence (t : TypeInfo) : TypeKind × Nat × Signedness × Bool :=
  (t.kind, t.width, t.sign, t.conflict)

/-- Every list with the same members gives the same type, the flag tells of two members that
disagree, and only a pointer has a symbol. -/
def MergesInAnyOrder (l : List TypeInfo) : Prop :=
  (∀ l' : List TypeInfo, (∀ x, x ∈ l' ↔ x ∈ l) →
    (typesFold l').evidence = (typesFold l).evidence) ∧
  ((typesFold l).conflict = true ↔ ∃ x ∈ l, ∃ y ∈ l, Disagree x y) ∧
  ((typesFold l).ptrToSym.isSome = true → (typesFold l).kind = .ptr)

def TypeKind.IsFloatOrVoid (k : TypeKind) : Prop := k = .float ∨ k = .void

/-- No pointer beside a float or a void, a flag only where two members disagree, and a symbol
only where there is a pointer. -/
structure Mergeable (l : List TypeInfo) : Prop where
  pointer : ∀ x ∈ l, x.kind = .ptr → ∀ y ∈ l, ¬y.kind.IsFloatOrVoid
  flag : (∃ x ∈ l, x.conflict = true) → ∃ x ∈ l, ∃ y ∈ l, Disagree x y
  symbol : (∃ x ∈ l, x.ptrToSym.isSome = true) → ∃ x ∈ l, x.kind = .ptr

instance (k : TypeKind) : Decidable k.IsFloatOrVoid := inferInstanceAs (Decidable (_ ∨ _))

instance (a b : TypeKind) : Decidable (KindsDisagree a b) :=
  inferInstanceAs (Decidable (_ ∧ _ ∧ _ ∧ ¬_ ∧ ¬_))

instance (a b : Signedness) : Decidable (SignsDisagree a b) :=
  inferInstanceAs (Decidable (_ ∧ _ ∧ _))

/-! ## Kinds and signs as merges -/

def kindMerge : Merge TypeKind where
  op a b := (mergeKind a b).1
  disagrees a b := (mergeKind a b).2
  none := .unknown

def signMerge : Merge Signedness where
  op a b := (mergeSign a b).1
  disagrees a b := (mergeSign a b).2
  none := .unknown

theorem kindMerge_faithful : kindMerge.Faithful where
  irrefl := by decide
  symm := by decide
  none := by decide
  op := by decide

theorem signMerge_faithful : signMerge.Faithful where
  irrefl := by decide
  symm := by decide
  none := by decide
  op := by decide

theorem kindMerge_disagrees : ∀ a b, kindMerge.disagrees a b = true ↔ KindsDisagree a b := by
  decide

theorem signMerge_disagrees : ∀ a b, signMerge.disagrees a b = true ↔ SignsDisagree a b := by
  decide

/-- The join that the merge of kinds is, but for a pointer that meets a float or a void. -/
def joinKind (a b : TypeKind) : TypeKind :=
  if a = .ptr ∨ b = .ptr then .ptr
  else if a = .unknown then b
  else if b = .unknown then a
  else if a = b then a
  else .int

instance : Max TypeKind := ⟨joinKind⟩

instance : SemilatticeSup TypeKind := SemilatticeSup.mk' (by decide) (by decide) (by decide)

instance : Max Signedness := ⟨fun a b => (mergeSign a b).1⟩

instance : SemilatticeSup Signedness := SemilatticeSup.mk' (by decide) (by decide) (by decide)

theorem mergeWidth_eq_max (dst src : Nat) : mergeWidth dst src = max dst src := by
  unfold mergeWidth
  split_ifs <;> omega

/-! ## The fields of the result -/

section Fields

variable (l : List TypeInfo)

theorem typesFold_append_singleton (e : TypeInfo) :
    typesFold (l ++ [e]) = typesMerge (typesFold l) e := by
  rw [typesFold, List.foldl_append]
  rfl

theorem Merge.fold_append_singleton {α : Type*} (m : Merge α) (l : List α) (x : α) :
    m.fold (l ++ [x]) = m.step (m.fold l) x := by
  rw [Merge.fold, List.foldl_append]
  rfl

theorem typesFold_kind : (typesFold l).kind = (kindMerge.fold (l.map TypeInfo.kind)).1 := by
  induction l using List.reverseRecOn with
  | nil => rfl
  | append_singleton l e ih =>
    rw [typesFold_append_singleton, List.map_append, List.map_singleton,
      Merge.fold_append_singleton, typesMerge, Merge.step, ← ih]
    rfl

theorem typesFold_sign : (typesFold l).sign = (signMerge.fold (l.map TypeInfo.sign)).1 := by
  induction l using List.reverseRecOn with
  | nil => rfl
  | append_singleton l e ih =>
    rw [typesFold_append_singleton, List.map_append, List.map_singleton,
      Merge.fold_append_singleton, typesMerge, Merge.step, ← ih]
    rfl

theorem typesFold_width : (typesFold l).width = l.foldl (fun s x => s ⊔ x.width) 0 := by
  induction l using List.reverseRecOn with
  | nil => rfl
  | append_singleton l e ih =>
    rw [typesFold_append_singleton, List.foldl_append, typesMerge, ← ih]
    exact mergeWidth_eq_max _ _

theorem typesFold_conflict :
    (typesFold l).conflict = ((kindMerge.fold (l.map TypeInfo.kind)).2 ||
      (signMerge.fold (l.map TypeInfo.sign)).2 || l.any TypeInfo.conflict) := by
  induction l using List.reverseRecOn with
  | nil => rfl
  | append_singleton l e ih =>
    rw [typesFold_append_singleton, List.map_append, List.map_singleton,
      Merge.fold_append_singleton, List.map_append, List.map_singleton,
      Merge.fold_append_singleton, List.any_append, typesMerge, Merge.step, Merge.step, ih,
      typesFold_kind, typesFold_sign]
    simp only [List.any_cons, List.any_nil, Bool.or_false]
    simp only [kindMerge, signMerge, Bool.or_assoc, Bool.or_comm, Bool.or_left_comm]

theorem typesFold_ptrToSym : (typesFold l).ptrToSym.isSome = l.any (·.ptrToSym.isSome) := by
  induction l using List.reverseRecOn with
  | nil => rfl
  | append_singleton l e ih =>
    rw [typesFold_append_singleton, List.any_append, ← ih, typesMerge]
    simp [Option.isSome_or]

end Fields

/-! ## The flag -/

theorem conflict_iff (l : List TypeInfo) :
    (typesFold l).conflict = true ↔
      (∃ x ∈ l, ∃ y ∈ l, Disagree x y) ∨ ∃ x ∈ l, x.conflict = true := by
  have hKind := (kindMerge_faithful.fold_spec (l.map TypeInfo.kind)).1
  have hSign := (signMerge_faithful.fold_spec (l.map TypeInfo.sign)).1
  simp only [List.mem_map, exists_exists_and_eq_and, kindMerge_disagrees,
    signMerge_disagrees] at hKind hSign
  rw [typesFold_conflict, Bool.or_eq_true, Bool.or_eq_true, hKind, hSign, List.any_eq_true]
  simp only [Disagree, exists_or, and_or_left]

/-! ## The kind -/

theorem mergeKind_eq_join : ∀ a b : TypeKind, ¬(a = .ptr ∧ b.IsFloatOrVoid) →
    ¬(b = .ptr ∧ a.IsFloatOrVoid) → (mergeKind a b).1 = a ⊔ b := by
  decide

theorem mergeKind_ptr : ∀ a b : TypeKind, (mergeKind a b).1 = .ptr → a = .ptr ∨ b = .ptr := by
  decide

theorem mergeKind_floatOrVoid : ∀ a b : TypeKind, (mergeKind a b).1.IsFloatOrVoid →
    a.IsFloatOrVoid ∨ b.IsFloatOrVoid := by
  decide

/-- A property of kinds that no merge makes out of nothing is one of a member. -/
theorem exists_kind_of_typesFold {P : TypeKind → Prop} (hUnknown : ¬P .unknown)
    (hMerge : ∀ a b, P (mergeKind a b).1 → P a ∨ P b) {l : List TypeInfo}
    (h : P (typesFold l).kind) : ∃ x ∈ l, P x.kind := by
  induction l using List.reverseRecOn with
  | nil => exact absurd h hUnknown
  | append_singleton l e ih =>
    rw [typesFold_append_singleton, typesMerge] at h
    rcases hMerge _ _ h with hOld | hNew
    · obtain ⟨x, hx, hP⟩ := ih hOld
      exact ⟨x, List.mem_append_left _ hx, hP⟩
    · exact ⟨e, List.mem_append_right _ List.mem_cons_self, hNew⟩

theorem typesFold_kind_eq_join {l : List TypeInfo}
    (hl : ∀ x ∈ l, x.kind = .ptr → ∀ y ∈ l, ¬y.kind.IsFloatOrVoid) :
    (typesFold l).kind = l.foldl (fun s x => s ⊔ x.kind) .unknown := by
  induction l using List.reverseRecOn with
  | nil => rfl
  | append_singleton l e ih =>
    have hOld : ∀ x ∈ l, x ∈ l ++ [e] := fun x => List.mem_append_left _
    have hNew : e ∈ l ++ [e] := List.mem_append_right _ List.mem_cons_self
    have ih := ih fun x hx hPtr y hy => hl x (hOld x hx) hPtr y (hOld y hy)
    rw [typesFold_append_singleton, List.foldl_append, ← ih]
    refine mergeKind_eq_join _ _ (fun h => ?_) fun h => ?_
    · obtain ⟨x, hx, hPtr⟩ :=
        exists_kind_of_typesFold (P := (· = .ptr)) (by decide) mergeKind_ptr h.1
      exact hl x (hOld x hx) hPtr e hNew h.2
    · obtain ⟨x, hx, hFloat⟩ :=
        exists_kind_of_typesFold (P := TypeKind.IsFloatOrVoid) (by decide) mergeKind_floatOrVoid h.2
      exact hl e hNew h.1 x (hOld x hx) hFloat

/-- With pointers only beside integers, one pointer makes the result a pointer. -/
theorem typesFold_kind_of_ptr {l : List TypeInfo}
    (hl : ∀ x ∈ l, x.kind = .ptr → ∀ y ∈ l, ¬y.kind.IsFloatOrVoid)
    (hPtr : ∃ x ∈ l, x.kind = .ptr) : (typesFold l).kind = .ptr := by
  obtain ⟨x, hx, hPtr⟩ := hPtr
  have hTop : ∀ k : TypeKind, .ptr ⊔ k = .ptr := by decide
  have hLe := ((foldl_sup_le_iff TypeInfo.kind l .unknown _).1 le_rfl).2 x hx
  rw [typesFold_kind_eq_join hl, ← sup_eq_right.2 hLe, hPtr, hTop]

/-- A pointer beside a float or a void: the last of them decides. -/
theorem kind_depends_on_order : ∀ s f : TypeKind, f.IsFloatOrVoid →
    (mergeKind (mergeKind (mergeKind s f).1 .ptr).1 .ptr).1 = .ptr ∧
      (mergeKind (mergeKind (mergeKind s .ptr).1 .ptr).1 f).1 = .int := by
  decide

theorem pointer_of_mergesInAnyOrder {l : List TypeInfo} (h : MergesInAnyOrder l) :
    ∀ x ∈ l, x.kind = .ptr → ∀ y ∈ l, ¬y.kind.IsFloatOrVoid := by
  intro x hx hPtr y hy hFloat
  have hMembers : ∀ tail : List TypeInfo, (∀ z ∈ tail, z = x ∨ z = y) →
      ∀ z, z ∈ l ++ tail ↔ z ∈ l := by
    intro tail hTail z
    rw [List.mem_append]
    refine ⟨fun hz => hz.elim id fun hz => ?_, Or.inl⟩
    rcases hTail z hz with rfl | rfl
    · exact hx
    · exact hy
  have hLast := h.1 (l ++ [y] ++ [x] ++ [x]) (by
    rw [List.append_assoc, List.append_assoc]
    exact hMembers _ (by simp))
  have hFirst := h.1 (l ++ [x] ++ [x] ++ [y]) (by
    rw [List.append_assoc, List.append_assoc]
    exact hMembers _ (by simp))
  have hKinds := congrArg Prod.fst (hLast.trans hFirst.symm)
  simp only [TypeInfo.evidence, typesFold_append_singleton, typesMerge, hPtr] at hKinds
  obtain ⟨hP, hI⟩ := kind_depends_on_order (typesFold l).kind y.kind hFloat
  rw [hP, hI] at hKinds
  cases hKinds

/-- Types merge in any order exactly if pointers stand only beside integers, flags only where two
members disagree, and symbols only where there is a pointer. -/
theorem typesFold_inAnyOrder_iff (l : List TypeInfo) : MergesInAnyOrder l ↔ Mergeable l := by
  constructor
  · intro h
    refine ⟨pointer_of_mergesInAnyOrder h, fun hFlag => ?_, fun hSymbol => ?_⟩
    · exact h.2.1.1 ((conflict_iff l).2 (Or.inr hFlag))
    · have hSome : (typesFold l).ptrToSym.isSome = true := by
        rw [typesFold_ptrToSym, List.any_eq_true]
        exact hSymbol
      exact exists_kind_of_typesFold (P := (· = .ptr)) (by decide) mergeKind_ptr (h.2.2 hSome)
  · intro h
    refine ⟨fun l' hMem => ?_, ?_, fun hSome => ?_⟩
    · have hPointer : ∀ x ∈ l', x.kind = .ptr → ∀ y ∈ l', ¬y.kind.IsFloatOrVoid := by
        simpa only [hMem] using h.pointer
      have hSign : ∀ l : List TypeInfo,
          (typesFold l).sign = l.foldl (fun s x => s ⊔ x.sign) .unknown := by
        intro l
        induction l using List.reverseRecOn with
        | nil => rfl
        | append_singleton l e ih =>
          rw [typesFold_append_singleton, List.foldl_append, ← ih]
          rfl
      have hConflict : (typesFold l').conflict = (typesFold l).conflict := by
        rw [Bool.eq_iff_iff, conflict_iff, conflict_iff]
        simp only [hMem]
      simp only [TypeInfo.evidence, hConflict, typesFold_width, hSign,
        typesFold_kind_eq_join hPointer, typesFold_kind_eq_join h.pointer]
      rw [foldl_sup_congr TypeInfo.kind hMem, foldl_sup_congr TypeInfo.width hMem,
        foldl_sup_congr TypeInfo.sign hMem]
    · rw [conflict_iff, or_iff_left_iff_imp]
      exact h.flag
    · rw [typesFold_ptrToSym, List.any_eq_true] at hSome
      exact typesFold_kind_of_ptr h.pointer (h.symbol hSome)

/-- A float, an integer and a pointer are a pointer, in another order an integer. -/
theorem not_typesFold_inAnyOrder :
    ¬MergesInAnyOrder [{ kind := .float, width := 4 }, { kind := .int, width := 4 },
      { kind := .ptr, width := 4, ptrToSym := some "table" }] := by
  intro h
  have hOther := h.1 [{ kind := .float, width := 4 },
    { kind := .ptr, width := 4, ptrToSym := some "table" }, { kind := .int, width := 4 }]
    (by simp [or_comm])
  exact absurd hOther (by decide)

end Calynda.Decompiler.Typing
