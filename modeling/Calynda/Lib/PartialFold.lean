/-!
# Folding a partial operation

A list is folded from its first member with an operation that may fail. An operation may have
members that absorb all others, and may keep a class of its operands: either makes the fold
independent of the order of the list.
-/

namespace Calynda.Lib

section PartialFold

variable {α β : Type} {op : α → α → Option α}

/-- The fold of a list from its first member; nothing for the empty list. -/
def partialFold (op : α → α → Option α) : List α → Option α
  | [] => none
  | a :: l => l.foldlM op a

@[simp]
theorem partialFold_cons (a : α) (l : List α) : partialFold op (a :: l) = l.foldlM op a := rfl

theorem partialFold_append {l : List α} (hNe : l ≠ []) (m : List α) :
    partialFold op (l ++ m) = (partialFold op l).bind fun a => m.foldlM op a := by
  cases l with
  | nil => exact absurd rfl hNe
  | cons a l => exact List.foldlM_append

/-- Within `Q` the operation does not fail, and `m` absorbs. -/
structure Absorbs (op : α → α → Option α) (Q : α → Prop) (m : α) : Prop where
  closed : ∀ x y, Q x → Q y → ∃ z, op x y = some z ∧ Q z
  mem : Q m
  left : ∀ x, Q x → op m x = some m
  right : ∀ x, Q x → op x m = some m

theorem Absorbs.foldlM_self {Q : α → Prop} {m : α} (h : Absorbs op Q m) {l : List α}
    (hl : ∀ x ∈ l, Q x) : l.foldlM op m = some m := by
  induction l with
  | nil => rfl
  | cons x l ih =>
    rw [List.foldlM_cons, h.left x (hl x List.mem_cons_self)]
    exact ih fun y hy => hl y (List.mem_cons_of_mem x hy)

theorem Absorbs.foldlM_eq {Q : α → Prop} {m : α} (h : Absorbs op Q m) {l : List α} {a : α}
    (ha : Q a) (hl : ∀ x ∈ l, Q x) (hm : m ∈ l) : l.foldlM op a = some m := by
  induction l generalizing a with
  | nil => cases hm
  | cons x l ih =>
    have hl' : ∀ y ∈ l, Q y := fun y hy => hl y (List.mem_cons_of_mem x hy)
    rw [List.foldlM_cons]
    rcases List.mem_cons.mp hm with rfl | hm
    · rw [h.right a ha]
      exact h.foldlM_self hl'
    · obtain ⟨z, hz, hQz⟩ := h.closed a x ha (hl x List.mem_cons_self)
      rw [hz]
      exact ih hQz hl' hm

/-- A list within `Q` that has the absorbing member folds to it. -/
theorem Absorbs.fold_eq {Q : α → Prop} {m : α} (h : Absorbs op Q m) {l : List α}
    (hl : ∀ x ∈ l, Q x) (hm : m ∈ l) : partialFold op l = some m := by
  cases l with
  | nil => cases hm
  | cons a l =>
    have hl' : ∀ y ∈ l, Q y := fun y hy => hl y (List.mem_cons_of_mem a hy)
    rcases List.mem_cons.mp hm with rfl | hm
    · exact h.foldlM_self hl'
    · exact h.foldlM_eq (hl a List.mem_cons_self) hl' hm

/-- A fold within a set on which the operation does not fail. -/
theorem fold_closed {Q : α → Prop} (h : ∀ x y, Q x → Q y → ∃ z, op x y = some z ∧ Q z)
    {l : List α} (hl : ∀ x ∈ l, Q x) (hNe : l ≠ []) : ∃ z, partialFold op l = some z ∧ Q z := by
  cases l with
  | nil => exact absurd rfl hNe
  | cons a l =>
    have ha := hl a List.mem_cons_self
    have hl' : ∀ y ∈ l, Q y := fun y hy => hl y (List.mem_cons_of_mem a hy)
    clear hl hNe
    rw [partialFold_cons]
    induction l generalizing a with
    | nil => exact ⟨a, rfl, ha⟩
    | cons x l ih =>
      obtain ⟨z, hz, hQz⟩ := h a x ha (hl' x List.mem_cons_self)
      rw [List.foldlM_cons, hz]
      exact ih z hQz fun y hy => hl' y (List.mem_cons_of_mem x hy)

/-- Where the operation combines only members of one class, and stays in it, a fold that does not
fail has members of one class only. -/
theorem class_of_fold {Q : α → Prop} {c : α → β}
    (h : ∀ x y z, Q x → Q y → op x y = some z → Q z ∧ c x = c y ∧ c z = c x)
    {l : List α} {r : α} (hl : ∀ x ∈ l, Q x) (hr : partialFold op l = some r) :
    ∀ x ∈ l, c x = c r := by
  cases l with
  | nil => cases hr
  | cons a l =>
    have ha := hl a List.mem_cons_self
    have hl' : ∀ y ∈ l, Q y := fun y hy => hl y (List.mem_cons_of_mem a hy)
    clear hl
    rw [partialFold_cons] at hr
    induction l generalizing a with
    | nil =>
      cases hr
      intro x hx
      rw [List.mem_singleton.mp hx]
    | cons y l ih =>
      rw [List.foldlM_cons] at hr
      obtain ⟨z, hz, hr⟩ := Option.bind_eq_some_iff.mp hr
      obtain ⟨hQz, hxy, hzx⟩ := h a y z ha (hl' y List.mem_cons_self) hz
      have hAll := ih z hr hQz fun x hx => hl' x (List.mem_cons_of_mem y hx)
      have hzr := hAll z List.mem_cons_self
      intro x hx
      rcases List.mem_cons.mp hx with rfl | hx
      · rw [← hzx, hzr]
      · rcases List.mem_cons.mp hx with rfl | hx
        · rw [← hxy, ← hzx, hzr]
        · exact hAll x (List.mem_cons_of_mem z hx)

/-- The fold has related results for all orders of a list: none for all of them, or related ones. -/
def OrderFree (op : α → α → Option α) (R : α → α → Prop) (l : List α) : Prop :=
  ∀ l', l.Perm l' → Option.Rel R (partialFold op l) (partialFold op l')

theorem OrderFree.of_const {R : α → α → Prop} (hR : ∀ a, R a a) {l : List α} {r : Option α}
    (h : ∀ l', l.Perm l' → partialFold op l' = r) : OrderFree op R l := by
  intro l' hl'
  rw [h l (List.Perm.refl l), h l' hl']
  cases r with
  | none => exact Option.Rel.none
  | some a => exact Option.Rel.some (hR a)

/-- Two orders of the list, one of which fails. -/
theorem OrderFree.not_of_fails {R : α → α → Prop} {l la lb : List α} {a : α}
    (hla : l.Perm la) (hlb : l.Perm lb) (ha : partialFold op la = some a)
    (hb : partialFold op lb = none) : ¬ OrderFree op R l := by
  intro h
  have hA := h la hla
  have hB := h lb hlb
  rw [ha] at hA
  rw [hb] at hB
  cases hFold : partialFold op l with
  | none =>
    rw [hFold] at hA
    cases hA
  | some c =>
    rw [hFold] at hB
    cases hB

/-- A fold commutes with a map that the operations respect within `Q`. -/
theorem partialFold_map {Q : α → Prop} {op' : β → β → Option β} {f : α → β}
    (h : ∀ x y, Q x → Q y → op' (f x) (f y) = (op x y).map f)
    (hQ : ∀ x y z, Q x → Q y → op x y = some z → Q z) {l : List α} (hl : ∀ x ∈ l, Q x) :
    partialFold op' (l.map f) = (partialFold op l).map f := by
  cases l with
  | nil => rfl
  | cons a l =>
    have ha := hl a List.mem_cons_self
    have hl' : ∀ y ∈ l, Q y := fun y hy => hl y (List.mem_cons_of_mem a hy)
    clear hl
    rw [List.map_cons, partialFold_cons, partialFold_cons]
    induction l generalizing a with
    | nil => rfl
    | cons x l ih =>
      have hx := hl' x List.mem_cons_self
      rw [List.map_cons, List.foldlM_cons, List.foldlM_cons, h a x ha hx]
      cases hz : op a x with
      | none => rfl
      | some z => exact ih z (hQ a x z ha hx hz) fun y hy => hl' y (List.mem_cons_of_mem x hy)

end PartialFold

end Calynda.Lib
