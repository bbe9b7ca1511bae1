import Mathlib.Data.List.GetD

/-!
# Lists as arrays

Reading a list at any index, with a default outside it, after a write, passes that append to a
list, and lists made of blocks of one size.
-/

namespace List

universe u v

variable {α : Type v}

theorem Forall₂.exists_of_mem_right {β : Type*} {R : α → β → Prop} {xs : List α} {ys : List β}
    (h : Forall₂ R xs ys) {y : β} (hy : y ∈ ys) : ∃ x ∈ xs, R x y := by
  induction h with
  | nil => exact nomatch hy
  | cons hHead _ ih =>
    rcases mem_cons.1 hy with rfl | hy
    · exact ⟨_, mem_cons_self, hHead⟩
    · obtain ⟨x, hx, hR⟩ := ih hy
      exact ⟨x, mem_cons_of_mem _ hx, hR⟩

theorem Forall₂.exists_of_mem_left {β : Type*} {R : α → β → Prop} {xs : List α} {ys : List β}
    (h : Forall₂ R xs ys) {x : α} (hx : x ∈ xs) : ∃ y ∈ ys, R x y := by
  induction h with
  | nil => exact nomatch hx
  | cons hHead _ ih =>
    rcases mem_cons.1 hx with rfl | hx
    · exact ⟨_, mem_cons_self, hHead⟩
    · obtain ⟨y, hy, hR⟩ := ih hx
      exact ⟨y, mem_cons_of_mem _ hy, hR⟩

/-- Elements with the same image are equal when no image comes twice. -/
theorem eq_of_nodup_filterMap {β : Type*} {f : α → Option β} {l : List α}
    (h : (l.filterMap f).Nodup) {a a' : α} (ha : a ∈ l) (ha' : a' ∈ l) {b : β}
    (hb : f a = some b) (hb' : f a' = some b) : a = a' := by
  induction l with
  | nil => exact nomatch ha
  | cons x xs ih =>
    have hOther {y : α} (hy : y ∈ xs) (hyb : f y = some b) (hx : f x = some b) : False := by
      rw [filterMap_cons_some hx] at h
      exact (nodup_cons.1 h).1 (mem_filterMap.2 ⟨y, hy, hyb⟩)
    rcases mem_cons.1 ha with rfl | hRest <;> rcases mem_cons.1 ha' with rfl | hRest'
    · rfl
    · exact (hOther hRest' hb' hb).elim
    · exact (hOther hRest hb hb').elim
    · refine ih ?_ hRest hRest'
      cases hx : f x with
      | none => rwa [filterMap_cons_none hx] at h
      | some c =>
        rw [filterMap_cons_some hx] at h
        exact (nodup_cons.1 h).2

theorem getD_set_self {l : List α} {i : Nat} (h : i < l.length) (a d : α) :
    (l.set i a).getD i d = a := by
  rw [getD_eq_getElem?_getD, getElem?_set_self h]
  rfl

theorem getD_set_of_ne {i j : Nat} (h : i ≠ j) (l : List α) (a d : α) :
    (l.set i a).getD j d = l.getD j d := by
  rw [getD_eq_getElem?_getD, getElem?_set_ne h, ← getD_eq_getElem?_getD]

theorem getD_replicate_self (n i : Nat) (a : α) : (replicate n a).getD i a = a :=
  (getD_eq_getElem?_getD ..).trans (getElem?_getD_replicate_default_eq a n i)

/-- Changing an element does not show in what the change keeps. -/
theorem map_modify_of_eq {β : Type*} (g : α → β) (f : α → α) (hf : ∀ a, g (f a) = g a)
    (l : List α) (i : Nat) : (l.modify i f).map g = l.map g := by
  refine List.ext_getElem (by simp) fun j hj hj' => ?_
  rw [List.getElem_map, List.getElem_map, List.getElem_modify]
  split
  · exact hf _
  · rfl

theorem map_set_of_eq {β : Type*} (g : α → β) {l : List α} {i : Nat} {a d : α}
    (h : g a = g (l.getD i d)) : (l.set i a).map g = l.map g := by
  by_cases hi : i < l.length
  · rw [map_set, h, getD_eq_getElem _ _ hi, ← getElem_map g (h := by rwa [length_map]), set_getElem_self]
  · rw [set_eq_of_length_le (by omega)]

/-- Setting flags leaves no more unset ones. -/
theorem count_false_le {l l' : List Bool} (hLength : l'.length = l.length)
    (hMono : ∀ i, l.getD i false = true → l'.getD i false = true) :
    l'.count false ≤ l.count false := by
  induction l generalizing l' with
  | nil => simp [List.length_eq_zero_iff.1 hLength]
  | cons x l ih =>
    cases l' with
    | nil => simp
    | cons x' l' =>
      have hTail := ih (by simpa using hLength) fun i hi => by simpa using hMono (i + 1) hi
      have hHead : x = true → x' = true := by simpa using hMono 0
      rw [List.count_cons, List.count_cons]
      cases x with
      | true =>
        rw [hHead rfl]
        exact hTail
      | false =>
        cases x' with
        | true => exact Nat.le_succ_of_le hTail
        | false => exact Nat.add_le_add_right hTail _

/-- A pass that appends what each element gives, and stops at one that cannot be read. -/
theorem foldlM_append_eq_some {β γ : Type u} {read : α → Option γ} {emit : α → γ → List β}
    {l : List α} {init out : List β} :
    l.foldlM (fun acc x => do let w ← read x; some (acc ++ emit x w)) init = some out ↔
      (∀ x ∈ l, ∃ w, read x = some w) ∧
        out = init ++ l.flatMap fun x => (read x).elim [] (emit x) := by
  induction l generalizing init with
  | nil => simp [eq_comm]
  | cons x l ih =>
    rw [List.foldlM_cons]
    cases hx : read x with
    | none => simp [hx]
    | some w =>
      have hStep : (do let w ← some w; some (init ++ emit x w) : Option (List β)) =
          some (init ++ emit x w) := rfl
      rw [hStep, Option.bind_eq_bind, Option.bind_some, ih]
      simp [hx]

section Blocks

variable {block : Nat → List α} {size n g : Nat}

theorem length_flatMap_range (h : ∀ i < n, (block i).length = size) :
    ((range n).flatMap block).length = n * size := by
  induction n with
  | zero => simp
  | succ n ih =>
    rw [range_succ, flatMap_append, length_append, ih fun i hi => h i (by omega)]
    simp [h n (by omega), Nat.add_mul]

/-- A slice that stays in one block. -/
theorem take_drop_flatMap_range (h : ∀ i < n, (block i).length = size) (hg : g < n) {w t : Nat}
    (hw : w + t ≤ size) :
    (((range n).flatMap block).drop (g * size + w)).take t = ((block g).drop w).take t := by
  obtain ⟨rest, rfl⟩ : ∃ rest, n = g + (1 + rest) := ⟨n - g - 1, by omega⟩
  have hBefore : ((range g).flatMap block).length = g * size :=
    length_flatMap_range fun i hi => h i (by omega)
  have hBlock := h g hg
  rw [range_add, flatMap_append, ← hBefore, drop_append, drop_eq_nil_of_le (by omega),
    range_add, map_append, flatMap_append]
  simp only [range_one, map_cons, map_nil, flatMap_cons, flatMap_nil, append_nil, nil_append,
    Nat.add_zero, Nat.add_sub_cancel_left]
  rw [drop_append_of_le_length (by omega), take_append_of_le_length (by rw [length_drop]; omega)]

end Blocks

end List
