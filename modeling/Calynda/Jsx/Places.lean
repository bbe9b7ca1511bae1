import Calynda.Jsx.Functions
import Mathlib.Data.List.Perm.Subperm
import Mathlib.Data.List.Nodup

/-!
# Parts and their places

The parts of a tree stand at different places, so that their places number them. The orders in
which two walks visit the reactive expressions agree where all of them are near the root.
-/

namespace Calynda.Jsx

open List

/-! ## Numbering a list by its keys -/

section Keys

variable {α β : Type} [DecidableEq β] {key : α → β} {l : List α} {x : α}

theorem filter_eq_singleton (h : (l.map key).Nodup) (hx : x ∈ l) :
    l.filter (fun y => key y = key x) = [x] := by
  induction l with
  | nil => cases hx
  | cons a l ih =>
    rw [map_cons, nodup_cons] at h
    rw [mem_cons] at hx
    rcases hx with rfl | hx
    · rw [filter_cons_of_pos (by simp), filter_eq_nil_iff.mpr]
      intro y hy hKey
      exact h.1 (mem_map.mpr ⟨y, hy, of_decide_eq_true hKey⟩)
    · rw [filter_cons_of_neg, ih h.2 hx]
      intro hKey
      exact h.1 (mem_map.mpr ⟨x, hx, (of_decide_eq_true hKey).symm⟩)

/-- The number of the member with a key. -/
def indexOfKey (key : α → β) (l : List α) (k : β) : Nat := (l.map key).idxOf k

theorem getElem?_indexOfKey (h : (l.map key).Nodup) (hx : x ∈ l) :
    l[indexOfKey key l (key x)]? = some x := by
  obtain ⟨k, hk, rfl⟩ := mem_iff_getElem.mp hx
  have hLt : k < (l.map key).length := by simpa using hk
  have hKey : (l.map key)[k] = key l[k] := getElem_map key
  rw [indexOfKey, ← hKey, h.idxOf_getElem, getElem?_eq_getElem hk]

theorem eq_of_indexOfKey_eq {y : α} (h : (l.map key).Nodup) (hx : x ∈ l) (hy : y ∈ l)
    (hEq : indexOfKey key l (key x) = indexOfKey key l (key y)) : x = y := by
  have hGet := getElem?_indexOfKey h hx
  rw [hEq, getElem?_indexOfKey h hy] at hGet
  exact (Option.some.inj hGet).symm

theorem map_indexOfKey (h : (l.map key).Nodup) :
    l.map (fun x => indexOfKey key l (key x)) = List.range' 0 l.length := by
  apply ext_getElem
  · simp
  · intro k hk _
    have hk' : k < l.length := by simpa using hk
    have hLt : k < (l.map key).length := by simpa using hk
    have hKey : (l.map key)[k] = key l[k] := getElem_map key
    rw [getElem_map, indexOfKey, ← hKey, h.idxOf_getElem]
    simp

theorem find?_key (h : (l.map key).Nodup) (hx : x ∈ l) :
    l.find? (fun y => key y = key x) = some x := by
  rw [← head?_filter, filter_eq_singleton h hx]
  rfl

/-- A list is no longer than one that has different values for its members. -/
theorem length_le_of_injOn {γ : Type} {f : α → γ} {m : List γ} (hl : l.Nodup)
    (hInj : ∀ x ∈ l, ∀ y ∈ l, f x = f y → x = y) (hMem : ∀ x ∈ l, f x ∈ m) :
    l.length ≤ m.length := by
  have hNodup : (l.map f).Nodup := hl.map_on hInj
  have hSub : l.map f ⊆ m := by
    intro y hy
    obtain ⟨x, hx, rfl⟩ := mem_map.mp hy
    exact hMem x hx
  have := (subperm_of_subset hNodup hSub).length_le
  rwa [length_map] at this

end Keys

/-! ## Places of parts -/

section Places

theorem JsxChildren.nodup_elements :
    ∀ (cs : JsxChildren) (i : Nat),
      (∀ c ∈ cs.elements i, i ≤ c.1) ∧ ((cs.elements i).map Prod.fst).Nodup
  | .nil, i => ⟨fun _ h => (not_mem_nil h).elim, nodup_nil⟩
  | .element e rest, i => by
    obtain ⟨hLe, hNodup⟩ := nodup_elements rest (i + 1)
    rw [JsxChildren.elements, map_cons, nodup_cons]
    refine ⟨fun c hc => ?_, fun h => ?_, hNodup⟩
    · rcases mem_cons.mp hc with rfl | hc
      · exact le_rfl
      · exact Nat.le_of_succ_le (hLe c hc)
    · obtain ⟨c, hc, hEq⟩ := mem_map.mp h
      have := hLe c hc
      omega
  | .text _ rest, i =>
    ⟨fun c hc => Nat.le_of_succ_le ((nodup_elements rest (i + 1)).1 c hc),
      (nodup_elements rest (i + 1)).2⟩
  | .expression _ _ rest, i =>
    ⟨fun c hc => Nat.le_of_succ_le ((nodup_elements rest (i + 1)).1 c hc),
      (nodup_elements rest (i + 1)).2⟩

theorem JsxChildren.nodup_texts :
    ∀ (cs : JsxChildren) (i : Nat),
      (∀ c ∈ cs.texts i, i ≤ c.1) ∧ ((cs.texts i).map Prod.fst).Nodup
  | .nil, i => ⟨fun _ h => (not_mem_nil h).elim, nodup_nil⟩
  | .expression _ (some raw) rest, i => by
    obtain ⟨hLe, hNodup⟩ := nodup_texts rest (i + 1)
    rw [JsxChildren.texts, map_cons, nodup_cons]
    refine ⟨fun c hc => ?_, fun h => ?_, hNodup⟩
    · rcases mem_cons.mp hc with rfl | hc
      · exact le_rfl
      · exact Nat.le_of_succ_le (hLe c hc)
    · obtain ⟨c, hc, hEq⟩ := mem_map.mp h
      have := hLe c hc
      omega
  | .text _ rest, i =>
    ⟨fun c hc => Nat.le_of_succ_le ((nodup_texts rest (i + 1)).1 c hc),
      (nodup_texts rest (i + 1)).2⟩
  | .element _ rest, i =>
    ⟨fun c hc => Nat.le_of_succ_le ((nodup_texts rest (i + 1)).1 c hc),
      (nodup_texts rest (i + 1)).2⟩
  | .expression _ none rest, i =>
    ⟨fun c hc => Nat.le_of_succ_le ((nodup_texts rest (i + 1)).1 c hc),
      (nodup_texts rest (i + 1)).2⟩

theorem sublist_map_filterMap {α β γ : Type} {g : α → Option β} {f : β → γ} {k : α → γ}
    (h : ∀ a b, g a = some b → f b = k a) (l : List α) :
    ((l.filterMap g).map f).Sublist (l.map k) := by
  induction l with
  | nil => exact List.Sublist.refl _
  | cons a l ih =>
    rw [filterMap_cons, map_cons]
    cases hg : g a with
    | none => exact ih.cons _
    | some b =>
      rw [map_cons, h a b hg]
      exact ih.cons_cons _

theorem nodup_snd_zipIdx {α : Type} (l : List α) (i : Nat) :
    ((l.zipIdx i).map Prod.snd).Nodup := by
  rw [zipIdx_map_snd]
  exact nodup_range'

/-- Parts that belong to elements at different places, and have different indices in each, stand
at different places. -/
theorem nodup_places {γ : Type} {place : γ → Path × Nat} {f : Path × JsxElement → List γ}
    (hOwner : ∀ x, ∀ o ∈ f x, (place o).1 = x.1) (hIndex : ∀ x, ((f x).map fun o => (place o).2).Nodup)
    {l : List (Path × JsxElement)} (hl : (l.map Prod.fst).Nodup) :
    ((l.flatMap f).map place).Nodup := by
  induction l with
  | nil => exact nodup_nil
  | cons x l ih =>
    rw [map_cons, nodup_cons] at hl
    rw [flatMap_cons, map_append, nodup_append]
    have hx : ((f x).map place).Nodup := by
      refine List.Nodup.of_map Prod.snd ?_
      rw [map_map]
      exact hIndex x
    refine ⟨hx, ih hl.2, ?_⟩
    intro a ha b hb hab
    subst hab
    obtain ⟨o, ho, rfl⟩ := mem_map.mp ha
    obtain ⟨o', ho', hPlace⟩ := mem_map.mp hb
    obtain ⟨y, hy, hoy⟩ := mem_flatMap.mp ho'
    have hxy : y.1 = x.1 := by rw [← hOwner y o' hoy, hPlace, hOwner x o ho]
    exact hl.1 (mem_map.mpr ⟨y, hy, hxy⟩)

variable (ci : ComponentInfo) (signals : List SignalInfo)

theorem nodup_elementPaths : (ci.elements.map Prod.fst).Nodup :=
  JsxElement.nodup_positions ci.rootElement []

theorem nodup_edges : (ci.edges.map fun e => (e.parent, e.index)).Nodup := by
  refine nodup_places ?_ ?_ (nodup_elementPaths ci)
  · intro x e he
    obtain ⟨c, -, rfl⟩ := mem_map.mp he
    rfl
  · intro x
    rw [edgesAt, map_map]
    exact (x.2.children.nodup_elements 0).2

theorem nodup_reactivesAt :
    ((ci.elements.flatMap (reactivesAt signals)).map Part.place).Nodup := by
  refine nodup_places ?_ ?_ (nodup_elementPaths ci)
  · intro x o ho
    unfold reactivesAt at ho
    split at ho
    · obtain ⟨t, -, rfl⟩ := mem_map.mp ho
      rfl
    · cases ho
  · intro x
    unfold reactivesAt
    split
    · rw [map_map]
      exact (x.2.children.nodup_texts 0).2.sublist (filter_sublist.map _)
    · exact nodup_nil

theorem nodup_clicks : (ci.clicks.map Part.place).Nodup := by
  refine nodup_places ?_ ?_ (nodup_elementPaths ci)
  · intro x o ho
    obtain ⟨a, -, rfl⟩ := mem_map.mp ho
    rfl
  · intro x
    rw [clicksAt, map_map]
    exact (nodup_snd_zipIdx x.2.attributes 0).sublist (filter_sublist.map _)

theorem nodup_ownClicks :
    ((ci.elements.flatMap fun x => ownClicks x.1 x.2.attributes 0).map Part.place).Nodup := by
  refine nodup_places ?_ ?_ (nodup_elementPaths ci)
  · intro x o ho
    obtain ⟨a, -, ha⟩ := mem_filterMap.mp ho
    obtain ⟨raw, -, rfl⟩ := Option.map_eq_some_iff.mp ha
    rfl
  · intro x
    refine (nodup_snd_zipIdx x.2.attributes 0).sublist (sublist_map_filterMap ?_ _)
    intro a o ha
    obtain ⟨raw, -, rfl⟩ := Option.map_eq_some_iff.mp ha
    rfl

end Places

/-! ## The orders of the reactive expressions -/

section Orders

variable (signals : List SignalInfo)

theorem owner_of_mem_reactivesAt {signals : List SignalInfo} {x : Path × JsxElement}
    {o : Part CText} (ho : o ∈ reactivesAt signals x) : o.owner = x.1 := by
  unfold reactivesAt at ho
  split at ho
  · obtain ⟨t, -, rfl⟩ := mem_map.mp ho
    rfl
  · cases ho

/-- The reactive expressions below a list of children lie deeper than their parent. -/
theorem length_of_mem_below {cs : JsxChildren} {p : Path} {i : Nat} {o : Part CText}
    (ho : o ∈ (cs.positions p i).flatMap (reactivesAt signals)) : p.length < o.owner.length := by
  obtain ⟨x, hx, hox⟩ := mem_flatMap.mp ho
  obtain ⟨j, -, hj⟩ := cs.suffix_of_mem_positions p i x hx
  rw [owner_of_mem_reactivesAt hox]
  exact hj.length_le

mutual

/-- Effects are created for the places of the tree, each once. -/
theorem JsxElement.creationOrder_perm :
    ∀ (e : JsxElement) (p : Path),
      (e.creationOrder signals p).Perm ((e.positions p).flatMap (reactivesAt signals))
  | .mk tag attributes children, p => by
    rw [JsxElement.creationOrder, JsxElement.positions, flatMap_cons]
    exact perm_append_comm.trans
      ((JsxChildren.creationOrder_perm children p 0).append_left _)

theorem JsxChildren.creationOrder_perm :
    ∀ (cs : JsxChildren) (p : Path) (i : Nat),
      (cs.creationOrder signals p i).Perm ((cs.positions p i).flatMap (reactivesAt signals))
  | .nil, p, i => List.Perm.refl _
  | .element e rest, p, i => by
    rw [JsxChildren.creationOrder, JsxChildren.positions, flatMap_append]
    exact (JsxElement.creationOrder_perm e (i :: p)).append
      (JsxChildren.creationOrder_perm rest p (i + 1))
  | .text _ rest, p, i => JsxChildren.creationOrder_perm rest p (i + 1)
  | .expression _ _ rest, p, i => JsxChildren.creationOrder_perm rest p (i + 1)

end

/-- Where no reactive expression lies deeper than an element, the effects created for its tree
are its own. -/
theorem creationOrder_of_shallow (e : JsxElement) (p : Path)
    (h : ∀ o ∈ e.creationOrder signals p, o.owner.length ≤ p.length) :
    e.creationOrder signals p = reactivesAt signals (p, e) := by
  obtain ⟨tag, attributes, children⟩ := e
  have hBelow : children.creationOrder signals p 0 = [] := by
    rw [eq_nil_iff_forall_not_mem]
    intro o ho
    have hLe := h o (mem_append_left _ ho)
    have := length_of_mem_below signals ((children.creationOrder_perm signals p 0).mem_iff.mp ho)
    omega
  rw [JsxElement.creationOrder, hBelow]
  rfl

theorem creationOrder_children_of_shallow (cs : JsxChildren) (p : Path) (i : Nat)
    (h : ∀ o ∈ cs.creationOrder signals p i, o.owner.length ≤ p.length + 1) :
    cs.creationOrder signals p i =
      (cs.elements i).flatMap fun c => reactivesAt signals (c.1 :: p, c.2) := by
  induction cs using JsxChildren.induction generalizing i with
  | nil => rfl
  | element e rest ih =>
    rw [JsxChildren.creationOrder, JsxChildren.elements, flatMap_cons,
      creationOrder_of_shallow signals e (i :: p) fun o ho => h o (mem_append_left _ ho),
      ih (i + 1) fun o ho => h o (mem_append_right _ ho)]
  | text s rest ih => exact ih (i + 1) h
  | expression e rawText rest ih => exact ih (i + 1) h

/-- Effects are emitted and created in one order where all reactive expressions are near the
root, and a root that is a text has no element children. -/
theorem creationOrder_eq_walkOrder (root : JsxElement)
    (hNear : ∀ o ∈ root.creationOrder signals [], o.owner.length ≤ 1)
    (hRoot : root.tagName = "Text" → root.children.elements 0 = []) :
    root.creationOrder signals [] = walkOrder signals root := by
  obtain ⟨tag, attributes, children⟩ := root
  have hChildren := creationOrder_children_of_shallow signals children [] 0
    fun o ho => hNear o (mem_append_left _ ho)
  rw [JsxElement.creationOrder, hChildren, walkOrder]
  by_cases hTag : tag = "Text"
  · rw [show children.elements 0 = [] from hRoot hTag,
      show (JsxElement.mk tag attributes children).children.elements 0 = [] from hRoot hTag,
      flatMap_nil, append_nil, nil_append]
    rfl
  · have hOwn : reactivesAt signals ([], JsxElement.mk tag attributes children) = [] :=
      if_neg hTag
    rw [if_neg hTag, hOwn, append_nil, nil_append]
    rfl

theorem filter_below (cs : JsxChildren) (p : Path) (i : Nat) :
    ((cs.positions p i).flatMap (reactivesAt signals)).filter
        (fun o => o.owner.length ≤ p.length + 1) =
      (cs.elements i).flatMap fun c => reactivesAt signals (c.1 :: p, c.2) := by
  induction cs using JsxChildren.induction generalizing i with
  | nil => rfl
  | element e rest ih =>
    obtain ⟨tag, attributes, children⟩ := e
    have hOwn : (reactivesAt signals (i :: p, .mk tag attributes children)).filter
        (fun o => o.owner.length ≤ p.length + 1) =
        reactivesAt signals (i :: p, .mk tag attributes children) := by
      rw [filter_eq_self]
      intro o ho
      rw [owner_of_mem_reactivesAt ho]
      simp
    have hBelow : ((children.positions (i :: p) 0).flatMap (reactivesAt signals)).filter
        (fun o => o.owner.length ≤ p.length + 1) = [] := by
      rw [filter_eq_nil_iff]
      intro o ho hLe
      have := length_of_mem_below signals ho
      have := of_decide_eq_true hLe
      simp only [length_cons] at *
      omega
    rw [JsxChildren.positions, JsxElement.positions, JsxChildren.elements, flatMap_append,
      flatMap_cons, flatMap_cons, filter_append, filter_append, hOwn, hBelow,
      ih (i + 1), append_nil]
  | text s rest ih => exact ih (i + 1)
  | expression e rawText rest ih => exact ih (i + 1)

/-- The walk over the effects meets the reactive expressions near the root. -/
theorem walkOrder_eq_filter (root : JsxElement) :
    walkOrder signals root =
      ((root.positions []).flatMap (reactivesAt signals)).filter
        fun o => o.owner.length ≤ 1 := by
  obtain ⟨tag, attributes, children⟩ := root
  have hOwn : (reactivesAt signals ([], .mk tag attributes children)).filter
      (fun o => o.owner.length ≤ 1) = reactivesAt signals ([], .mk tag attributes children) := by
    rw [filter_eq_self]
    intro o ho
    rw [owner_of_mem_reactivesAt ho]
    simp
  rw [JsxElement.positions, flatMap_cons, filter_append, hOwn, walkOrder]
  exact congrArg _ (filter_below signals children [] 0).symm

theorem hasSignalRef_of_take {signals : List SignalInfo} {n : Nat} {raw : CText}
    (h : hasSignalRef (signals.take n) raw = true) : hasSignalRef signals raw = true := by
  unfold hasSignalRef at h ⊢
  rw [any_eq_true] at h ⊢
  obtain ⟨s, hs, hRef⟩ := h
  exact ⟨s, mem_of_mem_take hs, hRef⟩

/-- The table of signals sees the expressions that mention one of it. -/
theorem reactivesAt_kept (ci : ComponentInfo) (x : Path × JsxElement) :
    reactivesAt ci.kept x =
      (reactivesAt ci.signals x).filter fun o => hasSignalRef ci.kept o.content := by
  unfold reactivesAt
  split
  · rw [filter_map, filter_filter]
    refine congrArg _ (filter_congr fun t _ => ?_)
    simp only [Function.comp_apply]
    rw [Bool.eq_iff_iff, Bool.and_eq_true]
    exact ⟨fun h => ⟨h, hasSignalRef_of_take h⟩, And.left⟩
  · rfl

/-- The effect functions of a component are those of its reactive expressions that mention a
signal of the table and are near the root. -/
theorem walkOrder_eq (ci : ComponentInfo) :
    walkOrder ci.kept ci.rootElement =
      ci.reactives.filter
        fun o => decide (o.owner.length ≤ 1) && hasSignalRef ci.kept o.content := by
  have hKept : (ci.elements.flatMap (reactivesAt ci.kept)) =
      ci.reactives.filter fun o => hasSignalRef ci.kept o.content := by
    rw [ComponentInfo.reactives, filter_flatMap]
    exact congrArg (List.flatMap · _) (funext (reactivesAt_kept ci))
  rw [walkOrder_eq_filter, ← filter_filter, ← hKept]
  rfl

end Orders

end Calynda.Jsx
