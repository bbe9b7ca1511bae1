import Mathlib.Data.List.Basic
import Mathlib.Data.List.Flatten

/-!
# Rose trees

Trees whose nodes have any number of children. A walk hands something down from each node to its
children (`mapDown`), or it leaves out what is below the nodes that a predicate refuses (`reached`).
A node is found by the indices of the children on the way to it, and `along` gives the nodes above
it as well.
-/

inductive RoseTree (α : Type*) where
  | node (data : α) (children : List (RoseTree α))

namespace RoseTree

variable {α β γ : Type*}

/-- The nodes above the one that a path leads to, from the root on, and that node. -/
def along : RoseTree α → List Nat → Option (List α × α)
  | .node a _, [] => some ([], a)
  | .node a ts, i :: path =>
    match ts[i]? with
    | none => none
    | some t => (t.along path).map fun found => (a :: found.1, found.2)

theorem along_cons {a : α} {ts : List (RoseTree α)} {i : Nat} {path : List Nat}
    {above : List α} {b : α} (h : (node a ts).along (i :: path) = some (above, b)) :
    ∃ t above', ts[i]? = some t ∧ t.along path = some (above', b) ∧ above = a :: above' := by
  cases hChild : ts[i]? with
  | none => simp [along, hChild] at h
  | some t =>
    simp only [along, hChild, Option.map_eq_some_iff, Prod.mk.injEq] at h
    obtain ⟨⟨above', b'⟩, hAlong, hAbove, hEq⟩ := h
    subst hEq
    exact ⟨t, above', rfl, hAlong, hAbove.symm⟩

theorem along_child {a : α} {ts : List (RoseTree α)} {i : Nat} {path : List Nat} {t : RoseTree α}
    {above : List α} {b : α} (hChild : ts[i]? = some t) (h : t.along path = some (above, b)) :
    (node a ts).along (i :: path) = some (a :: above, b) := by
  simp [along, hChild, h]

mutual

theorem inductionOn {P : RoseTree α → Prop} (node : ∀ a ts, (∀ t ∈ ts, P t) → P (node a ts)) :
    ∀ t, P t
  | .node a ts => node a ts (inductionOnAll node ts)

theorem inductionOnAll {P : RoseTree α → Prop}
    (node : ∀ a ts, (∀ t ∈ ts, P t) → P (.node a ts)) : ∀ ts : List (RoseTree α), ∀ t ∈ ts, P t
  | [] => fun _ h => absurd h List.not_mem_nil
  | t :: ts => List.forall_mem_cons.mpr ⟨inductionOn node t, inductionOnAll node ts⟩

end

/-! ## Changing the nodes -/

mutual

def map (f : α → β) : RoseTree α → RoseTree β
  | .node a ts => .node (f a) (mapAll f ts)

def mapAll (f : α → β) : List (RoseTree α) → List (RoseTree β)
  | [] => []
  | t :: ts => map f t :: mapAll f ts

end

theorem mapAll_eq (f : α → β) (ts : List (RoseTree α)) : mapAll f ts = ts.map (map f) := by
  induction ts with
  | nil => rfl
  | cons t ts ih => rw [mapAll, ih, List.map_cons]

theorem along_map (f : α → β) (t : RoseTree α) (path : List Nat) :
    (t.map f).along path = (t.along path).map fun found => (found.1.map f, f found.2) := by
  induction path generalizing t with
  | nil =>
    obtain ⟨a, ts⟩ := t
    rfl
  | cons i path ih =>
    obtain ⟨a, ts⟩ := t
    rw [map, mapAll_eq, along, along, List.getElem?_map]
    cases ts[i]? with
    | none => rfl
    | some t =>
      simp only [Option.map_some, ih, Option.map_map]
      rfl

/-! ## Handing down -/

mutual

/-- Each node is changed by `f`, which also says what its children get. -/
def mapDown (f : β → α → γ × β) (down : β) : RoseTree α → RoseTree γ
  | .node a ts => .node (f down a).1 (mapDownAll f (f down a).2 ts)

def mapDownAll (f : β → α → γ × β) (down : β) : List (RoseTree α) → List (RoseTree γ)
  | [] => []
  | t :: ts => mapDown f down t :: mapDownAll f down ts

end

theorem mapDownAll_eq (f : β → α → γ × β) (down : β) (ts : List (RoseTree α)) :
    mapDownAll f down ts = ts.map (mapDown f down) := by
  induction ts with
  | nil => rfl
  | cons t ts ih => rw [mapDownAll, ih, List.map_cons]

/-- A node gets what the nodes above it have handed down. -/
theorem along_mapDown (f : β → α → γ × β) {t : RoseTree α} {path : List Nat} {above : List α}
    {b : α} (h : t.along path = some (above, b)) (down : β) :
    ∃ above', (t.mapDown f down).along path =
      some (above', (f (above.foldl (fun s a => (f s a).2) down) b).1) := by
  induction path generalizing t above down with
  | nil =>
    obtain ⟨a, ts⟩ := t
    obtain ⟨rfl, rfl⟩ := Prod.mk.inj (Option.some.inj h)
    exact ⟨[], rfl⟩
  | cons i path ih =>
    obtain ⟨a, ts⟩ := t
    obtain ⟨t, above', hChild, hAlong, rfl⟩ := along_cons h
    obtain ⟨changed, hChanged⟩ := ih hAlong (f down a).2
    refine ⟨(f down a).1 :: changed, along_child ?_ hChanged⟩
    rw [mapDownAll_eq, List.getElem?_map, hChild, Option.map_some]

/-! ## Walks -/

mutual

def preorder : RoseTree α → List α
  | .node a ts => a :: preorderAll ts

def preorderAll : List (RoseTree α) → List α
  | [] => []
  | t :: ts => preorder t ++ preorderAll ts

end

mutual

/-- The nodes that a walk visits that does not go below a node where `p` fails, nor visits it. -/
def reached (p : α → Bool) : RoseTree α → List α
  | .node a ts => if p a then a :: reachedAll p ts else []

def reachedAll (p : α → Bool) : List (RoseTree α) → List α
  | [] => []
  | t :: ts => reached p t ++ reachedAll p ts

end

theorem preorder_node (a : α) (ts : List (RoseTree α)) :
    (node a ts).preorder = a :: ts.flatMap preorder := by
  have hAll : preorderAll ts = ts.flatMap preorder := by
    induction ts with
    | nil => rfl
    | cons t ts ih => rw [preorderAll, ih, List.flatMap_cons]
  rw [preorder, hAll]

theorem reached_node (p : α → Bool) (a : α) (ts : List (RoseTree α)) :
    (node a ts).reached p = if p a then a :: ts.flatMap (reached p) else [] := by
  have hAll : reachedAll p ts = ts.flatMap (reached p) := by
    induction ts with
    | nil => rfl
    | cons t ts ih => rw [reachedAll, ih, List.flatMap_cons]
  rw [reached, hAll]

theorem preorder_map (f : α → β) (t : RoseTree α) : (t.map f).preorder = t.preorder.map f := by
  induction t using inductionOn with
  | node a ts ih =>
    rw [map, mapAll_eq, preorder_node, preorder_node, List.map_cons, List.map_flatMap,
      List.flatMap_map]
    exact congrArg _ (List.flatMap_congr ih)

theorem reached_sublist (p : α → Bool) (t : RoseTree α) : (t.reached p).Sublist t.preorder := by
  induction t using inductionOn with
  | node a ts ih =>
    rw [reached_node, preorder_node]
    split_ifs
    · exact (List.Sublist.flatMap_right ts ih).cons_cons a
    · exact List.nil_sublist _

theorem of_mem_reached {p : α → Bool} {t : RoseTree α} {b : α} (h : b ∈ t.reached p) : p b := by
  induction t using inductionOn with
  | node a ts ih =>
    rw [reached_node] at h
    split_ifs at h with hRoot
    · rcases List.mem_cons.mp h with rfl | hRest
      · exact hRoot
      · obtain ⟨t, hMem, hIn⟩ := List.mem_flatMap.mp hRest
        exact ih t hMem hIn
    · exact absurd h List.not_mem_nil

theorem mem_preorder_iff {t : RoseTree α} {b : α} :
    b ∈ t.preorder ↔ ∃ path above, t.along path = some (above, b) := by
  induction t using inductionOn with
  | node a ts ih =>
    rw [preorder_node, List.mem_cons, List.mem_flatMap]
    constructor
    · rintro (rfl | ⟨t, hMem, hIn⟩)
      · exact ⟨[], [], rfl⟩
      · obtain ⟨path, above, hAlong⟩ := (ih t hMem).mp hIn
        obtain ⟨i, hChild⟩ := List.getElem?_of_mem hMem
        exact ⟨i :: path, a :: above, along_child hChild hAlong⟩
    · rintro ⟨path, above, h⟩
      cases path with
      | nil => exact Or.inl (Prod.mk.inj (Option.some.inj h)).2.symm
      | cons i path =>
        obtain ⟨t, above', hChild, hAlong, -⟩ := along_cons h
        have hMem := List.mem_of_getElem? hChild
        exact Or.inr ⟨t, hMem, (ih t hMem).mpr ⟨path, above', hAlong⟩⟩

theorem flatMap_eq_iff {f g : α → List β} {ts : List α} (h : ∀ t ∈ ts, (f t).Sublist (g t)) :
    ts.flatMap f = ts.flatMap g ↔ ∀ t ∈ ts, f t = g t := by
  refine ⟨fun hEq => ?_, List.flatMap_congr⟩
  induction ts with
  | nil => exact fun _ hMem => absurd hMem List.not_mem_nil
  | cons t ts ih =>
    have hRest : ∀ u ∈ ts, (f u).Sublist (g u) := fun u hu => h u (.tail _ hu)
    rw [List.flatMap_cons, List.flatMap_cons] at hEq
    have hLength : (f t).length = (g t).length := by
      have hSum := congrArg List.length hEq
      have hHead := (h t (.head _)).length_le
      have hTail := (List.Sublist.flatMap_right ts hRest).length_le
      simp only [List.length_append] at hSum
      omega
    obtain ⟨hHead, hTail⟩ := List.append_inj hEq hLength
    exact List.forall_mem_cons.mpr ⟨hHead, ih hRest hTail⟩

/-- A walk that leaves something out finds all the nodes that `q` looks for if and only if it visits
each of them and the nodes above. -/
theorem reached_filter_eq_iff (p q : α → Bool) (t : RoseTree α) :
    (t.reached p).filter q = t.preorder.filter q ↔
      ∀ path above b, t.along path = some (above, b) → q b → p b ∧ ∀ a ∈ above, p a := by
  induction t using inductionOn with
  | node a ts ih =>
    by_cases hRoot : p a
    · have hSub : ∀ t ∈ ts, ((t.reached p).filter q).Sublist (t.preorder.filter q) :=
        fun t _ => (reached_sublist p t).filter q
      have hNode : ((node a ts).reached p).filter q = (node a ts).preorder.filter q ↔
          ∀ t ∈ ts, (t.reached p).filter q = t.preorder.filter q := by
        rw [reached_node, if_pos hRoot, preorder_node, ← flatMap_eq_iff hSub, List.filter_cons,
          List.filter_cons, List.filter_flatMap, List.filter_flatMap]
        split_ifs
        · exact List.cons_inj_right a
        · rfl
      rw [hNode]
      constructor
      · intro hAll path above b h hLooked
        cases path with
        | nil =>
          obtain ⟨rfl, rfl⟩ := Prod.mk.inj (Option.some.inj h)
          exact ⟨hRoot, fun _ hMem => absurd hMem List.not_mem_nil⟩
        | cons i path =>
          obtain ⟨t, above', hChild, hAlong, rfl⟩ := along_cons h
          have hMem := List.mem_of_getElem? hChild
          obtain ⟨hSelf, hAbove⟩ := (ih t hMem).mp (hAll t hMem) path above' b hAlong hLooked
          exact ⟨hSelf, List.forall_mem_cons.mpr ⟨hRoot, hAbove⟩⟩
      · intro hAll t hMem
        refine (ih t hMem).mpr fun path above b h hLooked => ?_
        obtain ⟨i, hChild⟩ := List.getElem?_of_mem hMem
        obtain ⟨hSelf, hAbove⟩ := hAll _ _ b (along_child hChild h) hLooked
        exact ⟨hSelf, fun c hc => hAbove c (.tail _ hc)⟩
    · -- nothing is visited
      rw [reached_node, if_neg hRoot, List.filter_nil, eq_comm, List.filter_eq_nil_iff]
      constructor
      · intro hNone path above b h hLooked
        exact absurd hLooked (hNone b (mem_preorder_iff.mpr ⟨path, above, h⟩))
      · intro hAll b hMem hLooked
        obtain ⟨path, above, h⟩ := mem_preorder_iff.mp hMem
        obtain ⟨hSelf, hAbove⟩ := hAll path above b h hLooked
        cases path with
        | nil =>
          obtain ⟨-, rfl⟩ := Prod.mk.inj (Option.some.inj h)
          exact hRoot hSelf
        | cons i path =>
          obtain ⟨t, above', -, -, rfl⟩ := along_cons h
          exact hRoot (hAbove a (.head _))

end RoseTree
