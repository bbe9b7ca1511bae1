import Calynda.Jsx.Wiring

/-!
# The walks over an element tree

Each of the three walks visits the elements in its own order: the statements number them from
the root down, effects are created and handlers extracted from the leaves up. What a walk emits
is a list over the places of the tree.
-/

namespace Calynda.Jsx

open List

/-- Induction over a list of children that does not go into the elements. -/
theorem JsxChildren.induction {motive : JsxChildren → Prop} (nil : motive .nil)
    (element : ∀ e rest, motive rest → motive (.element e rest))
    (text : ∀ s rest, motive rest → motive (.text s rest))
    (expression : ∀ e rawText rest, motive rest → motive (.expression e rawText rest)) :
    ∀ cs, motive cs
  | .nil => nil
  | .element e rest => element e rest (induction nil element text expression rest)
  | .text s rest => text s rest (induction nil element text expression rest)
  | .expression e rawText rest =>
    expression e rawText rest (induction nil element text expression rest)

/-! ## Places -/

section Places

mutual

theorem JsxElement.suffix_of_mem_positions :
    ∀ (e : JsxElement) (p : Path), ∀ x ∈ e.positions p, p <:+ x.1
  | .mk tag attributes children, p => by
    intro x hx
    rw [JsxElement.positions, mem_cons] at hx
    rcases hx with rfl | hx
    · exact suffix_refl p
    · obtain ⟨j, -, hj⟩ := JsxChildren.suffix_of_mem_positions children p 0 x hx
      exact (suffix_cons j p).trans hj

theorem JsxChildren.suffix_of_mem_positions :
    ∀ (cs : JsxChildren) (p : Path) (i : Nat), ∀ x ∈ cs.positions p i,
      ∃ j, i ≤ j ∧ (j :: p) <:+ x.1
  | .nil, p, i => by
    intro x hx
    cases hx
  | .element e rest, p, i => by
    intro x hx
    rw [JsxChildren.positions, mem_append] at hx
    rcases hx with hx | hx
    · exact ⟨i, le_rfl, JsxElement.suffix_of_mem_positions e (i :: p) x hx⟩
    · obtain ⟨j, hij, hj⟩ := JsxChildren.suffix_of_mem_positions rest p (i + 1) x hx
      exact ⟨j, by omega, hj⟩
  | .text _ rest, p, i => by
    intro x hx
    obtain ⟨j, hij, hj⟩ := JsxChildren.suffix_of_mem_positions rest p (i + 1) x hx
    exact ⟨j, by omega, hj⟩
  | .expression _ _ rest, p, i => by
    intro x hx
    obtain ⟨j, hij, hj⟩ := JsxChildren.suffix_of_mem_positions rest p (i + 1) x hx
    exact ⟨j, by omega, hj⟩

end

theorem eq_of_cons_suffix {i j : Nat} {p q : Path} (hi : (i :: p) <:+ q) (hj : (j :: p) <:+ q) :
    i = j := by
  have h := suffix_of_suffix_length_le hi hj (by simp)
  exact (List.cons.inj (h.eq_of_length (by simp))).1

mutual

/-- No two elements of a tree stand at one place. -/
theorem JsxElement.nodup_positions :
    ∀ (e : JsxElement) (p : Path), ((e.positions p).map Prod.fst).Nodup
  | .mk tag attributes children, p => by
    rw [JsxElement.positions, map_cons, nodup_cons]
    refine ⟨?_, JsxChildren.nodup_positions children p 0⟩
    intro h
    obtain ⟨x, hx, rfl⟩ := mem_map.mp h
    obtain ⟨j, -, hj⟩ := JsxChildren.suffix_of_mem_positions children x.1 0 x hx
    have := hj.length_le
    simp only [length_cons] at this
    omega

theorem JsxChildren.nodup_positions :
    ∀ (cs : JsxChildren) (p : Path) (i : Nat), ((cs.positions p i).map Prod.fst).Nodup
  | .nil, p, i => nodup_nil
  | .element e rest, p, i => by
    rw [JsxChildren.positions, map_append, nodup_append]
    refine ⟨JsxElement.nodup_positions e _, JsxChildren.nodup_positions rest p _, ?_⟩
    intro a ha b hb hab
    subst hab
    obtain ⟨x, hx, rfl⟩ := mem_map.mp ha
    obtain ⟨y, hy, hxy⟩ := mem_map.mp hb
    obtain ⟨j, hij, hj⟩ := JsxChildren.suffix_of_mem_positions rest p _ y hy
    rw [hxy] at hj
    have := eq_of_cons_suffix (JsxElement.suffix_of_mem_positions e _ x hx) hj
    omega
  | .text _ rest, p, i => JsxChildren.nodup_positions rest p (i + 1)
  | .expression _ _ rest, p, i => JsxChildren.nodup_positions rest p (i + 1)

end

/-- The children of an element are in the tree, one level down. -/
theorem JsxChildren.mem_positions_of_mem_elements :
    ∀ (cs : JsxChildren) (p : Path) (i : Nat), ∀ c ∈ cs.elements i,
      (c.1 :: p, c.2) ∈ cs.positions p i
  | .nil, p, i => by
    intro c hc
    cases hc
  | .element (.mk tag attributes children) rest, p, i => by
    intro c hc
    rw [JsxChildren.elements, mem_cons] at hc
    rw [JsxChildren.positions, mem_append]
    rcases hc with rfl | hc
    · exact .inl mem_cons_self
    · exact .inr (mem_positions_of_mem_elements rest p _ c hc)
  | .text _ rest, p, i => mem_positions_of_mem_elements rest p (i + 1)
  | .expression _ _ rest, p, i => mem_positions_of_mem_elements rest p (i + 1)

mutual

theorem JsxElement.child_mem_positions :
    ∀ (e : JsxElement) (p : Path), ∀ x ∈ e.positions p, ∀ c ∈ x.2.children.elements 0,
      (c.1 :: x.1, c.2) ∈ e.positions p
  | .mk tag attributes children, p => by
    intro x hx c hc
    rw [JsxElement.positions, mem_cons] at hx ⊢
    rcases hx with rfl | hx
    · exact .inr (children.mem_positions_of_mem_elements p 0 c hc)
    · exact .inr (JsxChildren.child_mem_positions children p 0 x hx c hc)

theorem JsxChildren.child_mem_positions :
    ∀ (cs : JsxChildren) (p : Path) (i : Nat), ∀ x ∈ cs.positions p i,
      ∀ c ∈ x.2.children.elements 0, (c.1 :: x.1, c.2) ∈ cs.positions p i
  | .nil, p, i => by
    intro x hx
    cases hx
  | .element e rest, p, i => by
    intro x hx c hc
    rw [JsxChildren.positions, mem_append] at hx ⊢
    rcases hx with hx | hx
    · exact .inl (JsxElement.child_mem_positions e _ x hx c hc)
    · exact .inr (JsxChildren.child_mem_positions rest p _ x hx c hc)
  | .text _ rest, p, i => JsxChildren.child_mem_positions rest p (i + 1)
  | .expression _ _ rest, p, i => JsxChildren.child_mem_positions rest p (i + 1)

end

end Places

/-! ## What the blocks of an element emit -/

section Blocks

variable (el : JsxElement) (id : Nat)

@[simp]
theorem declared_append (a b : List CStmt) : declared (a ++ b) = declared a ++ declared b :=
  filterMap_append

@[simp]
theorem attached_append (a b : List CStmt) : attached (a ++ b) = attached a ++ attached b :=
  filterMap_append

@[simp]
theorem created_append (a b : List CStmt) : created (a ++ b) = created a ++ created b :=
  filterMap_append

@[simp]
theorem clicked_append (a b : List CStmt) : clicked (a ++ b) = clicked a ++ clicked b :=
  filterMap_append

@[simp]
theorem declared_emitConstructor : declared (emitConstructor el id) = [(id, widgetOf el)] := by
  unfold emitConstructor
  split
  · rename_i h
    simp [declared, h]
  · rename_i h
    split <;> simp [declared, h]

@[simp]
theorem attached_emitConstructor : attached (emitConstructor el id) = [] := by
  unfold emitConstructor
  split
  · rfl
  · split <;> rfl

@[simp]
theorem created_emitConstructor : created (emitConstructor el id) = [] := by
  unfold emitConstructor
  split
  · rfl
  · split <;> rfl

@[simp]
theorem clicked_emitConstructor : clicked (emitConstructor el id) = [] := by
  unfold emitConstructor
  split
  · rfl
  · split <;> rfl

/-- Positions declare, attach, create and set nothing. -/
@[simp]
theorem emitPosition_quiet :
    declared (emitPosition el id) = [] ∧ attached (emitPosition el id) = [] ∧
      created (emitPosition el id) = [] ∧ clicked (emitPosition el id) = [] := by
  unfold emitPosition
  simp only
  split
  · split
    · exact ⟨rfl, rfl, rfl, rfl⟩
    · exact ⟨rfl, rfl, rfl, rfl⟩
  · exact ⟨rfl, rfl, rfl, rfl⟩

variable (handlers : List HandlerInfo) (p : Path) (tagName childTag : String) (childId : Nat)

/-- The handlers that the table has for the attributes of an element. -/
def clickPairs (i : Nat) (attributes : List JsxAttribute) : List (Nat × Nat) :=
  (attributes.zipIdx i).filterMap fun a =>
    match a.1.clickText, handlers.find? fun h => h.place = (p, a.2) with
    | some _, some h => some (id, h.handlerId)
    | _, _ => none

theorem emitClicks_spec (i : Nat) (attributes : List JsxAttribute) :
    declared (emitClicks handlers p id i attributes) = [] ∧
      attached (emitClicks handlers p id i attributes) = [] ∧
      created (emitClicks handlers p id i attributes) = [] ∧
      clicked (emitClicks handlers p id i attributes) = clickPairs id handlers p i attributes := by
  induction attributes generalizing i with
  | nil => exact ⟨rfl, rfl, rfl, rfl⟩
  | cons a rest ih =>
    obtain ⟨hDeclared, hAttached, hCreated, hClicked⟩ := ih (i + 1)
    simp only [emitClicks, declared_append, attached_append, created_append, clicked_append,
      hDeclared, hAttached, hCreated, hClicked, append_nil, clickPairs, zipIdx_cons,
      filterMap_cons]
    cases a.clickText with
    | none => exact ⟨rfl, rfl, rfl, rfl⟩
    | some raw =>
      cases handlers.find? fun h => h.place = (p, i) with
      | none => exact ⟨rfl, rfl, rfl, rfl⟩
      | some h => exact ⟨rfl, rfl, rfl, rfl⟩

@[simp]
theorem attached_emitAppend : attached (emitAppend tagName childTag id childId) =
    if Attachable tagName childTag then [(id, childId)] else [] := by
  by_cases hWindow : tagName = "Window"
  · subst hWindow
    rcases h : childCast childTag with _ | cast <;> simp [emitAppend, Attachable, attached, h]
  · by_cases hLabel : tagName = "Button" ∧ childTag = "Text"
    · obtain ⟨rfl, rfl⟩ := hLabel
      simp [emitAppend, Attachable, attached, childCast]
    · rcases h : childCast childTag with _ | cast <;>
        simp [emitAppend, Attachable, attached, h, hWindow, hLabel]

/-- Appending declares, creates and sets nothing. -/
@[simp]
theorem emitAppend_quiet :
    declared (emitAppend tagName childTag id childId) = [] ∧
      created (emitAppend tagName childTag id childId) = [] ∧
      clicked (emitAppend tagName childTag id childId) = [] := by
  unfold emitAppend
  cases childCast childTag with
  | none =>
    simp only [nil_append]
    split
    · exact ⟨rfl, rfl, rfl⟩
    · exact ⟨rfl, rfl, rfl⟩
  | some cast =>
    simp only
    split
    · split <;> exact ⟨rfl, rfl, rfl⟩
    · split <;> exact ⟨rfl, rfl, rfl⟩

/-- The expression children that an element creates effects for. -/
def ownReactives (signals : List SignalInfo) (cs : JsxChildren) (i : Nat) : List (Part CText) :=
  ((cs.texts i).filter fun t => hasSignalRef signals t.2).map fun t => ⟨p, t.1, t.2⟩

theorem emitReactive_spec (signals : List SignalInfo) (cs : JsxChildren) (i effects : Nat) :
    declared (emitReactive signals id cs effects).1 = [] ∧
      attached (emitReactive signals id cs effects).1 = [] ∧
      clicked (emitReactive signals id cs effects).1 = [] ∧
      created (emitReactive signals id cs effects).1 =
        ((ownReactives p signals cs i).zipIdx effects).map (fun x => (x.2, id)) ∧
      (emitReactive signals id cs effects).2 = effects + (ownReactives p signals cs i).length := by
  induction cs using JsxChildren.induction generalizing i effects with
  | nil => exact ⟨rfl, rfl, rfl, rfl, rfl⟩
  | element e rest ih => exact ih (i + 1) effects
  | text s rest ih => exact ih (i + 1) effects
  | expression e rawText rest ih =>
    cases rawText with
    | none => exact ih (i + 1) effects
    | some raw =>
      simp only [emitReactive, ownReactives, JsxChildren.texts, filter_cons]
      split
      · obtain ⟨hDeclared, hAttached, hClicked, hCreated, hCount⟩ := ih (i + 1) (effects + 1)
        refine ⟨hDeclared, hAttached, hClicked, ?_, ?_⟩
        · rw [map_cons, zipIdx_cons, map_cons]
          exact congrArg (List.cons _) hCreated
        · rw [map_cons, length_cons]
          exact hCount.trans (by rw [ownReactives]; omega)
      · exact ih (i + 1) effects

end Blocks

/-! ## The calls in their order -/

mutual

/-- The children of the tree with their edges, each behind the calls of its own subtree. -/
def JsxElement.calls : JsxElement → Path → List (Edge × JsxElement)
  | .mk tag _ children, p => children.calls tag p 0

def JsxChildren.calls (tag : String) : JsxChildren → Path → Nat → List (Edge × JsxElement)
  | .nil, _, _ => []
  | .element e rest, p, i =>
    e.calls (i :: p) ++ (⟨p, i, tag, e.tagName⟩, e) :: rest.calls tag p (i + 1)
  | .text _ rest, p, i => rest.calls tag p (i + 1)
  | .expression _ _ rest, p, i => rest.calls tag p (i + 1)

end

/-- The children of an element, with their edges. -/
def childCalls (tag : String) (p : Path) (cs : JsxChildren) (i : Nat) : List (Edge × JsxElement) :=
  (cs.elements i).map fun c => (⟨p, c.1, tag, c.2.tagName⟩, c.2)

def callsAt (x : Path × JsxElement) : List (Edge × JsxElement) :=
  childCalls x.2.tagName x.1 x.2.children 0

theorem map_fst_callsAt (x : Path × JsxElement) : (callsAt x).map Prod.fst = edgesAt x := by
  rw [callsAt, childCalls, edgesAt, map_map]
  rfl

mutual

/-- The calls are those of the elements of the tree, in another order. -/
theorem JsxElement.calls_perm :
    ∀ (e : JsxElement) (p : Path), (e.calls p).Perm ((e.positions p).flatMap callsAt)
  | .mk tag attributes children, p => by
    rw [JsxElement.calls, JsxElement.positions, flatMap_cons]
    exact JsxChildren.calls_perm children tag p 0

theorem JsxChildren.calls_perm : ∀ (cs : JsxChildren) (tag : String) (p : Path) (i : Nat),
    (cs.calls tag p i).Perm (childCalls tag p cs i ++ (cs.positions p i).flatMap callsAt)
  | .nil, tag, p, i => List.Perm.refl _
  | .element e rest, tag, p, i => by
    rw [JsxChildren.calls, JsxChildren.positions, flatMap_append]
    refine ((JsxElement.calls_perm e (i :: p)).append
      ((JsxChildren.calls_perm rest tag p (i + 1)).cons _)).trans ?_
    -- the call moves before the subtree, the subtree behind the other calls
    refine perm_middle.trans (List.Perm.cons _ ?_)
    rw [← append_assoc]
    refine (perm_append_comm.append_right _).trans ?_
    rw [append_assoc]
    rfl
  | .text _ rest, tag, p, i => JsxChildren.calls_perm rest tag p (i + 1)
  | .expression _ _ rest, tag, p, i => JsxChildren.calls_perm rest tag p (i + 1)

end

/-! ## What a whole tree emits -/

mutual

/-- The reactive expressions in the order in which their effects are created. -/
def JsxElement.creationOrder (signals : List SignalInfo) : JsxElement → Path → List (Part CText)
  | .mk tag _ children, p =>
    children.creationOrder signals p 0 ++
      if tag = "Text" then ownReactives p signals children 0 else []

def JsxChildren.creationOrder (signals : List SignalInfo) :
    JsxChildren → Path → Nat → List (Part CText)
  | .nil, _, _ => []
  | .element e rest, p, i =>
    e.creationOrder signals (i :: p) ++ rest.creationOrder signals p (i + 1)
  | .text _ rest, p, i => rest.creationOrder signals p (i + 1)
  | .expression _ _ rest, p, i => rest.creationOrder signals p (i + 1)

end

/-- The variables of elements in the order of their numbers. -/
def Numbered (v : Path → Nat) (l : List (Path × JsxElement)) (n : Nat) : Prop :=
  l.map (fun x => v x.1) = List.range' n l.length

section Tree

variable {handlers : List HandlerInfo} {signals : List SignalInfo} {v : Path → Nat}
  {tag : String} {attributes : List JsxAttribute} {children : JsxChildren} {p : Path}
  {ids effects : Nat}

theorem Numbered.append {a b : List (Path × JsxElement)} {n : Nat} (h : Numbered v (a ++ b) n) :
    Numbered v a n ∧ Numbered v b (n + a.length) := by
  unfold Numbered at h ⊢
  rw [map_append, length_append, ← range'_append_1] at h
  exact append_inj h (by simp)

theorem Numbered.cons {x : Path × JsxElement} {l : List (Path × JsxElement)} {n : Nat}
    (h : Numbered v (x :: l) n) : v x.1 = n ∧ Numbered v l (n + 1) := by
  unfold Numbered at h ⊢
  rw [map_cons, length_cons, range'_succ] at h
  exact List.cons.inj h

/-- The reactive block of an element that is a text, and none of another. -/
def reactiveBlock (signals : List SignalInfo) (tag : String) (children : JsxChildren)
    (ids effects : Nat) : List CStmt × Nat :=
  if tag = "Text" then emitReactive signals ids children effects else ([], effects)

theorem emitJsxElementFull_mk :
    emitJsxElementFull handlers signals (.mk tag attributes children) p ids effects =
      let sub := emitElementChildren handlers signals tag ids children p 0 (ids + 1) effects
      let own := reactiveBlock signals tag children ids sub.2.2
      (emitConstructor (.mk tag attributes children) ids ++
        emitPosition (.mk tag attributes children) ids ++
        emitClicks handlers p ids 0 attributes ++ sub.1 ++ own.1, sub.2.1, own.2) := by
  rw [emitJsxElementFull]
  rfl

theorem owner_of_mem_own : ∀ o ∈ (if tag = "Text" then ownReactives p signals children 0 else []),
    o.owner = p := by
  intro o ho
  split at ho
  · obtain ⟨t, -, rfl⟩ := mem_map.mp ho
    rfl
  · cases ho

theorem reactiveBlock_spec (signals : List SignalInfo) (tag : String) (children : JsxChildren)
    (ids effects : Nat) (p : Path) :
    declared (reactiveBlock signals tag children ids effects).1 = [] ∧
      attached (reactiveBlock signals tag children ids effects).1 = [] ∧
      clicked (reactiveBlock signals tag children ids effects).1 = [] ∧
      created (reactiveBlock signals tag children ids effects).1 =
        ((if tag = "Text" then ownReactives p signals children 0 else []).zipIdx effects).map
          (fun x => (x.2, ids)) ∧
      (reactiveBlock signals tag children ids effects).2 = effects +
        (if tag = "Text" then ownReactives p signals children 0 else []).length := by
  unfold reactiveBlock
  split
  · exact emitReactive_spec ids p signals children 0 effects
  · exact ⟨rfl, rfl, rfl, rfl, rfl⟩

mutual

theorem counters_element (handlers : List HandlerInfo) (signals : List SignalInfo) :
    ∀ (e : JsxElement) (p : Path) (ids effects : Nat),
      (emitJsxElementFull handlers signals e p ids effects).2.1 = ids + (e.positions p).length ∧
      (emitJsxElementFull handlers signals e p ids effects).2.2 =
        effects + (e.creationOrder signals p).length
  | .mk tag attributes children, p, ids, effects => by
    obtain ⟨hIds, hEffects⟩ := counters_children handlers signals children tag ids p 0 (ids + 1) effects
    obtain ⟨-, -, -, -, hOwn⟩ := reactiveBlock_spec signals tag children ids (effects +
        (children.creationOrder signals p 0).length) p
    rw [emitJsxElementFull_mk]
    simp only [JsxElement.positions, JsxElement.creationOrder, length_cons,
      length_append, hIds, hEffects, hOwn]
    omega

theorem counters_children (handlers : List HandlerInfo) (signals : List SignalInfo) :
    ∀ (cs : JsxChildren) (tag : String) (id : Nat) (p : Path) (i ids effects : Nat),
      (emitElementChildren handlers signals tag id cs p i ids effects).2.1 =
        ids + (cs.positions p i).length ∧
      (emitElementChildren handlers signals tag id cs p i ids effects).2.2 =
        effects + (cs.creationOrder signals p i).length
  | .nil, tag, id, p, i, ids, effects => ⟨rfl, rfl⟩
  | .element e rest, tag, id, p, i, ids, effects => by
    obtain ⟨hIds, hEffects⟩ := counters_element handlers signals e (i :: p) ids effects
    obtain ⟨hIds', hEffects'⟩ := counters_children handlers signals rest tag id p (i + 1)
      (ids + (e.positions (i :: p)).length) (effects + (e.creationOrder signals (i :: p)).length)
    simp only [emitElementChildren, JsxChildren.positions, JsxChildren.creationOrder,
      length_append, hIds, hEffects, hIds', hEffects']
    omega
  | .text _ rest, tag, id, p, i, ids, effects =>
    counters_children handlers signals rest tag id p (i + 1) ids effects
  | .expression _ _ rest, tag, id, p, i, ids, effects =>
    counters_children handlers signals rest tag id p (i + 1) ids effects

end

/-- What the edges of a list become in C. -/
def attachedPairs (v : Path → Nat) (edges : List Edge) : List (Nat × Nat) :=
  (edges.filter fun e => Attachable e.parentTag e.childTag).map fun e => (v e.parent, v e.child)

/-- What lines say of the elements `l`, the calls `calls` and the effects `order`, numbered from
`effects` on: the elements are declared and their handlers set in the order of their places, the
children attached in the order of the calls and the effects created in theirs. -/
structure Says (v : Path → Nat) (handlers : List HandlerInfo) (l : List (Path × JsxElement))
    (calls : List (Edge × JsxElement)) (order : List (Part CText)) (effects : Nat)
    (stmts : List CStmt) : Prop where
  declared : declared stmts = l.map fun x => (v x.1, widgetOf x.2)
  attached : attached stmts = (calls.filter fun c => Attachable c.1.parentTag c.1.childTag).map
    fun c => (v c.1.parent, v c.1.child)
  created : created stmts = (order.zipIdx effects).map fun x => (x.2, v x.1.owner)
  clicked : clicked stmts = l.flatMap fun x => clickPairs (v x.1) handlers x.1 0 x.2.attributes

mutual

theorem says_element :
    ∀ (e : JsxElement) (p : Path) (ids effects : Nat), Numbered v (e.positions p) ids →
      Says v handlers (e.positions p) (e.calls p) (e.creationOrder signals p) effects
        (emitJsxElementFull handlers signals e p ids effects).1
  | .mk tag attributes children, p, ids, effects => by
    intro hv
    obtain ⟨hId, hv'⟩ := hv.cons
    have hSub := says_children children tag p 0 (ids + 1) effects hv'
    rw [show v p = ids from hId] at hSub
    obtain ⟨-, hEffects⟩ := counters_children handlers signals children tag ids p 0 (ids + 1)
      effects
    obtain ⟨hDeclared, hAttached, hClicked, hCreated, -⟩ := reactiveBlock_spec signals tag children
      ids (effects + (children.creationOrder signals p 0).length) p
    obtain ⟨hDeclares, hAttaches, hCreates, hClicks⟩ := emitClicks_spec ids handlers p 0 attributes
    rw [emitJsxElementFull_mk]
    constructor
    · simp only [declared_append, declared_emitConstructor, emitPosition_quiet, hDeclares,
        hSub.declared, hEffects, hDeclared, JsxElement.positions, map_cons, append_nil,
        cons_append, nil_append]
      rw [← hId]
    · simp only [attached_append, attached_emitConstructor, emitPosition_quiet, hAttaches,
        hSub.attached, hEffects, hAttached, append_nil, nil_append, JsxElement.calls]
    · simp only [created_append, created_emitConstructor, emitPosition_quiet, hCreates,
        hSub.created, hEffects, hCreated, nil_append, JsxElement.creationOrder,
        zipIdx_append, map_append]
      refine congrArg _ (map_congr_left fun x hx => ?_)
      have hOwner := owner_of_mem_own x.1 (fst_mem_of_mem_zipIdx hx)
      rw [hOwner, ← hId]
    · simp only [clicked_append, clicked_emitConstructor, emitPosition_quiet, hClicks,
        hSub.clicked, hEffects, hClicked, JsxElement.positions, flatMap_cons, append_nil,
        nil_append]
      rw [← hId]
      rfl

theorem says_children :
    ∀ (cs : JsxChildren) (tag : String) (p : Path) (i ids effects : Nat),
      Numbered v (cs.positions p i) ids →
      Says v handlers (cs.positions p i) (cs.calls tag p i) (cs.creationOrder signals p i) effects
        (emitElementChildren handlers signals tag (v p) cs p i ids effects).1
  | .nil, tag, p, i, ids, effects => fun _ => ⟨rfl, rfl, rfl, rfl⟩
  | .element e rest, tag, p, i, ids, effects => by
    intro hv
    obtain ⟨hvChild, hvRest⟩ := hv.append
    have hId : v (i :: p) = ids := by
      cases e
      exact hvChild.cons.1
    subst hId
    obtain ⟨hIds, hEffects⟩ := counters_element handlers signals e (i :: p) (v (i :: p)) effects
    have hChild := says_element e (i :: p) (v (i :: p)) effects hvChild
    have hRest := says_children rest tag p (i + 1) _
      (effects + (e.creationOrder signals (i :: p)).length) hvRest
    constructor
    · simp only [emitElementChildren, declared_append, emitAppend_quiet, append_nil,
        hChild.declared, hIds, hEffects, hRest.declared, JsxChildren.positions, map_append]
    · simp only [emitElementChildren, attached_append, hChild.attached, hIds, hEffects,
        hRest.attached, attached_emitAppend, JsxChildren.calls, filter_append, map_append,
        append_assoc]
      by_cases h : Attachable tag e.tagName <;> simp [h, Edge.child]
    · simp only [emitElementChildren, created_append, emitAppend_quiet, append_nil,
        hChild.created, hIds, hEffects, hRest.created, JsxChildren.creationOrder,
        zipIdx_append, map_append]
    · simp only [emitElementChildren, clicked_append, emitAppend_quiet, append_nil,
        hChild.clicked, hIds, hEffects, hRest.clicked, JsxChildren.positions, flatMap_append]
  | .text _ rest, tag, p, i, ids, effects => says_children rest tag p (i + 1) ids effects
  | .expression _ _ rest, tag, p, i, ids, effects => says_children rest tag p (i + 1) ids effects

end

/-- The attached pairs are the edges that can be attached, in some order. -/
theorem attached_element (e : JsxElement) (p : Path) (ids effects : Nat)
    (hv : Numbered v (e.positions p) ids) :
    (attached (emitJsxElementFull handlers signals e p ids effects).1).Perm
      (attachedPairs v ((e.positions p).flatMap edgesAt)) := by
  have hEdges : (e.positions p).flatMap edgesAt =
      ((e.positions p).flatMap callsAt).map Prod.fst := by
    simp only [map_flatMap, map_fst_callsAt]
  rw [(says_element e p ids effects hv).attached, attachedPairs, hEdges, filter_map,
    map_map]
  exact ((e.calls_perm p).filter _).map _

end Tree

end Calynda.Jsx
