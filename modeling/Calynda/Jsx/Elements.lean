import Calynda.Jsx.Places

/-!
# Emitting element trees

The emitter of element trees that knows nothing of signals. It finds the number of a child again
behind the emission of the child, as the number given out last, which is the number of the last
element below it.
-/

namespace Calynda.Jsx

open List

/-! ## Attributes -/

/-- An integer attribute: the first attribute of the name that gives a number or a text. -/
def getIntAttr (attributes : List JsxAttribute) (name : String) (fallback : Int) : Int :=
  (attributes.findSome? fun a =>
    if a.name = name then
      match a.value with
      | .expression (.integer text) => some (atoi text)
      | .string text => some (atoi text)
      | _ => none
    else none).getD fallback

/-- `parse_hex_color`: the color stays what it was where this is `none`. -/
def parseHexColor (text : CText) : Option Rgba :=
  match text with
  | '#' :: digits =>
    if digits.length = 6 then
      (sscanfHex digits).map fun v => ⟨v / 2 ^ 16 % 256, v / 2 ^ 8 % 256, v % 256, 255⟩
    else if digits.length = 8 then
      (sscanfHex digits).map fun v =>
        ⟨v / 2 ^ 24 % 256, v / 2 ^ 16 % 256, v / 2 ^ 8 % 256, v % 256⟩
    else none
  | _ => none

/-! ## Statements -/

/-- The casts to an element that `as_element_fn` knows. -/
inductive BridgeCast where
  | window
  | button
  | text
  | image

def asElementFn (tag : String) : Option BridgeCast :=
  if tag = "Window" then some .window
  else if tag = "Button" then some .button
  else if tag = "Text" then some .text
  else if tag = "Image" then some .image
  else none

/-- The lines of a component function; `__jsx_N` is the number `N`. -/
inductive JsxStmt where
  | declare (id : Nat) (w : Widget)
  | declareComponent (id : Nat) (tag : String)
  | setSizeW (cast : BridgeCast) (id : Nat) (text : CText)
  | setSizeH (cast : BridgeCast) (id : Nat) (text : CText)
  | setColor (cast : BridgeCast) (id : Nat) (color : Rgba)
  | setBackgroundColor (cast : BridgeCast) (id : Nat) (color : Rgba)
  | setPosition (cast : BridgeCast) (id : Nat) (x y : Int)
  /-- The two comments on a click handler that is not wired. -/
  | clickComment (id effectId : Nat)
  | reactiveComment (effectId : Nat)
  | updateTextComment (effectId id : Nat)
  | windowAppend (id : Nat) (cast : Option BridgeCast) (childId : Nat)
  | setLabel (id childId : Nat)

/-- The first child that is text. -/
def firstTextChild : JsxChildren → CText
  | .nil => []
  | .text s _ => s
  | .element _ rest => firstTextChild rest
  | .expression _ _ rest => firstTextChild rest

/-- `emit_window`, `emit_text`, `emit_button` and `emit_image`, or the call of a component. -/
def emitWidget (el : JsxElement) (id : Nat) : JsxStmt :=
  let int := getIntAttr el.attributes
  if el.tagName = "Window" then .declare id (.windowNew (int "width" 640) (int "height" 480))
  else if el.tagName = "Text" then
    .declare id (.textNew (firstTextChild el.children) (int "size" 20) ⟨255, 255, 255, 255⟩)
  else if el.tagName = "Button" then
    .declare id (.buttonNew (int "width" 100) (int "height" 40))
  else if el.tagName = "Image" then
    .declare id (.imageNewColor (int "width" 100) (int "height" 100) ⟨0, 0, 0, 255⟩)
  else .declareComponent id el.tagName

/-- The text of a literal, and zero for anything else. -/
def sizeText : JsxExpr → CText
  | .integer text => text
  | .string text => text
  | .other => ['0']

def styleColor (value : JsxExpr) (default : Rgba) : Rgba :=
  match value with
  | .string text => (parseHexColor text).getD default
  | _ => default

def emitStyleProp (cast : BridgeCast) (id : Nat) (prop : JsxStyleProp) : List JsxStmt :=
  if prop.name = "width" then [.setSizeW cast id (sizeText prop.value)]
  else if prop.name = "height" then [.setSizeH cast id (sizeText prop.value)]
  else if prop.name = "color" then
    [.setColor cast id (styleColor prop.value ⟨255, 255, 255, 255⟩)]
  else if prop.name = "background-color" then
    [.setBackgroundColor cast id (styleColor prop.value ⟨0, 0, 0, 255⟩)]
  else []

def emitStyleProps (el : JsxElement) (id : Nat) : List JsxStmt :=
  el.attributes.flatMap fun a =>
    match a.value, asElementFn el.tagName with
    | .style props, some cast => props.flatMap (emitStyleProp cast id)
    | _, _ => []

def emitElementPosition (el : JsxElement) (id : Nat) : List JsxStmt :=
  let x := getIntAttr el.attributes "x" (-1)
  let y := getIntAttr el.attributes "y" (-1)
  match asElementFn el.tagName with
  | some cast => if 0 ≤ x ∨ 0 ≤ y then [.setPosition cast id (max x 0) (max y 0)] else []
  | none => []

/-- The comments on the click handlers of a button, which take numbers of effects. -/
def emitEventHandlers (tag : String) (id : Nat) :
    List JsxAttribute → Nat → List JsxStmt × Nat
  | [], effects => ([], effects)
  | a :: rest, effects =>
    match a.value with
    | .handler =>
      if a.name = "onClick" ∧ tag = "Button" then
        let (stmts, effects') := emitEventHandlers tag id rest (effects + 1)
        (.clickComment id effects :: stmts, effects')
      else emitEventHandlers tag id rest effects
    | _ => emitEventHandlers tag id rest effects

def emitReactiveChildren (tag : String) (id : Nat) : JsxChildren → Nat → List JsxStmt × Nat
  | .nil, effects => ([], effects)
  | .element _ rest, effects => emitReactiveChildren tag id rest effects
  | .text _ rest, effects => emitReactiveChildren tag id rest effects
  | .expression _ _ rest, effects =>
    let (stmts, effects') := emitReactiveChildren tag id rest (effects + 1)
    (.reactiveComment effects ::
      (if tag = "Text" then [.updateTextComment effects id] else []) ++ stmts, effects')

/-- The calls that attach a child. -/
def emitChildCalls (tag childTag : String) (id childId : Nat) : List JsxStmt :=
  (if tag = "Window" then [.windowAppend id (asElementFn childTag) childId] else []) ++
    if tag = "Button" ∧ childTag = "Text" then [.setLabel id childId] else []

mutual

/-- `jsx_emit_element`, with the values of the two counters before and after it. -/
def jsxEmitElement : JsxElement → Nat → Nat → List JsxStmt × Nat × Nat
  | .mk tag attributes children, ids, effects =>
    let el := JsxElement.mk tag attributes children
    let (handlers, effects₁) := emitEventHandlers tag ids attributes effects
    let (reactive, effects₂) := emitReactiveChildren tag ids children effects₁
    let (stmts, ids', effects') := jsxEmitChildren tag ids children (ids + 1) effects₂
    (emitWidget el ids :: (emitStyleProps el ids ++ emitElementPosition el ids ++ handlers ++
      reactive ++ stmts), ids', effects')

/-- The loop over the children. The number of a child is the last one given out. -/
def jsxEmitChildren (tag : String) (id : Nat) :
    JsxChildren → Nat → Nat → List JsxStmt × Nat × Nat
  | .nil, ids, effects => ([], ids, effects)
  | .element e rest, ids, effects =>
    let (child, ids', effects') := jsxEmitElement e ids effects
    let (stmts, ids'', effects'') := jsxEmitChildren tag id rest ids' effects'
    (child ++ emitChildCalls tag e.tagName id (ids' - 1) ++ stmts, ids'', effects'')
  | .text _ rest, ids, effects => jsxEmitChildren tag id rest ids effects
  | .expression _ _ rest, ids, effects => jsxEmitChildren tag id rest ids effects

end

/-! ## The tree that the calls describe -/

/-- The constructor lines. -/
def constructors (stmts : List JsxStmt) : List JsxStmt :=
  stmts.filter fun
    | .declare _ _ => true
    | .declareComponent _ _ => true
    | _ => false

/-- The pairs of a parent and a child that a call appends or sets as a label. -/
def attachedBy (stmts : List JsxStmt) : List (Nat × Nat) :=
  stmts.filterMap fun
    | .windowAppend id _ childId => some (id, childId)
    | .setLabel id childId => some (id, childId)
    | _ => none

/-- The number of an element in the order of the places, from `ids` on. -/
def numberOf (root : JsxElement) (ids : Nat) (p : Path) : Nat :=
  ids + indexOfKey Prod.fst (root.positions []) p

def treeEdges (root : JsxElement) : List Edge := (root.positions []).flatMap edgesAt

/-- The tags that both emitters construct and attach in their own ways. -/
def widgetTags : List String := ["Window", "Text", "Button", "Image"]

/-- The lines for a tree number its elements in their order, attach children to their parents,
all children of a window among them, and say the same as those of the emitter of component files
for trees of windows, texts, buttons and images. -/
structure DescribesTree (root : JsxElement) (ids effects : Nat) : Prop where
  declared : constructors (jsxEmitElement root ids effects).1 =
    ((root.positions []).zipIdx ids).map fun x => emitWidget x.1.2 x.2
  attached : ∀ d ∈ attachedBy (jsxEmitElement root ids effects).1, ∃ e ∈ treeEdges root,
    d = (numberOf root ids e.parent, numberOf root ids e.child)
  windows : ∀ x ∈ root.positions [], x.2.tagName = "Window" →
    (attachedBy (jsxEmitElement root ids effects).1).filter (fun d => d.1 = numberOf root ids x.1) =
      (edgesAt x).map fun e => (numberOf root ids e.parent, numberOf root ids e.child)
  agrees : (∀ x ∈ root.positions [], x.2.tagName ∈ widgetTags) → ∀ handlers signals effects',
    attachedBy (jsxEmitElement root ids effects).1 =
      Jsx.attached (emitJsxElementFull handlers signals root [] ids effects').1

/-- The pairs that the loop attaches: all children of a window, and texts in buttons. -/
def Attaches (tag childTag : String) : Prop :=
  tag = "Window" ∨ tag = "Button" ∧ childTag = "Text"

instance (tag childTag : String) : Decidable (Attaches tag childTag) :=
  inferInstanceAs (Decidable (_ ∨ _))

/-- The children that are attached have no element children themselves, and in a tree of windows,
texts, buttons and images no window is in a window. -/
structure Shallow (root : JsxElement) : Prop where
  leaves : ∀ x ∈ root.positions [], ∀ c ∈ x.2.children.elements 0,
    Attaches x.2.tagName c.2.tagName → c.2.children.elements 0 = []
  noNested : (∀ x ∈ root.positions [], x.2.tagName ∈ widgetTags) →
    ∀ e ∈ treeEdges root, ¬ (e.parentTag = "Window" ∧ e.childTag = "Window")

/-! ## The calls in their order -/

theorem JsxElement.exists_of_mem_calls (e : JsxElement) (p : Path) {c : Edge × JsxElement}
    (hc : c ∈ e.calls p) : ∃ x ∈ e.positions p, c ∈ callsAt x :=
  mem_flatMap.1 ((e.calls_perm p).mem_iff.1 hc)

theorem JsxChildren.exists_of_mem_calls (cs : JsxChildren) (tag : String) (p : Path) (i : Nat)
    {c : Edge × JsxElement} (hc : c ∈ cs.calls tag p i) :
    c ∈ childCalls tag p cs i ∨ ∃ x ∈ cs.positions p i, c ∈ callsAt x :=
  (mem_append.1 ((cs.calls_perm tag p i).mem_iff.1 hc)).imp_right mem_flatMap.1

theorem parent_of_mem_childCalls {tag : String} {p : Path} {cs : JsxChildren} {i : Nat}
    {c : Edge × JsxElement} (hc : c ∈ childCalls tag p cs i) : c.1.parent = p := by
  obtain ⟨d, -, rfl⟩ := mem_map.mp hc
  rfl

theorem suffix_of_mem_calls {e : JsxElement} {p : Path} {c : Edge × JsxElement}
    (hc : c ∈ e.calls p) : p <:+ c.1.parent := by
  obtain ⟨x, hx, hcx⟩ := e.exists_of_mem_calls p hc
  rw [parent_of_mem_childCalls hcx]
  exact e.suffix_of_mem_positions p x hx

theorem parent_of_mem_calls {tag : String} {cs : JsxChildren} {p : Path} {i : Nat}
    {c : Edge × JsxElement} (hc : c ∈ cs.calls tag p i) :
    c.1.parent = p ∨ ∃ j, i ≤ j ∧ (j :: p) <:+ c.1.parent := by
  rcases cs.exists_of_mem_calls tag p i hc with hOwn | ⟨x, hx, hcx⟩
  · exact .inl (parent_of_mem_childCalls hOwn)
  · rw [parent_of_mem_childCalls hcx]
    exact .inr (cs.suffix_of_mem_positions p i x hx)

theorem not_cons_suffix_self (j : Nat) (p : Path) : ¬ (j :: p) <:+ p := fun h => by
  have hLength := h.length_le
  rw [length_cons] at hLength
  omega

/-- The calls for the children of the element at `q`. -/
def callsFor (q : Path) (l : List (Edge × JsxElement)) : List (Edge × JsxElement) :=
  l.filter fun c => c.1.parent = q

theorem callsFor_append (q : Path) (a b : List (Edge × JsxElement)) :
    callsFor q (a ++ b) = callsFor q a ++ callsFor q b := filter_append ..

theorem callsFor_eq_nil {q : Path} {l : List (Edge × JsxElement)}
    (h : ∀ c ∈ l, c.1.parent ≠ q) : callsFor q l = [] :=
  filter_eq_nil_iff.mpr fun c hc => by simpa using h c hc

theorem callsFor_own (tag : String) (p : Path) (cs : JsxChildren) (i : Nat) :
    callsFor p (cs.calls tag p i) = childCalls tag p cs i := by
  induction cs using JsxChildren.induction generalizing i with
  | nil => rfl
  | element e rest ih =>
    have hNone : callsFor p (e.calls (i :: p)) = [] :=
      callsFor_eq_nil fun c hc hEq => by
        have hSuffix := suffix_of_mem_calls hc
        rw [hEq] at hSuffix
        exact not_cons_suffix_self i p hSuffix
    rw [JsxChildren.calls, callsFor_append, hNone, nil_append, callsFor,
      filter_cons_of_pos (by simp)]
    exact congrArg (List.cons _) (ih (i + 1))
  | text s rest ih => exact ih (i + 1)
  | expression e rawText rest ih => exact ih (i + 1)

mutual

/-- The calls for an element are its children in their order. -/
theorem JsxElement.callsFor_calls :
    ∀ (e : JsxElement) (p : Path), ∀ x ∈ e.positions p, callsFor x.1 (e.calls p) = callsAt x
  | .mk tag attributes children, p => by
    intro x hx
    rw [JsxElement.positions, mem_cons] at hx
    rcases hx with rfl | hx
    · exact callsFor_own tag p children 0
    · exact JsxChildren.callsFor_calls children tag p 0 x hx

theorem JsxChildren.callsFor_calls :
    ∀ (cs : JsxChildren) (tag : String) (p : Path) (i : Nat), ∀ x ∈ cs.positions p i,
      callsFor x.1 (cs.calls tag p i) = callsAt x
  | .nil, tag, p, i => by
    intro x hx
    cases hx
  | .element e rest, tag, p, i => by
    intro x hx
    have hx' := hx
    rw [JsxChildren.positions, mem_append] at hx
    obtain ⟨j, -, hj⟩ := JsxChildren.suffix_of_mem_positions (.element e rest) p i x hx'
    have hNe : ¬ p = x.1 := fun hEq => not_cons_suffix_self j p (hEq ▸ hj)
    rw [JsxChildren.calls, callsFor_append]
    rcases hx with hx | hx
    · have hSuffix := e.suffix_of_mem_positions (i :: p) x hx
      have hRest : callsFor x.1 (rest.calls tag p (i + 1)) = [] := by
        refine callsFor_eq_nil fun c hc hEq => ?_
        rcases parent_of_mem_calls hc with hOwn | ⟨k, hik, hk⟩
        · exact hNe (hOwn.symm.trans hEq)
        · have := eq_of_cons_suffix hSuffix (hEq ▸ hk)
          omega
      rw [JsxElement.callsFor_calls e (i :: p) x hx, callsFor,
        filter_cons_of_neg (by simpa using hNe)]
      exact (congrArg _ hRest).trans (append_nil _)
    · obtain ⟨k, hik, hk⟩ := rest.suffix_of_mem_positions p (i + 1) x hx
      have hFirst : callsFor x.1 (e.calls (i :: p)) = [] := by
        refine callsFor_eq_nil fun c hc hEq => ?_
        have := eq_of_cons_suffix (hEq ▸ suffix_of_mem_calls hc) hk
        omega
      rw [hFirst, nil_append, callsFor, filter_cons_of_neg (by simpa using hNe)]
      exact JsxChildren.callsFor_calls rest tag p (i + 1) x hx
  | .text _ rest, tag, p, i => JsxChildren.callsFor_calls rest tag p (i + 1)
  | .expression _ _ rest, tag, p, i => JsxChildren.callsFor_calls rest tag p (i + 1)

end

theorem mem_calls_of_mem_callsAt {root : JsxElement} {p : Path} {x : Path × JsxElement}
    (hx : x ∈ root.positions p) {c : Edge × JsxElement} (hc : c ∈ callsAt x) : c ∈ root.calls p := by
  rw [← root.callsFor_calls p x hx] at hc
  exact mem_of_mem_filter hc

/-! ## What the lines of an element say -/

section Lines

variable (el : JsxElement) (tag childTag : String) (id childId effects : Nat)

@[simp]
theorem constructors_append (a b : List JsxStmt) :
    constructors (a ++ b) = constructors a ++ constructors b := filter_append ..

@[simp]
theorem attachedBy_append (a b : List JsxStmt) :
    attachedBy (a ++ b) = attachedBy a ++ attachedBy b := filterMap_append

/-- Lines that construct nothing and attach nothing. -/
def Quiet (stmts : List JsxStmt) : Prop := constructors stmts = [] ∧ attachedBy stmts = []

theorem Quiet.append {a b : List JsxStmt} (ha : Quiet a) (hb : Quiet b) : Quiet (a ++ b) := by
  unfold Quiet
  rw [constructors_append, attachedBy_append, ha.1, ha.2, hb.1, hb.2]
  exact ⟨rfl, rfl⟩

theorem quiet_flatMap {α : Type} {l : List α} {f : α → List JsxStmt} (h : ∀ a ∈ l, Quiet (f a)) :
    Quiet (l.flatMap f) := by
  induction l with
  | nil => exact ⟨rfl, rfl⟩
  | cons a l ih =>
    rw [flatMap_cons]
    exact (h a mem_cons_self).append (ih fun b hb => h b (mem_cons_of_mem _ hb))

theorem emitWidget_spec : constructors [emitWidget el id] = [emitWidget el id] ∧
    attachedBy [emitWidget el id] = [] := by
  unfold emitWidget
  dsimp only
  split_ifs <;> exact ⟨rfl, rfl⟩

theorem quiet_emitStyleProps : Quiet (emitStyleProps el id) := by
  refine quiet_flatMap fun a _ => ?_
  split
  · refine quiet_flatMap fun prop _ => ?_
    unfold emitStyleProp
    split_ifs <;> exact ⟨rfl, rfl⟩
  · exact ⟨rfl, rfl⟩

theorem quiet_emitElementPosition : Quiet (emitElementPosition el id) := by
  unfold emitElementPosition
  dsimp only
  split
  · split <;> exact ⟨rfl, rfl⟩
  · exact ⟨rfl, rfl⟩

theorem quiet_emitEventHandlers (attributes : List JsxAttribute) :
    Quiet (emitEventHandlers tag id attributes effects).1 := by
  induction attributes generalizing effects with
  | nil => exact ⟨rfl, rfl⟩
  | cons a rest ih =>
    unfold emitEventHandlers
    split
    · split
      · exact ih (effects + 1)
      · exact ih effects
    · exact ih effects

theorem quiet_emitReactiveChildren (cs : JsxChildren) :
    Quiet (emitReactiveChildren tag id cs effects).1 := by
  induction cs using JsxChildren.induction generalizing effects with
  | nil => exact ⟨rfl, rfl⟩
  | element e rest ih => exact ih effects
  | text s rest ih => exact ih effects
  | expression e rawText rest ih =>
    rw [emitReactiveChildren]
    have hRest := ih (effects + 1)
    dsimp only
    split <;> exact hRest

theorem emitChildCalls_spec : constructors (emitChildCalls tag childTag id childId) = [] ∧
    attachedBy (emitChildCalls tag childTag id childId) =
      if Attaches tag childTag then [(id, childId)] else [] := by
  by_cases hWindow : tag = "Window"
  · subst hWindow
    simp [emitChildCalls, Attaches, constructors, attachedBy]
  · by_cases hLabel : tag = "Button" ∧ childTag = "Text"
    · simp [emitChildCalls, Attaches, constructors, attachedBy, hLabel]
    · simp [emitChildCalls, Attaches, constructors, attachedBy, hWindow, hLabel]

end Lines

section Emission

variable {v : Path → Nat} {tag : String} {attributes : List JsxAttribute}

/-- The lines of an element: its constructor, lines that say nothing of the tree, and those of its
children. -/
theorem exists_jsxEmitElement (tag : String) (attributes : List JsxAttribute) (children : JsxChildren)
    (ids effects : Nat) : ∃ quiet effects', Quiet quiet ∧
      (jsxEmitElement (.mk tag attributes children) ids effects).1 =
        [emitWidget (.mk tag attributes children) ids] ++ (quiet ++
          (jsxEmitChildren tag ids children (ids + 1) effects').1) ∧
      (jsxEmitElement (.mk tag attributes children) ids effects).2.1 =
        (jsxEmitChildren tag ids children (ids + 1) effects').2.1 :=
  ⟨_, _, ((((quiet_emitStyleProps _ ids).append (quiet_emitElementPosition _ ids)).append
    (quiet_emitEventHandlers tag ids effects attributes)).append
      (quiet_emitReactiveChildren tag ids _ children)), by rw [jsxEmitElement]; rfl,
    by rw [jsxEmitElement]⟩

mutual

theorem ids_element : ∀ (e : JsxElement) (p : Path) (ids effects : Nat),
    (jsxEmitElement e ids effects).2.1 = ids + (e.positions p).length
  | .mk tag attributes children, p, ids, effects => by
    obtain ⟨_, effects', -, -, hIds⟩ := exists_jsxEmitElement tag attributes children ids effects
    rw [hIds, ids_children children tag ids p 0 (ids + 1) effects', JsxElement.positions,
      length_cons]
    omega

theorem ids_children : ∀ (cs : JsxChildren) (tag : String) (id : Nat) (p : Path) (i ids effects : Nat),
    (jsxEmitChildren tag id cs ids effects).2.1 = ids + (cs.positions p i).length
  | .nil, tag, id, p, i, ids, effects => rfl
  | .element e rest, tag, id, p, i, ids, effects => by
    rw [jsxEmitChildren, JsxChildren.positions, length_append]
    dsimp only
    rw [ids_children rest tag id p (i + 1), ids_element e (i :: p)]
    omega
  | .text _ rest, tag, id, p, i, ids, effects => ids_children rest tag id p (i + 1) ids effects
  | .expression _ _ rest, tag, id, p, i, ids, effects =>
    ids_children rest tag id p (i + 1) ids effects

end

mutual

/-- The constructors are those of the elements, numbered in the order of their places. -/
theorem constructors_element : ∀ (e : JsxElement) (p : Path) (ids effects : Nat),
    constructors (jsxEmitElement e ids effects).1 =
      ((e.positions p).zipIdx ids).map fun x => emitWidget x.1.2 x.2
  | .mk tag attributes children, p, ids, effects => by
    obtain ⟨quiet, effects', hQuiet, hStmts, -⟩ :=
      exists_jsxEmitElement tag attributes children ids effects
    rw [hStmts, constructors_append, constructors_append, hQuiet.1, (emitWidget_spec _ ids).1,
      constructors_children children tag ids p 0 (ids + 1) effects']
    rfl

theorem constructors_children : ∀ (cs : JsxChildren) (tag : String) (id : Nat) (p : Path)
    (i ids effects : Nat), constructors (jsxEmitChildren tag id cs ids effects).1 =
      ((cs.positions p i).zipIdx ids).map fun x => emitWidget x.1.2 x.2
  | .nil, tag, id, p, i, ids, effects => rfl
  | .element e rest, tag, id, p, i, ids, effects => by
    rw [jsxEmitChildren, JsxChildren.positions, zipIdx_append, map_append]
    dsimp only
    rw [constructors_append, constructors_append, (emitChildCalls_spec ..).1, append_nil,
      constructors_element e (i :: p), constructors_children rest tag id p (i + 1),
      ids_element e (i :: p)]
  | .text _ rest, tag, id, p, i, ids, effects =>
    constructors_children rest tag id p (i + 1) ids effects
  | .expression _ _ rest, tag, id, p, i, ids, effects =>
    constructors_children rest tag id p (i + 1) ids effects

end

/-- The number that the loop takes for a child is that of the last element below it. -/
def lastNumber (v : Path → Nat) (c : Edge × JsxElement) : Nat :=
  v c.1.child + ((c.2.positions c.1.child).length - 1)

def attachCalls (l : List (Edge × JsxElement)) : List (Edge × JsxElement) :=
  l.filter fun c => Attaches c.1.parentTag c.1.childTag

theorem JsxElement.positions_length_pos (e : JsxElement) (p : Path) :
    0 < (e.positions p).length := by
  cases e
  exact Nat.succ_pos _

mutual

theorem attachedBy_element : ∀ (e : JsxElement) (p : Path) (ids effects : Nat),
    Numbered v (e.positions p) ids → attachedBy (jsxEmitElement e ids effects).1 =
      (attachCalls (e.calls p)).map fun c => (v c.1.parent, lastNumber v c)
  | .mk tag attributes children, p, ids, effects => by
    intro hv
    obtain ⟨hId, hv'⟩ := hv.cons
    obtain ⟨quiet, effects', hQuiet, hStmts, -⟩ :=
      exists_jsxEmitElement tag attributes children ids effects
    have hSub := attachedBy_children children tag p 0 (ids + 1) effects' hv'
    rw [show v p = ids from hId] at hSub
    rw [hStmts, attachedBy_append, attachedBy_append, hQuiet.2, (emitWidget_spec _ ids).2, hSub]
    rfl

theorem attachedBy_children : ∀ (cs : JsxChildren) (tag : String) (p : Path) (i ids effects : Nat),
    Numbered v (cs.positions p i) ids → attachedBy (jsxEmitChildren tag (v p) cs ids effects).1 =
      (attachCalls (cs.calls tag p i)).map fun c => (v c.1.parent, lastNumber v c)
  | .nil, tag, p, i, ids, effects => fun _ => rfl
  | .element e rest, tag, p, i, ids, effects => by
    intro hv
    obtain ⟨hvChild, hvRest⟩ := hv.append
    have hId : v (i :: p) = ids := by
      cases e
      exact hvChild.cons.1
    have hLast : lastNumber v (⟨p, i, tag, e.tagName⟩, e) =
        ids + (e.positions (i :: p)).length - 1 := by
      have hPos := e.positions_length_pos (i :: p)
      rw [lastNumber, show (⟨p, i, tag, e.tagName⟩ : Edge).child = i :: p from rfl, hId]
      dsimp only
      omega
    rw [jsxEmitChildren, JsxChildren.calls]
    dsimp only
    rw [attachedBy_append, attachedBy_append, (emitChildCalls_spec ..).2, ids_element e (i :: p),
      attachedBy_element e (i :: p) ids effects hvChild,
      attachedBy_children rest tag p (i + 1) _ _ hvRest, ← hLast, attachCalls, attachCalls,
      attachCalls, filter_append, map_append, append_assoc]
    by_cases h : Attaches tag e.tagName <;> simp [h]
  | .text _ rest, tag, p, i, ids, effects => attachedBy_children rest tag p (i + 1) ids effects
  | .expression _ _ rest, tag, p, i, ids, effects =>
    attachedBy_children rest tag p (i + 1) ids effects

end

end Emission

/-! ## Trees whose calls are right -/

section Trees

variable {root : JsxElement} {ids effects : Nat} {x y : Path × JsxElement}

theorem numbered_numberOf (root : JsxElement) (ids : Nat) :
    Numbered (numberOf root ids) (root.positions []) ids := by
  have h := map_indexOfKey (root.nodup_positions [])
  have hAdd := congrArg (List.map (ids + ·)) h
  rw [map_map, map_add_range', Nat.add_zero] at hAdd
  exact hAdd

theorem path_of_numberOf_eq (hx : x ∈ root.positions []) (hy : y ∈ root.positions [])
    (h : numberOf root ids x.1 = numberOf root ids y.1) : x = y :=
  eq_of_indexOfKey_eq (root.nodup_positions []) hx hy (Nat.add_left_cancel h)

theorem child_mem_of_mem_callsAt (hx : x ∈ root.positions []) {c : Edge × JsxElement}
    (hc : c ∈ callsAt x) : (c.1.child, c.2) ∈ root.positions [] := by
  obtain ⟨d, hd, rfl⟩ := mem_map.mp hc
  exact root.child_mem_positions [] x hx d hd

mutual

/-- The subtree of an element is numbered from its own number on. -/
theorem JsxElement.subtree : ∀ (e : JsxElement) {v : Path → Nat} (p : Path) (n : Nat),
    Numbered v (e.positions p) n → ∀ x ∈ e.positions p,
      Numbered v (x.2.positions x.1) (v x.1) ∧ ∀ y ∈ x.2.positions x.1, y ∈ e.positions p
  | .mk tag attributes children, v, p, n => by
    intro hv x hx
    obtain ⟨hId, hv'⟩ := hv.cons
    rw [JsxElement.positions, mem_cons] at hx
    rcases hx with rfl | hx
    · refine ⟨?_, fun y hy => hy⟩
      dsimp only at hId ⊢
      rw [hId]
      exact hv
    · obtain ⟨hSub, hIn⟩ := JsxChildren.subtree children p 0 (n + 1) hv' x hx
      exact ⟨hSub, fun y hy => mem_cons_of_mem _ (hIn y hy)⟩

theorem JsxChildren.subtree : ∀ (cs : JsxChildren) {v : Path → Nat} (p : Path) (i n : Nat),
    Numbered v (cs.positions p i) n → ∀ x ∈ cs.positions p i,
      Numbered v (x.2.positions x.1) (v x.1) ∧ ∀ y ∈ x.2.positions x.1, y ∈ cs.positions p i
  | .nil, v, p, i, n => by
    intro _ x hx
    cases hx
  | .element e rest, v, p, i, n => by
    intro hv x hx
    obtain ⟨hvChild, hvRest⟩ := hv.append
    rw [JsxChildren.positions, mem_append] at hx
    rcases hx with hx | hx
    · obtain ⟨hSub, hIn⟩ := JsxElement.subtree e (i :: p) n hvChild x hx
      exact ⟨hSub, fun y hy => mem_append_left _ (hIn y hy)⟩
    · obtain ⟨hSub, hIn⟩ := JsxChildren.subtree rest p (i + 1) _ hvRest x hx
      exact ⟨hSub, fun y hy => mem_append_right _ (hIn y hy)⟩
  | .text _ rest, v, p, i, n => JsxChildren.subtree rest p (i + 1) n
  | .expression _ _ rest, v, p, i, n => JsxChildren.subtree rest p (i + 1) n

end

/-- The last element of a subtree has its last number. -/
theorem exists_last {e : JsxElement} {v : Path → Nat} {p : Path} {n : Nat}
    (hv : Numbered v (e.positions p) n) :
    ∃ y ∈ e.positions p, v y.1 = n + ((e.positions p).length - 1) := by
  have hPos := e.positions_length_pos p
  have hLt : (e.positions p).length - 1 < (e.positions p).length := by omega
  refine ⟨(e.positions p)[(e.positions p).length - 1], List.getElem_mem hLt, ?_⟩
  have hGet := congrArg (fun l : List Nat => l[(e.positions p).length - 1]?) hv
  simpa [hLt, List.getElem?_range'] using hGet

theorem JsxChildren.positions_eq_nil {cs : JsxChildren} (p : Path) {i : Nat}
    (h : cs.elements i = []) : cs.positions p i = [] := by
  induction cs using JsxChildren.induction generalizing i with
  | nil => rfl
  | element e rest => exact nomatch h
  | text s rest ih => exact ih h
  | expression e rawText rest ih => exact ih h

theorem JsxChildren.elements_eq_nil {cs : JsxChildren} (p : Path) {i : Nat}
    (h : cs.positions p i = []) : cs.elements i = [] := by
  induction cs using JsxChildren.induction generalizing i with
  | nil => rfl
  | element e rest =>
    have hPos := e.positions_length_pos (i :: p)
    rw [JsxChildren.positions, append_eq_nil_iff] at h
    rw [h.1] at hPos
    exact absurd hPos (lt_irrefl _)
  | text s rest ih => exact ih h
  | expression e rawText rest ih => exact ih h

/-- An element has no element children exactly when its subtree is itself. -/
theorem elements_eq_nil_iff (e : JsxElement) (p : Path) :
    e.children.elements 0 = [] ↔ (e.positions p).length = 1 := by
  cases e with
  | mk tag attributes children =>
    rw [JsxElement.positions, length_cons, Nat.add_eq_right, length_eq_zero_iff]
    exact ⟨children.positions_eq_nil p, children.elements_eq_nil p⟩

theorem attachedBy_root (root : JsxElement) (ids effects : Nat) :
    attachedBy (jsxEmitElement root ids effects).1 = (attachCalls (root.calls [])).map fun c =>
      (numberOf root ids c.1.parent, lastNumber (numberOf root ids) c) :=
  attachedBy_element root [] ids effects (numbered_numberOf root ids)

theorem mem_treeEdges {e : Edge} : e ∈ treeEdges root ↔
    ∃ x ∈ root.positions [], ∃ c ∈ callsAt x, c.1 = e := by
  unfold treeEdges
  simp only [mem_flatMap, ← map_fst_callsAt, mem_map]

/-- A call that names the right child is for a child without element children. -/
theorem leaves_of_describesTree (h : DescribesTree root ids effects) (hx : x ∈ root.positions [])
    {c : Edge × JsxElement} (hc : c ∈ callsAt x) (hAttaches : Attaches c.1.parentTag c.1.childTag) :
    c.2.children.elements 0 = [] := by
  have hChild := child_mem_of_mem_callsAt hx hc
  obtain ⟨hSub, hIn⟩ := root.subtree [] ids (numbered_numberOf root ids) _ hChild
  obtain ⟨y, hy, hLast⟩ := exists_last hSub
  have hCall : (numberOf root ids x.1, numberOf root ids y.1) ∈
      attachedBy (jsxEmitElement root ids effects).1 := by
    rw [attachedBy_root]
    refine mem_map.mpr ⟨c, mem_filter.mpr ⟨mem_calls_of_mem_callsAt hx hc, ?_⟩, ?_⟩
    · exact decide_eq_true hAttaches
    · rw [parent_of_mem_childCalls hc, hLast, lastNumber]
  obtain ⟨e, he, hEq⟩ := h.attached _ hCall
  obtain ⟨z, hz, d, hd, rfl⟩ := mem_treeEdges.mp he
  obtain ⟨hParent, hNumber⟩ := Prod.mk.inj hEq
  have hParent' : d.1.parent = z.1 := parent_of_mem_childCalls hd
  rw [hParent'] at hParent
  obtain rfl := path_of_numberOf_eq hx hz hParent
  have hSame := path_of_numberOf_eq (hIn y hy) (child_mem_of_mem_callsAt hz hd) hNumber
  have hSuffix := c.2.suffix_of_mem_positions _ y hy
  rw [hSame] at hSuffix
  have hLength : c.1.child.length = d.1.child.length := by
    rw [Edge.child, Edge.child, hParent', parent_of_mem_childCalls hc]
    rfl
  have hPath : c.1.child = d.1.child := hSuffix.eq_of_length hLength
  rw [hSame] at hLast
  have hZero : numberOf root ids d.1.child =
      numberOf root ids c.1.child + ((c.2.positions c.1.child).length - 1) := hLast
  rw [← hPath] at hZero
  rw [elements_eq_nil_iff _ c.1.child]
  have hPos := c.2.positions_length_pos c.1.child
  omega

theorem shallow_of_describesTree (h : DescribesTree root ids effects) : Shallow root := by
  refine ⟨fun x hx d hd hAttaches => ?_, fun hKnown e he hNested => ?_⟩
  · have hc : (⟨⟨x.1, d.1, x.2.tagName, d.2.tagName⟩, d.2⟩ : Edge × JsxElement) ∈ callsAt x :=
      mem_map.mpr ⟨d, hd, rfl⟩
    exact leaves_of_describesTree h hx hc hAttaches
  · obtain ⟨x, hx, c, hc, rfl⟩ := mem_treeEdges.mp he
    have hAgree := congrArg List.length (h.agrees hKnown [] [] 0)
    rw [attachedBy_root, (says_element root [] ids 0 (numbered_numberOf root ids)).attached,
      length_map, length_map] at hAgree
    have hFilter : ((root.calls []).filter fun c => Attachable c.1.parentTag c.1.childTag) =
        (attachCalls (root.calls [])).filter fun c => Attachable c.1.parentTag c.1.childTag := by
      rw [attachCalls, filter_filter]
      refine filter_congr fun c _ => ?_
      rw [Bool.eq_iff_iff, Bool.and_eq_true, decide_eq_true_iff, decide_eq_true_iff]
      refine ⟨fun hOk => ⟨hOk, ?_⟩, And.left⟩
      rcases hOk with ⟨hWindow, -⟩ | hLabel
      · exact .inl hWindow
      · exact .inr hLabel
    rw [hFilter] at hAgree
    have hIn : c ∈ attachCalls (root.calls []) :=
      mem_filter.mpr ⟨mem_calls_of_mem_callsAt hx hc, decide_eq_true (.inl hNested.1)⟩
    have hNot : ¬ Attachable c.1.parentTag c.1.childTag := by
      rw [hNested.1, hNested.2]
      decide
    have hLess : ((attachCalls (root.calls [])).filter fun c =>
        Attachable c.1.parentTag c.1.childTag).length < (attachCalls (root.calls [])).length :=
      length_filter_lt_length_iff_exists.mpr
        ⟨c, hIn, fun hTrue => hNot (of_decide_eq_true hTrue)⟩
    omega

theorem describesTree_of_shallow (h : Shallow root) (ids effects : Nat) :
    DescribesTree root ids effects := by
  have hCalls : attachedBy (jsxEmitElement root ids effects).1 = (attachCalls (root.calls [])).map
      fun c => (numberOf root ids c.1.parent, numberOf root ids c.1.child) := by
    rw [attachedBy_root]
    refine map_congr_left fun c hc => ?_
    obtain ⟨hc, hAttaches⟩ := mem_filter.mp hc
    obtain ⟨x, hx, hcx⟩ := root.exists_of_mem_calls [] hc
    obtain ⟨d, hd, rfl⟩ := mem_map.mp hcx
    have hLeaf := h.leaves x hx d hd (of_decide_eq_true hAttaches)
    rw [elements_eq_nil_iff _ (d.1 :: x.1)] at hLeaf
    rw [lastNumber, show (⟨x.1, d.1, x.2.tagName, d.2.tagName⟩ : Edge).child = d.1 :: x.1 from rfl,
      hLeaf]
    rfl
  refine ⟨constructors_element root [] ids effects, fun d hd => ?_, fun x hx hWindow => ?_,
    fun hKnown handlers signals effects' => ?_⟩
  · rw [hCalls] at hd
    obtain ⟨c, hc, rfl⟩ := mem_map.mp hd
    obtain ⟨x, hx, hcx⟩ := root.exists_of_mem_calls [] (mem_of_mem_filter hc)
    exact ⟨c.1, mem_treeEdges.mpr ⟨x, hx, c, hcx, rfl⟩, rfl⟩
  · have hOwn : (attachCalls (root.calls [])).filter
        (fun c => numberOf root ids c.1.parent = numberOf root ids x.1) = callsAt x := by
      rw [attachCalls, filter_filter, ← root.callsFor_calls [] x hx, callsFor]
      refine filter_congr fun c hc => ?_
      obtain ⟨y, hy, hcy⟩ := root.exists_of_mem_calls [] hc
      have hParent : c.1.parent = y.1 := parent_of_mem_childCalls hcy
      rw [Bool.eq_iff_iff, Bool.and_eq_true, decide_eq_true_iff, decide_eq_true_iff,
        decide_eq_true_iff, hParent]
      refine ⟨fun hBoth => congrArg Prod.fst (path_of_numberOf_eq hy hx hBoth.1), fun hEq => ?_⟩
      obtain ⟨d, hd, rfl⟩ := mem_map.mp hcy
      have hSame : y = x := inj_on_of_nodup_map (root.nodup_positions []) hy hx hEq
      exact ⟨by rw [hEq], .inl (hSame ▸ hWindow)⟩
    rw [hCalls, filter_map, ← map_fst_callsAt, map_map, ← hOwn]
    rfl
  · rw [hCalls, (says_element root [] ids effects' (numbered_numberOf root ids)).attached,
      attachCalls]
    refine congrArg (List.map _) (filter_congr fun c hc => ?_)
    obtain ⟨x, hx, hcx⟩ := root.exists_of_mem_calls [] hc
    have hEdge := h.noNested hKnown c.1 (mem_treeEdges.mpr ⟨x, hx, c, hcx, rfl⟩)
    have hTag := hKnown _ (child_mem_of_mem_callsAt hx hcx)
    obtain ⟨d, -, rfl⟩ := mem_map.mp hcx
    rw [Bool.eq_iff_iff, decide_eq_true_iff, decide_eq_true_iff]
    refine ⟨fun hAttaches => ?_, fun hOk => ?_⟩
    · rcases hAttaches with hWindow | hLabel
      · refine .inl ⟨hWindow, ?_⟩
        have hNot : d.2.tagName ≠ "Window" := fun hEq => hEdge ⟨hWindow, hEq⟩
        dsimp only at hTag ⊢
        simp only [widgetTags, mem_cons, not_mem_nil, or_false, hNot, false_or] at hTag
        rcases hTag with hTag | hTag | hTag <;> rw [hTag] <;> decide
      · exact .inr hLabel
    · rcases hOk with ⟨hWindow, -⟩ | hLabel
      · exact .inl hWindow
      · exact .inr hLabel

end Trees

/-- A window with a button that has a label. -/
def labelledButton : JsxElement :=
  .mk "Window" []
    (.element (.mk "Button" [] (.element (.mk "Text" [] (.text "Quit".toList .nil)) .nil)) .nil)

end Calynda.Jsx
