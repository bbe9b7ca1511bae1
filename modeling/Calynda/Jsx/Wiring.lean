import Calynda.Jsx.Emit

/-!
# Wiring component files

What it means that the C of a component file builds each widget once, attaches it to its own
parent, and gives each reactive expression and each click handler a function of its own; and the
component files of which this can be said.
-/

namespace Calynda.Jsx

/-! ## The parts of a component -/

mutual

/-- The elements of a tree with their places. -/
def JsxElement.positions : JsxElement → Path → List (Path × JsxElement)
  | .mk tag attributes children, p =>
    (p, .mk tag attributes children) :: children.positions p 0

def JsxChildren.positions : JsxChildren → Path → Nat → List (Path × JsxElement)
  | .nil, _, _ => []
  | .element e rest, p, i => e.positions (i :: p) ++ rest.positions p (i + 1)
  | .text _ rest, p, i => rest.positions p (i + 1)
  | .expression _ _ rest, p, i => rest.positions p (i + 1)

end

/-- The element children, with their indices from `i` on. -/
def JsxChildren.elements : JsxChildren → Nat → List (Nat × JsxElement)
  | .nil, _ => []
  | .element e rest, i => (i, e) :: rest.elements (i + 1)
  | .text _ rest, i => rest.elements (i + 1)
  | .expression _ _ rest, i => rest.elements (i + 1)

/-- The texts of the expression children, with their indices from `i` on. -/
def JsxChildren.texts : JsxChildren → Nat → List (Nat × CText)
  | .nil, _ => []
  | .element _ rest, i => rest.texts (i + 1)
  | .text _ rest, i => rest.texts (i + 1)
  | .expression _ none rest, i => rest.texts (i + 1)
  | .expression _ (some raw) rest, i => (i, raw) :: rest.texts (i + 1)

/-- A child element with its parent. -/
structure Edge where
  parent : Path
  index : Nat
  parentTag : String
  childTag : String

def Edge.child (e : Edge) : Path := e.index :: e.parent

/-- A text at a place: an expression child of an element, or an attribute of it. -/
structure Part (α : Type) where
  owner : Path
  index : Nat
  content : α
  deriving DecidableEq

def Part.place {α : Type} (o : Part α) : Path × Nat := (o.owner, o.index)

def edgesAt (x : Path × JsxElement) : List Edge :=
  (x.2.children.elements 0).map fun c => ⟨x.1, c.1, x.2.tagName, c.2.tagName⟩

/-- The expression children of a text element that mention a signal. -/
def reactivesAt (signals : List SignalInfo) (x : Path × JsxElement) : List (Part CText) :=
  if x.2.tagName = "Text" then
    ((x.2.children.texts 0).filter fun t => hasSignalRef signals t.2).map fun t =>
      ⟨x.1, t.1, t.2⟩
  else []

/-- The `onClick` attributes of an element, with its tag. -/
def clicksAt (x : Path × JsxElement) : List (Part (String × JsxAttribute)) :=
  (x.2.attributes.zipIdx.filter fun a => a.1.name = "onClick").map fun a =>
    ⟨x.1, a.2, x.2.tagName, a.1⟩

namespace ComponentInfo

variable (ci : ComponentInfo)

def elements : List (Path × JsxElement) := ci.rootElement.positions []

def edges : List Edge := ci.elements.flatMap edgesAt

def reactives : List (Part CText) := ci.elements.flatMap (reactivesAt ci.signals)

def clicks : List (Part (String × JsxAttribute)) := ci.elements.flatMap clicksAt

end ComponentInfo

def components (items : List JsxItem) : List ComponentInfo :=
  items.filterMap fun
    | .component ci => some ci
    | .boot _ => none

/-! ## The parts of the emitted C -/

/-- The variables that are declared, each with the widget it is initialised with. -/
def declared (body : List CStmt) : List (Nat × Option Widget) :=
  body.filterMap fun
    | .declare id w => some (id, some w)
    | .declareNull id => some (id, none)
    | _ => none

/-- The pairs of a parent and a child that a call appends or sets as a label. -/
def attached (body : List CStmt) : List (Nat × Nat) :=
  body.filterMap fun
    | .windowAppend id _ childId => some (id, childId)
    | .setLabel id childId => some (id, childId)
    | _ => none

/-- The effects that are created, each with the text widget of its context. -/
def created (body : List CStmt) : List (Nat × Nat) :=
  body.filterMap fun
    | .createEffect effectId id => some (effectId, id)
    | _ => none

/-- The handlers that are set, each behind the button that gets it. -/
def clicked (body : List CStmt) : List (Nat × Nat) :=
  body.filterMap fun
    | .setClickHandler id handlerId => some (id, handlerId)
    | _ => none

def effectFns (out : List CDecl) : List EffectFn :=
  out.filterMap fun
    | .effect f => some f
    | _ => none

def handlerFns (out : List CDecl) : List HandlerFn :=
  out.filterMap fun
    | .handler f => some f
    | _ => none

def componentFns (out : List CDecl) : List (CText × List CStmt) :=
  out.filterMap fun
    | .component name body => some (name, body)
    | _ => none

/-- The names at file scope. Names of different kinds differ in their prefixes, names of one kind
in what is behind it. -/
inductive CName where
  | sig (name : CText)
  | effCtxT (effectId : Nat)
  | effCtx (effectId : Nat)
  | effectFn (effectId : Nat)
  | handlerFn (handlerId : Nat)
  | component (name : CText)
  | calyndaBoot
  | main
  deriving DecidableEq

def CDecl.names : CDecl → List CName
  | .signal name => [.sig name]
  | .effect f => [.effCtxT f.effectId, .effCtx f.effectId, .effectFn f.effectId]
  | .handler f => [.handlerFn f.handlerId]
  | .component name _ => [.component name]
  | .boot _ => [.calyndaBoot]
  | .main => [.main]

def definedNames (out : List CDecl) : List CName := out.flatMap CDecl.names

/-! ## Wiring -/

/-- Which variable each element has, which effect each reactive expression and which handler each
click attribute, for the components by their numbers in the file. -/
structure Wiring where
  var : Nat → Path → Nat
  eff : Nat → Path × Nat → Nat
  hnd : Nat → Path × Nat → Nat

/-- The function `body` builds the tree of a component as the wiring says. -/
structure WiresComponent (W : Wiring) (out : List CDecl) (c : Nat) (ci : ComponentInfo)
    (body : List CStmt) : Prop where
  distinct : ∀ x ∈ ci.elements, ∀ y ∈ ci.elements, W.var c x.1 = W.var c y.1 → x.1 = y.1
  constructed : ∀ x ∈ ci.elements, ∃ w, widgetOf x.2 = some w ∧
    (declared body).filter (fun d => d.1 = W.var c x.1) = [(W.var c x.1, some w)]
  attached : ∀ e ∈ ci.edges,
    (attached body).filter (fun d => d.2 = W.var c e.child) = [(W.var c e.parent, W.var c e.child)]
  reactive : ∀ o ∈ ci.reactives, ∃ f, effectFn ci.kept (W.eff c o.place) o.content = some f ∧
    (effectFns out).filter (fun g => g.effectId = W.eff c o.place) = [f] ∧
    (W.eff c o.place, W.var c o.owner) ∈ created body
  click : ∀ o ∈ ci.clicks, o.content.1 = "Button" ∧ ∃ raw f, o.content.2.clickText = some raw ∧
    handlerFn ci.kept (W.hnd c o.place) raw = some f ∧
    (handlerFns out).filter (fun g => g.handlerId = W.hnd c o.place) = [f] ∧
    (W.var c o.owner, W.hnd c o.place) ∈ clicked body

/-- The parts that are to have a function of their own get different ones. -/
def DistinctFns (items : List JsxItem) (parts : ComponentInfo → List (Path × Nat))
    (number : Nat → Path × Nat → Nat) : Prop :=
  ∀ c ci, (components items)[c]? = some ci → ∀ o ∈ parts ci,
  ∀ c' ci', (components items)[c']? = some ci' → ∀ o' ∈ parts ci',
    number c o = number c' o' → c = c' ∧ o = o'

/-- The C file `out` defines every name once, and wires every component of the file to its own
parts. -/
def WiresFile (items : List JsxItem) (out : List CDecl) : Prop :=
  (definedNames out).Nodup ∧ ∃ W : Wiring,
    DistinctFns items (fun ci => ci.reactives.map Part.place) W.eff ∧
    DistinctFns items (fun ci => ci.clicks.map Part.place) W.hnd ∧
    ∀ c ci, (components items)[c]? = some ci → ∃ body,
      (componentFns out)[c]? = some (ci.compName, body) ∧ WiresComponent W out c ci body

/-- What the emitter attaches: children of windows other than windows, and texts in buttons. -/
def Attachable (parentTag childTag : String) : Prop :=
  parentTag = "Window" ∧ (childCast childTag).isSome ∨ parentTag = "Button" ∧ childTag = "Text"

instance (parentTag childTag : String) : Decidable (Attachable parentTag childTag) :=
  inferInstanceAs (Decidable (_ ∨ _))

/-- A component that the emitter can wire: its elements are of known kinds and nested as it
attaches them, its reactive expressions mention signals of the table and stand in the root or in
a child of the root, and its click handlers are on buttons and fit the table. -/
structure Wirable (ci : ComponentInfo) : Prop where
  known : ∀ x ∈ ci.elements, (widgetOf x.2).isSome
  attachable : ∀ e ∈ ci.edges, Attachable e.parentTag e.childTag
  reactive : ∀ o ∈ ci.reactives, o.owner.length ≤ 1 ∧ hasSignalRef ci.kept o.content
  click : ∀ o ∈ ci.clicks, o.content.1 = "Button" ∧ o.content.2.clickText.isSome
  clicks : ci.clicks.length ≤ maxHandlers

/-- The names that a file gives to signals. -/
def signalNames (items : List JsxItem) : List CText :=
  (components items).flatMap fun ci => ci.kept.map SignalInfo.name

def bootCount (items : List JsxItem) : Nat :=
  items.countP fun
    | .boot _ => true
    | .component _ => false

/-- All components are wirable, no two have reactive expressions, no two signals or components of
the file have one name, and there is at most one boot function. -/
structure WirableFile (items : List JsxItem) : Prop where
  wirable : ∀ ci ∈ components items, Wirable ci
  oneReactive : ∀ (c : Nat) ci, (components items)[c]? = some ci → ci.reactives ≠ [] →
    ∀ (c' : Nat) ci', (components items)[c']? = some ci' → ci'.reactives ≠ [] → c = c'
  signalNames : (signalNames items).Nodup
  componentNames : ((components items).map ComponentInfo.compName).Nodup
  boots : bootCount items ≤ 1

end Calynda.Jsx
