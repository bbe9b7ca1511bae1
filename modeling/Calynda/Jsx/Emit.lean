import Calynda.Jsx.Rewrite
import Mathlib.Algebra.Group.Nat.Defs

/-!
# Emitting component files

A component file is compiled in three walks over the element tree of each component: one emits
the effect functions of reactive texts, one the click handlers, and one the statements that
build the tree. Each walk hands out its own numbers. The text that an attribute holds is known
by its place in the tree, as the emitter knows it by its address.
-/

namespace Calynda.Jsx

/-! ## Element trees -/

/-- What the emitter looks at in a parsed expression. -/
inductive JsxExpr where
  | integer (text : CText)
  | string (text : CText)
  | other

structure JsxStyleProp where
  name : String
  value : JsxExpr

inductive JsxAttrValue where
  | string (value : CText)
  | expression (e : JsxExpr)
  | style (props : List JsxStyleProp)
  | handler

structure JsxAttribute where
  name : String
  value : JsxAttrValue
  rawText : Option CText := none

mutual

inductive JsxElement where
  | mk (tagName : String) (attributes : List JsxAttribute) (children : JsxChildren)

inductive JsxChildren where
  | nil
  | element (e : JsxElement) (rest : JsxChildren)
  | text (s : CText) (rest : JsxChildren)
  | expression (e : JsxExpr) (rawText : Option CText) (rest : JsxChildren)

end

def JsxElement.tagName : JsxElement → String
  | .mk tag _ _ => tag

def JsxElement.attributes : JsxElement → List JsxAttribute
  | .mk _ attributes _ => attributes

def JsxElement.children : JsxElement → JsxChildren
  | .mk _ _ children => children

/-- Where an element stands: the indices of the children on the way to it, the last one first. -/
abbrev Path := List Nat

/-- A component with all signals that it declares. -/
structure ComponentInfo where
  compName : CText
  signals : List SignalInfo
  rootElement : JsxElement

/-- The table of signals takes the first ones. -/
def ComponentInfo.kept (ci : ComponentInfo) : List SignalInfo := ci.signals.take maxSignals

inductive JsxItem where
  | component (ci : ComponentInfo)
  | boot (mounted : List CText)

/-! ## The emitted C -/

structure Rgba where
  r : Nat
  g : Nat
  b : Nat
  a : Nat

/-- The constructor calls of the bridge. -/
inductive Widget where
  | windowNew (w h : Int)
  | imageNewColor (w h : Int) (color : Rgba)
  | textNew (text : CText) (size : Int) (color : Rgba)
  | buttonNew (w h : Int)

/-- The casts to an element. -/
inductive AsElement where
  | text
  | button
  | image

/-- The statements of a component function; `__jsx_N` is the number `N`. -/
inductive CStmt where
  | initSignal (name initText : CText)
  | declare (id : Nat) (w : Widget)
  | declareNull (id : Nat)
  | setAlignmentTopLeft (cast : AsElement) (id : Nat)
  | setPosition (cast : AsElement) (id : Nat) (x y : Int)
  | registerPointer (channel : Int) (id : Nat)
  | setClickHandler (id handlerId : Nat)
  | windowAppend (id : Nat) (cast : AsElement) (childId : Nat)
  | setLabel (id childId : Nat)
  /-- The two lines `__eff_E_ctx.text = __jsx_N;` and
  `solite_create_effect(__effect_E_fn, &__eff_E_ctx);`. -/
  | createEffect (effectId id : Nat)
  | returnRoot

/-- What a file defines, after its includes. An effect function comes with the type and the
variable of its context. -/
inductive CDecl where
  | signal (name : CText)
  | effect (f : EffectFn)
  | handler (f : HandlerFn)
  | component (name : CText) (body : List CStmt)
  | boot (mounted : List CText)
  | main

/-! ## Attributes -/

/-- The decimal value of the digits at the start of a text, after blanks and a sign. -/
def atoi (text : CText) : Int :=
  let digits (t : CText) : Int :=
    (t.takeWhile Char.isDigit).foldl (fun n c => n * 10 + (c.toNat - 48 : Int)) 0
  match text.dropWhile Char.isWhitespace with
  | '-' :: rest => -digits rest
  | '+' :: rest => digits rest
  | rest => digits rest

/-- The last integer that an attribute of the name gives. -/
def intAttr (attributes : List JsxAttribute) (name : String) (default : Int) : Int :=
  attributes.foldl (fun val a =>
    match a.value with
    | .expression (.integer text) => if a.name = name then atoi text else val
    | _ => val) default

def hexDigit (c : Char) : Option Nat :=
  if c.isDigit then some (c.toNat - 48)
  else if 'a' ≤ c ∧ c ≤ 'f' then some (c.toNat - 87)
  else if 'A' ≤ c ∧ c ≤ 'F' then some (c.toNat - 55)
  else none

/-- The value of the hexadecimal digits at the start of a text. -/
def scanHex (text : CText) : Nat :=
  ((text.takeWhile fun c => (hexDigit c).isSome).foldl
    (fun n c => n * 16 + (hexDigit c).getD 0) 0) % 2 ^ 32

/-- What `sscanf` with `%x` reads, after blanks and a sign. A width as long as the text changes
nothing. -/
def sscanfHex (text : CText) : Option Nat :=
  let read (digits : CText) : Option Nat :=
    let digits := match digits with
      | '0' :: 'x' :: rest => rest
      | '0' :: 'X' :: rest => rest
      | _ => digits
    if (digits.head?.bind hexDigit).isSome then some (scanHex digits) else none
  match text.dropWhile Char.isWhitespace with
  | '-' :: rest => (read rest).map fun v => (2 ^ 32 - v) % 2 ^ 32
  | '+' :: rest => read rest
  | rest => read rest

/-- A color text of six digits, or of eight with the opacity last. -/
def parseColor (text : CText) : Option Rgba :=
  match text with
  | '#' :: digits =>
    let cv := (sscanfHex digits).getD 0
    if digits.length < 6 then none
    else if digits.length = 8 then
      some ⟨cv / 2 ^ 24 % 256, cv / 2 ^ 16 % 256, cv / 2 ^ 8 % 256, cv % 256⟩
    else some ⟨cv / 2 ^ 16 % 256, cv / 2 ^ 8 % 256, cv % 256, 255⟩
  | _ => none

/-- The last color that a style property of the name gives. -/
def colorAttr (attributes : List JsxAttribute) (prop : String) (default : Rgba) : Rgba :=
  attributes.foldl (fun val a =>
    match a.value with
    | .style props =>
      props.foldl (fun val sp =>
        match sp.value with
        | .string cs => if sp.name = prop then (parseColor cs).getD val else val
        | _ => val) val
    | _ => val) default

/-- The first string child. -/
def firstText : JsxChildren → CText
  | .nil => []
  | .text s _ => s
  | .expression (.string s) _ _ => s
  | .expression _ _ rest => firstText rest
  | .element _ rest => firstText rest

/-! ## Building the tree -/

/-- The widget that an element of a known kind constructs. -/
def widgetOf (el : JsxElement) : Option Widget :=
  let int := intAttr el.attributes
  if el.tagName = "Window" then some (.windowNew (int "width" 640) (int "height" 480))
  else if el.tagName = "Image" then
    some (.imageNewColor (int "width" 100) (int "height" 100)
      (colorAttr el.attributes "background-color" ⟨0, 0, 0, 255⟩))
  else if el.tagName = "Text" then
    some (.textNew (firstText el.children) (int "size" 20)
      (colorAttr el.attributes "color" ⟨255, 255, 255, 255⟩))
  else if el.tagName = "Button" then some (.buttonNew (int "width" 100) (int "height" 40))
  else if el.tagName = "Pointer" then
    some (.imageNewColor (int "size" 48) (int "size" 48)
      (colorAttr el.attributes "color" ⟨255, 255, 255, 204⟩))
  else none

def emitConstructor (el : JsxElement) (id : Nat) : List CStmt :=
  match widgetOf el with
  | none => [.declareNull id]
  | some w =>
    .declare id w ::
      if el.tagName = "Pointer" then
        [.setAlignmentTopLeft .image id,
          .registerPointer (intAttr el.attributes "channel" 0) id]
      else []

def positionCast (tagName : String) : Option AsElement :=
  if tagName = "Text" then some .text
  else if tagName = "Button" then some .button
  else if tagName = "Image" then some .image
  else none

def emitPosition (el : JsxElement) (id : Nat) : List CStmt :=
  let x := intAttr el.attributes "x" (-1)
  let y := intAttr el.attributes "y" (-1)
  match positionCast el.tagName with
  | some cast =>
    if 0 ≤ x ∨ 0 ≤ y then
      [.setAlignmentTopLeft cast id, .setPosition cast id (max x 0) (max y 0)]
    else []
  | none => []

/-- An entry of the handler table: the attribute whose text it is, and its number. -/
structure HandlerInfo where
  place : Path × Nat
  handlerId : Nat

/-- The text of an attribute that is a click handler. -/
def JsxAttribute.clickText (a : JsxAttribute) : Option CText :=
  match a.value with
  | .handler => if a.name = "onClick" then a.rawText else none
  | _ => none

/-- The wiring of the click handlers of an element, from its attribute number `i` on. -/
def emitClicks (handlers : List HandlerInfo) (p : Path) (id : Nat) :
    Nat → List JsxAttribute → List CStmt
  | _, [] => []
  | i, a :: rest =>
    (match a.clickText, handlers.find? fun h => h.place = (p, i) with
      | some _, some h => [.setClickHandler id h.handlerId]
      | _, _ => []) ++ emitClicks handlers p id (i + 1) rest

def childCast (childTag : String) : Option AsElement :=
  if childTag = "Text" then some .text
  else if childTag = "Button" then some .button
  else if childTag = "Image" then some .image
  else if childTag = "Pointer" then some .image
  else none

def emitAppend (tagName childTag : String) (id childId : Nat) : List CStmt :=
  (match childCast childTag with
    | some cast => if tagName = "Window" then [.windowAppend id cast childId] else []
    | none => []) ++
  if tagName = "Button" ∧ childTag = "Text" then [.setLabel id childId] else []

/-- The effects of the expression children of a text element, in their order. -/
def emitReactive (signals : List SignalInfo) (id : Nat) : JsxChildren → Nat → List CStmt × Nat
  | .nil, effects => ([], effects)
  | .element _ rest, effects => emitReactive signals id rest effects
  | .text _ rest, effects => emitReactive signals id rest effects
  | .expression _ none rest, effects => emitReactive signals id rest effects
  | .expression _ (some raw) rest, effects =>
    if hasSignalRef signals raw then
      let (stmts, effects') := emitReactive signals id rest (effects + 1)
      (.createEffect effects id :: stmts, effects')
    else emitReactive signals id rest effects

mutual

/-- `emit_jsx_element_full`, with the values of the two counters before and after it. The number
of the element is the first counter before it. -/
def emitJsxElementFull (handlers : List HandlerInfo) (signals : List SignalInfo) :
    JsxElement → Path → Nat → Nat → List CStmt × Nat × Nat
  | .mk tag attributes children, p, ids, effects =>
    let el := JsxElement.mk tag attributes children
    let (stmts, ids', effects') :=
      emitElementChildren handlers signals tag ids children p 0 (ids + 1) effects
    let (reactive, effects'') :=
      if tag = "Text" then emitReactive signals ids children effects' else ([], effects')
    (emitConstructor el ids ++ emitPosition el ids ++ emitClicks handlers p ids 0 attributes ++
      stmts ++ reactive, ids', effects'')

/-- The loop over the children, of which number `i` is the next. -/
def emitElementChildren (handlers : List HandlerInfo) (signals : List SignalInfo)
    (tag : String) (id : Nat) :
    JsxChildren → Path → Nat → Nat → Nat → List CStmt × Nat × Nat
  | .nil, _, _, ids, effects => ([], ids, effects)
  | .element e rest, p, i, ids, effects =>
    let (child, ids', effects') := emitJsxElementFull handlers signals e (i :: p) ids effects
    let (stmts, ids'', effects'') :=
      emitElementChildren handlers signals tag id rest p (i + 1) ids' effects'
    (child ++ emitAppend tag e.tagName id ids ++ stmts, ids'', effects'')
  | .text _ rest, p, i, ids, effects =>
    emitElementChildren handlers signals tag id rest p (i + 1) ids effects
  | .expression _ _ rest, p, i, ids, effects =>
    emitElementChildren handlers signals tag id rest p (i + 1) ids effects

end

/-! ## Effects and handlers -/

/-- The loop of `emit_text_effects` over the children of a text element. -/
def emitTextEffectsOf (signals : List SignalInfo) :
    JsxChildren → Nat → Option (List EffectFn × Nat)
  | .nil, effects => some ([], effects)
  | .element _ rest, effects => emitTextEffectsOf signals rest effects
  | .text _ rest, effects => emitTextEffectsOf signals rest effects
  | .expression _ none rest, effects => emitTextEffectsOf signals rest effects
  | .expression _ (some raw) rest, effects =>
    if hasSignalRef signals raw then do
      let f ← effectFn signals effects raw
      let (fs, effects') ← emitTextEffectsOf signals rest (effects + 1)
      some (f :: fs, effects')
    else emitTextEffectsOf signals rest effects

def emitTextEffects (signals : List SignalInfo) (el : JsxElement) (effects : Nat) :
    Option (List EffectFn × Nat) :=
  if el.tagName = "Text" then emitTextEffectsOf signals el.children effects
  else some ([], effects)

/-- The loop over the children of a root element, which looks no deeper. -/
def emitChildEffects (signals : List SignalInfo) :
    JsxChildren → Nat → Option (List EffectFn × Nat)
  | .nil, effects => some ([], effects)
  | .element e rest, effects => do
    let (fs, effects') ← emitTextEffects signals e effects
    let (gs, effects'') ← emitChildEffects signals rest effects'
    some (fs ++ gs, effects'')
  | .text _ rest, effects => emitChildEffects signals rest effects
  | .expression _ _ rest, effects => emitChildEffects signals rest effects

def maxHandlers : Nat := 64

/-- The handler table of a component and the counter of the file. -/
structure HandlerTable where
  handlers : List HandlerInfo
  handlerIdCounter : Nat

/-- A handler that finds the table full is emitted and not recorded. -/
def HandlerTable.record (t : HandlerTable) (place : Path × Nat) : HandlerTable :=
  { handlers :=
      if t.handlers.length < maxHandlers then t.handlers ++ [⟨place, t.handlerIdCounter⟩]
      else t.handlers
    handlerIdCounter := t.handlerIdCounter + 1 }

/-- The handlers of one element, from its attribute number `i` on. -/
def emitHandlers (signals : List SignalInfo) (p : Path) :
    Nat → List JsxAttribute → HandlerTable → Option (List HandlerFn × HandlerTable)
  | _, [], t => some ([], t)
  | i, a :: rest, t =>
    match a.clickText with
    | none => emitHandlers signals p (i + 1) rest t
    | some raw => do
      let f ← handlerFn signals t.handlerIdCounter raw
      let (fs, t') ← emitHandlers signals p (i + 1) rest (t.record (p, i))
      some (f :: fs, t')

mutual

/-- The handlers of the children come before those of the element itself. -/
def extractAndEmitHandlers (signals : List SignalInfo) :
    JsxElement → Path → HandlerTable → Option (List HandlerFn × HandlerTable)
  | .mk _ attributes children, p, t => do
    let (fs, t') ← extractFromChildren signals children p 0 t
    let (gs, t'') ← emitHandlers signals p 0 attributes t'
    some (fs ++ gs, t'')

def extractFromChildren (signals : List SignalInfo) :
    JsxChildren → Path → Nat → HandlerTable → Option (List HandlerFn × HandlerTable)
  | .nil, _, _, t => some ([], t)
  | .element e rest, p, i, t => do
    let (fs, t') ← extractAndEmitHandlers signals e (i :: p) t
    let (gs, t'') ← extractFromChildren signals rest p (i + 1) t'
    some (fs ++ gs, t'')
  | .text _ rest, p, i, t => extractFromChildren signals rest p (i + 1) t
  | .expression _ _ rest, p, i, t => extractFromChildren signals rest p (i + 1) t

end

/-! ## Files -/

/-- What `parse_and_emit_component` emits for a component, with the counter of handlers before
and after. The table of handlers is emptied for each component. -/
def emitComponent (ci : ComponentInfo) (handlerIds : Nat) : Option (List CDecl × Nat) := do
  let root := ci.rootElement
  let (rootFns, effects) ← emitTextEffects ci.kept root 0
  let (childFns, _) ← emitChildEffects ci.kept root.children effects
  let (handlerFns, table) ← extractAndEmitHandlers ci.kept root [] ⟨[], handlerIds⟩
  let (stmts, _) := emitJsxElementFull table.handlers ci.kept root [] 0 0
  some (ci.kept.map (fun s => .signal s.name) ++ (rootFns ++ childFns).map .effect ++
    handlerFns.map .handler ++
    [.component ci.compName
      (ci.kept.map (fun s => .initSignal s.name s.initText) ++ stmts ++ [.returnRoot])],
    table.handlerIdCounter)

/-- The loop of `jsx_compile_to_c` over the declarations of a file. -/
def emitItems : List JsxItem → Nat → Option (List CDecl)
  | [], _ => some [.main]
  | .component ci :: rest, handlerIds => do
    let (decls, handlerIds') ← emitComponent ci handlerIds
    let others ← emitItems rest handlerIds'
    some (decls ++ others)
  | .boot mounted :: rest, handlerIds => do
    let others ← emitItems rest handlerIds
    some (.boot mounted :: others)

/-- The C file of a component file that parses. -/
def jsxCompileToC (items : List JsxItem) : Option (List CDecl) := emitItems items 0

end Calynda.Jsx
