import Calynda.Jsx.Buffers
import Calynda.Jsx.Sound
import Calynda.Lib.PrintedLiteral

/-!
# Texts on the screen

The text of a `Text` element is pasted into a string literal of C, and that of a template into
the format of an `snprintf` with a buffer of 128 characters. What is shown is what the last of
the emitted calls sets.
-/

namespace Calynda.Jsx

open List CString

/-! ## Running the emitted C -/

def effectBufSize : Nat := 128

/-- What the function of an effect sets the text to, where `eval` gives the values of an argument
list of C. -/
def EffectFn.shown (eval : CText → Option (List Int)) (f : EffectFn) : Option CText := do
  let fmt ← literal f.fmt
  let values ← eval f.args
  let out ← printf fmt values
  some (snprintf effectBufSize out)

/-- The text with which a widget is constructed. -/
def Widget.initialText : Widget → Option CText
  | .textNew text _ _ => literal text
  | _ => none

/-- The text of the widget `id` when the body of a component function has run: the one it is
constructed with, and then those that the effects created for it set. There is none where the C
is no C, as where an effect has no function. -/
def shownBy (eval : CText → Option (List Int)) (fns : List EffectFn) (body : List CStmt)
    (id : Nat) : Option CText := do
  let (_, widget) ← (declared body).find? fun d => d.1 = id
  let initial ← (← widget).initialText
  ((created body).filter fun c => c.2 = id).foldlM (fun _ c => do
    (← fns.find? fun f => f.effectId = c.1).shown eval) initial

/-- The text of the element at a place, from the C of its component. -/
def shownText (eval : CText → Option (List Int)) (ci : ComponentInfo) (n : Nat) (p : Path) :
    Option CText := do
  let (out, _) ← emitComponent ci n
  let (_, body) ← (componentFns out).head?
  shownBy eval (effectFns out) body (varOf ci p)

/-! ## What is written -/

/-- A child as it is written. A template is made of characters and interpolations, as the language
reads them. -/
inductive TextChild where
  | text (s : CText)
  /-- A string expression, with the text between its quotes. -/
  | string (s : CText)
  | template (parts : List Segment)

/-- The text between the backticks of a template. -/
def sourceOf : List Segment → CText
  | [] => []
  | .char c :: rest => c :: sourceOf rest
  | .expr e :: rest => '$' :: leftBrace :: e ++ rightBrace :: sourceOf rest

/-- The text of the child expression; a literal text has none. -/
def TextChild.rawText : TextChild → Option CText
  | .text _ => none
  | .string s => some ('"' :: s ++ ['"'])
  | .template parts => some (backtick :: sourceOf parts ++ [backtick])

def TextChild.children (child : TextChild) : JsxChildren :=
  match child with
  | .text s => .text s .nil
  | .string s => .expression (.string s) child.rawText .nil
  | .template _ => .expression .other child.rawText .nil

/-- How the emitter splits the text behind the first backtick. -/
def segments (s : CText) : List Segment := segmentsOf (s.length + 1) s

/-- The parts of a template with the values of its interpolations; none where one has none. -/
def writtenSegments (value : CText → Option Int) : List Segment → Option CText
  | [] => some []
  | .char c :: rest => (writtenSegments value rest).map (c :: ·)
  | .expr e :: rest =>
    (value e).bind fun v => (writtenSegments value rest).map (decimal v ++ ·)

def Segment.value (value : CText → Option Int) : Segment → Option Int
  | .char _ => none
  | .expr e => value e

/-- The source text with the value of each interpolation in its place, where `value` gives the
values of expressions of the language. -/
def TextChild.written (value : CText → Option Int) : TextChild → Option CText
  | .text s => some s
  | .string s => some s
  | .template parts => writtenSegments value parts

/-- The `Text` element with the child shows the text that is written. -/
def ShownAsWritten (value : CText → Option Int) (eval : CText → Option (List Int))
    (ci : ComponentInfo) (n : Nat) (p : Path) (child : TextChild) : Prop :=
  ∀ w, child.written value = some w → shownText eval ci n p = some w

/-! ## The format and the arguments of a template -/

def fmtOf : List Segment → CText
  | [] => []
  | .char c :: rest => c :: fmtOf rest
  | .expr _ :: rest => '%' :: 'd' :: fmtOf rest

def argsOf (signals : List SignalInfo) : CText → List Segment → CText
  | args, [] => args
  | args, .char _ :: rest => argsOf signals args rest
  | args, .expr e :: rest =>
    argsOf signals (args ++ (if args.isEmpty then [] else [',', ' ']) ++
      (pieces signals e).render) rest

section Templates

variable {signals : List SignalInfo} {value : CText → Option Int}
  {eval : CText → Option (List Int)} {segs : List Segment} {w : CText}

/-- The loop over a template, where its interpolations are rewritten. -/
theorem templateLoop_eq {fuel : Nat} {p fmt args : CText} (hFuel : p.length < fuel)
    (h : ∀ e, Segment.expr e ∈ segmentsOf fuel p → ExprFits signals e ∧
      (pieces signals e).closed = true) :
    templateLoop signals fuel p fmt args =
      some (fmt ++ fmtOf (segmentsOf fuel p), argsOf signals args (segmentsOf fuel p)) := by
  induction fuel generalizing p fmt args with
  | zero => exact absurd hFuel (Nat.not_lt_zero _)
  | succ fuel ih =>
    cases p with
    | nil =>
      rw [templateLoop, segmentsOf, fmtOf, argsOf, append_nil]
    | cons c rest =>
      rw [length_cons] at hFuel
      rw [segmentsOf] at h ⊢
      rw [templateLoop]
      split at h
      case isTrue hEnd =>
        rw [if_pos hEnd, if_pos hEnd, fmtOf, argsOf, append_nil]
      case isFalse hEnd =>
        rw [if_neg hEnd, if_neg hEnd]
        split at h
        case isTrue hOpen =>
          have hTail : rest.tail.length ≤ rest.length := by
            rw [length_tail]
            omega
          have hAfter := length_closeBrace_le 1 rest.tail
          rw [if_pos hOpen, if_pos hOpen, fmtOf, argsOf]
          generalize closeBrace 1 rest.tail = found at h hAfter ⊢
          obtain ⟨expr, after⟩ := found
          obtain ⟨hFits, hClosed⟩ := h _ mem_cons_self
          dsimp only at hFits hClosed hAfter ⊢
          rw [rewriteSignalExpr_eq_some.2 ⟨hFits, hClosed, rfl⟩]
          show templateLoop _ _ _ _ _ = _
          have hShort : after.length < fuel := by
            have hLe : after.length ≤ rest.tail.length := hAfter
            omega
          rw [ih hShort fun e he => h e (mem_cons_of_mem _ he), append_assoc]
          rfl
        case isFalse hOpen =>
          rw [if_neg hOpen, if_neg hOpen, fmtOf, argsOf,
            append_cons fmt c (fmtOf (segmentsOf fuel rest))]
          exact ih (by omega) fun e he => h e (mem_cons_of_mem _ he)

/-- The format of plain characters prints what is written. -/
theorem printf_fmtOf (hChars : ∀ c, Segment.char c ∈ segs → c ≠ '%')
    (hWritten : writtenSegments value segs = some w) :
    printf (fmtOf segs) (segs.filterMap (Segment.value value)) = some w := by
  induction segs generalizing w with
  | nil => exact hWritten
  | cons seg rest ih =>
    have hRest : ∀ c, Segment.char c ∈ rest → c ≠ '%' := fun c hc =>
      hChars c (mem_cons_of_mem seg hc)
    cases seg with
    | char c =>
      obtain ⟨u, hU, rfl⟩ := Option.map_eq_some_iff.1 hWritten
      rw [filterMap_cons_none rfl, fmtOf, printf_char (hChars c mem_cons_self),
        ih hRest hU]
      rfl
    | expr e =>
      obtain ⟨v, hValue, hMap⟩ := Option.bind_eq_some_iff.1 hWritten
      obtain ⟨u, hU, rfl⟩ := Option.map_eq_some_iff.1 hMap
      have hSome : (Segment.expr e).value value = some v := hValue
      rw [filterMap_cons_some hSome, fmtOf, printf_directive, ih hRest hU]
      rfl

theorem unescaped_fmtOf
    (hChars : ∀ c, Segment.char c ∈ segs → c ≠ '"' ∧ c ≠ '\\' ∧ c ≠ '\n') :
    Unescaped (fmtOf segs) := by
  induction segs with
  | nil => exact fun c hc => absurd hc not_mem_nil
  | cons seg rest ih =>
    have hRest := ih fun c hc => hChars c (mem_cons_of_mem seg hc)
    cases seg with
    | char c =>
      intro d hd
      rcases mem_cons.1 hd with rfl | hd
      · exact hChars d mem_cons_self
      · exact hRest d hd
    | expr e =>
      intro d hd
      rcases mem_cons.1 hd with rfl | hd
      · decide
      · rcases mem_cons.1 hd with rfl | hd
        · decide
        · exact hRest d hd

/-- How C evaluates the list of arguments of a call: there is no empty one in front of the
parenthesis, and a comma separates two of them. -/
structure EvaluatesArguments (eval : CText → Option (List Int)) : Prop where
  empty : eval [] = none
  comma : ∀ {args expr : CText} {vs : List Int} {v : Int}, eval args = some vs →
    eval expr = some [v] → eval (args ++ [',', ' '] ++ expr) = some (vs ++ [v])

/-- C gives the rewritten text of an interpolation the value that it has in the language. -/
def KeepsValue (value : CText → Option Int) (eval : CText → Option (List Int))
    (signals : List SignalInfo) (e : CText) : Prop :=
  ∀ v, value e = some v → eval (pieces signals e).render = some [v]

/-- More arguments behind some that are there. -/
theorem eval_argsOf_of_some (hEval : EvaluatesArguments eval)
    (hMeans : ∀ e, Segment.expr e ∈ segs → KeepsValue value eval signals e) {args : CText}
    {vs : List Int} (hArgs : eval args = some vs) (hWritten : writtenSegments value segs = some w) :
    eval (argsOf signals args segs) = some (vs ++ segs.filterMap (Segment.value value)) := by
  induction segs generalizing args vs w with
  | nil => rw [argsOf, filterMap_nil, append_nil, hArgs]
  | cons seg rest ih =>
    have hRest : ∀ e, Segment.expr e ∈ rest → KeepsValue value eval signals e := fun e he =>
      hMeans e (mem_cons_of_mem seg he)
    cases seg with
    | char c =>
      obtain ⟨u, hU, rfl⟩ := Option.map_eq_some_iff.1 hWritten
      rw [filterMap_cons_none rfl]
      exact ih hRest hArgs hU
    | expr e =>
      obtain ⟨v, hValue, hMap⟩ := Option.bind_eq_some_iff.1 hWritten
      obtain ⟨u, hU, rfl⟩ := Option.map_eq_some_iff.1 hMap
      have hEmpty : args.isEmpty = false := by
        cases args with
        | nil =>
          rw [hEval.empty] at hArgs
          exact nomatch hArgs
        | cons => rfl
      have hSome : (Segment.expr e).value value = some v := hValue
      have hNext := hEval.comma hArgs (hMeans e mem_cons_self v hValue)
      rw [filterMap_cons_some hSome, argsOf, hEmpty, if_neg Bool.false_ne_true,
        ih hRest hNext hU, append_assoc]
      rfl

/-- The arguments of a template with an interpolation have the values of its interpolations. -/
theorem eval_argsOf (hEval : EvaluatesArguments eval) (hSome : ∃ e, Segment.expr e ∈ segs)
    (hMeans : ∀ e, Segment.expr e ∈ segs → KeepsValue value eval signals e)
    (hWritten : writtenSegments value segs = some w) :
    eval (argsOf signals [] segs) = some (segs.filterMap (Segment.value value)) := by
  induction segs generalizing w with
  | nil =>
    obtain ⟨e, he⟩ := hSome
    exact absurd he not_mem_nil
  | cons seg rest ih =>
    have hRest : ∀ e, Segment.expr e ∈ rest → KeepsValue value eval signals e := fun e he =>
      hMeans e (mem_cons_of_mem seg he)
    cases seg with
    | char c =>
      obtain ⟨u, hU, rfl⟩ := Option.map_eq_some_iff.1 hWritten
      obtain ⟨e, he⟩ := hSome
      rw [filterMap_cons_none rfl]
      exact ih ⟨e, (mem_cons.1 he).resolve_left nofun⟩ hRest hU
    | expr e =>
      obtain ⟨v, hValue, hMap⟩ := Option.bind_eq_some_iff.1 hWritten
      obtain ⟨u, hU, rfl⟩ := Option.map_eq_some_iff.1 hMap
      have hFirst : (Segment.expr e).value value = some v := hValue
      rw [filterMap_cons_some hFirst, argsOf]
      exact eval_argsOf_of_some hEval hRest (hMeans e mem_cons_self v hValue) hU

end Templates

/-! ## The effects of a text -/

/-- The reactive expressions of a component stand in its root or in children of the root, and a root
that is a text has no elements in it. -/
structure Near (ci : ComponentInfo) : Prop where
  reactive : ∀ o ∈ ci.elements.flatMap (reactivesAt ci.kept), o.owner.length ≤ 1
  root : ci.rootElement.tagName = "Text" → ci.rootElement.children.elements 0 = []

section Effects

variable {ci : ComponentInfo} {n : Nat} {p : Path} {el : JsxElement}
  {eval : CText → Option (List Int)} {o : Part CText}

theorem exists_element_of_reactive (ho : o ∈ ci.elements.flatMap (reactivesAt ci.kept)) :
    ∃ x ∈ ci.elements, x.1 = o.owner ∧ o ∈ reactivesAt ci.kept x := by
  obtain ⟨x, hx, hox⟩ := mem_flatMap.1 ho
  exact ⟨x, hx, (owner_of_mem_reactivesAt hox).symm, hox⟩

/-- The effects created for an element are those of its own reactive expressions. -/
theorem mem_own_reactives (hMem : (p, el) ∈ ci.elements)
    (ho : o ∈ ci.elements.flatMap (reactivesAt ci.kept)) (hVar : varOf ci o.owner = varOf ci p) :
    o ∈ reactivesAt ci.kept (p, el) := by
  obtain ⟨x, hx, hOwner, hox⟩ := exists_element_of_reactive ho
  rw [← hOwner] at hVar
  exact eq_of_varOf_eq hx hMem hVar ▸ hox

theorem mem_creationOrder :
    o ∈ ci.rootElement.creationOrder ci.kept [] ↔
      o ∈ ci.elements.flatMap (reactivesAt ci.kept) :=
  (JsxElement.creationOrder_perm ci.kept ci.rootElement []).mem_iff

theorem created_of_no_reactive (hMem : (p, el) ∈ ci.elements)
    (hNone : reactivesAt ci.kept (p, el) = []) :
    (created (componentBody ci n)).filter (fun c => c.2 = varOf ci p) = [] := by
  rw [created_body, filter_eq_nil_iff]
  intro c hc hEq
  obtain ⟨⟨o, k⟩, hk, rfl⟩ := mem_map.1 hc
  have ho := mem_creationOrder.1 (fst_mem_of_mem_zipIdx hk)
  have hOwn := mem_own_reactives hMem ho (of_decide_eq_true hEq)
  rw [hNone] at hOwn
  exact not_mem_nil hOwn

/-- One reactive expression gives one effect, with the number of its place in the order. -/
theorem created_of_reactive (hMem : (p, el) ∈ ci.elements)
    (hOne : reactivesAt ci.kept (p, el) = [o]) :
    ∃ k, (ci.rootElement.creationOrder ci.kept [])[k]? = some o ∧
      (created (componentBody ci n)).filter (fun c => c.2 = varOf ci p) = [(k, varOf ci p)] := by
  have hOwn : o ∈ reactivesAt ci.kept (p, el) := by
    rw [hOne]
    exact mem_singleton_self o
  have hOwner : o.owner = p := owner_of_mem_reactivesAt hOwn
  have hIn : o ∈ ci.rootElement.creationOrder ci.kept [] :=
    mem_creationOrder.2 (mem_flatMap.2 ⟨_, hMem, hOwn⟩)
  have hNodup : (ci.rootElement.creationOrder ci.kept []).Nodup := by
    refine List.Nodup.of_map Part.place ?_
    rw [((JsxElement.creationOrder_perm ci.kept ci.rootElement []).map Part.place).nodup_iff]
    exact nodup_reactivesAt ci ci.kept
  obtain ⟨k, hk, hGet⟩ := mem_iff_getElem.1 hIn
  refine ⟨k, by rw [List.getElem?_eq_getElem hk, hGet], ?_⟩
  have hKeys : (((ci.rootElement.creationOrder ci.kept []).zipIdx 0).map fun x => x.2).Nodup :=
    nodup_snd_zipIdx _ _
  have hPair : (o, k) ∈ (ci.rootElement.creationOrder ci.kept []).zipIdx 0 := by
    rw [mem_zipIdx_iff_getElem?, List.getElem?_eq_getElem hk, hGet]
  rw [created_body, filter_map]
  have hFilter : ((ci.rootElement.creationOrder ci.kept []).zipIdx 0).filter
      ((fun c : Nat × Nat => decide (c.2 = varOf ci p)) ∘ fun x => (x.2, varOf ci x.1.owner)) =
      [(o, k)] := by
    rw [← filter_eq_singleton hKeys hPair]
    refine filter_congr fun x hx => ?_
    refine decide_eq_decide.2 ⟨fun hVar => ?_, fun hIndex => ?_⟩
    · have hx' : x.1 ∈ reactivesAt ci.kept (p, el) :=
        mem_own_reactives hMem (mem_creationOrder.1 (fst_mem_of_mem_zipIdx hx)) hVar
      rw [hOne, mem_singleton] at hx'
      have hGet' := mem_zipIdx_iff_getElem?.1 hx
      obtain ⟨hk', hGet'⟩ := List.getElem?_eq_some_iff.1 hGet'
      exact (hNodup.getElem_inj_iff).1 (hGet'.trans (hx'.trans hGet.symm))
    · have hGet' := mem_zipIdx_iff_getElem?.1 hx
      rw [hIndex] at hGet'
      obtain rfl : x.1 = o := by
        rw [List.getElem?_eq_getElem hk, hGet] at hGet'
        exact (Option.some.inj hGet').symm
      exact congrArg (varOf ci) hOwner
  rw [hFilter, map_singleton, hOwner]

end Effects

/-! ## Texts that are shown as they are written -/

/-- The children that the emitted C shows. A text has no quote, backslash or newline in it, and a
string no name of a signal either. A template has an interpolation and the name of a signal, no
percent sign, is split by the emitter as the language reads it, and fits into the three buffers
that it goes through; the rewriting keeps the values of its interpolations, and no reactive
expression of the component stands deeper than the functions for them are emitted. -/
inductive Plain (value : CText → Option Int) (eval : CText → Option (List Int))
    (ci : ComponentInfo) : TextChild → Prop
  | text {s : CText} (h : Unescaped s) : Plain value eval ci (.text s)
  | string {s : CText} (h : Unescaped s) (hRef : hasSignalRef ci.kept ('"' :: s ++ ['"']) = false) :
      Plain value eval ci (.string s)
  | template {parts : List Segment} (hNear : Near ci)
      (hRef : hasSignalRef ci.kept (backtick :: sourceOf parts ++ [backtick]) = true)
      (hSplit : segments (sourceOf parts ++ [backtick]) = parts)
      (hSome : ∃ e, Segment.expr e ∈ parts)
      (hMeans : ∀ e, Segment.expr e ∈ parts → KeepsValue value eval ci.kept e)
      (hChars : ∀ c, Segment.char c ∈ parts → c ≠ '"' ∧ c ≠ '\\' ∧ c ≠ '\n')
      (hPercent : ∀ c, Segment.char c ∈ parts → c ≠ '%')
      (hExprs : ∀ e, Segment.expr e ∈ parts → ExprFits ci.kept e ∧
        (pieces ci.kept e).closed = true)
      (hFmt : (fmtOf parts).length < fmtSize)
      (hArgs : (argsOf ci.kept [] parts).length < argsSize)
      (hBuf : ∀ w, writtenSegments value parts = some w → w.length < effectBufSize) :
      Plain value eval ci (.template parts)
  | empty (hRef : hasSignalRef ci.kept [backtick, backtick] = false) :
      Plain value eval ci (.template [])

/-- The names of signals are identifiers, which have no quotes in them and are no numbers. -/
def NamesAreIdentifiers (signals : List SignalInfo) : Prop :=
  ∀ s ∈ signals, '"' ∉ s.name ∧ ∃ c ∈ s.name, c.isDigit = false ∧ c ≠ '-'

section Shown

variable {value : CText → Option Int} {eval : CText → Option (List Int)} {ci : ComponentInfo}
  {n : Nat} {p : Path} {attributes : List JsxAttribute} {child : TextChild} {s w : CText}

/-- The text of an element, from the effect functions of its component. -/
theorem shownText_eq {el : JsxElement} (hMem : (p, el) ∈ ci.elements) {widget : Widget}
    (hWidget : widgetOf el = some widget) (hEmitted : (emitComponent ci n).isSome) :
    ∃ fns, FunctionsOf (effectFn ci.kept) (walkOrder ci.kept ci.rootElement) 0 fns ∧
      shownText eval ci n p = widget.initialText.bind fun initial =>
        ((created (componentBody ci n)).filter fun c => c.2 = varOf ci p).foldlM (fun _ c =>
          (fns.find? fun f => f.effectId = c.1).bind fun f => f.shown eval) initial := by
  obtain ⟨⟨decls, n'⟩, hEmit⟩ := Option.isSome_iff_exists.1 hEmitted
  obtain ⟨fns, handlers, hFns, -, -, hDecls⟩ := emitComponent_spec hEmit
  obtain ⟨hEffects, -, hComponents, -⟩ :=
    kinds_component ci fns handlers (componentBody ci n) []
  rw [append_nil, ← hDecls] at hEffects hComponents
  refine ⟨fns, hFns, ?_⟩
  obtain ⟨w, hw, hFilter⟩ := constructed_of_known (n := n) hMem (by rw [hWidget]; rfl)
  obtain rfl : widget = w := Option.some.inj (hWidget.symm.trans hw)
  have hFind : (declared (componentBody ci n)).find? (fun d => d.1 = varOf ci p) =
      some (varOf ci p, some widget) := by
    rw [← head?_filter, hFilter]
    rfl
  have hFns' : effectFns decls = fns := hEffects.trans (append_nil _)
  rw [shownText, hEmit]
  show ((componentFns decls).head?.bind fun c => shownBy eval (effectFns decls) c.2 _) = _
  rw [hComponents, hFns']
  show shownBy eval fns (componentBody ci n) _ = _
  rw [shownBy, hFind]
  rfl

theorem emitted_of_shown (h : shownText eval ci n p = some w) : (emitComponent ci n).isSome := by
  cases hEmit : emitComponent ci n with
  | none =>
    rw [shownText, hEmit] at h
    exact nomatch h
  | some out => rfl

theorem widgetOf_text (attributes : List JsxAttribute) (child : TextChild) :
    ∃ widget, widgetOf (.mk "Text" attributes child.children) = some widget ∧
      widget.initialText = literal (firstText child.children) := ⟨_, rfl, rfl⟩

/-- Without a reactive expression the first text stays. -/
theorem shownText_of_no_reactive (hMem : (p, .mk "Text" attributes child.children) ∈ ci.elements)
    (hNone : reactivesAt ci.kept (p, .mk "Text" attributes child.children) = [])
    (hEmitted : (emitComponent ci n).isSome) :
    shownText eval ci n p = literal (firstText child.children) := by
  obtain ⟨widget, hWidget, hInitial⟩ := widgetOf_text attributes child
  obtain ⟨fns, -, (hShown : shownText eval _ _ _ = _)⟩ := shownText_eq hMem hWidget hEmitted
  rw [hShown, hInitial, created_of_no_reactive hMem hNone]
  cases literal (firstText child.children) <;> rfl

/-- With one, near the root, its function sets the text. -/
theorem shownText_of_reactive (hNear : Near ci)
    (hMem : (p, .mk "Text" attributes child.children) ∈ ci.elements) {o : Part CText}
    (hOne : reactivesAt ci.kept (p, .mk "Text" attributes child.children) = [o])
    (hEmitted : (emitComponent ci n).isSome) :
    ∃ k f, effectFn ci.kept k o.content = some f ∧
      shownText eval ci n p =
        (literal (firstText child.children)).bind fun _ => f.shown eval := by
  obtain ⟨widget, hWidget, hInitial⟩ := widgetOf_text attributes child
  obtain ⟨fns, hFns, (hShown : shownText eval _ _ _ = _)⟩ :=
    shownText_eq hMem hWidget hEmitted
  obtain ⟨k, hk, hCreated⟩ := created_of_reactive (n := n) hMem hOne
  have hOrder : ci.rootElement.creationOrder ci.kept [] = walkOrder ci.kept ci.rootElement :=
    creationOrder_eq_walkOrder ci.kept ci.rootElement
      (fun o ho => hNear.reactive o (mem_creationOrder.1 ho)) hNear.root
  rw [hOrder] at hk
  obtain ⟨f, hf, hFn⟩ := hFns.get hk
  rw [Nat.zero_add] at hFn
  have hIds : (fns.map EffectFn.effectId).Nodup := by
    rw [hFns.map_number fun _ _ _ => effectFn_id]
    exact nodup_range'
  have hFind : fns.find? (fun g => g.effectId = k) = some f := by
    rw [← effectFn_id hFn]
    exact find?_key hIds hf
  refine ⟨k, f, hFn, ?_⟩
  rw [hShown, hInitial, hCreated]
  cases literal (firstText child.children) with
  | none => rfl
  | some initial =>
    show ((fns.find? fun g => g.effectId = k).bind fun g => g.shown eval).bind some = _
    rw [hFind]
    show (f.shown eval).bind some = f.shown eval
    cases f.shown eval <;> rfl

theorem reactivesAt_text :
    reactivesAt ci.kept (p, .mk "Text" attributes (TextChild.text s).children) = [] := rfl

theorem reactivesAt_raw {raw : CText} (hRaw : child.rawText = some raw) :
    reactivesAt ci.kept (p, .mk "Text" attributes child.children) =
      if hasSignalRef ci.kept raw = true then [⟨p, 0, raw⟩] else [] := by
  have hTexts : child.children.texts 0 = [(0, raw)] := by
    cases child with
    | text s => exact nomatch hRaw
    | string s | template parts =>
      cases hRaw
      rfl
  have hTag : (JsxElement.mk "Text" attributes child.children).tagName = "Text" := rfl
  rw [reactivesAt, if_pos hTag]
  show ((child.children.texts 0).filter _).map _ = _
  rw [hTexts, filter_cons]
  split <;> rfl

/-- A literal text is shown as it is exactly where nothing in it is special. -/
theorem shown_text_iff
    (hMem : (p, .mk "Text" attributes (TextChild.text s).children) ∈ ci.elements) :
    ShownAsWritten value eval ci n p (.text s) ↔
      (emitComponent ci n).isSome ∧ Plain value eval ci (.text s) := by
  constructor
  · intro h
    have hEmitted := emitted_of_shown (h s rfl)
    have hShown := h s rfl
    rw [shownText_of_no_reactive hMem reactivesAt_text hEmitted] at hShown
    exact ⟨hEmitted, .text (literal_eq_self_iff.1 hShown)⟩
  · rintro ⟨hEmitted, h | _ | _ | _⟩ w ⟨⟩
    rw [shownText_of_no_reactive hMem reactivesAt_text hEmitted]
    exact literal_eq_self_iff.2 h

/-- A string that mentions no signal is shown as a literal text is. -/
theorem shown_string_iff
    (hMem : (p, .mk "Text" attributes (TextChild.string s).children) ∈ ci.elements)
    (hRef : hasSignalRef ci.kept ('"' :: s ++ ['"']) = false) :
    ShownAsWritten value eval ci n p (.string s) ↔
      (emitComponent ci n).isSome ∧ Plain value eval ci (.string s) := by
  have hNone : reactivesAt ci.kept (p, .mk "Text" attributes (TextChild.string s).children) = [] := by
    rw [reactivesAt_raw rfl, hRef]
    rfl
  constructor
  · intro h
    have hEmitted := emitted_of_shown (h s rfl)
    have hShown := h s rfl
    rw [shownText_of_no_reactive hMem hNone hEmitted] at hShown
    exact ⟨hEmitted, .string (literal_eq_self_iff.1 hShown) hRef⟩
  · rintro ⟨hEmitted, _ | ⟨h, -⟩ | _ | _⟩ w ⟨⟩
    rw [shownText_of_no_reactive hMem hNone hEmitted]
    exact literal_eq_self_iff.2 h

theorem mem_decimal {v : Int} {c : Char} (h : c ∈ decimal v) : c.isDigit = true ∨ c = '-' := by
  have hDigits : c ∈ Nat.toDigits 10 v.natAbs → c.isDigit = true :=
    Nat.isDigit_of_mem_toDigits (by decide) (by decide)
  unfold decimal at h
  split at h
  · exact (mem_cons.1 h).symm.imp_left hDigits
  · exact Or.inl (hDigits h)

/-- What the effect of a string sets is a number. -/
theorem shown_of_string_effect {k : Nat} {f : EffectFn}
    (hf : effectFn ci.kept k ('"' :: s ++ ['"']) = some f) (hShown : f.shown eval = some w) :
    ∀ c ∈ w, c.isDigit = true ∨ c = '-' := by
  have hFmt : f.fmt = ['%', 'd'] := by
    have hHead : ('"' :: s ++ ['"']).head? ≠ some backtick := fun h =>
      absurd (Option.some.inj h) (by decide)
    rw [effectFn, if_neg hHead] at hf
    obtain ⟨rewritten, -, hFn⟩ := Option.bind_eq_some_iff.1 hf
    cases hFn
    rfl
  have hLiteral : literal f.fmt = some ['%', 'd'] := by
    rw [hFmt]
    rfl
  rw [EffectFn.shown, hLiteral] at hShown
  obtain ⟨fmt, hFmtEq, hRest⟩ := Option.bind_eq_some_iff.1 hShown
  cases hFmtEq
  obtain ⟨values, -, hPrint⟩ := Option.bind_eq_some_iff.1 hRest
  obtain ⟨out, hOut, hEq⟩ := Option.bind_eq_some_iff.1 hPrint
  intro c hc
  cases values with
  | nil => exact nomatch hOut
  | cons v vs =>
    have hDecimal : out = decimal v ++ [] := (Option.some.inj hOut).symm
    obtain rfl : snprintf effectBufSize out = w := Option.some.inj hEq
    have hMem := mem_of_mem_take hc
    rw [hDecimal, append_nil] at hMem
    exact mem_decimal hMem

/-- A string that mentions a signal is never shown: its effect sets the text to a number, and no
number mentions a signal. -/
theorem not_shown_string_of_ref (hNames : NamesAreIdentifiers ci.kept) (hNear : Near ci)
    (hMem : (p, .mk "Text" attributes (TextChild.string s).children) ∈ ci.elements)
    (hRef : hasSignalRef ci.kept ('"' :: s ++ ['"']) = true) :
    ¬ ShownAsWritten value eval ci n p (.string s) := by
  intro h
  have hOne : reactivesAt ci.kept (p, .mk "Text" attributes (TextChild.string s).children) =
      [⟨p, 0, '"' :: s ++ ['"']⟩] := by
    rw [reactivesAt_raw rfl, hRef]
    rfl
  obtain ⟨k, f, hf, (hShown : shownText eval _ _ _ = _)⟩ := shownText_of_reactive hNear hMem hOne
    (emitted_of_shown (h s rfl))
  rw [h s rfl] at hShown
  obtain ⟨initial, -, hEffect⟩ := Option.bind_eq_some_iff.1 hShown.symm
  have hNumber := shown_of_string_effect hf hEffect
  obtain ⟨signal, hSignal, hFound⟩ := any_eq_true.1 hRef
  obtain ⟨rest, hRest, hPrefix⟩ := any_eq_true.1 hFound
  obtain ⟨hQuote, c, hc, hDigit, hMinus⟩ := hNames signal hSignal
  have hIn : c ∈ '"' :: s ++ ['"'] :=
    ((mem_tails _ _).1 hRest).subset ((List.isPrefixOf_iff_prefix.1 hPrefix).subset hc)
  have hNot : c ≠ '"' := fun hEq => hQuote (hEq ▸ hc)
  have hText : c ∈ s := by
    simpa [hNot] using hIn
  rcases hNumber c hText with hYes | hYes
  · rw [hDigit] at hYes
    exact nomatch hYes
  · exact hMinus hYes

/-- The function of a template that fits. -/
theorem effectFn_template {parts : List Segment} (eid : Nat)
    (hSplit : segments (sourceOf parts ++ [backtick]) = parts)
    (hExprs : ∀ e, Segment.expr e ∈ parts → ExprFits ci.kept e ∧ (pieces ci.kept e).closed = true)
    (hFmt : (fmtOf parts).length < fmtSize) (hArgs : (argsOf ci.kept [] parts).length < argsSize) :
    effectFn ci.kept eid (backtick :: sourceOf parts ++ [backtick]) =
      some ⟨eid, fmtOf parts, argsOf ci.kept [] parts⟩ := by
  have hExprs' : ∀ e, Segment.expr e ∈ segments (sourceOf parts ++ [backtick]) →
      ExprFits ci.kept e ∧ (pieces ci.kept e).closed = true := by
    rwa [hSplit]
  rw [cons_append, effectFn, head?_cons, if_pos rfl, length_cons, tail_cons,
    templateLoop_eq (Nat.lt_succ_self _) hExprs']
  have hParts : segmentsOf ((sourceOf parts ++ [backtick]).length + 1)
      (sourceOf parts ++ [backtick]) = parts := hSplit
  rw [hParts]
  exact if_pos ⟨hFmt, hArgs⟩

/-- A plain template is shown with the values in it. -/
theorem shown_template (hEval : EvaluatesArguments eval) {parts : List Segment}
    (hMem : (p, .mk "Text" attributes (TextChild.template parts).children) ∈ ci.elements)
    (hEmitted : (emitComponent ci n).isSome) (h : Plain value eval ci (.template parts)) :
    ShownAsWritten value eval ci n p (.template parts) := by
  intro w hWritten
  cases h with
  | empty hRef =>
    have hNone : reactivesAt ci.kept (p, .mk "Text" attributes (TextChild.template []).children) =
        [] := by
      rw [reactivesAt_raw rfl]
      exact if_neg (by rw [sourceOf, cons_append, nil_append, hRef]; decide)
    cases hWritten
    exact shownText_of_no_reactive hMem hNone hEmitted
  | template hNear hRef hSplit hSome hMeans hChars hPercent hExprs hFmt hArgs hBuf =>
    have hOne : reactivesAt ci.kept
        (p, .mk "Text" attributes (TextChild.template parts).children) =
        [⟨p, 0, backtick :: sourceOf parts ++ [backtick]⟩] := by
      rw [reactivesAt_raw rfl]
      exact if_pos hRef
    obtain ⟨k, f, hf, (hShown : shownText eval _ _ _ = _)⟩ :=
      shownText_of_reactive hNear hMem hOne hEmitted
    obtain rfl : _ = f := Option.some.inj ((effectFn_template k hSplit hExprs hFmt hArgs).symm.trans hf)
    have hOut : printf (fmtOf parts) (parts.filterMap (Segment.value value)) = some w :=
      printf_fmtOf hPercent hWritten
    rw [hShown]
    show EffectFn.shown eval _ = some w
    rw [EffectFn.shown, literal_eq_self_iff.2 (unescaped_fmtOf hChars),
      eval_argsOf hEval hSome hMeans hWritten]
    show (printf _ _).bind _ = _
    rw [hOut]
    exact congrArg some (snprintf_of_lt (hBuf w hWritten))

end Shown

/-! ## A template with one signal -/

/-- The value of an argument that reads a signal with the value five. -/
def readOfA (arg : CText) : Option Int :=
  if arg.dropWhile (· = ' ') = getterText ['a'] then some 5 else none

/-- The values of arguments that are all reads of the signal. -/
def evalReads (args : CText) : Option (List Int) := (args.splitOn ',').mapM readOfA

theorem evaluatesArguments_evalReads : EvaluatesArguments evalReads where
  empty := by decide
  comma := by
    intro args expr vs v hArgs hExpr
    have hBlank : evalReads (' ' :: expr) = evalReads expr := by
      rw [evalReads, evalReads, splitOn_cons_eq_if_modifyHead, if_neg (by decide)]
      cases expr.splitOn ',' with
      | nil => rfl
      | cons e es => rfl
    rw [append_assoc, evalReads]
    show ((args ++ ',' :: (' ' :: expr)).splitOn ',').mapM readOfA = _
    rw [splitOn_append_cons_self, mapM_append, ← evalReads, ← evalReads, hBlank, hArgs,
      hExpr]
    rfl

/-- The value of `a()` where the signal is five. -/
def valueOfA (e : CText) : Option Int := if e = "a()".toList then some 5 else none

/-- A window with one text in it. -/
def windowOf (child : TextChild) : ComponentInfo where
  compName := "Main".toList
  signals := aSignal
  rootElement := .mk "Window" [] (.element (.mk "Text" [] child.children) .nil)

theorem mem_windowOf (child : TextChild) :
    ([0], .mk "Text" [] child.children) ∈ (windowOf child).elements :=
  mem_cons_of_mem _ mem_cons_self

def nParts : List Segment :=
  [.char 'n', .char ' ', .char '=', .char ' ', .expr "a()".toList]

theorem plain_nParts : Plain valueOfA evalReads (windowOf (.template nParts)) (.template nParts) := by
  have hChars : ∀ c, Segment.char c ∈ nParts → c = 'n' ∨ c = ' ' ∨ c = '=' := by
    intro c hc
    simp only [nParts, mem_cons, Segment.char.injEq, not_mem_nil, reduceCtorEq,
      or_false] at hc
    tauto
  have hExprs : ∀ e, Segment.expr e ∈ nParts → e = "a()".toList := by
    intro e he
    simpa [nParts] using he
  refine .template ⟨by decide, fun h => absurd h (by decide)⟩ (by decide) rfl
    ⟨"a()".toList, by simp [nParts]⟩ ?_ ?_ ?_ ?_ (by decide) (by decide) ?_
  · rintro e he v hv
    obtain rfl := hExprs e he
    obtain rfl : 5 = v := Option.some.inj hv
    decide
  · intro c hc
    rcases hChars c hc with rfl | rfl | rfl <;> decide
  · intro c hc
    rcases hChars c hc with rfl | rfl | rfl <;> decide
  · intro e he
    exact hExprs e he ▸ ⟨trivial, rfl⟩
  · intro w hw
    obtain rfl : "n = 5".toList = w := Option.some.inj hw
    decide

theorem namesAreIdentifiers_windowOf (child : TextChild) :
    NamesAreIdentifiers (windowOf child).kept := by
  intro s hs
  have hName : s = ⟨['a'], ['0']⟩ := mem_singleton.1 hs
  exact hName ▸ ⟨by decide, 'a', by decide, by decide, by decide⟩

end Calynda.Jsx
