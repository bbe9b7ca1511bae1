import Calynda.Jsx.Trees
import Mathlib.Data.List.Forall2

/-!
# Effect functions and handlers

The functions that the first two walks emit, numbered in the order of each walk, and the table of
handlers that the second one leaves to the third.
-/

namespace Calynda.Jsx

/-! ## Numbered functions -/

/-- The functions of the parts, numbered from `n` on. -/
def FunctionsOf {F : Type} (make : Nat → CText → Option F) (parts : List (Part CText)) (n : Nat)
    (fs : List F) : Prop :=
  List.Forall₂ (fun x f => make x.2 x.1.content = some f) (parts.zipIdx n) fs

section FunctionsOf

variable {F : Type} {make : Nat → CText → Option F} {a b : List (Part CText)} {n : Nat}
  {fs gs : List F}

theorem FunctionsOf.nil : FunctionsOf make [] n [] := List.Forall₂.nil

theorem FunctionsOf.cons {o : Part CText} {f : F} (hf : make n o.content = some f)
    (h : FunctionsOf make a (n + 1) fs) : FunctionsOf make (o :: a) n (f :: fs) :=
  List.Forall₂.cons hf h

theorem FunctionsOf.append (ha : FunctionsOf make a n fs)
    (hb : FunctionsOf make b (n + a.length) gs) : FunctionsOf make (a ++ b) n (fs ++ gs) := by
  unfold FunctionsOf
  rw [List.zipIdx_append]
  exact List.rel_append ha hb

theorem FunctionsOf.length_eq (h : FunctionsOf make a n fs) : fs.length = a.length := by
  rw [← List.Forall₂.length_eq h, List.length_zipIdx]

/-- The function of the part number `k`. -/
theorem FunctionsOf.get (h : FunctionsOf make a n fs) {k : Nat} {o : Part CText}
    (hk : a[k]? = some o) : ∃ f ∈ fs, make (n + k) o.content = some f := by
  obtain ⟨hLt, hGet⟩ := List.getElem?_eq_some_iff.mp hk
  have hLt' : k < fs.length := by rw [h.length_eq]; exact hLt
  have hRel := (List.forall₂_iff_get.mp h).2 k (by simpa using hLt) hLt'
  refine ⟨fs[k], List.getElem_mem hLt', ?_⟩
  simpa [hGet] using hRel

/-- Functions whose numbers are what they are made with have the numbers of a range. -/
theorem FunctionsOf.map_number (h : FunctionsOf make a n fs) {number : F → Nat}
    (hNumber : ∀ n raw f, make n raw = some f → number f = n) :
    fs.map number = List.range' n a.length := by
  induction a generalizing n fs with
  | nil =>
    cases h
    rfl
  | cons o a ih =>
    cases h with
    | cons hf h => rw [List.map_cons, List.length_cons, List.range'_succ, hNumber _ _ _ hf, ih h]

end FunctionsOf

/-! ## Effects -/

section Effects

variable {signals : List SignalInfo} {fs : List EffectFn} {effects effects' : Nat}

/-- The numbers that a walk over `parts` hands out. -/
def EffectsOf (signals : List SignalInfo) (parts : List (Part CText)) (effects : Nat)
    (r : List EffectFn × Nat) : Prop :=
  FunctionsOf (effectFn signals) parts effects r.1 ∧ r.2 = effects + parts.length

theorem emitTextEffectsOf_spec (p : Path) (cs : JsxChildren) (i : Nat) {r : List EffectFn × Nat}
    (h : emitTextEffectsOf signals cs effects = some r) :
    EffectsOf signals (ownReactives p signals cs i) effects r := by
  induction cs using JsxChildren.induction generalizing i effects r with
  | nil =>
    cases h
    exact ⟨.nil, rfl⟩
  | element e rest ih => exact ih (i + 1) h
  | text s rest ih => exact ih (i + 1) h
  | expression e rawText rest ih =>
    cases rawText with
    | none => exact ih (i + 1) h
    | some raw =>
      simp only [emitTextEffectsOf] at h
      simp only [ownReactives, JsxChildren.texts, List.filter_cons]
      split at h
      · rename_i hRef
        simp only [Option.bind_eq_bind, Option.bind_eq_some_iff] at h
        obtain ⟨f, hf, ⟨gs, effects'⟩, hRest, h⟩ := h
        cases h
        obtain ⟨hFns, hCount⟩ := ih (i + 1) hRest
        rw [if_pos hRef]
        refine ⟨.cons hf hFns, ?_⟩
        change effects' = _ at hCount
        change effects' = _
        rw [hCount, List.map_cons, List.length_cons, ownReactives]
        omega
      · rename_i hRef
        rw [if_neg hRef]
        exact ih (i + 1) h

theorem emitTextEffects_spec (p : Path) (el : JsxElement) {r : List EffectFn × Nat}
    (h : emitTextEffects signals el effects = some r) :
    EffectsOf signals (reactivesAt signals (p, el)) effects r := by
  unfold emitTextEffects at h
  unfold reactivesAt
  split at h
  · rename_i hTag
    rw [if_pos hTag]
    exact emitTextEffectsOf_spec p el.children 0 h
  · rename_i hTag
    cases h
    rw [if_neg hTag]
    exact ⟨.nil, rfl⟩

theorem emitChildEffects_spec (p : Path) (cs : JsxChildren) (i : Nat) {r : List EffectFn × Nat}
    (h : emitChildEffects signals cs effects = some r) :
    EffectsOf signals ((cs.elements i).flatMap fun c => reactivesAt signals (c.1 :: p, c.2))
      effects r := by
  induction cs using JsxChildren.induction generalizing i effects r with
  | nil =>
    cases h
    exact ⟨.nil, rfl⟩
  | element e rest ih =>
    simp only [emitChildEffects, Option.bind_eq_bind, Option.bind_eq_some_iff] at h
    obtain ⟨⟨gs, effects'⟩, hOwn, ⟨gs', effects''⟩, hRest, h⟩ := h
    cases h
    obtain ⟨hFns, hCount⟩ := emitTextEffects_spec (i :: p) e hOwn
    obtain ⟨hFns', hCount'⟩ := ih (i + 1) hRest
    change effects' = _ at hCount
    change effects'' = _ at hCount'
    subst hCount
    refine ⟨hFns.append hFns', ?_⟩
    change effects'' = _
    rw [hCount', JsxChildren.elements, List.flatMap_cons, List.length_append, Nat.add_assoc]
  | text s rest ih => exact ih (i + 1) h
  | expression e rawText rest ih => exact ih (i + 1) h

/-- The reactive expressions in the order in which their functions are emitted. -/
def walkOrder (signals : List SignalInfo) (root : JsxElement) : List (Part CText) :=
  reactivesAt signals ([], root) ++
    (root.children.elements 0).flatMap fun c => reactivesAt signals ([c.1], c.2)

theorem effects_spec {root : JsxElement} {r r' : List EffectFn × Nat}
    (h : emitTextEffects signals root 0 = some r)
    (h' : emitChildEffects signals root.children r.2 = some r') :
    FunctionsOf (effectFn signals) (walkOrder signals root) 0 (r.1 ++ r'.1) := by
  obtain ⟨hFns, hCount⟩ := emitTextEffects_spec [] root h
  obtain ⟨hFns', -⟩ := emitChildEffects_spec [] root.children 0 h'
  rw [hCount] at hFns'
  exact hFns.append hFns'

end Effects

/-! ## Handlers -/

section Handlers

variable {signals : List SignalInfo}

/-- The click handlers of one element, from its attribute number `i` on. -/
def ownClicks (p : Path) (attributes : List JsxAttribute) (i : Nat) : List (Part CText) :=
  (attributes.zipIdx i).filterMap fun a => a.1.clickText.map fun raw => ⟨p, a.2, raw⟩

mutual

/-- The click handlers in the order in which their functions are emitted. -/
def JsxElement.handlerOrder : JsxElement → Path → List (Part CText)
  | .mk _ attributes children, p => children.handlerOrder p 0 ++ ownClicks p attributes 0

def JsxChildren.handlerOrder : JsxChildren → Path → Nat → List (Part CText)
  | .nil, _, _ => []
  | .element e rest, p, i => e.handlerOrder (i :: p) ++ rest.handlerOrder p (i + 1)
  | .text _ rest, p, i => rest.handlerOrder p (i + 1)
  | .expression _ _ rest, p, i => rest.handlerOrder p (i + 1)

end

def HandlerTable.recordAll (t : HandlerTable) (parts : List (Part CText)) : HandlerTable :=
  parts.foldl (fun t o => t.record o.place) t

theorem counter_recordAll (t : HandlerTable) (parts : List (Part CText)) :
    (t.recordAll parts).handlerIdCounter = t.handlerIdCounter + parts.length := by
  induction parts generalizing t with
  | nil => rfl
  | cons o parts ih =>
    have hNext : (t.record o.place).handlerIdCounter = t.handlerIdCounter + 1 := rfl
    rw [HandlerTable.recordAll, List.foldl_cons, ← HandlerTable.recordAll, ih, List.length_cons,
      hNext]
    omega

/-- The entries that the parts would have in a table without an end. -/
def entriesOf (parts : List (Part CText)) (n : Nat) : List HandlerInfo :=
  (parts.zipIdx n).map fun x => ⟨x.1.place, x.2⟩

theorem handlers_recordAll (t : HandlerTable) (parts : List (Part CText))
    (ht : t.handlers.length ≤ maxHandlers) :
    (t.recordAll parts).handlers =
      (t.handlers ++ entriesOf parts t.handlerIdCounter).take maxHandlers := by
  induction parts generalizing t with
  | nil => simp [HandlerTable.recordAll, entriesOf, List.take_of_length_le ht]
  | cons o parts ih =>
    have hLength : (t.record o.place).handlers.length ≤ maxHandlers := by
      unfold HandlerTable.record
      simp only
      split
      · rw [List.length_append, List.length_singleton]
        omega
      · exact ht
    rw [HandlerTable.recordAll, List.foldl_cons, ← HandlerTable.recordAll, ih _ hLength]
    unfold HandlerTable.record
    simp only
    split
    · rw [List.append_assoc]
      rfl
    · rename_i hFull
      have hFull' : maxHandlers ≤ t.handlers.length := by omega
      rw [List.take_append_of_le_length hFull', List.take_append_of_le_length hFull']

/-- The functions of the parts, and the table with the parts recorded. -/
def HandlersOf (signals : List SignalInfo) (parts : List (Part CText)) (t : HandlerTable)
    (r : List HandlerFn × HandlerTable) : Prop :=
  FunctionsOf (handlerFn signals) parts t.handlerIdCounter r.1 ∧ r.2 = t.recordAll parts

theorem HandlersOf.append {a b : List (Part CText)} {t : HandlerTable}
    {r r' : List HandlerFn × HandlerTable} (ha : HandlersOf signals a t r)
    (hb : HandlersOf signals b r.2 r') : HandlersOf signals (a ++ b) t (r.1 ++ r'.1, r'.2) := by
  obtain ⟨hFns, hTable⟩ := ha
  obtain ⟨hFns', hTable'⟩ := hb
  rw [hTable, counter_recordAll] at hFns'
  refine ⟨hFns.append hFns', ?_⟩
  rw [hTable', hTable, HandlerTable.recordAll, HandlerTable.recordAll, HandlerTable.recordAll,
    List.foldl_append]

theorem emitHandlers_spec (p : Path) (attributes : List JsxAttribute) {i : Nat} {t : HandlerTable}
    {r : List HandlerFn × HandlerTable} (h : emitHandlers signals p i attributes t = some r) :
    HandlersOf signals (ownClicks p attributes i) t r := by
  induction attributes generalizing i t r with
  | nil =>
    cases h
    exact ⟨.nil, rfl⟩
  | cons a rest ih =>
    rw [emitHandlers] at h
    rw [ownClicks, List.zipIdx_cons, List.filterMap_cons]
    cases hClick : a.clickText with
    | none =>
      rw [hClick] at h
      exact ih h
    | some raw =>
      rw [hClick] at h
      simp only [Option.bind_eq_bind, Option.bind_eq_some_iff] at h
      obtain ⟨f, hf, ⟨gs, t'⟩, hRest, h⟩ := h
      cases h
      obtain ⟨hFns, hTable⟩ := ih hRest
      exact ⟨.cons hf hFns, hTable⟩

mutual

theorem extractAndEmitHandlers_spec :
    ∀ (e : JsxElement) (p : Path) (t : HandlerTable) (r : List HandlerFn × HandlerTable),
      extractAndEmitHandlers signals e p t = some r →
      HandlersOf signals (e.handlerOrder p) t r
  | .mk tag attributes children, p, t, r => by
    intro h
    simp only [extractAndEmitHandlers, Option.bind_eq_bind, Option.bind_eq_some_iff] at h
    obtain ⟨sub, hSub, own, hOwn, h⟩ := h
    cases h
    exact (extractFromChildren_spec children p 0 t sub hSub).append (emitHandlers_spec p _ hOwn)

theorem extractFromChildren_spec :
    ∀ (cs : JsxChildren) (p : Path) (i : Nat) (t : HandlerTable)
      (r : List HandlerFn × HandlerTable), extractFromChildren signals cs p i t = some r →
      HandlersOf signals (cs.handlerOrder p i) t r
  | .nil, p, i, t, r => by
    intro h
    cases h
    exact ⟨.nil, rfl⟩
  | .element e rest, p, i, t, r => by
    intro h
    simp only [extractFromChildren, Option.bind_eq_bind, Option.bind_eq_some_iff] at h
    obtain ⟨child, hChild, others, hOthers, h⟩ := h
    cases h
    exact (extractAndEmitHandlers_spec e (i :: p) t child hChild).append
      (extractFromChildren_spec rest p (i + 1) child.2 others hOthers)
  | .text _ rest, p, i, t, r => extractFromChildren_spec rest p (i + 1) t r
  | .expression _ _ rest, p, i, t, r => extractFromChildren_spec rest p (i + 1) t r

end

mutual

/-- Handlers are extracted from the places of the tree, each once. -/
theorem JsxElement.handlerOrder_perm :
    ∀ (e : JsxElement) (p : Path),
      (e.handlerOrder p).Perm ((e.positions p).flatMap fun x => ownClicks x.1 x.2.attributes 0)
  | .mk tag attributes children, p => by
    rw [JsxElement.handlerOrder, JsxElement.positions, List.flatMap_cons]
    exact List.perm_append_comm.trans
      ((JsxChildren.handlerOrder_perm children p 0).append_left _)

theorem JsxChildren.handlerOrder_perm :
    ∀ (cs : JsxChildren) (p : Path) (i : Nat),
      (cs.handlerOrder p i).Perm
        ((cs.positions p i).flatMap fun x => ownClicks x.1 x.2.attributes 0)
  | .nil, p, i => List.Perm.refl _
  | .element e rest, p, i => by
    rw [JsxChildren.handlerOrder, JsxChildren.positions, List.flatMap_append]
    exact (JsxElement.handlerOrder_perm e (i :: p)).append
      (JsxChildren.handlerOrder_perm rest p (i + 1))
  | .text _ rest, p, i => JsxChildren.handlerOrder_perm rest p (i + 1)
  | .expression _ _ rest, p, i => JsxChildren.handlerOrder_perm rest p (i + 1)

end

end Handlers

end Calynda.Jsx
