import Calynda.Jsx.Places
import Mathlib.Algebra.GroupWithZero.Nat

/-!
# What a file defines

The declarations of a file are those of its components one after another. The handlers are
numbered through the whole file, the effects anew in each component.
-/

namespace Calynda.Jsx

/-! ## One component -/

section Component

variable (ci : ComponentInfo) (n : Nat)

def handlerCount : Nat := (ci.rootElement.handlerOrder []).length

/-- The handler table with which the tree of a component is built. -/
def tableOf : List HandlerInfo :=
  (HandlerTable.recordAll ⟨[], n⟩ (ci.rootElement.handlerOrder [])).handlers

def componentStmts : List CStmt :=
  (emitJsxElementFull (tableOf ci n) ci.kept ci.rootElement [] 0 0).1

def componentBody : List CStmt :=
  ci.kept.map (fun s => .initSignal s.name s.initText) ++ componentStmts ci n ++ [.returnRoot]

/-- The body of a component function has the parts of its tree. -/
theorem componentBody_parts :
    declared (componentBody ci n) = declared (componentStmts ci n) ∧
      attached (componentBody ci n) = attached (componentStmts ci n) ∧
      created (componentBody ci n) = created (componentStmts ci n) ∧
      clicked (componentBody ci n) = clicked (componentStmts ci n) := by
  have hInit : ∀ (signals : List SignalInfo),
      declared (signals.map fun s => .initSignal s.name s.initText) = [] ∧
      attached (signals.map fun s => .initSignal s.name s.initText) = [] ∧
      created (signals.map fun s => .initSignal s.name s.initText) = [] ∧
      clicked (signals.map fun s => .initSignal s.name s.initText) = [] := by
    intro signals
    simp only [declared, attached, created, clicked, List.filterMap_map, List.filterMap_eq_nil_iff,
      Function.comp_apply, implies_true, and_self]
  obtain ⟨hDeclared, hAttached, hCreated, hClicked⟩ := hInit ci.kept
  refine ⟨?_, ?_, ?_, ?_⟩
  · rw [componentBody, declared_append, declared_append, hDeclared]
    exact List.append_nil _
  · rw [componentBody, attached_append, attached_append, hAttached]
    exact List.append_nil _
  · rw [componentBody, created_append, created_append, hCreated]
    exact List.append_nil _
  · rw [componentBody, clicked_append, clicked_append, hClicked]
    exact List.append_nil _

variable {ci n}

/-- A component is emitted with the functions of its parts, in the orders of the walks. -/
theorem emitComponent_spec {decls : List CDecl} {n' : Nat}
    (h : emitComponent ci n = some (decls, n')) :
    ∃ effects handlers,
      FunctionsOf (effectFn ci.kept) (walkOrder ci.kept ci.rootElement) 0 effects ∧
      FunctionsOf (handlerFn ci.kept) (ci.rootElement.handlerOrder []) n handlers ∧
      n' = n + handlerCount ci ∧
      decls = ci.kept.map (fun s => .signal s.name) ++ effects.map .effect ++
        handlers.map .handler ++ [.component ci.compName (componentBody ci n)] := by
  simp only [emitComponent, Option.bind_eq_bind, Option.bind_eq_some_iff] at h
  obtain ⟨root, hRoot, children, hChildren, extracted, hExtracted, h⟩ := h
  obtain ⟨hFns, hTable⟩ := extractAndEmitHandlers_spec _ _ _ _ hExtracted
  have hTable' : extracted.2.handlers = tableOf ci n := by rw [hTable, tableOf]
  cases h
  refine ⟨_, extracted.1, effects_spec hRoot hChildren, hFns, ?_, ?_⟩
  · rw [hTable, counter_recordAll]
    rfl
  · rw [hTable']
    rfl

end Component

/-! ## All components -/

/-- The number of handlers in the components before number `c`. -/
def handlersBefore (comps : List ComponentInfo) (c : Nat) : Nat :=
  ((comps.take c).map handlerCount).sum

/-- The names of the signals that a file defines. -/
def signalsOf (out : List CDecl) : List CText :=
  out.filterMap fun
    | .signal name => some name
    | _ => none

def bootsOf (out : List CDecl) : List (List CText) :=
  out.filterMap fun
    | .boot mounted => some mounted
    | _ => none

def mainsOf (out : List CDecl) : List Unit :=
  out.filterMap fun
    | .main => some ()
    | _ => none

/-- What the declarations of a list of items are, with the handlers numbered from `n` on. -/
structure EmittedFile (items : List JsxItem) (n : Nat) (out : List CDecl) : Prop where
  bodies : ∀ (c : Nat) ci, (components items)[c]? = some ci → (componentFns out)[c]? =
    some (ci.compName, componentBody ci (n + handlersBefore (components items) c))
  effects : ∀ (c : Nat) ci, (components items)[c]? = some ci → ∃ fs, fs ⊆ effectFns out ∧
    FunctionsOf (effectFn ci.kept) (walkOrder ci.kept ci.rootElement) 0 fs
  handlers : ∀ (c : Nat) ci, (components items)[c]? = some ci → ∃ fs, fs ⊆ handlerFns out ∧
    FunctionsOf (handlerFn ci.kept) (ci.rootElement.handlerOrder [])
      (n + handlersBefore (components items) c) fs
  effectIds : (effectFns out).map EffectFn.effectId = (components items).flatMap fun ci =>
    List.range' 0 (walkOrder ci.kept ci.rootElement).length
  handlerIds : (handlerFns out).map HandlerFn.handlerId =
    List.range' n ((components items).map handlerCount).sum
  signals : signalsOf out = signalNames items
  componentNames : (componentFns out).map Prod.fst = (components items).map ComponentInfo.compName
  boots : (bootsOf out).length = bootCount items
  mains : mainsOf out = [()]

section Files

variable {ci : ComponentInfo} {effects : List EffectFn} {handlers : List HandlerFn}
  {body : List CStmt}

/-- The declarations of one component, by their kinds. -/
theorem kinds_component (ci : ComponentInfo) (effects : List EffectFn)
    (handlers : List HandlerFn) (body : List CStmt) (out : List CDecl) :
    let decls := ci.kept.map (fun s => CDecl.signal s.name) ++ effects.map .effect ++
      handlers.map .handler ++ [.component ci.compName body]
    effectFns (decls ++ out) = effects ++ effectFns out ∧
      handlerFns (decls ++ out) = handlers ++ handlerFns out ∧
      componentFns (decls ++ out) = (ci.compName, body) :: componentFns out ∧
      signalsOf (decls ++ out) = ci.kept.map SignalInfo.name ++ signalsOf out ∧
      bootsOf (decls ++ out) = bootsOf out ∧ mainsOf (decls ++ out) = mainsOf out := by
  simp [effectFns, handlerFns, componentFns, signalsOf, bootsOf, mainsOf, List.filterMap_append,
    List.filterMap_map]

theorem emitItems_spec {items : List JsxItem} {n : Nat} {out : List CDecl}
    (h : emitItems items n = some out) : EmittedFile items n out := by
  induction items generalizing n out with
  | nil =>
    cases h
    exact ⟨fun _ _ h => (by cases h), fun _ _ h => (by cases h), fun _ _ h => (by cases h), rfl,
      rfl, rfl, rfl, rfl, rfl⟩
  | cons item items ih =>
    cases item with
    | boot mounted =>
      simp only [emitItems, Option.bind_eq_bind, Option.bind_eq_some_iff] at h
      obtain ⟨others, hOthers, h⟩ := h
      cases h
      have hFile := ih hOthers
      refine ⟨hFile.bodies, hFile.effects, hFile.handlers, hFile.effectIds, hFile.handlerIds,
        hFile.signals, hFile.componentNames, ?_, hFile.mains⟩
      rw [show bootsOf (.boot mounted :: others) = mounted :: bootsOf others from rfl,
        List.length_cons, hFile.boots, bootCount, bootCount, List.countP_cons_of_pos rfl]
    | component ci =>
      simp only [emitItems, Option.bind_eq_bind, Option.bind_eq_some_iff] at h
      obtain ⟨⟨decls, n'⟩, hDecls, others, hOthers, h⟩ := h
      obtain ⟨effects, handlers, hEffects, hHandlers, rfl, rfl⟩ := emitComponent_spec hDecls
      cases h
      have hFile := ih hOthers
      obtain ⟨hE, hH, hC, hS, hB, hM⟩ :=
        kinds_component ci effects handlers (componentBody ci n) others
      have hItems : components (.component ci :: items) = ci :: components items := rfl
      have hBefore : ∀ c, n + handlersBefore (ci :: components items) (c + 1) =
          n + handlerCount ci + handlersBefore (components items) c := by
        intro c
        rw [handlersBefore, List.take_succ_cons, List.map_cons, List.sum_cons, handlersBefore,
          Nat.add_assoc]
      refine ⟨?_, ?_, ?_, ?_, ?_, ?_, ?_, ?_, hM.trans hFile.mains⟩
      · intro c ci' hci'
        rw [hItems] at hci' ⊢
        rw [hC]
        cases c with
        | zero =>
          cases hci'
          rfl
        | succ c =>
          rw [hBefore]
          exact hFile.bodies c ci' hci'
      · intro c ci' hci'
        rw [hItems] at hci'
        rw [hE]
        cases c with
        | zero =>
          cases hci'
          exact ⟨effects, List.subset_append_left _ _, hEffects⟩
        | succ c =>
          obtain ⟨fs, hfs, hFns⟩ := hFile.effects c ci' hci'
          exact ⟨fs, List.Subset.trans hfs (List.subset_append_right _ _), hFns⟩
      · intro c ci' hci'
        rw [hItems] at hci' ⊢
        rw [hH]
        cases c with
        | zero =>
          cases hci'
          exact ⟨handlers, List.subset_append_left _ _, hHandlers⟩
        | succ c =>
          obtain ⟨fs, hfs, hFns⟩ := hFile.handlers c ci' hci'
          rw [hBefore]
          exact ⟨fs, List.Subset.trans hfs (List.subset_append_right _ _), hFns⟩
      · rw [hE, List.map_append, hFile.effectIds, hItems, List.flatMap_cons,
          hEffects.map_number fun _ _ _ => effectFn_id]
      · rw [hH, List.map_append, hFile.handlerIds, hItems, List.map_cons, List.sum_cons,
          hHandlers.map_number fun _ _ _ => handlerFn_id, ← List.range'_append_1]
        rfl
      · rw [hS, hFile.signals]
        rfl
      · rw [hC, List.map_cons, hFile.componentNames, hItems, List.map_cons]
      · rw [hB, hFile.boots, bootCount, bootCount, List.countP_cons_of_neg (by simp)]

/-! ## Names at file scope -/

theorem length_le_one_iff {α : Type*} {l : List α} :
    l.length ≤ 1 ↔ l.Pairwise fun _ _ => False := by
  cases l with
  | nil => simp
  | cons a l =>
    cases l with
    | nil => simp
    | cons b l =>
      exact iff_of_false (by simp) fun h => (List.pairwise_cons.1 h).1 b List.mem_cons_self

/-- Names at file scope are different when they are in each kind. -/
theorem nodup_definedNames {out : List CDecl} :
    (definedNames out).Nodup ↔ (signalsOf out).Nodup ∧
      ((effectFns out).map EffectFn.effectId).Nodup ∧
      ((handlerFns out).map HandlerFn.handlerId).Nodup ∧
      ((componentFns out).map Prod.fst).Nodup ∧ (bootsOf out).length ≤ 1 ∧
      (mainsOf out).length ≤ 1 := by
  have hOwn : ∀ d ∈ out, d.names.Nodup := by
    intro d _
    cases d <;> simp [CDecl.names]
  rw [definedNames, List.nodup_flatMap, and_iff_right hOwn]
  -- both sides say of any two declarations that they do not meet
  unfold signalsOf effectFns handlerFns componentFns bootsOf mainsOf
  simp only [List.Nodup, length_le_one_iff, List.pairwise_map, List.pairwise_filterMap,
    ← List.pairwise_and_iff]
  refine List.Pairwise.iff fun d e => ?_
  cases d <;> cases e <;> simp [CDecl.names, Function.onFun, eq_comm]

end Files

end Calynda.Jsx
