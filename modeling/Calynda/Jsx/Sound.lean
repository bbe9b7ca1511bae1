import Calynda.Jsx.Files

/-!
# Wirable files are wired

The wiring of a file that the emitter can wire: elements are numbered by their places, effects
and handlers by the orders of the walks.
-/

namespace Calynda.Jsx

open List

section Component

variable {ci : ComponentInfo} {n : Nat}

/-- The variable of an element is its number in the order of the places. -/
def varOf (ci : ComponentInfo) : Path → Nat := indexOfKey Prod.fst ci.elements

def effOf (ci : ComponentInfo) : Path × Nat → Nat :=
  indexOfKey Part.place (walkOrder ci.kept ci.rootElement)

def hndOf (ci : ComponentInfo) : Path × Nat → Nat :=
  indexOfKey Part.place (ci.rootElement.handlerOrder [])

theorem numbered_elements (ci : ComponentInfo) : Numbered (varOf ci) ci.elements 0 :=
  map_indexOfKey (nodup_elementPaths ci)

theorem eq_of_varOf_eq {x y : Path × JsxElement} (hx : x ∈ ci.elements) (hy : y ∈ ci.elements)
    (h : varOf ci x.1 = varOf ci y.1) : x = y :=
  eq_of_indexOfKey_eq (nodup_elementPaths ci) hx hy h

/-! ## The parts of the body -/

theorem declared_body (ci : ComponentInfo) (n : Nat) :
    declared (componentBody ci n) = ci.elements.map fun x => (varOf ci x.1, widgetOf x.2) := by
  rw [(componentBody_parts ci n).1]
  exact (says_element ci.rootElement [] 0 0 (numbered_elements ci)).declared

theorem attached_body (ci : ComponentInfo) (n : Nat) :
    (attached (componentBody ci n)).Perm (attachedPairs (varOf ci) ci.edges) := by
  rw [(componentBody_parts ci n).2.1]
  exact attached_element ci.rootElement [] 0 0 (numbered_elements ci)

theorem created_body (ci : ComponentInfo) (n : Nat) :
    created (componentBody ci n) =
      ((ci.rootElement.creationOrder ci.kept []).zipIdx 0).map
        fun x => (x.2, varOf ci x.1.owner) := by
  rw [(componentBody_parts ci n).2.2.1]
  exact (says_element ci.rootElement [] 0 0 (numbered_elements ci)).created

theorem clicked_body (ci : ComponentInfo) (n : Nat) :
    clicked (componentBody ci n) = ci.elements.flatMap fun x =>
      clickPairs (varOf ci x.1) (tableOf ci n) x.1 0 x.2.attributes := by
  rw [(componentBody_parts ci n).2.2.2]
  exact (says_element ci.rootElement [] 0 0 (numbered_elements ci)).clicked

/-! ## Elements and edges -/

theorem constructed_of_known {x : Path × JsxElement} (hx : x ∈ ci.elements)
    (hKnown : (widgetOf x.2).isSome) : ∃ w, widgetOf x.2 = some w ∧
      (declared (componentBody ci n)).filter (fun d => d.1 = varOf ci x.1) =
        [(varOf ci x.1, some w)] := by
  obtain ⟨w, hw⟩ := Option.isSome_iff_exists.mp hKnown
  refine ⟨w, hw, ?_⟩
  have hKeys : ((declared (componentBody ci n)).map Prod.fst).Nodup := by
    rw [declared_body, map_map]
    have h : ci.elements.map (fun x => varOf ci x.1) = _ := numbered_elements ci
    rw [show Prod.fst ∘ (fun x : Path × JsxElement => (varOf ci x.1, widgetOf x.2)) =
      fun x => varOf ci x.1 from rfl, h]
    exact nodup_range'
  have hMem : (varOf ci x.1, some w) ∈ declared (componentBody ci n) := by
    rw [declared_body]
    exact mem_map.mpr ⟨x, hx, by rw [hw]⟩
  exact filter_eq_singleton hKeys hMem

/-- An edge leads to an element, and the element has no other edge. -/
theorem exists_child {e : Edge} (he : e ∈ ci.edges) : ∃ c, (e.child, c) ∈ ci.elements := by
  obtain ⟨x, hx, hex⟩ := mem_flatMap.mp he
  obtain ⟨c, hc, rfl⟩ := mem_map.mp hex
  exact ⟨c.2, JsxElement.child_mem_positions ci.rootElement [] x hx c hc⟩

theorem nodup_children (ci : ComponentInfo) : (ci.edges.map Edge.child).Nodup := by
  have h := (nodup_edges ci).map (f := fun q : Path × Nat => q.2 :: q.1)
    (fun a b hab => Prod.ext (List.cons.inj hab).2 (List.cons.inj hab).1)
  rw [map_map] at h
  exact h

theorem eq_of_child_eq {e e' : Edge} (he : e ∈ ci.edges) (he' : e' ∈ ci.edges)
    (h : e.child = e'.child) : e = e' :=
  inj_on_of_nodup_map (nodup_children ci) he he' h

theorem attached_of_attachable (hAll : ∀ e ∈ ci.edges, Attachable e.parentTag e.childTag)
    {e : Edge} (he : e ∈ ci.edges) :
    (attached (componentBody ci n)).filter (fun d => d.2 = varOf ci e.child) =
      [(varOf ci e.parent, varOf ci e.child)] := by
  have hPairs : attachedPairs (varOf ci) ci.edges =
      ci.edges.map fun e => (varOf ci e.parent, varOf ci e.child) := by
    rw [attachedPairs, filter_eq_self.mpr]
    intro e he
    exact decide_eq_true (hAll e he)
  have hKeys : ((attachedPairs (varOf ci) ci.edges).map Prod.snd).Nodup := by
    rw [hPairs, map_map]
    refine List.Nodup.map_on ?_ (List.Nodup.of_map _ (nodup_children ci))
    intro a ha b hb hab
    obtain ⟨c, hc⟩ := exists_child ha
    obtain ⟨c', hc'⟩ := exists_child hb
    exact eq_of_child_eq ha hb (Prod.mk.inj (eq_of_varOf_eq hc hc' hab)).1
  have hMem : (varOf ci e.parent, varOf ci e.child) ∈ attachedPairs (varOf ci) ci.edges := by
    rw [hPairs]
    exact mem_map.mpr ⟨e, he, rfl⟩
  have hFilter := (attached_body ci n).filter fun d => decide (d.2 = varOf ci e.child)
  rw [filter_eq_singleton hKeys hMem] at hFilter
  exact perm_singleton.mp hFilter

/-! ## Reactive expressions -/

theorem mem_walkOrder {o : Part CText} : o ∈ walkOrder ci.kept ci.rootElement ↔
    o ∈ ci.reactives ∧ o.owner.length ≤ 1 ∧ hasSignalRef ci.kept o.content = true := by
  rw [walkOrder_eq, mem_filter, Bool.and_eq_true, decide_eq_true_iff]

theorem nodup_walkOrder (ci : ComponentInfo) :
    ((walkOrder ci.kept ci.rootElement).map Part.place).Nodup := by
  rw [walkOrder_eq]
  exact (nodup_reactivesAt ci ci.signals).sublist (filter_sublist.map _)

theorem eq_of_effOf_eq {o o' : Part CText} (ho : o ∈ walkOrder ci.kept ci.rootElement)
    (ho' : o' ∈ walkOrder ci.kept ci.rootElement) (h : effOf ci o.place = effOf ci o'.place) :
    o = o' :=
  eq_of_indexOfKey_eq (nodup_walkOrder ci) ho ho' h

/-- In a wirable component effects are created as they are emitted. -/
theorem creationOrder_of_wirable (hW : Wirable ci) :
    ci.rootElement.creationOrder ci.kept [] = walkOrder ci.kept ci.rootElement := by
  refine creationOrder_eq_walkOrder ci.kept ci.rootElement ?_ ?_
  · intro o ho
    have hMem := (JsxElement.creationOrder_perm ci.kept ci.rootElement []).mem_iff.mp ho
    obtain ⟨x, hx, hox⟩ := mem_flatMap.mp hMem
    rw [reactivesAt_kept] at hox
    have hReactive : o ∈ ci.reactives :=
      mem_flatMap.mpr ⟨x, hx, (mem_filter.mp hox).1⟩
    exact (hW.reactive o hReactive).1
  · intro hTag
    rw [eq_nil_iff_forall_not_mem]
    intro c hc
    have hRoot : ([], ci.rootElement) ∈ ci.elements := by
      unfold ComponentInfo.elements
      cases ci.rootElement
      exact mem_cons_self
    have hEdge : (⟨[], c.1, ci.rootElement.tagName, c.2.tagName⟩ : Edge) ∈ ci.edges :=
      mem_flatMap.mpr ⟨_, hRoot, mem_map.mpr ⟨c, hc, rfl⟩⟩
    rcases hW.attachable _ hEdge with ⟨hWindow, -⟩ | ⟨hButton, -⟩
    · simp [hTag] at hWindow
    · simp [hTag] at hButton

theorem created_of_wirable (hW : Wirable ci) {o : Part CText}
    (ho : o ∈ walkOrder ci.kept ci.rootElement) :
    (effOf ci o.place, varOf ci o.owner) ∈ created (componentBody ci n) := by
  rw [created_body, creationOrder_of_wirable hW]
  have hGet := getElem?_indexOfKey (nodup_walkOrder ci) ho
  refine mem_map.mpr ⟨(o, effOf ci o.place), ?_, rfl⟩
  rw [mem_zipIdx_iff_getElem?]
  exact hGet

/-! ## Click handlers -/

theorem nodup_handlerOrder (ci : ComponentInfo) :
    ((ci.rootElement.handlerOrder []).map Part.place).Nodup :=
  (((JsxElement.handlerOrder_perm ci.rootElement []).map Part.place).nodup_iff).mpr
    (nodup_ownClicks ci)

/-- A click attribute that holds a handler is extracted. -/
theorem mem_handlerOrder_of_click {o : Part (String × JsxAttribute)} (ho : o ∈ ci.clicks)
    {raw : CText} (hRaw : o.content.2.clickText = some raw) :
    (⟨o.owner, o.index, raw⟩ : Part CText) ∈ ci.rootElement.handlerOrder [] := by
  rw [(JsxElement.handlerOrder_perm ci.rootElement []).mem_iff]
  obtain ⟨x, hx, hox⟩ := mem_flatMap.mp ho
  obtain ⟨a, ha, rfl⟩ := mem_map.mp hox
  refine mem_flatMap.mpr ⟨x, hx, mem_filterMap.mpr ⟨a, (mem_filter.mp ha).1, ?_⟩⟩
  rw [show a.1.clickText = some raw from hRaw]
  rfl

theorem name_of_clickText {a : JsxAttribute} {raw : CText} (h : a.clickText = some raw) :
    a.name = "onClick" := by
  unfold JsxAttribute.clickText at h
  split at h
  · split at h
    · assumption
    · cases h
  · cases h

/-- What is extracted is a click attribute. -/
theorem exists_click_of_mem {o : Part CText} (ho : o ∈ ci.rootElement.handlerOrder []) :
    ∃ a ∈ ci.clicks, a.place = o.place := by
  rw [(JsxElement.handlerOrder_perm ci.rootElement []).mem_iff] at ho
  obtain ⟨x, hx, hox⟩ := mem_flatMap.mp ho
  obtain ⟨a, ha, haSome⟩ := mem_filterMap.mp hox
  obtain ⟨raw, hRaw, rfl⟩ := Option.map_eq_some_iff.mp haSome
  refine ⟨⟨x.1, a.2, x.2.tagName, a.1⟩, mem_flatMap.mpr ⟨x, hx, mem_map.mpr
    ⟨a, mem_filter.mpr ⟨ha, ?_⟩, rfl⟩⟩, rfl⟩
  exact decide_eq_true (name_of_clickText hRaw)

theorem handlerCount_le (ci : ComponentInfo) : handlerCount ci ≤ ci.clicks.length := by
  have h := length_le_of_injOn (f := Part.place) (m := ci.clicks.map Part.place)
    (List.Nodup.of_map _ (nodup_handlerOrder ci))
    (fun x hx y hy hxy => inj_on_of_nodup_map (nodup_handlerOrder ci) hx hy hxy)
    (fun o ho => by
      obtain ⟨a, ha, hPlace⟩ := exists_click_of_mem ho
      exact mem_map.mpr ⟨a, ha, hPlace⟩)
  rwa [length_map] at h

/-- A table that has room records every handler. -/
theorem tableOf_of_fits (h : handlerCount ci ≤ maxHandlers) :
    tableOf ci n = entriesOf (ci.rootElement.handlerOrder []) n := by
  rw [tableOf, handlers_recordAll _ _ (Nat.zero_le _), nil_append, take_of_length_le]
  rw [entriesOf, length_map, length_zipIdx]
  exact h

theorem clicked_of_fits (h : handlerCount ci ≤ maxHandlers)
    {o : Part (String × JsxAttribute)} (ho : o ∈ ci.clicks) {raw : CText}
    (hRaw : o.content.2.clickText = some raw) :
    (varOf ci o.owner, n + hndOf ci o.place) ∈ clicked (componentBody ci n) := by
  have hMem := mem_handlerOrder_of_click ho hRaw
  have hGet := getElem?_indexOfKey (nodup_handlerOrder ci) hMem
  have hFind : (tableOf ci n).find? (fun e => e.place = o.place) =
      some ⟨o.place, n + hndOf ci o.place⟩ := by
    rw [tableOf_of_fits h]
    have hPlaces : (entriesOf (ci.rootElement.handlerOrder []) n).map HandlerInfo.place =
        (ci.rootElement.handlerOrder []).map Part.place := by
      rw [entriesOf, map_map]
      conv_rhs => rw [← zipIdx_map_fst n (ci.rootElement.handlerOrder []), map_map]
      rfl
    have hNodup : ((entriesOf (ci.rootElement.handlerOrder []) n).map HandlerInfo.place).Nodup := by
      rw [hPlaces]
      exact nodup_handlerOrder ci
    have hEntry : (⟨o.place, n + hndOf ci o.place⟩ : HandlerInfo) ∈
        entriesOf (ci.rootElement.handlerOrder []) n := by
      refine mem_map.mpr ⟨(⟨o.owner, o.index, raw⟩, n + hndOf ci o.place), ?_, rfl⟩
      rw [mem_zipIdx_iff_le_and_getElem?_sub]
      refine ⟨Nat.le_add_right _ _, ?_⟩
      rw [Nat.add_sub_cancel_left]
      exact hGet
    exact find?_key hNodup hEntry
  rw [clicked_body]
  obtain ⟨x, hx, hox⟩ := mem_flatMap.mp ho
  obtain ⟨a, ha, rfl⟩ := mem_map.mp hox
  refine mem_flatMap.mpr ⟨x, hx, mem_filterMap.mpr
    ⟨a, (mem_filter.mp ha).1, ?_⟩⟩
  rw [show a.1.clickText = some raw from hRaw]
  simp only
  rw [show (tableOf ci n).find? (fun e => e.place = (x.1, a.2)) = _ from hFind]

end Component

/-! ## Files -/

section File

variable {items : List JsxItem} {out : List CDecl}

/-- The number that a component gives, in the component number `c`. -/
def inComponent {α : Type} (items : List JsxItem) (f : Nat → ComponentInfo → α → Nat) (c : Nat)
    (x : α) : Nat :=
  ((components items)[c]?).elim 0 fun ci => f c ci x

theorem inComponent_eq {α : Type} {f : Nat → ComponentInfo → α → Nat} {c : Nat}
    {ci : ComponentInfo} (h : (components items)[c]? = some ci) (x : α) :
    inComponent items f c x = f c ci x := by
  rw [inComponent, h]
  rfl

/-- The wiring that the emitter means. -/
def wiringOf (items : List JsxItem) : Wiring where
  var := inComponent items fun _ ci => varOf ci
  eff := inComponent items fun _ ci => effOf ci
  hnd := inComponent items fun c ci place =>
    handlersBefore (components items) c + hndOf ci place

section

variable {c : Nat} {ci : ComponentInfo} (h : (components items)[c]? = some ci)

include h

theorem wiringOf_var (p : Path) : (wiringOf items).var c p = varOf ci p :=
  inComponent_eq (f := fun _ ci => varOf ci) h p

theorem wiringOf_eff (place : Path × Nat) : (wiringOf items).eff c place = effOf ci place :=
  inComponent_eq (f := fun _ ci => effOf ci) h place

theorem wiringOf_hnd (place : Path × Nat) : (wiringOf items).hnd c place =
    handlersBefore (components items) c + hndOf ci place :=
  inComponent_eq
    (f := fun c ci place => handlersBefore (components items) c + hndOf ci place) h place

end

theorem handlersBefore_succ {comps : List ComponentInfo} {c : Nat} {ci : ComponentInfo}
    (h : comps[c]? = some ci) :
    handlersBefore comps (c + 1) = handlersBefore comps c + handlerCount ci := by
  unfold handlersBefore
  rw [take_succ_eq_append_getElem (List.getElem?_eq_some_iff.mp h).1, map_append,
    sum_append, map_singleton, sum_singleton, (List.getElem?_eq_some_iff.mp h).2]

theorem handlersBefore_mono (comps : List ComponentInfo) {c c' : Nat} (h : c ≤ c') :
    handlersBefore comps c ≤ handlersBefore comps c' := by
  have hTake : comps.take c' = comps.take c ++ (comps.take c').drop c := by
    conv_lhs => rw [← take_append_drop c (comps.take c')]
    rw [take_take, Nat.min_eq_left h]
  unfold handlersBefore
  rw [hTake, map_append, sum_append]
  exact Nat.le_add_right _ _

/-- The handlers of different components have numbers in different ranges. -/
theorem component_of_handler {comps : List ComponentInfo} {c c' : Nat} {ci ci' : ComponentInfo}
    (h : comps[c]? = some ci) (h' : comps[c']? = some ci') {k k' : Nat} (hk : k < handlerCount ci)
    (hk' : k' < handlerCount ci') (hEq : handlersBefore comps c + k = handlersBefore comps c' + k') :
    c = c' := by
  have hSucc := handlersBefore_succ h
  have hSucc' := handlersBefore_succ h'
  rcases Nat.lt_trichotomy c c' with hLt | rfl | hLt
  · have := handlersBefore_mono comps (Nat.add_one_le_of_lt hLt)
    omega
  · rfl
  · have := handlersBefore_mono comps (Nat.add_one_le_of_lt hLt)
    omega

theorem nodup_effectIds (hFile : EmittedFile items 0 out) (hW : WirableFile items) :
    ((effectFns out).map EffectFn.effectId).Nodup := by
  rw [hFile.effectIds, nodup_flatMap]
  refine ⟨fun ci _ => nodup_range', ?_⟩
  rw [pairwise_iff_getElem]
  intro c c' hc hc' hLt k hk hk'
  rw [mem_range'_1] at hk hk'
  have hNonempty : ∀ ci : ComponentInfo, 0 < (walkOrder ci.kept ci.rootElement).length →
      ci.reactives ≠ [] := by
    intro ci hPos hNil
    rw [walkOrder_eq, hNil] at hPos
    exact Nat.lt_irrefl 0 hPos
  have := hW.oneReactive c _ (List.getElem?_eq_getElem hc) (hNonempty _ (by omega)) c' _
    (List.getElem?_eq_getElem hc') (hNonempty _ (by omega))
  omega

theorem wiresComponent (hFile : EmittedFile items 0 out) (hW : WirableFile items) {c : Nat}
    {ci : ComponentInfo} (hc : (components items)[c]? = some ci) :
    WiresComponent (wiringOf items) out c ci
      (componentBody ci (handlersBefore (components items) c)) := by
  have hWirable := hW.wirable ci (mem_of_getElem? hc)
  refine ⟨?_, ?_, ?_, ?_, ?_⟩
  · intro x hx y hy h
    rw [wiringOf_var hc, wiringOf_var hc] at h
    rw [eq_of_varOf_eq hx hy h]
  · intro x hx
    rw [wiringOf_var hc]
    exact constructed_of_known hx (hWirable.known x hx)
  · intro e he
    rw [wiringOf_var hc, wiringOf_var hc]
    exact attached_of_attachable hWirable.attachable he
  · intro o ho
    obtain ⟨hNear, hRef⟩ := hWirable.reactive o ho
    have hMem : o ∈ walkOrder ci.kept ci.rootElement := mem_walkOrder.mpr ⟨ho, hNear, hRef⟩
    obtain ⟨fs, hfs, hFns⟩ := hFile.effects c ci hc
    obtain ⟨f, hf, hMake⟩ := hFns.get (getElem?_indexOfKey (nodup_walkOrder ci) hMem)
    rw [Nat.zero_add] at hMake
    rw [wiringOf_eff hc, wiringOf_var hc]
    refine ⟨f, hMake, ?_, created_of_wirable hWirable hMem⟩
    have hSingle := filter_eq_singleton (nodup_effectIds hFile hW) (hfs hf)
    rwa [effectFn_id hMake] at hSingle
  · intro o ho
    obtain ⟨hButton, hSome⟩ := hWirable.click o ho
    obtain ⟨raw, hRaw⟩ := Option.isSome_iff_exists.mp hSome
    obtain ⟨fs, hfs, hFns⟩ := hFile.handlers c ci hc
    obtain ⟨f, hf, hMake⟩ := hFns.get
      (getElem?_indexOfKey (nodup_handlerOrder ci) (mem_handlerOrder_of_click ho hRaw))
    rw [Nat.zero_add] at hMake
    rw [wiringOf_hnd hc, wiringOf_var hc]
    have hFits := (handlerCount_le ci).trans hWirable.clicks
    refine ⟨hButton, raw, f, hRaw, hMake, ?_, clicked_of_fits hFits ho hRaw⟩
    have hIds : ((handlerFns out).map HandlerFn.handlerId).Nodup := by
      rw [hFile.handlerIds]
      exact nodup_range'
    have hSingle := filter_eq_singleton hIds (hfs hf)
    rwa [handlerFn_id hMake] at hSingle

/-- A file that can be wired is wired. -/
theorem wiresFile_of_wirable (h : jsxCompileToC items = some out) (hW : WirableFile items) :
    WiresFile items out := by
  have hFile := emitItems_spec h
  refine ⟨?_, wiringOf items, ?_, ?_, ?_⟩
  · rw [nodup_definedNames, hFile.signals, hFile.componentNames, hFile.boots, hFile.mains,
      hFile.handlerIds]
    exact ⟨hW.signalNames, nodup_effectIds hFile hW, nodup_range', hW.componentNames,
      hW.boots, le_rfl⟩
  · intro c ci hc q hq c' ci' hc' q' hq' hEq
    obtain ⟨o, ho, rfl⟩ := mem_map.mp hq
    obtain ⟨o', ho', rfl⟩ := mem_map.mp hq'
    obtain rfl := hW.oneReactive c ci hc (ne_nil_of_mem ho) c' ci' hc'
      (ne_nil_of_mem ho')
    obtain rfl : ci = ci' := Option.some.inj (hc.symm.trans hc')
    rw [wiringOf_eff hc, wiringOf_eff hc] at hEq
    have hReactive := (hW.wirable ci (mem_of_getElem? hc)).reactive
    have hMem : o ∈ walkOrder ci.kept ci.rootElement := mem_walkOrder.mpr ⟨ho, hReactive o ho⟩
    have hMem' : o' ∈ walkOrder ci.kept ci.rootElement :=
      mem_walkOrder.mpr ⟨ho', hReactive o' ho'⟩
    exact ⟨rfl, by rw [eq_of_effOf_eq hMem hMem' hEq]⟩
  · intro c ci hc q hq c' ci' hc' q' hq' hEq
    obtain ⟨o, ho, rfl⟩ := mem_map.mp hq
    obtain ⟨o', ho', rfl⟩ := mem_map.mp hq'
    obtain ⟨raw, hRaw⟩ := Option.isSome_iff_exists.mp
      ((hW.wirable ci (mem_of_getElem? hc)).click o ho).2
    obtain ⟨raw', hRaw'⟩ := Option.isSome_iff_exists.mp
      ((hW.wirable ci' (mem_of_getElem? hc')).click o' ho').2
    have hMem := mem_handlerOrder_of_click ho hRaw
    have hMem' := mem_handlerOrder_of_click ho' hRaw'
    have hGet : (ci.rootElement.handlerOrder [])[hndOf ci o.place]? = _ :=
      getElem?_indexOfKey (nodup_handlerOrder ci) hMem
    have hGet' : (ci'.rootElement.handlerOrder [])[hndOf ci' o'.place]? = _ :=
      getElem?_indexOfKey (nodup_handlerOrder ci') hMem'
    rw [wiringOf_hnd hc, wiringOf_hnd hc'] at hEq
    obtain rfl := component_of_handler hc hc' (List.getElem?_eq_some_iff.mp hGet).1
      (List.getElem?_eq_some_iff.mp hGet').1 hEq
    obtain rfl : ci = ci' := Option.some.inj (hc.symm.trans hc')
    have hSame := eq_of_indexOfKey_eq (nodup_handlerOrder ci) hMem hMem' (Nat.add_left_cancel hEq)
    exact ⟨rfl, congrArg (fun x : Part CText => x.place) hSame⟩
  · intro c ci hc
    refine ⟨_, hFile.bodies c ci hc, ?_⟩
    rw [Nat.zero_add]
    exact wiresComponent hFile hW hc

end File

end Calynda.Jsx
