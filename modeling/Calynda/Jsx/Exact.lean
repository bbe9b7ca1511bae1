import Calynda.Jsx.Sound

/-!
# Which files are wired

In a wired file the parts have different functions, and there are no more functions than the
walks emit: counting them shows that the emitter could wire the file.
-/

namespace Calynda.Jsx

section Component

variable {items : List JsxItem} {out : List CDecl} {W : Wiring} {c n : Nat} {ci : ComponentInfo}

/-- The edges of a wired component are all attached. -/
theorem attachable_of_wires (h : WiresComponent W out c ci (componentBody ci n)) :
    ∀ e ∈ ci.edges, Attachable e.parentTag e.childTag := by
  have hLe : ci.edges.length ≤ (attached (componentBody ci n)).length := by
    refine length_le_of_injOn (f := fun e => (W.var c e.parent, W.var c e.child))
      (List.Nodup.of_map _ (nodup_children ci)) ?_ ?_
    · intro e he e' he' hEq
      obtain ⟨x, hx⟩ := exists_child he
      obtain ⟨x', hx'⟩ := exists_child he'
      exact eq_of_child_eq he he' (h.distinct _ hx _ hx' (Prod.mk.inj hEq).2)
    · intro e he
      have hMem : (W.var c e.parent, W.var c e.child) ∈
          (attached (componentBody ci n)).filter fun d => d.2 = W.var c e.child := by
        rw [h.attached e he]
        exact List.mem_singleton.mpr rfl
      exact (List.mem_filter.mp hMem).1
  rw [(attached_body ci n).length_eq, attachedPairs, List.length_map] at hLe
  have hAll := List.length_filter_eq_length_iff.mp
    (Nat.le_antisymm (List.length_filter_le _ _) hLe)
  intro e he
  exact of_decide_eq_true (hAll e he)

theorem handlerId_mem_table {pair : Nat × Nat} (h : pair ∈ clicked (componentBody ci n)) :
    pair.2 ∈ (tableOf ci n).map HandlerInfo.handlerId := by
  rw [clicked_body] at h
  obtain ⟨x, -, hx⟩ := List.mem_flatMap.mp h
  obtain ⟨a, -, ha⟩ := List.mem_filterMap.mp hx
  split at ha
  · rename_i hFind
    cases ha
    exact List.mem_map.mpr ⟨_, List.mem_of_find?_eq_some hFind, rfl⟩
  · cases ha

theorem length_tableOf_le : (tableOf ci n).length ≤ maxHandlers := by
  rw [tableOf, handlers_recordAll _ _ (Nat.zero_le _)]
  exact List.length_take_le _ _

/-- The click handlers of a wired component fit the table. -/
theorem clicks_of_wires (hc : (components items)[c]? = some ci)
    (hHnd : DistinctFns items (fun ci => ci.clicks.map Part.place) W.hnd)
    (h : WiresComponent W out c ci (componentBody ci n)) : ci.clicks.length ≤ maxHandlers := by
  have hLe : ci.clicks.length ≤ ((tableOf ci n).map HandlerInfo.handlerId).length := by
    refine length_le_of_injOn (f := fun o => W.hnd c o.place)
      (List.Nodup.of_map _ (nodup_clicks ci)) ?_ ?_
    · intro o ho o' ho' hEq
      have hPlace := (hHnd c ci hc _ (List.mem_map_of_mem ho) c ci hc _
        (List.mem_map_of_mem ho') hEq).2
      exact List.inj_on_of_nodup_map (nodup_clicks ci) ho ho' hPlace
    · intro o ho
      obtain ⟨-, raw, f, -, -, -, hMem⟩ := h.click o ho
      exact handlerId_mem_table hMem
  rw [List.length_map] at hLe
  exact hLe.trans length_tableOf_le

end Component

/-! ## Reactive expressions of a file -/

section File

variable {items : List JsxItem} {out : List CDecl} {W : Wiring}

/-- The reactive expressions of a file with the components they belong to. -/
def fileReactives (items : List JsxItem) : List ((ComponentInfo × Nat) × Part CText) :=
  (components items).zipIdx.flatMap fun y => y.1.reactives.map fun o => (y, o)

theorem mem_fileReactives {y : (ComponentInfo × Nat) × Part CText} :
    y ∈ fileReactives items ↔
      (components items)[y.1.2]? = some y.1.1 ∧ y.2 ∈ y.1.1.reactives := by
  obtain ⟨⟨ci, c⟩, o⟩ := y
  unfold fileReactives
  rw [List.mem_flatMap]
  constructor
  · rintro ⟨x, hx, hMem⟩
    obtain ⟨o', ho', hEq⟩ := List.mem_map.mp hMem
    cases hEq
    exact ⟨List.mem_zipIdx_iff_getElem?.mp hx, ho'⟩
  · rintro ⟨hc, ho⟩
    exact ⟨(ci, c), List.mem_zipIdx_iff_getElem?.mpr hc, List.mem_map.mpr ⟨o, ho, rfl⟩⟩

theorem nodup_reactives (ci : ComponentInfo) : ci.reactives.Nodup :=
  List.Nodup.of_map _ (nodup_reactivesAt ci ci.signals)

theorem nodup_fileReactives (items : List JsxItem) : (fileReactives items).Nodup := by
  unfold fileReactives
  rw [List.nodup_flatMap]
  refine ⟨fun y _ => (nodup_reactives y.1).map fun o o' h => (Prod.mk.inj h).2, ?_⟩
  refine (List.Nodup.of_map Prod.snd (nodup_snd_zipIdx (components items) 0)).imp ?_
  intro y y' hNe z hz hz'
  obtain ⟨o, -, rfl⟩ := List.mem_map.mp hz
  obtain ⟨o', -, hEq⟩ := List.mem_map.mp hz'
  exact hNe (Prod.mk.inj hEq).1.symm

/-- Whether the walk over the effects meets a reactive expression. -/
def Walked (y : (ComponentInfo × Nat) × Part CText) : Bool :=
  decide (y.2.owner.length ≤ 1) && hasSignalRef y.1.1.kept y.2.content

/-- The walks emit a function for each reactive expression that they meet. -/
theorem length_effectFns (hFile : EmittedFile items 0 out) :
    (effectFns out).length = ((fileReactives items).filter Walked).length := by
  have hLength := congrArg List.length hFile.effectIds
  rw [List.length_map, List.length_flatMap] at hLength
  rw [hLength, fileReactives, List.filter_flatMap, List.length_flatMap]
  conv_lhs => rw [← List.zipIdx_map_fst 0 (components items), List.map_map]
  refine congrArg List.sum (List.map_congr_left fun y _ => ?_)
  rw [Function.comp_apply, List.length_range', walkOrder_eq, List.filter_map, List.length_map]
  rfl

/-- In a wired file the walks meet all reactive expressions. -/
theorem walked_of_wires (hFile : EmittedFile items 0 out)
    (hEff : DistinctFns items (fun ci => ci.reactives.map Part.place) W.eff)
    (hAll : ∀ (c : Nat) ci, (components items)[c]? = some ci → ∃ body,
      WiresComponent W out c ci body) :
    ∀ y ∈ fileReactives items, Walked y = true := by
  have hLe : (fileReactives items).length ≤ ((effectFns out).map EffectFn.effectId).length := by
    refine length_le_of_injOn (f := fun y => W.eff y.1.2 y.2.place)
      (nodup_fileReactives items) ?_ ?_
    · rintro ⟨⟨ci, c⟩, o⟩ hy ⟨⟨ci', c'⟩, o'⟩ hy' hEq
      obtain ⟨hc, ho⟩ := mem_fileReactives.mp hy
      obtain ⟨hc', ho'⟩ := mem_fileReactives.mp hy'
      obtain ⟨hSame, hPlace⟩ := hEff c ci hc _ (List.mem_map_of_mem ho) c' ci' hc' _
        (List.mem_map_of_mem ho') hEq
      change c = c' at hSame
      subst hSame
      obtain rfl : ci = ci' := Option.some.inj (hc.symm.trans hc')
      have hPart : o = o' :=
        List.inj_on_of_nodup_map (nodup_reactivesAt ci ci.signals) ho ho' hPlace
      rw [hPart]
    · rintro ⟨⟨ci, c⟩, o⟩ hy
      obtain ⟨hc, ho⟩ := mem_fileReactives.mp hy
      obtain ⟨body, hWires⟩ := hAll c ci hc
      obtain ⟨f, hMake, hSingle, -⟩ := hWires.reactive o ho
      have hMem : f ∈ (effectFns out).filter fun g => g.effectId = W.eff c o.place := by
        rw [hSingle]
        exact List.mem_singleton.mpr rfl
      exact List.mem_map.mpr ⟨f, (List.mem_filter.mp hMem).1, effectFn_id hMake⟩
  rw [List.length_map, length_effectFns hFile] at hLe
  exact List.length_filter_eq_length_iff.mp (Nat.le_antisymm (List.length_filter_le _ _) hLe)

theorem wirable_of_wires (hFile : EmittedFile items 0 out)
    (hEff : DistinctFns items (fun ci => ci.reactives.map Part.place) W.eff)
    (hHnd : DistinctFns items (fun ci => ci.clicks.map Part.place) W.hnd)
    (hAll : ∀ (c : Nat) ci, (components items)[c]? = some ci →
      WiresComponent W out c ci (componentBody ci (handlersBefore (components items) c)))
    {c : Nat} {ci : ComponentInfo} (hc : (components items)[c]? = some ci) : Wirable ci := by
  have hWires := hAll c ci hc
  refine ⟨?_, attachable_of_wires hWires, ?_, ?_, clicks_of_wires hc hHnd hWires⟩
  · intro x hx
    obtain ⟨w, hw, -⟩ := hWires.constructed x hx
    rw [hw]
    rfl
  · intro o ho
    have hWalked := walked_of_wires hFile hEff (fun c ci hc => ⟨_, hAll c ci hc⟩) ((ci, c), o)
      (mem_fileReactives.mpr ⟨hc, ho⟩)
    rw [Walked, Bool.and_eq_true, decide_eq_true_iff] at hWalked
    exact hWalked
  · intro o ho
    obtain ⟨hButton, raw, f, hRaw, -⟩ := hWires.click o ho
    exact ⟨hButton, by rw [hRaw]; rfl⟩

/-- A file that is wired could be. -/
theorem wirable_of_wiresFile (h : jsxCompileToC items = some out) (hWires : WiresFile items out) :
    WirableFile items := by
  have hFile := emitItems_spec h
  obtain ⟨hNames, W, hEff, hHnd, hComps⟩ := hWires
  have hAll : ∀ (c : Nat) ci, (components items)[c]? = some ci →
      WiresComponent W out c ci (componentBody ci (handlersBefore (components items) c)) := by
    intro c ci hc
    obtain ⟨body, hBody, hWires⟩ := hComps c ci hc
    have hBody' := hFile.bodies c ci hc
    rw [hBody, Nat.zero_add] at hBody'
    cases hBody'
    exact hWires
  have hWirable : ∀ (c : Nat) ci, (components items)[c]? = some ci → Wirable ci :=
    fun c ci hc => wirable_of_wires hFile hEff hHnd hAll hc
  rw [nodup_definedNames, hFile.signals, hFile.componentNames, hFile.boots,
    hFile.effectIds] at hNames
  obtain ⟨hSignals, hEffectIds, -, hComponents, hBoots, -⟩ := hNames
  refine ⟨?_, ?_, hSignals, hComponents, hBoots⟩
  · intro ci hci
    obtain ⟨c, hc⟩ := List.mem_iff_getElem?.mp hci
    exact hWirable c ci hc
  · intro c ci hc hNe c' ci' hc' hNe'
    -- each of two components with reactive expressions would define effect number zero
    have hZero : ∀ (c : Nat) ci, (components items)[c]? = some ci → ci.reactives ≠ [] →
        0 ∈ List.range' 0 (walkOrder ci.kept ci.rootElement).length := by
      intro c ci hc hNe
      obtain ⟨o, ho⟩ := List.exists_mem_of_ne_nil _ hNe
      have hMem := mem_walkOrder.mpr ⟨ho, (hWirable c ci hc).reactive o ho⟩
      rw [List.mem_range'_1]
      exact ⟨le_rfl, by rw [Nat.zero_add]; exact List.length_pos_of_mem hMem⟩
    have hDisjoint := List.pairwise_iff_getElem.mp (List.nodup_flatMap.mp hEffectIds).2
    obtain ⟨hLt, rfl⟩ := List.getElem?_eq_some_iff.mp hc
    obtain ⟨hLt', rfl⟩ := List.getElem?_eq_some_iff.mp hc'
    rcases Nat.lt_trichotomy c c' with hOrder | hSame | hOrder
    · exact (hDisjoint c c' hLt hLt' hOrder (hZero c _ hc hNe) (hZero c' _ hc' hNe')).elim
    · exact hSame
    · exact (hDisjoint c' c hLt' hLt hOrder (hZero c' _ hc' hNe') (hZero c _ hc hNe)).elim

/-- The C file of a component file wires every widget to its own parts, and defines every name
once, exactly when the file is wirable. -/
theorem wiresFile_iff (h : jsxCompileToC items = some out) :
    WiresFile items out ↔ WirableFile items :=
  ⟨wirable_of_wiresFile h, wiresFile_of_wirable h⟩

/-- A counter: a text that shows a signal, and a button that counts it up. -/
def counterFile : List JsxItem :=
  [.component ⟨"Counter".toList, [⟨"n".toList, "0".toList⟩],
    .mk "Window" []
      (.element (.mk "Text" [] (.expression .other (some "n".toList) .nil))
      (.element (.mk "Button" [⟨"onClick", .handler, some "() -> set n(1)".toList⟩]
        (.element (.mk "Text" [] (.text "Go".toList .nil)) .nil)) .nil))⟩,
  .boot ["Counter".toList]]

theorem wiresFile_counterFile :
    ∃ out, jsxCompileToC counterFile = some out ∧ WiresFile counterFile out := by
  obtain ⟨out, hOut⟩ := Option.isSome_iff_exists.mp
    (show (jsxCompileToC counterFile).isSome = true by decide)
  refine ⟨out, hOut, (wiresFile_iff hOut).2 ⟨?_, ?_, by decide, by decide, by decide⟩⟩
  · intro ci hci
    obtain rfl := List.mem_singleton.mp hci
    exact ⟨by decide, by decide, by decide, by decide, by decide⟩
  · intro c ci hc _ c' ci' hc' _
    have hLt := (List.getElem?_eq_some_iff.mp hc).1
    have hLt' := (List.getElem?_eq_some_iff.mp hc').1
    exact (Nat.lt_one_iff.mp hLt).trans (Nat.lt_one_iff.mp hLt').symm

/-- A counter whose button shows the signal. -/
def labelFile : List JsxItem :=
  [.component ⟨"Counter".toList, [⟨"n".toList, "0".toList⟩],
    .mk "Window" []
      (.element (.mk "Button" []
        (.element (.mk "Text" [] (.expression .other (some "n".toList) .nil)) .nil)) .nil)⟩,
  .boot ["Counter".toList]]

/-- The effect of the label is created and no function is emitted for it. -/
theorem not_wiresFile_labelFile :
    ∃ out, jsxCompileToC labelFile = some out ∧ ¬ WiresFile labelFile out := by
  obtain ⟨out, hOut⟩ := Option.isSome_iff_exists.mp
    (show (jsxCompileToC labelFile).isSome = true by decide)
  refine ⟨out, hOut, fun hWires => ?_⟩
  have hWirable := (wirable_of_wiresFile hOut hWires).wirable _ List.mem_cons_self
  have hNear := (hWirable.reactive ⟨[0, 0], 0, "n".toList⟩ (by decide)).1
  exact absurd hNear (by decide)

end File

end Calynda.Jsx
