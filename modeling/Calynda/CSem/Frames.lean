import Calynda.CSem.Simulation

/-!
# Frames and the order of assignments

A run of an expression does not depend on variables that do not occur in it. When each of a
list of assignments leaves alone what the later ones read, executing them one after the
other gives the variables the values that all right-hand sides have at the start.
-/

namespace Calynda

open Relational StateExcept

/-! ## Frames -/

namespace CFrame

/-- The names of the variables, the innermost first. -/
def names (frame : CFrame) : List String := frame.map Prod.fst

theorem lookup_eq_none {name : String} {frame : CFrame} :
    lookup name frame = none ↔ name ∉ frame.names := by
  induction frame with
  | nil => simp [lookup, names]
  | cons entry frame ih =>
    obtain ⟨x, w⟩ := entry
    rw [lookup, names, List.map_cons, List.mem_cons, not_or]
    by_cases h : x = name
    · rw [if_pos h]
      exact iff_of_false nofun fun hNot => hNot.1 h.symm
    · rw [if_neg h, ih]
      exact ⟨fun hMem => ⟨fun hEq => h hEq.symm, hMem⟩, fun hNot => hNot.2⟩

theorem exists_lookup {name : String} {frame : CFrame} (h : name ∈ frame.names) :
    ∃ w, lookup name frame = some w := by
  cases hLookup : lookup name frame with
  | none => exact absurd h (lookup_eq_none.1 hLookup)
  | some w => exact ⟨w, rfl⟩

@[simp] theorem names_assign (name : String) (word : CalyndaRtWord) (frame : CFrame) :
    (assign name word frame).names = frame.names := by
  induction frame with
  | nil => rfl
  | cons entry frame ih =>
    obtain ⟨x, w⟩ := entry
    rw [assign]
    by_cases h : x = name
    · rw [if_pos h]
      rfl
    · rw [if_neg h]
      exact congrArg (x :: ·) ih

theorem lookup_assign_self {name : String} {word : CalyndaRtWord} {frame : CFrame}
    (h : name ∈ frame.names) : lookup name (assign name word frame) = some (some word) := by
  induction frame with
  | nil => exact nomatch h
  | cons entry frame ih =>
    obtain ⟨x, w⟩ := entry
    rw [assign]
    by_cases hx : x = name
    · rw [if_pos hx, lookup, if_pos hx]
    · rw [if_neg hx, lookup, if_neg hx]
      have hMem : name ∈ names frame := by
        rcases List.mem_cons.1 h with hEq | hMem
        · exact absurd hEq.symm hx
        · exact hMem
      exact ih hMem

theorem lookup_assign_of_ne {name other : String} {word : CalyndaRtWord} {frame : CFrame}
    (h : other ≠ name) : lookup other (assign name word frame) = lookup other frame := by
  induction frame with
  | nil => rfl
  | cons entry frame ih =>
    obtain ⟨x, w⟩ := entry
    rw [assign]
    by_cases hx : x = name
    · rw [if_pos hx, lookup, lookup, if_neg, if_neg]
      · rw [hx]; exact h.symm
      · rw [hx]; exact h.symm
    · rw [if_neg hx, lookup, lookup, ih]

theorem names_zipWith {parameters : List CVar} {words : List CalyndaRtWord}
    (hLength : parameters.length ≤ words.length) :
    names (List.zipWith (fun p w => (p.emitted, some w)) parameters words) =
      parameters.map CVar.emitted := by
  induction parameters generalizing words with
  | nil => rfl
  | cons p parameters ih =>
    cases words with
    | nil => exact absurd hLength (by simp)
    | cons w words => exact congrArg (p.emitted :: ·) (ih (Nat.le_of_succ_le_succ hLength))

/-- A frame is known from its names, when they are distinct, and from what they hold. -/
theorem eq_zipWith_of_lookup {parameters : List CVar} {words : List CalyndaRtWord}
    {frame : CFrame} (hNames : frame.names = parameters.map CVar.emitted)
    (hNodup : (parameters.map CVar.emitted).Nodup)
    (hLookup : List.Forall₂ (fun p w => lookup p.emitted frame = some (some w)) parameters
      words) : frame = List.zipWith (fun p w => (p.emitted, some w)) parameters words := by
  induction parameters generalizing words frame with
  | nil =>
    cases hLookup
    exact List.map_eq_nil_iff.1 hNames
  | cons p parameters ih =>
    cases hLookup with
    | @cons _ w _ words hFirst hRest =>
      obtain ⟨entry, rest, rfl, hEntry, hRestNames⟩ := List.map_eq_cons_iff.1 hNames
      obtain ⟨x, value⟩ := entry
      obtain rfl : x = p.emitted := hEntry
      obtain ⟨hNotMem, hNodup⟩ := List.nodup_cons.1 hNodup
      rw [lookup, if_pos rfl] at hFirst
      have hTail : List.Forall₂ (fun p w => lookup p.emitted rest = some (some w))
          parameters words := by
        rw [List.forall₂_iff_zip] at hRest ⊢
        refine ⟨hRest.1, fun {q w'} hq => ?_⟩
        have hNe : p.emitted ≠ q.emitted := fun hEq =>
          hNotMem (hEq ▸ List.mem_map_of_mem (List.of_mem_zip hq).1)
        have hLookup := hRest.2 hq
        rwa [lookup, if_neg hNe] at hLookup
      rw [List.zipWith_cons_cons, ← ih hRestNames hNodup hTail, Option.some.inj hFirst]

/-- What is looked up behind the first variables of a frame, when it is not among them. -/
theorem lookup_drop {name : String} {declared rest : List String} {frame : CFrame}
    (hNames : frame.names = declared ++ rest) (h : name ∉ declared) :
    lookup name (frame.drop declared.length) = lookup name frame := by
  induction declared generalizing frame with
  | nil => rfl
  | cons x declared ih =>
    obtain ⟨entry, frame, rfl, hEntry, hRest⟩ := List.map_eq_cons_iff.1 hNames
    obtain ⟨y, w⟩ := entry
    obtain rfl : y = x := hEntry
    rw [List.mem_cons, not_or] at h
    rw [List.length_cons, List.drop_succ_cons, ih hRest h.2, lookup, if_neg (Ne.symm h.1)]

end CFrame

/-! ## What does not occur -/

section
variable {S : Type} {u : CUnit} {rt : CRuntime S} {call : CallHandler S}

/-- A call does not see the frame it is made from. -/
def FrameBlind (call : CallHandler S) : Prop :=
  ∀ id arguments s frame, call id arguments { s with frame } = call id arguments s

/-- Frames of the variables `vars` that differ at most in the variables `changed`; the
second holds `value` in the variables `fixed`. -/
structure FramesAgree (vars changed fixed : List String)
    (value : String → Option (Option CalyndaRtWord)) (s t : CState S) : Prop where
  globals : s.globals = t.globals
  runtime : s.runtime = t.runtime
  left_names : s.frame.names = vars
  right_names : t.frame.names = vars
  lookup {name : String} (h : name ∉ changed) :
    CFrame.lookup name s.frame = CFrame.lookup name t.frame
  held {name : String} (h : name ∈ fixed) : CFrame.lookup name t.frame = value name

variable {vars changed fixed : List String} {value : String → Option (Option CalyndaRtWord)}

namespace FramesAgree

theorem readVar {name : String} (hName : name ∉ changed) :
    RelTriple (FramesAgree (S := S) vars changed fixed value) (readVar u rt name)
      (Calynda.readVar u rt name) (Same (FramesAgree vars changed fixed value)) Eq := by
  intro s t hst
  rw [readVar_eq, readVar_eq, ← hst.lookup hName, ← hst.globals, ← hst.runtime]
  cases u.macro? name with
  | some package => exact .ok ⟨rfl, hst⟩
  | none =>
    cases CFrame.lookup name s.frame with
    | some word =>
      cases word with
      | some word => exact .ok ⟨rfl, hst⟩
      | none => exact .error rfl
    | none =>
      cases s.globals name with
      | some word => exact .ok ⟨rfl, hst⟩
      | none => exact .error rfl

/-- The same assignment in both states, of a variable that is not held fixed. -/
theorem assign {name : String} {s t : CState S}
    (hst : FramesAgree vars changed fixed value s t) (word : CalyndaRtWord) (hFixed : name ∉ fixed) :
    FramesAgree vars changed fixed value
      { s with frame := CFrame.assign name word s.frame }
      { t with frame := CFrame.assign name word t.frame } where
  globals := hst.globals
  runtime := hst.runtime
  left_names := (CFrame.names_assign _ _ _).trans hst.left_names
  right_names := (CFrame.names_assign _ _ _).trans hst.right_names
  lookup {other} hOther := by
    by_cases hEq : other = name
    · subst hEq
      by_cases hMem : other ∈ vars
      · rw [CFrame.lookup_assign_self, CFrame.lookup_assign_self]
        · rwa [hst.right_names]
        · rwa [hst.left_names]
      · rw [CFrame.lookup_eq_none.2, CFrame.lookup_eq_none.2]
        · rwa [CFrame.names_assign, hst.right_names]
        · rwa [CFrame.names_assign, hst.left_names]
    · rw [CFrame.lookup_assign_of_ne hEq, CFrame.lookup_assign_of_ne hEq]
      exact hst.lookup hOther
  held {other} hOther := by
    have hNe : other ≠ name := fun hEq => hFixed (hEq ▸ hOther)
    rw [CFrame.lookup_assign_of_ne hNe]
    exact hst.held hOther

theorem lookup_isSome (name : String) {s t : CState S}
    (hst : FramesAgree vars changed fixed value s t) :
    (CFrame.lookup name s.frame).isSome = (CFrame.lookup name t.frame).isSome := by
  by_cases hMem : name ∈ vars
  · obtain ⟨w, hs⟩ := CFrame.exists_lookup (hst.left_names.symm ▸ hMem : name ∈ s.frame.names)
    obtain ⟨w', ht⟩ := CFrame.exists_lookup (hst.right_names.symm ▸ hMem : name ∈ t.frame.names)
    rw [hs, ht]
    rfl
  · rw [CFrame.lookup_eq_none.2, CFrame.lookup_eq_none.2]
    · rwa [hst.right_names]
    · rwa [hst.left_names]

theorem writeVar {name : String} (hName : name ∉ fixed) (word : CalyndaRtWord) :
    RelTriple (FramesAgree (S := S) vars changed fixed value) (writeVar u name word)
      (Calynda.writeVar u name word) (Same (FramesAgree vars changed fixed value)) Eq := by
  intro s t hst
  have hLookup := hst.lookup_isSome name
  have hAssign := hst.assign word hName
  obtain ⟨globals, frame, runtime⟩ := s
  obtain ⟨_, frame', _⟩ := t
  obtain rfl : globals = _ := hst.globals
  obtain rfl : runtime = _ := hst.runtime
  rw [writeVar_eq, writeVar_eq]
  cases u.macro? name with
  | some package => exact .error rfl
  | none =>
    cases hs : CFrame.lookup name frame with
    | some _ =>
      rw [hs, Option.isSome_some, eq_comm, Option.isSome_iff_exists] at hLookup
      obtain ⟨_, ht⟩ := hLookup
      simp only [ht]
      exact .ok ⟨rfl, hAssign⟩
    | none =>
      rw [hs, Option.isSome_none, eq_comm, Option.isSome_eq_false_iff,
        Option.isNone_iff_eq_none] at hLookup
      simp only [hLookup]
      cases globals name with
      | none => exact .error rfl
      | some _ => exact .ok ⟨rfl, ⟨rfl, rfl, hst.left_names, hst.right_names, hst.lookup, hst.held⟩⟩

theorem callCallable (hBlind : FrameBlind call) (callee : CalyndaRtWord)
    (arguments : List CalyndaRtWord) :
    RelTriple (FramesAgree (S := S) vars changed fixed value) (callCallable rt call callee arguments)
      (Calynda.callCallable rt call callee arguments) (Same (FramesAgree vars changed fixed value))
      Eq := by
  intro s t hst
  obtain ⟨globals, frame, runtime⟩ := s
  obtain ⟨_, frame', _⟩ := t
  obtain rfl : globals = _ := hst.globals
  obtain rfl : runtime = _ := hst.runtime
  rw [callCallable_eq, callCallable_eq]
  simp only
  cases rt.callee runtime callee with
  | closure id =>
    have hCall := hBlind id arguments { globals, frame, runtime } frame'
    simp only at hCall
    simp only [hCall]
    cases call id arguments { globals, frame, runtime } with
    | error halt => exact .error rfl
    | ok p => exact .ok ⟨rfl, ⟨rfl, rfl, hst.left_names, hst.right_names, hst.lookup, hst.held⟩⟩
  | other =>
    simp only [liftRt]
    cases rt.callOther callee arguments runtime with
    | error halt => exact .error rfl
    | ok p => exact .ok ⟨rfl, ⟨rfl, rfl, hst.left_names, hst.right_names, hst.lookup, hst.held⟩⟩

/-- A run of an expression that does not mention the changed variables and does not assign
to the fixed ones. -/
theorem keptByRuns (hBlind : FrameBlind call) :
    KeptByRuns u u rt call call (FramesAgree vars changed fixed value) (· ∉ changed) (· ∉ fixed) where
  runtime_eq hst := hst.runtime
  runtime_step hst _ _ _ _ _ _ := ⟨hst.globals, rfl, hst.left_names, hst.right_names, hst.lookup, hst.held⟩
  read hName := readVar hName
  write hName word := writeVar hName word
  callCallable := callCallable hBlind

end FramesAgree
/-! ## Assignments one after the other -/

def CExpr.Mentions (e : CExpr) (name : String) : Prop :=
  ∃ v, CExpr.var v ∈ e.atoms ∧ v.emitted = name

namespace CAssignment

/-- The assignment of a variable to itself. -/
def IsSelf (a : CAssignment) : Prop := a.value.lvalue? = some a.target.emitted

/-- An assignment does not change what a later one reads, and the later one does not change
what it has assigned. -/
def Unseen (earlier later : CAssignment) : Prop :=
  earlier.target.emitted ∉ later.value.assigned ∧
    (earlier.IsSelf ∨ ¬ later.value.Mentions earlier.target.emitted)

end CAssignment

/-- The value of a variable of the frame is what its name is looked up to. -/
theorem lookup_of_evalExpr {e : CExpr} {name : String} {s s' : CState S}
    {word : CalyndaRtWord} (hName : e.lvalue? = some name) (hMacro : u.macro? name = none)
    (hMem : name ∈ s.frame.names) (hRun : evalExpr u rt call e s = .ok (word, s')) :
    CFrame.lookup name s'.frame = some (some word) := by
  cases e with
  | var v =>
    obtain rfl : v.emitted = name := Option.some.inj hName
    obtain ⟨value, hLookup⟩ := CFrame.exists_lookup hMem
    rw [evalExpr, readVar_eq, hMacro, hLookup] at hRun
    cases value with
    | none => exact nomatch hRun
    | some value =>
      cases hRun
      exact hLookup
  | _ => exact nomatch hName

theorem writeVar_frame {name : String} {s : CState S} (hMacro : u.macro? name = none)
    (hMem : name ∈ s.frame.names) (word : CalyndaRtWord) :
    writeVar u name word s = .ok ((), { s with frame := CFrame.assign name word s.frame }) := by
  obtain ⟨value, hLookup⟩ := CFrame.exists_lookup hMem
  rw [writeVar_eq, hMacro, hLookup]

/-- What is left after the assignments: the variables hold the words. -/
structure Assigned (vars fixed : List String)
    (value : String → Option (Option CalyndaRtWord)) (as : List CAssignment)
    (words : List CalyndaRtWord) (s t : CState S) : Prop where
  globals : s.globals = t.globals
  runtime : s.runtime = t.runtime
  names : t.frame.names = vars
  held {name : String} (h : name ∈ fixed) : CFrame.lookup name t.frame = value name
  words : List.Forall₂ (fun a w => CFrame.lookup a.target.emitted t.frame = some (some w)) as
    words

/-- One assignment, of the word that its right-hand side has in both states. -/
theorem FramesAgree.step {a : CAssignment} {word : CalyndaRtWord} {s t : CState S}
    {changed' : List String} (hst : FramesAgree vars changed fixed value s t)
    (hMem : a.target.emitted ∈ vars)
    (hSub : ∀ name, name ∈ changed → name ∈ changed')
    (hSelf : a.target.emitted ∈ changed' ∨
      CFrame.lookup a.target.emitted s.frame = some (some word)) :
    FramesAgree vars changed' (a.target.emitted :: fixed)
      (fun name => if name = a.target.emitted then some (some word) else value name) s
      { t with frame := CFrame.assign a.target.emitted word t.frame } where
  globals := hst.globals
  runtime := hst.runtime
  left_names := hst.left_names
  right_names := (CFrame.names_assign _ _ _).trans hst.right_names
  lookup {name} hName := by
    by_cases hEq : name = a.target.emitted
    · subst hEq
      rw [CFrame.lookup_assign_self (hst.right_names.symm ▸ hMem)]
      exact hSelf.resolve_left hName
    · rw [CFrame.lookup_assign_of_ne hEq]
      exact hst.lookup fun hMem => hName (hSub name hMem)
  held {name} hName := by
    by_cases hEq : name = a.target.emitted
    · rw [if_pos hEq, hEq, CFrame.lookup_assign_self (hst.right_names.symm ▸ hMem)]
    · rw [if_neg hEq, CFrame.lookup_assign_of_ne hEq]
      exact hst.held ((List.mem_cons.1 hName).resolve_left hEq)

/-- The evaluation of all right-hand sides against the execution of the assignments. -/
theorem evalExprs_execAssignments (hBlind : FrameBlind call) {as : List CAssignment}
    {s t : CState S} (hst : FramesAgree vars changed fixed value s t)
    (hChanged : ∀ a ∈ as, ∀ name ∈ changed, ¬ a.value.Mentions name)
    (hFixed : ∀ a ∈ as, ∀ name ∈ fixed, name ∉ a.value.assigned)
    (hOrder : as.Pairwise CAssignment.Unseen)
    (hNodup : (as.map fun a => a.target.emitted).Nodup)
    (hTargets : ∀ a ∈ as, a.target.emitted ∉ fixed ∧ a.target.emitted ∈ vars ∧
      u.macro? a.target.emitted = none) :
    OutcomeRel (fun words _ s' t' => Assigned vars fixed value as words s' t') Eq
      (evalExprs u rt call (as.map CAssignment.value) s) (execAssignments u rt call as t) := by
  induction as generalizing s t changed fixed value with
  | nil => exact .ok ⟨hst.globals, hst.runtime, hst.right_names, hst.held, .nil⟩
  | cons a as ih =>
    obtain ⟨hTarget, hMem, hMacro⟩ := hTargets a List.mem_cons_self
    obtain ⟨hUnseen, hOrder⟩ := List.pairwise_cons.1 hOrder
    obtain ⟨hNotMem, hNodup⟩ := List.nodup_cons.1 hNodup
    have hKept : KeptByRuns u u rt call call (FramesAgree vars changed fixed value)
        (· ∉ changed) (· ∉ fixed) := FramesAgree.keptByRuns hBlind
    have hValue := hKept.evalExpr a.value
      (fun v hv hMem => hChanged a List.mem_cons_self v.emitted hMem ⟨v, hv, rfl⟩)
      (fun name hName hMem => hFixed a List.mem_cons_self name hMem hName) s t hst
    rw [List.map_cons, evalExprs, execAssignments]
    refine hValue.bind fun word _ s₁ t₁ hLeft _ hSame => ?_
    obtain ⟨rfl, hst₁⟩ := hSame
    have hMem₁ : a.target.emitted ∈ t₁.frame.names := hst₁.right_names.symm ▸ hMem
    rw [bind_ok (writeVar_frame hMacro hMem₁ word)]
    -- a self-assignment changes nothing, any other one its target
    obtain ⟨changed', hSub, hSelf, hSeen⟩ : ∃ changed' : List String,
        (∀ name, name ∈ changed → name ∈ changed') ∧
        (a.target.emitted ∈ changed' ∨
          CFrame.lookup a.target.emitted s₁.frame = some (some word)) ∧
        ∀ b ∈ as, ∀ name ∈ changed', ¬ b.value.Mentions name := by
      have hOld : ∀ b ∈ as, ∀ name ∈ changed, ¬ b.value.Mentions name :=
        fun b hb => hChanged b (List.mem_cons_of_mem a hb)
      by_cases hSelf : a.IsSelf
      · have hMem₀ : a.target.emitted ∈ s.frame.names := hst.left_names.symm ▸ hMem
        exact ⟨changed, fun _ => id, .inr (lookup_of_evalExpr hSelf hMacro hMem₀ hLeft), hOld⟩
      · refine ⟨a.target.emitted :: changed, fun _ => List.mem_cons_of_mem _,
          .inl List.mem_cons_self, ?_⟩
        intro b hb name hName
        rcases List.mem_cons.1 hName with rfl | hName
        · exact (hUnseen b hb).2.resolve_left hSelf
        · exact hOld b hb name hName
    have hRest := ih (hst₁.step hMem hSub hSelf) hSeen
      (fun b hb name hName => by
        rcases List.mem_cons.1 hName with rfl | hName
        · exact (hUnseen b hb).1
        · exact hFixed b (List.mem_cons_of_mem a hb) name hName)
      hOrder hNodup
      (fun b hb => by
        obtain ⟨hb₁, hb₂, hb₃⟩ := hTargets b (List.mem_cons_of_mem a hb)
        refine ⟨fun hName => ?_, hb₂, hb₃⟩
        rcases List.mem_cons.1 hName with hEq | hName
        · exact hNotMem (List.mem_map.2 ⟨b, hb, hEq⟩)
        · exact hb₁ hName)
    rw [← bind_pure (execAssignments u rt call as)]
    refine hRest.bind fun words _ s₂ t₂ _ _ hAssigned => .ok ?_
    have hTargetHeld := hAssigned.held List.mem_cons_self
    rw [if_pos rfl] at hTargetHeld
    refine ⟨hAssigned.globals, hAssigned.runtime, hAssigned.names, fun {name} hName => ?_,
      .cons hTargetHeld hAssigned.words⟩
    have hNe : name ≠ a.target.emitted := fun hEq => hTarget (hEq ▸ hName)
    rw [hAssigned.held (List.mem_cons_of_mem _ hName), if_neg hNe]

end

end Calynda
