import Calynda.Lib.CString
import Mathlib.Data.List.TakeWhile
import Mathlib.Data.Nat.Digits.Defs

/-!
# Templates at run time

A template is built from texts and words. A word is the handle of an object if its address is
registered, and a number otherwise. The two runtimes do the same with words of 32 and of 64 bits.
-/

namespace Calynda.Runtime

open FormatText

abbrev CText := List Char

/-! ## Objects -/

structure TypeDescriptor where
  name : CText
  variantNames : List CText

/-- What the runtime prints of an object. The bytes of a string are counted, and may contain a
terminator; names end at theirs. -/
inductive RtObject where
  | string (bytes : CText)
  | array (count : Nat)
  | closure
  | package (name : CText)
  | externCallable (name : CText)
  | union (typeDesc : Option TypeDescriptor) (tag : Nat)
  | heteroArray (count : Nat)

def nul : Char := Char.ofNat 0

/-- The name of the variant with a tag. -/
def variantName (typeDesc : Option TypeDescriptor) (tag : Nat) : CText :=
  ((typeDesc.bind fun d => d.variantNames[tag]?).getD ['?'])

/-- The whole text of an object. -/
def RtObject.fullText : RtObject → CText
  | .string bytes => bytes
  | .array count => "<array:".toList ++ Nat.toDigits 10 count ++ ['>']
  | .closure => "<closure>".toList
  | .package name => "<package:".toList ++ name ++ ['>']
  | .externCallable name => "<extern:".toList ++ name ++ ['>']
  | .union typeDesc tag =>
    '<' :: (typeDesc.elim "union".toList TypeDescriptor.name ++ "::".toList ++
      variantName typeDesc tag ++ ['>'])
  | .heteroArray count => "<hetero-array:".toList ++ Nat.toDigits 10 count ++ ['>']

/-- What the formats print of an object: of a string, what stands before a terminator. -/
def RtObject.formatText : RtObject → CText
  | .string bytes => bytes.takeWhile (· ≠ nul)
  | o => o.fullText

/-! ## The runtime -/

/-- The objects with fixed addresses, the registry, and what stands at the addresses. -/
structure RtState (w : Nat) where
  statics : List (BitVec w)
  items : List (BitVec w)
  objectAt : BitVec w → RtObject

variable {w : Nat}

namespace RtState

/-- `calynda_rt_as_object`. -/
def asObject (st : RtState w) (word : BitVec w) : Option RtObject :=
  if word = 0 then none
  else if word ∈ st.statics ∨ word ∈ st.items then some (st.objectAt word)
  else none

/-- `rt_new_string_object` with the memory at `addr`, which it registers. -/
def newStringObject (st : RtState w) (addr : BitVec w) (bytes : CText) : RtState w :=
  { st with
    items := if addr = 0 ∨ addr ∈ st.items then st.items else st.items ++ [addr]
    objectAt := Function.update st.objectAt addr (.string bytes) }

def wordTextSize : Nat := 256

/-- `rt_format_word_internal` into the buffer for the text of a word. -/
def formatWord (st : RtState w) (word : BitVec w) : CText :=
  CString.snprintf wordTextSize
    (match st.asObject word with
    | none => signedDigits word.toInt
    | some o => o.formatText)

end RtState

/-- A part with the text that its payload points to, or with the word. -/
inductive TemplatePart (w : Nat) where
  | text (text : Option CText)
  | value (word : BitVec w)
  | unknown (tag : Nat)

/-- The buffer is missing until something is appended. -/
def bufAppendText (buffer : Option CText) (text : CText) : Option CText :=
  some (buffer.getD [] ++ text)

/-- The loop over the parts. It aborts at an unknown tag. -/
def templateParts (st : RtState w) : List (TemplatePart w) → Option CText → Option (Option CText)
  | [], buffer => some buffer
  | .text t :: rest, buffer => templateParts st rest (bufAppendText buffer (t.getD []))
  | .value word :: rest, buffer =>
    templateParts st rest (bufAppendText buffer (st.formatWord word))
  | .unknown _ :: _, _ => none

/-- `__calynda_rt_template_build`, where the memory for the result is at `addr`. -/
def templateBuild (st : RtState w) (addr : BitVec w) (parts : List (TemplatePart w)) :
    Option (BitVec w × RtState w) :=
  (templateParts st parts none).map fun buffer =>
    (addr, st.newStringObject addr (buffer.getD []))

/-- Templates that each append a text to the string built before. -/
def appendTemplates : RtState w → BitVec w → List (BitVec w × CText) → Option (BitVec w × RtState w)
  | st, handle, [] => some (handle, st)
  | st, handle, (addr, text) :: rest => do
    let (handle', st') ← templateBuild st addr [.value handle, .text (some text)]
    appendTemplates st' handle' rest

/-! ## What a template should be -/

/-- A part as the program means it. -/
inductive TemplateValue where
  | text (text : CText)
  | int32 (n : BitVec 32)
  | object (o : RtObject)

def TemplateValue.fullText : TemplateValue → CText
  | .text t => t
  | .int32 n => signedDigits n.toInt
  | .object o => o.fullText

/-- The part that stands for a value: a number is its word, a live object its handle. -/
def Encodes (st : RtState w) : TemplateValue → TemplatePart w → Prop
  | .text t, part => part = .text (some t)
  | .int32 n, part => part = .value (n.signExtend w)
  | .object o, part => ∃ word, st.asObject word = some o ∧ part = .value word

/-- The string that is built has the bytes. -/
def BuildsString (st : RtState w) (addr : BitVec w) (parts : List (TemplatePart w))
    (bytes : CText) : Prop :=
  ∃ st', templateBuild st addr parts = some (addr, st') ∧
    st'.asObject addr = some (.string bytes)

def Concatenates (st : RtState w) (vs : List TemplateValue) : Prop :=
  ∀ addr, addr ≠ 0 → ∀ parts, List.Forall₂ (Encodes st) vs parts →
    BuildsString st addr parts (vs.flatMap TemplateValue.fullText)

def KeepsBytes (st : RtState w) (handle : BitVec w) (bytes : CText)
    (steps : List (BitVec w × CText)) : Prop :=
  ∃ handle' st', appendTemplates st handle steps = some (handle', st') ∧
    st'.asObject handle' = some (.string (bytes ++ (steps.map Prod.snd).flatten))

/-- No terminator in the bytes of a string. -/
def RtObject.Plain : RtObject → Prop
  | .string bytes => nul ∉ bytes
  | _ => True

/-- The word of a number is not the handle of an object, other than one that prints as the number;
the text of an object is no longer than the buffer and has no terminator in it. -/
def Fits (st : RtState w) : TemplateValue → Prop
  | .text _ => True
  | .int32 n => ∀ o, st.asObject (n.signExtend w) = some o →
      CString.snprintf RtState.wordTextSize o.formatText = signedDigits n.toInt
  | .object o => o.Plain ∧ o.fullText.length < RtState.wordTextSize

/-- Every string that a text is appended to fits the buffer. -/
def AppendsFit : Nat → List CText → Prop
  | _, [] => True
  | len, text :: rest => len < RtState.wordTextSize ∧ AppendsFit (len + text.length) rest

/-! ## One part -/

section Part

variable {st : RtState w} {word : BitVec w} {addr : BitVec w}

theorem takeWhile_plain_iff (bytes : CText) : bytes.takeWhile (· ≠ nul) = bytes ↔ nul ∉ bytes := by
  rw [List.takeWhile_eq_self_iff]
  refine ⟨fun h hNul => absurd (h nul hNul) (by simp), fun h c hc => ?_⟩
  rw [decide_eq_true_iff]
  exact fun hEq => h (hEq ▸ hc)

theorem RtObject.formatText_prefix (o : RtObject) : o.formatText <+: o.fullText := by
  cases o with
  | string bytes => exact List.takeWhile_prefix _
  | _ => exact List.prefix_refl _

theorem RtObject.formatText_eq_iff (o : RtObject) : o.formatText = o.fullText ↔ o.Plain := by
  cases o with
  | string bytes => exact takeWhile_plain_iff bytes
  | _ => exact iff_of_true rfl trivial

/-- The buffer holds the whole text exactly when the text is plain and short enough. -/
theorem snprintf_formatText_iff (o : RtObject) :
    CString.snprintf RtState.wordTextSize o.formatText = o.fullText ↔
      o.Plain ∧ o.fullText.length < RtState.wordTextSize := by
  have hSize : 0 < RtState.wordTextSize := by decide
  constructor
  · intro h
    have hShort := CString.length_snprintf_lt hSize o.formatText
    rw [h] at hShort
    refine ⟨o.formatText_eq_iff.mp (o.formatText_prefix.eq_of_length_le ?_), hShort⟩
    rw [← h, CString.snprintf, List.length_take]
    exact Nat.min_le_right ..
  · rintro ⟨hPlain, hShort⟩
    rw [o.formatText_eq_iff.mpr hPlain, CString.snprintf_of_lt hShort]

theorem formatWord_of_object {o : RtObject} (h : st.asObject word = some o) :
    st.formatWord word = CString.snprintf RtState.wordTextSize o.formatText := by
  rw [RtState.formatWord, h]

theorem length_signedDigits_lt (n : BitVec 32) :
    (signedDigits n.toInt).length < RtState.wordTextSize := by
  have hUpper := n.toInt_lt
  have hLower := n.le_toInt
  have hSize : RtState.wordTextSize = 256 := rfl
  rw [hSize]
  cases hInt : n.toInt with
  | ofNat k =>
    rw [hInt, Int.ofNat_eq_natCast] at hUpper
    have hLength := Nat.toDigits_length 10 k 10 (by omega) (by omega)
    exact Nat.lt_of_le_of_lt hLength (by omega)
  | negSucc k =>
    rw [hInt] at hLower
    have hLength := Nat.toDigits_length 10 (k + 1) 10 (by omega) (by omega)
    rw [signedDigits, List.length_cons]
    omega

/-- What a part appends that stands for a value. -/
def shown (st : RtState w) : TemplateValue → CText
  | .text t => t
  | .int32 n => st.formatWord (n.signExtend w)
  | .object o => CString.snprintf RtState.wordTextSize o.formatText

/-- A value is shown in full exactly when it fits. -/
theorem shown_eq_iff (hWidth : 32 ≤ w) (v : TemplateValue) :
    shown st v = v.fullText ↔ Fits st v := by
  cases v with
  | text t => exact iff_of_true rfl trivial
  | object o => exact snprintf_formatText_iff o
  | int32 n =>
    unfold shown TemplateValue.fullText Fits
    cases hObject : st.asObject (n.signExtend w) with
    | none =>
      refine iff_of_true ?_ fun o ho => nomatch hObject.symm.trans ho
      dsimp only
      rw [RtState.formatWord, hObject]
      dsimp only
      rw [BitVec.toInt_signExtend_of_le hWidth, CString.snprintf_of_lt (length_signedDigits_lt n)]
    | some o =>
      dsimp only
      rw [formatWord_of_object hObject]
      exact ⟨fun h o' ho' => Option.some.inj (hObject.symm.trans ho') ▸ h, fun h => h o hObject⟩

/-- The loop appends what the values show. -/
theorem templateParts_eq {vs : List TemplateValue} {parts : List (TemplatePart w)}
    (h : List.Forall₂ (Encodes st) vs parts) (buffer : Option CText) :
    ∃ buffer', templateParts st parts buffer = some buffer' ∧
      buffer'.getD [] = buffer.getD [] ++ vs.flatMap (shown st) := by
  induction h generalizing buffer with
  | nil => exact ⟨buffer, rfl, (List.append_nil _).symm⟩
  | @cons v part vs parts hPart _ ih =>
    have hStep : templateParts st (part :: parts) buffer =
        templateParts st parts (bufAppendText buffer (shown st v)) := by
      cases v with
      | text t =>
        cases hPart
        rfl
      | int32 n =>
        cases hPart
        rfl
      | object o =>
        obtain ⟨word, hWord, rfl⟩ := hPart
        rw [templateParts, formatWord_of_object hWord]
        rfl
    obtain ⟨buffer', hRun, hText⟩ := ih (bufAppendText buffer (shown st v))
    refine ⟨buffer', hStep.trans hRun, ?_⟩
    rw [hText, List.flatMap_cons, ← List.append_assoc]
    rfl

theorem asObject_newStringObject (hAddr : addr ≠ 0) (bytes : CText) :
    (st.newStringObject addr bytes).asObject addr = some (.string bytes) := by
  unfold RtState.asObject RtState.newStringObject
  dsimp only
  rw [if_neg hAddr, Function.update_self, if_pos]
  by_cases hIn : addr ∈ st.items
  · exact .inr (by rw [if_pos (.inr hIn)]; exact hIn)
  · refine .inr ?_
    rw [if_neg (not_or.mpr ⟨hAddr, hIn⟩)]
    exact List.mem_append_right _ (List.mem_singleton_self addr)

theorem templateBuild_eq {vs : List TemplateValue} {parts : List (TemplatePart w)}
    (h : List.Forall₂ (Encodes st) vs parts) (addr : BitVec w) :
    templateBuild st addr parts =
      some (addr, st.newStringObject addr (vs.flatMap (shown st))) := by
  obtain ⟨buffer', hRun, hText⟩ := templateParts_eq h none
  rw [templateBuild, hRun, Option.map_some, hText]
  rfl

theorem buildsString_iff {vs : List TemplateValue} {parts : List (TemplatePart w)}
    (h : List.Forall₂ (Encodes st) vs parts) (hAddr : addr ≠ 0) (bytes : CText) :
    BuildsString st addr parts bytes ↔ vs.flatMap (shown st) = bytes := by
  unfold BuildsString
  rw [templateBuild_eq h addr]
  refine ⟨fun ⟨st', hBuild, hObject⟩ => ?_, fun hEq => ⟨_, rfl, ?_⟩⟩
  · obtain ⟨-, rfl⟩ := Prod.mk.inj (Option.some.inj hBuild)
    rw [asObject_newStringObject hAddr] at hObject
    exact RtObject.string.inj (Option.some.inj hObject)
  · rw [asObject_newStringObject hAddr, hEq]

end Part

/-! ## Lists of parts -/

section Lists

variable {st : RtState w} {V : TemplateValue → Prop}

/-- All templates of some values are right exactly when each of the values fits. -/
theorem concatenates_iff (hWidth : 32 ≤ w) (hLive : ∀ v, V v → ∃ part, Encodes st v part) :
    (∀ vs, (∀ v ∈ vs, V v) → Concatenates st vs) ↔ ∀ v, V v → Fits st v := by
  constructor
  · intro h v hv
    obtain ⟨part, hPart⟩ := hLive v hv
    have hOne : (1 : BitVec w) ≠ 0 := fun hEq => by
      have hNat : (BitVec.ofNat w 1).toNat = (BitVec.ofNat w 0).toNat := congrArg BitVec.toNat hEq
      rw [BitVec.toNat_ofNat, BitVec.toNat_ofNat, Nat.mod_eq_of_lt (Nat.one_lt_two_pow (by omega))]
        at hNat
      exact absurd hNat (by simp)
    have hParts : List.Forall₂ (Encodes st) [v] [part] := .cons hPart .nil
    have hBuilt := h [v] (fun v' hv' => by rwa [List.mem_singleton.mp hv']) 1 hOne [part] hParts
    rw [buildsString_iff hParts hOne, List.flatMap_singleton, List.flatMap_singleton] at hBuilt
    exact (shown_eq_iff hWidth v).mp hBuilt
  · intro h vs hvs addr hAddr parts hParts
    rw [buildsString_iff hParts hAddr]
    refine congrArg List.flatten (List.map_congr_left fun v hv => ?_)
    exact (shown_eq_iff hWidth v).mpr (h v (hvs v hv))

end Lists

/-! ## Appending template after template -/

section Appending

/-- What is left of the bytes of a string when it is appended to. -/
def appendedText : CText → List CText → CText
  | bytes, [] => bytes
  | bytes, text :: rest => appendedText (CString.snprintf RtState.wordTextSize bytes ++ text) rest

theorem appendTemplates_eq {st : RtState w} {handle : BitVec w} {bytes : CText}
    {steps : List (BitVec w × CText)} (hLive : st.asObject handle = some (.string bytes))
    (hPlain : nul ∉ bytes) (hSteps : ∀ x ∈ steps, x.1 ≠ 0 ∧ nul ∉ x.2) :
    ∃ handle' st', appendTemplates st handle steps = some (handle', st') ∧
      st'.asObject handle' = some (.string (appendedText bytes (steps.map Prod.snd))) := by
  induction steps generalizing st handle bytes with
  | nil => exact ⟨handle, st, rfl, hLive⟩
  | cons x rest ih =>
    obtain ⟨addr, text⟩ := x
    obtain ⟨hAddr, hText⟩ := hSteps (addr, text) List.mem_cons_self
    have hParts : List.Forall₂ (Encodes st) [.object (.string bytes), .text text]
        [.value handle, .text (some text)] := .cons ⟨handle, hLive, rfl⟩ (.cons rfl .nil)
    have hBytes : [TemplateValue.object (.string bytes), .text text].flatMap (shown st) =
        CString.snprintf RtState.wordTextSize bytes ++ text := by
      have hFormat := (RtObject.formatText_eq_iff (.string bytes)).mpr hPlain
      change CString.snprintf _ (RtObject.string bytes).formatText ++ (text ++ []) = _
      rw [hFormat, List.append_nil]
      rfl
    have hNext : nul ∉ CString.snprintf RtState.wordTextSize bytes ++ text := by
      rw [List.mem_append, not_or]
      exact ⟨fun hIn => hPlain (List.mem_of_mem_take hIn), hText⟩
    rw [appendTemplates, templateBuild_eq hParts addr, hBytes]
    exact ih (asObject_newStringObject hAddr _) hNext fun x hx => hSteps x (List.mem_cons_of_mem _ hx)

theorem length_appendedText_le (bytes : CText) (texts : List CText) :
    (appendedText bytes texts).length ≤ bytes.length + texts.flatten.length := by
  induction texts generalizing bytes with
  | nil => exact Nat.le_add_right ..
  | cons text rest ih =>
    have hRest := ih (CString.snprintf RtState.wordTextSize bytes ++ text)
    have hTake : (CString.snprintf RtState.wordTextSize bytes).length ≤ bytes.length := by
      rw [CString.snprintf, List.length_take]
      exact Nat.min_le_right ..
    rw [List.length_append] at hRest
    rw [appendedText, List.flatten_cons, List.length_append]
    omega

/-- No byte is lost exactly when each string that is appended to fits. -/
theorem appendedText_eq_iff (bytes : CText) (texts : List CText) :
    appendedText bytes texts = bytes ++ texts.flatten ↔ AppendsFit bytes.length texts := by
  induction texts generalizing bytes with
  | nil => exact iff_of_true (List.append_nil _).symm trivial
  | cons text rest ih =>
    by_cases hShort : bytes.length < RtState.wordTextSize
    · rw [appendedText, CString.snprintf_of_lt hShort, List.flatten_cons, ← List.append_assoc, ih,
        List.length_append]
      exact (and_iff_right hShort).symm
    · refine iff_of_false (fun hEq => ?_) fun h => hShort h.1
      have hLength := congrArg List.length hEq
      have hBound := length_appendedText_le (CString.snprintf RtState.wordTextSize bytes ++ text) rest
      have hLess := CString.length_snprintf_lt (show 0 < RtState.wordTextSize by decide) bytes
      rw [List.length_append] at hBound
      rw [appendedText, List.length_append, List.flatten_cons, List.length_append] at hLength
      omega

theorem keepsBytes_iff {st : RtState w} {handle : BitVec w} {bytes : CText}
    {steps : List (BitVec w × CText)} (hLive : st.asObject handle = some (.string bytes))
    (hPlain : nul ∉ bytes) (hSteps : ∀ x ∈ steps, x.1 ≠ 0 ∧ nul ∉ x.2) :
    KeepsBytes st handle bytes steps ↔ AppendsFit bytes.length (steps.map Prod.snd) := by
  obtain ⟨handle', st', hRun, hObject⟩ := appendTemplates_eq hLive hPlain hSteps
  unfold KeepsBytes
  rw [hRun, ← appendedText_eq_iff]
  refine ⟨fun ⟨_, _, hSame, hBytes⟩ => ?_, fun hEq => ⟨handle', st', rfl, hEq ▸ hObject⟩⟩
  obtain ⟨rfl, rfl⟩ := Prod.mk.inj (Option.some.inj hSame)
  exact RtObject.string.inj (Option.some.inj (hObject.symm.trans hBytes))

end Appending

/-! ## Both runtimes -/

/-- The templates of some live values are their texts in both runtimes exactly when each value
fits in both, and appending to a string keeps its bytes exactly when each string that is appended
to fits the buffer. -/
theorem templates_iff (wii : RtState 32) (host : RtState 64) (V : TemplateValue → Prop)
    (hWii : ∀ v, V v → ∃ part, Encodes wii v part)
    (hHost : ∀ v, V v → ∃ part, Encodes host v part) :
    ((∀ vs, (∀ v ∈ vs, V v) → Concatenates wii vs ∧ Concatenates host vs) ↔
      ∀ v, V v → Fits wii v ∧ Fits host v) ∧
    (∀ handle bytes steps, wii.asObject handle = some (.string bytes) → nul ∉ bytes →
      (∀ x ∈ steps, x.1 ≠ 0 ∧ nul ∉ x.2) →
        (KeepsBytes wii handle bytes steps ↔ AppendsFit bytes.length (steps.map Prod.snd))) ∧
    ∀ handle bytes steps, host.asObject handle = some (.string bytes) → nul ∉ bytes →
      (∀ x ∈ steps, x.1 ≠ 0 ∧ nul ∉ x.2) →
        (KeepsBytes host handle bytes steps ↔ AppendsFit bytes.length (steps.map Prod.snd)) := by
  refine ⟨?_, fun _ _ _ => keepsBytes_iff, fun _ _ _ => keepsBytes_iff⟩
  simp only [forall_and, concatenates_iff (by decide : 32 ≤ 32) hWii,
    concatenates_iff (by decide : 32 ≤ 64) hHost]

/-- A registry with one string, at address 0x1000. -/
def oneString (w : Nat) (bytes : CText) : RtState w where
  statics := []
  items := [0x1000]
  objectAt _ := .string bytes

/-- The number and the string of the test of the runtime. -/
def smallValue (v : TemplateValue) : Prop := v = .int32 42 ∨ v = .text "value ".toList

theorem templates_small :
    (∀ vs, (∀ v ∈ vs, smallValue v) →
      Concatenates (oneString 32 []) vs ∧ Concatenates (oneString 64 []) vs) ↔
      ∀ v, smallValue v → Fits (oneString 32 []) v ∧ Fits (oneString 64 []) v := by
  refine (templates_iff (oneString 32 []) (oneString 64 []) smallValue ?_ ?_).1
  · rintro v (rfl | rfl)
    · exact ⟨_, rfl⟩
    · exact ⟨_, rfl⟩
  · rintro v (rfl | rfl)
    · exact ⟨_, rfl⟩
    · exact ⟨_, rfl⟩

theorem not_concatenates_of_shown {st : RtState w} {vs : List TemplateValue}
    {parts : List (TemplatePart w)} (h : List.Forall₂ (Encodes st) vs parts) {addr : BitVec w}
    (hAddr : addr ≠ 0) (hShown : vs.flatMap (shown st) ≠ vs.flatMap TemplateValue.fullText) :
    ¬ Concatenates st vs := fun hAll =>
  hShown ((buildsString_iff h hAddr _).mp (hAll addr hAddr parts h))

/-- A string of 256 bytes loses the last one, and the number 4096 is shown as the string at that
address. -/
theorem not_concatenates_long :
    ¬ Concatenates (oneString 32 (List.replicate 256 'x'))
      [.object (.string (List.replicate 256 'x'))] ∧
    ¬ Concatenates (oneString 32 ['x']) [.int32 0x1000] := by
  have hLong : List.Forall₂ (Encodes (oneString 32 (List.replicate 256 'x')))
      [.object (.string (List.replicate 256 'x'))] [.value 0x1000] := .cons ⟨0x1000, rfl, rfl⟩ .nil
  have hNumber : List.Forall₂ (Encodes (oneString 32 ['x'])) [.int32 0x1000] [.value 0x1000] :=
    .cons rfl .nil
  constructor
  · refine not_concatenates_of_shown hLong (by decide : (0x2000 : BitVec 32) ≠ 0) fun hEq => ?_
    rw [List.flatMap_singleton, List.flatMap_singleton, shown_eq_iff (le_refl 32)] at hEq
    have hLess : (List.replicate 256 'x').length < 256 := hEq.2
    rw [List.length_replicate] at hLess
    exact absurd hLess (lt_irrefl _)
  · refine not_concatenates_of_shown hNumber (by decide : (0x2000 : BitVec 32) ≠ 0) fun hEq => ?_
    have hLength := congrArg List.length hEq
    exact absurd hLength (by decide)

end Calynda.Runtime
