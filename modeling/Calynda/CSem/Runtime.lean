import Calynda.CSem.Simulation

/-!
# The runtime library

`calynda_runtime.c`: the registry of objects, the texts that are printed and the operations
that the emitted text calls. Strings are texts of one byte a character. The allocator, the
float unit, the bridges to the console and the linked C functions are a `RtPlatform`.
-/

namespace Calynda

/-- An object, by its `CalyndaRtObjectKind`: the emitted text makes no union and no
heterogeneous array. -/
inductive CalyndaRtObject where
  | string (bytes : String)
  | array (elements : List CalyndaRtWord)
  | closure (entry : Nat)
  | package (name : String)
  | externCallable (kind : Nat) (name : String)
  deriving DecidableEq, Repr

/-- `OBJECT_REGISTRY`, with the objects behind the pointers, and the lines printed so far. -/
structure RtMemory where
  registry : List (BitVec 32 × CalyndaRtObject)
  printed : List String := []
  deriving DecidableEq, Repr

namespace RtMemory

def find (address : BitVec 32) : List (BitVec 32 × CalyndaRtObject) → Option CalyndaRtObject
  | [] => none
  | (a, object) :: rest => if a = address then some object else find address rest

/-- `calynda_rt_as_object`: the static objects are registered from the start. -/
def asObject (m : RtMemory) (word : CalyndaRtWord) : Option CalyndaRtObject :=
  if word.bits = 0 then none else find word.bits m.registry

def addresses (m : RtMemory) : List (BitVec 32) := m.registry.map Prod.fst

/-- The memory with an object in place of another. -/
def replace (address : BitVec 32) (object : CalyndaRtObject) (m : RtMemory) : RtMemory :=
  { m with registry := m.registry.map fun p => if p.1 = address then (p.1, object) else p }

/-- Every closure is still there. -/
def KeepsClosures (m m' : RtMemory) : Prop :=
  ∀ word entry, m.asObject word = some (.closure entry) →
    m'.asObject word = some (.closure entry)

theorem KeepsClosures.refl (m : RtMemory) : m.KeepsClosures m := fun _ _ h => h

end RtMemory

/-- The machine below the runtime. -/
structure RtPlatform where
  /-- `calynda_gc_alloc`, given the addresses in use. -/
  malloc : List (BitVec 32) → Option (BitVec 32)
  floatConstant : String → BitVec 32
  charConstant : String → Option (BitVec 32)
  floatArith : CInfix → BitVec 32 → BitVec 32 → Option (BitVec 32)
  floatCompare : CInfix → BitVec 32 → BitVec 32 → Option Bool
  floatNegate : BitVec 32 → BitVec 32
  floatOfWord : BitVec 32 → BitVec 32
  packageAddress : String → BitVec 32
  printAddress : BitVec 32
  externAddress : String → BitVec 32
  /-- `calynda_wpad_member_load` and its siblings; 0 when there is no such member. -/
  bridgeMemberLoad : String → String → BitVec 32
  /-- `calynda_wpad_dispatch` and its siblings. -/
  bridgeDispatch : Nat → List CalyndaRtWord → RtM RtMemory CalyndaRtWord
  externCall : String → List CalyndaRtWord → RtM RtMemory CalyndaRtWord
  malloc_fresh {used : List (BitVec 32)} {address : BitVec 32}
    (h : malloc used = some address) : address ≠ 0 ∧ address ∉ used
  bridgeDispatch_keeps {kind : Nat} {arguments : List CalyndaRtWord} {m m' : RtMemory}
    {word : CalyndaRtWord} (h : bridgeDispatch kind arguments m = .ok (word, m')) :
    m.KeepsClosures m'
  externCall_keeps {name : String} {arguments : List CalyndaRtWord} {m m' : RtMemory}
    {word : CalyndaRtWord} (h : externCall name arguments m = .ok (word, m')) :
    m.KeepsClosures m'

def rtAbort {α : Type} (message : String) : RtM RtMemory α := fun m =>
  .error { reason := .aborted message, runtime := m }

/-! ## Texts -/

/-- The text that `snprintf` leaves in a buffer of `size` bytes. -/
def snprintf (size : Nat) (text : String) : String :=
  String.ofList (text.toList.take (size - 1))

/-- `rt_format_word_internal`, into a buffer that is large enough. -/
def rtFormatWord (m : RtMemory) (word : CalyndaRtWord) : String :=
  match m.asObject word with
  | none => toString word.bits.toInt
  | some (.string bytes) => bytes
  | some (.array elements) => "<array:" ++ toString elements.length ++ ">"
  | some (.closure _) => "<closure>"
  | some (.package name) => "<package:" ++ name ++ ">"
  | some (.externCallable _ name) => "<extern:" ++ name ++ ">"

/-- `calynda_rt_object_kind_name`. -/
def calyndaRtObjectKindName : CalyndaRtObject → String
  | .string _ => "string"
  | .array _ => "array"
  | .closure _ => "closure"
  | .package _ => "package"
  | .externCallable _ _ => "extern-callable"

/-- The decimal digits at the front, after the number `acc`. -/
def strtollDigits : Nat → List Char → Nat
  | acc, [] => acc
  | acc, c :: cs =>
    if '0' ≤ c ∧ c ≤ '9' then strtollDigits (acc * 10 + (c.toNat - '0'.toNat)) cs else acc

/-- `strtoll` with base ten: blanks, a sign, and digits; the value is clamped to 64 bits. -/
def strtoll (text : String) : Int :=
  let clamp (value : Int) : Int := max (-2 ^ 63) (min value (2 ^ 63 - 1))
  match text.toList.dropWhile Char.isWhitespace with
  | '-' :: ds => clamp (-strtollDigits 0 ds)
  | '+' :: ds => clamp (strtollDigits 0 ds)
  | ds => clamp (strtollDigits 0 ds)

/-! ## Operations -/

namespace RtPlatform

variable (p : RtPlatform)

/-- An object of its own: `rt_new_string_object` and its siblings. -/
def newObject (object : CalyndaRtObject) (outOfMemory : String) : RtM RtMemory CalyndaRtWord :=
  fun m =>
    match p.malloc m.addresses with
    | some address =>
      .ok ({ bits := address }, { m with registry := (address, object) :: m.registry })
    | none => rtAbort outOfMemory m

/-- `calynda_rt_make_string_copy`. -/
def makeStringCopy (bytes : String) : RtM RtMemory CalyndaRtWord :=
  p.newObject (.string bytes) "runtime: out of memory while creating string"

/-- `__calynda_rt_template_build`: a value has at most 255 bytes. -/
def templateBuild (parts : List RtTemplatePart) : RtM RtMemory CalyndaRtWord := fun m =>
  let text := String.join (parts.map fun
    | .text text => text
    | .value word => snprintf 256 (rtFormatWord m word))
  p.newObject (.string text) "runtime: out of memory boxing template result" m

/-- `__calynda_rt_closure_new`, for a function without captures. -/
def closureNew (entry : Nat) : RtM RtMemory CalyndaRtWord :=
  p.newObject (.closure entry) "runtime: out of memory creating closure"

/-- `__calynda_rt_array_literal`. -/
def arrayLiteral (elements : List CalyndaRtWord) : RtM RtMemory CalyndaRtWord :=
  p.newObject (.array elements) "runtime: out of memory creating array"

/-- `rt_dispatch_extern_callable`. -/
def dispatchExternCallable (kind : Nat) (arguments : List CalyndaRtWord) :
    RtM RtMemory CalyndaRtWord := fun m =>
  if kind = 0 then
    let line := match arguments with
      | word :: _ => snprintf 256 (rtFormatWord m word)
      | [] => ""
    .ok (.zero, { m with printed := m.printed ++ [line] })
  else rtAbort ("runtime: unsupported extern callable kind " ++ toString kind) m

/-- `__calynda_rt_call_callable`, for what is not a closure. -/
def callOther (callee : CalyndaRtWord) (arguments : List CalyndaRtWord) :
    RtM RtMemory CalyndaRtWord := fun m =>
  match m.asObject callee with
  | none =>
    rtAbort ("runtime: attempted to call a non-callable raw word (" ++
      toString callee.bits.toNat ++ ")") m
  | some (.externCallable kind _) =>
    if 100 ≤ kind then p.bridgeDispatch kind arguments m
    else dispatchExternCallable kind arguments m
  | some object =>
    rtAbort ("runtime: object of kind " ++ calyndaRtObjectKindName object ++
      " is not callable") m

/-- `__calynda_rt_member_load`. -/
def memberLoad (target : CalyndaRtWord) (member : String) : RtM RtMemory CalyndaRtWord :=
  fun m =>
    match m.asObject target with
    | none => rtAbort "runtime: member access on non-object value" m
    | some (.package package) =>
      if package = "stdlib" ∧ member = "print" then .ok ({ bits := p.printAddress }, m)
      else if p.bridgeMemberLoad package member ≠ 0 then
        .ok ({ bits := p.bridgeMemberLoad package member }, m)
      else rtAbort ("runtime: unsupported member load ." ++ member) m
    | some _ => rtAbort ("runtime: unsupported member load ." ++ member) m

/-- `__calynda_rt_index_load`: a negative index is a large one. -/
def indexLoad (target index : CalyndaRtWord) : RtM RtMemory CalyndaRtWord := fun m =>
  match m.asObject target with
  | some (.array elements) =>
    match elements[index.bits.toNat]? with
    | some word => .ok (word, m)
    | none =>
      rtAbort ("runtime: array index out of bounds (" ++ toString index.bits.toNat ++ ")") m
  | _ => rtAbort "runtime: index load on non-array value" m

/-- `__calynda_rt_store_index`. -/
def storeIndex (target index value : CalyndaRtWord) : RtM RtMemory Unit := fun m =>
  match m.asObject target with
  | some (.array elements) =>
    if index.bits.toNat < elements.length then
      .ok ((), m.replace target.bits (.array (elements.set index.bits.toNat value)))
    else
      rtAbort ("runtime: array index out of bounds (" ++ toString index.bits.toNat ++ ")") m
  | _ => rtAbort "runtime: index store on non-array value" m

/-- `__calynda_rt_throw`. -/
def throwWord (word : CalyndaRtWord) : RtM RtMemory Unit := fun m =>
  rtAbort ("Unhandled throw: " ++ snprintf 256 (rtFormatWord m word)) m

/-- `__calynda_rt_cast_value`. -/
def castValue (source : CalyndaRtWord) (tag : CalyndaRtTypeTag) : RtM RtMemory CalyndaRtWord :=
  fun m =>
    match tag with
    | .bool => .ok ({ bits := boolBits (source.bits != 0) }, m)
    | .int32 | .int64 =>
      match m.asObject source with
      | some (.string bytes) => .ok ({ bits := BitVec.ofInt 32 (strtoll bytes) }, m)
      | _ => .ok (source, m)
    | .string =>
      match m.asObject source with
      | some (.string _) => .ok (source, m)
      | _ => p.makeStringCopy (snprintf 128 (rtFormatWord m source)) m
    | .void | .rawWord => .ok (source, m)

/-- The runtime library on a platform. -/
def runtime : CRuntime RtMemory where
  floatConstant := p.floatConstant
  charConstant := p.charConstant
  floatArith := p.floatArith
  floatCompare := p.floatCompare
  floatNegate := p.floatNegate
  floatOfWord := p.floatOfWord
  packageWord name := { bits := p.packageAddress name }
  externWord name := { bits := p.externAddress name }
  makeStringCopy := p.makeStringCopy
  templateBuild := p.templateBuild
  closureNew := p.closureNew
  callee m word :=
    match m.asObject word with
    | some (.closure entry) => .closure entry
    | _ => .other
  callOther := p.callOther
  externCall := p.externCall
  memberLoad := p.memberLoad
  indexLoad := indexLoad
  storeIndex := storeIndex
  arrayLiteral := p.arrayLiteral
  castValue := p.castValue
  throwWord := throwWord

end RtPlatform

/-! ## Closures stay -/

namespace RtMemory

theorem find_eq_none {address : BitVec 32} {registry : List (BitVec 32 × CalyndaRtObject)}
    (h : address ∉ registry.map Prod.fst) : find address registry = none := by
  induction registry with
  | nil => rfl
  | cons entry rest ih =>
    rw [List.map_cons, List.mem_cons, not_or] at h
    rw [find, if_neg (Ne.symm h.1), ih h.2]

/-- A new object does not hide one that is there. -/
theorem keepsClosures_cons {m : RtMemory} {address : BitVec 32} (h : address ∉ m.addresses)
    (object : CalyndaRtObject) :
    m.KeepsClosures { m with registry := (address, object) :: m.registry } := by
  intro word entry hWord
  unfold asObject at hWord ⊢
  split at hWord
  · exact nomatch hWord
  · next hZero =>
      rw [if_neg hZero, find, if_neg]
      · exact hWord
      · rintro rfl
        rw [find_eq_none h] at hWord
        exact nomatch hWord

theorem find_replace {address other : BitVec 32} {object : CalyndaRtObject}
    (registry : List (BitVec 32 × CalyndaRtObject)) (h : other ≠ address) :
    find other (registry.map fun p => if p.1 = address then (p.1, object) else p) =
      find other registry := by
  induction registry with
  | nil => rfl
  | cons entry rest ih =>
    rw [List.map_cons]
    by_cases hEntry : entry.1 = address
    · rw [if_pos hEntry, find, find, ih, if_neg, if_neg]
      · rw [hEntry]; exact h.symm
      · rw [hEntry]; exact h.symm
    · rw [if_neg hEntry, find, find, ih]

/-- The object in place of an array does not replace a closure. -/
theorem keepsClosures_replace {m : RtMemory} {target : CalyndaRtWord}
    {elements : List CalyndaRtWord} (h : m.asObject target = some (.array elements))
    (object : CalyndaRtObject) : m.KeepsClosures (m.replace target.bits object) := by
  intro word entry hWord
  have hNe : word.bits ≠ target.bits := by
    intro hEq
    unfold asObject at h hWord
    rw [hEq, h] at hWord
    exact nomatch hWord
  unfold asObject at hWord ⊢
  split at hWord
  · exact nomatch hWord
  · next hZero =>
      rw [if_neg hZero]
      exact (find_replace m.registry hNe).trans hWord

end RtMemory

namespace RtPlatform

variable {p : RtPlatform}

theorem newObject_keeps {object : CalyndaRtObject} {message : String} {m m' : RtMemory}
    {word : CalyndaRtWord} (h : p.newObject object message m = .ok (word, m')) :
    m.KeepsClosures m' := by
  unfold newObject at h
  split at h
  · next address hMalloc =>
      cases h
      exact RtMemory.keepsClosures_cons (p.malloc_fresh hMalloc).2 object
  · exact nomatch h

theorem callOther_keeps {callee : CalyndaRtWord} {arguments : List CalyndaRtWord}
    {m m' : RtMemory} {word : CalyndaRtWord}
    (h : p.callOther callee arguments m = .ok (word, m')) : m.KeepsClosures m' := by
  unfold callOther at h
  split at h
  · exact nomatch h
  · split at h
    · exact p.bridgeDispatch_keeps h
    · unfold dispatchExternCallable at h
      split at h
      · cases h
        exact fun _ _ hWord => hWord
      · exact nomatch h
  · exact nomatch h

theorem memberLoad_keeps {target : CalyndaRtWord} {member : String} {m m' : RtMemory}
    {word : CalyndaRtWord} (h : p.memberLoad target member m = .ok (word, m')) :
    m' = m := by
  unfold memberLoad at h
  split at h
  · exact nomatch h
  · split at h
    · cases h; rfl
    · split at h
      · cases h; rfl
      · exact nomatch h
  · exact nomatch h

theorem indexLoad_keeps {target index : CalyndaRtWord} {m m' : RtMemory}
    {word : CalyndaRtWord} (h : indexLoad target index m = .ok (word, m')) : m' = m := by
  unfold indexLoad at h
  split at h
  · split at h
    · cases h; rfl
    · exact nomatch h
  · exact nomatch h

theorem storeIndex_keeps {target index value : CalyndaRtWord} {m m' : RtMemory} {a : Unit}
    (h : storeIndex target index value m = .ok (a, m')) : m.KeepsClosures m' := by
  unfold storeIndex at h
  split at h
  · next elements hTarget =>
      split at h
      · cases h
        exact RtMemory.keepsClosures_replace hTarget _
      · exact nomatch h
  · exact nomatch h

theorem castValue_keeps {source : CalyndaRtWord} {tag : CalyndaRtTypeTag} {m m' : RtMemory}
    {word : CalyndaRtWord} (h : p.castValue source tag m = .ok (word, m')) :
    m.KeepsClosures m' := by
  unfold castValue at h
  cases tag with
  | string =>
    simp only at h
    split at h
    · cases h
      exact .refl m
    · exact newObject_keeps h
  | int32 | int64 =>
    simp only at h
    split at h <;>
      · cases h
        exact .refl m
  | bool | void | rawWord =>
    cases h
    exact .refl m

/-- No operation takes a closure away. -/
theorem operation_keeps {α : Type} {op : RtM RtMemory α} (hOp : p.runtime.Operation op)
    {m m' : RtMemory} {a : α} (h : op m = .ok (a, m')) : m.KeepsClosures m' := by
  cases hOp with
  | makeStringCopy text => exact newObject_keeps h
  | templateBuild parts => exact newObject_keeps h
  | closureNew id => exact newObject_keeps h
  | callOther callee arguments => exact callOther_keeps h
  | externCall name arguments => exact p.externCall_keeps h
  | memberLoad target member => exact memberLoad_keeps h ▸ .refl m
  | indexLoad target index => exact indexLoad_keeps h ▸ .refl m
  | storeIndex target index value => exact storeIndex_keeps h
  | arrayLiteral elements => exact newObject_keeps h
  | castValue word tag => exact castValue_keeps h
  | throwWord word => exact nomatch h

theorem callee_eq_closure {m : RtMemory} {word : CalyndaRtWord} {id : Nat} :
    p.runtime.callee m word = .closure id ↔ m.asObject word = some (.closure id) := by
  show (match m.asObject word with | some (.closure entry) => _ | _ => _) = _ ↔ _
  split
  · next entry h => rw [h]; simp
  · next h => exact iff_of_false nofun fun hSome => h id hSome

/-- The runtime library satisfies what the emitted text relies on. -/
theorem runtime_lawful (p : RtPlatform) : p.runtime.Lawful where
  keeps_closures hOp _ _ _ hRun _ _ h :=
    callee_eq_closure.2 (operation_keeps hOp hRun _ _ (callee_eq_closure.1 h))
  throwWord_stops _ _ := ⟨_, rfl⟩

end RtPlatform

/-! ## A small machine -/

/-- A machine with room for sixty-four objects and neither a float unit nor a bridge. -/
def RtPlatform.small : RtPlatform where
  malloc used := ((List.range 64).map fun i => BitVec.ofNat 32 (8 * (i + 1))).find? (· ∉ used)
  floatConstant _ := 0
  charConstant _ := none
  floatArith _ _ _ := none
  floatCompare _ _ _ := none
  floatNegate := id
  floatOfWord := id
  packageAddress name := if name = "stdlib" then 0x1000 else 0
  printAddress := 0x1008
  externAddress _ := 0
  bridgeMemberLoad _ _ := 0
  bridgeDispatch _ _ := rtAbort "no bridge"
  externCall _ _ := rtAbort "no linked function"
  malloc_fresh h := by
    refine ⟨?_, by simpa using List.find?_some h⟩
    obtain ⟨i, hi, rfl⟩ := List.mem_map.1 (List.mem_of_find?_eq_some h)
    rw [List.mem_range] at hi
    intro hZero
    have hNat : 8 * (i + 1) % 2 ^ 32 = 0 := congrArg BitVec.toNat hZero
    omega
  bridgeDispatch_keeps h := nomatch h
  externCall_keeps h := nomatch h

/-- The memory after `calynda_rt_init`. -/
def RtMemory.initial (p : RtPlatform) : RtMemory where
  registry :=
    [(p.packageAddress "stdlib", .package "stdlib"),
      (p.printAddress, .externCallable 0 "print")]

end Calynda
