import Calynda.Decompiler.Types
import Calynda.Lib.FormatText

/-!
# Expressions of instructions

`buildBlock` gives the instructions of a block their expressions. The registers hold the text of
what was last put into them, and every text is printed into a buffer on its way: 256 bytes for most,
512 for the arguments of a call. `fullBlock` prints without limits.
-/

namespace Calynda.Decompiler.Exprs

open FormatText Typing Ssa

abbrev Text := List Char

/-- How the text of an expression comes about. -/
inductive Rendering where
  | nothing
  /-- A text that exists already. -/
  | copied (text : Text)
  | printed (items : List TextItem)
  | call (pieces : List Text)
  deriving DecidableEq, Repr

def ssaInternf (items : List TextItem) : Text := (textOf items).take 255

/-- The text that is stored; none where `renderCall` would print from beyond its buffer. -/
def Rendering.stored : Rendering → Option (Option Text)
  | .nothing => some none
  | .copied text => some (some text)
  | .printed items => some (some (ssaInternf items))
  | .call pieces => (pieces.foldlM (printAt 512) ([], 0)).map fun buf => some buf.1

def Rendering.full : Rendering → Option Text
  | .nothing => none
  | .copied text => some text
  | .printed items => some (textOf items)
  | .call pieces => some pieces.flatten

/-- The text leaves room for its zero. -/
def Rendering.Fits : Rendering → Prop
  | .nothing | .copied _ => True
  | .printed items => (textOf items).length < 256
  | .call pieces => pieces.flatten.length < 512

instance : DecidablePred Rendering.Fits := fun
  | .nothing | .copied _ => isTrue trivial
  | .printed items => inferInstanceAs (Decidable ((textOf items).length < 256))
  | .call pieces => inferInstanceAs (Decidable (pieces.flatten.length < 512))

/-! ## The tables of the function -/

/-- The offsets of the stack slots and the call sites. -/
structure Tables where
  slotOffset : Nat → BitVec 32
  call : Nat → SsaCallSite

def slotName (offset : BitVec 32) : List TextItem :=
  if 0 ≤ offset.toInt then [.lit "local_".toList, .sdec offset.toInt]
  else [.lit "local_m".toList, .sdec (-offset).toInt]

/-! ## The renderers -/

/-- The expressions that the registers hold. -/
structure Shadows where
  g : List Text
  f : List Text
  deriving DecidableEq, Repr

section Renderers

variable (tables : Tables) (s : Shadows) (si : Typing.SsaInsn)

def Shadows.gpr (r : Nat) : Text := s.g.getD r []

def Shadows.fpr (r : Nat) : Text := s.f.getD r []

/-- The base of an access, and the operand of `addi` and `addis`. -/
def Shadows.base (r : Nat) : Text := if r ≠ 0 then s.gpr r else "0".toList

def renderSlotRef (slot : Nat) : Text := ssaInternf (slotName (tables.slotOffset slot))

def loadType (op : PpcOp) : Text :=
  match op with
  | .lbz => "uint8_t".toList
  | .lhz => "uint16_t".toList
  | .lfs => "float".toList
  | .lfd => "double".toList
  | _ => "uint32_t".toList

def storeType (op : PpcOp) : Text :=
  match op with
  | .stb => "uint8_t".toList
  | .sth => "uint16_t".toList
  | .stfs => "float".toList
  | .stfd => "double".toList
  | _ => "uint32_t".toList

def memoryItems (ty base : Text) (imm : BitVec 32) : List TextItem :=
  [.lit "*(".toList, .lit ty, .lit " *)((char *)".toList, .lit base, .lit " + ".toList,
    .sdec imm.toInt, .lit ")".toList]

def renderLoad (base : Text) : Rendering :=
  match si.slotId with
  | some slot => .copied (renderSlotRef tables slot)
  | none => .printed (memoryItems (loadType si.op) base si.insn.imm)

def renderStore (base val : Text) : Rendering :=
  match si.slotId with
  | some slot => .printed [.lit (renderSlotRef tables slot), .lit " = ".toList, .lit val]
  | none =>
    .printed (memoryItems (storeType si.op) base si.insn.imm ++ [.lit " = ".toList, .lit val])

/-- The arguments of a call in the order in which they are printed. -/
def callArguments (cs : SsaCallSite) : List Text :=
  ((List.range 8).filter (cs.gprArgMask.getLsbD ·)).map (fun k => s.gpr (k + 3)) ++
    ((List.range 8).filter (cs.fprArgMask.getLsbD ·)).map (fun k => s.fpr (k + 1))

/-- The arguments with the separators in front. -/
def separatedBy (sep : Text) : List Text → List Text
  | [] => []
  | arg :: args => arg :: args.map (sep ++ ·)

def renderCall (cs : SsaCallSite) : Rendering :=
  .call (textOf [.lit "call_0x".toList, .hex8 cs.target, .lit "(".toList] ::
    separatedBy ", ".toList (callArguments s cs) ++ [")".toList])

/-! ## The pass -/

def binary (x : TextItem) (op : Text) (y : TextItem) : Rendering :=
  .printed [.lit "(".toList, x, .lit op, y, .lit ")".toList]

def hexItem (w : BitVec 32) : TextItem := .lit ("0x".toList ++ Nat.toDigits 16 w.toNat)

/-- The rendering of an instruction and the registers that hold it afterwards. -/
def exprCase : Rendering × List (RegKind × Nat) :=
  let insn := si.insn
  match si.const with
  | some value =>
    (.printed [.lit "0x".toList, .hex8 value], ((gprDefOf si).map (RegKind.gpr, ·)).toList)
  | none =>
    match insn.op with
    | .addi =>
      (binary (.lit (s.base insn.ra)) " + ".toList (.sdec insn.imm.toInt), [(.gpr, insn.rd)])
    | .addis =>
      (binary (.lit (s.base insn.ra)) " + ".toList (hexItem (insn.imm <<< 16)),
        [(.gpr, insn.rd)])
    | .mulli =>
      (binary (.lit (s.gpr insn.ra)) " * ".toList (.sdec insn.imm.toInt), [(.gpr, insn.rd)])
    | .ori =>
      (binary (.lit (s.gpr insn.rd)) " | ".toList (hexItem insn.imm), [(.gpr, insn.ra)])
    | .andiDot =>
      (binary (.lit (s.gpr insn.rd)) " & ".toList (hexItem insn.imm), [(.gpr, insn.ra)])
    | .mr => (.copied (s.gpr insn.ra), [(.gpr, insn.rd)])
    | .lwz | .lbz | .lhz => (renderLoad tables si (s.base insn.ra), [(.gpr, insn.rd)])
    | .stw | .stb | .sth => (renderStore tables si (s.base insn.ra) (s.gpr insn.rd), [])
    | .lfs | .lfd => (renderLoad tables si (s.base insn.ra), [(.fpr, insn.rd)])
    | .stfs | .stfd => (renderStore tables si (s.base insn.ra) (s.fpr insn.rd), [])
    | .fmr => (.copied (s.fpr insn.rb), [(.fpr, insn.rd)])
    | .fneg =>
      (.printed [.lit "-(".toList, .lit (s.fpr insn.rb), .lit ")".toList], [(.fpr, insn.rd)])
    | .fadd =>
      (binary (.lit (s.fpr insn.ra)) " + ".toList (.lit (s.fpr insn.rb)), [(.fpr, insn.rd)])
    | .fsub =>
      (binary (.lit (s.fpr insn.ra)) " - ".toList (.lit (s.fpr insn.rb)), [(.fpr, insn.rd)])
    | .fmul =>
      (binary (.lit (s.fpr insn.ra)) " * ".toList (.lit (s.fpr insn.rb)), [(.fpr, insn.rd)])
    | .fdiv =>
      (binary (.lit (s.fpr insn.ra)) " / ".toList (.lit (s.fpr insn.rb)), [(.fpr, insn.rd)])
    | .mflr => (.copied "lr".toList, [(.gpr, insn.rd)])
    | .mfctr => (.copied "ctr".toList, [(.gpr, insn.rd)])
    | .bl | .bla =>
      let cs := tables.call (si.callSiteId.getD ssaNoVal.toNat)
      (renderCall s cs,
        (if cs.returnsGpr then [(.gpr, 3)] else []) ++
          if cs.returnsFpr then [(.fpr, 1)] else [])
    | _ => (.nothing, [])

end Renderers

def Shadows.set (s : Shadows) (e : Option Text) (d : RegKind × Nat) : Shadows :=
  match d.1 with
  | .gpr => { s with g := s.g.set d.2 (e.getD []) }
  | .fpr => { s with f := s.f.set d.2 (e.getD []) }

def Shadows.define (s : Shadows) (dest : List (RegKind × Nat)) (e : Option Text) : Shadows :=
  dest.foldl (·.set e ·) s

/-- The registers at the start of a block hold their names. -/
def entryShadows : Shadows :=
  { g := (List.range 32).map fun r => ssaInternf [.lit "r".toList, .udec r]
    f := (List.range 32).map fun r => ssaInternf [.lit "f".toList, .udec r] }

/-- The expressions from an instruction on; none after a call that leaves its buffer. -/
def buildFrom (tables : Tables) : Shadows → List Typing.SsaInsn → Option (List (Option Text))
  | _, [] => some []
  | s, si :: insns => do
    let (r, dest) := exprCase tables s si
    let e ← r.stored
    let es ← buildFrom tables (s.define dest e) insns
    some (e :: es)

def buildBlock (tables : Tables) (insns : List Typing.SsaInsn) : Option (List (Option Text)) :=
  buildFrom tables entryShadows insns

def ssaBuildExpressions (tables : Tables) (blocks : List (List Typing.SsaInsn)) :
    Option (List (List (Option Text))) :=
  blocks.mapM (buildBlock tables)

/-! ## Complete renderings -/

/-- The renderings over registers that hold complete texts. -/
def renderingsFrom (tables : Tables) : Shadows → List Typing.SsaInsn → List Rendering
  | _, [] => []
  | s, si :: insns =>
    let (r, dest) := exprCase tables s si
    r :: renderingsFrom tables (s.define dest r.full) insns

def renderings (tables : Tables) (insns : List Typing.SsaInsn) : List Rendering :=
  renderingsFrom tables entryShadows insns

def fullBlock (tables : Tables) (insns : List Typing.SsaInsn) : List (Option Text) :=
  (renderings tables insns).map Rendering.full

/-- The block gets its complete expressions, all of them balanced, and no call leaves its buffer. -/
def Whole (tables : Tables) (insns : List Typing.SsaInsn) : Prop :=
  buildBlock tables insns = some (fullBlock tables insns) ∧
    ∀ e ∈ fullBlock tables insns, ∀ text ∈ e, Balanced text

/-! ## Names -/

theorem length_signedDigits_le (w : BitVec 32) : (signedDigits w.toInt).length ≤ 11 := by
  have hDigits : ∀ n : Nat, n < 10 ^ 10 → (Nat.toDigits 10 n).length ≤ 10 := fun n h =>
    (Nat.length_toDigits_le_iff (by omega) (by omega)).2 h
  have hLt := BitVec.toInt_lt (x := w)
  have hLe := BitVec.le_toInt w
  cases hInt : w.toInt with
  | ofNat n =>
    have hNat : w.toInt = n := hInt
    have h := hDigits n (by omega)
    rw [signedDigits]
    omega
  | negSucc n =>
    have h := hDigits (n + 1) (by omega)
    rw [signedDigits, List.length_cons]
    omega

/-- The names of slots and registers are never cut. -/
theorem renderSlotRef_eq (tables : Tables) (slot : Nat) :
    renderSlotRef tables slot = textOf (slotName (tables.slotOffset slot)) := by
  apply List.take_of_length_le
  unfold slotName
  split
  · have h := length_signedDigits_le (tables.slotOffset slot)
    simp only [textOf_cons, textOf_nil, TextItem.text, List.length_append, List.length_nil]
    exact Nat.le_trans (Nat.add_le_add_left h _) (by decide)
  · have h := length_signedDigits_le (-tables.slotOffset slot)
    simp only [textOf_cons, textOf_nil, TextItem.text, List.length_append, List.length_nil]
    exact Nat.le_trans (Nat.add_le_add_left h _) (by decide)

/-! ## Balance -/

/-- The registers hold balanced texts. -/
def Shadows.AllBalanced (s : Shadows) : Prop :=
  (∀ text ∈ s.g, Balanced text) ∧ ∀ text ∈ s.f, Balanced text

theorem balanced_getD {texts : List Text} (h : ∀ text ∈ texts, Balanced text) (r : Nat) :
    Balanced (texts.getD r []) := by
  rw [List.getD_eq_getElem?_getD]
  cases hGet : texts[r]? with
  | none => rfl
  | some text => exact h text (List.mem_of_getElem? hGet)

section Balance

variable {tables : Tables} {s : Shadows} (hs : s.AllBalanced) {si : Typing.SsaInsn}

include hs

theorem balanced_gpr (r : Nat) : Balanced (s.gpr r) := balanced_getD hs.1 r

theorem balanced_fpr (r : Nat) : Balanced (s.fpr r) := balanced_getD hs.2 r

theorem balanced_base (r : Nat) : Balanced (s.base r) := by
  unfold Shadows.base
  split
  · exact balanced_gpr hs r
  · decide

omit hs

theorem balanced_binary {x y : TextItem} {op : Text} (hx : Balanced x.text) (hOp : Balanced op)
    (hy : Balanced y.text) : ∀ text ∈ (binary x op y).full, Balanced text := by
  intro text hText
  rw [← show _ = text from Option.some.inj hText]
  have hWrap := Balanced.wrap (s := "(".toList) rfl (hx.append (hOp.append hy))
  rw [List.append_assoc, List.append_assoc] at hWrap
  simp only [textOf_cons, textOf_nil, List.append_nil]
  exact hWrap

theorem balanced_memory {ty base : Text} (hTy : Balanced ty) (hBase : Balanced base)
    (imm : BitVec 32) : Balanced (textOf (memoryItems ty base imm)) := by
  have hStart : depthAfter 0 ("*(".toList ++ (ty ++ " *)((char *)".toList)) = some 1 := by
    rw [depthAfter_append, show depthAfter 0 "*(".toList = some 1 from rfl, Option.bind_some,
      depthAfter_append, hTy.depthAfter_eq]
    rfl
  have hSum : Balanced (base ++ (" + ".toList ++ signedDigits imm.toInt)) :=
    hBase.append (Balanced.append (by decide) (balanced_signedDigits _))
  have hWrap := Balanced.wrap hStart hSum
  simp only [List.append_assoc] at hWrap
  simp only [memoryItems, textOf_cons, textOf_nil, List.append_nil]
  exact hWrap

theorem balanced_renderSlotRef (tables : Tables) (slot : Nat) :
    Balanced (renderSlotRef tables slot) := by
  rw [renderSlotRef_eq, slotName]
  split
  all_goals
    simp only [textOf_cons, textOf_nil, TextItem.text, List.append_nil]
    exact Balanced.append (by decide) (balanced_signedDigits _)

theorem balanced_renderLoad {base : Text} (hBase : Balanced base) :
    ∀ text ∈ (renderLoad tables si base).full, Balanced text := by
  have hTy : ∀ op, Balanced (loadType op) := by
    intro op
    unfold loadType
    split <;> decide
  intro text hText
  unfold renderLoad at hText
  split at hText
  · rw [← show _ = text from Option.some.inj hText]
    exact balanced_renderSlotRef tables _
  · rw [← show _ = text from Option.some.inj hText]
    exact balanced_memory (hTy _) hBase _

theorem balanced_renderStore {base val : Text} (hBase : Balanced base) (hVal : Balanced val) :
    ∀ text ∈ (renderStore tables si base val).full, Balanced text := by
  have hTy : ∀ op, Balanced (storeType op) := by
    intro op
    unfold storeType
    split <;> decide
  have hAssign : Balanced (" = ".toList ++ val) := Balanced.append (by decide) hVal
  intro text hText
  unfold renderStore at hText
  split at hText
  · rw [← show _ = text from Option.some.inj hText]
    simp only [textOf_cons, textOf_nil, TextItem.text, List.append_nil]
    exact (balanced_renderSlotRef tables _).append hAssign
  · rw [← show _ = text from Option.some.inj hText, textOf, List.flatMap_append]
    refine (balanced_memory (hTy _) hBase _).append ?_
    simpa only [List.flatMap_cons, List.flatMap_nil, TextItem.text, List.append_nil] using hAssign

include hs

theorem balanced_callArguments (cs : SsaCallSite) :
    ∀ text ∈ callArguments s cs, Balanced text := by
  intro text hText
  rcases List.mem_append.1 hText with h | h
  all_goals obtain ⟨k, -, rfl⟩ := List.mem_map.1 h
  · exact balanced_gpr hs _
  · exact balanced_fpr hs _

theorem balanced_renderCall (cs : SsaCallSite) :
    ∀ text ∈ (renderCall s cs).full, Balanced text := by
  intro text hText
  rw [← show _ = text from Option.some.inj hText]
  have hOpen : depthAfter 0 (textOf [.lit "call_0x".toList, .hex8 cs.target, .lit "(".toList]) =
      some 1 := by
    simp only [textOf_cons, textOf_nil, TextItem.text, List.append_nil]
    rw [depthAfter_append, show depthAfter 0 "call_0x".toList = some 0 from rfl, Option.bind_some,
      depthAfter_append, (balanced_hexDigits8 cs.target).depthAfter_eq]
    rfl
  have hArgs : Balanced (separatedBy ", ".toList (callArguments s cs)).flatten := by
    apply balanced_flatten
    have hAll := balanced_callArguments hs cs
    cases hArguments : callArguments s cs with
    | nil => exact fun _ h => by cases h
    | cons arg args =>
      rw [hArguments] at hAll
      obtain ⟨hArg, hRest⟩ := List.forall_mem_cons.1 hAll
      intro text hText
      rcases List.mem_cons.1 hText with rfl | hText
      · exact hArg
      · obtain ⟨rest, hMem, rfl⟩ := List.mem_map.1 hText
        exact Balanced.append (by decide) (hRest rest hMem)
  have hWrap := Balanced.wrap hOpen hArgs
  rw [List.flatten_append, List.flatten_cons, List.append_assoc]
  exact hWrap

theorem balanced_exprCase (tables : Tables) (si : Typing.SsaInsn) :
    ∀ text ∈ (exprCase tables s si).1.full, Balanced text := by
  have hHex : ∀ w : BitVec 32, Balanced (hexItem w).text := fun w =>
    Balanced.append (by decide) (balanced_plain fun _ => plain_of_mem_toDigits)
  have hDec : ∀ n : Int, Balanced (TextItem.sdec n).text := balanced_signedDigits
  have hLit : ∀ text : Text, Balanced text → Balanced (TextItem.lit text).text := fun _ h => h
  have hCopied : ∀ text : Text, Balanced text → ∀ t ∈ some text, Balanced t := by
    rintro text h t hT
    rwa [← Option.some.inj hT]
  unfold exprCase
  dsimp only
  split
  case h_1 value _ =>
    refine hCopied _ ?_
    simp only [textOf_cons, textOf_nil, List.append_nil]
    exact Balanced.append (by decide) (balanced_hexDigits8 value)
  case h_2 =>
    split
    case h_1 => exact balanced_binary (hLit _ (balanced_base hs _)) (by decide) (hDec _)
    case h_2 => exact balanced_binary (hLit _ (balanced_base hs _)) (by decide) (hHex _)
    case h_3 => exact balanced_binary (hLit _ (balanced_gpr hs _)) (by decide) (hDec _)
    case h_4 => exact balanced_binary (hLit _ (balanced_gpr hs _)) (by decide) (hHex _)
    case h_5 => exact balanced_binary (hLit _ (balanced_gpr hs _)) (by decide) (hHex _)
    case h_6 => exact hCopied _ (balanced_gpr hs _)
    case h_7 | h_8 | h_9 => exact balanced_renderLoad (balanced_base hs _)
    case h_10 | h_11 | h_12 =>
      exact balanced_renderStore (balanced_base hs _) (balanced_gpr hs _)
    case h_13 | h_14 => exact balanced_renderLoad (balanced_base hs _)
    case h_15 | h_16 => exact balanced_renderStore (balanced_base hs _) (balanced_fpr hs _)
    case h_17 => exact hCopied _ (balanced_fpr hs _)
    case h_18 =>
      refine hCopied _ ?_
      simp only [textOf_cons, textOf_nil, List.append_nil]
      exact Balanced.wrap (s := "-(".toList) rfl (balanced_fpr hs _)
    case h_19 | h_20 | h_21 | h_22 =>
      exact balanced_binary (hLit _ (balanced_fpr hs _)) (by decide)
        (hLit _ (balanced_fpr hs _))
    case h_23 | h_24 => exact hCopied _ (by decide)
    case h_25 | h_26 => exact balanced_renderCall hs _
    case h_27 => exact nofun

/-- Putting a balanced text into registers keeps all of them balanced. -/
theorem Shadows.AllBalanced.define {e : Option Text} (he : ∀ text ∈ e, Balanced text)
    (dest : List (RegKind × Nat)) : (s.define dest e).AllBalanced := by
  have hText : Balanced (e.getD []) := by
    cases e with
    | none => rfl
    | some text => exact he text rfl
  induction dest generalizing s with
  | nil => exact hs
  | cons d dest ih =>
    apply ih
    obtain ⟨kind, r⟩ := d
    cases kind with
    | gpr =>
      refine ⟨fun text h => ?_, hs.2⟩
      rcases List.mem_or_eq_of_mem_set h with h | rfl
      · exact hs.1 text h
      · exact hText
    | fpr =>
      refine ⟨hs.1, fun text h => ?_⟩
      rcases List.mem_or_eq_of_mem_set h with h | rfl
      · exact hs.2 text h
      · exact hText

omit hs

theorem balanced_renderingsFrom (tables : Tables) (insns : List Typing.SsaInsn)
    (hs : s.AllBalanced) :
    ∀ r ∈ renderingsFrom tables s insns, ∀ text ∈ r.full, Balanced text := by
  induction insns generalizing s with
  | nil => exact nofun
  | cons si insns ih =>
    have hCase := balanced_exprCase hs tables si
    exact List.forall_mem_cons.2 ⟨hCase, ih (hs.define hCase _)⟩

end Balance

theorem allBalanced_entryShadows : entryShadows.AllBalanced := by
  refine ⟨?_, ?_⟩ <;> decide +kernel

/-- Every complete rendering of a block is balanced. -/
theorem balanced_fullBlock (tables : Tables) (insns : List Typing.SsaInsn) :
    ∀ e ∈ fullBlock tables insns, ∀ text ∈ e, Balanced text := by
  intro e he
  obtain ⟨r, hr, rfl⟩ := List.mem_map.1 he
  exact balanced_renderingsFrom tables insns allBalanced_entryShadows r hr

/-! ## What fits -/

theorem Rendering.stored_eq_full_iff (r : Rendering) : r.stored = some r.full ↔ r.Fits := by
  cases r with
  | nothing => exact iff_of_true rfl trivial
  | copied text => exact iff_of_true rfl trivial
  | printed items =>
    rw [Rendering.stored, Rendering.full, Option.some_inj, Option.some_inj, ssaInternf,
      List.take_eq_self_iff, Rendering.Fits]
    omega
  | call pieces =>
    rw [Rendering.Fits, ← printAt_whole_iff (by omega), Rendering.stored, Rendering.full]
    cases pieces.foldlM (printAt 512) ([], 0) with
    | none => exact iff_of_false nofun nofun
    | some buf => simp only [Option.map_some, Option.some_inj]

theorem buildFrom_eq_full_iff (tables : Tables) (s : Shadows) (insns : List Typing.SsaInsn) :
    buildFrom tables s insns = some ((renderingsFrom tables s insns).map Rendering.full) ↔
      ∀ r ∈ renderingsFrom tables s insns, r.Fits := by
  induction insns generalizing s with
  | nil => exact iff_of_true rfl nofun
  | cons si insns ih =>
    rw [buildFrom, renderingsFrom]
    dsimp only
    rw [List.map_cons, List.forall_mem_cons, ← Rendering.stored_eq_full_iff]
    cases hStored : (exprCase tables s si).1.stored with
    | none => exact iff_of_false nofun fun h => nomatch h.1
    | some e =>
      rw [Option.bind_eq_bind, Option.bind_some, Option.some_inj, ← ih]
      by_cases hFull : e = (exprCase tables s si).1.full
      · rw [hFull]
        cases buildFrom tables (s.define (exprCase tables s si).2 (exprCase tables s si).1.full)
            insns with
        | none => exact iff_of_false nofun fun h => nomatch h.2
        | some es => simp
      · refine iff_of_false (fun h => ?_) fun h => hFull h.1
        obtain ⟨es, -, hEs⟩ := Option.bind_eq_some_iff.1 h
        exact hFull (List.cons.inj (Option.some.inj hEs)).1

/-- A block gets complete expressions within the buffers exactly if every complete text that is
printed in it fits: with its zero in 256 bytes, and in 512 for a call. -/
theorem buildBlock_whole_iff (tables : Tables) (insns : List Typing.SsaInsn) :
    Whole tables insns ↔ ∀ r ∈ renderings tables insns, r.Fits := by
  rw [Whole, and_iff_left (balanced_fullBlock tables insns)]
  exact buildFrom_eq_full_iff tables entryShadows insns

/-- The register `f1`, doubled five times, as the first three floating point arguments of a
call: the offset in the buffer of the call reaches 677. -/
def doubledCall : List Typing.SsaInsn :=
  [decodedInsn 0 0xFC21082A, decodedInsn 4 0xFC21082A, decodedInsn 8 0xFC21082A,
    decodedInsn 12 0xFC21082A, decodedInsn 16 0xFC21082A, decodedInsn 20 0xFC400890,
    decodedInsn 24 0xFC600890, { decodedInsn 28 0x48000101 with callSiteId := some 0 }]

def doubledTables : Tables where
  slotOffset _ := 0
  call _ :=
    { insnIndex := 7, target := 0x11C, gprArgMask := 0, fprArgMask := 7, returnsGpr := false
      returnsFpr := false }

theorem not_whole_doubledCall : ¬ ∀ tables insns, Whole tables insns := by
  intro h
  have hRun : buildBlock doubledTables doubledCall = none := by decide +kernel
  exact absurd (hRun.symm.trans (h doubledTables doubledCall).1) nofun

end Calynda.Decompiler.Exprs
