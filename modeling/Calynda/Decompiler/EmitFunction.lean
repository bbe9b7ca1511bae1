import Calynda.Decompiler.Expressions
import Calynda.Decompiler.EmitFile
import Calynda.Decompiler.Scan

/-!
# Function bodies

The emitter writes a function block by block: a statement for every store and call that has an
expression, and comments. An instruction without an expression leaves no line, and the pass that
builds expressions knows fewer stores than the decoder does.
-/

namespace Calynda.Decompiler

open List CString FormatText

/-! ## Stack slots and call sites -/

structure SsaStackSlot where
  offset : BitVec 32
  width : Nat
  isFloat : Bool
  deriving DecidableEq, Repr

instance : Inhabited SsaStackSlot := ⟨{ offset := 0, width := 0, isFloat := false }⟩

def slotWidthOf : PpcOp → Nat
  | .lbz | .stb => 1
  | .lhz | .sth => 2
  | .lwz | .stw | .lfs | .stfs => 4
  | .lfd | .stfd => 8
  | .lmw | .stmw => 4
  | _ => 0

def isFloatOp (op : PpcOp) : Bool := op = .lfs ∨ op = .lfd ∨ op = .stfs ∨ op = .stfd

def findOrAddSlot (slots : List SsaStackSlot) (s : SsaStackSlot) : List SsaStackSlot × Nat :=
  match slots.findIdx? (· = s) with
  | some id => (slots, id)
  | none => (slots ++ [s], slots.length)

def mapStackSlot (slots : List SsaStackSlot) (si : Typing.SsaInsn) :
    List SsaStackSlot × Typing.SsaInsn :=
  let w := slotWidthOf si.op
  if w = 0 ∨ si.insn.ra ≠ 1 then (slots, si)
  else
    let found := findOrAddSlot slots
      { offset := si.insn.imm, width := w, isFloat := isFloatOp si.op }
    (found.1, { si with slotId := some found.2 })

def registerSite (callCount : Nat) (si : Typing.SsaInsn) : Nat × Typing.SsaInsn :=
  if Ssa.isCallOp si.op then (callCount + 1, { si with callSiteId := some callCount })
  else (callCount, si)

/-- A pass over the elements in order, with a state. -/
def patchAll {σ α : Type} (patch : σ → α → σ × α) : σ → List α → σ × List α
  | st, [] => (st, [])
  | st, x :: xs =>
    let (st, x) := patch st x
    let (st, xs) := patchAll patch st xs
    (st, x :: xs)

/-! ## The passes -/

/-- What the emitter reads of the analysis: the instructions of each block, with their slots, call
sites and expressions. -/
structure SsaResult where
  blocks : List (List Typing.SsaInsn)
  tables : Exprs.Tables
  exprs : List (List (Option Exprs.Text))

def noCallSite : Ssa.SsaCallSite where
  insnIndex := 0
  target := 0
  gprArgMask := 0
  fprArgMask := 0
  returnsGpr := false
  returnsFpr := false

def ssaBuild (passes : Nat) (img : DolImage) (cfg : Cfg) : Option SsaResult := do
  let decoded ← ssaBuildInsns img cfg
  let (insns, infos) ← Ssa.ssaComputeDefuse passes cfg
    (decoded.flatten.map fun si => { pc := si.pc, insn := si.insn })
  let (slots, blocks) := patchAll (patchAll mapStackSlot) []
    (decoded.map (·.map fun si => { toSsaInsn := si }))
  let calls := Ssa.ssaReconstructCalls cfg infos insns
  let (_, blocks) := patchAll (patchAll registerSite) 0 blocks
  let tables : Exprs.Tables :=
    { slotOffset := fun id => (slots.getD id default).offset
      call := fun id => calls.getD id noCallSite }
  let exprs ← Exprs.ssaBuildExpressions tables blocks
  some { blocks := blocks, tables := tables, exprs := exprs }

/-! ## Lines -/

/-- A line of a function, with the instruction that it is the statement of. -/
structure EmittedLine where
  text : List Char
  statementOf : Option (BitVec 32) := none
  deriving DecidableEq, Repr

def lineOfItems (items : List TextItem) : EmittedLine := { text := textOf items }

/-- One instruction in the loop over a block, with its expression. -/
def emitInsn (tables : Exprs.Tables) (indent : List Char) (si : Typing.SsaInsn)
    (e : Option Exprs.Text) : List EmittedLine :=
  match si.op with
  | .stw | .stb | .sth | .stwu | .stbu | .sthu | .stfs | .stfd | .stfsu | .stfdu =>
    (e.map fun e => { text := indent ++ e, statementOf := some si.pc }).toList
  | .bl | .bla =>
    let cs := tables.call (si.callSiteId.getD Ssa.ssaNoVal.toNat)
    let start := if cs.returnsGpr || cs.returnsFpr then "var _r = " else "discard "
    (e.map fun e => { text := indent ++ start.toList ++ e, statementOf := some si.pc }).toList
  | .mtlr | .mtctr =>
    [lineOfItems [.lit indent, .lit "# ".toList,
      .lit (if si.op = .mtlr then "mtlr" else "mtctr").toList, .lit " r".toList,
      .udec si.insn.rd, .lit "  (ABI register save)".toList]]
  | _ => []

def emitBlockBody (tables : Exprs.Tables) (indent : List Char) (insns : List Typing.SsaInsn)
    (es : List (Option Exprs.Text)) : List EmittedLine :=
  (List.zipWith (emitInsn tables indent) insns es).flatten

def regionName : CfgRegionKind → List Char
  | .linear => "linear".toList
  | .ifThen => "if".toList
  | .ifElse => "if/else".toList
  | .loop => "loop".toList
  | .switch => "switch".toList
  | .unstructured => "unstructured".toList

def successorLabel (cfg : Cfg) (src : Nat) (kind : CfgEdgeKind) : Nat :=
  ((cfg.edges.find? fun e => e.src = src ∧ e.kind = kind).map (·.dst)).getD cfgInvalid

def emitBlockTrailer (cfg : Cfg) (bi : Nat) (cb : CfgBlock) (indent : List Char)
    (insns : List Typing.SsaInsn) : List EmittedLine :=
  match insns.getLast?.map Typing.SsaInsn.op with
  | none => []
  | some .blr => [lineOfItems [.lit indent, .lit "return r3".toList]]
  | some .bctr =>
    [lineOfItems [.lit indent, .lit "# bctr: indirect tail call (unresolved)".toList],
      lineOfItems [.lit indent, .lit "return ()".toList]]
  | some _ =>
    let taken := successorLabel cfg bi .condTaken
    let fall := successorLabel cfg bi .condNotTaken
    let uncond := successorLabel cfg bi .uncond
    match cb.regionKind with
    | .ifThen | .ifElse =>
      [lineOfItems [.lit indent, .lit "# ".toList, .lit (regionName cb.regionKind),
          .lit " region: merge at block ".toList, .udec cb.ifMerge]] ++
        (if taken ≠ cfgInvalid then
          [lineOfItems [.lit indent, .lit "#   taken     -> block ".toList, .udec taken]]
        else []) ++
        if fall ≠ cfgInvalid then
          [lineOfItems [.lit indent, .lit "#   not-taken -> block ".toList, .udec fall]]
        else []
    | .loop =>
      [lineOfItems [.lit indent, .lit "# loop header (depth ".toList, .udec cb.loopDepth.toNat,
        .lit ") — tail-recursion candidate".toList]]
    | .switch => [lineOfItems [.lit indent, .lit "# switch region (see jump table)".toList]]
    | .linear | .unstructured =>
      if uncond ≠ cfgInvalid then
        [lineOfItems [.lit indent, .lit "# goto block ".toList, .udec uncond]]
      else []

/-! ## Names and signatures -/

/-- The characters that a Calynda identifier takes over from a name. -/
def safeChars : List Char → List Char
  | [] => []
  | ':' :: ':' :: s => '_' :: safeChars s
  | c :: s =>
    if c.isAlphanum ∨ c = '_' then c :: safeChars s
    else if c = '.' ∨ c = '-' ∨ c = ' ' then '_' :: safeChars s
    else safeChars s

def emitSafeIdent (n : Nat) (raw : List Char) : List Char :=
  match (safeChars raw).take (n - 1) with
  | [] => ['_']
  | ident => ident

def signatureFor (ex : List ExternSymbol) (raw : String) : List Char :=
  let calSig := ((ex.find? fun s => s.rawName = raw).map (·.calSig)).getD ""
  snprintf 512 <| String.toList <|
    if calSig ≠ "" then calSig else "fn(a: i32, b: i32, c: i32, d: i32) -> i32"

/-! ## The function -/

inductive EmitResult where
  | failed
  | skipped
  | emitted (lines : List EmittedLine)
  deriving DecidableEq, Repr

def EmitResult.statements : EmitResult → Option (List (BitVec 32))
  | .emitted lines => some (lines.filterMap (·.statementOf))
  | _ => none

def bodyIndent : List Char := "    ".toList

/-- The blocks from block `bi` on. -/
def emitBlocks (cfg : Cfg) (tables : Exprs.Tables) : Nat → List CfgBlock →
    List (List Typing.SsaInsn) → List (List (Option Exprs.Text)) → List EmittedLine
  | bi, cb :: cbs, insns :: blocks, es :: exprs =>
    (if 0 < bi then
      [lineOfItems [.lit "    # block ".toList, .udec bi, .lit ": 0x".toList,
        .hex8 cb.startVaddr, .lit "..0x".toList, .hex8 cb.endVaddr, .lit "  (".toList,
        .lit (regionName cb.regionKind), .lit ")".toList]]
    else []) ++
      (emitBlockBody tables bodyIndent insns es ++ emitBlockTrailer cfg bi cb bodyIndent insns) ++
      emitBlocks cfg tables (bi + 1) cbs blocks exprs
  | _, _, _, _ => []

def emitHeader (ex : List ExternSymbol) (fn : SymEntry) (cfg : Cfg) : List EmittedLine :=
  let name := fn.name.toList
  [lineOfItems [.lit "# --- function ".toList, .lit name, .lit " (req 8.4) ---".toList],
    lineOfItems [.lit "# 0x".toList, .hex8 fn.vaddr, .lit "  ".toList, .udec fn.size.toNat,
      .lit " bytes  ".toList, .udec cfg.blocks.length, .lit " blocks  ".toList,
      .udec cfg.edges.length, .lit " edges".toList]] ++
    (if cfg.isIrreducible then
      [lineOfItems [.lit "# warning: irreducible CFG — emitted as sequential blocks".toList]]
    else []) ++
    [lineOfItems [.lit "export ".toList, .lit (emitSafeIdent 128 name), .lit " = ".toList,
      .lit (signatureFor ex fn.name), .lit " -> \x7b".toList]]

def emitFunction (fuel passes : Nat) (img : DolImage) (ex : List ExternSymbol) (fn : SymEntry) :
    EmitResult :=
  -- unknown length
  if fn.size = 0 then .skipped
  else
    match (dolSectionForVaddr img.sections fn.vaddr).map DolSection.kind with
    | some .text =>
      match cfgBuild fuel img fn.vaddr (fn.vaddr + fn.size) with
      | .error _ => .failed
      | .ok cfg =>
        match ssaBuild passes img cfg with
        | none => .failed
        | some ssa =>
          .emitted (emitHeader ex fn cfg ++
            emitBlocks cfg ssa.tables 0 cfg.blocks ssa.blocks ssa.exprs ++
            [lineOfItems [.lit "\x7d;".toList], lineOfItems []])
    | _ => .skipped

/-! ## What survives -/

/-- The stores that the decoder knows. -/
def PpcOp.isStore : PpcOp → Bool
  | .stw | .stb | .sth | .stmw | .stfs | .stfd => true
  | .stwu | .stbu | .sthu | .stfsu | .stfdu => true
  | .psqSt | .psqStu => true
  | _ => false

/-- The stores of the update forms, of several words and of paired singles. -/
def PpcOp.isLostStore : PpcOp → Bool
  | .stwu | .stbu | .sthu | .stfsu | .stfdu | .stmw | .psqSt | .psqStu => true
  | _ => false

/-- The instructions that get an expression with a side effect. -/
def PpcOp.hasStatement : PpcOp → Bool
  | .stw | .stb | .sth | .stfs | .stfd | .bl | .bla => true
  | _ => false

/-- The addresses in a range whose instruction has a property. -/
def addrsWith (img : DolImage) (s e : BitVec 32) (p : PpcOp → Bool) : List (BitVec 32) :=
  (insnAddrs s e).filter fun va => (cfgReadWord img va).any fun w => p (ppcDecode w va).op

/-- The statements of the function are those of its stores and calls, one for each, in the order
of the program. -/
def StatementsSurvive (img : DolImage) (fn : SymEntry) (lines : List EmittedLine) : Prop :=
  lines.filterMap (·.statementOf) =
    addrsWith img fn.vaddr (fn.vaddr + fn.size) fun op => op.isStore || Ssa.isCallOp op

/-- No store of the range is one of those without an expression. -/
def NoLostStore (img : DolImage) (fn : SymEntry) : Prop :=
  ∀ va ∈ insnAddrs fn.vaddr (fn.vaddr + fn.size), ∀ w, cfgReadWord img va = some w →
    (ppcDecode w va).op.isLostStore = false

/-! ## The instructions of a range -/

section Passes

variable {σ α β γ : Type}

theorem patchAll_map {patch : σ → α → σ × α} {g : α → β} (h : ∀ st x, g (patch st x).2 = g x)
    (st : σ) (xs : List α) : (patchAll patch st xs).2.map g = xs.map g := by
  induction xs generalizing st with
  | nil => rfl
  | cons x xs ih =>
    rw [patchAll, map_cons, map_cons, h, ih]

theorem map_of_mapM {f : α → Option β} {g : α → γ} {k : β → γ}
    (hf : ∀ a b, f a = some b → k b = g a) {l : List α} {bs : List β}
    (h : l.mapM f = some bs) : bs.map k = l.map g := by
  induction l generalizing bs with
  | nil =>
    obtain rfl := Option.some.inj h
    rfl
  | cons a l ih =>
    rw [mapM_cons, Option.bind_eq_bind, Option.bind_eq_some_iff] at h
    obtain ⟨b, ha, h⟩ := h
    rw [Option.bind_eq_bind, Option.bind_eq_some_iff] at h
    obtain ⟨bs', hRest, h⟩ := h
    obtain rfl := Option.some.inj h
    rw [map_cons, map_cons, hf a b ha, ih hRest]

theorem length_patchAll {patch : σ → α → σ × α} (st : σ) (xs : List α) :
    (patchAll patch st xs).2.length = xs.length := by
  induction xs generalizing st with
  | nil => rfl
  | cons x xs ih => rw [patchAll, length_cons, length_cons, ih]

theorem length_of_mapM {f : α → Option β} {l : List α} {bs : List β}
    (h : l.mapM f = some bs) : bs.length = l.length := by
  have hUnits := map_of_mapM (g := fun _ => ()) (k := fun _ => ()) (fun _ _ _ => rfl) h
  simpa only [length_map] using congrArg List.length hUnits

end Passes

section Range

variable {img : DolImage} {s m e : BitVec 32} {cfg : Cfg}

theorem insnAddrs_append (hs : s.toNat % 4 = 0) (hm : m.toNat % 4 = 0)
    (hsm : s ≤ m) (hme : m ≤ e) : insnAddrs s e = insnAddrs s m ++ insnAddrs m e := by
  rw [BitVec.le_def] at hsm hme
  have hSub : ∀ a b : BitVec 32, a.toNat ≤ b.toNat → (b - a).toNat = b.toNat - a.toNat :=
    fun a b h => BitVec.toNat_sub_of_le h
  have hCount : (e - s).toNat / 4 = (m - s).toNat / 4 + (e - m).toNat / 4 := by
    rw [hSub s e (by omega), hSub s m hsm, hSub m e hme]
    omega
  rw [insnAddrs, hCount, range_add, map_append, map_map]
  congr 1
  apply map_congr_left
  intro k _
  apply BitVec.eq_of_toNat_eq
  have hStart : (m - s).toNat = m.toNat - s.toNat := hSub s m hsm
  simp only [Function.comp_apply, BitVec.toNat_add, BitVec.toNat_ofNat]
  omega

/-- The blocks divide the addresses of the range. -/
theorem splitBlocks_addrs {l : BitVec 32} {ls : List (BitVec 32)}
    (hSorted : (l :: ls).Pairwise fun a b => a.toNat < b.toNat)
    (hIn : ∀ a ∈ l :: ls, a < e ∧ a.toNat % 4 = 0) :
    (splitBlocks e (l :: ls)).flatMap (fun b => insnAddrs b.startVaddr b.endVaddr) =
      insnAddrs l e := by
  induction ls generalizing l with
  | nil => exact append_nil _
  | cons l' ls ih =>
    obtain ⟨hHead, hTail⟩ := pairwise_cons.1 hSorted
    have hl := hIn l mem_cons_self
    have hl' := hIn l' (mem_cons_of_mem _ mem_cons_self)
    rw [splitBlocks, flatMap_cons, ih hTail fun a ha => hIn a (mem_cons_of_mem _ ha)]
    refine (insnAddrs_append hl.2 hl'.2 ?_ ?_).symm
    · rw [BitVec.le_def]
      exact Nat.le_of_lt (hHead l' mem_cons_self)
    · exact BitVec.le_of_lt hl'.1

theorem splitBlocks_insnCount (e : BitVec 32) (ls : List (BitVec 32)) :
    ∀ b ∈ splitBlocks e ls, b.insnCount = (b.endVaddr - b.startVaddr).toNat / 4 := by
  induction ls using splitBlocks.induct with
  | case1 => exact fun _ hb => absurd hb not_mem_nil
  | case2 l =>
    intro b hb
    rw [mem_singleton.1 hb]
    rfl
  | case3 l l' ls ih =>
    intro b hb
    rcases mem_cons.1 hb with rfl | hb
    · rfl
    · exact ih b hb

/-- The addresses of the instructions of a block. -/
def blockAddrs (b : CfgBlock) : List (BitVec 32) :=
  (List.range b.insnCount).map fun k => b.startVaddr + BitVec.ofNat 32 (k * 4)

theorem cfgBuild_addrs {fuel : Nat} (hFuel : cfgFuel ≤ fuel) (h : cfgBuild fuel img s e = .ok cfg) :
    cfg.blocks.flatMap blockAddrs = insnAddrs s e := by
  obtain ⟨hRange, leaders, direct, before, hStages⟩ := cfgBuild_stages hFuel h
  have hIs := hStages.isDirect
  have hExtents : cfg.blocks.map (·.extent) = direct.blocks.map (·.extent) :=
    hStages.same.extents.trans (hStages.recovered.same.extents.trans hStages.shape.extents)
  have hAddrs : ∀ bs : List CfgBlock, bs.flatMap blockAddrs = (bs.map (·.extent)).flatMap
      fun x => (List.range x.2.2).map fun k => x.1 + BitVec.ofNat 32 (k * 4) := by
    intro bs
    rw [flatMap_map]
    rfl
  rw [hAddrs, hExtents, ← hAddrs, hIs.blocks]
  have hBlock : ∀ b ∈ splitBlocks e leaders, blockAddrs b = insnAddrs b.startVaddr b.endVaddr := by
    intro b hb
    rw [blockAddrs, splitBlocks_insnCount e leaders b hb, insnAddrs]
    simp only [Nat.mul_comm]
  rw [flatMap_congr hBlock]
  have hFirst : s ∈ leaders := (mem_collectLeaders hIs.collected).2 (.inl rfl)
  have hSorted := collectLeaders_pairwise hIs.collected
  have hIn : ∀ a ∈ leaders, s ≤ a ∧ a < e ∧ a.toNat % 4 = 0 := fun a ha =>
    (mem_insnAddrs hRange.start hRange.stop hRange.lt).1
      (collectLeaders_range hRange hIs.collected ha)
  cases leaders with
  | nil => exact absurd hFirst not_mem_nil
  | cons l ls =>
    have hStart : l = s := by
      rcases mem_cons.1 hFirst with rfl | hFirst
      · rfl
      · have hLt := (pairwise_cons.1 hSorted).1 s hFirst
        have hLe := (hIn l mem_cons_self).1
        rw [BitVec.le_def] at hLe
        omega
    rw [splitBlocks_addrs hSorted fun a ha => (hIn a ha).2, hStart]

end Range

/-- The instructions of a range in order: words of the image, of which only folded operations have
a constant. -/
structure DecodedRange (img : DolImage) (s e : BitVec 32) (insns : List Typing.SsaInsn) : Prop where
  addrs : insns.map (·.pc) = insnAddrs s e
  decoded : ∀ si ∈ insns, ∃ w, cfgReadWord img si.pc = some w ∧ si.insn = ppcDecode w si.pc
  unfolded : ∀ si ∈ insns, si.op.isFolded = false → si.const = none

section Decoded

variable {img : DolImage} {s e : BitVec 32} {cfg : Cfg} {fuel passes : Nat}

/-- What the later passes keep of an instruction. -/
def insnKey (si : Typing.SsaInsn) : BitVec 32 × PpcInsn × Option (BitVec 32) :=
  (si.pc, si.insn, si.const)

theorem foldBlock_spec (sh : GprShadows) (insns : List SsaInsn) :
    (foldBlock sh insns).map (·.pc) = insns.map (·.pc) ∧
      (foldBlock sh insns).map (·.insn) = insns.map (·.insn) ∧
      ∀ si ∈ foldBlock sh insns, si.insn.op.isFolded = false → si.const = none := by
  induction insns generalizing sh with
  | nil => exact ⟨rfl, rfl, fun _ hsi => nomatch hsi⟩
  | cons si insns ih =>
    obtain ⟨hPc, hInsn, hConst⟩ := ih (foldInsn sh si).1
    refine ⟨?_, ?_, ?_⟩
    · rw [foldBlock, map_cons, map_cons, hPc]
    · rw [foldBlock, map_cons, map_cons, hInsn]
    · rw [foldBlock]
      refine forall_mem_cons.2 ⟨fun hOp => ?_, hConst⟩
      exact congrArg Prod.snd (foldInsn_other hOp sh)

theorem decodeBlock_spec {b : CfgBlock} {insns : List SsaInsn} (h : decodeBlock img b = some insns) :
    insns.map (·.pc) = blockAddrs b ∧
      ∀ si ∈ insns, ∃ w, cfgReadWord img si.pc = some w ∧ si.insn = ppcDecode w si.pc := by
  have hOne : ∀ k (si : SsaInsn), (do
      let pc := b.startVaddr + BitVec.ofNat 32 (k * 4)
      let w ← cfgReadWord img pc
      some ({ pc := pc, insn := ppcDecode w pc, effects := {}, const := none } : SsaInsn)) = some si →
      si.pc = b.startVaddr + BitVec.ofNat 32 (k * 4) ∧
        ∃ w, cfgReadWord img si.pc = some w ∧ si.insn = ppcDecode w si.pc := by
    intro k si h
    obtain ⟨w, hw, h⟩ := Option.bind_eq_some_iff.1 h
    obtain rfl := Option.some.inj h
    exact ⟨rfl, w, hw, rfl⟩
  refine ⟨map_of_mapM (fun k si h => (hOne k si h).1) h, fun si hsi => ?_⟩
  obtain ⟨k, -, hk⟩ := mem_of_mapM h hsi
  exact (hOne k si hk).2

theorem ssaBuildInsns_spec {blocks : List (List SsaInsn)} (hFuel : cfgFuel ≤ fuel)
    (hCfg : cfgBuild fuel img s e = .ok cfg) (h : ssaBuildInsns img cfg = some blocks) :
    blocks.flatten.map (·.pc) = insnAddrs s e ∧
      ∀ si ∈ blocks.flatten, (∃ w, cfgReadWord img si.pc = some w ∧ si.insn = ppcDecode w si.pc) ∧
        (si.insn.op.isFolded = false → si.const = none) := by
  rw [ssaBuildInsns, Option.bind_eq_bind, Option.bind_eq_some_iff] at h
  obtain ⟨decoded, hDecode, h⟩ := h
  obtain rfl := Option.some.inj h
  have hPcs : decoded.map (·.map (·.pc)) = cfg.blocks.map blockAddrs :=
    map_of_mapM (fun b insns h => (decodeBlock_spec h).1) hDecode
  constructor
  · rw [map_flatten, ssaFoldPrologue, ssaComputeDefuse, map_map, map_map,
      ← cfgBuild_addrs hFuel hCfg, flatMap_def, ← hPcs]
    congr 1
    apply map_congr_left
    intro insns _
    simp only [Function.comp_apply]
    rw [(foldBlock_spec _ _).1, map_map]
    rfl
  · intro si hsi
    obtain ⟨insns, hInsns, hsi⟩ := mem_flatten.1 hsi
    obtain ⟨effects, hEffects, rfl⟩ := mem_map.1 hInsns
    obtain ⟨plain, hPlain, rfl⟩ := mem_map.1 hEffects
    obtain ⟨b, -, hBlock⟩ := mem_of_mapM hDecode hPlain
    obtain ⟨hPc, hInsn, hConst⟩ := foldBlock_spec (fun _ => none)
      (plain.map fun si => { si with effects := computeInsnEffects si.insn })
    refine ⟨?_, hConst si hsi⟩
    obtain ⟨k, hk⟩ := List.getElem?_of_mem hsi
    have hSame : ∃ si' ∈ plain, si'.pc = si.pc ∧ si'.insn = si.insn := by
      have hPcK := congrArg (·[k]?) hPc
      have hInsnK := congrArg (·[k]?) hInsn
      simp only [List.getElem?_map, hk, Option.map_some] at hPcK hInsnK
      cases hPlainK : plain[k]? with
      | none => rw [hPlainK] at hPcK; cases hPcK
      | some si' =>
        rw [hPlainK] at hPcK hInsnK
        exact ⟨si', mem_of_getElem? hPlainK, (Option.some.inj hPcK).symm,
          (Option.some.inj hInsnK).symm⟩
    obtain ⟨si', hMem, hPcEq, hInsnEq⟩ := hSame
    rw [← hPcEq, ← hInsnEq]
    exact (decodeBlock_spec hBlock).2 si' hMem

theorem ssaBuild_decodedRange {ssa : SsaResult} (hFuel : cfgFuel ≤ fuel)
    (hCfg : cfgBuild fuel img s e = .ok cfg) (h : ssaBuild passes img cfg = some ssa) :
    DecodedRange img s e ssa.blocks.flatten ∧ cfg.blocks.length = ssa.blocks.length ∧
      Exprs.ssaBuildExpressions ssa.tables ssa.blocks = some ssa.exprs := by
  rw [ssaBuild, Option.bind_eq_bind, Option.bind_eq_some_iff] at h
  obtain ⟨decoded, hDecoded, h⟩ := h
  rw [Option.bind_eq_bind, Option.bind_eq_some_iff] at h
  obtain ⟨⟨insns, infos⟩, -, h⟩ := h
  dsimp only at h
  rw [Option.bind_eq_bind, Option.bind_eq_some_iff] at h
  obtain ⟨exprs, hExprs, h⟩ := h
  obtain rfl := Option.some.inj h
  have hCount : decoded.length = cfg.blocks.length := by
    rw [ssaBuildInsns, Option.bind_eq_bind, Option.bind_eq_some_iff] at hDecoded
    obtain ⟨plain, hPlain, hDecoded⟩ := hDecoded
    obtain rfl := Option.some.inj hDecoded
    rw [ssaFoldPrologue, ssaComputeDefuse, length_map, length_map,
      length_of_mapM hPlain]
  refine ⟨?_, ?_, hExprs⟩
  rotate_left
  · rw [length_patchAll, length_patchAll, length_map, hCount]
  have hSlot : ∀ slots si, insnKey (mapStackSlot slots si).2 = insnKey si := by
    intro slots si
    unfold mapStackSlot
    dsimp only
    split <;> rfl
  have hSite : ∀ n si, insnKey (registerSite n si).2 = insnKey si := by
    intro n si
    unfold registerSite
    split <;> rfl
  obtain ⟨hPcs, hAll⟩ := ssaBuildInsns_spec hFuel hCfg hDecoded
  have hKeys : ∀ blocks : List (List Typing.SsaInsn),
      (patchAll (patchAll registerSite) 0
        (patchAll (patchAll mapStackSlot) [] blocks).2).2.flatten.map insnKey =
        blocks.flatten.map insnKey := by
    intro blocks
    rw [map_flatten, map_flatten,
      patchAll_map (g := List.map insnKey) fun st insns => patchAll_map hSite st insns,
      patchAll_map (g := List.map insnKey) fun st insns => patchAll_map hSlot st insns]
  have hFlat := hKeys (decoded.map (·.map fun si => { toSsaInsn := si }))
  rw [← map_flatten, map_map] at hFlat
  generalize (patchAll (patchAll registerSite) 0 (patchAll (patchAll mapStackSlot) []
    (decoded.map (·.map fun si => { toSsaInsn := si }))).2).2.flatten = flat at hFlat ⊢
  have hMem : ∀ si ∈ flat, ∃ si' ∈ decoded.flatten, si'.pc = si.pc ∧ si'.insn = si.insn ∧
      si'.const = si.const := by
    intro si hsi
    have hKey : insnKey si ∈ flat.map insnKey := mem_map_of_mem hsi
    rw [hFlat] at hKey
    obtain ⟨si', hsi', hEq⟩ := mem_map.1 hKey
    simp only [insnKey, Function.comp_apply, Prod.mk.injEq] at hEq
    exact ⟨si', hsi', hEq⟩
  constructor
  · rw [← hPcs]
    have hFst := congrArg (List.map Prod.fst) hFlat
    rw [map_map, map_map] at hFst
    exact hFst
  · intro si hsi
    obtain ⟨si', hsi', hPc, hInsn, -⟩ := hMem si hsi
    rw [← hPc, ← hInsn]
    exact (hAll si' hsi').1
  · intro si hsi hOp
    obtain ⟨si', hsi', -, hInsn, hConst⟩ := hMem si hsi
    rw [← hConst]
    refine (hAll si' hsi').2 ?_
    rw [hInsn]
    exact hOp

end Decoded

/-! ## Statements -/

section Statements

variable {tables : Exprs.Tables}

theorem renderStore_stored {si : Typing.SsaInsn} {base val : Exprs.Text} {e : Option Exprs.Text}
    (h : (Exprs.renderStore tables si base val).stored = some e) : ∃ text, e = some text := by
  unfold Exprs.renderStore at h
  split at h
  all_goals exact ⟨_, (Option.some.inj h).symm⟩

theorem renderCall_stored {sh : Exprs.Shadows} {cs : Ssa.SsaCallSite} {e : Option Exprs.Text}
    (h : (Exprs.renderCall sh cs).stored = some e) : ∃ text, e = some text := by
  obtain ⟨buf, -, hText⟩ := Option.map_eq_some_iff.1 h
  exact ⟨_, hText.symm⟩

/-- An instruction has a statement exactly if its operation gets an expression with a side
effect. -/
theorem emitInsn_statements (indent : List Char) {sh : Exprs.Shadows} {si : Typing.SsaInsn}
    {e : Option Exprs.Text} (hConst : si.op.isFolded = false → si.const = none)
    (h : (Exprs.exprCase tables sh si).1.stored = some e) :
    (emitInsn tables indent si e).filterMap (·.statementOf) =
      if si.op.hasStatement then [si.pc] else [] := by
  unfold emitInsn
  split
  case h_13 hOp | h_14 hOp =>
    rw [hOp]
    rfl
  case h_15 =>
    -- no store, no call and no move to a special register
    have hNone : si.op.hasStatement = false := by
      unfold PpcOp.hasStatement
      split <;> first | contradiction | rfl
    rw [hNone]
    rfl
  all_goals
    rename_i hOp
    have hUnfolded : si.const = none := hConst (by rw [hOp]; rfl)
    have hInsn : si.insn.op = _ := hOp
    simp only [Exprs.exprCase, hUnfolded, hInsn] at h
    rw [hOp]
  -- the plain stores and the calls get an expression
  case h_1 | h_2 | h_3 | h_7 | h_8 =>
    obtain ⟨text, rfl⟩ := renderStore_stored h
    rfl
  case h_11 | h_12 =>
    obtain ⟨text, rfl⟩ := renderCall_stored h
    rfl
  case h_4 | h_5 | h_6 | h_9 | h_10 =>
    obtain rfl := Option.some.inj h
    rfl

theorem emitBlockBody_statements (indent : List Char) {sh : Exprs.Shadows}
    {insns : List Typing.SsaInsn} {es : List (Option Exprs.Text)}
    (hConst : ∀ si ∈ insns, si.op.isFolded = false → si.const = none)
    (h : Exprs.buildFrom tables sh insns = some es) :
    (emitBlockBody tables indent insns es).filterMap (·.statementOf) =
      (insns.filter (·.op.hasStatement)).map (·.pc) := by
  induction insns generalizing sh es with
  | nil => rfl
  | cons si insns ih =>
    rw [Exprs.buildFrom] at h
    dsimp only at h
    rw [Option.bind_eq_bind, Option.bind_eq_some_iff] at h
    obtain ⟨e, hStored, h⟩ := h
    rw [Option.bind_eq_bind, Option.bind_eq_some_iff] at h
    obtain ⟨es', hRest, h⟩ := h
    obtain rfl := Option.some.inj h
    obtain ⟨hHead, hTail⟩ := forall_mem_cons.1 hConst
    have hRec := ih hTail hRest
    rw [emitBlockBody] at hRec ⊢
    rw [zipWith_cons_cons, flatten_cons, filterMap_append, hRec,
      emitInsn_statements indent hHead hStored, filter_cons]
    split
    · rfl
    · rfl

theorem emitBlockTrailer_statements (cfg : Cfg) (bi : Nat) (cb : CfgBlock) (indent : List Char)
    (insns : List Typing.SsaInsn) :
    (emitBlockTrailer cfg bi cb indent insns).filterMap (·.statementOf) = [] := by
  unfold emitBlockTrailer
  split
  case h_4 =>
    dsimp only
    split
    case h_1 | h_2 => split <;> split <;> rfl
    case h_3 | h_4 => rfl
    case h_5 | h_6 => split <;> rfl
  all_goals rfl

theorem emitBlocks_statements (cfg : Cfg) (bi : Nat) {cbs : List CfgBlock}
    {blocks : List (List Typing.SsaInsn)} {exprs : List (List (Option Exprs.Text))}
    (hLength : cbs.length = blocks.length)
    (hConst : ∀ si ∈ blocks.flatten, si.op.isFolded = false → si.const = none)
    (h : Exprs.ssaBuildExpressions tables blocks = some exprs) :
    (emitBlocks cfg tables bi cbs blocks exprs).filterMap (·.statementOf) =
      (blocks.flatten.filter (·.op.hasStatement)).map (·.pc) := by
  induction blocks generalizing bi cbs exprs with
  | nil =>
    cases cbs <;> rfl
  | cons insns blocks ih =>
    cases cbs with
    | nil => exact nomatch hLength
    | cons cb cbs =>
      rw [Exprs.ssaBuildExpressions, mapM_cons, Option.bind_eq_bind,
        Option.bind_eq_some_iff] at h
      obtain ⟨es, hEs, h⟩ := h
      rw [Option.bind_eq_bind, Option.bind_eq_some_iff] at h
      obtain ⟨exprs', hRest, h⟩ := h
      obtain rfl := Option.some.inj h
      rw [flatten_cons] at hConst
      have hHead := emitBlockBody_statements bodyIndent
        (fun si hsi => hConst si (mem_append_left _ hsi)) hEs
      have hTail := ih (bi + 1) (Nat.succ.inj hLength)
        (fun si hsi => hConst si (mem_append_right _ hsi)) hRest
      rw [emitBlocks, filterMap_append, filterMap_append, filterMap_append,
        hHead, hTail, emitBlockTrailer_statements, append_nil, flatten_cons,
        filter_append, map_append]
      split
      · rfl
      · rfl

end Statements

/-! ## What a function's text says -/

section Survival

variable {img : DolImage} {s e : BitVec 32}

theorem PpcOp.hasStatement_eq_iff (op : PpcOp) :
    op.hasStatement = (op.isStore || Ssa.isCallOp op) ↔ op.isLostStore = false := by
  cases op <;> decide

theorem DecodedRange.statements {insns : List Typing.SsaInsn} (h : DecodedRange img s e insns) :
    (insns.filter (·.op.hasStatement)).map (·.pc) = addrsWith img s e PpcOp.hasStatement := by
  rw [addrsWith, ← h.addrs, filter_map]
  congr 1
  apply filter_congr
  intro si hsi
  obtain ⟨w, hw, hInsn⟩ := h.decoded si hsi
  rw [Function.comp_apply, hw, Option.any_some, ← hInsn]
  rfl

theorem emitHeader_statements (ex : List ExternSymbol) (fn : SymEntry) (cfg : Cfg) :
    (emitHeader ex fn cfg).filterMap (·.statementOf) = [] := by
  unfold emitHeader
  dsimp only
  split <;> rfl

/-- The statements of a function that is written are those of its stores and calls that get an
expression. -/
theorem emitFunction_statements {fuel passes : Nat} {ex : List ExternSymbol} {fn : SymEntry}
    {lines : List EmittedLine} (hFuel : cfgFuel ≤ fuel)
    (h : emitFunction fuel passes img ex fn = .emitted lines) :
    lines.filterMap (·.statementOf) =
      addrsWith img fn.vaddr (fn.vaddr + fn.size) PpcOp.hasStatement := by
  unfold emitFunction at h
  split at h
  · exact nomatch h
  · split at h
    case h_2 => exact nomatch h
    case h_1 =>
      split at h
      · exact nomatch h
      · rename_i cfg hCfg
        split at h
        · exact nomatch h
        · rename_i ssa hSsa
          obtain rfl := EmitResult.emitted.inj h
          obtain ⟨hRange, hLength, hExprs⟩ := ssaBuild_decodedRange hFuel hCfg hSsa
          rw [filterMap_append, filterMap_append, emitHeader_statements,
            emitBlocks_statements cfg 0 hLength hRange.unfolded hExprs, hRange.statements]
          exact append_nil _

/-- Every store and call of a function survives exactly if none of its stores is one of an update
form, of several words or of paired singles. -/
theorem statementsSurvive_iff {fuel passes : Nat} {ex : List ExternSymbol} {fn : SymEntry}
    {lines : List EmittedLine} (hFuel : cfgFuel ≤ fuel)
    (h : emitFunction fuel passes img ex fn = .emitted lines) :
    StatementsSurvive img fn lines ↔ NoLostStore img fn := by
  rw [StatementsSurvive, emitFunction_statements hFuel h, addrsWith, addrsWith]
  constructor
  · intro hEq va hva w hw
    by_contra hLost
    rw [Bool.not_eq_false] at hLost
    have hStore : (ppcDecode w va).op.isStore = true ∧ (ppcDecode w va).op.hasStatement = false := by
      cases hOp : (ppcDecode w va).op <;> rw [hOp] at hLost <;> first | contradiction | decide
    have hMem : va ∈ (insnAddrs fn.vaddr (fn.vaddr + fn.size)).filter fun va =>
        (cfgReadWord img va).any fun w =>
          (ppcDecode w va).op.isStore || Ssa.isCallOp (ppcDecode w va).op := by
      refine mem_filter.2 ⟨hva, ?_⟩
      rw [hw, Option.any_some, hStore.1, Bool.true_or]
    rw [← hEq] at hMem
    have hHas := (mem_filter.1 hMem).2
    rw [hw, Option.any_some, hStore.2] at hHas
    exact nomatch hHas
  · intro hNone
    apply filter_congr
    intro va hva
    cases hw : cfgReadWord img va with
    | none => rfl
    | some w =>
      rw [Option.any_some, Option.any_some]
      exact (PpcOp.hasStatement_eq_iff _).2 (hNone va hva w hw)

end Survival

/-! ## Two functions -/

/-- `stw r3, 0(r4); bl 0x80004000; blr`. -/
def storeCallImage : DolImage := dolImage [0x90640000, 0x4BFFFFFD, 0x4E800020] [0]

/-- `stwu r1, -16(r1); blr`. -/
def updateImage : DolImage := dolImage [0x9421FFF0, 0x4E800020] [0]

def entryOf (size : BitVec 32) : SymEntry := { vaddr := 0x80004000, size := size, name := "f" }

theorem exists_lines {r : EmitResult} {pcs : List (BitVec 32)} (h : r.statements = some pcs) :
    ∃ lines, r = .emitted lines ∧ lines.filterMap (·.statementOf) = pcs := by
  cases r with
  | failed => exact nomatch h
  | skipped => exact nomatch h
  | emitted lines => exact ⟨lines, rfl, Option.some.inj h⟩

theorem statementsSurvive_storeCall :
    ∃ lines, emitFunction cfgFuel 50 storeCallImage [] (entryOf 12) = .emitted lines ∧
      (StatementsSurvive storeCallImage (entryOf 12) lines ↔
        NoLostStore storeCallImage (entryOf 12)) := by
  have hRun : (emitFunction cfgFuel 50 storeCallImage [] (entryOf 12)).statements =
      some [0x80004000, 0x80004004] := by
    rfl
  obtain ⟨lines, hLines, -⟩ := exists_lines hRun
  exact ⟨lines, hLines, statementsSurvive_iff (Nat.le_refl _) hLines⟩

set_option maxRecDepth 20000 in
/-- The store that opens the frame leaves no line. -/
theorem not_statementsSurvive_update :
    dolParse updateImage.bytes = .ok updateImage ∧
      ¬ ∀ passes img ex fn lines, emitFunction cfgFuel passes img ex fn = .emitted lines →
        StatementsSurvive img fn lines := by
  refine ⟨rfl, fun h => ?_⟩
  have hRun : (emitFunction cfgFuel 50 updateImage [] (entryOf 8)).statements = some [] := by
    rfl
  obtain ⟨lines, hLines, hNone⟩ := exists_lines hRun
  have hSurvive := h 50 updateImage [] (entryOf 8) lines hLines
  rw [StatementsSurvive, hNone] at hSurvive
  have hStore : addrsWith updateImage 0x80004000 0x80004008
      (fun op => op.isStore || Ssa.isCallOp op) = [0x80004000] := by
    rfl
  exact cons_ne_nil _ _ (hStore.symm.trans hSurvive.symm)

end Calynda.Decompiler
