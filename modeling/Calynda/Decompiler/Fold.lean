import Calynda.Decompiler.Build
import Calynda.Decompiler.DefUse
import Calynda.Decompiler.Isa

/-!
# Folding constants

`ssaFoldPrologue` follows the constants that `addi`, `addis` and `ori` put into registers, block
by block. Any other instruction invalidates the register that the table of effects gives it, and
no further one that it writes.
-/

namespace Calynda.Decompiler

structure SsaInsn where
  pc : BitVec 32
  insn : PpcInsn
  effects : InsnEffects
  const : Option (BitVec 32)
  deriving DecidableEq, Repr

def decodeBlock (img : DolImage) (b : CfgBlock) : Option (List SsaInsn) :=
  (List.range b.insnCount).mapM fun k => do
    let pc := b.startVaddr + BitVec.ofNat 32 (k * 4)
    let w ← cfgReadWord img pc
    some { pc := pc, insn := ppcDecode w pc, effects := {}, const := none }

/-- The instructions of each block. -/
def decodeAllInsns (img : DolImage) (cfg : Cfg) : Option (List (List SsaInsn)) :=
  cfg.blocks.mapM (decodeBlock img)

def ssaComputeDefuse (blocks : List (List SsaInsn)) : List (List SsaInsn) :=
  blocks.map (·.map fun si => { si with effects := computeInsnEffects si.insn })

/-- The constants that the registers are taken to hold. -/
abbrev GprShadows := Nat → Option (BitVec 32)

def setShadow (sh : GprShadows) (r : Nat) (value : Option (BitVec 32)) :
    GprShadows × Option (BitVec 32) :=
  (Function.update sh r value, value)

/-- The shadows after an instruction, and the constant that it gets. -/
def foldInsn (sh : GprShadows) (si : SsaInsn) : GprShadows × Option (BitVec 32) :=
  let insn := si.insn
  match insn.op with
  | .addis =>
    let v := insn.imm <<< 16
    setShadow sh insn.rd (if insn.ra = 0 then some v else (sh insn.ra).map (· + v))
  | .addi =>
    let lo := insn.imm
    setShadow sh insn.rd (if insn.ra = 0 then some lo else (sh insn.ra).map (· + lo))
  | .ori => setShadow sh insn.ra ((sh insn.rd).map (· ||| insn.imm))
  | _ =>
    match si.effects.gprDef with
    | some r => (Function.update sh r none, none)
    | none => (sh, none)

def foldBlock : GprShadows → List SsaInsn → List SsaInsn
  | _, [] => []
  | sh, si :: insns =>
    { si with const := (foldInsn sh si).2 } :: foldBlock (foldInsn sh si).1 insns

def ssaFoldPrologue (blocks : List (List SsaInsn)) : List (List SsaInsn) :=
  blocks.map (foldBlock fun _ => none)

/-- The instructions of each block with their effects and constants. -/
def ssaBuildInsns (img : DolImage) (cfg : Cfg) : Option (List (List SsaInsn)) := do
  let blocks ← decodeAllInsns img cfg
  some (ssaFoldPrologue (ssaComputeDefuse blocks))

/-! ## Runs of a block -/

/-- The registers before and after each instruction of a block. -/
def BlockRun (insns : List SsaInsn) (gs : Nat → Gprs) : Prop :=
  ∀ k si, insns[k]? = some si → GprStep si.insn.raw (gs k) (gs (k + 1))

/-- In the run the constant of instruction `k` is what its destination holds after it. -/
def ConstantHolds (insns : List SsaInsn) (gs : Nat → Gprs) (k : Nat) : Prop :=
  ∀ si v, insns[k]? = some si → si.const = some v →
    ∃ r, si.effects.gprDef = some r ∧ gs (k + 1) r = v

/-- The operations that constants are folded through. -/
def PpcOp.isFolded : PpcOp → Bool
  | .addi | .addis | .ori => true
  | _ => false

/-- The register whose constant an instruction is folded with. -/
def foldSource (insn : PpcInsn) : Option Nat :=
  match insn.op with
  | .addi | .addis => if insn.ra = 0 then none else some insn.ra
  | .ori => some insn.rd
  | _ => none

section Stale

variable (insns : List SsaInsn) (k r : Nat)

/-- Instruction `k` writes register `r` by the table. -/
def DefinesAt : Prop := ∃ si, insns[k]? = some si ∧ (computeInsnEffects si.insn).gprDef = some r

/-- Instruction `k` may write register `r` by the architecture. -/
def WritesAt : Prop := ∃ si, insns[k]? = some si ∧ r ∈ gprWrites si.insn.raw

def FoldsAt : Prop := ∃ si, insns[k]? = some si ∧ si.insn.op.isFolded = true

/-- Before instruction `k`, register `r` was last written by a folded instruction as far as the
table says, but an instruction after that one writes it, too. -/
def Stale : Prop :=
  ∃ j i, j < i ∧ i < k ∧ FoldsAt insns j ∧ DefinesAt insns j r ∧ WritesAt insns i r ∧
    ∀ l, j < l → l < k → ¬ DefinesAt insns l r

/-- Instruction `k` is folded with no stale register. -/
def ReadsFresh : Prop :=
  ∀ si r, insns[k]? = some si → foldSource si.insn = some r → ¬ Stale insns k r

end Stale

/-! ## Words of the folded operations -/

variable {w va : BitVec 32}

theorem ppcDecode_addi (h : (ppcDecode w va).op = .addi) : ppcBits w 0 5 = 14 ∧
    ppcDecode w va = decodeDformArith w { raw := w, addr := va } .addi := by
  have hPrimary : ppcBits w 0 5 = 14 := ppcDecode_primary h nofun
  refine ⟨hPrimary, ?_⟩
  rw [ppcDecode, hPrimary]
  rfl

theorem ppcDecode_addis (h : (ppcDecode w va).op = .addis) : ppcBits w 0 5 = 15 ∧
    ppcDecode w va = decodeDformArith w { raw := w, addr := va } .addis := by
  have hPrimary : ppcBits w 0 5 = 15 := ppcDecode_primary h nofun
  refine ⟨hPrimary, ?_⟩
  rw [ppcDecode, hPrimary]
  rfl

theorem ppcDecode_ori (h : (ppcDecode w va).op = .ori) : ppcBits w 0 5 = 24 ∧
    ppcDecode w va = decodeOri w { raw := w, addr := va } := by
  have hPrimary : ppcBits w 0 5 = 24 := ppcDecode_primary h nofun
  refine ⟨hPrimary, ?_⟩
  rw [ppcDecode, hPrimary]
  rfl

/-- A folded operation puts a function of its source into its destination, and so does the fold
with the shadows. -/
theorem folded_spec {si : SsaInsn} (hDecoded : si.insn = ppcDecode w va)
    (hOp : si.insn.op.isFolded = true) :
    ∃ d f, (computeInsnEffects si.insn).gprDef = some d ∧
      (∀ sh, foldInsn sh si =
        setShadow sh d ((foldSource si.insn).elim (some (f 0)) fun r => (sh r).map f)) ∧
      ∀ g g', GprStep si.insn.raw g g' →
        g' = Function.update g d (f ((foldSource si.insn).elim 0 g)) := by
  have hCases : si.insn.op = .addi ∨ si.insn.op = .addis ∨ si.insn.op = .ori := by
    cases hCase : si.insn.op <;> rw [hCase] at hOp <;> first | contradiction | simp
  have hBase : ∀ (r : Nat) (g : Gprs),
      g.base r = (if r = 0 then none else some r : Option Nat).elim 0 g := by
    intro r g
    unfold Gprs.base
    split <;> rfl
  have hImmediate : ∀ (r : Nat) (x : BitVec 32) (sh : GprShadows),
      (if r = 0 then some x else (sh r).map (· + x)) =
        (if r = 0 then none else some r : Option Nat).elim (some (0 + x)) fun r =>
          (sh r).map (· + x) := by
    intro r x sh
    split
    · exact congrArg some (BitVec.zero_add x).symm
    · rfl
  rcases hCases with hOp | hOp | hOp
  · refine ⟨si.insn.rd, (· + si.insn.imm), ?_, fun sh => ?_, fun g g' hStep => ?_⟩
    · simp only [computeInsnEffects, hOp]
    · simp only [foldInsn, foldSource, hOp, hImmediate]
    · rw [hDecoded] at hOp hStep ⊢
      obtain ⟨hPrimary, hWord⟩ := ppcDecode_addi hOp
      simp only [foldSource, hOp, ← hBase]
      rw [hWord] at hStep ⊢
      simp only [GprStep, decodeDformArith, hPrimary] at hStep
      exact hStep
  · refine ⟨si.insn.rd, (· + si.insn.imm <<< 16), ?_, fun sh => ?_, fun g g' hStep => ?_⟩
    · simp only [computeInsnEffects, hOp]
    · simp only [foldInsn, foldSource, hOp, hImmediate]
    · rw [hDecoded] at hOp hStep ⊢
      obtain ⟨hPrimary, hWord⟩ := ppcDecode_addis hOp
      simp only [foldSource, hOp, ← hBase]
      rw [hWord] at hStep ⊢
      simp only [GprStep, decodeDformArith, hPrimary] at hStep
      exact hStep
  · refine ⟨si.insn.ra, (· ||| si.insn.imm), ?_, fun sh => ?_, fun g g' hStep => ?_⟩
    · simp only [computeInsnEffects, hOp]
    · simp only [foldInsn, foldSource, hOp, Option.elim_some]
    · rw [hDecoded] at hOp hStep ⊢
      obtain ⟨hPrimary, hWord⟩ := ppcDecode_ori hOp
      simp only [foldSource, hOp, Option.elim_some]
      rw [hWord] at hStep ⊢
      simp only [GprStep, decodeOri, hPrimary] at hStep
      exact hStep

/-- Any other instruction leaves no shadow for the register of the table. -/
theorem foldInsn_other {si : SsaInsn} (hOp : si.insn.op.isFolded = false) (sh : GprShadows) :
    foldInsn sh si = (si.effects.gprDef.elim sh fun r => Function.update sh r none, none) := by
  unfold foldInsn
  dsimp only
  split
  case h_4 =>
    cases si.effects.gprDef with
    | none => rfl
    | some r => rfl
  all_goals
    rename_i hCase
    rw [hCase] at hOp
    contradiction

/-! ## The invariant -/

/-- The shadows before instruction `k`. -/
def shadowsBefore (sh : GprShadows) (insns : List SsaInsn) (k : Nat) : GprShadows :=
  (insns.take k).foldl (fun sh si => (foldInsn sh si).1) sh

/-- Instructions as decoding, the table of effects and the fold leave them. -/
def Folded (insns : List SsaInsn) : Prop :=
  ∀ k si, insns[k]? = some si → (∃ w va, si.insn = ppcDecode w va) ∧
    si.effects = computeInsnEffects si.insn ∧
    si.const = (foldInsn (shadowsBefore (fun _ => none) insns k) si).2

theorem foldBlock_getElem? (sh : GprShadows) (insns : List SsaInsn) (k : Nat) :
    (foldBlock sh insns)[k]? = (insns[k]?).map fun si =>
      { si with const := (foldInsn (shadowsBefore sh insns k) si).2 } := by
  induction insns generalizing sh k with
  | nil => rfl
  | cons si insns ih =>
    cases k with
    | zero => rfl
    | succ k =>
      rw [foldBlock, List.getElem?_cons_succ, List.getElem?_cons_succ, ih]
      rfl

theorem shadowsBefore_foldBlock (sh : GprShadows) (insns : List SsaInsn) (k : Nat) :
    shadowsBefore sh (foldBlock sh insns) k = shadowsBefore sh insns k := by
  induction insns generalizing sh k with
  | nil => rfl
  | cons si insns ih =>
    cases k with
    | zero => rfl
    | succ k => exact ih (foldInsn sh si).1 k

theorem shadowsBefore_succ {sh : GprShadows} {insns : List SsaInsn} {k : Nat} {si : SsaInsn}
    (h : insns[k]? = some si) :
    shadowsBefore sh insns (k + 1) = (foldInsn (shadowsBefore sh insns k) si).1 := by
  unfold shadowsBefore
  rw [List.take_add_one, h, List.foldl_append]
  rfl

theorem mem_of_mapM {α β : Type} {f : α → Option β} {l : List α} {bs : List β}
    (h : l.mapM f = some bs) {b : β} (hb : b ∈ bs) : ∃ a ∈ l, f a = some b := by
  induction l generalizing bs with
  | nil =>
    obtain rfl := Option.some.inj h
    exact absurd hb List.not_mem_nil
  | cons a l ih =>
    rw [List.mapM_cons, Option.bind_eq_bind, Option.bind_eq_some_iff] at h
    obtain ⟨b', ha, h⟩ := h
    rw [Option.bind_eq_bind, Option.bind_eq_some_iff] at h
    obtain ⟨bs', hRest, h⟩ := h
    obtain rfl := Option.some.inj h
    rcases List.mem_cons.1 hb with rfl | hb
    · exact ⟨a, List.mem_cons_self, ha⟩
    · obtain ⟨a', hMem, ha'⟩ := ih hRest hb
      exact ⟨a', List.mem_cons_of_mem _ hMem, ha'⟩

theorem folded_of_mem {img : DolImage} {cfg : Cfg} {blocks : List (List SsaInsn)}
    (h : ssaBuildInsns img cfg = some blocks) {insns : List SsaInsn} (hMem : insns ∈ blocks) :
    Folded insns := by
  rw [ssaBuildInsns, Option.bind_eq_bind, Option.bind_eq_some_iff] at h
  obtain ⟨decoded, hDecode, h⟩ := h
  obtain rfl := Option.some.inj h
  obtain ⟨effects, hEffects, rfl⟩ := List.mem_map.1 hMem
  obtain ⟨plain, hPlain, rfl⟩ := List.mem_map.1 hEffects
  have hDecoded : ∀ si ∈ plain, ∃ w va, si.insn = ppcDecode w va := by
    obtain ⟨b, -, hBlock⟩ := mem_of_mapM hDecode hPlain
    intro si hsi
    obtain ⟨k, -, hk⟩ := mem_of_mapM hBlock hsi
    rw [Option.bind_eq_bind, Option.bind_eq_some_iff] at hk
    obtain ⟨w, -, hk⟩ := hk
    exact ⟨w, _, congrArg SsaInsn.insn (Option.some.inj hk).symm⟩
  intro k si hk
  rw [foldBlock_getElem?] at hk
  obtain ⟨si', hk', rfl⟩ := Option.map_eq_some_iff.1 hk
  rw [List.getElem?_map] at hk'
  obtain ⟨si, hsi, rfl⟩ := Option.map_eq_some_iff.1 hk'
  refine ⟨hDecoded si (List.mem_of_getElem? hsi), rfl, ?_⟩
  rw [shadowsBefore_foldBlock]
  rfl

section Invariant

variable {insns : List SsaInsn} {gs : Nat → Gprs} {k r : Nat}

theorem Stale.succ (h : Stale insns k r) (hDef : ¬ DefinesAt insns k r) : Stale insns (k + 1) r := by
  obtain ⟨j, i, hji, hik, hFolds, hDefines, hWrites, hLast⟩ := h
  refine ⟨j, i, hji, by omega, hFolds, hDefines, hWrites, fun l hjl hlk => ?_⟩
  by_cases hEq : l = k
  · exact hEq ▸ hDef
  · exact hLast l hjl (by omega)

/-- A shadow was put there by a folded instruction, and is what the register holds unless it is
stale. -/
def ShadowsHold (insns : List SsaInsn) (gs : Nat → Gprs) (k : Nat) : Prop :=
  ∀ r v, shadowsBefore (fun _ => none) insns k r = some v →
    (∃ j < k, FoldsAt insns j ∧ DefinesAt insns j r ∧ ∀ l, j < l → l < k → ¬ DefinesAt insns l r) ∧
      (¬ Stale insns k r → gs k r = v)

/-- A shadow that an instruction leaves alone holds after it. -/
theorem ShadowsHold.keep (h : ShadowsHold insns gs k) {si : SsaInsn} (hk : insns[k]? = some si)
    (hStep : GprStep si.insn.raw (gs k) (gs (k + 1))) (hDef : ¬ DefinesAt insns k r) {v : BitVec 32}
    (hShadow : shadowsBefore (fun _ => none) insns k r = some v) :
    (∃ j < k + 1, FoldsAt insns j ∧ DefinesAt insns j r ∧
        ∀ l, j < l → l < k + 1 → ¬ DefinesAt insns l r) ∧
      (¬ Stale insns (k + 1) r → gs (k + 1) r = v) := by
  obtain ⟨⟨j, hj, hFolds, hDefines, hLast⟩, hHolds⟩ := h r v hShadow
  have hLast' : ∀ l, j < l → l < k + 1 → ¬ DefinesAt insns l r := by
    intro l hjl hlk
    by_cases hEq : l = k
    · exact hEq ▸ hDef
    · exact hLast l hjl (by omega)
  refine ⟨⟨j, by omega, hFolds, hDefines, hLast'⟩, fun hFresh => ?_⟩
  have hFrame : r ∉ gprWrites si.insn.raw := fun hWrites =>
    hFresh ⟨j, k, hj, by omega, hFolds, hDefines, ⟨si, hk, hWrites⟩, hLast'⟩
  rw [hStep.frame hFrame]
  exact hHolds fun hStale => hFresh (hStale.succ hDef)

/-- The value of the source of a folded instruction. -/
theorem ShadowsHold.source (h : ShadowsHold insns gs k) {si : SsaInsn} (hk : insns[k]? = some si)
    (hReads : ReadsFresh insns k) {f : BitVec 32 → BitVec 32} {v : BitVec 32}
    (hConst : ((foldSource si.insn).elim (some (f 0)) fun r =>
      (shadowsBefore (fun _ => none) insns k r).map f) = some v) :
    f ((foldSource si.insn).elim 0 (gs k)) = v := by
  cases hSource : foldSource si.insn with
  | none =>
    rw [hSource] at hConst
    exact Option.some.inj hConst
  | some r =>
    rw [hSource] at hConst
    obtain ⟨x, hShadow, rfl⟩ := Option.map_eq_some_iff.1 hConst
    exact congrArg f ((h r x hShadow).2 (hReads si r hk hSource))

theorem ShadowsHold.step (hFolded : Folded insns) (h : ShadowsHold insns gs k) {si : SsaInsn}
    (hk : insns[k]? = some si) (hStep : GprStep si.insn.raw (gs k) (gs (k + 1)))
    (hReads : ReadsFresh insns k) : ShadowsHold insns gs (k + 1) := by
  intro r v hShadow
  rw [shadowsBefore_succ hk] at hShadow
  obtain ⟨⟨w, va, hDecoded⟩, hEffects, -⟩ := hFolded k si hk
  by_cases hOp : si.insn.op.isFolded = true
  · obtain ⟨d, f, hDef, hFold, hRun⟩ := folded_spec hDecoded hOp
    rw [hFold, setShadow] at hShadow
    dsimp only at hShadow
    by_cases hEq : r = d
    · subst hEq
      rw [Function.update_self] at hShadow
      refine ⟨⟨k, by omega, ⟨si, hk, hOp⟩, ⟨si, hk, hDef⟩, fun l hl hl' => by omega⟩, fun _ => ?_⟩
      rw [hRun _ _ hStep, Function.update_self]
      exact h.source hk hReads hShadow
    · rw [Function.update_of_ne hEq] at hShadow
      refine h.keep hk hStep (fun hDefines => hEq ?_) hShadow
      obtain ⟨si', hk', hDef'⟩ := hDefines
      obtain rfl := Option.some.inj (hk.symm.trans hk')
      exact Option.some.inj (hDef'.symm.trans hDef)
  · rw [Bool.not_eq_true] at hOp
    rw [foldInsn_other hOp, hEffects] at hShadow
    dsimp only at hShadow
    have hDef : ¬ DefinesAt insns k r := by
      rintro ⟨si', hk', hDef'⟩
      obtain rfl := Option.some.inj (hk.symm.trans hk')
      rw [hDef'] at hShadow
      exact nomatch (Function.update_self r _ _).symm.trans hShadow
    refine h.keep hk hStep hDef ?_
    cases hTable : (computeInsnEffects si.insn).gprDef with
    | none =>
      rw [hTable] at hShadow
      exact hShadow
    | some d =>
      have hNe : r ≠ d := by
        rintro rfl
        exact hDef ⟨si, hk, hTable⟩
      rw [hTable] at hShadow
      exact (Function.update_of_ne hNe _ _).symm.trans hShadow

/-- In a run that folds no instruction with a stale register the shadows hold. -/
theorem shadowsHold_run (hFolded : Folded insns) (hRun : BlockRun insns gs) :
    ∀ k, k ≤ insns.length → (∀ m < k, ReadsFresh insns m) → ShadowsHold insns gs k := by
  intro k
  induction k with
  | zero =>
    intro _ _ r v hShadow
    exact nomatch hShadow
  | succ k ih =>
    intro hLength hReads
    have hBefore := ih (by omega) fun m hm => hReads m (by omega)
    have hk : insns[k]? = some insns[k] := List.getElem?_eq_getElem hLength
    exact hBefore.step hFolded hk (hRun k insns[k] hk) (hReads k (by omega))

end Invariant

/-- In every run of a block, the constant of an instruction is what its destination holds after
it, if up to there no instruction is folded with a register that an instruction unknown to the
table has overwritten. -/
theorem ssaFoldPrologue_sound {img : DolImage} {cfg : Cfg} {blocks : List (List SsaInsn)}
    (hBuild : ssaBuildInsns img cfg = some blocks) {insns : List SsaInsn} (hBlock : insns ∈ blocks)
    {gs : Nat → Gprs} (hRun : BlockRun insns gs) {k : Nat} (hReads : ∀ m ≤ k, ReadsFresh insns m) :
    ConstantHolds insns gs k := by
  intro si v hk hConst
  have hFolded := folded_of_mem hBuild hBlock
  have hLength : k < insns.length := (List.getElem?_eq_some_iff.1 hk).1
  have hShadows := shadowsHold_run hFolded hRun k (by omega) fun m hm => hReads m (by omega)
  obtain ⟨⟨w, va, hDecoded⟩, hEffects, hValue⟩ := hFolded k si hk
  rw [hValue] at hConst
  by_cases hOp : si.insn.op.isFolded = true
  · obtain ⟨d, f, hDef, hFold, hStep⟩ := folded_spec hDecoded hOp
    rw [hFold] at hConst
    refine ⟨d, hEffects ▸ hDef, ?_⟩
    rw [hStep _ _ (hRun k si hk), Function.update_self]
    exact hShadows.source hk (hReads k (Nat.le_refl k)) hConst
  · rw [Bool.not_eq_true] at hOp
    rw [foldInsn_other hOp] at hConst
    exact nomatch hConst

/-! ## A prologue, and a call between its halves -/

/-- An instruction of a block, as decoding, the table and the fold leave it. -/
def SsaInsn.of (pc word : BitVec 32) (const : Option (BitVec 32)) : SsaInsn where
  pc := pc
  insn := ppcDecode word pc
  effects := computeInsnEffects (ppcDecode word pc)
  const := const

/-- `lis r4, 0x8003; addi r4, r4, 0x1234; blr`. -/
def prologueImage : DolImage := dolImage [0x3C808003, 0x38841234, 0x4E800020] [0]

def prologueCfg : Cfg where
  blocks := [{ cfgAddBlock 0x80004000 0x8000400C with idom := 0 }]
  edges := [.plain 0 cfgInvalid .ret]
  switches := []
  entryBlock := 0
  isIrreducible := false

def prologueInsns : List SsaInsn :=
  [.of 0x80004000 0x3C808003 (some 0x80030000), .of 0x80004004 0x38841234 (some 0x80031234),
    .of 0x80004008 0x4E800020 none]

def prologueRun : Nat → Gprs
  | 0 => fun _ => 0
  | 1 => Function.update (fun _ => 0) 4 0x80030000
  | _ => Function.update (Function.update (fun _ => 0) 4 0x80030000) 4 0x80031234

theorem ssaBuildInsns_prologueImage :
    ssaBuildInsns prologueImage prologueCfg = some [prologueInsns] := by
  rfl

theorem blockRun_prologueRun : BlockRun prologueInsns prologueRun := by
  intro k si hk
  match k with
  | 0 => obtain rfl := Option.some.inj hk; rfl
  | 1 => obtain rfl := Option.some.inj hk; rfl
  | 2 =>
    obtain rfl := Option.some.inj hk
    intro r _
    rfl
  | k + 3 => exact nomatch hk

theorem ssaFoldPrologue_sound_prologue : ConstantHolds prologueInsns prologueRun 1 :=
  ssaFoldPrologue_sound ssaBuildInsns_prologueImage List.mem_cons_self blockRun_prologueRun
    fun m hm si r _ _ hStale => by
      obtain ⟨j, i, hji, him, -⟩ := hStale
      omega

/-- `lis r4, 0x8000; bl 0x80004104; addi r4, r4, 4; blr`. -/
def callImage : DolImage := dolImage [0x3C808000, 0x48000101, 0x38840004, 0x4E800020] [0]

def callCfg : Cfg where
  blocks := [{ cfgAddBlock 0x80004000 0x80004010 with idom := 0 }]
  edges := [.plain 0 cfgInvalid .ret]
  switches := []
  entryBlock := 0
  isIrreducible := false

def callInsns : List SsaInsn :=
  [.of 0x80004000 0x3C808000 (some 0x80000000), .of 0x80004004 0x48000101 none,
    .of 0x80004008 0x38840004 (some 0x80000004), .of 0x8000400C 0x4E800020 none]

/-- The callee leaves 7 in `r4`. -/
def callRun : Nat → Gprs
  | 0 => fun _ => 0
  | 1 => Function.update (fun _ => 0) 4 0x80000000
  | 2 => Function.update (fun _ => 0) 4 7
  | _ => Function.update (Function.update (fun _ => 0) 4 7) 4 11

set_option maxRecDepth 20000 in
/-- The call may change `r4`, but the `addi` after it is folded with the constant from before. -/
theorem not_constantHolds_callRun :
    dolParse callImage.bytes = .ok callImage ∧
      ∃ cfg, cfgBuild cfgFuel callImage 0x80004000 0x80004010 = .ok cfg ∧
        ∃ blocks, ssaBuildInsns callImage cfg = some blocks ∧
          ∃ insns ∈ blocks, ∃ gs, BlockRun insns gs ∧ ∃ k, ¬ ConstantHolds insns gs k := by
  refine ⟨rfl, callCfg, rfl, [callInsns], rfl, callInsns, List.mem_cons_self, callRun, ?_, 2, ?_⟩
  · intro k si hk
    match k with
    | 0 => obtain rfl := Option.some.inj hk; rfl
    | 1 =>
      obtain rfl := Option.some.inj hk
      intro r hr
      have hNe : r ≠ 4 := by
        rintro rfl
        exact hr (by decide)
      show Function.update (fun _ : Nat => (0 : BitVec 32)) 4 7 r =
        Function.update (fun _ : Nat => (0 : BitVec 32)) 4 0x80000000 r
      rw [Function.update_of_ne hNe, Function.update_of_ne hNe]
    | 2 => obtain rfl := Option.some.inj hk; rfl
    | 3 =>
      obtain rfl := Option.some.inj hk
      intro r _
      rfl
    | k + 4 => exact nomatch hk
  · intro hHolds
    obtain ⟨r, hDef, hValue⟩ := hHolds _ 0x80000004 rfl rfl
    obtain rfl := Option.some.inj hDef
    exact absurd hValue (by decide)

end Calynda.Decompiler
