import Calynda.Decompiler.Cfg
import Calynda.Decompiler.Dol
import Calynda.Decompiler.Ppc
import Mathlib.Data.List.Sort
import Mathlib.Data.List.Destutter

/-!
# Basic blocks

One scan over the instructions of a function collects the addresses at which blocks start; the
blocks are the gaps between them, and the last instruction of each block gives its edges.
-/

namespace Calynda.Decompiler

open List

/-- The addresses of the instructions from `startVaddr` up to `endVaddr`. -/
def insnAddrs (startVaddr endVaddr : BitVec 32) : List (BitVec 32) :=
  (List.range ((endVaddr - startVaddr).toNat / 4)).map fun k => startVaddr + BitVec.ofNat 32 (4 * k)

def targetLeader (startVaddr endVaddr target : BitVec 32) : List (BitVec 32) :=
  if startVaddr ≤ target ∧ target < endVaddr then [target] else []

def nextLeader (endVaddr va : BitVec 32) : List (BitVec 32) :=
  if va + 4 < endVaddr then [va + 4] else []

/-- The leaders that the instruction at `va` asks for. -/
def leadersOf (startVaddr endVaddr va : BitVec 32) (insn : PpcInsn) : List (BitVec 32) :=
  match insn.op with
  | .b | .ba | .bc => targetLeader startVaddr endVaddr insn.target ++ nextLeader endVaddr va
  | .blr | .bctr => nextLeader endVaddr va
  | _ => []

/-- Sorts the addresses and drops repetitions. -/
def sortLeaders (arr : List (BitVec 32)) : List (BitVec 32) :=
  (arr.insertionSort fun a b => a.toNat ≤ b.toNat).destutter (· ≠ ·)

def collectLeaders (img : DolImage) (startVaddr endVaddr : BitVec 32) :
    Option (List (BitVec 32)) := do
  let arr ← (insnAddrs startVaddr endVaddr).foldlM (fun arr va => do
    let w ← cfgReadWord img va
    some (arr ++ leadersOf startVaddr endVaddr va (ppcDecode w va))) [startVaddr]
  some (sortLeaders arr)

def cfgAddBlock (startVaddr endVaddr : BitVec 32) : CfgBlock where
  startVaddr := startVaddr
  endVaddr := endVaddr
  insnCount := (endVaddr - startVaddr).toNat / 4
  idom := cfgInvalid
  isLoopHeader := false
  isLoopExit := false
  loopDepth := 0
  regionKind := .linear
  ifMerge := cfgInvalid

/-- A block from each leader to the next one. -/
def splitBlocks (endVaddr : BitVec 32) : List (BitVec 32) → List CfgBlock
  | [] => []
  | [l] => [cfgAddBlock l endVaddr]
  | l :: l' :: ls => cfgAddBlock l l' :: splitBlocks endVaddr (l' :: ls)

def cfgBlockOfVaddr (blocks : List CfgBlock) (vaddr : BitVec 32) : Nat :=
  (blocks.findIdx? (·.startVaddr = vaddr)).getD cfgInvalid

def CfgEdge.plain (src dst : Nat) (kind : CfgEdgeKind) : CfgEdge :=
  { src := src, dst := dst, kind := kind, caseValue := -1 }

/-- The edges of block `i`, whose last instruction is `insn`. -/
def edgesOf (blocks : List CfgBlock) (i : Nat) (b : CfgBlock) (insn : PpcInsn) : List CfgEdge :=
  let ftIdx := cfgBlockOfVaddr blocks b.endVaddr
  let t := cfgBlockOfVaddr blocks insn.target
  match insn.op with
  | .b | .ba => if t = cfgInvalid then [.plain i cfgInvalid .ret] else [.plain i t .uncond]
  | .bc =>
    (if t ≠ cfgInvalid then [.plain i t .condTaken] else []) ++
      (if ftIdx ≠ cfgInvalid then [.plain i ftIdx .condNotTaken] else [])
  | .blr => [.plain i cfgInvalid .ret]
  | .bctr => [.plain i cfgInvalid .indirectUnknown]
  | _ =>
    if ftIdx ≠ cfgInvalid then [.plain i ftIdx .fallthrough] else [.plain i cfgInvalid .ret]

def wireBlocks (img : DolImage) (blocks : List CfgBlock) : Option (List CfgEdge) :=
  blocks.zipIdx.foldlM (fun edges (b, i) => do
    let w ← cfgReadWord img (b.endVaddr - 4)
    some (edges ++ edgesOf blocks i b (ppcDecode w (b.endVaddr - 4)))) []

def splitAndWire (img : DolImage) (endVaddr : BitVec 32) (leaders : List (BitVec 32)) :
    Option Cfg := do
  let blocks := splitBlocks endVaddr leaders
  let edges ← wireBlocks img blocks
  some { blocks := blocks, edges := edges, switches := [], entryBlock := 0, isIrreducible := false }

/-! ## Leaders -/

variable {img : DolImage} {s e a va : BitVec 32} {leaders : List (BitVec 32)}

theorem mem_insnAddrs (hs : s.toNat % 4 = 0) (he : e.toNat % 4 = 0) (hse : s < e) :
    va ∈ insnAddrs s e ↔ s ≤ va ∧ va < e ∧ va.toNat % 4 = 0 := by
  simp only [insnAddrs, mem_map, mem_range]
  constructor
  · rintro ⟨k, hk, rfl⟩
    have hBound : (e - s).toNat = e.toNat - s.toNat := by bv_omega
    rw [hBound] at hk
    have hAdd : (s + BitVec.ofNat 32 (4 * k)).toNat = s.toNat + 4 * k := by
      rw [BitVec.toNat_add, BitVec.toNat_ofNat]
      omega
    refine ⟨?_, ?_, ?_⟩
    · rw [BitVec.le_def, hAdd]
      omega
    · rw [BitVec.lt_def, hAdd]
      omega
    · omega
  · rintro ⟨hLe, hLt, hAligned⟩
    rw [BitVec.le_def] at hLe
    rw [BitVec.lt_def] at hLt
    refine ⟨(va.toNat - s.toNat) / 4, ?_, ?_⟩
    · have hBound : (e - s).toNat = e.toNat - s.toNat := by bv_omega
      rw [hBound]
      omega
    · apply BitVec.eq_of_toNat_eq
      rw [BitVec.toNat_add, BitVec.toNat_ofNat]
      omega

instance addressOrder_antisymm : Std.Antisymm fun a b : BitVec 32 => a.toNat ≤ b.toNat where
  antisymm _ _ hab hba := BitVec.eq_of_toNat_eq (Nat.le_antisymm hab hba)

instance addressOrder_isTrans : IsTrans (BitVec 32) fun a b => a.toNat ≤ b.toNat where
  trans _ _ _ := Nat.le_trans

instance addressOrder_total : Std.Total fun a b : BitVec 32 => a.toNat ≤ b.toNat where
  total a b := Nat.le_total a.toNat b.toNat

theorem sortLeaders_eq (arr : List (BitVec 32)) :
    sortLeaders arr = (arr.insertionSort fun a b => a.toNat ≤ b.toNat).dedup :=
  (pairwise_insertionSort _ arr).destutter_eq_dedup

@[simp] theorem mem_sortLeaders {arr : List (BitVec 32)} : a ∈ sortLeaders arr ↔ a ∈ arr := by
  rw [sortLeaders_eq, mem_dedup, mem_insertionSort]

theorem sortLeaders_pairwise (arr : List (BitVec 32)) :
    (sortLeaders arr).Pairwise fun a b => a.toNat < b.toNat := by
  have hLe : (sortLeaders arr).Pairwise fun a b => a.toNat ≤ b.toNat := by
    rw [sortLeaders_eq]
    exact (pairwise_insertionSort _ arr).sublist (dedup_sublist _)
  have hNe : (sortLeaders arr).Pairwise (· ≠ ·) := by
    rw [sortLeaders_eq]
    exact nodup_dedup _
  refine (hLe.and hNe).imp ?_
  intro a b h
  exact Nat.lt_of_le_of_ne h.1 fun hEq => h.2 (BitVec.eq_of_toNat_eq hEq)

/-- What the scan finds: the start of the function and the leaders of its instructions. -/
theorem mem_collectLeaders (h : collectLeaders img s e = some leaders) :
    a ∈ leaders ↔ a = s ∨ ∃ va ∈ insnAddrs s e, ∃ w, cfgReadWord img va = some w ∧
      a ∈ leadersOf s e va (ppcDecode w va) := by
  rw [collectLeaders, Option.bind_eq_bind, Option.bind_eq_some_iff] at h
  obtain ⟨arr, hFold, hSort⟩ := h
  obtain ⟨-, rfl⟩ := foldlM_append_eq_some.1 hFold
  obtain rfl := Option.some.inj hSort
  rw [mem_sortLeaders, mem_append, mem_singleton, mem_flatMap]
  refine or_congr Iff.rfl (exists_congr fun va => and_congr_right fun _ => ?_)
  cases hw : cfgReadWord img va with
  | none => simp
  | some w => simp

theorem collectLeaders_pairwise (h : collectLeaders img s e = some leaders) :
    leaders.Pairwise fun a b => a.toNat < b.toNat := by
  rw [collectLeaders, Option.bind_eq_bind, Option.bind_eq_some_iff] at h
  obtain ⟨arr, -, hSort⟩ := h
  obtain rfl := Option.some.inj hSort
  exact sortLeaders_pairwise arr

/-- Branches with a target in the instruction, calls apart. -/
def PpcOp.isDirect : PpcOp → Bool
  | .b | .ba | .bc => true
  | _ => false

/-- The operations after which a block ends. -/
def PpcOp.endsBlock : PpcOp → Bool
  | .b | .ba | .bc | .blr | .bctr => true
  | _ => false

theorem mem_leadersOf {insn : PpcInsn} :
    a ∈ leadersOf s e va insn ↔
      (insn.op.isDirect = true ∧ a = insn.target ∧ s ≤ a ∧ a < e) ∨
        (insn.op.endsBlock = true ∧ a = va + 4 ∧ a < e) := by
  have hTarget : a ∈ targetLeader s e insn.target ↔ a = insn.target ∧ s ≤ a ∧ a < e := by
    unfold targetLeader
    split
    case isTrue h =>
      rw [mem_singleton]
      refine ⟨?_, And.left⟩
      rintro rfl
      exact ⟨rfl, h⟩
    case isFalse h =>
      refine iff_of_false not_mem_nil ?_
      rintro ⟨rfl, hIn⟩
      exact h hIn
  have hNext : a ∈ nextLeader e va ↔ a = va + 4 ∧ a < e := by
    unfold nextLeader
    split
    case isTrue h =>
      rw [mem_singleton]
      refine ⟨?_, And.left⟩
      rintro rfl
      exact ⟨rfl, h⟩
    case isFalse h =>
      refine iff_of_false not_mem_nil ?_
      rintro ⟨rfl, hIn⟩
      exact h hIn
  unfold leadersOf
  cases insn.op <;> simp [PpcOp.isDirect, PpcOp.endsBlock, hTarget, hNext]

/-- The range has word addresses below the top of the address space. -/
structure AlignedRange (s e : BitVec 32) : Prop where
  start : s.toNat % 4 = 0
  stop : e.toNat % 4 = 0
  lt : s < e

theorem AlignedRange.next {s e va : BitVec 32} (hRange : AlignedRange s e)
    (hva : va ∈ insnAddrs s e) : (va + 4).toNat = va.toNat + 4 ∧ va.toNat + 4 ≤ e.toNat := by
  obtain ⟨-, hLt, hAligned⟩ := (mem_insnAddrs hRange.start hRange.stop hRange.lt).1 hva
  have hStop := hRange.stop
  rw [BitVec.lt_def] at hLt
  constructor
  · rw [BitVec.toNat_add]
    simp
    omega
  · omega

/-- Direct branches go to word addresses. -/
theorem ppcDecode_target_aligned {w : BitVec 32} (hva : va.toNat % 4 = 0)
    (hOp : (ppcDecode w va).op.isDirect = true) : (ppcDecode w va).target.toNat % 4 = 0 := by
  have hSum : ∀ disp : BitVec 32, disp.toNat % 4 = 0 → (va + disp).toNat % 4 = 0 := by
    intro disp hDisp
    rw [BitVec.toNat_add]
    omega
  have hTarget : ∀ (aa : Nat) (disp : BitVec 32), disp.toNat % 4 = 0 →
      (if aa ≠ 0 then disp else va + disp).toNat % 4 = 0 := by
    intro aa disp hDisp
    split
    · exact hDisp
    · exact hSum disp hDisp
  by_cases h16 : ppcBits w 0 5 = 16
  · rw [ppcDecode_bform h16]
    exact hTarget _ _ (ppcSext_aligned _ 16 (by omega) (by omega))
  by_cases h18 : ppcBits w 0 5 = 18
  · rw [ppcDecode_iform h18]
    exact hTarget _ _ (ppcSext_aligned _ 26 (by omega) (by omega))
  by_cases h19 : ppcBits w 0 5 = 19
  · rw [ppcDecode_opcode19 h19] at hOp
    unfold decodeOpcode19 at hOp
    dsimp only at hOp
    split at hOp
    · cases hOp
    · split at hOp <;> cases hOp
  · have hNot : (ppcDecode w va).op.isBranch = false := isBranch_ppcDecode h16 h18 h19
    cases hCase : (ppcDecode w va).op <;> rw [hCase] at hNot hOp <;> contradiction

/-- Leaders are word addresses of the range. -/
theorem collectLeaders_range (hRange : AlignedRange s e) (h : collectLeaders img s e = some leaders)
    (ha : a ∈ leaders) : a ∈ insnAddrs s e := by
  have hMem : ∀ va, va ∈ insnAddrs s e ↔ s ≤ va ∧ va < e ∧ va.toNat % 4 = 0 := fun va =>
    mem_insnAddrs hRange.start hRange.stop hRange.lt
  rw [hMem]
  rcases (mem_collectLeaders h).1 ha with rfl | ⟨va, hva, w, -, hLeader⟩
  · exact ⟨BitVec.le_refl _, hRange.lt, hRange.start⟩
  · obtain ⟨hNext, hEnd⟩ := hRange.next hva
    obtain ⟨hLe, hLt, hAligned⟩ := (hMem va).1 hva
    rcases mem_leadersOf.1 hLeader with ⟨hOp, rfl, hIn⟩ | ⟨-, rfl, hStop⟩
    · exact ⟨hIn.1, hIn.2, ppcDecode_target_aligned hAligned hOp⟩
    · refine ⟨?_, hStop, by omega⟩
      rw [BitVec.le_def] at hLe ⊢
      omega

/-! ## Blocks and edges -/

/-- Where the blocks start and end. -/
def Cfg.spans (cfg : Cfg) : List (BitVec 32 × BitVec 32) :=
  cfg.blocks.map fun b => (b.startVaddr, b.endVaddr)

/-- The spans lie one after the other from `s` to `e`, none of them empty. -/
def Tiles (e : BitVec 32) : BitVec 32 → List (BitVec 32 × BitVec 32) → Prop
  | s, [] => s = e
  | s, (start, stop) :: spans => start = s ∧ s < stop ∧ Tiles e stop spans

theorem splitBlocks_starts (e : BitVec 32) (ls : List (BitVec 32)) :
    (splitBlocks e ls).map (·.startVaddr) = ls := by
  induction ls using splitBlocks.induct with
  | case1 => rfl
  | case2 l => rfl
  | case3 l l' ls ih => rw [splitBlocks, map_cons, ih, cfgAddBlock]

@[simp] theorem length_splitBlocks (e : BitVec 32) (ls : List (BitVec 32)) :
    (splitBlocks e ls).length = ls.length := by
  rw [← length_map, splitBlocks_starts]

theorem tiles_splitBlocks {l : BitVec 32} {ls : List (BitVec 32)}
    (hSorted : (l :: ls).Pairwise fun a b => a.toNat < b.toNat)
    (hEnd : ∀ a ∈ l :: ls, a < e) :
    Tiles e l ((splitBlocks e (l :: ls)).map fun b => (b.startVaddr, b.endVaddr)) := by
  induction ls generalizing l with
  | nil => exact ⟨rfl, hEnd l mem_cons_self, rfl⟩
  | cons l' ls ih =>
    obtain ⟨hHead, hTail⟩ := pairwise_cons.1 hSorted
    exact ⟨rfl, hHead l' mem_cons_self, ih hTail fun a ha => hEnd a (mem_cons_of_mem _ ha)⟩

/-- A block reaches to the next leader. -/
theorem splitBlocks_gap {ls : List (BitVec 32)} (hSorted : ls.Pairwise fun a b => a.toNat < b.toNat)
    {b : CfgBlock} (hb : b ∈ splitBlocks e ls) (ha : a ∈ ls) :
    a.toNat ≤ b.startVaddr.toNat ∨ b.endVaddr.toNat ≤ a.toNat := by
  induction ls using splitBlocks.induct with
  | case1 => exact absurd ha not_mem_nil
  | case2 l =>
    obtain rfl := mem_singleton.1 hb
    obtain rfl := mem_singleton.1 ha
    exact .inl (Nat.le_refl _)
  | case3 l l' ls ih =>
    obtain ⟨hHead, hTail⟩ := pairwise_cons.1 hSorted
    rcases mem_cons.1 hb with rfl | hbTail
    · rcases mem_cons.1 ha with rfl | ha
      · exact .inl (Nat.le_refl _)
      · rcases mem_cons.1 ha with rfl | ha
        · exact .inr (Nat.le_refl _)
        · exact .inr (Nat.le_of_lt ((pairwise_cons.1 hTail).1 a ha))
    · rcases mem_cons.1 ha with rfl | ha
      · have hMem : b.startVaddr ∈ l' :: ls :=
          splitBlocks_starts e (l' :: ls) ▸ mem_map_of_mem hbTail
        exact .inl (Nat.le_of_lt (hHead _ hMem))
      · exact ih hTail hbTail ha

theorem cfgBlockOfVaddr_lt {blocks : List CfgBlock} {vaddr : BitVec 32}
    (h : cfgBlockOfVaddr blocks vaddr ≠ cfgInvalid) :
    cfgBlockOfVaddr blocks vaddr < blocks.length := by
  unfold cfgBlockOfVaddr at h ⊢
  cases hFind : blocks.findIdx? (·.startVaddr = vaddr) with
  | none =>
    rw [hFind] at h
    exact absurd rfl h
  | some i => exact (findIdx?_eq_some_iff_getElem.1 hFind).1

/-- The edges of a block: they leave it, stay in the function or are marked as leaving it, and
no jump table is among them. -/
theorem mem_edgesOf {blocks : List CfgBlock} {i : Nat} {b : CfgBlock} {insn : PpcInsn}
    {edge : CfgEdge} (h : edge ∈ edgesOf blocks i b insn) :
    edge.src = i ∧ (edge.dst = cfgInvalid ∨ edge.dst < blocks.length) ∧
      (edge.kind = .indirectUnknown → edge.dst = cfgInvalid) := by
  unfold edgesOf at h
  dsimp only at h
  split at h
  iterate 2
    split at h
    case isTrue _ =>
      obtain rfl := mem_singleton.1 h
      exact ⟨rfl, .inl rfl, nofun⟩
    case isFalse hValid =>
      obtain rfl := mem_singleton.1 h
      exact ⟨rfl, .inr (cfgBlockOfVaddr_lt hValid), nofun⟩
  · rcases mem_append.1 h with h | h
    iterate 2
      split at h
      case isTrue hValid =>
        obtain rfl := mem_singleton.1 h
        exact ⟨rfl, .inr (cfgBlockOfVaddr_lt hValid), nofun⟩
      case isFalse _ => exact absurd h not_mem_nil
  · obtain rfl := mem_singleton.1 h
    exact ⟨rfl, .inl rfl, nofun⟩
  · obtain rfl := mem_singleton.1 h
    exact ⟨rfl, .inl rfl, fun _ => rfl⟩
  · split at h
    case isTrue hValid =>
      obtain rfl := mem_singleton.1 h
      exact ⟨rfl, .inr (cfgBlockOfVaddr_lt hValid), nofun⟩
    case isFalse _ =>
      obtain rfl := mem_singleton.1 h
      exact ⟨rfl, .inl rfl, nofun⟩

/-- The graph of a function's direct branches, without any of the facts about it. -/
def directGraph (img : DolImage) (s e : BitVec 32) : Option Cfg := do
  let leaders ← collectLeaders img s e
  splitAndWire img e leaders

/-- How a graph of direct branches comes about. -/
structure IsDirectGraph (img : DolImage) (s e : BitVec 32) (leaders : List (BitVec 32))
    (cfg : Cfg) : Prop where
  collected : collectLeaders img s e = some leaders
  blocks : cfg.blocks = splitBlocks e leaders
  mapped : ∀ b ∈ cfg.blocks, ∃ w, cfgReadWord img (b.endVaddr - 4) = some w
  edges : cfg.edges = cfg.blocks.zipIdx.flatMap fun (b, i) =>
    (cfgReadWord img (b.endVaddr - 4)).elim [] fun w =>
      edgesOf cfg.blocks i b (ppcDecode w (b.endVaddr - 4))
  entry : cfg.entryBlock = 0
  switches : cfg.switches = []

theorem isDirectGraph_of_eq_some {cfg : Cfg} (h : directGraph img s e = some cfg) :
    ∃ leaders, IsDirectGraph img s e leaders cfg := by
  rw [directGraph, Option.bind_eq_bind, Option.bind_eq_some_iff] at h
  obtain ⟨leaders, hLeaders, h⟩ := h
  rw [splitAndWire, Option.bind_eq_bind, Option.bind_eq_some_iff] at h
  obtain ⟨edges, hWire, h⟩ := h
  obtain ⟨hMapped, hEdges⟩ := foldlM_append_eq_some.1 hWire
  obtain rfl := Option.some.inj h
  refine ⟨leaders, hLeaders, rfl, ?_, by simpa using hEdges, rfl, rfl⟩
  intro b hb
  obtain ⟨i, hi, rfl⟩ := List.getElem_of_mem hb
  exact hMapped (_, i) (mem_zipIdx_iff_getElem?.2 (List.getElem?_eq_getElem hi))

namespace IsDirectGraph

variable {cfg : Cfg}

theorem mem_edges (h : IsDirectGraph img s e leaders cfg) {edge : CfgEdge} :
    edge ∈ cfg.edges ↔ ∃ b i w, cfg.blocks[i]? = some b ∧
      cfgReadWord img (b.endVaddr - 4) = some w ∧
      edge ∈ edgesOf cfg.blocks i b (ppcDecode w (b.endVaddr - 4)) := by
  rw [h.edges, mem_flatMap]
  constructor
  · rintro ⟨⟨b, i⟩, hb, hEdge⟩
    dsimp only at hEdge
    cases hw : cfgReadWord img (b.endVaddr - 4) with
    | none =>
      rw [hw] at hEdge
      exact absurd hEdge not_mem_nil
    | some w =>
      rw [hw] at hEdge
      exact ⟨b, i, w, mem_zipIdx_iff_getElem?.1 hb, hw, hEdge⟩
  · rintro ⟨b, i, w, hb, hw, hEdge⟩
    refine ⟨(b, i), mem_zipIdx_iff_getElem?.2 hb, ?_⟩
    dsimp only
    rw [hw]
    exact hEdge

theorem leaders_length (h : IsDirectGraph img s e leaders cfg) (hRange : AlignedRange s e) :
    leaders.length ≤ 2 ^ 30 := by
  have hAligned : ∀ a ∈ leaders, a.toNat % 4 = 0 := fun a ha =>
    ((mem_insnAddrs hRange.start hRange.stop hRange.lt).1
      (collectLeaders_range hRange h.collected ha)).2.2
  have hNodup : (leaders.map (·.toNat / 4)).Nodup := by
    rw [List.Nodup, pairwise_map]
    refine (collectLeaders_pairwise h.collected).imp_of_mem fun ha hb hLt => ?_
    have := hAligned _ ha
    have := hAligned _ hb
    omega
  have hSub : leaders.map (·.toNat / 4) ⊆ List.range (2 ^ 30) := by
    intro n hn
    obtain ⟨a, -, rfl⟩ := mem_map.1 hn
    have := a.isLt
    exact mem_range.2 (by omega)
  simpa using (subperm_of_subset hNodup hSub).length_le

theorem leaders_ne_nil (h : IsDirectGraph img s e leaders cfg) : leaders ≠ [] := by
  have hMem : s ∈ leaders := (mem_collectLeaders h.collected).2 (.inl rfl)
  rintro rfl
  exact absurd hMem not_mem_nil

theorem wellFormed (h : IsDirectGraph img s e leaders cfg) (hRange : AlignedRange s e) :
    cfg.WellFormed where
  blocks_le := by
    rw [h.blocks, length_splitBlocks]
    exact Nat.le_trans (h.leaders_length hRange) (by decide)
  entry_lt := by
    rw [h.entry, h.blocks, length_splitBlocks]
    exact length_pos_iff.2 h.leaders_ne_nil
  src_lt edge hEdge := by
    obtain ⟨b, i, w, hb, -, hMem⟩ := h.mem_edges.1 hEdge
    rw [(mem_edgesOf hMem).1]
    exact (List.getElem?_eq_some_iff.1 hb).1
  dst_lt edge hEdge := by
    obtain ⟨b, i, w, -, -, hMem⟩ := h.mem_edges.1 hEdge
    exact (mem_edgesOf hMem).2.1

theorem unknownsLeave (h : IsDirectGraph img s e leaders cfg) :
    ∀ edge ∈ cfg.edges, edge.kind = .indirectUnknown → edge.dst = cfgInvalid := by
  intro edge hEdge
  obtain ⟨b, i, w, -, -, hMem⟩ := h.mem_edges.1 hEdge
  exact (mem_edgesOf hMem).2.2

theorem headerOf_eq_false (h : IsDirectGraph img s e leaders cfg) (b : Nat) :
    cfg.headerOf b = false := by
  have hFresh : ∀ ls : List (BitVec 32), ∀ x ∈ splitBlocks e ls, x.isLoopHeader = false := by
    intro ls
    induction ls using splitBlocks.induct with
    | case1 => exact fun _ hx => absurd hx not_mem_nil
    | case2 l =>
      intro x hx
      rw [mem_singleton.1 hx]
      rfl
    | case3 l l' ls ih =>
      intro x hx
      rcases mem_cons.1 hx with rfl | hx
      · rfl
      · exact ih x hx
  unfold Cfg.headerOf
  by_cases hb : b < cfg.blocks.length
  · rw [getD_eq_getElem _ _ (by simpa using hb), List.getElem_map]
    exact hFresh leaders _ (h.blocks ▸ List.getElem_mem hb)
  · exact getD_eq_default _ _ (by simpa using hb)

end IsDirectGraph

end Calynda.Decompiler
