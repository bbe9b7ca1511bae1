import Calynda.Decompiler.Build
import Calynda.Decompiler.Isa

/-!
# Recovered jump tables

Which jump tables `cfgRecoverSwitches` records. A jump through a table puts the address of the table
into a register by `addis` and then `addi` or `ori`. The search walks from the jump backwards and
looks for the `addi` or `ori` behind the `addis`, so what it finds are the pairs in the other order.
-/

namespace Calynda.Decompiler

/-! ## The window of the search -/

/-- The instructions before `va`, the nearest first, as far as the search may go. -/
def windowFrom (img : DolImage) (stop : BitVec 32) : Nat → BitVec 32 → List PpcInsn
  | 0, _ => []
  | walks + 1, va =>
    if stop < va then
      match cfgReadWord img (va - 4) with
      | none => []
      | some w => ppcDecode w (va - 4) :: windowFrom img stop walks (va - 4)
    else []

/-- The last 16 instructions of a block before its jump, the nearest first. -/
def window (img : DolImage) (b : CfgBlock) : List PpcInsn :=
  windowFrom img b.startVaddr 16 (b.endVaddr - 4)

/-- The upper half of an address is put into a register. -/
def PpcInsn.isHigh (insn : PpcInsn) : Bool := insn.op = .addis ∧ insn.ra = 0

/-- The address that the `addi` or `ori` makes of an upper half in the same register. -/
def pairValue (hi lo : PpcInsn) : Option (BitVec 32) :=
  if lo.op = .addi ∧ lo.ra = hi.rd ∧ lo.rd = hi.rd then some (hi.imm <<< 16 + lo.imm)
  else if lo.op = .ori ∧ lo.ra = hi.rd ∧ lo.rd = hi.rd then some (hi.imm <<< 16 ||| lo.imm)
  else none

/-- The upper half that is farthest from the jump. -/
def lastHigh (insns : List PpcInsn) : Option PpcInsn := (insns.filter PpcInsn.isHigh).getLast?

/-- An address that the instructions compute in program order, and that nothing written to the
register afterwards changes: the `addis`, later the `addi` or `ori`, and no other write to the
register after the `addis`. The instructions are given from the jump backwards. -/
def InOrderValue (insns : List PpcInsn) (value : BitVec 32) : Prop :=
  ∃ after lo between hi before, insns = after ++ lo :: (between ++ hi :: before) ∧
    hi.isHigh = true ∧ pairValue hi lo = some value ∧
    ∀ insn ∈ after ++ between, hi.rd ∉ gprWrites insn.raw

/-- The address of the nearest `addi` or `ori` whose next `addis` in program order has the same
register: of a pair in the reverse order. -/
def ReversedValue (insns : List PpcInsn) (value : BitVec 32) : Prop :=
  ∃ after lo before, insns = after ++ lo :: before ∧
    (lastHigh after).bind (pairValue · lo) = some value ∧
    ∀ after' insn before', after = after' ++ insn :: before' →
      (lastHigh after').bind (pairValue · insn) = none

/-! ## The search -/

/-- The search over the instructions, with the upper half found so far. -/
def searchPair (hi : Option PpcInsn) : List PpcInsn → Option (BitVec 32)
  | [] => none
  | insn :: insns =>
    if insn.isHigh then searchPair (some insn) insns
    else
      match hi.bind (pairValue · insn) with
      | some value => some value
      | none => searchPair hi insns

/-- What the walk keeps of an upper half. -/
def PpcInsn.tableHigh (hi : PpcInsn) : BitVec 32 × Nat := (hi.imm <<< 16, hi.rd)

theorem findTableBaseFrom_eq (img : DolImage) (stop : BitVec 32) (walks : Nat) (va : BitVec 32)
    (hi : Option PpcInsn) :
    findTableBaseFrom img stop walks va (hi.map PpcInsn.tableHigh) =
      searchPair hi (windowFrom img stop walks va) := by
  induction walks generalizing va hi with
  | zero => rfl
  | succ walks ih =>
    rw [findTableBaseFrom, windowFrom]
    by_cases hStop : stop < va
    case neg => rw [if_neg hStop, if_neg hStop, searchPair]
    rw [if_pos hStop, if_pos hStop]
    dsimp only
    cases cfgReadWord img (va - 4) with
    | none => rfl
    | some w =>
      dsimp only
      generalize ppcDecode w (va - 4) = insn
      rw [searchPair, PpcInsn.isHigh]
      by_cases hHigh : insn.op = .addis ∧ insn.ra = 0
      · rw [if_pos hHigh, if_pos (decide_eq_true hHigh), ← ih, Option.map_some,
          PpcInsn.tableHigh]
      · rw [if_neg hHigh, if_neg (by simpa using hHigh)]
        cases hi with
        | none =>
          rw [← ih, Option.map_none, Option.bind_none]
        | some h =>
          rw [← ih, Option.bind_some, pairValue, Option.map_some, PpcInsn.tableHigh]
          dsimp only
          split
          · rfl
          · split <;> rfl

theorem lastHigh_append_singleton (insns : List PpcInsn) (insn : PpcInsn) :
    lastHigh (insns ++ [insn]) = if insn.isHigh then some insn else lastHigh insns := by
  rw [lastHigh, List.filter_append]
  split
  case isTrue h => rw [List.filter_cons_of_pos h, List.filter_nil, List.getLast?_concat]
  case isFalse h => rw [List.filter_cons_of_neg h, List.filter_nil, List.append_nil, lastHigh]

/-- An upper half is no lower one. -/
theorem pairValue_of_isHigh {lo : PpcInsn} (h : lo.isHigh = true) (hi : Option PpcInsn) :
    hi.bind (pairValue · lo) = none := by
  have hOp : lo.op = .addis := (of_decide_eq_true h).1
  cases hi with
  | none => rfl
  | some hi =>
    rw [Option.bind_some, pairValue, if_neg (by simp [hOp]), if_neg (by simp [hOp])]

/-- The nearest reversed pair in instructions that follow those already seen. -/
def ReversedAfter (seen insns : List PpcInsn) (value : BitVec 32) : Prop :=
  ∃ after lo before, insns = after ++ lo :: before ∧
    (lastHigh (seen ++ after)).bind (pairValue · lo) = some value ∧
    ∀ after' insn before', after = after' ++ insn :: before' →
      (lastHigh (seen ++ after')).bind (pairValue · insn) = none

theorem reversedAfter_cons_iff (seen : List PpcInsn) (insn : PpcInsn) (insns : List PpcInsn)
    (value : BitVec 32) : ReversedAfter seen (insn :: insns) value ↔
      (lastHigh seen).bind (pairValue · insn) = some value ∨
        (lastHigh seen).bind (pairValue · insn) = none ∧
          ReversedAfter (seen ++ [insn]) insns value := by
  constructor
  · rintro ⟨after, lo, before, hEq, hValue, hFirst⟩
    cases after with
    | nil =>
      rw [List.nil_append] at hEq
      obtain ⟨rfl, -⟩ := List.cons.inj hEq
      rw [List.append_nil] at hValue
      exact .inl hValue
    | cons x after =>
      obtain ⟨rfl, hRest⟩ := List.cons.inj hEq
      have hNone := hFirst [] insn after rfl
      rw [List.append_nil] at hNone
      refine .inr ⟨hNone, after, lo, before, hRest, ?_, fun after' x before' hAfter => ?_⟩
      · rw [List.append_assoc]
        exact hValue
      · rw [List.append_assoc]
        exact hFirst (insn :: after') x before' (by rw [hAfter, List.cons_append])
  · rintro (hValue | ⟨hNone, after, lo, before, hEq, hValue, hFirst⟩)
    · refine ⟨[], insn, insns, rfl, by rwa [List.append_nil], fun after' x before' h => ?_⟩
      exact absurd h (by simp)
    · refine ⟨insn :: after, lo, before, by rw [hEq, List.cons_append], ?_,
        fun after' x before' hAfter => ?_⟩
      · rw [List.append_assoc] at hValue
        exact hValue
      · cases after' with
        | nil =>
          obtain ⟨rfl, -⟩ := List.cons.inj hAfter
          rwa [List.append_nil]
        | cons y after' =>
          obtain ⟨rfl, hRest⟩ := List.cons.inj hAfter
          have hAt := hFirst after' x before' hRest
          rw [List.append_assoc] at hAt
          exact hAt

/-- What the search finds after it has seen the instructions `seen`. -/
theorem searchPair_eq_some_iff (seen insns : List PpcInsn) (value : BitVec 32) :
    searchPair (lastHigh seen) insns = some value ↔ ReversedAfter seen insns value := by
  induction insns generalizing seen with
  | nil => exact iff_of_false nofun fun ⟨_, _, _, h, _⟩ => by simp at h
  | cons insn insns ih =>
    have hNext := ih (seen ++ [insn])
    rw [lastHigh_append_singleton] at hNext
    rw [reversedAfter_cons_iff, ← hNext, searchPair]
    by_cases hHigh : insn.isHigh = true
    · rw [if_pos hHigh, if_pos hHigh, pairValue_of_isHigh hHigh]
      exact ⟨fun h => .inr ⟨rfl, h⟩, fun h => (h.resolve_left nofun).2⟩
    · rw [if_neg hHigh, if_neg hHigh]
      cases (lastHigh seen).bind (pairValue · insn) with
      | none => exact ⟨fun h => .inr ⟨rfl, h⟩, fun h => (h.resolve_left nofun).2⟩
      | some v => exact ⟨.inl, fun h => h.resolve_right fun h => nomatch h.1⟩

/-- The search finds the nearest reversed pair. -/
theorem findTableBase_eq_some_iff (img : DolImage) (b : CfgBlock) (value : BitVec 32) :
    findTableBase img b = some value ↔ ReversedValue (window img b) value := by
  have hFind := findTableBaseFrom_eq img b.startVaddr 16 (b.endVaddr - 4) none
  rw [Option.map_none] at hFind
  rw [findTableBase, hFind]
  exact searchPair_eq_some_iff [] (window img b) value

/-! ## Tables -/

/-- An entry of a table: an aligned word that is a text address. -/
def tableWord (img : DolImage) (tableVa : BitVec 32) (i : Nat) : Option (BitVec 32) :=
  (cfgReadWord img (tableVa + BitVec.ofNat 32 (i * 4))).filter fun w =>
    w &&& 3 = 0 ∧ vaddrInText img w = true

/-- At most 256 entries and no further one behind them. -/
structure IsTable (img : DolImage) (tableVa : BitVec 32) (words : List (BitVec 32)) : Prop where
  nonempty : words ≠ []
  length_le : words.length ≤ 256
  entries : ∀ i (h : i < words.length), tableWord img tableVa i = some words[i]
  stop : tableWord img tableVa words.length = none

/-- The cases of a table, from number `i` on. -/
def casesFrom (i : Nat) : List (BitVec 32) → List CfgSwitchCase
  | [] => []
  | w :: words => { caseValue := i, targetVaddr := w } :: casesFrom (i + 1) words

theorem recoverCasesFrom_succ (img : DolImage) (tableVa : BitVec 32) (count i : Nat) :
    recoverCasesFrom img tableVa (count + 1) i =
      match tableWord img tableVa i with
      | none => []
      | some w =>
        { caseValue := i, targetVaddr := w } :: recoverCasesFrom img tableVa count (i + 1) := by
  rw [recoverCasesFrom, tableWord]
  cases cfgReadWord img (tableVa + BitVec.ofNat 32 (i * 4)) with
  | none => rfl
  | some w =>
    dsimp only
    by_cases hAligned : w &&& 3 = 0
    · by_cases hText : vaddrInText img w = true
      · rw [if_neg (not_not.2 hAligned), if_neg (by simpa using hText),
          Option.filter_some, if_pos (decide_eq_true ⟨hAligned, hText⟩)]
      · rw [if_neg (not_not.2 hAligned), if_pos (by simpa using hText),
          Option.filter_some, if_neg fun h => hText (of_decide_eq_true h).2]
    · rw [if_pos hAligned, Option.filter_some,
        if_neg fun h => hAligned (of_decide_eq_true h).1]

/-- Reading stops behind the entries. -/
theorem recoverCasesFrom_eq {img : DolImage} {tableVa : BitVec 32} {count i : Nat}
    {words : List (BitVec 32)} (hLength : words.length ≤ count)
    (hEntries : ∀ k (h : k < words.length), tableWord img tableVa (i + k) = some words[k])
    (hStop : tableWord img tableVa (i + words.length) = none) :
    recoverCasesFrom img tableVa count i = casesFrom i words := by
  induction words generalizing count i with
  | nil =>
    cases count with
    | zero => rfl
    | succ count =>
      rw [List.length_nil, Nat.add_zero] at hStop
      rw [recoverCasesFrom_succ, hStop, casesFrom]
  | cons w words ih =>
    rw [List.length_cons] at hLength hStop
    obtain ⟨count, rfl⟩ : ∃ m, count = m + 1 := ⟨count - 1, by omega⟩
    have hFirst := hEntries 0 (by simp)
    rw [Nat.add_zero] at hFirst
    rw [recoverCasesFrom_succ, hFirst, casesFrom]
    dsimp only
    rw [ih (by omega) (fun k hk => ?_) (by rw [← hStop]; congr 1; omega)]
    · rfl
    · have hNext := hEntries (k + 1) (by simpa using hk)
      rw [Nat.add_right_comm, Nat.add_assoc]
      exact hNext

theorem IsTable.recoverCases_eq {img : DolImage} {tableVa : BitVec 32} {words : List (BitVec 32)}
    (h : IsTable img tableVa words) : recoverCases img tableVa = casesFrom 0 words :=
  recoverCasesFrom_eq h.length_le (fun k hk => by rw [Nat.zero_add]; exact h.entries k hk)
    (by rw [Nat.zero_add]; exact h.stop)

theorem recoverCases_eq_nil_iff (img : DolImage) (tableVa : BitVec 32) :
    recoverCases img tableVa = [] ↔ tableWord img tableVa 0 = none := by
  rw [recoverCases, recoverCasesFrom_succ]
  cases tableWord img tableVa 0 with
  | none => exact iff_of_true rfl rfl
  | some w => exact iff_of_false nofun nofun

/-! ## What is recorded -/

def EndsInBctr (img : DolImage) (b : CfgBlock) : Prop :=
  b.insnCount ≠ 0 ∧ ∃ w, cfgReadWord img (b.endVaddr - 4) = some w ∧
    (ppcDecode w (b.endVaddr - 4)).op = .bctr

theorem recoverTable_eq_some_iff {img : DolImage} {b : CfgBlock} {value : BitVec 32}
    {cases : List CfgSwitchCase} : recoverTable img b = some (value, cases) ↔
      EndsInBctr img b ∧ ReversedValue (window img b) value ∧ cases = recoverCases img value ∧
        cases ≠ [] := by
  rw [← findTableBase_eq_some_iff, recoverTable]
  constructor
  · intro h
    split at h
    case isTrue => exact nomatch h
    case isFalse hCount =>
      obtain ⟨w, hw, h⟩ := Option.bind_eq_some_iff.1 h
      dsimp only at h
      split at h
      case isTrue => exact nomatch h
      case isFalse hOp =>
        obtain ⟨tableVa, hBase, h⟩ := Option.bind_eq_some_iff.1 h
        split at h
        case isTrue => exact nomatch h
        case isFalse hCases =>
          obtain ⟨rfl, rfl⟩ := Prod.mk.inj (Option.some.inj h)
          exact ⟨⟨hCount, w, hw, not_not.1 hOp⟩, hBase, rfl, hCases⟩
  · rintro ⟨⟨hCount, w, hw, hOp⟩, hBase, rfl, hCases⟩
    rw [if_neg hCount, hw, Option.bind_eq_bind, Option.bind_some, if_neg (not_not.2 hOp), hBase]
    exact if_neg hCases

variable {img : DolImage} {cfg : Cfg}

/-- The switch of a block, if it gets one. -/
def switchOf (img : DolImage) (cfg : Cfg) (bi : Nat) : Option CfgSwitch :=
  (cfg.blocks[bi]?).bind fun b => (recoverTable img b).map fun table =>
    { blockIndex := bi, tableVaddr := table.1, defaultVaddr := 0, cases := table.2 }

theorem recoverSwitch_extents (bi : Nat) :
    (recoverSwitch img cfg bi).blocks.map (·.extent) = cfg.blocks.map (·.extent) := by
  unfold recoverSwitch
  split
  case h_1 => rfl
  case h_2 =>
    split
    case h_1 => rfl
    case h_2 =>
      exact List.map_modify_of_eq CfgBlock.extent (fun b => { b with regionKind := .switch })
        (fun _ => rfl) _ _

theorem recoverSwitch_switches (bi : Nat) :
    (recoverSwitch img cfg bi).switches = cfg.switches ++ (switchOf img cfg bi).toList := by
  rw [recoverSwitch, switchOf]
  cases cfg.blocks[bi]? with
  | none => exact (List.append_nil _).symm
  | some b =>
    dsimp only [Option.bind_some]
    cases recoverTable img b with
    | none => exact (List.append_nil _).symm
    | some table => rfl

theorem switchOf_congr {cfg' : Cfg} (h : cfg'.blocks.map (·.extent) = cfg.blocks.map (·.extent))
    (bi : Nat) : switchOf img cfg' bi = switchOf img cfg bi := by
  have hAt : (cfg'.blocks[bi]?).map (·.extent) = (cfg.blocks[bi]?).map (·.extent) := by
    rw [← List.getElem?_map, ← List.getElem?_map, h]
  rw [switchOf, switchOf]
  cases hb : cfg.blocks[bi]? with
  | none =>
    rw [hb, Option.map_none, Option.map_eq_none_iff] at hAt
    rw [hAt]
  | some b =>
    rw [hb] at hAt
    obtain ⟨b', hb', hExtent⟩ := Option.map_eq_some_iff.1 hAt
    rw [hb', Option.bind_some, Option.bind_some, recoverTable_congr hExtent]

theorem foldl_recoverSwitch_switches (bis : List Nat) :
    (bis.foldl (recoverSwitch img) cfg).switches =
      cfg.switches ++ bis.filterMap (switchOf img cfg) := by
  induction bis generalizing cfg with
  | nil => exact (List.append_nil _).symm
  | cons bi bis ih =>
    have hCongr : switchOf img (recoverSwitch img cfg bi) = switchOf img cfg :=
      funext fun bi' => switchOf_congr (recoverSwitch_extents bi) bi'
    rw [List.foldl_cons, ih, recoverSwitch_switches, hCongr, List.append_assoc,
      List.filterMap_cons]
    cases switchOf img cfg bi <;> rfl

/-- The switches that recovery adds. -/
def recorded (img : DolImage) (cfg : Cfg) : List CfgSwitch :=
  (cfgRecoverSwitches img cfg).switches.drop cfg.switches.length

theorem mem_recorded {sw : CfgSwitch} :
    sw ∈ recorded img cfg ↔ ∃ b, cfg.blocks[sw.blockIndex]? = some b ∧
      recoverTable img b = some (sw.tableVaddr, sw.cases) ∧ sw.defaultVaddr = 0 := by
  rw [recorded, cfgRecoverSwitches, foldl_recoverSwitch_switches, List.drop_left,
    List.mem_filterMap]
  constructor
  · rintro ⟨bi, -, h⟩
    obtain ⟨b, hb, hMap⟩ := Option.bind_eq_some_iff.1 h
    obtain ⟨table, hTable, rfl⟩ := Option.map_eq_some_iff.1 hMap
    exact ⟨b, hb, hTable, rfl⟩
  · rintro ⟨b, hb, hTable, hDefault⟩
    refine ⟨sw.blockIndex, List.mem_range.2 (List.getElem?_eq_some_iff.1 hb).1, ?_⟩
    rw [switchOf, hb, Option.bind_some, hTable, Option.map_some, ← hDefault]

/-- The edges of a table are added, and no later block takes them away. -/
theorem tableEdges_subset_foldl (bis : List Nat) {bi : Nat} (hBi : bi ∈ bis) {e : CfgEdge}
    (he : e ∈ tableEdges img cfg bi) : e ∈ (bis.foldl (recoverSwitch img) cfg).edges := by
  have hKept : ∀ (cfg : Cfg) (bi : Nat) {e : CfgEdge}, e.kind ≠ .indirectUnknown → e ∈ cfg.edges →
      e ∈ (recoverSwitch img cfg bi).edges := by
    intro cfg bi e hKind he
    unfold recoverSwitch
    split
    case h_1 => exact he
    case h_2 =>
      split
      case h_1 => exact he
      case h_2 =>
        refine List.mem_append_left _ (List.mem_filter.2 ⟨he, ?_⟩)
        exact decide_eq_true fun h => hKind h.2
  have hFold : ∀ (bis : List Nat) (cfg : Cfg) {e : CfgEdge}, e.kind ≠ .indirectUnknown →
      e ∈ cfg.edges → e ∈ (bis.foldl (recoverSwitch img) cfg).edges := by
    intro bis
    induction bis with
    | nil => exact fun _ _ _ he => he
    | cons bi bis ih => exact fun cfg e hKind he => ih _ hKind (hKept cfg bi hKind he)
  have hKind : e.kind ≠ .indirectUnknown := by
    rw [(mem_tableEdges he).2.2.2.1]
    exact nofun
  induction bis generalizing cfg with
  | nil => exact absurd hBi List.not_mem_nil
  | cons bi' bis ih =>
    rcases List.mem_cons.1 hBi with rfl | hBi
    · refine hFold bis _ hKind ?_
      unfold tableEdges at he
      unfold recoverSwitch
      cases hb : cfg.blocks[bi]? with
      | none =>
        rw [hb] at he
        exact absurd he List.not_mem_nil
      | some b =>
        rw [hb] at he
        dsimp only at he ⊢
        cases hTable : recoverTable img b with
        | none =>
          rw [hTable] at he
          exact absurd he List.not_mem_nil
        | some table =>
          rw [hTable] at he
          exact List.mem_append_right _ he
    · exact ih hBi (by rwa [tableEdges_congr (recoverSwitch_extents bi')])

/-- Every jump through a table that is computed in program order is recorded with its cases and
edges, and every recorded table is one so computed. -/
structure RecoversTables (img : DolImage) (cfg : Cfg) : Prop where
  complete : ∀ bi b, cfg.blocks[bi]? = some b → EndsInBctr img b →
    ∀ value words, InOrderValue (window img b) value → IsTable img value words →
      { blockIndex := bi, tableVaddr := value, defaultVaddr := 0, cases := casesFrom 0 words } ∈
          recorded img cfg ∧
        ∀ e ∈ switchCaseEdges cfg.blocks bi (casesFrom 0 words),
          e ∈ (cfgRecoverSwitches img cfg).edges
  sound : ∀ sw ∈ recorded img cfg, ∃ b, cfg.blocks[sw.blockIndex]? = some b ∧
    InOrderValue (window img b) sw.tableVaddr

/-- The pairs in program order and the reversed pair of a block give the same tables. -/
structure PairsAgree (img : DolImage) (b : CfgBlock) : Prop where
  found : ∀ value words, InOrderValue (window img b) value → IsTable img value words →
    ReversedValue (window img b) value
  honest : ∀ value, ReversedValue (window img b) value → tableWord img value 0 ≠ none →
    InOrderValue (window img b) value

/-- Jump tables are recovered exactly if the pairs of every block that ends in a jump agree. -/
theorem cfgRecoverSwitches_recovers_iff (img : DolImage) (cfg : Cfg) :
    RecoversTables img cfg ↔ ∀ b ∈ cfg.blocks, EndsInBctr img b → PairsAgree img b := by
  constructor
  · intro h b hb hEnds
    obtain ⟨bi, hAt⟩ := List.mem_iff_getElem?.1 hb
    refine ⟨fun value words hValue hTable => ?_, fun value hValue hWord => ?_⟩
    · obtain ⟨b', hb', hRecover, -⟩ :=
        mem_recorded.1 (h.complete bi b hAt hEnds value words hValue hTable).1
      obtain rfl := Option.some.inj (hAt.symm.trans hb')
      exact (recoverTable_eq_some_iff.1 hRecover).2.1
    · have hCases : recoverCases img value ≠ [] := fun hNil =>
        hWord ((recoverCases_eq_nil_iff img value).1 hNil)
      have hRecover := recoverTable_eq_some_iff.2 ⟨hEnds, hValue, rfl, hCases⟩
      have hMem : CfgSwitch.mk bi value 0 (recoverCases img value) ∈ recorded img cfg :=
        mem_recorded.2 ⟨b, hAt, hRecover, rfl⟩
      obtain ⟨b', hb', hInOrder⟩ := h.sound _ hMem
      obtain rfl := Option.some.inj (hAt.symm.trans hb')
      exact hInOrder
  · intro h
    refine ⟨fun bi b hAt hEnds value words hValue hTable => ?_, fun sw hSw => ?_⟩
    · have hAgree := h b (List.mem_of_getElem? hAt) hEnds
      have hCases : casesFrom 0 words ≠ [] := by
        cases hWords : words with
        | nil => exact absurd hWords hTable.nonempty
        | cons w words => exact nofun
      have hRecover : recoverTable img b = some (value, casesFrom 0 words) :=
        recoverTable_eq_some_iff.2
          ⟨hEnds, hAgree.found value words hValue hTable, hTable.recoverCases_eq.symm, hCases⟩
      refine ⟨mem_recorded.2 ⟨b, hAt, hRecover, rfl⟩, fun e he => ?_⟩
      refine tableEdges_subset_foldl _ (List.mem_range.2 (List.getElem?_eq_some_iff.1 hAt).1) ?_
      simpa only [tableEdges, hAt, hRecover] using he
    · obtain ⟨b, hAt, hRecover, -⟩ := mem_recorded.1 hSw
      obtain ⟨hEnds, hValue, hCases, hNonempty⟩ := recoverTable_eq_some_iff.1 hRecover
      refine ⟨b, hAt, (h b (List.mem_of_getElem? hAt) hEnds).honest _ hValue fun hWord => ?_⟩
      exact hNonempty (hCases.trans ((recoverCases_eq_nil_iff img _).2 hWord))

/-- `lis r4, 0x8000; addi r4, r4, 0x5000; bctr; blr`, with a table at 0x80005000 whose one entry is
the `blr`. -/
def inOrderImage : DolImage :=
  dolImage [0x3C808000, 0x38845000, 0x4E800420, 0x4E800020] [0x8000400C, 0]

def inOrderCfg : Cfg where
  blocks := [cfgAddBlock 0x80004000 0x8000400C, cfgAddBlock 0x8000400C 0x80004010]
  edges := [.plain 0 cfgInvalid .indirectUnknown, .plain 1 cfgInvalid .ret]
  switches := []
  entryBlock := 0
  isIrreducible := false

/-- The table of a jump in program order is not recorded. -/
theorem not_recovers_inOrderCfg : ¬ ∀ img cfg, RecoversTables img cfg := by
  intro h
  have hWindow : window inOrderImage (cfgAddBlock 0x80004000 0x8000400C) =
      [ppcDecode 0x38845000 0x80004004, ppcDecode 0x3C808000 0x80004000] := by decide
  have hNone : recorded inOrderImage inOrderCfg = [] := by decide
  have hEnds : EndsInBctr inOrderImage (cfgAddBlock 0x80004000 0x8000400C) :=
    ⟨by decide, 0x4E800420, by decide, by decide⟩
  have hValue : InOrderValue (window inOrderImage (cfgAddBlock 0x80004000 0x8000400C))
      0x80005000 := by
    rw [hWindow]
    exact ⟨[], _, [], _, [], rfl, by decide, by decide, nofun⟩
  have hTable : IsTable inOrderImage 0x80005000 [0x8000400C] := by
    refine ⟨nofun, by decide, fun i hi => ?_, by decide⟩
    obtain rfl : i = 0 := by simpa using hi
    exact (by decide : tableWord inOrderImage 0x80005000 0 = some 0x8000400C)
  have hMem := ((h inOrderImage inOrderCfg).complete 0 _ rfl hEnds _ _ hValue hTable).1
  rw [hNone] at hMem
  exact absurd hMem List.not_mem_nil

end Calynda.Decompiler
