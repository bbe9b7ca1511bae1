import Calynda.Decompiler.Format

/-!
# What the disassembly tells of an instruction

Two instructions with one text do the same, except in three cases. The aliases of the conditional
branches leave out the condition register field and the absolute bit, an unconditional `bc` is
printed as a plain branch, and no text shows the record bit or the addend of a paired multiply-add.
-/

namespace Calynda.Decompiler

open FormatText

/-! ## Effects -/

namespace PpcInsn

variable (insn : PpcInsn)

/-- The operands of an operation that have a field in the decoded instruction. The condition of a
branch counts only where `BO` asks for it. -/
def operands : List Nat :=
  match insn.op with
  | .unknown => [insn.raw.toNat]
  | .b | .ba | .bl | .bla => [insn.target.toNat]
  | .bc =>
    [insn.rd, if insn.rd < 16 then insn.ra else 0, insn.target.toNat, insn.aa, insn.lk]
  | .blr | .bctr | .nop => []
  | .addi | .addis | .mulli | .cmpwi | .cmplwi | .ori | .andiDot
  | .lwz | .stw | .lbz | .stb | .lhz | .sth | .lmw | .stmw | .lfs | .lfd | .stfs | .stfd
  | .lwzu | .stwu | .lbzu | .stbu | .lhzu | .sthu | .lha | .lhau
  | .lfsu | .lfdu | .stfsu | .stfdu => [insn.rd, insn.ra, insn.imm.toNat]
  | .fmr | .fneg | .psMr | .psNeg => [insn.rd, insn.rb]
  | .mflr | .mtlr | .mfctr | .mtctr => [insn.rd]
  | .mr | .neg => [insn.rd, insn.ra]
  | .rlwinm | .rlwimi => [insn.rd, insn.ra, insn.sh, insn.mb, insn.me]
  | .rlwnm => [insn.rd, insn.ra, insn.rb, insn.mb, insn.me]
  | .srawi => [insn.rd, insn.ra, insn.sh]
  | .fadd | .fsub | .fmul | .fdiv | .cmpw | .cmplw | .mullw | .mulhw | .mulhwu | .divw | .divwu
  | .and | .or | .xor | .nand | .nor | .eqv | .andc | .orc | .slw | .srw | .sraw | .add | .subf
  | .psAdd | .psSub | .psMul | .psDiv | .psMadd | .psMsub => [insn.rd, insn.ra, insn.rb]
  | .psqL | .psqSt | .psqLu | .psqStu => [insn.rd, insn.ra, insn.imm.toNat, insn.sh, insn.mb]

/-- The operands that only the word has: the addend of the multiply-adds, and the record bit of the
operations that have one. -/
def dropped : List Nat :=
  match insn.op with
  | .psMadd | .psMsub => [ppcBits insn.raw 16 20, ppcBits insn.raw 31 31]
  | .rlwinm | .rlwimi | .rlwnm | .mullw | .mulhw | .mulhwu | .divw | .divwu
  | .and | .or | .xor | .nand | .nor | .eqv | .andc | .orc | .slw | .srw | .sraw | .srawi
  | .add | .subf | .neg | .fmr | .fneg | .fadd | .fsub | .fmul | .fdiv
  | .psAdd | .psSub | .psMul | .psDiv | .psMr | .psNeg => [ppcBits insn.raw 31 31]
  | _ => []

/-- Instructions at one address do the same if they agree in this. -/
def effect : PpcOp × List Nat × List Nat := (insn.op, insn.operands, insn.dropped)

end PpcInsn

/-! ## Operations other than the conditional branch -/

section Plain

variable {i j : PpcInsn}

theorem blank_ppcFormat (hOp : i.op = j.op) (hBc : i.op ≠ .bc) :
    (ppcFormat i).map TextItem.blank = (ppcFormat j).map TextItem.blank := by
  unfold ppcFormat
  rw [← hOp]
  generalize i.op = op at hBc
  cases op
  case bc => exact absurd rfl hBc
  all_goals
    simp only [List.map_cons, List.map_nil, TextItem.blank, List.cons_append, List.nil_append]

theorem separated_ppcFormat (hBc : i.op ≠ .bc) : separated (ppcFormat i) = true := by
  unfold ppcFormat
  generalize i.op = op at hBc
  cases op
  case bc => exact absurd rfl hBc
  all_goals rfl

theorem ppcFormat_eq_iff (hOp : i.op = j.op) (hBc : i.op ≠ .bc) :
    ppcFormat i = ppcFormat j ↔ i.operands = j.operands := by
  unfold ppcFormat PpcInsn.operands
  rw [← hOp]
  generalize i.op = op at hBc
  cases op
  case bc => exact absurd rfl hBc
  all_goals
    simp only [List.cons.injEq, TextItem.udec.injEq, TextItem.sdec.injEq, TextItem.hex8.injEq,
      List.cons_append, List.nil_append, BitVec.toInt_inj, BitVec.toNat_inj, true_and, and_true]
    try tauto

/-- Two texts of one operation agree exactly if the operands do. -/
theorem ppcText_eq_iff_operands (hOp : i.op = j.op) (hBc : i.op ≠ .bc) :
    ppcText i = ppcText j ↔ i.operands = j.operands := by
  rw [← ppcFormat_eq_iff hOp hBc]
  constructor
  · exact textOf_inj (blank_ppcFormat hOp hBc) (separated_ppcFormat hBc)
  · intro h
    rw [ppcText, h, ppcText]

end Plain

/-! ## The word in front -/

/-- The items start with a blank, if there are any. -/
def startsBlank : List TextItem → Bool
  | [] => true
  | .lit (d :: _) :: _ => d == ' '
  | _ => false

/-- The name and the link suffix of a conditional branch. -/
def bcWord (bo bi lk : Nat) : List Char :=
  (bcAlias bo bi).1.getD "bc".toList ++ if lk ≠ 0 then "l".toList else []

def ppcWord (insn : PpcInsn) : List Char :=
  if insn.op = .bc then bcWord insn.rd insn.ra insn.lk else ppcMnemonic insn.op

/-- What the name of a conditional branch tells of `BI`: the bit without the condition register
field. -/
def namedBit (bo bi : Nat) : Nat := if bo = 12 ∨ bo = 4 then bi % 4 else 0

/-- The operation that the word of a conditional branch reads as, with the `BO`, the bit and the
link. Where no alias is used, 32 stands for `BO`. -/
def bcKey (bo bi lk : Nat) : PpcOp × Nat × Nat × Bool :=
  if bo = 20 then (if lk = 0 then .b else .bl, 0, 0, false)
  else (.bc, if (bcAlias bo bi).1 = none then 32 else bo, namedBit bo bi, decide (lk ≠ 0))

/-- The words of conditional branches. -/
def bcWords : List (List Char × PpcOp × Nat × Nat × Bool) :=
  [(16, 0), (18, 0), (12, 0), (12, 1), (12, 2), (12, 3), (4, 0), (4, 1), (4, 2), (4, 3),
    (32, 0)].flatMap fun (bo, bit) =>
      [(bcWord bo bit 0, .bc, bo, bit, false), (bcWord bo bit 1, .bc, bo, bit, true)]

def wordTable : List (List Char × PpcOp × Nat × Nat × Bool) :=
  bcWords ++ (List.range 90).map fun n => (ppcMnemonic (PpcOp.ofNat n), PpcOp.ofNat n, 0, 0, false)

theorem lookup_ppcMnemonic {op : PpcOp} (h : op ≠ .bc) :
    wordTable.lookup (ppcMnemonic op) = some (op, 0, 0, false) := by
  cases op
  case bc => exact absurd rfl h
  all_goals rfl

theorem bcAlias_cases (bo bi : Nat) : (bcAlias bo bi = (none, false) ∧ bo ∉ [16, 18, 20, 12, 4]) ∨
    (∃ name, bcAlias bo bi = (some name, true)) ∧ bo ∈ [16, 18, 20, 12, 4] := by
  unfold bcAlias
  dsimp only
  by_cases h16 : bo = 16
  · exact .inr ⟨⟨_, if_pos h16⟩, by simp [h16]⟩
  rw [if_neg h16]
  by_cases h18 : bo = 18
  · exact .inr ⟨⟨_, if_pos h18⟩, by simp [h18]⟩
  rw [if_neg h18]
  by_cases h20 : bo = 20
  · exact .inr ⟨⟨_, if_pos h20⟩, by simp [h20]⟩
  rw [if_neg h20]
  by_cases h12 : bo = 12
  · rw [if_pos h12]
    refine .inr ⟨?_, by simp [h12]⟩
    split <;> exact ⟨_, rfl⟩
  rw [if_neg h12]
  by_cases h4 : bo = 4
  · rw [if_pos h4]
    refine .inr ⟨?_, by simp [h4]⟩
    split <;> exact ⟨_, rfl⟩
  rw [if_neg h4]
  exact .inl ⟨rfl, by simp [h16, h18, h20, h12, h4]⟩

theorem lookup_bcWord (bo bi lk : Nat) :
    wordTable.lookup (bcWord bo bi lk) = some (bcKey bo bi lk) := by
  -- only the bit of BI and whether there is a link count
  have hLink : ∃ l, l < 2 ∧ bcWord bo bi lk = bcWord bo (bi % 4) l ∧
      bcKey bo bi lk = bcKey bo (bi % 4) l := by
    have hBit : bcAlias bo bi = bcAlias bo (bi % 4) := by rw [bcAlias, bcAlias, Nat.mod_mod]
    have hNamed : namedBit bo bi = namedBit bo (bi % 4) := by
      rw [namedBit, namedBit, Nat.mod_mod]
    rw [bcWord, bcKey, hBit, hNamed]
    by_cases hLk : lk = 0
    · exact ⟨0, by omega, by rw [hLk]; rfl, by rw [hLk]; rfl⟩
    · exact ⟨1, by omega, by rw [if_pos hLk]; rfl, by rw [if_neg hLk, decide_eq_true hLk]; rfl⟩
  obtain ⟨l, hl, hWord, hKey⟩ := hLink
  rw [hWord, hKey]
  have hBit : bi % 4 < 4 := Nat.mod_lt bi (by omega)
  generalize bi % 4 = bit at hBit
  clear hWord hKey
  rcases bcAlias_cases bo bit with ⟨hNone, hBo⟩ | ⟨-, hBo⟩
  · simp only [List.mem_cons, List.not_mem_nil, or_false, not_or] at hBo
    have hNamed : namedBit bo bit = 0 := if_neg (by tauto)
    rw [bcWord, bcKey, hNone, hNamed, if_neg hBo.2.2.1, if_pos rfl]
    interval_cases l <;> rfl
  · simp only [List.mem_cons, List.not_mem_nil, or_false] at hBo
    rcases hBo with rfl | rfl | rfl | rfl | rfl
    all_goals
      interval_cases l <;> interval_cases bit <;> rfl

def wordKey (insn : PpcInsn) : PpcOp × Nat × Nat × Bool :=
  if insn.op = .bc then bcKey insn.rd insn.ra insn.lk else (insn.op, 0, 0, false)

theorem lookup_ppcWord (insn : PpcInsn) :
    wordTable.lookup (ppcWord insn) = some (wordKey insn) := by
  unfold ppcWord wordKey
  split
  case isTrue => exact lookup_bcWord insn.rd insn.ra insn.lk
  case isFalse hBc => exact lookup_ppcMnemonic hBc

theorem blank_not_mem_ppcWord (insn : PpcInsn) : ' ' ∉ ppcWord insn := by
  have hAll : ∀ p ∈ wordTable, ' ' ∉ p.1 := by decide +kernel
  obtain ⟨l₁, l₂, hEq, -⟩ := List.lookup_eq_some_iff.1 (lookup_ppcWord insn)
  exact hAll (ppcWord insn, wordKey insn) (hEq ▸ List.mem_append_right _ List.mem_cons_self)

/-- What follows the word of a conditional branch. -/
def bcRest (insn : PpcInsn) : List TextItem :=
  if (bcAlias insn.rd insn.ra).1 = none then
    [.lit " ".toList, .udec insn.rd, .lit ", ".toList, .udec insn.ra, .lit ", 0x".toList,
      .hex8 insn.target]
  else [.lit " 0x".toList, .hex8 insn.target]

theorem formatBc_eq (insn : PpcInsn) :
    formatBc insn = .lit (bcWord insn.rd insn.ra insn.lk) :: bcRest insn := by
  rw [formatBc, bcWord, bcRest]
  rcases bcAlias_cases insn.rd insn.ra with ⟨hNone, -⟩ | ⟨⟨name, hName⟩, -⟩
  · rw [hNone]
    rfl
  · rw [hName]
    dsimp only
    rw [if_pos (.inl rfl), if_neg (Option.some_ne_none name), Option.getD_some]

theorem ppcFormat_eq_cons {insn : PpcInsn} (hOp : insn.op ≠ .unknown) :
    ppcFormat insn = .lit (ppcWord insn) :: (ppcFormat insn).tail ∧
      startsBlank (ppcFormat insn).tail = true := by
  by_cases hBc : insn.op = .bc
  · have hFormat : ppcFormat insn = formatBc insn := by rw [ppcFormat, hBc]
    rw [hFormat, formatBc_eq, ppcWord, if_pos hBc]
    refine ⟨rfl, ?_⟩
    rw [List.tail_cons, bcRest]
    split <;> rfl
  · unfold ppcWord ppcFormat
    rw [if_neg hBc]
    generalize insn.op = op at hOp hBc
    cases op
    case unknown => exact absurd rfl hOp
    case bc => exact absurd rfl hBc
    all_goals exact ⟨rfl, rfl⟩

/-- The text falls into the word and the rest. -/
theorem ppcText_eq_iff {i j : PpcInsn} (hi : i.op ≠ .unknown) (hj : j.op ≠ .unknown) :
    ppcText i = ppcText j ↔
      ppcWord i = ppcWord j ∧ textOf (ppcFormat i).tail = textOf (ppcFormat j).tail := by
  have hHead : ∀ {xs : List TextItem}, startsBlank xs = true →
      (textOf xs).takeWhile (· != ' ') = [] := by
    intro xs hXs
    unfold startsBlank at hXs
    split at hXs
    case h_1 => rfl
    case h_2 d _ _ =>
      exact List.takeWhile_cons_of_neg (by simpa using hXs)
    case h_3 => exact nomatch hXs
  have hText : ∀ {insn : PpcInsn}, insn.op ≠ .unknown →
      ppcText insn = ppcWord insn ++ textOf (ppcFormat insn).tail := by
    intro insn hOp
    rw [ppcText, (ppcFormat_eq_cons hOp).1, textOf_cons, TextItem.text, List.tail_cons]
  have hWord : ∀ {insn : PpcInsn}, insn.op ≠ .unknown →
      (ppcText insn).takeWhile (· != ' ') = ppcWord insn := by
    intro insn hOp
    rw [hText hOp, List.takeWhile_append_of_pos, hHead (ppcFormat_eq_cons hOp).2, List.append_nil]
    intro d hd
    exact bne_iff_ne.2 fun hd' => blank_not_mem_ppcWord insn (hd' ▸ hd)
  constructor
  · intro h
    have hEq : ppcWord i = ppcWord j := by rw [← hWord hi, h, hWord hj]
    rw [hText hi, hText hj, hEq] at h
    exact ⟨hEq, List.append_cancel_left h⟩
  · rintro ⟨hEq, hRest⟩
    rw [hText hi, hText hj, hEq, hRest]

theorem wordKey_eq_of_ppcWord_eq {i j : PpcInsn} (h : ppcWord i = ppcWord j) :
    wordKey i = wordKey j := by
  apply Option.some.inj
  rw [← lookup_ppcWord, h, lookup_ppcWord]

/-! ## Conditional branches -/

section Branch

variable {i j : PpcInsn}

/-- What the text of a conditional branch tells of `BI`: nothing where the branch does not depend
on the condition register, the bit without the field where an alias stands for `BO`. -/
def shownBi (bo bi : Nat) : Nat :=
  if bo ∈ [16, 18, 20] then 0 else if bo ∈ [12, 4] then bi % 4 else bi

theorem bcAlias_congr {bo bi bi' : Nat} (h : shownBi bo bi = shownBi bo bi') :
    bcAlias bo bi = bcAlias bo bi' := by
  unfold shownBi at h
  unfold bcAlias
  dsimp only
  by_cases hAlways : bo ∈ [16, 18, 20]
  · simp only [List.mem_cons, List.not_mem_nil, or_false] at hAlways
    rcases hAlways with rfl | rfl | rfl <;> rfl
  rw [if_neg hAlways, if_neg hAlways] at h
  by_cases hAlias : bo ∈ [12, 4]
  · rw [if_pos hAlias, if_pos hAlias] at h
    rw [h]
  · rw [if_neg hAlias, if_neg hAlias] at h
    rw [h]

theorem shownBi_eq_namedBit {bo : Nat} (h : bo ∈ [16, 18, 20, 12, 4]) (bi : Nat) :
    shownBi bo bi = namedBit bo bi := by
  simp only [List.mem_cons, List.not_mem_nil, or_false] at h
  rcases h with rfl | rfl | rfl | rfl | rfl <;> rfl

/-- What the word of a conditional branch tells. -/
theorem bcKey_inj {bo bi lk bo' bi' lk' : Nat} (h : bcKey bo bi lk = bcKey bo' bi' lk') :
    (lk = 0 ↔ lk' = 0) ∧ ((bcAlias bo bi).1 = none ↔ (bcAlias bo' bi').1 = none) ∧
      ((bcAlias bo bi).1 ≠ none → bo = bo' ∧ namedBit bo bi = namedBit bo' bi') := by
  have hBranch : ∀ l : Nat, (if l = 0 then PpcOp.b else .bl) ≠ .bc := by
    intro l
    split <;> exact PpcOp.noConfusion
  rw [bcKey, bcKey] at h
  by_cases h20 : bo = 20 <;> by_cases h20' : bo' = 20
  case pos =>
    rw [if_pos h20, if_pos h20'] at h
    have hOp := congrArg Prod.fst h
    subst h20 h20'
    refine ⟨?_, ⟨nofun, nofun⟩, fun _ => ⟨rfl, rfl⟩⟩
    by_cases hLk : lk = 0 <;> by_cases hLk' : lk' = 0 <;> simp_all
  case neg =>
    rw [if_pos h20, if_neg h20'] at h
    exact absurd (congrArg Prod.fst h) (hBranch lk)
  case pos =>
    rw [if_neg h20, if_pos h20'] at h
    exact absurd (congrArg Prod.fst h).symm (hBranch lk')
  case neg =>
    rw [if_neg h20, if_neg h20'] at h
    simp only [Prod.mk.injEq, true_and, decide_eq_decide] at h
    obtain ⟨hBo, hBit, hLk⟩ := h
    refine ⟨not_iff_not.1 hLk, ?_⟩
    rcases bcAlias_cases bo bi with ⟨hNone, hMem⟩ | ⟨⟨name, hName⟩, hMem⟩ <;>
      rcases bcAlias_cases bo' bi' with ⟨hNone', hMem'⟩ | ⟨⟨name', hName'⟩, hMem'⟩
    · exact ⟨by rw [hNone, hNone'], fun h => absurd (congrArg Prod.fst hNone) h⟩
    · rw [hNone, hName', if_pos rfl, if_neg (Option.some_ne_none name')] at hBo
      exact absurd hMem' (by rw [← hBo]; decide)
    · rw [hName, hNone', if_pos rfl, if_neg (Option.some_ne_none name)] at hBo
      exact absurd hMem (by rw [hBo]; decide)
    · rw [hName, hName', if_neg (Option.some_ne_none name),
        if_neg (Option.some_ne_none name')] at hBo
      exact ⟨by rw [hName, hName']; exact ⟨nofun, nofun⟩, fun _ => ⟨hBo, hBit⟩⟩

theorem tail_ppcFormat_bc (hi : i.op = .bc) : (ppcFormat i).tail = bcRest i := by
  have hFormat : ppcFormat i = formatBc i := by rw [ppcFormat, hi]
  rw [hFormat, formatBc_eq, List.tail_cons]

/-- Two texts of conditional branches agree exactly if these operands do. -/
theorem ppcText_bc_eq_iff (hi : i.op = .bc) (hj : j.op = .bc) :
    ppcText i = ppcText j ↔ i.rd = j.rd ∧ (i.lk = 0 ↔ j.lk = 0) ∧ i.target = j.target ∧
      shownBi i.rd i.ra = shownBi j.rd j.ra := by
  have hKnown : ∀ {insn : PpcInsn}, insn.op = .bc → insn.op ≠ .unknown := by
    intro insn h
    rw [h]
    exact PpcOp.noConfusion
  rw [ppcText_eq_iff (hKnown hi) (hKnown hj), tail_ppcFormat_bc hi, tail_ppcFormat_bc hj]
  constructor
  · rintro ⟨hWord, hRest⟩
    have hKey := wordKey_eq_of_ppcWord_eq hWord
    rw [wordKey, if_pos hi, wordKey, if_pos hj] at hKey
    obtain ⟨hLk, hNone, hAlias⟩ := bcKey_inj hKey
    by_cases hi' : (bcAlias i.rd i.ra).1 = none
    · rw [bcRest, if_pos hi', bcRest, if_pos (hNone.1 hi')] at hRest
      have hItems := textOf_inj (by simp only [List.map_cons, List.map_nil, TextItem.blank])
        rfl hRest
      simp only [List.cons.injEq, TextItem.udec.injEq, TextItem.hex8.injEq, true_and,
        and_true] at hItems
      obtain ⟨hBo, hBi, hTarget⟩ := hItems
      exact ⟨hBo, hLk, hTarget, by rw [hBo, hBi]⟩
    · rw [bcRest, if_neg hi', bcRest, if_neg fun h => hi' (hNone.2 h)] at hRest
      have hItems := textOf_inj (by simp only [List.map_cons, List.map_nil, TextItem.blank])
        rfl hRest
      obtain ⟨hBo, hBit⟩ := hAlias hi'
      have hMem : i.rd ∈ [16, 18, 20, 12, 4] := by
        rcases bcAlias_cases i.rd i.ra with ⟨h, -⟩ | ⟨-, h⟩
        · exact absurd (congrArg Prod.fst h) hi'
        · exact h
      refine ⟨hBo, hLk, by simpa using hItems, ?_⟩
      rw [shownBi_eq_namedBit hMem, hBit, shownBi_eq_namedBit (hBo ▸ hMem)]
  · rintro ⟨hBo, hLk, hTarget, hBi⟩
    rw [hBo] at hBi
    have hAlias : bcAlias i.rd i.ra = bcAlias j.rd j.ra := by rw [hBo, bcAlias_congr hBi]
    refine ⟨?_, ?_⟩
    · rw [ppcWord, if_pos hi, ppcWord, if_pos hj, bcWord, bcWord, hAlias]
      simp only [ne_eq, hLk]
    · rw [bcRest, bcRest, hAlias, hTarget, hBo]
      rcases bcAlias_cases j.rd j.ra with ⟨hNone, hMem⟩ | ⟨⟨name, hName⟩, -⟩
      · rw [shownBi, shownBi, if_neg (by grind), if_neg (by grind), if_neg (by grind),
          if_neg (by grind)] at hBi
        rw [hBi]
      · rw [hName, if_neg (Option.some_ne_none name), if_neg (Option.some_ne_none name)]

/-- A conditional branch has the text of another instruction exactly if it is unconditional and the
other the plain branch to its target. -/
theorem ppcText_bc_eq_plain_iff (hi : i.op = .bc) (hj : j.op ≠ .bc) (hOp : j.op ≠ .unknown) :
    ppcText i = ppcText j ↔
      i.rd = 20 ∧ j.op = (if i.lk = 0 then .b else .bl) ∧ i.target = j.target := by
  have hBc : i.op ≠ .unknown := by rw [hi]; exact PpcOp.noConfusion
  rw [ppcText_eq_iff hBc hOp, tail_ppcFormat_bc hi]
  -- the rest of the text of the plain branches
  have hPlain : j.op = (if i.lk = 0 then .b else .bl) →
      (ppcFormat j).tail = [.lit " 0x".toList, .hex8 j.target] := by
    intro h
    split at h
    all_goals
      rw [ppcFormat, h]
      rfl
  have hAlways : i.rd = 20 → bcRest i = [.lit " 0x".toList, .hex8 i.target] := by
    intro h20
    rw [bcRest, h20]
    rfl
  constructor
  · rintro ⟨hWord, hRest⟩
    have hKey := wordKey_eq_of_ppcWord_eq hWord
    rw [wordKey, if_pos hi, wordKey, if_neg hj, bcKey] at hKey
    split at hKey
    case isFalse => exact absurd (congrArg Prod.fst hKey).symm hj
    case isTrue h20 =>
      have hEq := (congrArg Prod.fst hKey).symm
      rw [hAlways h20, hPlain hEq] at hRest
      have hItems := textOf_inj (by simp only [List.map_cons, List.map_nil, TextItem.blank])
        rfl hRest
      exact ⟨h20, hEq, by simpa using hItems⟩
  · rintro ⟨h20, hEq, hTarget⟩
    rw [hAlways h20, hPlain hEq, hTarget]
    refine ⟨?_, rfl⟩
    rw [ppcWord, if_pos hi, ppcWord, if_neg hj, hEq, h20]
    by_cases hLk : i.lk = 0
    · rw [if_pos hLk, hLk]
      rfl
    · rw [if_neg hLk, bcWord, if_pos hLk]
      rfl

end Branch

/-! ## Which instructions share a text -/

/-- Two conditional branches that differ in what an alias leaves out or in the absolute bit. -/
def BranchesAlike (i j : PpcInsn) : Prop :=
  i.op = .bc ∧ j.op = .bc ∧ i.rd = j.rd ∧ i.lk = j.lk ∧ i.target = j.target ∧
    shownBi i.rd i.ra = shownBi j.rd j.ra ∧ (i.aa ≠ j.aa ∨ (i.rd < 16 ∧ i.ra ≠ j.ra))

/-- An unconditional `bc` and a plain branch to the same target. -/
def AlwaysAlike (i j : PpcInsn) : Prop :=
  i.op = .bc ∧ i.rd = 20 ∧ j.op = (if i.lk = 0 then .b else .bl) ∧ i.target = j.target

/-- Instructions that the decoder tells apart in no operand of theirs, and that differ in the record
bit or in the addend of a multiply-add. -/
def DroppedAlike (i j : PpcInsn) : Prop :=
  i.op = j.op ∧ i.op ≠ .bc ∧ i.operands = j.operands ∧ i.dropped ≠ j.dropped

def Confusable (i j : PpcInsn) : Prop :=
  BranchesAlike i j ∨ AlwaysAlike i j ∨ AlwaysAlike j i ∨ DroppedAlike i j

/-- The text of two words at an address tells whether they do the same. -/
def TextDetermines (word word' vaddr : BitVec 32) : Prop :=
  ppcText (ppcDecode word vaddr) = ppcText (ppcDecode word' vaddr) →
    (ppcDecode word vaddr).effect = (ppcDecode word' vaddr).effect

theorem lk_ppcDecode_bc {word vaddr : BitVec 32} (h : (ppcDecode word vaddr).op = .bc) :
    (ppcDecode word vaddr).lk < 2 := by
  have hPrimary : ppcBits word 0 5 = 16 := ppcDecode_primary h PpcOp.noConfusion
  rw [ppcDecode, hPrimary]
  exact Nat.mod_lt _ (by omega)

section Confusable

variable {i j : PpcInsn}

theorem AlwaysAlike.ppcText_eq (h : AlwaysAlike i j) : ppcText i = ppcText j := by
  obtain ⟨hi, h20, hj, hTarget⟩ := h
  have hOp : j.op ≠ .bc ∧ j.op ≠ .unknown := by
    rw [hj]
    split <;> exact ⟨PpcOp.noConfusion, PpcOp.noConfusion⟩
  exact (ppcText_bc_eq_plain_iff hi hOp.1 hOp.2).2 ⟨h20, hj, hTarget⟩

theorem AlwaysAlike.op_ne (h : AlwaysAlike i j) : i.op ≠ j.op := by
  rw [h.1, h.2.2.1]
  split <;> exact PpcOp.noConfusion

/-- Instructions that can be confused have one text and different effects. -/
theorem Confusable.alike (h : Confusable i j) : ppcText i = ppcText j ∧ i.effect ≠ j.effect := by
  rcases h with ⟨hi, hj, hBo, hLk, hTarget, hBi, hDiff⟩ | h | h | ⟨hOp, hBc, hOperands, hDropped⟩
  · refine ⟨(ppcText_bc_eq_iff hi hj).2 ⟨hBo, by rw [hLk], hTarget, hBi⟩, fun hEq => ?_⟩
    have hOperands := congrArg (fun e => e.2.1) hEq
    simp only [PpcInsn.effect, PpcInsn.operands, hi, hj, List.cons.injEq, and_true] at hOperands
    obtain ⟨-, hCond, -, hAa, -⟩ := hOperands
    rcases hDiff with hDiff | ⟨hLt, hDiff⟩
    · exact hDiff hAa
    · rw [← hBo, if_pos hLt, if_pos hLt] at hCond
      exact hDiff hCond
  · exact ⟨h.ppcText_eq, fun hEq => h.op_ne (congrArg Prod.fst hEq)⟩
  · exact ⟨h.ppcText_eq.symm, fun hEq => h.op_ne (congrArg Prod.fst hEq).symm⟩
  · exact ⟨(ppcText_eq_iff_operands hOp hBc).2 hOperands,
      fun hEq => hDropped (congrArg (fun e => e.2.2) hEq)⟩

/-- Nothing else has. -/
theorem confusable_of_ppcText_eq (hi : i.op ≠ .unknown) (hj : j.op ≠ .unknown)
    (hLk : i.op = .bc → i.lk < 2) (hLk' : j.op = .bc → j.lk < 2) (hText : ppcText i = ppcText j)
    (hEffect : i.effect ≠ j.effect) : Confusable i j := by
  by_cases hBc : i.op = .bc <;> by_cases hBc' : j.op = .bc
  case pos =>
    obtain ⟨hBo, hLink, hTarget, hBi⟩ := (ppcText_bc_eq_iff hBc hBc').1 hText
    have hLkEq : i.lk = j.lk := by
      have h := hLk hBc
      have h' := hLk' hBc'
      omega
    refine .inl ⟨hBc, hBc', hBo, hLkEq, hTarget, hBi, ?_⟩
    -- branches with one condition and one absolute bit do the same
    by_contra hSame
    rw [not_or, not_not, not_and, not_not] at hSame
    apply hEffect
    simp only [PpcInsn.effect, PpcInsn.operands, PpcInsn.dropped, hBc, hBc', Prod.mk.injEq,
      List.cons.injEq, true_and, and_true]
    refine ⟨hBo, ?_, by rw [hTarget], hSame.1, hLkEq⟩
    rw [← hBo]
    split
    case isTrue hLt => exact hSame.2 hLt
    case isFalse => rfl
  case neg =>
    obtain ⟨h20, hOp, hTarget⟩ := (ppcText_bc_eq_plain_iff hBc hBc' hj).1 hText
    exact .inr (.inl ⟨hBc, h20, hOp, hTarget⟩)
  case pos =>
    obtain ⟨h20, hOp, hTarget⟩ := (ppcText_bc_eq_plain_iff hBc' hBc hi).1 hText.symm
    exact .inr (.inr (.inl ⟨hBc', h20, hOp, hTarget⟩))
  case neg =>
    have hOp : i.op = j.op := by
      have hKey := wordKey_eq_of_ppcWord_eq ((ppcText_eq_iff hi hj).1 hText).1
      rw [wordKey, if_neg hBc, wordKey, if_neg hBc'] at hKey
      exact congrArg Prod.fst hKey
    have hOperands := (ppcText_eq_iff_operands hOp hBc).1 hText
    refine .inr (.inr (.inr ⟨hOp, hBc, hOperands, fun hDropped => hEffect ?_⟩))
    rw [PpcInsn.effect, PpcInsn.effect, hOp, hOperands, hDropped]

end Confusable

/-- The text of two words determines what they do exactly if they are not among the confusable
pairs. -/
theorem ppcText_determines_iff (word word' vaddr : BitVec 32)
    (h : (ppcDecode word vaddr).op ≠ .unknown) (h' : (ppcDecode word' vaddr).op ≠ .unknown) :
    TextDetermines word word' vaddr ↔
      ¬ Confusable (ppcDecode word vaddr) (ppcDecode word' vaddr) := by
  constructor
  · intro hText hConfusable
    exact hConfusable.alike.2 (hText hConfusable.alike.1)
  · intro hNot hText
    by_contra hEffect
    exact hNot (confusable_of_ppcText_eq h h' lk_ppcDecode_bc lk_ppcDecode_bc hText hEffect)

/-- `lwz r3, 8(r1)` and `beq cr1, 8`. -/
theorem ppcText_determines_iff_load : TextDetermines 0x80610008 0x41860008 0 ↔
    ¬ Confusable (ppcDecode 0x80610008 0) (ppcDecode 0x41860008 0) :=
  ppcText_determines_iff _ _ _ (by decide) (by decide)

/-- `beq cr0, 8` and `beq cr1, 8` are both printed as `beq 0x00000008`. -/
theorem not_textDetermines_beq : ¬ ∀ word word' vaddr : BitVec 32,
    (ppcDecode word vaddr).op ≠ .unknown → (ppcDecode word' vaddr).op ≠ .unknown →
      TextDetermines word word' vaddr := by
  intro h
  have hEffect := h 0x41820008 0x41860008 0 (by decide) (by decide) rfl
  exact absurd hEffect (by decide)

end Calynda.Decompiler
