import Calynda.Lib.CString

/-!
# Files that rotate

An output file counts its lines and goes on in a sibling file once a text would cross the limit.
Both files get a comment line. The texts survive in order as long as each fits the buffer, and a
part keeps to its limit only if a line is left for the closing comment when it is rotated.
-/

namespace Calynda.Decompiler

open CString FormatText

/-- An open output file, with the disk it writes to. The counters are `unsigned`. -/
structure EmitFile where
  dir : List Char
  basename : List Char
  /-- the file behind `fp` -/
  path : List Char
  lines : Nat
  part : Nat
  limit : Nat
  splitSiblings : Nat
  totalFiles : Nat
  disk : List Char → List Char

def emitCalLineLimit : Nat := 250

def partPath (dir basename : List Char) (part : Nat) : List Char :=
  snprintf 512 <| textOf <|
    if part ≤ 1 then [.lit dir, .lit "/".toList, .lit basename, .lit ".cal".toList]
    else [.lit dir, .lit "/".toList, .lit basename, .lit "_part".toList, .udec part,
      .lit ".cal".toList]

def fputs (ef : EmitFile) (text : List Char) : EmitFile :=
  { ef with disk := fun p => if p = ef.path then ef.disk p ++ text else ef.disk p }

/-- Every file opens; a file that is there loses its text. -/
def openPart (ef : EmitFile) : EmitFile :=
  let path := partPath ef.dir ef.basename ef.part
  { ef with
    path := path
    disk := fun p => if p = path then [] else ef.disk p
    lines := 0
    totalFiles := (ef.totalFiles + 1) % 2 ^ 32 }

def emitFileOpen (disk : List Char → List Char) (dir basename : List Char) (limit : Nat) :
    EmitFile :=
  openPart
    { dir := dir
      basename := snprintf 64 basename
      path := []
      lines := 0
      part := 1
      limit := if limit % 2 ^ 32 = 0 then emitCalLineLimit else limit % 2 ^ 32
      splitSiblings := 0
      totalFiles := 0
      disk := disk }

def continuesIn (basename : List Char) (part : Nat) : List Char :=
  textOf [.lit "# --- continues in ".toList, .lit basename, .lit "_part".toList, .udec part,
    .lit ".cal ---\n".toList]

def continuedFrom (basename : List Char) (part : Nat) : List Char :=
  textOf [.lit "# --- continued from ".toList, .lit basename, .lit "_part".toList, .udec part,
    .lit ".cal ---\n".toList]

def rotate (ef : EmitFile) : EmitFile :=
  let closed := fputs ef (continuesIn ef.basename ((ef.part + 1) % 2 ^ 32))
  let opened := openPart
    { closed with
      part := (ef.part + 1) % 2 ^ 32
      splitSiblings := (ef.splitSiblings + 1) % 2 ^ 32 }
  { fputs opened (continuedFrom opened.basename ((opened.part + 2 ^ 32 - 1) % 2 ^ 32)) with
    lines := 1 }

/-- A formatted text, with the bytes that lie behind the buffer it is printed into. -/
structure Line where
  text : List Char
  behind : Nat → Char := fun _ => '\x00'

/-- The bytes that the loop over the result of `vsnprintf` looks at: for a text that does not
fit, it runs past the terminator and the buffer. -/
def countedBytes (l : Line) : List Char :=
  if l.text.length < 1024 then l.text
  else l.text.take 1023 ++ '\x00' :: (List.range (l.text.length - 1024)).map l.behind

def emitLinef (ef : EmitFile) (l : Line) : EmitFile :=
  -- vsnprintf fails for a length that is no int
  if 2 ^ 31 ≤ l.text.length then ef
  else
    let nl := 1 + (countedBytes l).count '\n'
    let ef := if ef.limit < (ef.lines + nl) % 2 ^ 32 ∧ 4 < ef.lines then rotate ef else ef
    { fputs (fputs ef (snprintf 1024 l.text)) ['\n'] with lines := (ef.lines + nl) % 2 ^ 32 }

def emitLines (ef : EmitFile) (ls : List Line) : EmitFile := ls.foldl emitLinef ef

/-! ## What the parts hold -/

def lineOf (text : List Char) : List Char := text ++ ['\n']

/-- A part with its comment lines: the one at its start, and the one at its end. -/
def partText (basename : List Char) (before : Nat) (isLast : Bool) (texts : List (List Char)) :
    List Char :=
  (if before = 0 then [] else continuedFrom basename before) ++ texts.flatMap lineOf ++
    (if isLast then [] else continuesIn basename (before + 2))

/-- Nothing is lost, no text is split, every part keeps to the limit and all files are counted. -/
structure Rotated (ef : EmitFile) (texts : List (List Char)) : Prop where
  parts : ∃ groups : List (List (List Char)), groups.flatten = texts ∧ groups.length = ef.part ∧
    ∀ (i : Nat) (h : i < groups.length), ef.disk (partPath ef.dir ef.basename (i + 1)) =
      partText ef.basename i (i + 1 = groups.length) groups[i]
  lines_le : ∀ part, 1 ≤ part → part ≤ ef.part →
    (ef.disk (partPath ef.dir ef.basename part)).count '\n' ≤ ef.limit
  files : ef.totalFiles = ef.splitSiblings + 1

/-- A rotation that keeps to the limit: a line is left for the closing comment, the text fits
behind the opening one, and the next path is not one of an earlier part. -/
structure RotatesWell (ef : EmitFile) (nl : Nat) : Prop where
  header : 4 < ef.lines
  room : ef.lines < ef.limit
  fits : 1 + nl ≤ ef.limit
  noWrap : ef.lines + nl < 2 ^ 32
  newPath : ∀ part, 1 ≤ part → part ≤ ef.part →
    partPath ef.dir ef.basename ((ef.part + 1) % 2 ^ 32) ≠ partPath ef.dir ef.basename part
  oneLine : '\n' ∉ ef.basename

/-- The text fits its buffer, and it fits the part or rotates well. -/
def Keeps (ef : EmitFile) (l : Line) : Prop :=
  l.text.length < 1024 ∧
    (ef.lines + (1 + l.text.count '\n') ≤ ef.limit ∨ RotatesWell ef (1 + l.text.count '\n'))

def StepsKeep : EmitFile → List Line → Prop
  | _, [] => True
  | ef, l :: ls => Keeps ef l ∧ StepsKeep (emitLinef ef l) ls

/-! ## The invariant of a run -/

/-- The closed parts hold `done`, the open one holds `cur`. -/
structure Written (ef : EmitFile) (done : List (List (List Char))) (cur : List (List Char)) :
    Prop where
  limit_lt : ef.limit < 2 ^ 32
  part_eq : ef.part = done.length + 1
  part_lt : ef.part < 2 ^ 32
  split_eq : ef.splitSiblings = done.length
  total_eq : ef.totalFiles = done.length + 1
  path_eq : ef.path = partPath ef.dir ef.basename ef.part
  distinct : ∀ p q, 1 ≤ p → p < q → q ≤ ef.part →
    partPath ef.dir ef.basename p ≠ partPath ef.dir ef.basename q
  closed : ∀ (i : Nat) (h : i < done.length), ef.disk (partPath ef.dir ef.basename (i + 1)) =
    partText ef.basename i false done[i]
  closed_le : ∀ (i : Nat), i < done.length →
    (ef.disk (partPath ef.dir ef.basename (i + 1))).count '\n' ≤ ef.limit
  current : ef.disk ef.path = partText ef.basename done.length true cur
  lines_eq : ef.lines = (ef.disk ef.path).count '\n'
  lines_le : ef.lines ≤ ef.limit

theorem partText_snoc (basename : List Char) (before : Nat) (texts : List (List Char))
    (text : List Char) :
    partText basename before true (texts ++ [text]) =
      partText basename before true texts ++ lineOf text := by
  simp [partText]

theorem partText_false (basename : List Char) (before : Nat) (texts : List (List Char)) :
    partText basename before false texts =
      partText basename before true texts ++ continuesIn basename (before + 2) := by
  simp [partText]

theorem newline_not_mem_toDigits (n : Nat) : '\n' ∉ Nat.toDigits 10 n := fun h =>
  absurd (numeral_of_mem_toDigits h) (by decide)

theorem count_lineOf (text : List Char) : (lineOf text).count '\n' = text.count '\n' + 1 := by
  rw [lineOf, List.count_append]
  rfl

theorem count_comment {basename : List Char} (h : '\n' ∉ basename) (head : List Char) (p : Nat)
    (hHead : head.count '\n' = 0) :
    (textOf [.lit head, .lit basename, .lit "_part".toList, .udec p,
      .lit ".cal ---\n".toList]).count '\n' = 1 := by
  simp only [textOf_cons, textOf_nil, TextItem.text, List.count_append, hHead,
    List.count_eq_zero_of_not_mem h, List.count_eq_zero_of_not_mem (newline_not_mem_toDigits p)]
  decide

theorem count_continuesIn {basename : List Char} (h : '\n' ∉ basename) (p : Nat) :
    (continuesIn basename p).count '\n' = 1 := count_comment h _ p (by decide)

theorem count_continuedFrom {basename : List Char} (h : '\n' ∉ basename) (p : Nat) :
    (continuedFrom basename p).count '\n' = 1 := count_comment h _ p (by decide)

theorem countedBytes_of_lt {l : Line} (h : l.text.length < 1024) : countedBytes l = l.text :=
  if_pos h

theorem written_emitFileOpen (disk : List Char → List Char) (dir basename : List Char)
    (limit : Nat) : Written (emitFileOpen disk dir basename limit) [] [] := by
  have hDisk : (emitFileOpen disk dir basename limit).disk
      (emitFileOpen disk dir basename limit).path = [] := if_pos rfl
  refine
    { limit_lt := ?_, part_eq := rfl, part_lt := Nat.lt_of_lt_of_le one_lt_two (by decide),
      split_eq := rfl, total_eq := rfl, path_eq := rfl, distinct := ?_,
      closed := fun i h => absurd h (Nat.not_lt_zero i),
      closed_le := fun i h => absurd h (Nat.not_lt_zero i), current := hDisk, lines_eq := ?_,
      lines_le := Nat.zero_le _ }
  · show (if limit % 2 ^ 32 = 0 then emitCalLineLimit else limit % 2 ^ 32) < 2 ^ 32
    split
    · decide
    · exact Nat.mod_lt _ (by decide)
  · intro p q hp hpq hq
    have hOne : q ≤ 1 := hq
    omega
  · rw [hDisk]
    rfl

/-- A text that fits goes to the end of the open part. -/
theorem Written.append {ef : EmitFile} {done : List (List (List Char))} {cur : List (List Char)}
    (h : Written ef done cur) {text : List Char}
    (hFits : ef.lines + (1 + text.count '\n') ≤ ef.limit) :
    Written { fputs (fputs ef text) ['\n'] with
      lines := (ef.lines + (1 + text.count '\n')) % 2 ^ 32 } done (cur ++ [text]) := by
  have hDisk : ∀ p, (fputs (fputs ef text) ['\n']).disk p =
      if p = ef.path then ef.disk p ++ lineOf text else ef.disk p := by
    intro p
    rw [fputs, fputs]
    by_cases hp : p = ef.path <;> simp [hp, lineOf]
  have hOld : ∀ i, i < done.length →
      (fputs (fputs ef text) ['\n']).disk (partPath ef.dir ef.basename (i + 1)) =
        ef.disk (partPath ef.dir ef.basename (i + 1)) := by
    intro i hi
    rw [hDisk, if_neg]
    rw [h.path_eq]
    have hPart := h.part_eq
    exact h.distinct (i + 1) ef.part (by omega) (by omega) (Nat.le_refl _)
  have hLimit := h.limit_lt
  refine
    { limit_lt := h.limit_lt, part_eq := h.part_eq, part_lt := h.part_lt, split_eq := h.split_eq,
      total_eq := h.total_eq, path_eq := h.path_eq, distinct := h.distinct,
      closed := fun i hi => (hOld i hi).trans (h.closed i hi),
      closed_le := fun i hi => ?_, current := ?_, lines_eq := ?_, lines_le := ?_ }
  · show ((fputs (fputs ef text) ['\n']).disk _).count '\n' ≤ ef.limit
    have hEq := hOld i hi
    exact hEq ▸ h.closed_le i hi
  · show (fputs (fputs ef text) ['\n']).disk ef.path = _
    rw [hDisk, if_pos rfl, h.current]
    exact (partText_snoc ef.basename _ _ _).symm
  · show (ef.lines + (1 + text.count '\n')) % 2 ^ 32 =
      ((fputs (fputs ef text) ['\n']).disk ef.path).count '\n'
    rw [hDisk, if_pos rfl, List.count_append, ← h.lines_eq, count_lineOf,
      Nat.mod_eq_of_lt (by omega), Nat.add_comm 1]
  · show (ef.lines + (1 + text.count '\n')) % 2 ^ 32 ≤ ef.limit
    exact Nat.le_trans (Nat.mod_le _ _) hFits

/-- A rotation closes the open part and starts an empty one. -/
theorem Written.rotate {ef : EmitFile} {done : List (List (List Char))}
    {cur : List (List Char)} (h : Written ef done cur) {nl : Nat} (hWell : RotatesWell ef nl) :
    Written (rotate ef) (done ++ [cur]) [] ∧ (Decompiler.rotate ef).lines = 1 ∧
      (Decompiler.rotate ef).limit = ef.limit := by
  have hPart := h.part_eq
  have hLt := h.part_lt
  -- a counter that wraps comes back to the path of the first part
  have hNext : ef.part + 1 < 2 ^ 32 := by
    by_contra hNot
    have hZero : (ef.part + 1) % 2 ^ 32 = 0 := by
      rw [show ef.part + 1 = 2 ^ 32 by omega, Nat.mod_self]
    refine hWell.newPath 1 (Nat.le_refl _) (by omega) ?_
    rw [hZero]
    rfl
  have hMod : (ef.part + 1) % 2 ^ 32 = ef.part + 1 := Nat.mod_eq_of_lt hNext
  have hSplit : (ef.splitSiblings + 1) % 2 ^ 32 = done.length + 1 := by
    rw [h.split_eq, ← hPart, Nat.mod_eq_of_lt hLt]
  have hTotal : (ef.totalFiles + 1) % 2 ^ 32 = done.length + 1 + 1 := by
    rw [h.total_eq, ← hPart, hMod]
  have hNew : ∀ p, 1 ≤ p → p ≤ ef.part →
      partPath ef.dir ef.basename p ≠ partPath ef.dir ef.basename (ef.part + 1) := by
    intro p hp hLe hEq
    refine hWell.newPath p hp hLe ?_
    rw [hMod]
    exact hEq.symm
  have hBack : (ef.part + 1 + 2 ^ 32 - 1) % 2 ^ 32 = done.length + 1 := by
    rw [show ef.part + 1 + 2 ^ 32 - 1 = ef.part + 2 ^ 32 by omega, Nat.add_mod_right,
      Nat.mod_eq_of_lt hLt, hPart]
  have hPath : (Decompiler.rotate ef).path = partPath ef.dir ef.basename (ef.part + 1) :=
    congrArg (partPath ef.dir ef.basename) hMod
  have hDisk : ∀ p, (Decompiler.rotate ef).disk p =
      if p = partPath ef.dir ef.basename (ef.part + 1) then
        continuedFrom ef.basename (done.length + 1)
      else if p = ef.path then ef.disk p ++ continuesIn ef.basename (ef.part + 1)
      else ef.disk p := by
    intro p
    simp only [Decompiler.rotate, openPart, fputs, hMod, hBack]
    by_cases hp : p = partPath ef.dir ef.basename (ef.part + 1) <;> simp [hp]
  have hOld : ∀ i, i < done.length →
      (Decompiler.rotate ef).disk (partPath ef.dir ef.basename (i + 1)) =
        ef.disk (partPath ef.dir ef.basename (i + 1)) := by
    intro i hi
    rw [hDisk, if_neg (hNew (i + 1) (by omega) (by omega)), if_neg]
    rw [h.path_eq]
    exact h.distinct (i + 1) ef.part (by omega) (by omega) (Nat.le_refl _)
  have hClosed : (Decompiler.rotate ef).disk (partPath ef.dir ef.basename (done.length + 1)) =
      partText ef.basename done.length false cur := by
    have hCurrent : partPath ef.dir ef.basename (done.length + 1) = ef.path := by
      rw [h.path_eq, hPart]
    rw [hDisk, if_neg (hNew _ (by omega) (by omega)), if_pos hCurrent, hCurrent, h.current,
      partText_false, hPart]
  have hCount : (partText ef.basename done.length false cur).count '\n' ≤ ef.limit := by
    rw [partText_false, List.count_append, ← h.current, ← h.lines_eq,
      count_continuesIn hWell.oneLine]
    exact hWell.room
  have hOpened : (Decompiler.rotate ef).disk (Decompiler.rotate ef).path =
      continuedFrom ef.basename (done.length + 1) := by
    rw [hPath, hDisk, if_pos rfl]
  refine ⟨?_, rfl, rfl⟩
  refine
    { limit_lt := h.limit_lt, part_eq := ?_, part_lt := ?_, split_eq := ?_, total_eq := ?_,
      path_eq := rfl, distinct := ?_, closed := ?_, closed_le := ?_, current := ?_,
      lines_eq := ?_, lines_le := ?_ }
  · show (ef.part + 1) % 2 ^ 32 = (done ++ [cur]).length + 1
    rw [hMod, List.length_append, List.length_singleton, hPart]
  · exact Nat.mod_lt _ (by decide)
  · show (ef.splitSiblings + 1) % 2 ^ 32 = (done ++ [cur]).length
    rw [hSplit, List.length_append, List.length_singleton]
  · show (ef.totalFiles + 1) % 2 ^ 32 = (done ++ [cur]).length + 1
    rw [hTotal, List.length_append, List.length_singleton]
  · intro p q hp hpq hq
    show partPath ef.dir ef.basename p ≠ partPath ef.dir ef.basename q
    have hq' : q ≤ ef.part + 1 := by
      rw [← hMod]
      exact hq
    rcases Nat.lt_or_eq_of_le hq' with hLtQ | rfl
    · exact h.distinct p q hp hpq (by omega)
    · exact hNew p hp (by omega)
  · intro i hi
    rw [List.length_append, List.length_singleton] at hi
    by_cases hLast : i < done.length
    · rw [List.getElem_append_left hLast]
      exact (hOld i hLast).trans (h.closed i hLast)
    · obtain rfl : i = done.length := by omega
      rw [List.getElem_concat_length rfl]
      exact hClosed
  · intro i hi
    show ((Decompiler.rotate ef).disk (partPath ef.dir ef.basename (i + 1))).count '\n' ≤ ef.limit
    rw [List.length_append, List.length_singleton] at hi
    by_cases hLast : i < done.length
    · rw [hOld i hLast]
      exact h.closed_le i hLast
    · obtain rfl : i = done.length := by omega
      rw [hClosed]
      exact hCount
  · rw [hOpened, List.length_append, List.length_singleton]
    show _ = partText ef.basename (done.length + 1) true []
    simp [partText]
  · rw [hOpened, count_continuedFrom hWell.oneLine]
    rfl
  · show 1 ≤ ef.limit
    have hFits := hWell.fits
    omega

/-- One call keeps what the parts hold. -/
theorem Written.emitLinef {ef : EmitFile} {done : List (List (List Char))}
    {cur : List (List Char)} (h : Written ef done cur) {l : Line} (hKeeps : Keeps ef l) :
    ∃ done' cur', Written (emitLinef ef l) done' cur' ∧
      done'.flatten ++ cur' = done.flatten ++ cur ++ [l.text] := by
  obtain ⟨hLength, hRoom⟩ := hKeeps
  have hLimit := h.limit_lt
  rw [Decompiler.emitLinef, if_neg (by omega), countedBytes_of_lt hLength,
    snprintf_of_lt hLength]
  by_cases hFits : ef.lines + (1 + l.text.count '\n') ≤ ef.limit
  · have hNo : ¬ (ef.limit < (ef.lines + (1 + l.text.count '\n')) % 2 ^ 32 ∧ 4 < ef.lines) := by
      rw [Nat.mod_eq_of_lt (by omega)]
      omega
    refine ⟨done, cur ++ [l.text], ?_, by rw [List.append_assoc]⟩
    simp only [if_neg hNo]
    exact h.append hFits
  · have hWell := hRoom.resolve_left hFits
    have hYes : ef.limit < (ef.lines + (1 + l.text.count '\n')) % 2 ^ 32 ∧ 4 < ef.lines := by
      rw [Nat.mod_eq_of_lt hWell.noWrap]
      exact ⟨by omega, hWell.header⟩
    obtain ⟨hWritten, hLines, hSame⟩ := h.rotate hWell
    refine ⟨done ++ [cur], [l.text], ?_, by simp⟩
    simp only [if_pos hYes]
    refine hWritten.append ?_
    rw [hLines, hSame]
    exact hWell.fits

theorem Written.emitLines {ef : EmitFile} {done : List (List (List Char))}
    {cur : List (List Char)} (h : Written ef done cur) {ls : List Line}
    (hKeep : StepsKeep ef ls) :
    ∃ done' cur', Written (emitLines ef ls) done' cur' ∧
      done'.flatten ++ cur' = done.flatten ++ cur ++ ls.map Line.text := by
  induction ls generalizing ef done cur with
  | nil => exact ⟨done, cur, h, by rw [List.map_nil, List.append_nil]⟩
  | cons l ls ih =>
    obtain ⟨done', cur', hStep, hTexts⟩ := h.emitLinef hKeep.1
    obtain ⟨done'', cur'', hRun, hAll⟩ := ih hStep hKeep.2
    refine ⟨done'', cur'', hRun, ?_⟩
    rw [hAll, hTexts, List.map_cons, List.append_assoc _ [l.text], List.singleton_append]

theorem Written.rotated {ef : EmitFile} {done : List (List (List Char))}
    {cur : List (List Char)} (h : Written ef done cur) : Rotated ef (done.flatten ++ cur) := by
  have hPart := h.part_eq
  refine ⟨⟨done ++ [cur], by simp, by simp [hPart], ?_⟩, ?_, by rw [h.total_eq, h.split_eq]⟩
  · intro i hi
    rw [List.length_append, List.length_singleton] at hi ⊢
    by_cases hLast : i < done.length
    · rw [List.getElem_append_left hLast, h.closed i hLast,
        decide_eq_false (by omega : ¬ i + 1 = done.length + 1)]
    · obtain rfl : i = done.length := by omega
      rw [List.getElem_concat_length rfl, ← hPart, ← h.path_eq, h.current,
        decide_eq_true (hPart ▸ rfl)]
  · intro part hOne hLe
    obtain ⟨i, rfl⟩ : ∃ i, part = i + 1 := ⟨part - 1, by omega⟩
    by_cases hLast : i < done.length
    · exact h.closed_le i hLast
    · obtain rfl : i = done.length := by omega
      rw [← hPart, ← h.path_eq, ← h.lines_eq]
      exact h.lines_le

theorem stepsKeep_append {ef : EmitFile} {ls ls' : List Line} (h : StepsKeep ef (ls ++ ls')) :
    StepsKeep ef ls := by
  induction ls generalizing ef with
  | nil => trivial
  | cons l ls ih => exact ⟨h.1, ih h.2⟩

/-- In a run whose texts all fit, or rotate while a line is left, the parts are right after every
call. -/
theorem emitLines_rotated (disk : List Char → List Char) (dir basename : List Char) (limit : Nat)
    {ls : List Line} (hKeep : StepsKeep (emitFileOpen disk dir basename limit) ls)
    {done rest : List Line} (hSplit : ls = done ++ rest) :
    Rotated (emitLines (emitFileOpen disk dir basename limit) done) (done.map Line.text) := by
  obtain ⟨closed, cur, hWritten, hTexts⟩ :=
    (written_emitFileOpen disk dir basename limit).emitLines (stepsKeep_append (hSplit ▸ hKeep))
  have hRotated := hWritten.rotated
  rw [hTexts] at hRotated
  exact hRotated

/-- Seven blank lines into parts of six. -/
def sevenLines : List Line := List.replicate 7 { text := [] }

/-- The first part gets the closing comment as its seventh line. -/
theorem rotated_sevenLines_false :
    ¬ Rotated (emitLines (emitFileOpen (fun _ => []) "out".toList "main".toList 6) sevenLines)
      (sevenLines.map Line.text) := by
  intro h
  exact absurd (h.lines_le 1 (Nat.le_refl _) (by decide)) (by decide)

/-- Five lines, and a text of two lines that goes to the next part. -/
def sixTexts : List Line := List.replicate 5 { text := [] } ++ [{ text := "a\nb".toList }]

theorem rotated_sixTexts :
    Rotated (emitLines (emitFileOpen (fun _ => []) "out".toList "main".toList 6) sixTexts)
      (sixTexts.map Line.text) := by
  refine emitLines_rotated _ _ _ _ ?_ (List.append_nil sixTexts).symm
  refine ⟨⟨by decide, Or.inl (by decide)⟩, ⟨by decide, Or.inl (by decide)⟩,
    ⟨by decide, Or.inl (by decide)⟩, ⟨by decide, Or.inl (by decide)⟩,
    ⟨by decide, Or.inl (by decide)⟩, ⟨by decide, Or.inr ?_⟩, trivial⟩
  refine ⟨by decide, by decide, by decide, by decide, ?_, by decide⟩
  intro part hOne hLe
  have hPart : part ≤ 1 := hLe
  obtain rfl : part = 1 := by omega
  decide

end Calynda.Decompiler
