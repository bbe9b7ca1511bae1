import Calynda.Tokenizer.Interpolation

/-!
# Nested templates

A source of tokens, blocks and template literals, with interpolations that are such sources again,
is read as it is nested: around the tokens of its interpolations stand the segments of a template,
the first, the middle ones and the last. The counters are those of the interpolations around.
-/

namespace Calynda

open Tokenizer

/-! ## Texts with templates -/

mutual
/-- A token, a block or a template, after blanks. -/
inductive Piece where
  | token (gap text : List Char) (type : TokenType)
  | block (gap : List Char) (inner : List Piece) (gap' : List Char)
  | template (gap first : List Char) (holes : List Hole)

/-- An interpolation, and the segment after it. -/
inductive Hole where
  | mk (inner : List Piece) (gap segment : List Char)
end

mutual
def Piece.text : Piece → List Char
  | .token gap s _ => gap ++ s
  | .block gap inner gap' => gap ++ '{' :: (piecesText inner ++ (gap' ++ ['}']))
  | .template gap first holes => gap ++ '\x60' :: (first ++ (holesText holes ++ ['\x60']))

def piecesText : List Piece → List Char
  | [] => []
  | p :: ps => p.text ++ piecesText ps

def holesText : List Hole → List Char
  | [] => []
  | .mk inner gap segment :: holes =>
    '$' :: '{' :: (piecesText inner ++ (gap ++ '}' :: (segment ++ holesText holes)))
end

mutual
/-- The text of the piece is read as such before the text after it. -/
def Piece.Fits : Piece → List Char → Prop
  | .token gap s type, after => IsToken gap s type after
  | .block gap inner gap', after =>
    IsGap gap ('{' :: (piecesText inner ++ (gap' ++ '}' :: after))) ∧
      piecesFit inner (gap' ++ '}' :: after) ∧ IsGap gap' ('}' :: after)
  | .template gap first holes, after =>
    IsGap gap ('\x60' :: (first ++ (holesText holes ++ '\x60' :: after))) ∧
      IsSegment (holesText holes ++ '\x60' :: after) first ∧ holesFit holes ('\x60' :: after)

def piecesFit : List Piece → List Char → Prop
  | [], _ => True
  | p :: ps, after => p.Fits (piecesText ps ++ after) ∧ piecesFit ps after

def holesFit : List Hole → List Char → Prop
  | [], _ => True
  | .mk inner gap segment :: holes, after =>
    piecesFit inner (gap ++ '}' :: (segment ++ (holesText holes ++ after))) ∧
      IsGap gap ('}' :: (segment ++ (holesText holes ++ after))) ∧
        IsSegment (holesText holes ++ after) segment ∧ holesFit holes after
end

mutual
/-- The greatest number of interpolations that are open at once. -/
def Piece.depth : Piece → Nat
  | .token _ _ _ => 0
  | .block _ inner _ => piecesDepth inner
  | .template _ _ holes => holesDepth holes

def piecesDepth : List Piece → Nat
  | [] => 0
  | p :: ps => max p.depth (piecesDepth ps)

def holesDepth : List Hole → Nat
  | [] => 0
  | .mk inner _ _ :: holes => max (piecesDepth inner + 1) (holesDepth holes)
end

/-- What ends the segment before these interpolations, where `c` ends the last one. -/
def Closing.next (c : Closing) : List Hole → Closing
  | [] => c
  | _ :: _ => .opening

mutual
/-- The tokens, with the segments of templates around those of their interpolations. -/
def Piece.outlines : Piece → List Outline
  | .token _ s type => [(type, s)]
  | .block _ inner _ => (.tokLbrace, ['{']) :: (piecesOutlines inner ++ [(.tokRbrace, ['}'])])
  | .template _ first holes =>
    ((Closing.quote.next holes).afterStart, first) :: holesOutlines .quote holes

def piecesOutlines : List Piece → List Outline
  | [] => []
  | p :: ps => p.outlines ++ piecesOutlines ps

def holesOutlines (c : Closing) : List Hole → List Outline
  | [] => []
  | .mk inner _ segment :: holes =>
    piecesOutlines inner ++ ((c.next holes).afterHole, segment) :: holesOutlines c holes
end

/-- The text after what opens the first of some interpolations. -/
def holesAfter (c : Closing) (x : List Char) : List Hole → List Char
  | [] => x
  | .mk inner gap segment :: holes =>
    piecesText inner ++ (gap ++ '}' :: (segment ++ (holesText holes ++ (c.text ++ x))))

theorem holesText_append (c : Closing) (holes : List Hole) (x : List Char) :
    holesText holes ++ (c.text ++ x) = (c.next holes).text ++ holesAfter c x holes := by
  cases holes with
  | nil => rfl
  | cons hole holes =>
    obtain ⟨inner, gap, segment⟩ := hole
    simp [holesText, holesAfter, Closing.next, Closing.text]

/-! ## Calls -/

/-- Calls of `tokenizer_next`, with the outlines of their tokens. -/
inductive Yields : Tokenizer → List Outline → Tokenizer → Prop where
  | nil {t : Tokenizer} : Yields t [] t
  | cons {t t' : Tokenizer} {o : Outline} {os : List Outline}
      (h : (tokenizerNext t).1.outline = o) (hRest : Yields (tokenizerNext t).2 os t') :
      Yields t (o :: os) t'

/-- Calls with these outlines, up to `text`. -/
def Passes (t : Tokenizer) (os : List Outline) (text : List Char) (counts : List Int) : Prop :=
  ∃ t', Yields t os t' ∧ At t' text counts

section Calls

variable {t t' t'' : Tokenizer} {o : Outline} {os os' : List Outline} {x y : List Char}
  {counts counts' : List Int}

theorem Yields.append (h : Yields t os t') (h' : Yields t' os' t'') :
    Yields t (os ++ os') t'' := by
  induction h with
  | nil => exact h'
  | cons hHead _ ih => exact .cons hHead (ih h')

theorem Passes.bind (h : Passes t os x counts)
    (h' : ∀ t₁, At t₁ x counts → Passes t₁ os' y counts') : Passes t (os ++ os') y counts' := by
  obtain ⟨t₁, hYields, hAt⟩ := h
  obtain ⟨t₂, hYields', hAt'⟩ := h' t₁ hAt
  exact ⟨t₂, hYields.append hYields', hAt'⟩

theorem Calls.bind (h : Calls t o x counts)
    (h' : ∀ t₁, At t₁ x counts → Passes t₁ os y counts') : Passes t (o :: os) y counts' := by
  obtain ⟨t₂, hYields, hAt⟩ := h' _ h.at_rest
  exact ⟨t₂, .cons h.outline_eq hYields, hAt⟩

theorem Calls.passes (h : Calls t o x counts) : Passes t [o] x counts :=
  h.bind fun t₁ hAt => ⟨t₁, .nil, hAt⟩

end Calls

theorem length_bump (f : Int → Int) (counts : List Int) : (bump f counts).length = counts.length := by
  rcases List.eq_nil_or_concat' counts with rfl | ⟨init, m, rfl⟩
  · rfl
  · rw [bump_concat, List.length_append, List.length_append]
    rfl

mutual
theorem passes_piece : ∀ (p : Piece) {t : Tokenizer} {after : List Char} {counts : List Int},
    At t (p.text ++ after) counts → p.Fits after → counts.length + p.depth ≤ 32 →
      Passes t p.outlines after counts
  | .token gap s type, t, after, counts, h, hFits, _ => by
    have h' : At t (gap ++ (s ++ after)) counts := by
      rw [← List.append_assoc]
      exact h
    exact (h'.token hFits).passes
  | .block gap inner gap', t, after, counts, h, ⟨hGap, hInner, hGap'⟩, hDepth => by
    have h' : At t (gap ++ '{' :: (piecesText inner ++ (gap' ++ '}' :: after))) counts := by
      simpa [Piece.text] using h
    refine (h'.lbrace hGap).bind fun t₁ h₁ => ?_
    refine (passes_pieces inner h₁ hInner (by rw [length_bump]; exact hDepth)).bind
      fun t₂ h₂ => ?_
    exact (h₂.rbrace h.counts_nonneg hGap').passes
  | .template gap first holes, t, after, counts, h, ⟨hGap, hSeg, hHoles⟩, hDepth => by
    have hText : holesText holes ++ '\x60' :: after =
        (Closing.quote.next holes).text ++ holesAfter .quote after holes :=
      holesText_append .quote holes after
    have h' : At t (gap ++ '\x60' :: (first ++ (holesText holes ++ '\x60' :: after))) counts := by
      simpa [Piece.text] using h
    rw [hText] at h' hGap hSeg
    refine (h'.template _ hGap hSeg ?_).bind fun t₁ h₁ => passes_holes holes .quote h₁ hHoles hDepth
    intro hOpening
    cases holes with
    | nil => exact nomatch hOpening
    | cons hole holes =>
      obtain ⟨inner, gap₁, segment⟩ := hole
      simp only [Piece.depth, holesDepth] at hDepth
      omega

theorem passes_pieces : ∀ (ps : List Piece) {t : Tokenizer} {after : List Char}
    {counts : List Int}, At t (piecesText ps ++ after) counts → piecesFit ps after →
      counts.length + piecesDepth ps ≤ 32 → Passes t (piecesOutlines ps) after counts
  | [], t, _, _, h, _, _ => ⟨t, .nil, h⟩
  | p :: ps, t, after, counts, h, ⟨hHead, hTail⟩, hDepth => by
    have h' : At t (p.text ++ (piecesText ps ++ after)) counts := by
      rw [← List.append_assoc]
      exact h
    rw [piecesDepth] at hDepth
    refine (passes_piece p h' hHead (by omega)).bind fun t₁ h₁ => ?_
    exact passes_pieces ps h₁ hTail (by omega)

theorem passes_holes : ∀ (holes : List Hole) (c : Closing) {t : Tokenizer} {x : List Char}
    {counts : List Int}, At t (holesAfter c x holes) ((c.next holes).counts counts) →
      holesFit holes (c.text ++ x) → counts.length + holesDepth holes ≤ 32 →
        Passes t (holesOutlines c holes) x (c.counts counts)
  | [], _, t, _, _, h, _, _ => ⟨t, .nil, h⟩
  | .mk inner gap segment :: holes, c, t, x, counts, h, ⟨hInner, hGap, hSeg, hHoles⟩, hDepth => by
    rw [holesDepth] at hDepth
    have h' : At t (piecesText inner ++
        (gap ++ '}' :: (segment ++ (holesText holes ++ (c.text ++ x))))) (counts ++ [0]) := h
    refine (passes_pieces inner h' hInner ?_).bind fun t₁ h₁ => ?_
    · rw [List.length_append, List.length_singleton]
      omega
    · rw [holesText_append] at h₁ hGap hSeg
      refine (h₁.hole (c.next holes) hGap hSeg).bind fun t₂ h₂ => ?_
      exact passes_holes holes c h₂ hHoles (by omega)
end

/-! ## Open interpolations -/

/-- A block or an interpolation that is still open, after pieces; the template of the
interpolation may have had others. -/
inductive Opened where
  | block (before : List Piece) (gap : List Char)
  | template (before : List Piece) (gap first : List Char) (holes : List Hole)

namespace Opened

def text : Opened → List Char
  | block before gap => piecesText before ++ (gap ++ ['{'])
  | template before gap first holes =>
    piecesText before ++ (gap ++ '\x60' :: (first ++ (holesText holes ++ ['$', '{'])))

def Fits : Opened → List Char → Prop
  | block before gap, after => piecesFit before (gap ++ '{' :: after) ∧ IsGap gap ('{' :: after)
  | template before gap first holes, after =>
    piecesFit before (gap ++ '\x60' :: (first ++ (holesText holes ++ '$' :: '{' :: after))) ∧
      IsGap gap ('\x60' :: (first ++ (holesText holes ++ '$' :: '{' :: after))) ∧
        IsSegment (holesText holes ++ '$' :: '{' :: after) first ∧
          holesFit holes ('$' :: '{' :: after)

/-- The interpolations that it opens. -/
def opens : Opened → Nat
  | block _ _ => 0
  | template _ _ _ _ => 1

def depth : Opened → Nat
  | block before _ => piecesDepth before
  | template before _ _ holes => max (piecesDepth before) (max 1 (holesDepth holes))

def outlines : Opened → List Outline
  | block before _ => piecesOutlines before ++ [(.tokLbrace, ['{'])]
  | template before _ first holes =>
    piecesOutlines before ++
      ((Closing.opening.next holes).afterStart, first) :: holesOutlines .opening holes

end Opened

def openedText : List Opened → List Char
  | [] => []
  | o :: path => o.text ++ openedText path

def openedFit : List Opened → List Char → Prop
  | [], _ => True
  | o :: path, after => o.Fits (openedText path ++ after) ∧ openedFit path after

def openedCount : List Opened → Nat
  | [] => 0
  | o :: path => o.opens + openedCount path

def openedDepth : List Opened → Nat
  | [] => 0
  | o :: path => max o.depth (o.opens + openedDepth path)

def openedOutlines : List Opened → List Outline
  | [] => []
  | o :: path => o.outlines ++ openedOutlines path

section Paths

variable {t : Tokenizer} {after : List Char} {counts : List Int}

theorem passes_opened (o : Opened) (h : At t (o.text ++ after) counts) (hFits : o.Fits after)
    (hDepth : counts.length + o.depth ≤ 32) :
    ∃ counts', counts'.length = counts.length + o.opens ∧ Passes t o.outlines after counts' := by
  cases o with
  | block before gap =>
    obtain ⟨hBefore, hGap⟩ := hFits
    have h' : At t (piecesText before ++ (gap ++ '{' :: after)) counts := by
      simpa [Opened.text] using h
    refine ⟨bump (· + 1) counts, length_bump _ _, ?_⟩
    exact (passes_pieces before h' hBefore hDepth).bind fun t₁ h₁ => (h₁.lbrace hGap).passes
  | template before gap first holes =>
    obtain ⟨hBefore, hGap, hSeg, hHoles⟩ := hFits
    have hText : holesText holes ++ '$' :: '{' :: after =
        (Closing.opening.next holes).text ++ holesAfter .opening after holes :=
      holesText_append .opening holes after
    have h' : At t (piecesText before ++
        (gap ++ '\x60' :: (first ++ (holesText holes ++ '$' :: '{' :: after)))) counts := by
      simpa [Opened.text] using h
    rw [Opened.depth] at hDepth
    refine ⟨counts ++ [0], List.length_append, ?_⟩
    refine (passes_pieces before h' hBefore (by omega)).bind fun t₁ h₁ => ?_
    rw [hText] at h₁ hGap hSeg
    refine (h₁.template _ hGap hSeg fun _ => by omega).bind fun t₂ h₂ => ?_
    exact passes_holes holes .opening h₂ hHoles (by omega)

theorem passes_path (path : List Opened) (h : At t (openedText path ++ after) counts)
    (hFits : openedFit path after) (hDepth : counts.length + openedDepth path ≤ 32) :
    ∃ counts', counts'.length = counts.length + openedCount path ∧
      Passes t (openedOutlines path) after counts' := by
  induction path generalizing t counts with
  | nil => exact ⟨counts, rfl, t, .nil, h⟩
  | cons o path ih =>
    obtain ⟨hHead, hTail⟩ := hFits
    have h' : At t (o.text ++ (openedText path ++ after)) counts := by
      rw [← List.append_assoc]
      exact h
    rw [openedDepth] at hDepth
    obtain ⟨counts₁, hLength₁, t₁, hYields, h₁⟩ := passes_opened o h' hHead (by omega)
    obtain ⟨counts₂, hLength₂, t₂, hYields', h₂⟩ := ih h₁ hTail (by omega)
    exact ⟨counts₂, by rw [hLength₂, hLength₁, openedCount, Nat.add_assoc],
      t₂, hYields.append hYields', h₂⟩

/-- Where 32 interpolations are open, one more is an error. -/
theorem At.tooDeep {gap seg x : List Char}
    (h : At t (gap ++ '\x60' :: (seg ++ '$' :: '{' :: x)) counts)
    (hGap : IsGap gap ('\x60' :: (seg ++ '$' :: '{' :: x))) (hSeg : IsSegment ('$' :: '{' :: x) seg)
    (hDepth : counts.length = 32) :
    ∃ line col, (tokenizerNext t).1 =
      errorToken "Template interpolation nesting too deep" line col := by
  have hSkip := h.skipGap hGap
  obtain ⟨hReads, hNext⟩ := hSkip.advanceChar (by decide)
  have hScan := tokenizerNext_template hSkip.peek
  have hFuel : seg.length < (skipWhitespace t).advanceChar.left + 1 := by
    rw [left_eq, hNext.rest, List.length_append]
    omega
  obtain ⟨t₁, fuel, hReads₁, hSegment⟩ := scanTemplateFrom_segment (skipWhitespace t).current
    (skipWhitespace t).line (skipWhitespace t).column .tokTemplateStart .tokTemplateFull hSeg
    hNext.rest hFuel
  have hAt := hNext.of_reads hReads₁
  have hLength := hAt.length_counts
  have hPeek : t₁.peek = '$' := peek_of_rest hAt.rest
  have hEnd := not_isAtEnd_of_peek hPeek (by decide)
  have hBrace : t₁.peekNext = '{' := by
    refine peekNext_of_rest hEnd ?_
    rw [rest_advanceChar, hAt.rest]
    rfl
  have hMax : tokenizerMaxTemplateDepth = 32 := rfl
  refine ⟨(skipWhitespace t).line, (skipWhitespace t).column, ?_⟩
  rw [hScan, tokenizerScanTemplateBody, hSegment, scanTemplateFrom, hEnd,
    if_neg Bool.false_ne_true, if_neg (by rw [hPeek]; decide), if_pos ⟨hPeek, hBrace⟩,
    if_pos (by omega)]

/-- At the end of the text the calls end. -/
theorem At.eof {gap : List Char} (h : At t gap counts) (hGap : IsGap gap []) :
    (tokenizerNext t).1.type = .tokEof := by
  have hSkip := (show At t (gap ++ []) counts by rwa [List.append_nil]).skipGap hGap
  have hPeek : (skipWhitespace t).peek = nul := by
    rw [peek_eq_rest, hSkip.rest]
    rfl
  have hEnds : endsInterpolation (skipWhitespace t) = false :=
    endsInterpolation_of_peek hPeek (by decide)
  have hEnd : (skipWhitespace t).isAtEnd = true := by
    rw [isAtEnd, hPeek]
    decide
  rw [tokenizerNext, tokenizerScan, hEnds, if_neg Bool.false_ne_true, hEnd, if_pos rfl]
  rfl

end Paths

/-! ## Sources -/

/-- A source with templates that are nested at most 32 deep. -/
structure NestedSource where
  pieces : List Piece
  gap : List Char
  noNul : nul ∉ piecesText pieces ++ gap
  fits : piecesFit pieces gap
  isGap : IsGap gap []
  depth_le : piecesDepth pieces ≤ 32

/-- A source with an interpolation inside of 32 others. -/
structure DeepSource where
  path : List Opened
  before : List Piece
  gap : List Char
  first : List Char
  after : List Char
  noNul : nul ∉ openedText path ++
    (piecesText before ++ (gap ++ '\x60' :: (first ++ '$' :: '{' :: after)))
  fits : openedFit path (piecesText before ++ (gap ++ '\x60' :: (first ++ '$' :: '{' :: after)))
  beforeFits : piecesFit before (gap ++ '\x60' :: (first ++ '$' :: '{' :: after))
  isGap : IsGap gap ('\x60' :: (first ++ '$' :: '{' :: after))
  isSegment : IsSegment ('$' :: '{' :: after) first
  depth_le : openedDepth path ≤ 32
  count_eq : openedCount path = 32
  before_flat : piecesDepth before = 0

def NestedSource.text (s : NestedSource) : List Char := piecesText s.pieces ++ s.gap

def DeepSource.text (s : DeepSource) : List Char :=
  openedText s.path ++ (piecesText s.before ++ (s.gap ++ '\x60' :: (s.first ++ '$' :: '{' :: s.after)))

/-- The outlines of the first tokens of a source. -/
def outlinesOf (source : List Char) (n : Nat) : List Outline :=
  (List.range n).map fun i => (tokenOf source i).outline

theorem at_tokenizerInit {source : List Char} (hNul : nul ∉ source) :
    At (tokenizerInit source) source [] :=
  ⟨rfl, hNul, stackOk_tokenizerInit source, rfl⟩

/-- The calls of a source one after the other. -/
theorem Yields.outlinesOf {source : List Char} {os : List Outline} {t : Tokenizer} {m : Nat}
    (h : Yields (tokenizerAfter source m) os t) :
    (List.range os.length).map (fun i => (tokenOf source (m + i)).outline) = os ∧
      t = tokenizerAfter source (m + os.length) := by
  induction os generalizing m with
  | nil =>
    cases h
    exact ⟨rfl, rfl⟩
  | cons o os ih =>
    cases h with
    | cons hHead hRest =>
      obtain ⟨hOutlines, hState⟩ := ih (m := m + 1) hRest
      refine ⟨?_, ?_⟩
      · rw [List.length_cons, List.range_succ_eq_map, List.map_cons, List.map_map]
        refine congrArg₂ List.cons hHead (Eq.trans ?_ hOutlines)
        refine List.map_congr_left fun i _ => ?_
        show (tokenOf source (m + (i + 1))).outline = (tokenOf source (m + 1 + i)).outline
        rw [Nat.add_right_comm, Nat.add_assoc]
      · rw [hState, List.length_cons, Nat.add_assoc, Nat.add_comm 1]

/-- Templates in templates are read as they are nested; the interpolation inside of 32 others is an
error; and in every state of every source the stack is in its bounds. -/
theorem templates_nest :
    (∀ s : NestedSource,
      outlinesOf s.text (piecesOutlines s.pieces).length = piecesOutlines s.pieces ∧
        (tokenOf s.text (piecesOutlines s.pieces).length).type = .tokEof) ∧
    (∀ s : DeepSource, ∃ line col,
      outlinesOf s.text (openedOutlines s.path ++ piecesOutlines s.before).length =
          openedOutlines s.path ++ piecesOutlines s.before ∧
        tokenOf s.text (openedOutlines s.path ++ piecesOutlines s.before).length =
          errorToken "Template interpolation nesting too deep" line col) ∧
    ∀ source : { source : List Char // nul ∉ source }, ∀ n,
      StackOk (tokenizerAfter source.1 n) := by
  refine ⟨fun s => ?_, fun s => ?_, fun source => (lossless source.2).stack⟩
  · obtain ⟨t, hYields, hAt⟩ := passes_pieces s.pieces (at_tokenizerInit s.noNul) s.fits
      (by rw [List.length_nil, Nat.zero_add]; exact s.depth_le)
    have hCalls : Yields (tokenizerAfter s.text 0) _ t := hYields
    obtain ⟨hOutlines, hState⟩ := hCalls.outlinesOf
    simp only [Nat.zero_add] at hOutlines hState
    refine ⟨hOutlines, ?_⟩
    rw [hState] at hAt
    exact hAt.eof s.isGap
  · obtain ⟨counts, hLength, t, hYields, hAt⟩ := passes_path s.path (at_tokenizerInit s.noNul) s.fits
      (by rw [List.length_nil, Nat.zero_add]; exact s.depth_le)
    rw [List.length_nil, Nat.zero_add, s.count_eq] at hLength
    obtain ⟨t', hYields', hAt'⟩ := passes_pieces s.before hAt s.beforeFits
      (by rw [hLength, s.before_flat])
    have hCalls : Yields (tokenizerAfter s.text 0) _ t' := hYields.append hYields'
    obtain ⟨hOutlines, hState⟩ := hCalls.outlinesOf
    simp only [Nat.zero_add] at hOutlines hState
    obtain ⟨line, col, hError⟩ := hAt'.tooDeep s.isGap s.isSegment hLength
    rw [hState] at hError
    exact ⟨line, col, hOutlines, hError⟩

theorem isSegment_letter {c : Char} (after : List Char) (h : c ∉ ['\\', nul, '\x60', '$']) :
    IsSegment after [c] := by
  simp only [List.mem_cons, List.not_mem_nil, or_false, not_or] at h
  refine .plain h.1 (by simp [h.2.1, h.2.2.1]) (fun hOpen => h.2.2.2 hOpen.1) .nil

/-- A template with a block in its interpolation, and in the block a template. -/
def templateInBlock : NestedSource where
  pieces := [.template [] ['a'] [.mk [.block [' '] [.template [] ['b'] []] []] [' '] ['c']]]
  gap := []
  noNul := by decide
  fits := by
    refine ⟨⟨rfl, isSegment_letter _ (by decide), ⟨⟨?_, trivial⟩, rfl, ?_, trivial⟩⟩, trivial⟩
    · exact ⟨rfl, ⟨⟨rfl, isSegment_letter _ (by decide), trivial⟩, trivial⟩, rfl⟩
    · exact isSegment_letter _ (by decide)
  isGap := rfl
  depth_le := by decide

theorem openedFit_replicate (n : Nat) {after : List Char} :
    openedFit (List.replicate n (.template [] [] [] [])) after := by
  induction n with
  | zero => exact trivial
  | succ n ih => exact ⟨⟨trivial, rfl, .nil, trivial⟩, ih⟩

/-- 33 interpolations, each at the start of the one before. -/
def thirtyThreeOpen : DeepSource where
  path := List.replicate 32 (.template [] [] [] [])
  before := []
  gap := []
  first := []
  after := []
  noNul := by decide
  fits := openedFit_replicate 32
  beforeFits := trivial
  isGap := rfl
  isSegment := .nil
  depth_le := by decide
  count_eq := by decide
  before_flat := rfl

theorem templates_nest_templateInBlock :
    outlinesOf templateInBlock.text 5 =
        [(.tokTemplateStart, ['a']), (.tokLbrace, ['{']), (.tokTemplateFull, ['b']),
          (.tokRbrace, ['}']), (.tokTemplateEnd, ['c'])] ∧
      (tokenOf thirtyThreeOpen.text 32).type = .tokError := by
  obtain ⟨line, col, -, hError⟩ := templates_nest.2.1 thirtyThreeOpen
  refine ⟨(templates_nest.1 templateInBlock).1, ?_⟩
  have hLength : (openedOutlines thirtyThreeOpen.path ++
      piecesOutlines thirtyThreeOpen.before).length = 32 := by decide
  rw [hLength] at hError
  rw [hError]
  rfl

end Calynda
