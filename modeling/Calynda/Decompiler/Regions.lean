import Calynda.Decompiler.Loops
import Calynda.Decompiler.Switch

/-!
# Regions

The kind of region each block starts: loops, and the conditionals whose arms meet again
without going round a loop. Functions with a loop that is entered beside its header are not
structured at all.
-/

namespace Calynda.Decompiler

variable (cfg : Cfg)

/-- Whether the edge from `src` to `dst` goes back in a loop. -/
def isBack (fuel src dst : Nat) : Except CfgFault Bool := dominates cfg dst fuel src

/-- The edges from `b` that a forward walk follows: inside the function, no switch case and not
back in a loop. -/
def forwardEdge (fuel b : Nat) (e : CfgEdge) : Except CfgFault Bool :=
  if e.src ≠ b ∨ e.dst = cfgInvalid then .ok false
  else if e.kind = .switchCase then .ok false
  else do
    let back ← isBack cfg fuel e.src e.dst
    .ok (!back)

/-- Marks what is reached from the blocks on the stack. -/
def forwardReachLoop (walkFuel : Nat) : Nat → List Nat → List Bool → Except CfgFault (List Bool)
  | 0, _, _ => .error .outOfFuel
  | _ + 1, [], mark => .ok mark
  | fuel + 1, b :: stack, mark =>
    if mark.getD b false then forwardReachLoop walkFuel fuel stack mark
    else do
      let mark := mark.set b true
      let stack ← cfg.edges.foldlM (fun stack e => do
        let forward ← forwardEdge cfg walkFuel b e
        .ok (if forward ∧ mark.getD e.dst false = false then e.dst :: stack else stack)) stack
      forwardReachLoop walkFuel fuel stack mark

def forwardReach (fuel start : Nat) : Except CfgFault (List Bool) :=
  forwardReachLoop cfg fuel fuel [start] (List.replicate cfg.blocks.length false)

/-- The first block of the queue, in breadth-first order, that is marked. -/
def firstCommonLoop (walkFuel : Nat) (m1 : List Bool) :
    Nat → List Nat → List Bool → Except CfgFault Nat
  | 0, _, _ => .error .outOfFuel
  | _ + 1, [], _ => .ok cfgInvalid
  | fuel + 1, b :: queue, seen =>
    if m1.getD b false then .ok b
    else do
      let (queue, seen) ← cfg.edges.foldlM (fun (queue, seen) e => do
        let forward ← forwardEdge cfg walkFuel b e
        .ok (if forward ∧ seen.getD e.dst false = false then
          (queue ++ [e.dst], seen.set e.dst true) else (queue, seen))) (queue, seen)
      firstCommonLoop walkFuel m1 fuel queue seen

def firstCommon (fuel s1 s2 : Nat) : Except CfgFault Nat := do
  let m1 ← forwardReach cfg fuel s1
  firstCommonLoop cfg fuel m1 fuel [s2] ((List.replicate cfg.blocks.length false).set s2 true)

/-- The first two forward successors of a block, switch edges apart. -/
def forwardSuccs (fuel bi : Nat) : Except CfgFault (Nat × Nat) :=
  cfg.edges.foldlM (fun (s1, s2) e =>
    if e.src ≠ bi then .ok (s1, s2)
    else if e.dst = cfgInvalid then .ok (s1, s2)
    else if e.kind = .switchCase ∨ e.kind = .switchDefault then .ok (s1, s2)
    else do
      if ← isBack cfg fuel e.src e.dst then .ok (s1, s2)
      else .ok (if s1 = cfgInvalid then (e.dst, s2)
        else if s2 = cfgInvalid then (s1, e.dst) else (s1, s2))) (cfgInvalid, cfgInvalid)

/-- Whether the edge enters the loop of header `h` beside the header. -/
def entersBeside (fuel h : Nat) (e : CfgEdge) : Except CfgFault Bool :=
  if e.dst = cfgInvalid then .ok false
  else if e.dst = h then .ok false
  else do
    let toIn ← dominates cfg h fuel e.dst
    let frIn ← dominates cfg h fuel e.src
    .ok (toIn && !frIn)

def detectIrreducible (fuel : Nat) : Except CfgFault Bool :=
  (List.range cfg.blocks.length).anyM fun h =>
    if (cfg.blocks.map (·.isLoopHeader)).getD h false then cfg.edges.anyM (entersBeside cfg fuel h)
    else .ok false

/-- The region that block `i` starts, and the block where its arms meet. -/
def regionOf (fuel i : Nat) (b : CfgBlock) : Except CfgFault CfgBlock :=
  if b.regionKind = .switch then .ok b
  else if b.isLoopHeader then .ok { b with regionKind := .loop }
  else do
    let (s1, s2) ← forwardSuccs cfg fuel i
    if s1 = cfgInvalid ∨ s2 = cfgInvalid then .ok { b with regionKind := .linear }
    else do
      let merge ← firstCommon cfg fuel s1 s2
      if merge = cfgInvalid then .ok { b with regionKind := .unstructured }
      else
        .ok { b with
          ifMerge := merge
          regionKind := if s1 = merge ∨ s2 = merge then .ifThen else .ifElse }

def cfgClassifyRegions (fuel : Nat) : Except CfgFault Cfg :=
  if cfg.blocks.length = 0 then .ok cfg
  else do
    if ← detectIrreducible cfg fuel then
      .ok { cfg with
        isIrreducible := true
        blocks := cfg.blocks.map fun b => { b with regionKind := .unstructured } }
    else do
      let blocks ← cfg.blocks.zipIdx.mapM fun (b, i) => regionOf cfg fuel i b
      .ok { cfg with blocks := blocks }

/-! ## What the pass keeps -/

variable {cfg} {cfg' : Cfg} {fuel : Nat}

/-- Only the kind of region and the merge block are set. -/
theorem regionOf_keeps {β : Type} (g : CfgBlock → β)
    (hg : ∀ b k m, g { b with regionKind := k, ifMerge := m } = g b) {i : Nat} {b b' : CfgBlock}
    (h : regionOf cfg fuel i b = .ok b') : g b' = g b := by
  unfold regionOf at h
  split at h
  · cases h
    rfl
  split at h
  · cases h
    exact hg b .loop b.ifMerge
  · cases hSuccs : forwardSuccs cfg fuel i with
    | error f =>
      rw [hSuccs] at h
      exact nomatch h
    | ok succs =>
      obtain ⟨s1, s2⟩ := succs
      rw [hSuccs] at h
      change (if s1 = cfgInvalid ∨ s2 = cfgInvalid then _ else _) = _ at h
      split at h
      · cases h
        exact hg b .linear b.ifMerge
      · cases hMerge : firstCommon cfg fuel s1 s2 with
        | error f =>
          rw [hMerge] at h
          exact nomatch h
        | ok merge =>
          rw [hMerge] at h
          change (if merge = cfgInvalid then _ else _) = _ at h
          split at h
          · cases h
            exact hg b .unstructured b.ifMerge
          · cases h
            exact hg b _ merge

theorem mapM_keeps {β : Type} (g : CfgBlock → β)
    (hg : ∀ b k m, g { b with regionKind := k, ifMerge := m } = g b) :
    ∀ (l : List (CfgBlock × Nat)) (bs : List CfgBlock),
      l.mapM (fun (b, i) => regionOf cfg fuel i b) = .ok bs → bs.map g = l.map (g ·.1) := by
  intro l
  induction l with
  | nil =>
    intro bs h
    cases h
    rfl
  | cons p l ih =>
    intro bs h
    obtain ⟨block, i⟩ := p
    rw [List.mapM_cons] at h
    dsimp only at h
    cases hHead : regionOf cfg fuel i block with
    | error f =>
      rw [hHead] at h
      exact nomatch h
    | ok b =>
      rw [hHead] at h
      cases hTail : l.mapM (fun (b, i) => regionOf cfg fuel i b) with
      | error f =>
        rw [hTail] at h
        exact nomatch h
      | ok bs' =>
        rw [hTail] at h
        cases h
        rw [List.map_cons, List.map_cons, ih bs' hTail, regionOf_keeps g hg hHead]

/-- The pass keeps the edges and what the blocks record about dominance and loops. -/
theorem cfgClassifyRegions_keeps (h : cfgClassifyRegions cfg fuel = .ok cfg') :
    cfg'.edges = cfg.edges ∧ cfg'.switches = cfg.switches ∧ SameBlocks cfg cfg' := by
  unfold cfgClassifyRegions at h
  split at h
  · cases h
    exact ⟨rfl, rfl, .refl cfg⟩
  · cases hDetect : detectIrreducible cfg fuel with
    | error f =>
      rw [hDetect] at h
      exact nomatch h
    | ok irreducible =>
      rw [hDetect] at h
      cases irreducible with
      | true =>
        cases h
        refine ⟨rfl, rfl, SameBlocks.of_blocks_eq (fun g hg => ?_) rfl rfl⟩
        rw [List.map_map]
        exact List.map_congr_left fun b _ => hg b .unstructured b.ifMerge
      | false =>
        change (cfg.blocks.zipIdx.mapM (fun (b, i) => regionOf cfg fuel i b) >>= _) = _ at h
        cases hBlocks : cfg.blocks.zipIdx.mapM (fun (b, i) => regionOf cfg fuel i b) with
        | error f =>
          rw [hBlocks] at h
          exact nomatch h
        | ok blocks =>
          rw [hBlocks] at h
          cases h
          refine ⟨rfl, rfl, SameBlocks.of_blocks_eq (fun g hg => ?_) rfl rfl⟩
          have hFst : cfg.blocks.zipIdx.map (fun x => g x.1) =
              (cfg.blocks.zipIdx.map Prod.fst).map g := by
            rw [List.map_map]
            rfl
          rw [mapM_keeps g hg _ _ hBlocks, hFst, List.zipIdx_map_fst]

end Calynda.Decompiler
