import Calynda.Lib.FlowGraph
import Calynda.Lib.ListArray

/-!
# Control-flow graphs

The blocks, edges and recovered switches of one function. Blocks are known by their index;
`cfgInvalid` is the index of no block and stands for the target of a return or of an
unresolved indirect branch.
-/

namespace Calynda.Decompiler

def cfgInvalid : Nat := 0xFFFFFFFF

inductive CfgEdgeKind where
  | fallthrough
  | uncond
  | condTaken
  | condNotTaken
  | switchCase
  | switchDefault
  | indirectUnknown
  | ret
  deriving DecidableEq, Repr

inductive CfgRegionKind where
  | linear
  | ifThen
  | ifElse
  | loop
  | switch
  | unstructured
  deriving DecidableEq, Repr

structure CfgEdge where
  src : Nat
  dst : Nat
  kind : CfgEdgeKind
  caseValue : Int
  deriving DecidableEq, Repr

structure CfgBlock where
  startVaddr : BitVec 32
  endVaddr : BitVec 32
  insnCount : Nat
  idom : Nat
  isLoopHeader : Bool
  isLoopExit : Bool
  loopDepth : BitVec 16
  regionKind : CfgRegionKind
  ifMerge : Nat
  deriving DecidableEq, Repr

/-- Where a block lies. -/
def CfgBlock.extent (b : CfgBlock) : BitVec 32 × BitVec 32 × Nat :=
  (b.startVaddr, b.endVaddr, b.insnCount)

structure CfgSwitchCase where
  caseValue : Nat
  targetVaddr : BitVec 32
  deriving DecidableEq, Repr

structure CfgSwitch where
  blockIndex : Nat
  tableVaddr : BitVec 32
  defaultVaddr : BitVec 32
  cases : List CfgSwitchCase
  deriving DecidableEq, Repr

structure Cfg where
  blocks : List CfgBlock
  edges : List CfgEdge
  switches : List CfgSwitch
  entryBlock : Nat
  isIrreducible : Bool
  deriving DecidableEq, Repr

namespace Cfg

/-- The entry and the ends of the edges name blocks, and `cfgInvalid` names none. -/
structure WellFormed (cfg : Cfg) : Prop where
  blocks_le : cfg.blocks.length ≤ cfgInvalid
  entry_lt : cfg.entryBlock < cfg.blocks.length
  src_lt : ∀ e ∈ cfg.edges, e.src < cfg.blocks.length
  dst_lt : ∀ e ∈ cfg.edges, e.dst = cfgInvalid ∨ e.dst < cfg.blocks.length

/-- The graph of the edges that stay in the function. -/
def graph (cfg : Cfg) : FlowGraph Nat where
  Edge p b := ∃ e ∈ cfg.edges, e.src = p ∧ e.dst = b ∧ e.dst ≠ cfgInvalid
  entry := cfg.entryBlock

variable {cfg : Cfg}

theorem WellFormed.edge_lt (hWf : cfg.WellFormed) {p b : Nat} (h : cfg.graph.Edge p b) :
    p < cfg.blocks.length ∧ b < cfg.blocks.length := by
  obtain ⟨e, he, rfl, rfl, hDst⟩ := h
  exact ⟨hWf.src_lt e he, (hWf.dst_lt e he).resolve_left hDst⟩

theorem WellFormed.reachable_lt (hWf : cfg.WellFormed) {b : Nat} (h : cfg.graph.Reachable b) :
    b < cfg.blocks.length :=
  FlowGraph.Reachable.closed (S := (· < cfg.blocks.length)) hWf.entry_lt (fun _ _ _ hEdge => (hWf.edge_lt hEdge).2) h

theorem WellFormed.ne_invalid (hWf : cfg.WellFormed) {b : Nat} (h : b < cfg.blocks.length) :
    b ≠ cfgInvalid := by
  have := hWf.blocks_le
  omega

/-- The `idom` field of a block. -/
def idomOf (cfg : Cfg) (b : Nat) : Nat := (cfg.blocks.map (·.idom)).getD b cfgInvalid

/-- The `idom` fields are those of the graph of the edges: its entry for the entry, the
immediate dominator for every other block that is reachable, and else `cfgInvalid`. -/
structure HasIdoms (cfg : Cfg) : Prop where
  entry : cfg.idomOf cfg.entryBlock = cfg.entryBlock
  immediate : ∀ b, cfg.graph.Reachable b → b ≠ cfg.entryBlock →
    cfg.graph.IsImmediateDominator (cfg.idomOf b) b
  unreachable : ∀ b, ¬ cfg.graph.Reachable b → cfg.idomOf b = cfgInvalid

/-- `a` is `b` or lies on all paths to it; to a block that is not reached there are none, and
only the block itself counts. -/
def Dom (cfg : Cfg) (a b : Nat) : Prop := a = b ∨ cfg.graph.Reachable b ∧ cfg.graph.Dominates a b

/-- The `is_loop_header` field of a block. -/
def headerOf (cfg : Cfg) (b : Nat) : Bool := (cfg.blocks.map (·.isLoopHeader)).getD b false

/-- The `loop_depth` field of a block. -/
def loopDepthOf (cfg : Cfg) (b : Nat) : BitVec 16 := (cfg.blocks.map (·.loopDepth)).getD b 0

/-- Two graphs with the same blocks, edges and switches, whatever else their blocks record. -/
structure SameShape (cfg cfg' : Cfg) : Prop where
  edges : cfg'.edges = cfg.edges
  entry : cfg'.entryBlock = cfg.entryBlock
  extents : cfg'.blocks.map (·.extent) = cfg.blocks.map (·.extent)
  switches : cfg'.switches = cfg.switches

namespace SameShape

variable {cfg cfg' cfg'' : Cfg}

theorem refl (cfg : Cfg) : SameShape cfg cfg := ⟨rfl, rfl, rfl, rfl⟩

theorem trans (h : SameShape cfg cfg') (h' : SameShape cfg' cfg'') : SameShape cfg cfg'' :=
  ⟨h'.edges.trans h.edges, h'.entry.trans h.entry, h'.extents.trans h.extents,
    h'.switches.trans h.switches⟩

theorem graph (h : SameShape cfg cfg') : cfg'.graph = cfg.graph := by
  unfold Cfg.graph
  rw [h.edges, h.entry]

theorem length_blocks (h : SameShape cfg cfg') : cfg'.blocks.length = cfg.blocks.length := by
  simpa using congrArg List.length h.extents

theorem wellFormed (h : SameShape cfg cfg') (hWf : cfg.WellFormed) : cfg'.WellFormed where
  blocks_le := h.length_blocks ▸ hWf.blocks_le
  entry_lt := by
    rw [h.entry, h.length_blocks]
    exact hWf.entry_lt
  src_lt := by
    rw [h.edges, h.length_blocks]
    exact hWf.src_lt
  dst_lt := by
    rw [h.edges, h.length_blocks]
    exact hWf.dst_lt

end SameShape

end Cfg

end Calynda.Decompiler
