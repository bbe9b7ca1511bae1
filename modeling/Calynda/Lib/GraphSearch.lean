import Mathlib.Data.List.Nodup
import Mathlib.Data.Nat.Basic
import Mathlib.Logic.Relation

/-!
# Searching graphs

What a depth-first and a breadth-first search keep while they run: the vertices that have been met
are reachable, and from those that have been left no edge leads to a vertex that has not been met.
A breadth-first search takes the vertices in the order of their distances.
-/

namespace Calynda.Lib

variable {V : Type*} {Edge : V → V → Prop} {start b : V} {stack queue rest fresh : List V}

/-! ## Depth first -/

/-- A search from `start` has marked some vertices and has others on its stack. -/
structure Visiting (Edge : V → V → Prop) (start : V) (marked : V → Prop) (stack : List V) :
    Prop where
  begun : marked start ∨ start ∈ stack
  reached : ∀ v, marked v ∨ v ∈ stack → Relation.ReflTransGen Edge start v
  closed : ∀ v w, marked v → Edge v w → marked w ∨ w ∈ stack

namespace Visiting

variable {marked marked' : V → Prop}

theorem init (hNone : ∀ v, ¬marked v) : Visiting Edge start marked [start] where
  begun := Or.inr (List.mem_singleton_self start)
  reached := by
    rintro v (hMarked | hStack)
    · exact absurd hMarked (hNone v)
    · rw [List.mem_singleton.mp hStack]
  closed := fun v _ hMarked => absurd hMarked (hNone v)

/-- A marked vertex is taken from the stack. -/
theorem skip (h : Visiting Edge start marked (b :: rest)) (hMarked : marked b) :
    Visiting Edge start marked rest where
  begun := h.begun.elim Or.inl fun hStack => (List.mem_cons.mp hStack).elim
    (fun hEq => Or.inl (hEq ▸ hMarked)) Or.inr
  reached := fun v hv => h.reached v (hv.imp_right (List.mem_cons_of_mem b))
  closed := fun v w hv hEdge => (h.closed v w hv hEdge).elim Or.inl fun hStack =>
    (List.mem_cons.mp hStack).elim (fun hEq => Or.inl (hEq ▸ hMarked)) Or.inr

/-- The top of the stack is marked, and its successors that are not take its place. -/
theorem visit (h : Visiting Edge start marked (b :: rest))
    (hMarked : ∀ v, marked' v ↔ v = b ∨ marked v)
    (hStack : ∀ v, v ∈ stack ↔ v ∈ rest ∨ Edge b v ∧ ¬marked' v) :
    Visiting Edge start marked' stack := by
  have hTop : Relation.ReflTransGen Edge start b := h.reached b (Or.inr List.mem_cons_self)
  have hKept : ∀ v, marked v ∨ v ∈ b :: rest → marked' v ∨ v ∈ stack := by
    rintro v (hOld | hOld)
    · exact Or.inl ((hMarked v).mpr (Or.inr hOld))
    · rcases List.mem_cons.mp hOld with rfl | hRest
      · exact Or.inl ((hMarked v).mpr (Or.inl rfl))
      · exact Or.inr ((hStack v).mpr (Or.inl hRest))
  refine ⟨hKept start h.begun, ?_, ?_⟩
  · rintro v (hNow | hNow)
    · rcases (hMarked v).mp hNow with rfl | hOld
      · exact hTop
      · exact h.reached v (Or.inl hOld)
    · rcases (hStack v).mp hNow with hRest | ⟨hEdge, -⟩
      · exact h.reached v (Or.inr (List.mem_cons_of_mem b hRest))
      · exact hTop.tail hEdge
  · intro v w hNow hEdge
    rcases (hMarked v).mp hNow with rfl | hOld
    · by_cases hDone : marked' w
      · exact Or.inl hDone
      · exact Or.inr ((hStack w).mpr (Or.inr ⟨hEdge, hDone⟩))
    · exact hKept w (h.closed v w hOld hEdge)

/-- A search with nothing left on its stack has marked what is reachable. -/
theorem marked_iff (h : Visiting Edge start marked []) (v : V) :
    marked v ↔ Relation.ReflTransGen Edge start v := by
  constructor
  · exact fun hMarked => h.reached v (Or.inl hMarked)
  · intro hReach
    induction hReach with
    | refl => exact h.begun.resolve_right List.not_mem_nil
    | tail _ hEdge ih => exact (h.closed _ _ ih hEdge).resolve_right List.not_mem_nil

end Visiting

/-! ## Breadth first -/

/-- `v` is the end of a walk of so many edges. -/
inductive WalkTo (Edge : V → V → Prop) (start : V) : Nat → V → Prop where
  | zero : WalkTo Edge start 0 start
  | step {n : Nat} {v w : V} : WalkTo Edge start n v → Edge v w → WalkTo Edge start (n + 1) w

theorem WalkTo.reaches {n : Nat} {v : V} (h : WalkTo Edge start n v) :
    Relation.ReflTransGen Edge start v := by
  induction h with
  | zero => exact .refl
  | step _ hEdge ih => exact ih.tail hEdge

theorem exists_walkTo {v : V} (h : Relation.ReflTransGen Edge start v) :
    ∃ n, WalkTo Edge start n v := by
  induction h with
  | refl => exact ⟨0, .zero⟩
  | tail _ hEdge ih =>
    obtain ⟨n, hWalk⟩ := ih
    exact ⟨n + 1, hWalk.step hEdge⟩

/-- A search from `start` for a goal has seen vertices at their levels and has some in its queue. -/
structure Frontier (Edge : V → V → Prop) (start : V) (goal seen : V → Prop) (level : V → Nat)
    (queue : List V) : Prop where
  begun : seen start ∧ level start = 0
  walk : ∀ v, seen v → WalkTo Edge start (level v) v
  queued : ∀ v ∈ queue, seen v
  nodup : queue.Nodup
  sorted : queue.Pairwise fun u v => level u ≤ level v ∧ level v ≤ level u + 1
  left : ∀ v, seen v → v ∉ queue → ¬goal v ∧ (∀ u ∈ queue, level v ≤ level u) ∧
    ∀ w, Edge v w → seen w ∧ level w ≤ level v + 1

namespace Frontier

variable {goal seen seen' : V → Prop} {level : V → Nat}

theorem init (hSeen : ∀ v, seen v ↔ v = start) :
    Frontier Edge start goal seen (fun _ => 0) [start] where
  begun := ⟨(hSeen start).mpr rfl, rfl⟩
  walk := by
    intro v hv
    rw [(hSeen v).mp hv]
    exact .zero
  queued := fun v hv => (hSeen v).mpr (List.mem_singleton.mp hv)
  nodup := List.nodup_singleton start
  sorted := List.pairwise_singleton _ start
  left := fun v hv hOut => absurd (List.mem_singleton.mpr ((hSeen v).mp hv)) hOut

/-- Every walk either has stayed within what has been left, or it is not shorter than the level of
some vertex in the queue. -/
theorem walk_cases (h : Frontier Edge start goal seen level queue) {m : Nat} {v : V}
    (hWalk : WalkTo Edge start m v) :
    (seen v ∧ v ∉ queue ∧ level v ≤ m) ∨ ∃ x ∈ queue, level x ≤ m := by
  have hIn : ∀ w n, seen w → level w ≤ n →
      (seen w ∧ w ∉ queue ∧ level w ≤ n) ∨ ∃ x ∈ queue, level x ≤ n := by
    intro w n hSeen hLe
    by_cases hQueue : w ∈ queue
    · exact Or.inr ⟨w, hQueue, hLe⟩
    · exact Or.inl ⟨hSeen, hQueue, hLe⟩
  induction hWalk with
  | zero => exact hIn start 0 h.begun.1 (Nat.le_of_eq h.begun.2)
  | @step n v w _ hEdge ih =>
    rcases ih with ⟨hSeen, hOut, hLe⟩ | ⟨x, hx, hLe⟩
    · obtain ⟨hNext, hLevel⟩ := (h.left v hSeen hOut).2.2 w hEdge
      exact hIn w (n + 1) hNext (Nat.le_trans hLevel (Nat.succ_le_succ hLe))
    · exact Or.inr ⟨x, hx, Nat.le_trans hLe (Nat.le_succ n)⟩

/-- The head of the queue is the nearest goal if it is one. -/
theorem nearest (h : Frontier Edge start goal seen level (b :: rest)) :
    ∃ n, WalkTo Edge start n b ∧ ∀ m c, goal c → WalkTo Edge start m c → n ≤ m := by
  refine ⟨level b, h.walk b (h.queued b List.mem_cons_self), fun m c hGoal hWalk => ?_⟩
  rcases h.walk_cases hWalk with ⟨hSeen, hOut, -⟩ | ⟨x, hx, hLe⟩
  · exact absurd hGoal (h.left c hSeen hOut).1
  · rcases List.mem_cons.mp hx with rfl | hRest
    · exact hLe
    · exact Nat.le_trans ((List.pairwise_cons.mp h.sorted).1 x hRest).1 hLe

theorem no_goal (h : Frontier Edge start goal seen level []) {m : Nat} {c : V}
    (hWalk : WalkTo Edge start m c) : ¬goal c := by
  rcases h.walk_cases hWalk with ⟨hSeen, hOut, -⟩ | ⟨x, hx, -⟩
  · exact (h.left c hSeen hOut).1
  · exact absurd hx List.not_mem_nil

/-- The head of the queue is left, and its successors that have not been seen join the queue. -/
theorem visit [DecidableEq V] (h : Frontier Edge start goal seen level (b :: rest))
    (hGoal : ¬goal b) (hNodup : fresh.Nodup) (hFresh : ∀ v, v ∈ fresh ↔ Edge b v ∧ ¬seen v)
    (hSeen : ∀ v, seen' v ↔ seen v ∨ v ∈ fresh) :
    Frontier Edge start goal seen' (fun v => if v ∈ fresh then level b + 1 else level v)
      (rest ++ fresh) := by
  obtain ⟨hOut, hRestNodup⟩ := List.nodup_cons.mp h.nodup
  obtain ⟨hHead, hRestSorted⟩ := List.pairwise_cons.mp h.sorted
  have hTop : seen b := h.queued b List.mem_cons_self
  have hOld : ∀ v, seen v → (if v ∈ fresh then level b + 1 else level v) = level v :=
    fun v hv => if_neg fun hMem => ((hFresh v).mp hMem).2 hv
  have hNew : ∀ v ∈ fresh, (if v ∈ fresh then level b + 1 else level v) = level b + 1 :=
    fun v hv => if_pos hv
  have hRest : ∀ v ∈ rest, seen v := fun v hv => h.queued v (List.mem_cons_of_mem b hv)
  -- what has been seen lies at most one level below the vertex that is left
  have hBelow : ∀ v, seen v → level v ≤ level b + 1 := by
    intro v hv
    by_cases hQueue : v ∈ b :: rest
    · rcases List.mem_cons.mp hQueue with rfl | hMem
      · exact Nat.le_succ _
      · exact (hHead v hMem).2
    · exact Nat.le_trans ((h.left v hv hQueue).2.1 b List.mem_cons_self) (Nat.le_succ _)
  constructor
  · exact ⟨(hSeen start).mpr (Or.inl h.begun.1), (hOld start h.begun.1).trans h.begun.2⟩
  · intro v hv
    rcases (hSeen v).mp hv with hBefore | hNow
    · rw [hOld v hBefore]
      exact h.walk v hBefore
    · rw [hNew v hNow]
      exact (h.walk b hTop).step ((hFresh v).mp hNow).1
  · intro v hv
    rcases List.mem_append.mp hv with hMem | hMem
    · exact (hSeen v).mpr (Or.inl (hRest v hMem))
    · exact (hSeen v).mpr (Or.inr hMem)
  · refine List.Nodup.append hRestNodup hNodup fun v hMem hNow => ?_
    exact ((hFresh v).mp hNow).2 (hRest v hMem)
  · rw [List.pairwise_append]
    refine ⟨?_, ?_, ?_⟩
    · refine hRestSorted.imp_of_mem fun {u v} hu hv hLe => ?_
      rw [hOld u (hRest u hu), hOld v (hRest v hv)]
      exact hLe
    · refine List.Pairwise.imp_of_mem (R := fun _ _ => True) (fun {u v} hu hv _ => ?_)
        (List.pairwise_of_forall fun _ _ => trivial)
      rw [hNew u hu, hNew v hv]
      exact ⟨le_rfl, Nat.le_succ _⟩
    · intro u hu v hv
      rw [hOld u (hRest u hu), hNew v hv]
      exact ⟨(hHead u hu).2, Nat.succ_le_succ (hHead u hu).1⟩
  · intro v hv hAway
    rw [List.mem_append, not_or] at hAway
    have hBefore : seen v := ((hSeen v).mp hv).resolve_right hAway.2
    have hStep : ¬goal v ∧ level v ≤ level b ∧ ∀ w, Edge v w → seen' w ∧
        (if w ∈ fresh then level b + 1 else level w) ≤ level v + 1 := by
      by_cases hEq : v = b
      · subst hEq
        refine ⟨hGoal, le_rfl, fun w hEdge => ?_⟩
        by_cases hKnown : seen w
        · rw [hOld w hKnown]
          exact ⟨(hSeen w).mpr (Or.inl hKnown), hBelow w hKnown⟩
        · have hNow := (hFresh w).mpr ⟨hEdge, hKnown⟩
          rw [hNew w hNow]
          exact ⟨(hSeen w).mpr (Or.inr hNow), le_rfl⟩
      · have hQueue : v ∉ b :: rest := by
          rw [List.mem_cons, not_or]
          exact ⟨hEq, hAway.1⟩
        obtain ⟨hNot, hLevels, hEdges⟩ := h.left v hBefore hQueue
        refine ⟨hNot, hLevels b List.mem_cons_self, fun w hEdge => ?_⟩
        obtain ⟨hKnown, hLevel⟩ := hEdges w hEdge
        rw [hOld w hKnown]
        exact ⟨(hSeen w).mpr (Or.inl hKnown), hLevel⟩
    obtain ⟨hNot, hLevel, hEdges⟩ := hStep
    rw [hOld v hBefore]
    refine ⟨hNot, fun u hu => ?_, hEdges⟩
    rcases List.mem_append.mp hu with hMem | hMem
    · rw [hOld u (hRest u hMem)]
      exact Nat.le_trans hLevel (hHead u hMem).1
    · rw [hNew u hMem]
      exact Nat.le_trans hLevel (Nat.le_succ _)

end Frontier

end Calynda.Lib
