import Mathlib.Order.Bounds.Basic

/-!
# First hits

A ray enters a closed interval of the line at its least parameter, or leaves it at the greatest one
if it has started inside. Of many candidates a scan with a strict test keeps the first least one.
-/

namespace Calynda.Lib

section Interval

variable {K : Type*} [Zero K] [LinearOrder K]

/-- The least parameter of the line inside if it is not negative, and the greatest one otherwise. -/
structure Enters (S : Set K) (t : K) : Prop where
  nonneg : 0 ≤ t
  bound : IsLeast S t ∨ IsGreatest S t ∧ ∃ u, IsLeast S u ∧ u < 0

/-- A ray hits exactly where some parameter from zero on is inside. -/
structure FirstHit (S : Set K) (result : Option K) : Prop where
  isSome_iff : result.isSome ↔ ∃ t ∈ S, 0 ≤ t
  enters : ∀ t, result = some t → Enters S t

variable {S : Set K} {t u lo hi : K} {result : Option K}

theorem Enters.mem (h : Enters S t) : t ∈ S :=
  h.bound.elim (fun hLeast => hLeast.1) fun hGreatest => hGreatest.1.1

theorem Enters.unique (hT : Enters S t) (hU : Enters S u) : t = u := by
  rcases hT.bound with hLeast | ⟨hGreatest, v, hLeast, hNeg⟩
  · rcases hU.bound with hLeast' | ⟨-, v, hLeast', hNeg⟩
    · exact hLeast.unique hLeast'
    · exact absurd hNeg (hLeast'.unique hLeast ▸ hT.nonneg).not_gt
  · rcases hU.bound with hLeast' | ⟨hGreatest', -⟩
    · exact absurd hNeg (hLeast.unique hLeast' ▸ hU.nonneg).not_gt
    · exact hGreatest.unique hGreatest'

theorem FirstHit.eq_some_iff (h : FirstHit S result) : result = some t ↔ Enters S t := by
  constructor
  · exact h.enters t
  · intro hEnters
    obtain ⟨u, hU⟩ := Option.isSome_iff_exists.mp (h.isSome_iff.mpr ⟨t, hEnters.mem, hEnters.nonneg⟩)
    rw [hU, (h.enters u hU).unique hEnters]

/-- What a ray hits of the parameters between two bounds. -/
def firstOf (lo hi : K) : Option K := if hi < 0 then none else some (if lo ≥ 0 then lo else hi)

theorem firstHit_empty : FirstHit (∅ : Set K) none := by
  refine ⟨iff_of_false Bool.false_ne_true ?_, fun t hT => ?_⟩
  · rintro ⟨t, hT, -⟩
    exact hT
  · cases hT

theorem firstHit_interval (h : lo ≤ hi) (hS : ∀ t, t ∈ S ↔ lo ≤ t ∧ t ≤ hi) :
    FirstHit S (firstOf lo hi) := by
  have hLeast : IsLeast S lo := ⟨(hS lo).mpr ⟨le_rfl, h⟩, fun t hT => ((hS t).mp hT).1⟩
  have hGreatest : IsGreatest S hi := ⟨(hS hi).mpr ⟨h, le_rfl⟩, fun t hT => ((hS t).mp hT).2⟩
  unfold firstOf
  split_ifs with hBehind hAhead
  · refine ⟨iff_of_false Bool.false_ne_true ?_, fun t hT => by cases hT⟩
    rintro ⟨t, hT, hNonneg⟩
    exact absurd (((hS t).mp hT).2.trans_lt hBehind) hNonneg.not_gt
  · refine ⟨iff_of_true rfl ⟨lo, hLeast.1, hAhead⟩, fun t hT => ?_⟩
    cases hT
    exact ⟨hAhead, Or.inl hLeast⟩
  · refine ⟨iff_of_true rfl ⟨hi, hGreatest.1, not_lt.mp hBehind⟩, fun t hT => ?_⟩
    cases hT
    exact ⟨not_lt.mp hBehind, Or.inr ⟨hGreatest, lo, hLeast, not_le.mp hAhead⟩⟩

end Interval

section Scan

variable {K N : Type*} [LinearOrder K]

/-- The least value so far and where it has been found, after candidate `i`. -/
def scanStep (f : Nat → Option (K × N)) (st : K × Option (Nat × N)) (i : Nat) :
    K × Option (Nat × N) :=
  match f i with
  | none => st
  | some (t, n) => if t < st.1 then (t, some (i, n)) else st

def scan (f : Nat → Option (K × N)) (bound : K) (count : Nat) : K × Option (Nat × N) :=
  (List.range count).foldl (scanStep f) (bound, none)

/-- The first candidate below the bound of which none is less. -/
structure FirstLeast (f : Nat → Option (K × N)) (bound : K) (count i : Nat) (t : K) (n : N) :
    Prop where
  found : f i = some (t, n)
  lt : i < count
  below : t < bound
  least : ∀ j < count, ∀ u m, f j = some (u, m) → t ≤ u
  first : ∀ j < i, ∀ u m, f j = some (u, m) → t < u

/-- What a scan has found: nothing if no candidate is below the bound, or the first least one. -/
inductive Scanned (f : Nat → Option (K × N)) (bound : K) (count : Nat) :
    K × Option (Nat × N) → Prop
  | nothing (h : ∀ j < count, ∀ u m, f j = some (u, m) → bound ≤ u) :
      Scanned f bound count (bound, none)
  | candidate {i : Nat} {t : K} {n : N} (h : FirstLeast f bound count i t n) :
      Scanned f bound count (t, some (i, n))

variable {f : Nat → Option (K × N)} {bound : K} {count : Nat}

theorem Scanned.step {st : K × Option (Nat × N)} (h : Scanned f bound count st) :
    Scanned f bound (count + 1) (scanStep f st count) := by
  have hSplit : ∀ {j}, j < count + 1 → j < count ∨ j = count := fun hJ =>
    (Nat.lt_succ_iff_lt_or_eq).mp hJ
  cases hNext : f count with
  | none =>
    have hStep : scanStep f st count = st := by rw [scanStep, hNext]
    have hOld : ∀ {j}, j < count + 1 → ∀ {u m}, f j = some (u, m) → j < count := by
      intro j hJ u m hF
      refine (hSplit hJ).resolve_right fun hEq => ?_
      rw [hEq, hNext] at hF
      cases hF
    rw [hStep]
    cases h with
    | nothing h => exact .nothing fun j hJ u m hF => h j (hOld hJ hF) u m hF
    | candidate h =>
      exact .candidate ⟨h.found, h.lt.trans (Nat.lt_succ_self _), h.below,
        fun j hJ u m hF => h.least j (hOld hJ hF) u m hF, h.first⟩
  | some p =>
    obtain ⟨t, n⟩ := p
    have hStep : scanStep f st count = if t < st.1 then (t, some (count, n)) else st := by
      rw [scanStep, hNext]
    have hNew : ∀ {u m}, f count = some (u, m) → u = t := by
      intro u m hF
      rw [hNext] at hF
      exact (congrArg Prod.fst (Option.some.inj hF)).symm
    rw [hStep]
    cases h with
    | nothing h =>
      split_ifs with hLess
      · refine .candidate ⟨hNext, Nat.lt_succ_self _, hLess, ?_, fun j hJ u m hF => hLess.trans_le
          (h j hJ u m hF)⟩
        intro j hJ u m hF
        rcases hSplit hJ with hOld | rfl
        · exact hLess.le.trans (h j hOld u m hF)
        · exact (hNew hF).ge
      · refine .nothing fun j hJ u m hF => ?_
        rcases hSplit hJ with hOld | rfl
        · exact h j hOld u m hF
        · exact hNew hF ▸ not_lt.mp hLess
    | candidate h =>
      split_ifs with hLess
      · refine .candidate ⟨hNext, Nat.lt_succ_self _, hLess.trans h.below, ?_,
          fun j hJ u m hF => hLess.trans_le (h.least j hJ u m hF)⟩
        intro j hJ u m hF
        rcases hSplit hJ with hOld | rfl
        · exact hLess.le.trans (h.least j hOld u m hF)
        · exact (hNew hF).ge
      · refine .candidate ⟨h.found, h.lt.trans (Nat.lt_succ_self _), h.below, ?_, h.first⟩
        intro j hJ u m hF
        rcases hSplit hJ with hOld | rfl
        · exact h.least j hOld u m hF
        · exact hNew hF ▸ not_lt.mp hLess

theorem scan_scanned (f : Nat → Option (K × N)) (bound : K) (count : Nat) :
    Scanned f bound count (scan f bound count) := by
  induction count with
  | zero => exact .nothing fun j hJ => absurd hJ (Nat.not_lt_zero j)
  | succ count ih =>
    have hSucc : scan f bound (count + 1) = scanStep f (scan f bound count) count := by
      rw [scan, List.range_succ, List.foldl_append]
      rfl
    rw [hSucc]
    exact ih.step

end Scan

end Calynda.Lib
