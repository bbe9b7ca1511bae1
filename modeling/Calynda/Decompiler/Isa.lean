import Calynda.Decompiler.Ppc
import Mathlib.Logic.Function.Basic

/-!
# General purpose registers in the instruction set

Which general purpose registers an instruction word may write by the architecture, whether
`ppcDecode` knows the word or not, and what a step does to them.
-/

namespace Calynda.Decompiler

/-- The registers a call may change. -/
def volatileGprs : List Nat := [0, 3, 4, 5, 6, 7, 8, 9, 10, 11, 12]

def fieldD (w : BitVec 32) : Nat := ppcBits w 6 10

def fieldA (w : BitVec 32) : Nat := ppcBits w 11 15

/-- Loads of several registers from `first` on, with register 0 after 31. -/
def registersFrom (first count : Nat) : List Nat := (List.range count).map fun k => (first + k) % 32

/-- The registers that the words of primary opcode 31 write, by their extended opcode. -/
def gprWrites31 (w : BitVec 32) : List Nat :=
  match ppcBits w 21 30 with
  | 19 | 20 | 23 | 83 | 87 | 279 | 310 | 339 | 343 | 371 | 534 | 595 | 659 | 790 => [fieldD w]
  | 24 | 26 | 28 | 60 | 124 | 284 | 316 | 412 | 444 | 476 | 536 | 792 | 824 | 922 | 954 => [fieldA w]
  | 55 | 119 | 311 | 375 => [fieldD w, fieldA w]
  | 183 | 247 | 439 | 567 | 631 | 695 | 759 => [fieldA w]
  | 533 => List.range 32
  | 597 =>
    let bytes := ppcBits w 16 20
    registersFrom (fieldD w) (if bytes = 0 then 8 else (bytes + 3) / 4)
  | _ =>
    -- the forms with an overflow bit in front of their opcode
    match ppcBits w 22 30 with
    | 8 | 10 | 11 | 40 | 75 | 104 | 136 | 138 | 200 | 202 | 232 | 234 | 235 | 266 | 459 | 491 =>
      [fieldD w]
    | _ => []

/-- The registers that the words of primary opcode 4 write: the base of the indexed accesses with
update. -/
def gprWrites4 (w : BitVec 32) : List Nat :=
  match ppcBits w 25 30 with
  | 38 | 39 => [fieldA w]
  | _ => []

/-- The registers that a word may write. -/
def gprWrites (w : BitVec 32) : List Nat :=
  match ppcBits w 0 5 with
  | 4 => gprWrites4 w
  | 7 | 8 | 12 | 13 | 14 | 15 => [fieldD w]
  | 16 | 18 | 19 => if ppcBits w 31 31 = 1 then volatileGprs else []
  | 17 => volatileGprs
  | 20 | 21 | 23 | 24 | 25 | 26 | 27 | 28 | 29 => [fieldA w]
  | 31 => gprWrites31 w
  | 32 | 34 | 40 | 42 => [fieldD w]
  | 33 | 35 | 41 | 43 => [fieldD w, fieldA w]
  | 37 | 39 | 45 | 49 | 51 | 53 | 55 | 57 | 61 => [fieldA w]
  | 46 => registersFrom (fieldD w) (32 - fieldD w)
  | _ => []

/-- The contents of the general purpose registers. -/
abbrev Gprs := Nat → BitVec 32

/-- The base of an address or of `addi` and `addis`: register 0 stands for zero. -/
def Gprs.base (g : Gprs) (r : Nat) : BitVec 32 := if r = 0 then 0 else g r

/-- What a step with the word `w` may do to the registers: the three immediate operations have one
result, and every other word leaves the registers alone that it does not write. -/
def GprStep (w : BitVec 32) (g g' : Gprs) : Prop :=
  let simm := ppcSext (ppcBits w 16 31) 16
  match ppcBits w 0 5 with
  | 14 => g' = Function.update g (fieldD w) (g.base (fieldA w) + simm)
  | 15 => g' = Function.update g (fieldD w) (g.base (fieldA w) + simm <<< 16)
  | 24 => g' = Function.update g (fieldA w) (g (fieldD w) ||| BitVec.ofNat 32 (ppcBits w 16 31))
  | _ => ∀ r, r ∉ gprWrites w → g' r = g r

/-- A step writes nothing but the registers of its word. -/
theorem GprStep.frame {w : BitVec 32} {g g' : Gprs} (h : GprStep w g g') {r : Nat}
    (hr : r ∉ gprWrites w) : g' r = g r := by
  unfold GprStep at h
  dsimp only at h
  split at h
  case h_4 => exact h r hr
  all_goals
    rename_i hPrimary
    have hNe : r ≠ _ := List.ne_of_not_mem_cons (by rw [gprWrites, hPrimary] at hr; exact hr)
    rw [h, Function.update_of_ne hNe]

end Calynda.Decompiler
