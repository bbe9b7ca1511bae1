import Calynda.CEmit.Emit
import Mathlib.Algebra.Group.Int.Defs

/-!
# Words of the target

`CalyndaRtWord` is `uintptr_t`, 32 bits wide on the Wii, so C reads every word as an
unsigned number. A word carries the tag of what was put into it, float bits or anything
else; the tag is not a part of the program.
-/

namespace Calynda

inductive WordTag where
  | integer | float
  deriving DecidableEq, Repr

structure CalyndaRtWord where
  bits : BitVec 32
  tag : WordTag := .integer
  deriving DecidableEq, Repr

def CalyndaRtWord.zero : CalyndaRtWord := { bits := 0 }

/-- The `int` that a C comparison yields, as a word. -/
def boolBits (b : Bool) : BitVec 32 := if b then 1 else 0

/-! ## Operators -/

/-- The C operators on two words: unsigned, and undefined for a division by zero and for a
shift by the width or more. `||` and `&&` do not evaluate both operands and are not here. -/
def cBinary (operator : CBinaryOperator) (a b : BitVec 32) : Option (BitVec 32) :=
  match operator with
  | .logicalOr | .logicalAnd => none
  | .bitOr => some (a ||| b)
  | .bitAnd => some (a &&& b)
  | .bitXor => some (a ^^^ b)
  | .equal => some (boolBits (a == b))
  | .notEqual => some (boolBits (a != b))
  | .less => some (boolBits (a.ult b))
  | .greater => some (boolBits (b.ult a))
  | .lessEqual => some (boolBits (a.ule b))
  | .greaterEqual => some (boolBits (b.ule a))
  | .shiftLeft => if b.toNat < 32 then some (a <<< b.toNat) else none
  | .shiftRight => if b.toNat < 32 then some (a >>> b.toNat) else none
  | .add => some (a + b)
  | .subtract => some (a - b)
  | .multiply => some (a * b)
  | .divide => if b = 0 then none else some (a / b)
  | .modulo => if b = 0 then none else some (a % b)

/-- An operator as it is printed: the `~` after it applies to the right operand. -/
def CInfix.apply (i : CInfix) (a b : BitVec 32) : Option (BitVec 32) :=
  cBinary i.operator a (if i.complement then ~~~b else b)

/-! ## Integer constants -/

def digitValue (c : Char) : Option Nat :=
  if '0' ≤ c ∧ c ≤ '9' then some (c.toNat - '0'.toNat)
  else if 'a' ≤ c ∧ c ≤ 'f' then some (c.toNat - 'a'.toNat + 10)
  else if 'A' ≤ c ∧ c ≤ 'F' then some (c.toNat - 'A'.toNat + 10)
  else none

/-- The value of digits that follow `acc`. -/
def readDigits (base : Nat) : Nat → List Char → Option Nat
  | acc, [] => some acc
  | acc, c :: cs =>
    match digitValue c with
    | some d => if d < base then readDigits base (acc * base + d) cs else none
    | none => none

/-- The number that a literal stands for in the source: `tokenizer_scan_number` knows the
prefixes of binary, octal and hexadecimal digits and reads all else as decimal. -/
def integerLiteralValue (text : String) : Option Nat :=
  match text.toList with
  | '0' :: 'b' :: ds | '0' :: 'B' :: ds => readDigits 2 0 ds
  | '0' :: 'o' :: ds | '0' :: 'O' :: ds => readDigits 8 0 ds
  | '0' :: 'x' :: ds | '0' :: 'X' :: ds => readDigits 16 0 ds
  | ds => readDigits 10 0 ds

/-- The number that a C compiler reads in the same text: digits after a zero are octal, and
there is no prefix `0o`. The type of the constant has at most 64 bits. -/
def cIntegerConstant (text : String) : Option Nat :=
  (match text.toList with
    | '0' :: 'b' :: ds | '0' :: 'B' :: ds => readDigits 2 0 ds
    | '0' :: 'x' :: ds | '0' :: 'X' :: ds => readDigits 16 0 ds
    | '0' :: ds => readDigits 8 0 ds
    | ds => readDigits 10 0 ds).filter (· < 2 ^ 64)

/-- The word of an integer literal of the source whose value is an `int32`. -/
def int32Literal (text : String) : Option (BitVec 32) :=
  ((integerLiteralValue text).filter (· < 2 ^ 31)).map (BitVec.ofNat 32)

end Calynda
