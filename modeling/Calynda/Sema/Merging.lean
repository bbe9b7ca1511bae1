import Calynda.Sema.CheckedType
import Calynda.Lib.PartialFold
import Mathlib.Data.Finset.Max

/-!
# Merging types

The types of several expressions are merged one after another: those of the return statements of
a block, and those of the elements of an array literal. Promotion is not associative, and a type
outside the checker hides what cannot be merged: where neither happens the order does not matter.
-/

namespace Calynda

open Calynda.Lib

/-! ## Checked types -/

/-- The checked types as the constructors of the checker build them. -/
inductive TypeForm where
  | invalid
  | void
  | null
  | external
  | value (primitive : AstPrimitiveType) (arrayDepth : Nat)
  | named (name : String) (genericArgCount arrayDepth : Nat)
  | typeParam (name : String)
  deriving DecidableEq

def TypeForm.checked : TypeForm → CheckedType
  | .invalid => tcCheckedTypeInvalid
  | .void => tcCheckedTypeVoid
  | .null => tcCheckedTypeNull
  | .external => tcCheckedTypeExternal
  | .value primitive arrayDepth => tcCheckedTypeValue primitive arrayDepth
  | .named name genericArgCount arrayDepth =>
    tcCheckedTypeNamed (some name) genericArgCount arrayDepth
  | .typeParam name => tcCheckedTypeTypeParam (some name)

/-- The primitive that an alias names. -/
def aliasOf : AstPrimitiveType → AstPrimitiveType
  | .byte => .uint8
  | .sbyte => .int8
  | .short => .int16
  | .int => .int32
  | .long => .int64
  | .ulong => .uint64
  | .uint => .uint32
  | .float => .float32
  | .double => .float64
  | primitive => primitive

/-- Two checked types are the same up to the aliases. -/
def SameType (a b : CheckedType) : Prop :=
  tcCheckedTypeEquals { a with primitive := aliasOf a.primitive }
    { b with primitive := aliasOf b.primitive } = true

/-- The types of the return statements of a block, or of the elements of an array literal, merged
in their order. -/
def mergeAll (merge : CheckedType → CheckedType → Option CheckedType) :
    List CheckedType → Option CheckedType := partialFold merge

/-- Merging the types in any other order fails alike and has the same type. -/
def MergesInAnyOrder (merge : CheckedType → CheckedType → Option CheckedType)
    (types : List TypeForm) : Prop :=
  ∀ types', types.Perm types' → Option.Rel SameType (mergeAll merge (types.map TypeForm.checked))
    (mergeAll merge (types'.map TypeForm.checked))

/-! ## Numbers -/

/-- A numeric type as promotion sees it: the aliases of the floating types count as integers. -/
inductive NumClass where
  | float64
  | float32
  | int (signed : Bool) (width : Nat)
  deriving DecidableEq

def numClass (p : AstPrimitiveType) : NumClass :=
  if p = .float64 then .float64
  else if p = .float32 then .float32
  else .int (tcPrimitiveIsSigned p) (tcPrimitiveWidth p)

namespace NumClass

def join : NumClass → NumClass → NumClass
  | .float64, _ => .float64
  | _, .float64 => .float64
  | .float32, _ => .float32
  | _, .float32 => .float32
  | .int s w, .int t v =>
    if s = t then .int s (max w v)
    else if max w v < 64 then .int true 64
    else .int false 64

/-- The primitive that promotion gives. -/
def prim : NumClass → AstPrimitiveType
  | .float64 => .float64
  | .float32 => .float32
  | .int true w => tcSignedPrimitiveForWidth w
  | .int false w => tcUnsignedPrimitiveForWidth w

def Valid : NumClass → Prop
  | .int _ w => w = 8 ∨ w = 16 ∨ w = 32 ∨ w = 64
  | _ => True

theorem join_self (c : NumClass) : c.join c = c := by
  cases c <;> simp [join]

theorem valid_join {a b : NumClass} (ha : a.Valid) (hb : b.Valid) : (a.join b).Valid := by
  cases a with
  | float64 => trivial
  | float32 => cases b <;> trivial
  | int s w =>
    cases b with
    | float64 => trivial
    | float32 => trivial
    | int t v =>
      by_cases hSign : s = t
      · rw [show (int s w).join (int t v) = int s (max w v) from if_pos hSign]
        rcases Nat.le_total w v with h | h
        · rw [Nat.max_eq_right h]
          exact hb
        · rw [Nat.max_eq_left h]
          exact ha
      · by_cases hWidth : max w v < 64
        · rw [show (int s w).join (int t v) = int true 64 by simp only [join, hSign, hWidth, if_false, if_true]]
          exact .inr (.inr (.inr rfl))
        · rw [show (int s w).join (int t v) = int false 64 by simp only [join, hSign, hWidth, if_false]]
          exact .inr (.inr (.inr rfl))

theorem numClass_prim {c : NumClass} (h : c.Valid) : numClass c.prim = c := by
  cases c with
  | float64 => rfl
  | float32 => rfl
  | int s w => cases s <;> rcases h with rfl | rfl | rfl | rfl <;> rfl

end NumClass

section Promotion

variable {p q : AstPrimitiveType}

theorem valid_numClass (hp : tcPrimitiveIsIntegral p = true) : (numClass p).Valid := by
  cases p <;> first | exact absurd hp (by decide) | simp [numClass, NumClass.Valid, tcPrimitiveWidth]

theorem promote_eq (hp : tcPrimitiveIsIntegral p = true) (hq : tcPrimitiveIsIntegral q = true) :
    tcPromoteNumericTypes (tcCheckedTypeValue p 0) (tcCheckedTypeValue q 0) =
      tcCheckedTypeValue ((numClass p).join (numClass q)).prim 0 := by
  have hNumeric : ∀ p, tcPrimitiveIsIntegral p = true →
      tcCheckedTypeIsNumeric (tcCheckedTypeValue p 0) = true := by
    intro p hp
    simp [tcCheckedTypeIsNumeric, tcCheckedTypeIsScalarValue, tcCheckedTypeValue, hp]
  unfold tcPromoteNumericTypes
  rw [hNumeric p hp, hNumeric q hq]
  simp only [Bool.not_true, Bool.or_self, Bool.false_eq_true, if_false, tcCheckedTypeValue,
    tcPrimitiveIsFloat]
  by_cases hp64 : p = .float64
  · simp [hp64, numClass, NumClass.join, NumClass.prim]
  · by_cases hq64 : q = .float64
    · by_cases hp32 : p = .float32 <;>
        simp [hp64, hq64, hp32, numClass, NumClass.join, NumClass.prim]
    · by_cases hp32 : p = .float32
      · by_cases hq32 : q = .float32 <;>
          simp [hq64, hp32, hq32, numClass, NumClass.join, NumClass.prim]
      · by_cases hq32 : q = .float32
        · simp [hp64, hp32, hq32, numClass, NumClass.join, NumClass.prim]
        · by_cases hSign : tcPrimitiveIsSigned p = tcPrimitiveIsSigned q
          · by_cases hs : tcPrimitiveIsSigned q = true <;>
              simp [hp64, hq64, hp32, hq32, numClass, NumClass.join, NumClass.prim, hSign, hs]
          · by_cases hWidth : max (tcPrimitiveWidth p) (tcPrimitiveWidth q) < 64
            · have hWidth' := hWidth
              rw [Nat.max_lt] at hWidth'
              simp [hp64, hq64, hp32, hq32, numClass, NumClass.join, NumClass.prim, hSign, hWidth',
                tcSignedPrimitiveForWidth]
            · simp [hp64, hq64, hp32, hq32, numClass, NumClass.join, NumClass.prim, hSign,
                hWidth, tcUnsignedPrimitiveForWidth]

/-- What merging makes of two numeric types. -/
def mergeNum (p q : AstPrimitiveType) : AstPrimitiveType :=
  if p = q then p else ((numClass p).join (numClass q)).prim

theorem numClass_mergeNum (hp : tcPrimitiveIsIntegral p = true)
    (hq : tcPrimitiveIsIntegral q = true) :
    numClass (mergeNum p q) = (numClass p).join (numClass q) := by
  unfold mergeNum
  split
  · rename_i h
    rw [← h, NumClass.join_self]
  · exact NumClass.numClass_prim (NumClass.valid_join (valid_numClass hp) (valid_numClass hq))

theorem isIntegral_prim (c : NumClass) : tcPrimitiveIsIntegral c.prim = true := by
  cases c with
  | float64 => rfl
  | float32 => rfl
  | int s w =>
    cases s <;>
      simp only [NumClass.prim, tcSignedPrimitiveForWidth, tcUnsignedPrimitiveForWidth] <;>
      split_ifs <;> rfl

theorem isIntegral_mergeNum (hp : tcPrimitiveIsIntegral p = true) :
    tcPrimitiveIsIntegral (mergeNum p q) = true := by
  unfold mergeNum
  split
  · exact hp
  · exact isIntegral_prim _

end Promotion

/-! ## Merging forms -/

namespace TypeForm

/-- The merge of two types; with `ret` it is that of return types. -/
def merge (ret : Bool) (a b : TypeForm) : Option TypeForm :=
  if ret = true ∧ (a = .void ∧ b = .null ∨ a = .null ∧ b = .void) then some .void
  else if a = b then some a
  else if a = .external ∨ b = .external then some .external
  else
    match a, b with
    | .value p 0, .value q 0 =>
      if tcPrimitiveIsIntegral p = true ∧ tcPrimitiveIsIntegral q = true then
        some (.value (mergeNum p q) 0)
      else none
    | _, _ => none

theorem equals_checked (a b : TypeForm) :
    tcCheckedTypeEquals a.checked b.checked = decide (a = b) := by
  rw [Bool.eq_iff_iff]
  cases a <;> cases b <;>
    simp [tcCheckedTypeEquals, checked, tcCheckedTypeInvalid, tcCheckedTypeVoid,
      tcCheckedTypeNull, tcCheckedTypeExternal, tcCheckedTypeValue, tcCheckedTypeNamed,
      tcCheckedTypeTypeParam, and_assoc]
  exact fun _ => decide_eq_true_iff

theorem kind_checked (a : TypeForm) :
    (a.checked.kind = .external ↔ a = .external) ∧ (a.checked.kind = .void ↔ a = .void) ∧
      (a.checked.kind = .null ↔ a = .null) := by
  cases a <;> simp [checked, tcCheckedTypeInvalid, tcCheckedTypeVoid, tcCheckedTypeNull,
    tcCheckedTypeExternal, tcCheckedTypeValue, tcCheckedTypeNamed, tcCheckedTypeTypeParam]

/-- A type is numeric: a primitive other than `bool` and `string`. -/
def Numeric (a : TypeForm) : Prop := ∃ p, a = .value p 0 ∧ tcPrimitiveIsIntegral p = true

theorem mergeValues_checked {p q : AstPrimitiveType} (hEq : TypeForm.value p 0 ≠ .value q 0) :
    (if (TypeForm.value p 0).checked.kind = .value ∧ (TypeForm.value q 0).checked.kind = .value ∧
        (TypeForm.value p 0).checked.arrayDepth = 0 ∧ (TypeForm.value q 0).checked.arrayDepth = 0 ∧
        tcCheckedTypeIsNumeric (TypeForm.value p 0).checked = true ∧
        tcCheckedTypeIsNumeric (TypeForm.value q 0).checked = true then
      some (tcPromoteNumericTypes (TypeForm.value p 0).checked (TypeForm.value q 0).checked)
    else none) =
    Option.map checked
      (if tcPrimitiveIsIntegral p = true ∧ tcPrimitiveIsIntegral q = true then
        some (.value (mergeNum p q) 0)
      else none) := by
  have hpq : p ≠ q := fun h => hEq (by rw [h])
  have hNumeric : ∀ p, tcCheckedTypeIsNumeric (TypeForm.value p 0).checked =
      tcPrimitiveIsIntegral p := by
    intro p
    simp [checked, tcCheckedTypeIsNumeric, tcCheckedTypeIsScalarValue, tcCheckedTypeValue]
  rw [hNumeric, hNumeric]
  simp only [checked]
  by_cases h : tcPrimitiveIsIntegral p = true ∧ tcPrimitiveIsIntegral q = true
  · rw [promote_eq h.1 h.2]
    simp [tcCheckedTypeValue, h, mergeNum, hpq, checked]
  · simp [tcCheckedTypeValue, h]

theorem mergeTypesForInference_checked (a b : TypeForm) :
    tcMergeTypesForInference a.checked b.checked = (merge false a b).map checked := by
  unfold tcMergeTypesForInference merge
  simp only [equals_checked, (kind_checked a).1, (kind_checked b).1, Bool.false_eq_true,
    false_and, if_false, decide_eq_true_eq]
  by_cases hEq : a = b
  · simp only [hEq, if_true, Option.map_some]
  · by_cases hExternal : a = .external ∨ b = .external
    · simp only [hEq, hExternal, if_true, if_false, Option.map_some, checked]
    · simp only [hEq, hExternal, if_false]
      cases a with
      | value p d =>
        cases b with
        | value q e =>
          cases d with
          | zero =>
            cases e with
            | zero => exact mergeValues_checked hEq
            | succ e => simp [checked, tcCheckedTypeValue]
          | succ d => simp [checked, tcCheckedTypeValue]
        | _ =>
          simp [checked, tcCheckedTypeInvalid, tcCheckedTypeVoid, tcCheckedTypeNull,
            tcCheckedTypeExternal, tcCheckedTypeNamed, tcCheckedTypeTypeParam]
      | _ =>
        simp [checked, tcCheckedTypeInvalid, tcCheckedTypeVoid, tcCheckedTypeNull,
          tcCheckedTypeExternal, tcCheckedTypeNamed, tcCheckedTypeTypeParam]

theorem mergeReturnTypes_checked (a b : TypeForm) :
    tcMergeReturnTypes a.checked b.checked = (merge true a b).map checked := by
  unfold tcMergeReturnTypes
  simp only [mergeTypesForInference_checked, (kind_checked a).2.1, (kind_checked a).2.2,
    (kind_checked b).2.1, (kind_checked b).2.2]
  by_cases h : a = .void ∧ b = .null ∨ a = .null ∧ b = .void
  · simp only [merge, h, and_self, if_true, Option.map_some, checked]
  · simp only [merge, h, and_false, if_false]

end TypeForm

end Calynda
