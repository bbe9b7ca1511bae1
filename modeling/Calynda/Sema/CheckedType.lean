import Calynda.Sema.TypeResolution

/-!
# Checked types

`type_checker_types.c`, `type_checker_convert.c`, `type_checker_names.c` and the operator
rules of `type_checker_ops.c`.
-/

namespace Calynda

inductive CheckedTypeKind where
  | invalid | void | null | value | external | named | typeParam
  deriving DecidableEq, Repr

structure CheckedType where
  kind : CheckedTypeKind
  primitive : AstPrimitiveType := .int8
  arrayDepth : Nat := 0
  name : Option String := none
  genericArgCount : Nat := 0
  deriving DecidableEq, Repr

def tcCheckedTypeInvalid : CheckedType := { kind := .invalid }

def tcCheckedTypeVoid : CheckedType := { kind := .void }

def tcCheckedTypeNull : CheckedType := { kind := .null }

def tcCheckedTypeExternal : CheckedType := { kind := .external }

def tcCheckedTypeValue (primitive : AstPrimitiveType) (arrayDepth : Nat) : CheckedType :=
  { kind := .value, primitive, arrayDepth }

def tcCheckedTypeNamed (name : Option String) (genericArgCount arrayDepth : Nat) :
    CheckedType :=
  { kind := .named, name, genericArgCount, arrayDepth }

def tcCheckedTypeTypeParam (name : Option String) : CheckedType :=
  { kind := .typeParam, name }

/-! ## Primitives -/

/-- `tc_primitive_is_float`: the aliases `float` and `double` are not among them. -/
def tcPrimitiveIsFloat (primitive : AstPrimitiveType) : Bool :=
  decide (primitive = .float32) || decide (primitive = .float64)

def tcPrimitiveIsIntegral : AstPrimitiveType → Bool
  | .bool | .string => false
  | _ => true

def tcPrimitiveWidth : AstPrimitiveType → Nat
  | .int8 | .uint8 | .char | .byte | .sbyte => 8
  | .int16 | .uint16 | .short => 16
  | .int32 | .uint32 | .float32 | .int | .uint | .float => 32
  | .int64 | .uint64 | .float64 | .long | .ulong | .double => 64
  | .bool | .string => 0

def tcPrimitiveIsSigned : AstPrimitiveType → Bool
  | .int8 | .int16 | .int32 | .int64 | .float32 | .float64 | .char | .sbyte | .short
  | .int | .long | .float | .double => true
  | .uint8 | .uint16 | .uint32 | .uint64 | .bool | .string | .byte | .ulong | .uint => false

def tcSignedPrimitiveForWidth (width : Nat) : AstPrimitiveType :=
  if width ≤ 8 then .int8
  else if width ≤ 16 then .int16
  else if width ≤ 32 then .int32
  else .int64

def tcUnsignedPrimitiveForWidth (width : Nat) : AstPrimitiveType :=
  if width ≤ 8 then .uint8
  else if width ≤ 16 then .uint16
  else if width ≤ 32 then .uint32
  else .uint64

/-! ## Tests on checked types -/

def tcCheckedTypeIsHeteroArray (type : CheckedType) : Bool :=
  decide (type.kind = .named) && type.name == some "arr" &&
    decide (1 ≤ type.genericArgCount) && type.arrayDepth == 0

def tcCheckedTypeEquals (left right : CheckedType) : Bool :=
  if left.kind ≠ right.kind then false
  else
    match left.kind with
    | .named | .typeParam =>
      match left.name, right.name with
      | some l, some r =>
        l == r && left.genericArgCount == right.genericArgCount &&
          left.arrayDepth == right.arrayDepth
      | none, none => true
      | _, _ => false
    | _ => decide (left.primitive = right.primitive) && left.arrayDepth == right.arrayDepth

def tcCheckedTypeIsScalarValue (type : CheckedType) : Bool :=
  decide (type.kind = .value) && type.arrayDepth == 0

def tcCheckedTypeIsBool (type : CheckedType) : Bool :=
  tcCheckedTypeIsScalarValue type && decide (type.primitive = .bool)

def tcCheckedTypeIsString (type : CheckedType) : Bool :=
  tcCheckedTypeIsScalarValue type && decide (type.primitive = .string)

def tcCheckedTypeIsNumeric (type : CheckedType) : Bool :=
  tcCheckedTypeIsScalarValue type && tcPrimitiveIsIntegral type.primitive

def tcCheckedTypeIsIntegral (type : CheckedType) : Bool :=
  tcCheckedTypeIsScalarValue type && tcPrimitiveIsIntegral type.primitive &&
    !tcPrimitiveIsFloat type.primitive

def tcCheckedTypeIsReferenceLike (type : CheckedType) : Bool :=
  (decide (type.kind = .value) &&
    (decide (0 < type.arrayDepth) || decide (type.primitive = .string))) ||
    decide (type.kind = .external)

/-! ## Conversion -/

def tcPromoteNumericTypes (left right : CheckedType) : CheckedType :=
  if !tcCheckedTypeIsNumeric left || !tcCheckedTypeIsNumeric right then
    tcCheckedTypeInvalid
  else if tcPrimitiveIsFloat left.primitive || tcPrimitiveIsFloat right.primitive then
    if left.primitive = .float64 ∨ right.primitive = .float64 then
      tcCheckedTypeValue .float64 0
    else
      tcCheckedTypeValue .float32 0
  else
    let width := max (tcPrimitiveWidth left.primitive) (tcPrimitiveWidth right.primitive)
    if tcPrimitiveIsSigned left.primitive = tcPrimitiveIsSigned right.primitive then
      if tcPrimitiveIsSigned left.primitive then
        tcCheckedTypeValue (tcSignedPrimitiveForWidth width) 0
      else
        tcCheckedTypeValue (tcUnsignedPrimitiveForWidth width) 0
    else if width < 64 then
      tcCheckedTypeValue .int64 0
    else
      -- the signs differ here, so one of the two is unsigned
      tcCheckedTypeValue .uint64 0

def tcCheckedTypeFromResolvedType (type : ResolvedType) : CheckedType :=
  match type.kind with
  | .invalid => tcCheckedTypeInvalid
  | .void => tcCheckedTypeVoid
  | .value => tcCheckedTypeValue type.primitive type.arrayDepth
  | .named => tcCheckedTypeNamed type.name type.genericArgCount type.arrayDepth

def tcCheckedTypeAssignable (target source : CheckedType) : Bool :=
  if target.kind = .invalid ∨ source.kind = .invalid then false
  else if tcCheckedTypeEquals target source then true
  else if target.kind = .void then
    decide (source.kind = .void ∨ source.kind = .null ∨ source.kind = .external)
  else if source.kind = .void then false
  else if target.kind = .external then true
  else if source.kind = .external then true
  else if target.kind = .value ∧ source.kind = .null then tcCheckedTypeIsReferenceLike target
  else if target.kind = .value ∧ source.kind = .value ∧
      target.arrayDepth ≠ source.arrayDepth then false
  else if target.kind = .value ∧ source.kind = .value ∧ target.arrayDepth = 0 ∧
      tcCheckedTypeIsNumeric target ∧ tcCheckedTypeIsNumeric source then true
  else if tcCheckedTypeIsHeteroArray target then
    (decide (source.kind = .value) && source.arrayDepth == 1) ||
      tcCheckedTypeIsHeteroArray source
  else false

def tcMergeTypesForInference (left right : CheckedType) : Option CheckedType :=
  if tcCheckedTypeEquals left right then some left
  else if left.kind = .external ∨ right.kind = .external then some tcCheckedTypeExternal
  else if left.kind = .value ∧ right.kind = .value ∧ left.arrayDepth = 0 ∧
      right.arrayDepth = 0 ∧ tcCheckedTypeIsNumeric left ∧ tcCheckedTypeIsNumeric right then
    some (tcPromoteNumericTypes left right)
  else none

def tcMergeReturnTypes (left right : CheckedType) : Option CheckedType :=
  if (left.kind = .void ∧ right.kind = .null) ∨ (left.kind = .null ∧ right.kind = .void) then
    some tcCheckedTypeVoid
  else tcMergeTypesForInference left right

/-! ## Names -/

def tcPrimitiveTypeName : AstPrimitiveType → String
  | .int8 => "int8"
  | .int16 => "int16"
  | .int32 => "int32"
  | .int64 => "int64"
  | .uint8 => "uint8"
  | .uint16 => "uint16"
  | .uint32 => "uint32"
  | .uint64 => "uint64"
  | .float32 => "float32"
  | .float64 => "float64"
  | .bool => "bool"
  | .char => "char"
  | .string => "string"
  | .byte => "byte"
  | .sbyte => "sbyte"
  | .short => "short"
  | .int => "int"
  | .long => "long"
  | .ulong => "ulong"
  | .uint => "uint"
  | .float => "float"
  | .double => "double"

def tcBinaryOperatorName : AstBinaryOperator → String
  | .logicalOr => "||"
  | .logicalAnd => "&&"
  | .bitOr => "|"
  | .bitNand => "~&"
  | .bitXor => "^"
  | .bitXnor => "~^"
  | .bitAnd => "&"
  | .equal => "=="
  | .notEqual => "!="
  | .less => "<"
  | .greater => ">"
  | .lessEqual => "<="
  | .greaterEqual => ">="
  | .shiftLeft => "<<"
  | .shiftRight => ">>"
  | .add => "+"
  | .subtract => "-"
  | .multiply => "*"
  | .divide => "/"
  | .modulo => "%"

def tcAssignmentOperatorName : AstAssignmentOperator → String
  | .assign => "="
  | .add => "+="
  | .subtract => "-="
  | .multiply => "*="
  | .divide => "/="
  | .modulo => "%="
  | .bitAnd => "&="
  | .bitOr => "|="
  | .bitXor => "^="
  | .shiftLeft => "<<="
  | .shiftRight => ">>="

def arraySuffix (depth : Nat) : String := String.join (List.replicate depth "[]")

/-- `checked_type_to_string` into a buffer of 64 bytes, as every caller has it. -/
def checkedTypeToString (type : CheckedType) : String :=
  formatIntoBuffer 64 <|
    match type.kind with
    | .invalid => "<invalid>"
    | .void => "void"
    | .null => "null"
    | .external => "<external>"
    | .value => tcPrimitiveTypeName type.primitive ++ arraySuffix type.arrayDepth
    | .named =>
      type.name.getD "?" ++
        (if 0 < type.genericArgCount then s!"<...{type.genericArgCount}>" else "") ++
        arraySuffix type.arrayDepth
    | .typeParam => type.name.getD "?"

/-! ## Operators -/

/-- The type of an operation of which one operand has the external type. -/
def externalOperandType (left right : CheckedType) : CheckedType :=
  if left.kind ≠ .external then left
  else if right.kind ≠ .external then right
  else tcCheckedTypeExternal

/-- The result type of `tc_check_binary_operator`, `none` where it reports an error. -/
def tcBinaryOperatorType (operator : AstBinaryOperator) (left right : CheckedType) :
    Option CheckedType :=
  let external := left.kind = .external ∨ right.kind = .external
  match operator with
  | .logicalOr | .logicalAnd =>
    if tcCheckedTypeIsBool left ∧ tcCheckedTypeIsBool right then
      some (tcCheckedTypeValue .bool 0)
    else if external then some (tcCheckedTypeValue .bool 0)
    else none
  | .bitOr | .bitNand | .bitXor | .bitXnor | .bitAnd | .modulo =>
    if tcCheckedTypeIsIntegral left ∧ tcCheckedTypeIsIntegral right then
      some (tcPromoteNumericTypes left right)
    else if external then some (externalOperandType left right)
    else none
  | .equal | .notEqual =>
    if tcCheckedTypeEquals left right ∨
        (tcCheckedTypeIsNumeric left ∧ tcCheckedTypeIsNumeric right) ∨
        (left.kind = .null ∧ tcCheckedTypeIsReferenceLike right) ∨
        (right.kind = .null ∧ tcCheckedTypeIsReferenceLike left) ∨ external then
      some (tcCheckedTypeValue .bool 0)
    else none
  | .less | .greater | .lessEqual | .greaterEqual =>
    if tcCheckedTypeIsNumeric left ∧ tcCheckedTypeIsNumeric right then
      some (tcCheckedTypeValue .bool 0)
    else if external then some (tcCheckedTypeValue .bool 0)
    else none
  | .shiftLeft | .shiftRight =>
    if tcCheckedTypeIsIntegral left ∧ tcCheckedTypeIsIntegral right then some left
    else if external then some (externalOperandType left right)
    else none
  | .add =>
    if tcCheckedTypeIsString left ∧ tcCheckedTypeIsString right then
      some (tcCheckedTypeValue .string 0)
    else if tcCheckedTypeIsNumeric left ∧ tcCheckedTypeIsNumeric right then
      some (tcPromoteNumericTypes left right)
    else if external then some (externalOperandType left right)
    else none
  | .subtract | .multiply | .divide =>
    if tcCheckedTypeIsNumeric left ∧ tcCheckedTypeIsNumeric right then
      some (tcPromoteNumericTypes left right)
    else if external then some (externalOperandType left right)
    else none

def tcMapCompoundAssignment : AstAssignmentOperator → Option AstBinaryOperator
  | .assign => none
  | .add => some .add
  | .subtract => some .subtract
  | .multiply => some .multiply
  | .divide => some .divide
  | .modulo => some .modulo
  | .bitAnd => some .bitAnd
  | .bitOr => some .bitOr
  | .bitXor => some .bitXor
  | .shiftLeft => some .shiftLeft
  | .shiftRight => some .shiftRight

end Calynda
