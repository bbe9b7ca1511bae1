import Calynda.Diagnostic
import Mathlib.Algebra.Group.Nat.Defs

/-!
# Type resolution

`type_resolution*.c`: every declared type and every cast target of the program gets an
entry, keyed by the address of the type or of the cast expression.
-/

namespace Calynda

inductive ResolvedTypeKind where
  | invalid | void | value | named
  deriving DecidableEq, Repr

structure ResolvedType where
  kind : ResolvedTypeKind
  primitive : AstPrimitiveType := .int8
  arrayDepth : Nat := 0
  name : Option String := none
  genericArgCount : Nat := 0
  deriving DecidableEq, Repr

abbrev TypeResolutionError := Diagnostic

structure TypeResolver where
  typeEntries : List (Addr × ResolvedType) := []
  castEntries : List (Addr × ResolvedType) := []

namespace TypeResolver

def getType (resolver : TypeResolver) (typeRef : Addr) : Option ResolvedType :=
  (resolver.typeEntries.find? fun entry => entry.1 == typeRef).map (·.2)

def getCastTargetType (resolver : TypeResolver) (castExpression : Addr) :
    Option ResolvedType :=
  (resolver.castEntries.find? fun entry => entry.1 == castExpression).map (·.2)

end TypeResolver

/-- The pass: it stops at the first error. -/
abbrev TrM := StateT TypeResolver (Except TypeResolutionError)

def trSetErrorAt {α : Type} (primarySpan : AstSourceSpan) (message : String) : TrM α :=
  throw (Diagnostic.at primarySpan none message)

def trResolvedTypeVoid : ResolvedType := { kind := .void }

def trResolvedTypeValue (primitive : AstPrimitiveType) (arrayDepth : Nat) : ResolvedType :=
  { kind := .value, primitive, arrayDepth }

def trResolvedTypeNamed (name : Option String) (genericArgCount arrayDepth : Nat) :
    ResolvedType :=
  { kind := .named, name, genericArgCount, arrayDepth }

def trAppendTypeEntry (typeRef : Addr) (type : ResolvedType) : TrM Unit :=
  modify fun resolver => { resolver with
    typeEntries := resolver.typeEntries ++ [(typeRef, type)] }

def trAppendCastEntry (castExpression : Addr) (targetType : ResolvedType) : TrM Unit :=
  modify fun resolver => { resolver with
    castEntries := resolver.castEntries ++ [(castExpression, targetType)] }

/-- The value of a run of decimal digits after `acc`. -/
def decimalValue : Nat → List Char → Option Nat
  | acc, [] => some acc
  | acc, c :: cs =>
    if '0' ≤ c ∧ c ≤ '9' then decimalValue (acc * 10 + (c.toNat - '0'.toNat)) cs else none

/-- `parse_array_size_literal` on the text of an integer literal: `strtoull` in base 10
reads all of it and does not overflow. -/
def parseArraySizeLiteral (text : String) : Option Nat :=
  match text.toList with
  | [] => none
  | chars =>
    match decimalValue 0 chars with
    | some value => if value < 2 ^ 64 then some value else none
    | none => none

def validateArrayDimension (primarySpan : AstSourceSpan) (subjectKind subjectName : String)
    (dimension : AstArrayDimension) : TrM Unit :=
  match dimension.sizeLiteral with
  | none => return
  | some text =>
    match parseArraySizeLiteral text with
    | some (_ + 1) => return
    | _ => trSetErrorAt primarySpan
        s!"{subjectKind} '{subjectName}' has invalid array dimension '{text}'; sizes must be positive integers."

def validateArrayDimensions (type : AstType) (primarySpan : AstSourceSpan)
    (subjectKind subjectName : String) : TrM Unit :=
  if type.kind = .void ∧ 0 < type.dimensions.length then
    trSetErrorAt primarySpan
      s!"{subjectKind} '{subjectName}' cannot declare arrays of void."
  else
    type.dimensions.forM (validateArrayDimension primarySpan subjectKind subjectName)

/-- The resolved type that `tr_resolve_declared_type` records. -/
def trResolvedType (type : AstType) : ResolvedType :=
  match type.kind with
  | .void => trResolvedTypeVoid
  | .named => trResolvedTypeNamed type.name type.genericArgs.length type.dimensions.length
  | .arr => trResolvedTypeNamed (some "arr") type.genericArgs.length 0
  | .primitive => trResolvedTypeValue type.primitive type.dimensions.length

def trResolveDeclaredType (type : AstType) (primarySpan : AstSourceSpan)
    (subjectKind subjectName : String) (allowVoid : Bool) : TrM Unit := do
  validateArrayDimensions type primarySpan subjectKind subjectName
  if type.kind = .void ∧ allowVoid = false then
    trSetErrorAt primarySpan s!"{subjectKind} '{subjectName}' cannot have type void."
  else
    trAppendTypeEntry type.addr (trResolvedType type)

def trResolveParameter (parameter : AstParameter) : TrM Unit :=
  trResolveDeclaredType parameter.type parameter.nameSpan "Parameter" parameter.name false

def trResolveParameters (parameters : List AstParameter) : TrM Unit :=
  parameters.forM trResolveParameter

def trResolveBindingDecl (decl : AstBindingDecl) : TrM Unit :=
  if decl.isInferredType then return
  else trResolveDeclaredType decl.declaredType decl.nameSpan "Top-level binding" decl.name true

mutual
def trResolveExpression : AstExpression → TrM Unit
  | .literal _ _ => return
  | .template _ parts => trResolveTemplateParts parts
  | .identifier _ _ => return
  | .lambda _ parameters body => do
    trResolveParameters parameters
    trResolveLambdaBody body
  | .assignment _ _ target value => do
    trResolveExpression target
    trResolveExpression value
  | .ternary _ condition thenBranch elseBranch => do
    trResolveExpression condition
    trResolveExpression thenBranch
    trResolveExpression elseBranch
  | .binary _ _ left right => do
    trResolveExpression left
    trResolveExpression right
  | .unary _ _ operand => trResolveExpression operand
  | .call _ callee arguments => do
    trResolveExpression callee
    trResolveExpressions arguments
  | .index _ target index => do
    trResolveExpression target
    trResolveExpression index
  | .member _ target _ => trResolveExpression target
  | .cast node targetType expression => do
    trAppendCastEntry node.addr (trResolvedTypeValue targetType 0)
    trResolveExpression expression
  | .arrayLiteral _ elements => trResolveExpressions elements
  | .grouping _ inner => trResolveExpression inner
  | .discard _ => return
  | .postIncrement _ operand => trResolveExpression operand
  | .postDecrement _ operand => trResolveExpression operand

def trResolveExpressions : List AstExpression → TrM Unit
  | [] => return
  | e :: es => do
    trResolveExpression e
    trResolveExpressions es

def trResolveTemplateParts : List AstTemplatePart → TrM Unit
  | [] => return
  | .text _ :: parts => trResolveTemplateParts parts
  | .expression e :: parts => do
    trResolveExpression e
    trResolveTemplateParts parts

def trResolveLambdaBody : AstLambdaBody → TrM Unit
  | .block block => trResolveBlock block
  | .expression expression => trResolveExpression expression

def trResolveBlock : AstBlock → TrM Unit
  | .mk _ statements => trResolveStatements statements

def trResolveStatements : List AstStatement → TrM Unit
  | [] => return
  | statement :: statements => do
    resolveStatement statement
    trResolveStatements statements

/-- `resolve_statement`. -/
def resolveStatement : AstStatement → TrM Unit
  | .localBinding _ _ _ isInferredType declaredType name nameSpan initializer => do
    if isInferredType then pure ()
    else trResolveDeclaredType declaredType nameSpan "Local" name true
    trResolveExpression initializer
  | .returnValue _ expression => trResolveExpression expression
  | .returnVoid _ => return
  | .exit _ => return
  | .throw _ expression => trResolveExpression expression
  | .expression _ expression => trResolveExpression expression
  -- the body of a manual block is not visited
  | .manual _ _ _ => return
end

def trResolveStartDecl (decl : AstStartDecl) : TrM Unit := do
  trResolveParameters decl.parameters
  trResolveLambdaBody decl.body

def trResolveBootDecl (decl : AstBootDecl) : TrM Unit := do
  trResolveParameters decl.parameters
  trResolveLambdaBody decl.body

def trResolveVariant (decl : AstUnionDecl) (variant : AstUnionVariant) : TrM Unit :=
  match variant.payloadType with
  | none => return
  | some payloadType =>
    trResolveDeclaredType payloadType decl.nameSpan "Union variant" variant.name false

def trResolveTopLevelDecl : AstTopLevelDecl → TrM Unit
  | .binding decl => do
    trResolveBindingDecl decl
    trResolveExpression decl.initializer
  | .union decl => decl.variants.forM (trResolveVariant decl)
  | .externC decl => trResolveDeclaredType decl.returnType decl.nameSpan "extern" decl.name true
  | .boot decl => trResolveBootDecl decl
  | .start decl => trResolveStartDecl decl

/-- `type_resolver_resolve_program`. -/
def typeResolverResolveProgram (program : AstProgram) :
    Except TypeResolutionError TypeResolver :=
  (·.2) <$> (program.topLevelDecls.forM trResolveTopLevelDecl).run {}

end Calynda
