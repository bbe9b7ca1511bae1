import Calynda.Sema.TypeChecker

/-!
# The high-level intermediate representation

`hir_types.h` and `hir_expr_types.h`. The emitter compares lambdas by pointer, so a lambda
carries the address of its node. References to symbols are their addresses.
-/

namespace Calynda

/-- `HirCallableSignature`; `parameterTypes` is present when `has_parameter_types` is. -/
structure HirCallableSignature where
  parameterTypes : Option (List CheckedType) := none
  returnType : CheckedType := tcCheckedTypeInvalid
  deriving DecidableEq, Repr

/-- The fields that every `HirExpression` has. -/
structure HirMeta where
  type : CheckedType
  isCallable : Bool := false
  callableSignature : HirCallableSignature := {}
  sourceSpan : AstSourceSpan
  deriving DecidableEq, Repr

structure HirSymbolRef where
  symbol : Option Addr
  name : String
  kind : SymbolKind
  type : CheckedType
  sourceSpan : AstSourceSpan
  deriving DecidableEq, Repr

structure HirParameter where
  name : String
  symbol : Addr
  type : CheckedType
  isVarargs : Bool
  sourceSpan : AstSourceSpan
  deriving DecidableEq, Repr

/-- `HirLocalBinding` without its initializer. -/
structure HirLocal where
  name : String
  symbol : Addr
  type : CheckedType
  isCallable : Bool
  callableSignature : HirCallableSignature
  isFinal : Bool
  sourceSpan : AstSourceSpan
  deriving DecidableEq, Repr

mutual
inductive HirExpression where
  | literal (info : HirMeta) (lit : AstLiteral)
  | template (info : HirMeta) (parts : List HirTemplatePart)
  | symbol (info : HirMeta) (ref : HirSymbolRef)
  | lambda (info : HirMeta) (addr : Addr) (parameters : List HirParameter) (body : HirBlock)
  | assignment (info : HirMeta) (operator : AstAssignmentOperator)
      (target value : HirExpression)
  | ternary (info : HirMeta) (condition thenBranch elseBranch : HirExpression)
  | binary (info : HirMeta) (operator : AstBinaryOperator) (left right : HirExpression)
  | unary (info : HirMeta) (operator : AstUnaryOperator) (operand : HirExpression)
  | call (info : HirMeta) (callee : HirExpression) (arguments : List HirExpression)
  | index (info : HirMeta) (target index : HirExpression)
  | member (info : HirMeta) (target : HirExpression) (member : String)
  | cast (info : HirMeta) (targetType : CheckedType) (expression : HirExpression)
  | arrayLiteral (info : HirMeta) (elements : List HirExpression)
  | discard (info : HirMeta)
  | postIncrement (info : HirMeta) (operand : HirExpression)
  | postDecrement (info : HirMeta) (operand : HirExpression)

inductive HirTemplatePart where
  | text (text : String)
  | expression (expression : HirExpression)

inductive HirBlock where
  | mk (statements : List HirStatement)

inductive HirStatement where
  | localBinding (span : AstSourceSpan) (binding : HirLocal) (initializer : HirExpression)
  | returnValue (span : AstSourceSpan) (expression : HirExpression)
  | returnVoid (span : AstSourceSpan)
  | exit (span : AstSourceSpan)
  | throw (span : AstSourceSpan) (expression : HirExpression)
  | expression (span : AstSourceSpan) (expression : HirExpression)
  | manual (span : AstSourceSpan) (isChecked : Bool) (body : HirBlock)
end

namespace HirExpression

def info : HirExpression → HirMeta
  | literal info _ => info
  | template info _ => info
  | symbol info _ => info
  | lambda info _ _ _ => info
  | assignment info _ _ _ => info
  | ternary info _ _ _ => info
  | binary info _ _ _ => info
  | unary info _ _ => info
  | call info _ _ => info
  | index info _ _ => info
  | member info _ _ => info
  | cast info _ _ => info
  | arrayLiteral info _ => info
  | discard info => info
  | postIncrement info _ => info
  | postDecrement info _ => info

def type (e : HirExpression) : CheckedType := e.info.type

end HirExpression

def HirBlock.statements : HirBlock → List HirStatement
  | mk statements => statements

structure HirBindingDecl where
  name : String
  symbol : Addr
  type : CheckedType
  isFinal : Bool
  isExported : Bool
  isStatic : Bool
  isInternal : Bool
  isCallable : Bool
  callableSignature : HirCallableSignature
  sourceSpan : AstSourceSpan
  initializer : HirExpression

structure HirStartDecl where
  parameters : List HirParameter
  body : HirBlock
  sourceSpan : AstSourceSpan

structure HirBootDecl where
  parameters : List HirParameter
  body : HirBlock
  sourceSpan : AstSourceSpan

structure HirExternDecl where
  name : String
  sourceSpan : AstSourceSpan
  returnType : AstType
  parameters : List AstParameter

structure HirUnionVariant where
  name : String
  payloadType : CheckedType
  hasPayload : Bool
  deriving DecidableEq, Repr

structure HirUnionDecl where
  name : String
  symbol : Option Addr
  sourceSpan : AstSourceSpan
  genericParams : List String
  variants : List HirUnionVariant
  isExported : Bool
  isStatic : Bool
  deriving DecidableEq, Repr

inductive HirTopLevelDecl where
  | binding (decl : HirBindingDecl)
  | start (decl : HirStartDecl)
  | boot (decl : HirBootDecl)
  | union (decl : HirUnionDecl)
  | externC (decl : HirExternDecl)

structure HirNamedSymbol where
  symbol : Symbol
  name : String
  qualifiedName : String
  sourceSpan : AstSourceSpan

structure HirProgram where
  package : Option HirNamedSymbol := none
  imports : List HirNamedSymbol := []
  topLevelDecls : List HirTopLevelDecl := []

end Calynda
