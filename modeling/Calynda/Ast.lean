/-!
# The syntax tree

The data types of `ast_types.h` and `ast_decl_types.h`. A pass of the compiler keys its
tables by the address of a node (`AstExpression *`, `AstBlock *`, `AstType *`, ...), so
every node that keys a table carries its address `Addr`; the nodes of one tree lie at
different addresses (`AstProgram.WellFormed`).

Pointers that the parser never leaves empty (initializers, bodies, operands) are plain
fields; the one it may leave empty, the expression of `return`, gives the two statements
`returnValue` and `returnVoid`. Template literals are a constructor of their own.
-/

namespace Calynda

/-- The address of a heap node. -/
abbrev Addr := Nat

/-- `AstSourceSpan`. -/
structure AstSourceSpan where
  startLine : Int
  startColumn : Int
  endLine : Int
  endColumn : Int
  deriving DecidableEq, Repr, Inhabited

/-- The span that `memset(&span, 0, sizeof(span))` leaves. -/
def AstSourceSpan.zero : AstSourceSpan := ⟨0, 0, 0, 0⟩

/-- `tc_source_span_is_valid`, and its copies in the other passes. -/
def AstSourceSpan.isValid (span : AstSourceSpan) : Bool :=
  decide (0 < span.startLine) && decide (0 < span.startColumn)

inductive AstModifier where
  | «public» | «private» | final | export | static | internal
  deriving DecidableEq, Repr

inductive AstPrimitiveType where
  | int8 | int16 | int32 | int64
  | uint8 | uint16 | uint32 | uint64
  | float32 | float64
  | bool | char | string
  | byte | sbyte | short | int | long | ulong | uint | float | double
  deriving DecidableEq, Repr

inductive AstTypeKind where
  | void | primitive | arr | named
  deriving DecidableEq, Repr

/-- `AstArrayDimension`: `has_size` and `size_literal` in one field. -/
structure AstArrayDimension where
  sizeLiteral : Option String
  deriving DecidableEq, Repr

def AstArrayDimension.hasSize (d : AstArrayDimension) : Bool := d.sizeLiteral.isSome

mutual
inductive AstType where
  | mk (addr : Addr) (kind : AstTypeKind) (primitive : AstPrimitiveType)
      (name : Option String) (dimensions : List AstArrayDimension)
      (genericArgs : List AstGenericArg)

inductive AstGenericArg where
  | wildcard
  | type (t : AstType)
end

namespace AstType

def addr : AstType → Addr
  | mk addr _ _ _ _ _ => addr

def kind : AstType → AstTypeKind
  | mk _ kind _ _ _ _ => kind

def primitive : AstType → AstPrimitiveType
  | mk _ _ primitive _ _ _ => primitive

def name : AstType → Option String
  | mk _ _ _ name _ _ => name

def dimensions : AstType → List AstArrayDimension
  | mk _ _ _ _ dimensions _ => dimensions

def genericArgs : AstType → List AstGenericArg
  | mk _ _ _ _ _ genericArgs => genericArgs

end AstType

structure AstQualifiedName where
  segments : List String
  sourceSpan : AstSourceSpan
  tailSpan : AstSourceSpan
  deriving DecidableEq, Repr

structure AstParameter where
  type : AstType
  name : String
  nameSpan : AstSourceSpan
  isVarargs : Bool

inductive AstAssignmentOperator where
  | assign | add | subtract | multiply | divide | modulo
  | bitAnd | bitOr | bitXor | shiftLeft | shiftRight
  deriving DecidableEq, Repr

inductive AstBinaryOperator where
  | logicalOr | logicalAnd | bitOr | bitNand | bitXor | bitXnor | bitAnd
  | equal | notEqual | less | greater | lessEqual | greaterEqual
  | shiftLeft | shiftRight | add | subtract | multiply | divide | modulo
  deriving DecidableEq, Repr

inductive AstUnaryOperator where
  | logicalNot | bitwiseNot | negate | plus | preIncrement | preDecrement
  | deref | addressOf
  deriving DecidableEq, Repr

/-- `AstLiteral` without the template literals. -/
inductive AstLiteral where
  | integer (text : String)
  | float (text : String)
  | bool (value : Bool)
  | char (text : String)
  | string (text : String)
  | null
  deriving DecidableEq, Repr

/-- What every expression node has: its address and its span. -/
structure AstNode where
  addr : Addr
  span : AstSourceSpan
  deriving DecidableEq, Repr

mutual
inductive AstExpression where
  | literal (node : AstNode) (lit : AstLiteral)
  | template (node : AstNode) (parts : List AstTemplatePart)
  | identifier (node : AstNode) (name : String)
  | lambda (node : AstNode) (parameters : List AstParameter) (body : AstLambdaBody)
  | assignment (node : AstNode) (operator : AstAssignmentOperator)
      (target value : AstExpression)
  | ternary (node : AstNode) (condition thenBranch elseBranch : AstExpression)
  | binary (node : AstNode) (operator : AstBinaryOperator) (left right : AstExpression)
  | unary (node : AstNode) (operator : AstUnaryOperator) (operand : AstExpression)
  | call (node : AstNode) (callee : AstExpression) (arguments : List AstExpression)
  | index (node : AstNode) (target index : AstExpression)
  | member (node : AstNode) (target : AstExpression) (member : String)
  | cast (node : AstNode) (targetType : AstPrimitiveType) (expression : AstExpression)
  | arrayLiteral (node : AstNode) (elements : List AstExpression)
  | grouping (node : AstNode) (inner : AstExpression)
  | discard (node : AstNode)
  | postIncrement (node : AstNode) (operand : AstExpression)
  | postDecrement (node : AstNode) (operand : AstExpression)

inductive AstTemplatePart where
  | text (text : String)
  | expression (expression : AstExpression)

inductive AstLambdaBody where
  | block (block : AstBlock)
  | expression (expression : AstExpression)

inductive AstBlock where
  | mk (addr : Addr) (statements : List AstStatement)

inductive AstStatement where
  | localBinding (span : AstSourceSpan) (isFinal isInternal isInferredType : Bool)
      (declaredType : AstType) (name : String) (nameSpan : AstSourceSpan)
      (initializer : AstExpression)
  | returnValue (span : AstSourceSpan) (expression : AstExpression)
  | returnVoid (span : AstSourceSpan)
  | exit (span : AstSourceSpan)
  | throw (span : AstSourceSpan) (expression : AstExpression)
  | expression (span : AstSourceSpan) (expression : AstExpression)
  | manual (span : AstSourceSpan) (isChecked : Bool) (body : AstBlock)
end

namespace AstExpression

def node : AstExpression → AstNode
  | literal node _ => node
  | template node _ => node
  | identifier node _ => node
  | lambda node _ _ => node
  | assignment node _ _ _ => node
  | ternary node _ _ _ => node
  | binary node _ _ _ => node
  | unary node _ _ => node
  | call node _ _ => node
  | index node _ _ => node
  | member node _ _ => node
  | cast node _ _ => node
  | arrayLiteral node _ => node
  | grouping node _ => node
  | discard node => node
  | postIncrement node _ => node
  | postDecrement node _ => node

def addr (e : AstExpression) : Addr := e.node.addr

def span (e : AstExpression) : AstSourceSpan := e.node.span

end AstExpression

def AstBlock.addr : AstBlock → Addr
  | mk addr _ => addr

def AstBlock.statements : AstBlock → List AstStatement
  | mk _ statements => statements

/-- `AstLocalBindingStatement`, the fields of a `localBinding` statement. -/
structure AstLocalBindingStatement where
  isFinal : Bool
  isInternal : Bool
  isInferredType : Bool
  declaredType : AstType
  name : String
  nameSpan : AstSourceSpan
  initializer : AstExpression

structure AstBindingDecl where
  modifiers : List AstModifier
  isInferredType : Bool
  declaredType : AstType
  name : String
  nameSpan : AstSourceSpan
  initializer : AstExpression

structure AstStartDecl where
  addr : Addr
  parameters : List AstParameter
  body : AstLambdaBody
  startSpan : AstSourceSpan

structure AstBootDecl where
  addr : Addr
  parameters : List AstParameter
  body : AstLambdaBody
  bootSpan : AstSourceSpan

structure AstExternDecl where
  name : String
  returnType : AstType
  parameters : List AstParameter
  nameSpan : AstSourceSpan

structure AstUnionVariant where
  name : String
  payloadType : Option AstType

structure AstUnionDecl where
  addr : Addr
  modifiers : List AstModifier
  name : String
  nameSpan : AstSourceSpan
  genericParams : List String
  variants : List AstUnionVariant

inductive AstTopLevelDecl where
  | start (decl : AstStartDecl)
  | boot (decl : AstBootDecl)
  | binding (decl : AstBindingDecl)
  | union (decl : AstUnionDecl)
  | externC (decl : AstExternDecl)

/-- `AstImportKind` with the field each kind reads: `alias` or `selected_names`. -/
inductive AstImportKind where
  | plain
  | alias (name : String)
  | wildcard
  | selective (selectedNames : List String)
  deriving DecidableEq, Repr

structure AstImportDecl where
  addr : Addr
  kind : AstImportKind
  moduleName : AstQualifiedName
  deriving DecidableEq, Repr

structure AstProgram where
  packageName : Option AstQualifiedName
  imports : List AstImportDecl
  topLevelDecls : List AstTopLevelDecl

/-! ## The addresses of a tree -/

def parametersAddrs (parameters : List AstParameter) : List Addr :=
  parameters.map fun p => p.type.addr

mutual
/-- The addresses of the nodes of an expression, its own first. -/
def AstExpression.addrs : AstExpression → List Addr
  | .literal node _ => [node.addr]
  | .template node parts => node.addr :: templateAddrs parts
  | .identifier node _ => [node.addr]
  | .lambda node parameters body =>
    node.addr :: (parametersAddrs parameters ++ AstLambdaBody.addrs body)
  | .assignment node _ target value =>
    node.addr :: (AstExpression.addrs target ++ AstExpression.addrs value)
  | .ternary node c t e =>
    node.addr :: (AstExpression.addrs c ++ AstExpression.addrs t ++ AstExpression.addrs e)
  | .binary node _ l r => node.addr :: (AstExpression.addrs l ++ AstExpression.addrs r)
  | .unary node _ e => node.addr :: AstExpression.addrs e
  | .call node callee arguments =>
    node.addr :: (AstExpression.addrs callee ++ expressionsAddrs arguments)
  | .index node t i => node.addr :: (AstExpression.addrs t ++ AstExpression.addrs i)
  | .member node t _ => node.addr :: AstExpression.addrs t
  | .cast node _ e => node.addr :: AstExpression.addrs e
  | .arrayLiteral node elements => node.addr :: expressionsAddrs elements
  | .grouping node e => node.addr :: AstExpression.addrs e
  | .discard node => [node.addr]
  | .postIncrement node e => node.addr :: AstExpression.addrs e
  | .postDecrement node e => node.addr :: AstExpression.addrs e

def expressionsAddrs : List AstExpression → List Addr
  | [] => []
  | e :: es => AstExpression.addrs e ++ expressionsAddrs es

def templateAddrs : List AstTemplatePart → List Addr
  | [] => []
  | .text _ :: ps => templateAddrs ps
  | .expression e :: ps => AstExpression.addrs e ++ templateAddrs ps

def AstLambdaBody.addrs : AstLambdaBody → List Addr
  | .block b => AstBlock.addrs b
  | .expression e => AstExpression.addrs e

def AstBlock.addrs : AstBlock → List Addr
  | .mk addr statements => addr :: statementsAddrs statements

def AstStatement.addrs : AstStatement → List Addr
  | .localBinding _ _ _ _ declaredType _ _ initializer =>
    declaredType.addr :: AstExpression.addrs initializer
  | .returnValue _ e => AstExpression.addrs e
  | .returnVoid _ => []
  | .exit _ => []
  | .throw _ e => AstExpression.addrs e
  | .expression _ e => AstExpression.addrs e
  | .manual _ _ body => AstBlock.addrs body

def statementsAddrs : List AstStatement → List Addr
  | [] => []
  | s :: ss => AstStatement.addrs s ++ statementsAddrs ss
end

def AstTopLevelDecl.addrs : AstTopLevelDecl → List Addr
  | .start d => d.addr :: (parametersAddrs d.parameters ++ d.body.addrs)
  | .boot d => d.addr :: (parametersAddrs d.parameters ++ d.body.addrs)
  | .binding d => d.declaredType.addr :: d.initializer.addrs
  | .union d => d.addr :: d.variants.filterMap fun v => v.payloadType.map AstType.addr
  | .externC d => d.returnType.addr :: parametersAddrs d.parameters

/-- The addresses of the nodes of the top-level declarations. -/
def AstProgram.addrs (program : AstProgram) : List Addr :=
  program.topLevelDecls.flatMap AstTopLevelDecl.addrs

/-! ## Parsed programs -/

/-- A text that the tokenizer can read as an identifier has no dot. -/
def IsDotless (name : String) : Prop := '.' ∉ name.toList

instance (name : String) : Decidable (IsDotless name) :=
  inferInstanceAs (Decidable ('.' ∉ name.toList))

/-- A module name has at least one segment, names are identifiers, and the list of a
selective import is not empty. -/
structure AstImportDecl.WellFormed (decl : AstImportDecl) : Prop where
  segments_ne_nil : decl.moduleName.segments ≠ []
  segment_dotless {segment : String} (h : segment ∈ decl.moduleName.segments) :
    IsDotless segment
  alias_dotless {name : String} (h : decl.kind = .alias name) : IsDotless name
  selective_ne_nil {names : List String} (h : decl.kind = .selective names) : names ≠ []

/-- The nodes of a parsed program lie at different addresses. -/
structure AstProgram.WellFormed (program : AstProgram) : Prop where
  addrs : program.addrs.Nodup
  importAddrs : (program.imports.map AstImportDecl.addr).Nodup
  imports {decl : AstImportDecl} (h : decl ∈ program.imports) : decl.WellFormed

/-- A program as the parser hands it on. -/
structure ParsedProgram extends AstProgram where
  wellFormed : toAstProgram.WellFormed

end Calynda
