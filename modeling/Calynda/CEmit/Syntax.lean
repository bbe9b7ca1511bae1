import Calynda.Hir.Traversal

/-!
# The emitted C

The fragment of C that the emitter writes, one constructor for each form of text that
`c_emit_expr.c` and `c_emit_stmt.c` print. An emitted name carries the symbol it stands for and
an emitted closure the address of its lambda; neither is printed.
-/

namespace Calynda

/-- A name that `c_emit_global_name` prints, with the symbol it stands for. -/
structure CVar where
  name : String
  kind : SymbolKind
  symbol : Option Addr
  deriving DecidableEq, Repr

inductive CBinaryOperator where
  | logicalOr | logicalAnd | bitOr | bitAnd | bitXor
  | equal | notEqual | less | greater | lessEqual | greaterEqual
  | shiftLeft | shiftRight | add | subtract | multiply | divide | modulo
  deriving DecidableEq, Repr

/-- What `emit_binary_op` prints between two operands: a `~` after the operator belongs to
the right operand. -/
structure CInfix where
  operator : CBinaryOperator
  complement : Bool := false
  deriving DecidableEq, Repr

/-- The tags that `c_emit_expr` passes to `__calynda_rt_cast_value`. -/
inductive CalyndaRtTypeTag where
  | void | bool | int32 | int64 | string | rawWord
  deriving DecidableEq, Repr

mutual
inductive CExpr where
  | intLit (text : String)
  | floatLit (text : String)
  | boolLit (value : Bool)
  | charLit (text : String)
  | stringLit (text : String)
  | zero
  | template (parts : List CTemplatePart)
  | var (name : CVar)
  | externName (name : String)
  | closureNew (id : Nat) (lambda : Addr)
  | unregistered (lambda : Addr)
  | storeIndex (target index value : CExpr)
  | loaded (target index : CExpr) (operator : CInfix) (value : CExpr)
  | assign (target : CExpr) (operator : AstAssignmentOperator) (value : CExpr)
  | ternary (condition thenBranch elseBranch : CExpr)
  | floatArith (operator : CInfix) (leftFloat : Bool) (left : CExpr) (rightFloat : Bool)
      (right : CExpr)
  | floatCompare (operator : CInfix) (leftFloat : Bool) (left : CExpr) (rightFloat : Bool)
      (right : CExpr)
  | binary (operator : CInfix) (left right : CExpr)
  | floatNegate (operand : CExpr)
  | unary (operator : AstUnaryOperator) (operand : CExpr)
  | externCall (name : String) (arguments : List CExpr)
  | callCallable (callee : CExpr) (arguments : List CExpr)
  | indexLoad (target index : CExpr)
  | memberLoad (target : CExpr) (member : String)
  | castValue (expression : CExpr) (tag : CalyndaRtTypeTag)
  | arrayLiteral (elements : List CExpr)
  | postIncrement (operand : CExpr)
  | postDecrement (operand : CExpr)

inductive CTemplatePart where
  | text (text : String)
  | value (value : CExpr)
end

/-- A statement, or the `#line` directive in front of one. -/
inductive CStmt where
  | line (number : Int) (file : String)
  | declare (target : CVar) (initializer : CExpr)
  | returnWord (expression : CExpr)
  | returnVoid
  | exit
  | throw (expression : CExpr)
  | expression (expression : CExpr)
  | block (statements : List CStmt)

/-- `target = value;` -/
structure CAssignment where
  target : CVar
  value : CExpr

/-- The body of a lambda function, before its last `return (CalyndaRtWord)0;`. -/
inductive CLambdaBody where
  | plain (statements : List CStmt)
  | tailLoop (statements : List CStmt) (reassignments : List CAssignment)

structure CFunction where
  id : Nat
  lambda : Addr
  parameters : List CVar
  body : CLambdaBody

structure CExternDecl where
  name : String
  parameters : List AstParameter

/-- The function that `main` runs. -/
inductive CEntry where
  | start (argv : Option CVar) (body : List CStmt)
  | boot (body : List CStmt)

/-- The forward declaration of the entry point. -/
inductive CEntryDecl where
  | start | boot
  deriving DecidableEq, Repr

/-- What `c_emit_program` writes, in its parts. -/
structure CUnit where
  imports : List String
  externs : List CExternDecl
  globals : List CVar
  entryDecl : Option CEntryDecl
  functions : List CFunction
  initGlobals : List CAssignment
  entry : CEntry

/-! ## Names -/

/-- `C_KEYWORDS`. -/
def cKeywords : List String :=
  ["auto", "break", "case", "char", "const", "continue", "default", "do", "double", "else",
   "enum", "extern", "float", "for", "goto", "if", "inline", "int", "long", "register",
   "restrict", "return", "short", "signed", "sizeof", "static", "struct", "switch",
   "typedef", "union", "unsigned", "void", "volatile", "while", "_Alignas", "_Alignof",
   "_Atomic", "_Bool", "_Complex", "_Generic", "_Imaginary", "_Noreturn",
   "_Static_assert", "_Thread_local"]

/-- `c_emit_mangle`. -/
def cEmitMangle (qualifiedName : String) : String :=
  String.ofList (qualifiedName.toList.map fun c => if c = '.' then '_' else c)

/-- `c_emit_safe_name`. -/
def cEmitSafeName (name : String) : String :=
  if name ∈ cKeywords then "__cal_" ++ name else name

/-- `c_emit_global_name`. -/
def cEmitGlobalName (name : String) : String := "__cal_" ++ cEmitMangle name

def CVar.emitted (v : CVar) : String := cEmitGlobalName v.name

end Calynda
