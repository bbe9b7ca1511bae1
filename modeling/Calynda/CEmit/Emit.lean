import Calynda.CEmit.Syntax

/-!
# Emission

`c_emit_expr.c`, `c_emit_stmt.c`, `c_emit_closure.c` and `c_emit.c`. The lambdas are
collected first; an expression is then emitted against the table of the collected ones.
Neither allocation nor output fails here.
-/

namespace Calynda

structure CEmitLambdaEntry where
  lambda : HirLambdaExpression
  id : Nat
  ownerBindingName : Option String

/-- `CEmitContext`: the fields that emission reads or writes. -/
structure CEmitContext where
  lambdaCounter : Nat := 0
  lambdas : List CEmitLambdaEntry := []
  sourceFile : Option String := none
  isBootContext : Bool := false
  prescanOwnerBinding : Option String := none

/-! ## The pre-scan -/

/-- `prescan_register`. -/
def prescanRegister (ctx : CEmitContext) (lambda : HirLambdaExpression) : CEmitContext :=
  { ctx with
    lambdas := ctx.lambdas ++ [{
      lambda
      id := ctx.lambdaCounter
      ownerBindingName := ctx.prescanOwnerBinding }]
    lambdaCounter := ctx.lambdaCounter + 1 }

mutual
/-- `c_emit_prescan_expr`. -/
def cEmitPrescanExpr : HirExpression → CEmitContext → CEmitContext
  | .lambda _ addr parameters body, ctx =>
    let ctx := prescanRegister ctx ⟨addr, parameters, body⟩
    -- nested lambdas do not own the same binding
    let scanned := cEmitPrescanBlock body { ctx with prescanOwnerBinding := none }
    { scanned with prescanOwnerBinding := ctx.prescanOwnerBinding }
  | .binary _ _ left right, ctx => cEmitPrescanExpr right (cEmitPrescanExpr left ctx)
  | .unary _ _ operand, ctx => cEmitPrescanExpr operand ctx
  | .assignment _ _ target value, ctx => cEmitPrescanExpr value (cEmitPrescanExpr target ctx)
  | .ternary _ condition thenBranch elseBranch, ctx =>
    cEmitPrescanExpr elseBranch (cEmitPrescanExpr thenBranch (cEmitPrescanExpr condition ctx))
  | .call _ callee arguments, ctx => cEmitPrescanExprs arguments (cEmitPrescanExpr callee ctx)
  | .index _ target index, ctx => cEmitPrescanExpr index (cEmitPrescanExpr target ctx)
  | .member _ target _, ctx => cEmitPrescanExpr target ctx
  | .cast _ _ expression, ctx => cEmitPrescanExpr expression ctx
  | .arrayLiteral _ elements, ctx => cEmitPrescanExprs elements ctx
  | .template _ parts, ctx => cEmitPrescanTemplateParts parts ctx
  | .postIncrement _ operand, ctx => cEmitPrescanExpr operand ctx
  | .postDecrement _ operand, ctx => cEmitPrescanExpr operand ctx
  | .literal _ _, ctx => ctx
  | .symbol _ _, ctx => ctx
  | .discard _, ctx => ctx

def cEmitPrescanExprs : List HirExpression → CEmitContext → CEmitContext
  | [], ctx => ctx
  | e :: es, ctx => cEmitPrescanExprs es (cEmitPrescanExpr e ctx)

def cEmitPrescanTemplateParts : List HirTemplatePart → CEmitContext → CEmitContext
  | [], ctx => ctx
  | .text _ :: parts, ctx => cEmitPrescanTemplateParts parts ctx
  | .expression e :: parts, ctx => cEmitPrescanTemplateParts parts (cEmitPrescanExpr e ctx)

/-- `c_emit_prescan_block`. -/
def cEmitPrescanBlock : HirBlock → CEmitContext → CEmitContext
  | .mk statements, ctx => cEmitPrescanStatements statements ctx

def cEmitPrescanStatements : List HirStatement → CEmitContext → CEmitContext
  | [], ctx => ctx
  | s :: ss, ctx => cEmitPrescanStatements ss (cEmitPrescanStatement s ctx)

/-- The switch of `c_emit_prescan_block`: it has no case for a manual block. -/
def cEmitPrescanStatement : HirStatement → CEmitContext → CEmitContext
  | .localBinding _ _ initializer, ctx => cEmitPrescanExpr initializer ctx
  | .returnValue _ expression, ctx => cEmitPrescanExpr expression ctx
  | .returnVoid _, ctx => ctx
  | .throw _ expression, ctx => cEmitPrescanExpr expression ctx
  | .expression _ expression, ctx => cEmitPrescanExpr expression ctx
  | .exit _, ctx => ctx
  | .manual _ _ _, ctx => ctx
end

def cEmitPrescanDecl (ctx : CEmitContext) : HirTopLevelDecl → CEmitContext
  | .binding decl =>
    let scanned :=
      cEmitPrescanExpr decl.initializer { ctx with prescanOwnerBinding := some decl.name }
    { scanned with prescanOwnerBinding := none }
  | .start decl => cEmitPrescanBlock decl.body ctx
  | .boot decl => cEmitPrescanBlock decl.body ctx
  | .union _ => ctx
  | .externC _ => ctx

/-- `c_emit_prescan_program`. -/
def cEmitPrescanProgram (ctx : CEmitContext) (program : HirProgram) : CEmitContext :=
  program.topLevelDecls.foldl cEmitPrescanDecl ctx

/-- `c_emit_lambda_id`: the id of the first entry of the lambda, `none` for `-1`. -/
def cEmitLambdaId (ctx : CEmitContext) (lambda : Addr) : Option Nat :=
  (ctx.lambdas.find? fun entry => entry.lambda.addr == lambda).map CEmitLambdaEntry.id

/-! ## Expressions -/

/-- `emit_binary_op`. -/
def emitBinaryOp : AstBinaryOperator → CInfix
  | .logicalOr => { operator := .logicalOr }
  | .logicalAnd => { operator := .logicalAnd }
  | .bitOr => { operator := .bitOr }
  | .bitAnd => { operator := .bitAnd }
  | .bitXor => { operator := .bitXor }
  | .bitNand => { operator := .bitAnd, complement := true }
  | .bitXnor => { operator := .bitXor, complement := true }
  | .equal => { operator := .equal }
  | .notEqual => { operator := .notEqual }
  | .less => { operator := .less }
  | .greater => { operator := .greater }
  | .lessEqual => { operator := .lessEqual }
  | .greaterEqual => { operator := .greaterEqual }
  | .shiftLeft => { operator := .shiftLeft }
  | .shiftRight => { operator := .shiftRight }
  | .add => { operator := .add }
  | .subtract => { operator := .subtract }
  | .multiply => { operator := .multiply }
  | .divide => { operator := .divide }
  | .modulo => { operator := .modulo }

/-- `is_float_type`: it does not look at the array depth. -/
def isFloatType (type : CheckedType) : Bool :=
  decide (type.kind = .value) &&
    match type.primitive with
    | .float32 | .float64 | .float | .double => true
    | _ => false

/-- `is_arithmetic_op`. -/
def isArithmeticOp : AstBinaryOperator → Bool
  | .add | .subtract | .multiply | .divide | .modulo
  | .less | .greater | .lessEqual | .greaterEqual => true
  | _ => false

/-- `is_comparison_op`. -/
def isComparisonOp : AstBinaryOperator → Bool
  | .less | .greater | .lessEqual | .greaterEqual | .equal | .notEqual => true
  | _ => false

def cEmitLiteral : AstLiteral → CExpr
  | .integer text => .intLit text
  | .float text => .floatLit text
  | .bool value => .boolLit value
  | .char text => .charLit text
  | .string text => .stringLit text
  | .null => .zero

/-- The case of a symbol: an extern keeps its C name. -/
def cEmitSymbol (ref : HirSymbolRef) : CExpr :=
  match ref.kind with
  | .externC => .externName ref.name
  | kind => .var { name := ref.name, kind, symbol := ref.symbol }

def cEmitLambda (ctx : CEmitContext) (lambda : Addr) : CExpr :=
  match cEmitLambdaId ctx lambda with
  | some id => .closureNew id lambda
  | none => .unregistered lambda

/-- The operator of a compound assignment to an array element. -/
def compoundBinaryOp : AstAssignmentOperator → AstBinaryOperator
  | .add => .add
  | .subtract => .subtract
  | .multiply => .multiply
  | .divide => .divide
  | .modulo => .modulo
  | .bitAnd => .bitAnd
  | .bitOr => .bitOr
  | .bitXor => .bitXor
  | .shiftLeft => .shiftLeft
  | .shiftRight => .shiftRight
  | .assign => .add

/-- The value stored by an assignment to an array element. -/
def cEmitStoredValue (operator : AstAssignmentOperator) (target index value : CExpr) : CExpr :=
  match operator with
  | .assign => value
  | operator => .loaded target index (emitBinaryOp (compoundBinaryOp operator)) value

/-- The case of a binary operation: the types of the operands decide between float and
integer text. -/
def cEmitBinary (operator : AstBinaryOperator) (leftType rightType : CheckedType)
    (left right : CExpr) : CExpr :=
  let leftFloat := isFloatType leftType
  let rightFloat := isFloatType rightType
  let needFloat := (leftFloat || rightFloat) && isArithmeticOp operator
  let floatCmp := (leftFloat || rightFloat) && isComparisonOp operator &&
    !isArithmeticOp operator
  if needFloat && !isComparisonOp operator then
    .floatArith (emitBinaryOp operator) leftFloat left rightFloat right
  else if needFloat || floatCmp then
    .floatCompare (emitBinaryOp operator) leftFloat left rightFloat right
  else
    .binary (emitBinaryOp operator) left right

def cEmitUnary (operator : AstUnaryOperator) (operandType : CheckedType) (operand : CExpr) :
    CExpr :=
  if operator = .negate ∧ isFloatType operandType then .floatNegate operand
  else .unary operator operand

/-- The tag that a cast passes to the runtime. -/
def castTypeTag (type : CheckedType) : CalyndaRtTypeTag :=
  match type.kind with
  | .value =>
    match type.primitive with
    | .bool => .bool
    | .int32 | .int | .int8 | .int16 | .short | .sbyte => .int32
    | .int64 | .long => .int64
    | .string => .string
    | _ => .rawWord
  | .void => .void
  | _ => .rawWord

section
variable (ctx : CEmitContext)

mutual
/-- `c_emit_expr`. -/
def cEmitExpr : HirExpression → CExpr
  | .literal _ lit => cEmitLiteral lit
  | .template _ parts => .template (cEmitTemplateParts parts)
  | .symbol _ ref => cEmitSymbol ref
  | .lambda _ addr _ _ => cEmitLambda ctx addr
  | .assignment _ operator (.index _ target index) value =>
    .storeIndex (cEmitExpr target) (cEmitExpr index)
      (cEmitStoredValue operator (cEmitExpr target) (cEmitExpr index) (cEmitExpr value))
  | .assignment _ operator target value =>
    .assign (cEmitExpr target) operator (cEmitExpr value)
  | .ternary _ condition thenBranch elseBranch =>
    .ternary (cEmitExpr condition) (cEmitExpr thenBranch) (cEmitExpr elseBranch)
  | .binary _ operator left right =>
    cEmitBinary operator left.type right.type (cEmitExpr left) (cEmitExpr right)
  | .unary _ operator operand => cEmitUnary operator operand.type (cEmitExpr operand)
  | .call _ (.symbol info ref) arguments =>
    if ref.kind = .externC then .externCall ref.name (cEmitExprs arguments)
    else .callCallable (cEmitExpr (.symbol info ref)) (cEmitExprs arguments)
  | .call _ callee arguments => .callCallable (cEmitExpr callee) (cEmitExprs arguments)
  | .index _ target index => .indexLoad (cEmitExpr target) (cEmitExpr index)
  | .member _ target member => .memberLoad (cEmitExpr target) member
  | .cast _ targetType expression => .castValue (cEmitExpr expression) (castTypeTag targetType)
  | .arrayLiteral _ elements => .arrayLiteral (cEmitExprs elements)
  | .discard _ => .zero
  | .postIncrement _ operand => .postIncrement (cEmitExpr operand)
  | .postDecrement _ operand => .postDecrement (cEmitExpr operand)

def cEmitExprs : List HirExpression → List CExpr
  | [] => []
  | e :: es => cEmitExpr e :: cEmitExprs es

def cEmitTemplateParts : List HirTemplatePart → List CTemplatePart
  | [] => []
  | .text text :: parts => .text text :: cEmitTemplateParts parts
  | .expression e :: parts => .value (cEmitExpr e) :: cEmitTemplateParts parts
end

/-! ## Statements -/

/-- `emit_line_directive`. -/
def emitLineDirective (span : AstSourceSpan) : List CStmt :=
  match ctx.sourceFile with
  | none => []
  | some file => if span.startLine ≤ 0 then [] else [.line span.startLine file]

def HirLocal.variable (binding : HirLocal) : CVar :=
  { name := binding.name, kind := .local, symbol := some binding.symbol }

def HirParameter.variable (parameter : HirParameter) : CVar :=
  { name := parameter.name, kind := .parameter, symbol := some parameter.symbol }

def HirBindingDecl.variable (decl : HirBindingDecl) : CVar :=
  { name := decl.name, kind := .topLevelBinding, symbol := some decl.symbol }

mutual
/-- `c_emit_stmt`. -/
def cEmitStmt : HirStatement → List CStmt
  | .localBinding span binding initializer =>
    emitLineDirective ctx span ++ [.declare binding.variable (cEmitExpr ctx initializer)]
  | .returnValue span expression =>
    emitLineDirective ctx span ++ [.returnWord (cEmitExpr ctx expression)]
  | .returnVoid span =>
    emitLineDirective ctx span ++ [if ctx.isBootContext then .returnVoid else .returnWord .zero]
  | .exit span => emitLineDirective ctx span ++ [.exit]
  | .throw span expression =>
    emitLineDirective ctx span ++ [.throw (cEmitExpr ctx expression)]
  | .expression span expression =>
    emitLineDirective ctx span ++ [.expression (cEmitExpr ctx expression)]
  | .manual span _ body => emitLineDirective ctx span ++ [.block (cEmitBlock body)]

/-- `c_emit_block`. -/
def cEmitBlock : HirBlock → List CStmt
  | .mk statements => cEmitStmts statements

def cEmitStmts : List HirStatement → List CStmt
  | [] => []
  | s :: ss => cEmitStmt s ++ cEmitStmts ss
end

/-! ## Lambda functions -/

/-- `detect_tail_recursive_call`: the arguments of the call. -/
def detectTailRecursiveCall (body : HirBlock) (ownerName : Option String) :
    Option (List HirExpression) :=
  match ownerName, body.statements.getLast? with
  | some ownerName, some (.expression _ (.call _ (.symbol _ ref) arguments)) =>
    if ref.name = ownerName then some arguments else none
  | _, _ => none

/-- The re-assignments of the parameters, as many as there are both parameters and
arguments. -/
def cEmitReassignments (parameters : List HirParameter) (arguments : List HirExpression) :
    List CAssignment :=
  List.zipWith (fun p a => ⟨p.variable, cEmitExpr ctx a⟩) parameters arguments

def cEmitLambdaBody (entry : CEmitLambdaEntry) : CLambdaBody :=
  match detectTailRecursiveCall entry.lambda.body entry.ownerBindingName with
  | some arguments =>
    .tailLoop (cEmitStmts ctx entry.lambda.body.statements.dropLast)
      (cEmitReassignments ctx entry.lambda.parameters arguments)
  | none => .plain (cEmitBlock ctx entry.lambda.body)

/-- The body of the loop of `c_emit_lambda_functions`. -/
def cEmitLambdaFunction (entry : CEmitLambdaEntry) : CFunction where
  id := entry.id
  lambda := entry.lambda.addr
  parameters := entry.lambda.parameters.map HirParameter.variable
  body := cEmitLambdaBody ctx entry

/-- `c_emit_lambda_functions`. -/
def cEmitLambdaFunctions : List CFunction := ctx.lambdas.map (cEmitLambdaFunction ctx)

/-! ## Programs -/

def HirTopLevelDecl.binding? : HirTopLevelDecl → Option HirBindingDecl
  | .binding decl => some decl
  | _ => none

def HirTopLevelDecl.start? : HirTopLevelDecl → Option HirStartDecl
  | .start decl => some decl
  | _ => none

def HirTopLevelDecl.boot? : HirTopLevelDecl → Option HirBootDecl
  | .boot decl => some decl
  | _ => none

def HirTopLevelDecl.externC? : HirTopLevelDecl → Option HirExternDecl
  | .externC decl => some decl
  | _ => none

namespace HirProgram

def bindings (program : HirProgram) : List HirBindingDecl :=
  program.topLevelDecls.filterMap HirTopLevelDecl.binding?

/-- The first `start`, the one that is emitted. -/
def firstStart (program : HirProgram) : Option HirStartDecl :=
  program.topLevelDecls.findSome? HirTopLevelDecl.start?

/-- The first `boot`; with one, no `start` is emitted. -/
def firstBoot (program : HirProgram) : Option HirBootDecl :=
  program.topLevelDecls.findSome? HirTopLevelDecl.boot?

/-- The entry point that `emit_forward_decls` declares: the first of either kind. -/
def entryDecl (program : HirProgram) : Option CEntryDecl :=
  program.topLevelDecls.findSome? fun
    | .start _ => some .start
    | .boot _ => some .boot
    | _ => none

end HirProgram

/-- `emit_init_globals`. -/
def emitInitGlobals (program : HirProgram) : List CAssignment :=
  program.bindings.map fun decl => ⟨decl.variable, cEmitExpr ctx decl.initializer⟩

/-- `emit_start_function` and `emit_boot_function`. -/
def emitEntryFunction (program : HirProgram) : CEntry :=
  match program.firstBoot, program.firstStart with
  | some boot, _ => .boot (cEmitBlock { ctx with isBootContext := true } boot.body)
  | none, some start =>
    .start (start.parameters.head?.map HirParameter.variable) (cEmitBlock ctx start.body)
  | none, none => .start none []

end

def emitExternDecl (decl : HirExternDecl) : CExternDecl :=
  { name := decl.name, parameters := decl.parameters }

/-- The context after the pre-scan. -/
def cEmitScanned (sourceFile : Option String) (program : HirProgram) : CEmitContext :=
  cEmitPrescanProgram { sourceFile } program

/-- `c_emit_program_with_file`: the parts of the emitted file. -/
def cEmitUnit (program : HirProgram) (sourceFile : Option String) : CUnit :=
  let ctx := cEmitScanned sourceFile program
  { imports := program.imports.map HirNamedSymbol.name
    externs := (program.topLevelDecls.filterMap HirTopLevelDecl.externC?).map emitExternDecl
    globals := program.bindings.map HirBindingDecl.variable
    entryDecl := program.entryDecl
    functions := cEmitLambdaFunctions ctx
    initGlobals := emitInitGlobals ctx program
    entry := emitEntryFunction ctx program }

/-- `c_emit_program`. -/
def cEmitProgram (program : HirProgram) : CUnit := cEmitUnit program none

end Calynda
