import Calynda.Sema.SymbolTable
import Calynda.Sema.CheckedType

/-!
# The type checker

`type_checker_{expr,expr_ext,expr_more,lambda,block,resolve,util,check}.c`.

The functions of the checker call each other along the tree and, through
`tc_resolve_symbol_info`, along the references between bindings, so their recursion has no
structure of its own. Each of them is written here against a record `TcCalls` of the
functions it calls; `tcCalls n` closes the knot for call depth `n`, and a call at depth `0`
ends in `outOfFuel`.

The arrays `expression_entries` and `symbol_entries`, searched by pointer, are finite maps.
A function that fails has set an error, every caller passes the failure on, and only the
first error is kept: so the monad stops at the first error.
-/

namespace Calynda

structure TypeCheckInfo where
  type : CheckedType
  isCallable : Bool := false
  callableReturnType : CheckedType := tcCheckedTypeInvalid
  parameters : Option (List AstParameter) := none

structure TypeCheckSymbolEntry where
  info : TypeCheckInfo := { type := tcCheckedTypeInvalid }
  isResolved : Bool := false
  isResolving : Bool := false

abbrev TypeCheckError := Diagnostic

/-- The two tables of the checker. -/
structure TcTables where
  expressionEntries : Addr → Option TypeCheckInfo := fun _ => none
  symbolEntries : Addr → Option TypeCheckSymbolEntry := fun _ => none

/-- What the checker reads and does not change: `checker->symbols` and
`checker->resolver`. -/
structure CheckContext where
  symbols : SymbolTable
  resolver : TypeResolver

inductive TcFailure where
  | error (error : TypeCheckError)
  | outOfFuel

abbrev TcM := StateT TcTables (Except TcFailure)

def tcSetError {α : Type} (message : String) : TcM α :=
  throw (.error (Diagnostic.plain message))

def tcSetErrorAt {α : Type} (primarySpan : AstSourceSpan)
    (relatedSpan : Option AstSourceSpan) (message : String) : TcM α :=
  throw (.error (Diagnostic.at primarySpan relatedSpan message))

/-! ## Type check info -/

def tcTypeCheckInfoMake (type : CheckedType) : TypeCheckInfo := { type }

def tcTypeCheckInfoMakeCallable (returnType : CheckedType)
    (parameters : Option (List AstParameter)) : TypeCheckInfo :=
  { type := returnType, isCallable := true, callableReturnType := returnType, parameters }

def tcTypeCheckInfoMakeExternalValue : TypeCheckInfo :=
  tcTypeCheckInfoMake tcCheckedTypeExternal

def tcTypeCheckInfoMakeExternalCallable : TypeCheckInfo :=
  tcTypeCheckInfoMakeCallable tcCheckedTypeExternal none

/-- `tc_type_check_source_type`: a callable stands for what it returns. -/
def tcTypeCheckSourceType (info : TypeCheckInfo) : CheckedType :=
  if info.isCallable then info.callableReturnType else info.type

/-- `symbol->name ? symbol->name : "<anonymous>"`. -/
def Symbol.displayName (symbol : Symbol) : String := symbol.name.getD "<anonymous>"

/-! ## The tables -/

def setEntry {α : Type} (entries : Addr → Option α) (addr : Addr) (value : α) :
    Addr → Option α :=
  fun a => if a = addr then some value else entries a

def tcStoreExpressionInfo (expression : AstExpression) (info : TypeCheckInfo) :
    TcM TypeCheckInfo := do
  modify fun t => { t with
    expressionEntries := setEntry t.expressionEntries expression.addr info }
  return info

def tcStoreSymbolEntry (symbol : Symbol) (entry : TypeCheckSymbolEntry) : TcM Unit :=
  modify fun t => { t with symbolEntries := setEntry t.symbolEntries symbol.addr entry }

/-- `tc_ensure_symbol_entry`: a symbol without an entry gets an empty one. -/
def tcEnsureSymbolEntry (symbol : Symbol) : TcM TypeCheckSymbolEntry := do
  return ((← get).symbolEntries symbol.addr).getD {}

def tcCheckedTypeFromAstType (c : CheckContext) (type : AstType) : TcM CheckedType :=
  match c.resolver.getType type.addr with
  | none => tcSetError "Internal error: missing resolved source type."
  | some resolvedType => return tcCheckedTypeFromResolvedType resolvedType

def tcCheckedTypeFromCastTarget (c : CheckContext) (expression : Addr) : TcM CheckedType :=
  match c.resolver.getCastTargetType expression with
  | none => tcSetError "Internal error: missing resolved cast target type."
  | some resolvedType => return tcCheckedTypeFromResolvedType resolvedType

/-! ## Block contexts -/

inductive BlockContextKind where
  | lambda | start | boot
  deriving DecidableEq, Repr

structure BlockContext where
  kind : BlockContextKind
  expectedReturnType : Option CheckedType
  ownerSpan : AstSourceSpan
  relatedSpan : Option AstSourceSpan

def tcBlockContextName : BlockContextKind → String
  | .lambda => "lambda body"
  | .start => "start"
  | .boot => "boot"

def blockContextOwner : BlockContextKind → String
  | .lambda => "Lambda"
  | .start => "start"
  | .boot => "boot"

/-- `tc_block_context_related_span`. -/
def tcBlockContextRelatedSpan (context : BlockContext) (primarySpan : AstSourceSpan) :
    Option AstSourceSpan :=
  match context.relatedSpan with
  | none => none
  | some related =>
    if !related.isValid then none
    else if primarySpan.isValid ∧ primarySpan.startLine = related.startLine ∧
        primarySpan.startColumn = related.startColumn then none
    else some related

/-! ## The recursive calls -/

/-- The functions of the checker that call each other. -/
structure TcCalls where
  checkExpression : AstExpression → TcM TypeCheckInfo
  checkLambda : AstExpression → Option CheckedType → Option AstSourceSpan → TcM TypeCheckInfo
  checkBlock : AstBlock → BlockContext → TcM (CheckedType × AstSourceSpan)
  resolveSymbol : Symbol → TcM TypeCheckInfo

def TcCalls.outOfFuel : TcCalls where
  checkExpression _ := throw .outOfFuel
  checkLambda _ _ _ := throw .outOfFuel
  checkBlock _ _ := throw .outOfFuel
  resolveSymbol _ := throw .outOfFuel

section
variable (c : CheckContext) (k : TcCalls)

/-! ## Operators and assignment targets -/

def tcCheckBinaryOperator (span : AstSourceSpan) (operator : AstBinaryOperator)
    (leftType rightType : CheckedType) : TcM CheckedType :=
  match tcBinaryOperatorType operator leftType rightType with
  | some resultType => return resultType
  | none =>
    tcSetErrorAt span none
      s!"Operator '{tcBinaryOperatorName operator}' cannot be applied to types {checkedTypeToString leftType} and {checkedTypeToString rightType}."

/-- `tc_expression_is_assignment_target`, with the root symbol it reports. -/
def tcExpressionIsAssignmentTarget (t : TcTables) :
    AstExpression → Bool × Option Symbol
  | .identifier node _ =>
    match c.symbols.resolveIdentifier node.addr with
    | none => (false, none)
    | some symbol =>
      (decide (symbol.kind = .topLevelBinding ∨ symbol.kind = .parameter ∨
        symbol.kind = .local), some symbol)
  | .index _ target _ =>
    match t.expressionEntries target.addr with
    | none => (false, none)
    | some targetInfo =>
      if (tcTypeCheckSourceType targetInfo).kind = .external then (true, none)
      else tcExpressionIsAssignmentTarget t target
  | .member _ target _ =>
    match t.expressionEntries target.addr with
    | none => (false, none)
    | some targetInfo =>
      if (tcTypeCheckSourceType targetInfo).kind = .external then (true, none)
      else tcExpressionIsAssignmentTarget t target
  | .grouping _ inner => tcExpressionIsAssignmentTarget t inner
  | .discard _ => (true, none)
  | _ => (false, none)

/-! ## Identifiers -/

/-- The walk of `tc_validate_internal_access`: does it leave a lambda before it reaches
the scope of the symbol? -/
def crossesLambda (symbolScope : Option ScopeId) : List (ScopeId × ScopeKind) → Bool
  | [] => false
  | (id, kind) :: parents =>
    if some id = symbolScope then false
    else if kind = .lambda then true
    else crossesLambda symbolScope parents

def tcValidateInternalAccess (node : AstNode) (symbol : Symbol) : TcM Unit :=
  if !symbol.isInternal then return
  else
    match c.symbols.findResolution node.addr with
    | none => return
    | some resolution =>
      if crossesLambda symbol.scope resolution.scope then return
      else
        tcSetErrorAt node.span (some symbol.declarationSpan)
          s!"Internal binding '{symbol.displayName}' can only be called from a nested lambda."

def tcCheckIdentifier (node : AstNode) (name : String) : TcM TypeCheckInfo :=
  match c.symbols.resolveIdentifier node.addr with
  | none => tcSetErrorAt node.span none s!"Unresolved identifier '{name}'."
  | some symbol => do
    tcValidateInternalAccess c node symbol
    k.resolveSymbol symbol

/-! ## Expressions -/

def tcCheckTemplateParts : List AstTemplatePart → TcM Unit
  | [] => return
  | .text _ :: parts => tcCheckTemplateParts parts
  | .expression e :: parts => do
    let partInfo ← k.checkExpression e
    if partInfo.isCallable ∧ (partInfo.parameters.any fun ps => ps.length == 0) ∧
        partInfo.callableReturnType.kind = .void then
      tcSetErrorAt e.span none
        "Template interpolation cannot auto-call a zero-argument callable returning void."
    else if (tcTypeCheckSourceType partInfo).kind = .void then
      tcSetErrorAt e.span none "Template interpolation cannot use a void expression."
    else
      tcCheckTemplateParts parts

def literalType : AstLiteral → CheckedType
  | .integer _ => tcCheckedTypeValue .int32 0
  | .float _ => tcCheckedTypeValue .float64 0
  | .bool _ => tcCheckedTypeValue .bool 0
  | .char _ => tcCheckedTypeValue .char 0
  | .string _ => tcCheckedTypeValue .string 0
  | .null => tcCheckedTypeNull

def tcCheckAssignment (node : AstNode) (operator : AstAssignmentOperator)
    (target value : AstExpression) : TcM TypeCheckInfo := do
  let targetInfo ← k.checkExpression target
  let valueInfo ← k.checkExpression value
  let (isTarget, targetSymbol) := tcExpressionIsAssignmentTarget c (← get) target
  if !isTarget then
    tcSetErrorAt target.span (targetSymbol.map Symbol.declarationSpan)
      s!"Operator '{tcAssignmentOperatorName operator}' requires an assignable target."
  else if targetSymbol.any Symbol.isFinal then
    let symbolName := targetSymbol.elim "<anonymous>" Symbol.displayName
    tcSetErrorAt target.span (targetSymbol.map Symbol.declarationSpan)
      s!"Cannot assign to final symbol '{symbolName}'."
  else
    match target with
    | .discard _ => return valueInfo
    | _ =>
      let sourceType := tcTypeCheckSourceType valueInfo
      let assignable ←
        match tcMapCompoundAssignment operator with
        | none =>
          pure ((valueInfo.isCallable && decide (sourceType.kind = .external)) ||
            tcCheckedTypeAssignable targetInfo.type sourceType)
        | some binaryOperator => do
          let resultType ←
            tcCheckBinaryOperator node.span binaryOperator targetInfo.type sourceType
          pure (tcCheckedTypeAssignable targetInfo.type resultType)
      if !assignable then
        tcSetErrorAt value.span (some target.span)
          s!"Operator '{tcAssignmentOperatorName operator}' cannot assign {checkedTypeToString sourceType} to {checkedTypeToString targetInfo.type}."
      else
        return { valueInfo with
          type := targetInfo.type
          callableReturnType :=
            if valueInfo.isCallable then targetInfo.type
            else valueInfo.callableReturnType }

def tcCheckTernary (condition thenBranch elseBranch : AstExpression) :
    TcM TypeCheckInfo := do
  let conditionInfo ← k.checkExpression condition
  let conditionType := tcTypeCheckSourceType conditionInfo
  if !tcCheckedTypeIsBool conditionType then
    tcSetErrorAt condition.span none
      s!"Ternary condition must have type bool but got {checkedTypeToString conditionType}."
  else
    let thenInfo ← k.checkExpression thenBranch
    let elseInfo ← k.checkExpression elseBranch
    let thenType := tcTypeCheckSourceType thenInfo
    let elseType := tcTypeCheckSourceType elseInfo
    match tcMergeTypesForInference thenType elseType with
    | none =>
      tcSetErrorAt elseBranch.span (some thenBranch.span)
        s!"Ternary branches must have compatible types, but got {checkedTypeToString thenType} and {checkedTypeToString elseType}."
    | some mergedType => return tcTypeCheckInfoMake mergedType

def tcCheckBinary (node : AstNode) (operator : AstBinaryOperator)
    (left right : AstExpression) : TcM TypeCheckInfo := do
  let leftInfo ← k.checkExpression left
  let rightInfo ← k.checkExpression right
  let resultType ← tcCheckBinaryOperator node.span operator
    (tcTypeCheckSourceType leftInfo) (tcTypeCheckSourceType rightInfo)
  return tcTypeCheckInfoMake resultType

def tcCheckUnary (node : AstNode) (operator : AstUnaryOperator) (operand : AstExpression) :
    TcM TypeCheckInfo := do
  let operandInfo ← k.checkExpression operand
  let operandType := tcTypeCheckSourceType operandInfo
  match operator with
  | .logicalNot =>
    if tcCheckedTypeIsBool operandType then
      return tcTypeCheckInfoMake (tcCheckedTypeValue .bool 0)
    else
      tcSetErrorAt node.span none
        s!"Operator '!' requires bool but got {checkedTypeToString operandType}."
  | .bitwiseNot =>
    if tcCheckedTypeIsIntegral operandType then
      return tcTypeCheckInfoMake operandType
    else
      tcSetErrorAt node.span none
        s!"Operator '~' requires an integral operand but got {checkedTypeToString operandType}."
  | _ =>
    if tcCheckedTypeIsNumeric operandType then
      return tcTypeCheckInfoMake operandType
    else
      tcSetErrorAt node.span none
        s!"Unary operator requires a numeric operand but got {checkedTypeToString operandType}."

/-- The parameter that argument `i` is checked against: the last one for the arguments
that a varargs parameter takes. -/
def parameterForArgument (parameters : List AstParameter) (i : Nat) : Option AstParameter :=
  if i < parameters.length then parameters[i]? else parameters.getLast?

def tcCheckArguments (parameters : Option (List AstParameter)) :
    Nat → List AstExpression → TcM Unit
  | _, [] => return
  | i, argument :: arguments => do
    let argumentInfo ← k.checkExpression argument
    let argumentType := tcTypeCheckSourceType argumentInfo
    match parameters with
    | some parameters =>
      match parameterForArgument parameters i with
      -- the arity check has rejected arguments to a call without parameters
      | none => tcCheckArguments (some parameters) (i + 1) arguments
      | some parameter =>
        let parameterType ← tcCheckedTypeFromAstType c parameter.type
        if !tcCheckedTypeAssignable parameterType argumentType then
          tcSetErrorAt argument.span (some parameter.nameSpan)
            s!"Argument {i + 1} to call expects {checkedTypeToString parameterType} but got {checkedTypeToString argumentType}."
        else
          tcCheckArguments (some parameters) (i + 1) arguments
    | none =>
      if argumentType.kind = .void then
        tcSetErrorAt argument.span none "Call arguments cannot have type void."
      else
        tcCheckArguments none (i + 1) arguments

def hasVarargs (parameters : List AstParameter) : Bool :=
  parameters.getLast?.any AstParameter.isVarargs

def requiredCount (parameters : List AstParameter) : Nat :=
  if hasVarargs parameters then parameters.length - 1 else parameters.length

def tcCheckArity (node : AstNode) (parameters : List AstParameter) (argumentCount : Nat) :
    TcM Unit :=
  let required := requiredCount parameters
  let plural := if required = 1 then "" else "s"
  if hasVarargs parameters then
    if argumentCount < required then
      tcSetErrorAt node.span none
        s!"Call expects at least {required} argument{plural} but got {argumentCount}."
    else return
  else if argumentCount ≠ required then
    tcSetErrorAt node.span none
      s!"Call expects {required} argument{plural} but got {argumentCount}."
  else return

def tcCheckCall (node : AstNode) (callee : AstExpression) (arguments : List AstExpression) :
    TcM TypeCheckInfo := do
  let calleeInfo ← k.checkExpression callee
  if !calleeInfo.isCallable then
    tcSetErrorAt callee.span none
      s!"Expression of type {checkedTypeToString calleeInfo.type} is not callable."
  else
    match calleeInfo.parameters with
    | some parameters => tcCheckArity node parameters arguments.length
    | none => pure ()
    tcCheckArguments c k calleeInfo.parameters 0 arguments
    return tcTypeCheckInfoMake calleeInfo.callableReturnType

def tcCheckIndex (target index : AstExpression) : TcM TypeCheckInfo := do
  let targetInfo ← k.checkExpression target
  let indexInfo ← k.checkExpression index
  let targetType := tcTypeCheckSourceType targetInfo
  let indexType := tcTypeCheckSourceType indexInfo
  if !tcCheckedTypeIsIntegral indexType then
    tcSetErrorAt index.span none
      s!"Index expression must have an integral type but got {checkedTypeToString indexType}."
  else if targetType.kind = .external then
    return tcTypeCheckInfoMakeExternalValue
  else if targetType.kind = .value ∧ 0 < targetType.arrayDepth then
    return tcTypeCheckInfoMake
      (tcCheckedTypeValue targetType.primitive (targetType.arrayDepth - 1))
  else
    tcSetErrorAt target.span none
      s!"Cannot index expression of type {checkedTypeToString targetType}."

/-- The union symbol that the target of a member access names, if it is one. -/
def memberUnionSymbol (target : AstExpression) : Option Symbol :=
  match target with
  | .identifier node _ =>
    (c.symbols.resolveIdentifier node.addr).filter fun symbol =>
      decide (symbol.kind = .union)
  | _ => none

/-- The address that `union_sym->declaration` points to. -/
def Symbol.unionOwner (symbol : Symbol) : Addr :=
  match symbol.declaration with
  | .union decl => decl.addr
  | _ => 0

def unionVariant (unionSymbol : Symbol) (member : String) : Option Symbol :=
  match c.symbols.findScope unionSymbol.unionOwner .union with
  | none => none
  | some unionScope =>
    (scopeLookupLocal unionScope member).filter fun symbol =>
      decide (symbol.kind = .variant)

def tcCheckMember (node : AstNode) (target : AstExpression) (member : String) :
    TcM TypeCheckInfo := do
  let targetInfo ← k.checkExpression target
  let targetType := tcTypeCheckSourceType targetInfo
  if targetType.kind = .external then
    return tcTypeCheckInfoMakeExternalCallable
  else
    match (if targetType.kind = .named then memberUnionSymbol c target else none) with
    | some unionSymbol =>
      match unionVariant c unionSymbol member with
      | some variantSymbol =>
        if variantSymbol.variantHasPayload then
          return tcTypeCheckInfoMakeCallable targetType none
        else
          return tcTypeCheckInfoMake targetType
      | none =>
        let unionName := unionSymbol.name.getD "?"
        tcSetErrorAt node.span none
          s!"Union '{unionName}' has no variant named '{member}'."
    | none =>
      tcSetErrorAt target.span none
        s!"Member access requires an imported or external target, but got {checkedTypeToString targetType}."

def tcCheckCast (node : AstNode) (expression : AstExpression) : TcM TypeCheckInfo := do
  let operandInfo ← k.checkExpression expression
  let operandType := tcTypeCheckSourceType operandInfo
  let targetType ← tcCheckedTypeFromCastTarget c node.addr
  if operandType.kind = .external ∨ tcCheckedTypeIsNumeric operandType then
    return tcTypeCheckInfoMake targetType
  else
    tcSetErrorAt expression.span none
      s!"Cannot cast expression of type {checkedTypeToString operandType} to {checkedTypeToString targetType}."

/-- The loop over the elements of an array literal after the first one, whose type the
accumulator starts with. -/
def tcCheckElements (firstSpan : AstSourceSpan) : CheckedType → List AstExpression →
    TcM CheckedType
  | elementType, [] => return elementType
  | elementType, element :: elements => do
    let candidateType ← tcCheckElement element
    match tcMergeTypesForInference elementType candidateType with
    | none =>
      tcSetErrorAt element.span (some firstSpan)
        s!"Array literal elements must have compatible types, but got {checkedTypeToString elementType} and {checkedTypeToString candidateType}."
    | some elementType => tcCheckElements firstSpan elementType elements
where
  tcCheckElement (element : AstExpression) : TcM CheckedType := do
    let elementInfo ← k.checkExpression element
    let candidateType := tcTypeCheckSourceType elementInfo
    if candidateType.kind = .void then
      tcSetErrorAt element.span none "Array literal elements cannot have type void."
    else if candidateType.kind = .null then
      tcSetErrorAt element.span none "Array literal elements cannot have type null."
    else
      return candidateType

def tcCheckArrayLiteral (node : AstNode) (elements : List AstExpression) :
    TcM TypeCheckInfo :=
  match elements with
  | [] =>
    tcSetErrorAt node.span none
      "Cannot infer the element type of an empty array literal."
  | first :: rest => do
    let firstType ← tcCheckElements.tcCheckElement k first
    let elementType ← tcCheckElements k first.span firstType rest
    if elementType.kind ≠ .value then
      tcSetErrorAt node.span none
        "Array literal element type cannot be inferred from external values."
    else
      return tcTypeCheckInfoMake
        (tcCheckedTypeValue elementType.primitive (elementType.arrayDepth + 1))

/-- Postfix `++` and `--`. -/
def tcCheckPostfix (node : AstNode) (operand : AstExpression) : TcM TypeCheckInfo := do
  let operandInfo ← k.checkExpression operand
  let operandType := tcTypeCheckSourceType operandInfo
  if !tcCheckedTypeIsNumeric operandType then
    tcSetErrorAt node.span none
      s!"Postfix operator requires a numeric operand but got {checkedTypeToString operandType}."
  else
    return operandInfo

/-- The info that `tc_check_expression`, `tc_check_expression_ext` and
`tc_check_expression_more` compute for an expression that is not a lambda. -/
def tcExpressionInfo : AstExpression → TcM TypeCheckInfo
  | .literal _ lit => return tcTypeCheckInfoMake (literalType lit)
  | .template _ parts => do
    tcCheckTemplateParts k parts
    return tcTypeCheckInfoMake (tcCheckedTypeValue .string 0)
  | .identifier node name => tcCheckIdentifier c k node name
  | .lambda node parameters body => k.checkLambda (.lambda node parameters body) none none
  | .assignment node operator target value => tcCheckAssignment c k node operator target value
  | .ternary _ condition thenBranch elseBranch =>
    tcCheckTernary k condition thenBranch elseBranch
  | .binary node operator left right => tcCheckBinary k node operator left right
  | .unary node operator operand => tcCheckUnary k node operator operand
  | .call node callee arguments => tcCheckCall c k node callee arguments
  | .index _ target index => tcCheckIndex k target index
  | .member node target member => tcCheckMember c k node target member
  | .cast node _ expression => tcCheckCast c k node expression
  | .arrayLiteral node elements => tcCheckArrayLiteral k node elements
  | .grouping _ inner => k.checkExpression inner
  | .discard _ => return tcTypeCheckInfoMake tcCheckedTypeVoid
  | .postIncrement node operand => tcCheckPostfix k node operand
  | .postDecrement node operand => tcCheckPostfix k node operand

/-- `tc_check_expression`: an expression that has an entry is not checked again. -/
def tcCheckExpression (expression : AstExpression) : TcM TypeCheckInfo := do
  match (← get).expressionEntries expression.addr with
  | some cachedInfo => return cachedInfo
  | none =>
    let info ← tcExpressionInfo c k expression
    tcStoreExpressionInfo expression info

/-! ## Heterogeneous array literals -/

def tcCheckHeteroElements : List AstExpression → TcM Unit
  | [] => return
  | element :: elements => do
    let elementInfo ← k.checkExpression element
    let elementType := tcTypeCheckSourceType elementInfo
    if elementType.kind = .void then
      tcSetErrorAt element.span none "Heterogeneous array elements cannot have type void."
    else if elementType.kind = .null then
      tcSetErrorAt element.span none "Heterogeneous array elements cannot have type null."
    else
      tcCheckHeteroElements elements

def tcCheckHeteroArrayLiteral (expression : AstExpression) (elements : List AstExpression) :
    TcM TypeCheckInfo :=
  match elements with
  | [] =>
    tcSetErrorAt expression.span none
      "Cannot create an empty heterogeneous array literal."
  | elements => do
    tcCheckHeteroElements k elements
    tcStoreExpressionInfo expression
      (tcTypeCheckInfoMake (tcCheckedTypeNamed (some "arr") 1 0))

/-! ## Lambdas -/

def tcResolveParametersInScope (scope : Scope) : List AstParameter → TcM Unit
  | [] => return
  | parameter :: parameters =>
    match scopeLookupLocal scope parameter.name with
    | none =>
      tcSetErrorAt parameter.nameSpan none
        s!"Internal error: missing parameter symbol '{parameter.name}'."
    | some symbol => do
      let _ ← k.resolveSymbol symbol
      tcResolveParametersInScope scope parameters

/-- The return type of the body of a lambda. -/
def tcCheckLambdaBody (span : AstSourceSpan) (body : AstLambdaBody)
    (expectedReturnType : Option CheckedType) (relatedSpan : Option AstSourceSpan) :
    TcM CheckedType :=
  match body with
  | .block block => do
    let (returnType, _) ← k.checkBlock block {
      kind := .lambda
      expectedReturnType
      ownerSpan := span
      relatedSpan := relatedSpan.filter AstSourceSpan.isValid }
    return returnType
  | .expression expression => do
    let bodyInfo ← k.checkExpression expression
    let returnType := tcTypeCheckSourceType bodyInfo
    match expectedReturnType with
    | none => return returnType
    | some expected =>
      if tcCheckedTypeAssignable expected returnType then return returnType
      else
        tcSetErrorAt expression.span relatedSpan
          s!"Lambda body must produce {checkedTypeToString expected} but got {checkedTypeToString returnType}."

def tcCheckLambda (node : AstNode) (parameters : List AstParameter) (body : AstLambdaBody)
    (expectedReturnType : Option CheckedType) (relatedSpan : Option AstSourceSpan) :
    TcM TypeCheckInfo :=
  match c.symbols.findScope node.addr .lambda with
  | none => tcSetErrorAt node.span none "Internal error: missing lambda scope."
  | some lambdaScope => do
    tcResolveParametersInScope k lambdaScope parameters
    let returnType ← tcCheckLambdaBody k node.span body expectedReturnType relatedSpan
    tcStoreExpressionInfo (.lambda node parameters body)
      (tcTypeCheckInfoMakeCallable returnType (some parameters))

/-- `tc_check_lambda_expression`: with an expected return type the lambda is checked even
when it has an entry. -/
def tcCheckLambdaExpression (expression : AstExpression)
    (expectedReturnType : Option CheckedType) (relatedSpan : Option AstSourceSpan) :
    TcM TypeCheckInfo :=
  match expression with
  | .lambda node parameters body => do
    match expectedReturnType, (← get).expressionEntries expression.addr with
    | none, some cachedInfo => return cachedInfo
    | _, _ => tcCheckLambda c k node parameters body expectedReturnType relatedSpan
  -- every caller passes a lambda
  | _ => tcSetErrorAt expression.span none "Internal error: missing lambda scope."

/-! ## Blocks -/

/-- The loop state of `tc_check_block`; `firstReturnSpan` is set with `sawReturn`. -/
structure BlockReturn where
  currentReturnType : CheckedType := tcCheckedTypeVoid
  firstReturnSpan : AstSourceSpan := .zero
  sawReturn : Bool := false

/-- A further return type of a block, merged with those before it. -/
def mergeBlockReturn (acc : BlockReturn) (type : CheckedType) (span : AstSourceSpan)
    (onError : TcM BlockReturn) : TcM BlockReturn :=
  if !acc.sawReturn then
    return { currentReturnType := type, firstReturnSpan := span, sawReturn := true }
  else
    match tcMergeReturnTypes acc.currentReturnType type with
    | none => onError
    | some mergedType => return { acc with currentReturnType := mergedType }

def inconsistentReturn (acc : BlockReturn) (type : CheckedType) (span : AstSourceSpan)
    (relatedSpan : Option AstSourceSpan) : TcM BlockReturn :=
  tcSetErrorAt span relatedSpan
    s!"Inconsistent return types in block: {checkedTypeToString acc.currentReturnType} and {checkedTypeToString type}."

def tcCheckReturnValue (context : BlockContext) (acc : BlockReturn)
    (expression : AstExpression) : TcM BlockReturn := do
  let info ← k.checkExpression expression
  let type := tcTypeCheckSourceType info
  match context.expectedReturnType with
  | some expected =>
    if !tcCheckedTypeAssignable expected type then
      tcSetErrorAt expression.span (tcBlockContextRelatedSpan context expression.span)
        s!"Return statement in {tcBlockContextName context.kind} must produce {checkedTypeToString expected} but got {checkedTypeToString type}."
    else pure ()
  | none => pure ()
  mergeBlockReturn acc type expression.span
    (inconsistentReturn acc type expression.span (some acc.firstReturnSpan))

def tcCheckReturnVoid (context : BlockContext) (acc : BlockReturn) (span : AstSourceSpan) :
    TcM BlockReturn := do
  match context.expectedReturnType with
  | some expected =>
    if expected.kind ≠ .void then
      tcSetErrorAt span (tcBlockContextRelatedSpan context span)
        s!"Return statement in {tcBlockContextName context.kind} must produce {checkedTypeToString expected}."
    else pure ()
  | none => pure ()
  mergeBlockReturn acc tcCheckedTypeVoid span
    (inconsistentReturn acc tcCheckedTypeVoid span (some acc.firstReturnSpan))

def exitForbidden (context : BlockContext) : Bool :=
  decide (context.kind ≠ .lambda) ||
    context.expectedReturnType.any fun expected => decide (expected.kind ≠ .void)

def tcCheckExit (context : BlockContext) (acc : BlockReturn) (span : AstSourceSpan) :
    TcM BlockReturn :=
  if exitForbidden context then
    tcSetErrorAt span (tcBlockContextRelatedSpan context span)
      "exit is only permitted in void-typed lambda blocks."
  else
    mergeBlockReturn acc tcCheckedTypeVoid span
      (inconsistentReturn acc tcCheckedTypeVoid acc.firstReturnSpan none)

def tcCheckManual (context : BlockContext) (acc : BlockReturn) (body : AstBlock) :
    TcM BlockReturn := do
  let (type, span) ← k.checkBlock body context
  if span.isValid then
    mergeBlockReturn acc type span
      (tcSetErrorAt span none "Inconsistent return types in manual block.")
  else
    return acc

def tcCheckStatement (blockScope : Scope) (context : BlockContext) (acc : BlockReturn) :
    AstStatement → TcM BlockReturn
  | .localBinding _ _ _ _ _ name nameSpan _ =>
    match scopeLookupLocal blockScope name with
    | none =>
      tcSetErrorAt nameSpan none s!"Internal error: missing local symbol '{name}'."
    | some symbol => do
      let _ ← k.resolveSymbol symbol
      return acc
  | .returnValue _ expression => tcCheckReturnValue k context acc expression
  | .returnVoid span => tcCheckReturnVoid context acc span
  | .exit span => tcCheckExit context acc span
  | .throw _ expression => do
    let _ ← k.checkExpression expression
    return acc
  | .expression _ expression => do
    let _ ← k.checkExpression expression
    return acc
  | .manual _ _ body => tcCheckManual k context acc body

def tcCheckStatements (blockScope : Scope) (context : BlockContext) :
    BlockReturn → List AstStatement → TcM BlockReturn
  | acc, [] => return acc
  | acc, statement :: statements => do
    let acc ← tcCheckStatement k blockScope context acc statement
    tcCheckStatements blockScope context acc statements

/-- The test after the loop of `tc_check_block`. -/
def tcCheckBlockResult (context : BlockContext) (acc : BlockReturn) :
    TcM (CheckedType × AstSourceSpan) :=
  match context.expectedReturnType with
  | none => return (acc.currentReturnType, acc.firstReturnSpan)
  | some expected =>
    if tcCheckedTypeAssignable expected acc.currentReturnType then
      return (acc.currentReturnType, acc.firstReturnSpan)
    else
      let primarySpan :=
        if acc.firstReturnSpan.isValid then acc.firstReturnSpan else context.ownerSpan
      tcSetErrorAt primarySpan (tcBlockContextRelatedSpan context primarySpan)
        s!"{blockContextOwner context.kind} body must produce {checkedTypeToString expected} but got {checkedTypeToString acc.currentReturnType}."

def tcCheckBlock (block : AstBlock) (context : BlockContext) :
    TcM (CheckedType × AstSourceSpan) :=
  match c.symbols.findScope block.addr .block with
  | none => tcSetError "Internal error: missing block scope."
  | some blockScope => do
    let acc ← tcCheckStatements k blockScope context {} block.statements
    tcCheckBlockResult context acc

/-! ## Symbols -/

def tcCheckInferredBinding (symbol : Symbol) (initializer : AstExpression) :
    TcM TypeCheckInfo := do
  let initializerInfo ← k.checkExpression initializer
  if !initializerInfo.isCallable ∧
      (initializerInfo.type.kind = .void ∨ initializerInfo.type.kind = .null) then
    let source := if initializerInfo.type.kind = .void then "a void expression" else "null"
    tcSetErrorAt initializer.span (some symbol.declarationSpan)
      s!"Cannot infer a type for {symbolKindName symbol.kind} '{symbol.displayName}' from {source}."
  else
    return initializerInfo

/-- The info of an initializer that is checked against a declared type. -/
def tcCheckInitializer (symbol : Symbol) (targetType : CheckedType)
    (initializer : AstExpression) : TcM TypeCheckInfo :=
  match initializer with
  | .lambda _ _ _ => k.checkLambda initializer (some targetType) (some symbol.declarationSpan)
  | .arrayLiteral _ elements =>
    if tcCheckedTypeIsHeteroArray targetType then
      tcCheckHeteroArrayLiteral k initializer elements
    else
      k.checkExpression initializer
  | _ => k.checkExpression initializer

def tcResolveBindingSymbol (symbol : Symbol) (declaredType : AstType)
    (isInferredType : Bool) (initializer : AstExpression) : TcM TypeCheckInfo :=
  if isInferredType then tcCheckInferredBinding k symbol initializer
  else do
    let targetType ← tcCheckedTypeFromAstType c declaredType
    let initializerInfo ← tcCheckInitializer k symbol targetType initializer
    let sourceType := tcTypeCheckSourceType initializerInfo
    if targetType.kind = .void ∧ !initializerInfo.isCallable then
      tcSetErrorAt symbol.declarationSpan none
        s!"{symbolKindName symbol.kind} '{symbol.displayName}' cannot have type void unless initialized with a callable expression."
    else if !(initializerInfo.isCallable && decide (sourceType.kind = .external)) &&
        !tcCheckedTypeAssignable targetType sourceType then
      tcSetErrorAt initializer.span (some symbol.declarationSpan)
        s!"Cannot assign expression of type {checkedTypeToString sourceType} to {symbolKindName symbol.kind} '{symbol.displayName}' of type {checkedTypeToString targetType}."
    else
      return { initializerInfo with
        type := targetType
        callableReturnType :=
          if initializerInfo.isCallable then targetType
          else initializerInfo.callableReturnType }

/-- The switch of `tc_resolve_symbol_info`. -/
def tcSymbolInfo (symbol : Symbol) : TcM TypeCheckInfo :=
  match symbol.kind, symbol.declaration with
  | .package, _ => return tcTypeCheckInfoMakeExternalValue
  | .import, _ =>
    if symbol.isWildcardImport ∧ symbol.name.isSome then
      return tcTypeCheckInfoMakeExternalCallable
    else
      return tcTypeCheckInfoMakeExternalValue
  | .parameter, .parameter parameter => do
    let type ← tcCheckedTypeFromAstType c parameter.type
    if type.kind = .void then
      tcSetErrorAt symbol.declarationSpan none
        s!"Parameter '{symbol.displayName}' cannot have type void."
    else
      return tcTypeCheckInfoMake type
  | .topLevelBinding, .binding decl =>
    tcResolveBindingSymbol c k symbol decl.declaredType decl.isInferredType decl.initializer
  | .externC, .externC decl => do
    let returnType ← tcCheckedTypeFromAstType c decl.returnType
    return { tcTypeCheckInfoMakeExternalCallable with callableReturnType := returnType }
  | .local, .localBinding binding =>
    tcResolveBindingSymbol c k symbol binding.declaredType binding.isInferredType
      binding.initializer
  | .union, _ =>
    return tcTypeCheckInfoMake
      (tcCheckedTypeNamed symbol.name symbol.genericParamCount 0)
  | .typeParameter, _ => return tcTypeCheckInfoMake (tcCheckedTypeTypeParam symbol.name)
  -- a variant has no case of its own
  | _, _ => return tcTypeCheckInfoMake tcCheckedTypeInvalid

/-- The parameters of the lambda that initializes a binding: such a binding may refer to
itself. -/
def recursiveInitializer (symbol : Symbol) : Option (List AstParameter) :=
  match symbol.kind, symbol.declaration with
  | .topLevelBinding, .binding decl => lambdaParameters decl.initializer
  | .local, .localBinding binding => lambdaParameters binding.initializer
  | _, _ => none
where
  lambdaParameters : AstExpression → Option (List AstParameter)
    | .lambda _ parameters _ => some parameters
    | _ => none

def tcResolveSymbolInfo (symbol : Symbol) : TcM TypeCheckInfo := do
  let entry ← tcEnsureSymbolEntry symbol
  if entry.isResolved then return entry.info
  else if entry.isResolving then
    match recursiveInitializer symbol with
    | some parameters =>
      -- the tentative info of a recursive reference
      let info := tcTypeCheckInfoMakeCallable tcCheckedTypeExternal (some parameters)
      tcStoreSymbolEntry symbol { entry with info }
      return info
    | none =>
      tcSetErrorAt symbol.declarationSpan none
        s!"Circular definition involving '{symbol.displayName}'."
  else do
    tcStoreSymbolEntry symbol { entry with isResolving := true }
    let resolvedInfo ← tcSymbolInfo c k symbol
    tcStoreSymbolEntry symbol { info := resolvedInfo, isResolved := true, isResolving := false }
    return resolvedInfo

/-- One level of calls. -/
def tcStep : TcCalls where
  checkExpression := tcCheckExpression c k
  checkLambda := tcCheckLambdaExpression c k
  checkBlock := tcCheckBlock c k
  resolveSymbol := tcResolveSymbolInfo c k

end

/-- The functions of the checker with call depth at most `n`. -/
def tcCalls (c : CheckContext) : Nat → TcCalls
  | 0 => .outOfFuel
  | n + 1 => tcStep c (tcCalls c n)

/-! ## Programs -/

/-- The entry points seen so far in `tc_validate_program_start_decls`. -/
structure EntryPoints where
  firstStart : Option AstSourceSpan := none
  firstBoot : Option AstSourceSpan := none

def tcValidateEntryPoint (seen : EntryPoints) : AstTopLevelDecl → TcM EntryPoints
  | .start decl =>
    match seen.firstStart, seen.firstBoot with
    | some first, _ =>
      tcSetErrorAt decl.startSpan (some first)
        "Program cannot declare multiple start entry points."
    | none, some first =>
      tcSetErrorAt decl.startSpan (some first)
        "Program cannot declare both start() and boot() entry points."
    | none, none => return { seen with firstStart := some decl.startSpan }
  | .boot decl =>
    match seen.firstBoot, seen.firstStart with
    | some first, _ =>
      tcSetErrorAt decl.bootSpan (some first)
        "Program cannot declare multiple boot entry points."
    | none, some first =>
      tcSetErrorAt decl.bootSpan (some first)
        "Program cannot declare both start() and boot() entry points."
    | none, none => return { seen with firstBoot := some decl.bootSpan }
  | _ => return seen

def tcValidateProgramStartDecls (program : AstProgram) : TcM Unit := do
  let seen ← program.topLevelDecls.foldlM tcValidateEntryPoint {}
  if seen.firstStart.isNone ∧ seen.firstBoot.isNone then
    tcSetError "Program must declare exactly one entry point (start() or boot())."
  else return

def tcValidateBindingModifiers (decl : AstBindingDecl) : TcM Unit :=
  let hasExport := astDeclHasModifier decl.modifiers .export
  let hasPrivate := astDeclHasModifier decl.modifiers .private
  let hasPublic := astDeclHasModifier decl.modifiers .public
  if hasExport ∧ hasPrivate then
    tcSetErrorAt decl.nameSpan none
      s!"Binding '{decl.name}' cannot be both export and private."
  else if hasPublic ∧ hasPrivate then
    tcSetErrorAt decl.nameSpan none
      s!"Binding '{decl.name}' cannot be both public and private."
  else return

section
variable (c : CheckContext) (k : TcCalls)

/-- The parameter of `start` must be declared `string[]`. -/
def isStringArray (type : AstType) : Bool :=
  match type.kind, type.primitive, type.dimensions with
  | .primitive, .string, [dimension] => !dimension.hasSize
  | _, _, _ => false

def tcCheckStartDecl (decl : AstStartDecl) : TcM Unit :=
  let expectedType := tcCheckedTypeValue .int32 0
  match c.symbols.findScope decl.addr .start with
  | none => tcSetErrorAt decl.startSpan none "Internal error: missing start scope."
  | some startScope => do
    tcResolveParametersInScope k startScope decl.parameters
    match decl.parameters with
    | [parameter] =>
      if !isStringArray parameter.type then
        tcSetErrorAt parameter.nameSpan (some decl.startSpan)
          "start parameter must have type string[]."
      else
        let (bodyType, bodySpan) ←
          match decl.body with
          | .block block =>
            k.checkBlock block {
              kind := .start
              expectedReturnType := some expectedType
              ownerSpan := decl.startSpan
              relatedSpan := some decl.startSpan }
          | .expression expression => do
            let bodyInfo ← k.checkExpression expression
            pure (tcTypeCheckSourceType bodyInfo, expression.span)
        if !tcCheckedTypeAssignable expectedType bodyType then
          tcSetErrorAt bodySpan (some decl.startSpan)
            s!"start body must produce int32 but got {checkedTypeToString bodyType}."
        else return
    | _ =>
      tcSetErrorAt decl.startSpan none
        "start must declare exactly one parameter of type string[]."

def tcCheckBootDecl (decl : AstBootDecl) : TcM Unit :=
  match c.symbols.findScope decl.addr .boot with
  | none => tcSetErrorAt decl.bootSpan none "Internal error: missing boot scope."
  | some bootScope => do
    tcResolveParametersInScope k bootScope decl.parameters
    match decl.body with
    | .block block => do
      let _ ← k.checkBlock block {
        kind := .boot
        expectedReturnType := none
        ownerSpan := decl.bootSpan
        relatedSpan := some decl.bootSpan }
      return
    | .expression expression => do
      let _ ← k.checkExpression expression
      return

/-- A top-level name, looked up in the root scope and resolved. -/
def tcCheckTopLevelName (name : String) (nameSpan : AstSourceSpan) (missing : String) :
    TcM Symbol :=
  match scopeLookupLocal c.symbols.rootScope name with
  | none => tcSetErrorAt nameSpan none missing
  | some symbol => return symbol

def tcCheckTopLevelDecl : AstTopLevelDecl → TcM Unit
  | .binding decl => do
    let symbol ← tcCheckTopLevelName c decl.name decl.nameSpan
      s!"Internal error: missing symbol for '{decl.name}'."
    tcValidateBindingModifiers decl
    let _ ← k.resolveSymbol symbol
    return
  | .union decl => do
    let symbol ← tcCheckTopLevelName c decl.name decl.nameSpan
      s!"Internal error: missing symbol for union '{decl.name}'."
    let _ ← k.resolveSymbol symbol
    return
  | .externC decl => do
    let symbol ← tcCheckTopLevelName c decl.name decl.nameSpan
      s!"Internal error: missing symbol for extern '{decl.name}'."
    if symbol.kind ≠ .externC then
      tcSetErrorAt decl.nameSpan none
        s!"Internal error: wrong symbol kind for extern '{decl.name}'."
    else
      let _ ← k.resolveSymbol symbol
      return
  | .boot decl => tcCheckBootDecl c k decl
  | .start decl => tcCheckStartDecl c k decl

end

/-- The checker after a run that accepts. -/
structure TypeChecker extends CheckContext, TcTables

/-- `type_checker_check_program`, with call depth at most `fuel`. -/
def typeCheckerCheckProgram (fuel : Nat) (program : AstProgram) (symbols : SymbolTable) :
    Except TcFailure TypeChecker :=
  match symbols.unresolvedIdentifiers with
  | unresolved :: _ =>
    throw (.error (Diagnostic.at unresolved.identifier.span none
      s!"Unresolved identifier '{unresolved.name}'."))
  | [] =>
    match typeResolverResolveProgram program with
    | .error e => throw (.error e)
    | .ok resolver =>
      let c : CheckContext := { symbols, resolver }
      let run : TcM Unit := do
        tcValidateProgramStartDecls program
        program.topLevelDecls.forM (tcCheckTopLevelDecl c (tcCalls c fuel))
      match run.run {} with
      | .error e => throw e
      | .ok (_, tables) => return { c, tables with }

end Calynda
