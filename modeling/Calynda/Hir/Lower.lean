import Calynda.Hir.Basic

/-!
# Lowering

`hir.c`, `hir_helpers.c` and `hir_lower*.c`. Lowering reads the tables of the symbol table
and of the checker and builds the tree; it stops at the first error, as every caller passes
a failure on. Allocation never fails here.
-/

namespace Calynda

abbrev HirBuildError := Diagnostic

abbrev HrM := Except HirBuildError

def hrSetError {α : Type} (primarySpan : AstSourceSpan) (relatedSpan : Option AstSourceSpan)
    (message : String) : HrM α :=
  throw (Diagnostic.at primarySpan relatedSpan message)

/-- `hr_checked_type_from_resolved_type`: a named type has no case. -/
def hrCheckedTypeFromResolvedType (type : ResolvedType) : CheckedType :=
  match type.kind with
  | .void => tcCheckedTypeVoid
  | .value => tcCheckedTypeValue type.primitive type.arrayDepth
  | .invalid | .named => tcCheckedTypeInvalid

def hrQualifiedNameToString (name : AstQualifiedName) : String :=
  ".".intercalate name.segments

/-- `type_checker_get_expression_info`. -/
def TypeChecker.getExpressionInfo (checker : TypeChecker) (expression : Addr) :
    Option TypeCheckInfo :=
  checker.expressionEntries expression

/-- `type_checker_get_symbol_info`: the info of a resolved symbol. -/
def TypeChecker.getSymbolInfo (checker : TypeChecker) (symbol : Symbol) :
    Option TypeCheckInfo :=
  match checker.symbolEntries symbol.addr with
  | some entry => if entry.isResolved then some entry.info else none
  | none => none

section
variable (checker : TypeChecker)

def hrLowerParameterType (parameter : AstParameter) : HrM CheckedType :=
  match checker.resolver.getType parameter.type.addr with
  | none =>
    hrSetError parameter.nameSpan none
      s!"Internal error: missing resolved type for callable parameter '{parameter.name}'."
  | some resolved => return hrCheckedTypeFromResolvedType resolved

def hrLowerCallableSignature (info : TypeCheckInfo) : HrM HirCallableSignature :=
  if !info.isCallable then return {}
  else
    match info.parameters with
    | none => return { returnType := info.callableReturnType }
    | some parameters => do
      let parameterTypes ← parameters.mapM (hrLowerParameterType checker)
      return { parameterTypes := some parameterTypes, returnType := info.callableReturnType }

def hrLowerParameter (scope : Scope) (parameter : AstParameter) : HrM HirParameter :=
  match scopeLookupLocal scope parameter.name with
  | none =>
    hrSetError parameter.nameSpan none
      s!"Internal error: missing symbol for parameter '{parameter.name}'."
  | some symbol =>
    match checker.getSymbolInfo symbol with
    | none =>
      hrSetError parameter.nameSpan (some symbol.declarationSpan)
        s!"Internal error: missing type info for parameter '{parameter.name}'."
    | some info => return {
        name := parameter.name
        symbol := symbol.addr
        type := info.type
        isVarargs := parameter.isVarargs
        sourceSpan := parameter.nameSpan }

def hrLowerParameters (scope : Scope) (parameters : List AstParameter) :
    HrM (List HirParameter) :=
  parameters.mapM (hrLowerParameter checker scope)

/-- The fields that `hr_lower_expression` fills in before it looks at the kind. -/
def hrExpressionMeta (node : AstNode) : HrM (TypeCheckInfo × HirMeta) :=
  match checker.getExpressionInfo node.addr with
  | none =>
    hrSetError node.span none
      "Internal error: missing type info for expression during HIR lowering."
  | some info => do
    let callableSignature ← hrLowerCallableSignature checker info
    return (info, {
      type := info.type
      isCallable := info.isCallable
      callableSignature
      sourceSpan := node.span })

/-- The case of an identifier in `hr_lower_expr_complex`: a member of a wildcard import
becomes a member access on the module. -/
def hrLowerIdentifier (node : AstNode) (name : String) (info : HirMeta) :
    HrM HirExpression :=
  match checker.symbols.resolveIdentifier node.addr with
  | none =>
    hrSetError node.span none
      s!"Internal error: unresolved identifier '{name}' during HIR lowering."
  | some symbol =>
    if symbol.isWildcardImport ∧ symbol.name.isSome then
      let moduleRef : HirExpression := .symbol
        { type := tcCheckedTypeExternal, sourceSpan := node.span }
        { symbol := none
          name := symbol.qualifiedName.getD ""
          kind := .import
          type := tcCheckedTypeInvalid
          sourceSpan := node.span }
      return .member info moduleRef name
    else
      return .symbol info {
        symbol := some symbol.addr
        name
        kind := symbol.kind
        type := info.type
        sourceSpan := node.span }

def hrLowerLocal (scope : Scope) (name : String) (nameSpan : AstSourceSpan) : HrM HirLocal :=
  match scopeLookupLocal scope name with
  | none => hrSetError nameSpan none s!"Internal error: missing symbol for local '{name}'."
  | some symbol =>
    match checker.getSymbolInfo symbol with
    | none =>
      hrSetError nameSpan (some symbol.declarationSpan)
        s!"Internal error: missing type info for local '{name}'."
    | some info => do
      let callableSignature ← hrLowerCallableSignature checker info
      return {
        name
        symbol := symbol.addr
        type := info.type
        isCallable := info.isCallable
        callableSignature
        isFinal := symbol.isFinal
        sourceSpan := nameSpan }

def hrFindLambdaScope (node : AstNode) : HrM Scope :=
  match checker.symbols.findScope node.addr .lambda with
  | none =>
    hrSetError node.span none
      "Internal error: missing lambda scope during HIR lowering."
  | some scope => return scope

def hrFindBlockScope (block : Addr) : HrM Scope :=
  match checker.symbols.findScope block .block with
  | none =>
    hrSetError .zero none
      "Internal error: missing scope for block during HIR lowering."
  | some scope => return scope

mutual
def hrLowerExpression : AstExpression → HrM HirExpression
  | .grouping _ inner => hrLowerExpression inner
  | .literal node lit => do
    let (_, info) ← hrExpressionMeta checker node
    return .literal info lit
  | .template node parts => do
    let (_, info) ← hrExpressionMeta checker node
    return .template info (← hrLowerTemplateParts parts)
  | .identifier node name => do
    let (_, info) ← hrExpressionMeta checker node
    hrLowerIdentifier checker node name info
  | .lambda node parameters body => do
    let (_, info) ← hrExpressionMeta checker node
    let scope ← hrFindLambdaScope checker node
    let hirParameters ← hrLowerParameters checker scope parameters
    return .lambda info node.addr hirParameters (← hrLowerBodyToBlock body)
  | .assignment node operator target value => do
    let (_, info) ← hrExpressionMeta checker node
    return .assignment info operator (← hrLowerExpression target) (← hrLowerExpression value)
  | .ternary node condition thenBranch elseBranch => do
    let (_, info) ← hrExpressionMeta checker node
    return .ternary info (← hrLowerExpression condition) (← hrLowerExpression thenBranch)
      (← hrLowerExpression elseBranch)
  | .binary node operator left right => do
    let (_, info) ← hrExpressionMeta checker node
    return .binary info operator (← hrLowerExpression left) (← hrLowerExpression right)
  | .unary node operator operand => do
    let (_, info) ← hrExpressionMeta checker node
    return .unary info operator (← hrLowerExpression operand)
  | .call node callee arguments => do
    let (_, info) ← hrExpressionMeta checker node
    return .call info (← hrLowerExpression callee) (← hrLowerExpressions arguments)
  | .index node target index => do
    let (_, info) ← hrExpressionMeta checker node
    return .index info (← hrLowerExpression target) (← hrLowerExpression index)
  | .member node target member => do
    let (_, info) ← hrExpressionMeta checker node
    return .member info (← hrLowerExpression target) member
  | .cast node _ expression => do
    let (typeInfo, info) ← hrExpressionMeta checker node
    return .cast info typeInfo.type (← hrLowerExpression expression)
  | .arrayLiteral node elements => do
    let (_, info) ← hrExpressionMeta checker node
    return .arrayLiteral info (← hrLowerExpressions elements)
  | .discard node => do
    let (_, info) ← hrExpressionMeta checker node
    return .discard info
  | .postIncrement node operand => do
    let (_, info) ← hrExpressionMeta checker node
    return .postIncrement info (← hrLowerExpression operand)
  | .postDecrement node operand => do
    let (_, info) ← hrExpressionMeta checker node
    return .postDecrement info (← hrLowerExpression operand)

def hrLowerExpressions : List AstExpression → HrM (List HirExpression)
  | [] => return []
  | e :: es => do return (← hrLowerExpression e) :: (← hrLowerExpressions es)

def hrLowerTemplateParts : List AstTemplatePart → HrM (List HirTemplatePart)
  | [] => return []
  | .text text :: parts => do return .text text :: (← hrLowerTemplateParts parts)
  | .expression e :: parts => do
    return .expression (← hrLowerExpression e) :: (← hrLowerTemplateParts parts)

/-- `hr_lower_body_to_block`: an expression body becomes a block that returns it. -/
def hrLowerBodyToBlock : AstLambdaBody → HrM HirBlock
  | .block block => hrLowerBlock block
  | .expression expression => do
    return .mk [.returnValue expression.span (← hrLowerExpression expression)]

def hrLowerBlock : AstBlock → HrM HirBlock
  | .mk addr statements => do
    let scope ← hrFindBlockScope checker addr
    return .mk (← hrLowerStatements scope statements)

def hrLowerStatements (scope : Scope) : List AstStatement → HrM (List HirStatement)
  | [] => return []
  | s :: ss => do return (← hrLowerStatement scope s) :: (← hrLowerStatements scope ss)

/-- `hr_lower_statement`: `exit` becomes a `return` without an expression. -/
def hrLowerStatement (scope : Scope) : AstStatement → HrM HirStatement
  | .localBinding span _ _ _ _ name nameSpan initializer => do
    let binding ← hrLowerLocal checker scope name nameSpan
    return .localBinding span binding (← hrLowerExpression initializer)
  | .returnValue span expression => do
    return .returnValue span (← hrLowerExpression expression)
  | .returnVoid span => return .returnVoid span
  | .exit span => return .returnVoid span
  | .throw span expression => do return .throw span (← hrLowerExpression expression)
  | .expression span expression => do
    return .expression span (← hrLowerExpression expression)
  | .manual span isChecked body => do return .manual span isChecked (← hrLowerBlock body)
end

def hrLowerBinding (decl : AstBindingDecl) : HrM HirBindingDecl :=
  match scopeLookupLocal checker.symbols.rootScope decl.name with
  | none =>
    hrSetError decl.nameSpan none
      s!"Internal error: missing top-level symbol '{decl.name}' during HIR lowering."
  | some symbol =>
    match checker.getSymbolInfo symbol with
    | none =>
      hrSetError decl.nameSpan (some symbol.declarationSpan)
        s!"Internal error: missing type info for top-level binding '{decl.name}'."
    | some info => do
      let callableSignature ← hrLowerCallableSignature checker info
      let initializer ← hrLowerExpression checker decl.initializer
      return {
        name := decl.name
        symbol := symbol.addr
        type := info.type
        isFinal := symbol.isFinal
        isExported := symbol.isExported
        isStatic := symbol.isStatic
        isInternal := symbol.isInternal
        isCallable := info.isCallable
        callableSignature
        sourceSpan := decl.nameSpan
        initializer }

/-- A variant with a payload gets the type of its union. -/
def hrLowerVariant (symbol : Option Symbol) (variant : AstUnionVariant) : HirUnionVariant where
  name := variant.name
  hasPayload := variant.payloadType.isSome
  payloadType :=
    if variant.payloadType.isSome then
      ((symbol.bind checker.getSymbolInfo).map TypeCheckInfo.type).getD tcCheckedTypeInvalid
    else tcCheckedTypeInvalid

def hrLowerUnion (decl : AstUnionDecl) : HirUnionDecl :=
  let symbol := scopeLookupLocal checker.symbols.rootScope decl.name
  { name := decl.name
    symbol := symbol.map Symbol.addr
    sourceSpan := decl.nameSpan
    genericParams := decl.genericParams
    variants := decl.variants.map (hrLowerVariant checker symbol)
    isExported := symbol.any Symbol.isExported
    isStatic := symbol.any Symbol.isStatic }

def hrLowerBoot (decl : AstBootDecl) : HrM HirBootDecl :=
  match checker.symbols.findScope decl.addr .boot with
  | none =>
    hrSetError decl.bootSpan none
      "Internal error: missing boot scope during HIR lowering."
  | some scope => do
    let parameters ← hrLowerParameters checker scope decl.parameters
    let body ← hrLowerBodyToBlock checker decl.body
    return { parameters, body, sourceSpan := decl.bootSpan }

def hrLowerStart (decl : AstStartDecl) : HrM HirStartDecl :=
  match checker.symbols.findScope decl.addr .start with
  | none =>
    hrSetError decl.startSpan none
      "Internal error: missing start scope during HIR lowering."
  | some scope => do
    let parameters ← hrLowerParameters checker scope decl.parameters
    let body ← hrLowerBodyToBlock checker decl.body
    return { parameters, body, sourceSpan := decl.startSpan }

/-- The body of the loop of `hr_lower_top_level_decls`. -/
def hrLowerTopLevelDecl : AstTopLevelDecl → HrM HirTopLevelDecl
  | .union decl => return .union (hrLowerUnion checker decl)
  | .binding decl => return .binding (← hrLowerBinding checker decl)
  | .boot decl => return .boot (← hrLowerBoot checker decl)
  | .externC decl => return .externC {
      name := decl.name
      sourceSpan := decl.nameSpan
      returnType := decl.returnType
      parameters := decl.parameters }
  | .start decl => return .start (← hrLowerStart checker decl)

def hrLowerPackage : Option AstQualifiedName → HrM (Option HirNamedSymbol)
  | none => return none
  | some name =>
    match checker.symbols.packageSymbol with
    | none =>
      hrSetError name.tailSpan none
        "Internal error: missing package symbol during HIR lowering."
    | some symbol => return some {
        symbol
        name := stQualifiedNameTail name
        qualifiedName := hrQualifiedNameToString name
        sourceSpan := name.tailSpan }

/-- The loop over the imports: declaration `i` gets import symbol `i`. -/
def hrLowerImports : Nat → List AstImportDecl → HrM (List HirNamedSymbol)
  | _, [] => return []
  | i, imp :: imports =>
    match checker.symbols.getImport i with
    | none =>
      hrSetError imp.moduleName.tailSpan none
        "Internal error: missing import symbol during HIR lowering."
    | some symbol => do
      let entry : HirNamedSymbol := {
        symbol
        name := stQualifiedNameTail imp.moduleName
        qualifiedName := hrQualifiedNameToString imp.moduleName
        sourceSpan := imp.moduleName.tailSpan }
      return entry :: (← hrLowerImports (i + 1) imports)

/-- `hir_build_program`, after a run of the checker without errors. -/
def hirBuildProgram (program : AstProgram) : HrM HirProgram := do
  let package ← hrLowerPackage checker program.packageName
  let imports ← hrLowerImports checker 0 program.imports
  let topLevelDecls ← program.topLevelDecls.mapM (hrLowerTopLevelDecl checker)
  return { package, imports, topLevelDecls }

end

end Calynda
