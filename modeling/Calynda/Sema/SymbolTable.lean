import Calynda.Diagnostic

/-!
# The symbol table

`symbol_table*.c`. A scope under construction is the head of the chain of its enclosing
scopes: in the source a scope points to its parent, and while a child is analysed the
parent does not change, so the chain holds the same symbols as the walk along the `parent`
pointers. A finished scope is recorded in `scopes`; a scope is found again by its owner and
kind, which no two scopes share.

Allocation never fails here. A symbol carries the address that `st_symbol_new` gives it.
-/

namespace Calynda

inductive SymbolKind where
  | package | «import» | topLevelBinding | externC | parameter | «local»
  | union | typeParameter | variant
  deriving DecidableEq, Repr

inductive ScopeKind where
  | program | start | boot | lambda | block | union
  deriving DecidableEq, Repr

abbrev ScopeId := Nat

/-- What `symbol->declaration` points to. -/
inductive Declaration where
  | package (name : AstQualifiedName)
  | importDecl (decl : AstImportDecl)
  | binding (decl : AstBindingDecl)
  | externC (decl : AstExternDecl)
  | parameter (parameter : AstParameter)
  | localBinding (statement : AstLocalBindingStatement)
  | union (decl : AstUnionDecl)

structure Symbol where
  addr : Addr
  kind : SymbolKind
  name : Option String
  qualifiedName : Option String
  declaredType : Option AstType
  isInferredType : Bool
  isFinal : Bool
  isExported : Bool
  isStatic : Bool
  isInternal : Bool
  genericParamCount : Nat := 0
  declarationSpan : AstSourceSpan
  declaration : Declaration
  scope : Option ScopeId
  variantIndex : Nat := 0
  variantHasPayload : Bool := false
  variantPayloadType : Option AstType := none
  isWildcardImport : Bool := false

structure Scope where
  id : ScopeId
  kind : ScopeKind
  owner : Addr
  symbols : List Symbol

/-- `SymbolResolution`: the scope with its ancestors, as identities and kinds. -/
structure SymbolResolution where
  identifier : AstNode
  scope : List (ScopeId × ScopeKind)
  symbol : Symbol

structure UnresolvedIdentifier where
  identifier : AstNode
  name : String

abbrev SymbolTableError := Diagnostic

structure SymbolTable where
  packageSymbol : Option Symbol := none
  imports : List Symbol := []
  rootScope : Scope := { id := 0, kind := .program, owner := 0, symbols := [] }
  scopes : List Scope := []
  resolutions : List SymbolResolution := []
  unresolvedIdentifiers : List UnresolvedIdentifier := []
  nextAddr : Addr := 0
  nextScope : ScopeId := 1

/-- A pass over the table: it stops at the first error. -/
abbrev StM := StateT SymbolTable (Except SymbolTableError)

def stSetErrorAt {α : Type} (primarySpan : AstSourceSpan)
    (relatedSpan : Option AstSourceSpan) (message : String) : StM α :=
  throw (Diagnostic.at primarySpan relatedSpan message)

/-! ## Names -/

def scopeKindName : ScopeKind → String
  | .program => "program scope"
  | .start => "start scope"
  | .boot => "boot scope"
  | .lambda => "lambda scope"
  | .block => "block scope"
  | .union => "union scope"

def symbolKindName : SymbolKind → String
  | .package => "package"
  | .import => "import"
  | .topLevelBinding => "top-level binding"
  | .externC => "extern C declaration"
  | .parameter => "parameter"
  | .local => "local"
  | .union => "union"
  | .typeParameter => "type parameter"
  | .variant => "variant"

/-- `st_qualified_name_to_string`: the segments joined by dots. -/
def stQualifiedNameToString (name : AstQualifiedName) : String :=
  ".".intercalate name.segments

/-- `st_qualified_name_tail`. -/
def stQualifiedNameTail (name : AstQualifiedName) : String :=
  name.segments.getLast?.getD ""

/-- `strrchr(text, '.')`: the characters after the last dot, if there is one. -/
def afterLastDot? : List Char → Option (List Char)
  | [] => none
  | c :: cs =>
    match afterLastDot? cs with
    | some tail => some tail
    | none => if c = '.' then some cs else none

/-- The last path segment of a qualified name. -/
def lastPathSegment (qualifiedName : String) : String :=
  match afterLastDot? qualifiedName.toList with
  | some tail => String.ofList tail
  | none => qualifiedName

/-! ## Queries -/

def scopeLookupLocal (scope : Scope) (name : String) : Option Symbol :=
  scope.symbols.find? fun symbol => symbol.name == some name

/-- `st_lookup_in_scopes`: the innermost scope of the chain that has the name. -/
def stLookupInScopes : List Scope → String → Option Symbol
  | [], _ => none
  | scope :: parents, name =>
    match scopeLookupLocal scope name with
    | some symbol => some symbol
    | none => stLookupInScopes parents name

namespace SymbolTable

def findImport (table : SymbolTable) (name : String) : Option Symbol :=
  table.imports.find? fun symbol => symbol.name == some name

def getImport (table : SymbolTable) (index : Nat) : Option Symbol := table.imports[index]?

def lookup (table : SymbolTable) (scope : List Scope) (name : String) : Option Symbol :=
  match stLookupInScopes scope name with
  | some symbol => some symbol
  | none => table.findImport name

def findScope (table : SymbolTable) (owner : Addr) (kind : ScopeKind) : Option Scope :=
  (table.rootScope :: table.scopes).find? fun scope =>
    scope.owner == owner && decide (scope.kind = kind)

def findResolution (table : SymbolTable) (identifier : Addr) : Option SymbolResolution :=
  table.resolutions.find? fun resolution => resolution.identifier.addr == identifier

def resolveIdentifier (table : SymbolTable) (identifier : Addr) : Option Symbol :=
  (table.findResolution identifier).map SymbolResolution.symbol

end SymbolTable

/-! ## Construction -/

/-- `st_symbol_new`. -/
def stSymbolNew (kind : SymbolKind) (name qualifiedName : Option String)
    (declaredType : Option AstType)
    (isInferredType isFinal isExported isStatic isInternal : Bool)
    (declarationSpan : AstSourceSpan) (declaration : Declaration) (scope : Option ScopeId) :
    StM Symbol := do
  let table ← get
  set { table with nextAddr := table.nextAddr + 1 }
  return {
    addr := table.nextAddr
    kind, name, qualifiedName, declaredType, isInferredType, isFinal, isExported, isStatic
    isInternal, declarationSpan, declaration, scope }

/-- `st_scope_new`. -/
def stScopeNew (kind : ScopeKind) (owner : Addr) : StM Scope := do
  let table ← get
  set { table with nextScope := table.nextScope + 1 }
  return { id := table.nextScope, kind, owner, symbols := [] }

/-- A finished scope is kept for `symbol_table_find_scope`. -/
def stRecordScope (scope : Scope) : StM Unit :=
  modify fun table => { table with scopes := table.scopes ++ [scope] }

/-- `st_scope_append_symbol`. -/
def Scope.appendSymbol (scope : Scope) (symbol : Symbol) : Scope :=
  { scope with symbols := scope.symbols ++ [symbol] }

def stImportsAppend (symbol : Symbol) : StM Unit :=
  modify fun table => { table with imports := table.imports ++ [symbol] }

def scopeRefs (scope : List Scope) : List (ScopeId × ScopeKind) :=
  scope.map fun s => (s.id, s.kind)

def stResolutionsAppend (identifier : AstNode) (scope : List Scope) (symbol : Symbol) :
    StM Unit :=
  modify fun table => { table with
    resolutions := table.resolutions ++ [{ identifier, scope := scopeRefs scope, symbol }] }

def stUnresolvedAppend (identifier : AstNode) (name : String) : StM Unit :=
  modify fun table => { table with
    unresolvedIdentifiers := table.unresolvedIdentifiers ++ [{ identifier, name }] }

/-! ## Package and imports -/

def stAddPackageSymbol (program : AstProgram) : StM Unit :=
  match program.packageName with
  | none => return
  | some name => do
    let symbol ← stSymbolNew .package (some (stQualifiedNameTail name))
      (some (stQualifiedNameToString name)) none false false false false false
      name.tailSpan (.package name) none
    modify fun table => { table with packageSymbol := some symbol }

/-- An import that binds `name`: rejected when an import of that name exists. -/
def stAddNamedImport (imp : AstImportDecl) (name qualifiedName duplicateMessage : String) :
    StM Unit := do
  let table ← get
  match table.findImport name with
  | some existingImport =>
    stSetErrorAt imp.moduleName.tailSpan existingImport.declarationSpan duplicateMessage
  | none =>
    let symbol ← stSymbolNew .import (some name) (some qualifiedName) none false false
      false false false imp.moduleName.tailSpan (.importDecl imp) (some table.rootScope.id)
    stImportsAppend symbol

/-- The body of the loop of `st_add_import_symbols`. -/
def stAddImportSymbol (imp : AstImportDecl) : StM Unit :=
  let qualifiedName := stQualifiedNameToString imp.moduleName
  match imp.kind with
  | .plain =>
    let name := stQualifiedNameTail imp.moduleName
    stAddNamedImport imp name qualifiedName s!"Duplicate import alias '{name}'."
  | .alias name =>
    stAddNamedImport imp name qualifiedName s!"Duplicate import alias '{name}'."
  | .wildcard => do
    let table ← get
    let sentinel ← stSymbolNew .import none (some qualifiedName) none false false
      false false false imp.moduleName.tailSpan (.importDecl imp) (some table.rootScope.id)
    stImportsAppend { sentinel with isWildcardImport := true }
  | .selective selectedNames =>
    selectedNames.forM fun name =>
      stAddNamedImport imp name (qualifiedName ++ "." ++ name)
        s!"Ambiguous import: '{name}' is already imported."

def stAddImportSymbols (program : AstProgram) : StM Unit :=
  program.imports.forM stAddImportSymbol

/-! ## Predeclaration of the top-level names -/

def astDeclHasModifier (modifiers : List AstModifier) (modifier : AstModifier) : Bool :=
  modifiers.any fun m => decide (m = modifier)

def stTopLevelBindingIsFinal (decl : AstBindingDecl) : Bool :=
  decl.modifiers.any fun m => decide (m = .final)

def stRootAppend (symbol : Symbol) : StM Unit :=
  modify fun table => { table with rootScope := table.rootScope.appendSymbol symbol }

def stDuplicateSymbol {α : Type} (nameSpan : AstSourceSpan) (conflicting : Symbol)
    (name : String) (kind : ScopeKind) : StM α :=
  stSetErrorAt nameSpan conflicting.declarationSpan
    s!"Duplicate symbol '{name}' in {scopeKindName kind}."

/-- The symbol of the root scope or the import that already has the name. -/
def SymbolTable.conflictingTopLevel (table : SymbolTable) (name : String) : Option Symbol :=
  match scopeLookupLocal table.rootScope name with
  | some symbol => some symbol
  | none => table.findImport name

def stPredeclareTopLevelDecl : AstTopLevelDecl → StM Unit
  | .binding decl => do
    let table ← get
    match table.conflictingTopLevel decl.name with
    | some conflicting => stDuplicateSymbol decl.nameSpan conflicting decl.name .program
    | none =>
      let symbol ← stSymbolNew .topLevelBinding (some decl.name) none
        (some decl.declaredType) decl.isInferredType (stTopLevelBindingIsFinal decl)
        (astDeclHasModifier decl.modifiers .export)
        (astDeclHasModifier decl.modifiers .static)
        (astDeclHasModifier decl.modifiers .internal)
        decl.nameSpan (.binding decl) (some table.rootScope.id)
      stRootAppend symbol
  | .union decl => do
    let table ← get
    match table.conflictingTopLevel decl.name with
    | some conflicting => stDuplicateSymbol decl.nameSpan conflicting decl.name .program
    | none =>
      let symbol ← stSymbolNew .union (some decl.name) none none false false
        (astDeclHasModifier decl.modifiers .export)
        (astDeclHasModifier decl.modifiers .static) false
        decl.nameSpan (.union decl) (some table.rootScope.id)
      stRootAppend { symbol with genericParamCount := decl.genericParams.length }
  | .externC decl => do
    -- unlike a binding or a union, an extern name is not compared with the imports
    let table ← get
    match scopeLookupLocal table.rootScope decl.name with
    | some conflicting => stDuplicateSymbol decl.nameSpan conflicting decl.name .program
    | none =>
      let symbol ← stSymbolNew .externC (some decl.name) none (some decl.returnType)
        false false false false false decl.nameSpan (.externC decl)
        (some table.rootScope.id)
      stRootAppend symbol
  | .start _ => return
  | .boot _ => return

def stPredeclareTopLevelBindings (program : AstProgram) : StM Unit :=
  program.topLevelDecls.forM stPredeclareTopLevelDecl

/-! ## Analysis -/

def stAddParameterSymbols : List AstParameter → Scope → StM Scope
  | [], scope => return scope
  | parameter :: parameters, scope =>
    match scopeLookupLocal scope parameter.name with
    | some conflicting =>
      stDuplicateSymbol parameter.nameSpan conflicting parameter.name scope.kind
    | none => do
      let symbol ← stSymbolNew .parameter (some parameter.name) none
        (some parameter.type) false false false false false parameter.nameSpan
        (.parameter parameter) (some scope.id)
      stAddParameterSymbols parameters (scope.appendSymbol symbol)

def stAddLocalSymbol (binding : AstLocalBindingStatement) (scope : Scope) : StM Scope :=
  match scopeLookupLocal scope binding.name with
  | some conflicting => stDuplicateSymbol binding.nameSpan conflicting binding.name scope.kind
  | none => do
    let symbol ← stSymbolNew .local (some binding.name) none (some binding.declaredType)
      binding.isInferredType binding.isFinal false false binding.isInternal
      binding.nameSpan (.localBinding binding) (some scope.id)
    return scope.appendSymbol symbol

/-- `st_try_wildcard_resolve`: a synthetic import symbol named `identifier`, attributed to
the first wildcard import. -/
def stTryWildcardResolve (scope : List Scope) (identifier : String) :
    StM (Option Symbol) := do
  let table ← get
  match table.imports.find? fun symbol => symbol.isWildcardImport with
  | none => return none
  | some sentinel =>
    let moduleAlias := lastPathSegment (sentinel.qualifiedName.getD "")
    let syn ← stSymbolNew .import (some identifier) (some moduleAlias) none
      false false false false false sentinel.declarationSpan sentinel.declaration
      (scope.head?.map Scope.id)
    let syn := { syn with isWildcardImport := true }
    stImportsAppend syn
    return some syn

/-- The case of an identifier in `st_analyze_expression`. -/
def stAnalyzeIdentifier (node : AstNode) (name : String) (scope : List Scope) :
    StM Unit := do
  let table ← get
  match table.lookup scope name with
  | some symbol => stResolutionsAppend node scope symbol
  | none =>
    match ← stTryWildcardResolve scope name with
    | some symbol => stResolutionsAppend node scope symbol
    | none => stUnresolvedAppend node name

/-- The parameter scope of a lambda, of `start` or of `boot`. -/
def stParameterScope (kind : ScopeKind) (owner : Addr) (parameters : List AstParameter) :
    StM Scope := do
  let scope ← stScopeNew kind owner
  let scope ← stAddParameterSymbols parameters scope
  stRecordScope scope
  return scope

mutual
def stAnalyzeExpression : AstExpression → List Scope → StM Unit
  | .literal _ _, _ => return
  | .template _ parts, scope => stAnalyzeTemplateParts parts scope
  | .identifier node name, scope => stAnalyzeIdentifier node name scope
  | .lambda node parameters body, scope => do
    let lambdaScope ← stParameterScope .lambda node.addr parameters
    stAnalyzeLambdaBody body (lambdaScope :: scope)
  | .assignment _ _ target value, scope => do
    stAnalyzeExpression target scope
    stAnalyzeExpression value scope
  | .ternary _ condition thenBranch elseBranch, scope => do
    stAnalyzeExpression condition scope
    stAnalyzeExpression thenBranch scope
    stAnalyzeExpression elseBranch scope
  | .binary _ _ left right, scope => do
    stAnalyzeExpression left scope
    stAnalyzeExpression right scope
  | .unary _ _ operand, scope => stAnalyzeExpression operand scope
  | .call _ callee arguments, scope => do
    stAnalyzeExpression callee scope
    stAnalyzeExpressions arguments scope
  | .index _ target index, scope => do
    stAnalyzeExpression target scope
    stAnalyzeExpression index scope
  | .member _ target _, scope => stAnalyzeExpression target scope
  | .cast _ _ expression, scope => stAnalyzeExpression expression scope
  | .arrayLiteral _ elements, scope => stAnalyzeExpressions elements scope
  | .grouping _ inner, scope => stAnalyzeExpression inner scope
  | .discard _, _ => return
  | .postIncrement _ operand, scope => stAnalyzeExpression operand scope
  | .postDecrement _ operand, scope => stAnalyzeExpression operand scope

def stAnalyzeExpressions : List AstExpression → List Scope → StM Unit
  | [], _ => return
  | e :: es, scope => do
    stAnalyzeExpression e scope
    stAnalyzeExpressions es scope

def stAnalyzeTemplateParts : List AstTemplatePart → List Scope → StM Unit
  | [], _ => return
  | .text _ :: parts, scope => stAnalyzeTemplateParts parts scope
  | .expression e :: parts, scope => do
    stAnalyzeExpression e scope
    stAnalyzeTemplateParts parts scope

def stAnalyzeLambdaBody : AstLambdaBody → List Scope → StM Unit
  | .block block, scope => stAnalyzeBlock block scope
  | .expression expression, scope => stAnalyzeExpression expression scope

def stAnalyzeBlock : AstBlock → List Scope → StM Unit
  | .mk addr statements, parents => do
    let blockScope ← stScopeNew .block addr
    let blockScope ← stAnalyzeStatements statements blockScope parents
    stRecordScope blockScope

def stAnalyzeStatements : List AstStatement → Scope → List Scope → StM Scope
  | [], scope, _ => return scope
  | statement :: statements, scope, parents => do
    let scope ← stAnalyzeStatement statement scope parents
    stAnalyzeStatements statements scope parents

/-- `st_analyze_statement`: the scope comes back with the local the statement declares. -/
def stAnalyzeStatement : AstStatement → Scope → List Scope → StM Scope
  | .localBinding _ isFinal isInternal isInferredType declaredType name nameSpan initializer,
      scope, parents => do
      stAnalyzeExpression initializer (scope :: parents)
      stAddLocalSymbol
        ⟨isFinal, isInternal, isInferredType, declaredType, name, nameSpan, initializer⟩ scope
  | .returnValue _ expression, scope, parents => do
    stAnalyzeExpression expression (scope :: parents)
    return scope
  | .returnVoid _, scope, _ => return scope
  | .exit _, scope, _ => return scope
  | .throw _ expression, scope, parents => do
    stAnalyzeExpression expression (scope :: parents)
    return scope
  | .expression _ expression, scope, parents => do
    stAnalyzeExpression expression (scope :: parents)
    return scope
  | .manual _ _ body, scope, parents => do
    stAnalyzeBlock body (scope :: parents)
    return scope
end

def stAnalyzeStartDecl (decl : AstStartDecl) (root : Scope) : StM Unit := do
  let startScope ← stParameterScope .start decl.addr decl.parameters
  stAnalyzeLambdaBody decl.body [startScope, root]

def stAnalyzeBootDecl (decl : AstBootDecl) (root : Scope) : StM Unit := do
  let bootScope ← stParameterScope .boot decl.addr decl.parameters
  stAnalyzeLambdaBody decl.body [bootScope, root]

/-- The type parameters of a union, appended without a duplicate check. -/
def stUnionTypeParameters (decl : AstUnionDecl) : List String → Scope → StM Scope
  | [], scope => return scope
  | param :: params, scope => do
    let symbol ← stSymbolNew .typeParameter (some param) none none false false false
      false false decl.nameSpan (.union decl) (some scope.id)
    stUnionTypeParameters decl params (scope.appendSymbol symbol)

def stUnionVariants (decl : AstUnionDecl) : Nat → List AstUnionVariant → Scope → StM Scope
  | _, [], scope => return scope
  | i, variant :: variants, scope => do
    let symbol ← stSymbolNew .variant (some variant.name) none variant.payloadType
      false false false false false decl.nameSpan (.union decl) (some scope.id)
    let symbol := { symbol with
      variantIndex := i
      variantHasPayload := variant.payloadType.isSome
      variantPayloadType := variant.payloadType }
    stUnionVariants decl (i + 1) variants (scope.appendSymbol symbol)

def stAnalyzeUnionDecl (decl : AstUnionDecl) : StM Unit := do
  let scope ← stScopeNew .union decl.addr
  let scope ← stUnionTypeParameters decl decl.genericParams scope
  let scope ← stUnionVariants decl 0 decl.variants scope
  stRecordScope scope

def stAnalyzeTopLevelDecl (decl : AstTopLevelDecl) : StM Unit := do
  let root := (← get).rootScope
  match decl with
  | .start decl => stAnalyzeStartDecl decl root
  | .boot decl => stAnalyzeBootDecl decl root
  | .binding decl => stAnalyzeExpression decl.initializer [root]
  | .union decl => stAnalyzeUnionDecl decl
  | .externC _ => return

/-- The statements of `symbol_table_build`. -/
def symbolTableBuildM (program : AstProgram) : StM Unit := do
  stAddPackageSymbol program
  stAddImportSymbols program
  stPredeclareTopLevelBindings program
  program.topLevelDecls.forM stAnalyzeTopLevelDecl

/-- `symbol_table_build`. -/
def symbolTableBuild (program : AstProgram) : Except SymbolTableError SymbolTable :=
  (·.2) <$> (symbolTableBuildM program).run {}

end Calynda
