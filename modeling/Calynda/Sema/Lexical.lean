import Calynda.Sema.Unique

/-!
# Lexical scoping

An identifier stands for the declaration of its name in the nearest scope around it, where a local
is declared for the statements after its own, else for the import of the name, else for the first
wildcard import. The walk over the program records this for every identifier, and lists those for
which there is none.
-/

namespace Calynda

open List StateExcept

/-! ## The rule -/

/-- The names that a scope declares, with their declarations. -/
abbrev DeclaredNames := List (String × Declaration)

def declarationIn (name : String) (names : DeclaredNames) : Option Declaration :=
  (names.find? fun p => p.1 == name).map Prod.snd

/-- An identifier and the scopes around it, the innermost first. -/
structure AstReference where
  node : AstNode
  name : String
  scopes : List DeclaredNames

def parametersDeclared (parameters : List AstParameter) : DeclaredNames :=
  parameters.map fun p => (p.name, .parameter p)

/-- What a statement declares for those after it. -/
def AstStatement.declared : AstStatement → DeclaredNames
  | .localBinding _ isFinal isInternal isInferredType declaredType name nameSpan initializer =>
    [(name, .localBinding
      ⟨isFinal, isInternal, isInferredType, declaredType, name, nameSpan, initializer⟩)]
  | _ => []

mutual
def AstExpression.references : AstExpression → List DeclaredNames → List AstReference
  | .literal _ _, _ => []
  | .template _ parts, scopes => templateReferences parts scopes
  | .identifier node name, scopes => [⟨node, name, scopes⟩]
  | .lambda _ parameters body, scopes =>
    AstLambdaBody.references body (parametersDeclared parameters :: scopes)
  | .assignment _ _ target value, scopes =>
    AstExpression.references target scopes ++ AstExpression.references value scopes
  | .ternary _ condition thenBranch elseBranch, scopes =>
    AstExpression.references condition scopes ++
      (AstExpression.references thenBranch scopes ++ AstExpression.references elseBranch scopes)
  | .binary _ _ left right, scopes =>
    AstExpression.references left scopes ++ AstExpression.references right scopes
  | .unary _ _ operand, scopes => AstExpression.references operand scopes
  | .call _ callee arguments, scopes =>
    AstExpression.references callee scopes ++ expressionsReferences arguments scopes
  | .index _ target index, scopes =>
    AstExpression.references target scopes ++ AstExpression.references index scopes
  | .member _ target _, scopes => AstExpression.references target scopes
  | .cast _ _ expression, scopes => AstExpression.references expression scopes
  | .arrayLiteral _ elements, scopes => expressionsReferences elements scopes
  | .grouping _ inner, scopes => AstExpression.references inner scopes
  | .discard _, _ => []
  | .postIncrement _ operand, scopes => AstExpression.references operand scopes
  | .postDecrement _ operand, scopes => AstExpression.references operand scopes

def expressionsReferences : List AstExpression → List DeclaredNames → List AstReference
  | [], _ => []
  | e :: es, scopes => AstExpression.references e scopes ++ expressionsReferences es scopes

def templateReferences : List AstTemplatePart → List DeclaredNames → List AstReference
  | [], _ => []
  | .text _ :: parts, scopes => templateReferences parts scopes
  | .expression e :: parts, scopes =>
    AstExpression.references e scopes ++ templateReferences parts scopes

def AstLambdaBody.references : AstLambdaBody → List DeclaredNames → List AstReference
  | .block block, scopes => AstBlock.references block scopes
  | .expression expression, scopes => AstExpression.references expression scopes

def AstBlock.references : AstBlock → List DeclaredNames → List AstReference
  | .mk _ statements, scopes => statementsReferences statements [] scopes

/-- `locals` are what the statements before have declared. -/
def statementsReferences : List AstStatement → DeclaredNames → List DeclaredNames →
    List AstReference
  | [], _, _ => []
  | s :: ss, locals, scopes =>
    AstStatement.references s (locals :: scopes) ++
      statementsReferences ss (locals ++ s.declared) scopes

def AstStatement.references : AstStatement → List DeclaredNames → List AstReference
  | .localBinding _ _ _ _ _ _ _ initializer, scopes => AstExpression.references initializer scopes
  | .returnValue _ expression, scopes => AstExpression.references expression scopes
  | .returnVoid _, _ => []
  | .exit _, _ => []
  | .throw _ expression, scopes => AstExpression.references expression scopes
  | .expression _ expression, scopes => AstExpression.references expression scopes
  | .manual _ _ body, scopes => AstBlock.references body scopes
end

/-- What a declaration of the top level declares. -/
def AstTopLevelDecl.declared? : AstTopLevelDecl → Option (String × Declaration)
  | .binding decl => some (decl.name, .binding decl)
  | .union decl => some (decl.name, .union decl)
  | .externC decl => some (decl.name, .externC decl)
  | .start _ => none
  | .boot _ => none

def AstTopLevelDecl.references (names : DeclaredNames) : AstTopLevelDecl → List AstReference
  | .start decl => decl.body.references [parametersDeclared decl.parameters, names]
  | .boot decl => decl.body.references [parametersDeclared decl.parameters, names]
  | .binding decl => decl.initializer.references [names]
  | .union _ => []
  | .externC _ => []

namespace AstProgram

variable (program : AstProgram)

def topLevelDeclared : DeclaredNames := program.topLevelDecls.filterMap AstTopLevelDecl.declared?

def references : List AstReference :=
  program.topLevelDecls.flatMap (AstTopLevelDecl.references program.topLevelDeclared)

/-- The import of a name, else the first wildcard import. -/
def importOf (name : String) : Option Declaration :=
  ((program.imports.find? fun decl => decl.boundNames.any (· == some name)).or
    (program.imports.find? fun decl => decide (decl.kind = .wildcard))).map .importDecl

/-- The declaration of an identifier: that of the nearest scope with the name, else the import. -/
def declarationOf (r : AstReference) : Option Declaration :=
  (r.scopes.findSome? (declarationIn r.name)).or (program.importOf r.name)

end AstProgram

/-! ## What the walk records -/

def Symbol.declared? (symbol : Symbol) : Option (String × Declaration) :=
  symbol.name.map fun name => (name, symbol.declaration)

def Scope.declared (scope : Scope) : DeclaredNames := scope.symbols.filterMap Symbol.declared?

namespace SymbolTable

variable (table : SymbolTable)

def importDeclaration (name : String) : Option Declaration :=
  ((table.findImport name).or table.wildcardSentinel).map Symbol.declaration

def declarationOf (r : AstReference) : Option Declaration :=
  (r.scopes.findSome? (declarationIn r.name)).or (table.importDeclaration r.name)

/-- The identifiers that are resolved, with their declarations. -/
def resolvedDeclarations : List (AstNode × Declaration) :=
  table.resolutions.map fun r => (r.identifier, r.symbol.declaration)

/-- `later` has the outcomes of `refs` after those of `table`. -/
structure Records (refs : List AstReference) (table later : SymbolTable) : Prop where
  root_eq : later.rootScope = table.rootScope
  imports_eq : ∀ name, later.importDeclaration name = table.importDeclaration name
  resolved : later.resolvedDeclarations = table.resolvedDeclarations ++
    refs.filterMap fun r => (table.declarationOf r).map fun d => (r.node, d)
  unresolved : later.unresolvedIdentifiers = table.unresolvedIdentifiers ++
    (refs.filter fun r => (table.declarationOf r).isNone).map fun r => ⟨r.node, r.name⟩

variable {table}

theorem Records.declarationOf_eq {refs : List AstReference} {later : SymbolTable}
    (h : table.Records refs later) (r : AstReference) :
    later.declarationOf r = table.declarationOf r := by
  unfold declarationOf
  rw [h.imports_eq]

theorem Records.of_tables_eq {later : SymbolTable} (hRoot : later.rootScope = table.rootScope)
    (hImports : later.imports = table.imports) (hResolutions : later.resolutions = table.resolutions)
    (hUnresolved : later.unresolvedIdentifiers = table.unresolvedIdentifiers) :
    table.Records [] later where
  root_eq := hRoot
  imports_eq name := by
    unfold importDeclaration findImport wildcardSentinel
    rw [hImports]
  resolved := by
    unfold resolvedDeclarations
    rw [hResolutions]
    exact (append_nil _).symm
  unresolved := by
    rw [hUnresolved]
    exact (append_nil _).symm

theorem Records.trans {refs refs' : List AstReference} {middle later : SymbolTable}
    (h : table.Records refs middle) (h' : middle.Records refs' later) :
    table.Records (refs ++ refs') later where
  root_eq := h'.root_eq.trans h.root_eq
  imports_eq name := (h'.imports_eq name).trans (h.imports_eq name)
  resolved := by
    rw [h'.resolved, h.resolved, filterMap_append, append_assoc]
    simp only [h.declarationOf_eq]
  unresolved := by
    rw [h'.unresolved, h.unresolved, filter_append, map_append, append_assoc]
    simp only [h.declarationOf_eq]

end SymbolTable

/-- The pass records the outcomes of `refs`. -/
def Records {α : Type} (refs : List AstReference) (m : StM α) (Post : α → Prop) : Prop :=
  ∀ table a later, m table = .ok (a, later) → table.Records refs later ∧ Post a

namespace Records

variable {α β : Type} {refs refs' : List AstReference} {m : StM α} {f : α → StM β}
  {P : α → Prop} {Q : β → Prop}

theorem ret {a : α} (h : P a) : Records [] (pure a) P := by
  intro table b later hRun
  cases hRun
  exact ⟨.of_tables_eq rfl rfl rfl rfl, h⟩

theorem bind (h : Records refs m P) (h' : ∀ a, P a → Records refs' (f a) Q) :
    Records (refs ++ refs') (m >>= f) Q := by
  intro table b later hRun
  obtain ⟨a, middle, hFirst, hRest⟩ := bind_eq_ok.1 hRun
  obtain ⟨hRecords, hP⟩ := h table a middle hFirst
  obtain ⟨hRecords', hQ⟩ := h' a hP middle b later hRest
  exact ⟨hRecords.trans hRecords', hQ⟩

/-- A pass and a result that it is followed by. -/
theorem bind_ret (h : Records refs m P) {g : α → β} (h' : ∀ a, P a → Q (g a)) :
    Records refs (m >>= fun a => pure (g a)) Q := by
  have hBind := h.bind fun a ha => ret (a := g a) (h' a ha)
  rwa [append_nil] at hBind

theorem imp {P' : α → Prop} (h : Records refs m P) (hImp : ∀ a, P a → P' a) :
    Records refs m P' :=
  fun table a later hRun => (h table a later hRun).imp_right (hImp a)

theorem error {span : AstSourceSpan} {related : Option AstSourceSpan} {message : String} :
    Records refs (stSetErrorAt (α := α) span related message) P := by
  intro table a later hRun
  cases hRun

theorem stSymbolNew {kind : SymbolKind} {name qualifiedName : Option String}
    {declaredType : Option AstType} {isInferredType isFinal isExported isStatic isInternal : Bool}
    {span : AstSourceSpan} {declaration : Declaration} {scope : Option ScopeId} :
    Records [] (stSymbolNew kind name qualifiedName declaredType isInferredType isFinal
      isExported isStatic isInternal span declaration scope)
      fun symbol => symbol.name = name ∧ symbol.declaration = declaration := by
  intro table a later hRun
  cases hRun
  exact ⟨.of_tables_eq rfl rfl rfl rfl, rfl, rfl⟩

theorem stScopeNew (kind : ScopeKind) (owner : Addr) :
    Records [] (stScopeNew kind owner) fun scope => scope.declared = [] := by
  intro table a later hRun
  cases hRun
  exact ⟨.of_tables_eq rfl rfl rfl rfl, rfl⟩

theorem stRecordScope (scope : Scope) : Records [] (stRecordScope scope) fun _ => True := by
  intro table a later hRun
  cases hRun
  exact ⟨.of_tables_eq rfl rfl rfl rfl, trivial⟩

end Records

/-! ## Identifiers -/

/-- The scopes of a chain, as declarations. -/
def chainDeclared (chain : List Scope) : List DeclaredNames := chain.map Scope.declared

theorem declarationIn_declared (scope : Scope) (name : String) :
    declarationIn name scope.declared =
      (scopeLookupLocal scope name).map Symbol.declaration := by
  unfold declarationIn Scope.declared scopeLookupLocal
  induction scope.symbols with
  | nil => rfl
  | cons symbol symbols ih =>
    cases hName : symbol.name with
    | none =>
      rw [filterMap_cons_none (by simp [Symbol.declared?, hName]),
        find?_cons_of_neg (by simp [hName])]
      exact ih
    | some other =>
      rw [filterMap_cons_some (b := (other, symbol.declaration))
        (by simp [Symbol.declared?, hName])]
      by_cases hEq : other = name
      · rw [find?_cons_of_pos (by simpa using hEq),
          find?_cons_of_pos (by simpa [hName] using hEq)]
        rfl
      · rw [find?_cons_of_neg (by simpa using hEq),
          find?_cons_of_neg (by simpa [hName] using hEq)]
        exact ih

theorem findSome?_chainDeclared (chain : List Scope) (name : String) :
    (chainDeclared chain).findSome? (declarationIn name) =
      (stLookupInScopes chain name).map Symbol.declaration := by
  induction chain with
  | nil => rfl
  | cons scope chain ih =>
    unfold chainDeclared at ih ⊢
    rw [map_cons, findSome?_cons, declarationIn_declared, stLookupInScopes_cons]
    cases scopeLookupLocal scope name with
    | some symbol => rfl
    | none => exact ih

theorem SymbolTable.declarationOf_lookup (table : SymbolTable) (chain : List Scope)
    (node : AstNode) (name : String) :
    table.declarationOf ⟨node, name, chainDeclared chain⟩ =
      ((table.lookup chain name).or table.wildcardSentinel).map Symbol.declaration := by
  unfold SymbolTable.declarationOf SymbolTable.lookup SymbolTable.importDeclaration
  rw [findSome?_chainDeclared]
  cases stLookupInScopes chain name with
  | some symbol => rfl
  | none => rfl

/-- A member of a wildcard import has the declaration of the import. -/
theorem SymbolTable.importDeclaration_member {table : SymbolTable} {sentinel member : Symbol}
    {name : String} (hNone : table.findImport name = none)
    (hSentinel : table.wildcardSentinel = some sentinel) (hName : member.name = some name)
    (hDeclaration : member.declaration = sentinel.declaration) (other : String) (addr : Addr) :
    SymbolTable.importDeclaration
        { table with nextAddr := addr, imports := table.imports ++ [member] } other =
      table.importDeclaration other := by
  unfold SymbolTable.importDeclaration SymbolTable.findImport SymbolTable.wildcardSentinel at *
  dsimp only
  rw [find?_append, find?_append, hSentinel]
  by_cases hEq : other = name
  · subst hEq
    rw [hNone]
    simp [hName, hDeclaration]
  · have hNot : List.find? (fun s => s.name == some other) [member] = none := by
      simp [hName, Ne.symm hEq]
    rw [hNot, Option.or_none]
    rfl

theorem records_stResolutionsAppend {table : SymbolTable} {chain : List Scope} {node : AstNode}
    {name : String} {symbol : Symbol}
    (h : table.declarationOf ⟨node, name, chainDeclared chain⟩ = some symbol.declaration) :
    table.Records [⟨node, name, chainDeclared chain⟩]
      { table with
        resolutions := table.resolutions ++ [⟨node, scopeRefs chain, symbol⟩] } where
  root_eq := rfl
  imports_eq _ := rfl
  resolved := by
    unfold SymbolTable.resolvedDeclarations
    rw [map_append, filterMap_cons, h]
    rfl
  unresolved := by
    rw [filter_cons, h]
    exact (append_nil _).symm

theorem stAnalyzeIdentifier_records (node : AstNode) (name : String) (chain : List Scope) :
    Records [⟨node, name, chainDeclared chain⟩] (stAnalyzeIdentifier node name chain)
      fun _ => True := by
  intro table a later hRun
  refine ⟨?_, trivial⟩
  have hRule := table.declarationOf_lookup chain node name
  unfold stAnalyzeIdentifier at hRun
  rw [get_bind] at hRun
  cases hLookup : table.lookup chain name with
  | some symbol =>
    rw [hLookup] at hRun hRule
    cases hRun
    exact records_stResolutionsAppend hRule
  | none =>
    rw [hLookup] at hRule
    simp only [hLookup] at hRun
    obtain ⟨symbol?, middle, hWildcard, hRest⟩ := bind_eq_ok.1 hRun
    unfold stTryWildcardResolve at hWildcard
    rw [get_bind] at hWildcard
    cases hSentinel : table.imports.find? fun symbol => symbol.isWildcardImport with
    | none =>
      rw [hSentinel] at hWildcard
      cases hWildcard
      cases hRest
      have hNone : table.wildcardSentinel = none := hSentinel
      rw [hNone] at hRule
      refine ⟨rfl, fun _ => rfl, ?_, ?_⟩
      · rw [filterMap_cons, hRule]
        exact (append_nil _).symm
      · rw [filter_cons, hRule]
        rfl
    | some sentinel =>
      rw [hSentinel] at hWildcard
      obtain ⟨member, hSymbol, hMiddle, hName, hDeclaration⟩ : ∃ member : Symbol,
          symbol? = some member ∧
          middle = { table with nextAddr := table.nextAddr + 1
                                imports := table.imports ++ [member] } ∧
          member.name = some name ∧ member.declaration = sentinel.declaration := by
        cases hWildcard
        exact ⟨_, rfl, rfl, rfl, rfl⟩
      subst hSymbol hMiddle
      cases hRest
      have hSome : table.wildcardSentinel = some sentinel := hSentinel
      have hImport : table.findImport name = none := by
        unfold SymbolTable.lookup at hLookup
        cases hChain : stLookupInScopes chain name with
        | none => rwa [hChain] at hLookup
        | some symbol =>
          rw [hChain] at hLookup
          cases hLookup
      have hMember : table.Records [] { table with
          nextAddr := table.nextAddr + 1
          imports := table.imports ++ [member] } :=
        ⟨rfl, fun other => SymbolTable.importDeclaration_member hImport hSome hName hDeclaration
          other _, (append_nil _).symm, (append_nil _).symm⟩
      refine hMember.trans (records_stResolutionsAppend ?_)
      rw [hMember.declarationOf_eq, hRule, hSome, hDeclaration]
      rfl

/-! ## Declarations -/

theorem declared_appendSymbol {scope : Scope} {symbol : Symbol} {name : String}
    {declaration : Declaration} (h : symbol.name = some name ∧ symbol.declaration = declaration) :
    (scope.appendSymbol symbol).declared = scope.declared ++ [(name, declaration)] := by
  unfold Scope.declared Scope.appendSymbol
  have hSymbol : symbol.declared? = some (name, declaration) := by
    unfold Symbol.declared?
    rw [h.1, h.2]
    rfl
  rw [filterMap_append, filterMap_cons_some hSymbol, filterMap_nil]

theorem stAddParameterSymbols_records (parameters : List AstParameter) (scope : Scope) :
    Records [] (stAddParameterSymbols parameters scope)
      fun s => s.declared = scope.declared ++ parametersDeclared parameters := by
  induction parameters generalizing scope with
  | nil => exact .ret (append_nil _).symm
  | cons parameter parameters ih =>
    unfold stAddParameterSymbols
    cases scopeLookupLocal scope parameter.name with
    | some conflicting => exact .error
    | none =>
      refine Records.bind .stSymbolNew fun symbol hSymbol => (ih _).imp fun s hs => ?_
      rw [hs, declared_appendSymbol hSymbol, append_assoc]
      rfl

theorem stParameterScope_records (kind : ScopeKind) (owner : Addr)
    (parameters : List AstParameter) :
    Records [] (stParameterScope kind owner parameters)
      fun s => s.declared = parametersDeclared parameters := by
  unfold stParameterScope
  refine Records.bind (.stScopeNew kind owner) fun opened hEmpty => ?_
  refine Records.bind (stAddParameterSymbols_records parameters opened) fun s hs => ?_
  refine Records.bind (.stRecordScope s) fun _ _ => .ret ?_
  rw [hs, hEmpty]
  rfl

theorem stAddLocalSymbol_records (binding : AstLocalBindingStatement) (scope : Scope) :
    Records [] (stAddLocalSymbol binding scope)
      fun s => s.declared = scope.declared ++ [(binding.name, .localBinding binding)] := by
  unfold stAddLocalSymbol
  cases scopeLookupLocal scope binding.name with
  | some conflicting => exact .error
  | none => exact Records.bind .stSymbolNew fun symbol hSymbol => .ret (declared_appendSymbol hSymbol)

/-! ## The walk -/

mutual
theorem stAnalyzeExpression_records : ∀ (e : AstExpression) (chain : List Scope),
    Records (e.references (chainDeclared chain)) (stAnalyzeExpression e chain) fun _ => True
  | .literal _ _, _ => .ret trivial
  | .template _ parts, chain => stAnalyzeTemplateParts_records parts chain
  | .identifier node name, chain => stAnalyzeIdentifier_records node name chain
  | .lambda node parameters body, chain => by
    refine Records.bind (stParameterScope_records .lambda node.addr parameters) fun s hs => ?_
    rw [← hs]
    exact stAnalyzeLambdaBody_records body (s :: chain)
  | .assignment _ _ target value, chain =>
    Records.bind (stAnalyzeExpression_records target chain) fun _ _ =>
      stAnalyzeExpression_records value chain
  | .ternary _ condition thenBranch elseBranch, chain =>
    Records.bind (stAnalyzeExpression_records condition chain) fun _ _ =>
      Records.bind (stAnalyzeExpression_records thenBranch chain) fun _ _ =>
        stAnalyzeExpression_records elseBranch chain
  | .binary _ _ left right, chain =>
    Records.bind (stAnalyzeExpression_records left chain) fun _ _ =>
      stAnalyzeExpression_records right chain
  | .unary _ _ operand, chain => stAnalyzeExpression_records operand chain
  | .call _ callee arguments, chain =>
    Records.bind (stAnalyzeExpression_records callee chain) fun _ _ =>
      stAnalyzeExpressions_records arguments chain
  | .index _ target index, chain =>
    Records.bind (stAnalyzeExpression_records target chain) fun _ _ =>
      stAnalyzeExpression_records index chain
  | .member _ target _, chain => stAnalyzeExpression_records target chain
  | .cast _ _ expression, chain => stAnalyzeExpression_records expression chain
  | .arrayLiteral _ elements, chain => stAnalyzeExpressions_records elements chain
  | .grouping _ inner, chain => stAnalyzeExpression_records inner chain
  | .discard _, _ => .ret trivial
  | .postIncrement _ operand, chain => stAnalyzeExpression_records operand chain
  | .postDecrement _ operand, chain => stAnalyzeExpression_records operand chain

theorem stAnalyzeExpressions_records : ∀ (es : List AstExpression) (chain : List Scope),
    Records (expressionsReferences es (chainDeclared chain)) (stAnalyzeExpressions es chain)
      fun _ => True
  | [], _ => .ret trivial
  | e :: es, chain =>
    Records.bind (stAnalyzeExpression_records e chain) fun _ _ =>
      stAnalyzeExpressions_records es chain

theorem stAnalyzeTemplateParts_records : ∀ (parts : List AstTemplatePart) (chain : List Scope),
    Records (templateReferences parts (chainDeclared chain)) (stAnalyzeTemplateParts parts chain)
      fun _ => True
  | [], _ => .ret trivial
  | .text _ :: parts, chain => stAnalyzeTemplateParts_records parts chain
  | .expression e :: parts, chain =>
    Records.bind (stAnalyzeExpression_records e chain) fun _ _ =>
      stAnalyzeTemplateParts_records parts chain

theorem stAnalyzeLambdaBody_records : ∀ (body : AstLambdaBody) (chain : List Scope),
    Records (body.references (chainDeclared chain)) (stAnalyzeLambdaBody body chain) fun _ => True
  | .block block, chain => stAnalyzeBlock_records block chain
  | .expression expression, chain => stAnalyzeExpression_records expression chain

theorem stAnalyzeBlock_records : ∀ (block : AstBlock) (chain : List Scope),
    Records (block.references (chainDeclared chain)) (stAnalyzeBlock block chain) fun _ => True
  | .mk addr statements, chain => by
    unfold stAnalyzeBlock
    refine Records.bind (.stScopeNew .block addr) fun opened hEmpty => ?_
    have hBind := Records.bind (stAnalyzeStatements_records statements opened chain)
      fun s _ => Records.stRecordScope s
    rwa [hEmpty, append_nil] at hBind

theorem stAnalyzeStatements_records : ∀ (statements : List AstStatement) (scope : Scope)
    (parents : List Scope),
    Records (statementsReferences statements scope.declared (chainDeclared parents))
      (stAnalyzeStatements statements scope parents) fun _ => True
  | [], _, _ => .ret trivial
  | statement :: statements, scope, parents => by
    unfold stAnalyzeStatements statementsReferences
    refine Records.bind (stAnalyzeStatement_records statement scope parents) fun s hs => ?_
    rw [← hs]
    exact stAnalyzeStatements_records statements s parents

theorem stAnalyzeStatement_records : ∀ (statement : AstStatement) (scope : Scope)
    (parents : List Scope),
    Records (statement.references (chainDeclared (scope :: parents)))
      (stAnalyzeStatement statement scope parents)
      fun s => s.declared = scope.declared ++ statement.declared
  | .localBinding _ isFinal isInternal isInferredType declaredType name nameSpan initializer,
      scope, parents => by
      have hBind := Records.bind (stAnalyzeExpression_records initializer (scope :: parents))
        fun _ _ => stAddLocalSymbol_records
          ⟨isFinal, isInternal, isInferredType, declaredType, name, nameSpan, initializer⟩ scope
      rw [append_nil] at hBind
      exact hBind
  | .returnValue _ expression, scope, parents =>
    (stAnalyzeExpression_records expression (scope :: parents)).bind_ret
      fun _ _ => (append_nil _).symm
  | .returnVoid _, _, _ => .ret (append_nil _).symm
  | .exit _, _, _ => .ret (append_nil _).symm
  | .throw _ expression, scope, parents =>
    (stAnalyzeExpression_records expression (scope :: parents)).bind_ret
      fun _ _ => (append_nil _).symm
  | .expression _ expression, scope, parents =>
    (stAnalyzeExpression_records expression (scope :: parents)).bind_ret
      fun _ _ => (append_nil _).symm
  | .manual _ _ body, scope, parents =>
    (stAnalyzeBlock_records body (scope :: parents)).bind_ret
      fun _ _ => (append_nil _).symm
end

/-! ## Identifiers are different nodes -/

def referenceAddrs (refs : List AstReference) : List Addr := refs.map fun r => r.node.addr

theorem referenceAddrs_append (refs refs' : List AstReference) :
    referenceAddrs (refs ++ refs') = referenceAddrs refs ++ referenceAddrs refs' :=
  map_append

mutual
theorem references_addrs : ∀ (e : AstExpression) (scopes : List DeclaredNames),
    (referenceAddrs (e.references scopes)).Sublist e.addrs
  | .literal _ _, _ => nil_sublist _
  | .template _ parts, scopes => (templateReferences_addrs parts scopes).cons _
  | .identifier _ _, _ => List.Sublist.refl _
  | .lambda _ _ body, scopes =>
    ((lambdaBodyReferences_addrs body _).trans (sublist_append_right _ _)).cons _
  | .assignment _ _ target value, scopes => by
    unfold AstExpression.references
    rw [referenceAddrs_append]
    exact ((references_addrs target scopes).append (references_addrs value scopes)).cons _
  | .ternary _ condition thenBranch elseBranch, scopes => by
    unfold AstExpression.references AstExpression.addrs
    rw [referenceAddrs_append, referenceAddrs_append, append_assoc]
    exact ((references_addrs condition scopes).append
      ((references_addrs thenBranch scopes).append (references_addrs elseBranch scopes))).cons _
  | .binary _ _ left right, scopes => by
    unfold AstExpression.references
    rw [referenceAddrs_append]
    exact ((references_addrs left scopes).append (references_addrs right scopes)).cons _
  | .unary _ _ operand, scopes => (references_addrs operand scopes).cons _
  | .call _ callee arguments, scopes => by
    unfold AstExpression.references
    rw [referenceAddrs_append]
    exact ((references_addrs callee scopes).append
      (expressionsReferences_addrs arguments scopes)).cons _
  | .index _ target index, scopes => by
    unfold AstExpression.references
    rw [referenceAddrs_append]
    exact ((references_addrs target scopes).append (references_addrs index scopes)).cons _
  | .member _ target _, scopes => (references_addrs target scopes).cons _
  | .cast _ _ expression, scopes => (references_addrs expression scopes).cons _
  | .arrayLiteral _ elements, scopes => (expressionsReferences_addrs elements scopes).cons _
  | .grouping _ inner, scopes => (references_addrs inner scopes).cons _
  | .discard _, _ => nil_sublist _
  | .postIncrement _ operand, scopes => (references_addrs operand scopes).cons _
  | .postDecrement _ operand, scopes => (references_addrs operand scopes).cons _

theorem expressionsReferences_addrs : ∀ (es : List AstExpression) (scopes : List DeclaredNames),
    (referenceAddrs (expressionsReferences es scopes)).Sublist (expressionsAddrs es)
  | [], _ => nil_sublist _
  | e :: es, scopes => by
    unfold expressionsReferences
    rw [referenceAddrs_append]
    exact (references_addrs e scopes).append (expressionsReferences_addrs es scopes)

theorem templateReferences_addrs : ∀ (parts : List AstTemplatePart) (scopes : List DeclaredNames),
    (referenceAddrs (templateReferences parts scopes)).Sublist (templateAddrs parts)
  | [], _ => nil_sublist _
  | .text _ :: parts, scopes => templateReferences_addrs parts scopes
  | .expression e :: parts, scopes => by
    unfold templateReferences
    rw [referenceAddrs_append]
    exact (references_addrs e scopes).append (templateReferences_addrs parts scopes)

theorem lambdaBodyReferences_addrs : ∀ (body : AstLambdaBody) (scopes : List DeclaredNames),
    (referenceAddrs (body.references scopes)).Sublist body.addrs
  | .block block, scopes => blockReferences_addrs block scopes
  | .expression expression, scopes => references_addrs expression scopes

theorem blockReferences_addrs : ∀ (block : AstBlock) (scopes : List DeclaredNames),
    (referenceAddrs (block.references scopes)).Sublist block.addrs
  | .mk _ statements, scopes => (statementsReferences_addrs statements [] scopes).cons _

theorem statementsReferences_addrs : ∀ (statements : List AstStatement) (locals : DeclaredNames)
    (scopes : List DeclaredNames),
    (referenceAddrs (statementsReferences statements locals scopes)).Sublist
      (statementsAddrs statements)
  | [], _, _ => nil_sublist _
  | statement :: statements, locals, scopes => by
    unfold statementsReferences
    rw [referenceAddrs_append]
    exact (statementReferences_addrs statement _).append
      (statementsReferences_addrs statements _ scopes)

theorem statementReferences_addrs : ∀ (statement : AstStatement) (scopes : List DeclaredNames),
    (referenceAddrs (statement.references scopes)).Sublist statement.addrs
  | .localBinding _ _ _ _ _ _ _ initializer, scopes => (references_addrs initializer scopes).cons _
  | .returnValue _ expression, scopes => references_addrs expression scopes
  | .returnVoid _, _ => nil_sublist _
  | .exit _, _ => nil_sublist _
  | .throw _ expression, scopes => references_addrs expression scopes
  | .expression _ expression, scopes => references_addrs expression scopes
  | .manual _ _ body, scopes => blockReferences_addrs body scopes
end

theorem topLevelReferences_addrs (names : DeclaredNames) (decl : AstTopLevelDecl) :
    (referenceAddrs (decl.references names)).Sublist decl.addrs := by
  cases decl with
  | start decl =>
    exact ((lambdaBodyReferences_addrs decl.body _).trans (sublist_append_right _ _)).cons _
  | boot decl =>
    exact ((lambdaBodyReferences_addrs decl.body _).trans (sublist_append_right _ _)).cons _
  | binding decl => exact (references_addrs decl.initializer _).cons _
  | union decl => exact nil_sublist _
  | externC decl => exact nil_sublist _

theorem AstProgram.references_addrs (program : AstProgram) :
    (referenceAddrs program.references).Sublist program.addrs := by
  unfold AstProgram.references AstProgram.addrs
  induction program.topLevelDecls with
  | nil => exact nil_sublist _
  | cons decl decls ih =>
    rw [flatMap_cons, flatMap_cons, referenceAddrs_append]
    exact (topLevelReferences_addrs _ decl).append ih

/-! ## The declarations of the program -/

theorem stAnalyzeEntry_records (kind : ScopeKind) (addr : Addr) (parameters : List AstParameter)
    (body : AstLambdaBody) (root : Scope) :
    Records (body.references [parametersDeclared parameters, root.declared]) (do
      let scope ← stParameterScope kind addr parameters
      stAnalyzeLambdaBody body [scope, root]) fun _ => True := by
  refine Records.bind (stParameterScope_records kind addr parameters) fun s hs => ?_
  rw [← hs]
  exact stAnalyzeLambdaBody_records body [s, root]

theorem stUnionTypeParameters_records (decl : AstUnionDecl) (params : List String)
    (scope : Scope) : Records [] (stUnionTypeParameters decl params scope) fun _ => True := by
  induction params generalizing scope with
  | nil => exact .ret trivial
  | cons param params ih => exact Records.bind .stSymbolNew fun symbol _ => ih _

theorem stUnionVariants_records (decl : AstUnionDecl) (i : Nat) (variants : List AstUnionVariant)
    (scope : Scope) : Records [] (stUnionVariants decl i variants scope) fun _ => True := by
  induction variants generalizing i scope with
  | nil => exact .ret trivial
  | cons variant variants ih => exact Records.bind .stSymbolNew fun symbol _ => ih _ _

theorem stAnalyzeUnionDecl_records (decl : AstUnionDecl) :
    Records [] (stAnalyzeUnionDecl decl) fun _ => True := by
  unfold stAnalyzeUnionDecl
  refine Records.bind (.stScopeNew .union decl.addr) fun opened _ => ?_
  refine Records.bind (stUnionTypeParameters_records decl _ opened) fun scope _ => ?_
  exact Records.bind (stUnionVariants_records decl 0 _ scope) fun closed _ => .stRecordScope closed

theorem Records.withRoot {refs : Scope → List AstReference} {m : Scope → StM Unit}
    (h : ∀ root, Records (refs root) (m root) fun _ => True) {table later : SymbolTable}
    (hRun : (do m (← get).rootScope : StM Unit) table = .ok ((), later)) :
    table.Records (refs table.rootScope) later := by
  rw [get_bind] at hRun
  exact (h table.rootScope table () later hRun).1

theorem stAnalyzeTopLevelDecl_records (decl : AstTopLevelDecl) {table later : SymbolTable}
    (hRun : stAnalyzeTopLevelDecl decl table = .ok ((), later)) :
    table.Records (decl.references table.rootScope.declared) later := by
  cases decl with
  | start decl =>
    exact Records.withRoot (fun root => stAnalyzeEntry_records .start decl.addr _ decl.body root)
      hRun
  | boot decl =>
    exact Records.withRoot (fun root => stAnalyzeEntry_records .boot decl.addr _ decl.body root)
      hRun
  | binding decl =>
    exact Records.withRoot (m := fun root => stAnalyzeExpression decl.initializer [root])
      (fun root => stAnalyzeExpression_records decl.initializer [root]) hRun
  | union decl =>
    exact Records.withRoot (m := fun _ => stAnalyzeUnionDecl decl)
      (fun _ => stAnalyzeUnionDecl_records decl) hRun
  | externC decl =>
    exact Records.withRoot (m := fun _ => pure ()) (fun _ => .ret trivial) hRun

/-- The declarations one after the other; the scope of the program stays as it is. -/
theorem stAnalyzeTopLevelDecls_records (decls : List AstTopLevelDecl) {table later : SymbolTable}
    (hRun : decls.forM stAnalyzeTopLevelDecl table = .ok ((), later)) :
    table.Records (decls.flatMap (AstTopLevelDecl.references table.rootScope.declared)) later := by
  induction decls generalizing table with
  | nil =>
    cases hRun
    exact .of_tables_eq rfl rfl rfl rfl
  | cons decl decls ih =>
    obtain ⟨_, middle, hFirst, hRest⟩ := bind_eq_ok.1 hRun
    have hDecl := stAnalyzeTopLevelDecl_records decl hFirst
    have hDecls := ih hRest
    rw [hDecl.root_eq] at hDecls
    exact hDecl.trans hDecls

/-! ## The scope of the program and the imports -/

theorem topLevelSymbol_declared {addr : Addr} {scope : ScopeId} {decl : AstTopLevelDecl}
    {symbol : Symbol} (h : topLevelSymbol addr scope decl = some symbol) :
    symbol.declared? = decl.declared? := by
  cases decl <;> cases h <;> rfl

theorem AstTopLevelDecl.declared?_isSome (decl : AstTopLevelDecl) :
    decl.declared?.isSome = decl.name?.isSome := by
  cases decl <;> rfl

theorem TopLevelDeclared.declared_eq {scope : ScopeId} {decls : List AstTopLevelDecl}
    {symbols : List Symbol} (h : TopLevelDeclared scope decls symbols) :
    symbols.filterMap Symbol.declared? = decls.filterMap AstTopLevelDecl.declared? := by
  unfold TopLevelDeclared at h
  induction decls generalizing symbols with
  | nil =>
    cases h
    rfl
  | cons decl decls ih =>
    have hSome := decl.declared?_isSome
    cases hDeclared : decl.declared? with
    | none =>
      rw [hDeclared] at hSome
      rw [filter_cons_of_neg (by simp [← hSome])] at h
      rw [filterMap_cons_none hDeclared]
      exact ih h
    | some p =>
      rw [hDeclared] at hSome
      rw [filter_cons_of_pos (by simp [← hSome])] at h
      cases h with
      | cons hHead hTail =>
        rw [filterMap_cons_some ((topLevelSymbol_declared hHead).trans hDeclared),
          filterMap_cons_some hDeclared, ih hTail]

/-- The symbols of the imports are searched like the names that the imports bind. -/
theorem ImportsDeclared.find?_declaration {scope : ScopeId}
    {bindings : List (AstImportDecl × Option String)} {symbols : List Symbol}
    (h : ImportsDeclared scope bindings symbols) {p : Symbol → Bool}
    {q : AstImportDecl × Option String → Bool}
    (hAgree : ∀ addr b, p (importSymbol addr scope b.1 b.2) = q b) :
    (symbols.find? p).map Symbol.declaration =
      (bindings.find? q).map fun b => .importDecl b.1 := by
  induction h with
  | nil => rfl
  | @cons b s _ _ hHead _ ih =>
    have hHere := hAgree s.addr b
    rw [← hHead] at hHere
    cases hq : q b with
    | true =>
      rw [find?_cons_of_pos (hHere.trans hq), find?_cons_of_pos hq, hHead]
      rfl
    | false =>
      rw [find?_cons_of_neg (by simp [hHere, hq]), find?_cons_of_neg (by simp [hq])]
      exact ih

theorem find?_importBindings (imports : List AstImportDecl)
    (q : AstImportDecl × Option String → Bool) :
    ((importBindings imports).find? q).map Prod.fst =
      imports.find? fun decl => decl.boundNames.any fun name => q (decl, name) := by
  unfold importBindings
  induction imports with
  | nil => rfl
  | cons decl imports ih =>
    rw [flatMap_cons, find?_append, find?_map]
    cases hFind : decl.boundNames.find? (q ∘ fun name => (decl, name)) with
    | none =>
      have hNone := find?_eq_none.1 hFind
      rw [find?_cons_of_neg (by simpa using hNone)]
      exact ih
    | some name =>
      have hAny : (decl.boundNames.any fun name => q (decl, name)) = true :=
        any_eq_true.2 ⟨name, mem_of_find?_eq_some hFind,
          find?_some (p := q ∘ fun name => (decl, name)) hFind⟩
      rw [find?_cons_of_pos
        (p := fun decl : AstImportDecl => decl.boundNames.any fun name => q (decl, name)) hAny]
      rfl

theorem AstImportDecl.boundNames_of_wildcard {decl : AstImportDecl}
    (h : decl.kind = .wildcard) : decl.boundNames = [none] := by
  unfold AstImportDecl.boundNames
  rw [h]

/-- The first wildcard import among the names that the imports bind. -/
theorem find?_wildcard (imports : List AstImportDecl) :
    ((importBindings imports).find? fun b => decide (b.1.kind = .wildcard)).map Prod.fst =
      imports.find? fun decl => decide (decl.kind = .wildcard) := by
  rw [find?_importBindings]
  congr 1
  funext decl
  by_cases hKind : decl.kind = .wildcard
  · rw [decl.boundNames_of_wildcard hKind]
    simp
  · simp [hKind]

theorem importDeclaration_eq {program : AstProgram} {table : SymbolTable}
    (h : ImportsDeclared table.rootScope.id (importBindings program.imports) table.imports)
    (name : String) : table.importDeclaration name = program.importOf name := by
  have hNamed := h.find?_declaration (p := fun symbol => symbol.name == some name)
    (q := fun b => b.2 == some name) fun _ _ => rfl
  have hWildcard := h.find?_declaration (p := fun symbol => symbol.isWildcardImport)
    (q := fun b => decide (b.1.kind = .wildcard)) fun _ _ => rfl
  unfold SymbolTable.importDeclaration AstProgram.importOf SymbolTable.findImport
    SymbolTable.wildcardSentinel
  rw [Option.map_or, Option.map_or, hNamed, hWildcard,
    ← find?_importBindings program.imports fun b => b.2 == some name, ← find?_wildcard,
    Option.map_map, Option.map_map]
  rfl

/-! ## The whole pass -/

/-- The table says of every identifier what the rule says, each once. -/
structure SymbolTable.IsLexical (program : AstProgram) (table : SymbolTable) : Prop where
  resolved : ∀ r ∈ program.references,
    (table.resolveIdentifier r.node.addr).map Symbol.declaration = program.declarationOf r
  unresolved : table.unresolvedIdentifiers =
    (program.references.filter fun r => (program.declarationOf r).isNone).map
      fun r => ⟨r.node, r.name⟩
  outcomes : (table.resolutions.map SymbolResolution.identifier ++
    table.unresolvedIdentifiers.map UnresolvedIdentifier.identifier).Perm
      (program.references.map AstReference.node)

/-- The first entry of a node, where nodes have one entry at most. -/
theorem find?_filterMap_node {f : AstReference → Option Declaration} {refs : List AstReference}
    (hNodup : (referenceAddrs refs).Nodup) {r : AstReference} (hr : r ∈ refs) :
    ((refs.filterMap fun r => (f r).map fun d => (r.node, d)).find?
      fun p => p.1.addr == r.node.addr).map Prod.snd = f r := by
  induction refs with
  | nil => exact nomatch hr
  | cons first refs ih =>
    obtain ⟨hFirst, hNodup⟩ := nodup_cons.1 hNodup
    rcases mem_cons.1 hr with rfl | hr
    · cases hf : f r with
      | some d =>
        rw [filterMap_cons_some (by rw [hf]; rfl)]
        simp
      | none =>
        rw [filterMap_cons_none (by rw [hf]; rfl), find?_eq_none.2 ?_]
        · rfl
        · intro p hp hEq
          obtain ⟨other, hOther, hSome⟩ := mem_filterMap.1 hp
          obtain ⟨d, -, rfl⟩ := Option.map_eq_some_iff.1 hSome
          exact hFirst (mem_map.2 ⟨other, hOther, beq_iff_eq.1 hEq⟩)
    · have hNe : first.node.addr ≠ r.node.addr := fun hEq =>
        hFirst (mem_map.2 ⟨r, hr, hEq.symm⟩)
      cases hf : f first with
      | some d =>
        rw [filterMap_cons_some (by rw [hf]; rfl),
          find?_cons_of_neg (by simpa using hNe)]
        exact ih hNodup hr
      | none =>
        rw [filterMap_cons_none (by rw [hf]; rfl)]
        exact ih hNodup hr

theorem resolveIdentifier_declaration (table : SymbolTable) (addr : Addr) :
    (table.resolveIdentifier addr).map Symbol.declaration =
      (table.resolvedDeclarations.find? fun p => p.1.addr == addr).map Prod.snd := by
  unfold SymbolTable.resolveIdentifier SymbolTable.findResolution SymbolTable.resolvedDeclarations
  rw [find?_map, Option.map_map, Option.map_map]
  rfl

/-- Every reference is among those with a declaration or among those without one. -/
theorem perm_nodes (f : AstReference → Option Declaration) (refs : List AstReference) :
    ((refs.filterMap fun r => (f r).map fun d => (r.node, d)).map Prod.fst ++
      ((refs.filter fun r => (f r).isNone).map AstReference.node)).Perm
        (refs.map AstReference.node) := by
  induction refs with
  | nil => exact .nil
  | cons r refs ih =>
    cases hf : f r with
    | some d =>
      rw [filterMap_cons_some (by rw [hf]; rfl), filter_cons_of_neg (by simp [hf])]
      exact ih.cons r.node
    | none =>
      rw [filterMap_cons_none (by rw [hf]; rfl), filter_cons_of_pos (by simp [hf])]
      exact perm_middle.trans (ih.cons r.node)

theorem BuildSteps.isLexical {program : AstProgram} {table : SymbolTable}
    (h : BuildSteps program table) (hNodup : program.addrs.Nodup) : table.IsLexical program := by
  have hRoot : h.declared.rootScope.declared = program.topLevelDeclared := h.decls.root.declared_eq
  have hRecords := stAnalyzeTopLevelDecls_records program.topLevelDecls h.analyzed
  have hRule (r : AstReference) : h.declared.declarationOf r = program.declarationOf r := by
    unfold SymbolTable.declarationOf AstProgram.declarationOf
    rw [importDeclaration_eq]
    rw [h.decls.imports_eq, h.decls.root_id]
    exact h.imports.imports
  have hResolved := hRecords.resolved
  have hUnresolved := hRecords.unresolved
  have hStart : h.declared.resolvedDeclarations = [] := by
    unfold SymbolTable.resolvedDeclarations
    rw [h.decls.resolutions_eq, h.imports.resolutions]
    rfl
  rw [hStart, nil_append, hRoot, funext hRule] at hResolved
  rw [h.decls.unresolved_eq, h.imports.unresolved, nil_append, hRoot, funext hRule]
    at hUnresolved
  have hAddrs : (referenceAddrs program.references).Nodup :=
    program.references_addrs.nodup hNodup
  refine ⟨fun r hr => ?_, hUnresolved, ?_⟩
  · rw [resolveIdentifier_declaration, hResolved]
    exact find?_filterMap_node hAddrs hr
  · have hNodes : table.resolutions.map SymbolResolution.identifier =
        table.resolvedDeclarations.map Prod.fst := by
      unfold SymbolTable.resolvedDeclarations
      rw [map_map]
      rfl
    rw [hNodes, hResolved, hUnresolved, map_map]
    exact perm_nodes program.declarationOf program.references

/-- Every identifier of a program whose symbol table is built has the declaration that lexical
scoping gives it, and is listed as unresolved if there is none. -/
theorem symbolTableBuild_isLexical (program : ParsedProgram) {table : SymbolTable}
    (hRun : symbolTableBuild program.toAstProgram = .ok table) :
    table.IsLexical program.toAstProgram := by
  obtain ⟨h⟩ := symbolTableBuild_steps hRun
  exact h.isLexical program.wellFormed.addrs

/-- `import tools.*; int32 x = size; boot() -> { int32 x = x; return x; };` -/
def shadowed : ParsedProgram where
  packageName := none
  imports := [⟨1, .wildcard, ⟨["tools"], .zero, .zero⟩⟩]
  topLevelDecls :=
    [.binding ⟨[], false, .mk 2 .primitive .int32 none [] [], "x", .zero,
      .identifier ⟨3, .zero⟩ "size"⟩,
    .boot ⟨4, [], .block (.mk 5
      [.localBinding .zero false false false (.mk 6 .primitive .int32 none [] []) "x" .zero
        (.identifier ⟨7, .zero⟩ "x"),
      .returnValue .zero (.identifier ⟨8, .zero⟩ "x")]), .zero⟩]
  wellFormed := by
    refine ⟨by decide, by decide, fun h => ?_⟩
    rw [mem_singleton.1 h]
    exact ⟨by decide, fun h => by rw [mem_singleton.1 h]; decide, nofun, nofun⟩

theorem symbolTableBuild_isLexical_shadowed :
    ∃ table, symbolTableBuild shadowed.toAstProgram = .ok table ∧
      table.IsLexical shadowed.toAstProgram := by
  have hOk : (symbolTableBuild shadowed.toAstProgram).isOk = true := by decide +kernel
  cases hRun : symbolTableBuild shadowed.toAstProgram with
  | ok table => exact ⟨table, rfl, symbolTableBuild_isLexical shadowed hRun⟩
  | error e =>
    rw [hRun] at hOk
    exact nomatch hOk

end Calynda
