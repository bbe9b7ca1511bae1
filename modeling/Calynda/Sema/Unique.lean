import Calynda.Sema.Occurrence

/-!
# Names of a scope

A parameter, a local and a name of the top level are compared with the names that their scope
already has, and a binding or a union with the imports too. The members of a union are not
compared, nor an extern with the imports: where these differ of themselves all names do.
-/

namespace Calynda

open StateExcept

/-! ## Names that differ -/

/-- The names of a union scope: the type parameters, then the variants. -/
def AstUnionDecl.memberNames (decl : AstUnionDecl) : List String :=
  decl.genericParams ++ decl.variants.map AstUnionVariant.name

namespace AstProgram

def importedNames (program : AstProgram) : List String :=
  (importBindings program.imports).filterMap Prod.snd

/-- The names that nothing compares differ. -/
structure NamesApart (program : AstProgram) : Prop where
  unions : ∀ decl, .union decl ∈ program.topLevelDecls → decl.memberNames.Nodup
  externs : ∀ decl, .externC decl ∈ program.topLevelDecls → decl.name ∉ program.importedNames

end AstProgram

/-- No scope has two symbols of one name, and the program scope none that an import has. -/
structure SymbolTable.UniqueNames (table : SymbolTable) : Prop where
  scopes : ∀ scope ∈ table.rootScope :: table.scopes, scope.names.Nodup
  imports : ∀ name ∈ table.rootScope.names, ∀ symbol ∈ table.imports, symbol.name ≠ some name

/-- The error says that a name comes twice. -/
inductive IsDuplicate : SymbolTableError → Prop where
  | symbol (span : AstSourceSpan) (previous : Symbol) (name : String) (kind : ScopeKind) :
      IsDuplicate (.at span previous.declarationSpan
        s!"Duplicate symbol '{name}' in {scopeKindName kind}.")
  | importAlias (span : AstSourceSpan) (previous : Symbol) (name : String) :
      IsDuplicate (.at span previous.declarationSpan s!"Duplicate import alias '{name}'.")
  | ambiguous (span : AstSourceSpan) (previous : Symbol) (name : String) :
      IsDuplicate (.at span previous.declarationSpan
        s!"Ambiguous import: '{name}' is already imported.")

/-! ## Passes -/

/-- What the analysis of declarations with the unions `unions` adds: no import takes a name of the
program scope, and the new scopes have no name twice, but those of the unions. -/
structure SymbolTable.Adds (unions : List AstUnionDecl) (table later : SymbolTable) : Prop where
  root_eq : later.rootScope = table.rootScope
  imports : ∃ new, later.imports = table.imports ++ new ∧
    ∀ symbol ∈ new, ∀ name ∈ table.rootScope.names, symbol.name ≠ some name
  scopes : ∃ new, later.scopes = table.scopes ++ new ∧
    (∀ scope ∈ new, scope.names.Nodup ∨ ∃ decl ∈ unions, scope.names = decl.memberNames) ∧
    ∀ decl ∈ unions, ∃ scope ∈ new, scope.names = decl.memberNames

/-- In a chain of scopes from the program scope on, the pass `m` adds the scopes of `unions` beside
scopes without names that come twice, and fails only because of a name that comes twice. -/
def Keeps {α : Type} (unions : List AstUnionDecl) (chain : List Scope) (m : StM α)
    (Post : α → Prop) : Prop :=
  ∀ table, table.rootScope ∈ chain →
    (∀ a later, m table = .ok (a, later) → table.Adds unions later ∧ Post a) ∧
      ∀ e, m table = .error e → IsDuplicate e

theorem SymbolTable.Adds.refl (table : SymbolTable) : table.Adds [] table :=
  ⟨rfl, ⟨[], by simp⟩, ⟨[], by simp⟩⟩

/-- The counters and the resolutions do not matter. -/
theorem SymbolTable.Adds.of_tables_eq {table later : SymbolTable}
    (hRoot : later.rootScope = table.rootScope) (hImports : later.imports = table.imports)
    (hScopes : later.scopes = table.scopes) : table.Adds [] later :=
  ⟨hRoot, ⟨[], by simp [hImports]⟩, ⟨[], by simp [hScopes]⟩⟩

theorem SymbolTable.Adds.trans {unions unions' : List AstUnionDecl} {a b c : SymbolTable}
    (hab : a.Adds unions b) (hbc : b.Adds unions' c) : a.Adds (unions ++ unions') c := by
  obtain ⟨imports₁, hImports₁, hNames₁⟩ := hab.imports
  obtain ⟨imports₂, hImports₂, hNames₂⟩ := hbc.imports
  obtain ⟨scopes₁, hScopes₁, hNodup₁, hUnions₁⟩ := hab.scopes
  obtain ⟨scopes₂, hScopes₂, hNodup₂, hUnions₂⟩ := hbc.scopes
  rw [hab.root_eq] at hNames₂
  refine ⟨hbc.root_eq.trans hab.root_eq,
    ⟨imports₁ ++ imports₂, by rw [hImports₂, hImports₁, List.append_assoc], fun s hs => ?_⟩,
    ⟨scopes₁ ++ scopes₂, by rw [hScopes₂, hScopes₁, List.append_assoc], fun s hs => ?_,
      fun d hd => ?_⟩⟩
  · rcases List.mem_append.1 hs with hs | hs
    · exact hNames₁ s hs
    · exact hNames₂ s hs
  · rcases List.mem_append.1 hs with hs | hs
    · refine (hNodup₁ s hs).imp_right ?_
      rintro ⟨d, hd, hEq⟩
      exact ⟨d, List.mem_append_left _ hd, hEq⟩
    · refine (hNodup₂ s hs).imp_right ?_
      rintro ⟨d, hd, hEq⟩
      exact ⟨d, List.mem_append_right _ hd, hEq⟩
  · rcases List.mem_append.1 hd with hd | hd
    · obtain ⟨s, hs, hEq⟩ := hUnions₁ d hd
      exact ⟨s, List.mem_append_left _ hs, hEq⟩
    · obtain ⟨s, hs, hEq⟩ := hUnions₂ d hd
      exact ⟨s, List.mem_append_right _ hs, hEq⟩

namespace Keeps

variable {α β : Type} {u v : List AstUnionDecl} {chain : List Scope}
  {m : StM α} {f : α → StM β} {P : α → Prop} {Q : β → Prop}

theorem ret {a : α} (h : P a) : Keeps [] chain (pure a) P := by
  refine fun table _ => ⟨fun b later hRun => ?_, fun e hRun => ?_⟩
  · cases hRun
    exact ⟨.refl table, h⟩
  · cases hRun

theorem bind (h : Keeps u chain m P) (h' : ∀ a, P a → Keeps v chain (f a) Q) :
    Keeps (u ++ v) chain (m >>= f) Q := by
  intro table hRoot
  obtain ⟨hOk, hError⟩ := h table hRoot
  refine ⟨fun b later hRun => ?_, fun e hRun => ?_⟩
  · obtain ⟨a, middle, hFirst, hRest⟩ := bind_eq_ok.1 hRun
    obtain ⟨hAdds, hP⟩ := hOk a middle hFirst
    rw [← hAdds.root_eq] at hRoot
    obtain ⟨hAdds', hQ⟩ := (h' a hP middle hRoot).1 b later hRest
    exact ⟨hAdds.trans hAdds', hQ⟩
  · rcases bind_eq_error.1 hRun with hFirst | ⟨a, middle, hFirst, hRest⟩
    · exact hError e hFirst
    · obtain ⟨hAdds, hP⟩ := hOk a middle hFirst
      rw [← hAdds.root_eq] at hRoot
      exact (h' a hP middle hRoot).2 e hRest

/-- A pass that enters a scope. -/
theorem leave {chain' : List Scope} (h : Keeps u chain' m P) (hSub : chain ⊆ chain') :
    Keeps u chain m P :=
  fun table hRoot => h table (hSub hRoot)

theorem imp {P' : α → Prop} (h : Keeps u chain m P) (hImp : ∀ a, P a → P' a) :
    Keeps u chain m P' := by
  intro table hRoot
  obtain ⟨hOk, hError⟩ := h table hRoot
  exact ⟨fun a later hRun => (hOk a later hRun).imp_right (hImp a), hError⟩

theorem duplicate (span : AstSourceSpan) (previous : Symbol) (name : String) (kind : ScopeKind) :
    Keeps [] chain (stDuplicateSymbol span previous name kind) P := by
  refine fun table _ => ⟨fun a later hRun => ?_, fun e hRun => ?_⟩
  · cases hRun
  · cases hRun
    exact .symbol span previous name kind

/-- A pass that touches neither scopes nor imports. -/
theorem of_run {g : SymbolTable → α} {next : SymbolTable → SymbolTable}
    (hRun : ∀ table, m table = .ok (g table, next table))
    (hAdds : ∀ table : SymbolTable, table.Adds u (next table)) (hPost : ∀ table, P (g table)) :
    Keeps u chain m P := by
  refine fun table _ => ⟨fun a later h => ?_, fun e h => ?_⟩
  · rw [hRun] at h
    cases h
    exact ⟨hAdds table, hPost table⟩
  · rw [hRun] at h
    cases h

theorem stSymbolNew {kind : SymbolKind} {name qualifiedName : Option String}
    {declaredType : Option AstType} {isInferredType isFinal isExported isStatic isInternal : Bool}
    {span : AstSourceSpan} {declaration : Declaration} {scope : Option ScopeId} :
    Keeps [] chain (stSymbolNew kind name qualifiedName declaredType isInferredType isFinal
      isExported isStatic isInternal span declaration scope) fun symbol => symbol.name = name :=
  of_run (fun _ => rfl) (fun _ => .of_tables_eq rfl rfl rfl) fun _ => rfl

theorem stScopeNew (kind : ScopeKind) (owner : Addr) :
    Keeps [] chain (stScopeNew kind owner) fun scope => scope.names = [] :=
  of_run (fun _ => rfl) (fun _ => .of_tables_eq rfl rfl rfl) fun _ => rfl

theorem stRecordScope {scope : Scope} (h : scope.names.Nodup) :
    Keeps [] chain (stRecordScope scope) fun _ => True := by
  refine of_run (fun _ => rfl) (fun table => ⟨rfl, ⟨[], by simp⟩, [scope], rfl, ?_, nofun⟩)
    fun _ => trivial
  intro s hs
  rw [List.mem_singleton.1 hs]
  exact .inl h

end Keeps

/-! ## Names are compared -/

theorem names_appendSymbol {scope : Scope} {symbol : Symbol} {name : String}
    (h : symbol.name = some name) : (scope.appendSymbol symbol).names = scope.names ++ [name] := by
  unfold Scope.names Scope.appendSymbol
  rw [List.filterMap_append]
  simp [h]

theorem nodup_appendSymbol {scope : Scope} {symbol : Symbol} {name : String}
    (hNodup : scope.names.Nodup) (hNew : scopeLookupLocal scope name = none)
    (h : symbol.name = some name) : (scope.appendSymbol symbol).names.Nodup := by
  rw [names_appendSymbol h]
  refine List.nodup_append'.2 ⟨hNodup, by simp, fun other hOther hEq => ?_⟩
  rw [List.mem_singleton.1 hEq] at hOther
  exact scopeLookupLocal_eq_none.1 hNew hOther

section Declarations

variable {chain : List Scope}

theorem stAddParameterSymbols_keeps (parameters : List AstParameter) {scope : Scope}
    (h : scope.names.Nodup) :
    Keeps [] chain (stAddParameterSymbols parameters scope) fun s => s.names.Nodup := by
  induction parameters generalizing scope with
  | nil => exact .ret h
  | cons parameter parameters ih =>
    unfold stAddParameterSymbols
    cases hLookup : scopeLookupLocal scope parameter.name with
    | some conflicting => exact .duplicate _ _ _ _
    | none =>
      refine Keeps.bind .stSymbolNew fun symbol hName => ?_
      exact ih (nodup_appendSymbol h hLookup hName)

theorem stAddLocalSymbol_keeps (binding : AstLocalBindingStatement) {scope : Scope}
    (h : scope.names.Nodup) :
    Keeps [] chain (stAddLocalSymbol binding scope) fun s => s.names.Nodup := by
  unfold stAddLocalSymbol
  cases hLookup : scopeLookupLocal scope binding.name with
  | some conflicting => exact .duplicate _ _ _ _
  | none =>
    refine Keeps.bind .stSymbolNew fun symbol hName => ?_
    exact .ret (nodup_appendSymbol h hLookup hName)

theorem stParameterScope_keeps (kind : ScopeKind) (owner : Addr) (parameters : List AstParameter) :
    Keeps [] chain (stParameterScope kind owner parameters) fun s => s.names.Nodup := by
  unfold stParameterScope
  refine Keeps.bind (.stScopeNew kind owner) fun opened hEmpty => ?_
  refine Keeps.bind (stAddParameterSymbols_keeps parameters (by rw [hEmpty]; exact .nil))
    fun s hNodup => ?_
  exact Keeps.bind (.stRecordScope hNodup) fun _ _ => .ret hNodup

theorem not_mem_names_of_lookup {table : SymbolTable} {name : String}
    (hRoot : table.rootScope ∈ chain) (h : table.lookup chain name = none) :
    name ∉ table.rootScope.names := by
  intro hMem
  unfold SymbolTable.lookup at h
  cases hChain : stLookupInScopes chain name with
  | some symbol =>
    rw [hChain] at h
    cases h
  | none =>
    exact stLookupInScopes_eq_none.1 hChain (List.mem_flatMap.2 ⟨_, hRoot, hMem⟩)

/-- A name that a wildcard import resolves is none of the program scope. -/
theorem stAnalyzeIdentifier_run (node : AstNode) (name : String) {table : SymbolTable}
    (hRoot : table.rootScope ∈ chain) :
    ∃ later, stAnalyzeIdentifier node name chain table = .ok ((), later) ∧ table.Adds [] later := by
  unfold stAnalyzeIdentifier
  rw [get_bind]
  cases hLookup : table.lookup chain name with
  | some symbol => exact ⟨_, rfl, .of_tables_eq rfl rfl rfl⟩
  | none =>
    have hNew := not_mem_names_of_lookup hRoot hLookup
    dsimp only
    cases hSentinel : table.imports.find? fun symbol => symbol.isWildcardImport with
    | none =>
      have hNone : stTryWildcardResolve chain name table = .ok (none, table) := by
        unfold stTryWildcardResolve
        rw [get_bind, hSentinel]
        rfl
      exact ⟨_, bind_ok hNone, .of_tables_eq rfl rfl rfl⟩
    | some sentinel =>
      have hRun : ∃ member : Symbol, member.name = some name ∧
          stTryWildcardResolve chain name table = .ok (some member,
            { table with nextAddr := table.nextAddr + 1
                         imports := table.imports ++ [member] }) := by
        unfold stTryWildcardResolve
        rw [get_bind, hSentinel]
        exact ⟨_, rfl, rfl⟩
      obtain ⟨member, hName, hRun⟩ := hRun
      refine ⟨_, bind_ok hRun, rfl, ⟨[member], rfl, fun s hs other hOther hEq => ?_⟩, [], by simp⟩
      rw [List.mem_singleton.1 hs, hName] at hEq
      exact hNew (Option.some.inj hEq ▸ hOther)

theorem stAnalyzeIdentifier_keeps (node : AstNode) (name : String) :
    Keeps [] chain (stAnalyzeIdentifier node name chain) fun _ => True := by
  intro table hRoot
  obtain ⟨later, hRun, hAdds⟩ := stAnalyzeIdentifier_run node name hRoot
  refine ⟨fun a other h => ?_, fun e h => ?_⟩
  · rw [hRun] at h
    cases h
    exact ⟨hAdds, trivial⟩
  · rw [hRun] at h
    cases h

end Declarations

/-! ## The analysis of the tree -/

mutual
theorem stAnalyzeExpression_keeps : ∀ (e : AstExpression) (chain : List Scope),
    Keeps [] chain (stAnalyzeExpression e chain) fun _ => True
  | .literal _ _, _ => .ret trivial
  | .template _ parts, chain => stAnalyzeTemplateParts_keeps parts chain
  | .identifier node name, _ => stAnalyzeIdentifier_keeps node name
  | .lambda node parameters body, chain =>
    Keeps.bind (stParameterScope_keeps .lambda node.addr parameters) fun s _ =>
      (stAnalyzeLambdaBody_keeps body (s :: chain)).leave (List.subset_cons_self _ _)
  | .assignment _ _ target value, chain =>
    Keeps.bind (stAnalyzeExpression_keeps target chain) fun _ _ =>
      stAnalyzeExpression_keeps value chain
  | .ternary _ condition thenBranch elseBranch, chain =>
    Keeps.bind (stAnalyzeExpression_keeps condition chain) fun _ _ =>
      Keeps.bind (stAnalyzeExpression_keeps thenBranch chain) fun _ _ =>
        stAnalyzeExpression_keeps elseBranch chain
  | .binary _ _ left right, chain =>
    Keeps.bind (stAnalyzeExpression_keeps left chain) fun _ _ =>
      stAnalyzeExpression_keeps right chain
  | .unary _ _ operand, chain => stAnalyzeExpression_keeps operand chain
  | .call _ callee arguments, chain =>
    Keeps.bind (stAnalyzeExpression_keeps callee chain) fun _ _ =>
      stAnalyzeExpressions_keeps arguments chain
  | .index _ target index, chain =>
    Keeps.bind (stAnalyzeExpression_keeps target chain) fun _ _ =>
      stAnalyzeExpression_keeps index chain
  | .member _ target _, chain => stAnalyzeExpression_keeps target chain
  | .cast _ _ expression, chain => stAnalyzeExpression_keeps expression chain
  | .arrayLiteral _ elements, chain => stAnalyzeExpressions_keeps elements chain
  | .grouping _ inner, chain => stAnalyzeExpression_keeps inner chain
  | .discard _, _ => .ret trivial
  | .postIncrement _ operand, chain => stAnalyzeExpression_keeps operand chain
  | .postDecrement _ operand, chain => stAnalyzeExpression_keeps operand chain

theorem stAnalyzeExpressions_keeps : ∀ (es : List AstExpression) (chain : List Scope),
    Keeps [] chain (stAnalyzeExpressions es chain) fun _ => True
  | [], _ => .ret trivial
  | e :: es, chain =>
    Keeps.bind (stAnalyzeExpression_keeps e chain) fun _ _ => stAnalyzeExpressions_keeps es chain

theorem stAnalyzeTemplateParts_keeps : ∀ (parts : List AstTemplatePart) (chain : List Scope),
    Keeps [] chain (stAnalyzeTemplateParts parts chain) fun _ => True
  | [], _ => .ret trivial
  | .text _ :: parts, chain => stAnalyzeTemplateParts_keeps parts chain
  | .expression e :: parts, chain =>
    Keeps.bind (stAnalyzeExpression_keeps e chain) fun _ _ =>
      stAnalyzeTemplateParts_keeps parts chain

theorem stAnalyzeLambdaBody_keeps : ∀ (body : AstLambdaBody) (chain : List Scope),
    Keeps [] chain (stAnalyzeLambdaBody body chain) fun _ => True
  | .block block, chain => stAnalyzeBlock_keeps block chain
  | .expression expression, chain => stAnalyzeExpression_keeps expression chain

theorem stAnalyzeBlock_keeps : ∀ (block : AstBlock) (chain : List Scope),
    Keeps [] chain (stAnalyzeBlock block chain) fun _ => True
  | .mk addr statements, chain =>
    Keeps.bind (.stScopeNew .block addr) fun _ hEmpty =>
      Keeps.bind (stAnalyzeStatements_keeps statements chain (by rw [hEmpty]; exact .nil))
        fun _ hNodup => .stRecordScope hNodup

theorem stAnalyzeStatements_keeps : ∀ (statements : List AstStatement) {scope : Scope}
    (parents : List Scope), scope.names.Nodup →
    Keeps [] parents (stAnalyzeStatements statements scope parents) fun s => s.names.Nodup
  | [], _, _, h => .ret h
  | statement :: statements, _, parents, h =>
    Keeps.bind (stAnalyzeStatement_keeps statement parents h) fun _ hNodup =>
      stAnalyzeStatements_keeps statements parents hNodup

/-- The scope that a statement gives back has no name twice. -/
theorem stAnalyzeStatement_keeps : ∀ (statement : AstStatement) {scope : Scope}
    (parents : List Scope), scope.names.Nodup →
    Keeps [] parents (stAnalyzeStatement statement scope parents) fun s => s.names.Nodup
  | .localBinding _ _ _ _ _ _ _ initializer, scope, parents, h =>
    Keeps.bind ((stAnalyzeExpression_keeps initializer (scope :: parents)).leave
      (List.subset_cons_self _ _)) fun _ _ => stAddLocalSymbol_keeps _ h
  | .returnValue _ expression, scope, parents, h =>
    Keeps.bind ((stAnalyzeExpression_keeps expression (scope :: parents)).leave
      (List.subset_cons_self _ _)) fun _ _ => .ret h
  | .returnVoid _, _, _, h => .ret h
  | .exit _, _, _, h => .ret h
  | .throw _ expression, scope, parents, h =>
    Keeps.bind ((stAnalyzeExpression_keeps expression (scope :: parents)).leave
      (List.subset_cons_self _ _)) fun _ _ => .ret h
  | .expression _ expression, scope, parents, h =>
    Keeps.bind ((stAnalyzeExpression_keeps expression (scope :: parents)).leave
      (List.subset_cons_self _ _)) fun _ _ => .ret h
  | .manual _ _ body, scope, parents, h =>
    Keeps.bind ((stAnalyzeBlock_keeps body (scope :: parents)).leave
      (List.subset_cons_self _ _)) fun _ _ => .ret h
end

/-! ## Declarations -/

section Unions

variable {chain : List Scope} (decl : AstUnionDecl)

theorem stUnionTypeParameters_keeps (params : List String) (scope : Scope) :
    Keeps [] chain (stUnionTypeParameters decl params scope)
      fun s => s.names = scope.names ++ params := by
  induction params generalizing scope with
  | nil => exact .ret (by simp)
  | cons param params ih =>
    refine Keeps.bind .stSymbolNew fun symbol hName => (ih _).imp fun s hNames => ?_
    rw [hNames, names_appendSymbol hName, List.append_assoc]
    rfl

theorem stUnionVariants_keeps (i : Nat) (variants : List AstUnionVariant) (scope : Scope) :
    Keeps [] chain (stUnionVariants decl i variants scope)
      fun s => s.names = scope.names ++ variants.map AstUnionVariant.name := by
  induction variants generalizing i scope with
  | nil => exact .ret (by simp)
  | cons variant variants ih =>
    refine Keeps.bind .stSymbolNew fun symbol hName => (ih _ _).imp fun s hNames => ?_
    have hVariant : (scope.appendSymbol { symbol with
        variantIndex := i
        variantHasPayload := variant.payloadType.isSome
        variantPayloadType := variant.payloadType }).names = scope.names ++ [variant.name] :=
      names_appendSymbol hName
    rw [hNames, hVariant, List.append_assoc]
    rfl

/-- The scope of a union has its members, whether they differ or not. -/
theorem stAnalyzeUnionDecl_keeps : Keeps [decl] chain (stAnalyzeUnionDecl decl) fun _ => True := by
  have hRecord : ∀ scope : Scope, scope.names = decl.memberNames →
      Keeps [decl] chain (stRecordScope scope) fun _ => True := by
    intro scope hNames
    refine .of_run (fun _ => rfl) (fun table => ⟨rfl, ⟨[], by simp⟩, [scope], rfl, ?_, ?_⟩)
      fun _ => trivial
    · intro s hs
      rw [List.mem_singleton.1 hs]
      exact .inr ⟨decl, List.mem_cons_self, hNames⟩
    · intro d hd
      rw [List.mem_singleton.1 hd]
      exact ⟨scope, List.mem_cons_self, hNames⟩
  refine Keeps.bind (u := []) (.stScopeNew .union decl.addr) fun opened hEmpty => ?_
  refine Keeps.bind (u := []) (stUnionTypeParameters_keeps decl decl.genericParams opened)
    fun scope hParams => ?_
  refine Keeps.bind (u := []) (stUnionVariants_keeps decl 0 decl.variants scope)
    fun closed hVariants => hRecord closed ?_
  rw [hVariants, hParams, hEmpty]
  rfl

end Unions

/-- The unions of a declaration. -/
def AstTopLevelDecl.unions : AstTopLevelDecl → List AstUnionDecl
  | .union decl => [decl]
  | _ => []

theorem Keeps.withRoot {u : List AstUnionDecl} {root : Scope} {m : Scope → StM Unit}
    (h : Keeps u [root] (m root) fun _ => True) :
    Keeps u [root] (do m (← get).rootScope) fun _ => True := by
  intro table hRoot
  rw [get_bind, List.mem_singleton.1 hRoot]
  exact h table hRoot

theorem stAnalyzeEntry_keeps (kind : ScopeKind) (addr : Addr) (parameters : List AstParameter)
    (body : AstLambdaBody) (root : Scope) :
    Keeps [] [root] (do
      let scope ← stParameterScope kind addr parameters
      stAnalyzeLambdaBody body [scope, root]) fun _ => True :=
  Keeps.bind (stParameterScope_keeps kind addr parameters) fun s _ =>
    (stAnalyzeLambdaBody_keeps body [s, root]).leave (List.subset_cons_self _ _)

theorem stAnalyzeTopLevelDecl_keeps (decl : AstTopLevelDecl) (root : Scope) :
    Keeps decl.unions [root] (stAnalyzeTopLevelDecl decl) fun _ => True := by
  cases decl with
  | start decl => exact .withRoot (stAnalyzeEntry_keeps .start decl.addr _ decl.body root)
  | boot decl => exact .withRoot (stAnalyzeEntry_keeps .boot decl.addr _ decl.body root)
  | binding decl =>
    exact Keeps.withRoot (m := fun root => stAnalyzeExpression decl.initializer [root])
      (stAnalyzeExpression_keeps decl.initializer [root])
  | union decl =>
    exact Keeps.withRoot (m := fun _ => stAnalyzeUnionDecl decl) (stAnalyzeUnionDecl_keeps decl)
  | externC decl => exact Keeps.withRoot (m := fun _ => pure ()) (.ret trivial)

theorem stAnalyzeTopLevelDecls_keeps (decls : List AstTopLevelDecl) (root : Scope) :
    Keeps (decls.flatMap AstTopLevelDecl.unions) [root] (decls.forM stAnalyzeTopLevelDecl)
      fun _ => True := by
  induction decls with
  | nil => exact .ret trivial
  | cons decl decls ih => exact Keeps.bind (stAnalyzeTopLevelDecl_keeps decl root) fun _ _ => ih

/-! ## Imports and the names of the program scope -/

theorem stAddNamedImport_error {imp : AstImportDecl} {name qualifiedName message : String}
    {table : SymbolTable} {e : SymbolTableError}
    (hMessage : ∀ previous : Symbol, IsDuplicate
      (.at imp.moduleName.tailSpan previous.declarationSpan message))
    (h : stAddNamedImport imp name qualifiedName message table = .error e) : IsDuplicate e := by
  unfold stAddNamedImport at h
  rw [get_bind] at h
  cases hFind : table.findImport name with
  | some previous =>
    rw [hFind] at h
    cases h
    exact hMessage previous
  | none =>
    rw [hFind] at h
    cases h

theorem forM_error {α : Type} {f : α → StM Unit} {l : List α}
    (hf : ∀ a ∈ l, ∀ table e, f a table = .error e → IsDuplicate e) {table : SymbolTable}
    {e : SymbolTableError} (h : l.forM f table = .error e) : IsDuplicate e := by
  induction l generalizing table with
  | nil => cases h
  | cons a l ih =>
    rcases bind_eq_error.1 h with hFirst | ⟨_, middle, -, hRest⟩
    · exact hf a List.mem_cons_self table e hFirst
    · exact ih (fun b hb => hf b (List.mem_cons_of_mem a hb)) hRest

theorem stAddImportSymbol_error (imp : AstImportDecl) (table : SymbolTable) (e : SymbolTableError)
    (h : stAddImportSymbol imp table = .error e) : IsDuplicate e := by
  unfold stAddImportSymbol at h
  cases hKind : imp.kind with
  | plain =>
    rw [hKind] at h
    exact stAddNamedImport_error (fun previous => .importAlias _ previous _) h
  | «alias» name =>
    rw [hKind] at h
    exact stAddNamedImport_error (fun previous => .importAlias _ previous _) h
  | wildcard =>
    rw [hKind] at h
    cases h
  | selective names =>
    rw [hKind] at h
    exact forM_error (fun name _ table e =>
      stAddNamedImport_error fun previous => .ambiguous _ previous _) h

theorem stPredeclareTopLevelDecl_error (decl : AstTopLevelDecl) (table : SymbolTable)
    (e : SymbolTableError) (h : stPredeclareTopLevelDecl decl table = .error e) :
    IsDuplicate e := by
  obtain ⟨-, hSame⟩ | ⟨name, symbol, -, -, -, hCases⟩ := stPredeclareTopLevelDecl_cases decl table
  · rw [hSame] at h
    exact nomatch h
  · obtain ⟨-, hAppend⟩ | ⟨conflicting, span, -, hFails⟩ := hCases
    · rw [hAppend] at h
      exact nomatch h
    · rw [hFails] at h
      cases h
      exact .symbol _ _ _ _

/-- A declaration that is compared with the imports. -/
def AstTopLevelDecl.comparedName? : AstTopLevelDecl → Option String
  | .externC _ => none
  | decl => decl.name?

theorem findImport_of_conflictOf {decl : AstTopLevelDecl} {name : String} {table : SymbolTable}
    (hName : decl.comparedName? = some name) (h : table.conflictOf decl = none) :
    table.findImport name = none := by
  have hNone : table.conflictingTopLevel name = none := by
    cases decl <;> cases hName <;> exact h
  have hLocal := conflictingTopLevel_eq_none hNone
  unfold SymbolTable.conflictingTopLevel at hNone
  rwa [hLocal] at hNone

/-- The name of a binding or a union is none of an import. -/
theorem findImport_of_predeclared {decl : AstTopLevelDecl} {name : String}
    (hName : decl.comparedName? = some name) {table later : SymbolTable}
    (h : stPredeclareTopLevelDecl decl table = .ok ((), later)) : table.findImport name = none := by
  obtain ⟨hUnnamed, -⟩ | ⟨_, symbol, -, -, -, hCases⟩ := stPredeclareTopLevelDecl_cases decl table
  · cases decl <;> cases hName <;> exact nomatch hUnnamed
  · obtain ⟨hNew, -⟩ | ⟨conflicting, span, -, hFails⟩ := hCases
    · exact findImport_of_conflictOf hName hNew
    · rw [hFails] at h
      exact nomatch h

theorem stPredeclareTopLevelDecls_compared {before : SymbolTable} {decls done : List AstTopLevelDecl}
    {table later : SymbolTable} (hBefore : TopLevelAdded before done table)
    (h : decls.forM stPredeclareTopLevelDecl table = .ok ((), later)) :
    ∀ decl ∈ decls, ∀ name, decl.comparedName? = some name → before.findImport name = none := by
  induction decls generalizing done table with
  | nil => exact nofun
  | cons first decls ih =>
    obtain ⟨_, middle, hFirst, hRest⟩ := bind_eq_ok.1 h
    intro decl hDecl name hName
    rcases List.mem_cons.1 hDecl with rfl | hDecl
    · have hFind := findImport_of_predeclared hName hFirst
      unfold SymbolTable.findImport at hFind ⊢
      rwa [hBefore.imports_eq] at hFind
    · exact ih (stPredeclareTopLevelDecl_adds hBefore hFirst) hRest decl hDecl name hName

/-! ## The whole pass -/

/-- The statements of a pass that succeeds. -/
structure BuildSteps (program : AstProgram) (table : SymbolTable) where
  imported : SymbolTable
  declared : SymbolTable
  imports : ImportsAdded program.packageName.isSome (importBindings program.imports) imported
  decls : TopLevelAdded imported program.topLevelDecls declared
  compared : ∀ decl ∈ program.topLevelDecls, ∀ name, decl.comparedName? = some name →
    imported.findImport name = none
  analyzed : program.topLevelDecls.forM stAnalyzeTopLevelDecl declared = .ok ((), table)

theorem symbolTableBuildM_ok {program : AstProgram} {table : SymbolTable}
    (hRun : symbolTableBuildM program {} = .ok ((), table)) :
    Nonempty (BuildSteps program table) := by
  obtain ⟨_, packaged, hPackage, hRun⟩ := bind_eq_ok.1 hRun
  obtain ⟨_, imported, hImport, hRun⟩ := bind_eq_ok.1 hRun
  obtain ⟨_, declared, hDeclare, hAnalyze⟩ := bind_eq_ok.1 hRun
  have hImports : ImportsAdded program.packageName.isSome (importBindings program.imports)
      imported := by
    simpa using stAddImportSymbols_adds (stAddPackageSymbol_adds hPackage) hImport
  have hStart : TopLevelAdded imported [] imported :=
    ⟨rfl, rfl, rfl, rfl, rfl, rfl, rfl, by rw [hImports.root_symbols]; exact .nil, .nil,
      hImports.distinct⟩
  exact ⟨{
    imported, declared
    imports := hImports
    decls := by simpa using stPredeclareTopLevelDecls_adds hStart hDeclare
    compared := stPredeclareTopLevelDecls_compared hStart hDeclare
    analyzed := hAnalyze }⟩

theorem symbolTableBuild_steps {program : AstProgram} {table : SymbolTable}
    (hRun : symbolTableBuild program = .ok table) : Nonempty (BuildSteps program table) := by
  unfold symbolTableBuild at hRun
  cases hSteps : (symbolTableBuildM program).run {} with
  | error e =>
    rw [hSteps] at hRun
    exact nomatch hRun
  | ok r =>
    rw [hSteps] at hRun
    cases hRun
    exact symbolTableBuildM_ok hSteps

theorem symbolTableBuildM_error {program : AstProgram} {e : SymbolTableError}
    (hRun : symbolTableBuildM program {} = .error e) : IsDuplicate e := by
  rcases bind_eq_error.1 hRun with hPackage | ⟨_, packaged, -, hRun⟩
  · unfold stAddPackageSymbol at hPackage
    cases hName : program.packageName with
    | none =>
      rw [hName] at hPackage
      cases hPackage
    | some name =>
      rw [hName] at hPackage
      cases hPackage
  · rcases bind_eq_error.1 hRun with hImport | ⟨_, imported, -, hRun⟩
    · exact forM_error (fun imp _ => stAddImportSymbol_error imp) hImport
    · rcases bind_eq_error.1 hRun with hDeclare | ⟨_, declared, -, hAnalyze⟩
      · exact forM_error (fun decl _ => stPredeclareTopLevelDecl_error decl) hDeclare
      · exact (stAnalyzeTopLevelDecls_keeps program.topLevelDecls declared.rootScope declared
          List.mem_cons_self).2 e hAnalyze

theorem mem_unions {decls : List AstTopLevelDecl} {decl : AstUnionDecl} :
    decl ∈ decls.flatMap AstTopLevelDecl.unions ↔ .union decl ∈ decls := by
  rw [List.mem_flatMap]
  constructor
  · rintro ⟨d, hd, hMem⟩
    cases d <;> simp only [AstTopLevelDecl.unions, List.mem_singleton, List.not_mem_nil] at hMem
    rw [hMem]
    exact hd
  · exact fun h => ⟨_, h, List.mem_cons_self⟩

namespace BuildSteps

variable {program : AstProgram} {table : SymbolTable} (h : BuildSteps program table)

include h

theorem adds : h.declared.Adds (program.topLevelDecls.flatMap AstTopLevelDecl.unions) table :=
  ((stAnalyzeTopLevelDecls_keeps program.topLevelDecls h.declared.rootScope h.declared
    List.mem_cons_self).1 () table h.analyzed).1

theorem root_names : table.rootScope.names = program.topLevelNames := by
  rw [h.adds.root_eq]
  exact h.decls.root.names_eq

theorem imported_names : h.imported.imports.filterMap Symbol.name = program.importedNames := by
  have hNames := congrArg (List.filterMap id) h.imports.imports.names_eq
  rwa [List.filterMap_map, List.filterMap_map] at hNames

theorem namesApart (hUnique : table.UniqueNames) : program.NamesApart where
  unions decl hDecl := by
    obtain ⟨new, hNew, -, hUnions⟩ := h.adds.scopes
    obtain ⟨scope, hScope, hNames⟩ := hUnions decl (mem_unions.2 hDecl)
    rw [← hNames]
    refine hUnique.scopes scope (List.mem_cons_of_mem _ ?_)
    rw [hNew]
    exact List.mem_append_right _ hScope
  externs decl hDecl hMem := by
    obtain ⟨new, hNew, -⟩ := h.adds.imports
    rw [← h.imported_names] at hMem
    obtain ⟨symbol, hSymbol, hName⟩ := List.mem_filterMap.1 hMem
    refine hUnique.imports decl.name ?_ symbol ?_ hName
    · rw [h.root_names]
      exact List.mem_filterMap.2 ⟨_, hDecl, rfl⟩
    · rw [hNew, h.decls.imports_eq]
      exact List.mem_append_left _ hSymbol

theorem uniqueNames (hApart : program.NamesApart) : table.UniqueNames where
  scopes scope hScope := by
    rcases List.mem_cons.1 hScope with rfl | hScope
    · rw [h.root_names]
      exact h.decls.names
    · obtain ⟨new, hNew, hNodup, -⟩ := h.adds.scopes
      rw [hNew, h.decls.scopes_eq, h.imports.scopes] at hScope
      rcases hNodup scope hScope with hNodup | ⟨decl, hDecl, hNames⟩
      · exact hNodup
      · rw [hNames]
        exact hApart.unions decl (mem_unions.1 hDecl)
  imports name hName symbol hSymbol hEq := by
    obtain ⟨new, hNew, hMembers⟩ := h.adds.imports
    rw [hNew, h.decls.imports_eq] at hSymbol
    rcases List.mem_append.1 hSymbol with hSymbol | hSymbol
    · rw [h.root_names] at hName
      obtain ⟨decl, hDecl, hDeclName⟩ := List.mem_filterMap.1 hName
      have hImported : name ∈ program.importedNames := by
        rw [← h.imported_names]
        exact List.mem_filterMap.2 ⟨symbol, hSymbol, hEq⟩
      have hCompared : decl.comparedName? = some name → False := by
        intro hCompared
        have hFind := h.compared decl hDecl name hCompared
        exact List.find?_eq_none.1 hFind symbol hSymbol (beq_iff_eq.2 hEq)
      cases decl with
      | externC decl =>
        cases hDeclName
        exact hApart.externs decl hDecl hImported
      | binding decl => exact hCompared hDeclName
      | union decl => exact hCompared hDeclName
      | start decl => cases hDeclName
      | boot decl => cases hDeclName
    · rw [h.adds.root_eq] at hName
      exact hMembers symbol hSymbol name hName hEq

end BuildSteps

/-- No scope of a table that was built has a name twice, and no name of the program scope is one of
an import, exactly if the members of every union differ and no extern has the name of an import;
otherwise the error says that a name comes twice. -/
theorem symbolTableBuild_uniqueNames_iff (program : AstProgram) :
    match symbolTableBuild program with
    | .ok table => table.UniqueNames ↔ program.NamesApart
    | .error e => IsDuplicate e := by
  unfold symbolTableBuild
  cases hRun : (symbolTableBuildM program).run {} with
  | ok r =>
    obtain ⟨h⟩ := symbolTableBuildM_ok hRun
    exact ⟨h.namesApart, h.uniqueNames⟩
  | error e => exact symbolTableBuildM_error hRun

/-- `union Flag { On, On };` -/
def flagTwice : AstProgram where
  packageName := none
  imports := []
  topLevelDecls := [.union
    { addr := 1, modifiers := [], name := "Flag", nameSpan := .zero, genericParams := []
      variants := [⟨"On", none⟩, ⟨"On", none⟩] }]

/-- `import tools.clock;` before `extern int32 clock = c();` -/
def externImported : AstProgram where
  packageName := none
  imports := [⟨1, .plain, ⟨["tools", "clock"], .zero, .zero⟩⟩]
  topLevelDecls := [.externC
    { name := "clock", returnType := .mk 2 .primitive .int32 none [] [], parameters := []
      nameSpan := .zero }]

theorem exists_table {program : AstProgram} {p : SymbolTable → Bool}
    (h : (symbolTableBuild program).toOption.any p = true) :
    ∃ table, symbolTableBuild program = .ok table ∧ p table = true := by
  cases hBuild : symbolTableBuild program with
  | error e =>
    rw [hBuild] at h
    exact absurd h Bool.false_ne_true
  | ok table =>
    rw [hBuild] at h
    exact ⟨table, rfl, h⟩

/-- Both programs are accepted, with a union scope that has one name twice, and with an extern that
has the name of an import. -/
theorem not_uniqueNames_flagTwice :
    (∃ table, symbolTableBuild flagTwice = .ok table ∧ ¬ table.UniqueNames) ∧
      ∃ table, symbolTableBuild externImported = .ok table ∧ ¬ table.UniqueNames := by
  have hFlag : (symbolTableBuild flagTwice).toOption.any (fun table => decide
      (¬ ∀ scope ∈ table.rootScope :: table.scopes, scope.names.Nodup)) = true := by
    decide +kernel
  have hExtern : (symbolTableBuild externImported).toOption.any (fun table => decide
      (¬ ∀ name ∈ table.rootScope.names, ∀ symbol ∈ table.imports,
        symbol.name ≠ some name)) = true := by
    decide +kernel
  constructor
  · obtain ⟨table, hBuild, hTwice⟩ := exists_table hFlag
    exact ⟨table, hBuild, fun h => of_decide_eq_true hTwice h.scopes⟩
  · obtain ⟨table, hBuild, hBoth⟩ := exists_table hExtern
    exact ⟨table, hBuild, fun h => of_decide_eq_true hBoth h.imports⟩

end Calynda
