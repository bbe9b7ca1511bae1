import Calynda.Sema.Analysis

/-!
# The finished symbol table

What `symbol_table_build` leaves: one symbol for every name that an import binds, one for
every name that is declared at the top level, members of the first wildcard import after the
imports, and the record of the analysis of every declaration (`SymbolTable.BuiltFrom`).
-/

namespace Calynda

open StateExcept

/-! ## Imports -/

namespace AstImportDecl

/-- One entry for each symbol that `st_add_import_symbols` makes for the declaration, with
the name it gets. -/
def boundNames (decl : AstImportDecl) : List (Option String) :=
  match decl.kind with
  | .plain => [some (stQualifiedNameTail decl.moduleName)]
  | .alias name => [some name]
  | .wildcard => [none]
  | .selective selectedNames => selectedNames.map some

/-- The qualified name of the symbol for a bound name. -/
def qualifiedNameOf (decl : AstImportDecl) (name : Option String) : String :=
  match decl.kind with
  | .selective _ => stQualifiedNameToString decl.moduleName ++ "." ++ name.getD ""
  | _ => stQualifiedNameToString decl.moduleName

end AstImportDecl

/-- The symbol that `st_add_import_symbols` makes for a bound name. -/
def importSymbol (addr : Addr) (scope : ScopeId) (decl : AstImportDecl) (name : Option String) :
    Symbol where
  addr := addr
  kind := .import
  name := name
  qualifiedName := some (decl.qualifiedNameOf name)
  declaredType := none
  isInferredType := false
  isFinal := false
  isExported := false
  isStatic := false
  isInternal := false
  declarationSpan := decl.moduleName.tailSpan
  declaration := .importDecl decl
  scope := some scope
  isWildcardImport := decide (decl.kind = .wildcard)

/-- The names that the imports bind, each with its declaration. -/
def importBindings (imports : List AstImportDecl) : List (AstImportDecl × Option String) :=
  imports.flatMap fun decl => decl.boundNames.map fun name => (decl, name)

/-- One symbol for every bound name, in the order of the declarations. -/
def ImportsDeclared (scope : ScopeId) (bindings : List (AstImportDecl × Option String))
    (symbols : List Symbol) : Prop :=
  List.Forall₂ (fun b s => s = importSymbol s.addr scope b.1 b.2) bindings symbols

/-! ## Top-level declarations -/

/-- The symbol that `st_predeclare_top_level_bindings` makes. -/
def topLevelSymbol (addr : Addr) (scope : ScopeId) : AstTopLevelDecl → Option Symbol
  | .binding decl => some {
      addr
      kind := .topLevelBinding
      name := some decl.name
      qualifiedName := none
      declaredType := some decl.declaredType
      isInferredType := decl.isInferredType
      isFinal := stTopLevelBindingIsFinal decl
      isExported := astDeclHasModifier decl.modifiers .export
      isStatic := astDeclHasModifier decl.modifiers .static
      isInternal := astDeclHasModifier decl.modifiers .internal
      declarationSpan := decl.nameSpan
      declaration := .binding decl
      scope := some scope }
  | .union decl => some {
      addr
      kind := .union
      name := some decl.name
      qualifiedName := none
      declaredType := none
      isInferredType := false
      isFinal := false
      isExported := astDeclHasModifier decl.modifiers .export
      isStatic := astDeclHasModifier decl.modifiers .static
      isInternal := false
      genericParamCount := decl.genericParams.length
      declarationSpan := decl.nameSpan
      declaration := .union decl
      scope := some scope }
  | .externC decl => some {
      addr
      kind := .externC
      name := some decl.name
      qualifiedName := none
      declaredType := some decl.returnType
      isInferredType := false
      isFinal := false
      isExported := false
      isStatic := false
      isInternal := false
      declarationSpan := decl.nameSpan
      declaration := .externC decl
      scope := some scope }
  | .start _ => none
  | .boot _ => none

/-- The name that a declaration declares at the top level. -/
def AstTopLevelDecl.name? : AstTopLevelDecl → Option String
  | .binding decl => some decl.name
  | .union decl => some decl.name
  | .externC decl => some decl.name
  | .start _ => none
  | .boot _ => none

/-- One symbol for every declared name, in the order of the declarations. -/
def TopLevelDeclared (scope : ScopeId) (decls : List AstTopLevelDecl) (symbols : List Symbol) :
    Prop :=
  List.Forall₂ (fun d s => topLevelSymbol s.addr scope d = some s)
    (decls.filter fun d => d.name?.isSome) symbols

/-- What the table holds for an analysed declaration. -/
def DeclAnalyzed (table : SymbolTable) : AstTopLevelDecl → Prop
  | .start decl =>
    ∃ scope, table.findScope decl.addr .start = some scope ∧
      scope.IsParameterScope .start decl.addr decl.parameters ∧
      LambdaBodyAnalyzed table decl.body [scope, table.rootScope]
  | .boot decl =>
    ∃ scope, table.findScope decl.addr .boot = some scope ∧
      scope.IsParameterScope .boot decl.addr decl.parameters ∧
      LambdaBodyAnalyzed table decl.body [scope, table.rootScope]
  | .binding decl => ExpressionAnalyzed table decl.initializer [table.rootScope]
  | .union decl => ∃ scope, table.findScope decl.addr .union = some scope
  | .externC _ => True

/-! ## The finished table -/

/-- The table that `symbol_table_build` leaves for `program`. -/
structure SymbolTable.BuiltFrom (program : AstProgram) (table : SymbolTable) : Prop where
  package : table.packageSymbol.isSome = program.packageName.isSome
  imports : ∃ declared members, table.imports = declared ++ members ∧
    ImportsDeclared table.rootScope.id (importBindings program.imports) declared ∧
    (∀ s ∈ members, ∃ sentinel,
      (declared.find? fun symbol => symbol.isWildcardImport) = some sentinel ∧
        sentinel.IsMemberOf s)
  importNames : ((importBindings program.imports).filterMap Prod.snd).Nodup
  root : TopLevelDeclared table.rootScope.id program.topLevelDecls table.rootScope.symbols
  rootKind : table.rootScope.kind = .program
  rootNames : (program.topLevelDecls.filterMap AstTopLevelDecl.name?).Nodup
  decls : ∀ decl ∈ program.topLevelDecls, DeclAnalyzed table decl
  distinct : table.Distinct []

/-! ## The imports are added -/

/-- The table after the declarations that bind `done`: nothing is analysed yet. -/
structure ImportsAdded (packageSymbol : Bool) (done : List (AstImportDecl × Option String))
    (table : SymbolTable) : Prop where
  package : table.packageSymbol.isSome = packageSymbol
  imports : ImportsDeclared table.rootScope.id done table.imports
  names : (done.filterMap Prod.snd).Nodup
  root_symbols : table.rootScope.symbols = []
  root_kind : table.rootScope.kind = .program
  scopes : table.scopes = []
  resolutions : table.resolutions = []
  unresolved : table.unresolvedIdentifiers = []
  distinct : table.Distinct []

/-- The names of the import symbols are the bound names. -/
theorem ImportsDeclared.names_eq {scope : ScopeId}
    {bindings : List (AstImportDecl × Option String)} {symbols : List Symbol}
    (h : ImportsDeclared scope bindings symbols) :
    symbols.map Symbol.name = bindings.map Prod.snd := by
  induction h with
  | nil => rfl
  | cons hHead _ ih =>
    rw [List.map_cons, List.map_cons, ih, hHead]
    rfl

theorem findImport_eq_none {table : SymbolTable} {name : String} :
    table.findImport name = none ↔ some name ∉ table.imports.map Symbol.name := by
  unfold SymbolTable.findImport
  rw [List.find?_eq_none, List.mem_map]
  constructor
  · rintro h ⟨s, hs, hEq⟩
    exact h s hs (beq_iff_eq.2 hEq)
  · intro h s hs hEq
    exact h ⟨s, hs, beq_iff_eq.1 hEq⟩

theorem mem_filterMap_snd {bindings : List (AstImportDecl × Option String)} {name : String} :
    name ∈ bindings.filterMap Prod.snd ↔ some name ∈ bindings.map Prod.snd := by
  simp [List.mem_filterMap, List.mem_map]

/-- One more import symbol. -/
theorem ImportsAdded.append {packageSymbol : Bool}
    {done : List (AstImportDecl × Option String)} {table : SymbolTable}
    (h : ImportsAdded packageSymbol done table) (decl : AstImportDecl) (name : Option String)
    (hNew : ∀ n, name = some n → table.findImport n = none) :
    ImportsAdded packageSymbol (done ++ [(decl, name)])
      { table with
        nextAddr := table.nextAddr + 1
        imports := table.imports ++
          [importSymbol table.nextAddr table.rootScope.id decl name] } where
  package := h.package
  imports := List.rel_append h.imports (.cons rfl .nil)
  names := by
    rw [List.filterMap_append]
    cases name with
    | none => simpa using h.names
    | some n =>
      have hFresh : n ∉ done.filterMap Prod.snd := by
        rw [mem_filterMap_snd, ← h.imports.names_eq]
        exact findImport_eq_none.1 (hNew n rfl)
      refine List.nodup_append'.2 ⟨h.names, by simp, ?_⟩
      intro m hm hEq
      have hEq : m = n := by simpa using hEq
      exact hFresh (hEq ▸ hm)
  root_symbols := h.root_symbols
  root_kind := h.root_kind
  scopes := h.scopes
  resolutions := h.resolutions
  unresolved := h.unresolved
  distinct := by
    refine h.distinct.add (importSymbol table.nextAddr table.rootScope.id decl name) rfl rfl ?_
    rintro s (hs | hs | hs | ⟨hScope, hs⟩ | ⟨hScope, hs⟩)
    · exact .inl (.package hs)
    · rcases List.mem_append.1 hs with hs | hs
      · exact .inl (.imported hs)
      · exact .inr (List.mem_singleton.1 hs)
    · exact .inl (.root hs)
    · exact .inl (.recorded hScope hs)
    · exact nomatch hScope

theorem stAddNamedImport_adds {packageSymbol : Bool}
    {done : List (AstImportDecl × Option String)} {decl : AstImportDecl} {name : String}
    {duplicateMessage : String} (hKind : decl.kind ≠ .wildcard) {table later : SymbolTable}
    (h : ImportsAdded packageSymbol done table)
    (hRun : stAddNamedImport decl name (decl.qualifiedNameOf (some name)) duplicateMessage table =
      .ok ((), later)) :
    ImportsAdded packageSymbol (done ++ [(decl, some name)]) later := by
  unfold stAddNamedImport at hRun
  rw [get_bind] at hRun
  cases hFind : table.findImport name with
  | some existingImport =>
    simp only [hFind] at hRun
    exact nomatch hRun
  | none =>
    simp only [hFind] at hRun
    have hLater : later = { table with
        nextAddr := table.nextAddr + 1
        imports := table.imports ++
          [importSymbol table.nextAddr table.rootScope.id decl (some name)] } := by
      unfold importSymbol
      rw [decide_eq_false hKind]
      cases hRun
      rfl
    rw [hLater]
    refine h.append decl (some name) ?_
    rintro n ⟨⟩
    exact hFind

/-- The names of a selective import, one after the other. -/
theorem stAddNamedImports_adds {packageSymbol : Bool} {decl : AstImportDecl}
    (hKind : decl.kind ≠ .wildcard) (message : String → String) (names : List String)
    {done : List (AstImportDecl × Option String)} {table later : SymbolTable}
    (h : ImportsAdded packageSymbol done table)
    (hRun : names.forM (fun name => stAddNamedImport decl name
      (decl.qualifiedNameOf (some name)) (message name)) table = .ok ((), later)) :
    ImportsAdded packageSymbol (done ++ names.map fun name => (decl, some name)) later := by
  induction names generalizing done table with
  | nil =>
    cases hRun
    simpa using h
  | cons name names ih =>
    obtain ⟨_, middle, hFirst, hRest⟩ := bind_eq_ok.1 hRun
    have hMiddle := stAddNamedImport_adds hKind h hFirst
    simpa using ih hMiddle hRest

theorem stAddImportSymbol_adds {packageSymbol : Bool}
    {done : List (AstImportDecl × Option String)} {decl : AstImportDecl}
    {table later : SymbolTable} (h : ImportsAdded packageSymbol done table)
    (hRun : stAddImportSymbol decl table = .ok ((), later)) :
    ImportsAdded packageSymbol (done ++ decl.boundNames.map fun name => (decl, name)) later := by
  unfold stAddImportSymbol at hRun
  unfold AstImportDecl.boundNames
  cases hKind : decl.kind with
  | plain =>
    simp only [hKind] at hRun ⊢
    have hQualified (name : Option String) :
        stQualifiedNameToString decl.moduleName = decl.qualifiedNameOf name := by
      simp only [AstImportDecl.qualifiedNameOf, hKind]
    rw [hQualified] at hRun
    exact stAddNamedImport_adds (by rw [hKind]; decide) h hRun
  | «alias» name =>
    simp only [hKind] at hRun ⊢
    have hQualified (name : Option String) :
        stQualifiedNameToString decl.moduleName = decl.qualifiedNameOf name := by
      simp only [AstImportDecl.qualifiedNameOf, hKind]
    rw [hQualified] at hRun
    exact stAddNamedImport_adds (by rw [hKind]; nofun) h hRun
  | selective selectedNames =>
    simp only [hKind] at hRun ⊢
    have hQualified (name : String) : stQualifiedNameToString decl.moduleName ++ "." ++ name =
        decl.qualifiedNameOf (some name) := by
      simp only [AstImportDecl.qualifiedNameOf, hKind, Option.getD_some]
    simp only [hQualified] at hRun
    rw [List.map_map]
    exact stAddNamedImports_adds (by rw [hKind]; nofun) _ selectedNames h hRun
  | wildcard =>
    simp only [hKind] at hRun ⊢
    have hLater : later = { table with
        nextAddr := table.nextAddr + 1
        imports := table.imports ++
          [importSymbol table.nextAddr table.rootScope.id decl none] } := by
      unfold importSymbol AstImportDecl.qualifiedNameOf
      rw [decide_eq_true hKind, hKind]
      cases hRun
      rfl
    rw [hLater]
    exact h.append decl none nofun

theorem stAddImportSymbols_adds {packageSymbol : Bool} {imports : List AstImportDecl}
    {done : List (AstImportDecl × Option String)} {table later : SymbolTable}
    (h : ImportsAdded packageSymbol done table)
    (hRun : imports.forM stAddImportSymbol table = .ok ((), later)) :
    ImportsAdded packageSymbol (done ++ importBindings imports) later := by
  induction imports generalizing done table with
  | nil =>
    cases hRun
    simpa [importBindings] using h
  | cons decl imports ih =>
    obtain ⟨_, middle, hFirst, hRest⟩ := bind_eq_ok.1 hRun
    have hMiddle := stAddImportSymbol_adds h hFirst
    simpa [importBindings] using ih hMiddle hRest

/-! ## The top-level names are declared -/

/-- The table after the declarations `done`: its root scope has grown since `before`. -/
structure TopLevelAdded (before : SymbolTable) (done : List AstTopLevelDecl)
    (table : SymbolTable) : Prop where
  package_eq : table.packageSymbol = before.packageSymbol
  imports_eq : table.imports = before.imports
  scopes_eq : table.scopes = before.scopes
  resolutions_eq : table.resolutions = before.resolutions
  unresolved_eq : table.unresolvedIdentifiers = before.unresolvedIdentifiers
  root_id : table.rootScope.id = before.rootScope.id
  root_kind : table.rootScope.kind = before.rootScope.kind
  root : TopLevelDeclared before.rootScope.id done table.rootScope.symbols
  names : (done.filterMap AstTopLevelDecl.name?).Nodup
  distinct : table.Distinct []

theorem topLevelSymbol_name {addr : Addr} {scope : ScopeId} {decl : AstTopLevelDecl}
    {symbol : Symbol} (h : topLevelSymbol addr scope decl = some symbol) :
    symbol.name = decl.name? := by
  cases decl <;> cases h <;> rfl

theorem TopLevelDeclared.names_eq {scope : ScopeId} {decls : List AstTopLevelDecl}
    {symbols : List Symbol} (h : TopLevelDeclared scope decls symbols) :
    symbols.filterMap Symbol.name = decls.filterMap AstTopLevelDecl.name? := by
  unfold TopLevelDeclared at h
  induction decls generalizing symbols with
  | nil =>
    cases h
    rfl
  | cons decl decls ih =>
    cases hName : decl.name? with
    | none =>
      rw [List.filter_cons_of_neg (by simp [hName])] at h
      rw [List.filterMap_cons_none hName]
      exact ih h
    | some name =>
      rw [List.filter_cons_of_pos (by simp [hName])] at h
      cases h with
      | cons hHead hTail =>
        rw [List.filterMap_cons_some ((topLevelSymbol_name hHead).trans hName),
          List.filterMap_cons_some hName, ih hTail]

theorem scopeLookupLocal_eq_none {scope : Scope} {name : String} :
    scopeLookupLocal scope name = none ↔ name ∉ scope.symbols.filterMap Symbol.name := by
  unfold scopeLookupLocal
  rw [List.find?_eq_none, List.mem_filterMap]
  constructor
  · rintro h ⟨s, hs, hEq⟩
    exact h s hs (beq_iff_eq.2 hEq)
  · intro h s hs hEq
    exact h ⟨s, hs, beq_iff_eq.1 hEq⟩

/-- A declaration without a name changes nothing. -/
theorem TopLevelAdded.skip {before table : SymbolTable} {done : List AstTopLevelDecl}
    (h : TopLevelAdded before done table) {decl : AstTopLevelDecl} (hName : decl.name? = none) :
    TopLevelAdded before (done ++ [decl]) table :=
  { h with
    root := by
      unfold TopLevelDeclared
      rw [List.filter_append, List.filter_cons_of_neg (by simp [hName]), List.filter_nil,
        List.append_nil]
      exact h.root
    names := by
      rw [List.filterMap_append, List.filterMap_cons_none hName]
      simpa using h.names }

/-- One more symbol in the root scope. -/
theorem TopLevelAdded.append {before table : SymbolTable} {done : List AstTopLevelDecl}
    (h : TopLevelAdded before done table) {decl : AstTopLevelDecl} {name : String}
    {symbol : Symbol} (hSymbol : topLevelSymbol table.nextAddr table.rootScope.id decl =
      some symbol) (hAddr : symbol.addr = table.nextAddr) (hName : decl.name? = some name)
    (hNew : scopeLookupLocal table.rootScope name = none) :
    TopLevelAdded before (done ++ [decl])
      { table with
        nextAddr := table.nextAddr + 1
        rootScope := table.rootScope.appendSymbol symbol } where
  package_eq := h.package_eq
  imports_eq := h.imports_eq
  scopes_eq := h.scopes_eq
  resolutions_eq := h.resolutions_eq
  unresolved_eq := h.unresolved_eq
  root_id := h.root_id
  root_kind := h.root_kind
  root := by
    unfold TopLevelDeclared
    rw [List.filter_append, List.filter_cons_of_pos (by simp [hName])]
    refine List.rel_append h.root (.cons ?_ .nil)
    rw [hAddr, ← h.root_id]
    exact hSymbol
  names := by
    rw [List.filterMap_append, List.filterMap_cons_some hName]
    refine List.nodup_append'.2 ⟨h.names, by simp, ?_⟩
    intro other hOther hEq
    have hEq : other = name := by simpa using hEq
    rw [hEq, ← h.root.names_eq] at hOther
    exact scopeLookupLocal_eq_none.1 hNew hOther
  distinct := by
    refine h.distinct.add symbol hAddr rfl ?_
    rintro s (hs | hs | hs | ⟨hScope, hs⟩ | ⟨hScope, hs⟩)
    · exact .inl (.package hs)
    · exact .inl (.imported hs)
    · rcases List.mem_append.1 hs with hs | hs
      · exact .inl (.root hs)
      · exact .inr (List.mem_singleton.1 hs)
    · exact .inl (.recorded hScope hs)
    · exact nomatch hScope

theorem conflictingTopLevel_eq_none {table : SymbolTable} {name : String}
    (h : table.conflictingTopLevel name = none) :
    scopeLookupLocal table.rootScope name = none := by
  unfold SymbolTable.conflictingTopLevel at h
  cases hLocal : scopeLookupLocal table.rootScope name with
  | none => rfl
  | some symbol =>
    rw [hLocal] at h
    exact nomatch h

/-- The symbol that has the name of a declaration already. -/
def SymbolTable.conflictOf (table : SymbolTable) : AstTopLevelDecl → Option Symbol
  | .binding decl => table.conflictingTopLevel decl.name
  | .union decl => table.conflictingTopLevel decl.name
  | .externC decl => scopeLookupLocal table.rootScope decl.name
  | .start _ => none
  | .boot _ => none

theorem scopeLookupLocal_of_conflictOf {table : SymbolTable} {decl : AstTopLevelDecl}
    {name : String} (hName : decl.name? = some name) (h : table.conflictOf decl = none) :
    scopeLookupLocal table.rootScope name = none := by
  cases decl <;> cases hName
  · exact conflictingTopLevel_eq_none h
  · exact conflictingTopLevel_eq_none h
  · exact h

/-- A declaration without a name changes nothing; another one appends its symbol to the scope of the
program, or fails when its name is taken. -/
theorem stPredeclareTopLevelDecl_cases (decl : AstTopLevelDecl) (table : SymbolTable) :
    (decl.name? = none ∧ stPredeclareTopLevelDecl decl table = .ok ((), table)) ∨
      ∃ name symbol, decl.name? = some name ∧
        topLevelSymbol table.nextAddr table.rootScope.id decl = some symbol ∧
        symbol.addr = table.nextAddr ∧
        ((table.conflictOf decl = none ∧ stPredeclareTopLevelDecl decl table =
            .ok ((), { table with
              nextAddr := table.nextAddr + 1
              rootScope := table.rootScope.appendSymbol symbol })) ∨
          ∃ conflicting span, table.conflictOf decl = some conflicting ∧
            stPredeclareTopLevelDecl decl table =
              stDuplicateSymbol span conflicting name .program table) := by
  cases decl with
  | start decl => exact .inl ⟨rfl, rfl⟩
  | boot decl => exact .inl ⟨rfl, rfl⟩
  | binding decl =>
    refine .inr ⟨decl.name, _, rfl, rfl, rfl, ?_⟩
    simp only [stPredeclareTopLevelDecl, SymbolTable.conflictOf, get_bind]
    cases hConflict : table.conflictingTopLevel decl.name with
    | none => exact .inl ⟨rfl, rfl⟩
    | some conflicting => exact .inr ⟨conflicting, _, rfl, rfl⟩
  | union decl =>
    refine .inr ⟨decl.name, _, rfl, rfl, rfl, ?_⟩
    simp only [stPredeclareTopLevelDecl, SymbolTable.conflictOf, get_bind]
    cases hConflict : table.conflictingTopLevel decl.name with
    | none => exact .inl ⟨rfl, rfl⟩
    | some conflicting => exact .inr ⟨conflicting, _, rfl, rfl⟩
  | externC decl =>
    refine .inr ⟨decl.name, _, rfl, rfl, rfl, ?_⟩
    simp only [stPredeclareTopLevelDecl, SymbolTable.conflictOf, get_bind]
    cases hConflict : scopeLookupLocal table.rootScope decl.name with
    | none => exact .inl ⟨rfl, rfl⟩
    | some conflicting => exact .inr ⟨conflicting, _, rfl, rfl⟩

theorem stPredeclareTopLevelDecl_adds {before : SymbolTable} {done : List AstTopLevelDecl}
    {decl : AstTopLevelDecl} {table later : SymbolTable} (h : TopLevelAdded before done table)
    (hRun : stPredeclareTopLevelDecl decl table = .ok ((), later)) :
    TopLevelAdded before (done ++ [decl]) later := by
  obtain ⟨hName, hSame⟩ | ⟨name, symbol, hName, hSymbol, hAddr, hCases⟩ :=
    stPredeclareTopLevelDecl_cases decl table
  · rw [hSame] at hRun
    cases hRun
    exact h.skip hName
  · obtain ⟨hNew, hAppend⟩ | ⟨conflicting, span, -, hFails⟩ := hCases
    · rw [hAppend] at hRun
      cases hRun
      exact h.append hSymbol hAddr hName (scopeLookupLocal_of_conflictOf hName hNew)
    · rw [hFails] at hRun
      exact nomatch hRun

theorem stPredeclareTopLevelDecls_adds {before : SymbolTable} {decls : List AstTopLevelDecl}
    {done : List AstTopLevelDecl} {table later : SymbolTable}
    (h : TopLevelAdded before done table)
    (hRun : decls.forM stPredeclareTopLevelDecl table = .ok ((), later)) :
    TopLevelAdded before (done ++ decls) later := by
  induction decls generalizing done table with
  | nil =>
    cases hRun
    simpa using h
  | cons decl decls ih =>
    obtain ⟨_, middle, hFirst, hRest⟩ := bind_eq_ok.1 hRun
    simpa using ih (stPredeclareTopLevelDecl_adds h hFirst) hRest

/-! ## The declarations are analysed -/

/-- A symbol of a union scope, before `st_analyze_union_decl` sets the fields of a variant. -/
def unionMemberSymbol (kind : SymbolKind) (name : String) (type : Option AstType)
    (decl : AstUnionDecl) (scope : ScopeId) (addr : Addr) : Symbol where
  addr := addr
  kind := kind
  name := some name
  qualifiedName := none
  declaredType := type
  isInferredType := false
  isFinal := false
  isExported := false
  isStatic := false
  isInternal := false
  declarationSpan := decl.nameSpan
  declaration := .union decl
  scope := some scope

theorem stUnionTypeParameters_analyzes (decl : AstUnionDecl) (parents : List Scope)
    (params : List String) (scope : Scope) :
    Analyzes [] (scope :: parents) (stUnionTypeParameters decl params scope)
      (fun s => s :: parents) fun _ s => s.kind = scope.kind ∧ s.owner = scope.owner := by
  induction params generalizing scope with
  | nil => exact .ret scope rfl fun _ => ⟨rfl, rfl⟩
  | cons param params ih =>
    unfold stUnionTypeParameters
    exact .declare (unionMemberSymbol .typeParameter param none decl scope.id) _
      (fun _ => rfl) (fun _ => rfl) fun addr => (ih _).mono fun _ _ h => h

theorem stUnionVariants_analyzes (decl : AstUnionDecl) (parents : List Scope) (i : Nat)
    (variants : List AstUnionVariant) (scope : Scope) :
    Analyzes [] (scope :: parents) (stUnionVariants decl i variants scope)
      (fun s => s :: parents) fun _ s => s.kind = scope.kind ∧ s.owner = scope.owner := by
  induction variants generalizing i scope with
  | nil => exact .ret scope rfl fun _ => ⟨rfl, rfl⟩
  | cons variant variants ih =>
    unfold stUnionVariants
    exact .declare (unionMemberSymbol .variant variant.name variant.payloadType decl scope.id)
      (fun addr => { unionMemberSymbol .variant variant.name variant.payloadType decl scope.id
        addr with
        variantIndex := i
        variantHasPayload := variant.payloadType.isSome
        variantPayloadType := variant.payloadType })
      (fun _ => rfl) (fun _ => rfl) fun addr => (ih _ _).mono fun _ _ h => h

theorem stAnalyzeUnionDecl_analyzes (decl : AstUnionDecl) (held : List Scope) :
    Analyzes [decl.addr] held (stAnalyzeUnionDecl decl) (fun _ => held) fun final _ =>
      ∃ scope, final.findScope decl.addr .union = some scope := by
  unfold stAnalyzeUnionDecl
  refine Analyzes.bind (.stScopeNew .union decl.addr) ?_
  rintro opened ⟨-, hKind, hOwner, -⟩
  refine Analyzes.bind (stUnionTypeParameters_analyzes decl held decl.genericParams opened) ?_
  rintro scope ⟨-, hKind₁, hOwner₁⟩
  refine Analyzes.bind (stUnionVariants_analyzes decl held 0 decl.variants scope) ?_
  rintro closed ⟨-, hKind₂, hOwner₂⟩
  have hRecord : Analyzes [closed.owner] (closed :: held) (stRecordScope closed)
      (fun _ => held) _ := .stRecordScope closed (fun _ h => List.mem_cons_of_mem _ h)
    (by rw [hKind₂, hKind₁, hKind]; decide)
  rw [hOwner₂, hOwner₁, hOwner, hKind₂, hKind₁, hKind] at hRecord
  exact hRecord.mono fun _ _ hFound _ _ _ => ⟨closed, hFound⟩

/-- The root scope is known whether it is held or not. -/
theorem SymbolTable.Distinct.root {table : SymbolTable} (h : table.Distinct []) :
    table.Distinct [table.rootScope] := by
  refine h.mono (Nat.le_refl _) ?_
  rintro s (hs | hs | hs | ⟨hScope, hs⟩ | ⟨hScope, hs⟩)
  · exact .package hs
  · exact .imported hs
  · exact .root hs
  · exact .recorded hScope hs
  · rw [List.mem_singleton.1 hScope] at hs
    exact .root hs

/-- A pass that starts with the root scope of the table. -/
theorem Analyzes.withRoot {addrs : List Addr} {m : Scope → StM Unit}
    {Post : SymbolTable → Scope → Prop}
    (h : ∀ root, Analyzes addrs [root] (m root) (fun _ => [root]) fun final _ =>
      Post final root) :
    Analyzes addrs [] (do m (← get).rootScope) (fun _ => []) fun final _ =>
      Post final final.rootScope := by
  rintro table a later hRun hNodup hFresh hDistinct
  rw [get_bind] at hRun
  obtain ⟨hExtends, hLater, hPost⟩ :=
    h table.rootScope table a later hRun hNodup hFresh hDistinct.root
  refine ⟨hExtends, hLater.mono (Nat.le_refl _) ?_, ?_⟩
  · rintro s (hs | hs | hs | ⟨hScope, hs⟩ | ⟨hScope, hs⟩)
    · exact .package hs
    · exact .imported hs
    · exact .root hs
    · exact .recorded hScope hs
    · exact nomatch hScope
  · intro final hFinal
    have hRoot : final.rootScope = table.rootScope :=
      (hExtends.toRetains.trans hFinal).rootScope_eq
    rw [hRoot]
    exact hPost final hFinal

theorem stAnalyzeEntry_analyzes {kind : ScopeKind} (hKind : kind ≠ .program) (addr : Addr)
    (parameters : List AstParameter) (body : AstLambdaBody) (root : Scope) :
    Analyzes (addr :: (parametersAddrs parameters ++ body.addrs)) [root]
      (do
        let scope ← stParameterScope kind addr parameters
        stAnalyzeLambdaBody body [scope, root])
      (fun _ => [root]) fun final _ =>
        ∃ scope, final.findScope addr kind = some scope ∧
          scope.IsParameterScope kind addr parameters ∧
          LambdaBodyAnalyzed final body [scope, root] := by
  have hBody (s : Scope) := (stAnalyzeLambdaBody_analyzes body [s, root]).release
    (fun _ => [root]) fun _ _ h => List.mem_cons_of_mem _ h
  refine (Analyzes.bind (stParameterScope_analyzes hKind addr parameters [root])
    fun s _ => (hBody s).mono ?_).weaken ?_
  · rintro final - hAnalyzed ⟨hFound, hScope⟩
    exact ⟨s, hFound, hScope, hAnalyzed⟩
  · exact (List.Sublist.cons_cons _ (List.sublist_append_right _ _)).subperm

theorem stAnalyzeTopLevelDecl_analyzes (decl : AstTopLevelDecl) :
    Analyzes decl.addrs [] (stAnalyzeTopLevelDecl decl) (fun _ => []) fun final _ =>
      DeclAnalyzed final decl := by
  cases decl with
  | start decl | boot decl =>
    exact .withRoot fun root =>
      stAnalyzeEntry_analyzes (by decide) decl.addr decl.parameters decl.body root
  | binding decl =>
    exact (Analyzes.withRoot fun root =>
      stAnalyzeExpression_analyzes decl.initializer [root]).weaken
      (List.sublist_cons_self _ _).subperm
  | union decl =>
    have hUnion : Analyzes [decl.addr] [] _ _ fun final _ => DeclAnalyzed final (.union decl) :=
      .withRoot fun root => stAnalyzeUnionDecl_analyzes decl [root]
    exact hUnion.weaken (List.singleton_sublist.2 List.mem_cons_self).subperm
  | externC decl =>
    have hExtern : Analyzes [] [] _ _ fun final _ => DeclAnalyzed final (.externC decl) :=
      .withRoot fun root => .ret () rfl fun _ => trivial
    exact hExtern.weaken (List.nil_subperm)

theorem stAnalyzeTopLevelDecls_analyzes (decls : List AstTopLevelDecl) :
    Analyzes (decls.flatMap AstTopLevelDecl.addrs) [] (decls.forM stAnalyzeTopLevelDecl)
      (fun _ => []) fun final _ => ∀ decl ∈ decls, DeclAnalyzed final decl := by
  induction decls with
  | nil => exact .ret PUnit.unit rfl fun _ _ h => absurd h List.not_mem_nil
  | cons decl decls ih =>
    refine Analyzes.bind (stAnalyzeTopLevelDecl_analyzes decl) fun _ _ => ih.mono ?_
    intro final _ hRest hFirst other hOther
    rcases List.mem_cons.1 hOther with rfl | hOther
    · exact hFirst
    · exact hRest other hOther

/-! ## The whole pass -/

/-- The empty table knows no symbol. -/
theorem SymbolTable.distinct_empty : ({} : SymbolTable).Distinct [] := by
  have hNone (s : Symbol) : ¬ ({} : SymbolTable).Knows [] s := by
    rintro (hs | hs | hs | ⟨hScope, hs⟩ | ⟨hScope, hs⟩) <;> contradiction
  exact ⟨fun h => absurd h (hNone _), fun h => absurd h (hNone _)⟩

theorem stAddPackageSymbol_adds {program : AstProgram} {later : SymbolTable}
    (hRun : stAddPackageSymbol program {} = .ok ((), later)) :
    ImportsAdded program.packageName.isSome [] later := by
  unfold stAddPackageSymbol at hRun
  cases hName : program.packageName with
  | none =>
    rw [hName] at hRun
    cases hRun
    exact ⟨rfl, .nil, .nil, rfl, rfl, rfl, rfl, rfl, SymbolTable.distinct_empty⟩
  | some name =>
    rw [hName] at hRun
    obtain ⟨symbol, hLater, hAddr⟩ : ∃ symbol : Symbol,
        later = { packageSymbol := some symbol, nextAddr := 1 } ∧ symbol.addr = 0 := by
      cases hRun
      exact ⟨_, rfl, rfl⟩
    subst hLater
    refine ⟨rfl, .nil, .nil, rfl, rfl, rfl, rfl, rfl, ?_⟩
    refine SymbolTable.distinct_empty.add symbol hAddr rfl ?_
    rintro s (hs | hs | hs | ⟨hScope, hs⟩ | ⟨hScope, hs⟩)
    · exact .inr (Option.some.inj hs).symm
    all_goals contradiction

theorem symbolTableBuild_builtFrom {program : AstProgram} {table : SymbolTable}
    (hAddrs : program.addrs.Nodup) (hRun : symbolTableBuild program = .ok table) :
    table.BuiltFrom program := by
  obtain ⟨⟨⟨⟩, last⟩, hSteps, hLast⟩ : ∃ r : Unit × SymbolTable,
      symbolTableBuildM program {} = .ok r ∧ r.2 = table := by
    unfold symbolTableBuild at hRun
    cases hSteps : (symbolTableBuildM program).run {} with
    | error e =>
      rw [hSteps] at hRun
      exact nomatch hRun
    | ok r =>
      rw [hSteps] at hRun
      exact ⟨r, hSteps, by cases hRun; rfl⟩
  cases hLast
  obtain ⟨_, packaged, hPackage, hSteps⟩ := bind_eq_ok.1 hSteps
  obtain ⟨_, imported, hImport, hSteps⟩ := bind_eq_ok.1 hSteps
  obtain ⟨_, declared, hDeclare, hAnalyze⟩ := bind_eq_ok.1 hSteps
  have hImports : ImportsAdded program.packageName.isSome (importBindings program.imports)
      imported := by
    simpa using stAddImportSymbols_adds (stAddPackageSymbol_adds hPackage) hImport
  have hDecls : TopLevelAdded imported program.topLevelDecls declared := by
    have hStart : TopLevelAdded imported [] imported :=
      ⟨rfl, rfl, rfl, rfl, rfl, rfl, rfl, by rw [hImports.root_symbols]; exact .nil, .nil,
        hImports.distinct⟩
    simpa using stPredeclareTopLevelDecls_adds hStart hDeclare
  have hFresh : declared.Fresh program.addrs := by
    refine ⟨hDecls.root_kind.trans hImports.root_kind, ?_, ?_⟩
    · rw [hDecls.resolutions_eq, hImports.resolutions]
      exact fun r hr => absurd hr List.not_mem_nil
    · rw [hDecls.scopes_eq, hImports.scopes]
      exact fun s hs => absurd hs List.not_mem_nil
  obtain ⟨hExtends, hDistinct, hPost⟩ := stAnalyzeTopLevelDecls_analyzes program.topLevelDecls
    declared _ last hAnalyze hAddrs hFresh hDecls.distinct
  obtain ⟨members, hMembers, hMember⟩ := hExtends.imports
  have hRoot : last.rootScope.id = imported.rootScope.id := by
    rw [hExtends.rootScope_eq, hDecls.root_id]
  exact {
    package := by
      rw [hExtends.packageSymbol_eq, hDecls.package_eq]
      exact hImports.package
    imports := by
      refine ⟨imported.imports, members, by rw [hMembers, hDecls.imports_eq], ?_, ?_⟩
      · rw [hRoot]
        exact hImports.imports
      · unfold SymbolTable.wildcardSentinel at hMember
        rwa [hDecls.imports_eq] at hMember
    importNames := hImports.names
    root := by
      rw [hRoot, hExtends.rootScope_eq]
      exact hDecls.root
    rootKind := by rw [hExtends.rootScope_eq, hDecls.root_kind, hImports.root_kind]
    rootNames := hDecls.names
    decls := hPost last (.refl last)
    distinct := hDistinct }

end Calynda
