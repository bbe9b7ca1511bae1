import Calynda.Lib.ListArray
import Calynda.Sema.Occurrence
import Calynda.Sema.Parts

/-!
# The symbols that a walk meets

In the finished table of a program every look-up for a node of the program, that of an identifier or
that of a scope, gives symbols that the table knows and whose declarations are nodes of the program.
-/

namespace Calynda

/-- The local that a statement declares. -/
def AstStatement.localBinding? : AstStatement → Option AstLocalBindingStatement
  | .localBinding _ isFinal isInternal isInferredType declaredType name nameSpan initializer =>
    some ⟨isFinal, isInternal, isInferredType, declaredType, name, nameSpan, initializer⟩
  | _ => none

theorem AstStatement.initializer_parts_subset {s : AstStatement}
    {binding : AstLocalBindingStatement} (h : s.localBinding? = some binding) :
    binding.initializer.parts ⊆ s.parts := by
  cases s <;> cases h
  exact List.subset_cons_self _ _

/-- What a symbol declares is among the nodes `P`. -/
def Declaration.Within (P : List AstPart) : Declaration → Prop
  | .binding decl => decl.initializer.parts ⊆ P
  | .localBinding statement => statement.initializer.parts ⊆ P
  | .parameter p => .type p.type ∈ P
  | _ => True

namespace SymbolTable

/-- A symbol of the table whose declaration is among `P`. -/
structure Holds (table : SymbolTable) (P : List AstPart) (symbol : Symbol) : Prop where
  knows : table.Knows [] symbol
  within : symbol.declaration.Within P

/-- What the look-ups for a node give. -/
def PartHeld (table : SymbolTable) (P : List AstPart) : AstPart → Prop
  | .expression (.identifier node _) =>
    ∀ symbol, table.resolveIdentifier node.addr = some symbol → table.Holds P symbol
  | .expression (.lambda node parameters _) =>
    ∃ scope, table.findScope node.addr .lambda = some scope ∧
      scope.IsParameterScope .lambda node.addr parameters
  | .block block =>
    ∃ scope, table.findScope block.addr .block = some scope ∧
      (∀ symbol ∈ scope.symbols, table.Holds P symbol) ∧
      ∀ s ∈ block.statements, ∀ binding, s.localBinding? = some binding →
        ∃ symbol, scopeLookupLocal scope binding.name = some symbol ∧ symbol.kind = .local ∧
          symbol.declaration = .localBinding binding
  | .start decl =>
    ∃ scope, table.findScope decl.addr .start = some scope ∧
      scope.IsParameterScope .start decl.addr decl.parameters
  | .boot decl =>
    ∃ scope, table.findScope decl.addr .boot = some scope ∧
      scope.IsParameterScope .boot decl.addr decl.parameters
  | _ => True

/-- The symbols of the scopes are held. -/
def ChainHeld (table : SymbolTable) (P : List AstPart) (chain : List Scope) : Prop :=
  ∀ scope ∈ chain, ∀ symbol ∈ scope.symbols, table.Holds P symbol

theorem ChainHeld.cons {table : SymbolTable} {P : List AstPart} {chain : List Scope}
    (h : table.ChainHeld P chain) {scope : Scope}
    (hScope : ∀ symbol ∈ scope.symbols, table.Holds P symbol) :
    table.ChainHeld P (scope :: chain) := by
  intro s hs
  rcases List.mem_cons.1 hs with rfl | hs
  · exact hScope
  · exact h s hs

/-- The symbols of a scope that is found are known. -/
theorem knows_of_findScope {table : SymbolTable} {owner : Addr} {kind : ScopeKind} {scope : Scope}
    (h : table.findScope owner kind = some scope) {symbol : Symbol} (hs : symbol ∈ scope.symbols) :
    table.Knows [] symbol := by
  rcases List.mem_cons.1 (List.mem_of_find?_eq_some h) with rfl | hScope
  · exact .root hs
  · exact .recorded hScope hs

end SymbolTable

/-! ## Scopes of parameters and of blocks -/

section
variable {table : SymbolTable} {P : List AstPart}

theorem Scope.IsParameterScope.holds {kind : ScopeKind} {owner : Addr}
    {parameters : List AstParameter} {scope : Scope}
    (h : scope.IsParameterScope kind owner parameters)
    (hFind : table.findScope owner kind = some scope) (hP : parametersParts parameters ⊆ P)
    {symbol : Symbol} (hs : symbol ∈ scope.symbols) : table.Holds P symbol := by
  refine ⟨SymbolTable.knows_of_findScope hFind hs, ?_⟩
  obtain ⟨p, hp, hEq⟩ := h.exists_parameter hs
  rw [hEq]
  exact hP (List.mem_map_of_mem hp)

/-- The symbol of a parameter is found by its name. -/
theorem Scope.IsParameterScope.declaration_eq {kind : ScopeKind} {owner : Addr}
    {parameters : List AstParameter} {scope : Scope}
    (h : scope.IsParameterScope kind owner parameters) {p : AstParameter} (hp : p ∈ parameters)
    {symbol : Symbol} (hLookup : scopeLookupLocal scope p.name = some symbol) :
    symbol.kind = .parameter ∧ symbol.declaration = .parameter p := by
  obtain ⟨other, hOther, hEq⟩ := h.exists_parameter (List.mem_of_find?_eq_some hLookup)
  have hName : symbol.name = some p.name := by simpa using List.find?_some hLookup
  have hSame : other = p := by
    refine List.inj_on_of_nodup_map h.names_nodup hOther hp ?_
    rw [hEq] at hName
    exact Option.some.inj hName
  subst hSame
  rw [hEq]
  exact ⟨rfl, rfl⟩

/-- A statement adds the local that it declares. -/
theorem StatementAnalyzed.symbols {s : AstStatement} {scope next : Scope} {parents : List Scope}
    (h : StatementAnalyzed table s scope parents next) :
    (s.localBinding? = none ∧ next = scope) ∨ ∃ binding symbol, s.localBinding? = some binding ∧
      symbol.name = some binding.name ∧
      (symbol.kind = .local ∧ symbol.declaration = .localBinding binding) ∧
      scopeLookupLocal scope binding.name = none ∧ next = scope.appendSymbol symbol := by
  cases s <;> unfold StatementAnalyzed at h
  case localBinding =>
    obtain ⟨-, hNew, addr, hNext⟩ := h
    exact .inr ⟨_, _, rfl, rfl, ⟨rfl, rfl⟩, hNew, hNext⟩
  all_goals
    refine .inl ⟨rfl, ?_⟩
    first
    | exact h
    | exact h.2

theorem StatementAnalyzed.symbols_subset {s : AstStatement} {scope next : Scope}
    {parents : List Scope} (h : StatementAnalyzed table s scope parents next) :
    scope.symbols ⊆ next.symbols := by
  obtain ⟨-, rfl⟩ | ⟨binding, symbol, -, -, -, -, rfl⟩ := h.symbols
  · exact List.Subset.refl _
  · exact List.subset_append_left _ _

theorem StatementsAnalyzed.symbols_subset {ss : List AstStatement} {scope closed : Scope}
    {parents : List Scope} (h : StatementsAnalyzed table ss scope parents closed) :
    scope.symbols ⊆ closed.symbols := by
  induction ss generalizing scope with
  | nil =>
    cases h
    exact List.Subset.refl _
  | cons s ss ih =>
    obtain ⟨next, hFirst, hRest⟩ := h
    exact List.Subset.trans hFirst.symbols_subset (ih hRest)

/-- What the scope of a block has more than it started with are the locals of its statements. -/
theorem StatementsAnalyzed.symbols {ss : List AstStatement} {scope closed : Scope}
    {parents : List Scope} (h : StatementsAnalyzed table ss scope parents closed) :
    ∀ symbol ∈ closed.symbols, symbol ∈ scope.symbols ∨
      ∃ s ∈ ss, ∃ binding, s.localBinding? = some binding ∧
        symbol.declaration = .localBinding binding := by
  induction ss generalizing scope with
  | nil =>
    cases h
    exact fun _ => .inl
  | cons s ss ih =>
    obtain ⟨next, hFirst, hRest⟩ := h
    intro symbol hSymbol
    rcases ih hRest symbol hSymbol with hNext | ⟨other, hOther, hDeclares⟩
    · obtain ⟨-, rfl⟩ | ⟨binding, new, hBinding, -, hNew, -, rfl⟩ := hFirst.symbols
      · exact .inl hNext
      · rcases List.mem_append.1 hNext with hOld | hLast
        · exact .inl hOld
        · rw [List.mem_singleton.1 hLast]
          exact .inr ⟨s, List.mem_cons_self, binding, hBinding, hNew.2⟩
    · exact .inr ⟨other, List.mem_cons_of_mem s hOther, hDeclares⟩

theorem scopeLookupLocal_appendSymbol {scope : Scope} {name : String} {found : Symbol}
    (h : scopeLookupLocal scope name = some found) (symbol : Symbol) :
    scopeLookupLocal (scope.appendSymbol symbol) name = some found := by
  unfold scopeLookupLocal Scope.appendSymbol at *
  rw [List.find?_append, h]
  rfl

theorem scopeLookupLocal_appendSymbol_self {scope : Scope} {name : String} {symbol : Symbol}
    (h : scopeLookupLocal scope name = none) (hName : symbol.name = some name) :
    scopeLookupLocal (scope.appendSymbol symbol) name = some symbol := by
  unfold scopeLookupLocal Scope.appendSymbol at *
  rw [List.find?_append, h]
  simp [hName]

theorem StatementsAnalyzed.lookup_eq {ss : List AstStatement} {scope closed : Scope}
    {parents : List Scope} (h : StatementsAnalyzed table ss scope parents closed) {name : String}
    {symbol : Symbol} (hLookup : scopeLookupLocal scope name = some symbol) :
    scopeLookupLocal closed name = some symbol := by
  induction ss generalizing scope with
  | nil =>
    cases h
    exact hLookup
  | cons s ss ih =>
    obtain ⟨next, hFirst, hRest⟩ := h
    refine ih hRest ?_
    obtain ⟨-, rfl⟩ | ⟨binding, new, -, -, -, -, rfl⟩ := hFirst.symbols
    · exact hLookup
    · exact scopeLookupLocal_appendSymbol hLookup new

/-- A local is found by its name in the scope of its block. -/
theorem StatementsAnalyzed.lookup_localBinding {ss : List AstStatement} {scope closed : Scope}
    {parents : List Scope} (h : StatementsAnalyzed table ss scope parents closed)
    {s : AstStatement} (hs : s ∈ ss) {binding : AstLocalBindingStatement}
    (hBinding : s.localBinding? = some binding) :
    ∃ symbol, scopeLookupLocal closed binding.name = some symbol ∧ symbol.kind = .local ∧
      symbol.declaration = .localBinding binding := by
  induction ss generalizing scope with
  | nil => exact nomatch hs
  | cons first ss ih =>
    obtain ⟨next, hFirst, hRest⟩ := h
    rcases List.mem_cons.1 hs with rfl | hs
    · obtain ⟨hNone, -⟩ | ⟨other, new, hOther, hName, hDeclares, hNew, rfl⟩ := hFirst.symbols
      · rw [hBinding] at hNone
        exact nomatch hNone
      · rw [hBinding] at hOther
        cases hOther
        exact ⟨new, hRest.lookup_eq (scopeLookupLocal_appendSymbol_self hNew hName), hDeclares⟩
    · exact ih hRest hs

theorem StatementsAnalyzed.holds {ss : List AstStatement} {opened closed : Scope}
    {parents : List Scope} (h : StatementsAnalyzed table ss opened parents closed)
    (hEmpty : opened.symbols = []) {owner : Addr} {kind : ScopeKind}
    (hFind : table.findScope owner kind = some closed) (hP : statementsParts ss ⊆ P)
    {symbol : Symbol} (hs : symbol ∈ closed.symbols) : table.Holds P symbol := by
  refine ⟨SymbolTable.knows_of_findScope hFind hs, ?_⟩
  rcases h.symbols symbol hs with hOpened | ⟨s, hMem, binding, hBinding, hDeclares⟩
  · rw [hEmpty] at hOpened
    exact nomatch hOpened
  · rw [hDeclares]
    have hBlock := List.Subset.trans (AstStatement.initializer_parts_subset hBinding)
      (AstStatement.parts_subset hMem)
    exact List.Subset.trans hBlock hP

end

/-! ## Programs -/

section
variable {table : SymbolTable} {program : AstProgram}

namespace SymbolTable.BuiltFrom

variable (h : table.BuiltFrom program)
include h

/-- A symbol of the program scope is that of a declaration. -/
theorem exists_topLevel {symbol : Symbol} (hs : symbol ∈ table.rootScope.symbols) :
    ∃ decl ∈ program.topLevelDecls,
      topLevelSymbol symbol.addr table.rootScope.id decl = some symbol := by
  have hRoot := h.root
  unfold TopLevelDeclared at hRoot
  obtain ⟨decl, hDecl, hSymbol⟩ := hRoot.exists_of_mem_right hs
  exact ⟨decl, List.mem_of_mem_filter hDecl, hSymbol⟩

/-- The symbol of a declaration is found by its name. -/
theorem lookup_root {decl : AstTopLevelDecl} (hDecl : decl ∈ program.topLevelDecls) {name : String}
    (hName : decl.name? = some name) {symbol : Symbol}
    (hLookup : scopeLookupLocal table.rootScope name = some symbol) :
    topLevelSymbol symbol.addr table.rootScope.id decl = some symbol := by
  obtain ⟨other, hOther, hSymbol⟩ := h.exists_topLevel (List.mem_of_find?_eq_some hLookup)
  have hFound : symbol.name = some name := by simpa using List.find?_some hLookup
  rw [topLevelSymbol_name hSymbol] at hFound
  rwa [List.eq_of_nodup_filterMap h.rootNames hDecl hOther hName hFound]

theorem exists_lookup_root {decl : AstTopLevelDecl} (hDecl : decl ∈ program.topLevelDecls)
    {name : String} (hName : decl.name? = some name) :
    ∃ symbol, scopeLookupLocal table.rootScope name = some symbol := by
  cases hLookup : scopeLookupLocal table.rootScope name with
  | some symbol => exact ⟨symbol, rfl⟩
  | none =>
    have hNotMem := scopeLookupLocal_eq_none.1 hLookup
    rw [h.root.names_eq] at hNotMem
    exact absurd (List.mem_filterMap.2 ⟨decl, hDecl, hName⟩) hNotMem

theorem root_holds {symbol : Symbol} (hs : symbol ∈ table.rootScope.symbols) :
    table.Holds program.parts symbol := by
  refine ⟨.root hs, ?_⟩
  obtain ⟨decl, hDecl, hSymbol⟩ := h.exists_topLevel hs
  have hParts := AstProgram.parts_subset hDecl
  cases decl
  case start => exact nomatch hSymbol
  case boot => exact nomatch hSymbol
  all_goals rw [← Option.some.inj hSymbol]
  · exact (List.cons_subset.1 hParts).2
  · trivial
  · trivial

theorem import_holds {symbol : Symbol} (hs : symbol ∈ table.imports) :
    table.Holds program.parts symbol := by
  refine ⟨.imported hs, ?_⟩
  obtain ⟨declared, members, hImports, hDeclared, hMembers⟩ := h.imports
  have hDecl {s : Symbol} (hs : s ∈ declared) : ∃ decl, s.declaration = .importDecl decl := by
    obtain ⟨b, -, hEq⟩ := List.Forall₂.exists_of_mem_right hDeclared hs
    exact ⟨b.1, by rw [hEq]; rfl⟩
  rw [hImports] at hs
  obtain ⟨decl, hEq⟩ : ∃ decl, symbol.declaration = .importDecl decl := by
    rcases List.mem_append.1 hs with hs | hs
    · exact hDecl hs
    · obtain ⟨sentinel, hFind, hMember⟩ := hMembers symbol hs
      rw [hMember.declaration_eq]
      exact hDecl (List.mem_of_find?_eq_some hFind)
  rw [hEq]
  trivial

theorem lookup_holds {chain : List Scope} (hChain : table.ChainHeld program.parts chain)
    {name : String} {symbol : Symbol} (hLookup : table.lookup chain name = some symbol) :
    table.Holds program.parts symbol := by
  unfold SymbolTable.lookup at hLookup
  cases hFound : stLookupInScopes chain name with
  | some found =>
    rw [hFound] at hLookup
    cases hLookup
    obtain ⟨scope, hScope, hs⟩ := stLookupInScopes_mem hFound
    exact hChain scope hScope _ hs
  | none =>
    rw [hFound] at hLookup
    exact h.import_holds (List.mem_of_find?_eq_some hLookup)

end SymbolTable.BuiltFrom

/-! ## The walk over the tree -/

/-- The table of a program without unresolved identifiers. -/
structure SymbolTable.Complete (program : AstProgram) (table : SymbolTable) : Prop
    extends table.BuiltFrom program where
  unresolved : table.unresolvedIdentifiers = []

mutual
theorem ExpressionAnalyzed.held (h : table.Complete program) : ∀ (e : AstExpression) {chain : List Scope},
    ExpressionAnalyzed table e chain → table.ChainHeld program.parts chain →
      e.parts ⊆ program.parts → ∀ x ∈ e.parts, table.PartHeld program.parts x
  | .literal node lit, _, _, _, _ => by
    rintro x (_ | ⟨_, hx⟩)
    · trivial
    · exact nomatch hx
  | .template _ parts, _, hDone, hChain, hP => by
    rintro x (_ | ⟨_, hx⟩)
    · trivial
    · exact TemplatePartsAnalyzed.held h parts hDone hChain (List.cons_subset.1 hP).2 x hx
  | .identifier node name, chain, hDone, hChain, _ => by
    rintro x (_ | ⟨_, hx⟩)
    · intro symbol hSymbol
      rcases hDone with ⟨u, hu, -⟩ | ⟨r, hFind, -, hLookup⟩
      · rw [h.unresolved] at hu
        exact nomatch hu
      · unfold SymbolTable.resolveIdentifier at hSymbol
        rw [hFind] at hSymbol
        cases hSymbol
        exact h.toBuiltFrom.lookup_holds hChain hLookup
    · exact nomatch hx
  | .lambda node parameters body, chain, hDone, hChain, hP => by
    unfold ExpressionAnalyzed at hDone
    obtain ⟨scope, hFind, hScope, hBody⟩ := hDone
    obtain ⟨hParameters, hRest⟩ := List.append_subset.1 (List.cons_subset.1 hP).2
    rintro x (_ | ⟨_, hx⟩)
    · exact ⟨scope, hFind, hScope⟩
    · rcases List.mem_append.1 hx with hx | hx
      · obtain ⟨p, -, rfl⟩ := List.mem_map.1 hx
        trivial
      · exact LambdaBodyAnalyzed.held h body hBody
          (hChain.cons fun s hs => hScope.holds hFind hParameters hs) hRest x hx
  | .assignment _ _ target value, _, hDone, hChain, hP => by
    obtain ⟨hTarget, hValue⟩ := List.append_subset.1 (List.cons_subset.1 hP).2
    rintro x (_ | ⟨_, hx⟩)
    · trivial
    · rcases List.mem_append.1 hx with hx | hx
      · exact ExpressionAnalyzed.held h target hDone.1 hChain hTarget x hx
      · exact ExpressionAnalyzed.held h value hDone.2 hChain hValue x hx
  | .ternary _ condition thenBranch elseBranch, _, hDone, hChain, hP => by
    obtain ⟨hBoth, hElse⟩ := List.append_subset.1 (List.cons_subset.1 hP).2
    obtain ⟨hCondition, hThen⟩ := List.append_subset.1 hBoth
    rintro x (_ | ⟨_, hx⟩)
    · trivial
    · rcases List.mem_append.1 hx with hx | hx
      · rcases List.mem_append.1 hx with hx | hx
        · exact ExpressionAnalyzed.held h condition hDone.1 hChain hCondition x hx
        · exact ExpressionAnalyzed.held h thenBranch hDone.2.1 hChain hThen x hx
      · exact ExpressionAnalyzed.held h elseBranch hDone.2.2 hChain hElse x hx
  | .binary _ _ left right, _, hDone, hChain, hP => by
    obtain ⟨hLeft, hRight⟩ := List.append_subset.1 (List.cons_subset.1 hP).2
    rintro x (_ | ⟨_, hx⟩)
    · trivial
    · rcases List.mem_append.1 hx with hx | hx
      · exact ExpressionAnalyzed.held h left hDone.1 hChain hLeft x hx
      · exact ExpressionAnalyzed.held h right hDone.2 hChain hRight x hx
  | .unary _ _ operand, _, hDone, hChain, hP => by
    rintro x (_ | ⟨_, hx⟩)
    · trivial
    · exact ExpressionAnalyzed.held h operand hDone hChain (List.cons_subset.1 hP).2 x hx
  | .call _ callee arguments, _, hDone, hChain, hP => by
    obtain ⟨hCallee, hArguments⟩ := List.append_subset.1 (List.cons_subset.1 hP).2
    rintro x (_ | ⟨_, hx⟩)
    · trivial
    · rcases List.mem_append.1 hx with hx | hx
      · exact ExpressionAnalyzed.held h callee hDone.1 hChain hCallee x hx
      · exact ExpressionsAnalyzed.held h arguments hDone.2 hChain hArguments x hx
  | .index _ target index, _, hDone, hChain, hP => by
    obtain ⟨hTarget, hIndex⟩ := List.append_subset.1 (List.cons_subset.1 hP).2
    rintro x (_ | ⟨_, hx⟩)
    · trivial
    · rcases List.mem_append.1 hx with hx | hx
      · exact ExpressionAnalyzed.held h target hDone.1 hChain hTarget x hx
      · exact ExpressionAnalyzed.held h index hDone.2 hChain hIndex x hx
  | .member _ target _, _, hDone, hChain, hP => by
    rintro x (_ | ⟨_, hx⟩)
    · trivial
    · exact ExpressionAnalyzed.held h target hDone hChain (List.cons_subset.1 hP).2 x hx
  | .cast _ _ expression, _, hDone, hChain, hP => by
    rintro x (_ | ⟨_, hx⟩)
    · trivial
    · exact ExpressionAnalyzed.held h expression hDone hChain (List.cons_subset.1 hP).2 x hx
  | .arrayLiteral _ elements, _, hDone, hChain, hP => by
    rintro x (_ | ⟨_, hx⟩)
    · trivial
    · exact ExpressionsAnalyzed.held h elements hDone hChain (List.cons_subset.1 hP).2 x hx
  | .grouping _ inner, _, hDone, hChain, hP => by
    rintro x (_ | ⟨_, hx⟩)
    · trivial
    · exact ExpressionAnalyzed.held h inner hDone hChain (List.cons_subset.1 hP).2 x hx
  | .discard _, _, _, _, _ => by
    rintro x (_ | ⟨_, hx⟩)
    · trivial
    · exact nomatch hx
  | .postIncrement _ operand, _, hDone, hChain, hP => by
    rintro x (_ | ⟨_, hx⟩)
    · trivial
    · exact ExpressionAnalyzed.held h operand hDone hChain (List.cons_subset.1 hP).2 x hx
  | .postDecrement _ operand, _, hDone, hChain, hP => by
    rintro x (_ | ⟨_, hx⟩)
    · trivial
    · exact ExpressionAnalyzed.held h operand hDone hChain (List.cons_subset.1 hP).2 x hx

theorem ExpressionsAnalyzed.held (h : table.Complete program) : ∀ (es : List AstExpression) {chain : List Scope},
    ExpressionsAnalyzed table es chain → table.ChainHeld program.parts chain →
      expressionsParts es ⊆ program.parts →
      ∀ x ∈ expressionsParts es, table.PartHeld program.parts x
  | [], _, _, _, _, _, hx => nomatch hx
  | e :: es, _, hDone, hChain, hP, x, hx =>
    (List.mem_append.1 hx).elim
      (ExpressionAnalyzed.held h e hDone.1 hChain (List.append_subset.1 hP).1 x)
      (ExpressionsAnalyzed.held h es hDone.2 hChain (List.append_subset.1 hP).2 x)

theorem TemplatePartsAnalyzed.held (h : table.Complete program) : ∀ (parts : List AstTemplatePart) {chain : List Scope},
    TemplatePartsAnalyzed table parts chain → table.ChainHeld program.parts chain →
      templateParts parts ⊆ program.parts →
      ∀ x ∈ templateParts parts, table.PartHeld program.parts x
  | [], _, _, _, _, _, hx => nomatch hx
  | .text _ :: parts, _, hDone, hChain, hP, x, hx =>
    TemplatePartsAnalyzed.held h parts hDone hChain hP x hx
  | .expression e :: parts, _, hDone, hChain, hP, x, hx =>
    (List.mem_append.1 hx).elim
      (ExpressionAnalyzed.held h e hDone.1 hChain (List.append_subset.1 hP).1 x)
      (TemplatePartsAnalyzed.held h parts hDone.2 hChain (List.append_subset.1 hP).2 x)

theorem LambdaBodyAnalyzed.held (h : table.Complete program) : ∀ (body : AstLambdaBody) {chain : List Scope},
    LambdaBodyAnalyzed table body chain → table.ChainHeld program.parts chain →
      body.parts ⊆ program.parts → ∀ x ∈ body.parts, table.PartHeld program.parts x
  | .block block, _, hDone, hChain, hP, x, hx => BlockAnalyzed.held h block hDone hChain hP x hx
  | .expression expression, _, hDone, hChain, hP, x, hx =>
    ExpressionAnalyzed.held h expression hDone hChain hP x hx

theorem BlockAnalyzed.held (h : table.Complete program) : ∀ (block : AstBlock) {chain : List Scope},
    BlockAnalyzed table block chain → table.ChainHeld program.parts chain →
      block.parts ⊆ program.parts → ∀ x ∈ block.parts, table.PartHeld program.parts x
  | .mk addr statements, chain, hDone, hChain, hP => by
    unfold BlockAnalyzed at hDone
    obtain ⟨opened, closed, -, -, hEmpty, hStatements, hFind⟩ := hDone
    have hRest := (List.cons_subset.1 hP).2
    have hHolds : ∀ symbol ∈ closed.symbols, table.Holds program.parts symbol :=
      fun _ hs => hStatements.holds hEmpty hFind hRest hs
    rintro x (_ | ⟨_, hx⟩)
    · exact ⟨closed, hFind, hHolds, fun s hs _ hBinding =>
        hStatements.lookup_localBinding hs hBinding⟩
    · exact StatementsAnalyzed.held h statements hStatements hHolds hChain hRest x hx

theorem StatementsAnalyzed.held (h : table.Complete program) : ∀ (ss : List AstStatement) {scope closed : Scope}
    {parents : List Scope}, StatementsAnalyzed table ss scope parents closed →
      (∀ symbol ∈ closed.symbols, table.Holds program.parts symbol) →
      table.ChainHeld program.parts parents → statementsParts ss ⊆ program.parts →
      ∀ x ∈ statementsParts ss, table.PartHeld program.parts x
  | [], _, _, _, _, _, _, _, _, hx => nomatch hx
  | s :: ss, scope, closed, parents, hDone, hHolds, hParents, hP, x, hx => by
    obtain ⟨hFirst, hRest⟩ := List.append_subset.1 hP
    have hScope := hDone.symbols_subset
    obtain ⟨next, hNext, hLater⟩ := hDone
    rcases List.mem_append.1 hx with hx | hx
    · exact StatementAnalyzed.held h s hNext
        (hParents.cons fun symbol hs => hHolds symbol (hScope hs)) hFirst x hx
    · exact StatementsAnalyzed.held h ss hLater hHolds hParents hRest x hx

theorem StatementAnalyzed.held (h : table.Complete program) : ∀ (s : AstStatement) {scope next : Scope}
    {parents : List Scope}, StatementAnalyzed table s scope parents next →
      table.ChainHeld program.parts (scope :: parents) → s.parts ⊆ program.parts →
      ∀ x ∈ s.parts, table.PartHeld program.parts x
  | .localBinding _ _ _ _ _ _ _ initializer, _, _, _, hDone, hChain, hP, x, hx => by
    rcases List.mem_cons.1 hx with rfl | hx
    · trivial
    · exact ExpressionAnalyzed.held h initializer hDone.1 hChain (List.cons_subset.1 hP).2 x hx
  | .returnValue _ e, _, _, _, hDone, hChain, hP, x, hx =>
    ExpressionAnalyzed.held h e hDone.1 hChain hP x hx
  | .returnVoid _, _, _, _, _, _, _, _, hx => nomatch hx
  | .exit _, _, _, _, _, _, _, _, hx => nomatch hx
  | .throw _ e, _, _, _, hDone, hChain, hP, x, hx =>
    ExpressionAnalyzed.held h e hDone.1 hChain hP x hx
  | .expression _ e, _, _, _, hDone, hChain, hP, x, hx =>
    ExpressionAnalyzed.held h e hDone.1 hChain hP x hx
  | .manual _ _ body, _, _, _, hDone, hChain, hP, x, hx =>
    BlockAnalyzed.held h body hDone.1 hChain hP x hx
end

/-- The chain of the program scope alone. -/
theorem SymbolTable.BuiltFrom.root_chainHeld (h : table.BuiltFrom program) :
    table.ChainHeld program.parts [table.rootScope] := by
  intro scope hScope symbol hs
  rw [List.mem_singleton.1 hScope] at hs
  exact h.root_holds hs

theorem DeclAnalyzed.held (h : table.Complete program) {decl : AstTopLevelDecl}
    (hDone : DeclAnalyzed table decl) (hP : decl.parts ⊆ program.parts) :
    ∀ x ∈ decl.parts, table.PartHeld program.parts x := by
  cases decl with
  | start d | boot d =>
    obtain ⟨scope, hFind, hScope, hBody⟩ := hDone
    obtain ⟨hParameters, hRest⟩ := List.append_subset.1 (List.cons_subset.1 hP).2
    rintro x (_ | ⟨_, hx⟩)
    · exact ⟨scope, hFind, hScope⟩
    · rcases List.mem_append.1 hx with hx | hx
      · obtain ⟨p, -, rfl⟩ := List.mem_map.1 hx
        trivial
      · exact LambdaBodyAnalyzed.held h d.body hBody
          (h.toBuiltFrom.root_chainHeld.cons fun s hs => hScope.holds hFind hParameters hs) hRest x hx
  | binding d =>
    rintro x (_ | ⟨_, hx⟩)
    · trivial
    · exact ExpressionAnalyzed.held h d.initializer hDone h.toBuiltFrom.root_chainHeld
        (List.cons_subset.1 hP).2 x hx
  | union d =>
    rintro x (_ | ⟨_, hx⟩)
    · trivial
    · obtain ⟨variant, -, hPayload⟩ := List.mem_filterMap.1 hx
      obtain ⟨t, -, rfl⟩ := Option.map_eq_some_iff.1 hPayload
      trivial
  | externC d =>
    rintro x (_ | ⟨_, hx⟩)
    · trivial
    · obtain ⟨p, -, rfl⟩ := List.mem_map.1 hx
      trivial

/-- What the look-ups for the nodes of a program give. -/
theorem SymbolTable.Complete.part_held (h : table.Complete program) {x : AstPart}
    (hx : x ∈ program.parts) : table.PartHeld program.parts x := by
  obtain ⟨decl, hDecl, hx⟩ := List.mem_flatMap.1 hx
  exact (h.decls decl hDecl).held h (AstProgram.parts_subset hDecl) x hx

end

end Calynda
