import Calynda.Sema.Growth

/-!
# What the analysis records

`ExpressionAnalyzed` and its companions say, along the tree, what the finished table holds
for an expression that `st_analyze_expression` has analysed in a chain of scopes: the
resolution of every identifier is what the look-up gives in the chain at that place, every
lambda has its parameter scope, and every block its scope, to which the locals are added one
by one, each after its initializer.
-/

namespace Calynda

/-! ## The symbols of a declaration -/

/-- The symbol that `st_add_parameter_symbols` makes. -/
def parameterSymbol (addr : Addr) (scope : ScopeId) (parameter : AstParameter) : Symbol where
  addr := addr
  kind := .parameter
  name := some parameter.name
  qualifiedName := none
  declaredType := some parameter.type
  isInferredType := false
  isFinal := false
  isExported := false
  isStatic := false
  isInternal := false
  declarationSpan := parameter.nameSpan
  declaration := .parameter parameter
  scope := some scope

/-- The symbol that `st_add_local_symbol` makes. -/
def localSymbol (addr : Addr) (scope : ScopeId) (binding : AstLocalBindingStatement) :
    Symbol where
  addr := addr
  kind := .local
  name := some binding.name
  qualifiedName := none
  declaredType := some binding.declaredType
  isInferredType := binding.isInferredType
  isFinal := binding.isFinal
  isExported := false
  isStatic := false
  isInternal := binding.isInternal
  declarationSpan := binding.nameSpan
  declaration := .localBinding binding
  scope := some scope

/-- The scope of the parameters of a lambda, of `start` or of `boot`. -/
structure Scope.IsParameterScope (kind : ScopeKind) (owner : Addr)
    (parameters : List AstParameter) (scope : Scope) : Prop where
  kind_eq : scope.kind = kind
  owner_eq : scope.owner = owner
  symbols : List.Forall₂ (fun p s => s = parameterSymbol s.addr scope.id p) parameters
    scope.symbols
  names_nodup : (parameters.map AstParameter.name).Nodup

/-! ## The finished table -/

/-- The identifier is recorded as unresolved, or it is resolved to what the look-up gives. -/
def SymbolTable.IdentifierAnalyzed (table : SymbolTable) (node : AstNode) (name : String)
    (chain : List Scope) : Prop :=
  (∃ u ∈ table.unresolvedIdentifiers, u.identifier = node ∧ u.name = name) ∨
    ∃ r, table.findResolution node.addr = some r ∧ r.scope = scopeRefs chain ∧
      table.lookup chain name = some r.symbol

section
variable (table : SymbolTable)

mutual
def ExpressionAnalyzed : AstExpression → List Scope → Prop
  | .literal _ _, _ => True
  | .template _ parts, chain => TemplatePartsAnalyzed parts chain
  | .identifier node name, chain => table.IdentifierAnalyzed node name chain
  | .lambda node parameters body, chain =>
    ∃ scope, table.findScope node.addr .lambda = some scope ∧
      scope.IsParameterScope .lambda node.addr parameters ∧
      LambdaBodyAnalyzed body (scope :: chain)
  | .assignment _ _ target value, chain =>
    ExpressionAnalyzed target chain ∧ ExpressionAnalyzed value chain
  | .ternary _ condition thenBranch elseBranch, chain =>
    ExpressionAnalyzed condition chain ∧ ExpressionAnalyzed thenBranch chain ∧
      ExpressionAnalyzed elseBranch chain
  | .binary _ _ left right, chain =>
    ExpressionAnalyzed left chain ∧ ExpressionAnalyzed right chain
  | .unary _ _ operand, chain => ExpressionAnalyzed operand chain
  | .call _ callee arguments, chain =>
    ExpressionAnalyzed callee chain ∧ ExpressionsAnalyzed arguments chain
  | .index _ target index, chain =>
    ExpressionAnalyzed target chain ∧ ExpressionAnalyzed index chain
  | .member _ target _, chain => ExpressionAnalyzed target chain
  | .cast _ _ expression, chain => ExpressionAnalyzed expression chain
  | .arrayLiteral _ elements, chain => ExpressionsAnalyzed elements chain
  | .grouping _ inner, chain => ExpressionAnalyzed inner chain
  | .discard _, _ => True
  | .postIncrement _ operand, chain => ExpressionAnalyzed operand chain
  | .postDecrement _ operand, chain => ExpressionAnalyzed operand chain

def ExpressionsAnalyzed : List AstExpression → List Scope → Prop
  | [], _ => True
  | e :: es, chain => ExpressionAnalyzed e chain ∧ ExpressionsAnalyzed es chain

def TemplatePartsAnalyzed : List AstTemplatePart → List Scope → Prop
  | [], _ => True
  | .text _ :: parts, chain => TemplatePartsAnalyzed parts chain
  | .expression e :: parts, chain =>
    ExpressionAnalyzed e chain ∧ TemplatePartsAnalyzed parts chain

def LambdaBodyAnalyzed : AstLambdaBody → List Scope → Prop
  | .block block, chain => BlockAnalyzed block chain
  | .expression expression, chain => ExpressionAnalyzed expression chain

def BlockAnalyzed : AstBlock → List Scope → Prop
  | .mk addr statements, chain =>
    ∃ opened closed : Scope, opened.kind = .block ∧ opened.owner = addr ∧
      opened.symbols = [] ∧ StatementsAnalyzed statements opened chain closed ∧
      table.findScope addr .block = some closed

/-- The statements take the scope of the block from `scope` to `closed`. -/
def StatementsAnalyzed : List AstStatement → Scope → List Scope → Scope → Prop
  | [], scope, _, closed => closed = scope
  | s :: ss, scope, parents, closed =>
    ∃ next, StatementAnalyzed s scope parents next ∧
      StatementsAnalyzed ss next parents closed

def StatementAnalyzed : AstStatement → Scope → List Scope → Scope → Prop
  | .localBinding _ isFinal isInternal isInferredType declaredType name nameSpan initializer,
      scope, parents, next =>
      ExpressionAnalyzed initializer (scope :: parents) ∧
        scopeLookupLocal scope name = none ∧
        ∃ addr, next = scope.appendSymbol (localSymbol addr scope.id
          ⟨isFinal, isInternal, isInferredType, declaredType, name, nameSpan, initializer⟩)
  | .returnValue _ expression, scope, parents, next =>
    ExpressionAnalyzed expression (scope :: parents) ∧ next = scope
  | .returnVoid _, scope, _, next => next = scope
  | .exit _, scope, _, next => next = scope
  | .throw _ expression, scope, parents, next =>
    ExpressionAnalyzed expression (scope :: parents) ∧ next = scope
  | .expression _ expression, scope, parents, next =>
    ExpressionAnalyzed expression (scope :: parents) ∧ next = scope
  | .manual _ _ body, scope, parents, next =>
    BlockAnalyzed body (scope :: parents) ∧ next = scope
end

end

/-! ## Identifiers -/

open StateExcept

theorem Analyzes.stResolutionsAppend (node : AstNode) (chain : List Scope) (symbol : Symbol)
    (held : List Scope) :
    Analyzes [node.addr] held (stResolutionsAppend node chain symbol) (fun _ => held)
      fun final _ => final.findResolution node.addr =
        some { identifier := node, scope := scopeRefs chain, symbol } := by
  rintro table a later hRun - hFresh hDistinct
  cases hRun
  refine ⟨⟨⟨rfl, rfl, ⟨[], by simp⟩, ⟨_, rfl⟩, ⟨[], by simp⟩, ⟨[], by simp⟩⟩, ?_,
    fun s hs => .inl hs⟩, ?_, ?_⟩
  · intro r hr
    rcases List.mem_append.1 hr with hr | hr
    · exact .inl hr
    · rw [List.mem_singleton.1 hr]
      exact .inr List.mem_cons_self
  · refine hDistinct.mono (Nat.le_refl _) ?_
    rintro s (h | h | h | ⟨hScope, h⟩ | ⟨hScope, h⟩)
    · exact .package h
    · exact .imported h
    · exact .root h
    · exact .recorded hScope h
    · exact .held hScope h
  · intro final hFinal
    apply hFinal.findResolution_eq
    have hNone : table.resolutions.find? (fun r => r.identifier.addr == node.addr) = none := by
      apply List.find?_eq_none.2
      intro r hr hEq
      exact hFresh.resolutions r hr (List.mem_singleton.2 (beq_iff_eq.1 hEq))
    show (table.resolutions ++ [_]).find? _ = _
    rw [List.find?_append, hNone]
    simp

theorem Analyzes.stUnresolvedAppend (node : AstNode) (name : String) (held : List Scope) :
    Analyzes [node.addr] held (stUnresolvedAppend node name) (fun _ => held) fun final _ =>
      ∃ u ∈ final.unresolvedIdentifiers, u.identifier = node ∧ u.name = name := by
  rintro table a later hRun - - hDistinct
  cases hRun
  refine ⟨⟨⟨rfl, rfl, ⟨[], by simp⟩, ⟨[], by simp⟩, ⟨[], by simp⟩, ⟨_, rfl⟩⟩,
    fun r hr => .inl hr, fun s hs => .inl hs⟩, ?_, ?_⟩
  · refine hDistinct.mono (Nat.le_refl _) ?_
    rintro s (h | h | h | ⟨hScope, h⟩ | ⟨hScope, h⟩)
    · exact .package h
    · exact .imported h
    · exact .root h
    · exact .recorded hScope h
    · exact .held hScope h
  · intro final hFinal
    exact ⟨⟨node, name⟩, hFinal.unresolved_mem (List.mem_append_right _ List.mem_cons_self),
      rfl, rfl⟩

/-- A member of a wildcard import is found by its name from then on. -/
theorem stTryWildcardResolve_found {chain held : List Scope} {name : String}
    {table later : SymbolTable} {symbol? : Option Symbol}
    (hRun : stTryWildcardResolve chain name table = .ok (symbol?, later))
    (hDistinct : table.Distinct held) (hLookup : table.lookup chain name = none) :
    table.Extends [] later ∧ later.Distinct held ∧
      ∀ symbol, symbol? = some symbol → later.lookup chain name = some symbol := by
  unfold stTryWildcardResolve at hRun
  rw [get_bind] at hRun
  cases hSentinel : table.imports.find? fun symbol => symbol.isWildcardImport with
  | none =>
    simp only [hSentinel] at hRun
    cases hRun
    refine ⟨.refl [] table, hDistinct, ?_⟩
    rintro symbol ⟨⟩
  | some sentinel =>
    simp only [hSentinel] at hRun
    obtain ⟨member, hSymbol, hLater, hAddr, hName, hMember⟩ : ∃ member : Symbol,
        symbol? = some member ∧
        later = { table with nextAddr := table.nextAddr + 1
                             imports := table.imports ++ [member] } ∧
        member.addr = table.nextAddr ∧ member.name = some name ∧
        sentinel.IsMemberOf member := by
      cases hRun
      exact ⟨_, rfl, rfl, rfl, rfl, ⟨rfl, rfl, rfl, rfl, rfl⟩⟩
    subst hLater
    refine ⟨⟨⟨rfl, rfl, ⟨_, rfl, ?_⟩, ⟨[], by simp⟩, ⟨[], by simp⟩, ⟨[], by simp⟩⟩,
      fun r hr => .inl hr, fun s hs => .inl hs⟩, ?_, ?_⟩
    · intro s hs
      rw [List.mem_singleton.1 hs]
      exact ⟨sentinel, hSentinel, hMember⟩
    · refine hDistinct.add member hAddr rfl ?_
      rintro s (h | h | h | ⟨hScope, h⟩ | ⟨hScope, h⟩)
      · exact .inl (.package h)
      · rcases List.mem_append.1 h with h | h
        · exact .inl (.imported h)
        · exact .inr (List.mem_singleton.1 h)
      · exact .inl (.root h)
      · exact .inl (.recorded hScope h)
      · exact .inl (.held hScope h)
    · rintro symbol hEq
      cases hSymbol.symm.trans hEq
      unfold SymbolTable.lookup at hLookup ⊢
      cases hChain : stLookupInScopes chain name with
      | some found =>
        rw [hChain] at hLookup
        exact nomatch hLookup
      | none =>
        rw [hChain] at hLookup
        have hImport : table.imports.find? (fun s => s.name == some name) = none := hLookup
        show (table.imports ++ [_]).find? _ = _
        rw [List.find?_append, hImport]
        simp [hName]

theorem stAnalyzeIdentifier_analyzes (node : AstNode) (name : String) (chain : List Scope) :
    Analyzes [node.addr] chain (stAnalyzeIdentifier node name chain) (fun _ => chain)
      fun final _ => final.IdentifierAnalyzed node name chain := by
  rintro table a later hRun hNodup hFresh hDistinct
  unfold stAnalyzeIdentifier at hRun
  rw [get_bind] at hRun
  cases hLookup : table.lookup chain name with
  | some symbol =>
    simp only [hLookup] at hRun
    obtain ⟨hExtends, hLater, hPost⟩ := Analyzes.stResolutionsAppend node chain symbol chain
      table a later hRun hNodup hFresh hDistinct
    refine ⟨hExtends, hLater, fun final hFinal => .inr ⟨_, hPost final hFinal, rfl, ?_⟩⟩
    exact (hExtends.toRetains.trans hFinal).lookup_eq hLookup
  | none =>
    simp only [hLookup] at hRun
    obtain ⟨symbol?, middle, hWildcard, hRest⟩ := bind_eq_ok.1 hRun
    obtain ⟨hExtends₁, hMiddle, hFound⟩ :=
      stTryWildcardResolve_found hWildcard hDistinct hLookup
    have hFresh₁ : middle.Fresh [node.addr] :=
      hFresh.extends hExtends₁ (List.disjoint_nil_left _)
    have hExtends₁ : table.Extends [node.addr] middle := hExtends₁.mono (List.nil_subset _)
    cases symbol? with
    | some symbol =>
      obtain ⟨hExtends₂, hLater, hPost⟩ := Analyzes.stResolutionsAppend node chain symbol
        chain middle a later hRest hNodup hFresh₁ hMiddle
      refine ⟨hExtends₁.trans hExtends₂, hLater,
        fun final hFinal => .inr ⟨_, hPost final hFinal, rfl, ?_⟩⟩
      exact (hExtends₂.toRetains.trans hFinal).lookup_eq (hFound symbol rfl)
    | none =>
      obtain ⟨hExtends₂, hLater, hPost⟩ := Analyzes.stUnresolvedAppend node name chain
        middle a later hRest hNodup hFresh₁ hMiddle
      exact ⟨hExtends₁.trans hExtends₂, hLater,
        fun final hFinal => .inl (hPost final hFinal)⟩

/-! ## Declarations -/

theorem scopeLookupLocal_appendSymbol_none {scope : Scope} {symbol : Symbol} {name : String} :
    scopeLookupLocal (scope.appendSymbol symbol) name = none ↔
      scopeLookupLocal scope name = none ∧ symbol.name ≠ some name := by
  unfold scopeLookupLocal Scope.appendSymbol
  rw [List.find?_append]
  cases hFind : scope.symbols.find? fun s => s.name == some name with
  | some found => simp
  | none => simp [List.find?_cons]; grind

/-- The parameters are appended in their order, and no name comes twice. -/
theorem stAddParameterSymbols_analyzes (parents : List Scope) (parameters : List AstParameter)
    (scope : Scope) :
    Analyzes [] (scope :: parents) (stAddParameterSymbols parameters scope)
      (fun s => s :: parents) fun _ s =>
        s.id = scope.id ∧ s.kind = scope.kind ∧ s.owner = scope.owner ∧
        (parameters.map AstParameter.name).Nodup ∧
        (∀ p ∈ parameters, scopeLookupLocal scope p.name = none) ∧
        ∃ added, s.symbols = scope.symbols ++ added ∧
          List.Forall₂ (fun p s => s = parameterSymbol s.addr scope.id p) parameters added := by
  induction parameters generalizing scope with
  | nil => exact .ret scope rfl fun _ => ⟨rfl, rfl, rfl, .nil, nofun, [], by simp, .nil⟩
  | cons parameter parameters ih =>
    unfold stAddParameterSymbols
    cases hLookup : scopeLookupLocal scope parameter.name with
    | some conflicting => exact .error _ _ _
    | none =>
      refine .declare (fun addr => parameterSymbol addr scope.id parameter) _ (fun _ => rfl)
        (fun _ => rfl) fun addr => (ih _).mono ?_
      rintro final s ⟨hId, hKind, hOwner, hNodup, hNew, added, hAdded, hSymbols⟩
      have hOther : ∀ p ∈ parameters, scopeLookupLocal scope p.name = none ∧
          parameter.name ≠ p.name := by
        intro p hp
        obtain ⟨hNone, hName⟩ := scopeLookupLocal_appendSymbol_none.1 (hNew p hp)
        exact ⟨hNone, fun hEq => hName (congrArg some hEq)⟩
      refine ⟨hId, hKind, hOwner, ?_, ?_, parameterSymbol addr scope.id parameter :: added,
        ?_, .cons rfl hSymbols⟩
      · refine List.nodup_cons.2 ⟨?_, hNodup⟩
        intro hMem
        obtain ⟨p, hp, hEq⟩ := List.mem_map.1 hMem
        exact (hOther p hp).2 hEq.symm
      · rintro p hp
        rcases List.mem_cons.1 hp with rfl | hp
        · exact hLookup
        · exact (hOther p hp).1
      · rw [hAdded]
        simp [Scope.appendSymbol]

theorem stParameterScope_analyzes {kind : ScopeKind} (hKind : kind ≠ .program) (owner : Addr)
    (parameters : List AstParameter) (held : List Scope) :
    Analyzes [owner] held (stParameterScope kind owner parameters) (fun s => s :: held)
      fun final s => final.findScope owner kind = some s ∧
        s.IsParameterScope kind owner parameters := by
  unfold stParameterScope
  refine Analyzes.bind (.stScopeNew kind owner) ?_
  rintro opened ⟨-, rfl, rfl, hEmpty⟩
  refine Analyzes.bind (stAddParameterSymbols_analyzes held parameters opened) ?_
  rintro s ⟨-, hId, hKind', hOwner, hNodup, -, added, hAdded, hSymbols⟩
  rw [← hOwner, ← hKind', ← List.append_nil [s.owner]]
  rw [← hKind'] at hKind
  refine Analyzes.bind (.stRecordScope s (fun _ h => h) hKind) fun _ _ => .ret s rfl ?_
  rintro final hFound - -
  refine ⟨hFound, rfl, rfl, ?_, hNodup⟩
  rw [hAdded, hEmpty, List.nil_append, hId]
  exact hSymbols

theorem stAddLocalSymbol_analyzes (binding : AstLocalBindingStatement) (scope : Scope)
    (parents : List Scope) :
    Analyzes [] (scope :: parents) (stAddLocalSymbol binding scope) (fun s => s :: parents)
      fun _ next => scopeLookupLocal scope binding.name = none ∧
        ∃ addr, next = scope.appendSymbol (localSymbol addr scope.id binding) := by
  unfold stAddLocalSymbol
  cases hLookup : scopeLookupLocal scope binding.name with
  | some conflicting => exact .error _ _ _
  | none =>
    exact .declare (fun addr => localSymbol addr scope.id binding) _ (fun _ => rfl)
      (fun _ => rfl) fun addr => .ret _ rfl fun _ => ⟨rfl, addr, rfl⟩

/-! ## The analysis of the tree -/

/-- A block goes on with the scope it has opened. -/
theorem StatementsAnalyzed.same_scope {table : SymbolTable} {statements : List AstStatement}
    {scope : Scope} {parents : List Scope} {closed : Scope}
    (h : StatementsAnalyzed table statements scope parents closed) :
    closed.id = scope.id ∧ closed.kind = scope.kind ∧ closed.owner = scope.owner := by
  induction statements generalizing scope with
  | nil =>
    unfold StatementsAnalyzed at h
    exact ⟨by rw [h], by rw [h], by rw [h]⟩
  | cons statement statements ih =>
    unfold StatementsAnalyzed at h
    obtain ⟨next, hNext, hRest⟩ := h
    have hSame : next.id = scope.id ∧ next.kind = scope.kind ∧ next.owner = scope.owner := by
      cases statement <;> unfold StatementAnalyzed at hNext
      case localBinding =>
        obtain ⟨-, -, addr, rfl⟩ := hNext
        exact ⟨rfl, rfl, rfl⟩
      all_goals grind
    obtain ⟨hId, hKind, hOwner⟩ := ih hRest
    exact ⟨hId.trans hSame.1, hKind.trans hSame.2.1, hOwner.trans hSame.2.2⟩

mutual
theorem stAnalyzeExpression_analyzes : ∀ (e : AstExpression) (chain : List Scope),
    Analyzes e.addrs chain (stAnalyzeExpression e chain) (fun _ => chain)
      fun final _ => ExpressionAnalyzed final e chain
  | .literal node _, chain => .ret () rfl fun _ => trivial
  | .template node parts, chain =>
    (stAnalyzeTemplateParts_analyzes parts chain).weaken (List.sublist_cons_self _ _).subperm
  | .identifier node name, chain => stAnalyzeIdentifier_analyzes node name chain
  | .lambda node parameters body, chain => by
    unfold stAnalyzeExpression
    have hBody (s : Scope) := (stAnalyzeLambdaBody_analyzes body (s :: chain)).release
      (fun _ => chain) fun _ _ h => List.mem_cons_of_mem _ h
    refine (Analyzes.bind (stParameterScope_analyzes (by decide) node.addr parameters chain)
      fun s _ => (hBody s).mono ?_).weaken ?_
    · rintro final - hAnalyzed ⟨hFound, hScope⟩
      exact ⟨s, hFound, hScope, hAnalyzed⟩
    · exact (List.Sublist.cons_cons _ (List.sublist_append_right _ _)).subperm
  | .assignment node operator target value, chain =>
    (Analyzes.bind (stAnalyzeExpression_analyzes target chain) fun _ _ =>
      (stAnalyzeExpression_analyzes value chain).mono fun _ _ hValue hTarget =>
        ⟨hTarget, hValue⟩).weaken (List.sublist_cons_self _ _).subperm
  | .ternary node condition thenBranch elseBranch, chain => by
    have hBranches := Analyzes.bind (stAnalyzeExpression_analyzes thenBranch chain) fun _ _ =>
      (stAnalyzeExpression_analyzes elseBranch chain).mono fun _ _ hElse hThen =>
        And.intro hThen hElse
    refine (Analyzes.bind (stAnalyzeExpression_analyzes condition chain) fun _ _ =>
      hBranches.mono fun _ _ hBranches hCondition => ⟨hCondition, hBranches⟩).weaken ?_
    rw [← List.append_assoc]
    exact (List.sublist_cons_self _ _).subperm
  | .binary node operator left right, chain =>
    (Analyzes.bind (stAnalyzeExpression_analyzes left chain) fun _ _ =>
      (stAnalyzeExpression_analyzes right chain).mono fun _ _ hRight hLeft =>
        ⟨hLeft, hRight⟩).weaken (List.sublist_cons_self _ _).subperm
  | .unary node operator operand, chain =>
    (stAnalyzeExpression_analyzes operand chain).weaken (List.sublist_cons_self _ _).subperm
  | .call node callee arguments, chain =>
    (Analyzes.bind (stAnalyzeExpression_analyzes callee chain) fun _ _ =>
      (stAnalyzeExpressions_analyzes arguments chain).mono fun _ _ hArguments hCallee =>
        ⟨hCallee, hArguments⟩).weaken (List.sublist_cons_self _ _).subperm
  | .index node target index, chain =>
    (Analyzes.bind (stAnalyzeExpression_analyzes target chain) fun _ _ =>
      (stAnalyzeExpression_analyzes index chain).mono fun _ _ hIndex hTarget =>
        ⟨hTarget, hIndex⟩).weaken (List.sublist_cons_self _ _).subperm
  | .member node target member, chain =>
    (stAnalyzeExpression_analyzes target chain).weaken (List.sublist_cons_self _ _).subperm
  | .cast node targetType expression, chain =>
    (stAnalyzeExpression_analyzes expression chain).weaken
      (List.sublist_cons_self _ _).subperm
  | .arrayLiteral node elements, chain =>
    (stAnalyzeExpressions_analyzes elements chain).weaken (List.sublist_cons_self _ _).subperm
  | .grouping node inner, chain =>
    (stAnalyzeExpression_analyzes inner chain).weaken (List.sublist_cons_self _ _).subperm
  | .discard node, chain => .ret () rfl fun _ => trivial
  | .postIncrement node operand, chain =>
    (stAnalyzeExpression_analyzes operand chain).weaken (List.sublist_cons_self _ _).subperm
  | .postDecrement node operand, chain =>
    (stAnalyzeExpression_analyzes operand chain).weaken (List.sublist_cons_self _ _).subperm

theorem stAnalyzeExpressions_analyzes : ∀ (es : List AstExpression) (chain : List Scope),
    Analyzes (expressionsAddrs es) chain (stAnalyzeExpressions es chain) (fun _ => chain)
      fun final _ => ExpressionsAnalyzed final es chain
  | [], _ => .ret () rfl fun _ => trivial
  | e :: es, chain =>
    Analyzes.bind (stAnalyzeExpression_analyzes e chain) fun _ _ =>
      (stAnalyzeExpressions_analyzes es chain).mono fun _ _ hRest hFirst => ⟨hFirst, hRest⟩

theorem stAnalyzeTemplateParts_analyzes : ∀ (parts : List AstTemplatePart) (chain : List Scope),
    Analyzes (templateAddrs parts) chain (stAnalyzeTemplateParts parts chain) (fun _ => chain)
      fun final _ => TemplatePartsAnalyzed final parts chain
  | [], _ => .ret () rfl fun _ => trivial
  | .text _ :: parts, chain => stAnalyzeTemplateParts_analyzes parts chain
  | .expression e :: parts, chain =>
    Analyzes.bind (stAnalyzeExpression_analyzes e chain) fun _ _ =>
      (stAnalyzeTemplateParts_analyzes parts chain).mono fun _ _ hRest hFirst =>
        ⟨hFirst, hRest⟩

theorem stAnalyzeLambdaBody_analyzes : ∀ (body : AstLambdaBody) (chain : List Scope),
    Analyzes body.addrs chain (stAnalyzeLambdaBody body chain) (fun _ => chain)
      fun final _ => LambdaBodyAnalyzed final body chain
  | .block block, chain => stAnalyzeBlock_analyzes block chain
  | .expression expression, chain => stAnalyzeExpression_analyzes expression chain

theorem stAnalyzeBlock_analyzes : ∀ (block : AstBlock) (chain : List Scope),
    Analyzes block.addrs chain (stAnalyzeBlock block chain) (fun _ => chain)
      fun final _ => BlockAnalyzed final block chain
  | .mk addr statements, chain => by
    unfold stAnalyzeBlock
    have hPerm : (statementsAddrs statements ++ [addr]).Perm
        (addr :: statementsAddrs statements) := List.perm_append_comm
    refine (Analyzes.bind (.stScopeNew .block addr) ?_).weaken hPerm.subperm
    · rintro opened ⟨-, hKind, hOwner, hEmpty⟩
      refine Analyzes.bind (stAnalyzeStatements_analyzes statements opened chain) ?_
      rintro closed ⟨table, hStatements⟩
      obtain ⟨-, hKind', hOwner'⟩ := hStatements.same_scope
      have hBlock : closed.kind = .block := hKind'.trans hKind
      have hAddr : closed.owner = addr := hOwner'.trans hOwner
      have hRecord : Analyzes [closed.owner] (closed :: chain) (stRecordScope closed)
          (fun _ => chain) _ :=
        .stRecordScope closed (fun _ h => List.mem_cons_of_mem _ h) (by rw [hBlock]; decide)
      rw [hAddr, hBlock] at hRecord
      refine hRecord.mono ?_
      rintro final - hFound hAnalyzed -
      exact ⟨opened, closed, hKind, hOwner, hEmpty, hAnalyzed, hFound⟩

theorem stAnalyzeStatements_analyzes : ∀ (statements : List AstStatement) (scope : Scope)
    (parents : List Scope),
    Analyzes (statementsAddrs statements) (scope :: parents)
      (stAnalyzeStatements statements scope parents) (fun s => s :: parents)
      fun final closed => StatementsAnalyzed final statements scope parents closed
  | [], scope, _ => .ret scope rfl fun _ => rfl
  | statement :: statements, scope, parents =>
    Analyzes.bind (stAnalyzeStatement_analyzes statement scope parents) fun next _ =>
      (stAnalyzeStatements_analyzes statements next parents).mono fun _ _ hRest hFirst =>
        ⟨next, hFirst, hRest⟩

theorem stAnalyzeStatement_analyzes : ∀ (statement : AstStatement) (scope : Scope)
    (parents : List Scope),
    Analyzes statement.addrs (scope :: parents) (stAnalyzeStatement statement scope parents)
      (fun s => s :: parents)
      fun final next => StatementAnalyzed final statement scope parents next
  | .localBinding span isFinal isInternal isInferredType declaredType name nameSpan initializer,
      scope, parents => by
      unfold stAnalyzeStatement
      refine (Analyzes.bind (stAnalyzeExpression_analyzes initializer (scope :: parents))
        fun _ _ => (stAddLocalSymbol_analyzes _ scope parents).mono ?_).weaken ?_
      · rintro final next ⟨hNew, hNext⟩ hInitializer
        exact ⟨hInitializer, hNew, hNext⟩
      · rw [List.append_nil]
        exact (List.sublist_cons_self _ _).subperm
  | .returnValue span expression, scope, parents => by
    unfold stAnalyzeStatement
    rw [AstStatement.addrs, ← List.append_nil expression.addrs]
    exact Analyzes.bind (stAnalyzeExpression_analyzes expression (scope :: parents))
      fun _ _ => .ret scope rfl fun _ h => ⟨h, rfl⟩
  | .returnVoid span, scope, parents => .ret scope rfl fun _ => rfl
  | .exit span, scope, parents => .ret scope rfl fun _ => rfl
  | .throw span expression, scope, parents => by
    unfold stAnalyzeStatement
    rw [AstStatement.addrs, ← List.append_nil expression.addrs]
    exact Analyzes.bind (stAnalyzeExpression_analyzes expression (scope :: parents))
      fun _ _ => .ret scope rfl fun _ h => ⟨h, rfl⟩
  | .expression span expression, scope, parents => by
    unfold stAnalyzeStatement
    rw [AstStatement.addrs, ← List.append_nil expression.addrs]
    exact Analyzes.bind (stAnalyzeExpression_analyzes expression (scope :: parents))
      fun _ _ => .ret scope rfl fun _ h => ⟨h, rfl⟩
  | .manual span isChecked body, scope, parents => by
    unfold stAnalyzeStatement
    rw [AstStatement.addrs, ← List.append_nil body.addrs]
    exact Analyzes.bind (stAnalyzeBlock_analyzes body (scope :: parents))
      fun _ _ => .ret scope rfl fun _ h => ⟨h, rfl⟩
end

end Calynda
