import Calynda.Hir.Compile
import Calynda.Sema.Checked

/-!
# The types of the lowered tree

What it means that the tree carries the types of the checker, node by node beside the syntax tree,
and when it does. Lowering has a conversion of resolved types of its own, which has no case for a
named type, and it gives every payload of a union the type of the union.
-/

namespace Calynda

open StateExcept

/-! ## Types that are carried -/

/-- The parameters that a signature has the types of. -/
def TypeCheckInfo.signatureParameters (info : TypeCheckInfo) : Option (List AstParameter) :=
  if info.isCallable then info.parameters else none

section
variable (checker : TypeChecker)

/-- The info that the checker has recorded for the symbol of a declaration. -/
def TypeChecker.HasInfo (symbolAddr : Addr) (kind : SymbolKind) (declaration : Declaration)
    (info : TypeCheckInfo) : Prop :=
  ∃ symbol, checker.symbols.Knows [] symbol ∧ symbol.addr = symbolAddr ∧ symbol.kind = kind ∧
    symbol.declaration = declaration ∧ checker.getSymbolInfo symbol = some info

/-- Every entry is the checked type of the symbol of its parameter. -/
def SignatureTyped (info : TypeCheckInfo) (signature : HirCallableSignature) : Prop :=
  Option.Rel (List.Forall₂ fun p type => ∀ addr recorded,
    checker.HasInfo addr .parameter (.parameter p) recorded → type = recorded.type)
    info.signatureParameters signature.parameterTypes

def MetaTyped (node : AstNode) (info : HirMeta) : Prop :=
  ∃ recorded, checker.getExpressionInfo node.addr = some recorded ∧ info.type = recorded.type ∧
    SignatureTyped checker recorded info.callableSignature

def ParametersTyped (parameters : List AstParameter) (lowered : List HirParameter) : Prop :=
  List.Forall₂ (fun p q => ∃ recorded,
    checker.HasInfo q.symbol .parameter (.parameter p) recorded ∧ q.type = recorded.type)
    parameters lowered

def LocalTyped (binding : AstLocalBindingStatement) (lowered : HirLocal) : Prop :=
  ∃ recorded, checker.HasInfo lowered.symbol .local (.localBinding binding) recorded ∧
    lowered.type = recorded.type ∧ SignatureTyped checker recorded lowered.callableSignature

mutual
/-- The tree of an expression carries the types of the checker. -/
inductive ExpressionTyped : AstExpression → HirExpression → Prop
  | grouping {node : AstNode} {inner : AstExpression} {e : HirExpression} :
      ExpressionTyped inner e → ExpressionTyped (.grouping node inner) e
  | literal {node : AstNode} {info : HirMeta} {lit : AstLiteral} :
      MetaTyped checker node info → ExpressionTyped (.literal node lit) (.literal info lit)
  | template {node : AstNode} {info : HirMeta} {parts : List AstTemplatePart}
      {lowered : List HirTemplatePart} :
      MetaTyped checker node info → TemplateTyped parts lowered →
      ExpressionTyped (.template node parts) (.template info lowered)
  | identifier {node : AstNode} {name : String} {info : HirMeta} {ref : HirSymbolRef} :
      MetaTyped checker node info → ref.type = info.type →
      ExpressionTyped (.identifier node name) (.symbol info ref)
  -- the reference to the module has no node of its own in the syntax tree
  | imported {node : AstNode} {name : String} {info : HirMeta} {module : HirExpression} :
      MetaTyped checker node info →
      ExpressionTyped (.identifier node name) (.member info module name)
  | lambda {node : AstNode} {parameters : List AstParameter} {body : AstLambdaBody}
      {info : HirMeta} {addr : Addr} {lowered : List HirParameter} {block : HirBlock} :
      MetaTyped checker node info → ParametersTyped checker parameters lowered →
      BodyTyped body block →
      ExpressionTyped (.lambda node parameters body) (.lambda info addr lowered block)
  | assignment {node : AstNode} {info : HirMeta} {operator : AstAssignmentOperator}
      {target value : AstExpression} {target' value' : HirExpression} :
      MetaTyped checker node info → ExpressionTyped target target' →
      ExpressionTyped value value' →
      ExpressionTyped (.assignment node operator target value)
        (.assignment info operator target' value')
  | ternary {node : AstNode} {info : HirMeta} {condition thenBranch elseBranch : AstExpression}
      {condition' thenBranch' elseBranch' : HirExpression} :
      MetaTyped checker node info → ExpressionTyped condition condition' →
      ExpressionTyped thenBranch thenBranch' → ExpressionTyped elseBranch elseBranch' →
      ExpressionTyped (.ternary node condition thenBranch elseBranch)
        (.ternary info condition' thenBranch' elseBranch')
  | binary {node : AstNode} {info : HirMeta} {operator : AstBinaryOperator}
      {left right : AstExpression} {left' right' : HirExpression} :
      MetaTyped checker node info → ExpressionTyped left left' → ExpressionTyped right right' →
      ExpressionTyped (.binary node operator left right) (.binary info operator left' right')
  | unary {node : AstNode} {info : HirMeta} {operator : AstUnaryOperator}
      {operand : AstExpression} {operand' : HirExpression} :
      MetaTyped checker node info → ExpressionTyped operand operand' →
      ExpressionTyped (.unary node operator operand) (.unary info operator operand')
  | call {node : AstNode} {info : HirMeta} {callee : AstExpression}
      {arguments : List AstExpression} {callee' : HirExpression}
      {arguments' : List HirExpression} :
      MetaTyped checker node info → ExpressionTyped callee callee' →
      ExpressionsTyped arguments arguments' →
      ExpressionTyped (.call node callee arguments) (.call info callee' arguments')
  | index {node : AstNode} {info : HirMeta} {target index : AstExpression}
      {target' index' : HirExpression} :
      MetaTyped checker node info → ExpressionTyped target target' →
      ExpressionTyped index index' →
      ExpressionTyped (.index node target index) (.index info target' index')
  | member {node : AstNode} {info : HirMeta} {target : AstExpression} {member : String}
      {target' : HirExpression} :
      MetaTyped checker node info → ExpressionTyped target target' →
      ExpressionTyped (.member node target member) (.member info target' member)
  | cast {node : AstNode} {info : HirMeta} {primitive : AstPrimitiveType}
      {targetType : CheckedType} {expression : AstExpression} {expression' : HirExpression} :
      MetaTyped checker node info → targetType = info.type →
      ExpressionTyped expression expression' →
      ExpressionTyped (.cast node primitive expression) (.cast info targetType expression')
  | arrayLiteral {node : AstNode} {info : HirMeta} {elements : List AstExpression}
      {elements' : List HirExpression} :
      MetaTyped checker node info → ExpressionsTyped elements elements' →
      ExpressionTyped (.arrayLiteral node elements) (.arrayLiteral info elements')
  | discard {node : AstNode} {info : HirMeta} :
      MetaTyped checker node info → ExpressionTyped (.discard node) (.discard info)
  | postIncrement {node : AstNode} {info : HirMeta} {operand : AstExpression}
      {operand' : HirExpression} :
      MetaTyped checker node info → ExpressionTyped operand operand' →
      ExpressionTyped (.postIncrement node operand) (.postIncrement info operand')
  | postDecrement {node : AstNode} {info : HirMeta} {operand : AstExpression}
      {operand' : HirExpression} :
      MetaTyped checker node info → ExpressionTyped operand operand' →
      ExpressionTyped (.postDecrement node operand) (.postDecrement info operand')

inductive ExpressionsTyped : List AstExpression → List HirExpression → Prop
  | nil : ExpressionsTyped [] []
  | cons {e : AstExpression} {es : List AstExpression} {e' : HirExpression}
      {es' : List HirExpression} :
      ExpressionTyped e e' → ExpressionsTyped es es' → ExpressionsTyped (e :: es) (e' :: es')

inductive TemplateTyped : List AstTemplatePart → List HirTemplatePart → Prop
  | nil : TemplateTyped [] []
  | text {text : String} {parts : List AstTemplatePart} {parts' : List HirTemplatePart} :
      TemplateTyped parts parts' → TemplateTyped (.text text :: parts) (.text text :: parts')
  | expression {e : AstExpression} {parts : List AstTemplatePart} {e' : HirExpression}
      {parts' : List HirTemplatePart} :
      ExpressionTyped e e' → TemplateTyped parts parts' →
      TemplateTyped (.expression e :: parts) (.expression e' :: parts')

inductive BodyTyped : AstLambdaBody → HirBlock → Prop
  | block {block : AstBlock} {lowered : HirBlock} :
      BlockTyped block lowered → BodyTyped (.block block) lowered
  | expression {e : AstExpression} {span : AstSourceSpan} {e' : HirExpression} :
      ExpressionTyped e e' → BodyTyped (.expression e) (.mk [.returnValue span e'])

inductive BlockTyped : AstBlock → HirBlock → Prop
  | mk {addr : Addr} {statements : List AstStatement} {lowered : List HirStatement} :
      StatementsTyped statements lowered → BlockTyped (.mk addr statements) (.mk lowered)

inductive StatementsTyped : List AstStatement → List HirStatement → Prop
  | nil : StatementsTyped [] []
  | cons {s : AstStatement} {ss : List AstStatement} {s' : HirStatement}
      {ss' : List HirStatement} :
      StatementTyped s s' → StatementsTyped ss ss' → StatementsTyped (s :: ss) (s' :: ss')

inductive StatementTyped : AstStatement → HirStatement → Prop
  | localBinding {span : AstSourceSpan} {isFinal isInternal isInferredType : Bool}
      {declaredType : AstType} {name : String} {nameSpan : AstSourceSpan}
      {initializer : AstExpression} {lowered : HirLocal} {initializer' : HirExpression} :
      LocalTyped checker
        ⟨isFinal, isInternal, isInferredType, declaredType, name, nameSpan, initializer⟩ lowered →
      ExpressionTyped initializer initializer' →
      StatementTyped (.localBinding span isFinal isInternal isInferredType declaredType name
        nameSpan initializer) (.localBinding span lowered initializer')
  | returnValue {span : AstSourceSpan} {e : AstExpression} {e' : HirExpression} :
      ExpressionTyped e e' → StatementTyped (.returnValue span e) (.returnValue span e')
  | returnVoid {span : AstSourceSpan} : StatementTyped (.returnVoid span) (.returnVoid span)
  | exit {span : AstSourceSpan} : StatementTyped (.exit span) (.returnVoid span)
  | throw {span : AstSourceSpan} {e : AstExpression} {e' : HirExpression} :
      ExpressionTyped e e' → StatementTyped (.throw span e) (.throw span e')
  | expression {span : AstSourceSpan} {e : AstExpression} {e' : HirExpression} :
      ExpressionTyped e e' → StatementTyped (.expression span e) (.expression span e')
  | manual {span : AstSourceSpan} {isChecked : Bool} {body : AstBlock} {lowered : HirBlock} :
      BlockTyped body lowered → StatementTyped (.manual span isChecked body)
        (.manual span isChecked lowered)
end

/-- A variant with a payload carries the resolved type of the payload. -/
def VariantTyped (variant : AstUnionVariant) (lowered : HirUnionVariant) : Prop :=
  ∀ payload, variant.payloadType = some payload →
    ∃ resolved, checker.resolver.getType payload.addr = some resolved ∧
      lowered.payloadType = tcCheckedTypeFromResolvedType resolved

inductive DeclTyped : AstTopLevelDecl → HirTopLevelDecl → Prop
  | binding {decl : AstBindingDecl} {lowered : HirBindingDecl} {recorded : TypeCheckInfo} :
      checker.HasInfo lowered.symbol .topLevelBinding (.binding decl) recorded →
      lowered.type = recorded.type →
      SignatureTyped checker recorded lowered.callableSignature →
      ExpressionTyped checker decl.initializer lowered.initializer →
      DeclTyped (.binding decl) (.binding lowered)
  | start {decl : AstStartDecl} {lowered : HirStartDecl} :
      ParametersTyped checker decl.parameters lowered.parameters →
      BodyTyped checker decl.body lowered.body → DeclTyped (.start decl) (.start lowered)
  | boot {decl : AstBootDecl} {lowered : HirBootDecl} :
      ParametersTyped checker decl.parameters lowered.parameters →
      BodyTyped checker decl.body lowered.body → DeclTyped (.boot decl) (.boot lowered)
  | union {decl : AstUnionDecl} {lowered : HirUnionDecl} :
      List.Forall₂ (VariantTyped checker) decl.variants lowered.variants →
      DeclTyped (.union decl) (.union lowered)
  | externC {decl : AstExternDecl} {lowered : HirExternDecl} :
      DeclTyped (.externC decl) (.externC lowered)

/-- The tree of the program carries the types of the checker. -/
def HirProgram.Typed (program : AstProgram) (hir : HirProgram) : Prop :=
  List.Forall₂ (DeclTyped checker) program.topLevelDecls hir.topLevelDecls

end

/-! ## Where they are -/

/-- A type that is resolved to a named type. -/
def AstType.isNamed (type : AstType) : Bool :=
  decide (type.kind = .named) || decide (type.kind = .arr)

/-- No lambda has a parameter of a named type, and every payload is the union itself. -/
structure AstProgram.TypesKept (program : AstProgram) : Prop where
  lambdas {node : AstNode} {parameters : List AstParameter} {body : AstLambdaBody}
    (h : .expression (.lambda node parameters body) ∈ program.parts) {p : AstParameter}
    (hp : p ∈ parameters) : p.type.isNamed = false
  payloads {decl : AstUnionDecl} (h : .union decl ∈ program.topLevelDecls)
    {variant : AstUnionVariant} (hVariant : variant ∈ decl.variants) {payload : AstType}
    (hPayload : variant.payloadType = some payload) :
    tcCheckedTypeFromResolvedType (trResolvedType payload) =
      tcCheckedTypeNamed (some decl.name) decl.genericParams.length 0

/-! ## Conversions -/

/-- The two conversions differ at named types only. -/
theorem hrCheckedTypeFromResolvedType_eq_iff (type : ResolvedType) :
    hrCheckedTypeFromResolvedType type = tcCheckedTypeFromResolvedType type ↔
      type.kind ≠ .named := by
  unfold hrCheckedTypeFromResolvedType tcCheckedTypeFromResolvedType
  cases type.kind <;> simp [tcCheckedTypeInvalid, tcCheckedTypeNamed]

theorem trResolvedType_kind_eq_named (type : AstType) :
    (trResolvedType type).kind = .named ↔ type.isNamed = true := by
  unfold trResolvedType AstType.isNamed
  cases type.kind <;>
    simp [trResolvedTypeVoid, trResolvedTypeNamed, trResolvedTypeValue]

/-! ## Accepted programs -/

/-- The symbol of a union of the program. -/
def SymbolTable.IsUnionAddr (program : AstProgram) (table : SymbolTable) (addr : Addr) : Prop :=
  ∃ decl symbol, .union decl ∈ program.topLevelDecls ∧
    scopeLookupLocal table.rootScope decl.name = some symbol ∧ symbol.kind = .union ∧
    symbol.addr = addr

/-- What the checker leaves for an accepted program. -/
structure TypeChecker.Accepts (program : AstProgram) (checker : TypeChecker) : Prop where
  fits : checker.toCheckContext.Fits program
  sound : checker.toCheckContext.Sound program (checker.symbols.IsUnionAddr program)
    checker.toTcTables
  within : checker.resolver.Within program.parts
  payload {decl : AstUnionDecl} (hDecl : .union decl ∈ program.topLevelDecls)
    {variant : AstUnionVariant} (hVariant : variant ∈ decl.variants) {payload : AstType}
    (hPayload : variant.payloadType = some payload) :
    checker.resolver.getType payload.addr = some (trResolvedType payload)

theorem Compiles.accepts {program : AstProgram} {checker : TypeChecker} {hir : HirProgram}
    (h : Compiles program checker hir) (hAddrs : program.addrs.Nodup) :
    checker.Accepts program := by
  obtain ⟨hSymbols, ⟨fuel, hChecker⟩, -⟩ := h.steps
  obtain ⟨-, hUnresolved, hResolver, hRun⟩ := typeCheckerCheckProgram_ok hChecker
  have hFits : checker.toCheckContext.Fits program :=
    ⟨hAddrs, ⟨symbolTableBuild_builtFrom hAddrs hSymbols, hUnresolved⟩⟩
  have hWithin := typeResolverResolveProgram_within hResolver
  obtain ⟨_, middle, hValidate, hDecls⟩ := bind_eq_ok.1 hRun
  have hMiddle : checker.toCheckContext.Sound program (fun _ => False) middle :=
    (tcValidateProgramStartDecls_maintains program {} _ middle CheckContext.sound_empty
      hValidate).1
  refine ⟨hFits, tcCheckDecls_sound hFits hMiddle hDecls, hWithin, ?_⟩
  intro decl hDecl variant hVariant payload hPayload
  exact hWithin.getType_of_mem hAddrs (AstProgram.payload_mem_parts hDecl hVariant hPayload)
    (typeResolverResolveProgram_payload hResolver hDecl hVariant hPayload)

section
variable {program : AstProgram} {checker : TypeChecker}

theorem TypeChecker.getSymbolInfo_eq_some {symbol : Symbol} {info : TypeCheckInfo}
    (h : checker.getSymbolInfo symbol = some info) :
    ∃ entry, checker.symbolEntries symbol.addr = some entry ∧ entry.isResolved = true ∧
      entry.info = info := by
  unfold getSymbolInfo at h
  split at h
  · next entry hEntry =>
      split at h
      · next hResolved =>
          cases h
          exact ⟨entry, hEntry, hResolved, rfl⟩
      · exact nomatch h
  · exact nomatch h

namespace TypeChecker.Accepts

variable (h : checker.Accepts program)
include h

theorem info_within {symbol : Symbol} (hs : checker.symbols.Knows [] symbol)
    {info : TypeCheckInfo} (hInfo : checker.getSymbolInfo symbol = some info) :
    info.Within program.parts := by
  obtain ⟨entry, hEntry, -, rfl⟩ := getSymbolInfo_eq_some hInfo
  exact h.sound.symbols hs hEntry

theorem info_declares {symbol : Symbol} (hs : checker.symbols.Knows [] symbol)
    {info : TypeCheckInfo} (hInfo : checker.getSymbolInfo symbol = some info) :
    checker.toCheckContext.Declares symbol info.type := by
  obtain ⟨entry, hEntry, hResolved, rfl⟩ := getSymbolInfo_eq_some hInfo
  exact h.sound.resolved hs hEntry hResolved

/-- The checked type of a parameter is that of its declared type. -/
theorem parameter_type {addr : Addr} {p : AstParameter} {info : TypeCheckInfo}
    (hInfo : checker.HasInfo addr .parameter (.parameter p) info) :
    ∃ resolved, checker.resolver.getType p.type.addr = some resolved ∧
      info.type = tcCheckedTypeFromResolvedType resolved := by
  obtain ⟨symbol, hs, -, hKind, hDeclaration, hInfo⟩ := hInfo
  have hDeclares := h.info_declares hs hInfo
  unfold CheckContext.Declares at hDeclares
  rw [hKind, hDeclaration] at hDeclares
  exact hDeclares

end TypeChecker.Accepts

/-! ## Signatures -/

theorem hrLowerParameterType_ok {p : AstParameter} {type : CheckedType}
    (h : hrLowerParameterType checker p = .ok type) :
    ∃ resolved, checker.resolver.getType p.type.addr = some resolved ∧
      type = hrCheckedTypeFromResolvedType resolved := by
  unfold hrLowerParameterType at h
  split at h
  · exact nomatch h
  · next resolved hResolved =>
      cases h
      exact ⟨resolved, hResolved, rfl⟩

/-- A lowered signature has a type for each parameter that is known. -/
theorem hrLowerCallableSignature_ok {info : TypeCheckInfo} {signature : HirCallableSignature}
    (h : hrLowerCallableSignature checker info = .ok signature) :
    (info.signatureParameters = none ∧ signature.parameterTypes = none) ∨
      ∃ parameters types, info.signatureParameters = some parameters ∧
        signature.parameterTypes = some types ∧
        List.Forall₂ (fun p type => p ∈ parameters ∧ hrLowerParameterType checker p = .ok type)
          parameters types := by
  unfold hrLowerCallableSignature at h
  unfold TypeCheckInfo.signatureParameters
  cases hCallable : info.isCallable with
  | false =>
    rw [hCallable] at h
    cases h
    exact .inl ⟨rfl, rfl⟩
  | true =>
    rw [hCallable] at h
    cases hParameters : info.parameters with
    | none =>
      rw [hParameters] at h
      cases h
      exact .inl ⟨rfl, rfl⟩
    | some parameters =>
      rw [hParameters] at h
      obtain ⟨types, hTypes, h⟩ := except_bind_eq_ok.1 h
      cases h
      exact .inr ⟨parameters, types, rfl, rfl, forall₂_of_mapM_eq_ok hTypes⟩

theorem TypeCheckInfo.signatureParameters_eq_some {info : TypeCheckInfo}
    {parameters : List AstParameter} (h : info.signatureParameters = some parameters) :
    info.parameters = some parameters := by
  unfold signatureParameters at h
  split at h
  · exact h
  · exact nomatch h

/-- A signature carries the types of parameters that are not of named types. -/
theorem hrLowerCallableSignature_typed (h : checker.Accepts program) (hKept : program.TypesKept)
    {info : TypeCheckInfo} (hInfo : info.Within program.parts)
    {signature : HirCallableSignature}
    (hLower : hrLowerCallableSignature checker info = .ok signature) :
    SignatureTyped checker info signature := by
  unfold SignatureTyped
  obtain ⟨hParameters, hTypes⟩ | ⟨parameters, types, hParameters, hTypes, hAll⟩ :=
    hrLowerCallableSignature_ok hLower
  · rw [hParameters, hTypes]
    exact .none
  · rw [hParameters, hTypes]
    obtain ⟨node, body, hLambda⟩ :=
      hInfo parameters (TypeCheckInfo.signatureParameters_eq_some hParameters)
    obtain ⟨hMem, hRest⟩ := List.cons_subset.1 hLambda
    refine .some (hAll.imp fun p type hStep addr recorded hRecorded => ?_)
    obtain ⟨hp, hLowered⟩ := hStep
    obtain ⟨resolved, hGet, rfl⟩ := hrLowerParameterType_ok hLowered
    obtain ⟨other, hOther, hEq⟩ := h.parameter_type hRecorded
    rw [hGet] at hOther
    cases hOther
    rw [hEq]
    refine (hrCheckedTypeFromResolvedType_eq_iff _).2 fun hNamed => ?_
    have hType : .type p.type ∈ program.parts :=
      hRest (List.mem_append_left _ (List.mem_map_of_mem hp))
    rw [h.within.getType_eq h.fits.addrs hType hGet, trResolvedType_kind_eq_named,
      hKept.lambdas hMem hp] at hNamed
    exact nomatch hNamed

/-! ## Symbols -/

theorem hrExpressionMeta_ok {node : AstNode} {info : TypeCheckInfo} {lowered : HirMeta}
    (hLower : hrExpressionMeta checker node = .ok (info, lowered)) :
    checker.getExpressionInfo node.addr = some info ∧ lowered.type = info.type ∧
      hrLowerCallableSignature checker info = .ok lowered.callableSignature := by
  unfold hrExpressionMeta at hLower
  split at hLower
  · exact nomatch hLower
  · next found hFound =>
      obtain ⟨signature, hSignature, hLower⟩ := except_bind_eq_ok.1 hLower
      cases hLower
      exact ⟨hFound, rfl, hSignature⟩

theorem hrExpressionMeta_typed (h : checker.Accepts program) (hKept : program.TypesKept)
    {e : AstExpression} (he : .expression e ∈ program.parts) {info : TypeCheckInfo}
    {lowered : HirMeta} (hLower : hrExpressionMeta checker e.node = .ok (info, lowered)) :
    MetaTyped checker e.node lowered := by
  obtain ⟨hInfo, hType, hSignature⟩ := hrExpressionMeta_ok hLower
  exact ⟨info, hInfo, hType,
    hrLowerCallableSignature_typed h hKept (h.sound.expressions he hInfo).within hSignature⟩

theorem hrLowerParameters_typed {kind : ScopeKind} {owner : Addr} {scope : Scope}
    {parameters : List AstParameter} (hFind : checker.symbols.findScope owner kind = some scope)
    (hScope : scope.IsParameterScope kind owner parameters) {lowered : List HirParameter}
    (hLower : hrLowerParameters checker scope parameters = .ok lowered) :
    ParametersTyped checker parameters lowered := by
  refine (forall₂_of_mapM_eq_ok hLower).imp fun p q hStep => ?_
  obtain ⟨hp, hq⟩ := hStep
  unfold hrLowerParameter at hq
  split at hq
  · exact nomatch hq
  · next symbol hSymbol =>
      split at hq
      · exact nomatch hq
      · next info hInfo =>
          cases hq
          obtain ⟨hKind, hDeclaration⟩ := hScope.declaration_eq hp hSymbol
          exact ⟨info, ⟨symbol, SymbolTable.knows_of_findScope hFind
            (List.mem_of_find?_eq_some hSymbol), rfl, hKind, hDeclaration, hInfo⟩, rfl⟩

theorem hrLowerLocal_typed (h : checker.Accepts program) (hKept : program.TypesKept)
    {scope : Scope} {binding : AstLocalBindingStatement} {symbol : Symbol}
    (hLookup : scopeLookupLocal scope binding.name = some symbol)
    (hKnows : checker.symbols.Knows [] symbol) (hKind : symbol.kind = .local)
    (hDeclaration : symbol.declaration = .localBinding binding) {lowered : HirLocal}
    (hLower : hrLowerLocal checker scope binding.name binding.nameSpan = .ok lowered) :
    LocalTyped checker binding lowered := by
  unfold hrLowerLocal at hLower
  rw [hLookup] at hLower
  dsimp only at hLower
  split at hLower
  · exact nomatch hLower
  · next info hInfo =>
      obtain ⟨signature, hSignature, hLower⟩ := except_bind_eq_ok.1 hLower
      cases hLower
      exact ⟨info, ⟨symbol, hKnows, rfl, hKind, hDeclaration, hInfo⟩, rfl,
        hrLowerCallableSignature_typed h hKept (h.info_within hKnows hInfo) hSignature⟩

end

end Calynda
