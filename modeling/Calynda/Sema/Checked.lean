import Calynda.Sema.Scopes
import Calynda.Sema.TypeChecker
import Calynda.Sema.TypeEntries

/-!
# What the type checker records

The tables of the checker keep three facts through every call: the parameters of an info are those
of a lambda of the program, a lambda that has been checked has its own, and the resolved info of a
parameter or of a union has the type that its declaration gives it.
-/

namespace Calynda

open StateExcept

/-! ## Infos -/

/-- The parameters, if there are any, are those of a lambda whose nodes are among `P`. -/
def TypeCheckInfo.Within (P : List AstPart) (info : TypeCheckInfo) : Prop :=
  ∀ parameters, info.parameters = some parameters →
    ∃ node body, (AstExpression.lambda node parameters body).parts ⊆ P

theorem TypeCheckInfo.Within.of_none {P : List AstPart} {info : TypeCheckInfo}
    (h : info.parameters = none) : info.Within P := by
  intro parameters hSome
  rw [h] at hSome
  exact nomatch hSome

/-- An info for `e`: that of a lambda has the parameters of the lambda. -/
structure TypeCheckInfo.IsOf (P : List AstPart) (e : AstExpression) (info : TypeCheckInfo) :
    Prop where
  within : info.Within P
  lambda {node : AstNode} {parameters : List AstParameter} {body : AstLambdaBody}
    (h : e = .lambda node parameters body) :
    info.isCallable = true ∧ info.parameters = some parameters

/-- The type that the declaration of a parameter or a union gives its symbol. -/
def CheckContext.Declares (c : CheckContext) (symbol : Symbol) (type : CheckedType) : Prop :=
  match symbol.kind, symbol.declaration with
  | .parameter, .parameter p =>
    ∃ resolved, c.resolver.getType p.type.addr = some resolved ∧
      type = tcCheckedTypeFromResolvedType resolved
  | .union, _ => type = tcCheckedTypeNamed symbol.name symbol.genericParamCount 0
  | _, _ => True

/-- The tables of the checker during its run over `program`, when the symbols at `R` have been
resolved. -/
structure CheckContext.Sound (c : CheckContext) (program : AstProgram) (R : Addr → Prop)
    (t : TcTables) : Prop where
  expressions {e : AstExpression} (he : .expression e ∈ program.parts) {info : TypeCheckInfo}
    (h : t.expressionEntries e.addr = some info) : info.IsOf program.parts e
  symbols {symbol : Symbol} (hs : c.symbols.Knows [] symbol) {entry : TypeCheckSymbolEntry}
    (h : t.symbolEntries symbol.addr = some entry) : entry.info.Within program.parts
  resolved {symbol : Symbol} (hs : c.symbols.Knows [] symbol) {entry : TypeCheckSymbolEntry}
    (h : t.symbolEntries symbol.addr = some entry) (hResolved : entry.isResolved = true) :
    c.Declares symbol entry.info.type
  kept {addr : Addr} (h : R addr) :
    ∃ entry, t.symbolEntries addr = some entry ∧ entry.isResolved = true

/-- The context of a run over a parsed program. -/
structure CheckContext.Fits (c : CheckContext) (program : AstProgram) : Prop where
  addrs : program.addrs.Nodup
  complete : c.symbols.Complete program

/-- The functions that a level of calls may use. -/
structure TcCalls.Sound (c : CheckContext) (program : AstProgram) (R : Addr → Prop)
    (k : TcCalls) : Prop where
  checkExpression {e : AstExpression} (he : e.parts ⊆ program.parts) :
    Maintains (c.Sound program R) (k.checkExpression e) (TypeCheckInfo.IsOf program.parts e)
  checkLambda {e : AstExpression} (he : e.parts ⊆ program.parts)
    (expectedReturnType : Option CheckedType) (relatedSpan : Option AstSourceSpan) :
    Maintains (c.Sound program R) (k.checkLambda e expectedReturnType relatedSpan)
      (TypeCheckInfo.IsOf program.parts e)
  checkBlock {block : AstBlock} (hb : block.parts ⊆ program.parts) (context : BlockContext) :
    Maintains (c.Sound program R) (k.checkBlock block context) fun _ => True
  resolveSymbol {symbol : Symbol} (hs : c.symbols.Holds program.parts symbol) :
    Maintains (c.Sound program R) (k.resolveSymbol symbol) (TypeCheckInfo.Within program.parts)

section
variable {c : CheckContext} {program : AstProgram} {R : Addr → Prop} {k : TcCalls}

theorem TypeCheckInfo.IsOf.of_within {P : List AstPart} {e : AstExpression} {info : TypeCheckInfo}
    (h : info.Within P) (he : ∀ node parameters body, e ≠ .lambda node parameters body) :
    info.IsOf P e :=
  ⟨h, fun hEq => absurd hEq (he _ _ _)⟩

/-! ## The tables -/

theorem tcStoreExpressionInfo_maintains (h : c.Fits program) {e : AstExpression}
    (he : .expression e ∈ program.parts) {info : TypeCheckInfo}
    (hInfo : info.IsOf program.parts e) :
    Maintains (c.Sound program R) (tcStoreExpressionInfo e info)
      (TypeCheckInfo.IsOf program.parts e) := by
  unfold tcStoreExpressionInfo
  refine Maintains.bind (P := fun _ => True) (.write (fun t hSound => ?_) trivial) fun _ _ =>
    .ret hInfo
  refine ⟨fun {other} hOther {found} hFound => ?_, hSound.symbols, hSound.resolved, hSound.kept⟩
  dsimp only [setEntry] at hFound
  split at hFound
  · next hAddr =>
      cases hFound
      cases AstProgram.part_eq_of_addr h.addrs hOther he hAddr
      exact hInfo
  · exact hSound.expressions hOther hFound

theorem tcStoreSymbolEntry_maintains (h : c.Fits program) {symbol : Symbol}
    (hs : c.symbols.Knows [] symbol) {entry : TypeCheckSymbolEntry}
    (hWithin : entry.info.Within program.parts)
    (hDeclares : entry.isResolved = true → c.Declares symbol entry.info.type)
    (hKept : R symbol.addr → entry.isResolved = true) :
    Maintains (c.Sound program R) (tcStoreSymbolEntry symbol entry) fun _ => True := by
  unfold tcStoreSymbolEntry
  have hSame {other : Symbol} (hOther : c.symbols.Knows [] other)
      (hAddr : other.addr = symbol.addr) : other = symbol :=
    h.complete.distinct.eq_of_addr hOther hs hAddr
  refine .write (fun t hSound => ?_) trivial
  refine ⟨hSound.expressions, fun {other} hOther {found} hFound => ?_,
    fun {other} hOther {found} hFound hResolved => ?_, fun {addr} hAddr => ?_⟩
  · dsimp only [setEntry] at hFound
    split at hFound
    · cases hFound
      exact hWithin
    · exact hSound.symbols hOther hFound
  · dsimp only [setEntry] at hFound
    split at hFound
    · next hAddr =>
        cases hFound
        cases hSame hOther hAddr
        exact hDeclares hResolved
    · exact hSound.resolved hOther hFound hResolved
  · dsimp only [setEntry]
    split
    · next hEq => exact ⟨entry, rfl, hKept (hEq ▸ hAddr)⟩
    · exact hSound.kept hAddr

/-- A step that reads tables only. -/
theorem tcCheckedTypeFromAstType_maintains (type : AstType) :
    Maintains (c.Sound program R) (tcCheckedTypeFromAstType c type) fun checked =>
      ∃ resolved, c.resolver.getType type.addr = some resolved ∧
        checked = tcCheckedTypeFromResolvedType resolved := by
  unfold tcCheckedTypeFromAstType
  split
  · exact .error
  · next resolved hResolved => exact .ret ⟨resolved, hResolved, rfl⟩

theorem tcCheckBinaryOperator_maintains (span : AstSourceSpan) (operator : AstBinaryOperator)
    (leftType rightType : CheckedType) :
    Maintains (c.Sound program R) (tcCheckBinaryOperator span operator leftType rightType)
      fun _ => True := by
  unfold tcCheckBinaryOperator
  split
  · exact .ret trivial
  · exact .error

theorem tcValidateInternalAccess_maintains (node : AstNode) (symbol : Symbol) :
    Maintains (c.Sound program R) (tcValidateInternalAccess c node symbol) fun _ => True := by
  unfold tcValidateInternalAccess
  split
  · exact .ret trivial
  · split
    · exact .ret trivial
    · split
      · exact .ret trivial
      · exact .error

/-! ## Expressions -/

section
variable (h : c.Fits program) (hk : k.Sound c program R)
include hk

theorem checkExpression_within {e : AstExpression} (he : e.parts ⊆ program.parts) :
    Maintains (c.Sound program R) (k.checkExpression e) (TypeCheckInfo.Within program.parts) :=
  (hk.checkExpression he).imp fun _ hInfo => hInfo.within

include h in
theorem tcCheckIdentifier_maintains {node : AstNode} {name : String}
    (he : .expression (.identifier node name) ∈ program.parts) :
    Maintains (c.Sound program R) (tcCheckIdentifier c k node name)
      (TypeCheckInfo.Within program.parts) := by
  unfold tcCheckIdentifier
  split
  · exact .error
  · next symbol hSymbol =>
      exact Maintains.bind (tcValidateInternalAccess_maintains node symbol) fun _ _ =>
        hk.resolveSymbol (h.complete.part_held he symbol hSymbol)

theorem tcCheckTemplateParts_maintains {parts : List AstTemplatePart}
    (hP : templateParts parts ⊆ program.parts) :
    Maintains (c.Sound program R) (tcCheckTemplateParts k parts) fun _ => True := by
  induction parts with
  | nil => exact .ret trivial
  | cons part parts ih =>
    cases part with
    | text text => exact ih hP
    | expression e =>
      obtain ⟨he, hRest⟩ := List.append_subset.1 hP
      unfold tcCheckTemplateParts
      refine Maintains.bind (hk.checkExpression he) fun info _ => ?_
      split
      · exact .error
      · split
        · exact .error
        · exact ih hRest

theorem tcCheckAssignment_maintains (node : AstNode) (operator : AstAssignmentOperator)
    {target value : AstExpression} (hTarget : target.parts ⊆ program.parts)
    (hValue : value.parts ⊆ program.parts) :
    Maintains (c.Sound program R) (tcCheckAssignment c k node operator target value)
      (TypeCheckInfo.Within program.parts) := by
  unfold tcCheckAssignment
  refine Maintains.bind (hk.checkExpression hTarget) fun targetInfo _ => ?_
  refine Maintains.bind (checkExpression_within hk hValue) fun valueInfo hInfo => ?_
  refine .read fun t _ => ?_
  dsimp only
  split
  · exact .error
  · split
    · exact .error
    · split
      · exact .ret hInfo
      · split
        · refine Maintains.bind (P := fun _ => True) (.ret trivial) fun assignable _ => ?_
          split
          · exact .error
          · exact .ret hInfo
        · refine Maintains.bind (tcCheckBinaryOperator_maintains _ _ _ _) fun resultType _ => ?_
          refine Maintains.bind (P := fun _ => True) (.ret trivial) fun assignable _ => ?_
          split
          · exact .error
          · exact .ret hInfo

theorem tcCheckTernary_maintains {condition thenBranch elseBranch : AstExpression}
    (hCondition : condition.parts ⊆ program.parts) (hThen : thenBranch.parts ⊆ program.parts)
    (hElse : elseBranch.parts ⊆ program.parts) :
    Maintains (c.Sound program R) (tcCheckTernary k condition thenBranch elseBranch)
      (TypeCheckInfo.Within program.parts) := by
  unfold tcCheckTernary
  refine Maintains.bind (hk.checkExpression hCondition) fun conditionInfo _ => ?_
  dsimp only
  split
  · exact .error
  · refine Maintains.bind (hk.checkExpression hThen) fun thenInfo _ => ?_
    refine Maintains.bind (hk.checkExpression hElse) fun elseInfo _ => ?_
    split
    · exact .error
    · exact .ret (.of_none rfl)

theorem tcCheckBinary_maintains (node : AstNode) (operator : AstBinaryOperator)
    {left right : AstExpression} (hLeft : left.parts ⊆ program.parts)
    (hRight : right.parts ⊆ program.parts) :
    Maintains (c.Sound program R) (tcCheckBinary k node operator left right)
      (TypeCheckInfo.Within program.parts) := by
  unfold tcCheckBinary
  refine Maintains.bind (hk.checkExpression hLeft) fun leftInfo _ => ?_
  refine Maintains.bind (hk.checkExpression hRight) fun rightInfo _ => ?_
  exact Maintains.bind (tcCheckBinaryOperator_maintains _ _ _ _) fun _ _ =>
    .ret (.of_none rfl)

theorem tcCheckUnary_maintains (node : AstNode) (operator : AstUnaryOperator)
    {operand : AstExpression} (hOperand : operand.parts ⊆ program.parts) :
    Maintains (c.Sound program R) (tcCheckUnary k node operator operand)
      (TypeCheckInfo.Within program.parts) := by
  unfold tcCheckUnary
  refine Maintains.bind (hk.checkExpression hOperand) fun operandInfo _ => ?_
  dsimp only
  split <;> split <;> first | exact .ret (.of_none rfl) | exact .error

theorem tcCheckArguments_maintains (parameters : Option (List AstParameter)) (i : Nat)
    {arguments : List AstExpression} (hP : expressionsParts arguments ⊆ program.parts) :
    Maintains (c.Sound program R) (tcCheckArguments c k parameters i arguments) fun _ => True := by
  induction arguments generalizing i with
  | nil =>
    unfold tcCheckArguments
    exact .ret trivial
  | cons argument arguments ih =>
    obtain ⟨hArgument, hRest⟩ := List.append_subset.1 hP
    unfold tcCheckArguments
    refine Maintains.bind (hk.checkExpression hArgument) fun argumentInfo _ => ?_
    dsimp only
    split
    · split
      · exact ih _ hRest
      · refine Maintains.bind (tcCheckedTypeFromAstType_maintains _) fun parameterType _ => ?_
        split
        · exact .error
        · exact ih _ hRest
    · split
      · exact .error
      · exact ih _ hRest

omit hk in
theorem tcCheckArity_maintains (node : AstNode) (parameters : List AstParameter)
    (argumentCount : Nat) :
    Maintains (c.Sound program R) (tcCheckArity node parameters argumentCount) fun _ => True := by
  unfold tcCheckArity
  dsimp only
  split <;> split <;> first | exact .ret trivial | exact .error

theorem tcCheckCall_maintains (node : AstNode) {callee : AstExpression}
    {arguments : List AstExpression} (hCallee : callee.parts ⊆ program.parts)
    (hArguments : expressionsParts arguments ⊆ program.parts) :
    Maintains (c.Sound program R) (tcCheckCall c k node callee arguments)
      (TypeCheckInfo.Within program.parts) := by
  unfold tcCheckCall
  refine Maintains.bind (hk.checkExpression hCallee) fun calleeInfo _ => ?_
  split
  · exact .error
  · have hRest : Maintains (c.Sound program R) (do
        tcCheckArguments c k calleeInfo.parameters 0 arguments
        return tcTypeCheckInfoMake calleeInfo.callableReturnType)
        (TypeCheckInfo.Within program.parts) :=
      Maintains.bind (tcCheckArguments_maintains hk _ _ hArguments) fun _ _ =>
        .ret (.of_none rfl)
    split
    · exact Maintains.bind (tcCheckArity_maintains _ _ _) fun _ _ => hRest
    · exact hRest

theorem tcCheckIndex_maintains {target index : AstExpression}
    (hTarget : target.parts ⊆ program.parts) (hIndex : index.parts ⊆ program.parts) :
    Maintains (c.Sound program R) (tcCheckIndex k target index)
      (TypeCheckInfo.Within program.parts) := by
  unfold tcCheckIndex
  refine Maintains.bind (hk.checkExpression hTarget) fun targetInfo _ => ?_
  refine Maintains.bind (hk.checkExpression hIndex) fun indexInfo _ => ?_
  dsimp only
  split
  · exact .error
  · split
    · exact .ret (.of_none rfl)
    · split
      · exact .ret (.of_none rfl)
      · exact .error

theorem tcCheckMember_maintains (node : AstNode) {target : AstExpression} (member : String)
    (hTarget : target.parts ⊆ program.parts) :
    Maintains (c.Sound program R) (tcCheckMember c k node target member)
      (TypeCheckInfo.Within program.parts) := by
  unfold tcCheckMember
  refine Maintains.bind (hk.checkExpression hTarget) fun targetInfo _ => ?_
  dsimp only
  split
  · exact .ret (.of_none rfl)
  · split
    · split
      · split <;> exact .ret (.of_none rfl)
      · exact .error
    · exact .error

theorem tcCheckCast_maintains (node : AstNode) {expression : AstExpression}
    (hExpression : expression.parts ⊆ program.parts) :
    Maintains (c.Sound program R) (tcCheckCast c k node expression)
      (TypeCheckInfo.Within program.parts) := by
  unfold tcCheckCast
  refine Maintains.bind (hk.checkExpression hExpression) fun operandInfo _ => ?_
  refine Maintains.bind (P := fun _ => True) ?_ fun targetType _ => ?_
  · unfold tcCheckedTypeFromCastTarget
    split
    · exact .error
    · exact .ret trivial
  · split
    · exact .ret (.of_none rfl)
    · exact .error

theorem tcCheckElement_maintains {element : AstExpression}
    (hElement : element.parts ⊆ program.parts) :
    Maintains (c.Sound program R) (tcCheckElements.tcCheckElement k element) fun _ => True := by
  unfold tcCheckElements.tcCheckElement
  refine Maintains.bind (hk.checkExpression hElement) fun elementInfo _ => ?_
  dsimp only
  split
  · exact .error
  · split
    · exact .error
    · exact .ret trivial

theorem tcCheckElements_maintains (firstSpan : AstSourceSpan) (elementType : CheckedType)
    {elements : List AstExpression} (hP : expressionsParts elements ⊆ program.parts) :
    Maintains (c.Sound program R) (tcCheckElements k firstSpan elementType elements)
      fun _ => True := by
  induction elements generalizing elementType with
  | nil =>
    unfold tcCheckElements
    exact .ret trivial
  | cons element elements ih =>
    obtain ⟨hElement, hRest⟩ := List.append_subset.1 hP
    unfold tcCheckElements
    refine Maintains.bind (tcCheckElement_maintains hk hElement) fun candidateType _ => ?_
    split
    · exact .error
    · exact ih _ hRest

theorem tcCheckArrayLiteral_maintains (node : AstNode) {elements : List AstExpression}
    (hP : expressionsParts elements ⊆ program.parts) :
    Maintains (c.Sound program R) (tcCheckArrayLiteral k node elements)
      (TypeCheckInfo.Within program.parts) := by
  unfold tcCheckArrayLiteral
  split
  · exact .error
  · obtain ⟨hFirst, hRest⟩ := List.append_subset.1 hP
    refine Maintains.bind (tcCheckElement_maintains hk hFirst) fun firstType _ => ?_
    refine Maintains.bind (tcCheckElements_maintains hk _ _ hRest) fun elementType _ => ?_
    split
    · exact .error
    · exact .ret (.of_none rfl)

theorem tcCheckPostfix_maintains (node : AstNode) {operand : AstExpression}
    (hOperand : operand.parts ⊆ program.parts) :
    Maintains (c.Sound program R) (tcCheckPostfix k node operand)
      (TypeCheckInfo.Within program.parts) := by
  unfold tcCheckPostfix
  refine Maintains.bind (checkExpression_within hk hOperand) fun operandInfo hInfo => ?_
  dsimp only
  split
  · exact .error
  · exact .ret hInfo

/-- The info of an expression, before it is stored. -/
theorem tcExpressionInfo_maintains (h : c.Fits program) {e : AstExpression}
    (he : e.parts ⊆ program.parts) :
    Maintains (c.Sound program R) (tcExpressionInfo c k e) (TypeCheckInfo.IsOf program.parts e) := by
  cases e with
  | lambda node parameters body => exact hk.checkLambda he none none
  | identifier node name =>
    exact (tcCheckIdentifier_maintains h hk (he List.mem_cons_self)).imp fun _ hInfo =>
      .of_within hInfo nofun
  | literal node lit => exact .ret (.of_within (.of_none rfl) nofun)
  | discard node => exact .ret (.of_within (.of_none rfl) nofun)
  | template node parts =>
    exact Maintains.bind (tcCheckTemplateParts_maintains hk (List.cons_subset.1 he).2)
      fun _ _ => .ret (.of_within (.of_none rfl) nofun)
  | assignment node operator target value =>
    obtain ⟨hTarget, hValue⟩ := List.append_subset.1 (List.cons_subset.1 he).2
    exact (tcCheckAssignment_maintains hk node operator hTarget hValue).imp fun _ hInfo =>
      .of_within hInfo nofun
  | ternary node condition thenBranch elseBranch =>
    obtain ⟨hBoth, hElse⟩ := List.append_subset.1 (List.cons_subset.1 he).2
    obtain ⟨hCondition, hThen⟩ := List.append_subset.1 hBoth
    exact (tcCheckTernary_maintains hk hCondition hThen hElse).imp fun _ hInfo =>
      .of_within hInfo nofun
  | binary node operator left right =>
    obtain ⟨hLeft, hRight⟩ := List.append_subset.1 (List.cons_subset.1 he).2
    exact (tcCheckBinary_maintains hk node operator hLeft hRight).imp fun _ hInfo =>
      .of_within hInfo nofun
  | unary node operator operand =>
    exact (tcCheckUnary_maintains hk node operator (List.cons_subset.1 he).2).imp
      fun _ hInfo => .of_within hInfo nofun
  | call node callee arguments =>
    obtain ⟨hCallee, hArguments⟩ := List.append_subset.1 (List.cons_subset.1 he).2
    exact (tcCheckCall_maintains hk node hCallee hArguments).imp fun _ hInfo =>
      .of_within hInfo nofun
  | index node target index =>
    obtain ⟨hTarget, hIndex⟩ := List.append_subset.1 (List.cons_subset.1 he).2
    exact (tcCheckIndex_maintains hk hTarget hIndex).imp fun _ hInfo =>
      .of_within hInfo nofun
  | member node target member =>
    exact (tcCheckMember_maintains hk node member (List.cons_subset.1 he).2).imp
      fun _ hInfo => .of_within hInfo nofun
  | cast node targetType expression =>
    exact (tcCheckCast_maintains hk node (List.cons_subset.1 he).2).imp fun _ hInfo =>
      .of_within hInfo nofun
  | arrayLiteral node elements =>
    exact (tcCheckArrayLiteral_maintains hk node (List.cons_subset.1 he).2).imp
      fun _ hInfo => .of_within hInfo nofun
  | grouping node inner =>
    exact (checkExpression_within hk (List.cons_subset.1 he).2).imp fun _ hInfo =>
      .of_within hInfo nofun
  | postIncrement node operand =>
    exact (tcCheckPostfix_maintains hk node (List.cons_subset.1 he).2).imp fun _ hInfo =>
      .of_within hInfo nofun
  | postDecrement node operand =>
    exact (tcCheckPostfix_maintains hk node (List.cons_subset.1 he).2).imp fun _ hInfo =>
      .of_within hInfo nofun

theorem tcCheckExpression_maintains (h : c.Fits program) {e : AstExpression}
    (he : e.parts ⊆ program.parts) :
    Maintains (c.Sound program R) (tcCheckExpression c k e)
      (TypeCheckInfo.IsOf program.parts e) := by
  have hMem := he e.self_mem_parts
  unfold tcCheckExpression
  refine .read fun t hSound => ?_
  cases hCached : t.expressionEntries e.addr with
  | some cachedInfo => exact .ret (hSound.expressions hMem hCached)
  | none =>
    exact Maintains.bind (tcExpressionInfo_maintains hk h he) fun _ hInfo =>
      tcStoreExpressionInfo_maintains h hMem hInfo

/-! ## Lambdas -/

theorem tcCheckHeteroElements_maintains {elements : List AstExpression}
    (hP : expressionsParts elements ⊆ program.parts) :
    Maintains (c.Sound program R) (tcCheckHeteroElements k elements) fun _ => True := by
  induction elements with
  | nil => exact .ret trivial
  | cons element elements ih =>
    obtain ⟨hElement, hRest⟩ := List.append_subset.1 hP
    unfold tcCheckHeteroElements
    refine Maintains.bind (hk.checkExpression hElement) fun elementInfo _ => ?_
    dsimp only
    split
    · exact .error
    · split
      · exact .error
      · exact ih hRest

theorem tcCheckHeteroArrayLiteral_maintains (h : c.Fits program) {node : AstNode}
    {elements : List AstExpression} (he : (AstExpression.arrayLiteral node elements).parts ⊆
      program.parts) :
    Maintains (c.Sound program R)
      (tcCheckHeteroArrayLiteral k (.arrayLiteral node elements) elements)
      (TypeCheckInfo.Within program.parts) := by
  obtain ⟨hMem, hElements⟩ := List.cons_subset.1 he
  unfold tcCheckHeteroArrayLiteral
  split
  · exact .error
  · refine Maintains.bind (tcCheckHeteroElements_maintains hk hElements) fun _ _ => ?_
    exact (tcStoreExpressionInfo_maintains h hMem (.of_within (.of_none rfl) nofun)).imp
      fun _ hInfo => hInfo.within

/-- The parameters of a scope that holds them are resolved. -/
theorem tcResolveParametersInScope_maintains {scope : Scope}
    (hScope : ∀ symbol ∈ scope.symbols, c.symbols.Holds program.parts symbol)
    (parameters : List AstParameter) :
    Maintains (c.Sound program R) (tcResolveParametersInScope k scope parameters)
      fun _ => True := by
  induction parameters with
  | nil => exact .ret trivial
  | cons parameter parameters ih =>
    unfold tcResolveParametersInScope
    split
    · exact .error
    · next symbol hSymbol =>
        exact Maintains.bind (hk.resolveSymbol (hScope symbol (List.mem_of_find?_eq_some hSymbol)))
          fun _ _ => ih

theorem tcCheckLambdaBody_maintains (span : AstSourceSpan) {body : AstLambdaBody}
    (hBody : body.parts ⊆ program.parts) (expectedReturnType : Option CheckedType)
    (relatedSpan : Option AstSourceSpan) :
    Maintains (c.Sound program R) (tcCheckLambdaBody k span body expectedReturnType relatedSpan)
      fun _ => True := by
  unfold tcCheckLambdaBody
  cases body with
  | block block => exact Maintains.bind (hk.checkBlock hBody _) fun _ _ => .ret trivial
  | expression expression =>
    refine Maintains.bind (hk.checkExpression hBody) fun bodyInfo _ => ?_
    dsimp only
    split
    · exact .ret trivial
    · split
      · exact .ret trivial
      · exact .error

theorem tcCheckLambda_maintains (h : c.Fits program) {node : AstNode}
    {parameters : List AstParameter} {body : AstLambdaBody}
    (he : (AstExpression.lambda node parameters body).parts ⊆ program.parts)
    (expectedReturnType : Option CheckedType) (relatedSpan : Option AstSourceSpan) :
    Maintains (c.Sound program R)
      (tcCheckLambda c k node parameters body expectedReturnType relatedSpan)
      (TypeCheckInfo.IsOf program.parts (.lambda node parameters body)) := by
  obtain ⟨hMem, hParts⟩ := List.cons_subset.1 he
  obtain ⟨hParameters, hBody⟩ := List.append_subset.1 hParts
  obtain ⟨scope, hFind, hScope⟩ := h.complete.part_held hMem
  unfold tcCheckLambda
  rw [hFind]
  refine Maintains.bind (tcResolveParametersInScope_maintains hk
    (fun _ hs => hScope.holds hFind hParameters hs) parameters) fun _ _ => ?_
  refine Maintains.bind (tcCheckLambdaBody_maintains hk node.span hBody expectedReturnType
    relatedSpan) fun returnType _ => ?_
  refine tcStoreExpressionInfo_maintains h hMem ⟨?_, ?_⟩
  · intro ps hps
    cases hps
    exact ⟨node, body, he⟩
  · intro _ _ _ hEq
    cases hEq
    exact ⟨rfl, rfl⟩

theorem tcCheckLambdaExpression_maintains (h : c.Fits program) {e : AstExpression}
    (he : e.parts ⊆ program.parts) (expectedReturnType : Option CheckedType)
    (relatedSpan : Option AstSourceSpan) :
    Maintains (c.Sound program R) (tcCheckLambdaExpression c k e expectedReturnType relatedSpan)
      (TypeCheckInfo.IsOf program.parts e) := by
  unfold tcCheckLambdaExpression
  split
  · refine .read fun t hSound => ?_
    split
    · next hCached => exact .ret (hSound.expressions (he List.mem_cons_self) hCached)
    · exact tcCheckLambda_maintains hk h he _ _
  · exact .error

/-! ## Blocks -/

omit hk in
theorem mergeBlockReturn_maintains (acc : BlockReturn) (type : CheckedType) (span : AstSourceSpan)
    {onError : TcM BlockReturn} (hError : Maintains (c.Sound program R) onError fun _ => True) :
    Maintains (c.Sound program R) (mergeBlockReturn acc type span onError) fun _ => True := by
  unfold mergeBlockReturn
  split
  · exact .ret trivial
  · split
    · exact hError
    · exact .ret trivial

omit hk in
theorem mergeInconsistent_maintains (acc : BlockReturn) (type : CheckedType)
    (span : AstSourceSpan) (relatedSpan : Option AstSourceSpan) :
    Maintains (c.Sound program R)
      (mergeBlockReturn acc type span (inconsistentReturn acc type span relatedSpan))
      fun _ => True :=
  mergeBlockReturn_maintains acc type span .error

theorem tcCheckReturnValue_maintains (context : BlockContext) (acc : BlockReturn)
    {expression : AstExpression} (he : expression.parts ⊆ program.parts) :
    Maintains (c.Sound program R) (tcCheckReturnValue k context acc expression) fun _ => True := by
  unfold tcCheckReturnValue
  refine Maintains.bind (hk.checkExpression he) fun info _ => ?_
  have hMerge : Maintains (c.Sound program R) _ _ := mergeInconsistent_maintains acc
    (tcTypeCheckSourceType info) expression.span (some acc.firstReturnSpan)
  dsimp only
  split
  · split
    · exact Maintains.bind (P := fun _ => True) .error fun _ _ => hMerge
    · exact hMerge
  · exact hMerge

omit hk in
theorem tcCheckReturnVoid_maintains (context : BlockContext) (acc : BlockReturn)
    (span : AstSourceSpan) :
    Maintains (c.Sound program R) (tcCheckReturnVoid context acc span) fun _ => True := by
  unfold tcCheckReturnVoid
  have hMerge : Maintains (c.Sound program R) _ _ := mergeInconsistent_maintains acc
    tcCheckedTypeVoid span (some acc.firstReturnSpan)
  split
  · split
    · exact Maintains.bind (P := fun _ => True) .error fun _ _ => hMerge
    · exact hMerge
  · exact hMerge

omit hk in
theorem tcCheckExit_maintains (context : BlockContext) (acc : BlockReturn)
    (span : AstSourceSpan) :
    Maintains (c.Sound program R) (tcCheckExit context acc span) fun _ => True := by
  unfold tcCheckExit
  split
  · exact .error
  · exact mergeBlockReturn_maintains acc _ _ .error

theorem tcCheckManual_maintains (context : BlockContext) (acc : BlockReturn) {body : AstBlock}
    (hBody : body.parts ⊆ program.parts) :
    Maintains (c.Sound program R) (tcCheckManual k context acc body) fun _ => True := by
  unfold tcCheckManual
  refine Maintains.bind (hk.checkBlock hBody context) fun result _ => ?_
  obtain ⟨type, span⟩ := result
  dsimp only
  split
  · exact mergeBlockReturn_maintains acc _ _ .error
  · exact .ret trivial

theorem tcCheckStatement_maintains {blockScope : Scope}
    (hScope : ∀ symbol ∈ blockScope.symbols, c.symbols.Holds program.parts symbol)
    (context : BlockContext) (acc : BlockReturn) {s : AstStatement}
    (hs : s.parts ⊆ program.parts) :
    Maintains (c.Sound program R) (tcCheckStatement k blockScope context acc s)
      fun _ => True := by
  cases s with
  | localBinding =>
    simp only [tcCheckStatement]
    split
    · exact .error
    · next symbol hSymbol =>
        exact Maintains.bind (hk.resolveSymbol (hScope symbol (List.mem_of_find?_eq_some hSymbol)))
          fun _ _ => .ret trivial
  | returnValue _ e => exact tcCheckReturnValue_maintains hk context acc hs
  | returnVoid span => exact tcCheckReturnVoid_maintains context acc span
  | exit span => exact tcCheckExit_maintains context acc span
  | throw _ e => exact Maintains.bind (hk.checkExpression hs) fun _ _ => .ret trivial
  | expression _ e => exact Maintains.bind (hk.checkExpression hs) fun _ _ => .ret trivial
  | manual _ _ body => exact tcCheckManual_maintains hk context acc hs

theorem tcCheckStatements_maintains {blockScope : Scope}
    (hScope : ∀ symbol ∈ blockScope.symbols, c.symbols.Holds program.parts symbol)
    (context : BlockContext) (acc : BlockReturn) {ss : List AstStatement}
    (hP : statementsParts ss ⊆ program.parts) :
    Maintains (c.Sound program R) (tcCheckStatements k blockScope context acc ss)
      fun _ => True := by
  induction ss generalizing acc with
  | nil => exact .ret trivial
  | cons s ss ih =>
    obtain ⟨hFirst, hRest⟩ := List.append_subset.1 hP
    exact Maintains.bind (tcCheckStatement_maintains hk hScope context acc hFirst)
      fun acc _ => ih acc hRest

omit hk in
theorem tcCheckBlockResult_maintains (context : BlockContext) (acc : BlockReturn) :
    Maintains (c.Sound program R) (tcCheckBlockResult context acc) fun _ => True := by
  unfold tcCheckBlockResult
  split
  · exact .ret trivial
  · split
    · exact .ret trivial
    · exact .error

theorem tcCheckBlock_maintains (h : c.Fits program) {block : AstBlock}
    (hb : block.parts ⊆ program.parts) (context : BlockContext) :
    Maintains (c.Sound program R) (tcCheckBlock c k block context) fun _ => True := by
  obtain ⟨scope, hFind, hScope, -⟩ := h.complete.part_held (hb block.self_mem_parts)
  have hStatements : statementsParts block.statements ⊆ program.parts := by
    cases block
    exact (List.cons_subset.1 hb).2
  unfold tcCheckBlock
  rw [hFind]
  exact Maintains.bind (tcCheckStatements_maintains hk hScope context {} hStatements)
    fun acc _ => tcCheckBlockResult_maintains context acc

/-! ## Symbols -/

theorem tcCheckInferredBinding_maintains (symbol : Symbol) {initializer : AstExpression}
    (he : initializer.parts ⊆ program.parts) :
    Maintains (c.Sound program R) (tcCheckInferredBinding k symbol initializer)
      (TypeCheckInfo.Within program.parts) := by
  unfold tcCheckInferredBinding
  refine Maintains.bind (checkExpression_within hk he) fun info hInfo => ?_
  dsimp only
  split
  · exact .error
  · exact .ret hInfo

theorem tcCheckInitializer_maintains (h : c.Fits program) (symbol : Symbol)
    (targetType : CheckedType) {initializer : AstExpression}
    (he : initializer.parts ⊆ program.parts) :
    Maintains (c.Sound program R) (tcCheckInitializer k symbol targetType initializer)
      (TypeCheckInfo.Within program.parts) := by
  unfold tcCheckInitializer
  split
  · exact (hk.checkLambda he _ _).imp fun _ hInfo => hInfo.within
  · split
    · exact tcCheckHeteroArrayLiteral_maintains hk h he
    · exact checkExpression_within hk he
  · exact checkExpression_within hk he

theorem tcResolveBindingSymbol_maintains (h : c.Fits program) (symbol : Symbol)
    (declaredType : AstType) (isInferredType : Bool) {initializer : AstExpression}
    (he : initializer.parts ⊆ program.parts) :
    Maintains (c.Sound program R)
      (tcResolveBindingSymbol c k symbol declaredType isInferredType initializer)
      (TypeCheckInfo.Within program.parts) := by
  unfold tcResolveBindingSymbol
  split
  · exact tcCheckInferredBinding_maintains hk symbol he
  · refine Maintains.bind (tcCheckedTypeFromAstType_maintains _) fun targetType _ => ?_
    refine Maintains.bind (tcCheckInitializer_maintains hk h symbol targetType he)
      fun info hInfo => ?_
    dsimp only
    split
    · exact .error
    · split
      · exact .error
      · exact .ret hInfo

omit hk in
/-- A symbol of another kind is not spoken of. -/
theorem CheckContext.declares_of_ne {symbol : Symbol} (hParameter : symbol.kind ≠ .parameter)
    (hUnion : symbol.kind ≠ .union) (type : CheckedType) : c.Declares symbol type := by
  unfold CheckContext.Declares
  split
  · contradiction
  · contradiction
  · trivial

theorem tcSymbolInfo_maintains (h : c.Fits program) {symbol : Symbol}
    (hs : c.symbols.Holds program.parts symbol) :
    Maintains (c.Sound program R) (tcSymbolInfo c k symbol) fun info =>
      info.Within program.parts ∧ c.Declares symbol info.type := by
  have hWithin := hs.within
  have hOther (type : CheckedType) (hKind : symbol.kind ≠ .parameter ∧ symbol.kind ≠ .union) :
      c.Declares symbol type := CheckContext.declares_of_ne hKind.1 hKind.2 type
  unfold tcSymbolInfo
  split
  · next hKind => exact .ret ⟨.of_none rfl, hOther _ (by simp [hKind])⟩
  · next hKind => split <;> exact .ret ⟨.of_none rfl, hOther _ (by simp [hKind])⟩
  · next p hKind hDeclaration =>
      refine Maintains.bind (tcCheckedTypeFromAstType_maintains _) fun type hType => ?_
      split
      · exact .error
      · refine .ret ⟨.of_none rfl, ?_⟩
        unfold CheckContext.Declares
        rw [hKind, hDeclaration]
        exact hType
  · next decl hKind hDeclaration =>
      rw [hDeclaration] at hWithin
      exact (tcResolveBindingSymbol_maintains hk h symbol _ _ hWithin).imp fun _ hInfo =>
        ⟨hInfo, hOther _ (by simp [hKind])⟩
  · next decl hKind _ =>
      refine Maintains.bind (tcCheckedTypeFromAstType_maintains _) fun type _ => ?_
      exact .ret ⟨.of_none rfl, hOther _ (by simp [hKind])⟩
  · next binding hKind hDeclaration =>
      rw [hDeclaration] at hWithin
      exact (tcResolveBindingSymbol_maintains hk h symbol _ _ hWithin).imp fun _ hInfo =>
        ⟨hInfo, hOther _ (by simp [hKind])⟩
  · next hKind =>
      refine .ret ⟨.of_none rfl, ?_⟩
      unfold CheckContext.Declares
      rw [hKind]
      rfl
  · next hKind => exact .ret ⟨.of_none rfl, hOther _ (by simp [hKind])⟩
  · next hUnion _ hParameter _ _ _ =>
      refine .ret ⟨.of_none rfl, ?_⟩
      unfold CheckContext.Declares
      split
      · next p hKind hDeclaration => exact absurd hDeclaration (hParameter p hKind)
      · next hKind => exact absurd hKind hUnion
      · trivial

omit hk in
/-- A recursive reference gets the parameters of its own lambda. -/
theorem recursiveInitializer_within {P : List AstPart} {symbol : Symbol}
    (hs : symbol.declaration.Within P) {parameters : List AstParameter}
    (hSome : recursiveInitializer symbol = some parameters) :
    ∃ node body, (AstExpression.lambda node parameters body).parts ⊆ P := by
  have hLambda {e : AstExpression} (he : e.parts ⊆ P)
      (hEq : recursiveInitializer.lambdaParameters e = some parameters) :
      ∃ node body, (AstExpression.lambda node parameters body).parts ⊆ P := by
    cases e <;> cases hEq
    exact ⟨_, _, he⟩
  unfold recursiveInitializer at hSome
  split at hSome
  · next hDeclaration =>
      rw [hDeclaration] at hs
      exact hLambda hs hSome
  · next hDeclaration =>
      rw [hDeclaration] at hs
      exact hLambda hs hSome
  · exact nomatch hSome

theorem tcResolveSymbolInfo_maintains (h : c.Fits program) {symbol : Symbol}
    (hs : c.symbols.Holds program.parts symbol) :
    Maintains (c.Sound program R) (tcResolveSymbolInfo c k symbol)
      (TypeCheckInfo.Within program.parts) := by
  unfold tcResolveSymbolInfo tcEnsureSymbolEntry
  refine Maintains.bind (P := fun entry => entry.info.Within program.parts ∧
    (R symbol.addr → entry.isResolved = true)) ?_ fun entry hEntry => ?_
  · refine .read fun t hSound => .ret ?_
    cases hFound : t.symbolEntries symbol.addr with
    | none =>
      refine ⟨.of_none rfl, fun hR => ?_⟩
      obtain ⟨entry, hSome, -⟩ := hSound.kept hR
      rw [hFound] at hSome
      exact nomatch hSome
    | some entry =>
      refine ⟨hSound.symbols hs.knows hFound, fun hR => ?_⟩
      obtain ⟨other, hSome, hResolved⟩ := hSound.kept hR
      rw [hFound] at hSome
      cases hSome
      exact hResolved
  · obtain ⟨hEntry, hKept⟩ := hEntry
    split
    · exact .ret hEntry
    · next hResolved =>
        split
        · split
          · next parameters hSome =>
              have hInfo : (tcTypeCheckInfoMakeCallable tcCheckedTypeExternal
                  (some parameters)).Within program.parts := by
                intro ps hps
                cases hps
                exact recursiveInitializer_within hs.within hSome
              exact Maintains.bind (tcStoreSymbolEntry_maintains h hs.knows hInfo
                (fun hTrue => absurd hTrue hResolved) hKept) fun _ _ => .ret hInfo
          · exact .error
        · refine Maintains.bind (tcStoreSymbolEntry_maintains h hs.knows hEntry
            (fun hTrue => absurd hTrue hResolved) hKept) fun _ _ => ?_
          refine Maintains.bind (tcSymbolInfo_maintains hk h hs) fun info hInfo => ?_
          exact Maintains.bind (tcStoreSymbolEntry_maintains h hs.knows hInfo.1
            (fun _ => hInfo.2) fun _ => rfl) fun _ _ => .ret hInfo.1

theorem tcStep_sound (h : c.Fits program) : (tcStep c k).Sound c program R where
  checkExpression he := tcCheckExpression_maintains hk h he
  checkLambda he := tcCheckLambdaExpression_maintains hk h he
  checkBlock hb := tcCheckBlock_maintains hk h hb
  resolveSymbol hs := tcResolveSymbolInfo_maintains hk h hs

end

theorem tcCalls_sound (h : c.Fits program) (n : Nat) : (tcCalls c n).Sound c program R := by
  induction n with
  | zero => exact ⟨fun _ => .error, fun _ _ _ => .error, fun _ _ => .error, fun _ => .error⟩
  | succ n ih => exact tcStep_sound ih h

/-! ## Programs -/

section
variable (h : c.Fits program) (hk : k.Sound c program R)
include hk

omit hk in
theorem tcValidateEntryPoint_maintains (seen : EntryPoints) (decl : AstTopLevelDecl) :
    Maintains (c.Sound program R) (tcValidateEntryPoint seen decl) fun _ => True := by
  unfold tcValidateEntryPoint
  split
  · split <;> first | exact .ret trivial | exact .error
  · split <;> first | exact .ret trivial | exact .error
  · exact .ret trivial

omit hk in
theorem tcValidateEntryPoints_maintains (seen : EntryPoints) (decls : List AstTopLevelDecl) :
    Maintains (c.Sound program R) (decls.foldlM tcValidateEntryPoint seen) fun _ => True := by
  induction decls generalizing seen with
  | nil => exact .ret trivial
  | cons decl decls ih =>
    rw [List.foldlM_cons]
    exact Maintains.bind (tcValidateEntryPoint_maintains seen decl) fun seen _ => ih seen

omit hk in
theorem tcValidateProgramStartDecls_maintains (other : AstProgram) :
    Maintains (c.Sound program R) (tcValidateProgramStartDecls other) fun _ => True := by
  unfold tcValidateProgramStartDecls
  refine Maintains.bind (tcValidateEntryPoints_maintains _ _) fun seen _ => ?_
  split
  · exact .error
  · exact .ret trivial

omit hk in
theorem tcValidateBindingModifiers_maintains (decl : AstBindingDecl) :
    Maintains (c.Sound program R) (tcValidateBindingModifiers decl) fun _ => True := by
  unfold tcValidateBindingModifiers
  dsimp only
  split
  · exact .error
  · split
    · exact .error
    · exact .ret trivial

include h in
theorem tcCheckStartDecl_maintains {decl : AstStartDecl}
    (hP : (AstTopLevelDecl.start decl).parts ⊆ program.parts) :
    Maintains (c.Sound program R) (tcCheckStartDecl c k decl) fun _ => True := by
  obtain ⟨hMem, hParts⟩ := List.cons_subset.1 hP
  obtain ⟨hParameters, hBody⟩ := List.append_subset.1 hParts
  obtain ⟨scope, hFind, hScope⟩ := h.complete.part_held hMem
  unfold tcCheckStartDecl
  dsimp only
  rw [hFind]
  refine Maintains.bind (tcResolveParametersInScope_maintains hk
    (fun _ hs => hScope.holds hFind hParameters hs) decl.parameters) fun _ _ => ?_
  split
  · split
    · exact .error
    · cases hKind : decl.body with
      | block block =>
        rw [hKind] at hBody
        refine Maintains.bind (hk.checkBlock hBody _) fun result _ => ?_
        split
        · exact .error
        · exact .ret trivial
      | expression expression =>
        rw [hKind] at hBody
        refine Maintains.bind (hk.checkExpression hBody) fun info _ => ?_
        refine Maintains.bind (P := fun _ => True) (.ret trivial) fun result _ => ?_
        split
        · exact .error
        · exact .ret trivial
  · exact .error

include h in
theorem tcCheckBootDecl_maintains {decl : AstBootDecl}
    (hP : (AstTopLevelDecl.boot decl).parts ⊆ program.parts) :
    Maintains (c.Sound program R) (tcCheckBootDecl c k decl) fun _ => True := by
  obtain ⟨hMem, hParts⟩ := List.cons_subset.1 hP
  obtain ⟨hParameters, hBody⟩ := List.append_subset.1 hParts
  obtain ⟨scope, hFind, hScope⟩ := h.complete.part_held hMem
  unfold tcCheckBootDecl
  rw [hFind]
  refine Maintains.bind (tcResolveParametersInScope_maintains hk
    (fun _ hs => hScope.holds hFind hParameters hs) decl.parameters) fun _ _ => ?_
  cases hKind : decl.body with
  | block block =>
    rw [hKind] at hBody
    exact Maintains.bind (hk.checkBlock hBody _) fun _ _ => .ret trivial
  | expression expression =>
    rw [hKind] at hBody
    exact Maintains.bind (hk.checkExpression hBody) fun _ _ => .ret trivial

include h in
omit hk in
theorem tcCheckTopLevelName_maintains (name : String) (span : AstSourceSpan) (missing : String) :
    Maintains (c.Sound program R) (tcCheckTopLevelName c name span missing)
      (c.symbols.Holds program.parts) := by
  unfold tcCheckTopLevelName
  split
  · exact .error
  · next symbol hSymbol =>
      exact .ret (h.complete.toBuiltFrom.root_holds (List.mem_of_find?_eq_some hSymbol))

include h in
theorem tcCheckTopLevelDecl_maintains {decl : AstTopLevelDecl}
    (hP : decl.parts ⊆ program.parts) :
    Maintains (c.Sound program R) (tcCheckTopLevelDecl c k decl) fun _ => True := by
  cases decl with
  | binding decl =>
    refine Maintains.bind (tcCheckTopLevelName_maintains h _ _ _) fun symbol hs => ?_
    refine Maintains.bind (tcValidateBindingModifiers_maintains decl) fun _ _ => ?_
    exact Maintains.bind (hk.resolveSymbol hs) fun _ _ => .ret trivial
  | union decl =>
    refine Maintains.bind (tcCheckTopLevelName_maintains h _ _ _) fun symbol hs => ?_
    exact Maintains.bind (hk.resolveSymbol hs) fun _ _ => .ret trivial
  | externC decl =>
    refine Maintains.bind (tcCheckTopLevelName_maintains h _ _ _) fun symbol hs => ?_
    split
    · exact .error
    · exact Maintains.bind (hk.resolveSymbol hs) fun _ _ => .ret trivial
  | boot decl => exact tcCheckBootDecl_maintains h hk hP
  | start decl => exact tcCheckStartDecl_maintains h hk hP

end

/-- A call that resolves a symbol which is no binding leaves it resolved. -/
theorem tcResolveSymbolInfo_resolves {symbol : Symbol} (hNone : recursiveInitializer symbol = none)
    {t t' : TcTables} {info : TypeCheckInfo}
    (hRun : tcResolveSymbolInfo c k symbol t = .ok (info, t')) :
    ∃ entry, t'.symbolEntries symbol.addr = some entry ∧ entry.isResolved = true := by
  unfold tcResolveSymbolInfo at hRun
  rw [hNone] at hRun
  obtain ⟨entry, middle, hEntry, hRest⟩ := bind_eq_ok.1 hRun
  obtain ⟨rfl, rfl⟩ : middle = t ∧ entry = (t.symbolEntries symbol.addr).getD {} := by
    cases hEntry
    exact ⟨rfl, rfl⟩
  split at hRest
  · next hResolved =>
      cases hRest
      cases hFound : t'.symbolEntries symbol.addr with
      | none =>
        rw [hFound] at hResolved
        exact nomatch hResolved
      | some found =>
        rw [hFound] at hResolved
        exact ⟨found, rfl, hResolved⟩
  · split at hRest
    · exact nomatch hRest
    · obtain ⟨_, _, -, hRest⟩ := bind_eq_ok.1 hRest
      obtain ⟨resolvedInfo, last, -, hRest⟩ := bind_eq_ok.1 hRest
      obtain ⟨_, stored, hStore, hRest⟩ := bind_eq_ok.1 hRest
      cases hStore
      cases hRest
      exact ⟨_, if_pos rfl, rfl⟩

/-- Nothing is recorded when the run starts. -/
theorem CheckContext.sound_empty : c.Sound program (fun _ => False) {} where
  expressions _ _ h := nomatch h
  symbols _ _ h := nomatch h
  resolved _ _ h := nomatch h
  kept h := h.elim

theorem CheckContext.Sound.mono {t : TcTables} (h : c.Sound program (fun _ => False) t)
    (hR : ∀ addr, R addr → ∃ entry, t.symbolEntries addr = some entry ∧ entry.isResolved = true) :
    c.Sound program R t :=
  ⟨h.expressions, h.symbols, h.resolved, fun {addr} => hR addr⟩

/-- The tables that the run of `type_checker_check_program` over the declarations leaves. -/
theorem tcCheckDecls_sound (h : c.Fits program) {fuel : Nat} {t t' : TcTables}
    (hStart : c.Sound program (fun _ => False) t)
    (hRun : program.topLevelDecls.forM (tcCheckTopLevelDecl c (tcCalls c fuel)) t =
      .ok ((), t')) :
    c.Sound program (fun addr => ∃ decl symbol, .union decl ∈ program.topLevelDecls ∧
      scopeLookupLocal c.symbols.rootScope decl.name = some symbol ∧ symbol.kind = .union ∧
      symbol.addr = addr) t' := by
  have hKeep (R : Addr → Prop) : ∀ decl ∈ program.topLevelDecls,
      Maintains (c.Sound program R) (tcCheckTopLevelDecl c (tcCalls c fuel) decl) fun _ => True :=
    fun _ hDecl => tcCheckTopLevelDecl_maintains h (tcCalls_sound h fuel)
      (AstProgram.parts_subset hDecl)
  refine (Maintains.forM (hKeep fun _ => False) t () t' hStart hRun).1.mono ?_
  rintro _ ⟨decl, symbol, hDecl, hLookup, hKind, rfl⟩
  refine (Maintains.forM_reaches (I := c.Sound program (· = symbol.addr)) hDecl
    (hKeep fun _ => False) (fun s s' hSound hStep => ?_) (hKeep _) hStart hRun).kept rfl
  have hSound' := (hKeep (fun _ => False) _ hDecl s () s' hSound hStep).1
  refine hSound'.mono ?_
  rintro _ rfl
  simp only [tcCheckTopLevelDecl, tcCheckTopLevelName, hLookup, pure_bind] at hStep
  obtain ⟨info, last, hResolve, hLast⟩ := bind_eq_ok.1 hStep
  cases hLast
  cases fuel with
  | zero => exact nomatch hResolve
  | succ n =>
    refine tcResolveSymbolInfo_resolves ?_ hResolve
    unfold recursiveInitializer
    rw [hKind]

end

end Calynda
