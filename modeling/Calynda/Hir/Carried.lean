import Calynda.Hir.Types

/-!
# Lowering and the types of the checker

Lowering gives every node the types of the checker where no lambda has a parameter of a named type,
and loses the type of such a parameter in the signature of its lambda.
-/

namespace Calynda

open List StateExcept

section
variable {program : AstProgram} {checker : TypeChecker}

/-! ## The walk over the tree -/

/-- Opens a step of lowering. -/
theorem hrLowerExpression_meta (h : checker.Accepts program) (hKept : program.TypesKept)
    {e : AstExpression} (he : e.parts ⊆ program.parts)
    {f : TypeCheckInfo × HirMeta → HrM HirExpression} {lowered : HirExpression}
    (hLower : (hrExpressionMeta checker e.node >>= f) = .ok lowered) :
    ∃ info : TypeCheckInfo × HirMeta, MetaTyped checker e.node info.2 ∧
      info.2.type = info.1.type ∧ f info = .ok lowered := by
  obtain ⟨⟨info, lowered⟩, hMeta, hRest⟩ := except_bind_eq_ok.1 hLower
  exact ⟨(info, lowered), hrExpressionMeta_typed h hKept (he e.self_mem_parts) hMeta,
    (hrExpressionMeta_ok hMeta).2.1, hRest⟩

mutual
theorem hrLowerExpression_typed (h : checker.Accepts program) (hKept : program.TypesKept) :
    ∀ (e : AstExpression), e.parts ⊆ program.parts → ∀ {e' : HirExpression},
      hrLowerExpression checker e = .ok e' → ExpressionTyped checker e e'
  | .grouping _ inner, he, _, hLower => by
    unfold hrLowerExpression at hLower
    exact .grouping (hrLowerExpression_typed h hKept inner (cons_subset.1 he).2 hLower)
  | .literal node lit, he, _, hLower => by
    unfold hrLowerExpression at hLower
    obtain ⟨info, hMeta, -, hRest⟩ :=
      hrLowerExpression_meta (e := .literal node lit) h hKept he hLower
    cases hRest
    exact .literal hMeta
  | .template node parts, he, _, hLower => by
    unfold hrLowerExpression at hLower
    obtain ⟨info, hMeta, -, hRest⟩ :=
      hrLowerExpression_meta (e := .template node parts) h hKept he hLower
    obtain ⟨parts', hParts, hRest⟩ := except_bind_eq_ok.1 hRest
    cases hRest
    exact .template hMeta
      (hrLowerTemplateParts_typed h hKept parts (cons_subset.1 he).2 hParts)
  | .identifier node name, he, _, hLower => by
    unfold hrLowerExpression at hLower
    obtain ⟨⟨info, lowered⟩, hMeta, -, hRest⟩ :=
      hrLowerExpression_meta (e := .identifier node name) h hKept he hLower
    dsimp only at hRest
    unfold hrLowerIdentifier at hRest
    split at hRest
    · exact nomatch hRest
    · split at hRest
      · cases hRest
        exact .imported hMeta
      · cases hRest
        exact .identifier hMeta rfl
  | .lambda node parameters body, he, _, hLower => by
    obtain ⟨hParameters, hBody⟩ := append_subset.1 (cons_subset.1 he).2
    obtain ⟨found, hFind, hScope⟩ := h.fits.complete.part_held (he mem_cons_self)
    unfold hrLowerExpression at hLower
    obtain ⟨info, hMeta, -, hRest⟩ :=
      hrLowerExpression_meta (e := .lambda node parameters body) h hKept he hLower
    obtain ⟨scope, hLookup, hRest⟩ := except_bind_eq_ok.1 hRest
    unfold hrFindLambdaScope at hLookup
    rw [hFind] at hLookup
    cases hLookup
    obtain ⟨parameters', hParameters', hRest⟩ := except_bind_eq_ok.1 hRest
    obtain ⟨body', hBody', hRest⟩ := except_bind_eq_ok.1 hRest
    cases hRest
    exact .lambda hMeta (hrLowerParameters_typed hFind hScope hParameters')
      (hrLowerBodyToBlock_typed h hKept body hBody hBody')
  | .assignment node operator target value, he, _, hLower => by
    obtain ⟨hTarget, hValue⟩ := append_subset.1 (cons_subset.1 he).2
    unfold hrLowerExpression at hLower
    obtain ⟨info, hMeta, -, hRest⟩ :=
      hrLowerExpression_meta (e := .assignment node operator target value) h hKept he hLower
    obtain ⟨target', hTarget', hRest⟩ := except_bind_eq_ok.1 hRest
    obtain ⟨value', hValue', hRest⟩ := except_bind_eq_ok.1 hRest
    cases hRest
    exact .assignment hMeta (hrLowerExpression_typed h hKept target hTarget hTarget')
      (hrLowerExpression_typed h hKept value hValue hValue')
  | .ternary node condition thenBranch elseBranch, he, _, hLower => by
    obtain ⟨hBoth, hElse⟩ := append_subset.1 (cons_subset.1 he).2
    obtain ⟨hCondition, hThen⟩ := append_subset.1 hBoth
    unfold hrLowerExpression at hLower
    obtain ⟨info, hMeta, -, hRest⟩ :=
      hrLowerExpression_meta (e := .ternary node condition thenBranch elseBranch) h hKept he hLower
    obtain ⟨condition', hCondition', hRest⟩ := except_bind_eq_ok.1 hRest
    obtain ⟨then', hThen', hRest⟩ := except_bind_eq_ok.1 hRest
    obtain ⟨else', hElse', hRest⟩ := except_bind_eq_ok.1 hRest
    cases hRest
    exact .ternary hMeta (hrLowerExpression_typed h hKept condition hCondition hCondition')
      (hrLowerExpression_typed h hKept thenBranch hThen hThen')
      (hrLowerExpression_typed h hKept elseBranch hElse hElse')
  | .binary node operator left right, he, _, hLower => by
    obtain ⟨hLeft, hRight⟩ := append_subset.1 (cons_subset.1 he).2
    unfold hrLowerExpression at hLower
    obtain ⟨info, hMeta, -, hRest⟩ :=
      hrLowerExpression_meta (e := .binary node operator left right) h hKept he hLower
    obtain ⟨left', hLeft', hRest⟩ := except_bind_eq_ok.1 hRest
    obtain ⟨right', hRight', hRest⟩ := except_bind_eq_ok.1 hRest
    cases hRest
    exact .binary hMeta (hrLowerExpression_typed h hKept left hLeft hLeft')
      (hrLowerExpression_typed h hKept right hRight hRight')
  | .unary node operator operand, he, _, hLower => by
    unfold hrLowerExpression at hLower
    obtain ⟨info, hMeta, -, hRest⟩ :=
      hrLowerExpression_meta (e := .unary node operator operand) h hKept he hLower
    obtain ⟨operand', hOperand', hRest⟩ := except_bind_eq_ok.1 hRest
    cases hRest
    exact .unary hMeta
      (hrLowerExpression_typed h hKept operand (cons_subset.1 he).2 hOperand')
  | .call node callee arguments, he, _, hLower => by
    obtain ⟨hCallee, hArguments⟩ := append_subset.1 (cons_subset.1 he).2
    unfold hrLowerExpression at hLower
    obtain ⟨info, hMeta, -, hRest⟩ :=
      hrLowerExpression_meta (e := .call node callee arguments) h hKept he hLower
    obtain ⟨callee', hCallee', hRest⟩ := except_bind_eq_ok.1 hRest
    obtain ⟨arguments', hArguments', hRest⟩ := except_bind_eq_ok.1 hRest
    cases hRest
    exact .call hMeta (hrLowerExpression_typed h hKept callee hCallee hCallee')
      (hrLowerExpressions_typed h hKept arguments hArguments hArguments')
  | .index node target index, he, _, hLower => by
    obtain ⟨hTarget, hIndex⟩ := append_subset.1 (cons_subset.1 he).2
    unfold hrLowerExpression at hLower
    obtain ⟨info, hMeta, -, hRest⟩ :=
      hrLowerExpression_meta (e := .index node target index) h hKept he hLower
    obtain ⟨target', hTarget', hRest⟩ := except_bind_eq_ok.1 hRest
    obtain ⟨index', hIndex', hRest⟩ := except_bind_eq_ok.1 hRest
    cases hRest
    exact .index hMeta (hrLowerExpression_typed h hKept target hTarget hTarget')
      (hrLowerExpression_typed h hKept index hIndex hIndex')
  | .member node target member, he, _, hLower => by
    unfold hrLowerExpression at hLower
    obtain ⟨info, hMeta, -, hRest⟩ :=
      hrLowerExpression_meta (e := .member node target member) h hKept he hLower
    obtain ⟨target', hTarget', hRest⟩ := except_bind_eq_ok.1 hRest
    cases hRest
    exact .member hMeta
      (hrLowerExpression_typed h hKept target (cons_subset.1 he).2 hTarget')
  | .cast node targetType expression, he, _, hLower => by
    unfold hrLowerExpression at hLower
    obtain ⟨info, hMeta, hType, hRest⟩ :=
      hrLowerExpression_meta (e := .cast node targetType expression) h hKept he hLower
    obtain ⟨expression', hExpression', hRest⟩ := except_bind_eq_ok.1 hRest
    cases hRest
    exact .cast hMeta hType.symm
      (hrLowerExpression_typed h hKept expression (cons_subset.1 he).2 hExpression')
  | .arrayLiteral node elements, he, _, hLower => by
    unfold hrLowerExpression at hLower
    obtain ⟨info, hMeta, -, hRest⟩ :=
      hrLowerExpression_meta (e := .arrayLiteral node elements) h hKept he hLower
    obtain ⟨elements', hElements', hRest⟩ := except_bind_eq_ok.1 hRest
    cases hRest
    exact .arrayLiteral hMeta
      (hrLowerExpressions_typed h hKept elements (cons_subset.1 he).2 hElements')
  | .discard node, he, _, hLower => by
    unfold hrLowerExpression at hLower
    obtain ⟨info, hMeta, -, hRest⟩ :=
      hrLowerExpression_meta (e := .discard node) h hKept he hLower
    cases hRest
    exact .discard hMeta
  | .postIncrement node operand, he, _, hLower => by
    unfold hrLowerExpression at hLower
    obtain ⟨info, hMeta, -, hRest⟩ :=
      hrLowerExpression_meta (e := .postIncrement node operand) h hKept he hLower
    obtain ⟨operand', hOperand', hRest⟩ := except_bind_eq_ok.1 hRest
    cases hRest
    exact .postIncrement hMeta
      (hrLowerExpression_typed h hKept operand (cons_subset.1 he).2 hOperand')
  | .postDecrement node operand, he, _, hLower => by
    unfold hrLowerExpression at hLower
    obtain ⟨info, hMeta, -, hRest⟩ :=
      hrLowerExpression_meta (e := .postDecrement node operand) h hKept he hLower
    obtain ⟨operand', hOperand', hRest⟩ := except_bind_eq_ok.1 hRest
    cases hRest
    exact .postDecrement hMeta
      (hrLowerExpression_typed h hKept operand (cons_subset.1 he).2 hOperand')

theorem hrLowerExpressions_typed (h : checker.Accepts program) (hKept : program.TypesKept) :
    ∀ (es : List AstExpression), expressionsParts es ⊆ program.parts →
      ∀ {es' : List HirExpression}, hrLowerExpressions checker es = .ok es' →
        ExpressionsTyped checker es es'
  | [], _, _, hLower => by
    unfold hrLowerExpressions at hLower
    cases hLower
    exact .nil
  | e :: es, hP, _, hLower => by
    unfold hrLowerExpressions at hLower
    obtain ⟨e', he', hLower⟩ := except_bind_eq_ok.1 hLower
    obtain ⟨es', hes', hLower⟩ := except_bind_eq_ok.1 hLower
    cases hLower
    exact .cons (hrLowerExpression_typed h hKept e (append_subset.1 hP).1 he')
      (hrLowerExpressions_typed h hKept es (append_subset.1 hP).2 hes')

theorem hrLowerTemplateParts_typed (h : checker.Accepts program) (hKept : program.TypesKept) :
    ∀ (parts : List AstTemplatePart), templateParts parts ⊆ program.parts →
      ∀ {parts' : List HirTemplatePart}, hrLowerTemplateParts checker parts = .ok parts' →
        TemplateTyped checker parts parts'
  | [], _, _, hLower => by
    unfold hrLowerTemplateParts at hLower
    cases hLower
    exact .nil
  | .text text :: parts, hP, _, hLower => by
    unfold hrLowerTemplateParts at hLower
    obtain ⟨parts', hParts', hLower⟩ := except_bind_eq_ok.1 hLower
    cases hLower
    exact .text (hrLowerTemplateParts_typed h hKept parts hP hParts')
  | .expression e :: parts, hP, _, hLower => by
    unfold hrLowerTemplateParts at hLower
    obtain ⟨e', he', hLower⟩ := except_bind_eq_ok.1 hLower
    obtain ⟨parts', hParts', hLower⟩ := except_bind_eq_ok.1 hLower
    cases hLower
    exact .expression (hrLowerExpression_typed h hKept e (append_subset.1 hP).1 he')
      (hrLowerTemplateParts_typed h hKept parts (append_subset.1 hP).2 hParts')

theorem hrLowerBodyToBlock_typed (h : checker.Accepts program) (hKept : program.TypesKept) :
    ∀ (body : AstLambdaBody), body.parts ⊆ program.parts → ∀ {block : HirBlock},
      hrLowerBodyToBlock checker body = .ok block → BodyTyped checker body block
  | .block block, hP, _, hLower => by
    unfold hrLowerBodyToBlock at hLower
    exact .block (hrLowerBlock_typed h hKept block hP hLower)
  | .expression e, hP, _, hLower => by
    unfold hrLowerBodyToBlock at hLower
    obtain ⟨e', he', hLower⟩ := except_bind_eq_ok.1 hLower
    cases hLower
    exact .expression (hrLowerExpression_typed h hKept e hP he')

theorem hrLowerBlock_typed (h : checker.Accepts program) (hKept : program.TypesKept) :
    ∀ (block : AstBlock), block.parts ⊆ program.parts → ∀ {lowered : HirBlock},
      hrLowerBlock checker block = .ok lowered → BlockTyped checker block lowered
  | .mk addr statements, hP, _, hLower => by
    obtain ⟨found, hFind, hHolds, hLocals⟩ := h.fits.complete.part_held (hP mem_cons_self)
    unfold hrLowerBlock at hLower
    obtain ⟨scope, hLookup, hLower⟩ := except_bind_eq_ok.1 hLower
    unfold hrFindBlockScope at hLookup
    rw [show checker.symbols.findScope addr .block = some found from hFind] at hLookup
    cases hLookup
    obtain ⟨statements', hStatements', hLower⟩ := except_bind_eq_ok.1 hLower
    cases hLower
    refine .mk (hrLowerStatements_typed h hKept statements (cons_subset.1 hP).2
      (fun s hs binding hBinding => ?_) hStatements')
    obtain ⟨symbol, hSymbol, hDeclares⟩ := hLocals s hs binding hBinding
    exact ⟨symbol, hSymbol, (hHolds symbol (mem_of_find?_eq_some hSymbol)).knows, hDeclares⟩

theorem hrLowerStatements_typed (h : checker.Accepts program) (hKept : program.TypesKept) :
    ∀ (ss : List AstStatement), statementsParts ss ⊆ program.parts → ∀ {scope : Scope},
      (∀ s ∈ ss, ∀ binding, s.localBinding? = some binding → ∃ symbol,
        scopeLookupLocal scope binding.name = some symbol ∧ checker.symbols.Knows [] symbol ∧
          symbol.kind = .local ∧ symbol.declaration = .localBinding binding) →
      ∀ {ss' : List HirStatement}, hrLowerStatements checker scope ss = .ok ss' →
        StatementsTyped checker ss ss'
  | [], _, _, _, _, hLower => by
    unfold hrLowerStatements at hLower
    cases hLower
    exact .nil
  | s :: ss, hP, _, hLocals, _, hLower => by
    unfold hrLowerStatements at hLower
    obtain ⟨s', hs', hLower⟩ := except_bind_eq_ok.1 hLower
    obtain ⟨ss', hss', hLower⟩ := except_bind_eq_ok.1 hLower
    cases hLower
    exact .cons
      (hrLowerStatement_typed h hKept s (append_subset.1 hP).1
        (hLocals s mem_cons_self) hs')
      (hrLowerStatements_typed h hKept ss (append_subset.1 hP).2
        (fun t ht => hLocals t (mem_cons_of_mem s ht)) hss')

theorem hrLowerStatement_typed (h : checker.Accepts program) (hKept : program.TypesKept) :
    ∀ (s : AstStatement), s.parts ⊆ program.parts → ∀ {scope : Scope},
      (∀ binding, s.localBinding? = some binding → ∃ symbol,
        scopeLookupLocal scope binding.name = some symbol ∧ checker.symbols.Knows [] symbol ∧
          symbol.kind = .local ∧ symbol.declaration = .localBinding binding) →
      ∀ {s' : HirStatement}, hrLowerStatement checker scope s = .ok s' →
        StatementTyped checker s s'
  | .localBinding _ _ _ _ _ _ _ initializer, hP, _, hLocal, _, hLower => by
    unfold hrLowerStatement at hLower
    obtain ⟨lowered, hLowered, hLower⟩ := except_bind_eq_ok.1 hLower
    obtain ⟨e', he', hLower⟩ := except_bind_eq_ok.1 hLower
    cases hLower
    obtain ⟨symbol, hLookup, hKnows, hKind, hDeclaration⟩ := hLocal _ rfl
    exact .localBinding
      (hrLowerLocal_typed h hKept hLookup hKnows hKind hDeclaration hLowered)
      (hrLowerExpression_typed h hKept initializer (cons_subset.1 hP).2 he')
  | .returnValue _ e, hP, _, _, _, hLower => by
    unfold hrLowerStatement at hLower
    obtain ⟨e', he', hLower⟩ := except_bind_eq_ok.1 hLower
    cases hLower
    exact .returnValue (hrLowerExpression_typed h hKept e hP he')
  | .returnVoid _, _, _, _, _, hLower => by
    unfold hrLowerStatement at hLower
    cases hLower
    exact .returnVoid
  | .exit _, _, _, _, _, hLower => by
    unfold hrLowerStatement at hLower
    cases hLower
    exact .exit
  | .throw _ e, hP, _, _, _, hLower => by
    unfold hrLowerStatement at hLower
    obtain ⟨e', he', hLower⟩ := except_bind_eq_ok.1 hLower
    cases hLower
    exact .throw (hrLowerExpression_typed h hKept e hP he')
  | .expression _ e, hP, _, _, _, hLower => by
    unfold hrLowerStatement at hLower
    obtain ⟨e', he', hLower⟩ := except_bind_eq_ok.1 hLower
    cases hLower
    exact .expression (hrLowerExpression_typed h hKept e hP he')
  | .manual _ _ body, hP, _, _, _, hLower => by
    unfold hrLowerStatement at hLower
    obtain ⟨body', hBody', hLower⟩ := except_bind_eq_ok.1 hLower
    cases hLower
    exact .manual (hrLowerBlock_typed h hKept body hP hBody')
end

/-! ## What is lost -/

/-- A lambda with a parameter of a named type does not carry its type. -/
theorem not_metaTyped_lambda (h : checker.Accepts program) {node : AstNode}
    {parameters : List AstParameter} {body : AstLambdaBody}
    (he : (AstExpression.lambda node parameters body).parts ⊆ program.parts)
    {info : TypeCheckInfo} {lowered : HirMeta}
    (hLower : hrExpressionMeta checker node = .ok (info, lowered))
    (hMeta : MetaTyped checker node lowered) {lowerings : List HirParameter}
    (hParameters : ParametersTyped checker parameters lowerings) {p : AstParameter}
    (hp : p ∈ parameters) : p.type.isNamed = false := by
  obtain ⟨hMem, hRest⟩ := cons_subset.1 he
  obtain ⟨hInfo, -, hSignature⟩ := hrExpressionMeta_ok hLower
  obtain ⟨recorded, hRecorded, -, hTyped⟩ := hMeta
  rw [hInfo] at hRecorded
  cases hRecorded
  obtain ⟨hCallable, hKnown⟩ := (h.sound.expressions hMem hInfo).lambda rfl
  have hFull : info.signatureParameters = some parameters := by
    unfold TypeCheckInfo.signatureParameters
    rw [hCallable, hKnown]
    rfl
  unfold SignatureTyped at hTyped
  obtain ⟨hNone, -⟩ | ⟨others, types, hSome, hTypes, hAll⟩ := hrLowerCallableSignature_ok hSignature
  · rw [hFull] at hNone
    exact nomatch hNone
  · rw [hFull] at hSome
    cases hSome
    rw [hFull, hTypes] at hTyped
    cases hTyped with
    | some hTyped =>
      obtain ⟨q, -, parameterInfo, hRecorded, -⟩ := List.Forall₂.exists_of_mem_left hParameters hp
      obtain ⟨type, -, ⟨-, hType⟩, hEq⟩ :=
        (List.Forall₂.mp (fun _ _ => And.intro) hAll hTyped).exists_of_mem_left hp
      obtain ⟨resolved, hGet, hParameter⟩ := h.parameter_type hRecorded
      obtain ⟨other, hOther, rfl⟩ := hrLowerParameterType_ok hType
      rw [hGet] at hOther
      cases hOther
      have hAgree := hEq _ _ hRecorded
      rw [hParameter, hrCheckedTypeFromResolvedType_eq_iff] at hAgree
      have hMemType : .type p.type ∈ program.parts :=
        hRest (mem_append_left _ (mem_map_of_mem hp))
      rw [h.within.getType_eq h.fits.addrs hMemType hGet, Ne,
        trResolvedType_kind_eq_named] at hAgree
      exact Bool.eq_false_iff.2 hAgree

/-- A lambda has no parameter of a named type. -/
def AstPart.LambdaPlain : AstPart → Prop
  | .expression (.lambda _ parameters _) => ∀ p ∈ parameters, p.type.isNamed = false
  | _ => True

theorem lambdaPlain_parameters {parameters : List AstParameter} :
    ∀ x ∈ parametersParts parameters, x.LambdaPlain := by
  intro x hx
  obtain ⟨p, -, rfl⟩ := mem_map.1 hx
  trivial

mutual
theorem ExpressionTyped.lambdasPlain (h : checker.Accepts program) :
    ∀ (e : AstExpression), e.parts ⊆ program.parts → ∀ {e' : HirExpression},
      hrLowerExpression checker e = .ok e' → ExpressionTyped checker e e' →
        ∀ x ∈ e.parts, x.LambdaPlain
  | .grouping _ inner, he, _, hLower, hTyped => by
    unfold hrLowerExpression at hLower
    rintro x (_ | ⟨_, hx⟩)
    · trivial
    · cases hTyped with
      | grouping hTyped =>
        exact ExpressionTyped.lambdasPlain h inner (cons_subset.1 he).2 hLower hTyped x hx
  | .literal _ _, _, _, _, hTyped => by
    rintro x (_ | ⟨_, hx⟩)
    · trivial
    · exact nomatch hx
  | .template _ parts, he, _, hLower, hTyped => by
    unfold hrLowerExpression at hLower
    obtain ⟨_, -, hRest⟩ := except_bind_eq_ok.1 hLower
    obtain ⟨parts', hParts, hRest⟩ := except_bind_eq_ok.1 hRest
    cases hRest
    rintro x (_ | ⟨_, hx⟩)
    · trivial
    · cases hTyped with
      | template _ hTyped =>
        exact TemplateTyped.lambdasPlain h parts (cons_subset.1 he).2 hParts hTyped x hx
  | .identifier _ _, _, _, _, hTyped => by
    rintro x (_ | ⟨_, hx⟩)
    · trivial
    · exact nomatch hx
  | .lambda node parameters body, he, _, hLower, hTyped => by
    obtain ⟨-, hBody⟩ := append_subset.1 (cons_subset.1 he).2
    unfold hrLowerExpression at hLower
    obtain ⟨⟨info, lowered⟩, hMeta, hRest⟩ := except_bind_eq_ok.1 hLower
    obtain ⟨scope, -, hRest⟩ := except_bind_eq_ok.1 hRest
    obtain ⟨parameters', -, hRest⟩ := except_bind_eq_ok.1 hRest
    obtain ⟨body', hBody', hRest⟩ := except_bind_eq_ok.1 hRest
    cases hRest
    cases hTyped with
    | lambda hTyped hParameters hBodyTyped =>
      rintro x (_ | ⟨_, hx⟩)
      · exact fun p hp => not_metaTyped_lambda h he hMeta hTyped hParameters hp
      · rcases mem_append.1 hx with hx | hx
        · exact lambdaPlain_parameters x hx
        · exact BodyTyped.lambdasPlain h body hBody hBody' hBodyTyped x hx
  | .assignment _ _ target value, he, _, hLower, hTyped => by
    obtain ⟨hTarget, hValue⟩ := append_subset.1 (cons_subset.1 he).2
    unfold hrLowerExpression at hLower
    obtain ⟨_, -, hRest⟩ := except_bind_eq_ok.1 hLower
    obtain ⟨target', hTarget', hRest⟩ := except_bind_eq_ok.1 hRest
    obtain ⟨value', hValue', hRest⟩ := except_bind_eq_ok.1 hRest
    cases hRest
    rintro x (_ | ⟨_, hx⟩)
    · trivial
    · cases hTyped with
      | assignment _ hFirst hSecond =>
        rcases mem_append.1 hx with hx | hx
        · exact ExpressionTyped.lambdasPlain h target hTarget hTarget' hFirst x hx
        · exact ExpressionTyped.lambdasPlain h value hValue hValue' hSecond x hx
  | .ternary _ condition thenBranch elseBranch, he, _, hLower, hTyped => by
    obtain ⟨hBoth, hElse⟩ := append_subset.1 (cons_subset.1 he).2
    obtain ⟨hCondition, hThen⟩ := append_subset.1 hBoth
    unfold hrLowerExpression at hLower
    obtain ⟨_, -, hRest⟩ := except_bind_eq_ok.1 hLower
    obtain ⟨condition', hCondition', hRest⟩ := except_bind_eq_ok.1 hRest
    obtain ⟨then', hThen', hRest⟩ := except_bind_eq_ok.1 hRest
    obtain ⟨else', hElse', hRest⟩ := except_bind_eq_ok.1 hRest
    cases hRest
    rintro x (_ | ⟨_, hx⟩)
    · trivial
    · cases hTyped with
      | ternary _ hFirst hSecond hThird =>
        rcases mem_append.1 hx with hx | hx
        · rcases mem_append.1 hx with hx | hx
          · exact ExpressionTyped.lambdasPlain h condition hCondition hCondition' hFirst x hx
          · exact ExpressionTyped.lambdasPlain h thenBranch hThen hThen' hSecond x hx
        · exact ExpressionTyped.lambdasPlain h elseBranch hElse hElse' hThird x hx
  | .binary _ _ left right, he, _, hLower, hTyped => by
    obtain ⟨hLeft, hRight⟩ := append_subset.1 (cons_subset.1 he).2
    unfold hrLowerExpression at hLower
    obtain ⟨_, -, hRest⟩ := except_bind_eq_ok.1 hLower
    obtain ⟨left', hLeft', hRest⟩ := except_bind_eq_ok.1 hRest
    obtain ⟨right', hRight', hRest⟩ := except_bind_eq_ok.1 hRest
    cases hRest
    rintro x (_ | ⟨_, hx⟩)
    · trivial
    · cases hTyped with
      | binary _ hFirst hSecond =>
        rcases mem_append.1 hx with hx | hx
        · exact ExpressionTyped.lambdasPlain h left hLeft hLeft' hFirst x hx
        · exact ExpressionTyped.lambdasPlain h right hRight hRight' hSecond x hx
  | .unary _ _ operand, he, _, hLower, hTyped => by
    unfold hrLowerExpression at hLower
    obtain ⟨_, -, hRest⟩ := except_bind_eq_ok.1 hLower
    obtain ⟨operand', hOperand, hRest⟩ := except_bind_eq_ok.1 hRest
    cases hRest
    rintro x (_ | ⟨_, hx⟩)
    · trivial
    · cases hTyped with
      | unary _ hTyped =>
        exact ExpressionTyped.lambdasPlain h operand (cons_subset.1 he).2 hOperand hTyped x hx
  | .call _ callee arguments, he, _, hLower, hTyped => by
    obtain ⟨hCallee, hArguments⟩ := append_subset.1 (cons_subset.1 he).2
    unfold hrLowerExpression at hLower
    obtain ⟨_, -, hRest⟩ := except_bind_eq_ok.1 hLower
    obtain ⟨callee', hCallee', hRest⟩ := except_bind_eq_ok.1 hRest
    obtain ⟨arguments', hArguments', hRest⟩ := except_bind_eq_ok.1 hRest
    cases hRest
    rintro x (_ | ⟨_, hx⟩)
    · trivial
    · cases hTyped with
      | call _ hFirst hSecond =>
        rcases mem_append.1 hx with hx | hx
        · exact ExpressionTyped.lambdasPlain h callee hCallee hCallee' hFirst x hx
        · exact ExpressionsTyped.lambdasPlain h arguments hArguments hArguments' hSecond x hx
  | .index _ target index, he, _, hLower, hTyped => by
    obtain ⟨hTarget, hIndex⟩ := append_subset.1 (cons_subset.1 he).2
    unfold hrLowerExpression at hLower
    obtain ⟨_, -, hRest⟩ := except_bind_eq_ok.1 hLower
    obtain ⟨target', hTarget', hRest⟩ := except_bind_eq_ok.1 hRest
    obtain ⟨index', hIndex', hRest⟩ := except_bind_eq_ok.1 hRest
    cases hRest
    rintro x (_ | ⟨_, hx⟩)
    · trivial
    · cases hTyped with
      | index _ hFirst hSecond =>
        rcases mem_append.1 hx with hx | hx
        · exact ExpressionTyped.lambdasPlain h target hTarget hTarget' hFirst x hx
        · exact ExpressionTyped.lambdasPlain h index hIndex hIndex' hSecond x hx
  | .member _ target _, he, _, hLower, hTyped => by
    unfold hrLowerExpression at hLower
    obtain ⟨_, -, hRest⟩ := except_bind_eq_ok.1 hLower
    obtain ⟨target', hTarget, hRest⟩ := except_bind_eq_ok.1 hRest
    cases hRest
    rintro x (_ | ⟨_, hx⟩)
    · trivial
    · cases hTyped with
      | member _ hTyped =>
        exact ExpressionTyped.lambdasPlain h target (cons_subset.1 he).2 hTarget hTyped x hx
  | .cast _ _ expression, he, _, hLower, hTyped => by
    unfold hrLowerExpression at hLower
    obtain ⟨_, -, hRest⟩ := except_bind_eq_ok.1 hLower
    obtain ⟨expression', hExpression, hRest⟩ := except_bind_eq_ok.1 hRest
    cases hRest
    rintro x (_ | ⟨_, hx⟩)
    · trivial
    · cases hTyped with
      | cast _ _ hTyped =>
        exact ExpressionTyped.lambdasPlain h expression (cons_subset.1 he).2 hExpression hTyped x hx
  | .arrayLiteral _ elements, he, _, hLower, hTyped => by
    unfold hrLowerExpression at hLower
    obtain ⟨_, -, hRest⟩ := except_bind_eq_ok.1 hLower
    obtain ⟨elements', hElements, hRest⟩ := except_bind_eq_ok.1 hRest
    cases hRest
    rintro x (_ | ⟨_, hx⟩)
    · trivial
    · cases hTyped with
      | arrayLiteral _ hTyped =>
        exact ExpressionsTyped.lambdasPlain h elements (cons_subset.1 he).2 hElements hTyped x hx
  | .discard _, _, _, _, hTyped => by
    rintro x (_ | ⟨_, hx⟩)
    · trivial
    · exact nomatch hx
  | .postIncrement _ operand, he, _, hLower, hTyped => by
    unfold hrLowerExpression at hLower
    obtain ⟨_, -, hRest⟩ := except_bind_eq_ok.1 hLower
    obtain ⟨operand', hOperand, hRest⟩ := except_bind_eq_ok.1 hRest
    cases hRest
    rintro x (_ | ⟨_, hx⟩)
    · trivial
    · cases hTyped with
      | postIncrement _ hTyped =>
        exact ExpressionTyped.lambdasPlain h operand (cons_subset.1 he).2 hOperand hTyped x hx
  | .postDecrement _ operand, he, _, hLower, hTyped => by
    unfold hrLowerExpression at hLower
    obtain ⟨_, -, hRest⟩ := except_bind_eq_ok.1 hLower
    obtain ⟨operand', hOperand, hRest⟩ := except_bind_eq_ok.1 hRest
    cases hRest
    rintro x (_ | ⟨_, hx⟩)
    · trivial
    · cases hTyped with
      | postDecrement _ hTyped =>
        exact ExpressionTyped.lambdasPlain h operand (cons_subset.1 he).2 hOperand hTyped x hx

theorem ExpressionsTyped.lambdasPlain (h : checker.Accepts program) :
    ∀ (es : List AstExpression), expressionsParts es ⊆ program.parts →
      ∀ {es' : List HirExpression}, hrLowerExpressions checker es = .ok es' →
        ExpressionsTyped checker es es' → ∀ x ∈ expressionsParts es, x.LambdaPlain
  | [], _, _, _, _ => nofun
  | e :: es, hP, _, hLower, hTyped => by
    unfold hrLowerExpressions at hLower
    obtain ⟨e', he', hLower⟩ := except_bind_eq_ok.1 hLower
    obtain ⟨es', hes', hLower⟩ := except_bind_eq_ok.1 hLower
    cases hLower
    intro x hx
    cases hTyped with
    | cons hFirst hRest =>
      rcases mem_append.1 hx with hx | hx
      · exact ExpressionTyped.lambdasPlain h e (append_subset.1 hP).1 he' hFirst x hx
      · exact ExpressionsTyped.lambdasPlain h es (append_subset.1 hP).2 hes' hRest x hx

theorem TemplateTyped.lambdasPlain (h : checker.Accepts program) :
    ∀ (parts : List AstTemplatePart), templateParts parts ⊆ program.parts →
      ∀ {parts' : List HirTemplatePart}, hrLowerTemplateParts checker parts = .ok parts' →
        TemplateTyped checker parts parts' → ∀ x ∈ templateParts parts, x.LambdaPlain
  | [], _, _, _, _ => nofun
  | .text _ :: parts, hP, _, hLower, hTyped => by
    unfold hrLowerTemplateParts at hLower
    obtain ⟨parts', hParts', hLower⟩ := except_bind_eq_ok.1 hLower
    cases hLower
    intro x hx
    cases hTyped with
    | text hTyped => exact TemplateTyped.lambdasPlain h parts hP hParts' hTyped x hx
  | .expression e :: parts, hP, _, hLower, hTyped => by
    unfold hrLowerTemplateParts at hLower
    obtain ⟨e', he', hLower⟩ := except_bind_eq_ok.1 hLower
    obtain ⟨parts', hParts', hLower⟩ := except_bind_eq_ok.1 hLower
    cases hLower
    intro x hx
    cases hTyped with
    | expression hFirst hRest =>
      rcases mem_append.1 hx with hx | hx
      · exact ExpressionTyped.lambdasPlain h e (append_subset.1 hP).1 he' hFirst x hx
      · exact TemplateTyped.lambdasPlain h parts (append_subset.1 hP).2 hParts' hRest x hx

theorem BodyTyped.lambdasPlain (h : checker.Accepts program) :
    ∀ (body : AstLambdaBody), body.parts ⊆ program.parts → ∀ {block : HirBlock},
      hrLowerBodyToBlock checker body = .ok block → BodyTyped checker body block →
        ∀ x ∈ body.parts, x.LambdaPlain
  | .block block, hP, _, hLower, hTyped => by
    unfold hrLowerBodyToBlock at hLower
    cases hTyped with
    | block hTyped => exact BlockTyped.lambdasPlain h block hP hLower hTyped
  | .expression e, hP, _, hLower, hTyped => by
    unfold hrLowerBodyToBlock at hLower
    obtain ⟨e', he', hLower⟩ := except_bind_eq_ok.1 hLower
    cases hLower
    cases hTyped with
    | expression hTyped => exact ExpressionTyped.lambdasPlain h e hP he' hTyped

theorem BlockTyped.lambdasPlain (h : checker.Accepts program) :
    ∀ (block : AstBlock), block.parts ⊆ program.parts → ∀ {lowered : HirBlock},
      hrLowerBlock checker block = .ok lowered → BlockTyped checker block lowered →
        ∀ x ∈ block.parts, x.LambdaPlain
  | .mk addr statements, hP, _, hLower, hTyped => by
    unfold hrLowerBlock at hLower
    obtain ⟨scope, -, hLower⟩ := except_bind_eq_ok.1 hLower
    obtain ⟨statements', hStatements', hLower⟩ := except_bind_eq_ok.1 hLower
    cases hLower
    rintro x (_ | ⟨_, hx⟩)
    · trivial
    · cases hTyped with
      | mk hTyped =>
        exact StatementsTyped.lambdasPlain h statements (cons_subset.1 hP).2 hStatements'
          hTyped x hx

theorem StatementsTyped.lambdasPlain (h : checker.Accepts program) :
    ∀ (ss : List AstStatement), statementsParts ss ⊆ program.parts → ∀ {scope : Scope}
      {ss' : List HirStatement}, hrLowerStatements checker scope ss = .ok ss' →
        StatementsTyped checker ss ss' → ∀ x ∈ statementsParts ss, x.LambdaPlain
  | [], _, _, _, _, _ => nofun
  | s :: ss, hP, _, _, hLower, hTyped => by
    unfold hrLowerStatements at hLower
    obtain ⟨s', hs', hLower⟩ := except_bind_eq_ok.1 hLower
    obtain ⟨ss', hss', hLower⟩ := except_bind_eq_ok.1 hLower
    cases hLower
    intro x hx
    cases hTyped with
    | cons hFirst hRest =>
      rcases mem_append.1 hx with hx | hx
      · exact StatementTyped.lambdasPlain h s (append_subset.1 hP).1 hs' hFirst x hx
      · exact StatementsTyped.lambdasPlain h ss (append_subset.1 hP).2 hss' hRest x hx

theorem StatementTyped.lambdasPlain (h : checker.Accepts program) :
    ∀ (s : AstStatement), s.parts ⊆ program.parts → ∀ {scope : Scope} {s' : HirStatement},
      hrLowerStatement checker scope s = .ok s' → StatementTyped checker s s' →
        ∀ x ∈ s.parts, x.LambdaPlain
  | .localBinding _ _ _ _ _ _ _ initializer, hP, _, _, hLower, hTyped => by
    unfold hrLowerStatement at hLower
    obtain ⟨lowered, -, hLower⟩ := except_bind_eq_ok.1 hLower
    obtain ⟨e', he', hLower⟩ := except_bind_eq_ok.1 hLower
    cases hLower
    intro x hx
    rcases mem_cons.1 hx with rfl | hx
    · trivial
    · cases hTyped with
      | localBinding _ hTyped =>
        exact ExpressionTyped.lambdasPlain h initializer (cons_subset.1 hP).2 he' hTyped
          x hx
  | .returnValue _ e, hP, _, _, hLower, hTyped => by
    unfold hrLowerStatement at hLower
    obtain ⟨e', he', hLower⟩ := except_bind_eq_ok.1 hLower
    cases hLower
    cases hTyped with
    | returnValue hTyped => exact ExpressionTyped.lambdasPlain h e hP he' hTyped
  | .throw _ e, hP, _, _, hLower, hTyped => by
    unfold hrLowerStatement at hLower
    obtain ⟨e', he', hLower⟩ := except_bind_eq_ok.1 hLower
    cases hLower
    cases hTyped with
    | throw hTyped => exact ExpressionTyped.lambdasPlain h e hP he' hTyped
  | .expression _ e, hP, _, _, hLower, hTyped => by
    unfold hrLowerStatement at hLower
    obtain ⟨e', he', hLower⟩ := except_bind_eq_ok.1 hLower
    cases hLower
    cases hTyped with
    | expression hTyped => exact ExpressionTyped.lambdasPlain h e hP he' hTyped
  | .returnVoid _, _, _, _, _, _ => nofun
  | .exit _, _, _, _, _, _ => nofun
  | .manual _ _ body, hP, _, _, hLower, hTyped => by
    unfold hrLowerStatement at hLower
    obtain ⟨body', hBody', hLower⟩ := except_bind_eq_ok.1 hLower
    cases hLower
    cases hTyped with
    | manual hTyped => exact BlockTyped.lambdasPlain h body hP hBody' hTyped
end

/-! ## Declarations -/

theorem hrLowerBinding_ok (h : checker.Accepts program) {decl : AstBindingDecl}
    (hDecl : .binding decl ∈ program.topLevelDecls) {lowered : HirBindingDecl}
    (hLower : hrLowerBinding checker decl = .ok lowered) :
    ∃ info, checker.HasInfo lowered.symbol .topLevelBinding (.binding decl) info ∧
      lowered.type = info.type ∧ info.Within program.parts ∧
      hrLowerCallableSignature checker info = .ok lowered.callableSignature ∧
      hrLowerExpression checker decl.initializer = .ok lowered.initializer := by
  unfold hrLowerBinding at hLower
  split at hLower
  · exact nomatch hLower
  · next symbol hSymbol =>
      have hKnows : checker.symbols.Knows [] symbol := .root (mem_of_find?_eq_some hSymbol)
      have hDeclared := h.fits.complete.toBuiltFrom.lookup_root hDecl rfl hSymbol
      split at hLower
      · exact nomatch hLower
      · next info hInfo =>
          obtain ⟨signature, hSignature, hLower⟩ := except_bind_eq_ok.1 hLower
          obtain ⟨initializer, hInitializer, hLower⟩ := except_bind_eq_ok.1 hLower
          cases hLower
          refine ⟨info, ⟨symbol, hKnows, rfl, ?_, ?_, hInfo⟩, rfl, h.info_within hKnows hInfo,
            hSignature, hInitializer⟩
          · rw [← Option.some.inj hDeclared]
          · rw [← Option.some.inj hDeclared]

/-- A union of the program has its own type. -/
theorem TypeChecker.Accepts.union_info (h : checker.Accepts program) {decl : AstUnionDecl}
    (hDecl : .union decl ∈ program.topLevelDecls) :
    ∃ symbol info, scopeLookupLocal checker.symbols.rootScope decl.name = some symbol ∧
      checker.getSymbolInfo symbol = some info ∧
      info.type = tcCheckedTypeNamed (some decl.name) decl.genericParams.length 0 := by
  have hBuilt := h.fits.complete.toBuiltFrom
  obtain ⟨symbol, hLookup⟩ := hBuilt.exists_lookup_root hDecl rfl
  have hSymbol := Option.some.inj (hBuilt.lookup_root hDecl rfl hLookup)
  have hKind : symbol.kind = .union := by rw [← hSymbol]
  have hName : symbol.name = some decl.name := by rw [← hSymbol]
  have hCount : symbol.genericParamCount = decl.genericParams.length := by rw [← hSymbol]
  obtain ⟨entry, hEntry, hResolved⟩ := h.sound.kept ⟨decl, symbol, hDecl, hLookup, hKind, rfl⟩
  have hInfo : checker.getSymbolInfo symbol = some entry.info := by
    unfold getSymbolInfo
    rw [hEntry]
    exact if_pos hResolved
  have hDeclares := h.info_declares (.root (mem_of_find?_eq_some hLookup)) hInfo
  unfold CheckContext.Declares at hDeclares
  rw [hKind, hName, hCount] at hDeclares
  exact ⟨symbol, entry.info, hLookup, hInfo, hDeclares⟩

/-- A payload carries its type when it is the union itself. -/
theorem variantTyped_iff (h : checker.Accepts program) {decl : AstUnionDecl}
    (hDecl : .union decl ∈ program.topLevelDecls) {variant : AstUnionVariant}
    (hVariant : variant ∈ decl.variants) :
    VariantTyped checker variant (hrLowerVariant checker
      (scopeLookupLocal checker.symbols.rootScope decl.name) variant) ↔
      ∀ payload, variant.payloadType = some payload →
        tcCheckedTypeFromResolvedType (trResolvedType payload) =
          tcCheckedTypeNamed (some decl.name) decl.genericParams.length 0 := by
  obtain ⟨symbol, info, hLookup, hInfo, hType⟩ := h.union_info hDecl
  unfold VariantTyped
  refine forall₂_congr fun payload hPayload => ?_
  have hLowered : (hrLowerVariant checker (some symbol) variant).payloadType =
      tcCheckedTypeNamed (some decl.name) decl.genericParams.length 0 := by
    simp [hrLowerVariant, hPayload, hInfo, hType]
  rw [hLookup, hLowered, h.payload hDecl hVariant hPayload]
  constructor
  · rintro ⟨resolved, hResolved, hEq⟩
    cases hResolved
    exact hEq.symm
  · exact fun hEq => ⟨_, rfl, hEq.symm⟩

theorem hrLowerTopLevelDecl_typed (h : checker.Accepts program) (hKept : program.TypesKept)
    {decl : AstTopLevelDecl} (hDecl : decl ∈ program.topLevelDecls) {lowered : HirTopLevelDecl}
    (hLower : hrLowerTopLevelDecl checker decl = .ok lowered) :
    DeclTyped checker decl lowered := by
  have hParts := AstProgram.parts_subset hDecl
  cases decl with
  | union decl =>
    cases hLower
    refine .union (List.forall₂_map_right_iff.2 (List.forall₂_same.2 fun variant hVariant => ?_))
    exact (variantTyped_iff h hDecl hVariant).2 fun _ hPayload =>
      hKept.payloads hDecl hVariant hPayload
  | binding decl =>
    obtain ⟨binding, hBinding, hLower⟩ := except_bind_eq_ok.1 hLower
    cases hLower
    obtain ⟨info, hInfo, hType, hWithin, hSignature, hInitializer⟩ :=
      hrLowerBinding_ok h hDecl hBinding
    exact .binding hInfo hType (hrLowerCallableSignature_typed h hKept hWithin hSignature)
      (hrLowerExpression_typed h hKept decl.initializer (cons_subset.1 hParts).2
        hInitializer)
  | boot decl =>
    obtain ⟨boot, hBoot, hLower⟩ := except_bind_eq_ok.1 hLower
    cases hLower
    obtain ⟨scope, hFind, hScope⟩ := h.fits.complete.part_held (hParts mem_cons_self)
    have hBody := (append_subset.1 (cons_subset.1 hParts).2).2
    unfold hrLowerBoot at hBoot
    rw [hFind] at hBoot
    obtain ⟨parameters, hParameters, hBoot⟩ := except_bind_eq_ok.1 hBoot
    obtain ⟨body, hLowered, hBoot⟩ := except_bind_eq_ok.1 hBoot
    cases hBoot
    exact .boot (hrLowerParameters_typed hFind hScope hParameters)
      (hrLowerBodyToBlock_typed h hKept decl.body hBody hLowered)
  | externC decl =>
    cases hLower
    exact .externC
  | start decl =>
    obtain ⟨start, hStart, hLower⟩ := except_bind_eq_ok.1 hLower
    cases hLower
    obtain ⟨scope, hFind, hScope⟩ := h.fits.complete.part_held (hParts mem_cons_self)
    have hBody := (append_subset.1 (cons_subset.1 hParts).2).2
    unfold hrLowerStart at hStart
    rw [hFind] at hStart
    obtain ⟨parameters, hParameters, hStart⟩ := except_bind_eq_ok.1 hStart
    obtain ⟨body, hLowered, hStart⟩ := except_bind_eq_ok.1 hStart
    cases hStart
    exact .start (hrLowerParameters_typed hFind hScope hParameters)
      (hrLowerBodyToBlock_typed h hKept decl.body hBody hLowered)

/-- The lambdas of a declaration that carries its types. -/
theorem DeclTyped.lambdasPlain (h : checker.Accepts program) {decl : AstTopLevelDecl}
    (hDecl : decl ∈ program.topLevelDecls) {lowered : HirTopLevelDecl}
    (hLower : hrLowerTopLevelDecl checker decl = .ok lowered)
    (hTyped : DeclTyped checker decl lowered) : ∀ x ∈ decl.parts, x.LambdaPlain := by
  have hParts := AstProgram.parts_subset hDecl
  cases hTyped with
  | union =>
    intro x hx
    rcases mem_cons.1 hx with rfl | hx
    · trivial
    · obtain ⟨variant, -, hPayload⟩ := mem_filterMap.1 hx
      obtain ⟨payload, -, rfl⟩ := Option.map_eq_some_iff.1 hPayload
      trivial
  | externC =>
    intro x hx
    rcases mem_cons.1 hx with rfl | hx
    · trivial
    · exact lambdaPlain_parameters x hx
  | binding _ _ _ hTyped =>
    obtain ⟨binding, hBinding, hLower⟩ := except_bind_eq_ok.1 hLower
    cases hLower
    obtain ⟨_, -, -, -, -, hInitializer⟩ := hrLowerBinding_ok h hDecl hBinding
    intro x hx
    rcases mem_cons.1 hx with rfl | hx
    · trivial
    · exact ExpressionTyped.lambdasPlain h _ (cons_subset.1 hParts).2 hInitializer hTyped
        x hx
  | boot _ hTyped =>
    obtain ⟨boot, hBoot, hLower⟩ := except_bind_eq_ok.1 hLower
    cases hLower
    have hBody := (append_subset.1 (cons_subset.1 hParts).2).2
    unfold hrLowerBoot at hBoot
    split at hBoot
    · exact nomatch hBoot
    · obtain ⟨parameters, -, hBoot⟩ := except_bind_eq_ok.1 hBoot
      obtain ⟨body, hLowered, hBoot⟩ := except_bind_eq_ok.1 hBoot
      cases hBoot
      intro x hx
      rcases mem_cons.1 hx with rfl | hx
      · trivial
      · rcases mem_append.1 hx with hx | hx
        · exact lambdaPlain_parameters x hx
        · exact BodyTyped.lambdasPlain h _ hBody hLowered hTyped x hx
  | start _ hTyped =>
    obtain ⟨start, hStart, hLower⟩ := except_bind_eq_ok.1 hLower
    cases hLower
    have hBody := (append_subset.1 (cons_subset.1 hParts).2).2
    unfold hrLowerStart at hStart
    split at hStart
    · exact nomatch hStart
    · obtain ⟨parameters, -, hStart⟩ := except_bind_eq_ok.1 hStart
      obtain ⟨body, hLowered, hStart⟩ := except_bind_eq_ok.1 hStart
      cases hStart
      intro x hx
      rcases mem_cons.1 hx with rfl | hx
      · trivial
      · rcases mem_append.1 hx with hx | hx
        · exact lambdaPlain_parameters x hx
        · exact BodyTyped.lambdasPlain h _ hBody hLowered hTyped x hx

/-- The payloads of a union that carries its types. -/
theorem DeclTyped.payloads (h : checker.Accepts program) {decl : AstUnionDecl}
    (hDecl : .union decl ∈ program.topLevelDecls)
    (hTyped : DeclTyped checker (.union decl) (.union (hrLowerUnion checker decl)))
    {variant : AstUnionVariant} (hVariant : variant ∈ decl.variants) {payload : AstType}
    (hPayload : variant.payloadType = some payload) :
    tcCheckedTypeFromResolvedType (trResolvedType payload) =
      tcCheckedTypeNamed (some decl.name) decl.genericParams.length 0 := by
  cases hTyped with
  | union hAll =>
    have hSame := List.forall₂_same.1 (List.forall₂_map_right_iff.1 hAll)
    exact (variantTyped_iff h hDecl hVariant).1 (hSame variant hVariant) payload hPayload

theorem hirBuildProgram_decls {hir : HirProgram} (h : hirBuildProgram checker program = .ok hir) :
    List.Forall₂ (fun decl lowered => decl ∈ program.topLevelDecls ∧
      hrLowerTopLevelDecl checker decl = .ok lowered) program.topLevelDecls hir.topLevelDecls := by
  unfold hirBuildProgram at h
  obtain ⟨_, -, h⟩ := except_bind_eq_ok.1 h
  obtain ⟨_, -, h⟩ := except_bind_eq_ok.1 h
  obtain ⟨_, hDecls, h⟩ := except_bind_eq_ok.1 h
  cases h
  exact forall₂_of_mapM_eq_ok hDecls

end

/-- The lambdas of a program whose tree carries the types. -/
theorem HirProgram.Typed.lambdasPlain {program : AstProgram} {checker : TypeChecker}
    {hir : HirProgram} (hTyped : hir.Typed checker program) (h : Compiles program checker hir)
    (hAddrs : program.addrs.Nodup) : ∀ x ∈ program.parts, x.LambdaPlain := by
  intro x hx
  have hBoth := List.Forall₂.mp (fun _ _ => And.intro) (hirBuildProgram_decls h.steps.2.2) hTyped
  obtain ⟨decl, hDecl, hx⟩ := mem_flatMap.1 hx
  obtain ⟨lowered, -, ⟨-, hLower⟩, hDeclTyped⟩ := hBoth.exists_of_mem_left hDecl
  exact hDeclTyped.lambdasPlain (h.accepts hAddrs) hDecl hLower x hx

/-- The tree of an accepted program carries the types of the checker just if no lambda takes a
parameter of a named type and every payload is of the type of its own union. -/
theorem hirBuildProgram_typed_iff (program : ParsedProgram) {checker : TypeChecker}
    {hir : HirProgram} (h : Compiles program.toAstProgram checker hir) :
    hir.Typed checker program.toAstProgram ↔ program.TypesKept := by
  have hAccepts := h.accepts program.wellFormed.addrs
  have hDecls := hirBuildProgram_decls h.steps.2.2
  constructor
  · intro hTyped
    have hBoth := List.Forall₂.mp (fun _ _ => And.intro) hDecls hTyped
    refine ⟨fun {node parameters body} hMem {p} hp => ?_,
      fun {decl} hDecl {variant} hVariant {payload} hPayload => ?_⟩
    · exact hTyped.lambdasPlain h program.wellFormed.addrs _ hMem p hp
    · obtain ⟨lowered, -, ⟨-, hLower⟩, hDeclTyped⟩ := hBoth.exists_of_mem_left hDecl
      cases hLower
      exact hDeclTyped.payloads hAccepts hDecl hVariant hPayload
  · intro hKept
    exact hDecls.imp fun _ _ hStep => hrLowerTopLevelDecl_typed hAccepts hKept hStep.1 hStep.2

theorem exists_compiles (fuel : Nat) (program : AstProgram)
    (h : (calyndaCompileToHir fuel program).isOk = true) :
    ∃ checker hir, Compiles program checker hir := by
  cases hRun : calyndaCompileToHir fuel program with
  | ok result => exact ⟨result.1, result.2, fuel, hRun⟩
  | error e =>
    rw [hRun] at h
    exact nomatch h

/-- `union Box { Full(int32) }; Box same = (Box b) -> b; boot() -> { return; };`. -/
def boxed : ParsedProgram where
  packageName := none
  imports := []
  topLevelDecls :=
    [.union ⟨1, [], "Box", .zero, [], [⟨"Full", some (.mk 2 .primitive .int32 none [] [])⟩]⟩,
    .binding ⟨[], false, .mk 3 .named .int8 (some "Box") [] [], "same", .zero,
      .lambda ⟨4, .zero⟩ [⟨.mk 5 .named .int8 (some "Box") [] [], "b", .zero, false⟩]
        (.expression (.identifier ⟨6, .zero⟩ "b"))⟩,
    .boot ⟨7, [], .block (.mk 8 [.returnVoid .zero]), .zero⟩]
  wellFormed := ⟨by decide, by decide, nofun⟩

theorem not_typed_boxed :
    ∃ checker hir, Compiles boxed.toAstProgram checker hir ∧
      ¬ hir.Typed checker boxed.toAstProgram := by
  obtain ⟨checker, hir, h⟩ := exists_compiles 6 boxed.toAstProgram (by decide +kernel)
  refine ⟨checker, hir, h, fun hTyped => ?_⟩
  have hPlain := hTyped.lambdasPlain h boxed.wellFormed.addrs
  have hLambda := forall_mem_cons.1 (forall_mem_cons.1
    (forall_mem_cons.1 (forall_mem_cons.1 hPlain).2).2).2
  exact nomatch hLambda.1 _ mem_cons_self

/-- `int32 same = (int32 n) -> n; boot() -> { return; };`. -/
def unboxed : ParsedProgram where
  packageName := none
  imports := []
  topLevelDecls :=
    [.binding ⟨[], false, .mk 1 .primitive .int32 none [] [], "same", .zero,
      .lambda ⟨2, .zero⟩ [⟨.mk 3 .primitive .int32 none [] [], "n", .zero, false⟩]
        (.expression (.identifier ⟨4, .zero⟩ "n"))⟩,
    .boot ⟨5, [], .block (.mk 6 [.returnVoid .zero]), .zero⟩]
  wellFormed := ⟨by decide, by decide, nofun⟩

theorem hirBuildProgram_typed_iff_unboxed :
    ∃ checker hir, Compiles unboxed.toAstProgram checker hir ∧
      (hir.Typed checker unboxed.toAstProgram ↔ unboxed.TypesKept) := by
  obtain ⟨checker, hir, h⟩ := exists_compiles 6 unboxed.toAstProgram (by decide +kernel)
  exact ⟨checker, hir, h, hirBuildProgram_typed_iff unboxed h⟩

end Calynda
