import Mathlib.Data.List.Nodup
import Calynda.Ast

/-!
# The nodes of a program

The nodes that carry an address, in the order of `AstProgram.addrs`. In a parsed program a node is
known by its address.
-/

namespace Calynda

/-- A node with an address. -/
inductive AstPart where
  | expression (expression : AstExpression)
  | type (type : AstType)
  | block (block : AstBlock)
  | start (decl : AstStartDecl)
  | boot (decl : AstBootDecl)
  | union (decl : AstUnionDecl)

def AstPart.addr : AstPart → Addr
  | .expression e => e.addr
  | .type t => t.addr
  | .block b => b.addr
  | .start decl => decl.addr
  | .boot decl => decl.addr
  | .union decl => decl.addr

def parametersParts (parameters : List AstParameter) : List AstPart :=
  parameters.map fun p => .type p.type

mutual
/-- The nodes of an expression, itself first. -/
def AstExpression.parts : AstExpression → List AstPart
  | .literal node lit => [.expression (.literal node lit)]
  | .template node parts => .expression (.template node parts) :: templateParts parts
  | .identifier node name => [.expression (.identifier node name)]
  | .lambda node parameters body =>
    .expression (.lambda node parameters body) ::
      (parametersParts parameters ++ AstLambdaBody.parts body)
  | .assignment node operator target value =>
    .expression (.assignment node operator target value) ::
      (AstExpression.parts target ++ AstExpression.parts value)
  | .ternary node c t e =>
    .expression (.ternary node c t e) ::
      (AstExpression.parts c ++ AstExpression.parts t ++ AstExpression.parts e)
  | .binary node operator l r =>
    .expression (.binary node operator l r) :: (AstExpression.parts l ++ AstExpression.parts r)
  | .unary node operator e => .expression (.unary node operator e) :: AstExpression.parts e
  | .call node callee arguments =>
    .expression (.call node callee arguments) ::
      (AstExpression.parts callee ++ expressionsParts arguments)
  | .index node t i =>
    .expression (.index node t i) :: (AstExpression.parts t ++ AstExpression.parts i)
  | .member node t member => .expression (.member node t member) :: AstExpression.parts t
  | .cast node targetType e => .expression (.cast node targetType e) :: AstExpression.parts e
  | .arrayLiteral node elements =>
    .expression (.arrayLiteral node elements) :: expressionsParts elements
  | .grouping node e => .expression (.grouping node e) :: AstExpression.parts e
  | .discard node => [.expression (.discard node)]
  | .postIncrement node e => .expression (.postIncrement node e) :: AstExpression.parts e
  | .postDecrement node e => .expression (.postDecrement node e) :: AstExpression.parts e

def expressionsParts : List AstExpression → List AstPart
  | [] => []
  | e :: es => AstExpression.parts e ++ expressionsParts es

def templateParts : List AstTemplatePart → List AstPart
  | [] => []
  | .text _ :: ps => templateParts ps
  | .expression e :: ps => AstExpression.parts e ++ templateParts ps

def AstLambdaBody.parts : AstLambdaBody → List AstPart
  | .block b => AstBlock.parts b
  | .expression e => AstExpression.parts e

def AstBlock.parts : AstBlock → List AstPart
  | .mk addr statements => .block (.mk addr statements) :: statementsParts statements

def AstStatement.parts : AstStatement → List AstPart
  | .localBinding _ _ _ _ declaredType _ _ initializer =>
    .type declaredType :: AstExpression.parts initializer
  | .returnValue _ e => AstExpression.parts e
  | .returnVoid _ => []
  | .exit _ => []
  | .throw _ e => AstExpression.parts e
  | .expression _ e => AstExpression.parts e
  | .manual _ _ body => AstBlock.parts body

def statementsParts : List AstStatement → List AstPart
  | [] => []
  | s :: ss => AstStatement.parts s ++ statementsParts ss
end

def AstTopLevelDecl.parts : AstTopLevelDecl → List AstPart
  | .start d => .start d :: (parametersParts d.parameters ++ d.body.parts)
  | .boot d => .boot d :: (parametersParts d.parameters ++ d.body.parts)
  | .binding d => .type d.declaredType :: d.initializer.parts
  | .union d => .union d :: d.variants.filterMap fun v => v.payloadType.map .type
  | .externC d => .type d.returnType :: parametersParts d.parameters

def AstProgram.parts (program : AstProgram) : List AstPart :=
  program.topLevelDecls.flatMap AstTopLevelDecl.parts

/-! ## Their addresses -/

@[simp] theorem map_addr_parametersParts (parameters : List AstParameter) :
    (parametersParts parameters).map AstPart.addr = parametersAddrs parameters := by
  unfold parametersParts parametersAddrs
  rw [List.map_map]
  rfl

mutual
theorem AstExpression.map_addr_parts : ∀ e : AstExpression, e.parts.map AstPart.addr = e.addrs
  | .literal _ _ => rfl
  | .template _ parts => congrArg _ (map_addr_templateParts parts)
  | .identifier _ _ => rfl
  | .lambda _ parameters body => by
    simp only [AstExpression.parts, AstExpression.addrs, List.map_cons, List.map_append,
      map_addr_parametersParts, AstLambdaBody.map_addr_parts body]
    rfl
  | .assignment _ _ target value => by
    simp only [AstExpression.parts, AstExpression.addrs, List.map_cons, List.map_append,
      AstExpression.map_addr_parts target, AstExpression.map_addr_parts value]
    rfl
  | .ternary _ c t e => by
    simp only [AstExpression.parts, AstExpression.addrs, List.map_cons, List.map_append,
      AstExpression.map_addr_parts c, AstExpression.map_addr_parts t,
      AstExpression.map_addr_parts e]
    rfl
  | .binary _ _ l r => by
    simp only [AstExpression.parts, AstExpression.addrs, List.map_cons, List.map_append,
      AstExpression.map_addr_parts l, AstExpression.map_addr_parts r]
    rfl
  | .unary _ _ e => congrArg _ (AstExpression.map_addr_parts e)
  | .call _ callee arguments => by
    simp only [AstExpression.parts, AstExpression.addrs, List.map_cons, List.map_append,
      AstExpression.map_addr_parts callee, map_addr_expressionsParts arguments]
    rfl
  | .index _ t i => by
    simp only [AstExpression.parts, AstExpression.addrs, List.map_cons, List.map_append,
      AstExpression.map_addr_parts t, AstExpression.map_addr_parts i]
    rfl
  | .member _ t _ => congrArg _ (AstExpression.map_addr_parts t)
  | .cast _ _ e => congrArg _ (AstExpression.map_addr_parts e)
  | .arrayLiteral _ elements => congrArg _ (map_addr_expressionsParts elements)
  | .grouping _ e => congrArg _ (AstExpression.map_addr_parts e)
  | .discard _ => rfl
  | .postIncrement _ e => congrArg _ (AstExpression.map_addr_parts e)
  | .postDecrement _ e => congrArg _ (AstExpression.map_addr_parts e)

theorem map_addr_expressionsParts : ∀ es : List AstExpression,
    (expressionsParts es).map AstPart.addr = expressionsAddrs es
  | [] => rfl
  | e :: es => by
    simp only [expressionsParts, expressionsAddrs, List.map_append,
      AstExpression.map_addr_parts e, map_addr_expressionsParts es]

theorem map_addr_templateParts : ∀ parts : List AstTemplatePart,
    (templateParts parts).map AstPart.addr = templateAddrs parts
  | [] => rfl
  | .text _ :: parts => map_addr_templateParts parts
  | .expression e :: parts => by
    simp only [templateParts, templateAddrs, List.map_append, AstExpression.map_addr_parts e,
      map_addr_templateParts parts]

theorem AstLambdaBody.map_addr_parts : ∀ body : AstLambdaBody,
    body.parts.map AstPart.addr = body.addrs
  | .block b => AstBlock.map_addr_parts b
  | .expression e => AstExpression.map_addr_parts e

theorem AstBlock.map_addr_parts : ∀ b : AstBlock, b.parts.map AstPart.addr = b.addrs
  | .mk _ statements => congrArg _ (map_addr_statementsParts statements)

theorem AstStatement.map_addr_parts : ∀ s : AstStatement, s.parts.map AstPart.addr = s.addrs
  | .localBinding _ _ _ _ _ _ _ initializer =>
    congrArg _ (AstExpression.map_addr_parts initializer)
  | .returnValue _ e => AstExpression.map_addr_parts e
  | .returnVoid _ => rfl
  | .exit _ => rfl
  | .throw _ e => AstExpression.map_addr_parts e
  | .expression _ e => AstExpression.map_addr_parts e
  | .manual _ _ body => AstBlock.map_addr_parts body

theorem map_addr_statementsParts : ∀ ss : List AstStatement,
    (statementsParts ss).map AstPart.addr = statementsAddrs ss
  | [] => rfl
  | s :: ss => by
    simp only [statementsParts, statementsAddrs, List.map_append,
      AstStatement.map_addr_parts s, map_addr_statementsParts ss]
end

theorem AstTopLevelDecl.map_addr_parts (decl : AstTopLevelDecl) :
    decl.parts.map AstPart.addr = decl.addrs := by
  cases decl with
  | start d | boot d =>
    simp only [parts, addrs, List.map_cons, List.map_append, map_addr_parametersParts,
      AstLambdaBody.map_addr_parts]
    rfl
  | binding d => exact congrArg _ (AstExpression.map_addr_parts d.initializer)
  | union d =>
    simp only [parts, addrs, List.map_cons, List.map_filterMap, Option.map_map]
    rfl
  | externC d => exact congrArg _ (map_addr_parametersParts d.parameters)

namespace AstProgram

theorem map_addr_parts (program : AstProgram) : program.parts.map AstPart.addr = program.addrs := by
  unfold parts addrs
  simp only [List.map_flatMap, AstTopLevelDecl.map_addr_parts]

/-- The nodes of a parsed program lie at different addresses. -/
theorem part_eq_of_addr {program : AstProgram} (h : program.addrs.Nodup) {a b : AstPart}
    (ha : a ∈ program.parts) (hb : b ∈ program.parts) (hAddr : a.addr = b.addr) : a = b := by
  rw [← map_addr_parts] at h
  exact List.inj_on_of_nodup_map h ha hb hAddr

theorem parts_subset {program : AstProgram} {decl : AstTopLevelDecl}
    (h : decl ∈ program.topLevelDecls) : decl.parts ⊆ program.parts :=
  fun _ hx => List.mem_flatMap.2 ⟨decl, h, hx⟩

end AstProgram

/-! ## Parts of parts -/

theorem AstExpression.self_mem_parts (e : AstExpression) : .expression e ∈ e.parts := by
  cases e <;> exact List.mem_cons_self

theorem AstBlock.self_mem_parts (b : AstBlock) : .block b ∈ b.parts := by
  cases b
  exact List.mem_cons_self

theorem AstStatement.parts_subset {ss : List AstStatement} {s : AstStatement} (h : s ∈ ss) :
    s.parts ⊆ statementsParts ss := by
  induction ss with
  | nil => exact nomatch h
  | cons first rest ih =>
    rcases List.mem_cons.1 h with rfl | h
    · exact List.subset_append_left _ _
    · exact List.Subset.trans (ih h) (List.subset_append_right _ _)

end Calynda
