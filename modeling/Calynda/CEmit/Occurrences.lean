import Calynda.CEmit.Emit

/-!
# The names that occur in emitted text

The occurrences of variables, of extern names and of closures in an emitted expression, and
where they come from: an emitted expression has the occurrences of its operands and, when it
is a symbol or a lambda itself, its own.
-/

namespace Calynda

/-! ## Occurrences in C text -/

mutual
/-- The variables, extern names and closures of an expression. -/
def CExpr.atoms : CExpr → List CExpr
  | .intLit _ | .floatLit _ | .boolLit _ | .charLit _ | .stringLit _ | .zero => []
  | .template parts => templateAtoms parts
  | .var name => [.var name]
  | .externName name => [.externName name]
  | .closureNew id lambda => [.closureNew id lambda]
  | .unregistered lambda => [.unregistered lambda]
  | .storeIndex target index value =>
    CExpr.atoms target ++ CExpr.atoms index ++ CExpr.atoms value
  | .loaded target index _ value =>
    CExpr.atoms target ++ CExpr.atoms index ++ CExpr.atoms value
  | .assign target _ value => CExpr.atoms target ++ CExpr.atoms value
  | .ternary condition thenBranch elseBranch =>
    CExpr.atoms condition ++ CExpr.atoms thenBranch ++ CExpr.atoms elseBranch
  | .floatArith _ _ left _ right => CExpr.atoms left ++ CExpr.atoms right
  | .floatCompare _ _ left _ right => CExpr.atoms left ++ CExpr.atoms right
  | .binary _ left right => CExpr.atoms left ++ CExpr.atoms right
  | .floatNegate operand => CExpr.atoms operand
  | .unary _ operand => CExpr.atoms operand
  | .externCall name arguments => .externName name :: expressionsAtoms arguments
  | .callCallable callee arguments => CExpr.atoms callee ++ expressionsAtoms arguments
  | .indexLoad target index => CExpr.atoms target ++ CExpr.atoms index
  | .memberLoad target _ => CExpr.atoms target
  | .castValue expression _ => CExpr.atoms expression
  | .arrayLiteral elements => expressionsAtoms elements
  | .postIncrement operand => CExpr.atoms operand
  | .postDecrement operand => CExpr.atoms operand

def expressionsAtoms : List CExpr → List CExpr
  | [] => []
  | e :: es => CExpr.atoms e ++ expressionsAtoms es

def templateAtoms : List CTemplatePart → List CExpr
  | [] => []
  | .text _ :: parts => templateAtoms parts
  | .value e :: parts => CExpr.atoms e ++ templateAtoms parts
end

mutual
def CStmt.atoms : CStmt → List CExpr
  | .line _ _ => []
  | .declare _ initializer => initializer.atoms
  | .returnWord expression => expression.atoms
  | .returnVoid => []
  | .exit => []
  | .throw expression => expression.atoms
  | .expression expression => expression.atoms
  | .block statements => stmtsAtoms statements

def stmtsAtoms : List CStmt → List CExpr
  | [] => []
  | s :: ss => CStmt.atoms s ++ stmtsAtoms ss
end

def CLambdaBody.atoms : CLambdaBody → List CExpr
  | .plain statements => stmtsAtoms statements
  | .tailLoop statements reassignments =>
    stmtsAtoms statements ++ reassignments.flatMap fun a => a.value.atoms

def CEntry.atoms : CEntry → List CExpr
  | .start _ body => stmtsAtoms body
  | .boot body => stmtsAtoms body

/-- The occurrences in the whole file. -/
def CUnit.atoms (u : CUnit) : List CExpr :=
  (u.functions.flatMap fun f => f.body.atoms) ++
    (u.initGlobals.flatMap fun a => a.value.atoms) ++ u.entry.atoms

@[simp] theorem stmtsAtoms_append (ss ts : List CStmt) :
    stmtsAtoms (ss ++ ts) = stmtsAtoms ss ++ stmtsAtoms ts := by
  induction ss with
  | nil => rfl
  | cons s ss ih => simp only [List.cons_append, stmtsAtoms, ih, List.append_assoc]

/-! ## Occurrences in emitted text -/

variable (ctx : CEmitContext)

@[simp] theorem stmtsAtoms_emitLineDirective (span : AstSourceSpan) :
    stmtsAtoms (emitLineDirective ctx span) = [] := by
  unfold emitLineDirective
  split
  · rfl
  · split <;> rfl

theorem mem_expressionsAtoms_cEmitExprs {x : CExpr} (es : List HirExpression) :
    x ∈ expressionsAtoms (cEmitExprs ctx es) ↔ ∃ e ∈ es, x ∈ (cEmitExpr ctx e).atoms := by
  induction es with
  | nil => simp [cEmitExprs, expressionsAtoms]
  | cons e es ih => simp [cEmitExprs, expressionsAtoms, ih]

theorem mem_templateAtoms_cEmitTemplateParts {x : CExpr} (parts : List HirTemplatePart) :
    x ∈ templateAtoms (cEmitTemplateParts ctx parts) ↔
      ∃ e ∈ templateExpressions parts, x ∈ (cEmitExpr ctx e).atoms := by
  induction parts with
  | nil => simp [cEmitTemplateParts, templateAtoms, templateExpressions]
  | cons part parts ih =>
    cases part with
    | text text => simp [cEmitTemplateParts, templateAtoms, templateExpressions, ih]
    | expression e => simp [cEmitTemplateParts, templateAtoms, templateExpressions, ih]

theorem mem_atoms_cEmitBinary {x : CExpr} (operator : AstBinaryOperator)
    (leftType rightType : CheckedType) (left right : CExpr) :
    x ∈ (cEmitBinary operator leftType rightType left right).atoms ↔
      x ∈ left.atoms ∨ x ∈ right.atoms := by
  unfold cEmitBinary
  dsimp only
  split
  · simp [CExpr.atoms]
  · split <;> simp [CExpr.atoms]

theorem mem_atoms_cEmitUnary {x : CExpr} (operator : AstUnaryOperator) (type : CheckedType)
    (operand : CExpr) :
    x ∈ (cEmitUnary operator type operand).atoms ↔ x ∈ operand.atoms := by
  unfold cEmitUnary
  split <;> simp [CExpr.atoms]

theorem mem_atoms_cEmitStoredValue {x : CExpr} (operator : AstAssignmentOperator)
    (target index value : CExpr) :
    x ∈ target.atoms ∨ x ∈ index.atoms ∨
        x ∈ (cEmitStoredValue operator target index value).atoms ↔
      (x ∈ target.atoms ∨ x ∈ index.atoms) ∨ x ∈ value.atoms := by
  cases operator <;> simp [cEmitStoredValue, CExpr.atoms] <;> tauto

/-- The atom that a symbol or a lambda is emitted as. -/
def HirExpression.atom? : HirExpression → Option CExpr
  | .symbol _ ref => some (cEmitSymbol ref)
  | .lambda _ addr _ _ => some (cEmitLambda ctx addr)
  | _ => none

theorem atoms_cEmitSymbol (ref : HirSymbolRef) :
    (cEmitSymbol ref).atoms = [cEmitSymbol ref] := by
  unfold cEmitSymbol
  split <;> rfl

theorem atoms_cEmitLambda (addr : Addr) :
    (cEmitLambda ctx addr).atoms = [cEmitLambda ctx addr] := by
  unfold cEmitLambda
  split <;> rfl

/-- The occurrences of an emitted expression are its own and those of its operands. -/
theorem mem_atoms_cEmitExpr {x : CExpr} (e : HirExpression) :
    x ∈ (cEmitExpr ctx e).atoms ↔
      e.atom? ctx = some x ∨ ∃ o ∈ e.operands, x ∈ (cEmitExpr ctx o).atoms := by
  cases e with
  | literal info lit =>
    cases lit <;> simp [cEmitExpr, cEmitLiteral, CExpr.atoms, HirExpression.atom?,
      HirExpression.operands]
  | template info parts =>
    simp [cEmitExpr, CExpr.atoms, HirExpression.atom?, HirExpression.operands,
      mem_templateAtoms_cEmitTemplateParts]
  | symbol info ref =>
    simp [cEmitExpr, HirExpression.atom?, HirExpression.operands, atoms_cEmitSymbol, eq_comm]
  | lambda info addr parameters body =>
    simp [cEmitExpr, HirExpression.atom?, HirExpression.operands, atoms_cEmitLambda, eq_comm]
  | assignment info operator target value =>
    cases target with
    | index targetInfo array i =>
      simp [cEmitExpr, CExpr.atoms, HirExpression.atom?, HirExpression.operands,
        mem_atoms_cEmitStoredValue]
    | _ =>
      simp [cEmitExpr, CExpr.atoms, HirExpression.atom?, HirExpression.operands, or_assoc]
  | ternary info condition thenBranch elseBranch =>
    simp [cEmitExpr, CExpr.atoms, HirExpression.atom?, HirExpression.operands]
  | binary info operator left right =>
    simp [cEmitExpr, HirExpression.atom?, HirExpression.operands, mem_atoms_cEmitBinary]
  | unary info operator operand =>
    simp [cEmitExpr, HirExpression.atom?, HirExpression.operands, mem_atoms_cEmitUnary]
  | call info callee arguments =>
    cases callee with
    | symbol calleeInfo ref =>
      by_cases h : ref.kind = .externC
      · simp [cEmitExpr, h, CExpr.atoms, HirExpression.atom?, HirExpression.operands,
          mem_expressionsAtoms_cEmitExprs, cEmitSymbol]
      · simp [cEmitExpr, h, CExpr.atoms, HirExpression.atom?, HirExpression.operands,
          mem_expressionsAtoms_cEmitExprs]
    | _ =>
      simp [cEmitExpr, CExpr.atoms, HirExpression.atom?, HirExpression.operands,
        mem_expressionsAtoms_cEmitExprs, or_assoc]
  | index info target i =>
    simp [cEmitExpr, CExpr.atoms, HirExpression.atom?, HirExpression.operands]
  | member info target member =>
    simp [cEmitExpr, CExpr.atoms, HirExpression.atom?, HirExpression.operands]
  | cast info targetType e =>
    simp [cEmitExpr, CExpr.atoms, HirExpression.atom?, HirExpression.operands]
  | arrayLiteral info elements =>
    simp [cEmitExpr, CExpr.atoms, HirExpression.atom?, HirExpression.operands,
      mem_expressionsAtoms_cEmitExprs]
  | discard info =>
    simp [cEmitExpr, CExpr.atoms, HirExpression.atom?, HirExpression.operands]
  | postIncrement info operand =>
    simp [cEmitExpr, CExpr.atoms, HirExpression.atom?, HirExpression.operands]
  | postDecrement info operand =>
    simp [cEmitExpr, CExpr.atoms, HirExpression.atom?, HirExpression.operands]

theorem mem_stmtsAtoms_cEmitStmts {x : CExpr} (ss : List HirStatement) :
    x ∈ stmtsAtoms (cEmitStmts ctx ss) ↔ ∃ s ∈ ss, x ∈ stmtsAtoms (cEmitStmt ctx s) := by
  induction ss with
  | nil => simp [cEmitStmts, stmtsAtoms]
  | cons s ss ih => simp [cEmitStmts, ih]

/-- The occurrences of an emitted statement are those of its expression or of its block. -/
theorem mem_stmtsAtoms_cEmitStmt {x : CExpr} (s : HirStatement) :
    x ∈ stmtsAtoms (cEmitStmt ctx s) ↔
      (∃ e, s.expression? = some e ∧ x ∈ (cEmitExpr ctx e).atoms) ∨
        ∃ b, s.manualBody? = some b ∧ x ∈ stmtsAtoms (cEmitBlock ctx b) := by
  cases s with
  | returnVoid span =>
    cases h : ctx.isBootContext <;>
      simp [cEmitStmt, stmtsAtoms, CStmt.atoms, CExpr.atoms, HirStatement.expression?,
        HirStatement.manualBody?, h]
  | _ =>
    simp [cEmitStmt, stmtsAtoms, CStmt.atoms, HirStatement.expression?,
      HirStatement.manualBody?]

theorem mem_stmtsAtoms_cEmitBlock {x : CExpr} (b : HirBlock) :
    x ∈ stmtsAtoms (cEmitBlock ctx b) ↔
      ∃ s ∈ b.statements, x ∈ stmtsAtoms (cEmitStmt ctx s) := by
  cases b with
  | mk statements => simp [cEmitBlock, mem_stmtsAtoms_cEmitStmts, HirBlock.statements]

end Calynda
