import Calynda.Lib.StateExcept
import Calynda.Sema.Parts
import Calynda.Sema.TypeResolution

/-!
# What the type resolver records

Every entry is the resolved type of a declared type of the program. So the entry of a node is the
resolved type of the declared type that lies there.
-/

namespace Calynda

open StateExcept

/-- The entries of the declared types are those of nodes among `parts`. -/
def TypeResolver.Within (parts : List AstPart) (resolver : TypeResolver) : Prop :=
  ∀ entry ∈ resolver.typeEntries, ∃ type, .type type ∈ parts ∧
    entry = (type.addr, trResolvedType type)

/-- A property of the entries that a further entry does not disturb. -/
structure EntriesKept (P : List AstPart) (I : TypeResolver → Prop) : Prop where
  type {type : AstType} (h : .type type ∈ P) {resolver : TypeResolver} (hI : I resolver) :
    I { resolver with
      typeEntries := resolver.typeEntries ++ [(type.addr, trResolvedType type)] }
  cast (entry : Addr × ResolvedType) {resolver : TypeResolver} (hI : I resolver) :
    I { resolver with castEntries := resolver.castEntries ++ [entry] }

theorem TypeResolver.Within.kept (P : List AstPart) : EntriesKept P (TypeResolver.Within P) where
  type {type} h resolver hWithin entry hEntry := by
    rcases List.mem_append.1 hEntry with hEntry | hEntry
    · exact hWithin entry hEntry
    · exact ⟨type, h, List.mem_singleton.1 hEntry⟩
  cast _ _ hWithin := hWithin

/-- An entry stays. -/
theorem entriesKept_mem (P : List AstPart) (entry : Addr × ResolvedType) :
    EntriesKept P fun resolver => entry ∈ resolver.typeEntries where
  type _ _ hEntry := List.mem_append_left _ hEntry
  cast _ _ hEntry := hEntry

section
variable {P : List AstPart} {I : TypeResolver → Prop}

theorem validateArrayDimension_maintains (span : AstSourceSpan) (kind name : String)
    (dimension : AstArrayDimension) :
    Maintains I (validateArrayDimension span kind name dimension)
      fun _ => True := by
  unfold validateArrayDimension
  split
  · exact .ret trivial
  · split
    · exact .ret trivial
    · exact .error

theorem trResolveDeclaredType_maintains (hI : EntriesKept P I) {type : AstType} (h : .type type ∈ P)
    (span : AstSourceSpan) (kind name : String) (allowVoid : Bool) :
    Maintains I (trResolveDeclaredType type span kind name allowVoid)
      fun _ => True := by
  unfold trResolveDeclaredType
  refine Maintains.bind (P := fun _ => True) ?_ fun _ _ => ?_
  · unfold validateArrayDimensions
    split
    · exact .error
    · exact .forM fun dimension _ => validateArrayDimension_maintains span kind name dimension
  · split
    · exact .error
    · exact .write (fun _ hEntries => hI.type h hEntries) trivial

theorem trResolveParameters_maintains (hI : EntriesKept P I) {parameters : List AstParameter}
    (h : parametersParts parameters ⊆ P) :
    Maintains I (trResolveParameters parameters) fun _ => True :=
  .forM fun _ hp => trResolveDeclaredType_maintains hI (h (List.mem_map_of_mem hp)) _ _ _ _

theorem trAppendCastEntry_maintains (hI : EntriesKept P I) (castExpression : Addr) (targetType : ResolvedType) :
    Maintains I (trAppendCastEntry castExpression targetType)
      fun _ => True := by
  unfold trAppendCastEntry
  exact .write (fun _ hEntries => hI.cast _ hEntries) trivial

mutual
theorem trResolveExpression_maintains (hI : EntriesKept P I) : ∀ e : AstExpression, e.parts ⊆ P →
    Maintains I (trResolveExpression e) fun _ => True
  | .literal _ _, _ => .ret trivial
  | .template _ parts, h => trResolveTemplateParts_maintains hI parts (List.cons_subset.1 h).2
  | .identifier _ _, _ => .ret trivial
  | .lambda _ parameters body, h => by
    obtain ⟨hParameters, hBody⟩ := List.append_subset.1 (List.cons_subset.1 h).2
    exact Maintains.bind (trResolveParameters_maintains hI hParameters) fun _ _ =>
      trResolveLambdaBody_maintains hI body hBody
  | .assignment _ _ target value, h => by
    obtain ⟨hTarget, hValue⟩ := List.append_subset.1 (List.cons_subset.1 h).2
    exact Maintains.bind (trResolveExpression_maintains hI target hTarget) fun _ _ =>
      trResolveExpression_maintains hI value hValue
  | .ternary _ condition thenBranch elseBranch, h => by
    obtain ⟨hBoth, hElse⟩ := List.append_subset.1 (List.cons_subset.1 h).2
    obtain ⟨hCondition, hThen⟩ := List.append_subset.1 hBoth
    exact Maintains.bind (trResolveExpression_maintains hI condition hCondition) fun _ _ =>
      Maintains.bind (trResolveExpression_maintains hI thenBranch hThen) fun _ _ =>
        trResolveExpression_maintains hI elseBranch hElse
  | .binary _ _ left right, h => by
    obtain ⟨hLeft, hRight⟩ := List.append_subset.1 (List.cons_subset.1 h).2
    exact Maintains.bind (trResolveExpression_maintains hI left hLeft) fun _ _ =>
      trResolveExpression_maintains hI right hRight
  | .unary _ _ operand, h => trResolveExpression_maintains hI operand (List.cons_subset.1 h).2
  | .call _ callee arguments, h => by
    obtain ⟨hCallee, hArguments⟩ := List.append_subset.1 (List.cons_subset.1 h).2
    exact Maintains.bind (trResolveExpression_maintains hI callee hCallee) fun _ _ =>
      trResolveExpressions_maintains hI arguments hArguments
  | .index _ target index, h => by
    obtain ⟨hTarget, hIndex⟩ := List.append_subset.1 (List.cons_subset.1 h).2
    exact Maintains.bind (trResolveExpression_maintains hI target hTarget) fun _ _ =>
      trResolveExpression_maintains hI index hIndex
  | .member _ target _, h => trResolveExpression_maintains hI target (List.cons_subset.1 h).2
  | .cast _ _ expression, h =>
    Maintains.bind (trAppendCastEntry_maintains hI _ _) fun _ _ =>
      trResolveExpression_maintains hI expression (List.cons_subset.1 h).2
  | .arrayLiteral _ elements, h =>
    trResolveExpressions_maintains hI elements (List.cons_subset.1 h).2
  | .grouping _ inner, h => trResolveExpression_maintains hI inner (List.cons_subset.1 h).2
  | .discard _, _ => .ret trivial
  | .postIncrement _ operand, h =>
    trResolveExpression_maintains hI operand (List.cons_subset.1 h).2
  | .postDecrement _ operand, h =>
    trResolveExpression_maintains hI operand (List.cons_subset.1 h).2

theorem trResolveExpressions_maintains (hI : EntriesKept P I) : ∀ es : List AstExpression, expressionsParts es ⊆ P →
    Maintains I (trResolveExpressions es) fun _ => True
  | [], _ => .ret trivial
  | e :: es, h =>
    Maintains.bind (trResolveExpression_maintains hI e (List.append_subset.1 h).1) fun _ _ =>
      trResolveExpressions_maintains hI es (List.append_subset.1 h).2

theorem trResolveTemplateParts_maintains (hI : EntriesKept P I) : ∀ parts : List AstTemplatePart,
    templateParts parts ⊆ P →
    Maintains I (trResolveTemplateParts parts) fun _ => True
  | [], _ => .ret trivial
  | .text _ :: parts, h => trResolveTemplateParts_maintains hI parts h
  | .expression e :: parts, h =>
    Maintains.bind (trResolveExpression_maintains hI e (List.append_subset.1 h).1) fun _ _ =>
      trResolveTemplateParts_maintains hI parts (List.append_subset.1 h).2

theorem trResolveLambdaBody_maintains (hI : EntriesKept P I) : ∀ body : AstLambdaBody, body.parts ⊆ P →
    Maintains I (trResolveLambdaBody body) fun _ => True
  | .block block, h => trResolveBlock_maintains hI block h
  | .expression expression, h => trResolveExpression_maintains hI expression h

theorem trResolveBlock_maintains (hI : EntriesKept P I) : ∀ block : AstBlock, block.parts ⊆ P →
    Maintains I (trResolveBlock block) fun _ => True
  | .mk _ statements, h => trResolveStatements_maintains hI statements (List.cons_subset.1 h).2

theorem trResolveStatements_maintains (hI : EntriesKept P I) : ∀ statements : List AstStatement,
    statementsParts statements ⊆ P →
    Maintains I (trResolveStatements statements) fun _ => True
  | [], _ => .ret trivial
  | s :: ss, h =>
    Maintains.bind (resolveStatement_maintains hI s (List.append_subset.1 h).1) fun _ _ =>
      trResolveStatements_maintains hI ss (List.append_subset.1 h).2

theorem resolveStatement_maintains (hI : EntriesKept P I) : ∀ s : AstStatement, s.parts ⊆ P →
    Maintains I (resolveStatement s) fun _ => True
  | .localBinding _ _ _ isInferredType declaredType name nameSpan initializer, h => by
    obtain ⟨hType, hInitializer⟩ := List.cons_subset.1 h
    have hRest := trResolveExpression_maintains hI initializer hInitializer
    unfold resolveStatement
    cases isInferredType with
    | true => exact hRest
    | false =>
      exact Maintains.bind (trResolveDeclaredType_maintains hI hType _ _ _ _) fun _ _ => hRest
  | .returnValue _ expression, h => trResolveExpression_maintains hI expression h
  | .returnVoid _, _ => .ret trivial
  | .exit _, _ => .ret trivial
  | .throw _ expression, h => trResolveExpression_maintains hI expression h
  | .expression _ expression, h => trResolveExpression_maintains hI expression h
  | .manual _ _ _, _ => .ret trivial
end

theorem trResolveVariant_maintains (hI : EntriesKept P I) {decl : AstUnionDecl}
    (h : (AstTopLevelDecl.union decl).parts ⊆ P) {variant : AstUnionVariant}
    (hVariant : variant ∈ decl.variants) :
    Maintains I (trResolveVariant decl variant) fun _ => True := by
  unfold trResolveVariant
  split
  · exact .ret trivial
  · next payloadType hPayload =>
      refine trResolveDeclaredType_maintains hI ((List.cons_subset.1 h).2 ?_) _ _ _ _
      exact List.mem_filterMap.2 ⟨variant, hVariant, by rw [hPayload]; rfl⟩

theorem trResolveTopLevelDecl_maintains (hI : EntriesKept P I) {decl : AstTopLevelDecl} (h : decl.parts ⊆ P) :
    Maintains I (trResolveTopLevelDecl decl) fun _ => True := by
  cases decl with
  | start d | boot d =>
    obtain ⟨hParameters, hBody⟩ := List.append_subset.1 (List.cons_subset.1 h).2
    exact Maintains.bind (trResolveParameters_maintains hI hParameters) fun _ _ =>
      trResolveLambdaBody_maintains hI d.body hBody
  | binding d =>
    obtain ⟨hType, hInitializer⟩ := List.cons_subset.1 h
    refine Maintains.bind (P := fun _ => True) ?_ fun _ _ =>
      trResolveExpression_maintains hI d.initializer hInitializer
    unfold trResolveBindingDecl
    split
    · exact .ret trivial
    · exact trResolveDeclaredType_maintains hI hType _ _ _ _
  | union d => exact .forM fun variant hVariant => trResolveVariant_maintains hI h hVariant
  | externC d => exact trResolveDeclaredType_maintains hI (List.cons_subset.1 h).1 _ _ _ _

end

/-- The passes over the declarations of a program. -/
theorem trResolveTopLevelDecls_maintains {program : AstProgram} {I : TypeResolver → Prop}
    (hI : EntriesKept program.parts I) :
    Maintains I (program.topLevelDecls.forM trResolveTopLevelDecl) fun _ => True :=
  .forM fun _ hDecl => trResolveTopLevelDecl_maintains hI (AstProgram.parts_subset hDecl)

theorem typeResolverResolveProgram_ok {program : AstProgram} {resolver : TypeResolver}
    (h : typeResolverResolveProgram program = .ok resolver) :
    program.topLevelDecls.forM trResolveTopLevelDecl {} = .ok ((), resolver) := by
  unfold typeResolverResolveProgram at h
  cases hRun : (program.topLevelDecls.forM trResolveTopLevelDecl).run {} with
  | error e =>
    rw [hRun] at h
    exact nomatch h
  | ok r =>
    rw [hRun] at h
    cases h
    exact hRun

theorem typeResolverResolveProgram_within {program : AstProgram} {resolver : TypeResolver}
    (h : typeResolverResolveProgram program = .ok resolver) : resolver.Within program.parts :=
  (trResolveTopLevelDecls_maintains (TypeResolver.Within.kept program.parts) {} ⟨⟩ resolver nofun
    (typeResolverResolveProgram_ok h)).1

theorem trResolveDeclaredType_entry {type : AstType} {span : AstSourceSpan} {kind name : String}
    {allowVoid : Bool} {resolver later : TypeResolver}
    (h : trResolveDeclaredType type span kind name allowVoid resolver = .ok ((), later)) :
    (type.addr, trResolvedType type) ∈ later.typeEntries := by
  unfold trResolveDeclaredType at h
  obtain ⟨_, middle, -, h⟩ := bind_eq_ok.1 h
  split at h
  · exact nomatch h
  · cases h
    exact List.mem_append_right _ List.mem_cons_self

/-- Every payload of a union has its entry. -/
theorem typeResolverResolveProgram_payload {program : AstProgram} {resolver : TypeResolver}
    (h : typeResolverResolveProgram program = .ok resolver) {decl : AstUnionDecl}
    (hDecl : .union decl ∈ program.topLevelDecls) {variant : AstUnionVariant}
    (hVariant : variant ∈ decl.variants) {payload : AstType}
    (hPayload : variant.payloadType = some payload) :
    (payload.addr, trResolvedType payload) ∈ resolver.typeEntries := by
  have hKept := entriesKept_mem program.parts (payload.addr, trResolvedType payload)
  have hParts := AstProgram.parts_subset hDecl
  refine Maintains.forM_reaches hDecl (fun _ _ => .trivially) (fun s s' _ hUnion => ?_)
    (fun d hd => trResolveTopLevelDecl_maintains hKept (AstProgram.parts_subset hd)) trivial
    (typeResolverResolveProgram_ok h)
  refine Maintains.forM_reaches hVariant (fun _ _ => .trivially) (fun s s' _ hStep => ?_)
    (fun v hv => trResolveVariant_maintains hKept hParts hv) trivial hUnion
  unfold trResolveVariant at hStep
  rw [hPayload] at hStep
  exact trResolveDeclaredType_entry hStep

theorem AstProgram.payload_mem_parts {program : AstProgram} {decl : AstUnionDecl}
    (hDecl : .union decl ∈ program.topLevelDecls) {variant : AstUnionVariant}
    (hVariant : variant ∈ decl.variants) {payload : AstType}
    (hPayload : variant.payloadType = some payload) : .type payload ∈ program.parts :=
  AstProgram.parts_subset hDecl (List.mem_cons_of_mem _
    (List.mem_filterMap.2 ⟨variant, hVariant, by rw [hPayload]; rfl⟩))

/-- The entry of a declared type is its resolved type. -/
theorem TypeResolver.Within.getType_eq {program : AstProgram} {resolver : TypeResolver}
    (h : resolver.Within program.parts) (hAddrs : program.addrs.Nodup) {type : AstType}
    (hType : .type type ∈ program.parts) {resolved : ResolvedType}
    (hGet : resolver.getType type.addr = some resolved) : resolved = trResolvedType type := by
  unfold getType at hGet
  obtain ⟨entry, hFind, rfl⟩ := Option.map_eq_some_iff.1 hGet
  obtain ⟨other, hOther, rfl⟩ := h entry (List.mem_of_find?_eq_some hFind)
  have hAddr : other.addr = type.addr := by simpa using List.find?_some hFind
  cases AstProgram.part_eq_of_addr hAddrs hOther hType hAddr
  rfl

theorem TypeResolver.Within.getType_of_mem {program : AstProgram} {resolver : TypeResolver}
    (h : resolver.Within program.parts) (hAddrs : program.addrs.Nodup) {type : AstType}
    (hType : .type type ∈ program.parts)
    (hEntry : (type.addr, trResolvedType type) ∈ resolver.typeEntries) :
    resolver.getType type.addr = some (trResolvedType type) := by
  cases hGet : resolver.getType type.addr with
  | some resolved => rw [h.getType_eq hAddrs hType hGet]
  | none =>
    unfold getType at hGet
    have hNone := List.find?_eq_none.1 (Option.map_eq_none_iff.1 hGet) _ hEntry
    exact absurd (beq_self_eq_true _) hNone

end Calynda
