import Calynda.Hir.Lower

/-!
# The front end

The passes that `calynda_compile_to_c` runs between the parser and the emitter.
-/

namespace Calynda

inductive CompileFailure where
  | symbols (error : SymbolTableError)
  | types (failure : TcFailure)
  | hir (error : HirBuildError)

/-- `calynda_compile_to_c` from `symbol_table_build` to `hir_build_program`, with the call
depth of the checker at most `fuel`. -/
def calyndaCompileToHir (fuel : Nat) (program : AstProgram) :
    Except CompileFailure (TypeChecker × HirProgram) :=
  match symbolTableBuild program with
  | .error e => .error (.symbols e)
  | .ok symbols =>
    match typeCheckerCheckProgram fuel program symbols with
    | .error e => .error (.types e)
    | .ok checker =>
      match hirBuildProgram checker program with
      | .error e => .error (.hir e)
      | .ok hir => .ok (checker, hir)

/-- The front end accepts `program`, with the tables of `checker` and the tree `hir`. -/
def Compiles (program : AstProgram) (checker : TypeChecker) (hir : HirProgram) : Prop :=
  ∃ fuel, calyndaCompileToHir fuel program = .ok (checker, hir)

/-- What the run of the checker leaves besides its tables. -/
theorem typeCheckerCheckProgram_ok {fuel : Nat} {program : AstProgram} {symbols : SymbolTable}
    {checker : TypeChecker} (h : typeCheckerCheckProgram fuel program symbols = .ok checker) :
    checker.symbols = symbols ∧ symbols.unresolvedIdentifiers = [] ∧
      typeResolverResolveProgram program = .ok checker.resolver ∧
      (do
        tcValidateProgramStartDecls program
        program.topLevelDecls.forM
          (tcCheckTopLevelDecl checker.toCheckContext (tcCalls checker.toCheckContext fuel)) :
            TcM Unit) {} = .ok ((), checker.toTcTables) := by
  unfold typeCheckerCheckProgram at h
  cases hUnresolved : symbols.unresolvedIdentifiers with
  | cons u us =>
    rw [hUnresolved] at h
    exact nomatch h
  | nil =>
    rw [hUnresolved] at h
    cases hResolver : typeResolverResolveProgram program with
    | error e =>
      rw [hResolver] at h
      exact nomatch h
    | ok resolver =>
      rw [hResolver] at h
      simp only at h
      split at h
      · exact nomatch h
      · rename_i tables hRun
        cases h
        exact ⟨rfl, rfl, rfl, hRun⟩

/-- The steps of a run of the front end that accepts. -/
theorem Compiles.steps {program : AstProgram} {checker : TypeChecker} {hir : HirProgram}
    (h : Compiles program checker hir) :
    symbolTableBuild program = .ok checker.symbols ∧
      (∃ fuel, typeCheckerCheckProgram fuel program checker.symbols = .ok checker) ∧
      hirBuildProgram checker program = .ok hir := by
  obtain ⟨fuel, h⟩ := h
  unfold calyndaCompileToHir at h
  cases hSymbols : symbolTableBuild program with
  | error e =>
    rw [hSymbols] at h
    exact nomatch h
  | ok symbols =>
    simp only [hSymbols] at h
    cases hChecker : typeCheckerCheckProgram fuel program symbols with
    | error e =>
      rw [hChecker] at h
      exact nomatch h
    | ok found =>
      simp only [hChecker] at h
      cases hHir : hirBuildProgram found program with
      | error e =>
        rw [hHir] at h
        exact nomatch h
      | ok tree =>
        simp only [hHir] at h
        cases h
        have hEq := (typeCheckerCheckProgram_ok hChecker).1
        rw [hEq]
        exact ⟨rfl, ⟨fuel, hChecker⟩, hHir⟩

end Calynda
