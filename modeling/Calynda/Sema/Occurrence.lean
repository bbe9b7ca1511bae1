import Calynda.Sema.Build

/-!
# The names in scope

The names that scopes declare, and what a lookup of a name in a chain of scopes finds.
-/

namespace Calynda

/-- The names that the program declares at the top level. -/
def AstProgram.topLevelNames (program : AstProgram) : List String :=
  program.topLevelDecls.filterMap AstTopLevelDecl.name?

/-! ## Names of scopes -/

def Scope.names (scope : Scope) : List String := scope.symbols.filterMap Symbol.name

def chainNames (chain : List Scope) : List String := chain.flatMap Scope.names

@[simp] theorem chainNames_cons (scope : Scope) (chain : List Scope) :
    chainNames (scope :: chain) = scope.names ++ chainNames chain := rfl

theorem stLookupInScopes_cons (scope : Scope) (parents : List Scope) (name : String) :
    stLookupInScopes (scope :: parents) name =
      (scopeLookupLocal scope name).or (stLookupInScopes parents name) := by
  conv_lhs => unfold stLookupInScopes
  cases scopeLookupLocal scope name <;> rfl

theorem stLookupInScopes_eq_none {chain : List Scope} {name : String} :
    stLookupInScopes chain name = none ↔ name ∉ chainNames chain := by
  induction chain with
  | nil => exact iff_of_true rfl List.not_mem_nil
  | cons scope parents ih =>
    rw [chainNames_cons, List.mem_append, not_or, ← ih]
    show _ ↔ name ∉ scope.symbols.filterMap Symbol.name ∧ _
    rw [← scopeLookupLocal_eq_none]
    rw [stLookupInScopes_cons, Option.or_eq_none_iff]

theorem stLookupInScopes_mem {chain : List Scope} {name : String} {symbol : Symbol}
    (h : stLookupInScopes chain name = some symbol) :
    ∃ scope ∈ chain, symbol ∈ scope.symbols := by
  induction chain with
  | nil => exact nomatch h
  | cons scope parents ih =>
    rw [stLookupInScopes_cons] at h
    cases hLocal : scopeLookupLocal scope name with
    | some found =>
      rw [hLocal] at h
      cases h
      exact ⟨scope, List.mem_cons_self, List.mem_of_find?_eq_some hLocal⟩
    | none =>
      rw [hLocal] at h
      obtain ⟨outer, hOuter, hMem⟩ := ih h
      exact ⟨outer, List.mem_cons_of_mem _ hOuter, hMem⟩

theorem Scope.IsParameterScope.exists_parameter {kind : ScopeKind} {owner : Addr}
    {parameters : List AstParameter} {scope : Scope}
    (h : scope.IsParameterScope kind owner parameters) {symbol : Symbol}
    (hSymbol : symbol ∈ scope.symbols) :
    ∃ p ∈ parameters, symbol = parameterSymbol symbol.addr scope.id p := by
  have hSymbols := h.symbols
  clear h
  generalize scope.symbols = symbols at hSymbol hSymbols
  induction hSymbols with
  | nil => exact nomatch hSymbol
  | cons hHead _ ih =>
    rcases List.mem_cons.1 hSymbol with rfl | hSymbol
    · exact ⟨_, List.mem_cons_self, hHead⟩
    · obtain ⟨p, hp, hEq⟩ := ih hSymbol
      exact ⟨p, List.mem_cons_of_mem _ hp, hEq⟩

end Calynda
