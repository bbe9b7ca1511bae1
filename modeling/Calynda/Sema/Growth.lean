import Mathlib.Data.List.Nodup
import Mathlib.Data.List.Perm.Subperm
import Calynda.Sema.SymbolTable
import Calynda.Lib.StateExcept

/-!
# How the symbol table grows

During the analysis of a part of the tree the tables are only appended to, and what is
appended is keyed by nodes of that part. So a look-up that has succeeded keeps its result in
every later table, and the nodes of the other parts stay without entries.

`Analyzes` says this of a pass together with what holds, in every later table, of the part
that was analysed. Its rules follow the statements of the pass.
-/

namespace Calynda

open StateExcept

/-! ## Symbols -/

/-- The symbol of a member that `st_try_wildcard_resolve` makes from a wildcard import. -/
structure Symbol.IsMemberOf (sentinel symbol : Symbol) : Prop where
  kind_eq : symbol.kind = .import
  name_isSome : symbol.name.isSome
  qualifiedName_eq :
    symbol.qualifiedName = some (lastPathSegment (sentinel.qualifiedName.getD ""))
  isWildcardImport_eq : symbol.isWildcardImport = true
  declaration_eq : symbol.declaration = sentinel.declaration

namespace SymbolTable

/-- The first wildcard import. -/
def wildcardSentinel (table : SymbolTable) : Option Symbol :=
  table.imports.find? fun symbol => symbol.isWildcardImport

/-- The symbols that a walk from the table, or along the scopes under construction, can
reach. -/
inductive Knows (table : SymbolTable) (held : List Scope) (symbol : Symbol) : Prop where
  | package (h : table.packageSymbol = some symbol)
  | imported (h : symbol ∈ table.imports)
  | root (h : symbol ∈ table.rootScope.symbols)
  | recorded {scope : Scope} (hScope : scope ∈ table.scopes) (h : symbol ∈ scope.symbols)
  | held {scope : Scope} (hScope : scope ∈ held) (h : symbol ∈ scope.symbols)

/-- A symbol is known by its address, and a fresh address is no symbol's. -/
structure Distinct (table : SymbolTable) (held : List Scope) : Prop where
  addr_lt {symbol : Symbol} (h : table.Knows held symbol) : symbol.addr < table.nextAddr
  eq_of_addr {symbol other : Symbol} (h : table.Knows held symbol)
    (hOther : table.Knows held other) (hAddr : symbol.addr = other.addr) : symbol = other

/-- Nothing is recorded for the nodes at `addrs`. -/
structure Fresh (table : SymbolTable) (addrs : List Addr) : Prop where
  rootKind : table.rootScope.kind = .program
  resolutions : ∀ r ∈ table.resolutions, r.identifier.addr ∉ addrs
  scopes : ∀ s ∈ table.scopes, s.owner ∉ addrs

/-- `later` has everything that `table` has, in its place. -/
structure Retains (table later : SymbolTable) : Prop where
  packageSymbol_eq : later.packageSymbol = table.packageSymbol
  rootScope_eq : later.rootScope = table.rootScope
  imports : ∃ new, later.imports = table.imports ++ new ∧ ∀ s ∈ new,
    ∃ sentinel, table.wildcardSentinel = some sentinel ∧ sentinel.IsMemberOf s
  resolutions : ∃ new, later.resolutions = table.resolutions ++ new
  scopes : ∃ new, later.scopes = table.scopes ++ new
  unresolved : ∃ new,
    later.unresolvedIdentifiers = table.unresolvedIdentifiers ++ new

/-- `later` has more than `table` only for the nodes at `addrs`. -/
structure Extends (addrs : List Addr) (table later : SymbolTable) : Prop
    extends Retains table later where
  resolution_mem : ∀ r ∈ later.resolutions, r ∈ table.resolutions ∨ r.identifier.addr ∈ addrs
  scope_mem : ∀ s ∈ later.scopes, s ∈ table.scopes ∨ s.owner ∈ addrs

theorem Retains.refl (table : SymbolTable) : table.Retains table where
  packageSymbol_eq := rfl
  rootScope_eq := rfl
  imports := ⟨[], by simp⟩
  resolutions := ⟨[], by simp⟩
  scopes := ⟨[], by simp⟩
  unresolved := ⟨[], by simp⟩

/-- New imports are members of the first wildcard import, so it stays the first one. -/
theorem Retains.wildcardSentinel_eq {table later : SymbolTable} (h : table.Retains later) :
    later.wildcardSentinel = table.wildcardSentinel := by
  obtain ⟨new, hNew, hMember⟩ := h.imports
  unfold wildcardSentinel at hMember ⊢
  rw [hNew, List.find?_append]
  cases hFind : table.imports.find? fun symbol => symbol.isWildcardImport with
  | some sentinel => rfl
  | none =>
    cases new with
    | nil => rfl
    | cons s new =>
      obtain ⟨sentinel, hSentinel, -⟩ := hMember s List.mem_cons_self
      rw [hFind] at hSentinel
      exact nomatch hSentinel

theorem Retains.trans {a b c : SymbolTable} (hab : a.Retains b) (hbc : b.Retains c) :
    a.Retains c := by
  obtain ⟨imports₁, hImports₁, hMember₁⟩ := hab.imports
  obtain ⟨imports₂, hImports₂, hMember₂⟩ := hbc.imports
  obtain ⟨resolutions₁, hResolutions₁⟩ := hab.resolutions
  obtain ⟨resolutions₂, hResolutions₂⟩ := hbc.resolutions
  obtain ⟨scopes₁, hScopes₁⟩ := hab.scopes
  obtain ⟨scopes₂, hScopes₂⟩ := hbc.scopes
  obtain ⟨unresolved₁, hUnresolved₁⟩ := hab.unresolved
  obtain ⟨unresolved₂, hUnresolved₂⟩ := hbc.unresolved
  rw [hab.wildcardSentinel_eq] at hMember₂
  refine ⟨hbc.packageSymbol_eq.trans hab.packageSymbol_eq,
    hbc.rootScope_eq.trans hab.rootScope_eq,
    ⟨imports₁ ++ imports₂, by rw [hImports₂, hImports₁, List.append_assoc], ?_⟩,
    ⟨resolutions₁ ++ resolutions₂, by rw [hResolutions₂, hResolutions₁, List.append_assoc]⟩,
    ⟨scopes₁ ++ scopes₂, by rw [hScopes₂, hScopes₁, List.append_assoc]⟩,
    ⟨unresolved₁ ++ unresolved₂, by rw [hUnresolved₂, hUnresolved₁, List.append_assoc]⟩⟩
  intro s hs
  rcases List.mem_append.1 hs with hs | hs
  · exact hMember₁ s hs
  · exact hMember₂ s hs

/-- The counters do not matter. -/
theorem Extends.of_tables_eq {addrs : List Addr} {table later : SymbolTable}
    (hPackage : later.packageSymbol = table.packageSymbol)
    (hRoot : later.rootScope = table.rootScope) (hImports : later.imports = table.imports)
    (hResolutions : later.resolutions = table.resolutions)
    (hScopes : later.scopes = table.scopes)
    (hUnresolved : later.unresolvedIdentifiers = table.unresolvedIdentifiers) :
    Extends addrs table later where
  packageSymbol_eq := hPackage
  rootScope_eq := hRoot
  imports := ⟨[], by simp [hImports]⟩
  resolutions := ⟨[], by simp [hResolutions]⟩
  scopes := ⟨[], by simp [hScopes]⟩
  unresolved := ⟨[], by simp [hUnresolved]⟩
  resolution_mem _ h := .inl (hResolutions ▸ h)
  scope_mem _ h := .inl (hScopes ▸ h)

theorem Extends.refl (addrs : List Addr) (table : SymbolTable) : table.Extends addrs table :=
  .of_tables_eq rfl rfl rfl rfl rfl rfl

theorem Extends.mono {addrs addrs' : List Addr} {table later : SymbolTable}
    (h : Extends addrs table later) (hAddrs : addrs ⊆ addrs') : Extends addrs' table later where
  toRetains := h.toRetains
  resolution_mem r hr := (h.resolution_mem r hr).imp_right fun hMem => hAddrs hMem
  scope_mem s hs := (h.scope_mem s hs).imp_right fun hMem => hAddrs hMem

theorem Extends.trans {addrs : List Addr} {a b c : SymbolTable} (hab : Extends addrs a b)
    (hbc : Extends addrs b c) : Extends addrs a c where
  toRetains := hab.toRetains.trans hbc.toRetains
  resolution_mem r hr := by
    rcases hbc.resolution_mem r hr with hr | hr
    · exact hab.resolution_mem r hr
    · exact .inr hr
  scope_mem s hs := by
    rcases hbc.scope_mem s hs with hs | hs
    · exact hab.scope_mem s hs
    · exact .inr hs

theorem Fresh.mono {table : SymbolTable} {addrs addrs' : List Addr} (h : table.Fresh addrs')
    (hAddrs : addrs ⊆ addrs') : table.Fresh addrs where
  rootKind := h.rootKind
  resolutions r hr hMem := h.resolutions r hr (hAddrs hMem)
  scopes s hs hMem := h.scopes s hs (hAddrs hMem)

/-- The nodes of one part stay without entries while another part is analysed. -/
theorem Fresh.extends {table later : SymbolTable} {addrs addrs' : List Addr}
    (h : table.Fresh addrs) (hLater : Extends addrs' table later)
    (hDisjoint : addrs'.Disjoint addrs) : later.Fresh addrs where
  rootKind := by rw [hLater.rootScope_eq, h.rootKind]
  resolutions r hr hMem := by
    rcases hLater.resolution_mem r hr with hr | hr
    · exact h.resolutions r hr hMem
    · exact hDisjoint hr hMem
  scopes s hs hMem := by
    rcases hLater.scope_mem s hs with hs | hs
    · exact h.scopes s hs hMem
    · exact hDisjoint hs hMem

/-! ## Look-ups in later tables -/

theorem Retains.findImport_eq {table later : SymbolTable} (h : table.Retains later)
    {name : String} {symbol : Symbol} (hFind : table.findImport name = some symbol) :
    later.findImport name = some symbol := by
  obtain ⟨new, hNew, -⟩ := h.imports
  unfold findImport at hFind ⊢
  rw [hNew, List.find?_append, hFind]
  rfl

theorem Retains.lookup_eq {table later : SymbolTable} (h : table.Retains later)
    {chain : List Scope} {name : String} {symbol : Symbol}
    (hFind : table.lookup chain name = some symbol) : later.lookup chain name = some symbol := by
  unfold lookup at hFind ⊢
  cases hChain : stLookupInScopes chain name with
  | some found => rwa [hChain] at hFind
  | none =>
    rw [hChain] at hFind
    exact h.findImport_eq hFind

theorem Retains.findResolution_eq {table later : SymbolTable} (h : table.Retains later)
    {node : Addr} {r : SymbolResolution} (hFind : table.findResolution node = some r) :
    later.findResolution node = some r := by
  obtain ⟨new, hNew⟩ := h.resolutions
  unfold findResolution at hFind ⊢
  rw [hNew, List.find?_append, hFind]
  rfl

theorem Retains.findScope_eq {table later : SymbolTable} (h : table.Retains later)
    {owner : Addr} {kind : ScopeKind} {scope : Scope}
    (hFind : table.findScope owner kind = some scope) :
    later.findScope owner kind = some scope := by
  obtain ⟨new, hNew⟩ := h.scopes
  unfold findScope at hFind ⊢
  rw [hNew, h.rootScope_eq, ← List.cons_append, List.find?_append, hFind]
  rfl

theorem Retains.unresolved_mem {table later : SymbolTable} (h : table.Retains later)
    {u : UnresolvedIdentifier} (hMem : u ∈ table.unresolvedIdentifiers) :
    u ∈ later.unresolvedIdentifiers := by
  obtain ⟨new, hNew⟩ := h.unresolved
  rw [hNew]
  exact List.mem_append_left _ hMem

end SymbolTable

/-! ## Symbols stay distinct -/

namespace SymbolTable

theorem Distinct.mono {table later : SymbolTable} {held held' : List Scope}
    (h : table.Distinct held) (hAddr : table.nextAddr ≤ later.nextAddr)
    (hKnows : ∀ symbol, later.Knows held' symbol → table.Knows held symbol) :
    later.Distinct held' where
  addr_lt hSymbol := Nat.lt_of_lt_of_le (h.addr_lt (hKnows _ hSymbol)) hAddr
  eq_of_addr hSymbol hOther := h.eq_of_addr (hKnows _ hSymbol) (hKnows _ hOther)

/-- One more symbol, at the fresh address. -/
theorem Distinct.add {table later : SymbolTable} {held held' : List Scope} (new : Symbol)
    (h : table.Distinct held) (hNew : new.addr = table.nextAddr)
    (hAddr : later.nextAddr = table.nextAddr + 1)
    (hKnows : ∀ symbol, later.Knows held' symbol → table.Knows held symbol ∨ symbol = new) :
    later.Distinct held' where
  addr_lt hSymbol := by
    rw [hAddr]
    rcases hKnows _ hSymbol with hOld | rfl
    · exact Nat.lt_succ_of_lt (h.addr_lt hOld)
    · rw [hNew]
      exact Nat.lt_succ_self _
  eq_of_addr hSymbol hOther hEq := by
    rcases hKnows _ hSymbol with hOld | rfl <;> rcases hKnows _ hOther with hOld' | rfl
    · exact h.eq_of_addr hOld hOld' hEq
    · exact absurd (hEq.trans hNew) (Nat.ne_of_lt (h.addr_lt hOld))
    · exact absurd (hEq.symm.trans hNew) (Nat.ne_of_lt (h.addr_lt hOld'))
    · rfl

end SymbolTable

/-! ## Passes -/

/-- The pass `m` adds entries for the nodes at `addrs` only, symbols stay distinct when the
scopes under construction go from `held` to `held' a`, and in every later table `Post` holds
of the result. -/
def Analyzes {α : Type} (addrs : List Addr) (held : List Scope) (m : StM α)
    (held' : α → List Scope) (Post : SymbolTable → α → Prop) : Prop :=
  ∀ table a later, m table = .ok (a, later) → addrs.Nodup → table.Fresh addrs →
    table.Distinct held → table.Extends addrs later ∧ later.Distinct (held' a) ∧
      ∀ final, later.Retains final → Post final a

namespace Analyzes

variable {α β : Type} {addrs addrs₁ addrs₂ : List Addr} {held : List Scope}
  {held₁ : α → List Scope} {held₂ : β → List Scope}

theorem ret {Post : SymbolTable → α → Prop} (a : α) (hHeld : held₁ a = held)
    (hPost : ∀ final, Post final a) : Analyzes addrs held (pure a) held₁ Post := by
  rintro table b later hRun - - hDistinct
  cases hRun
  exact ⟨.refl addrs table, hHeld.symm ▸ hDistinct, fun final _ => hPost final⟩

theorem error {held' : α → List Scope} {Post : SymbolTable → α → Prop}
    (primarySpan : AstSourceSpan) (relatedSpan : Option AstSourceSpan) (message : String) :
    Analyzes addrs held (stSetErrorAt primarySpan relatedSpan message) held' Post := by
  rintro table a later hRun
  exact nomatch hRun

/-- A pass after another one, over the nodes of different parts. Of the result of the first
one the second may use what holds in some table. -/
theorem bind {m : StM α} {f : α → StM β} {P : SymbolTable → α → Prop}
    {Q : SymbolTable → β → Prop} (h₁ : Analyzes addrs₁ held m held₁ P)
    (h₂ : ∀ a, (∃ table, P table a) →
      Analyzes addrs₂ (held₁ a) (f a) held₂ fun final b => P final a → Q final b) :
    Analyzes (addrs₁ ++ addrs₂) held (m >>= f) held₂ Q := by
  rintro table b later hRun hNodup hFresh hDistinct
  obtain ⟨a, middle, hFirst, hRest⟩ := bind_eq_ok.1 hRun
  obtain ⟨hNodup₁, hNodup₂, hDisjoint⟩ := List.nodup_append'.1 hNodup
  obtain ⟨hExtends₁, hDistinct₁, hPost₁⟩ := h₁ table a middle hFirst hNodup₁
    (hFresh.mono (List.subset_append_left _ _)) hDistinct
  have hFresh₂ : middle.Fresh addrs₂ :=
    (hFresh.mono (List.subset_append_right _ _)).extends hExtends₁ hDisjoint
  obtain ⟨hExtends₂, hDistinct₂, hPost₂⟩ := h₂ a ⟨middle, hPost₁ middle (.refl middle)⟩ middle b
    later hRest hNodup₂ hFresh₂ hDistinct₁
  refine ⟨(hExtends₁.mono (List.subset_append_left _ _)).trans
    (hExtends₂.mono (List.subset_append_right _ _)), hDistinct₂, ?_⟩
  intro final hFinal
  exact hPost₂ final hFinal (hPost₁ final (hExtends₂.toRetains.trans hFinal))

/-- Scopes that are finished are not held any more. -/
theorem release {m : StM α} (held' : α → List Scope) {P : SymbolTable → α → Prop}
    (h : Analyzes addrs held m held₁ P) (hHeld : ∀ a, ∀ s ∈ held' a, s ∈ held₁ a) :
    Analyzes addrs held m held' P := by
  rintro table a later hRun hNodup hFresh hDistinct
  obtain ⟨hExtends, hLater, hPost⟩ := h table a later hRun hNodup hFresh hDistinct
  refine ⟨hExtends, hLater.mono (Nat.le_refl _) ?_, hPost⟩
  rintro s (h | h | h | ⟨hScope, h⟩ | ⟨hScope, h⟩)
  · exact .package h
  · exact .imported h
  · exact .root h
  · exact .recorded hScope h
  · exact .held (hHeld a _ hScope) h

/-- A pass over some of the nodes; the nodes may be listed in another order. -/
theorem weaken {m : StM α} {P : SymbolTable → α → Prop}
    (h : Analyzes addrs₁ held m held₁ P) (hSub : addrs₁.Subperm addrs₂) :
    Analyzes addrs₂ held m held₁ P := by
  rintro table a later hRun hNodup hFresh hDistinct
  obtain ⟨ordered, hPerm, hSublist⟩ := id hSub
  have hNodup₁ : addrs₁.Nodup := hPerm.nodup_iff.1 (hSublist.nodup hNodup)
  obtain ⟨hExtends, hLater, hPost⟩ :=
    h table a later hRun hNodup₁ (hFresh.mono hSub.subset) hDistinct
  exact ⟨hExtends.mono hSub.subset, hLater, hPost⟩

theorem mono {m : StM α} {P Q : SymbolTable → α → Prop}
    (h : Analyzes addrs held m held₁ P) (hPost : ∀ final a, P final a → Q final a) :
    Analyzes addrs held m held₁ Q := by
  rintro table a later hRun hNodup hFresh hDistinct
  obtain ⟨hExtends, hLater, hP⟩ := h table a later hRun hNodup hFresh hDistinct
  exact ⟨hExtends, hLater, fun final hFinal => hPost final a (hP final hFinal)⟩

end Analyzes

/-! ## The steps of the analysis -/

/-- A symbol `raw` is made at the fresh address, and as `make` it is appended to the scope
under construction. -/
theorem Analyzes.declare {β : Type} {addrs : List Addr} {scope : Scope} {parents : List Scope}
    {held₂ : β → List Scope} {Q : SymbolTable → β → Prop} {m : StM Symbol} {f : Symbol → StM β}
    (raw make : Addr → Symbol) (hMake : ∀ addr, (make addr).addr = addr)
    (hNew : ∀ table, m table =
      .ok (raw table.nextAddr, { table with nextAddr := table.nextAddr + 1 }))
    (hRest : ∀ addr, Analyzes addrs (scope.appendSymbol (make addr) :: parents) (f (raw addr))
      held₂ Q) :
    Analyzes addrs (scope :: parents) (m >>= f) held₂ Q := by
  rintro table b later hRun hNodup hFresh hDistinct
  rw [bind_ok (hNew table)] at hRun
  have hExtends : table.Extends addrs { table with nextAddr := table.nextAddr + 1 } :=
    .of_tables_eq rfl rfl rfl rfl rfl rfl
  obtain ⟨hExtends₂, hLater, hPost⟩ := hRest table.nextAddr _ b later hRun hNodup
    ⟨hFresh.rootKind, hFresh.resolutions, hFresh.scopes⟩ <| by
      refine hDistinct.add _ (hMake _) rfl ?_
      rintro symbol (h | h | h | ⟨hScope, h⟩ | ⟨hScope, h⟩)
      · exact .inl (.package h)
      · exact .inl (.imported h)
      · exact .inl (.root h)
      · exact .inl (.recorded hScope h)
      · rcases List.mem_cons.1 hScope with rfl | hScope
        · rcases List.mem_append.1 h with h | h
          · exact .inl (.held List.mem_cons_self h)
          · exact .inr (List.mem_singleton.1 h)
        · exact .inl (.held (List.mem_cons_of_mem _ hScope) h)
  exact ⟨hExtends.trans hExtends₂, hLater, hPost⟩

theorem Analyzes.stScopeNew {held : List Scope} (kind : ScopeKind) (owner : Addr) :
    Analyzes [] held (stScopeNew kind owner) (fun s => s :: held) fun _ s =>
      s.kind = kind ∧ s.owner = owner ∧ s.symbols = [] := by
  rintro table s later hRun - - hDistinct
  cases hRun
  refine ⟨.of_tables_eq rfl rfl rfl rfl rfl rfl, ?_, fun _ _ => ⟨rfl, rfl, rfl⟩⟩
  refine hDistinct.mono (Nat.le_refl _) ?_
  intro symbol hKnows
  cases hKnows with
  | package h => exact .package h
  | imported h => exact .imported h
  | root h => exact .root h
  | recorded hScope h => exact .recorded hScope h
  | held hScope h =>
    rcases List.mem_cons.1 hScope with rfl | hScope
    · exact nomatch h
    · exact .held hScope h

/-- A recorded scope is found again by its owner and its kind. -/
theorem Analyzes.stRecordScope (scope : Scope) {held held' : List Scope}
    (hHeld : ∀ s ∈ held', s ∈ scope :: held) (hKind : scope.kind ≠ .program) :
    Analyzes [scope.owner] (scope :: held) (stRecordScope scope) (fun _ => held') fun final _ =>
      final.findScope scope.owner scope.kind = some scope := by
  rintro table s later hRun - hFresh hDistinct
  cases hRun
  refine ⟨⟨⟨rfl, rfl, ⟨[], by simp⟩, ⟨[], by simp⟩, ⟨[scope], rfl⟩, ⟨[], by simp⟩⟩,
    fun r hr => .inl hr, ?_⟩, ?_, ?_⟩
  · intro s hs
    rcases List.mem_append.1 hs with hs | hs
    · exact .inl hs
    · rw [List.mem_singleton.1 hs]
      exact .inr List.mem_cons_self
  · refine hDistinct.mono (Nat.le_refl _) ?_
    intro symbol hKnows
    cases hKnows with
    | package h => exact .package h
    | imported h => exact .imported h
    | root h => exact .root h
    | recorded hScope h =>
      rcases List.mem_append.1 hScope with hScope | hScope
      · exact .recorded hScope h
      · rw [List.mem_singleton.1 hScope] at h
        exact .held List.mem_cons_self h
    | held hScope h => exact .held (hHeld _ hScope) h
  · intro final hFinal
    apply hFinal.findScope_eq
    have hOld : (table.rootScope :: table.scopes).find?
        (fun s => s.owner == scope.owner && decide (s.kind = scope.kind)) = none := by
      rw [List.find?_eq_none]
      intro s hs hEq
      simp only [Bool.and_eq_true, beq_iff_eq, decide_eq_true_eq] at hEq
      rcases List.mem_cons.1 hs with rfl | hs
      · exact hKind (hEq.2.symm.trans hFresh.rootKind)
      · exact hFresh.scopes s hs (by simp [hEq.1])
    show ((table.rootScope :: (table.scopes ++ [scope])).find? _) = some scope
    rw [← List.cons_append, List.find?_append, hOld]
    simp

end Calynda
