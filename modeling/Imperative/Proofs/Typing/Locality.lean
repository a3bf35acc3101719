import Imperative.Proofs.Simplify.Typing

/-!
# What the analysis of a statement leaves behind

A statement and a routine leave the scopes and the expected result as they were.  Of the items of a
block, each declaration that is accepted adds one entry to the innermost scope.
-/

namespace Imperative.Typing

/-- Add entries to the innermost scope, in front of those that are there. -/
def SymbolTable.bind (added : List (String × Symbol)) (tbl : SymbolTable) : SymbolTable :=
  match tbl.inner with
  | [] => { tbl with outermost := { tbl.outermost with symbols := added ++ tbl.outermost.symbols } }
  | scope :: outer =>
    { tbl with inner := { scope with symbols := added ++ scope.symbols } :: outer }

/-- The variables and types that items declare directly under names that are not taken. -/
def accepted (taken : List String) : List Item → List Declaration
  | .declaration (.var decl) :: rest =>
    if decl.name ∈ taken then accepted taken rest
    else .var decl :: accepted (decl.name :: taken) rest
  | .declaration (.type decl) :: rest =>
    if decl.name ∈ taken then accepted taken rest
    else .type decl :: accepted (decl.name :: taken) rest
  | _ :: rest => accepted taken rest
  | [] => []

/-- The entry is one that the declaration makes. -/
inductive Enters : Declaration → String × Symbol → Prop
  | var : Enters (.var decl) (decl.name, .var type)
  | type : Enters (.type decl) (decl.name, .type type)

namespace SymbolTable

variable {tbl : SymbolTable}

theorem bind_nil : tbl.bind [] = tbl := by
  obtain ⟨_ | ⟨scope, outer⟩, outermost⟩ := tbl <;> rfl

theorem bind_bind : (tbl.bind first).bind second = tbl.bind (second ++ first) := by
  obtain ⟨_ | ⟨scope, outer⟩, outermost⟩ := tbl <;> simp [bind]

/-- The names of the innermost scope. -/
def names (tbl : SymbolTable) : List String := tbl.innermost.symbols.map Prod.fst

theorem names_bind : (tbl.bind added).names = added.map Prod.fst ++ tbl.names := by
  obtain ⟨_ | ⟨scope, outer⟩, outermost⟩ := tbl <;> simp [bind, names, innermost]

theorem lookup_eq_none {symbols : List (String × Symbol)} :
    symbols.lookup name = none ↔ name ∉ symbols.map Prod.fst := by
  simp only [List.lookup_eq_none_iff, List.mem_map, bne_iff_ne, not_exists, not_and]
  exact forall₂_congr fun _ _ => ne_comm

theorem define?_eq : tbl.define? name sym =
    if name ∈ tbl.names then none else some (tbl.bind [(name, sym)]) := by
  have defined (scope : Scope) : defineIn name sym scope =
      if name ∈ scope.symbols.map Prod.fst then none
      else some { scope with symbols := (name, sym) :: scope.symbols } := by
    cases found : scope.symbols.lookup name with
    | none => rw [defineIn, found, if_neg (lookup_eq_none.mp found)]
    | some =>
      rw [defineIn, found, if_pos]
      exact Classical.byContradiction fun fresh => by simp [lookup_eq_none.mpr fresh] at found
  obtain ⟨inner, outermost⟩ := tbl
  cases inner with
  | nil =>
    rw [define?, defined]
    exact apply_ite (Option.map _) (name ∈ outermost.symbols.map Prod.fst) _ _
  | cons scope outer =>
    refine (congrArg (Option.map _) (defined scope)).trans ?_
    exact apply_ite (Option.map _) (name ∈ scope.symbols.map Prod.fst) _ _

end SymbolTable

/-- The step does to the scopes what it does to define the name. -/
def Defines (name : String) (symbol : Ty → Symbol) (step : Checker Unit) : Prop :=
  ∀ pre, ∃ type, (step pre).2.scene =
    ⟨(pre.symbols.define? name (symbol type)).getD pre.symbols, pre.expected⟩

theorem define_defines : Defines name symbol (define name (symbol type) span problem) := by
  intro pre
  refine ⟨type, ?_⟩
  rw [define_eq]
  cases pre.symbols.define? name (symbol type) <;> rfl

theorem Defines.after {next : α → Checker Unit}
    (follows : Follows .nothing step other) (defines : ∀ val, Defines name symbol (next val)) :
    Defines name symbol (step >>= next) := by
  intro pre
  obtain ⟨type, isPost⟩ := defines (step pre).1 (step pre).2
  obtain ⟨sameSymbols, sameExpected⟩ := Scene.mk.inj (follows.stays pre)
  rw [sameSymbols, sameExpected] at isPost
  exact ⟨type, isPost⟩

theorem declareType_defines : Defines decl.name .type (declareType decl) :=
  .after resolveType_follows fun _ => define_defines

theorem declareVariable_defines : Defines decl.name .var (declareVariable decl) := by
  rw [declareVariable_eq]
  exact .after declaredType_follows fun _ => define_defines

/-- The step adds to the innermost scope what the items declare, and does no more to the scene. -/
def Binds (items : List Item) (step : Checker Unit) : Prop :=
  ∀ pre, ∃ added, (step pre).2.scene = ⟨pre.symbols.bind added, pre.expected⟩ ∧
    List.Forall₂ Enters (accepted pre.symbols.names items) added.reverse

section Items

variable {items : List Item} {next : Checker Unit}

theorem Binds.after (follows : Follows .nothing step other) (binds : Binds items next)
    (isAccepted : ∀ taken, accepted taken (item :: items) = accepted taken items) :
    Binds (item :: items) (step >>= fun _ => next) := by
  intro pre
  obtain ⟨added, isPost, entered⟩ := binds (step pre).2
  obtain ⟨sameSymbols, sameExpected⟩ := Scene.mk.inj (follows.stays pre)
  rw [sameSymbols, sameExpected] at isPost
  rw [sameSymbols, ← isAccepted] at entered
  exact ⟨added, isPost, entered⟩

theorem Binds.define (defines : Defines name symbol step) (binds : Binds items next)
    (enters : ∀ type, Enters declaration (name, symbol type))
    (isAccepted : ∀ taken, accepted taken (item :: items) =
      if name ∈ taken then accepted taken items
      else declaration :: accepted (name :: taken) items) :
    Binds (item :: items) (step >>= fun _ => next) := by
  intro pre
  obtain ⟨type, isMid⟩ := defines pre
  obtain ⟨added, isPost, entered⟩ := binds (step pre).2
  obtain ⟨midSymbols, sameExpected⟩ := Scene.mk.inj isMid
  rw [SymbolTable.define?_eq] at midSymbols
  rw [midSymbols, sameExpected] at isPost
  rw [midSymbols] at entered
  by_cases taken : name ∈ pre.symbols.names
  · rw [if_pos taken] at isPost entered
    refine ⟨added, isPost, ?_⟩
    rwa [isAccepted, if_pos taken]
  · rw [if_neg taken] at isPost entered
    refine ⟨added ++ [(name, symbol type)], ?_, ?_⟩
    · rw [← SymbolTable.bind_bind]
      exact isPost
    · rw [Option.getD_some, SymbolTable.names_bind] at entered
      rw [isAccepted, if_neg taken, List.reverse_append]
      exact .cons (enters type) entered

end Items

theorem checkItems_binds : (items : List Item) → Binds items (checkItems items)
  | [] => fun pre => ⟨[], by rw [SymbolTable.bind_nil]; rfl, .nil⟩
  | .statement inner :: rest => by
    rw [checkItems]
    exact .after (checkStatement_follows inner) (checkItems_binds rest) fun _ => rfl
  | .declaration (.routine inner) :: rest => by
    rw [checkItems]
    exact .after (report_follows _ _) (checkItems_binds rest) fun _ => rfl
  | .declaration (.var inner) :: rest => by
    rw [checkItems]
    exact .define declareVariable_defines (checkItems_binds rest) (fun _ => .var) fun _ => rfl
  | .declaration (.type inner) :: rest => by
    rw [checkItems]
    exact .define declareType_defines (checkItems_binds rest) (fun _ => .type) fun _ => rfl

/--
A statement and a routine leave all scopes and the expected result as they were.  The items of a
block add entries to the innermost scope, one for each variable or type that they declare directly
under a name that the scope does not have, and change nothing else.
-/
theorem statements_leave_no_trace (pre : Analysis) :
    (∀ stmt, (checkStatement stmt pre).2.symbols = pre.symbols ∧
      (checkStatement stmt pre).2.expected = pre.expected) ∧
      (∀ routine, (checkRoutine routine pre).2.symbols = pre.symbols ∧
        (checkRoutine routine pre).2.expected = pre.expected) ∧
      ∀ items, (checkItems items pre).2.expected = pre.expected ∧
        ∃ added, (checkItems items pre).2.symbols = pre.symbols.bind added ∧
          List.Forall₂ Enters (accepted pre.symbols.names items) added.reverse := by
  refine ⟨fun stmt => ?_, fun routine => ?_, fun items => ?_⟩
  · exact Scene.mk.inj ((checkStatement_follows stmt).stays pre)
  · exact Scene.mk.inj (checkRoutine_follows.stays pre)
  · obtain ⟨added, isPost, entered⟩ := checkItems_binds items pre
    obtain ⟨symbols, expected⟩ := Scene.mk.inj isPost
    exact ⟨expected, added, symbols, entered⟩

end Imperative.Typing
