import Imperative.Proofs.Parser.Writings
import Imperative.Proofs.Typing.Coverage
import Imperative.Proofs.Typing.Passage

/-!
# No error type is left

The error type stands for what could not be typed.  In an accepted text whose parameters are apart
it occurs neither in the table of types nor in any symbol that is entered on the way.
-/

namespace Imperative

mutual

/-- The error type occurs in the type. -/
def Ty.hasError : Ty → Bool
  | .error => true
  | .array element _ => element.hasError
  | .record _ fields => Ty.fieldsHaveError fields
  | .integer | .real | .boolean | .void => false

def Ty.fieldsHaveError : List (String × Ty) → Bool
  | [] => false
  | (_, type) :: rest => type.hasError || Ty.fieldsHaveError rest

end

mutual

theorem Ty.Proper.hasError_eq : {type : Ty} → type.Proper → type.hasError = false
  | .integer, _ | .real, _ | .boolean, _ => by simp [Ty.hasError]
  | .void, proper | .error, proper => proper.elim
  | .array element size, proper => @Ty.Proper.hasError_eq element proper
  | .record name fields, proper => @Ty.FieldsProper.fieldsHaveError_eq fields proper

theorem Ty.FieldsProper.fieldsHaveError_eq : {fields : List (String × Ty)} →
    Ty.FieldsProper fields → Ty.fieldsHaveError fields = false
  | [], _ => by rw [Ty.fieldsHaveError]
  | (name, type) :: rest, proper => by
    rw [Ty.fieldsHaveError, Ty.Proper.hasError_eq proper.1, proper.2.fieldsHaveError_eq,
      Bool.or_false]

end

end Imperative

namespace Imperative.Typing

variable {ctx : Context}

theorem Returnable.hasError_eq (returnable : Returnable type) : type.hasError = false := by
  rcases returnable with isVoid | proper
  · cases type <;> simp_all [Ty.isVoid, Ty.hasError]
  · exact proper.hasError_eq

theorem Symbol.Proper.hasError_eq {sym : Symbol} (proper : sym.Proper) {type : Ty}
    (mem : type ∈ sym.types) : type.hasError = false := by
  cases sym with
  | var | type =>
    obtain rfl := List.mem_singleton.mp mem
    exact Ty.Proper.hasError_eq proper
  | routine sig =>
    rcases List.mem_cons.mp mem with rfl | isParam
    · exact proper.2.hasError_eq
    · obtain ⟨param, inParams, rfl⟩ := List.mem_map.mp isParam
      exact (proper.1 param inParams).hasError_eq

theorem leads_to_declared (st : Analysis) :
    Relation.ReflTransGen Leads (.declare declarations, st)
      (.declare [], (declareAll declarations st).2) := by
  induction declarations generalizing st with
  | nil => exact .refl
  | cons first rest ih =>
    cases first with
    | var decl => exact .head .passVariable (ih _)
    | type decl => exact .head .typeDeclared (ih _)
    | routine routine => exact .head .routineDeclared (ih _)

theorem Starts.sound (wellNamed : program.WellNamed)
    (apart : program.ParametersApart) (analyzes : program.analyze.diagnostics = [])
    (starts : Starts program start) : Sound start := by
  have firstClean : (declareAll program.declarations .initial).2.diagnostics = [] :=
    (checkAll_follows program.declarations).clean analyzes
  have first : Sound (.declare program.declarations, .initial) :=
    ⟨SymbolTable.each_basicSymbols fun name => by cases name <;> trivial, firstClean, wellNamed⟩
  cases starts with
  | first => exact first
  | second =>
    obtain ⟨outside, -, declared⟩ :=
      (declareAll_ensures program.declarations wellNamed).related firstClean rfl
    refine ⟨(sound_of_leads (leads_to_declared _) first).proper, analyzes, outside, wellNamed,
      fun routine mem isDefined => ⟨?_, ?_⟩⟩
    · exact declared.signature_of_body mem isDefined
    · exact apart routine (Program.mem_routines.mpr mem) isDefined

section Occurrences

variable {Holds : Context → Expr → Prop} {Property : Expr → Prop}

/-- What holds of an expression among proper symbols gives the property of all that is inside. -/
def Carries (Holds : Context → Expr → Prop) (Property : Expr → Prop) : Prop :=
  ∀ ctx tree, ctx.Proper → Holds ctx tree → ∀ node ∈ tree.nodes, Property node

theorem Carries.tree (carries : Carries Holds Property) (proper : ctx.Proper) {tree : Expr}
    (holds : Holds ctx tree) : ∀ occ ∈ tree.occurrences names, Property occ.tree := by
  intro occ mem
  obtain ⟨node, inTree, rfl⟩ := List.mem_map.mp mem
  exact carries ctx tree proper holds node inTree

theorem Carries.option (carries : Carries Holds Property) (proper : ctx.Proper)
    {tree : Option Expr} (holds : ∀ val, tree = some val → Holds ctx val) :
    ∀ occ ∈ Expr.optionOccurrences names tree, Property occ.tree := by
  cases tree with
  | none => exact fun _ mem => by cases mem
  | some val => exact carries.tree proper (holds val rfl)

theorem Carries.trees (carries : Carries Holds Property) (proper : ctx.Proper)
    {trees : List Expr} (holds : ∀ tree ∈ trees, Holds ctx tree) :
    ∀ occ ∈ Expr.allOccurrences names trees, Property occ.tree := by
  induction trees with
  | nil => exact fun _ mem => by cases mem
  | cons first rest ih =>
    rw [Expr.allOccurrences_cons]
    refine List.forall_mem_append.mpr ⟨carries.tree proper (holds first (by simp)), ?_⟩
    exact ih fun tree mem => holds tree (by simp [mem])

mutual

theorem Carries.statement (carries : Carries Holds Property) : (statement : Statement) →
    {ctx : Context} → ctx.Proper →
    StatementThroughout Converts Holds ctx statement → (names : Names) →
    ∀ occ ∈ statement.occurrences names, Property occ.tree
  | .assign _ tgt val, _, proper, throughout, names => by
    rw [Statement.occurrences, List.forall_mem_append]
    exact ⟨carries.tree proper throughout.1, carries.tree proper throughout.2⟩
  | .call _ _ _, _, proper, throughout, names => carries.tree proper throughout
  | .branch _ _ consequent none, _, proper, throughout, names => by
    rw [Statement.occurrences, List.forall_mem_append]
    exact ⟨carries.tree proper throughout.1, carries.block consequent proper throughout.2 names⟩
  | .branch _ _ consequent (some alternative), _, proper, throughout, names => by
    rw [Statement.occurrences, List.forall_mem_append, List.forall_mem_append]
    exact ⟨carries.tree proper throughout.1, carries.block consequent proper throughout.2.1 names,
      carries.block alternative proper throughout.2.2 names⟩
  | .whileLoop _ _ body, _, proper, throughout, names => by
    rw [Statement.occurrences, List.forall_mem_append]
    exact ⟨carries.tree proper throughout.1, carries.block body proper throughout.2 names⟩
  | .rangeLoop _ iter _ _ _ body, _, proper, throughout, names => by
    rw [Statement.occurrences, List.forall_mem_append, List.forall_mem_append]
    have iterProper : (Symbol.var .integer).Proper := trivial
    exact ⟨carries.tree proper throughout.1, carries.tree proper throughout.2.1,
      carries.block body (proper.define iterProper) throughout.2.2 _⟩
  | .arrayLoop _ iter _ _ body, _, proper, throughout, names => by
    rw [Statement.occurrences, List.forall_mem_append]
    obtain ⟨arrayHolds, element, size, arrayTyped, inBody⟩ := throughout
    have iterProper : (Symbol.var element).Proper := arrayTyped.element_proper proper
    exact ⟨carries.tree proper arrayHolds, carries.block body (proper.define iterProper) inBody _⟩
  | .giveBack _ none, _, _, _, _ => fun _ mem => by cases mem
  | .giveBack _ (some _), _, proper, throughout, names => carries.tree proper throughout
  | .print _ _, _, proper, throughout, names => carries.trees proper throughout
  | .empty _, _, _, _, _ => fun _ mem => by cases mem
  | .block _ inner, _, proper, throughout, names => carries.block inner proper throughout names

theorem Carries.block (carries : Carries Holds Property) : (block : Block) →
    {ctx : Context} → ctx.Proper →
    BlockThroughout Converts Holds ctx block → (names : Names) →
    ∀ occ ∈ block.occurrences names, Property occ.tree
  | .mk _ items, _, proper, throughout, names => carries.items items proper throughout names

theorem Carries.items (carries : Carries Holds Property) : (items : List Item) →
    {ctx : Context} → ctx.Proper →
    ItemsThroughout Converts Holds ctx items → (names : Names) →
    ∀ occ ∈ Item.allOccurrences names items, Property occ.tree
  | [], _, _, _, _ => fun _ mem => by cases mem
  | .declaration (.var decl) :: rest, _, proper, throughout, names => by
    obtain ⟨initHolds, type, declTyped, inRest⟩ := throughout
    have symProper : (Symbol.var type).Proper := declTyped.proper proper
    rw [Item.allOccurrences, List.forall_mem_append]
    exact ⟨carries.option proper initHolds, carries.items rest (proper.define symProper) inRest _⟩
  | .declaration (.type decl) :: rest, _, proper, throughout, names => by
    obtain ⟨type, resolves, inRest⟩ := throughout
    have symProper : (Symbol.type type).Proper := resolves.proper proper
    exact carries.items rest (proper.define symProper) inRest _
  | .declaration (.routine _) :: _, _, _, throughout, _ => throughout.elim
  | .statement first :: rest, _, proper, throughout, names => by
    rw [Item.allOccurrences, List.forall_mem_append]
    exact ⟨carries.statement first proper throughout.1 names,
      carries.items rest proper throughout.2 names⟩

end

theorem Carries.routine (carries : Carries Holds Property) (proper : ctx.Proper) {routine : Routine}
    (throughout : RoutineThroughout Converts Holds ctx routine) :
    ∀ occ ∈ routine.occurrences names, Property occ.tree := by
  obtain ⟨span, name, params, res, body⟩ := routine
  cases body with
  | none => exact fun _ mem => by cases mem
  | some body =>
    obtain ⟨sig, declared, inBody⟩ := throughout body rfl
    have innerProper := proper.defineAll (proper _ _ declared).1
    rw [Routine.occurrences]
    cases body with
    | expression val => exact carries.tree innerProper inBody
    | block inner => exact carries.block inner innerProper inBody _

theorem Carries.declarations (carries : Carries Holds Property) {declarations : List Declaration}
    (proper : ctx.Proper) (throughout : DeclarationsThroughout Converts Holds ctx declarations)
    (names : Names) : ∀ occ ∈ Declaration.allOccurrences names declarations, Property occ.tree := by
  induction declarations generalizing ctx names with
  | nil => exact fun _ mem => by cases mem
  | cons first rest ih =>
    cases first with
    | var decl =>
      obtain ⟨-, initHolds, type, declTyped, inRest⟩ := throughout
      have symProper : (Symbol.var type).Proper := declTyped.proper proper
      rw [Declaration.allOccurrences, List.forall_mem_append]
      exact ⟨carries.option proper initHolds, ih (proper.define symProper) inRest _⟩
    | type decl => exact ih proper throughout names
    | routine routine =>
      rw [Declaration.allOccurrences, List.forall_mem_append]
      exact ⟨carries.routine proper throughout.1, ih proper throughout.2 names⟩

end Occurrences

theorem carries_recorded :
    Carries (Recorded Converts tbl) fun node =>
      ∃ type, Returnable type ∧ (node.span, type) ∈ tbl := by
  intro ctx tree proper recorded node mem
  obtain ⟨type, typed, entered⟩ := recorded node mem
  exact ⟨type, typed.returnable proper, entered⟩

/-- The types in the table of an accepted program are proper, or of calls without result. -/
theorem returnable_of_recorded {program : Program} (distinct : (program.nodes.map Expr.span).Nodup)
    (wellNamed : program.WellNamed) (apart : program.ParametersApart)
    (analyzes : program.analyze.diagnostics = [])
    (recorded : entry ∈ program.analyze.types) : Returnable entry.2 := by
  obtain ⟨ctx, declared, throughout⟩ :=
    throughout_of_analyze admits_assignable wellNamed apart analyzes
  have isKey : entry.1 ∈ program.occurrences.map (·.tree.span) := by
    rw [← List.mem_reverse, ← spans_of_clean analyzes]
    exact List.mem_map_of_mem recorded
  obtain ⟨occ, occurs, sameSpan⟩ := List.mem_map.mp isKey
  obtain ⟨type, returnable, entered⟩ :=
    carries_recorded.declarations (declared.proper Context.basic_proper) throughout _ occ occurs
  -- There is one entry for each span, so the two types are the same.
  rw [sameSpan] at entered
  have found := Program.typeAt_of_mem distinct entered
  rw [Program.typeAt_of_mem distinct recorded] at found
  exact Option.some.inj found ▸ returnable

/--
In an accepted text whose parameters are apart, no type in the table and no type of a symbol that
is in scope at any time of the analysis contains the error type.
-/
theorem accepted_error_free {text : String} (parses : (Program.parse text).diagnostics = [])
    (analyzes : (Program.parse text).value.analyze.diagnostics = [])
    (apart : (Program.parse text).value.ParametersApart) :
    (∀ entry ∈ (Program.parse text).value.analyze.types, entry.2.hasError = false) ∧
      ∀ state, Passes (Program.parse text).value state →
        ∀ entry ∈ state.symbols.entries, ∀ type ∈ entry.2.types, type.hasError = false := by
  have wellNamed := Program.parse_wellNamed parses
  refine ⟨fun entry recorded => ?_, fun state passes entry entered type member => ?_⟩
  · exact (returnable_of_recorded (Program.parse_spans_nodup parses) wellNamed apart analyzes
      recorded).hasError_eq
  · obtain ⟨start, task, starts, leads⟩ := passes
    have sound := sound_of_leads leads (starts.sound wellNamed apart analyzes)
    exact (sound.proper entry entered).hasError_eq member

/-- A program with all kinds of symbols, and with a routine whose parameters hide types. -/
def enteredText : String :=
  "type P is record\nvar x : real\nend\nroutine sum(a : array[] P, P : integer) : real\n" ++
    "var g is 2\nroutine sum(a : array[] P, P : integer) : real is\nvar t : real\n" ++
    "for p in a loop\ntype Q is integer\nvar q : Q is P\nt := t + p.x * q\nend\nreturn t\nend\n"

theorem enteredText_accepted :
    ((Program.parse enteredText).diagnostics.isEmpty &&
      (Program.parse enteredText).value.analyze.diagnostics.isEmpty &&
        decide (Program.parse enteredText).value.ParametersApart &&
          (Program.parse enteredText).value.analyze.types.length == 11) = true := by
  decide +kernel

theorem accepted_error_free_enteredText :
    (Program.parse enteredText).value.analyze.types.length = 11 ∧
      Passes (Program.parse enteredText).value (Program.parse enteredText).value.analyze ∧
      (∀ entry ∈ (Program.parse enteredText).value.analyze.types, entry.2.hasError = false) ∧
      ∀ state, Passes (Program.parse enteredText).value state →
        ∀ entry ∈ state.symbols.entries, ∀ type ∈ entry.2.types, type.hasError = false := by
  have accepted := enteredText_accepted
  simp only [Bool.and_eq_true, List.isEmpty_iff, decide_eq_true_eq, beq_iff_eq] at accepted
  obtain ⟨⟨⟨parses, analyzes⟩, apart⟩, count⟩ := accepted
  exact ⟨count, passes_analyze, accepted_error_free parses analyzes apart⟩

def hiddenPrintText : String := "type T is real\nroutine f(T : integer, x : T) is\nprint x\nend\n"

/-- Without the condition on parameters, an error type is recorded and not reported. -/
theorem error_recorded_hiddenPrintText :
    ((Program.parse hiddenPrintText).diagnostics.isEmpty &&
      (Program.parse hiddenPrintText).value.analyze.diagnostics.isEmpty &&
        (Program.parse hiddenPrintText).value.analyze.types.any fun entry =>
          entry.2.hasError) = true := by
  decide +kernel

end Imperative.Typing
