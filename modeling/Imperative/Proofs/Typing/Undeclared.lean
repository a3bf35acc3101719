import Imperative.Proofs.Typing.Loss.Statement
import Imperative.Proofs.Typing.TypeTable

/-!
# One mistake is reported once

Without the declaration of a variable, the analysis reports the uses of the variable, one by one in
the order of the text, and nothing else.
-/

namespace Imperative.Typing

open List

section Programs

variable {lost : String} {depth : Nat} {names : Names} {tbl : List (Span × Ty)}

theorem defineParameters_loses (names : Names) :
    Forgets lost depth names (defineParameters params) Eq [] (names.withParameters params) := by
  induction params generalizing names with
  | nil => exact .pure rfl
  | cons first rest ih =>
    apply resolveSilently_loses.after
    rintro type _ rfl
    exact (define_loses (.var .same)).after fun _ _ _ => ih _

theorem checkBody_loses (expected : Ty) (body : Body) :
    ∃ after, Forgets lost depth names (checkBody expected body) Eq
      (body.occurrences names) after := by
  cases body with
  | expression val =>
    refine ⟨names, (infer_loses val).before fun type left fades => ?_⟩
    cases expected.isVoid with
    | true => exact .pure rfl
    | false => exact unless_loses (fades.assignable .same)
  | block inner =>
    obtain ⟨span, items⟩ := inner
    exact checkItems_loses depth names items

theorem setExpected_loses : Forgets lost depth names (setExpected expected) Eq [] names where
  grows _ := prefix_refl _
  ends lacks describes _ :=
    { value := rfl
      lacks := ⟨lacks.inner, lacks.outermost, rfl⟩
      describes := describes
      around := fun _ => rfl
      diagnostics := (append_nil _).symm
      spans := rfl
      known := by simp }

theorem expecting_loses (loses : Forgets lost depth names step Eq found later) :
    Forgets lost depth names (expecting expected step) Eq found later := by
  apply Loses.get
  intro st start lacks
  have sameExpected : start.expected = st.expected := lacks.expected
  rw [sameExpected]
  exact setExpected_loses.after fun _ _ _ => loses.before fun _ _ _ => setExpected_loses

theorem checkRoutine_loses :
    Forgets lost depth names (checkRoutine routine) Eq (routine.occurrences names) names := by
  obtain ⟨span, name, params, res, body⟩ := routine
  cases body with
  | none => exact .pure rfl
  | some body =>
    have inScope (type : Ty) : Forgets lost depth names (routineScope params body type) Eq
        (body.occurrences (names.withParameters params)) names := by
      obtain ⟨after, bodyLoses⟩ := @checkBody_loses lost (depth + 1)
        (names.withParameters params) type body
      exact scope_loses emptyScope_fades (fun _ describes => describes.enter)
        ((defineParameters_loses names).after fun _ _ _ => expecting_loses bodyLoses)
    cases res with
    | none => exact inScope .void
    | some written =>
      apply resolveSilently_loses.after
      rintro type _ rfl
      exact inScope type

theorem declareVariable_lost :
    Loses decl.name 0 names (declareVariable decl) (pure ()) Eq [] names where
  grows := (@declareVariable_loses decl.name 0 names decl).grows
  ends := by
    intro pre start lacks describes quiet
    rw [declareVariable_eq] at quiet ⊢
    have sameScene : (declaredType decl pre).2.scene = pre.scene :=
      declaredType_follows.stays pre
    rw [← sameScene] at lacks
    obtain ⟨-, defines⟩ := quiet_of_bind (declaredType_follows.grows pre)
      (define_follows.grows _) quiet
    obtain ⟨extended, defined⟩ := define_of_quiet defines
    have outside : (declaredType decl pre).2.symbols.inner = [] :=
      length_eq_zero_iff.mp (lacks.inner.length_eq.trans describes.depth)
    have outsideLeft : start.symbols.inner = [] := length_eq_zero_iff.mp describes.depth
    have isRun : (declaredType decl >>= fun type =>
        define decl.name (.var type) decl.span (.variableRedefined decl.name)) pre =
          define decl.name (.var (declaredType decl pre).1) decl.span
            (.variableRedefined decl.name) (declaredType decl pre).2 := rfl
    rw [isRun, define_of_some defined]
    exact .same rfl (lacks.forget outside outsideLeft defined) describes

theorem checkAll_cons_loses
    (restLoses : ∀ names, ∃ after, Loses lost depth names (checkAll rest) (checkAll restLeft) Eq
      (Declaration.allOccurrences names restLeft) after) :
    ∃ after, Loses lost depth names (checkAll (first :: rest)) (checkAll (first :: restLeft)) Eq
      (Declaration.allOccurrences names (first :: restLeft)) after := by
  cases first with
  | var inner =>
    obtain ⟨after, loses⟩ := restLoses ((inner.name, .variable) :: names)
    exact ⟨after, (declareVariable_loses inner).bind fun _ _ _ => loses⟩
  | type inner => exact restLoses names
  | routine inner =>
    obtain ⟨after, loses⟩ := restLoses names
    exact ⟨after, checkRoutine_loses.bind fun _ _ _ => loses⟩

theorem checkAll_loses (decls : List Declaration) (names : Names) :
    ∃ after, Forgets lost depth names (checkAll decls) Eq
      (Declaration.allOccurrences names decls) after := by
  induction decls generalizing names with
  | nil => exact ⟨names, .pure rfl⟩
  | cons first rest ih => exact checkAll_cons_loses ih

theorem checkAll_lost (names : Names) :
    ∃ after, Loses decl.name 0 names (checkAll (earlier ++ .var decl :: later))
      (checkAll (earlier ++ later)) Eq (Declaration.allOccurrences names (earlier ++ later))
      after := by
  induction earlier generalizing names with
  | nil =>
    obtain ⟨after, laterLoses⟩ := @checkAll_loses decl.name 0 later names
    exact ⟨after, declareVariable_lost.after fun _ _ _ => laterLoses⟩
  | cons first rest ih => exact checkAll_cons_loses ih

theorem declareAll_without :
    declareAll (earlier ++ .var decl :: later) = declareAll (earlier ++ later) := by
  induction earlier with
  | nil => rw [nil_append, declareAll, nil_append]
  | cons first rest ih => cases first <;> simp only [cons_append, declareAll, ih]

theorem Follows.observes (follows : Follows .nothing step other)
    (records : Records (fun _ => True) step []) : Observes tbl step fun _ _ => True := by
  intro pre clean within
  have grows := follows.grows pre
  rw [clean] at grows
  exact ⟨prefix_nil.mp grows, List.Subset.trans records.subset within, follows.stays pre, trivial⟩

abbrev Introduces (tbl : List (Span × Ty)) (step : Checker Unit) (extend : Names → Names) : Prop :=
  Ensures tbl step fun pre _ after =>
    ∀ names, Describes 0 names pre.symbols → Describes 0 (extend names) after.symbols

theorem declareType_introduces :
    Introduces tbl (declareType decl) fun names => (decl.name, .type) :: names := by
  have resolves : Repeats .nothing (resolveType (some decl.name) decl.type) := resolveType_follows
  apply Ensures.bind (resolves.observes (resolveType_records
    (Outline.all_of_forall (fun _ => trivial) _)))
  intro type
  apply define_ensures.imp
  rintro _ _ after ⟨extended, defined, rfl⟩ pre ⟨rfl, -⟩ names describes
  exact describes.define defined

theorem declareRoutine_introduces :
    Introduces tbl (declareRoutine routine) fun names => (routine.name, .routine) :: names := by
  apply (declareRoutine_enrols (signature_follows.observes
    (signature_records (Outline.all_of_forall (fun _ => trivial) _)))).imp
  rintro pre _ ⟨extended, _⟩ ⟨declared, -, -, enrols⟩ names describes
  have outside := length_eq_zero_iff.mp describes.depth
  cases enrols with
  | first defined => exact describes.define defined
  | completed found _ _ _ replaced =>
    rw [SymbolTable.lookupGlobal_eq outside] at found
    obtain ⟨stillOutside, isDefined⟩ :=
      replaced ▸ SymbolTable.context_of_replace outside found (.routine declared)
    exact describes.extend (by rw [stillOutside, outside]) isDefined
  | repeated found =>
    rw [SymbolTable.lookupGlobal_eq outside] at found
    exact describes.extend rfl (Context.define_found found).symm

theorem declareAll_introduces :
    Introduces tbl (declareAll decls) fun names => names.hoist decls := by
  induction decls with
  | nil =>
    apply Ensures.imp (Observes.pure ())
    rintro pre _ after ⟨rfl, -⟩ names describes
    exact describes
  | cons first rest ih =>
    cases first with
    | var inner => exact ih
    | type inner =>
      apply Ensures.bind declareType_introduces
      intro _
      exact ih.imp fun _ _ _ restIntroduces _ introduces names describes =>
        restIntroduces _ (introduces names describes)
    | routine inner =>
      apply Ensures.bind declareRoutine_introduces
      intro _
      exact ih.imp fun _ _ _ restIntroduces _ introduces names describes =>
        restIntroduces _ (introduces names describes)

theorem basicSymbols_described : Describes 0 Names.basic Analysis.initial.symbols where
  depth := rfl
  kinds name := by
    rw [SymbolTable.context_eq]
    simp only [SymbolTable.entries, Analysis.initial, Analysis.basicSymbols, SymbolTable.empty,
      Names.basic, nil_append, flatMap_cons, flatMap_nil, append_nil,
      lookup_cons, lookup_nil]
    cases name == "boolean" <;> cases name == "real" <;> cases name == "integer" <;> rfl

/-- After the first pass of an accepted program the types and routines are in scope. -/
theorem declareAll_described (clean : (declareAll decls Analysis.initial).2.diagnostics = []) :
    Describes 0 (Names.basic.hoist decls) (declareAll decls Analysis.initial).2.symbols :=
  declareAll_introduces.related clean .basic basicSymbols_described

theorem passes_of_clean {program : Program}
    (grows : ∀ pre, pre.diagnostics <+: (checkAll program.declarations pre).2.diagnostics)
    (analyzes : program.analyze.diagnostics = []) :
    let first := (declareAll program.declarations .initial).2
    first.diagnostics = [] ∧
      (checkAll program.declarations first).2.diagnostics = first.diagnostics := by
  intro first
  have secondClean : (checkAll program.declarations first).2.diagnostics = [] := analyzes
  have firstClean : first.diagnostics = [] := prefix_nil.mp (secondClean ▸ grows first)
  exact ⟨firstClean, secondClean.trans firstClean.symm⟩

end Programs

/--
If the declaration of a variable is taken out of an accepted program, every occurrence of its name
where nothing else has that name is reported, in the order of the text, and nothing else is.
-/
theorem diagnostics_without_variable {program : Program} {earlier later : List Declaration}
    {decl : VarDecl} (isDeclared : program.declarations = earlier ++ .var decl :: later)
    (analyzes : program.analyze.diagnostics = []) :
    let rest : Program := { program with declarations := earlier ++ later }
    rest.analyze.diagnostics =
      (rest.occurrences.filterMap (Occurrence.unbound? decl.name)).map fun span =>
        { stage := .semantic, span, message := "Undeclared identifier " ++ quoted decl.name } := by
  intro rest
  have sameFirst : declareAll rest.declarations = declareAll program.declarations := by
    rw [isDeclared, declareAll_without]
  obtain ⟨after, loses⟩ := checkAll_lost (Names.basic.hoist rest.declarations)
  rw [← isDeclared] at loses
  obtain ⟨firstClean, secondQuiet⟩ := passes_of_clean loses.grows analyzes
  have describes := @declareAll_described rest.declarations (sameFirst.symm ▸ firstClean)
  rw [sameFirst] at describes
  have reports := (loses.ends .refl describes secondQuiet).diagnostics
  rw [firstClean, ← sameFirst] at reports
  exact reports

/-- A variable of which others are made, and whose name a parameter and a local variable have. -/
def sharedText : String :=
  "var y : array[2] integer\nvar z is y[1]\nroutine f(y : integer) : integer => y + z\n" ++
    "routine main() is\nfor x in y loop\nprint x + z, f(x)\nend\ny[z] := f(y[2])\n" ++
    "var y is 1\nprint y\nend\n"

theorem sharedText_accepted :
    (match Program.parse sharedText with
      | ⟨⟨span, .var decl :: later⟩, diagnostics⟩ =>
        diagnostics.isEmpty &&
          (Program.analyze ⟨span, .var decl :: later⟩).diagnostics.isEmpty &&
            decl.name == "y" &&
              ((Program.occurrences ⟨span, later⟩).filterMap (Occurrence.unbound? "y")).map
                (fun place => (place.line, place.column)) == [(2, 10), (5, 10), (8, 1), (8, 11)]
      | _ => false) = true := by
  decide +kernel

theorem diagnostics_without_variable_sharedText :
    ∃ span decl later, (Program.parse sharedText).value = ⟨span, .var decl :: later⟩ ∧
      (Program.parse sharedText).value.analyze.diagnostics = [] ∧
      (Program.analyze ⟨span, later⟩).diagnostics.map
          (fun found => ((found.span.line, found.span.column), found.message)) =
        [((2, 10), "Undeclared identifier 'y'"), ((5, 10), "Undeclared identifier 'y'"),
          ((8, 1), "Undeclared identifier 'y'"), ((8, 11), "Undeclared identifier 'y'")] := by
  have accepted := sharedText_accepted
  split at accepted
  · next span decl later diagnostics isParsed =>
    simp only [Bool.and_eq_true, List.isEmpty_iff, beq_iff_eq] at accepted
    obtain ⟨⟨⟨-, analyzes⟩, isName⟩, places⟩ := accepted
    have reports := @diagnostics_without_variable ⟨span, .var decl :: later⟩ [] later decl rfl
      analyzes
    refine ⟨span, decl, later, by rw [isParsed], by rw [isParsed]; exact analyzes, ?_⟩
    rw [isName] at reports
    have asPlaces : ∀ found : List Span,
        (found.map fun span => (⟨.semantic, span, "Undeclared identifier 'y'"⟩ : Diagnostic)).map
            (fun found => ((found.span.line, found.span.column), found.message)) =
          (found.map fun place => (place.line, place.column)).map
            fun place => (place, "Undeclared identifier 'y'") := by
      intro found
      simp [Function.comp_def]
    exact (congrArg (List.map _) reports).trans ((asPlaces _).trans (congrArg (List.map _) places))
  · cases accepted

end Imperative.Typing
