import Imperative.Proofs.Typing.Statement

/-!
# The analysis of programs follows the typing rules

The first pass leads from the basic types to the context of all declared types and routines, and
the second pass checks variables and bodies in it.
-/

namespace Imperative

/-- No parameter has a type that mentions an earlier one. -/
def Routine.ParametersApart (routine : Routine) : Prop :=
  routine.parameters.Pairwise fun earlier later => earlier.name ∉ later.type.names

instance (routine : Routine) : Decidable routine.ParametersApart :=
  inferInstanceAs (Decidable (routine.parameters.Pairwise _))

/-- In every routine with a body, parameters are apart from the types of later ones. -/
def Program.ParametersApart (program : Program) : Prop :=
  ∀ routine ∈ program.routines, routine.isForward = false → routine.ParametersApart

instance (program : Program) : Decidable program.ParametersApart :=
  inferInstanceAs (Decidable (∀ routine ∈ program.routines, _))

theorem Program.mem_routines {program : Program} :
    routine ∈ program.routines ↔ .routine routine ∈ program.declarations := by
  unfold Program.routines
  rw [List.mem_filterMap]
  constructor
  · rintro ⟨declaration, mem, matched⟩
    cases declaration with
    | routine inner =>
      cases matched
      exact mem
    | var | type => cases matched
  · intro mem
    exact ⟨.routine routine, mem, rfl⟩

end Imperative

namespace Imperative.Typing

variable {program : Program} {routine : Routine}

variable {Converts : Ty → Ty → Prop}

theorem parameterTypes_observes (wellNamed : ∀ param ∈ params, param.type.WellNamed) :
    Observes tbl (parameterTypes params) fun scene types =>
      List.Forall₂
        (fun (param : Parameter) (declared : String × Ty) =>
          declared.1 = param.name ∧ Resolves scene.context none param.type declared.2)
        params types := by
  induction params with
  | nil =>
    apply (Observes.pure _).imp
    rintro scene types rfl
    exact .nil
  | cons first rest ih =>
    apply (resolveType_observes (wellNamed first (by simp))).bind
    intro firstType
    apply (ih fun param mem => wellNamed param (by simp [mem])).bind
    intro types
    apply (Observes.pure _).imp
    rintro scene res rfl restResolve firstResolves
    exact .cons ⟨rfl, firstResolves⟩ restResolve

theorem signature_observes (wellNamed : ∀ name ∈ routine.typeNames, DeclaredName name) :
    Observes tbl (signature routine) fun scene declared =>
      Declares scene.context routine declared := by
  have paramsNamed : ∀ param ∈ routine.parameters, param.type.WellNamed := by
    intro param mem name mentioned
    apply wellNamed
    simp only [Routine.typeNames, List.mem_append, List.mem_flatMap]
    exact .inl (.inl ⟨param, mem, mentioned⟩)
  apply (parameterTypes_observes paramsNamed).bind
  intro params
  cases given : routine.result with
  | none =>
    apply (Observes.pure Ty.void).bind
    intro res
    apply (Observes.pure _).imp
    rintro scene declared rfl rfl resolve
    exact ⟨resolve, by simp [given], fun _ => rfl, rfl⟩
  | some written =>
    have resNamed : written.WellNamed := by
      intro name mentioned
      apply wellNamed
      simp [Routine.typeNames, given, TypeExpr.namesOf?, mentioned]
    apply (resolveType_observes resNamed).bind
    intro res
    apply (Observes.pure _).imp
    rintro scene declared rfl resolves resolve
    refine ⟨resolve, ?_, by simp [given], rfl⟩
    intro other same
    obtain rfl : written = other := by simpa [given] using same
    exact resolves

/-- What is known about declarations of the outermost scope that are accepted. -/
def DeclarationsAccepted (relation : Context → Context → Prop) (pre post : Scene) : Prop :=
  pre.symbols.inner = [] →
    post.symbols.inner = [] ∧ post.expected = pre.expected ∧ relation pre.context post.context

theorem DeclarationsAccepted.defined (defined : pre.symbols.define? name sym = some extended)
    (restAccepted : DeclarationsAccepted rest { pre with symbols := extended } post)
    (related : pre.context name = none → rest (Context.define name sym pre.context) post.context →
      relation pre.context post.context) :
    DeclarationsAccepted relation pre post := by
  intro outside
  obtain ⟨fresh, stillOutside⟩ := SymbolTable.fresh_of_define outside defined
  obtain ⟨endsOutside, sameExpected, restRelated⟩ := restAccepted stillOutside
  refine ⟨endsOutside, sameExpected, related fresh ?_⟩
  rw [Scene.context, SymbolTable.context_of_define defined] at restRelated
  exact restRelated

theorem declareRoutine_ensures (wellNamed : ∀ name ∈ routine.typeNames, DeclaredName name) :
    Ensures tbl (declareRoutine routine) fun pre _ post =>
      DeclarationsAccepted
        (fun ctx extended => ∀ rest final, Declared extended rest final →
          Declared ctx (.routine routine :: rest) final)
        pre post := by
  apply (declareRoutine_enrols (signature_observes wellNamed)).imp
  rintro pre _ ⟨extended, _⟩ ⟨declared, declares, same, enrols⟩ outside
  cases enrols with
  | first defined =>
    obtain ⟨fresh, stillOutside⟩ := SymbolTable.fresh_of_define outside defined
    refine ⟨stillOutside, same, fun rest final restDeclared => ?_⟩
    rw [Scene.context, SymbolTable.context_of_define defined] at restDeclared
    exact .routine fresh declares restDeclared
  | completed found incomplete agrees hasBody replaced =>
    rw [SymbolTable.lookupGlobal_eq outside] at found
    obtain ⟨stillOutside, ctx⟩ :=
      replaced ▸ SymbolTable.context_of_replace outside found (.routine declared)
    refine ⟨stillOutside, same, fun rest final restDeclared => ?_⟩
    rw [Scene.context, ctx] at restDeclared
    exact .completed found incomplete declares agrees hasBody restDeclared
  | repeated found agrees noBody =>
    rw [SymbolTable.lookupGlobal_eq outside] at found
    exact ⟨outside, same, fun rest final => .repeated found declares agrees noBody⟩

theorem declareAll_ensures : (decls : List Declaration) →
    (∀ declaration ∈ decls, ∀ name ∈ declaration.typeNames, DeclaredName name) →
    Ensures tbl (declareAll decls) fun pre _ post =>
      DeclarationsAccepted (fun ctx final => Declared ctx decls final) pre post
  | [], _ => by
    apply Ensures.imp (Observes.pure ())
    rintro pre _ post ⟨rfl, -⟩ outside
    exact ⟨outside, rfl, .nil⟩
  | .var _ :: rest, wellNamed => by
    apply (declareAll_ensures rest fun declaration mem => wellNamed declaration (by simp [mem])).imp
    intro pre _ post accepted outside
    obtain ⟨endsOutside, sameExpected, declared⟩ := accepted outside
    exact ⟨endsOutside, sameExpected, .var declared⟩
  | .type decl :: rest, wellNamed => by
    apply Ensures.bind (declareType_ensures (wellNamed (.type decl) (by simp)))
    intro _
    apply (declareAll_ensures rest fun declaration mem => wellNamed declaration (by simp [mem])).imp
    rintro _ _ post restAccepted pre ⟨type, extended, resolves, defined, rfl⟩
    exact .defined defined restAccepted fun fresh declared => .type fresh resolves declared
  | .routine routine :: rest, wellNamed => by
    apply Ensures.bind (declareRoutine_ensures (wellNamed (.routine routine) (by simp)))
    intro _
    apply (declareAll_ensures rest fun declaration mem => wellNamed declaration (by simp [mem])).imp
    intro mid _ post restAccepted pre accepted outside
    obtain ⟨stillOutside, sameExpected, declares⟩ := accepted outside
    obtain ⟨endsOutside, stillSame, declared⟩ := restAccepted stillOutside
    exact ⟨endsOutside, stillSame.trans sameExpected, declares rest _ declared⟩

theorem Resolves.define_other (notMentioned : name ∉ written.names)
    (resolves : Resolves ctx hint written type) :
    Resolves (Context.define name sym ctx) hint written type := by
  have same :
      resolve (Context.define name sym ctx).typeNamed hint written =
        resolve ctx.typeNamed hint written := by
    apply resolve_congr
    intro mentioned mem
    have different : mentioned ≠ name := by
      rintro rfl
      exact notMentioned mem
    simp only [Context.typeNamed, Context.define_other different]
  exact ⟨resolves.wellNamed, by rw [same]; exact resolves.clean, by rw [same]; exact resolves.value⟩

theorem defineParameters_ensures :
    Ensures tbl (defineParameters params) fun pre _ post =>
      pre.symbols.inner ≠ [] →
        post.symbols.leave = pre.symbols.leave ∧ post.symbols.inner ≠ [] ∧
          post.expected = pre.expected ∧
          ∀ types, (params.Pairwise fun earlier later => earlier.name ∉ later.type.names) →
            List.Forall₂
              (fun (param : Parameter) (declared : String × Ty) =>
                declared.1 = param.name ∧ Resolves pre.context none param.type declared.2)
              params types → post.context = Context.defineAll types pre.context := by
  induction params with
  | nil =>
    apply Ensures.imp (Observes.pure ())
    rintro pre _ post ⟨rfl, -⟩ inside
    refine ⟨rfl, inside, rfl, fun types _ resolve => ?_⟩
    cases resolve
    rfl
  | cons first rest ih =>
    apply Ensures.bind resolveSilently_observes
    intro found
    apply Ensures.bind define_ensures
    intro _
    apply ih.imp
    rintro _ _ post restDefined scene ⟨extended, defined, rfl⟩ _ ⟨rfl, silent⟩ inside
    have leaves := SymbolTable.leave_of_define inside defined
    have ctx : (Scene.mk extended scene.expected).context =
        Context.define first.name (.var found) scene.context :=
      SymbolTable.context_of_define defined
    obtain ⟨left, stillInside, sameExpected, restCtx⟩ := restDefined leaves.2
    refine ⟨left.trans leaves.1, stillInside, sameExpected, fun types apart resolve => ?_⟩
    obtain ⟨firstApart, restApart⟩ := List.pairwise_cons.mp apart
    cases resolve with
    | @cons _ declared _ types firstResolves restResolve =>
      obtain ⟨name, type⟩ := declared
      obtain ⟨rfl, resolves⟩ := firstResolves
      obtain rfl : found = type := silent.trans resolves.value
      rw [ctx] at restCtx
      have both := (List.forall₂_and_left _ _).mpr ⟨firstApart, restResolve⟩
      exact restCtx types restApart
        (both.imp fun _ _ entry => ⟨entry.2.1, entry.2.2.define_other entry.1⟩)

theorem checkBody_ensures (admits : Admits Converts)
    (wellNamed : ∀ name ∈ body.typeNames, DeclaredName name) :
    Ensures tbl (checkBody res body) fun pre _ post =>
      pre.symbols.inner ≠ [] → pre.expected = some res →
        post.symbols.leave = pre.symbols.leave ∧ post.expected = pre.expected ∧
          (pre.context.Proper → Returnable res →
            BodyTyped Converts pre.context res body ∧
              BodyThroughout Converts (Recorded Converts tbl) pre.context body) := by
  cases body with
  | expression val =>
    apply Ensures.bind (infer_observes admits val)
    intro type
    apply Ensures.ite
    · intro _
      exact report_ensures _ _ _
    · intro accepted
      apply Ensures.imp (Observes.pure ())
      rintro mid _ post ⟨rfl, -⟩ pre ⟨rfl, noted⟩ _ _
      refine ⟨rfl, rfl, fun proper returnable => ?_⟩
      obtain ⟨typed, recorded⟩ := noted proper
      refine ⟨?_, recorded⟩
      cases isVoid : res.isVoid with
      | true => exact .discarded typed isVoid
      | false =>
        have assignable : type.assignable res = true := by simpa [isVoid] using accepted
        exact .expression typed isVoid
          (typed.converts admits proper (returnable.proper isVoid) assignable)
  | block inner =>
    obtain ⟨span, items⟩ := inner
    apply (checkItems_ensures admits items wellNamed).imp
    intro pre _ post accepted inside expected
    obtain ⟨left, sameExpected, noted⟩ := accepted inside
    refine ⟨left, sameExpected, fun proper returnable => ?_⟩
    obtain ⟨typed, inItems⟩ := noted proper res returnable expected
    exact ⟨.block (.mk typed), inItems⟩

theorem routineScope_observes (admits : Admits Converts)
    (hasBody : routine.body = some body) (wellNamed : ∀ name ∈ body.typeNames, DeclaredName name) :
    Observes tbl (routineScope routine.parameters body res) fun scene _ =>
      scene.context.Proper → ∀ signature, scene.context routine.name = some (.routine signature) →
        Declares scene.context routine signature → signature.result = res →
        routine.ParametersApart → RoutineTyped Converts scene.context routine ∧
          RoutineThroughout Converts (Recorded Converts tbl) scene.context routine := by
  apply Ensures.bind modifySymbols_ensures
  intro _
  apply Ensures.bind defineParameters_ensures
  intro _
  apply Ensures.bind get_ensures
  intro st
  apply Ensures.bind setExpected_ensures
  intro _
  apply Ensures.bind (checkBody_ensures admits wellNamed)
  intro _
  apply Ensures.bind setExpected_ensures
  intro _
  apply modifySymbols_ensures.imp
  rintro _ _ _ rfl checked rfl _ bodyChecked inner rfl _ ⟨rfl, sameSt⟩ _ paramsDefined scene rfl
  obtain ⟨left, stillInside, sameExpected, bodyCtx⟩ := paramsDefined (List.cons_ne_nil _ _)
  obtain ⟨bodyLeft, -, bodyNoted⟩ := bodyChecked stillInside rfl
  have prev : st.expected = scene.expected := by
    rw [← sameExpected, ← sameSt]
    rfl
  refine ⟨?_, fun proper signature declared declares sameRes apart => ?_⟩
  · simp only [bodyLeft, left, prev]
    rfl
  · have ctx : inner.context = .defineAll signature.parameters scene.context := by
      rw [bodyCtx signature.parameters apart]
      · rfl
      · exact declares.parameters
    have innerProper : inner.context.Proper := by
      rw [ctx]
      exact proper.defineAll (proper _ _ declared).1
    obtain ⟨typed, inBody⟩ := bodyNoted innerProper (sameRes ▸ (proper _ _ declared).2)
    change BodyTyped Converts inner.context res body at typed
    change BodyThroughout Converts (Recorded Converts tbl) inner.context body at inBody
    rw [ctx, ← sameRes] at typed
    rw [ctx] at inBody
    refine ⟨.defined hasBody declared typed, fun other isBody => ?_⟩
    obtain rfl : body = other := Option.some.inj (hasBody.symm.trans isBody)
    exact ⟨signature, declared, inBody⟩

/-- What is known of a context in which the routine has been declared. -/
def Signed (ctx : Context) (routine : Routine) : Prop :=
  ∃ signature, ctx routine.name = some (.routine signature) ∧ Declares ctx routine signature

theorem Signed.within (within : smaller.Within larger)
    (signed : Signed smaller routine) : Signed larger routine := by
  obtain ⟨signature, declared, declares⟩ := signed
  exact ⟨signature, within _ _ declared, declares.within fun name type found => within name _ found⟩

def TypedIfApart (Converts : Ty → Ty → Prop) (ctx : Context) (routine : Routine) : Prop :=
  (routine.isForward = false → routine.ParametersApart) → RoutineTyped Converts ctx routine

theorem checkRoutine_observes (admits : Admits Converts)
    (wellNamed : ∀ name ∈ routine.typeNames, DeclaredName name) :
    Observes tbl (checkRoutine routine) fun scene _ =>
      scene.context.Proper → (routine.isForward = false → Signed scene.context routine) →
        (routine.isForward = false → routine.ParametersApart) →
        RoutineTyped Converts scene.context routine ∧
          RoutineThroughout Converts (Recorded Converts tbl) scene.context routine := by
  unfold checkRoutine
  cases hasBody : routine.body with
  | none =>
    apply (Observes.pure ()).imp
    intro scene _ _ _ _ _
    refine ⟨.forward hasBody, fun body isBody => ?_⟩
    rw [hasBody] at isBody
    cases isBody
  | some body =>
    have defined : routine.isForward = false := by simp [Routine.isForward, hasBody]
    have bodyNamed : ∀ name ∈ body.typeNames, DeclaredName name := by
      intro name mem
      apply wellNamed
      simp [Routine.typeNames, hasBody, mem]
    cases given : routine.result with
    | none =>
      apply (Observes.pure Ty.void).bind
      intro res
      apply (routineScope_observes admits hasBody bodyNamed).imp
      rintro scene _ noted rfl proper signed apart
      obtain ⟨signature, declared, declares⟩ := signed defined
      exact noted proper signature declared declares (declares.noResult given) (apart defined)
    | some written =>
      apply resolveSilently_observes.bind
      intro res
      apply (routineScope_observes admits hasBody bodyNamed).imp
      rintro scene _ noted silent proper signed apart
      obtain ⟨signature, declared, declares⟩ := signed defined
      exact noted proper signature declared declares
        ((declares.result written given).value.symm.trans silent.symm) (apart defined)

theorem checkAll_ensures (admits : Admits Converts) : (decls : List Declaration) →
    (∀ declaration ∈ decls, ∀ name ∈ declaration.typeNames, DeclaredName name) →
    Ensures tbl (checkAll decls) fun pre _ post =>
      DeclarationsAccepted
        (fun ctx final => ctx.Proper →
          (∀ routine, .routine routine ∈ decls → routine.isForward = false → Signed ctx routine) →
          Checked Converts (TypedIfApart Converts) ctx decls final ∧
            ((∀ routine, .routine routine ∈ decls → routine.isForward = false →
              routine.ParametersApart) →
              DeclarationsThroughout Converts (Recorded Converts tbl) ctx decls)) pre post
  | [], _ => by
    apply Ensures.imp (Observes.pure ())
    rintro pre _ post ⟨rfl, -⟩ outside
    exact ⟨outside, rfl, fun _ _ => ⟨.nil, fun _ => trivial⟩⟩
  | .var decl :: rest, wellNamed => by
    apply Ensures.bind (declareVariable_ensures admits (wellNamed (.var decl) (by simp)))
    intro _
    apply (checkAll_ensures admits rest fun declaration mem =>
      wellNamed declaration (by simp [mem])).imp
    rintro _ _ post restAccepted pre ⟨type, extended, noted, defined, rfl⟩
    apply DeclarationsAccepted.defined defined restAccepted
    intro fresh restNoted proper signed
    obtain ⟨typed, recorded⟩ := noted proper
    have typeProper : (Symbol.var type).Proper := typed.proper proper
    obtain ⟨checked, inRest⟩ := restNoted (proper.define typeProper)
      fun routine mem hasBody =>
        (signed routine (by simp [mem]) hasBody).within (Context.within_define fresh _)
    refine ⟨.var fresh typed checked, fun apart => ⟨fresh, recorded, type, typed, inRest ?_⟩⟩
    exact fun routine mem => apart routine (by simp [mem])
  | .type decl :: rest, wellNamed => by
    apply (checkAll_ensures admits rest fun declaration mem =>
      wellNamed declaration (by simp [mem])).imp
    intro pre _ post accepted outside
    obtain ⟨endsOutside, sameExpected, noted⟩ := accepted outside
    refine ⟨endsOutside, sameExpected, fun proper signed => ?_⟩
    obtain ⟨checked, inRest⟩ := noted proper fun routine mem => signed routine (by simp [mem])
    exact ⟨.type checked, fun apart => inRest fun routine mem => apart routine (by simp [mem])⟩
  | .routine routine :: rest, wellNamed => by
    apply Ensures.bind (checkRoutine_observes admits (wellNamed (.routine routine) (by simp)))
    intro _
    apply (checkAll_ensures admits rest fun declaration mem =>
      wellNamed declaration (by simp [mem])).imp
    rintro _ _ post restAccepted pre ⟨rfl, routineNoted⟩ outside
    obtain ⟨endsOutside, sameExpected, restNoted⟩ := restAccepted outside
    refine ⟨endsOutside, sameExpected, fun proper signed => ?_⟩
    have noted := routineNoted proper (signed routine (by simp))
    obtain ⟨checked, inRest⟩ := restNoted proper fun other mem => signed other (by simp [mem])
    refine ⟨.routine (fun apart => (noted apart).1) checked, fun apart => ?_⟩
    exact ⟨(noted (apart routine (by simp))).2, inRest fun other mem => apart other (by simp [mem])⟩

theorem basicSymbols_context : Analysis.basicSymbols.context = Context.basic := by
  funext name
  rw [SymbolTable.context_eq]
  by_cases isBoolean : name = "boolean"
  · subst isBoolean
    rfl
  by_cases isReal : name = "real"
  · subst isReal
    rfl
  by_cases isInteger : name = "integer"
  · subst isInteger
    rfl
  · have noBasic : PrimitiveName.ofSpelling? name = none := by
      simp [PrimitiveName.ofSpelling?, PrimitiveName.spelling, Ne.symm isBoolean, Ne.symm isReal,
        Ne.symm isInteger]
    simp [Context.basic, noBasic, Analysis.basicSymbols, SymbolTable.entries, SymbolTable.empty,
      List.lookup_cons, beq_false_of_ne isBoolean, beq_false_of_ne isReal,
      beq_false_of_ne isInteger]

theorem checkProgram_ensures (admits : Admits Converts) (wellNamed : program.WellNamed) :
    Ensures tbl (checkProgram program) fun pre _ post =>
      pre.symbols.inner = [] → pre.context = Context.basic →
        ∃ declared, Declared Context.basic program.declarations declared ∧
          Checked Converts (TypedIfApart Converts) declared program.declarations post.context ∧
          (program.ParametersApart → DeclarationsThroughout Converts (Recorded Converts tbl)
            declared program.declarations) := by
  apply Ensures.bind (declareAll_ensures program.declarations wellNamed)
  intro _
  apply (checkAll_ensures admits program.declarations wellNamed).imp
  intro mid _ post checkAccepted pre declareAccepted outside basic
  obtain ⟨stillOutside, -, declared⟩ := declareAccepted outside
  obtain ⟨-, -, noted⟩ := checkAccepted stillOutside
  rw [basic] at declared
  obtain ⟨checked, throughout⟩ := noted (declared.proper Context.basic_proper)
    fun routine mem hasBody => declared.signature_of_body mem hasBody
  refine ⟨mid.context, declared, checked, fun apart => throughout ?_⟩
  exact fun routine mem => apart routine (Program.mem_routines.mpr mem)

/--
The declarations of a program that is accepted lead to the names that its analysis ends with, if
its written types mention only declared names.
-/
theorem checked_of_analyze (admits : Admits Converts) (wellNamed : program.WellNamed)
    (clean : program.analyze.diagnostics = []) :
    ∃ declared, Declared Context.basic program.declarations declared ∧
      Checked Converts (TypedIfApart Converts) declared program.declarations
        program.analyze.symbols.context := by
  obtain ⟨declared, isDeclared, checked, -⟩ :=
    (checkProgram_ensures admits wellNamed).related clean rfl basicSymbols_context
  exact ⟨declared, isDeclared, checked⟩

/--
The types of all expressions of an accepted program are in the table, if its written types
mention only declared names and parameters are apart.
-/
theorem throughout_of_analyze (admits : Admits Converts) (wellNamed : program.WellNamed)
    (apart : program.ParametersApart) (clean : program.analyze.diagnostics = []) :
    ∃ declared, Declared Context.basic program.declarations declared ∧
      DeclarationsThroughout Converts (Recorded Converts program.analyze.types) declared
        program.declarations := by
  obtain ⟨declared, isDeclared, -, throughout⟩ :=
    (checkProgram_ensures admits wellNamed).related clean rfl basicSymbols_context
  exact ⟨declared, isDeclared, throughout apart⟩

end Imperative.Typing

/--
A program that is accepted is well typed, if its written types mention only declared names and
parameters are apart.
-/
theorem Imperative.Program.wellTyped_of_analyze (admits : Imperative.Typing.Admits Converts)
    {program : Imperative.Program} (wellNamed : program.WellNamed) (apart : program.ParametersApart)
    (clean : program.analyze.diagnostics = []) : program.WellTyped Converts := by
  obtain ⟨declared, isDeclared, checked⟩ :=
    Imperative.Typing.checked_of_analyze admits wellNamed clean
  refine ⟨declared, _, isDeclared, checked.imp fun ctx routine mem typed => ?_⟩
  exact typed (apart routine (Program.mem_routines.mpr mem))
