import Imperative.Proofs.Simplify.Typing
import Imperative.Proofs.Typing.Program
import Mathlib.Logic.Relation

/-!
# The states that the analysis passes through

`Leads` takes one step from what is to be done in a state to what is done next or inside of it.
There is a state after each definition, so every symbol that is ever entered is in the table of
some of them.
-/

namespace Imperative.Typing

/-- A part of the analysis that is still to be done. -/
inductive Task where
  | declare (decls : List Declaration)
  | check (decls : List Declaration)
  | parameters (declared : List Parameter)
  | body (res : Ty) (inner : Body)
  | statement (inner : Statement)
  | block (kind : ScopeKind) (inner : Block)
  | items (inner : List Item)

def Task.run : Task → Checker Unit
  | .declare decls => declareAll decls
  | .check decls => checkAll decls
  | .parameters declared => defineParameters declared
  | .body res inner => checkBody res inner
  | .statement inner => checkStatement inner
  | .block kind inner => checkBlock kind inner
  | .items inner => checkItems inner

/-- What is to be done, and the state it is done in. -/
abbrev Moment := Task × Analysis

/-- The state in a new scope. -/
def Analysis.enter (kind : ScopeKind) (st : Analysis) : Analysis :=
  (modifySymbols (SymbolTable.enter kind) st).2

/-- The state in the body of a loop. -/
def Analysis.enterLoop (iter : String) (type : Ty) (st : Analysis) : Analysis :=
  (defineIterator iter type (st.enter .loop)).2

/-- The type that a `return` has to give. -/
def expectedResult (routine : Routine) (st : Analysis) : Ty := match routine.result with
  | some written => (resolveSilently written st).1
  | none => .void

/-- For the first task, the second one is done in its own state, within it or after its start. -/
inductive Leads : Moment → Moment → Prop
  | passVariable : Leads (.declare (.var decl :: rest), st) (.declare rest, st)
  | typeDeclared :
      Leads (.declare (.type decl :: rest), st) (.declare rest, (declareType decl st).2)
  | routineDeclared :
      Leads (.declare (.routine routine :: rest), st) (.declare rest, (declareRoutine routine st).2)
  | variableChecked :
    Leads (.check (.var decl :: rest), st) (.check rest, (declareVariable decl st).2)
  | passType : Leads (.check (.type decl :: rest), st) (.check rest, st)
  | routineChecked :
      Leads (.check (.routine routine :: rest), st) (.check rest, (checkRoutine routine st).2)
  | parameters {routine : Routine} (hasBody : routine.body = some body) :
      Leads (.check (.routine routine :: rest), st)
        (.parameters routine.parameters, st.enter .routine)
  | parameter :
      Leads (.parameters (first :: rest), st)
        (.parameters rest,
          (define first.name (.var (resolveSilently first.type st).1) first.span
            (.parameterRedefined first.name) st).2)
  | body {routine : Routine} (hasBody : routine.body = some body) :
      Leads (.check (.routine routine :: rest), st)
        (.body (expectedResult routine st) body,
          (setExpected (some (expectedResult routine st))
            (defineParameters routine.parameters (st.enter .routine)).2).2)
  | bodyItems : Leads (.body res (.block blk), st) (.items blk.items, st)
  | consequent :
      Leads (.statement (.branch span test consequent alternative), st)
        (.block .block consequent, (checkCondition test .conditionType st).2)
  | alternative :
      Leads (.statement (.branch span test consequent (some alternative)), st)
        (.block .block alternative,
          (checkBlock .block consequent (checkCondition test .conditionType st).2).2)
  | whileBody :
      Leads (.statement (.whileLoop span test body), st)
        (.block .loop body, (checkCondition test .loopConditionType st).2)
  | rangeBody :
      Leads (.statement (.rangeLoop span iter first last dir (.mk bodySpan items)), st)
        (.items items,
          (checkBound last .rangeEndType (checkBound first .rangeStartType st).2).2.enterLoop
            iter .integer)
  | arrayBody :
      Leads (.statement (.arrayLoop span iter array dir (.mk bodySpan items)), st)
        (.items items, (iteratorType array st).2.enterLoop iter (iteratorType array st).1)
  | nested : Leads (.statement (.block span blk), st) (.block .block blk, st)
  | blockItems : Leads (.block kind (.mk span items), st) (.items items, st.enter kind)
  | localVariable :
      Leads (.items (.declaration (.var decl) :: rest), st)
        (.items rest, (declareVariable decl st).2)
  | localType :
      Leads (.items (.declaration (.type decl) :: rest), st) (.items rest, (declareType decl st).2)
  | localRoutine {routine : Routine} :
      Leads (.items (.declaration (.routine routine) :: rest), st)
        (.items rest, (report routine.span .nestedRoutine st).2)
  | inside : Leads (.items (.statement first :: rest), st) (.statement first, st)
  | later : Leads (.items (.statement first :: rest), st) (.items rest, (checkStatement first st).2)

/-- Where the two passes over a program start. -/
inductive Starts (program : Program) : Moment → Prop
  | first : Starts program (.declare program.declarations, .initial)
  | second :
    Starts program (.check program.declarations, (declareAll program.declarations .initial).2)

/-- The analysis of the program passes through the state. -/
def Passes (program : Program) (st : Analysis) : Prop :=
  ∃ start task, Starts program start ∧ Relation.ReflTransGen Leads start (task, st)

open List

variable {st : Analysis}

theorem leads_to_end (st : Analysis) :
    Relation.ReflTransGen Leads (.check decls, st) (.check [], (checkAll decls st).2) := by
  induction decls generalizing st with
  | nil => exact .refl
  | cons first rest ih =>
    cases first with
    | var decl => exact .head .variableChecked (ih _)
    | type decl => exact .head .passType (ih _)
    | routine routine => exact .head .routineChecked (ih _)

/-- No item of a block is left out, whether or not it is reported. -/
theorem leads_through_items (st : Analysis) :
    Relation.ReflTransGen Leads (.items items, st) (.items [], (checkItems items st).2) := by
  induction items generalizing st with
  | nil => exact .refl
  | cons first rest ih =>
    rcases first with (decl | decl | routine) | inner
    · exact .head .localVariable (ih _)
    · exact .head .localType (ih _)
    · exact .head .localRoutine (ih _)
    · exact .head .later (ih _)

theorem passes_analyze : Passes program program.analyze :=
  ⟨_, _, .second, leads_to_end _⟩

/-- The types of a symbol. -/
def Symbol.types : Symbol → List Ty
  | .var meaning | .type meaning => [meaning]
  | .routine sig => sig.result :: sig.parameters.map Prod.snd

namespace SymbolTable

/-- The property holds of every symbol in the table. -/
def Each (Holds : Symbol → Prop) (tbl : SymbolTable) : Prop := ∀ entry ∈ tbl.entries, Holds entry.2

abbrev Proper (tbl : SymbolTable) : Prop := tbl.Each Symbol.Proper

variable {tbl : SymbolTable} {name : String}

theorem each_basicSymbols (each : ∀ name, Holds (.type (primitiveType name))) :
    Analysis.basicSymbols.Each Holds :=
  forall_mem_cons.mpr ⟨each .boolean,
    forall_mem_cons.mpr ⟨each .real, forall_mem_singleton.mpr (each .integer)⟩⟩

theorem Each.found (each : tbl.Each Holds) (found : tbl.context name = some sym) : Holds sym :=
  each (name, sym) (mem_of_lookup (context_eq.symm.trans found))

theorem Proper.context (proper : tbl.Proper) : tbl.context.Proper := fun _ _ => proper.found

theorem Each.enter (each : tbl.Each Holds) : (tbl.enter kind).Each Holds := each

theorem Each.define (each : tbl.Each Holds) (holds : Holds sym)
    (defined : tbl.define? name sym = some extended) : extended.Each Holds := by
  intro entry mem
  rw [entries_of_define defined] at mem
  rcases mem_cons.mp mem with rfl | pre
  · exact holds
  · exact each entry pre

theorem Each.replace (each : tbl.Each Holds) (holds : Holds sym) :
    ((tbl.replaceGlobal? name sym).getD tbl).Each Holds := by
  unfold replaceGlobal?
  split
  · exact each
  · intro entry mem
    simp only [Option.getD_some, entries, flatMap_append, mem_append,
      flatMap_cons, flatMap_nil, append_nil, mem_map] at mem
    rcases mem with inside | ⟨old, inOutermost, rfl⟩
    · exact each entry (by simp [entries, inside])
    · split
      · exact holds
      · exact each old (by simp [entries, inOutermost])

theorem Each.enterLoop (each : st.symbols.Each Holds) {iter : String}
    (holds : Holds (.var type)) : (st.enterLoop iter type).symbols.Each Holds := by
  obtain ⟨extended, defined⟩ := define_enter
  have symbols : (st.enterLoop iter type).symbols = extended := by
    have found : ((st.symbols.enter .loop).define? iter (.var type)).getD
        (st.symbols.enter .loop) = extended := by
      rw [defined, Option.getD_some]
    exact found
  exact symbols ▸ each.enter.define holds defined

end SymbolTable

/-- What a task needs of the program and of the state besides proper symbols. -/
def Task.Ready (st : Analysis) : Task → Prop
  | .declare decls => ∀ declaration ∈ decls, ∀ name ∈ declaration.typeNames, DeclaredName name
  | .check decls =>
    st.symbols.inner = [] ∧
      (∀ declaration ∈ decls, ∀ name ∈ declaration.typeNames, DeclaredName name) ∧
      ∀ routine, .routine routine ∈ decls → routine.isForward = false →
        Signed st.symbols.context routine ∧ routine.ParametersApart
  | .parameters declared =>
    (declared.Pairwise fun earlier later => earlier.name ∉ later.type.names) ∧
      ∀ parameter ∈ declared, ∃ type, Resolves st.symbols.context none parameter.type type
  | .body _ inner => ∀ name ∈ inner.typeNames, DeclaredName name
  | .statement inner => ∀ name ∈ inner.typeNames, DeclaredName name
  | .block _ inner => ∀ name ∈ inner.typeNames, DeclaredName name
  | .items inner => ∀ name ∈ Block.itemNames inner, DeclaredName name

/-- The symbols are proper, and the task is done without a diagnostic. -/
structure Sound (moment : Moment) : Prop where
  proper : moment.2.symbols.Proper
  clean : (moment.1.run moment.2).2.diagnostics = []
  ready : moment.1.Ready moment.2

theorem Follows.clean
    (follows : Follows reach step other) (clean : (step st).2.diagnostics = []) :
    st.diagnostics = [] := prefix_nil.mp (clean ▸ follows.grows st)

theorem Follows.symbols_eq
    (follows : Follows .nothing step other) (st : Analysis) : (step st).2.symbols = st.symbols :=
  congrArg Scene.symbols (follows.stays st)

theorem admits_assignable : Admits fun src tgt => src.assignable tgt = true :=
  fun _ _ _ _ assignable => assignable

theorem declareVariable_proper (wellNamed : ∀ name ∈ TypeExpr.namesOf? decl.type, DeclaredName name)
    (proper : st.symbols.Proper) (clean : (declareVariable decl st).2.diagnostics = []) :
    ∃ type, type.Proper ∧
      st.symbols.define? decl.name (.var type) = some (declareVariable decl st).2.symbols := by
  obtain ⟨type, extended, noted, defined, post⟩ :=
    (declareVariable_ensures admits_assignable wellNamed).related clean
  have symbols : (declareVariable decl st).2.symbols = extended := congrArg Scene.symbols post
  exact ⟨type, (noted proper.context).1.proper proper.context, symbols ▸ defined⟩

theorem declareType_proper (wellNamed : decl.type.WellNamed)
    (proper : st.symbols.Proper) (clean : (declareType decl st).2.diagnostics = []) :
    (declareType decl st).2.symbols.Proper := by
  obtain ⟨type, extended, resolves, defined, post⟩ := (declareType_ensures wellNamed).related clean
  have symbols : (declareType decl st).2.symbols = extended := congrArg Scene.symbols post
  have typeProper : (Symbol.type type).Proper := resolves.proper proper.context
  exact symbols ▸ proper.define typeProper defined

/-- A routine that is accepted has a proper signature, for the first time, again or at last. -/
theorem declareRoutine_proper (wellNamed : ∀ name ∈ routine.typeNames, DeclaredName name) :
    Ensures tbl (declareRoutine routine) fun pre _ post =>
      pre.symbols.Proper → post.symbols.Proper := by
  apply (declareRoutine_enrols (signature_observes wellNamed)).imp
  rintro pre _ ⟨extended, _⟩ ⟨declared, declares, -, enrols⟩ proper
  have declaredProper := declares.proper proper.context
  cases enrols with
  | first defined => exact proper.define declaredProper defined
  | completed _ _ _ _ replaced => exact replaced ▸ proper.replace declaredProper
  | repeated => exact proper

theorem defineParameter_proper {first : Parameter} (proper : st.symbols.Proper)
    (resolves : Resolves st.symbols.context none first.type type)
    (clean : (define first.name (.var (resolveSilently first.type st).1) first.span
      (.parameterRedefined first.name) st).2.diagnostics = []) :
    type.Proper ∧ st.symbols.define? first.name (.var type) =
      some (define first.name (.var (resolveSilently first.type st).1) first.span
        (.parameterRedefined first.name) st).2.symbols := by
  have silent : (resolveSilently first.type st).1 = type := resolves.value
  rw [silent] at clean ⊢
  obtain ⟨extended, defined, post⟩ := define_ensures.related clean
  exact ⟨resolves.proper proper.context,
    defined.trans (congrArg some (congrArg Scene.symbols post).symm)⟩

theorem Sound.parameter (sound : Sound (.parameters (first :: rest), st)) :
    Sound (.parameters rest,
      (define first.name (.var (resolveSilently first.type st).1) first.span
        (.parameterRedefined first.name) st).2) := by
  obtain ⟨proper, clean, apart, resolve⟩ := sound
  obtain ⟨firstApart, restApart⟩ := pairwise_cons.mp apart
  obtain ⟨type, resolves⟩ := resolve first (by simp)
  obtain ⟨typeProper, defined⟩ :=
    defineParameter_proper proper resolves ((defineParameters_follows rest).clean clean)
  have symProper : (Symbol.var type).Proper := typeProper
  refine ⟨proper.define symProper defined, clean, restApart, fun parameter mem => ?_⟩
  obtain ⟨found, found_resolves⟩ := resolve parameter (by simp [mem])
  refine ⟨found, ?_⟩
  rw [SymbolTable.context_of_define defined]
  exact found_resolves.define_other (firstApart parameter mem)

theorem defineParameters_proper (sound : Sound (.parameters parameters, st)) :
    (defineParameters parameters st).2.symbols.Proper := by
  induction parameters generalizing st with
  | nil => exact sound.proper
  | cons first rest ih => exact ih sound.parameter

theorem Declares.resolves {signature : Signature}
    (declares : Declares context routine signature)
    (mem : parameter ∈ routine.parameters) : ∃ type, Resolves context none parameter.type type := by
  obtain ⟨every, -, -, -⟩ := declares
  generalize routine.parameters = written at every mem
  generalize signature.parameters = types at every
  induction every with
  | nil => cases mem
  | cons entry _ ih =>
    rcases mem_cons.mp mem with rfl | later
    · exact ⟨_, entry.2⟩
    · exact ih later

theorem Sound.routine {routine : Routine} (hasBody : routine.body = some body)
    (sound : Sound (.check (.routine routine :: rest), st)) :
    Sound (.parameters routine.parameters, st.enter .routine) ∧
      Sound (.body (expectedResult routine st) body,
        (setExpected (some (expectedResult routine st))
          (defineParameters routine.parameters (st.enter .routine)).2).2) := by
  obtain ⟨proper, clean, -, wellNamed, signed⟩ := sound
  have isDefined : routine.isForward = false := by simp [Routine.isForward, hasBody]
  obtain ⟨⟨signature, -, declares⟩, apart⟩ := signed routine (by simp) isDefined
  have routineClean : (checkRoutine routine st).2.diagnostics = [] :=
    (checkAll_follows rest).clean clean
  have bodyClean : (checkBody (expectedResult routine st) body
      (setExpected (some (expectedResult routine st))
        (defineParameters routine.parameters (st.enter .routine)).2).2).2.diagnostics = [] := by
    simp only [checkRoutine, hasBody] at routineClean
    unfold expectedResult
    cases given : routine.result with
    | none | some =>
      rw [given] at routineClean
      exact routineClean
  have paramsSound : Sound (.parameters routine.parameters, st.enter .routine) := by
    have paramsClean :
        (defineParameters routine.parameters (st.enter .routine)).2.diagnostics = [] :=
      setExpected_follows.clean ((checkBody_follows _ body).clean bodyClean)
    refine ⟨proper.enter, paramsClean, apart, fun parameter mem => ?_⟩
    exact declares.resolves mem
  refine ⟨paramsSound, defineParameters_proper paramsSound, bodyClean, ?_⟩
  intro name mem
  exact wellNamed (.routine routine) (by simp) name
    (by simp [Declaration.typeNames, Routine.typeNames, hasBody, mem])

theorem Leads.sound (leads : Leads moment reached) (sound : Sound moment) : Sound reached := by
  obtain ⟨proper, clean, ready⟩ := sound
  cases leads with
  | passVariable => exact ⟨proper, clean, fun declaration mem => ready declaration (by simp [mem])⟩
  | @typeDeclared decl rest st =>
    have declClean := (declareAll_follows rest).clean clean
    exact ⟨declareType_proper (ready (.type decl) (by simp)) proper declClean, clean,
      fun declaration mem => ready declaration (by simp [mem])⟩
  | @routineDeclared routine rest st =>
    have routineClean := (declareAll_follows rest).clean clean
    have routineProper :=
      (declareRoutine_proper (ready (.routine routine) (by simp))).related routineClean proper
    exact ⟨routineProper, clean, fun declaration mem => ready declaration (by simp [mem])⟩
  | @variableChecked decl rest st =>
    obtain ⟨outside, wellNamed, signed⟩ := ready
    obtain ⟨type, typeProper, defined⟩ := declareVariable_proper
      (wellNamed (.var decl) (by simp)) proper ((checkAll_follows rest).clean clean)
    have symProper : (Symbol.var type).Proper := typeProper
    obtain ⟨fresh, stillOutside⟩ := SymbolTable.fresh_of_define outside defined
    refine ⟨proper.define symProper defined, clean, stillOutside,
      fun declaration mem => wellNamed declaration (by simp [mem]), ?_⟩
    intro routine mem isDefined
    obtain ⟨isSigned, apart⟩ := signed routine (by simp [mem]) isDefined
    rw [SymbolTable.context_of_define defined]
    exact ⟨isSigned.within (Context.within_define fresh _), apart⟩
  | passType =>
    obtain ⟨outside, wellNamed, signed⟩ := ready
    exact ⟨proper, clean, outside, fun declaration mem => wellNamed declaration (by simp [mem]),
      fun routine mem => signed routine (by simp [mem])⟩
  | @routineChecked routine rest st =>
    obtain ⟨outside, wellNamed, signed⟩ := ready
    have routineClean := (checkAll_follows rest).clean clean
    have same : (checkRoutine routine st).2.symbols = st.symbols :=
      congrArg Scene.symbols (Ensures.related (checkRoutine_observes admits_assignable
        (wellNamed (.routine routine) (by simp))) routineClean).1
    refine ⟨same ▸ proper, clean, same ▸ outside,
      fun declaration mem => wellNamed declaration (by simp [mem]), ?_⟩
    intro other mem
    rw [same]
    exact signed other (by simp [mem])
  | parameters hasBody => exact (Sound.routine hasBody ⟨proper, clean, ready⟩).1
  | parameter => exact .parameter ⟨proper, clean, ready⟩
  | body hasBody => exact (Sound.routine hasBody ⟨proper, clean, ready⟩).2
  | @bodyItems res inner st =>
    obtain ⟨span, items⟩ := inner
    exact ⟨proper, clean, ready⟩
  | @consequent span cond consequent alternative st =>
    have same := (checkCondition_follows cond .conditionType).symbols_eq st
    cases alternative with
    | none => exact ⟨same ▸ proper, clean, ready⟩
    | some alternative =>
      exact ⟨same ▸ proper, (checkBlock_follows .block alternative).clean clean,
        fun name mem => ready name (mem_append_left _ mem)⟩
  | @alternative span cond consequent alternative st =>
    have same := ((checkBlock_follows .block consequent).symbols_eq _).trans
      ((checkCondition_follows cond .conditionType).symbols_eq st)
    exact ⟨same ▸ proper, clean, fun name mem => ready name (mem_append_right _ mem)⟩
  | @whileBody span cond body st =>
    have same := (checkCondition_follows cond .loopConditionType).symbols_eq st
    exact ⟨same ▸ proper, clean, ready⟩
  | @rangeBody span iter first last dir bodySpan items st =>
    have same := ((checkBound_follows last .rangeEndType).symbols_eq _).trans
      ((checkBound_follows first .rangeStartType).symbols_eq st)
    exact ⟨SymbolTable.Each.enterLoop (same ▸ proper) trivial, clean, ready⟩
  | @arrayBody span iter array dir bodySpan items st =>
    have same := (iteratorType_follows array).symbols_eq st
    have bodyClean : (checkItems items ((iteratorType array st).2.enterLoop iter
      (iteratorType array st).1)).2.diagnostics = [] := clean
    have arrayClean := (checkItems_follows items).clean bodyClean
    obtain ⟨size, typed, -⟩ := (Ensures.related
      (iteratorType_observes admits_assignable) arrayClean).2 proper.context
    exact ⟨.enterLoop (same ▸ proper) (typed.element_proper proper.context), clean, ready⟩
  | nested => exact ⟨proper, clean, ready⟩
  | @blockItems kind span items st => exact ⟨proper.enter, clean, ready⟩
  | @localVariable decl rest st =>
    obtain ⟨type, typeProper, defined⟩ := declareVariable_proper
      (fun name mem => ready name (mem_append_left _ mem)) proper
      ((checkItems_follows rest).clean clean)
    have symProper : (Symbol.var type).Proper := typeProper
    exact ⟨proper.define symProper defined, clean,
      fun name mem => ready name (mem_append_right _ mem)⟩
  | @localRoutine rest st routine =>
    have reported := (checkItems_follows rest).clean clean
    simp at reported
  | @localType decl rest st =>
    exact ⟨declareType_proper (fun name mem => ready name (mem_append_left _ mem))
        proper ((checkItems_follows rest).clean clean), clean,
      fun name mem => ready name (mem_append_right _ mem)⟩
  | @inside first rest st =>
    exact ⟨proper, (checkItems_follows rest).clean clean,
      fun name mem => ready name (mem_append_left _ mem)⟩
  | @later first rest st =>
    have same := (checkStatement_follows first).symbols_eq st
    exact ⟨same ▸ proper, clean, fun name mem => ready name (mem_append_right _ mem)⟩

theorem sound_of_leads (leads : Relation.ReflTransGen Leads start moment) (sound : Sound start) :
    Sound moment := by
  induction leads with
  | refl => exact sound
  | tail _ last ih => exact last.sound ih

end Imperative.Typing
