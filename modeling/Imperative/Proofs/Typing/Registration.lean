import Imperative.Proofs.Typing.Compatibility
import Imperative.Proofs.Typing.TypeTable

/-!
# Declarations of routines

Registering a declaration changes nothing but what its name stands for.  So declarations of a
routine fit together in whatever order they come.
-/

namespace Imperative.Typing

open List SymbolTable

variable {st pre post : Analysis} {routine : Routine}

def Analysis.reporting (st : Analysis) (problems : List (Span × Problem)) : Analysis :=
  { st with
    diagnostics := st.diagnostics ++ problems.map fun entry => entry.2.toDiagnostic entry.1 }

theorem Analysis.reporting_reporting :
    (st.reporting problems).reporting more = st.reporting (problems ++ more) := by
  simp [reporting]

/-- The step looks up types and reports problems of types, and does nothing else. -/
def Resolving {α : Type} (step : Checker α) : Prop :=
  ∃ result : (String → Option Ty) → Reported α, ∀ st,
    step st = ((result st.symbols.context.typeNamed).value,
      st.reporting (result st.symbols.context.typeNamed).problems) ∧
    OfType (fun _ => True) (result st.symbols.context.typeNamed).problems

namespace Resolving

theorem pure : Resolving (Pure.pure val) := by
  refine ⟨fun _ => { value := val, problems := [] }, fun st => ⟨?_, forall_mem_nil _⟩⟩
  rw [Analysis.reporting, map_nil, append_nil]
  rfl

theorem bind {next : α → Checker β} (resolving : Resolving step)
    (nextResolving : ∀ val, Resolving (next val)) : Resolving (step >>= next) := by
  obtain ⟨result, isResult⟩ := resolving
  choose nextResult isNext using nextResolving
  refine ⟨fun lookup =>
    { value := (nextResult (result lookup).value lookup).value
      problems := (result lookup).problems ++
        (nextResult (result lookup).value lookup).problems }, fun st => ?_⟩
  obtain ⟨isFirst, firstOfType⟩ := isResult st
  obtain ⟨isSecond, secondOfType⟩ := isNext (result st.symbols.context.typeNamed).value
    (st.reporting (result st.symbols.context.typeNamed).problems)
  refine ⟨?_, forall_mem_append.mpr ⟨firstOfType, secondOfType⟩⟩
  rw [← Analysis.reporting_reporting]
  exact (congrArg (fun pair : α × Analysis => next pair.1 pair.2) isFirst).trans isSecond

end Resolving

theorem reportAll_eq (problems : List (Span × Problem)) (st : Analysis) :
    (problems.forM fun (span, problem) => report span problem) st =
      ((), st.reporting problems) := by
  induction problems generalizing st with
  | nil => exact congrArg (Prod.mk ()) (by rw [Analysis.reporting, map_nil, append_nil])
  | cons first rest ih =>
    refine (ih (st.reporting [first])).trans ?_
    rw [Analysis.reporting_reporting]
    rfl

theorem resolveType_resolving : Resolving (resolveType hint written) := by
  refine ⟨(resolve · hint written), fun st => ⟨?_, ?_⟩⟩
  · have isReported := reportAll_eq (resolve st.symbols.context.typeNamed hint written).problems st
    exact congrArg (fun pair : Unit × Analysis =>
      ((resolve st.symbols.context.typeNamed hint written).value, pair.2)) isReported
  · exact resolve_placed written (Outline.all_of_forall (fun _ => trivial) _)

theorem signature_resolving : Resolving (signature routine) := by
  have params (declared : List Parameter) : Resolving (parameterTypes declared) := by
    induction declared with
    | nil => exact .pure
    | cons first rest ih => exact resolveType_resolving.bind fun _ => ih.bind fun _ => .pure
  apply (params routine.parameters).bind
  intro types
  cases routine.result with
  | none => exact .pure
  | some written => exact resolveType_resolving.bind fun _ => .pure

/-- The signature of a routine depends on nothing but the types with a name. -/
theorem signature_congr (same : pre.symbols.context.typeNamed = post.symbols.context.typeNamed)
    (routine : Routine) : (signature routine pre).1 = (signature routine post).1 := by
  obtain ⟨result, isResult⟩ := signature_resolving
  rw [(isResult pre).1, (isResult post).1, same]

/-- What a name stands for after a routine is declared under it, and what is wrong with that. -/
def register (name : String) (declared : Signature) : Option Symbol → Symbol × Option Problem
  | none => (.routine declared, none)
  | some (.routine existing) =>
    if existing.hasBody && declared.hasBody then (.routine existing, some (.routineRedefined name))
    else if !existing.agrees declared then (.routine existing, some (.forwardMismatch name))
    else (.routine (if declared.hasBody then declared else existing), none)
  | some other => (other, some (.routineRedefined name))

theorem register_routine :
    ∃ kept, (register name declared (some (.routine existing))).1 = .routine kept := by
  rw [register]
  split
  · exact ⟨_, rfl⟩
  · split <;> exact ⟨_, rfl⟩

/-- The name stands for what was registered under it, and nothing else changes. -/
structure Registers (routine : Routine) (declared : Signature) (pre post : Analysis) : Prop where
  inner : post.symbols.inner = []
  expected : post.expected = pre.expected
  context : post.symbols.context =
    .define routine.name (register routine.name declared (pre.symbols.context routine.name)).1
      pre.symbols.context
  diagnostics : post.diagnostics = pre.diagnostics ++
    (register routine.name declared (pre.symbols.context routine.name)).2.toList.map
      (·.toDiagnostic routine.span)

def registration (routine : Routine) (declared : Signature) : Option Symbol → Checker Unit
  | none => define routine.name (.routine declared) routine.span (.routineRedefined routine.name)
  | some (.routine existing) =>
    if existing.hasBody && declared.hasBody then
      report routine.span (.routineRedefined routine.name)
    else if !existing.agrees declared then
      report routine.span (.forwardMismatch routine.name)
    else if declared.hasBody then
      modifySymbols fun symbols =>
        (symbols.replaceGlobal? routine.name (.routine declared)).getD symbols
    else pure ()
  | some _ => report routine.span (.routineRedefined routine.name)

theorem declareRoutine_eq :
    declareRoutine routine st = registration routine (signature routine st).1
      ((signature routine st).2.symbols.lookupGlobal routine.name) (signature routine st).2 := rfl

theorem Registers.of_found (outside : st.symbols.inner = [])
    (found : st.symbols.context routine.name = some sym)
    (isRegistered : register routine.name declared (some sym) = (sym, problem)) :
    Registers routine declared st { st with
      diagnostics := st.diagnostics ++ problem.toList.map (·.toDiagnostic routine.span) } := by
  refine ⟨outside, rfl, ?_, ?_⟩
  · rw [found, isRegistered, Context.define_found found]
  · rw [found, isRegistered]

theorem Registers.of_symbols (outside : tbl.inner = [])
    (context : tbl.context = .define routine.name (.routine declared) st.symbols.context)
    (isRegistered : register routine.name declared (st.symbols.context routine.name) =
      (.routine declared, none)) : Registers routine declared st { st with symbols := tbl } := by
  refine ⟨outside, rfl, ?_, ?_⟩
  · rw [isRegistered, context]
  · rw [isRegistered, Option.toList_none, map_nil, append_nil]

theorem registration_registers (outside : st.symbols.inner = []) (routine : Routine)
    (declared : Signature) :
    Registers routine declared st
      (registration routine declared (st.symbols.lookupGlobal routine.name) st).2 := by
  rw [lookupGlobal_eq outside]
  cases found : st.symbols.context routine.name with
  | none =>
    obtain ⟨extended, defined⟩ : ∃ extended,
        st.symbols.define? routine.name (.routine declared) = some extended := by
      rw [← lookupGlobal_eq outside, lookupGlobal] at found
      simp [define?, outside, defineIn, found]
    rw [registration, define_eq, defined]
    exact .of_symbols (fresh_of_define outside defined).2
      (context_of_define defined) (by rw [found]; rfl)
  | some sym =>
    cases sym with
    | var | type => exact .of_found outside found rfl
    | routine existing =>
      rw [registration]
      split
      · next both => exact .of_found outside found (by rw [register, if_pos both])
      · next notBoth =>
        split
        · next differ =>
          exact .of_found outside found (by rw [register, if_neg notBoth, if_pos differ])
        · next agree =>
          have isRegistered : register routine.name declared (some (.routine existing)) =
              (.routine (if declared.hasBody then declared else existing), none) := by
            rw [register, if_neg notBoth, if_neg agree]
          split
          · next hasBody =>
            rw [if_pos hasBody, ← found] at isRegistered
            obtain ⟨stillOutside, context⟩ :=
              context_of_replace outside found (.routine declared)
            exact .of_symbols stillOutside context isRegistered
          · next noBody =>
            rw [if_neg noBody] at isRegistered
            have stays := Registers.of_found outside found isRegistered
            rw [Option.toList_none, map_nil, append_nil] at stays
            exact stays

/-- A declaration is registered after problems of its types are reported. -/
theorem declareRoutine_registers (routine : Routine) :
    ∃ result : (String → Option Ty) → Reported Signature, ∀ st : Analysis, st.symbols.inner = [] →
      OfType (fun _ => True) (result st.symbols.context.typeNamed).problems ∧
        (signature routine st).1 = (result st.symbols.context.typeNamed).value ∧
        Registers routine (result st.symbols.context.typeNamed).value
          (st.reporting (result st.symbols.context.typeNamed).problems)
            (declareRoutine routine st).2 := by
  obtain ⟨result, isResult⟩ := signature_resolving
  refine ⟨result, fun st outside => ?_⟩
  obtain ⟨isSignature, ofType⟩ := isResult st
  rw [declareRoutine_eq, isSignature]
  exact ⟨ofType, rfl, @registration_registers (st.reporting _) outside routine _⟩

theorem Registers.typeNamed_eq (registers : Registers routine declared pre post) :
    post.symbols.context.typeNamed = pre.symbols.context.typeNamed := by
  funext name
  rw [registers.context, Context.typeNamed, Context.typeNamed, Context.define]
  by_cases same : name = routine.name
  · rw [if_pos same, same]
    cases found : pre.symbols.context routine.name with
    | none => rfl
    | some sym =>
      cases sym with
      | var | type => rfl
      | routine existing =>
        obtain ⟨kept, isKept⟩ := register_routine
        rw [isKept]
  · rw [if_neg same]

theorem define_outside {span : Span}
    (outside : st.symbols.inner = []) : (define name sym span problem st).2.symbols.inner = [] := by
  rw [define_eq]
  cases defined : st.symbols.define? name sym with
  | none => exact outside
  | some extended => exact (fresh_of_define outside defined).2

theorem declareAll_outside (decls : List Declaration) (outside : st.symbols.inner = []) :
    (declareAll decls st).2.symbols.inner = [] := by
  induction decls generalizing st with
  | nil => exact outside
  | cons decl rest ih =>
    cases decl with
    | var => exact ih outside
    | type decl =>
      obtain ⟨result, isResult⟩ := resolveType_resolving
      have resolved : (resolveType (some decl.name) decl.type st).2.symbols.inner = [] := by
        rw [(isResult st).1]
        exact outside
      exact ih (define_outside resolved)
    | routine routine =>
      obtain ⟨result, isResult⟩ := declareRoutine_registers routine
      exact ih (isResult st outside).2.2.inner

/-- The diagnostic says that declarations of the routine do not fit together. -/
def Complains (name : String) (diagnostic : Diagnostic) : Prop :=
  diagnostic.message = (Problem.routineRedefined name).message ∨
    diagnostic.message = (Problem.forwardMismatch name).message

theorem take_two_append {text : String}
    (leads : text.toList.take 2 = [first, second]) :
    (text ++ rest).toList.take 2 = [first, second] := by
  have long := congrArg length leads
  rw [length_take, length_cons, length_cons, length_nil] at long
  rw [String.toList_append, take_append_of_le_length (by omega), leads]

theorem not_complains_of_type {problem : Problem} (ofType : problem.isOfType = true)
    (span : Span) : ¬ Complains name (problem.toDiagnostic span) := by
  have letters : problem.message.toList.take 2 ≠ ['R', 'o'] := by
    cases problem with
    | undefinedType =>
      have leads : "Undefined type ".toList.take 2 = ['U', 'n'] := by decide +kernel
      rw [show (Problem.undefinedType _).message = "Undefined type " ++ _ from rfl,
        take_two_append leads]
      decide
    | duplicateField =>
      have leads : "Duplicate field ".toList.take 2 = ['D', 'u'] := by decide +kernel
      rw [show (Problem.duplicateField _).message = "Duplicate field " ++ _ ++ _ from rfl,
        String.append_assoc, take_two_append leads]
      decide
    | fieldWithoutType | sizeNotPositive | sizeNotConstant => decide +kernel
    | _ => cases ofType
  have leads : "Routine ".toList.take 2 = ['R', 'o'] := by decide +kernel
  rintro (same | same)
  all_goals
    apply letters
    rw [show problem.message = "Routine " ++ _ ++ _ from same, String.append_assoc,
      take_two_append leads]

/-- At most one of the signatures has a body, and their types are the same. -/
def Fit (signatures : List Signature) : Prop :=
  signatures.countP (·.hasBody) ≤ 1 ∧
    signatures.Pairwise fun left right => left.outline = right.outline

def chosen (signatures : List Signature) : Option Signature :=
  (signatures.find? (·.hasBody)).or signatures.head?

theorem signature_hasBody : (signature routine st).1.hasBody = !routine.isForward := by
  rw [signature]
  cases routine.result <;> rfl

theorem fit_signatures {routines : List Routine}
    (allKnown : ∀ routine ∈ routines, (signature routine st).1.Known) :
    Fit (routines.map fun routine => (signature routine st).1) ↔
      routines.countP (!·.isForward) ≤ 1 ∧
        routines.Pairwise fun left right =>
          (signature left st).1.agrees (signature right st).1 = true := by
  simp only [Fit, countP_map, Function.comp_def, signature_hasBody, pairwise_map]
  apply and_congr_right'
  refine Pairwise.iff_of_mem fun {left right} isLeft isRight => ?_
  exact (Signature.agrees_iff (allKnown left isLeft) (allKnown right isRight)).symm

theorem chosen_signatures (routines : List Routine) :
    chosen (routines.map fun routine => (signature routine st).1) =
      ((routines.find? (!·.isForward)).or routines.head?).map fun routine =>
        (signature routine st).1 := by
  simp only [chosen, find?_map, Function.comp_def, signature_hasBody, head?_map]
  cases routines.find? (!·.isForward) <;> rfl

/-- What is registered stands for the earlier declarations. -/
theorem fit_register {earlier : Option Signature}
    (earlierKnown : ∀ existing ∈ earlier, existing.Known) (declaredKnown : declared.Known) :
    ∃ kept problem, register name declared (earlier.map .routine) = (.routine kept, problem) ∧
      kept.Known ∧
      (∀ found ∈ problem, found = .routineRedefined name ∨ found = .forwardMismatch name) ∧
      (Fit (earlier.toList ++ declared :: rest) ↔ problem = none ∧ Fit (kept :: rest)) ∧
      (problem = none → chosen (earlier.toList ++ declared :: rest) = chosen (kept :: rest)) := by
  cases earlier with
  | none => exact ⟨declared, none, rfl, declaredKnown, nofun, by simp, fun _ => rfl⟩
  | some existing =>
    have existingKnown : existing.Known := earlierKnown existing rfl
    have sameTypes := Signature.agrees_iff existingKnown declaredKnown
    rw [Option.map_some, register, Option.toList_some, singleton_append]
    by_cases both : (existing.hasBody && declared.hasBody) = true
    · rw [if_pos both]
      rw [Bool.and_eq_true] at both
      refine ⟨_, _, rfl, existingKnown, by simp, ?_, by simp⟩
      simp [Fit, both]
    · rw [if_neg both]
      by_cases agree : existing.agrees declared = true
      · rw [agree, if_neg (by simp)]
        refine ⟨_, _, rfl, ?_, by simp, ?_, ?_⟩
        · split
          · exact declaredKnown
          · exact existingKnown
        · cases hasBody : declared.hasBody with
          | true => simp_all [Fit]
          | false => simp_all [Fit, countP_cons]
        · cases hasBody : declared.hasBody with
          | true => simp_all [chosen]
          | false => cases first : existing.hasBody <;> simp_all [chosen]
      · rw [Bool.not_eq_true] at agree
        rw [agree] at sameTypes ⊢
        refine ⟨_, _, rfl, existingKnown, by simp, ?_, by simp⟩
        have differ : existing.outline ≠ declared.outline := fun same => by simp [same] at sameTypes
        simp [Fit, differ]

theorem declareRoutine_named (isNamed : routine.name = name)
    (outside : st.symbols.inner = []) :
    let post := (declareRoutine routine st).2
    let (sym, problem) := register name (signature routine st).1 (st.symbols.context name)
    post.symbols.inner = [] ∧ post.symbols.context name = some sym ∧
      (∀ other, (signature other post).1 = (signature other st).1) ∧
      ∃ typed : List Diagnostic, (∀ diagnostic ∈ typed, ¬ Complains name diagnostic) ∧
        post.diagnostics =
          st.diagnostics ++ (typed ++ problem.toList.map (·.toDiagnostic routine.span)) := by
  subst isNamed
  obtain ⟨result, isResult⟩ := declareRoutine_registers routine
  obtain ⟨ofType, isSignature, registers⟩ := isResult st outside
  rw [← isSignature] at registers
  have reportedNow := registers.diagnostics
  rw [Analysis.reporting, append_assoc] at reportedNow
  refine ⟨registers.inner, ?_, signature_congr registers.typeNamed_eq, _, fun diagnostic mem => ?_,
    reportedNow⟩
  · rw [registers.context, Context.define_same]
    rfl
  · obtain ⟨entry, isEntry, rfl⟩ := mem_map.mp mem
    exact not_complains_of_type (ofType entry isEntry).2 entry.1

theorem declareAll_fit {name : String} {routines : List Routine}
    (named : ∀ routine ∈ routines, routine.name = name) {earlier : Option Signature} {st : Analysis}
    (outside : st.symbols.inner = []) (found : st.symbols.context name = earlier.map .routine)
    (earlierKnown : ∀ existing ∈ earlier, existing.Known)
    (allKnown : ∀ routine ∈ routines, (signature routine st).1.Known) :
    let post := (declareAll (routines.map .routine) st).2
    let signatures := earlier.toList ++ routines.map fun routine => (signature routine st).1
    ∃ reported, post.diagnostics = st.diagnostics ++ reported ∧
      ((∀ diagnostic ∈ reported, ¬ Complains name diagnostic) ↔ Fit signatures) ∧
      (Fit signatures → post.symbols.context name = (chosen signatures).map .routine) := by
  induction routines generalizing earlier st with
  | nil =>
    refine ⟨[], (append_nil _).symm, ?_, fun _ => ?_⟩
    · cases earlier with
      | none => simp [Fit]
      | some existing => cases hasBody : existing.hasBody <;> simp [Fit, hasBody]
    · refine found.trans ?_
      cases earlier with
      | none => rfl
      | some existing => cases hasBody : existing.hasBody <;> simp [chosen, hasBody]
  | cons routine rest ih =>
    obtain ⟨isNamed, restNamed⟩ := forall_mem_cons.mp named
    obtain ⟨routineKnown, restKnown⟩ := forall_mem_cons.mp allKnown
    obtain ⟨kept, problem, isRegistered, keptKnown, complaint, fits, chooses⟩ :=
      fit_register earlierKnown routineKnown
    have step := @declareRoutine_named st routine name isNamed outside
    rw [found, isRegistered] at step
    obtain ⟨stillOutside, foundNow, sameSignature, typed, ofType, reportedNow⟩ := step
    obtain ⟨reported, isReported, accepted, chosenLast⟩ := @ih restNamed (some kept) _ stillOutside
      foundNow (by simpa using keptKnown)
      fun other mem => (sameSignature other).symm ▸ restKnown other mem
    simp only [sameSignature] at accepted chosenLast
    have noComplaint : (∀ diagnostic ∈ problem.toList.map (·.toDiagnostic routine.span),
        ¬ Complains name diagnostic) ↔ problem = none := by
      cases problem with
      | none => simp
      | some problem =>
        have complains : Complains name (problem.toDiagnostic routine.span) :=
          (complaint problem rfl).imp (congrArg Problem.message) (congrArg Problem.message)
        simp [complains]
    refine ⟨typed ++ problem.toList.map (·.toDiagnostic routine.span) ++ reported, ?_, ?_,
      fun fit => ?_⟩
    · rw [reportedNow, append_assoc] at isReported
      exact isReported
    · rw [forall_mem_append, forall_mem_append, noComplaint, accepted, map_cons, fits]
      exact and_congr_left fun _ => and_iff_right ofType
    · obtain ⟨noProblem, restFit⟩ := fits.mp fit
      exact (chosenLast restFit).trans (congrArg _ (chooses noProblem).symm)

/--
Declarations of one routine are accepted, in whatever order they come, exactly if at most one of
them has a body and any two of them agree.  Then the one with the body is what is registered, or
the first one if none has a body.
-/
theorem declarations_accepted {name : String} {routines : List Routine}
    (named : ∀ routine ∈ routines, routine.name = name) {st : Analysis} (outside :
      st.symbols.inner = [])
    (undefined : st.symbols.lookupGlobal name = none)
    (allKnown : ∀ routine ∈ routines, (signature routine st).1.Known) :
    let post := (declareAll (routines.map .routine) st).2
    let consistent := routines.countP (!·.isForward) ≤ 1 ∧
      routines.Pairwise fun left right => (signature left st).1.agrees (signature right st).1 = true
    ∃ reported, post.diagnostics = st.diagnostics ++ reported ∧
      ((∀ diagnostic ∈ reported, ¬ Complains name diagnostic) ↔ consistent) ∧
      (consistent → post.symbols.lookupGlobal name =
        ((routines.find? (!·.isForward)).or routines.head?).map fun routine =>
          .routine (signature routine st).1) := by
  have stillOutside := declareAll_outside (routines.map .routine) outside
  rw [lookupGlobal_eq outside] at undefined
  obtain ⟨reported, isReported, accepted, chosenLast⟩ :=
    @declareAll_fit name routines named none st outside undefined nofun allKnown
  rw [Option.toList_none, nil_append, fit_signatures allKnown] at accepted chosenLast
  rw [chosen_signatures, Option.map_map] at chosenLast
  refine ⟨reported, isReported, accepted, fun consistent => ?_⟩
  rw [lookupGlobal_eq stillOutside]
  exact chosenLast consistent

theorem declarations_accepted_half :
    let half (body : Option Body) : Routine :=
      .mk default "half" [⟨default, "value", .primitive default .integer⟩]
        (some (.primitive default .real)) body
    let forward := half none
    let definition := half (some (.expression (.name default "value")))
    (declareAll [.routine forward, .routine definition] .initial).2.symbols.lookupGlobal "half" =
      some (.routine (signature definition .initial).1) := by
  intro half forward definition
  have known (body : Option Body) : (signature (half body) .initial).1.Known :=
    ⟨forall_mem_singleton.mpr trivial, trivial⟩
  obtain ⟨reported, -, -, registered⟩ := @declarations_accepted "half" [forward, definition]
    (by simp [forward, definition, half, Routine.name]) .initial rfl rfl
    (by simp [forward, definition, known])
  exact registered ⟨by decide, pairwise_pair.mpr rfl⟩

end Imperative.Typing
