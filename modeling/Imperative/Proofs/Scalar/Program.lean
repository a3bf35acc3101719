import Imperative.Proofs.Accepted
import Imperative.Proofs.Scalar.Routine

/-!
# Scalar routines of accepted programs

The function of a scalar routine does what the routine does, once the entry point has computed what
it computes before its own code.
-/

namespace Imperative.Scalar

open List

open Lowering (Deferred Environment Frame Globals Options Realizes addGlobals globalNames lower)
open Typing (Checked Declared)
open Wasm (Code Function Module Runs State Value)

variable {routine : Routine}

theorem mapM_kinds {kinds : List (String × Kind)}
    (isShape : (types.mapM fun (name, type) => (name, ·) <$> Kind.ofType? type) = some kinds) :
    types = kinds.map fun param => (param.1, param.2.type) := by
  induction types generalizing kinds with
  | nil =>
    cases isShape
    rfl
  | cons first rest ih =>
    obtain ⟨name, type⟩ := first
    rw [mapM_cons] at isShape
    rcases Option.bind_eq_some_iff.mp isShape with ⟨param, isParam, isRest⟩
    rcases Option.bind_eq_some_iff.mp isRest with ⟨others, areOthers, isPure⟩
    rcases Option.map_eq_some_iff.mp isParam with ⟨kind, isKind, rfl⟩
    cases isPure
    rw [ih areOthers, Kind.ofType?_eq_some.mp isKind]
    rfl

theorem resultKind?_eq_some (isResult : resultKind? type = some result) :
    type = resultType result := by
  cases type with
  | void | integer | boolean =>
    cases isResult
    rfl
  | real | array | record | error => cases isResult

theorem scalarRoutine?_eq_some (isScalar : scalarRoutine? names routine = some (shape, body)) :
    ∃ sig, names routine.name = some (.routine sig) ∧ routine.body = some body ∧
      sig.parameters = shape.typed ∧ sig.result = resultType shape.result ∧
      scalarBody shape.result (names.defineAll shape.typed) body = true := by
  unfold scalarRoutine? at isScalar
  split at isScalar
  · next sig found isRoutine hasBody =>
    split at isScalar
    · next known isShape =>
      split at isScalar
      · next bodyScalar =>
        cases isScalar
        rcases Option.bind_eq_some_iff.mp isShape with ⟨kinds, areKinds, isRest⟩
        rcases Option.bind_eq_some_iff.mp isRest with ⟨result, isResult, isPure⟩
        cases isPure
        exact ⟨sig, isRoutine, hasBody, mapM_kinds areKinds,
          resultKind?_eq_some isResult, bodyScalar⟩
      · cases isScalar
    · cases isScalar
  · cases isScalar

/-- The code computes the first values of variables that are deferred to the entry point. -/
def Initializes (options : Options) (program : Program) (routine : Routine) (code : Code) : Prop :=
  code = [] ∨ routine.name = options.entryPoint ∧
    ∃ st result frame,
      addGlobals (Globals.start program) program.declarations = .ok st ∧
        Lowering.computeDeferred { st.environment with result } st.deferred
          (Frame.start routine.parameters.length) = .ok (code, frame)

/--
The function starts with code that computes first values, and from there on it ends as the body of
the routine does, for all arguments and variables of the program.
-/
def Implements (program : Program) (names : Typing.Context) (options : Options) (module : Module)
    (routine : Routine) (shape : Shape) (body : Body) (function : Function) : Prop :=
  ∃ init code, function.body = init ++ code ∧ Initializes options program routine init ∧
    ∀ args globals fuel, args.map Datum.kind = shape.parameters.map Prod.snd →
      runBody shape.result fuel (names.defineAll shape.typed)
          (.enter (shape.parameters.map Prod.fst) args globals) body ≠ .exhausted →
      ∀ pre st, Runs module init pre (.next st) →
        Entered names (globalNames names program.declarations) function.locals args globals st →
        ∃ ending, Runs module function.body pre ending ∧
          EndsAlike names (globalNames names program.declarations) st
            (runBody shape.result fuel (names.defineAll shape.typed)
              (.enter (shape.parameters.map Prod.fst) args globals) body)
            ending

section Functions

variable {program : Program} {declared final : Typing.Context}
    (isDeclared : Declared Typing.Context.basic program.declarations declared)

include isDeclared

theorem start_numbered : (Globals.start program).Numbered declared [] where
  count := rfl
  placed name type isVariable _ := by
    refine absurd isVariable (Lowering.declared_noVariable isDeclared ?_ name type)
    intro other found isBasic
    rcases Option.map_eq_some_iff.mp isBasic with ⟨primitive, -, same⟩
    cases same
  known := nofun
  distinct := .nil

theorem registered_signature {st : Globals}
    (sameRtns : st.environment.routines = (Globals.start program).environment.routines)
    (mem : .routine routine ∈ program.declarations) (notForward : routine.isForward = false)
    (registered : st.environment.routines.lookup routine.name = some info) :
    ∃ sig, declared routine.name = some (.routine sig) ∧
      routine.parameters.length = info.parameters.length ∧
      (routine.parameters.zip info.parameters).map (fun entry => (entry.1.name, entry.2)) =
          sig.parameters ∧ info.result = sig.result := by
  rcases isDeclared.signature_of_body mem notForward with ⟨sig, inDeclared, declares⟩
  rcases (Lowering.routinesAgree_declared isDeclared 2).registered _ _ inDeclared with
    ⟨_, isRegistered, isIndexed, sameTys⟩
  rw [sameRtns, Globals.start, isRegistered] at registered
  cases registered
  have hasIndex : info.index.isSome = true := by
    rw [isIndexed, declares.hasBody, notForward]
    rfl
  rcases sameTys hasIndex with ⟨sameParams, sameRes⟩
  rcases Lowering.zip_parameters declares with ⟨sameLength, samePairs⟩
  rw [← sameParams] at samePairs
  exact ⟨sig, inDeclared, by simpa [sameParams] using sameLength, samePairs, sameRes⟩

variable {RoutineChecked : Typing.Context → Routine → Prop}
    (checked : Checked Lowering.Assignable RoutineChecked declared program.declarations final)

include checked

/-- The integers and booleans of the program are kept in the globals with their names. -/
theorem outer_sound (isSt : addGlobals (Globals.start program) program.declarations = .ok st) :
    st.Sound (Globals.start program).environment.routines final ∧
      Outer.Sound
        { names := final
          scope := st.environment.scope
          order := globalNames final program.declarations } := by
  have proper := isDeclared.proper Typing.Context.basic_proper
  have startSound := Globals.Sound.start isDeclared 2 Lowering.StaticMemory.empty
  have sound := (Lowering.addGlobals_meets checked proper startSound).of_ok isSt
  have numbered := Lowering.addGlobals_numbered checked proper startSound
    (start_numbered isDeclared)
    isSt
  refine ⟨sound, ?_, numbered.distinct⟩
  intro name kind isVariable
  exact numbered.placed name kind.type isVariable kind.type_isAggregate

theorem function_implements (wellNamed : program.WellNamed)
    (lowered : lower options program = .ok module) (mem : .routine routine ∈ program.declarations)
    (isScalar : scalarRoutine? final routine = some (shape, body)) :
    ∃ function, module.functions.find? (fun function => function.name = routine.name) =
      some function ∧
      Implements program final options module routine shape body function := by
  rcases scalarRoutine?_eq_some isScalar with
    ⟨sig, inFinal, hasBody, isTyped, isResult, bodyScalar⟩
  have notForward : routine.isForward = false := by simp [Routine.isForward, hasBody]
  have bodyNamed : ∀ name ∈ body.typeNames, DeclaredName name := by
    intro name mentioned
    apply wellNamed (.routine routine) mem
    simp [Declaration.typeNames, Routine.typeNames, hasBody, mentioned]
  rcases Lowering.lower_ok lowered with ⟨st, isSt, imports, types, -, realize⟩
  rcases outer_sound isDeclared checked isSt with ⟨sound, outerSound⟩
  have distinct : ((Lowering.definedRoutines program.declarations).map Routine.name).Nodup := by
    rw [Lowering.map_name_definedRoutines]
    exact (Lowering.definedNames_nodup isDeclared).2
  rcases Lowering.find?_of_realize (realize.imp fun _ _ both => both.1) distinct
    (Lowering.mem_definedRoutines.mpr ⟨mem, notForward⟩) with ⟨function, isFunction, realizes⟩
  cases realizes with
  | @intro found info deferred memory workspace _ isBody registered computed isCode locals =>
    cases isBody.symm.trans hasBody
    rcases registered_signature isDeclared sound.routines mem notForward registered with
      ⟨_, inDeclared, sameLength, samePairs, sameRes⟩
    cases (checked.within _ _ inDeclared).symm.trans inFinal
    have printing : Printing module :=
      { isImport := by
          rw [imports]
          exact Nat.zero_lt_two
        type := (Lowering.functionType?_printers imports types).1 }
    rcases routineCode_ends rfl sound.agrees.types (sameRes.trans isResult)
      outerSound printing (samePairs.trans isTyped) bodyNamed bodyScalar isCode with
      ⟨init, frame, code, isInit, isWhole, endsAlike⟩
    refine ⟨function, isFunction, init, code, isWhole, ?_, ?_⟩
    · rcases computed with rfl | ⟨isEntry, rfl⟩
      · cases isInit
        exact .inl rfl
      · rw [length_zip, ← sameLength, Nat.min_self] at isInit
        exact .inr ⟨isEntry, st, info.result, frame, isSt, isInit⟩
    · intro args globals fuel areKinds ends pre entry initializes entered
      rw [locals] at entered
      rcases endsAlike args globals fuel areKinds ends entry entered with
        ⟨ending, runs, alike⟩
      refine ⟨ending, ?_, alike⟩
      rw [isWhole]
      exact initializes.append runs

end Functions

/--
The function of a scalar routine in an accepted program does what the routine does: it prints the
same numbers, leaves the same values in the variables of the program and gives back the same
result, or both trap.
-/
theorem function_implements_of_accepted {text : String}
    (parses : (Program.parse text).diagnostics = [])
    (analyzes : (Program.parse text).value.analyze.diagnostics = []) {options : Options}
    {module : Module} (lowered : lower options (Program.parse text).value = .ok module)
    {routine : Routine} (member : routine ∈ (Program.parse text).value.routines) {shape : Shape}
    {body : Body}
    (isScalar : scalarRoutine? (Program.parse text).value.analyze.symbols.context routine =
      some (shape, body)) :
    ∃ function, module.functions.find? (fun function => function.name = routine.name) =
        some function ∧
      Implements (Program.parse text).value (Program.parse text).value.analyze.symbols.context
        options module routine shape body function := by
  have wellNamed := Program.parse_wellNamed parses
  have admits : Typing.Admits Lowering.Assignable := fun _ _ _ _ assignable => assignable
  rcases Typing.checked_of_analyze admits wellNamed analyzes with ⟨declared, isDeclared, checked⟩
  exact function_implements isDeclared checked wellNamed lowered (Program.mem_routines.mp member)
    isScalar

/-- A routine that adds numbers up in a variable of the program and prints every sum. -/
def sumText : String :=
  "var total : integer is 5\nroutine sum(n : integer, twice : boolean) : integer is\n" ++
    "for i in 1..n loop\ntotal := total + i\nprint total\nend\n" ++
    "if twice then\ntotal := total + total\nend\nreturn total\nend\n"

/-- The value of the variable of `sumText` before the routine is called. -/
def sumGlobals (name : String) : Option Datum := if name = "total" then some (.integer 5) else none

/-- Whether the body of a routine, called with `3` and `true`, gives back twice the last sum. -/
def givesSum (names : Typing.Context) (shape : Shape) (body : Body) : Bool :=
  match runBody shape.result 100 (names.defineAll shape.typed)
    (.enter (shape.parameters.map Prod.fst) [.integer 3, .boolean true] sumGlobals) body with
  | .returned val store =>
    decide (val = some (.integer 22) ∧ store.printed = [6, 8, 11] ∧
      store.globals "total" = some (.integer 22))
  | _ => false

theorem sumText_accepted :
    ((Program.parse sumText).diagnostics.isEmpty &&
      (Program.parse sumText).value.analyze.diagnostics.isEmpty &&
        (lower Options.standard (Program.parse sumText).value).isOk &&
          decide (globalNames (Program.parse sumText).value.analyze.symbols.context
              (Program.parse sumText).value.declarations = ["total"]) &&
            decide (variableKind? (Program.parse sumText).value.analyze.symbols.context "total" =
              some .integer) && match (Program.parse sumText).value.routines with
        | [routine] =>
          decide (routine.name ≠ Options.standard.entryPoint) &&
            match scalarRoutine? (Program.parse sumText).value.analyze.symbols.context routine with
            | some (shape, body) =>
              decide (shape.parameters.map Prod.snd = [.integer, .boolean]) &&
                givesSum (Program.parse sumText).value.analyze.symbols.context shape body
            | none => false
        | _ => false) = true := by
  rw [@Program.parse_of_toList sumText _
    (toList_append_of (toList_append_of String.toList_ofList String.toList_ofList)
      String.toList_ofList)]
  decide +kernel

/-- The body of `sumText` in the machine, with as many locals as the function has. -/
def sumState (function : Function) : State :=
  { stack := []
    locals := .i32 3 :: .i32 1 :: List.replicate function.locals.length (.i32 0)
    globals := [.i32 5]
    memory := { bytes := fun _ => 0, size := 0 }
    calls := [] }

theorem sumState_entered (isInteger : variableKind? names "total" = some .integer)
    (function : Function) :
    Entered names ["total"] function.locals [.integer 3, .boolean true] sumGlobals
      (sumState function) where
  stack := rfl
  size := by
    simp only [sumState, length_cons, length_replicate, length_nil]
    omega
  passed pos datum isDatum := by
    match pos with
    | 0 | 1 =>
      cases isDatum
      rfl
    | _ + 2 => cases isDatum
  globals index name kind isName isVariable := by
    match index with
    | 0 =>
      cases isName
      rw [variableKind?_eq_some.mpr isVariable] at isInteger
      cases isInteger
      exact ⟨.integer 5, rfl, rfl, rfl⟩
    | _ + 1 => cases isName

theorem function_implements_of_sumText :
    ∃ module function ending,
      lower Options.standard (Program.parse sumText).value = .ok module ∧
        function ∈ module.functions ∧ Runs module function.body (sumState function) ending ∧
        ∃ final, (ending = .next final ∨ ending = .returned final) ∧ final.stack = [.i32 22] ∧
          final.globals = [.i32 22] ∧ final.calls = [6, 8, 11].map printCall := by
  have accepted := sumText_accepted
  simp only [Bool.and_eq_true, List.isEmpty_iff, decide_eq_true_eq] at accepted
  obtain ⟨⟨⟨⟨⟨parses, analyzes⟩, isLowered⟩, areNames⟩, isInteger⟩, isRoutine⟩ := accepted
  cases lowered : lower Options.standard (Program.parse sumText).value with
  | error =>
    rw [lowered] at isLowered
    cases isLowered
  | ok module =>
    split at isRoutine
    · next routine areRoutines =>
      rw [Bool.and_eq_true, decide_eq_true_eq] at isRoutine
      obtain ⟨notEntry, isRoutine⟩ := isRoutine
      split at isRoutine
      · next shape body isScalar =>
        rw [Bool.and_eq_true, decide_eq_true_eq] at isRoutine
        obtain ⟨areKinds, gives⟩ := isRoutine
        rcases function_implements_of_accepted parses analyzes lowered
          (areRoutines ▸ List.mem_singleton_self routine) isScalar with
          ⟨function, isFunction, initial, code, isWhole, initializes, endsAlike⟩
        obtain rfl : initial = [] := initializes.resolve_right fun isEntry => notEntry isEntry.1
        unfold givesSum at gives
        split at gives
        · next value store ran =>
          obtain ⟨rfl, isPrinted, isTotal⟩ := of_decide_eq_true gives
          have entered := sumState_entered isInteger function
          rw [← areNames] at entered
          rcases endsAlike [.integer 3, .boolean true] sumGlobals 100 areKinds.symm
            (by rw [ran]; nofun) (sumState function) (sumState function) .nil
            entered with ⟨ending, runs, alike⟩
          rw [ran, areNames] at alike
          obtain ⟨final, isEnding, agree, isStack⟩ := alike
          refine ⟨module, function, ending, rfl, mem_of_find?_eq_some isFunction, runs,
            final, isEnding, isStack, ?_, ?_⟩
          · rcases agree.globals 0 "total" .integer rfl
              (variableKind?_eq_some.mp isInteger) with ⟨datum, isDatum, -, holds⟩
            cases isDatum.symm.trans isTotal
            have oneGlobal : final.globals.length = 1 := agree.others.1
            obtain ⟨only, isOnly⟩ := length_eq_one_iff.mp oneGlobal
            rw [isOnly] at holds ⊢
            cases holds
            rfl
          · rw [agree.calls, isPrinted]
            rfl
        · cases gives
      · cases isRoutine
    · cases isRoutine

end Imperative.Scalar
