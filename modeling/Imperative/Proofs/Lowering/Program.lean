import Imperative.Proofs.Lowering.Routines

/-!
# The module of a program is valid

A function is checked against the whole module, which is only known in the end.  So while it is
added, its code is typed in every context that fits the environment, and the final module gives one.
-/

namespace Imperative.Lowering

open List

open Typing (BodyTyped Checked Declared HasType Returnable RoutineTyped)
open Wasm (Code Context FuncType Function Global Instruction Module Spares ValueType)

variable {body : Body} {env : Environment} {module : Module} {options : Options} {image : Image}
    {routine : Routine} {earlier : Typing.Context}

def Ready (final : Typing.Context) (env : Environment) (routine : Routine) : Prop :=
  ∀ body, routine.body = some body →
    ∃ info earlier, env.routines.lookup routine.name = some info ∧
      routine.parameters.length = info.parameters.length ∧
      (∀ type ∈ info.parameters, type.Proper) ∧ Returnable info.result ∧
      Typing.Context.Within earlier final ∧
      BodyTyped Assignable
        (earlier.defineAll
          ((routine.parameters.zip info.parameters).map fun entry => (entry.1.name, entry.2)))
        info.result body

theorem zip_parameters (declares : Typing.Declares ctx routine sig) :
    routine.parameters.length = sig.parameters.length ∧
      (routine.parameters.zip (sig.parameters.map Prod.snd)).map
        (fun entry => (entry.1.name, entry.2)) = sig.parameters := by
  have params := declares.parameters
  generalize routine.parameters = written at params ⊢
  generalize sig.parameters = types at params ⊢
  induction params with
  | nil => exact ⟨rfl, rfl⟩
  | cons entry _ ih =>
    obtain ⟨sameLength, samePairs⟩ := ih
    exact ⟨congrArg Nat.succ sameLength, by simp [samePairs, ← entry.1]⟩

section Ready

variable {names : Typing.Context} {decls : List Declaration}
    (declared : Declared Typing.Context.basic decls names) {env : Environment}
    (agree : RoutinesAgree names env)

include declared agree

theorem registered_of_body (known : names.Within earlier) (mem : .routine routine ∈ decls)
    (hasBody : routine.body = some body) (inEarlier : earlier routine.name = some (.routine sig)) :
    ∃ info, env.routines.lookup routine.name = some info ∧
      routine.parameters.length = info.parameters.length ∧
      (∀ type ∈ info.parameters, type.Proper) ∧ Returnable info.result ∧ info.result = sig.result ∧
      (routine.parameters.zip info.parameters).map (fun entry => (entry.1.name, entry.2)) =
        sig.parameters := by
  have notForward : routine.isForward = false := by simp [Routine.isForward, hasBody]
  obtain ⟨found, inNames, declares⟩ := declared.signature_of_body mem notForward
  have sameSig := known _ _ inNames
  rw [inEarlier] at sameSig
  cases sameSig
  obtain ⟨info, registered, isIndexed, sameTys⟩ := agree.registered _ _ inNames
  have hasIndex : info.index.isSome = true := by
    rw [isIndexed, declares.hasBody, notForward]
    rfl
  obtain ⟨sameParams, sameRes⟩ := sameTys hasIndex
  have sigProper := declared.proper Typing.Context.basic_proper _ _ inNames
  obtain ⟨sameLength, samePairs⟩ := zip_parameters declares
  refine ⟨info, registered, ?_, ?_, ?_, sameRes, ?_⟩
  · simpa [sameParams] using sameLength
  · intro type isParam
    rw [sameParams] at isParam
    obtain ⟨param, inParams, rfl⟩ := mem_map.mp isParam
    exact sigProper.1 param inParams
  · rw [sameRes]
    exact sigProper.2
  · rw [sameParams]
    exact samePairs

theorem ready_of_typed (known : names.Within earlier) (within : earlier.Within final)
    (mem : .routine routine ∈ decls) (routineTyped : RoutineTyped Assignable earlier routine) :
    Ready final env routine := by
  intro body hasBody
  cases routineTyped with
  | forward noBody =>
    rw [hasBody] at noBody
    cases noBody
  | defined isBody inEarlier bodyTyped =>
    rw [hasBody] at isBody
    cases isBody
    obtain ⟨info, registered, sameLength, paramsProper, returnable, sameRes, samePairs⟩ :=
      registered_of_body declared agree known mem hasBody inEarlier
    refine ⟨info, earlier, registered, sameLength, paramsProper, returnable, within, ?_⟩
    rw [sameRes, samePairs]
    exact bodyTyped

theorem ready_of_checked (checked : Checked Assignable (RoutineTyped Assignable) earlier rest final)
    (known : names.Within earlier) (subset : rest ⊆ decls) :
    ∀ routine, .routine routine ∈ rest → Ready final env routine := by
  intro routine mem
  induction checked with
  | nil => cases mem
  | var fresh _ _ ih =>
    refine ih (fun name sym isKnown => ?_) (subset_of_cons_subset subset) (by simpa using mem)
    exact Typing.Context.within_define fresh _ name sym (known name sym isKnown)
  | type _ ih => exact ih known (subset_of_cons_subset subset) (by simpa using mem)
  | routine routineTyped restChecked ih =>
    rcases mem_cons.mp mem with same | later
    · cases same
      exact ready_of_typed declared agree known restChecked.within (subset (by simp)) routineTyped
    · exact ih known (subset_of_cons_subset subset) later

end Ready

theorem RoutinesAgree.of_sound (agree : RoutinesAgree names env) {st : Globals}
    (sound : st.Sound env.routines final) : RoutinesAgree names st.environment := by
  obtain ⟨registered, known⟩ := agree
  refine ⟨?_, ?_⟩
  · unfold Registered
    rw [sound.routines]
    exact registered
  · rw [sound.routines]
    exact known

/-- The code of the function is typed in every context that fits the environment. -/
def Implements (env : Environment) (globals : List Global) (module : Module) (name : String)
    (function : Function) : Prop :=
  ∃ info, env.routines.lookup name = some info ∧
    module.types[function.typeIndex]? = some info.type ∧
    ∀ ctx : Context, Environment.Placed ctx { env with result := info.result } →
      ctx.globals = globals → ctx.locals = info.type.parameters ++ function.locals →
      Spares function.body ∧ Code.Typed ctx function.body [] info.type.results.reverse

theorem Implements.extend (implements : Implements env globals pre name function)
    (extended : Extends pre post) : Implements env globals post name function := by
  obtain ⟨info, registered, isType, typed⟩ := implements
  exact ⟨info, registered, extended.type? isType, typed⟩

theorem getElem?_filterMap_valueType {types : List Ty} (proper : ∀ type ∈ types, type.Proper)
    {pos : Nat} (found : types[pos]? = some type) :
    (types.filterMap valueType?)[pos]? = valueType? type := by
  induction types generalizing pos with
  | nil => cases found
  | cons first rest ih =>
    obtain ⟨valueType, isType⟩ := exists_valueType (proper first (by simp))
    rw [filterMap_cons_some isType]
    cases pos with
    | zero =>
      cases found
      simp [isType]
    | succ pos => exact ih (fun other mem => proper other (by simp [mem])) found

theorem length_filterMap_valueType {types : List Ty} (proper : ∀ type ∈ types, type.Proper) :
    (types.filterMap valueType?).length = types.length := by
  rw [filterMap_length_eq_length]
  intro type mem
  obtain ⟨valueType, isType⟩ := exists_valueType (proper type mem)
  simp [isType]

section Functions

variable {names : Typing.Context} {env : Environment} {globals : List Global}
    {deferred : List Deferred} (proper : names.Proper) (agrees : Agrees names env)
    (deferredTyped : ∀ val ∈ deferred, val.Typed names globals)

include proper agrees deferredTyped

/-- The code of a routine that is ready is typed in every context that fits the environment. -/
theorem routineCode_meets {params : List (Parameter × Ty)} {info : RoutineInfo}
    (sameTys : params.map Prod.snd = info.parameters)
    (paramsProper : ∀ type ∈ info.parameters, type.Proper) (returnable : Returnable info.result)
    (within : earlier.Within names)
    (bodyTyped : BodyTyped Assignable
      (earlier.defineAll (params.map fun entry => (entry.1.name, entry.2))) info.result body) :
    Meets
      (routineCode { env with result := info.result } deferred params body
        { frame := Frame.start params.length, memory := memory })
      fun res => ∀ ctx : Context,
        Environment.Placed ctx { env with result := info.result } →
          ctx.globals = globals →
          ctx.locals = info.type.parameters ++ res.2.frame.locals →
          Spares res.1 ∧ Code.Typed ctx res.1 [] info.type.results.reverse := by
  have count : params.length = info.type.parameters.length := by
    rw [RoutineInfo.type, length_filterMap_valueType paramsProper, ← sameTys, length_map]
  have entriesProper : ∀ entry ∈ params, entry.2.Proper := by
    intro entry mem
    apply paramsProper
    rw [← sameTys]
    exact mem_map_of_mem mem
  have : Nonempty Context := ⟨outside⟩
  apply Meets.forall_of_nonempty
  intro ctx
  have situated : Situated ctx
      (Environment.Placed ctx { env with result := info.result } ∧
        ctx.globals = globals ∧ info.type.parameters <+: ctx.locals)
      names { env with result := info.result } :=
    ⟨proper, ⟨agrees.scope, agrees.types, agrees.routines⟩, returnable, fun isGiven => isGiven.1⟩
  have builds := routineCode_builds situated (·.2.1) deferredTyped within
    entriesProper
    (by
      rintro ⟨-, -, more, appended⟩ pos entry found
      have isType : info.parameters[pos]? = some entry.2 := by
        rw [← sameTys, getElem?_map, found]
        rfl
      obtain ⟨valueType, isVal⟩ :=
        exists_valueType (entriesProper entry (mem_of_getElem? found))
      have isLocal := getElem?_filterMap_valueType paramsProper isType
      rw [isVal] at isLocal ⊢
      have inBounds := (List.getElem?_eq_some_iff.mp isLocal).1
      rw [← appended, RoutineInfo.type, List.getElem?_append_left inBounds]
      exact isLocal) bodyTyped
  apply (builds { frame := Frame.start params.length, memory := memory }).imp
  rintro ⟨code, workspace⟩ ⟨-, leads⟩ placed sameGlobals sameLocals
  have isGiven : Environment.Placed ctx { env with result := info.result } ∧
      ctx.globals = globals ∧ info.type.parameters <+: ctx.locals :=
    ⟨placed, sameGlobals, sameLocals ▸ prefix_append _ _⟩
  have fits : workspace.frame.Within ctx := by
    have started : workspace.frame.parameters = info.type.parameters.length :=
      leads.parameters.trans count
    have dropped : ctx.locals.drop workspace.frame.parameters = workspace.frame.locals := by
      rw [started, sameLocals, drop_left]
    exact ⟨by simp [started, sameLocals], dropped ▸ prefix_rfl⟩
  have turns := (leads.typed isGiven nofun fits).1
  have typed := turns []
  simpa [RoutineInfo.type] using typed

theorem addRoutine_meets (indexed : image.module.Indexed) (hasBody : routine.body = some body)
    (ready : Ready names env routine) :
    Meets (addRoutine options env deferred routine body image) fun post =>
      Extends image.module post.module ∧
        ∃ function, post.module.functions = image.module.functions ++ [function] ∧
          Implements env globals post.module routine.name function := by
  obtain ⟨info, earlier, registered, sameLength, paramsProper, returnable, within, bodyTyped⟩ :=
    ready body hasBody
  have sameTys : (routine.parameters.zip info.parameters).map Prod.snd = info.parameters :=
    map_snd_zip (Nat.le_of_eq sameLength.symm)
  have entriesProper : ∀ entry ∈ routine.parameters.zip info.parameters, entry.2.Proper :=
    fun entry mem => paramsProper entry.2 (of_mem_zip mem).2
  unfold addRoutine
  rw [registered]
  apply (functionType_meets entriesProper).bind
  intro type isFunctionType
  rw [sameTys] at isFunctionType
  obtain rfl : type = info.type := isFunctionType
  have extended := intern_extends info.type image.module
  have isType := intern_found indexed info.type
  have sameFuncs := intern_functions info.type image.module
  generalize image.module.intern info.type = interned at extended isType sameFuncs ⊢
  obtain ⟨typeIndex, module⟩ := interned
  have someTyped (isEntry : Bool) : ∀ val ∈ (if isEntry then deferred else []),
      val.Typed names globals := by
    intro val mem
    split at mem
    · exact deferredTyped val mem
    · cases mem
  apply Meets.bind (routineCode_meets proper agrees (someTyped _) sameTys paramsProper
    returnable within bodyTyped)
  rintro ⟨code, workspace⟩ typed
  apply Meets.pure
  -- The function is added alike, whether or not it is exported.
  refine ⟨?_, ⟨routine.name, typeIndex, workspace.frame.locals, code⟩, ?_, info, registered, ?_,
    typed⟩
  · split <;> exact ⟨extended.types, extended.imports, extended.globals, extended.indexed⟩
  · split <;> exact congrArg (· ++ [_]) sameFuncs
  · split <;> exact isType

theorem addRoutines_meets {image : Image} (indexed : image.module.Indexed)
    (ready : ∀ routine, .routine routine ∈ decls → Ready names env routine) :
    Meets (addRoutines options env deferred image decls) fun post =>
      Extends image.module post.module ∧
        ∃ added, post.module.functions = image.module.functions ++ added ∧
          List.Forall₂ (Implements env globals post.module) (definedNames decls) added := by
  induction decls generalizing image with
  | nil => exact .pure ⟨.refl, [], by simp, .nil⟩
  | cons decl rest ih =>
    have restReady : ∀ routine, .routine routine ∈ rest → Ready names env routine :=
      fun routine mem => ready routine (by simp [mem])
    cases decl with
    | var | type => exact ih indexed restReady
    | routine routine =>
      rw [addRoutines]
      cases hasBody : routine.body with
      | none =>
        have isForward : routine.isForward = true := by simp [Routine.isForward, hasBody]
        rw [definedNames, if_pos isForward]
        exact ih indexed restReady
      | some body =>
        have notForward : ¬ routine.isForward = true := by
          simp [Routine.isForward, hasBody]
        rw [definedNames, if_neg notForward]
        apply (addRoutine_meets proper agrees deferredTyped indexed hasBody
          (ready routine (by simp))).bind
        rintro mid ⟨extended, function, oneMore, implements⟩
        apply (ih (extended.indexed indexed) restReady).imp
        rintro post ⟨further, added, more, others⟩
        refine ⟨extended.trans further, function :: added, ?_,
          .cons (implements.extend further) others⟩
        rw [more, oneMore, append_assoc]
        rfl

end Functions

theorem addMemory_extends : Extends image.module (addMemory options image) := by
  unfold addMemory
  split <;> exact ⟨prefix_rfl, rfl, rfl, id⟩

theorem addMemory_functions : (addMemory options image).functions = image.module.functions := by
  unfold addMemory
  split <;> rfl

theorem printingModule_imports :
    (printingModule options).imports =
      [⟨options.hostModule, options.printInteger, 0⟩, ⟨options.hostModule, options.printReal, 1⟩] :=
        rfl

theorem printingModule_types : (printingModule options).types = [⟨[.i32], []⟩, ⟨[.f64], []⟩] := rfl

theorem printingModule_indexed : (printingModule options).Indexed :=
  have first := @addImport_indexed options.hostModule options.printInteger _ Module.empty_indexed
  @addImport_indexed options.hostModule options.printReal _ (first ⟨[.i32], []⟩) ⟨[.f64], []⟩

theorem functionType?_printers (imports : module.imports = (printingModule options).imports)
    (types : (printingModule options).types <+: module.types) :
    module.functionType? printInteger = some { parameters := [.i32], results := [] } ∧
      module.functionType? printReal = some { parameters := [.f64], results := [] } := by
  obtain ⟨more, appended⟩ := types
  unfold Module.functionType?
  rw [imports, printingModule_imports, ← appended, printingModule_types]
  exact ⟨rfl, rfl⟩

theorem functionType?_of_implements (imports : module.imports = (printingModule options).imports)
    (implement : List.Forall₂ (Implements env globals module) routines module.functions)
    (isName : routines[pos]? = some name) (registered : env.routines.lookup name = some info) :
    module.functionType? (2 + pos) = some info.type := by
  obtain ⟨inBounds, isName⟩ := List.getElem?_eq_some_iff.mp isName
  have isFunction : pos < module.functions.length := implement.length_eq ▸ inBounds
  obtain ⟨found, isRegistered, isType, -⟩ := implement.get inBounds isFunction
  simp only [get_eq_getElem, isName, registered, Option.some.injEq] at isRegistered isType
  subst isRegistered
  unfold Module.functionType?
  rw [imports, printingModule_imports, getElem?_append_right (by simp)]
  simpa [isFunction] using isType

theorem placed_in_module {st : Globals}
    (sound : st.Sound routines names) (imports : module.imports = (printingModule options).imports)
    (types : (printingModule options).types <+: module.types) (globals : module.globals =
      st.globals)
    (implement : List.Forall₂ (Implements st.environment st.globals module) defined
      module.functions)
    (numbered : ∀ name info index, routines.lookup name = some info → info.index = some index →
      ∃ pos, index = 2 + pos ∧ defined[pos]? = some name)
    (info : RoutineInfo) (locals : List ValueType) :
    Environment.Placed (module.context info.type locals)
      { st.environment with result := info.result } where
  scope entry mem := by
    have isGlobal := sound.scope entry mem
    obtain ⟨name, type, storage⟩ := entry
    cases storage with
    | global index =>
      have holds : GlobalHolds st.globals index type := isGlobal
      rw [← globals] at holds
      exact holds
    | fixed addr => trivial
    | slot | pointer => exact isGlobal.elim
  routines name found index registered isIndexed := by
    have isRoutine : routines.lookup name = some found := by
      rw [← sound.routines]
      exact registered
    obtain ⟨pos, rfl, isName⟩ := numbered name found index isRoutine isIndexed
    exact functionType?_of_implements imports implement isName registered
  printsIntegers := (functionType?_printers imports types).1
  printsReals := (functionType?_printers imports types).2
  results := rfl

/--
Lowering a well typed program gives a module whose functions are all valid and truncate no real,
unless a limit is exceeded.
-/
theorem lower_meets (wellTyped : program.WellTyped Assignable) (options : Options) :
    Meets (lower options program) fun module =>
      ∀ function ∈ module.functions, function.Valid module ∧ Spares function.body := by
  obtain ⟨names, final, declared, checked⟩ := wellTyped
  have namesProper := declared.proper Typing.Context.basic_proper
  have agree := routinesAgree_declared declared 2
  apply (addGlobals_meets checked namesProper (.start declared 2 _)).bind
  intro st sound
  have stAgree := agree.of_sound sound
  have ready := ready_of_checked declared stAgree checked (fun _ _ known => known) (.refl _)
  apply (addRoutines_meets (checked.proper namesProper) sound.agrees sound.deferred
    printingModule_indexed ready).bind
  rintro image ⟨extended, added, funcs, implement⟩
  apply Meets.pure
  have finished := @addMemory_extends options image
  have whole := extended.trans finished
  have allFuncs : (addMemory options image).functions = added := by
    rw [addMemory_functions, funcs]
    rfl
  have implementAll : List.Forall₂ (Implements st.environment st.globals (addMemory options image))
      (definedNames program.declarations) (addMemory options image).functions := by
    rw [allFuncs]
    exact implement.imp fun _ _ implements => implements.extend finished
  intro function mem
  obtain ⟨pos, inBounds, rfl⟩ := mem_iff_getElem.mp mem
  obtain ⟨info, -, isType, typed⟩ := implementAll.get (implementAll.length_eq ▸ inBounds) inBounds
  have placed := placed_in_module sound whole.imports whole.types whole.globals implementAll
    (by
      intro name info index found isIndexed
      rcases index_of_registerRoutines found isIndexed with pre | isDefined
      · rw [(defineTypes_keeps ..).2.1] at pre
        cases pre
      · exact isDefined) info (addMemory options image).functions[pos].locals
  obtain ⟨spares, bodyTyped⟩ := typed _ placed whole.globals rfl
  exact ⟨⟨info.type, isType, bodyTyped⟩, spares⟩

end Imperative.Lowering
