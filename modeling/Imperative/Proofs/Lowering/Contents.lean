import Imperative.Proofs.Lowering.Program

/-!
# What the module of a program consists of

Its globals keep the variables that are not aggregates, and its functions are the routines with a
body, each in the order of the declarations.
-/

namespace Imperative.Lowering

open List

open Typing (Checked Declared VarTyped)
open Wasm (Code Function Module)

variable {options : Options} {routine : Routine}

/-- The variables that are kept in globals. -/
def globalNames (names : Typing.Context) : List Declaration → List String
  | [] => []
  | .var decl :: rest =>
    match names decl.name with
    | some (.var type) =>
      if type.isAggregate then globalNames names rest
      else decl.name :: globalNames names rest
    | _ => globalNames names rest
  | _ :: rest => globalNames names rest

/-- The variables of the names that are not aggregates have the globals with their positions. -/
structure Globals.Numbered (st : Globals) (names : Typing.Context)
    (order : List String) : Prop where
  count : order.length = st.globals.length
  placed : ∀ (name : String) (type : Ty), names name = some (.var type) →
    type.isAggregate = false →
    ∃ index, st.environment.scope.lookup name = some { type, storage := .global index } ∧
      order[index]? = some name
  known : ∀ name ∈ order, names name ≠ none
  distinct : order.Nodup

theorem addGlobal_ok (isOk : addGlobal st decl = .ok post) :
    ∃ type, globalType st.environment decl.span decl.name decl.type decl.initial = .ok type ∧
      ((type.isAggregate = true ∧ post.globals = st.globals ∧ ∃ addr,
          post.environment = st.environment.defineVariable decl.name type (.fixed addr)) ∨
        (type.isAggregate = false ∧ (∃ global, post.globals = st.globals ++ [global]) ∧
          post.environment =
            st.environment.defineVariable decl.name type (.global st.globals.length))) := by
  obtain ⟨span, name, declared, init⟩ := decl
  rcases except_bind_ok.mp isOk with ⟨type, isType, added⟩
  refine ⟨type, isType, ?_⟩
  split at added
  · next isAggregate =>
    rcases except_bind_ok.mp added with ⟨⟨addr, memory⟩, -, isPure⟩
    cases isPure
    exact .inl ⟨isAggregate, rfl, addr, rfl⟩
  · next notAggregate =>
    rcases except_bind_ok.mp added with ⟨valueType, -, isPure⟩
    cases isPure
    exact .inr ⟨by simpa using notAggregate, ⟨_, rfl⟩, rfl⟩

section Variables

variable {st post : Globals}

theorem Globals.Numbered.grow (numbered : st.Numbered names order) (fresh : names name = none)
    (more : List String)
    (sameEnv : post.environment = st.environment.defineVariable name type storage)
    (count : post.globals.length = st.globals.length + more.length)
    (added : ∀ other ∈ more, other = name) (distinct : more.Nodup)
    (isGlobal : type.isAggregate = false → storage = .global order.length ∧ more = [name]) :
    post.Numbered (names.define name (.var type)) (order ++ more) where
  count := by rw [length_append, count, numbered.count]
  placed other found isVariable notAggregate := by
    rw [sameEnv]
    show ∃ index, ((name, _) :: st.environment.scope).lookup other = _ ∧ _
    rcases Typing.Context.define_eq_some.mp isVariable with ⟨rfl, ⟨⟩⟩ | ⟨different, isVariable⟩
    · rcases isGlobal notAggregate with ⟨rfl, rfl⟩
      exact ⟨order.length, lookup_cons_self, by simp⟩
    · rcases numbered.placed other found isVariable notAggregate with ⟨index, isPlaced, isName⟩
      refine ⟨index, ?_, ?_⟩
      · simpa only [List.lookup_cons, beq_false_of_ne different] using isPlaced
      · rw [List.getElem?_append_left (List.getElem?_eq_some_iff.mp isName).1, isName]
  known other mem := by
    by_cases same : other = name
    · subst same
      rw [Typing.Context.define_same]
      nofun
    · rw [Typing.Context.define_other same]
      rcases mem_append.mp mem with older | isAdded
      · exact numbered.known other older
      · exact absurd (added other isAdded) same
  distinct := by
    refine nodup_append.mpr ⟨numbered.distinct, distinct, ?_⟩
    rintro older isOlder other isAdded rfl
    rw [added older isAdded] at isOlder
    exact numbered.known name isOlder fresh

theorem addGlobals_numbered (checked : Checked Assignable RoutineChecked names decls final)
    (proper : names.Proper) (sound : st.Sound routines names) (numbered : st.Numbered names order)
    (isOk : addGlobals st decls = .ok post) :
    post.Numbered final (order ++ globalNames final decls) := by
  induction checked generalizing st order with
  | nil =>
    cases isOk
    rwa [globalNames, append_nil]
  | @var names final decl type rest fresh declTyped restChecked ih =>
    rcases except_bind_ok.mp isOk with ⟨mid, isAdded, isRest⟩
    have typeProper : (Typing.Symbol.var type).Proper := declTyped.proper proper
    have midSound := (addGlobal_meets sound proper fresh declTyped).of_ok isAdded
    have isFinal : final decl.name = some (.var type) :=
      restChecked.within _ _ Typing.Context.define_same
    rcases addGlobal_ok isAdded with ⟨found, isFound, added⟩
    obtain rfl : found = type := by
      obtain ⟨span, name, written, init⟩ := decl
      exact (globalType_meets sound proper declTyped).of_ok isFound
    rcases added with ⟨isAggregate, sameGlobals, addr, sameEnv⟩ |
      ⟨notAggregate, ⟨global, oneMore⟩, sameEnv⟩
    · have midNumbered := numbered.grow fresh [] sameEnv
        (by simp [sameGlobals]) nofun .nil fun notAggregate => by
          rw [isAggregate] at notAggregate
          cases notAggregate
      have whole := ih (proper.define typeProper) midSound midNumbered isRest
      rw [globalNames, isFinal]
      simpa [isAggregate] using whole
    · have midNumbered := numbered.grow fresh [decl.name] sameEnv
        (by simp [oneMore]) (by simp) (by simp) fun _ => ⟨by rw [numbered.count], rfl⟩
      have whole := ih (proper.define typeProper) midSound midNumbered isRest
      rw [globalNames, isFinal]
      simpa [notAggregate] using whole
  | type _ ih | routine _ _ ih => exact ih proper sound numbered isOk

end Variables

/-- The routines with a body. -/
def definedRoutines : List Declaration → List Routine
  | [] => []
  | .routine routine :: rest =>
    if routine.isForward then definedRoutines rest else routine :: definedRoutines rest
  | _ :: rest => definedRoutines rest

theorem map_name_definedRoutines :
    (definedRoutines decls).map Routine.name = definedNames decls := by
  induction decls with
  | nil => rfl
  | cons declaration rest ih =>
    cases declaration with
    | var | type => exact ih
    | routine routine =>
      rw [definedRoutines, definedNames]
      split
      · exact ih
      · exact congrArg (_ :: ·) ih

theorem mem_definedRoutines : routine ∈ definedRoutines decls ↔
    .routine routine ∈ decls ∧ routine.isForward = false := by
  induction decls with
  | nil => simp [definedRoutines]
  | cons declaration rest ih =>
    cases declaration with
    | var | type => simp [definedRoutines, ih]
    | routine other =>
      rw [definedRoutines]
      split <;> grind

theorem definedNames_nodup (declared : Declared names decls final) :
    (∀ (name : String) (sig : Typing.Signature), name ∈ definedNames decls →
      names name = some (.routine sig) → sig.hasBody = false) ∧ (definedNames decls).Nodup := by
  induction declared with
  | nil => exact ⟨nofun, .nil⟩
  | var _ ih => exact ih
  | @type names _ decl _ _ fresh _ _ ih =>
    refine ⟨fun name sig isDefined known => ?_, ih.2⟩
    refine ih.1 name sig isDefined ?_
    exact Typing.Context.within_define fresh _ name _ known
  | @routine names _ routine sig rest fresh declares _ ih =>
    rcases ih with ⟨incomplete, distinct⟩
    have others : ∀ (name : String) (other : Typing.Signature), name ∈ definedNames rest →
        names name = some (.routine other) → other.hasBody = false :=
      fun name other isDefined known =>
        incomplete name other isDefined (Typing.Context.within_define fresh _ name _ known)
    rw [definedNames]
    split
    · exact ⟨others, distinct⟩
    · next notForward =>
      have notLater : routine.name ∉ definedNames rest := by
        intro later
        have hasNone := incomplete _ sig later Typing.Context.define_same
        rw [declares.hasBody] at hasNone
        exact notForward (by simpa using hasNone)
      refine ⟨fun name other isDefined known => ?_, nodup_cons.mpr ⟨notLater, distinct⟩⟩
      rcases mem_cons.mp isDefined with rfl | later
      · rw [fresh] at known
        cases known
      · exact others name other later known
  | @repeated names _ routine _ _ rest known declares _ isForward _ ih =>
    rw [declares.hasBody] at isForward
    rw [definedNames, if_pos (by simpa using isForward)]
    exact ih
  | @completed names _ routine existing sig rest known incomplete declares _ hasBody _ ih =>
    rcases ih with ⟨laterIncomplete, distinct⟩
    have notLater : routine.name ∉ definedNames rest := by
      intro later
      have hasNone := laterIncomplete _ sig later Typing.Context.define_same
      rw [hasBody] at hasNone
      cases hasNone
    rw [declares.hasBody] at hasBody
    rw [definedNames, if_neg (by simpa using hasBody)]
    refine ⟨fun name other isDefined isKnown => ?_, nodup_cons.mpr ⟨notLater, distinct⟩⟩
    by_cases same : name = routine.name
    · subst same
      rw [known] at isKnown
      cases isKnown
      exact incomplete
    · refine laterIncomplete name other ?_ ((Typing.Context.define_other same).trans isKnown)
      exact (mem_cons.mp isDefined).resolve_left same

/-- The function consists of the code of the routine, with deferred values in the entry point. -/
inductive Realizes (options : Options) (st : Globals) (routine : Routine) (function : Function) :
    Prop
  | intro {body : Body} {info : RoutineInfo} {deferred : List Deferred} {memory : StaticMemory}
      {workspace : Workspace} (name : function.name = routine.name) (hasBody : routine.body =
        some body)
      (registered : st.environment.routines.lookup routine.name = some info)
      (computed : deferred = [] ∨ routine.name = options.entryPoint ∧ deferred = st.deferred)
      (isCode : routineCode { st.environment with result := info.result } deferred
        (routine.parameters.zip info.parameters) body
        { frame := Frame.start (routine.parameters.zip info.parameters).length, memory } =
          .ok (function.body, workspace)) (locals : function.locals = workspace.frame.locals)

def HasSignature (env : Environment) (module : Module) (routine : Routine) (function : Function) :
    Prop :=
  ∃ info type, env.routines.lookup routine.name = some info ∧
    functionType (routine.parameters.zip info.parameters) info.result = .ok type ∧
    module.types[function.typeIndex]? = some type

theorem HasSignature.extend (hasSignature : HasSignature env module routine function)
    (extended : Extends module post) : HasSignature env post routine function := by
  obtain ⟨info, type, registered, isType, isFound⟩ := hasSignature
  exact ⟨info, type, registered, isType, extended.type? isFound⟩

theorem addRoutine_ok {image : Image}
    (isOk : addRoutine options env deferred routine body image = .ok post) :
    ∃ info computed workspace function,
      env.routines.lookup routine.name = some info ∧
        (computed = [] ∨ routine.name = options.entryPoint ∧ computed = deferred) ∧
        routineCode { env with result := info.result } computed
          (routine.parameters.zip info.parameters) body
          { frame := Frame.start (routine.parameters.zip info.parameters).length
            memory := image.memory } = .ok (function.body, workspace) ∧
        function.name = routine.name ∧ function.locals = workspace.frame.locals ∧
        Extends image.module post.module ∧
        post.module.functions = image.module.functions ++ [function] ∧
        post.memory = workspace.memory ∧
        (image.module.Indexed → HasSignature env post.module routine function) := by
  rw [addRoutine] at isOk
  cases registered : env.routines.lookup routine.name with
  | none =>
    rw [registered] at isOk
    cases isOk
  | some info =>
    rw [registered] at isOk
    rcases except_bind_ok.mp isOk with ⟨type, isType, isInterned⟩
    have extended := intern_extends type image.module
    have isFound (indexed : image.module.Indexed) := intern_found indexed type
    have sameFuncs := intern_functions type image.module
    generalize image.module.intern type = interned at extended isFound sameFuncs isInterned
    obtain ⟨typeIndex, module⟩ := interned
    rcases except_bind_ok.mp isInterned with ⟨⟨code, workspace⟩, isCode, isPure⟩
    cases isPure
    refine ⟨info, _, workspace, ⟨routine.name, typeIndex, workspace.frame.locals, code⟩, rfl, ?_,
      isCode, rfl, rfl, ?_, ?_, rfl, fun indexed => ⟨info, type, registered, isType, ?_⟩⟩
    · split
      · next isEntry => exact .inr ⟨of_decide_eq_true (Bool.and_eq_true_iff.mp isEntry).1, rfl⟩
      · exact .inl rfl
    · split <;> exact ⟨extended.types, extended.imports, extended.globals, extended.indexed⟩
    · split <;> exact congrArg (· ++ [_]) sameFuncs
    · split <;> exact isFound indexed

theorem addRoutines_realize {image : Image} (indexed : image.module.Indexed)
    (isOk : addRoutines options st.environment st.deferred image decls = .ok post) :
    Extends image.module post.module ∧
      ∃ added, post.module.functions = image.module.functions ++ added ∧
        List.Forall₂ (fun routine function => Realizes options st routine function ∧
          HasSignature st.environment post.module routine function) (definedRoutines decls)
            added := by
  induction decls generalizing image with
  | nil =>
    cases isOk
    exact ⟨.refl, [], (append_nil _).symm, .nil⟩
  | cons declaration rest ih =>
    cases declaration with
    | var | type => exact ih indexed isOk
    | routine routine =>
      rw [addRoutines] at isOk
      cases hasBody : routine.body with
      | none =>
        have isForward : routine.isForward = true := by simp [Routine.isForward, hasBody]
        rw [hasBody] at isOk
        rw [definedRoutines, if_pos isForward]
        exact ih indexed isOk
      | some body =>
        have notForward : ¬ routine.isForward = true := by simp [Routine.isForward, hasBody]
        rw [hasBody] at isOk
        rw [definedRoutines, if_neg notForward]
        rcases except_bind_ok.mp isOk with ⟨mid, isFirst, isRest⟩
        rcases addRoutine_ok isFirst with ⟨info, deferred, workspace, function, registered,
          computed, isCode, name, locals, extended, oneMore, -, hasSignature⟩
        have realizes := Realizes.intro name hasBody registered computed isCode locals
        rcases ih (extended.indexed indexed) isRest with ⟨further, added, more, others⟩
        refine ⟨extended.trans further, function :: added, ?_,
          .cons ⟨realizes, (hasSignature indexed).extend further⟩ others⟩
        rw [more, oneMore, append_assoc]
        rfl

theorem find?_of_realize (realize : List.Forall₂ (Realizes options st) routines funcs)
    (distinct : (routines.map Routine.name).Nodup) (mem : routine ∈ routines) :
    ∃ function, funcs.find? (fun function => function.name = routine.name) = some function ∧
      Realizes options st routine function := by
  induction realize with
  | nil => cases mem
  | @cons first function rest funcs realizes _ ih =>
    rcases nodup_cons.mp distinct with ⟨notLater, restDistinct⟩
    have isName : function.name = first.name := by
      cases realizes
      assumption
    rcases mem_cons.mp mem with rfl | later
    · exact ⟨function, find?_cons_of_pos (by simpa using isName), realizes⟩
    · rcases ih restDistinct later with ⟨found, isFound, foundRealizes⟩
      refine ⟨found, ?_, foundRealizes⟩
      rw [find?_cons_of_neg, isFound]
      intro same
      have sameName : function.name = routine.name := of_decide_eq_true same
      rw [← isName, sameName] at notLater
      exact notLater (mem_map_of_mem later)

/-- Where lowering the variables of a program starts. -/
def Globals.start (program : Program) : Globals :=
  { environment :=
      registerRoutines (defineTypes Environment.empty program.declarations) 2 program.declarations
    globals := []
    memory := StaticMemory.empty
    deferred := [] }

theorem lower_ok (lowered : lower options program = .ok module) :
    ∃ st, addGlobals (Globals.start program) program.declarations = .ok st ∧
      module.imports = (printingModule options).imports ∧
      (printingModule options).types <+: module.types ∧ module.globals = st.globals ∧
      List.Forall₂ (fun routine function => Realizes options st routine function ∧
          HasSignature st.environment module routine function)
        (definedRoutines program.declarations) module.functions := by
  rcases except_bind_ok.mp lowered with ⟨st, isSt, isImage⟩
  rcases except_bind_ok.mp isImage with ⟨image, isAdded, isPure⟩
  cases isPure
  rcases addRoutines_realize printingModule_indexed isAdded with ⟨extended, added, funcs, realize⟩
  have finished := @addMemory_extends options image
  have whole := extended.trans finished
  refine ⟨st, isSt, whole.imports, whole.types, whole.globals, ?_⟩
  rw [addMemory_functions, funcs]
  exact realize.imp fun _ _ both => ⟨both.1, both.2.extend finished⟩

end Imperative.Lowering
