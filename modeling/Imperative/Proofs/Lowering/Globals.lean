import Imperative.Lowering.Program
import Imperative.Proofs.Lowering.Statement

/-!
# What the declarations of a program give

The analysis declares types and routines in one pass and variables in another; lowering defines
types, registers routines and then adds variables.  In the end the two agree.
-/

namespace Imperative.Lowering

open Typing (Checked Declared Declares HasType Returnable VarTyped)
open Wasm (Code Context Global)

variable {env : Environment} {decls : List Declaration} {globals : List Global}
    {info : RoutineInfo} {name : String} {type : Ty}
    {names : Typing.Context}

theorem typesAgree_basic : TypesAgree Typing.Context.basic Environment.empty := by
  intro name type declared known
  rw [Typing.Context.basic, declared.1] at known
  cases known

theorem typesAgree_defineTypes (declared : Declared names decls final)
    (agree : TypesAgree names env) : TypesAgree final (defineTypes env decls) := by
  induction declared generalizing env with
  | nil => exact agree
  | var _ ih | repeated _ _ _ _ _ ih => exact ih agree
  | type _ resolves _ ih => exact ih (agree.defineType resolves)
  | routine _ _ _ ih | completed _ _ _ _ _ _ ih => exact ih (agree.define_symbol nofun)

theorem defineTypes_induct {Holds : Environment → Prop} (holds : Holds env)
    (defines : ∀ env decl, .type decl ∈ decls → Holds env → Holds (env.defineType decl)) :
    Holds (defineTypes env decls) := by
  induction decls generalizing env with
  | nil => exact holds
  | cons declaration rest ih =>
    have restDefines := fun env decl mem => defines env decl (List.mem_cons_of_mem _ mem)
    cases declaration with
    | var | routine => exact ih holds restDefines
    | type decl => exact ih (defines env decl List.mem_cons_self holds) restDefines

theorem routineInfo_eq (agree : TypesAgree names env)
    (declares : Declares names routine sig) (index : Option Nat) :
    routineInfo env routine index =
      { index := index, parameters := sig.parameters.map Prod.snd, result := sig.result } := by
  have sameParams :
      routine.parameters.map (fun param => env.resolve none param.type) =
        sig.parameters.map Prod.snd := by
    have params := declares.parameters
    generalize routine.parameters = written at params ⊢
    generalize sig.parameters = types at params ⊢
    induction params with
    | nil => rfl
    | cons entry _ ih => simp [agree.resolve_eq entry.2, ih]
  unfold routineInfo
  rw [sameParams]
  cases given : routine.result with
  | none => simp [declares.noResult given]
  | some written => simp [agree.resolve_eq (declares.result written given)]

def Registered (env : Environment) (name : String) (sig : Typing.Signature) : Prop :=
  ∃ info, env.routines.lookup name = some info ∧
    info.index.isSome = sig.hasBody ∧
    (info.index.isSome = true →
      info.parameters = sig.parameters.map Prod.snd ∧ info.result = sig.result)

/-- The routines that the names know are registered, and no others. -/
structure RoutinesAgree (names : Typing.Context) (env : Environment) : Prop where
  registered : ∀ name sig, names name = some (.routine sig) → Registered env name sig
  known : ∀ name info, env.routines.lookup name = some info →
    ∃ sig, names name = some (.routine sig)

theorem registerRoutine_lookup_other (different : other ≠ name) :
    (registerRoutine name info env).routines.lookup other = env.routines.lookup other := by
  unfold registerRoutine
  dsimp only
  split
  · rfl
  · simp [List.lookup_cons, beq_false_of_ne different]

/-- A declaration replaces what was registered, unless it lacks a body that was given before. -/
theorem registerRoutine_lookup_same
    (isNewer : (env.routines.lookup name).bind RoutineInfo.index = none ∨
      info.index.isSome = true) :
    (registerRoutine name info env).routines.lookup name = some info := by
  unfold registerRoutine
  rcases isNewer with noBody | hasBody
  · simp [noBody]
  · have notForward : info.index.isNone = false := by
      cases isIndexed : info.index <;> simp_all
    simp [notForward]

theorem RoutinesAgree.define (agree : RoutinesAgree names env)
    (isNewer : (env.routines.lookup name).bind RoutineInfo.index = none ∨ info.index.isSome = true)
    (hasBody : info.index.isSome = sig.hasBody)
    (sameTys : info.parameters = sig.parameters.map Prod.snd ∧ info.result = sig.result) :
    RoutinesAgree (names.define name (.routine sig)) (registerRoutine name info env) where
  registered other found known := by
    rcases Typing.Context.define_eq_some.mp known with ⟨rfl, ⟨⟩⟩ | ⟨different, known⟩
    · exact ⟨info, registerRoutine_lookup_same isNewer, hasBody, fun _ => sameTys⟩
    · obtain ⟨registered, lookedUp, rest⟩ := agree.registered other found known
      exact ⟨registered, by rw [registerRoutine_lookup_other different, lookedUp], rest⟩
  known other found lookedUp := by
    by_cases same : other = name
    · subst same
      exact ⟨sig, Typing.Context.define_same⟩
    · rw [registerRoutine_lookup_other same] at lookedUp
      rw [Typing.Context.define_other same]
      exact agree.known other found lookedUp

theorem RoutinesAgree.repeat (agree : RoutinesAgree names env)
    (known : names name = some (.routine existing)) (isForward : info.index = none) :
    RoutinesAgree names (registerRoutine name info env) := by
  obtain ⟨registered, lookedUp, hasBody, sameTys⟩ := agree.registered name existing known
  cases isIndexed : registered.index with
  | some index =>
    have same : registerRoutine name info env = env := by
      simp [registerRoutine, lookedUp, isIndexed, isForward]
    rw [same]
    exact agree
  | none =>
    have isNewer : (env.routines.lookup name).bind RoutineInfo.index = none := by
      simp [lookedUp, isIndexed]
    have now : (registerRoutine name info env).routines.lookup name = some info :=
      registerRoutine_lookup_same (.inl isNewer)
    refine ⟨fun other found isKnown => ?_, fun other found isFound => ?_⟩
    · by_cases same : other = name
      · subst same
        rw [known] at isKnown
        cases isKnown
        refine ⟨info, now, ?_, ?_⟩
        · rw [← hasBody, isIndexed, isForward]
        · simp [isForward]
      · obtain ⟨older, olderFound, rest⟩ := agree.registered other found isKnown
        exact ⟨older, by rw [registerRoutine_lookup_other same, olderFound], rest⟩
    · by_cases same : other = name
      · subst same
        exact ⟨existing, known⟩
      · rw [registerRoutine_lookup_other same] at isFound
        exact agree.known other found isFound

theorem RoutinesAgree.define_type (agree : RoutinesAgree names env) (fresh : names name = none) :
    RoutinesAgree (names.define name (.type type)) env where
  registered other found known := by
    rcases Typing.Context.define_eq_some.mp known with ⟨-, ⟨⟩⟩ | ⟨-, known⟩
    exact agree.registered other found known
  known other found lookedUp := by
    obtain ⟨sig, known⟩ := agree.known other found lookedUp
    exact ⟨sig, Typing.Context.within_define fresh _ other _ known⟩

theorem registerRoutine_keeps (name : String) (info : RoutineInfo) (env : Environment) :
    (registerRoutine name info env).scope = env.scope ∧
      (registerRoutine name info env).types = env.types ∧
      (registerRoutine name info env).result = env.result := by
  unfold registerRoutine
  dsimp only
  split <;> exact ⟨rfl, rfl, rfl⟩

theorem registerRoutines_induct {Holds : Environment → Prop} (holds : Holds env)
    (registers : ∀ env routine index, .routine routine ∈ decls → Holds env →
      Holds (registerRoutine routine.name (routineInfo env routine index) env)) :
    Holds (registerRoutines env next decls) := by
  induction decls generalizing env next with
  | nil => exact holds
  | cons declaration rest ih =>
    have restRegisters := fun env routine index mem =>
      registers env routine index (List.mem_cons_of_mem _ mem)
    cases declaration with
    | var | type => exact ih holds restRegisters
    | routine routine =>
      rw [registerRoutines]
      split <;> exact ih (registers env routine _ List.mem_cons_self holds) restRegisters

theorem TypesAgree.register (agree : TypesAgree names env) :
    TypesAgree names (registerRoutine name info env) := by
  intro other type declared known
  rw [(registerRoutine_keeps name info env).2.1]
  exact agree other type declared known

/-- Registering the routines of a program makes the environment agree with its names. -/
theorem routinesAgree_registerRoutines (declared : Declared names decls final)
    (types : TypesAgree final env) (agree : RoutinesAgree names env) (next : Nat) :
    RoutinesAgree final (registerRoutines env next decls) := by
  induction declared generalizing env next with
  | nil => exact agree
  | var _ ih => exact ih types agree next
  | type fresh _ _ ih => exact ih types (agree.define_type fresh) next
  | @routine names final routine sig rest fresh declares restDeclared ih =>
    have within := (Declared.routine fresh declares restDeclared).typesWithin
    have info (index : Option Nat) := routineInfo_eq types (declares.within within) index
    have isNew : (env.routines.lookup routine.name).bind RoutineInfo.index = none := by
      cases lookedUp : env.routines.lookup routine.name with
      | none => rfl
      | some found =>
        obtain ⟨other, known⟩ := agree.known _ found lookedUp
        rw [fresh] at known
        cases known
    rw [registerRoutines]
    split
    · next isForward =>
      apply ih types.register
      apply agree.define (.inl isNew)
      · simp [info, declares.hasBody, isForward]
      · simp [info]
    · next hasBody =>
      apply ih types.register
      apply agree.define (.inl isNew)
      · simp [info, declares.hasBody, hasBody]
      · simp [info]
  | @repeated names final routine existing sig rest known declares same isForward restDeclared ih =>
    have noBody : routine.isForward = true := by
      simpa [declares.hasBody] using isForward
    rw [registerRoutines, if_pos noBody]
    apply ih types.register
    exact agree.repeat known rfl
  | @completed names final routine existing sig rest known incomplete declares same hasBody
      restDeclared ih =>
    have within :=
      (Declared.completed known incomplete declares same hasBody restDeclared).typesWithin
    have info := routineInfo_eq types (declares.within within) (some next)
    have notForward : ¬ routine.isForward = true := by
      simpa [declares.hasBody] using hasBody
    rw [registerRoutines, if_neg notForward]
    apply ih types.register
    apply agree.define
    · right
      rfl
    · simp [info, hasBody]
    · simp [info]

def definedNames : List Declaration → List String
  | [] => []
  | .routine routine :: rest =>
    if routine.isForward then definedNames rest else routine.name :: definedNames rest
  | _ :: rest => definedNames rest

theorem index_of_registerRoutines
    (found : (registerRoutines env next decls).routines.lookup name = some info)
    (isIndexed : info.index = some index) :
    env.routines.lookup name = some info ∨
      ∃ pos, index = next + pos ∧ (definedNames decls)[pos]? = some name := by
  induction decls generalizing env next with
  | nil => exact .inl found
  | cons declaration rest ih =>
    cases declaration with
    | var | type => exact ih found
    | routine routine =>
      rw [registerRoutines] at found
      rw [definedNames]
      split at found
      · next isForward =>
        rw [if_pos isForward]
        rcases ih found with pre | later
        · by_cases same : name = routine.name
          · subst same
            left
            unfold registerRoutine at pre
            dsimp only at pre
            split at pre
            · exact pre
            · simp only [List.lookup_cons_self, Option.some.injEq] at pre
              subst pre
              cases isIndexed
          · rw [registerRoutine_lookup_other same] at pre
            exact .inl pre
        · exact .inr later
      · next hasBody =>
        rw [if_neg hasBody]
        rcases ih found with pre | ⟨pos, isNext, isName⟩
        · by_cases same : name = routine.name
          · subst same
            right
            rw [registerRoutine_lookup_same (.inr rfl)] at pre
            cases pre
            cases isIndexed
            exact ⟨0, rfl, rfl⟩
          · rw [registerRoutine_lookup_other same] at pre
            exact .inl pre
        · refine .inr ⟨pos + 1, ?_, isName⟩
          omega

theorem defineTypes_keeps (env : Environment) (decls : List Declaration) :
    (defineTypes env decls).scope = env.scope ∧
      (defineTypes env decls).routines = env.routines ∧
      (defineTypes env decls).result = env.result :=
  @defineTypes_induct _ _ (fun inner => inner.scope = env.scope ∧
      inner.routines = env.routines ∧ inner.result = env.result)
    ⟨rfl, rfl, rfl⟩ fun _ _ _ same => same

theorem declared_noVariable (declared : Declared names decls final)
    (noVariable : ∀ name type, names name ≠ some (.var type)) :
    ∀ name type, final name ≠ some (.var type) := by
  have defined {names : Typing.Context} (noVariable : ∀ name type, names name ≠ some (.var type))
      (name : String) {sym : Typing.Symbol} (notVariable : ∀ type, sym ≠ .var type) :
      ∀ other type, names.define name sym other ≠ some (.var type) := by
    intro other type known
    rcases Typing.Context.define_eq_some.mp known with ⟨-, isVariable⟩ | ⟨-, known⟩
    · exact notVariable type isVariable
    · exact noVariable other type known
  induction declared with
  | nil => exact noVariable
  | var _ ih | repeated _ _ _ _ _ ih => exact ih noVariable
  | type _ _ _ ih | routine _ _ _ ih | completed _ _ _ _ _ _ ih =>
    exact ih (defined noVariable _ nofun)

theorem registerRoutines_keeps (env : Environment) (next : Nat) :
    (registerRoutines env next decls).scope = env.scope ∧
      (registerRoutines env next decls).types = env.types ∧
      (registerRoutines env next decls).result = env.result := by
  refine @registerRoutines_induct _ _ _ (fun inner => inner.scope = env.scope ∧
    inner.types = env.types ∧ inner.result = env.result) ⟨rfl, rfl, rfl⟩ ?_
  intro inner routine index _ ⟨scope, types, result⟩
  obtain ⟨sameScope, sameTypes, sameResult⟩ :=
    registerRoutine_keeps routine.name (routineInfo inner routine index) inner
  exact ⟨sameScope.trans scope, sameTypes.trans types, sameResult.trans result⟩

section Declared

variable {decls : List Declaration} {names : Typing.Context}
    (declared : Declared Typing.Context.basic decls names) (next : Nat)

include declared

theorem routinesAgree_declared :
    RoutinesAgree names (registerRoutines (defineTypes Environment.empty decls) next decls) := by
  apply routinesAgree_registerRoutines declared (typesAgree_defineTypes declared typesAgree_basic)
  refine ⟨fun name sig known => ?_, fun name info found => ?_⟩
  · obtain ⟨primitive, -, same⟩ := Option.map_eq_some_iff.mp known
    cases same
  · rw [(defineTypes_keeps ..).2.1] at found
    cases found

theorem agrees_declared :
    Agrees names (registerRoutines (defineTypes Environment.empty decls) next decls) where
  scope name type known := by
    refine absurd known (declared_noVariable declared ?_ name type)
    intro other found isBasic
    obtain ⟨primitive, -, same⟩ := Option.map_eq_some_iff.mp isBasic
    cases same
  types name type isDeclared known := by
    rw [(registerRoutines_keeps ..).2.1]
    exact typesAgree_defineTypes declared typesAgree_basic name type isDeclared known
  routines name sig known := by
    obtain ⟨info, found, -, sameTys⟩ :=
      (routinesAgree_declared declared next).registered name sig known
    exact ⟨info, found, sameTys⟩

end Declared

theorem Agrees.of_within (agrees : Agrees larger env)
    (within : smaller.Within larger) : Agrees smaller env where
  scope name type known := agrees.scope name type (within name _ known)
  types name type declared known := agrees.types name type declared (within name _ known)
  routines name sig known := agrees.routines name sig (within name _ known)

/-- The value could be stored as one of the type when the variable was declared. -/
def FirstValue (names : Typing.Context) (val : Expr) (type : Ty) : Prop :=
  ∃ earlier found, Typing.Context.Within earlier names ∧
    HasType Assignable earlier val found ∧ Assignable found type

def Deferred.Typed (names : Typing.Context) (globals : List Global) : Deferred → Prop
  | .scalar val type index => FirstValue names val type ∧ type.Proper ∧
    GlobalHolds globals index type
  | .aggregate val type _ => FirstValue names val type ∧ type.Proper ∧ type.isAggregate = true

def Variable.IsGlobal (globals : List Global) (entry : Variable) : Prop := match entry.storage with
  | .global index => GlobalHolds globals index entry.type
  | .fixed _ => True
  | .slot _ | .pointer _ => False

/-- The variables of the program so far agree with the names that are declared so far. -/
structure Globals.Sound (routines : List (String × RoutineInfo)) (names : Typing.Context)
    (st : Globals) : Prop where
  agrees : Agrees names st.environment
  routines : st.environment.routines = routines
  result : st.environment.result = .void
  scope : ∀ entry ∈ st.environment.scope, entry.2.IsGlobal st.globals
  deferred : ∀ val ∈ st.deferred, val.Typed names st.globals

theorem GlobalHolds.append (holds : GlobalHolds globals index type) :
    GlobalHolds (globals ++ more) index type := by
  obtain ⟨global, found, mutable, isType⟩ := holds
  have inBounds : index < globals.length := (List.getElem?_eq_some_iff.mp found).1
  exact ⟨global, by rw [List.getElem?_append_left inBounds, found], mutable, isType⟩

theorem FirstValue.within (firstValue : FirstValue smaller val type)
    (within : smaller.Within larger) : FirstValue larger val type := by
  obtain ⟨earlier, found, isEarlier, valueTyped, converts⟩ := firstValue
  exact ⟨earlier, found, fun name sym known => within name sym (isEarlier name sym known),
    valueTyped, converts⟩

theorem Deferred.Typed.grow {deferred : Deferred}
    (typed : deferred.Typed smaller globals) (within : smaller.Within larger) (more : List Global) :
    deferred.Typed larger (globals ++ more) := by
  cases deferred with
  | scalar val type index =>
    obtain ⟨firstValue, proper, holds⟩ := typed
    exact ⟨firstValue.within within, proper, holds.append⟩
  | aggregate val type addr =>
    obtain ⟨firstValue, proper, isAggregate⟩ := typed
    exact ⟨firstValue.within within, proper, isAggregate⟩

theorem Variable.IsGlobal.append {entry : Variable} (isGlobal : entry.IsGlobal globals) :
    entry.IsGlobal (globals ++ more) := by
  obtain ⟨type, storage⟩ := entry
  cases storage with
  | global index => exact GlobalHolds.append isGlobal
  | fixed | slot | pointer => exact isGlobal

section Variables

variable {routines : List (String × RoutineInfo)} {names : Typing.Context} {st : Globals}

/-- Before any variable is added, the environment knows the types and the routines. -/
theorem Globals.Sound.start (declared : Declared Typing.Context.basic decls names)
    (next : Nat) (memory : StaticMemory) :
    Globals.Sound (registerRoutines (defineTypes Environment.empty decls) next decls).routines names
      { environment :=
          registerRoutines (defineTypes Environment.empty decls) next decls
        globals := []
        memory
        deferred := [] } where
  agrees := agrees_declared declared next
  routines := rfl
  result := by
    rw [(registerRoutines_keeps ..).2.2, (defineTypes_keeps ..).2.2]
    rfl
  scope entry mem := by
    rw [(registerRoutines_keeps ..).1, (defineTypes_keeps ..).1] at mem
    cases mem
  deferred val mem := by cases mem

theorem Globals.Sound.grow (sound : st.Sound routines names) (fresh : names name = none)
    (storage : Storage) (direct : storage.isDirect = true → type.isAggregate = false)
    {post : Globals} (sameEnv : post.environment = st.environment.defineVariable name type storage)
    (more : List Global) (grown : post.globals = st.globals ++ more)
    (isGlobal : Variable.IsGlobal post.globals { type, storage })
    (deferred : ∀ val ∈ post.deferred, val ∈ st.deferred ∨ val.Typed names post.globals) :
    post.Sound routines (names.define name (.var type)) where
  agrees := by
    rw [sameEnv]
    exact sound.agrees.defineVariable direct
  routines := by
    rw [sameEnv]
    exact sound.routines
  result := by
    rw [sameEnv]
    exact sound.result
  scope entry mem := by
    rw [sameEnv] at mem
    rcases List.mem_cons.mp mem with rfl | older
    · exact isGlobal
    · rw [grown]
      exact (sound.scope entry older).append
  deferred val mem := by
    have within := Typing.Context.within_define fresh (.var type)
    rcases deferred val mem with older | typed
    · rw [grown]
      exact (sound.deferred val older).grow within more
    · have widened := typed.grow within []
      rwa [List.append_nil] at widened

theorem addAggregate_meets (sound : st.Sound routines names) {span : Span}
    (fresh : names name = none) (proper : type.Proper) (isAggregate : type.isAggregate = true)
    (initTyped : ∀ val ∈ init, FirstValue names val type) :
    Meets (addAggregate st span name type init)
      (Globals.Sound routines (names.define name (.var type))) := by
  apply ((allocate_meets st.memory proper).locating span).bind
  rintro ⟨addr, memory⟩ _
  apply Meets.pure
  apply sound.grow fresh (.fixed addr) nofun rfl []
  · simp
  · trivial
  · intro val mem
    rcases List.mem_append.mp mem with older | added
    · exact .inl older
    · obtain ⟨first, isFirst, rfl⟩ := List.mem_map.mp added
      exact .inr ⟨initTyped first (by simpa using isFirst), proper, isAggregate⟩

theorem addScalar_meets (sound : st.Sound routines names)
    (fresh : names name = none) (proper : type.Proper) (isScalar : type.isAggregate = false)
    (initTyped : ∀ val ∈ init, FirstValue names val type) :
    Meets (addScalar st span name type init)
      (Globals.Sound routines (names.define name (.var type))) := by
  apply (scalarType_meets proper).bind
  intro valueType isType
  apply Meets.pure
  have holds (first : Wasm.Instruction) :
      GlobalHolds (st.globals ++ [{ type := valueType, mutable := true, initial := first }])
        st.globals.length type :=
    ⟨{ type := valueType, mutable := true, initial := first }, by simp, rfl, isType⟩
  apply sound.grow fresh (.global st.globals.length) (fun _ => isScalar) rfl
  · rfl
  · exact holds _
  · intro val mem
    rcases List.mem_append.mp mem with older | added
    · exact .inl older
    · right
      split at added
      · cases added
      · obtain ⟨first, isFirst, rfl⟩ := List.mem_map.mp added
        exact ⟨initTyped first (by simpa using isFirst), proper, holds _⟩

theorem firstValue_of_varTyped (proper : names.Proper)
    (declTyped : VarTyped Assignable names (.mk span name declared init) type) :
    ∀ val ∈ init, FirstValue names val type := by
  have typeProper := declTyped.proper proper
  intro val isInit
  cases declTyped with
  | declared _ => cases isInit
  | initialized _ valueTyped converts =>
    cases isInit
    exact ⟨names, _, fun _ _ known => known, valueTyped, converts⟩
  | inferred valueTyped _ =>
    cases isInit
    exact ⟨names, _, fun _ _ known => known, valueTyped, assignable_self typeProper⟩

def outside : Context :=
  { functions := fun _ => none, globals := [], locals := [], results := [], labels := 0 }

theorem globalType_meets (sound : st.Sound routines names) (proper : names.Proper)
    (declTyped : VarTyped Assignable names (.mk span name declared init) type) :
    Meets (globalType st.environment span name declared init) fun found => found = type := by
  cases declTyped with
  | declared resolves | initialized resolves _ _ =>
    exact .pure (sound.agrees.types.resolve_eq resolves)
  | inferred valueTyped _ =>
    have situated : Situated outside False names st.environment :=
      ⟨proper, sound.agrees, .inl (by rw [sound.result]; rfl), False.elim⟩
    apply Meets.bind (expression_builds situated valueTyped (Frame.start 0))
    rintro ⟨⟨code, found⟩, frame⟩ ⟨same, -⟩
    exact Meets.pure same

theorem addGlobal_meets (sound : st.Sound routines names) (proper : names.Proper)
    (fresh : names decl.name = none) (declTyped : VarTyped Assignable names decl type) :
    Meets (addGlobal st decl) (Globals.Sound routines (names.define decl.name (.var type))) := by
  have typeProper := declTyped.proper proper
  obtain ⟨span, name, declared, init⟩ := decl
  have initTyped := firstValue_of_varTyped proper declTyped
  apply (globalType_meets sound proper declTyped).bind
  rintro _ rfl
  split
  · next isAggregate => exact addAggregate_meets sound fresh typeProper isAggregate initTyped
  · next notAggregate =>
    exact addScalar_meets sound fresh typeProper (by simpa using notAggregate) initTyped

theorem addGlobals_meets (checked : Checked Assignable RoutineChecked names decls final)
    (proper : names.Proper) (sound : st.Sound routines names) :
    Meets (addGlobals st decls) (Globals.Sound routines final) := by
  induction checked generalizing st with
  | nil => exact .pure sound
  | @var names _ decl type _ fresh declTyped _ ih =>
    have typeProper : (Typing.Symbol.var type).Proper := declTyped.proper proper
    apply (addGlobal_meets sound proper fresh declTyped).bind
    intro post afterSound
    exact ih (proper.define typeProper) afterSound
  | type _ ih | routine _ _ ih => exact ih proper sound

end Variables

end Imperative.Lowering
