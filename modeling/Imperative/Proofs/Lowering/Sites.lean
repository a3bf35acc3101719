import Imperative.Proofs.Lowering.Contents
import Imperative.Proofs.Typing.Throughout
import Mathlib.Logic.Relation

/-!
# Where expressions are lowered

`Lowers` takes one step from a piece of syntax in its environment to a piece that is lowered for it.
What the steps lead to from the variables and bodies of a program are its sites.
-/

namespace Imperative.Lowering

open Typing (BlockThroughout BodyThroughout Checked Declared DeclarationsThroughout
  ItemsThroughout RoutineThroughout StatementThroughout)
open Wasm (Code)

/-- A piece of syntax with code of its own. -/
inductive Piece where
  | value (tree : Expr)
  | statement (inner : Statement)
  | block (inner : Block)
  | items (inner : List Item)
  | body (inner : Body)

/-- A piece of syntax in its environment. -/
abbrev Site := Environment × Piece

/-- To lower the first piece in its environment, the second one is lowered in its own. -/
inductive Lowers : Site → Site → Prop
  | target : Lowers (env, .statement (.assign span place value)) (env, .value place)
  | assigned : Lowers (env, .statement (.assign span place value)) (env, .value value)
  | call : Lowers (env, .statement (.call span name args)) (env, .value (.call span name args))
  | branchTest :
      Lowers (env, .statement (.branch span test consequent alternative)) (env, .value test)
  | consequent :
      Lowers (env, .statement (.branch span test consequent alternative)) (env, .block consequent)
  | alternative :
      Lowers (env, .statement (.branch span test consequent (some alternative)))
        (env, .block alternative)
  | whileTest : Lowers (env, .statement (.whileLoop span test body)) (env, .value test)
  | whileBody : Lowers (env, .statement (.whileLoop span test body)) (env, .block body)
  | rangeFirst :
      Lowers (env, .statement (.rangeLoop span iter first last dir body)) (env, .value first)
  | rangeLast :
      Lowers (env, .statement (.rangeLoop span iter first last dir body)) (env, .value last)
  | rangeBody (isSetUp : rangeSetup env first last dir frame = .ok ((setup, locals), post)) :
      Lowers (env, .statement (.rangeLoop span iter first last dir body))
        (env.defineVariable iter .integer (.slot locals.counter), .block body)
  | array : Lowers (env, .statement (.arrayLoop span iter array dir body)) (env, .value array)
  | arrayBody (isSetUp : arraySetup env array dir frame = .ok (arrayLoop, post)) :
      Lowers (env, .statement (.arrayLoop span iter array dir body))
        (env.defineVariable iter arrayLoop.element arrayLoop.storage, .block body)
  | givenBack : Lowers (env, .statement (.giveBack span (some value))) (env, .value value)
  | printed {items : List Expr} (mem : item ∈ items) :
      Lowers (env, .statement (.print span items)) (env, .value item)
  | nested : Lowers (env, .statement (.block span blk)) (env, .block blk)
  | items : Lowers (env, .block (.mk span items)) (env, .items items)
  | initial {decl : VarDecl} (hasInitial : decl.initial = some value) :
      Lowers (env, .items (.declaration (.var decl) :: rest)) (env, .value value)
  | afterVariable (isDeclared : declareLocal env decl workspace = .ok ((code, extended), post)) :
      Lowers (env, .items (.declaration (.var decl) :: rest)) (extended, .items rest)
  | afterType :
      Lowers (env, .items (.declaration (.type decl) :: rest)) (env.defineType decl, .items rest)
  | first : Lowers (env, .items (.statement first :: rest)) (env, .statement first)
  | later : Lowers (env, .items (.statement first :: rest)) (env, .items rest)
  | bodyValue : Lowers (env, .body (.expression value)) (env, .value value)
  | bodyBlock : Lowers (env, .body (.block blk)) (env, .block blk)

/-- The expression that is deferred. -/
def Deferred.value : Deferred → Expr
  | .scalar value _ _ => value
  | .aggregate value _ _ => value

/--
Where lowering a program starts: with the value that gives a variable its type, with the values
that the entry point computes, and with the bodies of routines.
-/
inductive Starts (options : Options) (program : Program) : Site → Prop
  | inferred
      (isDeclared : program.declarations = earlier ++ .var (.mk span name none (some value)) ::
        later)
      (isAdded : addGlobals (Globals.start program) earlier = .ok st) :
      Starts options program (st.environment, .value value)
  | deferred {routine : Routine}
      (isAdded : addGlobals (Globals.start program) program.declarations = .ok st)
      (mem : .routine routine ∈ program.declarations) (hasBody : routine.body = some body)
      (isEntry : routine.name = options.entryPoint)
      (registered : st.environment.routines.lookup routine.name = some info)
      (isDeferred : deferred ∈ st.deferred) :
      Starts options program ({ st.environment with result := info.result }, .value deferred.value)
  | body {routine : Routine}
      (isAdded : addGlobals (Globals.start program) program.declarations = .ok st)
      (mem : .routine routine ∈ program.declarations) (hasBody : routine.body = some body)
      (registered : st.environment.routines.lookup routine.name = some info)
      (isBound : bindParameters { st.environment with result := info.result } 0
        (routine.parameters.zip info.parameters) workspace = .ok ((setup, extended), post)) :
      Starts options program (extended, .body body)

/-- Lowering the program comes to the expression. -/
def LowersAt (options : Options) (program : Program) (env : Environment) (value : Expr) : Prop :=
  ∃ start, Starts options program start ∧ Relation.ReflTransGen Lowers start (env, .value value)

open List

def Piece.Throughout (Holds : Typing.Context → Expr → Prop) (names : Typing.Context) : Piece → Prop
  | .value tree => Holds names tree
  | .statement inner => StatementThroughout Assignable Holds names inner
  | .block inner => BlockThroughout Assignable Holds names inner
  | .items inner => ItemsThroughout Assignable Holds names inner
  | .body inner => BodyThroughout Assignable Holds names inner

abbrev Situation := Situated outside False

/-- The property holds at the site, of names that agree with the environment. -/
def HoldsAt (Holds : Typing.Context → Expr → Prop) (site : Site) : Prop :=
  ∃ names, Situation names site.1 ∧ site.2.Throughout Holds names

section Holds

variable {Holds : Typing.Context → Expr → Prop}

/-- What holds throughout a piece holds throughout the pieces that are lowered for it. -/
theorem Lowers.holdsAt (lowers : Lowers site piece) (holds : HoldsAt Holds site) :
    HoldsAt Holds piece := by
  obtain ⟨names, situated, throughout⟩ := holds
  cases lowers with
  | target | whileTest | rangeFirst | array | first => exact ⟨names, situated, throughout.1⟩
  | assigned | whileBody | later => exact ⟨names, situated, throughout.2⟩
  | call | givenBack | nested | items | bodyValue | bodyBlock => exact ⟨names, situated, throughout⟩
  | @branchTest _ _ _ _ alternative => cases alternative <;> exact ⟨names, situated, throughout.1⟩
  | @consequent _ _ _ _ alternative =>
    cases alternative with
    | none => exact ⟨names, situated, throughout.2⟩
    | some block => exact ⟨names, situated, throughout.2.1⟩
  | alternative => exact ⟨names, situated, throughout.2.2⟩
  | rangeLast => exact ⟨names, situated, throughout.2.1⟩
  | rangeBody =>
    exact ⟨_, situated.defineVariable (by trivial) (fun _ => rfl) False.elim, throughout.2.2⟩
  | @arrayBody _ array dir frame arrayLoop _ _ _ _ isSetUp =>
    obtain ⟨-, element, size, arrayTyped, inBody⟩ := throughout
    have elementProper := arrayTyped.element_proper situated.proper
    obtain ⟨⟨rfl, direct⟩, -⟩ := (arraySetup_builds situated arrayTyped frame).of_ok isSetUp
    exact ⟨_, situated.defineVariable elementProper direct False.elim, inBody⟩
  | printed mem => exact ⟨names, situated, throughout _ mem⟩
  | initial hasInitial => exact ⟨names, situated, throughout.1 _ hasInitial⟩
  | @afterVariable _ decl workspace _ _ _ _ isDeclared =>
    obtain ⟨-, type, declTyped, inRest⟩ := throughout
    obtain ⟨⟨storage, direct, rfl⟩, -⟩ :=
      (declareLocal_builds situated declTyped workspace).of_ok isDeclared
    have typeProper := declTyped.proper situated.proper
    exact ⟨_, situated.defineVariable typeProper direct False.elim, inRest⟩
  | afterType =>
    obtain ⟨type, resolves, inRest⟩ := throughout
    exact ⟨_, situated.defineType resolves, inRest⟩

theorem holdsAt_of_reaches (reaches : Relation.ReflTransGen Lowers start site)
    (holds : HoldsAt Holds start) : HoldsAt Holds site := by
  induction reaches with
  | refl => exact holds
  | tail _ lowers ih => exact lowers.holdsAt ih

theorem addGlobals_append (st : Globals) :
    addGlobals st (earlier ++ later) =
      addGlobals st earlier >>= fun mid => addGlobals mid later := by
  induction earlier generalizing st with
  | nil => rfl
  | cons declaration rest ih =>
    cases declaration with
    | var decl => simp only [cons_append, addGlobals, ih, bind_assoc]
    | type | routine => exact ih st

theorem initial_of_addGlobal (isOk : addGlobal st decl = .ok post) :
    ∀ deferred ∈ post.deferred, deferred ∈ st.deferred ∨ decl.initial = some deferred.value := by
  obtain ⟨span, name, declared, initial⟩ := decl
  rcases except_bind_ok.mp isOk with ⟨type, -, added⟩
  intro deferred mem
  split at added
  · rcases except_bind_ok.mp added with ⟨⟨addr, memory⟩, -, isPure⟩
    cases isPure
    rcases mem_append.mp mem with older | isNew
    · exact .inl older
    · obtain ⟨value, isInit, rfl⟩ := mem_map.mp isNew
      exact .inr (Option.mem_toList.mp isInit)
  · rcases except_bind_ok.mp added with ⟨valueType, -, isPure⟩
    cases isPure
    rcases mem_append.mp mem with older | isNew
    · exact .inl older
    · split at isNew
      · cases isNew
      · obtain ⟨value, isInit, rfl⟩ := mem_map.mp isNew
        exact .inr (Option.mem_toList.mp isInit)

/-- The property holds of what is computed later, with the names that were known at its place. -/
def Globals.DeferredHold (Holds : Typing.Context → Expr → Prop) (names : Typing.Context)
    (st : Globals) : Prop :=
  ∀ deferred ∈ st.deferred, ∃ earlier, Typing.Context.Within earlier names ∧
    Holds earlier deferred.value

/-- After some declarations, the names that are known agree with the variables so far. -/
structure Globals.Reached (Holds : Typing.Context → Expr → Prop)
    (routines : List (String × RoutineInfo)) (names : Typing.Context) (st : Globals) : Prop where
  proper : names.Proper
  sound : st.Sound routines names
  deferred : st.DeferredHold Holds names

variable {st : Globals}

theorem addGlobals_reached
    (throughout : DeclarationsThroughout Assignable Holds names (earlier ++ later))
    (reached : st.Reached Holds routines names) (isAdded : addGlobals st earlier = .ok post) :
    ∃ known, names.Within known ∧ post.Reached Holds routines known ∧
      DeclarationsThroughout Assignable Holds known later := by
  induction earlier generalizing names st with
  | nil =>
    cases isAdded
    exact ⟨names, fun _ _ known => known, reached, throughout⟩
  | cons declaration rest ih =>
    cases declaration with
    | type => exact ih throughout reached isAdded
    | routine => exact ih throughout.2 reached isAdded
    | var decl =>
      obtain ⟨fresh, initHolds, type, declTyped, inRest⟩ := throughout
      obtain ⟨proper, sound, deferredHold⟩ := reached
      rcases except_bind_ok.mp isAdded with ⟨mid, isFirst, isRest⟩
      have typeProper : (Typing.Symbol.var type).Proper := declTyped.proper proper
      have within := Typing.Context.within_define fresh (.var type)
      have midReached : mid.Reached Holds routines (names.define decl.name (.var type)) := by
        refine ⟨proper.define typeProper,
          (addGlobal_meets sound proper fresh declTyped).of_ok isFirst, ?_⟩
        intro deferred mem
        rcases initial_of_addGlobal isFirst deferred mem with older | isInit
        · obtain ⟨pre, isWithin, holds⟩ := deferredHold deferred older
          exact ⟨pre, fun name sym known => within name sym (isWithin name sym known), holds⟩
        · exact ⟨names, within, initHolds _ isInit⟩
      obtain ⟨known, restWithin, restReached, inLater⟩ := ih inRest midReached isRest
      exact ⟨known, fun name sym isKnown =>
        restWithin name sym (within name sym isKnown), restReached, inLater⟩

/-- Names that agree with an environment agree with it whatever the result of the routine is. -/
theorem Globals.Reached.situation (reached : st.Reached Holds routines names)
    (returnable : Typing.Returnable result) : Situation names { st.environment with result } :=
  ⟨reached.proper, ⟨reached.sound.agrees.scope, reached.sound.agrees.types,
    reached.sound.agrees.routines⟩, returnable, False.elim⟩

section Program

variable {program : Program} {names : Typing.Context}
    (declared : Declared Typing.Context.basic program.declarations names)
    (throughout : DeclarationsThroughout Assignable Holds names program.declarations)

include declared

theorem start_reached :
    (Globals.start program).Reached Holds (Globals.start program).environment.routines names :=
  ⟨declared.proper Typing.Context.basic_proper, .start declared 2 _, nofun⟩

include throughout

theorem routine_reached (isAdded : addGlobals (Globals.start program) program.declarations = .ok st)
    (mem : .routine routine ∈ program.declarations) (hasBody : routine.body = some body)
    (registered : st.environment.routines.lookup routine.name = some info) :
    Typing.Returnable info.result ∧ (∀ type ∈ info.parameters, type.Proper) ∧
      ∃ earlier final, Typing.Context.Within earlier final ∧
        st.Reached Holds (Globals.start program).environment.routines final ∧
        BodyThroughout Assignable Holds
          (earlier.defineAll ((routine.parameters.zip info.parameters).map
            fun entry => (entry.1.name, entry.2))) body := by
  obtain ⟨pre, post, isDeclared⟩ := append_of_mem mem
  rw [isDeclared] at throughout isAdded
  rw [addGlobals_append] at isAdded
  rcases except_bind_ok.mp isAdded with ⟨mid, isFirst, isRest⟩
  obtain ⟨earlier, known, reached, inRest⟩ :=
    addGlobals_reached throughout (start_reached declared) isFirst
  obtain ⟨sig, inEarlier, inBody⟩ := inRest.1 body hasBody
  rw [← append_nil (.routine routine :: post)] at inRest
  obtain ⟨final, within, finallyReached, -⟩ := addGlobals_reached inRest reached isRest
  obtain ⟨found, isFound, -, paramsProper, returnable, -, samePairs⟩ :=
    registered_of_body declared (routinesAgree_declared declared 2) known mem hasBody inEarlier
  rw [finallyReached.sound.routines] at registered
  obtain rfl : found = info := Option.some.inj (isFound.symm.trans registered)
  rw [← samePairs] at inBody
  exact ⟨returnable, paramsProper, earlier, final, within, finallyReached, inBody⟩

theorem Starts.holdsAt (starts : Starts options program site) : HoldsAt Holds site := by
  cases starts with
  | inferred isDeclared isAdded =>
    rw [isDeclared] at throughout
    obtain ⟨known, -, reached, -, initHolds, -⟩ :=
      addGlobals_reached throughout (start_reached declared) isAdded
    have returnable : Typing.Returnable (.void) := .inl rfl
    refine ⟨known, ?_, initHolds _ rfl⟩
    have situated := reached.situation returnable
    rwa [← reached.sound.result] at situated
  | deferred isAdded mem hasBody _ registered isDeferred =>
    obtain ⟨returnable, -, -, final, -, reached, -⟩ :=
      routine_reached declared throughout isAdded mem hasBody registered
    obtain ⟨earlier, within, holds⟩ := reached.deferred _ isDeferred
    exact ⟨earlier, (reached.situation returnable).of_within within, holds⟩
  | @body st body info workspace _ inner _ routine isAdded mem hasBody registered isBound =>
    obtain ⟨returnable, paramsProper, earlier, final, within, reached, inBody⟩ :=
      routine_reached declared throughout isAdded mem hasBody registered
    have situated := (reached.situation returnable).of_within within
    have entriesProper : ∀ entry ∈ routine.parameters.zip info.parameters, entry.2.Proper :=
      fun entry mem => paramsProper entry.2 (of_mem_zip mem).2
    obtain ⟨⟨agrees, sameRes⟩, -⟩ :=
      (bindParameters_builds situated entriesProper False.elim workspace).of_ok isBound
    refine ⟨_, ⟨?_, agrees, ?_, False.elim⟩, inBody⟩
    · apply situated.proper.defineAll
      intro entry isEntry
      obtain ⟨param, isParam, rfl⟩ := mem_map.mp isEntry
      exact entriesProper param isParam
    · rw [sameRes]
      exact returnable

/-- What holds throughout a program holds wherever lowering comes to an expression. -/
theorem LowersAt.holds (lowers : LowersAt options program env value) :
    ∃ known, Situation known env ∧ Holds known value := by
  obtain ⟨start, starts, reaches⟩ := lowers
  exact holdsAt_of_reaches reaches (starts.holdsAt declared throughout)

end Program

end Holds

end Imperative.Lowering
