import Imperative.Proofs.Lowering.Expression

/-!
# The code of statements is typed

The code of a well typed statement leaves the stack as it found it.  A declaration extends the
names and the environment alike, so the two go on agreeing for the items after it.
-/

namespace Imperative.Lowering

open Typing (BlockTyped HasType ItemsTyped Resolves Returnable StatementTyped VarTyped)
open Wasm (Code Context Instruction Numeric ValueType)

variable {storage : Storage} {type : Ty}

/-! ## Definitions -/

theorem TypesAgree.define_symbol (agree : TypesAgree names env)
    (notType : ∀ type, sym ≠ .type type) :
    TypesAgree (names.define name sym) env := by
  intro other type declared known
  rcases Typing.Context.define_eq_some.mp known with ⟨-, isType⟩ | ⟨-, known⟩
  · exact absurd isType (notType type)
  · exact agree other type declared known

theorem TypesAgree.defineType (agree : TypesAgree names env)
    (resolves : Resolves names (some decl.name) decl.type type) :
    TypesAgree (names.define decl.name (.type type)) (env.defineType decl) := by
  intro other found declared known
  rcases Typing.Context.define_eq_some.mp known with ⟨rfl, ⟨⟩⟩ | ⟨different, known⟩
  · simp [Environment.defineType, agree.resolve_eq resolves]
  · have lookedUp := agree other found declared known
    simpa [Environment.defineType, List.lookup_cons, beq_false_of_ne different] using lookedUp

theorem Agrees.defineVariable (agrees : Agrees names env)
    (direct : storage.isDirect = true → type.isAggregate = false) :
    Agrees (names.define name (.var type)) (env.defineVariable name type storage) where
  scope other found known := by
    rcases Typing.Context.define_eq_some.mp known with ⟨rfl, ⟨⟩⟩ | ⟨different, known⟩
    · exact ⟨storage, List.lookup_cons_self, direct⟩
    · obtain ⟨place, lookedUp, isDirect⟩ := agrees.scope other found known
      refine ⟨place, ?_, isDirect⟩
      simpa [Environment.defineVariable, List.lookup_cons, beq_false_of_ne different] using lookedUp
  types := agrees.types.define_symbol nofun
  routines other sig known := by
    rcases Typing.Context.define_eq_some.mp known with ⟨-, ⟨⟩⟩ | ⟨-, known⟩
    exact agrees.routines other sig known

theorem Agrees.defineType (agrees : Agrees names env)
    (resolves : Resolves names (some decl.name) decl.type type) :
    Agrees (names.define decl.name (.type type)) (env.defineType decl) where
  scope other found known := by
    rcases Typing.Context.define_eq_some.mp known with ⟨-, ⟨⟩⟩ | ⟨-, known⟩
    exact agrees.scope other found known
  types := agrees.types.defineType resolves
  routines other sig known := by
    rcases Typing.Context.define_eq_some.mp known with ⟨-, ⟨⟩⟩ | ⟨-, known⟩
    exact agrees.routines other sig known

theorem Environment.Placed.defineVariable {env : Environment} (placed : env.Placed ctx)
    (name : String) (entryPlaced : Variable.Placed ctx { type := type, storage }) :
    (env.defineVariable name type storage).Placed ctx where
  scope entry mem := by
    rcases List.mem_cons.mp mem with rfl | older
    · exact entryPlaced
    · exact placed.scope entry older
  routines := placed.routines
  printsIntegers := placed.printsIntegers
  printsReals := placed.printsReals
  results := placed.results

section Statements

variable {ctx : Context} {env : Environment}

theorem Situated.defineVariable (situated : Situated ctx given names env)
    (proper : type.Proper) (direct : storage.isDirect = true → type.isAggregate = false)
    (placed : more → (env.defineVariable name type storage).Placed ctx) :
    Situated ctx more (names.define name (.var type)) (env.defineVariable name type storage) where
  proper := have symProper : (Typing.Symbol.var type).Proper := proper
    situated.proper.define symProper
  agrees := situated.agrees.defineVariable direct
  returnable := situated.returnable
  placed := placed

theorem Situated.defineType (situated : Situated ctx given names env)
    (resolves : Resolves names (some decl.name) decl.type type) :
    Situated ctx given (names.define decl.name (.type type)) (env.defineType decl) where
  proper := have symProper : (Typing.Symbol.type type).Proper := resolves.proper situated.proper
    situated.proper.define symProper
  agrees := situated.agrees.defineType resolves
  returnable := situated.returnable
  placed isGiven := by
    obtain ⟨scope, routines, integers, reals, results⟩ := situated.placed isGiven
    exact ⟨scope, routines, integers, reals, results⟩

/-! ## Declarations -/

theorem same_self : (type : Ty) → type.same type = true
  | .array element _ => same_self element
  | .integer | .real | .boolean | .void | .error | .record _ _ => by simp [Ty.same]

theorem assignable_self (proper : type.Proper) : Assignable type type := by
  cases type <;> simp_all [Assignable, Ty.assignable, same_self]

theorem hasValue_of_valueType (isType : valueType? type = some valueType) :
    type.isVoid = false := by
  cases type <;> simp_all [valueType?, Ty.isVoid]

theorem coerce_of_aggregate {target : Ty} (isAggregate : target.isAggregate = true) :
    coerce src target = [] := by
  cases target <;> simp_all [coerce, Ty.isAggregate, Ty.isReal, Ty.isBoolean, Ty.isInteger]

def InitialTyped (ctx : Context) (type : Ty) (init : Option (Code × Ty)) : Prop :=
  ∀ code found, init = some (code, found) →
    Turns ctx (code ++ coerce found type) [] (representation type)

theorem initialValue_builds (situated : Situated ctx given names env)
    (declTyped : VarTyped Assignable names (.mk span name declared init) type) :
    Builds ctx given (initialValue env init)
      (fun res =>
        Meets (declaredType env span name declared (res.map Prod.snd)) fun found =>
          found = type) (InitialTyped ctx type) := by
  have typeProper : type.Proper := declTyped.proper situated.proper
  cases declTyped with
  | declared resolves =>
    refine .pure (situated.agrees.types.resolve_eq resolves) fun _ code found isSome => ?_
    cases isSome
  | initialized resolves valueTyped converts =>
    rw [initialValue, ← bind_pure_comp]
    apply (expression_builds situated valueTyped).bind
    rintro ⟨code, _⟩ rfl
    refine .pure (situated.agrees.types.resolve_eq resolves) ?_
    rintro ⟨-, turns⟩ _ _ ⟨⟩
    exact turns_converted situated.proper valueTyped converts typeProper turns
  | inferred valueTyped _ =>
    rw [initialValue, ← bind_pure_comp]
    apply (expression_builds situated valueTyped).bind
    rintro ⟨code, _⟩ rfl
    refine .pure rfl ?_
    rintro ⟨-, turns⟩ _ _ ⟨⟩
    exact turns.append (turns_coerce typeProper typeProper (assignable_self typeProper))

theorem initializeAggregate_builds (proper : type.Proper) (isAggregate : type.isAggregate = true)
    (initTyped : given → InitialTyped ctx type init) :
    CodeBuilds ctx given (initializeAggregate type addr init) [] [] := by
  apply (clearAggregate_builds type proper isAggregate).bind
  intro clear _
  cases init with
  | none => exact .pure trivial fun ⟨_, clears⟩ => (turns_word addr).cons clears
  | some val =>
    obtain ⟨code, found⟩ := val
    apply (copyAggregate_builds proper).bind
    intro copy _
    refine .pure trivial fun ⟨⟨isGiven, clears⟩, copies⟩ => ?_
    have leaves := initTyped isGiven code found rfl
    rw [coerce_of_aggregate isAggregate, List.append_nil,
      representation_of_aggregate isAggregate] at leaves
    have cleared := (turns_word addr).cons clears
    have both := (turns_word addr).cons (leaves.above [.i32])
    exact (cleared.append both).append copies

theorem declareLocal_builds (situated : Situated ctx given names env)
    (declTyped : VarTyped Assignable names decl type) :
    Builds ctx given (declareLocal env decl)
      (fun res => ∃ storage, (storage.isDirect = true → type.isAggregate = false) ∧
        res.2 = env.defineVariable decl.name type storage)
      fun res => Turns ctx res.1 [] [] ∧ res.2.Placed ctx := by
  have typeProper : type.Proper := declTyped.proper situated.proper
  obtain ⟨span, name, declared, init⟩ := decl
  apply (inFrame_builds (initialValue_builds situated declTyped)).bind
  intro init isDeclared
  apply (Builds.lift isDeclared).bind
  rintro _ rfl
  apply Builds.ite
  · intro isAggregate
    apply (reserve_builds span typeProper).bind
    intro addr _
    apply (inFrame_builds (initializeAggregate_builds typeProper isAggregate
      fun isGiven => isGiven.1.1.2)).bind
    intro code _
    refine .pure ⟨.fixed addr, nofun, rfl⟩ ?_
    rintro ⟨⟨⟨⟨isGiven, -⟩, -⟩, -⟩, turns⟩
    exact ⟨turns, (situated.placed isGiven).defineVariable name trivial⟩
  · intro notAggregate
    apply (Builds.lift (scalarType_meets typeProper)).bind
    intro valueType isType
    apply (inFrame_builds addLocal_builds).bind
    intro index _
    refine Builds.pure ⟨.slot index, fun _ => by simpa using notAggregate, rfl⟩ ?_
    rintro ⟨⟨⟨⟨isGiven, initTyped⟩, -⟩, -⟩, isLocal⟩
    refine ⟨?_, (situated.placed isGiven).defineVariable name ⟨valueType, isType, isLocal⟩⟩
    have sets := turns_localSet isLocal
    cases init with
    | none => exact turns_zero.append sets
    | some val =>
      have leaves := initTyped val.1 val.2 rfl
      rw [representation_of_valueType isType] at leaves
      exact leaves.append sets

/-! ## Simple statements -/

theorem assignment_builds (situated : Situated ctx given names env)
    (isPlace : place.isPlace = true) (placeTyped : HasType Assignable names place type)
    (valueTyped : HasType Assignable names val found) (converts : Assignable found type) :
    CodeBuilds ctx given (assignment env span place val) [] [] := by
  have placeReturnable := placeTyped.returnable situated.proper
  have valBuilds := expression_builds situated valueTyped
  apply (target_builds situated isPlace placeTyped).bind
  rintro ⟨code, holder, type⟩ ⟨rfl, fits⟩
  cases holder with
  | memory offset =>
    have typeProper : type.Proper := fits
    apply Builds.ite
    · intro isAggregate
      apply (valBuilds.of_less (·.1)).bind
      rintro ⟨valCode, _⟩ rfl
      apply (copyAggregate_builds typeProper).bind
      intro copy _
      refine Builds.pure trivial fun ⟨⟨⟨_, places⟩, turns⟩, copies⟩ => ?_
      have leaves := turns_converted situated.proper valueTyped converts typeProper turns
      rw [coerce_of_aggregate isAggregate, List.append_nil,
        representation_of_aggregate isAggregate] at leaves
      have addr := Turns.append places (turns_addOffset offset)
      exact (addr.append (leaves.above [.i32])).append copies
    · intro _
      apply (valBuilds.of_less (·.1)).bind
      rintro ⟨valCode, _⟩ rfl
      apply (Builds.lift (scalarType_meets typeProper)).bind
      intro scalar isType
      refine Builds.pure trivial fun ⟨⟨⟨_, places⟩, turns⟩, _⟩ => ?_
      have leaves := turns_converted situated.proper valueTyped converts typeProper turns
      rw [representation_of_valueType isType] at leaves
      have both := Turns.append places (leaves.above [.i32])
      have stored := both.append (turns_store scalar offset)
      simpa using stored
  | slot index =>
    apply (valBuilds.of_less (·.1)).bind
    rintro ⟨valCode, _⟩ rfl
    refine .pure trivial fun ⟨⟨_, places, valueType, isType, isLocal⟩, turns⟩ => ?_
    have typeProper := placeReturnable.proper (hasValue_of_valueType isType)
    have leaves := turns_converted situated.proper valueTyped converts typeProper turns
    rw [representation_of_valueType isType] at leaves
    have stored := (places.append leaves).append (turns_localSet isLocal)
    simpa using stored
  | global index =>
    apply (valBuilds.of_less (·.1)).bind
    rintro ⟨valCode, _⟩ rfl
    refine .pure trivial fun ⟨⟨_, places, global, isGlobal, mutable, isType⟩, turns⟩ => ?_
    have typeProper := placeReturnable.proper (hasValue_of_valueType isType)
    have leaves := turns_converted situated.proper valueTyped converts typeProper turns
    rw [representation_of_valueType isType] at leaves
    have stored := (places.append leaves).append (turns_globalSet isGlobal mutable)
    simpa using stored

theorem turns_discard : Turns ctx (discard type) (representation type) [] := by
  intro deeper
  cases type <;> simp [discard, representation, valueType?, Instruction.Typed]

theorem callStatement_builds (situated : Situated ctx given names env)
    (callTyped : HasType Assignable names (.call span name args) type) :
    CodeBuilds ctx given (callStatement env span name args) [] [] := by
  apply (expression_builds situated callTyped).bind
  rintro ⟨code, _⟩ rfl
  exact .pure trivial fun ⟨_, turns⟩ => turns.append turns_discard

/-- What is given back has the type of the result, and nothing after it is reached. -/
theorem turns_ret (turns : Turns ctx code [] ctx.results.reverse) :
    Turns ctx (code ++ [.ret]) [] [] := by
  have returns : Turns ctx [.ret] ctx.results.reverse [] := by
    intro deeper
    simp [Instruction.Typed]
  exact turns.append returns

theorem printer_meets (proper : type.Proper) (isScalar : type.isAggregate = false) :
    Meets (printer span type) fun function =>
      env.Placed ctx → Turns ctx [.call function] (representation type) [] := by
  cases type with
  | real => exact .pure fun placed => turns_call placed.printsReals
  | integer | boolean => exact .pure fun placed => turns_call placed.printsIntegers
  | array | record => cases isScalar
  | void | error => exact proper.elim

theorem printStatement_builds (situated : Situated ctx given names env)
    (valsTyped : ∀ val ∈ values, ∃ type, HasType Assignable names val type ∧
      type.isVoid = false ∧ type.isAggregate = false) :
    CodeBuilds ctx given (printStatement env values) [] [] := by
  induction values with
  | nil => exact .pure trivial fun _ => .nil
  | cons first rest ih =>
    obtain ⟨type, firstTyped, hasValue, isScalar⟩ := valsTyped first (by simp)
    have typeProper := (firstTyped.returnable situated.proper).proper hasValue
    have restBuilds := ih fun val mem => valsTyped val (by simp [mem])
    apply (expression_builds situated firstTyped).bind
    rintro ⟨code, _⟩ rfl
    apply (Builds.lift (printer_meets typeProper isScalar)).bind
    intro function prints
    apply (restBuilds.of_less (·.1.1)).bind
    intro others _
    refine Builds.pure trivial fun ⟨⟨⟨isGiven, turns⟩, _⟩, othersTurn⟩ => ?_
    exact turns.append ((prints (situated.placed isGiven)).cons othersTurn)

theorem condition_builds (situated : Situated ctx given names env)
    (testTyped : HasType Assignable names test found) (converts : Assignable found .boolean) :
    CodeBuilds ctx given (condition env test) [] [.i32] := by
  have foundProper :=
    (testTyped.returnable situated.proper).proper_of_assignable (by trivial) converts
  have notReal : found.isReal = false := by
    cases found <;> simp_all [Assignable, Ty.assignable, Ty.isReal]
  have isWord : representation found = [.i32] := by
    cases found <;> simp_all [Ty.isReal, representation, valueType?]
  apply (expression_builds situated testTyped).bind
  rintro ⟨code, _⟩ rfl
  refine .pure trivial fun built => ?_
  obtain ⟨-, turns⟩ := built
  rw [isWord] at turns
  simpa [notReal] using turns

/-! ## Loops -/

theorem turns_br (inScope : label < ctx.labels) : Turns ctx [.br label] pre post := by
  intro deeper
  simp [Instruction.Typed, inScope]

theorem turns_brIf (inScope : label < ctx.labels) : Turns ctx [.brIf label] [.i32] [] := by
  intro deeper
  simp [Instruction.Typed, inScope]

theorem turns_whileCode (testTurns : Turns ctx test [] [.i32])
    (bodyTurns : Turns ctx body [] []) : Turns ctx [whileCode test body] [] [] := by
  apply turns_repeating
  have leaves : Turns ctx.inside.inside [compute .i32Eqz, .brIf 1] [.i32] [] :=
    (turns_compute .i32Eqz).cons (turns_brIf (by simp))
  exact (((testTurns.inside.inside.append leaves).append bodyTurns.inside.inside).append
    (turns_br (by simp))).closed

/-- The locals that a range loop uses are typed. -/
structure RangeLocals.Typed (ctx : Context) (locals : RangeLocals) : Prop where
  counter : ctx.locals[locals.counter]? = some .i32
  bound : ctx.locals[locals.bound]? = some .i32

theorem rangeEnds_builds (situated : Situated ctx given names env)
    (firstTyped : HasType Assignable names first firstType)
    (firstConverts : Assignable firstType .integer)
    (lastTyped : HasType Assignable names last lastType)
    (lastConverts : Assignable lastType .integer)
    (firstFound : given → ctx.locals[firstLocal]? = some .i32)
    (lastFound : given → ctx.locals[lastLocal]? = some .i32)
    (localsTyped : given → locals.Typed ctx) :
    Builds ctx given
      (do
        let (firstCode, firstType) ← expression env first
        let (lastCode, lastType) ← expression env last
        let code :=
          firstCode ++ coerce firstType .integer ++ .localSet firstLocal ::
            lastCode ++ coerce lastType .integer ++ [.localSet lastLocal]
        return (code, locals) : Emit (Code × RangeLocals)) (fun _ => True)
      fun res => Turns ctx res.1 [] [] ∧ res.2.Typed ctx := by
  apply (expression_builds situated firstTyped).bind
  rintro ⟨firstCode, _⟩ rfl
  apply ((expression_builds situated lastTyped).of_less (·.1)).bind
  rintro ⟨lastCode, _⟩ rfl
  refine .pure trivial fun ⟨⟨isGiven, firstTurns⟩, lastTurns⟩ => ?_
  have firstLeaves :=
    turns_converted situated.proper firstTyped firstConverts trivial firstTurns
  have lastLeaves :=
    turns_converted situated.proper lastTyped lastConverts trivial lastTurns
  have firstStored := firstLeaves.append (turns_localSet (firstFound isGiven))
  have lastStored := lastLeaves.append (turns_localSet (lastFound isGiven))
  have both := firstStored.append lastStored
  exact ⟨by simpa using both, localsTyped isGiven⟩

theorem rangeSetup_builds (situated : Situated ctx given names env)
    (firstTyped : HasType Assignable names first firstType)
    (firstConverts : Assignable firstType .integer)
    (lastTyped : HasType Assignable names last lastType)
    (lastConverts : Assignable lastType .integer) :
    Builds ctx given (rangeSetup env first last dir) (fun _ => True)
      fun res => Turns ctx res.1 [] [] ∧ res.2.Typed ctx := by
  apply addLocal_builds.bind
  intro counter _
  apply acquire_builds.bind
  intro bound _
  cases dir with
  | forward =>
    exact rangeEnds_builds (situated.of_more (·.1.1)) firstTyped
      firstConverts lastTyped lastConverts (·.1.2)
      (·.2) fun isGiven => ⟨isGiven.1.2, isGiven.2⟩
  | reverse =>
    exact rangeEnds_builds (situated.of_more (·.1.1)) firstTyped
      firstConverts lastTyped lastConverts (·.2)
      (·.1.2) fun isGiven => ⟨isGiven.1.2, isGiven.2⟩

theorem turns_rangeCode (typed : locals.Typed ctx) (bodyTurns : Turns ctx body [] []) :
    Turns ctx [rangeCode locals dir body] [] [] := by
  obtain ⟨counterFound, boundFound⟩ := typed
  have compares {test : Numeric} (onIntegers : test.signature = ([.i32, .i32], .i32)) :
      Turns ctx.inside.inside
        [.localGet locals.counter, .localGet locals.bound, compute test, .brIf 1] [] [] := by
    have read : Turns ctx.inside.inside
        [.localGet locals.counter, .localGet locals.bound] [] [.i32, .i32] := by
      intro deeper
      simp [Instruction.Typed, counterFound, boundFound]
    have leaves : Turns ctx.inside.inside [.brIf 1] [.i32] [] := turns_brIf (by simp)
    exact (read.append (turns_onIntegers onIntegers)).append leaves
  have inner := bodyTurns.inside.inside
  have again : Turns ctx.inside.inside [.br 0] [] [] := turns_br (by simp)
  cases dir with
  | forward | reverse =>
    apply turns_repeating
    exact ((((compares rfl).append inner).append (compares rfl)).append
      (turns_bump (by simpa using counterFound) 1 rfl)).append again |>.closed

/-- What a loop over an array uses is typed. -/
structure ArrayLoop.Typed (ctx : Context) (arrayLoop : ArrayLoop) : Prop where
  setup : Turns ctx arrayLoop.setup [] []
  fetch : Turns ctx arrayLoop.fetch [] []
  base : ctx.locals[arrayLoop.locals.base]? = some .i32
  length : ctx.locals[arrayLoop.locals.length]? = some .i32
  position : ctx.locals[arrayLoop.locals.position]? = some .i32
  placed : Variable.Placed ctx { type := arrayLoop.element, storage := arrayLoop.storage }

theorem fetchElement_builds (proper : element.Proper) :
    Builds ctx given (fetchElement span element)
      (fun res => res.2.isDirect = true → element.isAggregate = false)
      fun res => Turns ctx res.1 [.i32] [] ∧
        Variable.Placed ctx { type := element, storage := res.2 } := by
  apply Builds.ite
  · intro _
    apply addLocal_builds.bind
    intro index _
    refine Builds.pure nofun fun ⟨_, isLocal⟩ => ?_
    exact ⟨turns_plus.append (turns_localSet isLocal), isLocal⟩
  · intro notAggregate
    apply (Builds.lift (scalarType_meets proper)).bind
    intro valueType isType
    apply addLocal_builds.bind
    intro index _
    refine Builds.pure (fun _ => by simpa using notAggregate) fun ⟨_, isLocal⟩ => ?_
    exact ⟨turns_load.cons (turns_localSet isLocal), valueType, isType, isLocal⟩

theorem arraySetup_builds (situated : Situated ctx given names env) {element : Ty}
    {size : Option Nat}
    (arrayTyped : HasType Assignable names array (.array element size)) :
    Builds ctx given (arraySetup env array dir)
      (fun arrayLoop => arrayLoop.element = element ∧
        (arrayLoop.storage.isDirect = true → element.isAggregate = false))
          (ArrayLoop.Typed ctx) := by
  have elementProper := arrayTyped.element_proper situated.proper
  have isElement : Meets (loopElement array.span (.array element size)) fun found =>
      found = element := Meets.pure rfl
  apply (expression_builds situated arrayTyped).bind
  rintro ⟨code, _⟩ rfl
  apply (Builds.lift isElement).bind
  rintro _ rfl
  apply (Builds.lift ((size_meets _ elementProper).locating array.span)).bind
  intro stride _
  apply acquire_builds.bind
  intro base _
  apply acquire_builds.bind
  intro length _
  apply acquire_builds.bind
  intro position _
  apply (fetchElement_builds elementProper).bind
  rintro ⟨fetch, storage⟩ direct
  refine .pure ⟨rfl, direct⟩ ?_
  rintro ⟨⟨⟨⟨⟨⟨⟨-, turns⟩, -⟩, -⟩, baseFound⟩, lengthFound⟩, posFound⟩, fetches, placed⟩
  refine ⟨?_, ?_, baseFound, lengthFound, posFound, placed⟩
  · rw [representation_of_aggregate rfl] at turns
    refine turns.append fun deeper => ?_
    cases dir <;> simp [load, Instruction.Typed, Wasm.MemArg.natural, baseFound, lengthFound,
      posFound]
  · have distance := (turns_elementDistance posFound stride).above [.i32]
    exact ((turns_localGet baseFound).cons distance).append ((turns_compute .i32Add).cons fetches)

theorem turns_arrayCode (typed : arrayLoop.Typed ctx) (bodyTurns : Turns ctx body [] []) :
    Turns ctx [arrayCode arrayLoop dir body] [] [] := by
  have inner := typed.fetch.inside.inside.append bodyTurns.inside.inside
  have again : Turns ctx.inside.inside [.br 0] [] [] := turns_br (by simp)
  have posFound := typed.position
  have lengthFound := typed.length
  cases dir with
  | forward =>
    have leaves : Turns ctx.inside.inside
        [.localGet arrayLoop.locals.position, .localGet arrayLoop.locals.length,
          compute .i32GtS, .brIf 1] [] [] := by
      intro deeper
      simp [compute, Instruction.Typed, Numeric.signature, posFound, lengthFound]
    have steps : Turns ctx.inside.inside (bump arrayLoop.locals.position 1 .i32Add) [] [] :=
      turns_bump (by simpa using posFound) 1 rfl
    have whole := ((leaves.append inner).append steps).append again
    apply turns_repeating
    simpa using whole.closed
  | reverse =>
    have leaves : Turns ctx.inside.inside
        [.localGet arrayLoop.locals.position, .i32Const 1, compute .i32LtS, .brIf 1] [] [] := by
      intro deeper
      simp [compute, Instruction.Typed, Numeric.signature, posFound]
    have steps : Turns ctx.inside.inside (bump arrayLoop.locals.position 1 .i32Sub) [] [] :=
      turns_bump (by simpa using posFound) 1 rfl
    have whole := ((leaves.append inner).append steps).append again
    apply turns_repeating
    simpa using whole.closed

theorem releaseArray_builds (baseFound : given → ctx.locals[locals.base]? = some .i32)
    (lengthFound : given → ctx.locals[locals.length]? = some .i32)
    (posFound : given → ctx.locals[locals.position]? = some .i32) :
    Builds ctx given (releaseArray locals) (fun _ => True) fun _ => True := by
  apply (release_builds baseFound).bind
  intro _ _
  apply (release_builds fun isGiven => lengthFound isGiven.1).bind
  intro _ _
  exact release_builds fun isGiven => posFound isGiven.1.1

/-! ## Statements and blocks -/

theorem returnStatement_builds (situated : Situated ctx given names env)
    (typed : StatementTyped Assignable env.result names (.giveBack span val)) :
    CodeBuilds ctx given (returnStatement env val) [] [] := by
  have results (isGiven : given) : ctx.results.reverse = representation env.result := by
    rw [(situated.placed isGiven).results, representation_reverse]
  cases typed with
  | giveBackNothing isVoid =>
    have noResult : representation env.result = [] := by
      revert isVoid
      cases env.result <;> simp [Ty.isVoid, representation, valueType?]
    refine .pure trivial fun isGiven => ?_
    have nothing : Turns ctx [] [] ctx.results.reverse := by
      rw [results isGiven, noResult]
      exact .nil
    exact turns_ret nothing
  | giveBack hasResult valueTyped converts =>
    have resProper := situated.returnable.proper hasResult
    apply (expression_builds situated valueTyped).bind
    rintro ⟨code, _⟩ rfl
    refine .pure trivial fun built => turns_ret ?_
    obtain ⟨isGiven, turns⟩ := built
    rw [results isGiven]
    exact turns_converted situated.proper valueTyped converts resProper turns

mutual

theorem statement_builds {given : Prop} {names : Typing.Context} {env : Environment}
    (situated : Situated ctx given names env) :
    (inner : Statement) → StatementTyped Assignable env.result names inner →
      CodeBuilds ctx given (statement env inner) [] []
  | .assign span place val, .assign isPlace placeTyped valueTyped converts =>
    inFrame_builds (assignment_builds situated isPlace placeTyped valueTyped converts)
  | .call span name args, .call callTyped =>
    inFrame_builds (callStatement_builds situated callTyped)
  | .branch span test consequent none, .branch testTyped converts consequentTyped _ => by
    apply (inFrame_builds (condition_builds situated testTyped converts)).bind
    intro testCode _
    apply ((block_builds situated consequent consequentTyped).of_less (·.1)).bind
    intro consequentCode _
    refine .pure trivial fun ⟨⟨_, tests⟩, consequentTurns⟩ => ?_
    exact tests.append (turns_conditional consequentTurns .nil)
  | .branch span test consequent (some alternative),
      .branch testTyped converts consequentTyped alternativeTyped => by
    have alternativeBuilds := block_builds situated alternative (alternativeTyped alternative rfl)
    apply (inFrame_builds (condition_builds situated testTyped converts)).bind
    intro testCode _
    apply ((block_builds situated consequent consequentTyped).of_less (·.1)).bind
    intro consequentCode _
    apply (alternativeBuilds.of_less (·.1.1)).bind
    intro alternativeCode _
    refine .pure trivial fun ⟨⟨⟨_, tests⟩, consequentTurns⟩, alternativeTurns⟩ => ?_
    exact tests.append (turns_conditional consequentTurns alternativeTurns)
  | .whileLoop span test body, .whileLoop testTyped converts bodyTyped => by
    apply (inFrame_builds (condition_builds situated testTyped converts)).bind
    intro testCode _
    apply ((block_builds situated body bodyTyped).of_less (·.1)).bind
    intro bodyCode _
    exact .pure trivial fun ⟨⟨_, tests⟩, bodyTurns⟩ => turns_whileCode tests bodyTurns
  | .rangeLoop span iter first last dir body,
      .rangeLoop firstTyped firstConverts lastTyped lastConverts bodyTyped => by
    apply (inFrame_builds (rangeSetup_builds situated firstTyped firstConverts lastTyped
      lastConverts)).bind
    rintro ⟨setup, locals⟩ _
    have placed (isGiven : given ∧ Turns ctx setup [] [] ∧ locals.Typed ctx) :
        (env.defineVariable iter .integer (.slot locals.counter)).Placed ctx :=
      (situated.placed isGiven.1).defineVariable iter ⟨.i32, rfl, isGiven.2.2.counter⟩
    apply (block_builds (situated.defineVariable (by trivial) (fun _ => rfl)
      placed) body bodyTyped).bind
    intro bodyCode _
    apply (inFrame_builds (release_builds (·.1.2.2.bound))).bind
    intro _ _
    refine Builds.pure trivial fun ⟨⟨⟨_, setups, localsTyped⟩, bodyTurns⟩, _⟩ => ?_
    exact setups.append (turns_rangeCode localsTyped bodyTurns)
  | .arrayLoop span iter array dir body, .arrayLoop arrayTyped bodyTyped => by
    have elementProper := arrayTyped.element_proper situated.proper
    apply (inFrame_builds (arraySetup_builds situated arrayTyped)).bind
    rintro arrayLoop ⟨isElement, direct⟩
    rw [← isElement] at elementProper direct bodyTyped
    apply (block_builds (situated.defineVariable elementProper direct
      fun isGiven => (situated.placed isGiven.1).defineVariable iter isGiven.2.placed)
      body bodyTyped).bind
    intro bodyCode _
    apply (inFrame_builds (releaseArray_builds (·.1.2.base) (·.1.2.length) (·.1.2.position))).bind
    intro _ _
    refine .pure trivial fun ⟨⟨⟨_, loopTyped⟩, bodyTurns⟩, _⟩ => ?_
    exact loopTyped.setup.append (turns_arrayCode loopTyped bodyTurns)
  | .giveBack span val, typed => inFrame_builds (returnStatement_builds situated typed)
  | .print span values, .print valsTyped =>
    inFrame_builds (printStatement_builds situated valsTyped)
  | .empty span, _ => .pure trivial fun _ => .nil
  | .block span inner, .block innerTyped => block_builds situated inner innerTyped

theorem block_builds {given : Prop} {names : Typing.Context} {env : Environment}
    (situated : Situated ctx given names env) :
    (inner : Block) → BlockTyped Assignable env.result names inner →
      CodeBuilds ctx given (block env inner) [] []
  | .mk _ items, .mk itemsTyped => itemCode_builds situated items itemsTyped

theorem itemCode_builds {given : Prop} {names : Typing.Context} {env : Environment}
    (situated : Situated ctx given names env) :
    (items : List Item) → ItemsTyped Assignable env.result names items →
      CodeBuilds ctx given (itemCode env items) [] []
  | [], _ => .pure trivial fun _ => .nil
  | .declaration (.var decl) :: rest, .var declTyped restTyped => by
    apply (declareLocal_builds situated declTyped).bind
    rintro ⟨code, _⟩ ⟨storage, direct, rfl⟩
    apply (itemCode_builds (situated.defineVariable (declTyped.proper situated.proper)
      direct (·.2.2)) rest restTyped).bind
    intro others _
    exact .pure trivial fun ⟨⟨_, turns, _⟩, othersTurn⟩ => turns.append othersTurn
  | .declaration (.type decl) :: rest, .type resolves restTyped =>
    itemCode_builds (situated.defineType resolves) rest restTyped
  | .statement first :: rest, .statement firstTyped restTyped => by
    apply (statement_builds situated first firstTyped).bind
    intro code _
    apply ((itemCode_builds situated rest restTyped).of_less (·.1)).bind
    intro others _
    exact .pure trivial fun ⟨⟨_, turns⟩, othersTurn⟩ => turns.append othersTurn

end

end Statements

end Imperative.Lowering
