import Imperative.Proofs.Lowering.Aggregate
import Imperative.Proofs.Typing.Regularity

/-!
# The code of expressions is typed

In an environment that agrees with the typing context, the code of a well typed expression leaves a
value of its type, or a place for one, and lowering it stops at most at a limit.
-/

namespace Imperative.Lowering

open BinaryOperator

open Typing (Fits HasType Returnable Symbol)
open Wasm (Code Context FuncType Instruction Numeric ValueType)

variable {code : Code} {index : Nat} {given : Prop} {name : String}
    {names : Typing.Context}

abbrev Assignable (src target : Ty) : Prop := src.assignable target = true

def Storage.isDirect : Storage → Bool
  | .slot _ | .global _ => true
  | .fixed _ | .pointer _ => false

def RoutineInfo.type (info : RoutineInfo) : FuncType :=
  { parameters := info.parameters.filterMap valueType?, results := representation info.result }

def TypesAgree (names : Typing.Context) (env : Environment) : Prop :=
  ∀ name type, DeclaredName name → names name = some (.type type) →
    env.types.lookup name = some type

/-- What the names stand for is found in the environment. -/
structure Agrees (names : Typing.Context) (env : Environment) : Prop where
  scope : ∀ name type, names name = some (.var type) →
    ∃ storage, env.scope.lookup name = some { type, storage } ∧
      (storage.isDirect = true → type.isAggregate = false)
  types : TypesAgree names env
  routines : ∀ name sig, names name = some (.routine sig) →
    ∃ info, env.routines.lookup name = some info ∧
      (info.index.isSome = true →
        info.parameters = sig.parameters.map Prod.snd ∧ info.result = sig.result)

def GlobalHolds (globals : List Wasm.Global) (index : Nat) (type : Ty) : Prop :=
  ∃ global, globals[index]? = some global ∧ global.mutable = true ∧
    valueType? type = some global.type

def Variable.Placed (ctx : Context) (entry : Variable) : Prop := match entry.storage with
  | .slot index =>
    ∃ valueType, valueType? entry.type = some valueType ∧ ctx.locals[index]? = some valueType
  | .global index => GlobalHolds ctx.globals index entry.type
  | .fixed _ => True
  | .pointer slot => ctx.locals[slot]? = some .i32

/-- What the environment refers to has its type in the context. -/
structure Environment.Placed (ctx : Context) (env : Environment) : Prop where
  scope : ∀ entry ∈ env.scope, entry.2.Placed ctx
  routines : ∀ name info index, env.routines.lookup name = some info →
    info.index = some index → ctx.functions index = some info.type
  printsIntegers : ctx.functions printInteger = some { parameters := [.i32], results := [] }
  printsReals : ctx.functions printReal = some { parameters := [.f64], results := [] }
  results : ctx.results = representation env.result

variable {env : Environment}

theorem TypesAgree.resolve_eq (agree : TypesAgree names env)
    (resolves : Typing.Resolves names hint written type) : env.resolve hint written = type := by
  have same : Typing.resolve (fun name => env.types.lookup name) hint written =
      Typing.resolve names.typeNamed hint written := by
    apply Typing.resolve_of_found resolves.wellNamed resolves.clean
    intro name mem meaning found
    exact agree name meaning (resolves.wellNamed name mem)
      (Typing.Context.typeNamed_eq_some.mp found)
  rw [Environment.resolve, same]
  exact resolves.value

/-- The place can hold values of the type; only those in memory are made of parts. -/
def Place.Fits (type : Ty) : Place → Prop
  | .memory _ => type.Proper
  | .slot _ | .global _ => type.isAggregate = false

def Operand.Fits (type : Ty) : Operand → Prop
  | .value found => found = type
  | .place holder found => found = type ∧ holder.Fits type

def Place.Typed (ctx : Context) (code : Code) (type : Ty) : Place → Prop
  | .memory _ => Turns ctx code [] [.i32]
  | .slot index =>
    Turns ctx code [] [] ∧ ∃ valueType, valueType? type = some valueType ∧
      ctx.locals[index]? = some valueType
  | .global index => Turns ctx code [] [] ∧ GlobalHolds ctx.globals index type

def Operand.Typed (ctx : Context) (code : Code) : Operand → Prop
  | .value type => Turns ctx code [] (representation type)
  | .place holder type => holder.Typed ctx code type

section Operands

variable {ctx : Context}

theorem turns_globalGet (found : ctx.globals[index]? = some global) :
    Turns ctx [.globalGet index] [] [global.type] := by
  intro deeper
  simp [Instruction.Typed, found]

theorem turns_globalSet (found : ctx.globals[index]? = some global)
    (mutable : global.mutable = true) : Turns ctx [.globalSet index] [global.type] [] := by
  intro deeper
  simp [Instruction.Typed, found, mutable]

theorem turns_call (found : ctx.functions index = some type) :
    Turns ctx [.call index] type.parameters.reverse type.results.reverse := by
  intro deeper
  simp [Instruction.Typed, found]

theorem loaded_meets {operand : Operand} (fits : operand.Fits type) :
    Meets (loaded span (code, operand)) fun res =>
      res.2 = type ∧ (operand.Typed ctx code → Turns ctx res.1 [] (representation type)) := by
  unfold loaded
  match operand with
  | .value found =>
    obtain rfl : found = type := fits
    apply Meets.pure
    refine ⟨rfl, fun turns => ?_⟩
    rw [List.append_nil]
    exact turns
  | .place (.slot index) found =>
    obtain ⟨rfl, -⟩ := fits
    apply Meets.pure
    refine ⟨rfl, fun ⟨turns, valueType, isType, isLocal⟩ => ?_⟩
    rw [representation_of_valueType isType]
    exact turns.append (turns_localGet isLocal)
  | .place (.global index) found =>
    obtain ⟨rfl, -⟩ := fits
    apply Meets.pure
    refine ⟨rfl, fun ⟨turns, global, isGlobal, _, isType⟩ => ?_⟩
    rw [representation_of_valueType isType]
    exact turns.append (turns_globalGet isGlobal)
  | .place (.memory offset) found =>
    obtain ⟨rfl, proper⟩ := fits
    simp only [Operand.load]
    cases isAggregate : found.isAggregate with
    | true =>
      apply Meets.pure
      refine ⟨rfl, fun turns => ?_⟩
      rw [representation_of_aggregate isAggregate]
      exact Turns.append turns (turns_addOffset offset)
    | false =>
      have loads : Meets
          (do
            let valueType ← scalarType span found
            return ([Lowering.load valueType offset], found))
          fun res => res.2 = found ∧ Turns ctx res.1 [.i32] (representation found) := by
        apply (scalarType_meets proper).bind
        intro valueType isType
        apply Meets.pure
        refine ⟨rfl, ?_⟩
        rw [representation_of_valueType isType]
        exact turns_load
      apply Meets.bind loads
      rintro ⟨loadCode, loadType⟩ ⟨rfl, loadTurns⟩
      exact Meets.pure ⟨rfl, fun turns => Turns.append turns loadTurns⟩

theorem base_meets {operand : Operand} (fits : operand.Fits type)
    (isAggregate : type.isAggregate = true) :
    Meets (operand.base span) fun res =>
      res.2 = type ∧ ∀ code, operand.Typed ctx code → Turns ctx code [] [.i32] := by
  match operand with
  | .value found =>
    obtain rfl : found = type := fits
    apply Meets.pure
    refine ⟨rfl, fun code turns => ?_⟩
    rw [← representation_of_aggregate isAggregate]
    exact turns
  | .place (.memory offset) found =>
    obtain ⟨rfl, -⟩ := fits
    simp only [Operand.base, isAggregate, if_true]
    exact .pure ⟨rfl, fun _ turns => turns⟩
  | .place (.slot _) _ | .place (.global _) _ =>
    obtain ⟨-, notAggregate⟩ := fits
    rw [Place.Fits, isAggregate] at notAggregate
    cases notAggregate

theorem variableOperand_meets (proper : names.Proper) (agrees : Agrees names env)
    (known : names name = some (.var type)) :
    Meets (variableOperand env span name) fun res =>
      ∃ place, res.2 = .place place type ∧ place.Fits type ∧
        (env.Placed ctx → place.Typed ctx res.1 type) := by
  obtain ⟨storage, found, direct⟩ := agrees.scope name type known
  have typeProper : type.Proper := proper name _ known
  have placed (isPlaced : env.Placed ctx) : Variable.Placed ctx { type, storage } :=
    isPlaced.scope _ (mem_of_lookup found)
  unfold variableOperand
  rw [found]
  apply Meets.pure
  cases storage with
  | slot | global => exact ⟨_, rfl, direct rfl, fun isPlaced => ⟨.nil, placed isPlaced⟩⟩
  | fixed addr => exact ⟨_, rfl, typeProper, fun _ => turns_word addr⟩
  | pointer slot => exact ⟨_, rfl, typeProper, fun isPlaced => turns_localGet (placed isPlaced)⟩

theorem literal_meets : Meets (literal span val) fun instr => Turns ctx [instr] [] [.i32] := by
  unfold literal
  split
  · apply Meets.pure
    intro deeper
    simp [Instruction.Typed]
  · exact Meets.throw (Error.isLimit_refuse (.literalRange val))

theorem fieldPlace_meets (proper : Ty.FieldsProper fields)
    (found : Ty.field? fields field = some type) :
    Meets (fieldPlace span offset (.record record fields) field) fun operand =>
      ∃ distance, operand = .place (.memory distance) type := by
  apply ((fieldOffset_meets proper found).locating span).bind
  rintro ⟨distance, fieldType⟩ rfl
  exact .pure ⟨_, rfl⟩

theorem elementOf_meets :
    Meets (elementOf span (.array element length)) fun found => found = element := .pure rfl

theorem callee_meets (agrees : Agrees names env)
    (known : names name = some (.routine sig)) (sameCount : args = sig.parameters.length) :
    Meets (callee env span name args) fun res =>
      env.routines.lookup name = some res.2 ∧ res.2.index = some res.1 ∧
        res.2.parameters = sig.parameters.map Prod.snd ∧ res.2.result = sig.result := by
  obtain ⟨info, found, implements⟩ := agrees.routines name sig known
  unfold callee
  rw [found]
  dsimp only
  cases isIndexed : info.index with
  | none => exact Meets.throw (Error.isLimit_refuse (.neverDefined name))
  | some index =>
    obtain ⟨params, res⟩ := implements (by simp [isIndexed])
    have count : info.parameters.length = args := by simp [params, sameCount]
    dsimp only
    rw [if_pos count]
    exact .pure ⟨rfl, isIndexed, params, res⟩

theorem integerOperation_signature : (integerOperation op).signature = ([.i32, .i32], .i32) := by
  cases op <;> rfl

theorem turns_integerOperation : Turns ctx [compute (integerOperation op)] [.i32, .i32] [.i32] :=
  turns_onIntegers integerOperation_signature

theorem turns_remainderCode (dividendFound : ctx.locals[dividend]? = some .f64)
    (divisorFound : ctx.locals[divisor]? = some .f64) :
    Turns ctx (remainderCode dividend divisor) [.f64, .f64] [.f64] := by
  intro deeper
  simp [remainderCode, compute, Instruction.Typed, Numeric.signature, dividendFound, divisorFound]

theorem realRemainder_builds : CodeBuilds ctx given realRemainder [.f64, .f64] [.f64] := by
  apply acquire_builds.bind
  intro divisor _
  apply acquire_builds.bind
  intro dividend _
  apply (release_builds (·.2)).bind
  intro _ _
  apply (release_builds (·.1.1.2)).bind
  intro _ _
  apply Builds.pure trivial
  rintro ⟨⟨⟨⟨-, divisorFound⟩, dividendFound⟩, -⟩, -⟩
  exact turns_remainderCode dividendFound divisorFound

theorem realOperation_builds (notLogical : op.isLogical = false) :
    CodeBuilds ctx given (realOperation op) [.f64, .f64]
        (representation (if op.isComparison then .boolean else .real)) := by
  cases op with
  | and | or | xor => simp [isLogical] at notLogical
  | mod => exact realRemainder_builds
  | add | sub | mul | div | less | lessEqual | greater | greaterEqual | equal | notEqual =>
    exact .pure trivial fun _ => turns_compute _

theorem turns_negation (numeric : type.isNumeric = true)
    (turns : Turns ctx code [] (representation type)) :
    Turns ctx (negation code type) [] (representation type) := by
  cases type <;> simp only [Ty.isNumeric, Bool.false_eq_true] at numeric
  · have zeroed : Turns ctx [.i32Const 0] [] [.i32] := by
      intro deeper
      simp [Instruction.Typed]
    exact (zeroed.cons (turns.above [.i32])).append (turns_compute .i32Sub)
  · exact turns.append (turns_compute .f64Neg)

theorem logicalOperation_builds (logical : op.isLogical = true)
    (leftTruth : given → Turns ctx (left ++ coerce leftType .boolean) [] [.i32])
    (rightTruth : given → Turns ctx (right ++ coerce rightType .boolean) [] [.i32]) :
    Builds ctx given (binaryOperation op (left, leftType) (right, rightType))
      (fun res => res.2 = .boolean) fun res => Turns ctx res.1 [] (representation res.2) := by
  simp only [binaryOperation, logical, if_true]
  refine .pure rfl fun isGiven => ?_
  have both := (leftTruth isGiven).append ((rightTruth isGiven).above [.i32])
  simpa [representation, valueType?] using both.append turns_integerOperation

theorem arithmeticType_eq {left right : Ty} (leftNumeric : left.isNumeric = true)
    (rightNumeric : right.isNumeric = true) :
    (if left.isReal || right.isReal then Ty.real else .integer) =
      if left.isInteger && right.isInteger then .integer else .real := by
  cases left <;> simp only [Ty.isNumeric, Bool.false_eq_true] at leftNumeric <;>
    cases right <;> first | rfl | cases rightNumeric

theorem scalarOperation_builds (notLogical : op.isLogical = false)
    (scalars : leftType.isNumeric = true ∧ rightType.isNumeric = true ∨
      leftType.isBoolean = true ∧ rightType.isBoolean = true)
    (leftTurns : given → Turns ctx left [] (representation leftType))
    (rightTurns : given → Turns ctx right [] (representation rightType)) :
    Builds ctx given (binaryOperation op (left, leftType) (right, rightType))
      (fun res => res.2 = if op.isComparison then .boolean
        else if leftType.isReal || rightType.isReal then .real else .integer)
      fun res => Turns ctx res.1 [] (representation res.2) := by
  have turnsReal {code : Code} {type : Ty}
      (scalar : type.isNumeric = true ∨ type.isBoolean = true)
      (turns : Turns ctx code [] (representation type)) :
      Turns ctx (code ++ coerce type .real) [] [.f64] := by
    have proper : type.Proper := by
      cases type <;> simp_all [Ty.isNumeric, Ty.isBoolean]
    have assignable : Assignable type .real := by
      cases type <;> simp_all [Ty.isNumeric, Ty.isBoolean, Assignable, Ty.assignable]
    exact turns.append (turns_coerce proper trivial assignable)
  have word {type : Ty} (scalar : type.isNumeric = true ∨ type.isBoolean = true)
      (notReal : type.isReal = false) : representation type = [.i32] := by
    cases type <;> simp_all [Ty.isNumeric, Ty.isBoolean, Ty.isReal, representation, valueType?]
  have leftScalar := scalars.imp And.left And.left
  have rightScalar := scalars.imp And.right And.right
  simp only [binaryOperation, notLogical, Bool.false_eq_true, if_false]
  apply Builds.ite
  · intro isReal
    apply (realOperation_builds notLogical).bind
    intro operation _
    apply Builds.pure
    · simp [isReal]
    · rintro ⟨isGiven, operationTurns⟩
      have leftReal := turnsReal leftScalar (leftTurns isGiven)
      have rightReal := turnsReal rightScalar (rightTurns isGiven)
      have both := leftReal.append (rightReal.above [.f64])
      simpa using both.append operationTurns
  · intro notReal
    rw [Bool.not_eq_true, Bool.or_eq_false_iff] at notReal
    apply Builds.pure
    · simp [notReal]
    · intro isGiven
      have both := (leftTurns isGiven).append ((rightTurns isGiven).above (representation leftType))
      rw [word leftScalar notReal.1, word rightScalar notReal.2] at both
      have whole : representation (if op.isComparison then .boolean else .integer) = [.i32] := by
        split <;> rfl
      rw [whole]
      exact both.append turns_integerOperation

end Operands

theorem fits_length :
    (args : List Expr) → {params : List Ty} →
      Fits Converts names args params → args.length = params.length
  | [], _, .nil => rfl
  | _ :: rest, _, .cons _ _ fits => congrArg Nat.succ (fits_length rest fits)

/--
The environment agrees with proper names, and what it refers to has its type if what is given
holds.  The result of the routine is proper unless there is none.
-/
structure Situated (ctx : Context) (given : Prop) (names : Typing.Context)
    (env : Environment) : Prop where
  proper : names.Proper
  agrees : Agrees names env
  returnable : Returnable env.result
  placed : given → env.Placed ctx

theorem Situated.of_more (situated : Situated ctx given names env)
    (enough : more → given) : Situated ctx more names env :=
  { situated with placed := fun holds => situated.placed (enough holds) }

section Expressions

variable {ctx : Context} {names : Typing.Context} {env : Environment}

abbrev PlaceBuilds (ctx : Context) (given : Prop) (step : Emit (Code × Operand)) (type : Ty) :
    Prop :=
  Builds ctx given step (fun res => ∃ place, res.2 = .place place type ∧ place.Fits type)
    fun res => res.2.Typed ctx res.1

abbrev OperandBuilds (ctx : Context) (given : Prop) (step : Emit (Code × Operand)) (type : Ty) :
    Prop := Builds ctx given step (fun res => res.2.Fits type) fun res => res.2.Typed ctx res.1

theorem PlaceBuilds.operand
    (builds : PlaceBuilds ctx given step type) : OperandBuilds ctx given step type := by
  apply builds.imp (fun isGiven => isGiven)
  · rintro ⟨code, _⟩ ⟨place, rfl, fits⟩
    exact ⟨rfl, fits⟩
  · intro res _ _ typed
    exact typed

theorem loading_builds
    {next : Code × Ty → Emit α} (builds : OperandBuilds ctx given step type)
    (nextBuilds : ∀ code, Builds ctx (given ∧ Turns ctx code [] (representation type))
      (next (code, type)) fact typed) :
    Builds ctx given (step >>= fun emitted => liftM (loaded span emitted) >>= next) fact typed := by
  apply builds.bind
  rintro ⟨_, operand⟩ fits
  apply (Builds.lift (loaded_meets fits)).bind
  rintro ⟨code, _⟩ ⟨rfl, turns⟩
  apply (nextBuilds code).of_less
  rintro ⟨⟨isGiven, isTyped⟩, -⟩
  exact ⟨isGiven, turns isTyped⟩

theorem turns_converted (proper : names.Proper)
    (valueTyped : HasType Assignable names val found) (converts : Assignable found type)
    (typeProper : type.Proper) (turns : Turns ctx code [] (representation found)) :
    Turns ctx (code ++ coerce found type) [] (representation type) := by
  have foundProper := (valueTyped.returnable proper).proper_of_assignable typeProper converts
  exact turns.append (turns_coerce foundProper typeProper converts)

theorem literal_builds :
    OperandBuilds ctx given (do return ([← literal span val], .value .integer)) .integer := by
  apply (Builds.lift literal_meets).bind
  intro instr turns
  exact Builds.pure rfl fun _ => turns

theorem binary_builds (span : Span)
    (leftBuilds : OperandBuilds ctx given (operand env left) leftType)
    (rightBuilds : OperandBuilds ctx given (operand env right) rightType)
    (combines : ∀ leftCode rightCode, Builds ctx
      ((given ∧ Turns ctx leftCode [] (representation leftType)) ∧
        Turns ctx rightCode [] (representation rightType))
      (binaryOperation op (leftCode, leftType) (rightCode, rightType))
      (fun res => res.2 = type) fun res => Turns ctx res.1 [] (representation res.2)) :
    OperandBuilds ctx given (operand env (.binary span op left right)) type := by
  apply loading_builds leftBuilds
  intro leftCode
  apply loading_builds (rightBuilds.of_less (·.1))
  intro rightCode
  apply (combines leftCode rightCode).bind
  rintro ⟨code, _⟩ rfl
  exact .pure rfl (·.2)

variable {given : Prop} (situated : Situated ctx given names env)
include situated

theorem name_builds (found : names name = some (.var type)) :
    PlaceBuilds ctx given (operand env (.name span name)) type := by
  apply (Builds.lift (variableOperand_meets situated.proper situated.agrees found)).imp
    (fun isGiven => isGiven)
  · rintro ⟨code, _⟩ ⟨place, rfl, fits, -⟩
    exact ⟨place, rfl, fits⟩
  · rintro ⟨code, _⟩ ⟨place, rfl, -, typed⟩ isGiven _
    exact typed (situated.placed isGiven)

theorem field_builds
    (recvBuilds : OperandBuilds ctx given (operand env recv) (.record record fields))
    (receiverTyped : HasType Assignable names recv (.record record fields))
    (found : Ty.field? fields field = some type) :
    PlaceBuilds ctx given (operand env (.field span recv field)) type := by
  have fieldsProper := receiverTyped.fields_proper situated.proper
  apply recvBuilds.bind
  rintro ⟨code, base⟩ fits
  apply (Builds.lift (base_meets fits rfl)).bind
  rintro ⟨offset, _⟩ ⟨rfl, baseTurns⟩
  apply (Builds.lift (fieldPlace_meets fieldsProper found)).bind
  rintro _ ⟨distance, rfl⟩
  refine Builds.pure ⟨_, rfl, fieldsProper.field found⟩ fun built => ?_
  obtain ⟨⟨⟨-, typed⟩, -⟩, -⟩ := built
  exact baseTurns code typed

theorem index_builds
    (recvBuilds : OperandBuilds ctx given (operand env recv) (.array element length))
    (receiverTyped : HasType Assignable names recv (.array element length))
    (posBuilds : OperandBuilds ctx given (operand env pos) found)
    (positionTyped : HasType Assignable names pos found) (converts : Assignable found .integer) :
    PlaceBuilds ctx given (operand env (.index span recv pos)) element := by
  have elementProper := receiverTyped.element_proper situated.proper
  apply recvBuilds.bind
  rintro ⟨code, base⟩ fits
  apply (Builds.lift (base_meets fits rfl)).bind
  rintro ⟨offset, _⟩ ⟨rfl, baseTurns⟩
  apply (Builds.lift elementOf_meets).bind
  rintro _ rfl
  apply (Builds.lift ((size_meets _ elementProper).locating pos.span)).bind
  intro stride _
  apply acquire_builds.bind
  intro array _
  apply loading_builds (posBuilds.of_less (·.1.1.1.1.1))
  intro indexCode
  apply acquire_builds.bind
  intro slot _
  apply (release_builds (·.2)).bind
  intro _ _
  apply (release_builds (·.1.1.1.2)).bind
  intro _ _
  refine .pure ⟨_, rfl, elementProper⟩ ?_
  rintro ⟨⟨⟨⟨⟨⟨⟨⟨⟨-, typed⟩, -⟩, -⟩, -⟩, arrayFound⟩, indexTurns⟩, slotFound⟩, -⟩, -⟩
  have index := turns_converted situated.proper positionTyped converts trivial indexTurns
  exact Turns.append (baseTurns code typed) (turns_elementAddress arrayFound slotFound index)

mutual

/-- The code of a well typed expression leaves a value of its type, or a place for one. -/
theorem operand_builds : (expression : Expr) → {type : Ty} →
    HasType Assignable names expression type →
      OperandBuilds ctx given (operand env expression) type
  | .integer span val, _, .integer => literal_builds
  | .real span val, _, .real => by
    refine Builds.pure rfl fun _ deeper => ?_
    simp [Instruction.Typed, representation, valueType?]
  | .boolean span val, _, .boolean => by
    refine .pure rfl fun _ deeper => ?_
    simp [Instruction.Typed, representation, valueType?]
  | .name span name, _, .name found => (name_builds situated found).operand
  | .field span recv field, _, .field receiverTyped found =>
    (field_builds situated (operand_builds recv receiverTyped) receiverTyped found).operand
  | .index span recv pos, _, .index receiverTyped positionTyped converts =>
    (index_builds situated (operand_builds recv receiverTyped) receiverTyped
      (operand_builds pos positionTyped) positionTyped converts).operand
  | .call span name args, _, .call found fits => by
    have sigProper := situated.proper name _ found
    have sameCount := fits_length args fits
    apply (Builds.lift (callee_meets situated.agrees found (by simpa using sameCount))).bind
    rintro ⟨index, info⟩ ⟨registered, isIndexed, sameParams, sameRes⟩
    have paramsProper : ∀ type ∈ info.parameters, type.Proper := by
      intro type mem
      rw [sameParams] at mem
      obtain ⟨param, inParams, rfl⟩ := List.mem_map.mp mem
      exact sigProper.1 param inParams
    rw [← sameParams] at fits
    apply ((argumentCode_builds args paramsProper fits).of_less fun isGiven => isGiven.1).bind
    intro code _
    refine .pure sameRes fun ⟨⟨isGiven, _⟩, turns⟩ => ?_
    have isFunction := (situated.placed isGiven).routines name info index registered isIndexed
    refine Turns.append turns fun deeper => ?_
    have call := turns_call isFunction deeper
    simpa [RoutineInfo.type, sameRes] using call
  | .unary span .plus inner, _, .sign _ innerTyped _ => by
    apply loading_builds (operand_builds inner innerTyped)
    intro code
    exact .pure rfl (·.2)
  | .unary span .minus inner, type, .sign _ innerTyped numeric => by
    have innerBuilds := operand_builds inner innerTyped
    rcases minus_cases env span inner with ⟨place, val, rfl⟩ | isMinus
    · cases innerTyped
      exact literal_builds
    · rw [isMinus]
      apply loading_builds innerBuilds
      intro code
      exact .pure rfl fun isGiven => turns_negation numeric isGiven.2
  | .unary _ .not _, _, .sign signed _ _ => absurd rfl signed
  | .unary span _ inner, _, .not innerTyped converts => by
    apply loading_builds (operand_builds inner innerTyped)
    intro code
    refine .pure rfl fun ⟨_, turns⟩ => ?_
    have truth := turns_converted situated.proper innerTyped converts trivial turns
    exact truth.append (turns_compute .i32Eqz)
  | .binary span op left right, _, .logical logical leftTyped leftConverts rightTyped
      rightConverts => by
    refine binary_builds span (operand_builds left leftTyped)
      (operand_builds right rightTyped) fun leftCode rightCode => ?_
    refine logicalOperation_builds logical (fun isGiven => ?_) fun isGiven => ?_
    · exact turns_converted situated.proper leftTyped leftConverts trivial isGiven.1.2
    · exact turns_converted situated.proper rightTyped rightConverts trivial isGiven.2
  | .binary span op left right, _, .arithmetic arithmetic leftTyped leftNumeric rightTyped
      rightNumeric => by
    have notLogical : op.isLogical = false := by
      cases op <;> simp_all [isArithmetic, isLogical]
    have notComparison : op.isComparison = false := by
      cases op <;> simp_all [isArithmetic, isComparison]
    have builds := binary_builds span (operand_builds left leftTyped)
      (operand_builds right rightTyped) fun _ _ =>
        scalarOperation_builds notLogical (.inl ⟨leftNumeric, rightNumeric⟩) (·.1.2) (·.2)
    rwa [notComparison, arithmeticType_eq leftNumeric rightNumeric] at builds
  | .binary span op left right, _, .comparison comparison leftTyped rightTyped comparable => by
    have notLogical : op.isLogical = false := by
      cases op <;> simp_all [isComparison, isLogical]
    have builds := binary_builds span (operand_builds left leftTyped)
      (operand_builds right rightTyped) fun _ _ =>
        scalarOperation_builds notLogical (by simpa [Typing.comparable] using comparable)
          (·.1.2) (·.2)
    rwa [comparison] at builds

theorem argumentCode_builds : (args : List Expr) → {params : List Ty} →
    (∀ type ∈ params, type.Proper) →
      Fits Assignable names args params →
      CodeBuilds ctx given (argumentCode env args params) [] (params.filterMap valueType?).reverse
  | [], _, _, .nil => by
    rw [argumentCode]
    · exact .pure trivial fun _ => .nil
    · simp
  | argument :: rest, param :: params, paramsProper, .cons argumentTyped converts fits => by
    have paramProper := paramsProper param (by simp)
    obtain ⟨valueType, isType⟩ := exists_valueType paramProper
    apply loading_builds (operand_builds argument argumentTyped)
    intro code
    apply ((argumentCode_builds rest
      (fun type mem => paramsProper type (by simp [mem])) fits).of_less
        fun isGiven => isGiven.1).bind
    intro others _
    refine .pure trivial fun ⟨⟨_, turns⟩, othersTurn⟩ => ?_
    have first := turns_converted situated.proper argumentTyped converts paramProper turns
    rw [representation_of_valueType isType] at first
    have all := first.append (othersTurn.above [valueType])
    simpa [isType] using all

end

theorem expression_builds (valueTyped : HasType Assignable names val type) :
    Builds ctx given (expression env val) (fun res => res.2 = type)
      fun res => Turns ctx res.1 [] (representation type) := by
  apply (operand_builds situated val valueTyped).bind
  rintro ⟨_, operand⟩ fits
  apply (Builds.lift (loaded_meets fits)).imp (fun isGiven => isGiven)
  · rintro ⟨code, _⟩ ⟨same, -⟩
    exact same
  · rintro ⟨code, _⟩ ⟨-, turns⟩ isGiven _
    exact turns isGiven.2

theorem target_builds (isPlace : place.isPlace = true)
    (placeTyped : HasType Assignable names place type) :
    Builds ctx given (target env place) (fun res => res.2.2 = type ∧ res.2.1.Fits type)
      fun res => res.2.1.Typed ctx res.1 type := by
  have places : PlaceBuilds ctx given (operand env place) type := by
    cases placeTyped with
    | name found => exact name_builds situated found
    | field receiverTyped found =>
      exact field_builds situated (operand_builds situated _ receiverTyped) receiverTyped found
    | index receiverTyped positionTyped converts =>
      exact index_builds situated (operand_builds situated _ receiverTyped) receiverTyped
        (operand_builds situated _ positionTyped) positionTyped converts
    | integer | real | boolean | call | sign | not | logical | arithmetic | comparison =>
      cases isPlace
  unfold target
  rw [if_pos isPlace]
  apply places.bind
  rintro ⟨code, _⟩ ⟨found, rfl, fits⟩
  exact .pure ⟨rfl, fits⟩ fun isGiven => isGiven.2

end Expressions

end Imperative.Lowering
