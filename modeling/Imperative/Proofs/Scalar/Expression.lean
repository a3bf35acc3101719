import Imperative.Proofs.Lowering.Expression
import Imperative.Proofs.Lowering.Temporaries
import Imperative.Proofs.Scalar.Fragment

/-!
# The code of scalar expressions

The code of an integer or boolean expression leaves its value on the stack, or it traps if there
is no value.  It borrows no temporaries and changes nothing but the stack.
-/

namespace Imperative.Scalar

open Lowering

open Lowering (Environment Frame Operand Storage Variable binaryOperation bind_ok coerce
  integerOperation lift_ok pure_ok)
open Wasm (Code Module Numeric Performs Runs State Value)

variable {operator : BinaryOperator} {datum : Datum} {computed : Except Fault Datum} {val : Int}
    {kind : Kind}

theorem Kind.ofType?_eq_some {type : Ty} : Kind.ofType? type = some kind ↔ type = kind.type := by
  constructor
  · intro isKind
    cases type with
    | integer | boolean =>
      cases isKind
      rfl
    | real | void | array | record | error => cases isKind
  · rintro rfl
    cases kind <;> rfl

theorem variableKind?_eq_some :
    variableKind? names name = some kind ↔ names name = some (.var kind.type) := by
  constructor
  · intro isKind
    simp only [variableKind?] at isKind
    split at isKind
    · next type isVariable => rw [isVariable, Kind.ofType?_eq_some.mp isKind]
    · cases isKind
  · intro isVariable
    simp only [variableKind?, isVariable]
    exact Kind.ofType?_eq_some.mpr rfl

@[simp]
theorem Kind.type_isReal : kind.type.isReal = false := by
  cases kind <;> rfl

@[simp]
theorem Kind.type_isAggregate (kind : Kind) : kind.type.isAggregate = false := by
  cases kind <;> rfl

theorem Kind.valueType_eq (kind : Kind) : valueType? kind.type = some .i32 := by
  cases kind <;> rfl

theorem Kind.type_injective {first second : Kind} (same : first.type = second.type) :
    first = second := by
  cases first <;> cases second <;> first | rfl | cases same

@[simp]
theorem Datum.kind_as : (datum.as kind).kind = kind := by
  cases kind <;> rfl

@[simp]
theorem Datum.word_initial : (Datum.initial kind).word = 0 := by
  cases kind <;> rfl

@[simp]
theorem Datum.kind_initial : (Datum.initial kind).kind = kind := by
  cases kind <;> rfl

theorem Datum.truth_eq (datum : Datum) : datum.truth = (datum.word != 0) := by
  cases datum with
  | integer val => rfl
  | boolean truth => cases truth <;> rfl

def Holds (st : State) (word : Int32) : Storage → Prop
  | .slot index => st.locals[index]? = some (.i32 word)
  | .global index => st.globals[index]? = some (.i32 word)
  | .fixed _ | .pointer _ => False

/-- The integers and booleans among the names are found in locals and globals. -/
def Known (names : Typing.Context) (env : Environment) : Prop :=
  ∀ (name : String) (kind : Kind), names name = some (.var kind.type) →
    ∃ storage, env.scope.lookup name = some { type := kind.type, storage } ∧ storage.isDirect = true

/-- The locals and globals of the machine hold the values of the variables. -/
def Reads (names : Typing.Context) (env : Environment) (lookup : String → Option Datum)
    (st : State) : Prop :=
  ∀ (name : String) (kind : Kind) (entry : Variable), names name = some (.var kind.type) →
    env.scope.lookup name = some entry →
    ∃ datum, lookup name = some datum ∧ datum.kind = kind ∧ Holds st datum.word entry.storage

/-- The code leaves the word on the stack, or it traps if there is none. -/
def Leaves (module : Module) (code : Code) (st : State) : Except Fault Int32 → Prop
  | .ok word => Runs module code st (.next { st with stack := .i32 word :: st.stack })
  | .error .trap => Runs module code st (.trapped st.calls)
  | .error .stuck => False

/-- The code leaves a value of the kind on the stack, or it traps if there is none. -/
structure Computes (module : Module) (code : Code) (st : State) (kind : Kind)
    (computed : Except Fault Datum) : Prop where
  kind : ∀ datum, computed = .ok datum → datum.kind = kind
  leaves : Leaves module code st (Datum.word <$> computed)

section Operators

variable {module : Module} {st : State}

theorem runs_coerce (isStack : st.stack = .i32 datum.word :: rest) :
    Runs module (coerce datum.kind.type tgt.type) st
      (.next { st with stack := .i32 (datum.as tgt).word :: rest }) := by
  have same {other : Datum} (sameWord : other.word = datum.word) :
      Runs module [] st (.next { st with stack := .i32 other.word :: rest }) := by
    rw [sameWord, ← isStack]
    exact .nil
  cases tgt with
  | integer => cases datum <;> exact same rfl
  | boolean =>
    cases datum with
    | boolean truth => exact same rfl
    | integer val =>
      refine .cons .i32Const (.single ?_)
      refine .binary rfl (congrArg (.i32 0 :: ·) isStack) ?_
      rfl

def operandWord (operator : BinaryOperator) (datum : Datum) : Int32 :=
  if operator.isLogical then (datum.as .boolean).word else datum.word

theorem apply_integerOperation (operator : BinaryOperator) (left right : Datum) :
    (integerOperation operator).apply
        [.i32 (operandWord operator left), .i32 (operandWord operator right)] =
      match combine operator left right with
      | .ok datum => .value (.i32 datum.word)
      | .error .trap => .trap
      | .error .stuck => .stuck := by
  cases operator with
  | div =>
    show (if right.word = 0 then Wasm.Computed.trap
      else if left.word = Int32.minValue ∧ right.word = -1 then .trap
      else .value (.i32 (left.word / right.word))) = _
    simp only [combine, divide]
    split
    · rfl
    · split <;> rfl
  | mod =>
    show (if right.word = 0 then Wasm.Computed.trap else .value (.i32 (left.word % right.word))) = _
    simp only [combine, remainder]
    split <;> rfl
  | and | or | xor =>
    simp only [operandWord, BinaryOperator.isLogical, if_true, Datum.as, combine]
    cases left.truth <;> cases right.truth <;> rfl
  | add | sub | mul | less | lessEqual | greater | greaterEqual => rfl
  | equal =>
    show Wasm.Computed.value (.ofBool (left.word == right.word)) =
      .value (.ofBool (decide (left.word = right.word)))
    rw [Bool.beq_eq_decide_eq]
  | notEqual =>
    show Wasm.Computed.value (.ofBool (left.word != right.word)) =
      .value (.ofBool (decide (left.word ≠ right.word)))
    rw [bne, Bool.beq_eq_decide_eq, decide_not]

theorem exists_of_map_ok {computed : Except Fault α} {val : β}
    (isOk : convert <$> computed = .ok val) :
    ∃ inner, computed = .ok inner ∧ convert inner = val := by
  cases computed with
  | ok inner =>
    cases isOk
    exact ⟨inner, rfl, rfl⟩
  | error fault => cases isOk

theorem combine_kind (isVal : combine operator left right = .ok datum) :
    datum.kind = if operator.isArithmetic then .integer else .boolean := by
  cases operator with
  | div | mod =>
    rcases exists_of_map_ok isVal with ⟨val, -, rfl⟩
    rfl
  | add | sub | mul | less | lessEqual | greater | greaterEqual | equal | notEqual | and | or
  | xor =>
    cases isVal
    rfl

theorem combine_ne_stuck : combine operator left right ≠ .error .stuck := by
  cases operator with
  | div =>
    simp only [combine, divide]
    split
    · nofun
    · split <;> nofun
  | mod =>
    simp only [combine, remainder]
    split <;> nofun
  | add | sub | mul | less | lessEqual | greater | greaterEqual | equal | notEqual | and | or
  | xor => nofun

theorem isArithmetic_of_isLogical (isLogical : operator.isLogical = true) :
    operator.isArithmetic = false := by
  revert isLogical
  cases operator <;> decide

theorem isComparison_of_not_isLogical (notLogical : operator.isLogical = false) :
    operator.isComparison = !operator.isArithmetic := by
  revert notLogical
  cases operator <;> decide

theorem arity_integerOperation (operator : BinaryOperator) :
    (integerOperation operator).signature.1.length = 2 := by
  cases operator <;> rfl

theorem Leaves.binary (leftLeaves : Leaves module leftCode st (operandWord operator <$> left))
    (rightLeaves : ∀ stack, Leaves module rightCode { st with stack }
      (operandWord operator <$> right)) :
    Leaves module (leftCode ++ rightCode ++ [compute (integerOperation operator)]) st
      (Datum.word <$> do combine operator (← left) (← right)) := by
  cases left with
  | error fault =>
    cases fault with
    | trap => exact (Runs.append_stop leftLeaves rfl _).append_stop rfl _
    | stuck => exact leftLeaves.elim
  | ok left =>
    cases right with
    | error fault =>
      cases fault with
      | trap => exact (Runs.append leftLeaves (rightLeaves _)).append_stop rfl _
      | stuck => exact (rightLeaves []).elim
    | ok right =>
      have operands := Runs.append leftLeaves (rightLeaves _)
      have applied := apply_integerOperation operator left right
      have arity := arity_integerOperation operator
      show Leaves module _ st (Datum.word <$> combine operator left right)
      cases isVal : combine operator left right with
      | ok datum =>
        rw [isVal] at applied
        exact operands.append (.single (.binary arity rfl applied))
      | error fault =>
        rw [isVal] at applied
        cases fault with
        | trap => exact operands.append (.stop (.binary_trap arity rfl applied) rfl [])
        | stuck => exact combine_ne_stuck isVal

theorem Computes.andThen (computes : Computes module code st kind computed)
    (changes : ∀ datum, datum.kind = kind → (change datum).kind = other ∧
      Runs module more { st with stack := .i32 datum.word :: st.stack }
        (.next { st with stack := .i32 (change datum).word :: st.stack })) :
    Computes module (code ++ more) st other (change <$> computed) := by
  rcases computes with ⟨isKind, leaves⟩
  cases computed with
  | ok datum =>
    rcases changes datum (isKind datum rfl) with ⟨isOther, runs⟩
    refine ⟨?_, leaves.append runs⟩
    rintro _ isDatum
    cases isDatum
    exact isOther
  | error fault =>
    cases fault with
    | trap => exact ⟨nofun, .append_stop leaves rfl _⟩
    | stuck => exact leaves.elim

theorem Computes.coerce (computes : Computes module code st kind computed) (tgt : Kind) :
    Computes module (code ++ coerce kind.type tgt.type) st tgt ((·.as tgt) <$> computed) := by
  refine computes.andThen ?_
  rintro datum rfl
  exact ⟨Datum.kind_as, runs_coerce rfl⟩

end Operators

theorem loaded_value : loaded span (code, .value type) = .ok (code, type) := by
  show Except.ok (code ++ [], type) = _
  rw [List.append_nil]

/-- The code computes the expression wherever the machine holds the values of variables. -/
def Means (names : Typing.Context) (env : Environment) (code : Code) (kind : Kind)
    (val : Expr) : Prop :=
  ∀ module lookup st, Reads names env lookup st → Computes module code st kind (evaluate lookup val)

/-- Lowering the expression borrows no temporary, and its code computes it. -/
def Translates (names : Typing.Context) (env : Environment) (kind : Kind) (val : Expr) : Prop :=
  ∀ ⦃pre post emitted⦄, operand env val pre = .ok (emitted, post) →
    post = pre ∧ ∃ code, loaded val.span emitted = .ok (code, kind.type) ∧
      Means names env code kind val

section Expressions

theorem computes_constant (module : Module) (st : State) (datum : Datum) :
    Computes module [.i32Const datum.word] st datum.kind (.ok datum) where
  kind other isOther := by
    cases isOther
    rfl
  leaves := .single .i32Const

theorem literal_ok (isOk : Lowering.literal span val = .ok instr) :
    (-2147483648 ≤ val ∧ val ≤ 2147483647) ∧ instr = .i32Const (Int32.ofInt val) := by
  simp only [Lowering.literal] at isOk
  split at isOk
  · next inRange =>
    cases isOk
    exact ⟨inRange, rfl⟩
  · cases isOk

theorem literal_computes (isOk : Lowering.literal span val = .ok instr) :
    Computes module [instr] st .integer (literal val) := by
  rcases literal_ok isOk with ⟨inRange, rfl⟩
  simp only [literal, if_pos inRange]
  exact computes_constant module st (.integer (.ofInt val))

theorem name_translates (known : Known names env) (isKind : variableKind? names name = some kind) :
    Translates names env kind (.name span name) := by
  intro pre post emitted isOk
  have isVariable := variableKind?_eq_some.mp isKind
  rcases known name kind isVariable with ⟨storage, found, isDirect⟩
  rcases lift_ok.mp isOk with ⟨isEmitted, rfl⟩
  simp only [variableOperand, found] at isEmitted
  have reads {instr : Wasm.Instruction}
      (gets : ∀ (module : Module) (st : State) (word : Int32), Holds st word storage →
        Performs module instr st (.next { st with stack := .i32 word :: st.stack })) :
      Means names env [instr] kind (.name span name) := by
    intro module lookup st reads
    rcases reads name kind _ isVariable found with ⟨datum, isDatum, sameKind, holds⟩
    rw [evaluate, isDatum]
    refine ⟨?_, .single (gets module st datum.word holds)⟩
    intro other isOther
    cases isOther
    exact sameKind
  cases storage with
  | slot index =>
    cases isEmitted
    exact ⟨rfl, _, rfl, reads fun _ _ _ holds => .localGet holds⟩
  | global index =>
    cases isEmitted
    exact ⟨rfl, _, rfl, reads fun _ _ _ holds => .globalGet holds⟩
  | fixed | pointer => cases isDirect

theorem negation_computes
    (computes : ∀ stack, Computes module code { st with stack } .integer computed) :
    Computes module (negation code .integer) st .integer
      (do return .integer (-(← computed).word)) := by
  have zero : Leaves module [.i32Const 0] st
      (operandWord .sub <$> (.ok (.integer 0) : Except Fault Datum)) :=
    .single .i32Const
  have leaves := zero.binary fun stack => (computes stack).leaves
  cases computed with
  | ok datum =>
    refine ⟨?_, ?_⟩
    · intro other isOther
      cases isOther
      rfl
    · show Leaves module _ st (.ok (-datum.word))
      exact leaves
  | error fault => exact ⟨nofun, leaves⟩

theorem evaluate_minus {inner : Expr} (notLit : ∀ place val, inner ≠ .integer place val) :
    evaluate lookup (.unary span .minus inner) =
      (do return .integer (-(← evaluate lookup inner).word)) := by
  rw [evaluate]
  exact notLit

theorem not_computes (computes : Computes module code st kind computed) :
    Computes module (code ++ coerce kind.type .boolean ++ [compute .i32Eqz]) st .boolean
      (do return .boolean (!(← computed).truth)) := by
  have negated (truth : Bool) : Value.i32 (Datum.boolean (!truth)).word =
      .ofBool ((Datum.boolean truth).word == 0) := by
    cases truth <;> rfl
  have converted : (do return .boolean (!(← computed).truth)) =
      (fun datum => Datum.boolean (!datum.truth)) <$> (·.as .boolean) <$> computed := by
    cases computed <;> rfl
  rw [converted]
  refine (computes.coerce .boolean).andThen fun datum isBoolean => ⟨rfl, ?_⟩
  cases datum with
  | integer => cases isBoolean
  | boolean truth =>
    rw [negated]
    exact .single (.i32Eqz rfl)

theorem minus_literal_translates :
    Translates names env .integer (.unary span .minus (.integer place val)) := by
  intro pre post emitted isOk
  rcases bind_ok.mp isOk with ⟨instr, _, isLifted, isPure⟩
  rcases lift_ok.mp isLifted with ⟨isLiteral, rfl⟩
  rcases pure_ok.mp isPure with ⟨rfl, rfl⟩
  -- The limit of the negated literal is far outside of what fits.
  have notLimited : min (-val) Lowering.greatestInteger = -val := by
    have inRange := (literal_ok isLiteral).1
    simp only [Lowering.greatestInteger] at inRange ⊢
    omega
  rw [notLimited] at isLiteral
  refine ⟨rfl, _, loaded_value, fun module lookup st _ => ?_⟩
  exact literal_computes isLiteral

theorem Translates.loading {inner : Expr} {next : Code × Ty → Lowering.Emit α}
    (translates : Translates names env kind inner)
    (isOk : (do next (← loaded inner.span (← operand env inner))) pre =
      .ok (res, post)) :
    ∃ code, Means names env code kind inner ∧ next (code, kind.type) pre = .ok (res, post) := by
  rcases bind_ok.mp isOk with ⟨emitted, _, isOperand, isRest⟩
  rcases translates isOperand with ⟨rfl, code, loads, means⟩
  rw [loads] at isRest
  exact ⟨code, means, isRest⟩

theorem binaryOperation_ok
    (isOk : binaryOperation operator (leftCode, leftKind.type) (rightCode, rightKind.type) pre =
      .ok ((code, type), post)) :
    post = pre ∧
      type = (if operator.isArithmetic then Kind.integer else Kind.boolean).type ∧
      ∀ module st left right, Computes module leftCode st leftKind left →
        (∀ stack, Computes module rightCode { st with stack } rightKind right) →
        Leaves module code st (Datum.word <$> do combine operator (← left) (← right)) := by
  simp only [binaryOperation, Kind.type_isReal, Bool.or_self] at isOk
  cases isLogical : operator.isLogical with
  | true =>
    rw [isLogical] at isOk
    rcases pure_ok.mp isOk with ⟨isPair, rfl⟩
    cases isPair
    refine ⟨rfl, by simp [isArithmetic_of_isLogical isLogical, Kind.type], ?_⟩
    intro module st left right leftComputes rightComputes
    have operands (computed : Except Fault Datum) :
        Datum.word <$> (·.as .boolean) <$> computed = operandWord operator <$> computed := by
      cases computed <;> simp [operandWord, isLogical]
    have converted := (leftComputes.coerce .boolean).leaves
    have alsoConverted (stack : List Value) := ((rightComputes stack).coerce .boolean).leaves
    rw [operands] at converted
    simp only [operands] at alsoConverted
    have leaves := converted.binary alsoConverted
    simpa only [List.append_assoc, Kind.type] using leaves
  | false =>
    rw [isLogical] at isOk
    rcases pure_ok.mp isOk with ⟨isPair, rfl⟩
    cases isPair
    refine ⟨rfl, ?_, ?_⟩
    · rw [isComparison_of_not_isLogical isLogical]
      cases operator.isArithmetic <;> rfl
    · intro module st left right leftComputes rightComputes
      have sameWord : operandWord operator = Datum.word := by
        funext datum
        simp [operandWord, isLogical]
      apply Leaves.binary
      · rw [sameWord]
        exact leftComputes.leaves
      · intro stack
        rw [sameWord]
        exact (rightComputes stack).leaves

theorem combined_kind (isDatum : (do combine operator (← left) (← right)) = .ok datum) :
    datum.kind = if operator.isArithmetic then .integer else .boolean := by
  cases left with
  | error => cases isDatum
  | ok left =>
    cases right with
    | error => cases isDatum
    | ok right => exact combine_kind isDatum

/-- The code of a scalar expression computes it, and no temporary is borrowed for it. -/
theorem operand_translates (known : Known names env) : (val : Expr) → {kind : Kind} →
    kind? names val = some kind → Translates names env kind val
  | .integer span val, kind, isKind => by
    intro pre post emitted isOk
    cases isKind
    rcases bind_ok.mp isOk with ⟨instr, _, isLifted, isPure⟩
    rcases lift_ok.mp isLifted with ⟨isLiteral, rfl⟩
    rcases pure_ok.mp isPure with ⟨rfl, rfl⟩
    refine ⟨rfl, _, loaded_value, fun module lookup st _ => ?_⟩
    exact literal_computes isLiteral
  | .boolean span truth, kind, isKind => by
    intro pre post emitted isOk
    cases isKind
    rcases pure_ok.mp isOk with ⟨rfl, rfl⟩
    refine ⟨rfl, _, loaded_value, fun module lookup st _ => ?_⟩
    exact computes_constant module st (.boolean truth)
  | .name span name, kind, isKind => name_translates known isKind
  | .unary span .plus inner, kind, isKind => by
    intro pre post emitted isOk
    rcases (operand_translates known inner isKind).loading isOk with ⟨code, means, isPure⟩
    rcases pure_ok.mp isPure with ⟨rfl, rfl⟩
    refine ⟨rfl, _, loaded_value, fun module lookup st reads => ?_⟩
    exact means module lookup st reads
  | .unary span .not inner, kind, isKind => by
    intro pre post emitted isOk
    rcases Option.map_eq_some_iff.mp isKind with ⟨innerKind, isInner, rfl⟩
    rcases (operand_translates known inner isInner).loading isOk with ⟨code, means, isPure⟩
    rcases pure_ok.mp isPure with ⟨rfl, rfl⟩
    refine ⟨rfl, _, loaded_value, fun module lookup st reads => ?_⟩
    exact not_computes (means module lookup st reads)
  | .unary span .minus inner, kind, isKind => by
    rw [kind?] at isKind
    split at isKind
    · next isInteger =>
      cases isKind
      by_cases isLiteral : ∃ place val, inner = .integer place val
      · rcases isLiteral with ⟨place, val, rfl⟩
        exact minus_literal_translates
      · have notLit : ∀ place val, inner ≠ .integer place val :=
          fun place val same => isLiteral ⟨place, val, same⟩
        intro pre post emitted isOk
        rw [Lowering.operand_minus notLit] at isOk
        rcases (operand_translates known inner isInteger).loading isOk with
          ⟨code, means, isPure⟩
        rcases pure_ok.mp isPure with ⟨rfl, rfl⟩
        refine ⟨rfl, _, loaded_value, fun module lookup st reads => ?_⟩
        rw [evaluate_minus notLit]
        exact negation_computes fun stack => means module lookup { st with stack } reads
    · cases isKind
  | .binary span operator left right, kind, isKind => by
    rw [kind?] at isKind
    split at isKind
    · next leftKind rightKind isLeft isRight =>
      intro pre post emitted isOk
      cases isKind
      rcases (operand_translates known left isLeft).loading isOk with
        ⟨leftCode, leftMeans, isNext⟩
      rcases (operand_translates known right isRight).loading isNext with
        ⟨rightCode, rightMeans, isCombined⟩
      rcases bind_ok.mp isCombined with ⟨⟨whole, wholeType⟩, last, combines, isPure⟩
      rcases pure_ok.mp isPure with ⟨rfl, rfl⟩
      rcases binaryOperation_ok combines with ⟨rfl, rfl, leaves⟩
      refine ⟨rfl, _, loaded_value, fun module lookup st reads => ?_⟩
      refine ⟨fun _ => combined_kind, ?_⟩
      exact leaves module st _ _ (leftMeans module lookup st reads)
        fun stack => rightMeans module lookup { st with stack } reads
    · cases isKind
  | .real _ _, _, isKind | .field _ _ _, _, isKind | .index _ _ _, _, isKind
  | .call _ _ _, _, isKind => by
    cases isKind

theorem expression_means (known : Known names env) {val : Expr}
    (isKind : kind? names val = some kind)
    (isOk : expression env val pre = .ok ((code, type), post)) :
    post = pre ∧ type = kind.type ∧ Means names env code kind val := by
  rcases bind_ok.mp isOk with ⟨emitted, _, isOperand, isLoaded⟩
  rcases operand_translates known val isKind isOperand with ⟨rfl, found, loads, means⟩
  rcases lift_ok.mp isLoaded with ⟨isFound, rfl⟩
  rw [loads] at isFound
  cases isFound
  exact ⟨rfl, rfl, means⟩

end Expressions

end Imperative.Scalar
