import Imperative.Proofs.Scalar.Expression
import Imperative.Proofs.Simplify.Operand

/-!
# Folded literals and the code they replace

Constants are folded with 64 bits, and the code that would have computed them works with 32.  Sums,
differences and products agree up to multiples of `2 ^ 32`; quotients and comparisons only where
their operands fit.
-/

namespace Imperative.Scalar

open Lowering (InRange)
open Wasm (Code Module Runs State)

variable {op : BinaryOperator} {datum : Datum} {res : Literal}

instance (val : Int) : Decidable (InRange val) := inferInstanceAs (Decidable (_ ∧ _))

/-- Whether the expression is built from integers that fit, booleans and operators. -/
def constantExpr : Expr → Bool
  | .integer _ val => decide (InRange val)
  | .boolean _ _ => true
  | .unary _ _ operand => constantExpr operand
  | .binary _ _ left right => constantExpr left && constantExpr right
  | .real _ _ | .name _ _ | .field _ _ _ | .index _ _ _ | .call _ _ _ => false

/-- The literal that the expression folds to fits in 32 bits. -/
def foldsInRange (val : Expr) : Bool := match val.simplify.value.literal? with
  | some (.integer res) => decide (InRange res)
  | _ => true

/-- The operator can be computed from wrapped operands. -/
def wraps : BinaryOperator → Bool
  | .add | .sub | .mul | .and | .or | .xor => true
  | .div | .mod | .less | .lessEqual | .greater | .greaterEqual | .equal | .notEqual => false

/-- Whether the operands of quotients, remainders and comparisons fold to integers that fit. -/
def operandsInRange : Expr → Bool
  | .unary _ _ operand => operandsInRange operand
  | .binary _ op left right =>
    operandsInRange left && operandsInRange right &&
      (wraps op || (foldsInRange left && foldsInRange right))
  | .integer _ _ | .real _ _ | .boolean _ _ | .name _ _ | .field _ _ _ | .index _ _ _
  | .call _ _ _ => true

def Wrapped : Literal → Datum → Prop
  | .integer val, datum => datum = .integer (Int32.ofInt val)
  | .boolean truth, datum => datum = .boolean truth
  | .real _, _ => False

/-- The word is that of the literal; a boolean is zero or one. -/
def Represents : Literal → Int32 → Prop
  | .integer val, word => word.toInt = val
  | .boolean truth, word => word = if truth then 1 else 0
  | .real _, _ => False

theorem toInt_ofInt (inRange : InRange val) : (Int32.ofInt val).toInt = val :=
  Int32.toInt_ofInt_of_le inRange.1 (Int.lt_add_one_of_le inRange.2)

theorem ofInt_lt_iff (leftFits : InRange left) (rightFits : InRange right) :
    Int32.ofInt left < Int32.ofInt right ↔ left < right := by
  rw [Int32.lt_iff_toInt_lt, toInt_ofInt leftFits, toInt_ofInt rightFits]

theorem ofInt_le_iff (leftFits : InRange left) (rightFits : InRange right) :
    Int32.ofInt left ≤ Int32.ofInt right ↔ left ≤ right := by
  rw [Int32.le_iff_toInt_le, toInt_ofInt leftFits, toInt_ofInt rightFits]

theorem ofInt_inj (leftFits : InRange left) (rightFits : InRange right) :
    Int32.ofInt left = Int32.ofInt right ↔ left = right := by
  rw [← Int32.toInt_inj, toInt_ofInt leftFits, toInt_ofInt rightFits]

theorem eq_of_ofInt? (isResult : Literal.ofInt? val = some res) : res = .integer val := by
  rw [Literal.ofInt?] at isResult
  split at isResult
  · cases isResult
    rfl
  · cases isResult

theorem combine_div_ok (isDatum : combine .div (.integer left) (.integer right) = .ok datum) :
    datum = .integer (left / right) := by
  change .integer <$> divide left right = .ok datum at isDatum
  rw [divide] at isDatum
  by_cases isZero : right = 0
  · rw [if_pos isZero] at isDatum
    cases isDatum
  · rw [if_neg isZero] at isDatum
    by_cases exceeds : left = .minValue ∧ right = -1
    · rw [if_pos exceeds] at isDatum
      cases isDatum
    · rw [if_neg exceeds] at isDatum
      cases isDatum
      rfl

theorem combine_mod_ok (isDatum : combine .mod (.integer left) (.integer right) = .ok datum) :
    datum = .integer (left % right) := by
  change .integer <$> remainder left right = .ok datum at isDatum
  rw [remainder] at isDatum
  by_cases isZero : right = 0
  · rw [if_pos isZero] at isDatum
    cases isDatum
  · rw [if_neg isZero] at isDatum
    cases isDatum
    rfl

theorem wrapped_of_integers? (isResult : Literal.integers? op left right = some res)
    (fits : wraps op = true ∨ InRange left ∧ InRange right)
    (isDatum : combine op (.integer (Int32.ofInt left)) (.integer (Int32.ofInt right)) =
      .ok datum) :
    Wrapped res datum := by
  cases op
  case add =>
    cases isDatum
    rw [eq_of_ofInt? isResult]
    exact congrArg Datum.integer (Int32.ofInt_add _ _).symm
  case sub =>
    cases isDatum
    rw [eq_of_ofInt? isResult]
    exact congrArg Datum.integer (Int32.ofInt_sub _ _).symm
  case mul =>
    cases isDatum
    rw [eq_of_ofInt? isResult]
    exact congrArg Datum.integer (Int32.ofInt_mul _ _).symm
  case and | or | xor => cases isResult
  all_goals obtain ⟨leftFits, rightFits⟩ := fits.resolve_left nofun
  case div =>
    rw [Literal.integers?] at isResult
    split at isResult
    · cases isResult
    · rw [eq_of_ofInt? isResult, combine_div_ok isDatum]
      exact congrArg Datum.integer
        (Int32.ofInt_tdiv leftFits.1 leftFits.2 rightFits.1 rightFits.2).symm
  case mod =>
    rw [Literal.integers?] at isResult
    split at isResult
    · cases isResult
    · cases isResult
      rw [combine_mod_ok isDatum]
      exact congrArg Datum.integer
        (Int32.ofInt_tmod leftFits.1 leftFits.2 rightFits.1 rightFits.2).symm
  case less =>
    cases isResult
    cases isDatum
    exact congrArg Datum.boolean (decide_eq_decide.mpr (ofInt_lt_iff leftFits rightFits))
  case lessEqual =>
    cases isResult
    cases isDatum
    exact congrArg Datum.boolean (decide_eq_decide.mpr (ofInt_le_iff leftFits rightFits))
  case greater =>
    cases isResult
    cases isDatum
    exact congrArg Datum.boolean (decide_eq_decide.mpr (ofInt_lt_iff rightFits leftFits))
  case greaterEqual =>
    cases isResult
    cases isDatum
    exact congrArg Datum.boolean (decide_eq_decide.mpr (ofInt_le_iff rightFits leftFits))
  case equal =>
    cases isResult
    cases isDatum
    exact congrArg Datum.boolean (decide_eq_decide.mpr (ofInt_inj leftFits rightFits))
  case notEqual =>
    cases isResult
    cases isDatum
    exact congrArg Datum.boolean (decide_eq_decide.mpr (not_congr (ofInt_inj leftFits rightFits)))

theorem wrapped_of_booleans? (isResult : Literal.booleans? op left right = some res)
    (isDatum : combine op (.boolean left) (.boolean right) = .ok datum) : Wrapped res datum := by
  cases op
  case and | or | xor | equal | notEqual =>
    cases isResult
    cases isDatum
    cases left <;> cases right <;> rfl
  all_goals cases isResult

theorem wrapped_of_binary? (isResult : Literal.binary? op left right = some res)
    (leftWrapped : Wrapped left leftDatum) (rightWrapped : Wrapped right rightDatum)
    (fits : wraps op = true ∨ (∀ val, left = .integer val → InRange val) ∧
      ∀ val, right = .integer val → InRange val)
    (isDatum : combine op leftDatum rightDatum = .ok datum) : Wrapped res datum := by
  cases left with
  | real => exact leftWrapped.elim
  | integer leftVal =>
    cases right with
    | real => exact rightWrapped.elim
    | boolean => cases isResult
    | integer rightVal =>
      rw [leftWrapped, rightWrapped] at isDatum
      exact wrapped_of_integers? isResult
        (fits.imp_right fun both => ⟨both.1 _ rfl, both.2 _ rfl⟩) isDatum
  | boolean leftTruth =>
    cases right with
    | real => exact rightWrapped.elim
    | integer => cases isResult
    | boolean rightTruth =>
      rw [leftWrapped, rightWrapped] at isDatum
      exact wrapped_of_booleans? isResult isDatum

theorem foldsInRange_of_literal? (inRange : foldsInRange val = true)
    {literal : Literal} (isLiteral : val.simplify.value.literal? = some literal) :
    ∀ res, literal = .integer res → InRange res := by
  rintro res rfl
  rw [foldsInRange, isLiteral] at inRange
  exact of_decide_eq_true inRange

theorem combine_of_decides (decides : Literal.decides op val = true)
    (isDatum : combine op (.boolean val) right = .ok datum) : datum = .boolean val := by
  cases op with
  | and =>
    cases val with
    | true => cases decides
    | false =>
      cases isDatum
      rfl
  | or =>
    cases val with
    | false => cases decides
    | true =>
      cases isDatum
      rfl
  | add | sub | mul | div | mod | less | lessEqual | greater | greaterEqual | equal | notEqual
  | xor => cases decides

theorem except_ok_of_bind {next : α → Except Fault β}
    {res : β} (isOk : (step >>= next) = .ok res) : ∃ val, step = .ok val ∧ next val = .ok res := by
  cases step with
  | ok val => exact ⟨val, rfl, isOk⟩
  | error fault => cases isOk

theorem wrapped_of_minus {inner : Expr}
    (isInner : inner.simplify.value.literal? = some innerLit)
    (innerWrapped : ∀ {datum : Datum}, evaluate lookup inner = .ok datum → Wrapped innerLit datum)
    (isResult : Literal.unary? .minus innerLit = some res)
    (isDatum : evaluate lookup (.unary span .minus inner) = .ok datum) : Wrapped res datum := by
  by_cases isInteger : ∃ place val, inner = .integer place val
  · rcases isInteger with ⟨place, val, rfl⟩
    cases isInner
    rw [eq_of_ofInt? isResult]
    rw [evaluate, literal] at isDatum
    split at isDatum
    · cases isDatum
      rfl
    · cases isDatum
  · rw [evaluate_minus fun place val same => isInteger ⟨place, val, same⟩] at isDatum
    rcases except_ok_of_bind isDatum with ⟨innerDatum, isInnerDatum, isNegated⟩
    cases isNegated
    have wrapped := innerWrapped isInnerDatum
    cases innerLit with
    | boolean => cases isResult
    | real => exact wrapped.elim
    | integer val =>
      rw [eq_of_ofInt? isResult, wrapped]
      exact congrArg Datum.integer (Int32.ofInt_neg _).symm

theorem wrapped_of_literal? : (val : Expr) →
    constantExpr val = true → operandsInRange val = true → {literal : Literal} →
    val.simplify.value.literal? = some literal → {datum : Datum} →
    evaluate lookup val = .ok datum → Wrapped literal datum
  | .integer span val, isConstant, _, _, isLiteral, datum, isDatum => by
    cases isLiteral
    rw [evaluate, literal] at isDatum
    split at isDatum
    · cases isDatum
      rfl
    · cases isDatum
  | .boolean span truth, _, _, _, isLiteral, datum, isDatum => by
    cases isLiteral
    cases isDatum
    rfl
  | .unary span op inner, isConstant, inRange, literal, isLiteral, datum, isDatum => by
    rw [Expr.simplify_unary] at isLiteral
    split at isLiteral
    · next res isFolded =>
      rw [Literal.literal?_toExpr, Option.some.injEq] at isLiteral
      subst isLiteral
      rcases Option.bind_eq_some_iff.mp isFolded with ⟨innerLit, isInner, isResult⟩
      have innerWrapped : ∀ {datum : Datum}, evaluate lookup inner = .ok datum →
          Wrapped innerLit datum := wrapped_of_literal? inner isConstant inRange isInner
      cases op with
      | plus =>
        have same : res = innerLit := by
          cases innerLit <;> cases isResult <;> rfl
        rw [same]
        exact innerWrapped isDatum
      | minus => exact wrapped_of_minus isInner innerWrapped isResult isDatum
      | not =>
        rcases except_ok_of_bind isDatum with ⟨innerDatum, isInnerDatum, isNegated⟩
        cases isNegated
        cases innerLit with
        | integer | real => cases isResult
        | boolean truth =>
          cases isResult
          rw [innerWrapped isInnerDatum]
          exact rfl
    · cases isLiteral
  | .binary span op left right, isConstant, inRange, literal, isLiteral, datum, isDatum => by
    rw [constantExpr, Bool.and_eq_true] at isConstant
    rw [operandsInRange, Bool.and_eq_true, Bool.and_eq_true, Bool.or_eq_true,
      Bool.and_eq_true] at inRange
    obtain ⟨⟨leftInRange, rightInRange⟩, fits⟩ := inRange
    rcases except_ok_of_bind isDatum with ⟨leftDatum, isLeftDatum, isRest⟩
    rcases except_ok_of_bind isRest with ⟨rightDatum, isRightDatum, isCombined⟩
    rw [Expr.simplify_binary] at isLiteral
    split at isLiteral
    · next val isDecided =>
      cases isLiteral
      obtain ⟨isBoolean, decides⟩ := Expr.eq_boolean_of_decided? isDecided
      have isLeft : left.simplify.value.literal? = some (.boolean val) := by
        rw [isBoolean]
        rfl
      have leftWrapped := wrapped_of_literal? left isConstant.1 leftInRange isLeft isLeftDatum
      rw [leftWrapped] at isCombined
      exact combine_of_decides decides isCombined
    · split at isLiteral
      · next res isFolded =>
        rw [Literal.literal?_toExpr, Option.some.injEq] at isLiteral
        subst isLiteral
        rcases Option.bind_eq_some_iff.mp isFolded with ⟨leftLit, isLeft, isRest⟩
        rcases Option.bind_eq_some_iff.mp isRest with ⟨rightLit, isRight, isResult⟩
        exact wrapped_of_binary? isResult
          (wrapped_of_literal? left isConstant.1 leftInRange isLeft isLeftDatum)
          (wrapped_of_literal? right isConstant.2 rightInRange isRight isRightDatum)
          (fits.imp_right fun both => ⟨foldsInRange_of_literal? both.1 isLeft,
            foldsInRange_of_literal? both.2 isRight⟩) isCombined
      · cases isLiteral

theorem binaryType_kinds {left right : Kind} :
    Typing.binaryType span op left.type right.type =
        pure (if op.isArithmetic then Kind.integer else Kind.boolean).type ∨
      ∃ problem, Typing.binaryType span op left.type right.type = Typing.reject span problem := by
  cases op
  case and | or | xor => cases left <;> cases right <;> exact .inl rfl
  case add | sub | mul | div | mod =>
    cases left <;> cases right
    case integer.integer => exact .inl rfl
    all_goals exact .inr ⟨_, rfl⟩
  case less | lessEqual | greater | greaterEqual | equal | notEqual =>
    cases left <;> cases right
    case integer.integer | boolean.boolean => exact .inl rfl
    all_goals exact .inr ⟨_, rfl⟩

theorem reject_not_quiet :
    ((Typing.reject span problem >>= Typing.record span) pre).2.diagnostics ≠ pre.diagnostics :=
  fun quiet => absurd (List.append_right_eq_self.mp quiet) (List.cons_ne_nil _ _)

theorem record_grows (follows : Typing.Follows .nothing step step) (span : Span)
    (start : Typing.Analysis) :
    start.diagnostics <+: ((step >>= Typing.record span) start).2.diagnostics :=
  (follows.bind fun _ => Typing.record_follows).grows start

theorem kind?_of_constant : (val : Expr) → constantExpr val = true →
    {pre : Typing.Analysis} →
    (Typing.infer val pre).2.diagnostics = pre.diagnostics →
    ∃ kind, kind? names val = some kind ∧ (Typing.infer val pre).1 = kind.type
  | .integer span val, _, _, _ => ⟨.integer, rfl, rfl⟩
  | .boolean span truth, _, _, _ => ⟨.boolean, rfl, rfl⟩
  | .unary span op inner, isConstant, pre, quiet => by
    have isStep : Typing.infer (.unary span op inner) pre =
        (Typing.unaryType span op (Typing.infer inner pre).1 >>= Typing.record span)
          (Typing.infer inner pre).2 := by
      rfl
    obtain ⟨innerQuiet, restQuiet⟩ :=
      Typing.quiet_of_bind ((Typing.infer_follows inner).grows pre)
        (record_grows (Typing.unaryType_reads trivial).follows _ _) quiet
    obtain ⟨kind, isKind, isType⟩ := kind?_of_constant inner isConstant innerQuiet
    rw [isType] at isStep restQuiet
    rw [isStep]
    cases op <;> cases kind <;> rw [kind?, isKind]
    case plus.integer | minus.integer => exact ⟨.integer, rfl, rfl⟩
    case not.integer | not.boolean => exact ⟨.boolean, rfl, rfl⟩
    case plus.boolean | minus.boolean => exact absurd restQuiet reject_not_quiet
  | .binary span op left right, isConstant, pre, quiet => by
    rw [constantExpr, Bool.and_eq_true] at isConstant
    have isStep : Typing.infer (.binary span op left right) pre =
        (Typing.binaryType span op (Typing.infer left pre).1
            (Typing.infer right (Typing.infer left pre).2).1 >>= Typing.record span)
          (Typing.infer right (Typing.infer left pre).2).2 := by
      rfl
    have rightGrows := (Typing.infer_follows right).grows (Typing.infer left pre).2
    have lastGrows := record_grows
      (@Typing.binaryType_reads (fun _ => True) span trivial op (Typing.infer left pre).1
        (Typing.infer right (Typing.infer left pre).2).1).follows span
      (Typing.infer right (Typing.infer left pre).2).2
    obtain ⟨leftQuiet, restQuiet⟩ :=
      Typing.quiet_of_bind ((Typing.infer_follows left).grows pre)
        (rightGrows.trans lastGrows) quiet
    obtain ⟨rightQuiet, lastQuiet⟩ := Typing.quiet_of_bind rightGrows lastGrows restQuiet
    obtain ⟨leftKind, isLeft, leftType⟩ := kind?_of_constant left isConstant.1 leftQuiet
    obtain ⟨rightKind, isRight, rightType⟩ := kind?_of_constant right isConstant.2 rightQuiet
    rw [leftType, rightType] at isStep lastQuiet
    rw [isStep, kind?, isLeft, isRight]
    rcases binaryType_kinds with isPure | ⟨problem, isReject⟩
    · rw [isPure]
      exact ⟨_, rfl, rfl⟩
    · rw [isReject] at lastQuiet
      exact absurd lastQuiet reject_not_quiet

theorem represents_of_wrapped {literal : Literal} (wrapped : Wrapped literal datum)
    (fits : ∀ val, literal = .integer val → InRange val) : Represents literal datum.word := by
  cases literal with
  | integer val =>
    rw [wrapped]
    exact toInt_ofInt (fits val rfl)
  | boolean truth =>
    rw [wrapped]
    exact rfl
  | real => exact wrapped

/--
Where the code of a constant expression ends without a trap, it leaves the literal that the
expression folds to, if the literal and the operands of quotients and comparisons fit in 32 bits.
-/
theorem folded_literal_left {value : Expr} (isConstant : constantExpr value = true)
    {before : Typing.Analysis}
    (quiet : (Typing.infer value before).2.diagnostics = before.diagnostics)
    {env : Lowering.Environment} {frame after : Lowering.Frame} {code : Code} {type : Ty}
    (isOk : Lowering.expression env value frame = .ok ((code, type), after))
    {module : Module} {state final : State} (runs : Runs module code state (.next final))
    {literal : Literal} (isLiteral : value.simplify.value.literal? = some literal)
    (operandsFit : operandsInRange value = true) (literalFits : foldsInRange value = true) :
    ∃ word, final = { state with stack := .i32 word :: state.stack } ∧ Represents literal word := by
  -- No name occurs, so the context in which none is known will do.
  have unknown : Known (fun _ => none) env := nofun
  obtain ⟨kind, isKind, -⟩ := kind?_of_constant value isConstant quiet
  obtain ⟨-, -, means⟩ := expression_means unknown isKind isOk
  have leaves := (means module (fun _ => none) state nofun).leaves
  cases isDatum : evaluate (fun _ => none) value with
  | ok datum =>
    rw [isDatum] at leaves
    cases leaves.unique runs
    exact ⟨datum.word, rfl, represents_of_wrapped
      (wrapped_of_literal? value isConstant operandsFit isLiteral isDatum)
      (foldsInRange_of_literal? literalFits isLiteral)⟩
  | error fault =>
    rw [isDatum] at leaves
    cases fault with
    | trap => cases Runs.unique leaves runs
    | stuck => exact leaves.elim

def idleState : State :=
  { stack := []
    locals := []
    globals := []
    memory := { bytes := fun _ => 0, size := 0 }
    calls := [] }

def productExpr : Expr :=
  .binary default .less
    (.binary default .mul (.binary default .sub (.integer default 7) (.integer default 2))
      (.integer default 3)) (.integer default 20)

def productCode : Code :=
  [.i32Const 7, .i32Const 2, Lowering.compute .i32Sub, .i32Const 3, Lowering.compute .i32Mul,
    .i32Const 20, Lowering.compute .i32LtS]

theorem folded_literal_left_productExpr :
    Lowering.expression .empty productExpr (.start 0) = .ok ((productCode, .boolean), .start 0) ∧
      Runs .empty productCode idleState (.next { idleState with stack := [.i32 1] }) ∧
      ∃ word, { idleState with stack := [.i32 1] } =
          { idleState with stack := .i32 word :: idleState.stack } ∧
        Represents (.boolean true) word := by
  have quiet : (Typing.infer productExpr .initial).2.diagnostics = [] := rfl
  have isOk : Lowering.expression .empty productExpr (.start 0) =
      .ok ((productCode, .boolean), .start 0) := rfl
  have runs : Runs .empty productCode idleState (.next { idleState with stack := [.i32 1] }) :=
    ⟨nofun, 10, rfl⟩
  exact ⟨isOk, runs, folded_literal_left (by decide) quiet isOk runs rfl (by decide) (by decide)⟩

def overflowExpr : Expr :=
  .binary default .greater (.binary default .add (.integer default 2147483647) (.integer default 1))
    (.integer default 0)

def overflowCode : Code :=
  [.i32Const 2147483647, .i32Const 1, Lowering.compute .i32Add, .i32Const 0,
    Lowering.compute .i32GtS]

/-- A sum that does not fit is positive where it is folded and negative where it is computed. -/
theorem folded_literal_not_left :
    overflowExpr.simplify.value.literal? = some (.boolean true) ∧
      Lowering.expression .empty overflowExpr (.start 0) =
          .ok ((overflowCode, .boolean), .start 0) ∧
      Runs .empty overflowCode idleState (.next { idleState with stack := [.i32 0] }) :=
  ⟨rfl, rfl, nofun, 10, rfl⟩

end Imperative.Scalar
