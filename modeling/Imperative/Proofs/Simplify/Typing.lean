import Imperative.Parser.Program
import Imperative.Proofs.Simplify.Shape
import Imperative.Proofs.Typing.Stability

/-!
# Simplification and types

The analysis of what is simplified follows that of the original, whatever the state of the analysis.
-/

namespace Imperative

open List

variable {span : Span}

def Literal.type : Literal → Ty
  | integer _ => .integer
  | real _ => .real
  | boolean _ => .boolean

namespace Literal

theorem type_of_ofInt? (isResult : ofInt? val = some res) : res.type = .integer := by
  rw [ofInt?] at isResult
  split at isResult
  · cases isResult
    rfl
  · cases isResult

theorem type_of_ofFloat? (isResult : ofFloat? val = some res) : res.type = .real := by
  rw [ofFloat?] at isResult
  split at isResult
  · cases isResult
    rfl
  · cases isResult

theorem type_of_integers? (isResult : integers? op left right = some res) :
    (op.isArithmetic = true ∧ res.type = .integer) ∨
      (op.isComparison = true ∧ res.type = .boolean) := by
  cases op
  case add | sub | mul => exact .inl ⟨rfl, type_of_ofInt? isResult⟩
  case div =>
    rw [integers?] at isResult
    split at isResult
    · cases isResult
    · exact .inl ⟨rfl, type_of_ofInt? isResult⟩
  case mod =>
    rw [integers?] at isResult
    split at isResult
    · cases isResult
    · cases isResult
      exact .inl ⟨rfl, rfl⟩
  case and | or | xor => cases isResult
  all_goals
    cases isResult
    exact .inr ⟨rfl, rfl⟩

theorem type_of_reals? (isResult : reals? op left right = some res) :
    (op.isArithmetic = true ∧ res.type = .real) ∨
      (op.isComparison = true ∧ res.type = .boolean) := by
  cases op
  case add | sub | mul => exact .inl ⟨rfl, type_of_ofFloat? isResult⟩
  case div | mod =>
    rw [reals?] at isResult
    split at isResult
    · cases isResult
    · exact .inl ⟨rfl, type_of_ofFloat? isResult⟩
  case and | or | xor => cases isResult
  all_goals
    cases isResult
    exact .inr ⟨rfl, rfl⟩

end Literal

namespace Typing

open Literal

theorem infer_toExpr (lit : Literal) : infer (lit.toExpr span) = record span lit.type := by
  cases lit <;> rfl

theorem unaryType_of_unary? {op : UnaryOperator} (isResult : Literal.unary? op operand = some res) :
    unaryType span op operand.type = pure res.type := by
  cases op <;> cases operand
  case minus.integer =>
    rw [type_of_ofInt? isResult]
    rfl
  all_goals cases isResult
  all_goals rfl

theorem binaryType_of_arithmetic (isArithmetic : op.isArithmetic = true)
    (leftNumeric : left.isNumeric = true) (rightNumeric : right.isNumeric = true) :
    binaryType span op left right =
      pure (if left.isInteger && right.isInteger then .integer else .real) := by
  cases op <;> cases isArithmetic <;> cases left <;> cases leftNumeric <;> cases right <;>
    cases rightNumeric <;> rfl

theorem binaryType_of_comparison (isComparison : op.isComparison = true)
    (areComparable : comparable left right = true) :
    binaryType span op left right = pure .boolean := by
  cases op <;> cases isComparison <;> cases left <;> cases right <;> cases areComparable <;> rfl

theorem binary?_cases (isResult : Literal.binary? op left right = some res) :
    (op.isArithmetic = true ∧ left.type.isNumeric = true ∧ right.type.isNumeric = true ∧
        res.type = if left.type.isInteger && right.type.isInteger then .integer else .real) ∨
      (op.isComparison = true ∧ comparable left.type right.type = true ∧ res.type = .boolean) ∨
      (op.isLogical = true ∧ left.type = .boolean ∧ right.type = .boolean ∧
        res.type = .boolean) := by
  cases left <;> cases right
  case integer.integer =>
    rcases type_of_integers? isResult with ⟨isArithmetic, isType⟩ | ⟨isComparison, isType⟩
    · exact .inl ⟨isArithmetic, rfl, rfl, isType⟩
    · exact .inr (.inl ⟨isComparison, rfl, isType⟩)
  case real.real | integer.real | real.integer =>
    rcases type_of_reals? isResult with ⟨isArithmetic, isType⟩ | ⟨isComparison, isType⟩
    · exact .inl ⟨isArithmetic, rfl, rfl, isType⟩
    · exact .inr (.inl ⟨isComparison, rfl, isType⟩)
  case boolean.boolean =>
    cases op
    case and | or | xor =>
      cases isResult
      exact .inr (.inr ⟨rfl, rfl, rfl, rfl⟩)
    case equal | notEqual =>
      cases isResult
      exact .inr (.inl ⟨rfl, rfl, rfl⟩)
    all_goals cases isResult
  all_goals cases isResult

theorem binaryType_of_binary? (isResult : Literal.binary? op left right = some res) :
    binaryType span op left.type right.type = pure res.type := by
  rcases binary?_cases isResult with ⟨isArithmetic, leftNumeric, rightNumeric, isType⟩ |
    ⟨isComparison, areComparable, isType⟩ | ⟨isLogical, isLeft, isRight, isType⟩
  · rw [isType]
    exact binaryType_of_arithmetic isArithmetic leftNumeric rightNumeric
  · rw [isType]
    exact binaryType_of_comparison isComparison areComparable
  · rw [isType, isLeft, isRight, binaryType, if_pos isLogical]
    rfl

/-- An operator that its left operand decides is a truth value, whatever stands on its right. -/
theorem binaryType_follows_of_decides (decides : Literal.decides op val = true) :
    Follows reach (binaryType span op .boolean right) (pure .boolean) := by
  rw [binaryType, if_pos (Literal.isLogical_of_decides decides), logicalType]
  cases fits : right.assignable .boolean with
  | true => exact .pure _
  | false => exact report_bind_follows (fun _ => .pure _)

mutual

theorem infer_follows : (expression : Expr) →
    Follows .nothing (infer expression) (infer expression.simplify.value)
  | .integer _ _ | .real _ _ | .boolean _ _ => record_follows
  | .name span name => (variableType_reads trivial).follows.bind fun _ => record_follows
  | .field span recv field => by
    rw [Expr.simplify_field, infer, infer]
    exact (infer_follows recv).bind fun _ => (fieldType_reads trivial).follows.bind fun _ =>
      record_follows
  | .index span recv pos => by
    rw [Expr.simplify_index, infer, infer, Expr.span_simplify]
    exact (infer_follows recv).bind fun _ => (infer_follows pos).bind fun _ =>
      (checkIndex_reads trivial).follows.bind fun _ =>
        (elementType_reads trivial).follows.bind fun _ =>
        record_follows
  | .call span name args => by
    rw [Expr.simplify_call, infer, infer]
    exact (inferAll_follows args).bind fun _ =>
      (callType_reads trivial fun _ _ => trivial).follows.bind fun _ =>
      record_follows
  | .unary span op operand => by
    have operandFollows := infer_follows operand
    have rest : ∀ type, Repeats .nothing (unaryType span op type >>= record span) := fun _ =>
      (unaryType_reads trivial).follows.bind fun _ => record_follows
    rw [Expr.simplify_unary, infer]
    split
    · next res isFolded =>
      obtain ⟨lit, isLiteral, isResult⟩ := Expr.foldUnary?_eq_some isFolded
      rw [isLiteral, infer_toExpr] at operandFollows
      refine operandFollows.skip rest fun _ => ?_
      rw [infer_toExpr]
      change Follows _ (unaryType span op lit.type >>= record span) _
      rw [unaryType_of_unary? isResult]
      exact record_follows
    · exact operandFollows.bind rest
  | .binary span op left right => by
    have leftFollows := infer_follows left
    have rightFollows := infer_follows right
    have finish : ∀ leftType rightType,
        Repeats .nothing (binaryType span op leftType rightType >>= record span) := fun _ _ =>
      (binaryType_reads trivial _ _ _).follows.bind fun _ => record_follows
    rw [Expr.simplify_binary, infer]
    split
    · next val isDecided =>
      obtain ⟨isLiteral, decides⟩ := Expr.eq_boolean_of_decided? isDecided
      rw [isLiteral, infer] at leftFollows
      refine leftFollows.skip (fun _ => rightFollows.bind (finish _)) fun _ => ?_
      have decided : ∀ rightType, Follows .nothing
          (binaryType span op .boolean rightType >>= record span)
          (infer (.boolean span val)) := fun rightType =>
        (binaryType_follows_of_decides decides).bind fun _ => record_follows
      exact rightFollows.skip decided fun _ => decided _
    · split
      · next res isFolded =>
        obtain ⟨leftLit, rightLit, isLeft, isRight, isResult⟩ := Expr.foldBinary?_eq_some isFolded
        rw [isLeft, infer_toExpr] at leftFollows
        refine leftFollows.skip (fun _ => rightFollows.bind (finish _)) fun _ => ?_
        rw [isRight, infer_toExpr] at rightFollows
        refine rightFollows.skip (finish _) fun _ => ?_
        change Follows _ (binaryType span op leftLit.type rightLit.type >>= record span) _
        rw [binaryType_of_binary? isResult, infer_toExpr]
        exact record_follows
      · exact leftFollows.bind fun _ => rightFollows.bind (finish _)

theorem inferAll_follows : (expressions : List Expr) →
    Follows .nothing (inferAll expressions) (inferAll (expressions.map (·.simplify.value)))
  | [] => .pure _
  | first :: rest => by
    rw [map_cons, inferAll, inferAll, Expr.span_simplify]
    exact (infer_follows first).bind fun _ => (inferAll_follows rest).bind fun _ => .pure _

end

theorem checkCondition_follows (cond : Expr) (problem : Ty → Problem) :
    Follows .nothing (checkCondition cond problem)
      (checkCondition cond.simplify.value problem) := by
  rw [checkCondition, checkCondition, Expr.span_simplify]
  exact (infer_follows cond).bind fun _ => .ite (report_follows _ _) (.pure _)

theorem checkBound_follows (bound : Expr) (problem : Ty → Problem) :
    Follows .nothing (checkBound bound problem) (checkBound bound.simplify.value problem) := by
  rw [checkBound, checkBound, Expr.span_simplify]
  exact (infer_follows bound).bind fun _ => .ite (report_follows _ _) (.pure _)

theorem iteratorType_follows (array : Expr) :
    Follows .nothing (iteratorType array) (iteratorType array.simplify.value) := by
  rw [iteratorType, iteratorType, Expr.span_simplify]
  apply (infer_follows array).bind
  intro found
  split
  · exact .pure _
  · exact .pure _
  · exact (reject_reads trivial).follows

theorem checkAssignment_follows :
    Follows .nothing (checkAssignment span tgt val)
      (checkAssignment span tgt.simplify.value val.simplify.value) := by
  rw [checkAssignment, checkAssignment, Expr.isPlace_simplify]
  exact (infer_follows tgt).bind fun _ => (infer_follows val).bind fun _ =>
    .ite (report_follows _ _) (.ite (report_follows _ _) (.pure _))

theorem checkReturn_follows :
    Follows .nothing (checkReturn span val) (checkReturn span (val.map (·.simplify.value))) := by
  apply Follows.get
  intro st start sameScene
  injection sameScene with _ sameExpected
  rw [sameExpected]
  cases st.expected with
  | none => exact report_follows _ _
  | some expected =>
    cases val with
    | none => exact .ite (report_follows _ _) (.pure _)
    | some val =>
      exact (infer_follows val).bind fun _ =>
        .ite (report_follows _ _) (.ite (report_follows _ _) (.pure _))

theorem checkPrinted_follows :
    Follows .nothing (checkPrinted items) (checkPrinted (items.map (·.simplify.value))) := by
  induction items with
  | nil => exact .pure _
  | cons first rest ih =>
    rw [map_cons, checkPrinted, checkPrinted, Expr.span_simplify]
    exact (infer_follows first).bind fun _ => .ite ((report_follows _ _).bind fun _ => ih) ih

theorem declareType_follows : Repeats .scope (declareType decl) :=
  resolveType_follows.bind fun _ => define_follows

theorem writtenType_follows : Repeats .nothing (writtenType declared) := by
  cases declared with
  | none => exact .pure none
  | some written => exact resolveType_follows.bind fun type => .pure (some type)

theorem initialType_follows :
    Follows .nothing (initialType init) (initialType (init.map (·.simplify.value))) := by
  cases init with
  | none => exact .pure none
  | some val => exact (infer_follows val).bind fun type => .pure (some type)

theorem declaredType_follows :
    Follows .nothing (declaredType decl) (declaredType decl.simplify.value) := by
  obtain ⟨span, name, declared, init⟩ := decl
  rw [VarDecl.simplify_mk]
  exact writtenType_follows.bind fun _ => initialType_follows.bind fun _ =>
    (variableDeclType_reads trivial).follows

theorem declareVariable_follows :
    Follows .scope (declareVariable decl) (declareVariable decl.simplify.value) := by
  obtain ⟨span, name, type, init⟩ := decl
  rw [declareVariable_eq, declareVariable_eq]
  exact declaredType_follows.of_nothing.bind fun _ => define_follows

mutual

theorem checkStatement_follows : (stmt : Statement) →
    Follows .nothing (checkStatement stmt) (checkStatement stmt.simplify.value)
  | .assign span tgt val => checkAssignment_follows
  | .call span name args => by
    rw [Statement.simplify_call, checkStatement, checkStatement]
    exact (inferAll_follows args).bind fun _ =>
      (callType_reads trivial fun _ _ => trivial).follows.bind fun _ =>
      record_follows.bind fun _ => .pure _
  | .branch span cond consequent none => by
    have condFollows := checkCondition_follows cond .conditionType
    have consequentFollows := checkBlock_follows .block consequent
    cases isTruth : cond.simplify.value.truth? with
    | none =>
      rw [Statement.simplify_branch_of_open isTruth, Option.map_none, checkStatement]
      exact condFollows.bind fun _ => consequentFollows.bind fun _ => .pure _
    | some val =>
      rw [Statement.simplify_branch_of_truth isTruth]
      cases val with
      | true => exact condFollows.skipFirst (consequentFollows.skipLast (.pure ()))
      | false => exact condFollows.skipFirst (consequentFollows.skipFirst (.pure ()))
  | .branch span cond consequent (some alternative) => by
    have condFollows := checkCondition_follows cond .conditionType
    have consequentFollows := checkBlock_follows .block consequent
    have alternativeFollows := checkBlock_follows .block alternative
    cases isTruth : cond.simplify.value.truth? with
    | none =>
      rw [Statement.simplify_branch_of_open isTruth, Option.map_some, checkStatement]
      exact condFollows.bind fun _ => consequentFollows.bind fun _ => alternativeFollows
    | some val =>
      rw [Statement.simplify_branch_of_truth isTruth]
      cases val with
      | true => exact condFollows.skipFirst (consequentFollows.skipLast alternativeFollows)
      | false => exact condFollows.skipFirst (consequentFollows.skipFirst alternativeFollows)
  | .whileLoop span cond body => by
    have condFollows := checkCondition_follows cond .loopConditionType
    have bodyFollows := checkBlock_follows .loop body
    by_cases isFalse : cond.simplify.value.truth? = some false
    · rw [Statement.simplify_whileLoop_of_false isFalse, checkStatement]
      exact condFollows.skipFirst (bodyFollows.skipFirst (.pure ()))
    · rw [Statement.simplify_whileLoop_of_not_false isFalse, checkStatement]
      exact condFollows.bind fun _ => bodyFollows
  | .rangeLoop span iter first last dir (.mk bodySpan items) => by
    refine (checkBound_follows _ _).bind fun _ => (checkBound_follows _ _).bind fun _ => ?_
    exact scope_follows .loop (defineIterator_follows.bind fun _ => checkItems_follows items)
  | .arrayLoop span iter array dir (.mk bodySpan items) => by
    refine (iteratorType_follows _).bind fun _ => ?_
    exact scope_follows .loop (defineIterator_follows.bind fun _ => checkItems_follows items)
  | .giveBack span val => by
    rw [Statement.simplify_giveBack, checkStatement, checkStatement]
    exact checkReturn_follows
  | .print span items => by
    rw [Statement.simplify_print, checkStatement, checkStatement]
    exact checkPrinted_follows
  | .empty span => .pure _
  | .block span inner => checkBlock_follows .block inner

theorem checkBlock_follows (kind : ScopeKind) : (block : Block) →
    Follows .nothing (checkBlock kind block) (checkBlock kind block.simplify.value)
  | .mk _ items => scope_follows kind (checkItems_follows items)

theorem checkItems_follows : (items : List Item) →
    Follows .scope (checkItems items) (checkItems (Block.simplifyItems items).value)
  | [] => .pure _
  | .declaration (.var inner) :: rest =>
    declareVariable_follows.bind fun _ => checkItems_follows rest
  | .declaration (.type inner) :: rest => declareType_follows.bind fun _ => checkItems_follows rest
  | .declaration (.routine inner) :: rest => report_bind_follows (fun _ => checkItems_follows rest)
  | .statement inner :: rest => by
    have innerFollows := checkStatement_follows inner
    have restFollows := checkItems_follows rest
    rw [Block.simplifyItems_statement, checkItems]
    split
    · exact innerFollows.skipFirst restFollows
    · exact innerFollows.of_nothing.bind fun _ => restFollows

end

theorem parameterTypes_follows : Repeats reach (parameterTypes params) := by
  induction params with
  | nil => exact .pure _
  | cons first rest ih => exact resolveType_follows.bind fun _ => ih.bind fun _ => .pure _

theorem signature_follows : Repeats reach (signature routine) := by
  apply parameterTypes_follows.bind
  intro params
  cases routine.result with
  | none => exact (Follows.pure _).bind fun _ => .pure _
  | some written => exact resolveType_follows.bind fun _ => .pure _

theorem declareRoutine_simplified : declareRoutine routine.simplified = declareRoutine routine := by
  obtain ⟨span, name, params, res, body⟩ := routine
  cases body <;> rfl

theorem declareRoutine_follows : Repeats .everything (declareRoutine routine) := by
  apply signature_follows.bind
  intro declared
  apply Follows.get
  intro st start sameScene
  injection sameScene with sameSymbols
  rw [sameSymbols]
  split
  · exact define_follows.widen
  · exact .ite (report_follows _ _) (.ite (report_follows _ _)
      (.ite modifySymbols_follows (.pure _)))
  · exact report_follows _ _

theorem defineParameters_follows (params : List Parameter) :
    Repeats .scope (defineParameters params) := by
  induction params with
  | nil => exact .pure _
  | cons first rest ih =>
    exact resolveSilently_reads.follows.bind fun _ => define_follows.bind fun _ => ih

theorem checkBody_follows (expected : Ty) (body : Body) :
    Follows .scope (checkBody expected body) (checkBody expected body.simplified) := by
  cases body with
  | expression val =>
    rw [Body.simplified, checkBody, checkBody, Expr.span_simplify]
    exact (infer_follows val).of_nothing.bind fun _ => .ite (report_follows _ _) (.pure _)
  | block inner =>
    rw [Body.simplified, checkBody, checkBody, Block.items_simplify]
    exact checkItems_follows inner.items

/-- A step for which it is set what a `return` has to give. -/
def expecting (expected : Option Ty) (step : Checker Unit) : Checker Unit := do
  let prev := (← get).expected
  setExpected expected
  step
  setExpected prev

theorem expecting_follows (expected : Option Ty) (follows : Follows .scope step other) :
    Follows .scope (expecting expected step) (expecting expected other) := by
  have whole : Follows .everything (expecting expected step) (expecting expected other) := by
    apply Follows.get
    intro st start sameScene
    injection sameScene with _ sameExpected
    rw [sameExpected]
    exact setExpected_follows.bind fun _ => follows.widen.bind fun _ => setExpected_follows
  refine ⟨whole.grows, fun pre inside => ?_, whole.agrees⟩
  obtain ⟨leaves, stillInside, -⟩ := follows.stays { pre with expected } inside
  exact ⟨leaves, stillInside, rfl⟩

theorem checkRoutine_follows :
    Follows .nothing (checkRoutine routine) (checkRoutine routine.simplified) := by
  obtain ⟨span, name, params, res, body⟩ := routine
  cases body with
  | none => exact .pure _
  | some body =>
    have rest (type : Ty) := scope_follows .routine ((defineParameters_follows params).bind fun _ =>
      expecting_follows (some type) (checkBody_follows type body))
    cases res with
    | none => exact rest .void
    | some written => exact resolveSilently_reads.follows.bind rest

theorem declareAll_follows (decls : List Declaration) :
    Follows .everything (declareAll decls) (declareAll (decls.map (·.simplify.value))) := by
  induction decls with
  | nil => exact .pure _
  | cons first rest ih =>
    cases first with
    | var inner => exact ih
    | type inner => exact declareType_follows.widen.bind fun _ => ih
    | routine inner =>
      rw [map_cons, Declaration.simplify_routine, declareAll, declareAll, declareRoutine_simplified]
      exact declareRoutine_follows.bind fun _ => ih

theorem checkAll_follows (decls : List Declaration) :
    Follows .everything (checkAll decls) (checkAll (decls.map (·.simplify.value))) := by
  induction decls with
  | nil => exact .pure _
  | cons first rest ih =>
    cases first with
    | var inner => exact declareVariable_follows.widen.bind fun _ => ih
    | type inner => exact ih
    | routine inner =>
      rw [map_cons, Declaration.simplify_routine, checkAll, checkAll]
      exact checkRoutine_follows.widen.bind fun _ => ih

theorem checkProgram_follows :
    Follows .everything (checkProgram program) (checkProgram program.simplify.value) := by
  rw [checkProgram, checkProgram, Program.declarations_simplify]
  exact (declareAll_follows _).bind fun _ => checkAll_follows _

/--
Simplification keeps types.  A simplified expression that was accepted is accepted, in every state
of the analysis, at the same span and with the same type; so is a program.
-/
theorem simplify_keeps_types :
    (∀ program : Program, program.analyze.diagnostics = [] →
      program.simplify.value.analyze.diagnostics = []) ∧
    ∀ (expression : Expr) (before : Analysis),
      (infer expression before).2.diagnostics = before.diagnostics →
        (infer expression.simplify.value before).2.diagnostics = before.diagnostics ∧
          (infer expression.simplify.value before).1 = (infer expression before).1 ∧
          expression.simplify.value.span = expression.span := by
  constructor
  · intro program accepted
    exact (checkProgram_follows.agrees rfl accepted).1
  · intro expression before quiet
    obtain ⟨stillQuiet, sameType, -⟩ := (infer_follows expression).agrees rfl quiet
    exact ⟨stillQuiet, sameType, Expr.span_simplify⟩

/-- A program of which a branch, a loop and some operators are removed. -/
def decidedText : String :=
  "var limit : integer is 2 * 3\nroutine main() is\nif true or limit > 3 then\n" ++
    "print limit + (1 - 1)\nend\nwhile 1 > 2 loop\nlimit := 1\nend\nend\n"

def decidedExpression : Expr :=
  .binary default .or (.boolean default true)
    (.binary default .greater (.integer default 1) (.integer default 2))

theorem decidedText_accepted :
    ((Program.parse decidedText).value.analyze.diagnostics.isEmpty &&
      (infer decidedExpression Analysis.initial).2.diagnostics.isEmpty) = true := by
  decide +kernel

theorem simplify_keeps_types_of_decidedText :
    (Program.parse decidedText).value.analyze.diagnostics = [] ∧
      (Program.parse decidedText).value.simplify.value.analyze.diagnostics = [] ∧
      (infer decidedExpression Analysis.initial).2.diagnostics = [] ∧
      (infer decidedExpression.simplify.value Analysis.initial).2.diagnostics = [] ∧
      (infer decidedExpression.simplify.value Analysis.initial).1 = .boolean := by
  have accepted := decidedText_accepted
  simp only [Bool.and_eq_true, List.isEmpty_iff] at accepted
  obtain ⟨analyzes, quiet⟩ := accepted
  obtain ⟨programKept, expressionKept⟩ := simplify_keeps_types
  obtain ⟨stillQuiet, sameType, -⟩ := expressionKept decidedExpression Analysis.initial quiet
  exact ⟨analyzes, programKept _ analyzes, quiet, stillQuiet, sameType⟩

end Typing

end Imperative
