import Imperative.Proofs.Lowering.Constants
import Imperative.Proofs.Lowering.Temporaries
import Imperative.Proofs.Simplify.Typing

/-!
# Lowering simplified expressions

Where an expression can be lowered, so can the simplified one, unless folding made an integer
literal that does not fit in 32 bits.  The locals and addresses that the two use may differ.
-/

namespace Imperative.Lowering

open Wasm (Code)

/-- The integer fits in 32 bits. -/
def InRange (value : Int) : Prop := -2147483648 ≤ value ∧ value ≤ 2147483647

/-- The error refuses one of the integers, because it does not fit in 32 bits. -/
inductive Error.IsRange (values : List Int) : Error → Prop
  | intro {span : Span} {value : Int} (isConstant : value ∈ values) (outside : ¬ InRange value) :
      Error.IsRange values (.refuse span (.literalRange value))

/-- The computation gives a value with the property, or one of the integers does not fit. -/
def Yields {α : Type} (values : List Int) (result : Except Error α) (property : α → Prop) : Prop :=
  match result with
  | .ok value => property value
  | .error error => error.IsRange values

variable {values : List Int}

namespace Yields

variable {α β : Type}

theorem of_ok (isOk : result = .ok value) (holds : property value) :
    Yields values result property := by
  rw [isOk]
  exact holds

theorem imp (yields : Yields values result first) (implies : ∀ value, first value → second value) :
    Yields values result second := by
  cases result with
  | ok value => exact implies value yields
  | error error => exact yields

theorem bind (yields : Yields values result first)
    (nextYields : ∀ value, first value → Yields values (next value) second) :
    Yields values (result >>= next) second := by
  cases result with
  | ok value => exact nextYields value yields
  | error error => exact yields

end Yields

theorem literal_yields (span : Span) (isConstant : value ∈ values) :
    Yields values (literal span value) fun _ => True := by
  rw [literal]
  split
  · trivial
  · next outside => exact .intro isConstant outside

/--
Where `step` succeeds `other` does, from any frames, with related results, unless one of the
integers does not fit.
-/
def Mimics {α β : Type} (values : List Int) (step : Emit α) (other : Emit β)
    (relation : α → β → Prop) : Prop :=
  ∀ ⦃pre start : Frame⦄ ⦃value : α⦄ ⦃post : Frame⦄, step pre = .ok (value, post) →
    Yields values (other start) fun result => relation value result.1

namespace Mimics

theorem pure (related : relation value other) :
    Mimics values (Pure.pure value) (Pure.pure other) relation := by
  intro pre start result post isOk
  rcases pure_ok.mp isOk with ⟨rfl, rfl⟩
  exact related

theorem bind (stepMimics : Mimics values step other first)
    (nextMimics : ∀ value result, first value result →
      Mimics values (next value) (otherNext result) second) :
    Mimics values (step >>= next) (other >>= otherNext) second := by
  intro pre start value post isOk
  rcases bind_ok.mp isOk with ⟨mid, frame, stepOk, nextOk⟩
  exact .bind (stepMimics stepOk) fun result related => nextMimics mid result.1 related nextOk

theorem finish {ending : α → γ} {otherEnding : β → δ}
    (stepMimics : Mimics values step other first) :
    Mimics values (step >>= (Pure.pure <| ending ·))
      (other >>= (Pure.pure <| otherEnding ·)) fun _ _ => True :=
  stepMimics.bind fun _ _ _ => .pure trivial

theorem skip (nextMimics : ∀ value, Mimics values (next value) other relation) :
    Mimics values (step >>= next) other relation := by
  intro pre start value post isOk
  rcases bind_ok.mp isOk with ⟨mid, frame, -, nextOk⟩
  exact nextMimics mid nextOk

theorem skipLast (stepMimics : Mimics values step other fun _ _ => True) :
    Mimics values (step >>= next) other fun _ _ => True := by
  intro pre start value post isOk
  rcases bind_ok.mp isOk with ⟨mid, frame, stepOk, -⟩
  exact stepMimics stepOk

theorem lift {computed : Except Error α}
    (yields : ∀ value, computed = .ok value → Yields values other (relation value)) :
    Mimics values (liftM computed) (liftM other) relation := by
  intro pre start value post isOk
  rcases lift_ok.mp isOk with ⟨isComputed, rfl⟩
  have otherYields := yields value isComputed
  cases other with
  | ok | error => exact otherYields

theorem lift_self {computed : Except Error α} :
    Mimics values (liftM computed) (liftM computed) Eq :=
  lift fun _ isComputed => .of_ok isComputed rfl

theorem of_total {other : Emit β} (total : ∀ start, ∃ result, other start = .ok result) :
    Mimics values step other fun _ _ => True := by
  intro pre start value post _
  rcases total start with ⟨result, isOk⟩
  exact .of_ok isOk trivial

end Mimics

theorem acquire_total (start : Frame) : ∃ result, acquire type start = .ok result := by
  cases taken : takeFree type start.free with
  | none => exact ⟨_, acquire_of_none taken⟩
  | some found => exact ⟨_, acquire_of_some taken⟩

theorem acquire_mimics :
    Mimics values (acquire type) (acquire type) fun _ _ => True := .of_total acquire_total

theorem release_mimics : Mimics values (release type index) (release type other) fun _ _ => True :=
  .of_total fun _ => ⟨_, rfl⟩

theorem addLocal_mimics :
    Mimics values (addLocal type) (addLocal type) fun _ _ => True := .of_total fun _ => ⟨_, rfl⟩

theorem realOperation_mimics :
    Mimics values (realOperation op) (realOperation op) fun _ _ => True := by
  cases op with
  | mod =>
    refine acquire_mimics.bind fun _ _ _ => acquire_mimics.bind fun _ _ _ => ?_
    refine release_mimics.bind fun _ _ _ => ?_
    exact release_mimics.finish
  | add | sub | mul | div | less | lessEqual | greater | greaterEqual | equal | notEqual | and | or
  | xor => exact .pure trivial

theorem binaryOperation_mimics (sameLeft : left.2 = otherLeft.2)
    (sameRight : right.2 = otherRight.2) :
    Mimics values (binaryOperation op left right)
      (binaryOperation op otherLeft otherRight) fun value result => value.2 = result.2 := by
  obtain ⟨leftCode, leftType⟩ := left
  obtain ⟨rightCode, rightType⟩ := right
  subst sameLeft sameRight
  simp only [binaryOperation]
  split
  · exact .pure rfl
  · split
    · exact realOperation_mimics.bind fun _ _ _ => .pure rfl
    · exact .pure rfl

/-- Two variables are kept in the same way. -/
inductive Storage.Alike : Storage → Storage → Prop
  | slot (index other : Nat) : Alike (.slot index) (.slot other)
  | global (index other : Nat) : Alike (.global index) (.global other)
  | fixed (addr other : Nat) : Alike (.fixed addr) (.fixed other)
  | pointer (slot other : Nat) : Alike (.pointer slot) (.pointer other)

/-- Two entries of a scope are for the same variable. -/
structure EntryAlike (entry other : String × Variable) : Prop where
  name : entry.1 = other.1
  type : entry.2.type = other.2.type
  storage : entry.2.storage.Alike other.2.storage

/-- Two environments have the same names, kept in the same way. -/
structure Environment.Alike (env other : Environment) : Prop where
  scope : List.Forall₂ EntryAlike env.scope other.scope
  types : env.types = other.types
  routines : env.routines = other.routines
  result : env.result = other.result

variable {env : Environment}

/-- Two operands are values, or places of the same kind, of the same type. -/
inductive Operand.Alike : Operand → Operand → Prop
  | value (type : Ty) : Alike (.value type) (.value type)
  | slot (index other : Nat) (type : Ty) :
    Alike (.place (.slot index) type) (.place (.slot other) type)
  | global (index other : Nat) (type : Ty) :
      Alike (.place (.global index) type) (.place (.global other) type)
  | memory (offset other : UInt32) (type : Ty) :
      Alike (.place (.memory offset) type) (.place (.memory other) type)

variable {step : Emit (Code × Operand)}

theorem Storage.Alike.refl {storage : Storage} : storage.Alike storage := by
  cases storage <;> constructor

theorem Environment.Alike.refl (env : Environment) : env.Alike env where
  scope := List.forall₂_same.mpr fun _ _ => ⟨rfl, rfl, .refl⟩
  types := rfl
  routines := rfl
  result := rfl

theorem Environment.Alike.define (alike : env.Alike other)
    (sameStorage : storage.Alike otherStorage) :
    (env.defineVariable name type storage).Alike (other.defineVariable name type otherStorage) :=
  { alike with scope := .cons ⟨rfl, rfl, sameStorage⟩ alike.scope }

theorem Environment.Alike.resolve (alike : env.Alike other) :
    env.resolve hint written = other.resolve hint written := by
  rw [Environment.resolve, Environment.resolve, alike.types]

theorem Environment.Alike.defineType (alike : env.Alike other) :
    (env.defineType decl).Alike (other.defineType decl) :=
  { alike with
    types := by
      simp only [Environment.defineType, alike.resolve, alike.types] }

theorem lookup_alike (alike : List.Forall₂ EntryAlike scope other)
    (found : scope.lookup name = some kept) :
    ∃ otherKept, other.lookup name = some otherKept ∧ kept.type = otherKept.type ∧
      kept.storage.Alike otherKept.storage := by
  induction alike with
  | nil => cases found
  | @cons entry otherEntry rest otherRest entryAlike _ ih =>
    rw [List.lookup_cons] at found ⊢
    rw [← entryAlike.name]
    split at found
    · cases found
      exact ⟨otherEntry.2, rfl, entryAlike.type, entryAlike.storage⟩
    · exact ih found

theorem load_yields {found other : Operand} (alike : found.Alike other)
    {loaded : Code × Ty} (isOk : found.load span = .ok loaded) :
    Yields values (other.load span) fun result => loaded.2 = result.2 := by
  cases alike with
  | value | slot | global =>
    cases isOk
    exact rfl
  | memory offset other type =>
    simp only [Operand.load] at isOk ⊢
    split at isOk
    · next isAggregate =>
      cases isOk
      rw [if_pos isAggregate]
      exact rfl
    · next notAggregate =>
      rcases except_bind_ok.mp isOk with ⟨valueType, isScalar, isPure⟩
      cases isPure
      rw [if_neg notAggregate, isScalar]
      exact rfl

theorem base_yields {found other : Operand} (alike : found.Alike other)
    (isOk : found.base span = .ok base) :
    Yields values (other.base span) fun result => base.2 = result.2 := by
  cases alike with
  | value type =>
    cases isOk
    exact rfl
  | slot index other type => cases isOk
  | global index other type => cases isOk
  | memory offset other type =>
    simp only [Operand.base] at isOk ⊢
    split at isOk
    · next isAggregate =>
      cases isOk
      rw [if_pos isAggregate]
      exact rfl
    · cases isOk

theorem loaded_yields {found other : Code × Operand} (alike : found.2.Alike other.2)
    (isOk : loaded span found = .ok value) :
    Yields values (loaded span other) fun result => value.2 = result.2 := by
  rcases except_bind_ok.mp isOk with ⟨⟨_, type⟩, isLoad, isPure⟩
  cases isPure
  exact .bind (load_yields alike isLoad) fun _ same => same

theorem loading_mimics
    (mimics : Mimics values step other fun value result => value.2.Alike result.2)
    {next : Code × Ty → Emit α} {otherNext : Code × Ty → Emit β}
    (nextMimics : ∀ value result, value.2 = result.2 →
      Mimics values (next value) (otherNext result) relation) :
    Mimics values (do next (← loaded span (← step))) (do otherNext (← loaded span (← other)))
      relation :=
  mimics.bind fun _ _ alike => (Mimics.lift fun _ => loaded_yields alike).bind nextMimics

theorem variableOperand_yields (alike : env.Alike other)
    (isOk : variableOperand env span name = .ok found) :
    Yields values (variableOperand other span name) fun result => found.2.Alike result.2 := by
  unfold variableOperand at isOk ⊢
  split at isOk
  · cases isOk
  · next type storage isFound =>
    rcases lookup_alike alike.scope isFound with ⟨⟨_, otherStorage⟩, otherFound, rfl, stored⟩
    rw [otherFound]
    cases stored <;> cases isOk <;> constructor

theorem fieldPlace_yields (isOk : fieldPlace span offset type field = .ok found) :
    Yields values (fieldPlace span other type field) fun result => found.Alike result := by
  unfold fieldPlace at isOk ⊢
  split at isOk
  · rcases except_bind_ok.mp isOk with ⟨distance, isOffset, isPure⟩
    cases isPure
    rw [isOffset]
    exact .memory _ _ _
  · cases isOk

theorem operand_toExpr_yields (env : Environment) (literal : Literal) (span : Span)
    (within : (literal.toExpr span).constants ⊆ values) (start : Frame) :
    Yields values (operand env (literal.toExpr span) start) fun result =>
      result.1.2 = .value literal.type := by
  cases literal with
  | integer value =>
    rw [Literal.toExpr, operand]
    have yields := literal_yields span (within (List.mem_singleton_self value))
    generalize Lowering.literal span value = computed at yields ⊢
    cases computed with
    | ok instr => exact rfl
    | error error => exact yields
  | real value => exact rfl
  | boolean value => exact rfl

theorem loading_gives
    (gives : Grants step fun value => value.2 = .value type) {next : Code × Ty → Emit α}
    (nextGrants : ∀ code, Grants (next (code, type)) property) :
    Grants (do next (← loaded span (← step))) property := by
  refine gives.bind fun emitted isVal => ?_
  obtain ⟨code, _⟩ := emitted
  subst isVal
  exact nextGrants (code ++ [])

def operationType (op : BinaryOperator) (left right : Ty) : Ty :=
  if op.isLogical || op.isComparison then .boolean
  else if left.isReal || right.isReal then .real
  else .integer

theorem binaryOperation_gives :
    Grants (binaryOperation op left right) fun value =>
      value.2 = operationType op left.2 right.2 := by
  simp only [binaryOperation, operationType]
  split
  · next isLogical =>
    rw [isLogical]
    exact .pure rfl
  · next notLogical =>
    rw [Bool.eq_false_iff.mpr notLogical]
    split
    · next isReal =>
      refine .skip fun _ => .pure ?_
      cases op.isComparison <;> simp
    · next notReal =>
      refine .pure ?_
      cases op.isComparison <;> simp

theorem type_of_binary? (isResult : Literal.binary? op left right = some result) :
    operationType op left.type right.type = result.type := by
  rcases Typing.binary?_cases isResult with ⟨isArithmetic, leftNumeric, rightNumeric, isType⟩ |
    ⟨isComparison, -, isType⟩ | ⟨isLogical, -, -, isType⟩
  · have notBoolean : (op.isLogical || op.isComparison) = false := by
      cases op <;> cases isArithmetic <;> rfl
    rw [operationType, notBoolean, isType]
    cases left <;> cases leftNumeric <;> cases right <;> cases rightNumeric <;> rfl
  · rw [operationType, isComparison, Bool.or_true, isType]
    rfl
  · rw [operationType, isLogical, isType]
    rfl

/-- What is left of an expression that folds to a literal has the type of the literal. -/
theorem operand_of_literal? (env : Environment) : (value : Expr) → {literal : Literal} →
    value.simplify.value.literal? = some literal →
    Grants (operand env value) fun result => result.2 = .value literal.type
  | .integer span value, _, isLiteral => by
    cases isLiteral
    exact .skip fun _ => .pure rfl
  | .real _ _, _, isLiteral | .boolean _ _, _, isLiteral => by
    cases isLiteral
    exact .pure rfl
  | .name span name, _, isLiteral => by cases isLiteral
  | .field span recv field, _, isLiteral => by
    rw [Expr.simplify_field] at isLiteral
    cases isLiteral
  | .index span recv pos, _, isLiteral => by
    rw [Expr.simplify_index] at isLiteral
    cases isLiteral
  | .call span routine args, _, isLiteral => by
    rw [Expr.simplify_call] at isLiteral
    cases isLiteral
  | .unary span op inner, literal, isLiteral => by
    rw [Expr.simplify_unary] at isLiteral
    split at isLiteral
    · next result isFolded =>
      rw [Literal.literal?_toExpr, Option.some.injEq] at isLiteral
      subst isLiteral
      rcases Option.bind_eq_some_iff.mp isFolded with ⟨innerLit, isInner, isResult⟩
      have innerGives := operand_of_literal? env inner isInner
      cases op with
      | plus =>
        refine loading_gives innerGives fun _ => .pure ?_
        cases innerLit <;> cases isResult <;> rfl
      | minus =>
        have isNegated : result.type = innerLit.type := by
          cases innerLit with
          | integer value => exact Literal.type_of_ofInt? isResult
          | real value =>
            cases isResult
            rfl
          | boolean value => cases isResult
        rcases minus_cases env _ inner with ⟨place, value, rfl⟩ | isMinus
        · cases isInner
          exact .skip fun _ => .pure (congrArg Operand.value isNegated.symm)
        · rw [isMinus, isNegated]
          exact loading_gives innerGives fun _ => .pure rfl
      | not =>
        refine loading_gives innerGives fun _ => .pure ?_
        cases innerLit <;> cases isResult
        rfl
    · cases isLiteral
  | .binary span op left right, literal, isLiteral => by
    rw [Expr.simplify_binary] at isLiteral
    split at isLiteral
    · next value isDecided =>
      cases isLiteral
      obtain ⟨-, decides⟩ := Expr.eq_boolean_of_decided? isDecided
      have isBoolean : ∀ leftType rightType, operationType op leftType rightType = .boolean := by
        intro leftType rightType
        rw [operationType, Literal.isLogical_of_decides decides]
        rfl
      refine .skip fun _ => .skip fun _ => .skip fun _ => .skip fun _ => ?_
      refine binaryOperation_gives.bind fun emitted isType => .pure ?_
      rw [isType, isBoolean]
      rfl
    · split at isLiteral
      · next result isFolded =>
        rw [Literal.literal?_toExpr, Option.some.injEq] at isLiteral
        subst isLiteral
        rcases Option.bind_eq_some_iff.mp isFolded with ⟨leftLit, isLeft, isRest⟩
        rcases Option.bind_eq_some_iff.mp isRest with ⟨rightLit, isRight, isResult⟩
        refine loading_gives (operand_of_literal? env left isLeft) fun leftCode => ?_
        refine loading_gives (operand_of_literal? env right isRight) fun rightCode => ?_
        refine binaryOperation_gives.bind fun emitted isType => .pure ?_
        rw [isType, type_of_binary? isResult]
      · cases isLiteral

theorem Mimics.of_gives {other : Emit (Code × Operand)}
    (gives : Grants step fun value => value.2 = .value type)
    (yields : ∀ start, Yields values (other start) fun result => result.1.2 = .value type) :
    Mimics values step other fun value result => value.2.Alike result.2 := by
  intro pre start value post isOk
  refine (yields start).imp fun result isResult => ?_
  show value.2.Alike result.1.2
  rw [gives _ _ _ isOk, isResult]
  exact .value type

theorem operand_mimics_of_literal?
    {literal : Literal} (isLiteral : value.simplify.value.literal? = some literal)
    (within : value.simplify.value.constants ⊆ values) :
    Mimics values (operand env value) (operand other value.simplify.value)
      fun value result => value.2.Alike result.2 := by
  rw [Literal.toExpr_of_literal? isLiteral] at within ⊢
  exact .of_gives (operand_of_literal? env value isLiteral)
    (operand_toExpr_yields other literal _ within)

theorem minus_mimics {inner : Expr}
    (within : (Expr.unary span .minus inner.simplify.value).constants ⊆ values)
    (innerMimics : inner.simplify.value.constants ⊆ values →
      Mimics values (operand env inner) (operand other inner.simplify.value)
        fun value result => value.2.Alike result.2) :
    Mimics values (operand env (.unary span .minus inner))
      (operand other (.unary span .minus inner.simplify.value)) fun value result =>
        value.2.Alike result.2 := by
  by_cases wasInteger : ∃ place value, inner = .integer place value
  · rcases wasInteger with ⟨place, value, rfl⟩
    exact Mimics.lift_self.bind fun _ _ _ => .pure (.value _)
  · have notInteger : ∀ place value, inner ≠ .integer place value :=
      fun place value same => wasInteger ⟨place, value, same⟩
    rw [operand_minus notInteger]
    by_cases isInteger : ∃ place value, inner.simplify.value = .integer place value
    · rcases isInteger with ⟨place, value, isInteger⟩
      have isLiteral : inner.simplify.value.literal? = some (.integer value) := by
        rw [isInteger]
        rfl
      have gives := operand_of_literal? env inner isLiteral
      refine .of_gives (loading_gives gives fun _ => .pure rfl) fun start => ?_
      rw [isInteger, Expr.constants] at within
      rw [isInteger, operand]
      have yields := literal_yields place (within (List.mem_singleton_self _))
      generalize literal place (min (-value) greatestInteger) = computed at yields ⊢
      cases computed with
      | ok instr => exact rfl
      | error error => exact yields
    · have staysOpen : ∀ place value, inner.simplify.value ≠ .integer place value :=
        fun place value same => isInteger ⟨place, value, same⟩
      rw [Expr.constants_unary fun _ => staysOpen] at within
      rw [operand_minus staysOpen, Expr.span_simplify]
      refine loading_mimics (innerMimics within) fun value result same => .pure ?_
      rw [same]
      exact .value _

mutual

/-- A simplified expression is lowered where the expression is, unless a literal does not fit. -/
theorem operand_mimics {other : Environment} (alike : env.Alike other) :
    (value : Expr) → value.simplify.value.constants ⊆ values →
      Mimics values (operand env value) (operand other value.simplify.value)
        fun value result => value.2.Alike result.2
  | .integer _ _, within | .real _ _, within | .boolean _ _, within =>
    operand_mimics_of_literal? rfl within
  | .name span name, _ => .lift fun _ => variableOperand_yields alike
  | .field span recv field, within => by
    rw [Expr.simplify_field, Expr.constants] at within
    rw [Expr.simplify_field, operand, operand, Expr.span_simplify]
    refine (operand_mimics alike recv within).bind fun found result baseAlike => ?_
    refine (Mimics.lift fun _ => base_yields baseAlike).bind fun base otherBase sameType => ?_
    obtain ⟨offset, type⟩ := base
    obtain ⟨otherOffset, _⟩ := otherBase
    subst sameType
    refine (Mimics.lift fun _ => fieldPlace_yields).bind fun _ _ placeAlike => .pure placeAlike
  | .index span recv pos, within => by
    rw [Expr.simplify_index, Expr.constants, List.append_subset] at within
    rw [Expr.simplify_index, operand, operand, Expr.span_simplify, Expr.span_simplify]
    refine (operand_mimics alike recv within.1).bind fun found result baseAlike => ?_
    refine (Mimics.lift fun _ => base_yields baseAlike).bind fun base otherBase sameType => ?_
    obtain ⟨offset, type⟩ := base
    obtain ⟨otherOffset, _⟩ := otherBase
    subst sameType
    refine Mimics.lift_self.bind fun element _ sameElement => ?_
    subst sameElement
    refine Mimics.lift_self.bind fun _ _ _ => ?_
    refine acquire_mimics.bind fun _ _ _ => ?_
    refine loading_mimics (operand_mimics alike pos within.2) fun _ _ _ => ?_
    refine acquire_mimics.bind fun _ _ _ => ?_
    refine release_mimics.bind fun _ _ _ => ?_
    refine release_mimics.bind fun _ _ _ => ?_
    exact .pure (.memory _ _ _)
  | .call span name args, within => by
    rw [Expr.simplify_call, Expr.constants] at within
    rw [Expr.simplify_call, operand, operand, List.length_map]
    have sameCallee : callee other span name args.length = callee env span name args.length := by
      rw [callee, callee, alike.routines]
    rw [sameCallee]
    refine Mimics.lift_self.bind fun found _ sameFound => ?_
    subst sameFound
    obtain ⟨index, info⟩ := found
    exact (argumentCode_mimics alike args within info.parameters).bind fun _ _ _ => .pure (.value _)
  | .unary span op inner, within => by
    have innerMimics := operand_mimics alike inner
    cases isLiteral : (Expr.unary span op inner).simplify.value.literal? with
    | some literal => exact operand_mimics_of_literal? isLiteral within
    | none =>
      rw [Expr.simplify_unary_of_open isLiteral] at within ⊢
      cases op with
      | minus => exact minus_mimics within innerMimics
      | plus =>
        rw [operand, operand, Expr.span_simplify]
        refine loading_mimics (innerMimics within) fun _ _ same => .pure ?_
        rw [same]
        exact .value _
      | not =>
        rw [operand, operand, Expr.span_simplify]
        exact loading_mimics (innerMimics within) fun _ _ _ => .pure (.value _)
  | .binary span op left right, within => by
    have leftMimics := operand_mimics alike left
    have rightMimics := operand_mimics alike right
    cases isLiteral : (Expr.binary span op left right).simplify.value.literal? with
    | some literal => exact operand_mimics_of_literal? isLiteral within
    | none =>
      rw [Expr.simplify_binary_of_open isLiteral] at within ⊢
      rw [Expr.constants, List.append_subset] at within
      rw [operand, operand, Expr.span_simplify, Expr.span_simplify]
      refine loading_mimics (leftMimics within.1) fun _ _ sameLeft => ?_
      refine loading_mimics (rightMimics within.2) fun _ _ sameRight => ?_
      refine (binaryOperation_mimics sameLeft sameRight).bind fun value result same => .pure ?_
      rw [same]
      exact .value _

theorem argumentCode_mimics {other : Environment} (alike : env.Alike other) :
    (args : List Expr) →
      Expr.constantsOf (args.map (·.simplify.value)) ⊆ values →
      (params : List Ty) → Mimics values (argumentCode env args params)
        (argumentCode other (args.map (·.simplify.value)) params)
        fun _ _ => True
  | [], _, _ => by
    rw [List.map_nil, argumentCode, argumentCode]
    · exact .pure trivial
    · nofun
    · nofun
  | _ :: _, _, [] => by
    rw [argumentCode, argumentCode]
    · exact .pure trivial
    · nofun
    · nofun
  | argument :: args, within, param :: params => by
    rw [List.map_cons, Expr.constantsOf, List.append_subset] at within
    rw [List.map_cons, argumentCode, argumentCode, Expr.span_simplify]
    refine loading_mimics (operand_mimics alike argument within.1) fun _ _ _ => ?_
    exact (argumentCode_mimics alike args within.2 params).finish

end

section Values

variable {env other : Environment} (alike : env.Alike other)

include alike

theorem expression_mimics {value : Expr} (within : value.simplify.value.constants ⊆ values) :
    Mimics values (expression env value) (expression other value.simplify.value)
      fun value result => value.2 = result.2 := by
  rw [expression, expression, Expr.span_simplify]
  exact (operand_mimics alike value within).bind fun _ _ same => .lift fun _ => loaded_yields same

theorem target_mimics (within : place.simplify.value.constants ⊆ values) :
    Mimics values (target env place) (target other place.simplify.value)
      fun value result =>
        (Operand.place value.2.1 value.2.2).Alike (.place result.2.1 result.2.2) := by
  simp only [target, Expr.isPlace_simplify, Expr.span_simplify]
  split
  · refine (operand_mimics alike place within).bind fun found result same => ?_
    obtain ⟨code, operand⟩ := found
    obtain ⟨otherCode, otherOperand⟩ := result
    cases same with
    | value type => exact fun _ _ _ _ isOk => by cases isOk
    | slot index other type => exact .pure (.slot _ _ _)
    | global index other type => exact .pure (.global _ _ _)
    | memory offset other type => exact .pure (.memory _ _ _)
  · exact fun _ _ _ _ isOk => by cases isOk

end Values

end Imperative.Lowering
