import Imperative.Proofs.Typing.Resolution
import Imperative.Typing.Expression
import Mathlib.Data.List.Forall2

/-!
# The typing rules

The rules stand apart from any order in which an analysis applies them.  `Converts source target`
is left open: it is asked wherever a value of one type is used as a value of another.
-/

namespace Imperative.Typing

/-- What each name stands for. -/
abbrev Context := String → Option Symbol

namespace Context

/-- The basic types. -/
def basic : Context :=
  fun name => (PrimitiveName.ofSpelling? name).map fun primitive => .type (primitiveType primitive)

/-- The context with another name. -/
def define (name : String) (sym : Symbol) (ctx : Context) : Context :=
  fun other => if other = name then some sym else ctx other

/-- The context after the declarations of variables, the first one first. -/
def defineAll : List (String × Ty) → Context → Context
  | [], ctx => ctx
  | (name, type) :: rest, ctx => defineAll rest (define name (.var type) ctx)

/-- The type of a name. -/
def typeNamed (ctx : Context) (name : String) : Option Ty := match ctx name with
  | some (.type type) => some type
  | _ => none

@[simp]
theorem define_same : define name sym ctx name = some sym := by
  simp [define]

theorem define_other (different : other ≠ name) : define name sym ctx other = ctx other := by
  simp [define, different]

theorem define_found (found : ctx name = some sym) : define name sym ctx = ctx := by
  funext other
  rw [define]
  split
  · next same => rw [same, found]
  · rfl

theorem define_comm (different : name ≠ other) :
    define name sym (define other found ctx) = define other found (define name sym ctx) := by
  funext sought
  unfold define
  grind

theorem define_eq_some : define name sym ctx other = some found ↔
    other = name ∧ sym = found ∨ other ≠ name ∧ ctx other = some found := by
  unfold define
  split <;> simp_all

theorem typeNamed_eq_some {ctx : Context} :
    ctx.typeNamed name = some type ↔ ctx name = some (.type type) := by
  unfold typeNamed
  split <;> simp_all

end Context

/-- The written type resolves to the type without a problem. -/
structure Resolves (ctx : Context) (hint : Option String) (written : TypeExpr) (type : Ty) :
    Prop where
  wellNamed : written.WellNamed
  clean : (resolve ctx.typeNamed hint written).problems = []
  value : (resolve ctx.typeNamed hint written).value = type

section Rules

variable (Converts : Ty → Ty → Prop)

mutual

/-- The expression has the type. -/
inductive HasType (ctx : Context) : Expr → Ty → Prop
  | integer : HasType ctx (.integer span value) .integer
  | real : HasType ctx (.real span value) .real
  | boolean : HasType ctx (.boolean span value) .boolean
  | name (found : ctx name = some (.var type)) : HasType ctx (.name span name) type
  | field (receiverTyped : HasType ctx recv (.record label fields))
      (found : Ty.field? fields field = some type) : HasType ctx (.field span recv field) type
  | index (receiverTyped : HasType ctx recv (.array element size))
      (positionTyped : HasType ctx pos found) (converts : Converts found .integer) :
      HasType ctx (.index span recv pos) element
  | call (found : ctx name = some (.routine sig))
      (fits : Fits ctx args (sig.parameters.map Prod.snd)) :
      HasType ctx (.call span name args) sig.result
  | sign (signed : op ≠ UnaryOperator.not) (operandTyped : HasType ctx operand type)
      (numeric : type.isNumeric = true) : HasType ctx (.unary span op operand) type
  | not (operandTyped : HasType ctx operand found) (converts : Converts found .boolean) :
      HasType ctx (.unary span .not operand) .boolean
  | logical {op : BinaryOperator} (logical : op.isLogical = true)
      (leftTyped : HasType ctx left leftType)
      (leftConverts : Converts leftType .boolean) (rightTyped : HasType ctx right rightType)
      (rightConverts : Converts rightType .boolean) :
      HasType ctx (.binary span op left right) .boolean
  | arithmetic {op : BinaryOperator} (arithmetic : op.isArithmetic = true)
      (leftTyped : HasType ctx left leftType)
      (leftNumeric : leftType.isNumeric = true) (rightTyped : HasType ctx right rightType)
      (rightNumeric : rightType.isNumeric = true) :
      HasType ctx (.binary span op left right)
        (if leftType.isInteger && rightType.isInteger then .integer else .real)
  | comparison {op : BinaryOperator} (comparison : op.isComparison = true)
      (leftTyped : HasType ctx left leftType) (rightTyped : HasType ctx right rightType)
      (comparable : comparable leftType rightType = true) :
      HasType ctx (.binary span op left right) .boolean

/-- The arguments are as many as the parameters, and each can be used as its parameter. -/
inductive Fits (ctx : Context) : List Expr → List Ty → Prop
  | nil : Fits ctx [] []
  | cons (argumentTyped : HasType ctx arg found) (converts : Converts found expected)
      (rest : Fits ctx args parameters) :
      Fits ctx (arg :: args) (expected :: parameters)

end

/-- The declared variable gets the type. -/
inductive VarTyped (ctx : Context) : VarDecl → Ty → Prop
  | declared (resolves : Resolves ctx none written type) :
      VarTyped ctx (.mk span name (some written) none) type
  | initialized (resolves : Resolves ctx none written type)
      (valueTyped : HasType Converts ctx value found) (converts : Converts found type) :
      VarTyped ctx (.mk span name (some written) (some value)) type
  | inferred (valueTyped : HasType Converts ctx value type) (hasValue : type.isVoid = false) :
      VarTyped ctx (.mk span name none (some value)) type

mutual

/-- The statement is well typed in a routine with the result. -/
inductive StatementTyped (result : Ty) : Context → Statement → Prop
  | assign {place : Expr} (isPlace : place.isPlace = true)
      (placeTyped : HasType Converts ctx place type) (valueTyped : HasType Converts ctx value found)
      (converts : Converts found type) : StatementTyped result ctx (.assign span place value)
  | call (callTyped : HasType Converts ctx (.call span name args) type) :
      StatementTyped result ctx (.call span name args)
  | branch (testTyped : HasType Converts ctx test found) (converts : Converts found .boolean)
      (consequentTyped : BlockTyped result ctx consequent)
      (alternativeTyped : ∀ block, alternative = some block → BlockTyped result ctx block) :
      StatementTyped result ctx (.branch span test consequent alternative)
  | whileLoop (testTyped : HasType Converts ctx test found) (converts : Converts found .boolean)
      (bodyTyped : BlockTyped result ctx body) :
      StatementTyped result ctx (.whileLoop span test body)
  | rangeLoop (firstTyped : HasType Converts ctx first firstType)
      (firstConverts : Converts firstType .integer) (lastTyped : HasType Converts ctx last lastType)
      (lastConverts : Converts lastType .integer)
      (bodyTyped : BlockTyped result (Context.define iter (.var .integer) ctx) body) :
      StatementTyped result ctx (.rangeLoop span iter first last dir body)
  | arrayLoop (arrayTyped : HasType Converts ctx array (.array element size))
      (bodyTyped : BlockTyped result (Context.define iter (.var element) ctx) body) :
      StatementTyped result ctx (.arrayLoop span iter array dir body)
  | giveBackNothing (isVoid : result.isVoid = true) :
      StatementTyped result ctx (.giveBack span none)
  | giveBack (hasResult : result.isVoid = false)
      (valueTyped : HasType Converts ctx value found) (converts : Converts found result) :
      StatementTyped result ctx (.giveBack span (some value))
  | print {items : List Expr}
      (itemsTyped : ∀ item ∈ items, ∃ type, HasType Converts ctx item type ∧
        type.isVoid = false ∧ type.isAggregate = false) :
      StatementTyped result ctx (.print span items)
  | empty : StatementTyped result ctx (.empty span)
  | block (innerTyped : BlockTyped result ctx blk) : StatementTyped result ctx (.block span blk)

/-- The block is well typed in a routine with the result. -/
inductive BlockTyped (result : Ty) : Context → Block → Prop
  | mk (itemsTyped : ItemsTyped result ctx items) : BlockTyped result ctx (.mk span items)

/-- The items of a block are well typed one after the other. -/
inductive ItemsTyped (result : Ty) : Context → List Item → Prop
  | nil : ItemsTyped result ctx []
  | var (declTyped : VarTyped Converts ctx decl type)
      (restTyped : ItemsTyped result (Context.define decl.name (.var type) ctx) rest) :
      ItemsTyped result ctx (.declaration (.var decl) :: rest)
  | type {decl : TypeDecl}
      (resolves : Resolves ctx (some decl.name) decl.type type)
      (restTyped : ItemsTyped result (Context.define decl.name (.type type) ctx) rest) :
      ItemsTyped result ctx (.declaration (.type decl) :: rest)
  | statement (firstTyped : StatementTyped result ctx first)
      (restTyped : ItemsTyped result ctx rest) : ItemsTyped result ctx (.statement first :: rest)

end

/-- The body is well typed in a routine with the result. -/
inductive BodyTyped (ctx : Context) (result : Ty) : Body → Prop
  | discarded (valueTyped : HasType Converts ctx value found) (isVoid : result.isVoid = true) :
      BodyTyped ctx result (.expression value)
  | expression (valueTyped : HasType Converts ctx value found) (hasResult : result.isVoid = false)
      (converts : Converts found result) : BodyTyped ctx result (.expression value)
  | block (innerTyped : BlockTyped Converts result ctx blk) : BodyTyped ctx result (.block blk)

/-- The routine is well typed with the signature that is declared for it. -/
inductive RoutineTyped (ctx : Context) : Routine → Prop
  | forward (noBody : routine.body = none) : RoutineTyped ctx routine
  | defined {routine : Routine} {sig : Signature} {body : Body} (hasBody : routine.body = some body)
      (declared : ctx routine.name = some (.routine sig))
      (bodyTyped : BodyTyped Converts (Context.defineAll sig.parameters ctx) sig.result body) :
      RoutineTyped ctx routine

/-- The declaration of the routine has the signature. -/
structure Declares (ctx : Context) (routine : Routine) (sig : Signature) : Prop where
  parameters : List.Forall₂
    (fun (param : Parameter) (declared : String × Ty) =>
      declared.1 = param.name ∧ Resolves ctx none param.type declared.2)
    routine.parameters sig.parameters
  result : ∀ written, routine.result = some written → Resolves ctx none written sig.result
  noResult : routine.result = none → sig.result = .void
  hasBody : sig.hasBody = !routine.isForward

/--
The types and routines of a program, declared in order, lead from one context to another.  Of
the declarations of one routine, at most one has a body, and its signature is the one that
counts.
-/
inductive Declared : Context → List Declaration → Context → Prop
  | nil : Declared ctx [] ctx
  | var {rest : List Declaration} (restDeclared : Declared ctx rest final) :
      Declared ctx (.var decl :: rest) final
  | type {decl : TypeDecl} {type : Ty} {rest : List Declaration} (fresh : ctx decl.name = none)
      (resolves : Resolves ctx (some decl.name) decl.type type)
      (restDeclared : Declared (Context.define decl.name (.type type) ctx) rest final) :
      Declared ctx (.type decl :: rest) final
  | routine {routine : Routine} {sig : Signature} {rest : List Declaration}
      (fresh : ctx routine.name = none) (declares : Declares ctx routine sig)
      (restDeclared : Declared (Context.define routine.name (.routine sig) ctx) rest final) :
      Declared ctx (.routine routine :: rest) final
  | repeated {routine : Routine} {existing sig : Signature} {rest : List Declaration}
      (known : ctx routine.name = some (.routine existing)) (declares : Declares ctx routine sig)
      (agrees : existing.agrees sig = true) (isForward : sig.hasBody = false)
      (restDeclared : Declared ctx rest final) : Declared ctx (.routine routine :: rest) final
  | completed {routine : Routine} {existing sig : Signature} {rest : List Declaration}
      (known : ctx routine.name = some (.routine existing)) (incomplete : existing.hasBody = false)
      (declares : Declares ctx routine sig) (agrees : existing.agrees sig = true)
      (hasBody : sig.hasBody = true)
      (restDeclared : Declared (Context.define routine.name (.routine sig) ctx) rest final) :
      Declared ctx (.routine routine :: rest) final

/--
The variables and routines of a program, checked in order, lead from one context to another.
What is asked of a routine is left open.
-/
inductive Checked (RoutineChecked : Context → Routine → Prop) :
    Context → List Declaration → Context → Prop
  | nil : Checked RoutineChecked ctx [] ctx
  | var {decl : VarDecl} {type : Ty} {rest : List Declaration} (fresh : ctx decl.name = none)
      (declTyped : VarTyped Converts ctx decl type)
      (restChecked : Checked RoutineChecked (Context.define decl.name (.var type) ctx) rest final) :
      Checked RoutineChecked ctx (.var decl :: rest) final
  | type {rest : List Declaration} (restChecked : Checked RoutineChecked ctx rest final) :
      Checked RoutineChecked ctx (.type decl :: rest) final
  | routine {routine : Routine} {rest : List Declaration}
      (routineChecked : RoutineChecked ctx routine)
      (restChecked : Checked RoutineChecked ctx rest final) :
      Checked RoutineChecked ctx (.routine routine :: rest) final

end Rules

end Imperative.Typing

/-- The declarations of the program obey the rules. -/
def Imperative.Program.WellTyped (Converts : Imperative.Ty → Imperative.Ty → Prop)
    (program : Imperative.Program) : Prop :=
  ∃ declared final,
    Imperative.Typing.Declared Imperative.Typing.Context.basic program.declarations declared ∧
      Imperative.Typing.Checked Converts (Imperative.Typing.RoutineTyped Converts) declared
        program.declarations final
