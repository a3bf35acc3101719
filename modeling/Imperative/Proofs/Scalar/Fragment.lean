import Imperative.Proofs.Scalar.Semantics

/-!
# Scalar code

Which code works on integers and booleans only, calls no routine and never assigns to the
iterator of a loop.
-/

namespace Imperative.Scalar

/-- The kind of a variable. -/
def variableKind? (names : Typing.Context) (name : String) : Option Kind := match names name with
  | some (.var type) => Kind.ofType? type
  | _ => none

/-- The kind of an expression; only integers are negated. -/
def kind? (names : Typing.Context) : Expr → Option Kind
  | .integer _ _ => some .integer
  | .boolean _ _ => some .boolean
  | .name _ name => variableKind? names name
  | .unary _ .plus operand => kind? names operand
  | .unary _ .minus operand =>
    match kind? names operand with
    | some .integer => some .integer
    | _ => none
  | .unary _ .not operand => (kind? names operand).map fun _ => .boolean
  | .binary _ op left right =>
    match kind? names left, kind? names right with
    | some _, some _ => some (if op.isArithmetic then .integer else .boolean)
    | _, _ => none
  | .real _ _ | .field _ _ _ | .index _ _ _ | .call _ _ _ => none

/-- The expression is scalar. -/
def scalarExpr (names : Typing.Context) (val : Expr) : Bool := (kind? names val).isSome

/-- The kind of a variable that is declared. -/
def declKind? (names : Typing.Context) : VarDecl → Option Kind
  | .mk _ _ (some type) init =>
    if init.all (scalarExpr names) then writtenKind? names type else none
  | .mk _ _ none (some val) => kind? names val
  | .mk _ _ none none => none

/-- The target is a variable, and no iterator. -/
def scalarTarget (names : Typing.Context) (iterators : List String) : Expr → Bool
  | .name _ name => (variableKind? names name).isSome && decide (name ∉ iterators)
  | _ => false

mutual

/-- Whether the statement is scalar in a routine with the result, inside of the iterators. -/
def scalarStatement (result : Option Kind) (names : Typing.Context) (iterators : List String) :
    Statement → Bool
  | .assign _ tgt val => scalarTarget names iterators tgt && scalarExpr names val
  | .branch _ test consequent alternative =>
    scalarExpr names test && scalarBlock result names iterators consequent && match alternative with
      | some alternative => scalarBlock result names iterators alternative
      | none => true
  | .whileLoop _ test body => scalarExpr names test && scalarBlock result names iterators body
  | .rangeLoop _ iter first last _ body =>
    scalarExpr names first && scalarExpr names last &&
      scalarBlock result (names.define iter (.var .integer)) (iter :: iterators) body
  | .giveBack _ none => result.isNone
  | .giveBack _ (some val) => result.isSome && scalarExpr names val
  | .print _ values => values.all (scalarExpr names)
  | .empty _ => true
  | .block _ inner => scalarBlock result names iterators inner
  | .call _ _ _ | .arrayLoop _ _ _ _ _ => false

/-- The block is scalar. -/
def scalarBlock (result : Option Kind) (names : Typing.Context) (iterators : List String) :
    Block → Bool
  | .mk _ items => scalarItems result names iterators items

/-- Whether the items of a block are scalar.  A variable hides an iterator of its name. -/
def scalarItems (result : Option Kind) (names : Typing.Context) (iterators : List String) :
    List Item → Bool
  | [] => true
  | .declaration (.var decl) :: rest =>
    match declKind? names decl with
    | some kind =>
      scalarItems result (names.define decl.name (.var kind.type))
        (iterators.filter (· ≠ decl.name)) rest
    | none => false
  | .declaration (.type decl) :: rest =>
    match writtenKind? names decl.type with
    | some kind => scalarItems result (names.define decl.name (.type kind.type)) iterators rest
    | none => false
  | .declaration (.routine _) :: _ => false
  | .statement first :: rest =>
    scalarStatement result names iterators first && scalarItems result names iterators rest

end

/-- The body is scalar. -/
def scalarBody (result : Option Kind) (names : Typing.Context) : Body → Bool
  | .expression val => scalarExpr names val
  | .block inner => scalarBlock result names [] inner

/-- The kind of a result, if there is one. -/
def resultKind? : Ty → Option (Option Kind)
  | .void => some none
  | type => (Kind.ofType? type).map some

/-- How a scalar routine is called. -/
structure Shape where
  parameters : List (String × Kind)
  result : Option Kind

namespace Shape

def typed (shape : Shape) : List (String × Ty) :=
  shape.parameters.map fun param => (param.1, param.2.type)

end Shape

/-- The shape of a scalar signature. -/
def shape? (sig : Typing.Signature) : Option Shape := do
  let parameters ← sig.parameters.mapM fun (name, type) => (name, ·) <$> Kind.ofType? type
  let result ← resultKind? sig.result
  return { parameters, result }

/-- The shape and the body of a scalar routine. -/
def scalarRoutine? (names : Typing.Context) (routine : Routine) : Option (Shape × Body) :=
  match names routine.name, routine.body with
  | some (.routine sig), some body =>
    match shape? sig with
    | some shape =>
      if scalarBody shape.result (names.defineAll shape.typed) body then some (shape, body)
      else none
    | none => none
  | _, _ => none

end Imperative.Scalar
