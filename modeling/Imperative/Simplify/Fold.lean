import Imperative.Simplify.Literal

/-!
# Constant folding

`Expr.fold` replaces operators on literals by their value, from the leaves up.  A
logical operator that its left operand decides is folded whatever stands on its right.
The result says whether anything changed: it is `none` for an expression in which
nothing was folded.  A `Tally` counts what was done.
-/

namespace Imperative

/-- A value, and how many expressions were folded and statements removed to reach it. -/
structure Tally (α : Type) where
  value : α
  folded : Nat
  removed : Nat

namespace Tally

instance : Monad Tally where
  pure value := { value, folded := 0, removed := 0 }
  bind tally next :=
    let after := next tally.value
    { value := after.value
      folded := tally.folded + after.folded
      removed := tally.removed + after.removed }

def fold {α : Type} (value : α) : Tally α :=
  { value, folded := 1, removed := 0 }

def remove {α : Type} (value : α) : Tally α :=
  { value, folded := 0, removed := 1 }

end Tally

namespace Expr

def decided? (operator : BinaryOperator) (left : Expr) : Option Bool :=
  match left with
  | boolean _ value => if Literal.decides operator value then some value else none
  | _ => none

def foldUnary? (operator : UnaryOperator) (operand : Expr) : Option Literal :=
  operand.literal?.bind (Literal.unary? operator)

def foldBinary? (operator : BinaryOperator) (left right : Expr) : Option Literal :=
  left.literal?.bind fun left => right.literal?.bind (Literal.binary? operator left)

mutual

/-- Fold an expression; `none` if nothing in it can be folded. -/
def fold : Expr → Tally (Option Expr)
  | integer _ _ | real _ _ | boolean _ _ | name _ _ => pure none
  | field span receiver identifier => do
    let newReceiver ← fold receiver
    return newReceiver.map fun receiver => field span receiver identifier
  | index span receiver position => do
    let newReceiver ← fold receiver
    let newPosition ← fold position
    match newReceiver, newPosition with
    | none, none => return none
    | _, _ => return some (index span (newReceiver.getD receiver) (newPosition.getD position))
  | call span routine arguments => do
    let newArguments ← foldAll arguments
    return newArguments.map (call span routine)
  | unary span operator operand => do
    let newOperand ← fold operand
    match foldUnary? operator (newOperand.getD operand) with
    | some literal => Tally.fold (some (literal.toExpr span))
    | none => return newOperand.map (unary span operator)
  | binary span operator left right => do
    let newLeft ← fold left
    match decided? operator (newLeft.getD left) with
    | some value => Tally.fold (some (boolean span value))
    | none =>
      let newRight ← fold right
      match foldBinary? operator (newLeft.getD left) (newRight.getD right) with
      | some literal => Tally.fold (some (literal.toExpr span))
      | none =>
        match newLeft, newRight with
        | none, none => return none
        | _, _ => return some (binary span operator (newLeft.getD left) (newRight.getD right))

/-- Fold a list of expressions; `none` if nothing in it can be folded. -/
def foldAll : List Expr → Tally (Option (List Expr))
  | [] => pure none
  | first :: rest => do
    let newFirst ← fold first
    let newRest ← foldAll rest
    match newFirst, newRest with
    | none, none => return none
    | _, _ => return some (newFirst.getD first :: newRest.getD rest)

end

def simplify (expr : Expr) : Tally Expr := do
  return (← expr.fold).getD expr

def simplifyAll (exprs : List Expr) : Tally (List Expr) := do
  return (← foldAll exprs).getD exprs

def simplify? : Option Expr → Tally (Option Expr)
  | none => pure none
  | some expr => do return some (← expr.simplify)

end Expr

end Imperative
