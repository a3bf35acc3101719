import Imperative.Real.Binary
import Imperative.Syntax.Expr

/-!
# Computing with literals

What an operator gives on literals, where that is known before the program runs.
Integers are 64 bits wide: a result that does not fit, and any division by zero,
is left to the program.  Reals are computed as doubles, and only finite results
count; two reals are equal when they differ by less than `tolerance`.
-/

namespace Imperative

/-- A literal value. -/
inductive Literal where
  | integer (value : Int)
  | real (value : Float)
  | boolean (value : Bool)

def Expr.literal? : Expr → Option Literal
  | .integer _ value => some (.integer value)
  | .real _ value => some (.real value)
  | .boolean _ value => some (.boolean value)
  | _ => none

namespace Literal

def toExpr (span : Span) : Literal → Expr
  | integer value => .integer span value
  | real value => .real span value
  | boolean value => .boolean span value

def fits (value : Int) : Bool :=
  decide (-9223372036854775808 ≤ value) && decide (value ≤ 9223372036854775807)

def ofInt? (value : Int) : Option Literal :=
  if fits value then some (integer value) else none

def tolerance : Float := 1e-10

def unary? (operator : UnaryOperator) (operand : Literal) : Option Literal :=
  match operator, operand with
  | .plus, integer value => some (integer value)
  | .plus, real value => some (real value)
  | .minus, integer value => ofInt? (-value)
  | .minus, real value => some (real (-value))
  | .not, boolean value => some (boolean !value)
  | _, _ => none

def integers? (operator : BinaryOperator) (left right : Int) : Option Literal :=
  match operator with
  | .add => ofInt? (left + right)
  | .sub => ofInt? (left - right)
  | .mul => ofInt? (left * right)
  | .div => if right = 0 then none else ofInt? (left.tdiv right)
  | .mod =>
    -- A remainder is known only where the quotient is.
    if right = 0 ∨ fits (left.tdiv right) = false then none
    else some (integer (left.tmod right))
  | .less => some (boolean (left < right))
  | .lessEqual => some (boolean (left ≤ right))
  | .greater => some (boolean (right < left))
  | .greaterEqual => some (boolean (right ≤ left))
  | .equal => some (boolean (left = right))
  | .notEqual => some (boolean (left ≠ right))
  | .and | .or | .xor => none

def ofFloat? (value : Float) : Option Literal :=
  if value.isFinite then some (real value) else none

def reals? (operator : BinaryOperator) (left right : Float) : Option Literal :=
  match operator with
  | .add => ofFloat? (left + right)
  | .sub => ofFloat? (left - right)
  | .mul => ofFloat? (left * right)
  | .div => if right == 0.0 then none else ofFloat? (left / right)
  | .mod => if right == 0.0 then none else ofFloat? (Real.remainder left right)
  | .less => some (boolean (left < right))
  | .lessEqual => some (boolean (left ≤ right))
  | .greater => some (boolean (right < left))
  | .greaterEqual => some (boolean (right ≤ left))
  | .equal => some (boolean ((left - right).abs < tolerance))
  | .notEqual => some (boolean (tolerance ≤ (left - right).abs))
  | .and | .or | .xor => none

def booleans? (operator : BinaryOperator) (left right : Bool) : Option Literal :=
  match operator with
  | .and => some (boolean (left && right))
  | .or => some (boolean (left || right))
  | .xor | .notEqual => some (boolean (left != right))
  | .equal => some (boolean (left == right))
  | _ => none

/-- A binary operator on two literals; an integer beside a real is taken as a real. -/
def binary? (operator : BinaryOperator) (left right : Literal) : Option Literal :=
  match left, right with
  | integer left, integer right => integers? operator left right
  | real left, real right => reals? operator left right
  | integer left, real right => reals? operator (Float.ofInt left) right
  | real left, integer right => reals? operator left (Float.ofInt right)
  | boolean left, boolean right => booleans? operator left right
  | _, _ => none

/-- The truth value on the left that decides a logical operator whatever is on its right. -/
def decides (operator : BinaryOperator) (left : Bool) : Bool :=
  match operator with
  | .and => !left
  | .or => left
  | _ => false

end Literal

end Imperative
