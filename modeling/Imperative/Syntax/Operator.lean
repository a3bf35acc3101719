import Imperative.Token.Kind

/-!
# Operators

The unary and binary operators, their spelling, the token each is written with and
how tightly it binds.  Every binary operator associates to the left: its right
binding power is one more than its left one.
-/

namespace Imperative

/-- The operators with one operand. -/
inductive UnaryOperator where
  | plus
  | minus
  | not
  deriving DecidableEq

namespace UnaryOperator

def spelling : UnaryOperator → String
  | plus => "+"
  | minus => "-"
  | not => "not"

def ofToken? : Token.Kind → Option UnaryOperator
  | .symbol .plus => some plus
  | .symbol .minus => some minus
  | .keyword .notWord => some not
  | _ => none

def operandPower : Nat := 6

end UnaryOperator

/-- The operators with two operands. -/
inductive BinaryOperator where
  | add
  | sub
  | mul
  | div
  | mod
  | less
  | lessEqual
  | greater
  | greaterEqual
  | equal
  | notEqual
  | and
  | or
  | xor
  deriving DecidableEq

namespace BinaryOperator

def spelling : BinaryOperator → String
  | add => "+"
  | sub => "-"
  | mul => "*"
  | div => "/"
  | mod => "%"
  | less => "<"
  | lessEqual => "<="
  | greater => ">"
  | greaterEqual => ">="
  | equal => "="
  | notEqual => "/="
  | and => "and"
  | or => "or"
  | xor => "xor"

def isArithmetic : BinaryOperator → Bool
  | add | sub | mul | div | mod => true
  | _ => false

def isComparison : BinaryOperator → Bool
  | less | lessEqual | greater | greaterEqual | equal | notEqual => true
  | _ => false

def isLogical : BinaryOperator → Bool
  | and | or | xor => true
  | _ => false

def ofToken? : Token.Kind → Option BinaryOperator
  | .symbol .plus => some add
  | .symbol .minus => some sub
  | .symbol .star => some mul
  | .symbol .slash => some div
  | .symbol .percent => some mod
  | .symbol .less => some less
  | .symbol .lessEqual => some lessEqual
  | .symbol .greater => some greater
  | .symbol .greaterEqual => some greaterEqual
  | .symbol .equal => some equal
  | .symbol .notEqual => some notEqual
  | .keyword .andWord => some and
  | .keyword .orWord => some or
  | .keyword .xorWord => some xor
  | _ => none

def leftPower : BinaryOperator → Nat
  | or => 0
  | xor => 1
  | and => 2
  | less | lessEqual | greater | greaterEqual | equal | notEqual => 3
  | add | sub => 4
  | mul | div | mod => 5

def rightPower (operator : BinaryOperator) : Nat :=
  operator.leftPower + 1

end BinaryOperator

end Imperative
