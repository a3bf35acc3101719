import Imperative.Source.Span
import Imperative.Syntax.Operator

/-!
# Expressions

Expressions are trees whose nodes carry the span they were read from.
-/

namespace Imperative

/-- An expression. -/
inductive Expr where
  | integer (span : Span) (value : Int)
  | real (span : Span) (value : Float)
  | boolean (span : Span) (value : Bool)
  | name (span : Span) (name : String)
  | field (span : Span) (receiver : Expr) (field : String)
  | index (span : Span) (receiver position : Expr)
  | call (span : Span) (routine : String) (arguments : List Expr)
  | unary (span : Span) (operator : UnaryOperator) (operand : Expr)
  | binary (span : Span) (operator : BinaryOperator) (left right : Expr)

namespace Expr

def span : Expr → Span
  | integer span _ | real span _ | boolean span _ | name span _ => span
  | field span _ _ | index span _ _ | call span _ _ => span
  | unary span _ _ | binary span _ _ _ => span

def withSpan (span : Span) : Expr → Expr
  | integer _ value => integer span value
  | real _ value => real span value
  | boolean _ value => boolean span value
  | name _ identifier => name span identifier
  | field _ receiver identifier => field span receiver identifier
  | index _ receiver position => index span receiver position
  | call _ routine arguments => call span routine arguments
  | unary _ operator operand => unary span operator operand
  | binary _ operator left right => binary span operator left right

def isLiteral : Expr → Bool
  | integer _ _ | real _ _ | boolean _ _ => true
  | _ => false

def isPlace : Expr → Bool
  | name _ _ | field _ _ _ | index _ _ _ => true
  | _ => false

end Expr

end Imperative
