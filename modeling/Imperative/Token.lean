import Imperative.Source.Span
import Imperative.Token.Kind

/-!
# Tokens

A token has a kind, a span, the text it was read from and, if it is a literal, a
value.  The text of an error token is its message.
-/

namespace Imperative

namespace Token

/-- The value of a literal. -/
inductive Value where
  | integer (value : Int)
  | real (value : Float)
  | boolean (value : Bool)

end Token

/-- A token of the source text. -/
structure Token where
  kind : Token.Kind
  span : Span
  text : Option String
  value : Option Token.Value

namespace Token

def bare (kind : Kind) (span : Span) : Token :=
  { kind, span, text := none, value := none }

def integerValue (token : Token) : Int :=
  match token.value with
  | some (.integer value) => value
  | _ => 0

def realValue (token : Token) : Float :=
  match token.value with
  | some (.real value) => value
  | _ => 0.0

/-- The value of a boolean literal, or `false`. -/
def booleanValue (token : Token) : Bool :=
  match token.value with
  | some (.boolean value) => value
  | _ => false

/-- The token in listings: its kind, its text unless it is a line break, and its place. -/
def render (token : Token) : String :=
  let place := " @" ++ token.span.place
  match token.kind, token.text with
  | .newLine, _ | .endOfFile, _ | _, none => token.kind.label ++ place
  | kind, some text => kind.label ++ "(" ++ text ++ ")" ++ place

end Token

end Imperative
