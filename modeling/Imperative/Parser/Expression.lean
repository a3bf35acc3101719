import Imperative.Parser.Rules
import Imperative.Syntax.Expr

/-!
# Parsing expressions

Binary operators are parsed by binding power: an operator goes on with the operand on
its left only if it binds at least as tightly as the context asks for.  A unary
operator binds its operand more tightly than any binary operator, and field access
and indexing bind most tightly of all.
-/

namespace Imperative.Parser

open Token (Kind)

/--
A missing operand stands for the integer zero.  The token in its place is consumed
unless it is a separator or ends a block.
-/
def missingOperand : Parser Expr := do
  let token ← current
  report .primaryExpected
  if token.kind.isSeparator || token.kind.endsBlock then
    return .integer token.span.opening 0
  else
    advance
    return .integer token.span 0

inductive ExpressionRule where
  /-- An expression whose binary operators have at least the left power `minimum`. -/
  | expression (minimum : Nat)
  /-- The binary operators and right operands that go on with `left`. -/
  | binaryTail (minimum : Nat) (left : Expr)
  /-- A unary operator with its operand, or a primary expression. -/
  | operand
  /-- A literal, a name, a call or an expression in parentheses, with what is selected from it. -/
  | primary
  /-- The fields and elements selected from `receiver`, which starts at `opening`. -/
  | selectionTail (opening : Span) (receiver : Expr)
  /-- One or more arguments with commas between them. -/
  | arguments

namespace ExpressionRule

/-- What the rule reads. -/
@[reducible]
def Result : ExpressionRule → Type
  | arguments => List Expr
  | expression _ | binaryTail _ _ | operand | primary | selectionTail _ _ => Expr

def body (call : (rule : ExpressionRule) → Parser rule.Result) :
    (rule : ExpressionRule) → Parser rule.Result
  | expression minimum => do
    let left ← call operand
    call (binaryTail minimum left)
  | binaryTail minimum left => do
    match BinaryOperator.ofToken? (← current).kind with
    | none => return left
    | some operator =>
      if operator.leftPower < minimum then
        return left
      else
        advance
        let right ← call (expression operator.rightPower)
        call (binaryTail minimum (.binary (left.span.cover right.span) operator left right))
  | operand => do
    let token ← current
    match UnaryOperator.ofToken? token.kind with
    | none => call primary
    | some operator =>
      advance
      let operand ← call (expression UnaryOperator.operandPower)
      return .unary (token.span.cover operand.span) operator operand
  | primary => do
    let token ← current
    match token.kind with
    | .integerLiteral =>
      advance
      call (selectionTail token.span (.integer token.span token.integerValue))
    | .realLiteral =>
      advance
      call (selectionTail token.span (.real token.span token.realValue))
    | .booleanLiteral =>
      advance
      call (selectionTail token.span (.boolean token.span token.booleanValue))
    | .identifier =>
      advance
      let name := token.text.getD ""
      if (← accept (.symbol .leftParen)) then
        let arguments ← if (← check (.symbol .rightParen)) then pure [] else call arguments
        expect (.symbol .rightParen)
        call (selectionTail token.span (.call (← spanFrom token.span) name arguments))
      else
        call (selectionTail token.span (.name token.span name))
    | .symbol .leftParen =>
      advance
      let inner ← call (expression 0)
      expect (.symbol .rightParen)
      call (selectionTail token.span (inner.withSpan (← spanFrom token.span)))
    | _ => missingOperand
  | selectionTail opening receiver => do
    if (← accept (.symbol .dot)) then
      let field ← expectName "field"
      call (selectionTail opening (.field (← spanFrom opening) receiver field))
    else if (← accept (.symbol .leftBracket)) then
      let position ← call (expression 0)
      expect (.symbol .rightBracket)
      call (selectionTail opening (.index (← spanFrom opening) receiver position))
    else
      return receiver
  | arguments => do
    let first ← call (expression 0)
    if (← accept (.symbol .comma)) then
      return first :: (← call arguments)
    else
      return [first]

end ExpressionRule

@[reducible]
def expressionRules : Group where
  Rule := ExpressionRule
  Result := ExpressionRule.Result
  body := ExpressionRule.body
  standIn
    | .binaryTail _ tree | .selectionTail _ tree => pure tree
    | .arguments => pure []
    | .expression _ | .operand | .primary => missingOperand

def expression : Parser Expr :=
  expressionRules.parse (.expression 0)

def primary : Parser Expr :=
  expressionRules.parse .primary

def expressions : Parser (List Expr) :=
  expressionRules.parse .arguments

end Imperative.Parser
