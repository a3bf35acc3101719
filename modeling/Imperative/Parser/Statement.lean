import Imperative.Parser.Type

/-!
# Parsing statements and blocks

A statement is told by its first token.  One that starts with a name is an assignment if
`:=` follows the place that is named, and otherwise has to be a call.
-/

namespace Imperative.Parser

open Token (Kind)

def stopsStatement (kind : Kind) : Bool :=
  kind = .keyword .endWord

def missingStatement : Parser Statement := do
  let span := (← current).span
  report .statementExpected
  recover stopsStatement
  return .empty span

def assignmentOrCall : Parser Statement := do
  let opening := (← current).span
  let target ← primary
  if (← accept (.symbol .assign)) then
    let value ← expression
    return .assign (← spanFrom opening) target value
  else
    match target with
    | .call span routine arguments => return .call span routine arguments
    | _ =>
      reportAt target.span .assignmentOrCallExpected
      recover stopsStatement
      return .empty target.span

/-- A `return` with its value, which is left out before a separator or the end of a block. -/
def returnStatement : Parser Statement := do
  let opening := (← current).span
  expect (.keyword .returnWord)
  let kind := (← current).kind
  let value ← if kind.isSeparator || kind.endsBlock then pure none else some <$> expression
  return .giveBack (← spanFrom opening) value

/-- A `print` with one or more items. -/
def printStatement : Parser Statement := do
  let opening := (← current).span
  expect (.keyword .printWord)
  let items ← expressions
  return .print (← spanFrom opening) items

/-- What a `for` loop runs over. -/
inductive LoopHeader where
  | range (first last : Expr)
  | array (array : Expr)

/-- The range or the array of a `for` loop. -/
def loopHeader : Parser LoopHeader := do
  let first ← expression
  if (← accept (.symbol .dotDot)) then
    return .range first (← expression)
  else
    return .array first

def loopDirection : Parser Direction := do
  if (← accept (.keyword .reverseWord)) then return .reverse else return .forward

/-- The rules for blocks and statements. -/
inductive StatementRule where
  /-- A block up to the token that ends it. -/
  | block
  /-- Declarations and statements up to the end of the block. -/
  | items
  /-- A statement. -/
  | statement

namespace StatementRule

/-- What the rule reads. -/
@[reducible]
def Result : StatementRule → Type
  | block => Block
  | items => List Item
  | statement => Statement

def body (call : (rule : StatementRule) → Parser rule.Result) :
    (rule : StatementRule) → Parser rule.Result
  | block => do
    let opening := (← current).span
    skipSeparators
    let items ← call items
    return .mk (← spanFrom opening) items
  | items => do
    let kind := (← current).kind
    if kind.endsBlock then
      return []
    else
      let item ←
        if kind = .keyword .varWord ∨ kind = .keyword .typeWord then
          Item.declaration <$> simpleDeclaration
        else
          Item.statement <$> call statement
      skipSeparators
      return item :: (← call items)
  | statement => do
    let opening := (← current).span
    match (← current).kind with
    | .keyword .ifWord =>
      advance
      let condition ← expression
      expect (.keyword .thenWord)
      let consequent ← call block
      let alternative ← if (← accept (.keyword .elseWord)) then some <$> call block else pure none
      expect (.keyword .endWord)
      return .branch (← spanFrom opening) condition consequent alternative
    | .keyword .whileWord =>
      advance
      let condition ← expression
      expect (.keyword .loopWord)
      let body ← call block
      expect (.keyword .endWord)
      return .whileLoop (← spanFrom opening) condition body
    | .keyword .forWord =>
      advance
      let iterator ← expectName "iterator"
      expect (.keyword .inWord)
      let header ← loopHeader
      let direction ← loopDirection
      expect (.keyword .loopWord)
      let body ← call block
      expect (.keyword .endWord)
      let span ← spanFrom opening
      match header with
      | .range first last => return .rangeLoop span iterator first last direction body
      | .array array => return .arrayLoop span iterator array direction body
    | .keyword .returnWord => returnStatement
    | .keyword .printWord => printStatement
    | .identifier => assignmentOrCall
    | _ => missingStatement

end StatementRule

@[reducible]
def statementRules : Group where
  Rule := StatementRule
  Result := StatementRule.Result
  body := StatementRule.body
  standIn
    | .block => do return .mk (← current).span []
    | .items => pure []
    | .statement => missingStatement

def block : Parser Block :=
  statementRules.parse .block

end Imperative.Parser
