import Imperative.Parser.Expression
import Imperative.Syntax.Program

/-!
# Parsing types and declarations of variables

A type is a name, a record of fields or an array.  Fields are declared as variables
are, so the rules for both stand together.
-/

namespace Imperative.Parser

open Token (Kind)

def arraySize : Parser (Option Expr) := do
  if (← accept (.symbol .leftBracket)) then
    let size ← if (← check (.symbol .rightBracket)) then pure none else some <$> expression
    expect (.symbol .rightBracket)
    return size
  else
    return none

def missingType : Parser TypeExpr := do
  let token ← current
  report .typeExpected
  return .named token.span.opening missingName

def initialValue : Parser (Option Expr) := do
  if (← accept (.keyword .isWord)) then some <$> expression else return none

inductive TypeRule where
  /-- A type. -/
  | type
  /-- The fields of a record. -/
  | fields
  /-- The declaration of a variable or field. -/
  | varDecl

namespace TypeRule

/-- What the rule reads. -/
@[reducible]
def Result : TypeRule → Type
  | type => TypeExpr
  | fields => List VarDecl
  | varDecl => VarDecl

def body (call : (rule : TypeRule) → Parser rule.Result) : (rule : TypeRule) → Parser rule.Result
  | type => do
    let token ← current
    match token.kind with
    | .identifier =>
      advance
      let name := token.text.getD ""
      match PrimitiveName.ofSpelling? name with
      | some primitive => return .primitive token.span primitive
      | none => return .named token.span name
    | .keyword .recordWord =>
      advance
      skipSeparators
      let fields ← call fields
      let _ ← demand (.keyword .endWord) .endOfRecord
      return .record (← spanFrom token.span) fields
    | .keyword .arrayWord =>
      advance
      let size ← arraySize
      let element ← call type
      return .array (← spanFrom token.span) element size
    | _ => missingType
  | fields => do
    if (← check (.keyword .varWord)) then
      let field ← call varDecl
      skipSeparators
      return field :: (← call fields)
    else
      return []
  | varDecl => do
    let opening := (← current).span
    expect (.keyword .varWord)
    let name ← expectName "variable"
    let type ← if (← accept (.symbol .colon)) then some <$> call type else pure none
    let initial ← initialValue
    return .mk (← spanFrom opening) name type initial

end TypeRule

@[reducible]
def typeRules : Group where
  Rule := TypeRule
  Result := TypeRule.Result
  body := TypeRule.body
  standIn
    | .type => missingType
    | .fields => pure []
    | .varDecl => do return .mk (← current).span missingName none none

def type : Parser TypeExpr :=
  typeRules.parse .type

def varDecl : Parser VarDecl :=
  typeRules.parse .varDecl

def typeDecl : Parser TypeDecl := do
  let opening := (← current).span
  expect (.keyword .typeWord)
  let name ← expectName "type"
  expect (.keyword .isWord)
  let type ← type
  return { span := ← spanFrom opening, name, type }

def simpleDeclaration : Parser Declaration := do
  if (← check (.keyword .typeWord)) then
    return .type (← typeDecl)
  else
    return .var (← varDecl)

end Imperative.Parser
