import Imperative.Parser.Statement

/-!
# Parsing programs

`Program.parse` reads a program from a text and `Program.parseTokens` from a list of
tokens.  Both always return a program, together with the diagnostics of all mistakes
that were found on the way.
-/

namespace Imperative

namespace Parser

/-- The rule for one or more parameters with commas between them. -/
@[reducible]
def parameterRules : Group where
  Rule := Unit
  Result _ := List Parameter
  body call _ := do
    let opening := (← current).span
    let name ← expectName "parameter"
    expect (.symbol .colon)
    let type ← type
    let parameter : Parameter := { span := ← spanFrom opening, name, type }
    if (← accept (.symbol .comma)) then
      return parameter :: (← call ())
    else
      return [parameter]
  standIn _ := pure []

def parameters : Parser (List Parameter) := do
  expect (.symbol .leftParen)
  let parameters ←
    if (← check (.symbol .rightParen)) then pure [] else parameterRules.parse ()
  expect (.symbol .rightParen)
  return parameters

/-- The body of a routine.  A separator or the end of the text makes it a forward declaration. -/
def routineBody : Parser (Option Body) := do
  let kind := (← current).kind
  if kind.isSeparator || kind = .endOfFile then
    return none
  else if (← accept (.symbol .arrow)) then
    return some (.expression (← expression))
  else
    expect (.keyword .isWord)
    let block ← block
    expect (.keyword .endWord)
    return some (.block block)

def routine : Parser Routine := do
  let opening := (← current).span
  expect (.keyword .routineWord)
  let name ← expectName "routine"
  let parameters ← parameters
  let result ← if (← accept (.symbol .colon)) then some <$> type else pure none
  let body ← routineBody
  return .mk (← spanFrom opening) name parameters result body

/-- The rule for declarations up to the end of the text. -/
@[reducible]
def declarationRules : Group where
  Rule := Unit
  Result _ := List Declaration
  body call _ := do
    match (← current).kind with
    | .endOfFile => return []
    | .keyword .varWord | .keyword .typeWord =>
      let declaration ← simpleDeclaration
      skipSeparators
      return declaration :: (← call ())
    | .keyword .routineWord =>
      let declaration ← Declaration.routine <$> routine
      skipSeparators
      return declaration :: (← call ())
    | _ =>
      report .declarationExpected
      recover Token.Kind.startsDeclaration
      skipSeparators
      call ()
  standIn _ := pure []

def program : Parser Program := do
  let opening := (← current).span
  skipSeparators
  let declarations ← declarationRules.parse ()
  return { span := opening.upTo (← current).span.stop, declarations }

def standaloneExpression : Parser Expr := do
  skipSeparators
  let value ← expression
  skipSeparators
  if !(← check .endOfFile) then
    report .tokenAfterExpression
  return value

/-- What a parser reads from a feed, and the diagnostics it reports. -/
structure Parsed (α : Type) where
  value : α
  diagnostics : List Diagnostic

def run {α : Type} (parser : Parser α) (feed : Feed) : Parsed α :=
  let (value, state) := parser (State.ofFeed feed)
  { value, diagnostics := state.diagnostics }

end Parser

def Program.parseTokens (tokens : List Token) : Parser.Parsed Program :=
  Parser.run Parser.program (Parser.Feed.buffered tokens)

def Program.parse (text : String) : Parser.Parsed Program :=
  Parser.run Parser.program (Parser.Feed.ofText text)

def Expr.parse (text : String) : Parser.Parsed Expr :=
  Parser.run Parser.standaloneExpression (Parser.Feed.ofText text)

/-! ## Texts that are spelled out -/

theorem Program.parse_of_toList {text : String} {characters : List Char}
    (spelled : text.toList = characters) :
    Program.parse text = Parser.run Parser.program (.ofCursor (.atStart characters)) := by
  rw [Program.parse, Parser.Feed.ofText, spelled]

theorem toList_append_of {first second : String} {firstCharacters secondCharacters : List Char}
    (firstSpelled : first.toList = firstCharacters)
    (secondSpelled : second.toList = secondCharacters) :
    (first ++ second).toList = firstCharacters ++ secondCharacters := by
  rw [String.toList_append, firstSpelled, secondSpelled]

end Imperative
