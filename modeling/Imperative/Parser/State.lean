import Imperative.Source.Diagnostic
import Imperative.Syntax.Operator
import Imperative.Token.Scan

/-!
# The state of parsing

A parser consumes a `Feed`: tokens and the place of the end of the text after them.  It
always looks at one current token and never stops at a mistake: it records a diagnostic
and goes on, either as if the token it wanted had been there or after skipping tokens.
Error tokens of the feed become diagnostics when the parser comes to them, and are never
the current token.
-/

namespace Imperative.Parser

open Token (Kind)

/-! ## Feeds -/

/-- The tokens of a text and the span of the end after them. -/
structure Feed where
  tokens : List Token
  closing : Span

namespace Feed

def spanAfter (token : Token) : Span :=
  { start := token.span.stop
    length := 0
    line := token.span.line
    column := token.span.column + token.span.length }

/--
The feed of a list of tokens.  It ends at the first token for the end of a text, or
after the last token if there is none.
-/
def ofTokens (tokens : List Token) : Feed :=
  { tokens := tokens.takeWhile fun token => token.kind ≠ .endOfFile
    closing :=
      match tokens.find? fun token => token.kind = .endOfFile with
      | some token => token.span
      | none =>
        match tokens.getLast? with
        | some token => spanAfter token
        | none => { start := 0, length := 0, line := 0, column := 0 } }

/--
The feed of all tokens of a list, one for the end of a text among them or not.  After the
last token it ends where the last end in the list is, or after that token if there is none.
-/
def buffered (tokens : List Token) : Feed :=
  { tokens
    closing :=
      match tokens.reverse.find? fun token => token.kind = .endOfFile with
      | some token => token.span
      | none => (ofTokens tokens).closing }

def ofCursor (cursor : Cursor) : Feed :=
  if (Token.scan cursor).1.kind = .endOfFile then
    { tokens := [], closing := (Token.scan cursor).1.span }
  else
    let feed := ofCursor (Token.scan cursor).2
    { feed with tokens := (Token.scan cursor).1 :: feed.tokens }
termination_by cursor.rest.length
decreasing_by exact Token.scan_rest_lt cursor ‹_›

def ofText (text : String) : Feed :=
  ofCursor (Cursor.atStart text.toList)

end Feed

/-! ## Mistakes -/

/-- A token that the grammar wants next. -/
inductive Wanted where
  | token (kind : Kind)
  | nameOf (thing : String)
  | endOfRecord

def Wanted.describe : Wanted → String
  | token kind => "expected " ++ kind.describe
  | nameOf thing => thing ++ " name expected"
  | endOfRecord => "expected 'end' to close record"

/-- What is wrong with the syntax. -/
inductive Mistake where
  | declarationExpected
  | statementExpected
  | assignmentOrCallExpected
  | primaryExpected
  | typeExpected
  | tokenAfterExpression
  | missing (wanted : Wanted) (found : Kind)

def Mistake.message : Mistake → String
  | declarationExpected => "declaration expected"
  | statementExpected => "statement expected"
  | assignmentOrCallExpected => "expected ':=' or '(' after identifier"
  | primaryExpected => "primary expression expected"
  | typeExpected => "type expected"
  | tokenAfterExpression => "unexpected token after expression"
  | missing wanted found => wanted.describe ++ " (got: " ++ found.describe ++ ")"

def missingName : String := "<error>"

/-! ## The state -/

/--
The tokens not yet consumed, the place of the end of the text, the span of the token
consumed last, and the diagnostics so far.  The first of `rest` is the current token.
-/
structure State where
  rest : List Token
  closing : Span
  previous : Span
  diagnostics : List Diagnostic

namespace State

/-- The current token; after the last token it is the end of the text. -/
def current (state : State) : Token :=
  state.rest.head?.getD (Token.bare .endOfFile state.closing)

def settle (state : State) : State :=
  let errors := state.rest.takeWhile fun token => token.kind = .error
  let lexical (token : Token) : Diagnostic :=
    { stage := .lexical, span := token.span, message := token.text.getD "" }
  { state with
    rest := state.rest.dropWhile fun token => token.kind = .error
    diagnostics := state.diagnostics ++ errors.map lexical }

def ofFeed (feed : Feed) : State :=
  settle
    { rest := feed.tokens
      closing := feed.closing
      previous := { start := 0, length := 0, line := 0, column := 0 }
      diagnostics := [] }

def advance (state : State) : State :=
  settle { state with rest := state.rest.tail, previous := state.current.span }

/-- Consume tokens, at most `count`, while their kind satisfies `skipped`. -/
def advanceWhile (skipped : Kind → Bool) : Nat → State → State
  | 0, state => state
  | count + 1, state =>
    if skipped state.current.kind then advanceWhile skipped count state.advance else state

def report (span : Span) (mistake : Mistake) (state : State) : State :=
  { state with
    diagnostics := state.diagnostics ++
      [{ stage := .syntactic, span, message := mistake.message }] }

/--
A bound on how deeply the rules of the grammar nest from here on: no more than four
of them can be entered without consuming a token.
-/
def depth (state : State) : Nat :=
  4 * (state.rest.length + 1)

end State

end Imperative.Parser

namespace Imperative

open Token (Kind)

abbrev Parser := StateM Parser.State

namespace Parser

def current : Parser Token := do
  return (← get).current

def check (kind : Kind) : Parser Bool := do
  return (← current).kind = kind

def advance : Parser Unit :=
  modify State.advance

def accept (kind : Kind) : Parser Bool := do
  if (← check kind) then
    advance
    return true
  else
    return false

def reportAt (span : Span) (mistake : Mistake) : Parser Unit :=
  modify (State.report span mistake)

def report (mistake : Mistake) : Parser Unit := do
  reportAt (← current).span mistake

/--
Consume a token of the given kind and return its text.  If another token is there,
report it, consume nothing, and return no text.
-/
def demand (kind : Kind) (wanted : Wanted) : Parser (Option String) := do
  let token ← current
  if token.kind = kind then
    advance
    return token.text
  else
    report (.missing wanted token.kind)
    return none

def expect (kind : Kind) : Parser Unit := do
  let _ ← demand kind (.token kind)

def expectName (thing : String) : Parser String := do
  return (← demand .identifier (.nameOf thing)).getD missingName

/-- Consume tokens while their kind satisfies `skipped`. -/
def skipWhile (skipped : Kind → Bool) : Parser Unit :=
  modify fun state => state.advanceWhile skipped state.rest.length

def skipSeparators : Parser Unit :=
  skipWhile Kind.isSeparator

/-- Skip to the next separator, stop token or end of the text, and over the separators there. -/
def recover (stops : Kind → Bool) : Parser Unit := do
  skipWhile fun kind => !(kind.isSeparator || stops kind || kind = .endOfFile)
  skipSeparators

/-- The span from the start of `opening` to the end of the token consumed last. -/
def spanFrom (opening : Span) : Parser Span := do
  return opening.upTo (← get).previous.stop

end Parser

end Imperative
