import Imperative.Source.Span

/-!
# Cursors

A `Cursor` stands between two characters of a text and knows its byte offset,
line and column.  Line and column are counted while the cursor moves: a line
ends after a newline, and after a carriage return that no newline follows.
-/

namespace Imperative

/-- A position in `text`: what is still to be read, and where a reader sees it. -/
structure Cursor where
  text : List Char
  rest : List Char
  position : Nat
  line : Nat
  column : Nat

namespace Cursor

def atStart (text : List Char) : Cursor :=
  { text, rest := text, position := 0, line := 1, column := 1 }

def peek (cursor : Cursor) : Option Char :=
  cursor.rest.head?

def peekAhead (cursor : Cursor) : Option Char :=
  cursor.rest.tail.head?

def endsLine (char : Char) (rest : List Char) : Bool :=
  char == '\n' || (char == '\r' && rest.head? != some '\n')

def advance (cursor : Cursor) : Cursor :=
  match cursor.rest with
  | [] => cursor
  | char :: rest =>
    let position := cursor.position + char.utf8Size
    if endsLine char rest then
      { cursor with rest, position, line := cursor.line + 1, column := 1 }
    else
      { cursor with rest, position, column := cursor.column + 1 }

/-- Move over `count` characters. -/
def advanceBy : Nat → Cursor → Cursor
  | 0, cursor => cursor
  | count + 1, cursor => advanceBy count cursor.advance

/-- Move over the next character if it is `expected`, and say whether it was. -/
def accept (expected : Char) (cursor : Cursor) : Bool × Cursor :=
  if cursor.peek = some expected then (true, cursor.advance) else (false, cursor)

/-- How many of the given characters lie entirely in the next `bytes` bytes. -/
def wholeCharacters (bytes : Nat) : List Char → Nat
  | [] => 0
  | char :: rest =>
    if char.utf8Size ≤ bytes then wholeCharacters (bytes - char.utf8Size) rest + 1 else 0

/--
Move to a byte offset of the text.  An offset inside a character stands for the
start of that character, and one past the end for the end.
-/
def reset (position : Nat) (cursor : Cursor) : Cursor :=
  advanceBy (wholeCharacters position cursor.text) (atStart cursor.text)

def spanTo (opening closing : Cursor) : Span :=
  { start := opening.position
    length := closing.position - opening.position
    line := opening.line
    column := opening.column }

@[simp]
theorem advance_rest (cursor : Cursor) : cursor.advance.rest = cursor.rest.tail := by
  unfold advance
  cases remaining : cursor.rest with
  | nil => simp [remaining]
  | cons char rest => by_cases ends : endsLine char rest <;> simp [ends]

@[simp]
theorem advanceBy_rest (count : Nat) (cursor : Cursor) :
    (cursor.advanceBy count).rest = cursor.rest.drop count := by
  induction count generalizing cursor with
  | zero => simp [advanceBy]
  | succ count ih => simp [advanceBy, ih]

end Cursor

end Imperative
