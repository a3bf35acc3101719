import Imperative.Token.Scan

/-!
# Reading tokens with lookahead

A `Reader` hands out the tokens of a text one by one.  Looking ahead scans tokens
early and keeps them until they are asked for.  Read as an iteration, it stops after
the token for the end of the text; a reset starts again from a byte offset.
-/

namespace Imperative.Token

/-- A text being read, the tokens already scanned, and whether the iteration is over. -/
structure Reader where
  cursor : Cursor
  lookahead : List Token
  finished : Bool

namespace Reader

def ofText (text : String) : Reader :=
  { cursor := Cursor.atStart text.toList, lookahead := [], finished := false }

def next (reader : Reader) : Token × Reader :=
  match reader.lookahead with
  | token :: lookahead => (token, { reader with lookahead })
  | [] =>
    let (token, cursor) := scan reader.cursor
    (token, { reader with cursor })

/-- Scan `count` more tokens into the lookahead. -/
def fill : Nat → Reader → Reader
  | 0, reader => reader
  | count + 1, reader =>
    let (token, cursor) := scan reader.cursor
    fill count { reader with cursor, lookahead := reader.lookahead ++ [token] }

/-- The `k`-th token to come, counted from one, without taking any. -/
def peek (k : Nat) (reader : Reader) : Token × Reader :=
  let filled := reader.fill (max k 1 - reader.lookahead.length)
  (filled.lookahead[max k 1 - 1]?.getD (scan filled.cursor).1, filled)

/-- The next token of the iteration, or none once the end of the text was handed out. -/
def iterate (reader : Reader) : Option Token × Reader :=
  if reader.finished then (none, reader)
  else
    let (token, after) := reader.next
    (some token, { after with finished := token.kind = .endOfFile })

def reset (position : Nat) (reader : Reader) : Reader :=
  { cursor := reader.cursor.reset position, lookahead := [], finished := false }

end Reader

end Imperative.Token
