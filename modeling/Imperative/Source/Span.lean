/-!
# Spans of source text

A `Span` says which bytes of a text a token or a piece of syntax occupies, and
where a reader finds its first character.  The module also cuts a span out of a
text: byte offsets that fall inside a character cut nothing.
-/

namespace Imperative

/--
A stretch of source text.  `start` and `length` count UTF-8 bytes; `line` and
`column` count from one, the column in characters.
-/
structure Span where
  start : Nat
  length : Nat
  line : Nat
  column : Nat
  deriving DecidableEq, Inhabited

namespace Span

def stop (span : Span) : Nat :=
  span.start + span.length

/-- The empty span at the first character of `span`. -/
def opening (span : Span) : Span :=
  { span with length := 0 }

/-- The span that starts where `span` does and ends at the offset `stop`. -/
def upTo (span : Span) (stop : Nat) : Span :=
  { span with length := stop - span.start }

/--
The least span that covers both arguments, placed where the earlier one starts.
When both start at the same byte the first argument gives the place.
-/
def cover (left right : Span) : Span :=
  let first := if right.start < left.start then right else left
  first.upTo (max left.stop right.stop)

/-- Whether every byte of `inner` lies in `outer`. -/
def contains (outer inner : Span) : Bool :=
  decide (outer.start ≤ inner.start) && decide (inner.stop ≤ outer.stop)

def place (span : Span) : String :=
  s!"{span.line}:{span.column}"

end Span

namespace Text

def byteLength : List Char → Nat
  | [] => 0
  | char :: rest => char.utf8Size + byteLength rest

/-- What is left after exactly `count` bytes, if a character starts or the text ends there. -/
def dropBytes (count : Nat) : List Char → Option (List Char)
  | [] => if count = 0 then some [] else none
  | char :: rest =>
    if count = 0 then some (char :: rest)
    else if char.utf8Size ≤ count then dropBytes (count - char.utf8Size) rest
    else none

/-- The characters in the first `count` bytes, if a character or the text ends there. -/
def takeBytes (count : Nat) : List Char → Option (List Char)
  | [] => if count = 0 then some [] else none
  | char :: rest =>
    if count = 0 then some []
    else if char.utf8Size ≤ count then
      (takeBytes (count - char.utf8Size) rest).map (char :: ·)
    else none

end Text

/--
The part of `text` that the span covers, cut off at the end of the text.  It is
empty when an end of the span falls inside a character.
-/
def Span.extract (span : Span) (text : List Char) : List Char :=
  let stop := min span.stop (Text.byteLength text)
  let start := min span.start stop
  ((Text.dropBytes start text).bind (Text.takeBytes (stop - start))).getD []

end Imperative
