/-!
# Lines

A text as lines.  A line ends at a line feed, which may follow a carriage return; neither
is part of the line.  A text that ends with a line feed has no further line after it.
-/

namespace Imperative.Text

def lines : List Char → List (List Char)
  | [] => []
  | '\n' :: rest => [] :: lines rest
  | '\r' :: '\n' :: rest => [] :: lines rest
  | character :: rest =>
    match lines rest with
    | [] => [[character]]
    | line :: others => (character :: line) :: others

end Imperative.Text
