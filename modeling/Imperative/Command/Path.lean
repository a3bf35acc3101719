/-!
# Paths

The parts of a path that matter for naming output files.  Slashes at the end of a path, and
single dots after them, do not count.
-/

namespace Imperative.Command.Path

def dropEmptyEnd : List Char → List Char
  | '/' :: rest => dropEmptyEnd rest
  | '.' :: '/' :: rest => dropEmptyEnd rest
  | reversed => reversed

def split (path : List Char) : List Char × List Char :=
  let reversed := dropEmptyEnd path.reverse
  let isName (character : Char) : Bool := character ≠ '/'
  ((reversed.dropWhile isName).reverse, (reversed.takeWhile isName).reverse)

/--
A name up to its last dot.  A name without a dot, or with only one that it starts with, is
its own stem.
-/
def stem (name : List Char) : List Char :=
  let reversed := name.reverse
  match (reversed.dropWhile fun character => character ≠ '.').drop 1 with
  | [] => name
  | before => before.reverse

/-- The path with another extension.  A path that does not end in a name stays as it is. -/
def withExtension (path extension : String) : String :=
  let (directory, name) := split path.toList
  if name = [] ∨ name = ['.'] ∨ name = ['.', '.'] then path
  else String.ofList (directory ++ stem name) ++ "." ++ extension

end Imperative.Command.Path
