/-!
# Hosts

What the command needs from its surroundings: files and two streams of text.
-/

namespace Imperative.Command

/-- Why a file cannot be read or written. -/
inductive FileError where
  | missing
  | notDirectory
  | isDirectory
  | notText
  | other (reason : String)

def FileError.message : FileError → String
  | missing => "No such file or directory (os error 2)"
  | notDirectory => "Not a directory (os error 20)"
  | isDirectory => "Is a directory (os error 21)"
  | notText => "stream did not contain valid UTF-8"
  | other reason => reason

/-- The surroundings of the command. -/
structure Host (m : Type → Type) where
  read : String → m (Except FileError String)
  write : String → List UInt8 → m (Except FileError Unit)
  print : String → m Unit
  printError : String → m Unit

end Imperative.Command
