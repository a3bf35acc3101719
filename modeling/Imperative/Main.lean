import Imperative.Command.Run

/-!
# The command

The command on the files and streams of the system.
-/

namespace Imperative.Command

def fileError : IO.Error → FileError
  | .noFileOrDirectory .. => .missing
  | .inappropriateType .. => .isDirectory
  | error => .other (toString error)

def systemHost : Host IO where
  read path := do
    try
      let bytes ← IO.FS.readBinFile path
      match String.fromUTF8? bytes with
      | some text => return .ok text
      | none => return .error .notText
    catch error => return .error (fileError error)
  write path bytes := do
    try
      IO.FS.writeBinFile path (ByteArray.mk bytes.toArray)
      return .ok ()
    catch error => return .error (fileError error)
  print text := IO.print text
  printError text := IO.eprint text

end Imperative.Command

def main (arguments : List String) : IO UInt32 := do
  return UInt32.ofNat (← Imperative.Command.run Imperative.Command.systemHost arguments)
