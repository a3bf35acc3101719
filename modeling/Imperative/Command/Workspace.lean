import Imperative.Command.Host

/-!
# Workspaces

A host in memory: a directory with files, and what has been printed.  The command runs in it
without touching anything else.
-/

namespace Imperative.Command

/-- A directory with files, each under its path from there, and what has been printed. -/
structure Workspace where
  files : List (List String × List UInt8)
  output : String
  errorOutput : String

namespace Workspace

def parts (path : String) : List String :=
  (path.toList.splitOn '/').map String.ofList

/-- Whether a directory is there: the workspace itself, or one that holds a file. -/
def hasDirectory (workspace : Workspace) (place : List String) : Bool :=
  place.isEmpty ||
    workspace.files.any fun (file, _) =>
      decide (place.length < file.length) && place.isPrefixOf file

def contents? (workspace : Workspace) (place : List String) : Option (List UInt8) :=
  workspace.files.lookup place

/-- What a path leads to; a name with a slash after it can only be a directory. -/
inductive Target where
  | directory
  | file (place : List String)
  | free (place : List String)
  | freeDirectory

def follow (workspace : Workspace) (directory : List String) :
    List String → Except FileError Target
  | [] => return .directory
  | part :: rest =>
    if part = "" ∨ part = "." then follow workspace directory rest
    else if part = ".." then
      -- Above the workspace there is a directory, of which nothing else is known.
      if directory.isEmpty then
        if rest.all String.isEmpty then return .directory else throw .missing
      else follow workspace directory.dropLast rest
    else
      let place := directory ++ [part]
      if workspace.hasDirectory place then follow workspace place rest
      else
        match workspace.contents? place, rest with
        | some _, [] => return .file place
        | some _, _ :: _ => throw .notDirectory
        | none, [] => return .free place
        | none, rest => if rest.all String.isEmpty then return .freeDirectory else throw .missing

/-- What a path leads to from the workspace; nothing outside of it is there. -/
def locate (workspace : Workspace) (path : String) : Except FileError Target :=
  match path.toList with
  | [] | '/' :: _ => throw .missing
  | _ => follow workspace [] (parts path)

def read (path : String) (workspace : Workspace) : Except FileError String := do
  match ← workspace.locate path with
  | .directory => throw .isDirectory
  | .free _ | .freeDirectory => throw .missing
  | .file place =>
    let bytes := (workspace.contents? place).getD []
    match String.fromUTF8? (ByteArray.mk bytes.toArray) with
    | some text => return text
    | none => throw .notText

def write (path : String) (bytes : List UInt8) (workspace : Workspace) :
    Except FileError Workspace := do
  match ← workspace.locate path with
  | .directory | .freeDirectory => throw .isDirectory
  | .file place | .free place =>
    let others := workspace.files.filter fun (file, _) => file ≠ place
    return { workspace with files := others ++ [(place, bytes)] }

def host : Host (StateM Workspace) where
  read path := do
    return Workspace.read path (← get)
  write path bytes := do
    match Workspace.write path bytes (← get) with
    | .ok workspace =>
      set workspace
      return .ok ()
    | .error error => return .error error
  print text := modify fun workspace => { workspace with output := workspace.output ++ text }
  printError text :=
    modify fun workspace => { workspace with errorOutput := workspace.errorOutput ++ text }

end Workspace

end Imperative.Command
