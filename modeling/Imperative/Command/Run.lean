import Imperative.Command.Help
import Imperative.Command.Host
import Imperative.Command.Path
import Imperative.Command.Report
import Imperative.Compiler.Document
import Imperative.Compiler.Error
import Imperative.Wasm.Binary
import Imperative.Wasm.Text

/-!
# Running the command

`run` does what the arguments ask for and gives the exit code: zero if all went well, one if
the program has mistakes or something failed, and two if the arguments cannot be understood.
-/

namespace Imperative.Command

open Compiler (EmitKind Outcome Settings)

/-- Why the command failed: what it was doing, and the causes from the outermost on. -/
structure Failure where
  doing : String
  causes : List String

namespace Failure

def indent (spaces : Nat) (text : String) : String :=
  let further : List Char := '\n' :: List.replicate spaces ' '
  String.ofList (text.toList.flatMap fun character =>
    if character = '\n' then further else [character])

def numbered (index : Nat) (cause : String) : String :=
  let number := toString index
  String.ofList (List.replicate (5 - number.length) ' ') ++ number ++ ": " ++ indent 7 cause

def render (failure : Failure) : String :=
  let causes :=
    match failure.causes with
    | [] => ""
    | [cause] => "\n\nCaused by:\n    " ++ indent 4 cause
    | causes => "\n\nCaused by:" ++ String.join (causes.mapIdx fun index cause =>
      "\n" ++ numbered index cause)
  "Error: " ++ failure.doing ++ causes ++ "\n"

end Failure

variable {m : Type → Type} [Monad m]

abbrev Task (m : Type → Type) := ExceptT Failure m

def readSource (host : Host m) (path : String) : Task m String := do
  match ← host.read path with
  | .ok text => return text
  | .error error =>
    throw {
      doing := "ソースファイルの読み込みに失敗しました: " ++ path
      causes := [error.message] }

def loadSettings (host : Host m) : Option String → Task m Settings
  | none => return Settings.standard
  | some path => do
    let doing := "設定ファイルの読み込みに失敗しました: " ++ path
    match ← host.read path with
    | .error error => throw { doing, causes := ["I/Oエラー: " ++ error.message, error.message] }
    | .ok text =>
      match Compiler.Document.readSettings text with
      | .ok settings => return settings
      | .error error => throw { doing, causes := [(Compiler.Error.settings error).message] }

def compileSource (doing : String) (settings : Settings) (text : String) : Task m Outcome :=
  match Compiler.compile settings text with
  | .ok outcome => return outcome
  | .error error => throw { doing, causes := [(Compiler.Error.lowering error).message] }

def writeOutput (host : Host m) (path : String) (bytes : List UInt8) : Task m Unit := do
  match ← host.write path bytes with
  | .ok _ => return ()
  | .error error =>
    throw {
      doing := "出力ファイルの書き込みに失敗しました: " ++ path
      causes := [error.message] }

def buildSettings (given : Given) (settings : Settings) : Settings :=
  { settings with
    level := if Flag.noOpt ∈ given.flags then .off else settings.level
    emit := given.emit.getD settings.emit
    options := { settings.options with
      entryPoint := given.entry.getD settings.options.entryPoint
      exportAll := settings.options.exportAll || decide (Flag.exportAll ∈ given.flags) } }

/--
Where a format is written.  A given path is taken as it is if only one format is written;
otherwise the extension tells the formats apart.
-/
def outputPath (given : Given) (input : String) (isOnly : Bool) (extension : String) : String :=
  match given.output with
  | some output => if isOnly then output else Path.withExtension output extension
  | none => Path.withExtension input extension

def writeModule (host : Host m) (given : Given) (input : String) (emit : EmitKind)
    (module : Wasm.Module) : Task m Unit := do
  if emit.includesBinary then
    writeOutput host (outputPath given input (emit = .binary) "wasm") (Wasm.Binary.encode module)
  if emit.includesText then
    writeOutput host (outputPath given input (emit = .text) "wat")
      (Wasm.Text.encode module).toUTF8.toList

/-- Compile a program and write its module; false if it has mistakes. -/
def build (host : Host m) (settings : Settings) (input : String) (given : Given) :
    Task m Bool := do
  let settings := buildSettings given settings
  let text ← readSource host input
  let outcome ← compileSource ("コンパイルに失敗しました: " ++ input) settings text
  match outcome.module with
  | none =>
    host.printError (report input text outcome.diagnostics)
    return false
  | some module =>
    writeModule host given input settings.emit module
    if Flag.stats ∈ given.flags then
      host.print (reportStatistics outcome.statistics)
    return true

/-- Compile a program without writing anything; false if it has mistakes. -/
def check (host : Host m) (settings : Settings) (input : String) : Task m Bool := do
  let text ← readSource host input
  let settings := { settings with simplify := false }
  let outcome ← compileSource ("チェックに失敗しました: " ++ input) settings text
  match outcome.module with
  | none =>
    host.printError (report input text outcome.diagnostics)
    return false
  | some _ =>
    host.print ("ok: " ++ input ++ "\n")
    return true

/-- Tell the tokens of a text; false if some are errors. -/
def listTokens (host : Host m) (input : String) (newlines : Bool) : Task m Bool := do
  let text ← readSource host input
  let tokens := Token.tokenize text
  let lines := (reportedTokens newlines tokens).map (reportToken text.toList)
  host.print (String.join lines)
  return tokens.all fun token => token.kind ≠ .error

def perform (host : Host m) (request : Request) : Task m Bool := do
  let settings ← loadSettings host request.config
  match request.action with
  | .build input given => build host settings input given
  | .check input => check host settings input
  | .tokens input newlines => listTokens host input newlines

def run (host : Host m) (arguments : List String) : m Nat := do
  match readArguments arguments with
  | .error (.help topic) =>
    host.print (helpText topic)
    return 0
  | .error .version =>
    host.print versionText
    return 0
  | .error .usage =>
    host.printError usageText
    return 2
  | .ok request =>
    match ← (perform host request).run with
    | .ok true => return 0
    | .ok false => return 1
    | .error failure =>
      host.printError failure.render
      return 1

end Imperative.Command
