import Imperative.Compiler.Settings

/-!
# Arguments

What the arguments of the command ask for.  Arguments are read from the left, and the first
one that cannot be understood, or that asks for help, decides.  Options may stand before and
after the input; the ones that all commands share may also stand before the command.
-/

namespace Imperative.Command

open Compiler (EmitKind)

/-- The commands. -/
inductive Verb where
  | build
  | check
  | tokens
  deriving DecidableEq

def Verb.ofName? : String → Option Verb
  | "build" => some .build
  | "check" => some .check
  | "tokens" => some .tokens
  | _ => none

/-- The options. -/
inductive Flag where
  | verbose
  | config
  | output
  | emit
  | noOpt
  | entry
  | exportAll
  | stats
  | newlines
  | help
  | version
  deriving DecidableEq

namespace Flag

def long : Flag → String
  | verbose => "verbose"
  | config => "config"
  | output => "output"
  | emit => "emit"
  | noOpt => "no-opt"
  | entry => "entry"
  | exportAll => "export-all"
  | stats => "stats"
  | newlines => "newlines"
  | help => "help"
  | version => "version"

def short? : Flag → Option Char
  | verbose => some 'v'
  | config => some 'c'
  | output => some 'o'
  | help => some 'h'
  | version => some 'V'
  | _ => none

def takesValue : Flag → Bool
  | config | output | emit | entry => true
  | _ => false

end Flag

/-- What help is about. -/
inductive Topic where
  | general
  | verb (verb : Verb)
  | help
  deriving DecidableEq

/-- Why arguments do not lead to a command being run. -/
inductive Stop where
  | usage
  | help (topic : Topic)
  | version

def flagsOf : Topic → List Flag
  | .general => [.verbose, .config, .help, .version]
  | .verb .build =>
    [.verbose, .config, .output, .emit, .noOpt, .entry, .exportAll, .stats, .help]
  | .verb .check => [.verbose, .config, .help]
  | .verb .tokens => [.verbose, .config, .newlines, .help]
  | .help => []

/-- What has been given so far. -/
structure Given where
  input : Option String
  config : Option String
  output : Option String
  emit : Option EmitKind
  entry : Option String
  flags : List Flag

def Given.empty : Given :=
  { input := none, config := none, output := none, emit := none, entry := none, flags := [] }

def once {α : Type} (earlier : Option α) (value : α) : Except Stop (Option α) :=
  match earlier with
  | some _ => throw .usage
  | none => return some value

def path (text : String) : Except Stop String :=
  if text.isEmpty then throw .usage else return text

def takeValue (given : Given) (flag : Flag) (value : String) : Except Stop Given := do
  match flag with
  | .config => return { given with config := ← once given.config (← path value) }
  | .output => return { given with output := ← once given.output (← path value) }
  | .entry => return { given with entry := ← once given.entry value }
  | .emit =>
    match EmitKind.parse value with
    | .ok kind => return { given with emit := ← once given.emit kind }
    | .error _ => throw .usage
  | _ => throw .usage

/-- Take an option without a value.  Only `verbose` may be repeated. -/
def takeFlag (topic : Topic) (given : Given) (flag : Flag) : Except Stop Given :=
  match flag with
  | .help => throw (.help topic)
  | .version => throw .version
  | .verbose => return given
  | _ =>
    if flag ∈ given.flags then throw .usage
    else return { given with flags := flag :: given.flags }

def takeInput (given : Given) (text : String) : Except Stop Given := do
  return { given with input := ← once given.input (← path text) }

def takeLong (topic : Topic) (given : Given) (text : List Char) :
    Except Stop (Given × Option Flag) := do
  let isName (character : Char) : Bool := character ≠ '='
  let name := String.ofList (text.takeWhile isName)
  let some flag := (flagsOf topic).find? (fun flag => flag.long = name) | throw .usage
  match text.dropWhile isName, flag.takesValue with
  | [], true => return (given, some flag)
  | [], false => return (← takeFlag topic given flag, none)
  | _ :: value, true => return (← takeValue given flag (String.ofList value), none)
  | _ :: _, false => throw .usage

/-- Take options by their letters; what follows the letter of one with a value is its value. -/
def takeShort (topic : Topic) (given : Given) : List Char → Except Stop (Given × Option Flag)
  | [] => return (given, none)
  | letter :: rest => do
    let some flag := (flagsOf topic).find? (fun flag => flag.short? = some letter)
      | throw .usage
    if flag.takesValue then
      match rest with
      | [] => return (given, some flag)
      | '=' :: value => return (← takeValue given flag (String.ofList value), none)
      | value => return (← takeValue given flag (String.ofList value), none)
    else
      takeShort topic (← takeFlag topic given flag) rest

def takeRest (given : Given) : List String → Except Stop Given
  | [] => return given
  | first :: rest => do takeRest (← takeInput given first) rest

/-- Take an argument that starts with a dash; gives the option whose value is to follow. -/
def takeDashed (topic : Topic) (given : Given) (argument : String) :
    Option (Except Stop (Given × Option Flag)) :=
  match argument.toList with
  | '-' :: '-' :: name => some (takeLong topic given name)
  | '-' :: letter :: letters => some (takeShort topic given (letter :: letters))
  | _ => none

/-- Take the arguments of a command; `pending` is an option whose value is to follow. -/
def takeAll (topic : Topic) (given : Given) (pending : Option Flag) :
    List String → Except Stop Given
  | [] => if pending.isSome then throw .usage else return given
  | argument :: rest => do
    match pending, takeDashed topic given argument with
    | some _, some _ => throw .usage
    | some flag, none => takeAll topic (← takeValue given flag argument) none rest
    | none, none => takeAll topic (← takeInput given argument) none rest
    | none, some dashed =>
      if argument = "--" then takeRest given rest
      else
        let (given, pending) ← dashed
        takeAll topic given pending rest

/-- What is to be done. -/
inductive Action where
  | build (input : String) (given : Given)
  | check (input : String)
  | tokens (input : String) (newlines : Bool)

/-- What is to be done, and the file with settings. -/
structure Request where
  config : Option String
  action : Action

def requestOf (front : Given) (verb : Verb) (arguments : List String) : Except Stop Request := do
  let given ← takeAll (.verb verb) Given.empty none arguments
  let some input := given.input | throw .usage
  let config := given.config.or front.config
  match verb with
  | .build => return { config, action := .build input given }
  | .check => return { config, action := .check input }
  | .tokens => return { config, action := .tokens input (decide (Flag.newlines ∈ given.flags)) }

def helpOn : List String → Stop
  | [] => .help .general
  | ["help"] => .help .help
  | [name] =>
    match Verb.ofName? name with
    | some verb => .help (.verb verb)
    | none => .usage
  | _ => .usage

/-- What arguments ask for, after options in front; `pending` is one whose value is to follow. -/
def readFrom (front : Given) (pending : Option Flag) : List String → Except Stop Request
  | [] => throw .usage
  | argument :: rest => do
    match pending, takeDashed .general front argument with
    | some _, some _ => throw .usage
    | some flag, none => readFrom (← takeValue front flag argument) none rest
    | none, some dashed =>
      if argument = "--" then throw .usage
      else
        let (front, pending) ← dashed
        readFrom front pending rest
    | none, none =>
      if argument = "help" then throw (helpOn rest)
      else
        match Verb.ofName? argument with
        | some verb => requestOf front verb rest
        | none => throw .usage

def readArguments (arguments : List String) : Except Stop Request :=
  readFrom Given.empty none arguments

end Imperative.Command
