import Imperative.Compiler.Settings
import Imperative.Source.Lines

/-!
# Settings documents

Settings are written as lines `key = value`, a part of the TOML format.  Values are truth
values, integers and strings; a string in double quotes may contain escapes and one in
single quotes is taken as it is.  A key may be given once, and unknown keys are ignored.
-/

namespace Imperative.Compiler.Document

inductive Value where
  | boolean (value : Bool)
  | integer (value : Int)
  | text (value : String)

/-! ## Characters -/

def isSpace (character : Char) : Bool :=
  character = ' ' || character = '\t'

/-- Whether a character may stand in a string or a comment: no control character but the tab. -/
def isPlain (character : Char) : Bool :=
  character = '\t' || (0x20 ≤ character.toNat && character.toNat ≠ 0x7F)

def skipSpaces (rest : List Char) : List Char :=
  rest.dropWhile isSpace

def isLineEnd (rest : List Char) : Bool :=
  match skipSpaces rest with
  | [] => true
  | '#' :: comment => comment.all isPlain
  | _ => false

def digit? (base : Nat) (character : Char) : Option Nat :=
  let code := character.toNat
  let value :=
    if '0' ≤ character ∧ character ≤ '9' then some (code - 0x30)
    else if 'a' ≤ character ∧ character ≤ 'f' then some (code - 0x61 + 10)
    else if 'A' ≤ character ∧ character ≤ 'F' then some (code - 0x41 + 10)
    else none
  value.filter fun value => value < base

def digits? (base : Nat) (digits : List Char) : Option Nat :=
  digits.foldlM (fun number character => (digit? base character).map (number * base + ·)) 0

/-! ## Strings -/

def character? (code : Nat) : Option Char :=
  if code.isValidChar then some (Char.ofNat code) else none

def escape? : Char → Option Char
  | 'b' => some '\x08'
  | 't' => some '\t'
  | 'n' => some '\n'
  | 'f' => some '\x0c'
  | 'r' => some '\r'
  | '"' => some '"'
  | '\\' => some '\\'
  | _ => none

def basicString : List Char → Option (List Char × List Char)
  | [] => none
  | '"' :: rest => some ([], rest)
  | '\\' :: 'u' :: a :: b :: c :: d :: rest => do
    let character ← (digits? 16 [a, b, c, d]).bind character?
    let (text, rest) ← basicString rest
    return (character :: text, rest)
  | '\\' :: 'U' :: a :: b :: c :: d :: e :: f :: g :: h :: rest => do
    let character ← (digits? 16 [a, b, c, d, e, f, g, h]).bind character?
    let (text, rest) ← basicString rest
    return (character :: text, rest)
  | '\\' :: letter :: rest => do
    let character ← escape? letter
    let (text, rest) ← basicString rest
    return (character :: text, rest)
  | character :: rest =>
    if isPlain character && character ≠ '\\' then do
      let (text, rest) ← basicString rest
      return (character :: text, rest)
    else none

def literalString (rest : List Char) : Option (List Char × List Char) :=
  match rest.dropWhile (fun character => character ≠ '\'') with
  | [] => none
  | _ :: following =>
    let text := rest.takeWhile fun character => character ≠ '\''
    if text.all isPlain then some (text, following) else none

/-! ## Values -/

def grouped? (base : Nat) (text : List Char) : Option Nat :=
  let groups := text.splitOn '_'
  if groups.any List.isEmpty then none else digits? base (groups.flatten)

def magnitude? : List Char → Option Nat
  | '0' :: 'x' :: rest => grouped? 16 rest
  | '0' :: 'o' :: rest => grouped? 8 rest
  | '0' :: 'b' :: rest => grouped? 2 rest
  | ['0'] => some 0
  | '0' :: _ => none
  | text => grouped? 10 text

def integer? (text : List Char) : Option Int :=
  let decimal? (text : List Char) : Option Nat :=
    match text with
    | '0' :: _ :: _ => none
    | _ => magnitude? text
  let value : Option Int :=
    match text with
    | '-' :: rest => (decimal? rest).map fun number => -(number : Int)
    | '+' :: rest => (decimal? rest).map fun number => (number : Int)
    | _ => (magnitude? text).map fun number => (number : Int)
  value.filter fun value => -9223372036854775808 ≤ value ∧ value ≤ 9223372036854775807

def word? (text : List Char) : Option Value :=
  if text = "true".toList then some (.boolean true)
  else if text = "false".toList then some (.boolean false)
  else (integer? text).map .integer

def value? : List Char → Option (Value × List Char)
  | '"' :: rest => (basicString rest).map fun (text, rest) => (.text (String.ofList text), rest)
  | '\'' :: rest => (literalString rest).map fun (text, rest) => (.text (String.ofList text), rest)
  | rest =>
    let isWord (character : Char) : Bool := !isSpace character && character ≠ '#'
    (word? (rest.takeWhile isWord)).map fun value => (value, rest.dropWhile isWord)

/-! ## Lines -/

def isKeyCharacter (character : Char) : Bool :=
  character.isAlphanum || character = '_' || character = '-'

def key? : List Char → Option (List Char × List Char)
  | '"' :: rest => basicString rest
  | '\'' :: rest => literalString rest
  | rest =>
    let key := rest.takeWhile isKeyCharacter
    if key.isEmpty then none else some (key, rest.dropWhile isKeyCharacter)

def entry? (line : List Char) : Option (String × Value) := do
  let (key, rest) ← key? line
  let '=' :: rest := skipSpaces rest | none
  let (value, rest) ← value? (skipSpaces rest)
  if isLineEnd rest then some (String.ofList key, value) else none

def entries? : List (List Char) → Option (List (String × Value))
  | [] => some []
  | line :: rest => do
    let others ← entries? rest
    if isLineEnd line then some others
    else
      let first ← entry? (skipSpaces line)
      some (first :: others)

def hasRepeatedKey : List (String × Value) → Bool
  | [] => false
  | (key, _) :: rest => rest.any (fun (other, _) => other = key) || hasRepeatedKey rest

/-- The entries of a document; none if it is malformed. -/
def parse? (text : String) : Option (List (String × Value)) :=
  (entries? (Text.lines text.toList)).filter fun entries => !hasRepeatedKey entries

/-! ## Settings -/

def level? : String → Option Level
  | "none" => some .off
  | "basic" => some .basic
  | _ => none

def emit? : String → Option EmitKind
  | "binary" => some .binary
  | "text" => some .text
  | "both" => some .both
  | _ => none

def withOptions (settings : Settings) (change : Lowering.Options → Lowering.Options) : Settings :=
  { settings with options := change settings.options }

def knownKeys : List String :=
  ["optimize", "opt_level", "host_module", "print_int_import", "print_real_import", "entry_point",
    "export_all_routines", "memory_export_name", "emit"]

/-- Apply an entry to settings; none if its value is of the wrong kind. -/
def assign? (settings : Settings) : String × Value → Option Settings
  | ("optimize", .boolean simplify) => some { settings with simplify }
  | ("opt_level", .text name) => (level? name).map fun level => { settings with level }
  | ("host_module", .text hostModule) =>
    some (withOptions settings fun options => { options with hostModule })
  | ("print_int_import", .text printInteger) =>
    some (withOptions settings fun options => { options with printInteger })
  | ("print_real_import", .text printReal) =>
    some (withOptions settings fun options => { options with printReal })
  | ("entry_point", .text entryPoint) =>
    some (withOptions settings fun options => { options with entryPoint })
  | ("export_all_routines", .boolean exportAll) =>
    some (withOptions settings fun options => { options with exportAll })
  | ("memory_export_name", .text memoryName) =>
    some (withOptions settings fun options => { options with memoryName })
  | ("emit", .text name) => (emit? name).map fun emit => { settings with emit }
  | (key, _) => if key ∈ knownKeys then none else some settings

/-- Read settings; what is not given has its standard value. -/
def readSettings (text : String) : Except SettingsError Settings := do
  let some entries := parse? text | throw .malformed
  let some settings := entries.foldlM assign? Settings.standard | throw .malformed
  settings.validate

end Imperative.Compiler.Document
