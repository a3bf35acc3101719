import Imperative.Lowering.Program

/-!
# Settings

What can be chosen about a compilation: whether to simplify the program, the names that
the module uses, and what is written out.
-/

namespace Imperative.Compiler

/-- What is wrong with settings. -/
inductive SettingsError where
  | unknownLevel (text : String)
  | unknownEmit (text : String)
  | emptyName (key : String)
  | samePrinters (name : String)
  | malformed

def SettingsError.message : SettingsError → String
  | unknownLevel text => "無効な最適化レベル: " ++ text
  | unknownEmit text => "無効な出力形式: " ++ text
  | emptyName key => "'" ++ key ++ "' に空文字列は指定できません"
  | samePrinters name => "整数と実数の出力関数が同じ名前です: " ++ name
  | malformed => "設定ファイルの形式が正しくありません"

/-- How much a program is simplified. -/
inductive Level where
  | off
  | basic
  deriving DecidableEq

namespace Level

def describe : Level → String
  | off => "none"
  | basic => "basic"

def parse (text : String) : Except SettingsError Level :=
  match text.map Char.toLower with
  | "0" | "none" => return off
  | "1" | "basic" => return basic
  | _ => throw (.unknownLevel text)

def ofNumber (number : Nat) : Level :=
  if number = 0 then off else basic

end Level

/-- What is written out. -/
inductive EmitKind where
  | binary
  | text
  | both
  deriving DecidableEq

namespace EmitKind

def describe : EmitKind → String
  | binary => "binary"
  | text => "text"
  | both => "both"

def parse (name : String) : Except SettingsError EmitKind :=
  match name.map Char.toLower with
  | "binary" | "wasm" => return binary
  | "text" | "wat" => return text
  | "both" => return both
  | _ => throw (.unknownEmit name)

def includesBinary : EmitKind → Bool
  | binary | both => true
  | text => false

def includesText : EmitKind → Bool
  | text | both => true
  | binary => false

end EmitKind

structure Settings where
  simplify : Bool
  level : Level
  options : Lowering.Options
  emit : EmitKind

namespace Settings

def standard : Settings :=
  { simplify := true, level := .basic, options := Lowering.Options.standard, emit := .binary }

def simplifies (settings : Settings) : Bool :=
  settings.simplify && settings.level != .off

def isBlank (character : Char) : Bool :=
  let code := character.toNat
  (0x09 ≤ code && code ≤ 0x0D) || (0x2000 ≤ code && code ≤ 0x200A) ||
    code ∈ [0x20, 0x85, 0xA0, 0x1680, 0x2028, 0x2029, 0x202F, 0x205F, 0x3000]

def names (settings : Settings) : List (String × String) :=
  [("host_module", settings.options.hostModule),
    ("print_int_import", settings.options.printInteger),
    ("print_real_import", settings.options.printReal),
    ("entry_point", settings.options.entryPoint),
    ("memory_export_name", settings.options.memoryName)]

/-- Check that no name is blank and that the two functions that print have different names. -/
def validate (settings : Settings) : Except SettingsError Settings :=
  match settings.names.find? fun (_, name) => name.toList.all isBlank with
  | some (key, _) => throw (.emptyName key)
  | none =>
    if settings.options.printInteger = settings.options.printReal then
      throw (.samePrinters settings.options.printInteger)
    else return settings

end Settings

end Imperative.Compiler
