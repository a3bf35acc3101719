import Imperative.Real.Decimal
import Imperative.Wasm.Module

/-!
# The text format

A module as lines of text.  The numbers of types, functions, globals and segments are
the ones of the binary format and stand in comments.
-/

namespace Imperative.Wasm.Text

/--
Constants are written positionally from `10 ^ -4` up to `10 ^ 16` and with an exponent
outside of that.
-/
def realLayout : Real.Layout :=
  { positionalFrom := -4
    positionalBelow := 16
    exponentMark := "e"
    notANumber := "nan"
    infinity := "inf" }

def real (value : Float) : String :=
  realLayout.write value

def hexDigit (digit : Nat) : Char :=
  ((Nat.toDigits 16 digit).head?).getD '0'

/-- A byte inside a string: printable characters as they are, and all others by their code. -/
def escapeByte (byte : UInt8) : List Char :=
  let code := byte.toNat
  if 0x20 ≤ code ∧ code ≤ 0x7E ∧ code ≠ 0x22 ∧ code ≠ 0x5C then [Char.ofNat code]
  else ['\\', hexDigit (code / 16), hexDigit (code % 16)]

def quotedBytes (bytes : List UInt8) : String :=
  "\"" ++ String.ofList (bytes.flatMap escapeByte) ++ "\""

def quotedName (name : String) : String :=
  quotedBytes name.toUTF8.toList

def indentation (depth : Nat) : String :=
  String.ofList (List.replicate (2 * depth) ' ')

def line (depth : Nat) (text : String) : String :=
  indentation depth ++ text

def label (index : Nat) : String :=
  "(;" ++ toString index ++ ";)"

def valueTypes (types : List ValueType) : String :=
  " ".intercalate (types.map ValueType.name)

def typeGroup (word : String) (types : List ValueType) : String :=
  if types.isEmpty then "" else " (" ++ word ++ " " ++ valueTypes types ++ ")"

/-! ## Instructions -/

def memArg (type : ValueType) (access : MemArg) : String :=
  (if access.offset = 0 then "" else " offset=" ++ toString access.offset.toNat) ++
    if access.align = type.naturalAlign then ""
    else " align=" ++ toString ((1 : UInt32) <<< access.align).toNat

def immediate : Instruction → String
  | .br label => " " ++ toString label
  | .brIf label => " " ++ toString label
  | .call function => " " ++ toString function
  | .localGet index => " " ++ toString index
  | .localSet index => " " ++ toString index
  | .globalGet index => " " ++ toString index
  | .globalSet index => " " ++ toString index
  | .load type access => memArg type access
  | .store type access => memArg type access
  | .i32Const value => " " ++ toString value.toInt
  | .f64Const value => " " ++ real value
  | _ => ""

def plain (instruction : Instruction) : String :=
  instruction.mnemonic ++ immediate instruction

mutual

def instruction (depth : Nat) : Instruction → List String
  | .block body => line depth "block" :: code (depth + 1) body ++ [line depth "end"]
  | .loop body => line depth "loop" :: code (depth + 1) body ++ [line depth "end"]
  | .conditional consequent [] =>
    line depth "if" :: code (depth + 1) consequent ++ [line depth "end"]
  | .conditional consequent (first :: rest) =>
    line depth "if" :: code (depth + 1) consequent ++
      line depth "else" :: (instruction (depth + 1) first ++ code (depth + 1) rest) ++
      [line depth "end"]
  | other => [line depth (plain other)]

def code (depth : Nat) : List Instruction → List String
  | [] => []
  | first :: rest => instruction depth first ++ code depth rest

end

/-! ## Entries -/

def funcType (index : Nat) (type : FuncType) : String :=
  line 1 ("(type " ++ label index ++ " (func" ++ typeGroup "param" type.parameters ++
    typeGroup "result" type.results ++ "))")

def importEntry (index : Nat) (entry : Import) : String :=
  line 1 ("(import " ++ quotedName entry.module ++ " " ++ quotedName entry.name ++ " (func " ++
    label index ++ " (type " ++ toString entry.typeIndex ++ ")))")

def memory (limits : Limits) : String :=
  let most :=
    match limits.most with
    | some most => " " ++ toString most.toNat
    | none => ""
  line 1 ("(memory " ++ label 0 ++ " " ++ toString limits.least.toNat ++ most ++ ")")

def globalEntry (index : Nat) (global : Global) : String :=
  let type := if global.mutable then "(mut " ++ global.type.name ++ ")" else global.type.name
  line 1 ("(global " ++ label index ++ " " ++ type ++ " (" ++ plain global.initial ++ "))")

def functionEntry (index : Nat) (function : Function) : List String :=
  let locals :=
    if function.locals.isEmpty then []
    else [line 2 ("(local " ++ valueTypes function.locals ++ ")")]
  line 1 ("(func " ++ label index ++ " (type " ++ toString function.typeIndex ++ ")") ::
    locals ++ code 2 function.body ++ [line 1 ")"]

def exportEntry (entry : Export) : String :=
  line 1 ("(export " ++ quotedName entry.name ++ " (" ++ entry.kind.keyword ++ " " ++
    toString entry.index ++ "))")

def dataEntry (index : Nat) (segment : DataSegment) : String :=
  line 1 ("(data " ++ label index ++ " (i32.const " ++ toString segment.offset.toNat ++ ") " ++
    quotedBytes segment.bytes ++ ")")

def lines (module : Module) : List String :=
  let functions :=
    module.functions.mapIdx fun position function =>
      functionEntry (module.functionIndex position) function
  "(module" ::
    module.types.mapIdx funcType ++
    module.imports.mapIdx importEntry ++
    module.memory.toList.map memory ++
    module.globals.mapIdx globalEntry ++
    functions.flatten ++
    module.exports.map exportEntry ++
    module.data.mapIdx dataEntry ++
    [")"]

def encode (module : Module) : String :=
  String.join ((lines module).map fun line => line ++ "\n")

end Imperative.Wasm.Text
