import Imperative.Wasm.Module
import Imperative.Wasm.VarInt

/-!
# The binary format

A module is written as a header and sections in a fixed order.  A section is a byte
for its kind, its length and its contents; most hold a vector, which is a count and
that many entries, and a section without entries is left out.
-/

namespace Imperative.Wasm.Binary

abbrev Bytes := List UInt8

def number (value : Nat) : Bytes :=
  VarInt.unsigned value

def name (text : String) : Bytes :=
  let bytes := text.toUTF8.toList
  number bytes.length ++ bytes

def vector {α : Type} (entry : α → Bytes) (entries : List α) : Bytes :=
  number entries.length ++ entries.flatMap entry

def sectionBytes (kind : UInt8) (contents : Bytes) : Bytes :=
  kind :: number contents.length ++ contents

def vectorSection {α : Type} (kind : UInt8) (entry : α → Bytes) (entries : List α) : Bytes :=
  if entries.isEmpty then [] else sectionBytes kind (vector entry entries)

/-! ## Instructions -/

def closing : UInt8 := 0x0B

def otherwise : UInt8 := 0x05

def emptyBlock : UInt8 := 0x40

def double (value : Float) : Bytes :=
  let bits := value.toBits.toNat
  (List.range 8).map fun place => UInt8.ofNat (bits / Nat.pow 256 place)

def memArg (access : MemArg) : Bytes :=
  number access.align.toNat ++ number access.offset.toNat

mutual

def instruction : Instruction → Bytes
  | .block body => Instruction.opcode (.block body) :: emptyBlock :: code body ++ [closing]
  | .loop body => Instruction.opcode (.loop body) :: emptyBlock :: code body ++ [closing]
  | .conditional consequent [] =>
    Instruction.opcode (.conditional consequent []) :: emptyBlock :: code consequent ++ [closing]
  | .conditional consequent (first :: rest) =>
    Instruction.opcode (.conditional consequent (first :: rest)) :: emptyBlock ::
      code consequent ++ otherwise :: (instruction first ++ code rest) ++ [closing]
  | .br label => Instruction.opcode (.br label) :: number label
  | .brIf label => Instruction.opcode (.brIf label) :: number label
  | .call function => Instruction.opcode (.call function) :: number function
  | .localGet index => Instruction.opcode (.localGet index) :: number index
  | .localSet index => Instruction.opcode (.localSet index) :: number index
  | .globalGet index => Instruction.opcode (.globalGet index) :: number index
  | .globalSet index => Instruction.opcode (.globalSet index) :: number index
  | .load type access => Instruction.opcode (.load type access) :: memArg access
  | .store type access => Instruction.opcode (.store type access) :: memArg access
  | .i32Const value => Instruction.opcode (.i32Const value) :: VarInt.signed value.toInt
  | .f64Const value => Instruction.opcode (.f64Const value) :: double value
  | .unreachable => [Instruction.opcode .unreachable]
  | .nop => [Instruction.opcode .nop]
  | .ret => [Instruction.opcode .ret]
  | .drop => [Instruction.opcode .drop]
  | .numeric operation => [operation.opcode]

def code : List Instruction → Bytes
  | [] => []
  | first :: rest => instruction first ++ code rest

end

/-! ## Entries of sections -/

def funcType (type : FuncType) : Bytes :=
  let valueType (type : ValueType) : Bytes := [type.code]
  0x60 :: vector valueType type.parameters ++ vector valueType type.results

def importEntry (entry : Import) : Bytes :=
  name entry.module ++ name entry.name ++ 0x00 :: number entry.typeIndex

def functionEntry (function : Function) : Bytes :=
  number function.typeIndex

def limits : Limits → Bytes
  | { least, most := none } => 0x00 :: number least.toNat
  | { least, most := some most } => 0x01 :: number least.toNat ++ number most.toNat

def globalEntry (global : Global) : Bytes :=
  global.type.code :: (if global.mutable then 0x01 else 0x00) ::
    instruction global.initial ++ [closing]

def exportEntry (entry : Export) : Bytes :=
  name entry.name ++ entry.kind.code :: number entry.index

def runs : List ValueType → List (Nat × ValueType)
  | [] => []
  | type :: rest =>
    match runs rest with
    | (count, next) :: others =>
      if type = next then (count + 1, next) :: others else (1, type) :: (count, next) :: others
    | [] => [(1, type)]

def codeEntry (function : Function) : Bytes :=
  let run : Nat × ValueType → Bytes := fun (count, type) => number count ++ [type.code]
  let body := vector run (runs function.locals) ++ code function.body ++ [closing]
  number body.length ++ body

def dataEntry (segment : DataSegment) : Bytes :=
  number 0 ++ instruction (.i32Const segment.offset.toInt32) ++ closing ::
    number segment.bytes.length ++ segment.bytes

/-! ## Modules -/

/-- The bytes every module starts with: a mark and the version of the format. -/
def header : Bytes :=
  [0x00, 0x61, 0x73, 0x6D, 0x01, 0x00, 0x00, 0x00]

def encode (module : Module) : Bytes :=
  header ++
    vectorSection 1 funcType module.types ++
    vectorSection 2 importEntry module.imports ++
    vectorSection 3 functionEntry module.functions ++
    vectorSection 5 limits module.memory.toList ++
    vectorSection 6 globalEntry module.globals ++
    vectorSection 7 exportEntry module.exports ++
    vectorSection 10 codeEntry module.functions ++
    vectorSection 11 dataEntry module.data

end Imperative.Wasm.Binary
