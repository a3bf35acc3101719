import Imperative.Wasm.Module
import Mathlib.Algebra.Group.Nat.Even

/-!
# Decoding the binary format

A decoder for modules, rule by rule as the format is defined; it knows nothing of how modules are
encoded.  A section without entries is refused.  Functions come out without a name.
-/

namespace Imperative.Wasm.Decode

/-- A decoder takes a value from the front of some bytes, or refuses them. -/
abbrev Decoder := StateT (List UInt8) Option

variable {α : Type}

/-- The next byte. -/
def byte : Decoder UInt8
  | [] => none
  | first :: rest => some (first, rest)

/-- A byte that has to be there. -/
def mark (expected : UInt8) : Decoder Unit := do
  guard ((← byte) = expected)

/-- Some bytes as they are. -/
def take (count : Nat) : Decoder (List UInt8) := fun bytes =>
  if count ≤ bytes.length then some (bytes.take count, bytes.drop count) else none

/-- A decoder that has to use up the bytes. -/
def complete (decoder : Decoder α) (bytes : List UInt8) : Option α := match decoder bytes with
  | some (val, []) => some val
  | _ => none

/-- A natural number of at most so many bits. -/
def unsigned : Nat → Decoder Nat
  | _, [] => none
  | bits, first :: rest =>
    if first.toNat < 128 then
      if first.toNat < 2 ^ bits then some (first.toNat, rest) else none
    else if 7 < bits then do
      let (high, rest) ← unsigned (bits - 7) rest
      return (128 * high + (first.toNat - 128), rest)
    else none

/-- An integer of at most so many bits. -/
def signed : Nat → Decoder Int
  | _, [] => none
  | bits, first :: rest =>
    if first.toNat < 64 then
      if first.toNat < 2 ^ (bits - 1) then some (first.toNat, rest) else none
    else if first.toNat < 128 then
      if 128 ≤ first.toNat + 2 ^ (bits - 1) then some (first.toNat - 128, rest) else none
    else if 7 < bits then do
      let (high, rest) ← signed (bits - 7) rest
      return (128 * high + (first.toNat - 128), rest)
    else none

/-- A natural number of 32 bits. -/
def number : Decoder Nat := unsigned 32

/-- The number of some bytes, the least one first. -/
def littleEndian : List UInt8 → Nat
  | [] => 0
  | first :: rest => first.toNat + 256 * littleEndian rest

/-- A float of eight bytes. -/
def double : Decoder Float := do
  return Float.ofBits (UInt64.ofNat (littleEndian (← take 8)))

/-- A name: the number of its bytes and the bytes. -/
def name : Decoder String := do
  String.fromUTF8? (← take (← number)).toByteArray

/-- Entries, as many as given. -/
def times (entry : Decoder α) : Nat → Decoder (List α)
  | 0 => return []
  | count + 1 => do
    let first ← entry
    return first :: (← times entry count)

/-- Entries after their number. -/
def vector (entry : Decoder α) : Decoder (List α) := do
  times entry (← number)

/-- Contents after their length. -/
def framed (contents : Decoder α) : Decoder α := do
  complete contents (← take (← number))

/-- A section, which is left out if it has no entries. -/
def optionalSection (kind : UInt8) (entry : Decoder α) : Decoder (List α) := do
  if (← get).head? = some kind then
    mark kind
    let entries ← framed (vector entry)
    guard (!entries.isEmpty)
    return entries
  else return []

/-- What follows an opcode. -/
inductive Shape where
  | plain (instruction : Instruction)
  | indexed (make : Nat → Instruction)
  | access (make : MemArg → Instruction)
  | nested (make : Code → Instruction)
  | conditional
  | i32Const
  | f64Const

/-- What follows an opcode. -/
def shape? (opcode : UInt8) : Option Shape := match opcode.toNat with
  | 0x00 => some (.plain .unreachable)
  | 0x01 => some (.plain .nop)
  | 0x02 => some (.nested .block)
  | 0x03 => some (.nested .loop)
  | 0x04 => some .conditional
  | 0x0C => some (.indexed .br)
  | 0x0D => some (.indexed .brIf)
  | 0x0F => some (.plain .ret)
  | 0x10 => some (.indexed .call)
  | 0x1A => some (.plain .drop)
  | 0x20 => some (.indexed .localGet)
  | 0x21 => some (.indexed .localSet)
  | 0x23 => some (.indexed .globalGet)
  | 0x24 => some (.indexed .globalSet)
  | 0x28 => some (.access (.load .i32))
  | 0x2B => some (.access (.load .f64))
  | 0x36 => some (.access (.store .i32))
  | 0x39 => some (.access (.store .f64))
  | 0x41 => some .i32Const
  | 0x44 => some .f64Const
  | 0x45 => some (.plain (.numeric .i32Eqz))
  | 0x46 => some (.plain (.numeric .i32Eq))
  | 0x47 => some (.plain (.numeric .i32Ne))
  | 0x48 => some (.plain (.numeric .i32LtS))
  | 0x4A => some (.plain (.numeric .i32GtS))
  | 0x4C => some (.plain (.numeric .i32LeS))
  | 0x4E => some (.plain (.numeric .i32GeS))
  | 0x61 => some (.plain (.numeric .f64Eq))
  | 0x62 => some (.plain (.numeric .f64Ne))
  | 0x63 => some (.plain (.numeric .f64Lt))
  | 0x64 => some (.plain (.numeric .f64Gt))
  | 0x65 => some (.plain (.numeric .f64Le))
  | 0x66 => some (.plain (.numeric .f64Ge))
  | 0x6A => some (.plain (.numeric .i32Add))
  | 0x6B => some (.plain (.numeric .i32Sub))
  | 0x6C => some (.plain (.numeric .i32Mul))
  | 0x6D => some (.plain (.numeric .i32DivS))
  | 0x6F => some (.plain (.numeric .i32RemS))
  | 0x71 => some (.plain (.numeric .i32And))
  | 0x72 => some (.plain (.numeric .i32Or))
  | 0x73 => some (.plain (.numeric .i32Xor))
  | 0x9A => some (.plain (.numeric .f64Neg))
  | 0x9D => some (.plain (.numeric .f64Trunc))
  | 0xA0 => some (.plain (.numeric .f64Add))
  | 0xA1 => some (.plain (.numeric .f64Sub))
  | 0xA2 => some (.plain (.numeric .f64Mul))
  | 0xA3 => some (.plain (.numeric .f64Div))
  | 0xAA => some (.plain (.numeric .i32TruncF64S))
  | 0xB7 => some (.plain (.numeric .f64ConvertI32S))
  | _ => none

/-- What instructions one after the other are ended by. -/
inductive Ending where
  | closing
  | otherwise
  deriving DecidableEq

/-- The end of a block. -/
def ending? (byte : UInt8) : Option Ending :=
  if byte = 0x0B then some .closing else if byte = 0x05 then some .otherwise else none

/-- Alignment and offset of an access. -/
def memArg : Decoder MemArg := do
  let align ← number
  let offset ← number
  return { align := UInt32.ofNat align, offset := UInt32.ofNat offset }

mutual

def instruction : Nat → Decoder Instruction
  | 0 => failure
  | depth + 1 => do
    match shape? (← byte) with
    | none => failure
    | some (.plain instruction) => return instruction
    | some (.indexed make) => return make (← number)
    | some (.access make) => return make (← memArg)
    | some (.nested make) =>
      mark 0x40
      let (body, ending) ← code depth
      guard (ending = .closing)
      return make body
    | some .conditional =>
      mark 0x40
      let (consequent, ending) ← code depth
      match ending with
      | .closing => return .conditional consequent []
      | .otherwise =>
        let (alternative, ending) ← code depth
        guard (ending = .closing)
        return .conditional consequent alternative
    | some .i32Const => return .i32Const (Int32.ofInt (← signed 32))
    | some .f64Const => return .f64Const (← double)

/-- Instructions up to the end of a block. -/
def code : Nat → Decoder (Code × Ending)
  | 0 => failure
  | depth + 1 => do
    match (← get).head?.bind ending? with
    | some ending =>
      let _ ← byte
      return ([], ending)
    | none =>
      let first ← instruction depth
      let (others, ending) ← code depth
      return (first :: others, ending)

end

/-- Instructions and the mark that closes them.  The depth to which they hold each other is less
than their length. -/
def expression : Decoder Code := do
  let (body, ending) ← code (← get).length
  guard (ending = .closing)
  return body

def valueType : Decoder ValueType := do
  match (← byte).toNat with
  | 0x7F => return .i32
  | 0x7C => return .f64
  | _ => failure

def funcType : Decoder FuncType := do
  mark 0x60
  let parameters ← vector valueType
  let results ← vector valueType
  return { parameters, results }

def importEntry : Decoder Import := do
  let module ← name
  let name ← name
  mark 0x00
  let typeIndex ← number
  return { module, name, typeIndex }

/-- The limits of a memory. -/
def limits : Decoder Limits := do
  match (← byte).toNat with
  | 0x00 => return { least := UInt32.ofNat (← number), most := none }
  | 0x01 =>
    let least ← number
    let most ← number
    return { least := UInt32.ofNat least, most := some (UInt32.ofNat most) }
  | _ => failure

/-- Whether a global may change. -/
def mutability : Decoder Bool := do
  match (← byte).toNat with
  | 0x00 => return false
  | 0x01 => return true
  | _ => failure

def globalEntry : Decoder Global := do
  let type ← valueType
  let mutable ← mutability
  match ← expression with
  | [init] => return { type := type, mutable, initial := init }
  | _ => failure

/-- What is exported. -/
def exportKind : Decoder ExportKind := do
  match (← byte).toNat with
  | 0x00 => return .function
  | 0x02 => return .memory
  | _ => failure

def exportEntry : Decoder Export := do
  let name ← name
  let kind ← exportKind
  let index ← number
  return { name, kind, index := index }

/-- A number of locals of one type. -/
def localRun : Decoder (List ValueType) := do
  let count ← number
  return List.replicate count (← valueType)

/-- The locals and the code of a function. -/
def functionBody : Decoder (List ValueType × Code) := do
  let runs ← vector localRun
  let body ← expression
  return (runs.flatten, body)

/-- Bytes that the first memory holds at the start, from a constant place on. -/
def dataEntry : Decoder DataSegment := do
  guard ((← number) = 0)
  match ← expression with
  | [.i32Const offset] =>
    let bytes ← take (← number)
    return { offset := offset.toUInt32, bytes }
  | _ => failure

/-- The bytes every module starts with: a mark and the version of the format. -/
def header : List UInt8 := [0x00, 0x61, 0x73, 0x6D, 0x01, 0x00, 0x00, 0x00]

/-- Functions from their types and bodies. -/
def functions (types : List Nat) (bodies : List (List ValueType × Code)) :
    Option (List Function) := do
  guard (types.length = bodies.length)
  return types.zipWith
    (fun typeIndex body => { name := "", typeIndex, locals := body.1, body := body.2 }) bodies

/-- At most one memory. -/
def memory : List Limits → Option (Option Limits)
  | [] => return none
  | [limits] => return some limits
  | _ => none

/-- The sections of a module in order. -/
def parts : Decoder Module := do
  guard ((← take 8) = header)
  let types ← optionalSection 1 funcType
  let imports ← optionalSection 2 importEntry
  let typeIndices ← optionalSection 3 number
  let memories ← optionalSection 5 limits
  let globals ← optionalSection 6 globalEntry
  let exports ← optionalSection 7 exportEntry
  let bodies ← optionalSection 10 (framed functionBody)
  let data ← optionalSection 11 dataEntry
  let functions ← functions typeIndices bodies
  let memory ← memory memories
  return { types, imports, functions, memory, globals, exports, data }

/-- A module from all its bytes. -/
def module : List UInt8 → Option Module := complete parts

end Imperative.Wasm.Decode
