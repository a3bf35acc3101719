import Imperative.Lowering.Layout

/-!
# Pieces of code

Short sequences of instructions that lowering puts together.
-/

namespace Imperative.Lowering

open Wasm (Code Instruction MemArg Numeric ValueType)

/-- The type of a value on the stack; a type without values is refused. -/
def scalarType (span : Span) (type : Ty) : Except Error ValueType :=
  match valueType? type with
  | some valueType => return valueType
  | none => throw (.refuse span (.noRepresentation type))

def word (number : Nat) : Instruction :=
  .i32Const (Int32.ofNat number)

def compute (operation : Numeric) : Instruction :=
  .numeric operation

def zero : ValueType → Instruction
  | .i32 => .i32Const 0
  | .f64 => .f64Const 0.0

def load (type : ValueType) (offset : UInt32) : Instruction :=
  .load type (MemArg.natural type offset)

def store (type : ValueType) (offset : UInt32) : Instruction :=
  .store type (MemArg.natural type offset)

def plus (number : Nat) : Code :=
  [word number, compute .i32Add]

def addOffset (offset : UInt32) : Code :=
  if offset = 0 then [] else plus offset.toNat

def bump (index : Nat) (number : Nat) (step : Numeric) : Code :=
  [.localGet index, word number, compute step, .localSet index]

/-- A loop that is left by a branch to label one and repeated by a branch to label zero. -/
def repeating (body : Code) : Instruction :=
  .block [.loop body]

def coerce (source target : Ty) : Code :=
  if target.isReal && (source.isInteger || source.isBoolean) then
    [compute .f64ConvertI32S]
  else if target.isBoolean && source.isInteger then
    [.i32Const 0, compute .i32Ne]
  else if target.isBoolean && source.isReal then
    [.f64Const 0.0, compute .f64Ne]
  else if target.isInteger && source.isReal then
    [compute .i32TruncF64S]
  else []

end Imperative.Lowering
