import Imperative.Lowering.Error
import Imperative.Wasm.Instruction

/-!
# Layout

How values lie in memory.  Integers and booleans take four bytes and reals eight.  The
fields of a record follow each other in the order of declaration, each at the next
multiple of its alignment.  An array starts with its length, in four bytes, and its
elements follow.  Addresses have 32 bits, and a type whose size does not fit in them is
refused.
-/

namespace Imperative.Lowering

open Wasm (ValueType)

/-- The type of a value on the stack; aggregates are represented by their address. -/
def valueType? : Ty → Option ValueType
  | .integer | .boolean | .array _ _ | .record _ _ => some .i32
  | .real => some .f64
  | .void | .error => none

def addressLimit : Nat := 4294967296

def bounded (number : Nat) : Except Error Nat :=
  if number < addressLimit then return number else throw (.refused .tooLarge none)

/-- The least multiple of `align` from `number` on. -/
def alignUp (number align : Nat) : Nat :=
  (number + align - 1) / align * align

mutual

def alignment : Ty → Nat
  | .real => 8
  | .record _ fields => fieldsAlignment fields
  | .array element _ => max (alignment element) 4
  | .integer | .boolean | .void | .error => 4

def fieldsAlignment : List (String × Ty) → Nat
  | [] => 4
  | (_, type) :: rest => max (alignment type) (fieldsAlignment rest)

end

def lengthSize : Nat := 4

def dataOffset (element : Ty) : Nat :=
  alignUp lengthSize (alignment element)

mutual

def size : Ty → Except Error Nat
  | .integer | .boolean => return 4
  | .real => return 8
  | .record name fields => do
    let stop ← fieldsSize 0 fields
    bounded (alignUp stop (alignment (.record name fields)))
  | .array element (some length) => do
    let stride ← size element
    let length ← bounded length
    let elements ← bounded (stride * length)
    bounded (dataOffset element + elements)
  | .array element none => throw (.refused (.noStaticSize (.array element none)) none)
  | .void => throw (.defect (.notPlaceable .void))
  | .error => throw (.defect (.notPlaceable .error))

/-- Where fields end that start after `offset`. -/
def fieldsSize (offset : Nat) : List (String × Ty) → Except Error Nat
  | [] => return offset
  | (_, type) :: rest => do
    let start ← bounded (alignUp offset (alignment type))
    let bytes ← size type
    let stop ← bounded (start + bytes)
    fieldsSize stop rest

end

/-- The offset and the type of a field, among fields that start after `offset`. -/
def fieldFrom (record field : String) (offset : Nat) :
    List (String × Ty) → Except Error (Nat × Ty)
  | [] => throw (.defect (.missingField record field))
  | (name, type) :: rest => do
    let start ← bounded (alignUp offset (alignment type))
    if name = field then return (start, type)
    else
      let bytes ← size type
      let stop ← bounded (start + bytes)
      fieldFrom record field stop rest

def fieldOffset (record : String) (fields : List (String × Ty)) (field : String) :
    Except Error (Nat × Ty) :=
  fieldFrom record field 0 fields

end Imperative.Lowering
