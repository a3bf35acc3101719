import Imperative.Lowering.Layout
import Imperative.Wasm.Module

/-!
# Static memory

Every variable of an aggregate type has a region of its own for the whole run.  The
regions follow each other, and of their contents only the lengths of arrays are not
zero, so a memory is described by where it ends and by these lengths.
-/

namespace Imperative.Lowering

open Wasm (DataSegment)

/-- The length of an array and its address. -/
structure Header where
  address : Nat
  length : Nat

def Header.shift (bytes : Nat) (header : Header) : Header :=
  { header with address := bytes + header.address }

def elementHeaders (start stride length : Nat) (first : List Header) : List Header :=
  if first.isEmpty then []
  else (List.range length).flatMap fun index => first.map (Header.shift (start + index * stride))

mutual

def headers : Ty → Except Error (List Header)
  | .array element (some length) => do
    let stride ← size element
    let first ← headers element
    return { address := 0, length } :: elementHeaders (dataOffset element) stride length first
  | .record name fields => fieldHeaders name fields fields
  | _ => return []

def fieldHeaders (record : String) (all : List (String × Ty)) :
    List (String × Ty) → Except Error (List Header)
  | [] => return []
  | (name, type) :: rest => do
    let (offset, _) ← fieldOffset record all name
    let inner ← headers type
    let outer ← fieldHeaders record all rest
    return inner.map (Header.shift offset) ++ outer

end

/-- The memory used so far: where it ends, and the headers in the order of their regions. -/
structure StaticMemory where
  stop : Nat
  headers : List Header

namespace StaticMemory

def empty : StaticMemory :=
  { stop := 0, headers := [] }

def isUsed (memory : StaticMemory) : Bool :=
  decide (0 < memory.stop)

def pageSize : Nat := 65536

def pages (memory : StaticMemory) : Nat :=
  max ((memory.stop + pageSize - 1) / pageSize) 1

/--
A region for a value of the type, after what is in use.  It ends below the limit of addresses, so
it never needs more pages than a memory can have, and their number is not looked at.
-/
def allocate (type : Ty) (memory : StaticMemory) : Except Error (Nat × StaticMemory) := do
  let address ← bounded (alignUp memory.stop (alignment type))
  let bytes ← size type
  let stop ← bounded (address + bytes)
  let inner ← Lowering.headers type
  return (address, { stop, headers := memory.headers ++ inner.map (Header.shift address) })

end StaticMemory

/-! ## Data segments -/

def lengthBytes (length : Nat) : List UInt8 :=
  (List.range 4).map fun place => UInt8.ofNat (length / Nat.pow 256 place)

def segmentGap : Nat := 16

/-- Bytes and their address. -/
structure Stretch where
  address : Nat
  bytes : List UInt8

/--
The bytes that continue a stretch which ends at `stop`, and the stretches after it.  A
header close to the end of the stretch continues it; any other starts the next one.
-/
def continueStretch (stop : Nat) : List Header → List UInt8 × List Stretch
  | [] => ([], [])
  | header :: rest =>
    let gap := header.address - stop
    if gap ≤ segmentGap then
      let (bytes, later) := continueStretch (stop + gap + lengthSize) rest
      (List.replicate gap 0 ++ lengthBytes header.length ++ bytes, later)
    else
      let (bytes, later) := continueStretch (header.address + lengthSize) rest
      let next : Stretch :=
        { address := header.address, bytes := lengthBytes header.length ++ bytes }
      ([], next :: later)

def stretches : List Header → List Stretch
  | [] => []
  | header :: rest =>
    let (bytes, later) := continueStretch (header.address + lengthSize) rest
    { address := header.address, bytes := lengthBytes header.length ++ bytes } :: later

/-- The stretch without the zeros at both ends; none if there is nothing else. -/
def Stretch.trim (stretch : Stretch) : Option Stretch :=
  let zeros := (stretch.bytes.takeWhile fun byte => byte = 0).length
  let bytes := (stretch.bytes.drop zeros).reverse.dropWhile fun byte => byte = 0
  if bytes.isEmpty then none
  else some { address := stretch.address + zeros, bytes := bytes.reverse }

def StaticMemory.segments (memory : StaticMemory) : List DataSegment :=
  (stretches memory.headers).filterMap fun stretch =>
    stretch.trim.map fun trimmed =>
      { offset := UInt32.ofNat trimmed.address, bytes := trimmed.bytes }

end Imperative.Lowering
