import Imperative.Lowering.Error
import Imperative.Wasm.Instruction

/-!
# Frames

The locals of the function being built.  A variable gets a local of its own, and code
that needs a temporary borrows one of the right type and gives it back.
-/

namespace Imperative.Lowering

open Wasm (ValueType)

/-- The locals after the parameters, and the temporaries that are free, the newest first. -/
structure Frame where
  parameters : Nat
  locals : List ValueType
  free : List (ValueType × Nat)

def Frame.start (parameters : Nat) : Frame :=
  { parameters, locals := [], free := [] }

abbrev Emit := StateT Frame (Except Error)

/-- Take the newest entry of the type from `older` and leave `newest` in its place. -/
def replaceFree (type : ValueType) (newest : ValueType × Nat) :
    List (ValueType × Nat) → Option (Nat × List (ValueType × Nat))
  | [] => none
  | entry :: rest =>
    if entry.1 = type then some (entry.2, newest :: rest)
    else (replaceFree type newest rest).map fun (index, rest) => (index, entry :: rest)

/--
Take the newest temporary of the type.  If it is not the newest of all, that one moves
to the place it leaves.
-/
def takeFree (type : ValueType) :
    List (ValueType × Nat) → Option (Nat × List (ValueType × Nat))
  | [] => none
  | newest :: older =>
    if newest.1 = type then some (newest.2, older) else replaceFree type newest older

def addLocal (type : ValueType) : Emit Nat := do
  let frame ← get
  set { frame with locals := frame.locals ++ [type] }
  return frame.parameters + frame.locals.length

def acquire (type : ValueType) : Emit Nat := do
  let frame ← get
  match takeFree type frame.free with
  | some (index, free) =>
    set { frame with free }
    return index
  | none => addLocal type

def release (type : ValueType) (index : Nat) : Emit Unit :=
  modify fun frame => { frame with free := (type, index) :: frame.free }

end Imperative.Lowering
