import Imperative.Lowering.Code
import Imperative.Lowering.Frame

/-!
# Copying and clearing aggregates

Aggregates are values: to assign one is to copy it, and a declaration starts from a
cleared one.  Both leave the lengths of arrays as they are.
-/

namespace Imperative.Lowering

open Wasm (Code Instruction)

/-- Set `remaining` to the number of bytes of as many elements as both arrays have. -/
def commonBytes (source target remaining stride : Nat) : Code :=
  [.localGet target, load .i32 0, .localSet remaining,
    .localGet source, load .i32 0, .localGet remaining, compute .i32LtS,
    .conditional [.localGet source, load .i32 0, .localSet remaining] [],
    .localGet remaining, word stride, compute .i32Mul, .localSet remaining]

def copyWords (source target remaining : Nat) : Instruction :=
  repeating
    ([.localGet remaining, .i32Const 0, compute .i32LeS, .brIf 1,
        .localGet target, .localGet source, load .i32 0, store .i32 0] ++
      bump target 4 .i32Add ++ bump source 4 .i32Add ++ bump remaining 4 .i32Sub ++ [.br 0])

/-- What is set up before words are copied: how many bytes, and from where to where. -/
def copySetup (source target remaining : Nat) : Ty → Except Error Code
  | .array element _ => do
    let stride ← size element
    let start := dataOffset element
    return commonBytes source target remaining stride ++
      bump target start .i32Add ++ bump source start .i32Add
  | type => do
    let bytes ← size type
    return [word bytes, .localSet remaining]

/--
Copy between two values of the type, whose addresses are on the stack: the target below
the source.  Of arrays, as many elements are copied as both have.
-/
def copyAggregate (type : Ty) : Emit Code := do
  let source ← acquire .i32
  let target ← acquire .i32
  let remaining ← acquire .i32
  let setup ← copySetup source target remaining type
  release .i32 remaining
  release .i32 target
  release .i32 source
  return [.localSet source, .localSet target] ++ setup ++ [copyWords source target remaining]

def clearScalar (offset : UInt32) (type : Ty) : Except Error Code :=
  match valueType? type with
  | some valueType => return [zero valueType, store valueType offset]
  | none => throw (.defect (.noValue type))

def clearElements (base remaining start stride : Nat) (clearOne : Code) : Code :=
  [.localGet base, load .i32 0, .localSet remaining] ++ bump base start .i32Add ++
    [repeating
      ([.localGet remaining, .i32Const 0, compute .i32LeS, .brIf 1, .localGet base] ++ clearOne ++
        bump base stride .i32Add ++ bump remaining 1 .i32Sub ++ [.br 0])]

mutual

def clearAggregate : Ty → Emit Code
  | .record name fields => do
    let base ← acquire .i32
    let code ← clearFields name fields base fields
    release .i32 base
    return .localSet base :: code
  | .array element _ => do
    let base ← acquire .i32
    let stride ← size element
    let remaining ← acquire .i32
    let clearOne ←
      if element.isAggregate then clearAggregate element else clearScalar 0 element
    release .i32 remaining
    release .i32 base
    return .localSet base :: clearElements base remaining (dataOffset element) stride clearOne
  | type => throw (.defect (.notAggregate type))

def clearFields (record : String) (all : List (String × Ty)) (base : Nat) :
    List (String × Ty) → Emit Code
  | [] => return []
  | (name, type) :: rest => do
    let (offset, _) ← fieldOffset record all name
    let clearOne ←
      if type.isAggregate then do
        let inner ← clearAggregate type
        pure (plus offset ++ inner)
      else
        clearScalar (UInt32.ofNat offset) type
    let others ← clearFields record all base rest
    return .localGet base :: clearOne ++ others

end

end Imperative.Lowering
