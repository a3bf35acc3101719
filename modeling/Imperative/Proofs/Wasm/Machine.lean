import Imperative.Proofs.Wasm.Validation

/-!
# The machine

Code turns a state into another one, or it ends early: by a branch to a block around it, by
returning from the function, or by a trap.  The functions that a module imports are not run; each
call of one is noted with its arguments.  All blocks have the empty type.
-/

namespace Imperative.Wasm

/-- A value on the stack. -/
inductive Value where
  | i32 (value : Int32)
  | f64 (value : Float)

namespace Value

/-- A truth value on the stack. -/
def ofBool (truth : Bool) : Value := .i32 (if truth then 1 else 0)

/-- The first value of a local. -/
def zero : ValueType → Value
  | .i32 => .i32 0
  | .f64 => .f64 0.0

end Value

/-- What a computing instruction gives; it is stuck on operands of the wrong types. -/
inductive Computed where
  | value (value : Value)
  | trap
  | stuck

/-- The float without its fraction. -/
def truncate (value : Float) : Float := if value < 0.0 then value.ceil else value.floor

/-- What a computing instruction gives for its operands, the deepest one first. -/
def Numeric.apply : Numeric → List Value → Computed
  | i32Eqz, [.i32 a] => .value (.ofBool (a == 0))
  | i32Eq, [.i32 a, .i32 b] => .value (.ofBool (a == b))
  | i32Ne, [.i32 a, .i32 b] => .value (.ofBool (a != b))
  | i32LtS, [.i32 a, .i32 b] => .value (.ofBool (a < b))
  | i32GtS, [.i32 a, .i32 b] => .value (.ofBool (b < a))
  | i32LeS, [.i32 a, .i32 b] => .value (.ofBool (a ≤ b))
  | i32GeS, [.i32 a, .i32 b] => .value (.ofBool (b ≤ a))
  | f64Eq, [.f64 a, .f64 b] => .value (.ofBool (a == b))
  | f64Ne, [.f64 a, .f64 b] => .value (.ofBool (a != b))
  | f64Lt, [.f64 a, .f64 b] => .value (.ofBool (a < b))
  | f64Gt, [.f64 a, .f64 b] => .value (.ofBool (b < a))
  | f64Le, [.f64 a, .f64 b] => .value (.ofBool (a ≤ b))
  | f64Ge, [.f64 a, .f64 b] => .value (.ofBool (b ≤ a))
  | i32Add, [.i32 a, .i32 b] => .value (.i32 (a + b))
  | i32Sub, [.i32 a, .i32 b] => .value (.i32 (a - b))
  | i32Mul, [.i32 a, .i32 b] => .value (.i32 (a * b))
  | i32DivS, [.i32 a, .i32 b] =>
    if b = 0 then .trap
    else if a = Int32.minValue ∧ b = -1 then .trap
    else .value (.i32 (a / b))
  | i32RemS, [.i32 a, .i32 b] => if b = 0 then .trap else .value (.i32 (a % b))
  | i32And, [.i32 a, .i32 b] => .value (.i32 (a &&& b))
  | i32Or, [.i32 a, .i32 b] => .value (.i32 (a ||| b))
  | i32Xor, [.i32 a, .i32 b] => .value (.i32 (a ^^^ b))
  | f64Neg, [.f64 a] => .value (.f64 (-a))
  | f64Trunc, [.f64 a] => .value (.f64 (truncate a))
  | f64Add, [.f64 a, .f64 b] => .value (.f64 (a + b))
  | f64Sub, [.f64 a, .f64 b] => .value (.f64 (a - b))
  | f64Mul, [.f64 a, .f64 b] => .value (.f64 (a * b))
  | f64Div, [.f64 a, .f64 b] => .value (.f64 (a / b))
  | i32TruncF64S, [.f64 a] =>
    -- A value that is not a number fails both comparisons.
    if -2147483649.0 < a ∧ a < 2147483648.0 then .value (.i32 (truncate a).toInt32) else .trap
  | f64ConvertI32S, [.i32 a] => .value (.f64 (Float.ofInt a.toInt))
  | _, _ => .stuck

/-- The linear memory: its bytes, and how many there are. -/
structure Memory where
  bytes : Nat → UInt8
  size : Nat

namespace Memory

/-- The number in so many bytes from an address on, the least significant byte first. -/
def read (memory : Memory) (address : Nat) : Nat → Nat
  | 0 => 0
  | width + 1 => (memory.bytes address).toNat + 256 * memory.read (address + 1) width

/-- The memory after a number is written to so many bytes from an address on. -/
def write (memory : Memory) (address width num : Nat) : Memory :=
  { memory with
    bytes := fun index =>
      if address ≤ index ∧ index < address + width then
        UInt8.ofNat (num / Nat.pow 256 (index - address))
      else memory.bytes index }

end Memory

/-- A call of an imported function. -/
structure HostCall where
  function : Nat
  arguments : List Value

/-- The state of the machine inside a function, the top of the stack first. -/
structure State where
  stack : List Value
  locals : List Value
  globals : List Value
  memory : Memory
  calls : List HostCall

/-- How code ends.  It is stuck if the rules of validation are broken. -/
inductive Result where
  | next (state : State)
  | branch (label : Nat) (state : State)
  | returned (state : State)
  | trapped (calls : List HostCall)
  | stuck
  | exhausted

namespace Result

/-- What comes next, unless the code ended early. -/
def andThen (result : Result) (next : State → Result) : Result := match result with
  | .next state => next state
  | other => other

/-- The end of a block, with the stack below it. -/
def leave (stack : List Value) : Result → Result
  | next state => next { state with stack }
  | branch 0 state => next { state with stack }
  | branch (label + 1) state => branch label state
  | other => other

end Result

/-- The address of an access. -/
def MemArg.address (access : MemArg) (base : Int32) : Nat :=
  base.toUInt32.toNat + access.offset.toNat

/-- A load. -/
def loadValue (type : ValueType) (access : MemArg) (state : State) :
    Result := match state.stack with
  | .i32 base :: rest =>
    let address := access.address base
    let width := Nat.pow 2 type.naturalAlign.toNat
    if address + width ≤ state.memory.size then
      let num := state.memory.read address width
      let value := match type with
        | .i32 => Value.i32 (Int32.ofInt num)
        | .f64 => Value.f64 (Float.ofBits (UInt64.ofNat num))
      .next { state with stack := value :: rest }
    else .trapped state.calls
  | _ => .stuck

/-- A store. -/
def storeValue (type : ValueType) (access : MemArg) (state : State) : Result :=
  let store (base : Int32) (num : Nat) (rest : List Value) : Result :=
    let address := access.address base
    let width := Nat.pow 2 type.naturalAlign.toNat
    if address + width ≤ state.memory.size then
      .next { state with stack := rest, memory := state.memory.write address width num }
    else .trapped state.calls
  match type, state.stack with
  | .i32, .i32 value :: .i32 base :: rest => store base value.toUInt32.toNat rest
  | .f64, .f64 value :: .i32 base :: rest => store base value.toBits.toNat rest
  | _, _ => .stuck

/-- A numeric operation. -/
def computeValue (operation : Numeric) (state : State) : Result :=
  let arity := operation.signature.1.length
  match operation.apply (state.stack.take arity).reverse with
  | .value value => .next { state with stack := value :: state.stack.drop arity }
  | .trap => .trapped state.calls
  | .stuck => .stuck

/-- Instructions without code inside. -/
def performSimple : Instruction → State → Result
  | .unreachable, state => .trapped state.calls
  | .nop, state => .next state
  | .br label, state => .branch label state
  | .brIf label, state =>
    match state.stack with
    | .i32 test :: rest =>
      if test = 0 then .next { state with stack := rest }
      else .branch label { state with stack := rest }
    | _ => .stuck
  | .ret, state => .returned state
  | .drop, state =>
    match state.stack with
    | _ :: rest => .next { state with stack := rest }
    | [] => .stuck
  | .localGet index, state =>
    match state.locals[index]? with
    | some value => .next { state with stack := value :: state.stack }
    | none => .stuck
  | .localSet index, state =>
    match state.stack with
    | value :: rest =>
      if index < state.locals.length then
        .next { state with stack := rest, locals := state.locals.set index value }
      else .stuck
    | [] => .stuck
  | .globalGet index, state =>
    match state.globals[index]? with
    | some value => .next { state with stack := value :: state.stack }
    | none => .stuck
  | .globalSet index, state =>
    match state.stack with
    | value :: rest =>
      if index < state.globals.length then
        .next { state with stack := rest, globals := state.globals.set index value }
      else .stuck
    | [] => .stuck
  | .load type access, state => loadValue type access state
  | .store type access, state => storeValue type access state
  | .i32Const value, state => .next { state with stack := .i32 value :: state.stack }
  | .f64Const value, state => .next { state with stack := .f64 value :: state.stack }
  | .numeric operation, state => computeValue operation state
  | .block _, _ | .loop _, _ | .conditional _ _, _ | .call _, _ => .stuck

/-- The return from a call. -/
def Result.giveBack (caller : State) (below : List Value) (results : Nat) : Result → Result
  | next callee | returned callee =>
    .next { caller with
      stack := callee.stack.take results ++ below
      globals := callee.globals
      memory := callee.memory
      calls := callee.calls }
  | branch _ _ => .stuck
  | other => other

mutual

/-- Running code. -/
def runCode (module : Module) : Nat → Code → State → Result
  | 0, _, _ => .exhausted
  | _ + 1, [], state => .next state
  | fuel + 1, first :: rest, state =>
    (runInstruction module fuel first state).andThen (runCode module fuel rest)

def runInstruction (module : Module) : Nat → Instruction → State → Result
  | 0, _, _ => .exhausted
  | fuel + 1, .block body, state =>
    (runCode module fuel body { state with stack := [] }).leave state.stack
  | fuel + 1, .loop body, state =>
    match runCode module fuel body { state with stack := [] } with
    | .branch 0 after => runInstruction module fuel (.loop body) { after with stack := state.stack }
    | result => result.leave state.stack
  | fuel + 1, .conditional consequent alternative, state =>
    match state.stack with
    | .i32 test :: rest =>
      let chosen := if test = 0 then alternative else consequent
      (runCode module fuel chosen { state with stack := [] }).leave rest
    | _ => .stuck
  | fuel + 1, .call index, state =>
    match module.functionType? index with
    | none => .stuck
    | some type =>
      let arity := type.parameters.length
      let arguments := (state.stack.take arity).reverse
      let below := state.stack.drop arity
      if index < module.imports.length then
        .next { state with stack := below, calls := state.calls ++ [⟨index, arguments⟩] }
      else
        match module.functions[index - module.imports.length]? with
        | none => .stuck
        | some function =>
          let inside : State :=
            { state with
              stack := []
              locals := arguments ++ function.locals.map Value.zero }
          (runCode module fuel function.body inside).giveBack state below type.results.length
  | _ + 1, simple, state => performSimple simple state

end

end Imperative.Wasm
