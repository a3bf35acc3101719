import Imperative.Lowering.Aggregate
import Imperative.Lowering.Expression
import Imperative.Lowering.StaticMemory

/-!
# Statements

The code of statements and blocks.  A declaration in a block extends the environment for
the items after it.  Loops evaluate their bounds once, and a range loop tests for its last
value before it steps, so that counting never wraps around.
-/

namespace Imperative.Lowering

open Wasm (Code Instruction)

/-- The locals of the function being built and the memory of the whole program. -/
structure Workspace where
  frame : Frame
  memory : StaticMemory

abbrev Lower := StateT Workspace (Except Error)

def inFrame {α : Type} (step : Emit α) : Lower α := do
  let workspace ← get
  let (result, frame) ← step workspace.frame
  set { workspace with frame }
  return result

def reserve (span : Span) (type : Ty) : Lower Nat := do
  let workspace ← get
  let (address, memory) ← locating span (workspace.memory.allocate type)
  set { workspace with memory }
  return address

/-! ## Declarations -/

def initialValue (environment : Environment) : Option Expr → Emit (Option (Code × Ty))
  | none => return none
  | some value => some <$> expression environment value

def declaredType (environment : Environment) (span : Span) (name : String)
    (type : Option TypeExpr) (initial : Option Ty) : Except Error Ty :=
  match type, initial with
  | some type, _ => return environment.resolve none type
  | none, some initial => return initial
  | none, none => throw (.refuse span (.illTyped (.untypedVariable name)))

/-- Set up a variable of an aggregate type at an address: clear it, then copy its initial value. -/
def initializeAggregate (type : Ty) (address : Nat) (initial : Option (Code × Ty)) : Emit Code := do
  let clear ← clearAggregate type
  match initial with
  | none => return word address :: clear
  | some (code, _) =>
    let copy ← copyAggregate type
    return word address :: clear ++ word address :: code ++ copy

def declareLocal (environment : Environment) : VarDecl → Lower (Code × Environment)
  | .mk span name declared initial => do
    let initial ← inFrame (initialValue environment initial)
    let type ← declaredType environment span name declared (initial.map Prod.snd)
    if type.isAggregate then
      let address ← reserve span type
      let code ← inFrame (initializeAggregate type address initial)
      return (code, environment.defineVariable name type (.fixed address))
    else
      let valueType ← scalarType span type
      let index ← inFrame (addLocal valueType)
      let value :=
        match initial with
        | some (code, initialType) => code ++ coerce initialType type
        | none => [zero valueType]
      return (value ++ [.localSet index], environment.defineVariable name type (.slot index))

/-! ## Simple statements -/

def assignment (environment : Environment) (span : Span) (place value : Expr) : Emit Code := do
  let (code, found, type) ← target environment place
  match found with
  | .memory offset =>
    if type.isAggregate then
      let (valueCode, _) ← expression environment value
      let copy ← copyAggregate type
      return code ++ addOffset offset ++ valueCode ++ copy
    else
      let (valueCode, valueType) ← expression environment value
      let scalar ← scalarType span type
      return code ++ valueCode ++ coerce valueType type ++ [store scalar offset]
  | .slot index =>
    let (valueCode, valueType) ← expression environment value
    return code ++ valueCode ++ coerce valueType type ++ [.localSet index]
  | .global index =>
    let (valueCode, valueType) ← expression environment value
    return code ++ valueCode ++ coerce valueType type ++ [.globalSet index]

def discard (type : Ty) : Code :=
  if (valueType? type).isSome then [.drop] else []

def callStatement (environment : Environment) (span : Span) (name : String)
    (arguments : List Expr) : Emit Code := do
  let (code, type) ← expression environment (.call span name arguments)
  return code ++ discard type

def returnStatement (environment : Environment) : Option Expr → Emit Code
  | none => return [.ret]
  | some value => do
    let (code, type) ← expression environment value
    return code ++ coerce type environment.result ++ [.ret]

def printer (span : Span) (type : Ty) : Except Error Nat :=
  if type.isReal then return printReal
  else if type.isInteger || type.isBoolean then return printInteger
  else throw (.refuse span (.illTyped (.notPrintable type)))

def printStatement (environment : Environment) : List Expr → Emit Code
  | [] => return []
  | first :: rest => do
    let (code, type) ← expression environment first
    let function ← printer first.span type
    let others ← printStatement environment rest
    return code ++ .call function :: others

/-- A condition; a real one is compared with zero. -/
def condition (environment : Environment) (value : Expr) : Emit Code := do
  let (code, type) ← expression environment value
  return if type.isReal then code ++ coerce type .boolean else code

/-! ## Loops -/

/-- Which locals a range loop uses for its counter and for its last value. -/
structure RangeLocals where
  counter : Nat
  bound : Nat

/-- Evaluate the ends of a range; a reverse loop counts from the second end to the first. -/
def rangeSetup (environment : Environment) (first last : Expr) (direction : Direction) :
    Emit (Code × RangeLocals) := do
  let counter ← addLocal .i32
  let bound ← acquire .i32
  let (firstLocal, lastLocal) :=
    match direction with
    | .forward => (counter, bound)
    | .reverse => (bound, counter)
  let (firstCode, firstType) ← expression environment first
  let (lastCode, lastType) ← expression environment last
  let code :=
    firstCode ++ coerce firstType .integer ++ .localSet firstLocal ::
      lastCode ++ coerce lastType .integer ++ [.localSet lastLocal]
  return (code, { counter, bound })

def rangeCode (locals : RangeLocals) (direction : Direction) (body : Code) : Instruction :=
  let compare (test : Wasm.Numeric) : Code :=
    [.localGet locals.counter, .localGet locals.bound, compute test, .brIf 1]
  match direction with
  | .forward =>
    repeating (compare .i32GtS ++ body ++ compare .i32GeS ++
      bump locals.counter 1 .i32Add ++ [.br 0])
  | .reverse =>
    repeating (compare .i32LtS ++ body ++ compare .i32LeS ++
      bump locals.counter 1 .i32Sub ++ [.br 0])

/-- Which locals a loop over an array uses. -/
structure ArrayLocals where
  base : Nat
  length : Nat
  position : Nat

/-- What a loop over an array needs before the code of its body. -/
structure ArrayLoop where
  setup : Code
  locals : ArrayLocals
  fetch : Code
  element : Ty
  storage : Storage

def fetchElement (span : Span) (element : Ty) : Emit (Code × Storage) := do
  let start := dataOffset element
  if element.isAggregate then
    let index ← addLocal .i32
    return (plus start ++ [.localSet index], .pointer index)
  else
    let valueType ← scalarType span element
    let index ← addLocal valueType
    return ([load valueType (UInt32.ofNat start), .localSet index], .slot index)

def loopElement (span : Span) : Ty → Except Error Ty
  | .array element _ => return element
  | type => throw (.refuse span (.illTyped (.notIterable type)))

def arraySetup (environment : Environment) (array : Expr) (direction : Direction) :
    Emit ArrayLoop := do
  let (code, type) ← expression environment array
  let element ← loopElement array.span type
  let stride ← locating array.span (size element)
  let base ← acquire .i32
  let length ← acquire .i32
  let position ← acquire .i32
  let (fetch, storage) ← fetchElement array.span element
  let first : Instruction :=
    match direction with
    | .forward => .i32Const 1
    | .reverse => .localGet length
  return {
    setup := code ++ [.localSet base, .localGet base, load .i32 0, .localSet length,
      first, .localSet position]
    locals := { base, length, position }
    fetch := .localGet base :: elementDistance position stride ++ compute .i32Add :: fetch
    element
    storage }

def arrayCode (arrayLoop : ArrayLoop) (direction : Direction) (body : Code) : Instruction :=
  let position := arrayLoop.locals.position
  match direction with
  | .forward =>
    repeating ([.localGet position, .localGet arrayLoop.locals.length, compute .i32GtS, .brIf 1] ++
      arrayLoop.fetch ++ body ++ bump position 1 .i32Add ++ [.br 0])
  | .reverse =>
    repeating ([.localGet position, .i32Const 1, compute .i32LtS, .brIf 1] ++
      arrayLoop.fetch ++ body ++ bump position 1 .i32Sub ++ [.br 0])

def releaseArray (locals : ArrayLocals) : Emit Unit := do
  release .i32 locals.base
  release .i32 locals.length
  release .i32 locals.position

def whileCode (test body : Code) : Instruction :=
  repeating (test ++ [compute .i32Eqz, .brIf 1] ++ body ++ [.br 0])

/-! ## Statements and blocks -/

mutual

def statement (environment : Environment) : Statement → Lower Code
  | .assign span place value => inFrame (assignment environment span place value)
  | .call span name arguments => inFrame (callStatement environment span name arguments)
  | .branch _ test consequent alternative => do
    let testCode ← inFrame (condition environment test)
    let consequentCode ← block environment consequent
    let alternativeCode ←
      match alternative with
      | some alternative => block environment alternative
      | none => pure []
    return testCode ++ [.conditional consequentCode alternativeCode]
  | .whileLoop _ test body => do
    let testCode ← inFrame (condition environment test)
    let bodyCode ← block environment body
    return [whileCode testCode bodyCode]
  | .rangeLoop _ iterator first last direction body => do
    let (setup, locals) ← inFrame (rangeSetup environment first last direction)
    let inner := environment.defineVariable iterator .integer (.slot locals.counter)
    let bodyCode ← block inner body
    inFrame (release .i32 locals.bound)
    return setup ++ [rangeCode locals direction bodyCode]
  | .arrayLoop _ iterator array direction body => do
    let arrayLoop ← inFrame (arraySetup environment array direction)
    let inner := environment.defineVariable iterator arrayLoop.element arrayLoop.storage
    let bodyCode ← block inner body
    inFrame (releaseArray arrayLoop.locals)
    return arrayLoop.setup ++ [arrayCode arrayLoop direction bodyCode]
  | .giveBack _ value => inFrame (returnStatement environment value)
  | .print _ values => inFrame (printStatement environment values)
  | .empty _ => return []
  | .block _ inner => block environment inner

def block (environment : Environment) : Block → Lower Code
  | .mk _ items => itemCode environment items

def itemCode (environment : Environment) : List Item → Lower Code
  | [] => return []
  | .declaration (.var decl) :: rest => do
    let (code, inner) ← declareLocal environment decl
    let others ← itemCode inner rest
    return code ++ others
  | .declaration (.type decl) :: rest => itemCode (environment.defineType decl) rest
  | .declaration (.routine routine) :: _ =>
    throw (.refuse routine.span (.illTyped .nestedRoutine))
  | .statement first :: rest => do
    let code ← statement environment first
    let others ← itemCode environment rest
    return code ++ others

end

end Imperative.Lowering
