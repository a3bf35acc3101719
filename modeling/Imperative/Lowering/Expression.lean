import Imperative.Lowering.Code
import Imperative.Lowering.Environment
import Imperative.Lowering.Frame

/-!
# Expressions

`operand` gives the code of an expression and what it leaves: a value, or a place from
which the value is still to be loaded.  Places are what is assigned to, and a place in
memory lets fields and elements be reached by adding up offsets.
-/

namespace Imperative.Lowering

open Wasm (Code Instruction Numeric)

/-! ## Operands -/

/-- A place; one in memory is at an offset from the address on the stack. -/
inductive Place where
  | slot (index : Nat)
  | global (index : Nat)
  | memory (offset : UInt32)

/-- What the code of an expression leaves. -/
inductive Operand where
  | value (type : Ty)
  | place (place : Place) (type : Ty)

def Operand.load (span : Span) : Operand → Except Error (Code × Ty)
  | .value type => return ([], type)
  | .place (.slot index) type => return ([.localGet index], type)
  | .place (.global index) type => return ([.globalGet index], type)
  | .place (.memory offset) type => do
    if type.isAggregate then return (addOffset offset, type)
    else
      let valueType ← scalarType span type
      return ([Lowering.load valueType offset], type)

def loaded (span : Span) (emitted : Code × Operand) : Except Error (Code × Ty) := do
  let (code, type) ← emitted.2.load span
  return (emitted.1 ++ code, type)

def Operand.base (span : Span) : Operand → Except Error (UInt32 × Ty)
  | .value type => return (0, type)
  | .place (.memory offset) type =>
    if type.isAggregate then return (offset, type)
    else throw (.refuse span (.noAddress type))
  | .place _ type => throw (.refuse span (.noAddress type))

/-! ## Parts of expressions -/

def literal (span : Span) (value : Int) : Except Error Instruction :=
  if -2147483648 ≤ value ∧ value ≤ 2147483647 then return .i32Const (Int32.ofInt value)
  else throw (.refuse span (.literalRange value))

def greatestInteger : Int := 9223372036854775807

def variableOperand (environment : Environment) (span : Span) (name : String) :
    Except Error (Code × Operand) :=
  match environment.scope.lookup name with
  | none => throw (.refuse span (.illTyped (.undeclaredIdentifier name)))
  | some { type, storage } =>
    match storage with
    | .slot index => return ([], .place (.slot index) type)
    | .global index => return ([], .place (.global index) type)
    | .fixed address => return ([word address], .place (.memory 0) type)
    | .pointer slot => return ([.localGet slot], .place (.memory 0) type)

def fieldPlace (span : Span) (offset : UInt32) (type : Ty) (field : String) :
    Except Error Operand :=
  match type with
  | .record name fields => do
    let (distance, fieldType) ← locating span (fieldOffset name fields field)
    return .place (.memory (offset + UInt32.ofNat distance)) fieldType
  | _ => throw (.refuse span (.illTyped (.fieldOfNonRecord field type)))

def elementOf (span : Span) : Ty → Except Error Ty
  | .array element _ => return element
  | type => throw (.refuse span (.illTyped (.indexOfNonArray type)))

def elementDistance (position stride : Nat) : Code :=
  [.localGet position, .i32Const 1, compute .i32Sub, word stride, compute .i32Mul]

def checkBounds (array position : Nat) : Code :=
  [.localGet position, .i32Const 1, compute .i32LtS,
    .localGet position, .localGet array, load .i32 0, compute .i32GtS,
    compute .i32Or, .conditional [.unreachable] []]

/--
Turn the address of an array on the stack, plus an offset, into the address of an
element without the offset of the first one.
-/
def elementAddress (offset : UInt32) (array position stride : Nat) (index : Code) : Code :=
  addOffset offset ++ [.localSet array] ++ index ++ [.localSet position] ++
    checkBounds array position ++
    .localGet array :: elementDistance position stride ++ [compute .i32Add]

def callee (environment : Environment) (span : Span) (name : String) (arguments : Nat) :
    Except Error (Nat × RoutineInfo) :=
  match environment.routines.lookup name with
  | none => throw (.refuse span (.illTyped (.undeclaredRoutine name)))
  | some info =>
    match info.index with
    | none => throw (.refuse span (.neverDefined name))
    | some index =>
      if info.parameters.length = arguments then return (index, info)
      else
        let expected := info.parameters.length
        throw (.refuse span (.illTyped (.argumentCount name expected arguments)))

def negation (code : Code) (type : Ty) : Code :=
  if type.isReal then code ++ [compute .f64Neg]
  else .i32Const 0 :: code ++ [compute .i32Sub]

def integerOperation : BinaryOperator → Numeric
  | .add => .i32Add
  | .sub => .i32Sub
  | .mul => .i32Mul
  | .div => .i32DivS
  | .mod => .i32RemS
  | .less => .i32LtS
  | .lessEqual => .i32LeS
  | .greater => .i32GtS
  | .greaterEqual => .i32GeS
  | .equal => .i32Eq
  | .notEqual => .i32Ne
  | .and => .i32And
  | .or => .i32Or
  | .xor => .i32Xor

/-- The code for the remainder of two reals `a` and `b`, which is `a - trunc (a / b) * b`. -/
def remainderCode (dividend divisor : Nat) : Code :=
  [.localSet divisor, .localSet dividend, .localGet dividend,
    .localGet dividend, .localGet divisor, compute .f64Div, compute .f64Trunc,
    .localGet divisor, compute .f64Mul, compute .f64Sub]

def realRemainder : Emit Code := do
  let divisor ← acquire .f64
  let dividend ← acquire .f64
  release .f64 dividend
  release .f64 divisor
  return remainderCode dividend divisor

def realOperation : BinaryOperator → Emit Code
  | .add => return [compute .f64Add]
  | .sub => return [compute .f64Sub]
  | .mul => return [compute .f64Mul]
  | .div => return [compute .f64Div]
  | .mod => realRemainder
  | .less => return [compute .f64Lt]
  | .lessEqual => return [compute .f64Le]
  | .greater => return [compute .f64Gt]
  | .greaterEqual => return [compute .f64Ge]
  | .equal => return [compute .f64Eq]
  | .notEqual => return [compute .f64Ne]
  | .and => return [compute .i32And]
  | .or => return [compute .i32Or]
  | .xor => return [compute .i32Xor]

/--
A binary operator on two operands.  Logical operators work on truth values, and any
other works on reals if one of the operands is real.
-/
def binaryOperation (operator : BinaryOperator) (left right : Code × Ty) : Emit (Code × Ty) := do
  let (leftCode, leftType) := left
  let (rightCode, rightType) := right
  if operator.isLogical then
    return (leftCode ++ coerce leftType .boolean ++ rightCode ++ coerce rightType .boolean ++
      [compute (integerOperation operator)], .boolean)
  else if leftType.isReal || rightType.isReal then
    let operation ← realOperation operator
    return (leftCode ++ coerce leftType .real ++ rightCode ++ coerce rightType .real ++ operation,
      if operator.isComparison then .boolean else .real)
  else
    return (leftCode ++ rightCode ++ [compute (integerOperation operator)],
      if operator.isComparison then .boolean else .integer)

/-! ## Expressions -/

mutual

def operand (environment : Environment) : Expr → Emit (Code × Operand)
  | .integer span value => do
    return ([← literal span value], .value .integer)
  | .real _ value => return ([.f64Const value], .value .real)
  | .boolean _ value => return ([.i32Const (if value then 1 else 0)], .value .boolean)
  | .name span name => variableOperand environment span name
  | .field span receiver field => do
    let (code, base) ← operand environment receiver
    let (offset, type) ← base.base receiver.span
    return (code, ← fieldPlace span offset type field)
  | .index span receiver index => do
    let (code, base) ← operand environment receiver
    let (offset, type) ← base.base receiver.span
    let element ← elementOf span type
    let stride ← locating index.span (size element)
    let array ← acquire .i32
    let (indexCode, indexType) ← loaded index.span (← operand environment index)
    let position ← acquire .i32
    release .i32 position
    release .i32 array
    let address :=
      elementAddress offset array position stride (indexCode ++ coerce indexType .integer)
    return (code ++ address, .place (.memory (UInt32.ofNat (dataOffset element))) element)
  | .call span name arguments => do
    let (index, info) ← callee environment span name arguments.length
    let code ← argumentCode environment arguments info.parameters
    return (code ++ [.call index], .value info.result)
  | .unary _ .plus inner => do
    let (code, type) ← loaded inner.span (← operand environment inner)
    return (code, .value type)
  | .unary _ .minus (.integer span value) => do
    return ([← literal span (min (-value) greatestInteger)], .value .integer)
  | .unary _ .minus inner => do
    let (code, type) ← loaded inner.span (← operand environment inner)
    return (negation code type, .value type)
  | .unary _ .not inner => do
    let (code, type) ← loaded inner.span (← operand environment inner)
    return (code ++ coerce type .boolean ++ [compute .i32Eqz], .value .boolean)
  | .binary _ operator left right => do
    let leftCode ← loaded left.span (← operand environment left)
    let rightCode ← loaded right.span (← operand environment right)
    let (code, type) ← binaryOperation operator leftCode rightCode
    return (code, .value type)

def argumentCode (environment : Environment) : List Expr → List Ty → Emit Code
  | argument :: arguments, parameter :: parameters => do
    let (code, type) ← loaded argument.span (← operand environment argument)
    let others ← argumentCode environment arguments parameters
    return code ++ coerce type parameter ++ others
  | _, _ => return []

end

def expression (environment : Environment) (value : Expr) : Emit (Code × Ty) := do
  loaded value.span (← operand environment value)

def target (environment : Environment) (place : Expr) : Emit (Code × Place × Ty) := do
  let refusal : Error := .refuse place.span (.illTyped .notAPlace)
  if place.isPlace then
    match ← operand environment place with
    | (code, .place found type) => return (code, found, type)
    | (_, .value _) => throw refusal
  else throw refusal

end Imperative.Lowering
