import Imperative.Lowering.Statement

/-!
# Programs

A program becomes a module: two imported functions that print, a global for every scalar
variable, a region of memory for every aggregate one, and a function for every routine with
a body.  Variables that do not start with a constant get their first value when the entry
point starts.
-/

namespace Imperative.Lowering

open Wasm (Code FuncType Global Instruction Module)

/-- The names that the module uses for its surroundings. -/
structure Options where
  hostModule : String
  printInteger : String
  printReal : String
  entryPoint : String
  exportAll : Bool
  memoryName : String
  deriving DecidableEq

def Options.standard : Options :=
  { hostModule := "env"
    printInteger := "print_i32"
    printReal := "print_f64"
    entryPoint := "main"
    exportAll := false
    memoryName := "memory" }

/-! ## Types and routines -/

def defineTypes (environment : Environment) : List Declaration → Environment
  | [] => environment
  | .type decl :: rest => defineTypes (environment.defineType decl) rest
  | _ :: rest => defineTypes environment rest

def routineInfo (environment : Environment) (routine : Routine) (index : Option Nat) :
    RoutineInfo :=
  { index
    parameters := routine.parameters.map fun parameter => environment.resolve none parameter.type
    result :=
      match routine.result with
      | some type => environment.resolve none type
      | none => .void }

/-- Register a routine.  A declaration without a body does not replace one with a body. -/
def registerRoutine (name : String) (info : RoutineInfo) (environment : Environment) :
    Environment :=
  let known := (environment.routines.lookup name).bind RoutineInfo.index
  if known.isSome && info.index.isNone then environment
  else { environment with routines := (name, info) :: environment.routines }

/-- Register routines; those with a body are numbered from `next` on. -/
def registerRoutines (environment : Environment) (next : Nat) : List Declaration → Environment
  | [] => environment
  | .routine routine :: rest =>
    if routine.isForward then
      let info := routineInfo environment routine none
      registerRoutines (registerRoutine routine.name info environment) next rest
    else
      let info := routineInfo environment routine (some next)
      registerRoutines (registerRoutine routine.name info environment) (next + 1) rest
  | _ :: rest => registerRoutines environment next rest

/-! ## Globals -/

/-- A first value that is computed when the entry point starts. -/
inductive Deferred where
  | scalar (value : Expr) (type : Ty) (index : Nat)
  | aggregate (value : Expr) (type : Ty) (address : Nat)

/-- The variables of the program so far. -/
structure Globals where
  environment : Environment
  globals : List Global
  memory : StaticMemory
  deferred : List Deferred

def constantInitial (type : Ty) (value : Expr) : Option Instruction :=
  match value with
  | .integer _ number =>
    if type.isReal then some (.f64Const (Float.ofInt number))
    else if type.isBoolean then some (.i32Const (if number = 0 then 0 else 1))
    else (literal value.span number).toOption
  | .real _ number => if type.isReal then some (.f64Const number) else none
  | .boolean _ truth =>
    if type.isReal then some (.f64Const (if truth then 1.0 else 0.0))
    else some (.i32Const (if truth then 1 else 0))
  | _ => none

def inferType (environment : Environment) (value : Expr) : Except Error Ty := do
  let ((_, type), _) ← expression environment value (Frame.start 0)
  return type

def globalType (environment : Environment) (span : Span) (name : String)
    (declared : Option TypeExpr) (initial : Option Expr) : Except Error Ty :=
  match declared, initial with
  | some type, _ => return environment.resolve none type
  | none, some value => inferType environment value
  | none, none => throw (.refuse span (.illTyped (.untypedVariable name)))

def addAggregate (state : Globals) (span : Span) (name : String) (type : Ty)
    (initial : Option Expr) : Except Error Globals := do
  let (address, memory) ← locating span (state.memory.allocate type)
  let deferred := initial.toList.map fun value => Deferred.aggregate value type address
  return { state with
    environment := state.environment.defineVariable name type (.fixed address)
    memory
    deferred := state.deferred ++ deferred }

def addScalar (state : Globals) (span : Span) (name : String) (type : Ty)
    (initial : Option Expr) : Except Error Globals := do
  let valueType ← scalarType span type
  let index := state.globals.length
  let constant := initial.bind (constantInitial type)
  let deferred :=
    if constant.isSome then []
    else initial.toList.map fun value => Deferred.scalar value type index
  let global : Global :=
    { type := valueType, mutable := true, initial := constant.getD (zero valueType) }
  return { state with
    environment := state.environment.defineVariable name type (.global index)
    globals := state.globals ++ [global]
    deferred := state.deferred ++ deferred }

def addGlobal (state : Globals) : VarDecl → Except Error Globals
  | .mk span name declared initial => do
    let type ← globalType state.environment span name declared initial
    if type.isAggregate then addAggregate state span name type initial
    else addScalar state span name type initial

def addGlobals (state : Globals) : List Declaration → Except Error Globals
  | [] => return state
  | .var decl :: rest => do
    let state ← addGlobal state decl
    addGlobals state rest
  | _ :: rest => addGlobals state rest

/-! ## Routines -/

def computeDeferred (environment : Environment) : List Deferred → Emit Code
  | [] => return []
  | .scalar value type index :: rest => do
    let (code, valueType) ← expression environment value
    let others ← computeDeferred environment rest
    return code ++ coerce valueType type ++ .globalSet index :: others
  | .aggregate value type address :: rest => do
    let (code, _) ← expression environment value
    let copy ← copyAggregate type
    let others ← computeDeferred environment rest
    return word address :: code ++ copy ++ others

/--
Where the parameter in a local is kept.  An aggregate is copied to a region of its own, but an
array without a size is used where it is.
-/
def parameterStorage (span : Span) (index : Nat) : Ty → Lower (Code × Storage)
  | .array _ none => return ([], .pointer index)
  | type => do
    if type.isAggregate then
      let address ← reserve span type
      let code ← inFrame (initializeAggregate type address (some ([.localGet index], type)))
      return (code, .fixed address)
    else return ([], .slot index)

/-- Set up parameters, which are the locals from `index` on. -/
def bindParameters (environment : Environment) (index : Nat) :
    List (Parameter × Ty) → Lower (Code × Environment)
  | [] => return ([], environment)
  | (parameter, type) :: rest => do
    let (code, storage) ← parameterStorage parameter.span index type
    let inner := environment.defineVariable parameter.name type storage
    let (others, inner) ← bindParameters inner (index + 1) rest
    return (code ++ others, inner)

def bodyCode (environment : Environment) : Body → Lower Code
  | .expression value => do
    let (code, type) ← inFrame (expression environment value)
    return if environment.result.isVoid then code ++ discard type
      else code ++ coerce type environment.result
  | .block items => do
    let code ← block environment items
    -- The end of a routine with a result is only reached if nothing was given back.
    return if environment.result.isVoid then code else code ++ [.unreachable]

def functionType (parameters : List (Parameter × Ty)) (result : Ty) : Except Error FuncType := do
  let parameters ← parameters.mapM fun (parameter, type) => scalarType parameter.span type
  return { parameters, results := (valueType? result).toList }

def routineCode (environment : Environment) (deferred : List Deferred)
    (parameters : List (Parameter × Ty)) (body : Body) : Lower Code := do
  let first ← inFrame (computeDeferred environment deferred)
  let (setup, inner) ← bindParameters environment 0 parameters
  let code ← bodyCode inner body
  return first ++ setup ++ code

/-- The module and the memory it uses so far. -/
structure Image where
  module : Module
  memory : StaticMemory

/-- Add the function for a routine; the first one that is the entry point computes `deferred`. -/
def addRoutine (options : Options) (environment : Environment) (deferred : List Deferred)
    (routine : Routine) (body : Body) (image : Image) : Except Error Image := do
  let some info := environment.routines.lookup routine.name
    | throw (.defect (.unregistered routine.name))
  let parameters := routine.parameters.zip info.parameters
  let type ← functionType parameters info.result
  let (typeIndex, module) := image.module.intern type
  let entered := module.functions.any fun function => function.name = options.entryPoint
  let isEntry := decide (routine.name = options.entryPoint)
  let start : Workspace := { frame := Frame.start parameters.length, memory := image.memory }
  let (code, workspace) ←
    routineCode { environment with result := info.result }
      (if isEntry && !entered then deferred else []) parameters body start
  let (index, module) :=
    module.addFunction
      { name := routine.name, typeIndex, locals := workspace.frame.locals, body := code }
  let exported := (module.findExport? routine.name).isSome
  return {
    module :=
      if (isEntry || options.exportAll) && !exported then
        module.addExport routine.name .function index
      else module
    memory := workspace.memory }

def addRoutines (options : Options) (environment : Environment) (deferred : List Deferred)
    (image : Image) : List Declaration → Except Error Image
  | [] => return image
  | .routine routine :: rest => do
    match routine.body with
    | none => addRoutines options environment deferred image rest
    | some body =>
      let image ← addRoutine options environment deferred routine body image
      addRoutines options environment deferred image rest
  | _ :: rest => addRoutines options environment deferred image rest

/-! ## Programs -/

def printingModule (options : Options) : Module :=
  let (_, module) :=
    Module.empty.addImport options.hostModule options.printInteger
      { parameters := [.i32], results := [] }
  let (_, module) :=
    module.addImport options.hostModule options.printReal { parameters := [.f64], results := [] }
  module

def addMemory (options : Options) (image : Image) : Module :=
  if image.memory.isUsed then
    let exported := image.module.addExport options.memoryName .memory 0
    { exported with
      memory := some { least := UInt32.ofNat image.memory.pages, most := none }
      data := image.memory.segments }
  else image.module

def lower (options : Options) (program : Program) : Except Error Module := do
  let module := printingModule options
  let environment := defineTypes Environment.empty program.declarations
  let environment :=
    registerRoutines environment (module.functionIndex 0) program.declarations
  let state ←
    addGlobals { environment, globals := [], memory := StaticMemory.empty, deferred := [] }
      program.declarations
  let image ←
    addRoutines options state.environment state.deferred
      { module := { module with globals := state.globals }, memory := state.memory }
      program.declarations
  return addMemory options image

end Imperative.Lowering
