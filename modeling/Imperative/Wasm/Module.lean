import Imperative.Wasm.Instruction

/-!
# Modules

A module with its function types, imported and defined functions, memory, globals,
exports and data.  Function types are interned: equal types have one index.  Imported
functions come before the defined ones in the numbering of functions.
-/

namespace Imperative.Wasm

/-- The type of a function. -/
structure FuncType where
  parameters : List ValueType
  results : List ValueType
  deriving DecidableEq

/-- An imported function. -/
structure Import where
  module : String
  name : String
  typeIndex : Nat

/-- A defined function.  Its name is for readers only and is not encoded. -/
structure Function where
  name : String
  typeIndex : Nat
  locals : List ValueType
  body : Code

/-- The size of the memory in pages. -/
structure Limits where
  least : UInt32
  most : Option UInt32

/-- A global with the one instruction that gives its first value. -/
structure Global where
  type : ValueType
  mutable : Bool
  initial : Instruction

inductive ExportKind where
  | function
  | memory
  deriving DecidableEq

namespace ExportKind

def code : ExportKind → UInt8
  | function => 0x00
  | memory => 0x02

def keyword : ExportKind → String
  | function => "func"
  | memory => "memory"

end ExportKind

structure Export where
  name : String
  kind : ExportKind
  index : Nat

/-- Bytes that the memory holds at the start. -/
structure DataSegment where
  offset : UInt32
  bytes : List UInt8

/-- A module, with the table in which the indices of its types are looked up. -/
structure Module where
  types : List FuncType
  imports : List Import
  functions : List Function
  memory : Option Limits
  globals : List Global
  exports : List Export
  data : List DataSegment
  typeLookup : List (FuncType × Nat) := []

namespace Module

def empty : Module :=
  { types := [], imports := [], functions := [], memory := none, globals := [], exports := [],
    data := [] }

/-- The index of a function type, which is added if it is not in the table. -/
def intern (type : FuncType) (module : Module) : Nat × Module :=
  match module.typeLookup.lookup type with
  | some index => (index, module)
  | none =>
    let index := module.types.length
    (index,
      { module with
        types := module.types ++ [type]
        typeLookup := (type, index) :: module.typeLookup })

def addImport (source name : String) (type : FuncType) (module : Module) : Nat × Module :=
  let (typeIndex, module) := module.intern type
  let added : Import := { module := source, name, typeIndex }
  (module.imports.length, { module with imports := module.imports ++ [added] })

def functionIndex (module : Module) (position : Nat) : Nat :=
  module.imports.length + position

def addFunction (function : Function) (module : Module) : Nat × Module :=
  (module.functionIndex module.functions.length,
    { module with functions := module.functions ++ [function] })

def addGlobal (global : Global) (module : Module) : Nat × Module :=
  (module.globals.length, { module with globals := module.globals ++ [global] })

def addExport (name : String) (kind : ExportKind) (index : Nat) (module : Module) : Module :=
  { module with exports := module.exports ++ [{ name, kind, index }] }

def findExport? (name : String) (module : Module) : Option Export :=
  module.exports.find? fun entry => entry.name = name

end Module

end Imperative.Wasm
