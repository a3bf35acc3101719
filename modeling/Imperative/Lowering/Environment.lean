import Imperative.Lowering.Layout
import Imperative.Typing.Resolve

/-!
# Environments

What the names in a piece of code stand for.  An inner definition hides an outer one
because it is found first, so leaving a scope is going back to the environment before it.
-/

namespace Imperative.Lowering

/-- Where a variable is kept. -/
inductive Storage where
  | slot (index : Nat)
  | global (index : Nat)
  | fixed (address : Nat)
  | pointer (slot : Nat)

structure Variable where
  type : Ty
  storage : Storage

/-- How a routine is called; it has an index if some declaration has a body. -/
structure RoutineInfo where
  index : Option Nat
  parameters : List Ty
  result : Ty

/-- What names stand for, the innermost definitions first, and the result of the routine. -/
structure Environment where
  scope : List (String × Variable)
  types : List (String × Ty)
  routines : List (String × RoutineInfo)
  result : Ty

namespace Environment

def empty : Environment :=
  { scope := [], types := [], routines := [], result := .void }

def defineVariable (name : String) (type : Ty) (storage : Storage)
    (environment : Environment) : Environment :=
  { environment with scope := (name, { type, storage }) :: environment.scope }

def resolve (hint : Option String) (type : TypeExpr) (environment : Environment) : Ty :=
  (Typing.resolve (fun name => environment.types.lookup name) hint type).value

def defineType (decl : TypeDecl) (environment : Environment) : Environment :=
  let type := environment.resolve (some decl.name) decl.type
  { environment with types := (decl.name, type) :: environment.types }

end Environment

def printInteger : Nat := 0

def printReal : Nat := 1

end Imperative.Lowering
