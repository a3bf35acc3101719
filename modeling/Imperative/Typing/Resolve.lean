import Imperative.Simplify.Fold
import Imperative.Syntax.Program
import Imperative.Typing.Problem

/-!
# From written types to types

`TypeExpr.resolve` finds the type that a written type stands for.  Names are looked up,
sizes of arrays are folded to a positive integer, and a field that repeats a name is
left out, so that the fields of a resolved record have different names.
-/

namespace Imperative.Typing

/-- A value together with the problems met on the way to it. -/
structure Reported (α : Type) where
  value : α
  problems : List (Span × Problem)

instance : Monad Reported where
  pure value := { value, problems := [] }
  bind reported next :=
    let after := next reported.value
    { value := after.value, problems := reported.problems ++ after.problems }

def Reported.report (span : Span) (problem : Problem) : Reported Unit :=
  { value := (), problems := [(span, problem)] }

def primitiveType : PrimitiveName → Ty
  | .integer => .integer
  | .real => .real
  | .boolean => .boolean

def anonymousRecord (span : Span) : String :=
  "<anonymous record at " ++ span.place ++ ">"

def errorTypeName : String := "<error>"

def namedType (lookup : String → Option Ty) (span : Span) (name : String) : Reported Ty :=
  if name = errorTypeName then return .error
  else
    match lookup name with
    | some type => return type
    | none => do
      Reported.report span (.undefinedType name)
      return .error

def arrayLength : Option Expr → Reported (Option Nat)
  | none => return none
  | some size =>
    match size.simplify.value with
    | .integer _ length =>
      if 0 < length then return some length.toNat
      else do
        Reported.report size.span .sizeNotPositive
        return none
    | _ => do
      Reported.report size.span .sizeNotConstant
      return none

mutual

/--
The type that a written type stands for.  `lookup` gives the types with a name, and
`hint` the name of a record that is declared as a type of its own.
-/
def resolve (lookup : String → Option Ty) (hint : Option String) : TypeExpr → Reported Ty
  | .primitive _ name => return primitiveType name
  | .named span name => namedType lookup span name
  | .record span fields => do
    let fields ← resolveFields lookup [] fields
    return .record (hint.getD (anonymousRecord span)) fields
  | .array _ element size => do
    let element ← resolve lookup none element
    return .array element (← arrayLength size)

/-- The fields of a record whose names are not `taken` yet. -/
def resolveFields (lookup : String → Option Ty) (taken : List String) :
    List VarDecl → Reported (List (String × Ty))
  | [] => return []
  | .mk span name type _ :: rest => do
    let type ←
      match type with
      | some type => resolve lookup none type
      | none => do
        Reported.report span .fieldWithoutType
        pure .error
    if name ∈ taken then
      Reported.report span (.duplicateField name)
      resolveFields lookup taken rest
    else
      let rest ← resolveFields lookup (name :: taken) rest
      return (name, type) :: rest

end

end Imperative.Typing
