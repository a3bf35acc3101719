/-!
# Types

The types of values: the three basic types, `void` for routines without a result,
arrays, records, and an error type for what could not be typed.  The error type goes
with every type, so that one mistake is not reported again at every use.

`Ty.same` is identity of types up to the sizes of arrays, and `Ty.assignable` says
which values may be stored where: integers and booleans anywhere among the basic
types, reals only as reals.
-/

namespace Imperative

/-- A type.  Records keep their fields in the order of declaration. -/
inductive Ty where
  | integer
  | real
  | boolean
  | void
  | array (element : Ty) (size : Option Nat)
  | record (name : String) (fields : List (String × Ty))
  | error

namespace Ty

def isError : Ty → Bool
  | error => true
  | _ => false

/-- Whether the type is `integer`. -/
def isInteger : Ty → Bool
  | integer => true
  | _ => false

/-- Whether the type is `real`. -/
def isReal : Ty → Bool
  | real => true
  | _ => false

/-- Whether the type is `boolean`. -/
def isBoolean : Ty → Bool
  | boolean => true
  | _ => false

/-- Whether the type is `void`. -/
def isVoid : Ty → Bool
  | void => true
  | _ => false

def isNumeric : Ty → Bool
  | integer | real => true
  | _ => false

def isAggregate : Ty → Bool
  | array _ _ | record _ _ => true
  | _ => false

def same : Ty → Ty → Bool
  | error, _ | _, error => true
  | integer, integer | real, real | boolean, boolean | void, void => true
  | array left _, array right _ => same left right
  | record left _, record right _ => left = right
  | _, _ => false

def assignable : Ty → Ty → Bool
  | error, _ | _, error => true
  | integer, integer | integer, real | integer, boolean => true
  | real, real => true
  | boolean, boolean | boolean, integer | boolean, real => true
  | array left _, array right _ => same left right
  | record left _, record right _ => left = right
  | _, _ => false

def describe : Ty → String
  | integer => "integer"
  | real => "real"
  | boolean => "boolean"
  | void => "void"
  | array element (some size) => "array[" ++ toString size ++ "] " ++ describe element
  | array element none => "array[] " ++ describe element
  | record name _ => name
  | error => "<error>"

def field? (fields : List (String × Ty)) (name : String) : Option Ty :=
  fields.lookup name

end Ty

end Imperative
