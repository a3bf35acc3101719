import Imperative.Source.Diagnostic
import Imperative.Syntax.Operator
import Imperative.Typing.Ty

/-!
# Problems with types and names

Everything the analysis can find wrong with a program, and the message for it.
-/

namespace Imperative.Typing

/-- What is wrong with the types or names of a program. -/
inductive Problem where
  | undefinedType (name : String)
  | fieldWithoutType
  | duplicateField (name : String)
  | sizeNotPositive
  | sizeNotConstant
  | typeRedefined (name : String)
  | routineRedefined (name : String)
  | forwardMismatch (name : String)
  | parameterRedefined (name : String)
  | variableRedefined (name : String)
  | voidVariable (name : String)
  | untypedVariable (name : String)
  | nestedRoutine
  | notAssignable (found target : Ty)
  | notAPlace
  | conditionType (found : Ty)
  | loopConditionType (found : Ty)
  | rangeStartType (found : Ty)
  | rangeEndType (found : Ty)
  | notIterable (found : Ty)
  | notPrintable (found : Ty)
  | returnOutsideRoutine
  | valueFromVoidRoutine
  | returnType (found expected : Ty)
  | bodyType (found expected : Ty)
  | valueRequired (expected : Ty)
  | notAVariable (name : String)
  | undeclaredIdentifier (name : String)
  | noSuchField (record field : String)
  | fieldOfNonRecord (field : String) (found : Ty)
  | indexType (found : Ty)
  | indexOfNonArray (found : Ty)
  | notARoutine (name : String)
  | undeclaredRoutine (name : String)
  | argumentCount (name : String) (expected found : Nat)
  | argumentType (position : Nat) (found expected : Ty)
  | operandType (operator : UnaryOperator) (found : Ty)
  | leftOperandType (operator : BinaryOperator) (found : Ty)
  | rightOperandType (operator : BinaryOperator) (found : Ty)
  | operandTypes (operator : BinaryOperator) (left right : Ty)

def quoted (text : String) : String :=
  "'" ++ text ++ "'"

def Problem.message : Problem → String
  | undefinedType name => "Undefined type " ++ quoted name
  | fieldWithoutType => "Record field must have a type"
  | duplicateField name => "Duplicate field " ++ quoted name ++ " in record"
  | sizeNotPositive => "Array size must be positive"
  | sizeNotConstant => "Array size must be a constant integer expression"
  | typeRedefined name => "Type " ++ quoted name ++ " is already defined"
  | routineRedefined name => "Routine " ++ quoted name ++ " is already defined"
  | forwardMismatch name =>
    "Routine " ++ quoted name ++ " does not match its forward declaration"
  | parameterRedefined name => "Parameter " ++ quoted name ++ " is already defined"
  | variableRedefined name => "Variable " ++ quoted name ++ " is already defined"
  | voidVariable name => "Variable " ++ quoted name ++ " cannot have type 'void'"
  | untypedVariable name =>
    "Variable " ++ quoted name ++ " must have either a type or an initializer"
  | nestedRoutine => "Routines can only be declared at the top level"
  | notAssignable found target =>
    "Cannot assign " ++ quoted found.describe ++ " to " ++ quoted target.describe
  | notAPlace => "Left side of assignment must be a variable, field or array element"
  | conditionType found =>
    "Condition must be of type 'boolean', got " ++ quoted found.describe
  | loopConditionType found =>
    "Loop condition must be of type 'boolean', got " ++ quoted found.describe
  | rangeStartType found => "Range start must be 'integer', got " ++ quoted found.describe
  | rangeEndType found => "Range end must be 'integer', got " ++ quoted found.describe
  | notIterable found => "For-in loop expects an array, got " ++ quoted found.describe
  | notPrintable found => "Cannot print a value of type " ++ quoted found.describe
  | returnOutsideRoutine => "Return statement outside of routine"
  | valueFromVoidRoutine => "Cannot return a value from a void routine"
  | returnType found expected =>
    "Cannot return " ++ quoted found.describe ++ " from routine expecting " ++
      quoted expected.describe
  | bodyType found expected =>
    "Cannot return " ++ quoted found.describe ++ " from function expecting " ++
      quoted expected.describe
  | valueRequired expected => "Must return a value of type " ++ quoted expected.describe
  | notAVariable name => quoted name ++ " is not a variable"
  | undeclaredIdentifier name => "Undeclared identifier " ++ quoted name
  | noSuchField record field =>
    "Record type " ++ quoted record ++ " does not have field " ++ quoted field
  | fieldOfNonRecord field found =>
    "Cannot access field " ++ quoted field ++ " of non-record type " ++ quoted found.describe
  | indexType found => "Array index must be 'integer', got " ++ quoted found.describe
  | indexOfNonArray found => "Cannot index non-array type " ++ quoted found.describe
  | notARoutine name => quoted name ++ " is not a routine"
  | undeclaredRoutine name => "Undeclared routine " ++ quoted name
  | argumentCount name expected found =>
    quoted name ++ " expects " ++ toString expected ++ " arguments but got " ++ toString found
  | argumentType position found expected =>
    "Argument " ++ toString position ++ " type " ++ quoted found.describe ++
      " is not assignable to parameter type " ++ quoted expected.describe
  | operandType operator found =>
    "Operator " ++ quoted operator.spelling ++ " cannot be applied to type " ++
      quoted found.describe
  | leftOperandType operator found =>
    "Left operand of " ++ quoted operator.spelling ++ " must be 'boolean', got " ++
      quoted found.describe
  | rightOperandType operator found =>
    "Right operand of " ++ quoted operator.spelling ++ " must be 'boolean', got " ++
      quoted found.describe
  | operandTypes operator left right =>
    "Operator " ++ quoted operator.spelling ++ " cannot be applied to types " ++
      quoted left.describe ++ " and " ++ quoted right.describe

def Problem.toDiagnostic (span : Span) (problem : Problem) : Diagnostic :=
  { stage := .semantic, span, message := problem.message }

end Imperative.Typing
