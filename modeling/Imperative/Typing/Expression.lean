import Imperative.Typing.Analysis

/-!
# The types of expressions

`infer` finds the type of an expression and records it.  Where an operand has the
wrong type a problem is reported once, and the expression is typed as an error, which
goes with everything.
-/

namespace Imperative.Typing

def variableType (span : Span) (name : String) : Checker Ty := do
  match ← lookup name with
  | some (.var type) => return type
  | some _ => reject span (.notAVariable name)
  | none => reject span (.undeclaredIdentifier name)

def fieldType (span : Span) (receiver : Ty) (field : String) : Checker Ty :=
  match receiver with
  | .record name fields =>
    match Ty.field? fields field with
    | some type => return type
    | none => reject span (.noSuchField name field)
  | .error => return .error
  | _ => reject span (.fieldOfNonRecord field receiver)

def elementType (span : Span) (receiver : Ty) : Checker Ty :=
  match receiver with
  | .array element _ => return element
  | .error => return .error
  | _ => reject span (.indexOfNonArray receiver)

/-- Check arguments against parameter types, counting positions from `position`. -/
def checkArguments (position : Nat) : List (Span × Ty) → List Ty → Checker Unit
  | (span, found) :: arguments, expected :: parameters => do
    if !found.assignable expected then
      report span (.argumentType position found expected)
    checkArguments (position + 1) arguments parameters
  | _, _ => return ()

def callType (span : Span) (name : String) (arguments : List (Span × Ty)) : Checker Ty := do
  match ← lookup name with
  | some (.routine signature) =>
    if signature.parameters.length = arguments.length then
      checkArguments 1 arguments (signature.parameters.map Prod.snd)
      return signature.result
    else
      reject span (.argumentCount name signature.parameters.length arguments.length)
  | some _ => reject span (.notARoutine name)
  | none => reject span (.undeclaredRoutine name)

def unaryType (span : Span) (operator : UnaryOperator) (operand : Ty) : Checker Ty :=
  if operand.isError then return .error
  else
    match operator with
    | .plus | .minus =>
      if operand.isNumeric then return operand
      else reject span (.operandType operator operand)
    | .not =>
      if operand.assignable .boolean then return .boolean
      else reject span (.operandType operator operand)

def logicalType (span : Span) (operator : BinaryOperator) (left right : Ty) : Checker Ty := do
  if !left.assignable .boolean then
    report span (.leftOperandType operator left)
  if !right.assignable .boolean then
    report span (.rightOperandType operator right)
  return if left.assignable .boolean && right.assignable .boolean then .boolean else .error

def comparable (left right : Ty) : Bool :=
  (left.isNumeric && right.isNumeric) || (left.isBoolean && right.isBoolean)

def binaryType (span : Span) (operator : BinaryOperator) (left right : Ty) : Checker Ty :=
  if operator.isLogical then logicalType span operator left right
  else if left.isError || right.isError then return .error
  else if operator.isArithmetic && left.isNumeric && right.isNumeric then
    return if left.isInteger && right.isInteger then .integer else .real
  else if operator.isComparison && comparable left right then return .boolean
  else reject span (.operandTypes operator left right)

def checkIndex (span : Span) (type : Ty) : Checker Unit := do
  if !type.assignable .integer then
    report span (.indexType type)

mutual

def infer : Expr → Checker Ty
  | .integer span _ => record span .integer
  | .real span _ => record span .real
  | .boolean span _ => record span .boolean
  | .name span name => do
    record span (← variableType span name)
  | .field span receiver field => do
    let receiverType ← infer receiver
    record span (← fieldType span receiverType field)
  | .index span receiver position => do
    let receiverType ← infer receiver
    let positionType ← infer position
    checkIndex position.span positionType
    record span (← elementType span receiverType)
  | .call span name arguments => do
    let arguments ← inferAll arguments
    record span (← callType span name arguments)
  | .unary span operator operand => do
    let operandType ← infer operand
    record span (← unaryType span operator operandType)
  | .binary span operator left right => do
    let leftType ← infer left
    let rightType ← infer right
    record span (← binaryType span operator leftType rightType)

/-- Find and record the types of expressions; each comes with the span of its expression. -/
def inferAll : List Expr → Checker (List (Span × Ty))
  | [] => return []
  | first :: rest => do
    let firstType ← infer first
    let rest ← inferAll rest
    return (first.span, firstType) :: rest

end

end Imperative.Typing
