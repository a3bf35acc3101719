import Imperative.Typing.Expression

/-!
# The analysis of programs

A program is analysed in two passes.  The first one defines all types and the
signatures of all routines of the outermost scope, so that routines may call each
other in any order; the second one checks variables and the bodies of routines in the
order of the text.
-/

namespace Imperative.Typing

/-! ## Declarations -/

def declareType (decl : TypeDecl) : Checker Unit := do
  let type ← resolveType (some decl.name) decl.type
  define decl.name (.type type) decl.span (.typeRedefined decl.name)

def parameterTypes : List Parameter → Checker (List (String × Ty))
  | [] => return []
  | first :: rest => do
    let firstType ← resolveType none first.type
    let rest ← parameterTypes rest
    return (first.name, firstType) :: rest

def signature (routine : Routine) : Checker Signature := do
  let parameters ← parameterTypes routine.parameters
  let result ←
    match routine.result with
    | some type => resolveType none type
    | none => pure .void
  return { parameters, result, hasBody := !routine.isForward }

/--
Register the signature of a routine.  A routine may be declared any number of times as
long as the signatures agree and at most one declaration has a body, whose signature
is then the one that counts.
-/
def declareRoutine (routine : Routine) : Checker Unit := do
  let declared ← signature routine
  match (← get).symbols.lookupGlobal routine.name with
  | none =>
    define routine.name (.routine declared) routine.span (.routineRedefined routine.name)
  | some (.routine existing) =>
    if existing.hasBody && declared.hasBody then
      report routine.span (.routineRedefined routine.name)
    else if !existing.agrees declared then
      report routine.span (.forwardMismatch routine.name)
    else if declared.hasBody then
      modifySymbols fun symbols =>
        (symbols.replaceGlobal? routine.name (.routine declared)).getD symbols
  | some _ => report routine.span (.routineRedefined routine.name)

def variableDeclType (span : Span) (name : String) (declared initial : Option Ty) : Checker Ty := do
  match declared, initial with
  | some declared, some initial =>
    if !initial.assignable declared then
      report span (.notAssignable initial declared)
    return declared
  | some declared, none => return declared
  | none, some initial =>
    if initial.isVoid then reject span (.voidVariable name) else return initial
  | none, none => reject span (.untypedVariable name)

def declareVariable : VarDecl → Checker Unit
  | .mk span name type initial => do
    let declared ←
      match type with
      | some type => some <$> resolveType none type
      | none => pure none
    let initialType ←
      match initial with
      | some value => some <$> infer value
      | none => pure none
    let type ← variableDeclType span name declared initialType
    define name (.var type) span (.variableRedefined name)

/-! ## Statements -/

def checkCondition (condition : Expr) (problem : Ty → Problem) : Checker Unit := do
  let type ← infer condition
  if !type.assignable .boolean then
    report condition.span (problem type)

def checkBound (bound : Expr) (problem : Ty → Problem) : Checker Unit := do
  let type ← infer bound
  if !type.assignable .integer then
    report bound.span (problem type)

def iteratorType (array : Expr) : Checker Ty := do
  match ← infer array with
  | .array element _ => return element
  | .error => return .error
  | other => reject array.span (.notIterable other)

def checkAssignment (span : Span) (target value : Expr) : Checker Unit := do
  let targetType ← infer target
  let valueType ← infer value
  if !target.isPlace then
    report span .notAPlace
  else if !valueType.assignable targetType then
    report span (.notAssignable valueType targetType)

def checkReturn (span : Span) (value : Option Expr) : Checker Unit := do
  match (← get).expected, value with
  | none, _ => report span .returnOutsideRoutine
  | some expected, some value =>
    let type ← infer value
    if expected.isVoid then
      report span .valueFromVoidRoutine
    else if !type.assignable expected then
      report span (.returnType type expected)
  | some expected, none =>
    if !expected.isVoid then
      report span (.valueRequired expected)

def checkPrinted : List Expr → Checker Unit
  | [] => return ()
  | first :: rest => do
    let type ← infer first
    if type.isVoid || type.isAggregate then
      report first.span (.notPrintable type)
    checkPrinted rest

def defineIterator (name : String) (type : Ty) : Checker Unit :=
  modifySymbols fun symbols => (symbols.define? name (.var type)).getD symbols

mutual

def checkStatement : Statement → Checker Unit
  | .assign span target value => checkAssignment span target value
  | .call span name arguments => do
    let arguments ← inferAll arguments
    let _ ← record span (← callType span name arguments)
  | .branch _ condition consequent alternative => do
    checkCondition condition .conditionType
    checkBlock .block consequent
    match alternative with
    | some alternative => checkBlock .block alternative
    | none => return ()
  | .whileLoop _ condition body => do
    checkCondition condition .loopConditionType
    checkBlock .loop body
  | .rangeLoop _ iterator first last _ (.mk _ items) => do
    checkBound first .rangeStartType
    checkBound last .rangeEndType
    modifySymbols (SymbolTable.enter .loop)
    defineIterator iterator .integer
    checkItems items
    modifySymbols SymbolTable.leave
  | .arrayLoop _ iterator array _ (.mk _ items) => do
    let type ← iteratorType array
    modifySymbols (SymbolTable.enter .loop)
    defineIterator iterator type
    checkItems items
    modifySymbols SymbolTable.leave
  | .giveBack span value => checkReturn span value
  | .print _ items => checkPrinted items
  | .empty _ => return ()
  | .block _ inner => checkBlock .block inner

def checkBlock (kind : ScopeKind) : Block → Checker Unit
  | .mk _ items => do
    modifySymbols (SymbolTable.enter kind)
    checkItems items
    modifySymbols SymbolTable.leave

def checkItems : List Item → Checker Unit
  | [] => return ()
  | .declaration (.var inner) :: rest => do
    declareVariable inner
    checkItems rest
  | .declaration (.type inner) :: rest => do
    declareType inner
    checkItems rest
  | .declaration (.routine inner) :: rest => do
    report inner.span .nestedRoutine
    checkItems rest
  | .statement inner :: rest => do
    checkStatement inner
    checkItems rest

end

/-! ## Routines and programs -/

def defineParameters : List Parameter → Checker Unit
  | [] => return ()
  | first :: rest => do
    let type ← resolveSilently first.type
    define first.name (.var type) first.span (.parameterRedefined first.name)
    defineParameters rest

/-- Check the body of a routine that gives a value of type `expected`. -/
def checkBody (expected : Ty) : Body → Checker Unit
  | .expression value => do
    let type ← infer value
    if !expected.isVoid && !type.assignable expected then
      report value.span (.bodyType type expected)
  | .block inner => checkItems inner.items

/-- Set the type that a `return` has to give. -/
def setExpected (expected : Option Ty) : Checker Unit :=
  modify fun analysis => { analysis with expected }

def checkRoutine (routine : Routine) : Checker Unit := do
  match routine.body with
  | none => return ()
  | some body =>
    let result ←
      match routine.result with
      | some type => resolveSilently type
      | none => pure .void
    modifySymbols (SymbolTable.enter .routine)
    defineParameters routine.parameters
    let previous := (← get).expected
    setExpected (some result)
    checkBody result body
    setExpected previous
    modifySymbols SymbolTable.leave

/-- The first pass: define types and signatures. -/
def declareAll : List Declaration → Checker Unit
  | [] => return ()
  | .var _ :: rest => declareAll rest
  | .type inner :: rest => do
    declareType inner
    declareAll rest
  | .routine inner :: rest => do
    declareRoutine inner
    declareAll rest

/-- The second pass: check variables and bodies. -/
def checkAll : List Declaration → Checker Unit
  | [] => return ()
  | .var inner :: rest => do
    declareVariable inner
    checkAll rest
  | .type _ :: rest => checkAll rest
  | .routine inner :: rest => do
    checkRoutine inner
    checkAll rest

def checkProgram (program : Program) : Checker Unit := do
  declareAll program.declarations
  checkAll program.declarations

end Imperative.Typing

def Imperative.Program.analyze (program : Imperative.Program) : Imperative.Typing.Analysis :=
  (Imperative.Typing.checkProgram program Imperative.Typing.Analysis.initial).2
