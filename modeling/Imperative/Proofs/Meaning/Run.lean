import Imperative.Typing.Resolve

/-!
# The meaning of programs

What programs do, whatever they are compiled to.  Integers are unbounded, quotients are truncated
and a zero divisor is a failure.  Reals are doubles; two of them are equal when they differ by less
than the tolerance.  A place is a cell with a path to a part of the value in it.  What a routine
does when it is called is left to a `World`.  Loops may run forever, so a run is given the number
of rounds that a `while` loop may take.
-/

namespace Imperative.Meaning

/-- The values of expressions and variables. -/
inductive Value where
  | integer (value : Int)
  | real (value : Float)
  | boolean (value : Bool)
  | array (elements : List Value)
  | record (fields : List (String × Value))

/-- One step from a value to a part of it; elements are counted from zero. -/
inductive Step where
  | field (name : String)
  | element (pos : Nat)

namespace Value

/-- The value as a condition. -/
def truth? : Value → Option Bool
  | boolean value => some value
  | integer value => some (value != 0)
  | _ => none

/-- The value as an integer. -/
def whole? : Value → Option Int
  | integer value => some value
  | boolean value => some (if value then 1 else 0)
  | _ => none

/-- The elements of an array. -/
def elements? : Value → Option (List Value)
  | array elements => some elements
  | _ => none

/-- The value is an array or a record. -/
def isAggregate : Value → Bool
  | array _ | record _ => true
  | _ => false

/--
What a variable holds after `given` is stored in it, which held a value of its own kind before.
Of an array, as many elements are replaced as both have.
-/
def store? (held given : Value) : Option Value := match held, given with
  | integer _, given => integer <$> given.whole?
  | boolean _, given => boolean <$> given.truth?
  | real _, real value => some (real value)
  | real _, given => (fun value => real (Float.ofInt value)) <$> given.whole?
  | array held, array given => some (array (given.take held.length ++ held.drop given.length))
  | record _, record given => some (record given)
  | _, _ => none

/-- The part of a value after one step. -/
def part? : Value → Step → Option Value
  | record fields, .field name => fields.lookup name
  | array elements, .element pos => elements[pos]?
  | _, _ => none

/-- The value with another part. -/
def withPart? (whole : Value) (step : Step) (part : Value) : Option Value := match whole, step with
  | record fields, .field name =>
    some (record (fields.map fun field => if field.1 = name then (name, part) else field))
  | array elements, .element pos => some (array (elements.set pos part))
  | _, _ => none

/-- The part of a value at the end of a path. -/
def follow? (path : List Step) (value : Value) : Option Value := path.foldlM part? value

/-- The value after an assignment to a part of it. -/
def storeAt? (given : Value) : List Step → Value → Option Value
  | [], held => held.store? given
  | step :: rest, whole => do
    let part ← whole.part? step
    whole.withPart? step (← storeAt? given rest part)

end Value

mutual

/-- The first value of a variable of the type. -/
def initial? : Ty → Option Value
  | .integer => some (.integer 0)
  | .real => some (.real 0.0)
  | .boolean => some (.boolean false)
  | .array element (some size) => do
    return .array (List.replicate size (← initial? element))
  | .record _ fields => do
    return .record (← initialFields? fields)
  | .array _ none | .void | .error => none

def initialFields? : List (String × Ty) → Option (List (String × Value))
  | [] => some []
  | (name, type) :: rest => do
    let value ← initial? type
    return (name, value) :: (← initialFields? rest)

end

/-- What is seen of a run from outside. -/
inductive Event where
  | print (value : Value)
  | call (routine : String) (args : List Value)

/-- The cells of the variables and what has happened so far. -/
structure State where
  cells : List Value
  events : List Event

/-- Why a run ends early.  It is stuck if it does something that has no meaning. -/
inductive Failure where
  | zeroDivisor
  | outOfBounds
  | stuck
  | exhausted

/-- A computation on the state, which may fail. -/
abbrev Run := ExceptT Failure (StateM State)

/-- What has no meaning is stuck. -/
def demand {α : Type} : Option α → Run α
  | some value => return value
  | none => throw .stuck

/-- Something is noted in the record. -/
def emit (event : Event) : Run Unit := modify fun st => { st with events := st.events ++ [event] }

/-- A cell, with the way to a part of what it holds. -/
structure Place where
  cell : Nat
  path : List Step

/-- A part of a place. -/
def Place.part (place : Place) (step : Step) : Place := { place with path := place.path ++ [step] }

/-- A new cell, which holds the value. -/
def allocate (value : Value) : Run Place := do
  let st ← get
  set { st with cells := st.cells ++ [value] }
  return { cell := st.cells.length, path := [] }

namespace Place

/-- The value at a place. -/
def read (place : Place) : Run Value := do
  let whole ← demand (← get).cells[place.cell]?
  demand (whole.follow? place.path)

/-- The value at a place is replaced. -/
def write (place : Place) (value : Value) : Run Unit := do
  let st ← get
  let whole ← demand st.cells[place.cell]?
  let changed ← demand (value.storeAt? place.path whole)
  set { st with cells := st.cells.set place.cell changed }

theorem read_cell {st : State} {cell : Nat} {value : Value} (held : st.cells[cell]? = some value) :
    (read ⟨cell, []⟩).run.run st = (.ok value, st) := by
  change (demand st.cells[cell]? >>= fun whole => demand (whole.follow? [])).run.run st = _
  rw [held]
  rfl

end Place

/-- What is allocated can be read at once. -/
theorem read_allocate (value : Value) (st : State) :
    (do (← allocate value).read : Run Value).run.run st =
      (.ok value, { st with cells := st.cells ++ [value] }) :=
  Place.read_cell (by simp)

/-- An allocation leaves the cells that are in use as they are. -/
theorem cells_allocate {st : State} {cell : Nat} (used : cell < st.cells.length) (value : Value) :
    ((allocate value).run.run st).2.cells[cell]? = st.cells[cell]? :=
  List.getElem?_append_left used

/-- What an expression gives: a value, or the place of one. -/
inductive Operand where
  | plain (value : Value)
  | stored (place : Place)

namespace Operand

/-- The value of an operand. -/
def load : Operand → Run Value
  | plain value => return value
  | stored place => place.read

/-- The place of an operand, if it has one. -/
def place? : Operand → Option Place
  | plain _ => none
  | stored place => some place

/-- A part of an operand. -/
def part (step : Step) : Operand → Run Operand
  | plain value => do
    return plain (← demand (value.part? step))
  | stored place => return stored (place.part step)

/-- An element of an array, counted from one. -/
def element (array : Operand) (index : Value) : Run Operand := do
  let elements ← demand (← array.load).elements?
  let pos ← demand index.whole?
  if 1 ≤ pos ∧ pos ≤ elements.length then
    array.part (.element (pos - 1).toNat)
  else throw .outOfBounds

/-- Where the iterator of a loop is kept: an array or record in its place, all else in a copy. -/
def iterator (element : Operand) : Run Place := do
  let value ← element.load
  match element.place? with
  | some place => if value.isAggregate then return place else allocate value
  | none => allocate value

end Operand

/-- A unary operator. -/
def unary (op : UnaryOperator) (operand : Value) : Run Value := match op, operand with
  | .plus, .integer value => return .integer value
  | .plus, .real value => return .real value
  | .minus, .integer value => return .integer (-value)
  | .minus, .real value => return .real (-value)
  | .not, operand => do
    return .boolean !(← demand operand.truth?)
  | _, _ => throw .stuck

/-- A binary operator on integers. -/
def integers (op : BinaryOperator) (left right : Int) : Run Value := match op with
  | .add => return .integer (left + right)
  | .sub => return .integer (left - right)
  | .mul => return .integer (left * right)
  | .div => if right = 0 then throw .zeroDivisor else return .integer (left.tdiv right)
  | .mod => if right = 0 then throw .zeroDivisor else return .integer (left.tmod right)
  | .less => return .boolean (left < right)
  | .lessEqual => return .boolean (left ≤ right)
  | .greater => return .boolean (left > right)
  | .greaterEqual => return .boolean (left ≥ right)
  | .equal => return .boolean (left = right)
  | .notEqual => return .boolean (left ≠ right)
  | .and | .or | .xor => throw .stuck

/-- A binary operator on reals. -/
def reals (op : BinaryOperator) (left right : Float) : Run Value := match op with
  | .add => return .real (left + right)
  | .sub => return .real (left - right)
  | .mul => return .real (left * right)
  | .div => return .real (left / right)
  | .mod => return .real (Real.remainder left right)
  | .less => return .boolean (left < right)
  | .lessEqual => return .boolean (left ≤ right)
  | .greater => return .boolean (left > right)
  | .greaterEqual => return .boolean (left ≥ right)
  | .equal => return .boolean ((left - right).abs < Literal.tolerance)
  | .notEqual => return .boolean ((left - right).abs ≥ Literal.tolerance)
  | .and | .or | .xor => throw .stuck

/-- A comparison of truth values, of which `false` is the smaller one. -/
def booleans (op : BinaryOperator) (left right : Bool) : Run Value := match op with
  | .less => return .boolean (left < right)
  | .lessEqual => return .boolean (left ≤ right)
  | .greater => return .boolean (left > right)
  | .greaterEqual => return .boolean (left ≥ right)
  | .equal => return .boolean (left = right)
  | .notEqual => return .boolean (left ≠ right)
  | _ => throw .stuck

/-- A connective. -/
def connect (op : BinaryOperator) (left right : Bool) : Run Value := match op with
  | .and => return .boolean (left && right)
  | .or => return .boolean (left || right)
  | .xor => return .boolean (left ^^ right)
  | _ => throw .stuck

/-- A binary operator on two values; an integer beside a real is taken as a real. -/
def combine (op : BinaryOperator) (left right : Value) : Run Value :=
  if op.isLogical then do
    connect op (← demand left.truth?) (← demand right.truth?)
  else
    match left, right with
    | .integer left, .integer right => integers op left right
    | .real left, .real right => reals op left right
    | .integer left, .real right => reals op (Float.ofInt left) right
    | .real left, .integer right => reals op left (Float.ofInt right)
    | .boolean left, .boolean right => booleans op left right
    | _, _ => throw .stuck

/-- The result that the left operand decides, whatever the right one is. -/
def settled? (op : BinaryOperator) (left : Value) : Option Bool := match op, left.truth? with
  | .and, some false => some false
  | .or, some true => some true
  | _, _ => none

/-- What names stand for, the innermost definitions first. -/
structure Scope where
  places : List (String × Place)
  types : List (String × Ty)

namespace Scope

/-- The scope with another variable. -/
def bind (name : String) (place : Place) (scope : Scope) : Scope :=
  { scope with places := (name, place) :: scope.places }

/-- What a written type means in the scope. -/
def resolve (hint : Option String) (type : TypeExpr) (scope : Scope) : Ty :=
  (Typing.resolve (fun name => scope.types.lookup name) hint type).value

/-- The scope with another type. -/
def defineType (decl : TypeDecl) (scope : Scope) : Scope :=
  { scope with types := (decl.name, scope.resolve (some decl.name) decl.type) :: scope.types }

end Scope

/-- What a routine gets for a parameter. -/
structure Argument where
  operand : Operand
  value : Value

/-- What routines do when they are called. -/
abbrev World := String → List Argument → Run (Option Value)

/-- A call is noted and made. -/
def invoke (world : World) (routine : String) (args : List Argument) : Run (Option Value) := do
  emit (.call routine (args.map Argument.value))
  world routine args

section Expressions

variable (world : World) (scope : Scope)

mutual

/-- What an expression gives, with its place if it has one. -/
def operand : Expr → Run Operand
  | .integer _ value => return .plain (.integer value)
  | .real _ value => return .plain (.real value)
  | .boolean _ value => return .plain (.boolean value)
  | .name _ name => do
    return .stored (← demand (scope.places.lookup name))
  | .field _ recv name => do
    (← operand recv).part (.field name)
  | .index _ recv pos => do
    let array ← operand recv
    let index ← (← operand pos).load
    array.element index
  | .call _ routine args => do
    let given ← invoke world routine (← operands args)
    return .plain (← demand given)
  | .unary _ op inner => do
    let value ← (← operand inner).load
    return .plain (← unary op value)
  | .binary _ op left right => do
    let leftVal ← (← operand left).load
    match settled? op leftVal with
    | some truth => return .plain (.boolean truth)
    | none =>
      let rightVal ← (← operand right).load
      return .plain (← combine op leftVal rightVal)

/-- Arguments from left to right. -/
def operands : List Expr → Run (List Argument)
  | [] => return []
  | first :: rest => do
    let operand ← operand first
    let value ← operand.load
    return { operand, value } :: (← operands rest)

end

/-- The value of an expression. -/
def evaluate (expr : Expr) : Run Value := do
  (← operand world scope expr).load

/-- The value of a condition. -/
def test (cond : Expr) : Run Bool := do
  demand (← evaluate world scope cond).truth?

/-- The value of a bound. -/
def bound (expr : Expr) : Run Int := do
  demand (← evaluate world scope expr).whole?

/-- Values are printed one by one. -/
def printAll : List Expr → Run Unit
  | [] => return ()
  | first :: rest => do
    emit (.print (← evaluate world scope first))
    printAll rest

/-- The first value of a variable that is declared. -/
def firstValue : VarDecl → Run Value
  | .mk _ _ (some type) (some init) => do
    let value ← evaluate world scope init
    demand ((initial? (scope.resolve none type)).bind (·.store? value))
  | .mk _ _ (some type) none => demand (initial? (scope.resolve none type))
  | .mk _ _ none (some init) => evaluate world scope init
  | .mk _ _ none none => throw .stuck

/-- A variable gets a new cell. -/
def declare (decl : VarDecl) : Run Scope := do
  let place ← allocate (← firstValue world scope decl)
  return scope.bind decl.name place

end Expressions

/-- How a statement ends: the next one follows, or the routine is left. -/
inductive Flow where
  | next
  | returned (value : Option Value)

/-- Do one thing after the other, unless the first one leaves the routine. -/
def followedBy (first rest : Run Flow) : Run Flow := do
  match ← first with
  | .next => rest
  | .returned value => return .returned value

/-- A loop, for a number of rounds. -/
def repeatWhile (cond : Run Bool) (body : Run Flow) : Nat → Run Flow
  | 0 => do
    if ← cond then throw .exhausted else return .next
  | rounds + 1 => do
    if ← cond then followedBy body (repeatWhile cond body rounds)
    else return .next

/-- The body for each of the values. -/
def forEach {α : Type} (body : α → Run Flow) : List α → Run Flow
  | [] => return .next
  | first :: rest => followedBy (body first) (forEach body rest)

/-- The values in the direction of a loop. -/
def ordered {α : Type} (values : List α) : Direction → List α
  | .forward => values
  | .reverse => values.reverse

/-- The integers of a range. -/
def range (first last : Int) : List Int :=
  (List.range (last - first + 1).toNat).map fun (distance : Nat) => first + distance

section Statements

variable (world : World) (rounds : Nat)

mutual

def runStatement (scope : Scope) : Statement → Run Flow
  | .assign _ tgt value => do
    let place ← demand (← operand world scope tgt).place?
    place.write (← evaluate world scope value)
    return .next
  | .call _ routine args => do
    let _ ← invoke world routine (← operands world scope args)
    return .next
  | .branch _ cond consequent alternative => do
    if ← test world scope cond then runBlock scope consequent
    else
      match alternative with
      | some alternative => runBlock scope alternative
      | none => return .next
  | .whileLoop _ cond body => repeatWhile (test world scope cond) (runBlock scope body) rounds
  | .rangeLoop _ iterator first last dir body => do
    let first ← bound world scope first
    let last ← bound world scope last
    forEach (fun value => do
      let place ← allocate (.integer value)
      runBlock (scope.bind iterator place) body) (ordered (range first last) dir)
  | .arrayLoop _ iterator array dir body => do
    let array ← operand world scope array
    let elements ← demand (← array.load).elements?
    forEach (fun pos => do
      let place ← (← array.part (.element pos)).iterator
      runBlock (scope.bind iterator place) body) (ordered (List.range elements.length) dir)
  | .giveBack _ none => return .returned none
  | .giveBack _ (some value) => do
    return .returned (some (← evaluate world scope value))
  | .print _ items => do
    printAll world scope items
    return .next
  | .empty _ => return .next
  | .block _ inner => runBlock scope inner

/-- Running a block. -/
def runBlock (scope : Scope) : Block → Run Flow
  | .mk _ items => runItems scope items

/-- Run the items of a block; what is declared is known to the items after it. -/
def runItems (scope : Scope) : List Item → Run Flow
  | [] => return .next
  | .declaration (.var decl) :: rest => do
    runItems (← declare world scope decl) rest
  | .declaration (.type decl) :: rest => runItems (scope.defineType decl) rest
  | .declaration (.routine _) :: _ => throw .stuck
  | .statement first :: rest => followedBy (runStatement scope first) (runItems scope rest)

end

/-- A decided operator calls nothing, and quotients are truncated. -/
example (scope : Scope) (st : State) (span : Span) :
    (runStatement world rounds scope
      (.print span
        [.binary span .and (.boolean span false) (.call span "f" []),
          .binary span .div (.integer span 7) (.integer span (-2))])).run.run st =
      (.ok .next,
        { st with
          events := st.events ++ [.print (.boolean false)] ++ [.print (.integer (-3))] }) := rfl

/-- A variable is declared, assigned and read, and so is the iterator of a loop. -/
example (span : Span) :
    (runItems world rounds ⟨[], []⟩
      [.declaration (.var (.mk span "x" none (some (.integer span 2)))),
        .statement (.assign span (.name span "x")
          (.binary span .mul (.name span "x") (.integer span 3))),
        .statement (.rangeLoop span "i" (.integer span 1) (.integer span 2) .reverse
          (.mk span [.statement (.print span [.name span "i", .name span "x"])]))]).run.run
        ⟨[], []⟩ =
      (.ok .next,
        { cells := [.integer 6, .integer 2, .integer 1]
          events := [.print (.integer 2), .print (.integer 6), .print (.integer 1),
            .print (.integer 6)] }) := by cbv

/-- Running the body of a routine. -/
def runBody (scope : Scope) : Body → Run Flow
  | .expression value => do
    return .returned (some (← evaluate world scope value))
  | .block inner => runBlock world rounds scope inner

end Statements

end Imperative.Meaning
