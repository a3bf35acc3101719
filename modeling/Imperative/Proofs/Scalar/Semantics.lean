import Imperative.Proofs.Typing.Judgement

/-!
# The meaning of scalar code

Integers have 32 bits and wrap around, and an integer is read as a truth value by comparing it with
zero.  A statement is stuck if it does something that has no meaning here.
-/

namespace Imperative.Scalar

/-- The two kinds of values. -/
inductive Kind where
  | integer
  | boolean
  deriving DecidableEq

namespace Kind

/-- The type of a kind. -/
def type : Kind → Ty
  | integer => .integer
  | boolean => .boolean

/-- The kind of a type. -/
def ofType? : Ty → Option Kind
  | .integer => some integer
  | .boolean => some boolean
  | _ => none

end Kind

/-- A value. -/
inductive Datum where
  | integer (val : Int32)
  | boolean (truth : Bool)
  deriving DecidableEq

namespace Datum

/-- The kind of a datum. -/
def kind : Datum → Kind
  | integer _ => .integer
  | boolean _ => .boolean

/-- The datum as an integer. -/
def word : Datum → Int32
  | integer val => val
  | boolean truth => if truth then 1 else 0

/-- The datum as a truth value. -/
def truth : Datum → Bool
  | integer val => val != 0
  | boolean truth => truth

/-- The datum as one of the kind. -/
def as (datum : Datum) : Kind → Datum
  | .integer => integer datum.word
  | .boolean => boolean datum.truth

/-- The first value of a variable of the kind. -/
def initial : Kind → Datum
  | .integer => integer 0
  | .boolean => boolean false

end Datum

/-- Why a value is not found: the program traps, or there is no meaning. -/
inductive Fault where
  | trap
  | stuck

/-- A literal, if it fits in 32 bits. -/
def literal (val : Int) : Except Fault Datum :=
  if -2147483648 ≤ val ∧ val ≤ 2147483647 then return .integer (Int32.ofInt val)
  else throw .stuck

/-- The quotient, with its traps. -/
def divide (left right : Int32) : Except Fault Int32 := if right = 0 then throw .trap
  else if left = Int32.minValue ∧ right = -1 then throw .trap
  else return left / right

/-- The remainder, with its trap. -/
def remainder (left right : Int32) : Except Fault Int32 :=
  if right = 0 then throw .trap else return left % right

/-- A binary operator. -/
def combine (op : BinaryOperator) (left right : Datum) : Except Fault Datum := match op with
  | .add => return .integer (left.word + right.word)
  | .sub => return .integer (left.word - right.word)
  | .mul => return .integer (left.word * right.word)
  | .div => .integer <$> divide left.word right.word
  | .mod => .integer <$> remainder left.word right.word
  | .less => return .boolean (left.word < right.word)
  | .lessEqual => return .boolean (left.word ≤ right.word)
  | .greater => return .boolean (right.word < left.word)
  | .greaterEqual => return .boolean (right.word ≤ left.word)
  | .equal => return .boolean (left.word = right.word)
  | .notEqual => return .boolean (left.word ≠ right.word)
  | .and => return .boolean (left.truth && right.truth)
  | .or => return .boolean (left.truth || right.truth)
  | .xor => return .boolean (left.truth ^^ right.truth)

/-- The value of an expression.  A literal right after a minus sign is one constant with it. -/
def evaluate (lookup : String → Option Datum) : Expr → Except Fault Datum
  | .integer _ val => literal val
  | .boolean _ truth => return .boolean truth
  | .name _ name =>
    match lookup name with
    | some datum => return datum
    | none => throw .stuck
  | .unary _ .plus operand => evaluate lookup operand
  | .unary _ .minus (.integer _ val) => literal (-val)
  | .unary _ .minus operand => do
    return .integer (-(← evaluate lookup operand).word)
  | .unary _ .not operand => do
    return .boolean (!(← evaluate lookup operand).truth)
  | .binary _ op left right => do
    combine op (← evaluate lookup left) (← evaluate lookup right)
  | .real _ _ | .field _ _ _ | .index _ _ _ | .call _ _ _ => throw .stuck

/-- The variables, the innermost local first, and what has been printed. -/
structure Store where
  locals : List (String × Datum)
  globals : String → Option Datum
  printed : List Int32

/-- Give a new value to the first variable with the name, which keeps its kind. -/
def replace (name : String) (datum : Datum) : List (String × Datum) → List (String × Datum)
  | [] => []
  | entry :: rest =>
    if entry.1 = name then (name, datum.as entry.2.kind) :: rest
    else entry :: replace name datum rest

namespace Store

/-- The value of a variable. -/
def lookup (store : Store) (name : String) : Option Datum := match store.locals.lookup name with
  | some datum => some datum
  | none => store.globals name

/-- The value of an expression in the store. -/
def evaluate (store : Store) (val : Expr) : Except Fault Datum := Scalar.evaluate store.lookup val

/-- The store after an assignment. -/
def assign (store : Store) (name : String) (datum : Datum) : Option Store :=
  if (store.locals.lookup name).isSome then
    some { store with locals := replace name datum store.locals }
  else
    (store.globals name).map fun old =>
      { store with
        globals := fun other =>
          if other = name then some (datum.as old.kind) else store.globals other }

/-- The store with another variable. -/
def declare (store : Store) (name : String) (datum : Datum) : Store :=
  { store with locals := (name, datum) :: store.locals }

/-- The store at the end of a scope. -/
def leave (store : Store) (depth : Nat) : Store :=
  { store with locals := store.locals.drop (store.locals.length - depth) }

/-- The store after something was printed. -/
def print (store : Store) (datum : Datum) : Store :=
  { store with printed := store.printed ++ [datum.word] }

end Store

/-- How a statement ends. -/
inductive Outcome where
  | normal (store : Store)
  | returned (val : Option Datum) (store : Store)
  | trapped (printed : List Int32)
  | stuck
  | exhausted

namespace Outcome

/-- What comes next, unless something ended early. -/
def andThen (outcome : Outcome) (next : Store → Outcome) : Outcome := match outcome with
  | normal store => next store
  | other => other

def leave (depth : Nat) : Outcome → Outcome
  | normal store => normal (store.leave depth)
  | other => other

end Outcome

/-- A value that is needed. -/
def Store.demand (store : Store) {α : Type} (computed : Except Fault α) (next : α → Outcome) :
    Outcome := match computed with
  | .ok val => next val
  | .error .trap => .trapped store.printed
  | .error .stuck => .stuck

/-- The kind of a written type. -/
def writtenKind? (names : Typing.Context) (type : TypeExpr) : Option Kind :=
  Kind.ofType? (Typing.resolve names.typeNamed none type).value

/-- The first value of a variable that is declared. -/
def firstDatum (names : Typing.Context) (store : Store) : VarDecl → Except Fault Datum
  | .mk _ _ (some type) initial =>
    match writtenKind? names type, initial with
    | some kind, some val => (·.as kind) <$> store.evaluate val
    | some kind, none => return .initial kind
    | none, _ => throw .stuck
  | .mk _ _ none (some val) => store.evaluate val
  | .mk _ _ none none => throw .stuck

/-- Values are printed one by one. -/
def printAll (store : Store) : List Expr → Outcome
  | [] => .normal store
  | first :: rest =>
    store.demand (store.evaluate first) fun datum => printAll (store.print datum) rest

/-- The integers of a range. -/
def ascending (first last : Int32) : List Int32 :=
  (List.range (last.toInt - first.toInt + 1).toNat).map fun (distance : Nat) =>
    Int32.ofInt (first.toInt + distance)

/-- The integers of a range in the direction of a loop. -/
def rangeValues (first last : Int32) : Direction → List Int32
  | .forward => ascending first last
  | .reverse => (ascending first last).reverse

/-- The end by a `return` with a value. -/
def giveBack (res : Option Kind) (store : Store) (datum : Datum) : Outcome := match res with
  | some kind => .returned (some (datum.as kind)) store
  | none => .stuck

mutual

def runStatement (res : Option Kind) : Nat → Typing.Context → Statement → Store → Outcome
  | 0, _, _, _ => .exhausted
  | _ + 1, _, .assign _ (.name _ name) val, store =>
    store.demand (store.evaluate val) fun datum =>
      match store.assign name datum with
      | some post => .normal post
      | none => .stuck
  | fuel + 1, names, .branch _ test consequent alternative, store =>
    store.demand (store.evaluate test) fun datum =>
      if datum.truth then runBlock res fuel names consequent store
      else
        match alternative with
        | some alternative => runBlock res fuel names alternative store
        | none => .normal store
  | fuel + 1, names, .whileLoop span test body, store =>
    store.demand (store.evaluate test) fun datum =>
      if datum.truth then
        (runBlock res fuel names body store).andThen
          (runStatement res fuel names (.whileLoop span test body))
      else .normal store
  | fuel + 1, names, .rangeLoop _ iter first last dir body, store =>
    store.demand (store.evaluate first) fun first =>
      store.demand (store.evaluate last) fun last =>
        runRange res fuel names iter (rangeValues first.word last.word dir) body store
  | _ + 1, _, .giveBack _ none, store =>
    match res with
    | none => .returned none store
    | some _ => .stuck
  | _ + 1, _, .giveBack _ (some val), store =>
    store.demand (store.evaluate val) (giveBack res store)
  | _ + 1, _, .print _ values, store => printAll store values
  | _ + 1, _, .empty _, store => .normal store
  | fuel + 1, names, .block _ inner, store => runBlock res fuel names inner store
  | _ + 1, _, .assign _ _ _, _ | _ + 1, _, .call _ _ _, _ | _ + 1, _, .arrayLoop _ _ _ _ _, _ =>
    .stuck

/-- Running a block. -/
def runBlock (res : Option Kind) : Nat → Typing.Context → Block → Store → Outcome
  | 0, _, _, _ => .exhausted
  | fuel + 1, names, .mk _ items, store =>
    (runItems res fuel names items store).leave store.locals.length

def runItems (res : Option Kind) : Nat → Typing.Context → List Item → Store → Outcome
  | 0, _, _, _ => .exhausted
  | _ + 1, _, [], store => .normal store
  | fuel + 1, names, .declaration (.var decl) :: rest, store =>
    store.demand (firstDatum names store decl) fun datum =>
      runItems res fuel (names.define decl.name (.var datum.kind.type)) rest
        (store.declare decl.name datum)
  | fuel + 1, names, .declaration (.type decl) :: rest, store =>
    let type := (Typing.resolve names.typeNamed (some decl.name) decl.type).value
    runItems res fuel (names.define decl.name (.type type)) rest store
  | _ + 1, _, .declaration (.routine _) :: _, _ => .stuck
  | fuel + 1, names, .statement first :: rest, store =>
    (runStatement res fuel names first store).andThen (runItems res fuel names rest)

def runRange (res : Option Kind) :
    Nat → Typing.Context → String → List Int32 → Block → Store → Outcome
  | 0, _, _, _, _, _ => .exhausted
  | _ + 1, _, _, [], _, store => .normal store
  | fuel + 1, names, iter, val :: rest, body, store =>
    let inner := names.define iter (.var .integer)
    ((runBlock res fuel inner body (store.declare iter (.integer val))).leave
      store.locals.length).andThen (runRange res fuel names iter rest body)

end

/-- Run the body of a routine.  One with a result traps at the end of its block. -/
def runBody (res : Option Kind) (fuel : Nat) (names : Typing.Context) (store : Store) :
    Body → Outcome
  | .expression val =>
    store.demand (store.evaluate val) fun datum => .returned (res.map datum.as) store
  | .block inner =>
    match runBlock res fuel names inner store, res with
    | .normal post, none => .returned none post
    | .normal post, some _ => .trapped post.printed
    | other, _ => other

/-- The store in which the body of a routine starts, the last parameter innermost. -/
def Store.enter (params : List String) (args : List Datum)
    (globals : String → Option Datum) : Store :=
  { locals := (params.zip args).reverse, globals, printed := [] }

end Imperative.Scalar
