import Imperative.Syntax.Expr

/-!
# Programs

A program is a list of declarations of variables, types and routines.  The body of a
routine is an expression or a block, and a block mixes declarations with statements.
A routine without a body is a forward declaration.
-/

namespace Imperative

/-- The names of the types that are built in. -/
inductive PrimitiveName where
  | integer
  | real
  | boolean
  deriving DecidableEq

namespace PrimitiveName

def spelling : PrimitiveName → String
  | integer => "integer"
  | real => "real"
  | boolean => "boolean"

def ofSpelling? (word : String) : Option PrimitiveName :=
  [integer, real, boolean].find? fun name => name.spelling = word

end PrimitiveName

mutual

/-- A type as it is written. -/
inductive TypeExpr where
  | primitive (span : Span) (name : PrimitiveName)
  | named (span : Span) (name : String)
  | record (span : Span) (fields : List VarDecl)
  | array (span : Span) (element : TypeExpr) (size : Option Expr)

/-- The declaration of a variable or of a field of a record. -/
inductive VarDecl where
  | mk (span : Span) (name : String) (type : Option TypeExpr) (initial : Option Expr)

end

namespace TypeExpr

def span : TypeExpr → Span
  | primitive span _ | named span _ | record span _ | array span _ _ => span

end TypeExpr

namespace VarDecl

def span : VarDecl → Span
  | mk span _ _ _ => span

def name : VarDecl → String
  | mk _ name _ _ => name

def type : VarDecl → Option TypeExpr
  | mk _ _ type _ => type

def initial : VarDecl → Option Expr
  | mk _ _ _ initial => initial

end VarDecl

/-- The declaration of a type. -/
structure TypeDecl where
  span : Span
  name : String
  type : TypeExpr

/-- A parameter of a routine. -/
structure Parameter where
  span : Span
  name : String
  type : TypeExpr

/-- Which way a loop runs. -/
inductive Direction where
  | forward
  | reverse
  deriving DecidableEq

mutual

/-- A statement.  `empty` stands where a mistake was skipped or a statement removed. -/
inductive Statement where
  | assign (span : Span) (target value : Expr)
  | call (span : Span) (routine : String) (arguments : List Expr)
  | branch (span : Span) (condition : Expr) (consequent : Block) (alternative : Option Block)
  | whileLoop (span : Span) (condition : Expr) (body : Block)
  | rangeLoop (span : Span) (iterator : String) (first last : Expr) (direction : Direction)
      (body : Block)
  | arrayLoop (span : Span) (iterator : String) (array : Expr) (direction : Direction)
      (body : Block)
  | giveBack (span : Span) (value : Option Expr)
  | print (span : Span) (items : List Expr)
  | empty (span : Span)
  | block (span : Span) (inner : Block)

/-- A block, which opens a scope. -/
inductive Block where
  | mk (span : Span) (items : List Item)

/-- A declaration or a statement in a block. -/
inductive Item where
  | declaration (inner : Declaration)
  | statement (inner : Statement)

inductive Declaration where
  | var (inner : VarDecl)
  | type (inner : TypeDecl)
  | routine (inner : Routine)

/-- A routine; without a body it is a forward declaration. -/
inductive Routine where
  | mk (span : Span) (name : String) (parameters : List Parameter) (result : Option TypeExpr)
      (body : Option Body)

/-- The body of a routine. -/
inductive Body where
  | expression (value : Expr)
  | block (inner : Block)

end

namespace Block

def span : Block → Span
  | mk span _ => span

def items : Block → List Item
  | mk _ items => items

end Block

namespace Statement

def span : Statement → Span
  | assign span _ _ | call span _ _ | branch span _ _ _ | whileLoop span _ _ => span
  | rangeLoop span _ _ _ _ _ | arrayLoop span _ _ _ _ | giveBack span _ | print span _ => span
  | empty span | block span _ => span

def isEmpty : Statement → Bool
  | empty _ => true
  | _ => false

end Statement

namespace Routine

def span : Routine → Span
  | mk span _ _ _ _ => span

def name : Routine → String
  | mk _ name _ _ _ => name

def parameters : Routine → List Parameter
  | mk _ _ parameters _ _ => parameters

def result : Routine → Option TypeExpr
  | mk _ _ _ result _ => result

def body : Routine → Option Body
  | mk _ _ _ _ body => body

def isForward (routine : Routine) : Bool :=
  routine.body.isNone

end Routine

/-- A whole program. -/
structure Program where
  span : Span
  declarations : List Declaration

namespace Program

def routines (program : Program) : List Routine :=
  program.declarations.filterMap fun
    | .routine routine => some routine
    | _ => none

/--
The routine with the given name: the first declaration with a body, or else the last
forward declaration.
-/
def routine? (program : Program) (name : String) : Option Routine :=
  let named := program.routines.filter fun routine => routine.name = name
  match named.find? fun routine => !routine.isForward with
  | some routine => some routine
  | none => named.getLast?

end Program

end Imperative
