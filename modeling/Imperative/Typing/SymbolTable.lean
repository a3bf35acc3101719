import Imperative.Typing.Ty

/-!
# Symbol tables

A symbol table is a stack of scopes over one outermost scope that is never left.  A
name is defined at most once in a scope; an inner scope may define it again and then
hides the outer definition.
-/

namespace Imperative.Typing

/-- The signature of a routine, and whether a declaration with a body has been seen. -/
structure Signature where
  parameters : List (String × Ty)
  result : Ty
  hasBody : Bool

def Signature.agrees (left right : Signature) : Bool :=
  left.parameters.length = right.parameters.length &&
    (left.parameters.zip right.parameters).all (fun (left, right) => left.2.same right.2) &&
    left.result.same right.result

/-- What a name stands for. -/
inductive Symbol where
  | var (type : Ty)
  | type (type : Ty)
  | routine (signature : Signature)

/-- What opens a scope. -/
inductive ScopeKind where
  | global
  | routine
  | block
  | loop
  deriving DecidableEq

/-- The names defined in one scope. -/
structure Scope where
  kind : ScopeKind
  symbols : List (String × Symbol)

/-- The scopes inside the outermost one, the innermost first. -/
structure SymbolTable where
  inner : List Scope
  outermost : Scope

namespace SymbolTable

def empty : SymbolTable :=
  { inner := [], outermost := { kind := .global, symbols := [] } }

def enter (kind : ScopeKind) (table : SymbolTable) : SymbolTable :=
  { table with inner := { kind, symbols := [] } :: table.inner }

def leave (table : SymbolTable) : SymbolTable :=
  { table with inner := table.inner.tail }

def depth (table : SymbolTable) : Nat :=
  table.inner.length + 1

def innermost (table : SymbolTable) : Scope :=
  table.inner.head?.getD table.outermost

/-- Add a definition to a scope; none if the name is already defined there. -/
def defineIn (name : String) (symbol : Symbol) (scope : Scope) : Option Scope :=
  match scope.symbols.lookup name with
  | some _ => none
  | none => some { scope with symbols := (name, symbol) :: scope.symbols }

/-- Define a name in the innermost scope; none if it is already defined there. -/
def define? (name : String) (symbol : Symbol) (table : SymbolTable) : Option SymbolTable :=
  match table.inner with
  | [] => (defineIn name symbol table.outermost).map fun outermost => { table with outermost }
  | scope :: outer =>
    (defineIn name symbol scope).map fun scope => { table with inner := scope :: outer }

def lookupIn (name : String) : List Scope → Option Symbol
  | [] => none
  | scope :: outer =>
    match scope.symbols.lookup name with
    | some symbol => some symbol
    | none => lookupIn name outer

def lookup (name : String) (table : SymbolTable) : Option Symbol :=
  lookupIn name (table.inner ++ [table.outermost])

def lookupType (name : String) (table : SymbolTable) : Option Ty :=
  match table.lookup name with
  | some (.type type) => some type
  | _ => none

def lookupGlobal (name : String) (table : SymbolTable) : Option Symbol :=
  table.outermost.symbols.lookup name

/-- Replace the definition of a name in the outermost scope; none if it has none. -/
def replaceGlobal? (name : String) (symbol : Symbol) (table : SymbolTable) : Option SymbolTable :=
  match table.lookupGlobal name with
  | none => none
  | some _ =>
    let replace (entry : String × Symbol) : String × Symbol :=
      if entry.1 = name then (name, symbol) else entry
    some { table with
      outermost := { table.outermost with symbols := table.outermost.symbols.map replace } }

end SymbolTable

end Imperative.Typing
