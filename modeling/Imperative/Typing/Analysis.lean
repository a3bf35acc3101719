import Imperative.Typing.Resolve
import Imperative.Typing.SymbolTable

/-!
# The state of the analysis

An `Analysis` holds the symbol table, the diagnostics so far, the type of every
expression that has been looked at, and the type that a `return` has to give.
-/

namespace Imperative.Typing

/-- The state of the analysis; the types recorded last come first. -/
structure Analysis where
  symbols : SymbolTable
  diagnostics : List Diagnostic
  types : List (Span × Ty)
  expected : Option Ty

abbrev Checker := StateM Analysis

namespace Analysis

def basicSymbols : SymbolTable :=
  let scope : Scope :=
    { kind := .global
      symbols :=
        [("boolean", .type .boolean), ("real", .type .real), ("integer", .type .integer)] }
  { SymbolTable.empty with outermost := scope }

def initial : Analysis :=
  { symbols := basicSymbols, diagnostics := [], types := [], expected := none }

def typeAt (analysis : Analysis) (span : Span) : Option Ty :=
  analysis.types.lookup span

end Analysis

def report (span : Span) (problem : Problem) : Checker Unit :=
  modify fun analysis =>
    { analysis with diagnostics := analysis.diagnostics ++ [problem.toDiagnostic span] }

def reject (span : Span) (problem : Problem) : Checker Ty := do
  report span problem
  return .error

def record (span : Span) (type : Ty) : Checker Ty := do
  modify fun analysis => { analysis with types := (span, type) :: analysis.types }
  return type

def modifySymbols (change : SymbolTable → SymbolTable) : Checker Unit :=
  modify fun analysis => { analysis with symbols := change analysis.symbols }

/-- Define a name in the innermost scope, or report `problem` if it is already defined there. -/
def define (name : String) (symbol : Symbol) (span : Span) (problem : Problem) : Checker Unit := do
  match (← get).symbols.define? name symbol with
  | some symbols => modifySymbols fun _ => symbols
  | none => report span problem

def lookup (name : String) : Checker (Option Symbol) := do
  return (← get).symbols.lookup name

def resolveType (hint : Option String) (type : TypeExpr) : Checker Ty := do
  let symbols := (← get).symbols
  let resolved := resolve symbols.lookupType hint type
  resolved.problems.forM fun (span, problem) => report span problem
  return resolved.value

/-- The type that a written type stands for; what is wrong with it was reported before. -/
def resolveSilently (type : TypeExpr) : Checker Ty := do
  return (resolve (← get).symbols.lookupType none type).value

end Imperative.Typing
