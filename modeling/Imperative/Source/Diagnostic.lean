import Imperative.Source.Span

/-!
# Diagnostics

Mistakes in a source text are reported as `Diagnostic`s: the stage that found
the mistake, its span and a message.  They are kept in the order of the report.
-/

namespace Imperative

/-- The stage of the compiler that reports a diagnostic. -/
inductive Stage where
  | lexical
  | syntactic
  | semantic
  deriving DecidableEq

def Stage.title : Stage → String
  | .lexical => "字句エラー"
  | .syntactic => "構文エラー"
  | .semantic => "意味エラー"

/-- A mistake in the source text. -/
structure Diagnostic where
  stage : Stage
  span : Span
  message : String
  deriving DecidableEq

namespace Diagnostic

/-- The diagnostic as one line: its place and its message. -/
def render (diagnostic : Diagnostic) : String :=
  diagnostic.span.place ++ ": " ++ diagnostic.message

/-- How many of the diagnostics come from `stage`. -/
def count (stage : Stage) (diagnostics : List Diagnostic) : Nat :=
  diagnostics.countP fun diagnostic => diagnostic.stage = stage

end Diagnostic

end Imperative
