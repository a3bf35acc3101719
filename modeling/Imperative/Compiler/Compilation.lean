import Imperative.Compiler.Settings
import Imperative.Parser.Program
import Imperative.Simplify.Program
import Imperative.Source.Lines
import Imperative.Typing.Program

/-!
# Compilations

`compile` takes a text through all stages.  Mistakes in the text are diagnostics of the
outcome; if there are any, no module is made.  An error is only given for a program without
mistakes that has no module.
-/

namespace Imperative.Compiler

/-- Counts about a compilation. -/
structure Statistics where
  lines : Nat
  tokens : Nat
  declarations : Nat
  lexicalErrors : Nat
  syntaxErrors : Nat
  semanticErrors : Nat
  folded : Nat
  removed : Nat
  functions : Nat

def Statistics.errors (statistics : Statistics) : Nat :=
  statistics.lexicalErrors + statistics.syntaxErrors + statistics.semanticErrors

/-- What a compilation gives. -/
structure Outcome where
  program : Program
  diagnostics : List Diagnostic
  module : Option Wasm.Module
  statistics : Statistics

def simplified (settings : Settings) (program : Program) : Tally Program :=
  if settings.simplifies then program.simplify else pure program

def compile (settings : Settings) (text : String) : Except Lowering.Error Outcome := do
  let tokens := Token.tokenize text
  let parsed := Program.parseTokens tokens
  let diagnostics := parsed.diagnostics ++ parsed.value.analyze.diagnostics
  let statistics : Statistics :=
    { lines := (Text.lines text.toList).length
      tokens := tokens.length
      declarations := parsed.value.declarations.length
      lexicalErrors := Diagnostic.count .lexical diagnostics
      syntaxErrors := Diagnostic.count .syntactic diagnostics
      semanticErrors := Diagnostic.count .semantic diagnostics
      folded := 0
      removed := 0
      functions := 0 }
  if diagnostics.isEmpty then
    let result := simplified settings parsed.value
    let module ← Lowering.lower settings.options result.value
    return {
      program := result.value
      diagnostics
      module := some module
      statistics := { statistics with
        folded := result.folded
        removed := result.removed
        functions := module.functions.length } }
  else
    return { program := parsed.value, diagnostics, module := none, statistics }

end Imperative.Compiler
