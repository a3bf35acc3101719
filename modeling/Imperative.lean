import Imperative.Command.Workspace
import Imperative.Main
import Imperative.Proofs.Grammar.Standalone
import Imperative.Proofs.Grammar.Unparse
import Imperative.Proofs.Lowering.Conversions
import Imperative.Proofs.Lowering.Exports
import Imperative.Proofs.Lowering.Interning
import Imperative.Proofs.Lowering.Layout
import Imperative.Proofs.Lowering.MemoryUse
import Imperative.Proofs.Lowering.Segments
import Imperative.Proofs.Lowering.WellFormed
import Imperative.Proofs.Parser.LexicalErrors
import Imperative.Proofs.Parser.Termination
import Imperative.Proofs.Scalar.Program
import Imperative.Proofs.Simplify.Agreement
import Imperative.Proofs.Simplify.FixedPoint
import Imperative.Proofs.Simplify.Lowering
import Imperative.Proofs.Simplify.Meaning
import Imperative.Proofs.Source.ShownLines
import Imperative.Proofs.Token.Numbers
import Imperative.Proofs.Typing.ErrorFree
import Imperative.Proofs.Typing.Locality
import Imperative.Proofs.Typing.Order
import Imperative.Proofs.Wasm.TextFormat
