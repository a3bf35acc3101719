import Imperative.Simplify.Fold
import Imperative.Syntax.Program

/-!
# Simplifying programs

Every expression of a program is folded.  A branch on a literal condition becomes the
block it takes, a loop whose condition is the literal `false` disappears, and so do
empty statements.  Types are left as they are written.
-/

namespace Imperative

def VarDecl.simplify : VarDecl → Tally VarDecl
  | .mk span name type initial => do
    return .mk span name type (← Expr.simplify? initial)

mutual

def Statement.simplify : Statement → Tally Statement
  | .assign span target value => do
    return .assign span (← target.simplify) (← value.simplify)
  | .call span routine arguments => do
    return .call span routine (← Expr.simplifyAll arguments)
  | .branch span condition consequent alternative => do
    let condition ← condition.simplify
    match condition with
    | .boolean _ true =>
      Tally.remove ()
      let consequent ← consequent.simplify
      return .block span consequent
    | .boolean _ false =>
      Tally.remove ()
      match alternative with
      | some alternative =>
        let alternative ← alternative.simplify
        return .block span alternative
      | none => return .empty span
    | _ =>
      let consequent ← consequent.simplify
      match alternative with
      | some alternative =>
        let alternative ← alternative.simplify
        return .branch span condition consequent (some alternative)
      | none => return .branch span condition consequent none
  | .whileLoop span condition body => do
    let condition ← condition.simplify
    match condition with
    | .boolean _ false => Tally.remove (.empty span)
    | _ =>
      let body ← body.simplify
      return .whileLoop span condition body
  | .rangeLoop span iterator first last direction body => do
    let first ← first.simplify
    let last ← last.simplify
    let body ← body.simplify
    return .rangeLoop span iterator first last direction body
  | .arrayLoop span iterator array direction body => do
    let array ← array.simplify
    let body ← body.simplify
    return .arrayLoop span iterator array direction body
  | .giveBack span value => do
    return .giveBack span (← Expr.simplify? value)
  | .print span items => do
    return .print span (← Expr.simplifyAll items)
  | .empty span => return .empty span
  | .block span inner => do
    let inner ← inner.simplify
    return .block span inner

def Block.simplify : Block → Tally Block
  | .mk span items => do
    let items ← Block.simplifyItems items
    return .mk span items

def Block.simplifyItems : List Item → Tally (List Item)
  | [] => return []
  | .declaration inner :: rest => do
    let inner ← inner.simplify
    let rest ← Block.simplifyItems rest
    return .declaration inner :: rest
  | .statement inner :: rest => do
    let inner ← inner.simplify
    let rest ← Block.simplifyItems rest
    return if inner.isEmpty then rest else .statement inner :: rest

def Declaration.simplify : Declaration → Tally Declaration
  | .var inner => do return .var (← inner.simplify)
  | .type inner => return .type inner
  | .routine (.mk span name parameters result none) =>
    return .routine (.mk span name parameters result none)
  | .routine (.mk span name parameters result (some (.expression value))) => do
    return .routine (.mk span name parameters result (some (.expression (← value.simplify))))
  | .routine (.mk span name parameters result (some (.block inner))) => do
    let inner ← inner.simplify
    return .routine (.mk span name parameters result (some (.block inner)))

end

def Declaration.simplifyAll : List Declaration → Tally (List Declaration)
  | [] => return []
  | first :: rest => do
    let first ← first.simplify
    let rest ← Declaration.simplifyAll rest
    return first :: rest

def Program.simplify (program : Program) : Tally Program := do
  return { program with declarations := ← Declaration.simplifyAll program.declarations }

end Imperative
