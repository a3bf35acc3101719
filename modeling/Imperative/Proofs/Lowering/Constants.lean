import Imperative.Lowering.Expression

/-!
# Integer constants

The literals in the expressions of a program, each with the minus sign before it.  Lengths of
arrays are not among them, since they are never part of the code.
-/

namespace Imperative

namespace Expr

mutual

/-- The integer constants of an expression; a minus sign before a literal belongs to it. -/
def constants : Expr → List Int
  | integer _ val => [val]
  | real _ _ | boolean _ _ | name _ _ => []
  | field _ recv _ => constants recv
  | index _ recv pos => constants recv ++ constants pos
  | call _ _ args => constantsOf args
  | unary _ .minus (integer _ val) => [min (-val) Lowering.greatestInteger]
  | unary _ _ operand => constants operand
  | binary _ _ left right => constants left ++ constants right

/-- The constants of some expressions. -/
def constantsOf : List Expr → List Int
  | [] => []
  | first :: rest => constants first ++ constantsOf rest

end

theorem constants_unary {span : Span}
    (notNegative : op = .minus → ∀ place val, operand ≠ integer place val) :
    constants (unary span op operand) = constants operand := by
  rw [constants]
  intro place val isMinus isLiteral
  exact notNegative isMinus place val isLiteral

end Expr

def VarDecl.constants (decl : VarDecl) : List Int := Expr.constantsOf decl.initial.toList

mutual

def Statement.constants : Statement → List Int
  | .assign _ tgt val => tgt.constants ++ val.constants
  | .call _ _ args => Expr.constantsOf args
  | .branch _ cond consequent none => cond.constants ++ consequent.constants
  | .branch _ cond consequent (some alternative) => cond.constants ++ consequent.constants ++
    alternative.constants
  | .whileLoop _ cond body => cond.constants ++ body.constants
  | .rangeLoop _ _ first last _ body => first.constants ++ last.constants ++ body.constants
  | .arrayLoop _ _ array _ body => array.constants ++ body.constants
  | .giveBack _ val => Expr.constantsOf val.toList
  | .print _ items => Expr.constantsOf items
  | .empty _ => []
  | .block _ inner => inner.constants

def Block.constants : Block → List Int
  | .mk _ items => Block.constantsOf items

def Block.constantsOf : List Item → List Int
  | [] => []
  | .declaration (.var decl) :: rest => decl.constants ++ Block.constantsOf rest
  | .declaration _ :: rest => Block.constantsOf rest
  | .statement first :: rest => first.constants ++ Block.constantsOf rest

end

def Body.constants : Body → List Int
  | .expression val => val.constants
  | .block inner => inner.constants

def Declaration.constants : Declaration → List Int
  | .var decl => decl.constants
  | .type _ => []
  | .routine inner => inner.body.elim [] Body.constants

/-- The constants of a program. -/
def Program.constants (program : Program) : List Int :=
    program.declarations.flatMap Declaration.constants

end Imperative
