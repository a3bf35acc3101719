import Imperative.Syntax.Program

/-!
# The expressions of a program

In the order of the text, and each one after its own parts.  A call that is a statement counts as
the expression for that call.
-/

namespace Imperative

namespace Expr

mutual

/-- What is inside of an expression. -/
def parts : Expr → List Expr
  | .integer _ _ | .real _ _ | .boolean _ _ | .name _ _ => []
  | .field _ recv _ => recv.parts ++ [recv]
  | .index _ recv pos => recv.parts ++ recv :: (pos.parts ++ [pos])
  | .call _ _ args => allNodes args
  | .unary _ _ operand => operand.parts ++ [operand]
  | .binary _ _ left right => left.parts ++ left :: (right.parts ++ [right])

def allNodes : List Expr → List Expr
  | [] => []
  | first :: rest => first.parts ++ first :: allNodes rest

end

/-- The expression and what is inside of it. -/
def nodes (tree : Expr) : List Expr := tree.parts ++ [tree]

def optionNodes : Option Expr → List Expr
  | none => []
  | some tree => tree.nodes

theorem allNodes_cons : allNodes (first :: rest) = first.nodes ++ allNodes rest := by
  simp [allNodes, nodes]

theorem parts_index (span : Span) (recv pos : Expr) :
    (index span recv pos).parts = recv.nodes ++ pos.nodes := by
  simp [parts, nodes]

theorem parts_binary (span : Span) (op : BinaryOperator) (left right : Expr) :
    (binary span op left right).parts = left.nodes ++ right.nodes := by
  simp [parts, nodes]

@[simp]
theorem parts_withSpan (span : Span) (tree : Expr) : (tree.withSpan span).parts = tree.parts := by
  cases tree <;> simp only [withSpan, parts]

@[simp]
theorem span_withSpan (span : Span) (tree : Expr) : (tree.withSpan span).span = span := by
  cases tree <;> rfl

end Expr

mutual

def TypeExpr.nodes : TypeExpr → List Expr
  | .primitive _ _ | .named _ _ => []
  | .record _ fields => VarDecl.allNodes fields
  | .array _ element size => Expr.optionNodes size ++ element.nodes

def VarDecl.nodes : VarDecl → List Expr
  | .mk _ _ none init => Expr.optionNodes init
  | .mk _ _ (some type) init => type.nodes ++ Expr.optionNodes init

def VarDecl.allNodes : List VarDecl → List Expr
  | [] => []
  | first :: rest => first.nodes ++ VarDecl.allNodes rest

end

def TypeExpr.optionNodes : Option TypeExpr → List Expr
  | none => []
  | some type => type.nodes

theorem VarDecl.nodes_mk (span : Span) (name : String) (type : Option TypeExpr)
    (init : Option Expr) :
    (VarDecl.mk span name type init).nodes = TypeExpr.optionNodes type ++
      Expr.optionNodes init := by
  cases type <;> simp only [VarDecl.nodes, TypeExpr.optionNodes, List.nil_append]

mutual

def Statement.nodes : Statement → List Expr
  | .assign _ tgt val => tgt.nodes ++ val.nodes
  | .call span routine args => (Expr.call span routine args).nodes
  | .branch _ cond consequent none => cond.nodes ++ consequent.nodes
  | .branch _ cond consequent (some alternative) => cond.nodes ++
    (consequent.nodes ++ alternative.nodes)
  | .whileLoop _ cond body => cond.nodes ++ body.nodes
  | .rangeLoop _ _ first last _ body => first.nodes ++ (last.nodes ++ body.nodes)
  | .arrayLoop _ _ array _ body => array.nodes ++ body.nodes
  | .giveBack _ val => Expr.optionNodes val
  | .print _ items => Expr.allNodes items
  | .empty _ => []
  | .block _ inner => inner.nodes

def Block.nodes : Block → List Expr
  | .mk _ items => Item.allNodes items

def Item.nodes : Item → List Expr
  | .declaration inner => inner.nodes
  | .statement inner => inner.nodes

def Item.allNodes : List Item → List Expr
  | [] => []
  | first :: rest => first.nodes ++ Item.allNodes rest

def Declaration.nodes : Declaration → List Expr
  | .var inner => inner.nodes
  | .type inner => inner.type.nodes
  | .routine inner => inner.nodes

def Routine.nodes : Routine → List Expr
  | .mk _ _ params res none => params.flatMap (·.type.nodes) ++ TypeExpr.optionNodes res
  | .mk _ _ params res (some body) =>
    params.flatMap (·.type.nodes) ++ (TypeExpr.optionNodes res ++ body.nodes)

def Body.nodes : Body → List Expr
  | .expression val => val.nodes
  | .block inner => inner.nodes

end

def Body.optionNodes : Option Body → List Expr
  | none => []
  | some body => body.nodes

theorem Routine.nodes_mk (span : Span) (name : String) (params : List Parameter)
    (body : Option Body) :
    (Routine.mk span name params res body).nodes =
      params.flatMap (·.type.nodes) ++ (TypeExpr.optionNodes res ++ Body.optionNodes body) := by
  cases body <;> simp only [Routine.nodes, Body.optionNodes, List.append_nil]

def Declaration.allNodes (decls : List Declaration) : List Expr := decls.flatMap Declaration.nodes

/-- The expressions of a program. -/
def Program.nodes (program : Program) : List Expr := Declaration.allNodes program.declarations

end Imperative
