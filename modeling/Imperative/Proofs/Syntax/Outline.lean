import Imperative.Parser.Statement

/-!
# Outlines

The outline of a piece of syntax is the tree of its spans: one node for the program and for each
declaration, parameter, type, block, statement and expression.
-/

namespace Imperative

/-- The span of a node with the outlines of what is right inside of it. -/
inductive Outline where
  | node (span : Span) (inner : List Outline)

namespace Outline

/-- The span of the whole. -/
def span : Outline → Span
  | node span _ => span

mutual

/-- The property holds of every span. -/
def All (place : Span → Prop) : Outline → Prop
  | node span inner => place span ∧ AllIn place inner

def AllIn (place : Span → Prop) : List Outline → Prop
  | [] => True
  | first :: rest => first.All place ∧ AllIn place rest

end

variable {place : Span → Prop}

mutual

theorem all_of_forall (everywhere : ∀ span, place span) : (outline : Outline) → outline.All place
  | node span inner => ⟨everywhere span, allIn_of_forall everywhere inner⟩

theorem allIn_of_forall (everywhere : ∀ span, place span) :
    (outlines : List Outline) → AllIn place outlines
  | [] => trivial
  | first :: rest => ⟨all_of_forall everywhere first, allIn_of_forall everywhere rest⟩

end

theorem allIn_append : AllIn place (first ++ second) ↔ AllIn place first ∧ AllIn place second := by
  induction first with
  | nil => exact (true_and _).symm ▸ Iff.rfl
  | cons outline rest ih => rw [List.cons_append, AllIn, AllIn, ih, and_assoc]

theorem allIn_toList {val : Option α}
    (all : val.elim True fun tree => (outline tree).All place) :
    AllIn place (val.map outline).toList := by
  cases val with
  | none => exact trivial
  | some tree => exact ⟨all, trivial⟩

end Outline

mutual

/-- The outline of an expression. -/
def Expr.outline : Expr → Outline
  | .integer span _ | .real span _ | .boolean span _ | .name span _ => .node span []
  | .field span recv _ => .node span [recv.outline]
  | .index span recv pos => .node span [recv.outline, pos.outline]
  | .call span _ args => .node span (Expr.outlines args)
  | .unary span _ operand => .node span [operand.outline]
  | .binary span _ left right => .node span [left.outline, right.outline]

def Expr.outlines : List Expr → List Outline
  | [] => []
  | first :: rest => first.outline :: Expr.outlines rest

end

theorem Outline.All.root {tree : Expr} (all : tree.outline.All place) : place tree.span := by
  cases tree <;> exact all.1

theorem Outline.All.withSpan {tree : Expr} (all : tree.outline.All place)
    {span : Span} (isPlaced : place span) : (tree.withSpan span).outline.All place := by
  cases tree <;> exact ⟨isPlaced, all.2⟩

mutual

def TypeExpr.outline : TypeExpr → Outline
  | .primitive span _ | .named span _ => .node span []
  | .record span fields => .node span (VarDecl.outlines fields)
  | .array span element size => .node span (element.outline :: (size.map Expr.outline).toList)

def VarDecl.outline : VarDecl → Outline
  | .mk span _ none init => .node span (init.map Expr.outline).toList
  | .mk span _ (some type) init => .node span (type.outline :: (init.map Expr.outline).toList)

def VarDecl.outlines : List VarDecl → List Outline
  | [] => []
  | first :: rest => first.outline :: VarDecl.outlines rest

end

def TypeDecl.outline (decl : TypeDecl) : Outline := .node decl.span [decl.type.outline]

def Parameter.outline (param : Parameter) : Outline := .node param.span [param.type.outline]

mutual

def Statement.outline : Statement → Outline
  | .assign span tgt val => .node span [tgt.outline, val.outline]
  | .call span _ args => .node span (Expr.outlines args)
  | .branch span cond consequent none => .node span [cond.outline, consequent.outline]
  | .branch span cond consequent (some alternative) =>
    .node span [cond.outline, consequent.outline, alternative.outline]
  | .whileLoop span cond body => .node span [cond.outline, body.outline]
  | .rangeLoop span _ first last _ body => .node span [first.outline, last.outline, body.outline]
  | .arrayLoop span _ array _ body => .node span [array.outline, body.outline]
  | .giveBack span val => .node span (val.map Expr.outline).toList
  | .print span items => .node span (Expr.outlines items)
  | .empty span => .node span []
  | .block span inner => .node span [inner.outline]

def Block.outline : Block → Outline
  | .mk span items => .node span (Item.outlines items)

def Item.outline : Item → Outline
  | .declaration inner => inner.outline
  | .statement inner => inner.outline

def Item.outlines : List Item → List Outline
  | [] => []
  | first :: rest => first.outline :: Item.outlines rest

def Declaration.outline : Declaration → Outline
  | .var inner => inner.outline
  | .type inner => inner.outline
  | .routine inner => inner.outline

def Routine.outline : Routine → Outline
  | .mk span _ params res none =>
    .node span (params.map Parameter.outline ++ (res.map TypeExpr.outline).toList)
  | .mk span _ params res (some body) =>
    .node span (params.map Parameter.outline ++
      ((res.map TypeExpr.outline).toList ++ [body.outline]))

def Body.outline : Body → Outline
  | .expression val => val.outline
  | .block inner => inner.outline

end

theorem Outline.All.routine {routine : Routine} (all : routine.outline.All place) :
    place routine.span ∧ AllIn place (routine.parameters.map Parameter.outline) ∧
      AllIn place (routine.result.map TypeExpr.outline).toList := by
  obtain ⟨span, name, params, res, _ | body⟩ := routine
  · exact ⟨all.1, allIn_append.mp all.2⟩
  · obtain ⟨ofParameters, ofRest⟩ := allIn_append.mp all.2
    exact ⟨all.1, ofParameters, (allIn_append.mp ofRest).1⟩

def Parser.LoopHeader.outlines : Parser.LoopHeader → List Outline
  | .range first last => [first.outline, last.outline]
  | .array elements => [elements.outline]

/-- The outline of a program. -/
def Program.outline (program : Program) : Outline :=
  .node program.span (program.declarations.map Declaration.outline)

/-- What parsers read: syntax, or a value that has no place. -/
class Syntactic (α : Type) where
  /-- Every span of the syntax has the property. -/
  Placed : (Span → Prop) → α → Prop

namespace Syntactic

instance : Syntactic Unit := ⟨fun _ _ => True⟩
instance : Syntactic Direction := ⟨fun _ _ => True⟩
instance : Syntactic Expr := ⟨fun place tree => tree.outline.All place⟩
instance : Syntactic (List Expr) := ⟨fun place trees => Outline.AllIn place (Expr.outlines trees)⟩
instance : Syntactic TypeExpr := ⟨fun place tree => tree.outline.All place⟩
instance : Syntactic VarDecl := ⟨fun place tree => tree.outline.All place⟩
instance : Syntactic (List VarDecl) :=
  ⟨fun place trees => Outline.AllIn place (VarDecl.outlines trees)⟩
instance : Syntactic TypeDecl := ⟨fun place tree => tree.outline.All place⟩
instance : Syntactic Parser.LoopHeader := ⟨fun place tree => Outline.AllIn place tree.outlines⟩
instance : Syntactic Statement := ⟨fun place tree => tree.outline.All place⟩
instance : Syntactic Block := ⟨fun place tree => tree.outline.All place⟩
instance : Syntactic Item := ⟨fun place tree => tree.outline.All place⟩
instance : Syntactic (List Item) := ⟨fun place trees => Outline.AllIn place (Item.outlines trees)⟩
instance : Syntactic (List Parameter) :=
  ⟨fun place trees => Outline.AllIn place (trees.map Parameter.outline)⟩
instance : Syntactic Body := ⟨fun place tree => tree.outline.All place⟩
instance : Syntactic Routine := ⟨fun place tree => tree.outline.All place⟩
instance : Syntactic Declaration := ⟨fun place tree => tree.outline.All place⟩
instance : Syntactic (List Declaration) :=
  ⟨fun place trees => Outline.AllIn place (trees.map Declaration.outline)⟩
instance : Syntactic Program := ⟨fun place tree => tree.outline.All place⟩
instance {α : Type} [Syntactic α] : Syntactic (Option α) :=
  ⟨fun place val => val.elim True (Placed place)⟩

end Syntactic

end Imperative
