import Mathlib.Data.List.Perm.Basic
import Mathlib.Data.List.Count
import Imperative.Proofs.Syntax.Nodes

/-!
# The names in scope

A name is in scope from the end of its declaration to the end of the block around it, an iterator
in the body of its loop and a parameter in the body of its routine.  Types and routines of the
outermost scope are in scope everywhere, its variables from their declarations on.
-/

namespace Imperative

/-- What a name is declared as. -/
inductive NameKind where
  | variable
  | type
  | routine
  deriving DecidableEq

/-- The names in scope, the innermost first. -/
abbrev Names := List (String × NameKind)

namespace Names

/-- The names of the basic types. -/
def basic : Names := [("boolean", .type), ("real", .type), ("integer", .type)]

/-- The names with parameters, which are variables. -/
def withParameters (names : Names) : List Parameter → Names
  | [] => names
  | first :: rest => withParameters ((first.name, .variable) :: names) rest

/-- The names with all types and routines that are declared. -/
def hoist (names : Names) : List Declaration → Names
  | [] => names
  | .var _ :: rest => hoist names rest
  | .type inner :: rest => hoist ((inner.name, .type) :: names) rest
  | .routine inner :: rest => hoist ((inner.name, .routine) :: names) rest

end Names

/-- An expression with the names in scope where it stands. -/
structure Occurrence where
  names : Names
  tree : Expr

namespace Occurrence

/-- Where the name occurs as an expression, though nothing with that name is in scope. -/
def unbound? (name : String) : Occurrence → Option Span
  | { names, tree := .name span found } =>
    if found = name ∧ names.lookup name = none then some span else none
  | _ => none

end Occurrence

/-- The expressions in one, with the names in scope. -/
def Expr.occurrences (names : Names) (tree : Expr) : List Occurrence :=
  tree.nodes.map (Occurrence.mk names)

def Expr.allOccurrences (names : Names) (trees : List Expr) : List Occurrence :=
  (Expr.allNodes trees).map (Occurrence.mk names)

def Expr.optionOccurrences (names : Names) (tree : Option Expr) : List Occurrence :=
  (Expr.optionNodes tree).map (Occurrence.mk names)

namespace Expr

variable (names : Names) (span : Span)

theorem occurrences_field (recv : Expr) (field : String) :
    (Expr.field span recv field).occurrences names =
      recv.occurrences names ++ [{ names, tree := .field span recv field }] := by
  simp [occurrences, nodes, parts]

theorem occurrences_index :
    (Expr.index span recv pos).occurrences names =
      recv.occurrences names ++
        (pos.occurrences names ++ [{ names, tree := .index span recv pos }]) := by
  simp [occurrences, nodes, parts]

theorem occurrences_call :
    (Expr.call span routine args).occurrences names =
      allOccurrences names args ++ [{ names, tree := .call span routine args }] := by
  simp [occurrences, allOccurrences, nodes, parts]

theorem occurrences_unary :
    (Expr.unary span op operand).occurrences names =
      operand.occurrences names ++ [{ names, tree := .unary span op operand }] := by
  simp [occurrences, nodes, parts]

theorem occurrences_binary :
    (Expr.binary span op left right).occurrences names =
      left.occurrences names ++
        (right.occurrences names ++ [{ names, tree := .binary span op left right }]) := by
  simp [occurrences, nodes, parts]

theorem allOccurrences_cons :
    allOccurrences names (first :: rest) =
      first.occurrences names ++ allOccurrences names rest := by
  simp [occurrences, allOccurrences, allNodes_cons]

end Expr

def VarDecl.occurrences (names : Names) (decl : VarDecl) : List Occurrence :=
  Expr.optionOccurrences names decl.initial

mutual

/-- The occurrences in a statement. -/
def Statement.occurrences (names : Names) : Statement → List Occurrence
  | .assign _ tgt val => tgt.occurrences names ++ val.occurrences names
  | .call span routine args => (Expr.call span routine args).occurrences names
  | .branch _ cond consequent none => cond.occurrences names ++ consequent.occurrences names
  | .branch _ cond consequent (some alternative) =>
    cond.occurrences names ++ (consequent.occurrences names ++ alternative.occurrences names)
  | .whileLoop _ cond body => cond.occurrences names ++ body.occurrences names
  | .rangeLoop _ iter first last _ body =>
    first.occurrences names ++
      (last.occurrences names ++ body.occurrences ((iter, .variable) :: names))
  | .arrayLoop _ iter array _ body =>
    array.occurrences names ++ body.occurrences ((iter, .variable) :: names)
  | .giveBack _ val => Expr.optionOccurrences names val
  | .print _ items => Expr.allOccurrences names items
  | .empty _ => []
  | .block _ inner => inner.occurrences names

def Block.occurrences (names : Names) : Block → List Occurrence
  | .mk _ items => Item.allOccurrences names items

def Item.allOccurrences (names : Names) : List Item → List Occurrence
  | [] => []
  | .declaration (.var inner) :: rest =>
    inner.occurrences names ++ Item.allOccurrences ((inner.name, .variable) :: names) rest
  | .declaration (.type inner) :: rest => Item.allOccurrences ((inner.name, .type) :: names) rest
  | .declaration (.routine inner) :: rest =>
    inner.occurrences names ++ Item.allOccurrences names rest
  | .statement inner :: rest => inner.occurrences names ++ Item.allOccurrences names rest

def Routine.occurrences (names : Names) : Routine → List Occurrence
  | .mk _ _ _ _ none => []
  | .mk _ _ params _ (some body) => body.occurrences (names.withParameters params)

def Body.occurrences (names : Names) : Body → List Occurrence
  | .expression val => val.occurrences names
  | .block inner => inner.occurrences names

end

/-- The occurrences of expressions in the declarations of the outermost scope. -/
def Declaration.allOccurrences (names : Names) : List Declaration → List Occurrence
  | [] => []
  | .var inner :: rest =>
    inner.occurrences names ++ Declaration.allOccurrences ((inner.name, .variable) :: names) rest
  | .type _ :: rest => Declaration.allOccurrences names rest
  | .routine inner :: rest => inner.occurrences names ++ Declaration.allOccurrences names rest

/-- The expressions outside of written types, with the names in scope. -/
def Program.occurrences (program : Program) : List Occurrence :=
  Declaration.allOccurrences (Names.basic.hoist program.declarations) program.declarations

mutual

/-- The expressions in the types of a statement. -/
def Statement.typeNodes : Statement → List Expr
  | .branch _ _ consequent none => consequent.typeNodes
  | .branch _ _ consequent (some alternative) => consequent.typeNodes ++ alternative.typeNodes
  | .whileLoop _ _ body | .rangeLoop _ _ _ _ _ body | .arrayLoop _ _ _ _ body => body.typeNodes
  | .block _ inner => inner.typeNodes
  | .assign _ _ _ | .call _ _ _ | .giveBack _ _ | .print _ _ | .empty _ => []

def Block.typeNodes : Block → List Expr
  | .mk _ items => Item.allTypeNodes items

/-- The expressions in the types that are written in the items of a block. -/
def Item.allTypeNodes : List Item → List Expr
  | [] => []
  | .declaration inner :: rest => inner.typeNodes ++ Item.allTypeNodes rest
  | .statement inner :: rest => inner.typeNodes ++ Item.allTypeNodes rest

def Declaration.typeNodes : Declaration → List Expr
  | .var inner => TypeExpr.optionNodes inner.type
  | .type inner => inner.type.nodes
  | .routine inner => inner.typeNodes

def Routine.typeNodes : Routine → List Expr
  | .mk _ _ params res none => params.flatMap (·.type.nodes) ++ TypeExpr.optionNodes res
  | .mk _ _ params res (some body) =>
    params.flatMap (·.type.nodes) ++ (TypeExpr.optionNodes res ++ body.typeNodes)

/-- The expressions in the types that are written in the body of a routine. -/
def Body.typeNodes : Body → List Expr
  | .expression _ => []
  | .block inner => inner.typeNodes

end

/-- The sizes of arrays and the initial values of fields in the types written in a program. -/
def Program.typeNodes (program : Program) : List Expr :=
  program.declarations.flatMap Declaration.typeNodes

section Coverage

open List

variable (names : Names)

@[simp]
theorem Expr.occurrences_trees (tree : Expr) :
    (tree.occurrences names).map Occurrence.tree = tree.nodes := by
  simp [Expr.occurrences, Function.comp_def]

@[simp]
theorem Expr.allOccurrences_trees :
    (Expr.allOccurrences names trees).map Occurrence.tree = Expr.allNodes trees := by
  simp [Expr.allOccurrences, Function.comp_def]

@[simp]
theorem Expr.optionOccurrences_trees :
    (Expr.optionOccurrences names tree).map Occurrence.tree = Expr.optionNodes tree := by
  simp [Expr.optionOccurrences, Function.comp_def]

theorem VarDecl.nodes_eq (decl : VarDecl) :
    decl.nodes =
      TypeExpr.optionNodes decl.type ++ (decl.occurrences names).map Occurrence.tree := by
  obtain ⟨span, name, type, init⟩ := decl
  simp [VarDecl.nodes_mk, VarDecl.occurrences, VarDecl.type, VarDecl.initial]

theorem perm_append_parts
    (firstSorted : first ~ firstTys ++ firstRest)
    (secondSorted : second ~ secondTys ++ secondRest) :
    first ++ second ~ (firstTys ++ secondTys) ++ (firstRest ++ secondRest) := by
  classical
  rw [perm_iff_count] at *
  intro val
  have firstCount := firstSorted val
  have secondCount := secondSorted val
  simp only [count_append] at *
  omega

mutual

theorem Statement.nodes_perm : (names : Names) → (stmt : Statement) →
    stmt.nodes ~ stmt.typeNodes ++ (stmt.occurrences names).map Occurrence.tree
  | _, .assign _ _ _ | _, .call _ _ _ | _, .giveBack _ _ | _, .print _ _ | _, .empty _ => by
    simp [Statement.nodes, Statement.typeNodes, Statement.occurrences]
  | names, .branch span cond consequent none => by
    have condSorted : cond.nodes ~ [] ++ cond.nodes := .refl _
    simpa [Statement.nodes, Statement.typeNodes, Statement.occurrences] using
      perm_append_parts condSorted (Block.nodes_perm names consequent)
  | names, .branch span cond consequent (some alternative) => by
    have condSorted : cond.nodes ~ [] ++ cond.nodes := .refl _
    simpa [Statement.nodes, Statement.typeNodes, Statement.occurrences] using
      perm_append_parts condSorted
        (perm_append_parts (Block.nodes_perm names consequent) (Block.nodes_perm names alternative))
  | names, .whileLoop span cond body => by
    have condSorted : cond.nodes ~ [] ++ cond.nodes := .refl _
    simpa [Statement.nodes, Statement.typeNodes, Statement.occurrences] using
      perm_append_parts condSorted (Block.nodes_perm names body)
  | names, .rangeLoop span iter first last dir body => by
    have boundsSorted : first.nodes ++ last.nodes ~ [] ++ (first.nodes ++ last.nodes) := .refl _
    simpa [Statement.nodes, Statement.typeNodes, Statement.occurrences] using
      perm_append_parts boundsSorted (Block.nodes_perm _ body)
  | names, .arrayLoop span iter array dir body => by
    have arraySorted : array.nodes ~ [] ++ array.nodes := .refl _
    simpa [Statement.nodes, Statement.typeNodes, Statement.occurrences] using
      perm_append_parts arraySorted (Block.nodes_perm _ body)
  | names, .block span inner => by
    simpa [Statement.nodes, Statement.typeNodes, Statement.occurrences] using
      Block.nodes_perm names inner

theorem Block.nodes_perm : (names : Names) → (block : Block) →
    block.nodes ~ block.typeNodes ++ (block.occurrences names).map Occurrence.tree
  | names, .mk span items => by
    simpa only [Block.nodes, Block.typeNodes, Block.occurrences] using
      Item.allNodes_perm names items

theorem Item.allNodes_perm : (names : Names) → (items : List Item) →
    Item.allNodes items ~
      Item.allTypeNodes items ++ (Item.allOccurrences names items).map Occurrence.tree
  | names, [] => by
    simp [Item.allNodes, Item.allTypeNodes, Item.allOccurrences]
  | names, .declaration (.var inner) :: rest => by
    have innerSorted := Perm.of_eq (VarDecl.nodes_eq names inner)
    simpa only [Item.allNodes, Item.nodes, Declaration.nodes, Item.allTypeNodes,
      Declaration.typeNodes, Item.allOccurrences, map_append] using
      perm_append_parts innerSorted (Item.allNodes_perm _ rest)
  | names, .declaration (.type inner) :: rest => by
    have innerSorted : inner.type.nodes ~ inner.type.nodes ++ [] := by simp
    simpa only [Item.allNodes, Item.nodes, Declaration.nodes, Item.allTypeNodes,
      Declaration.typeNodes, Item.allOccurrences, nil_append] using
      perm_append_parts innerSorted (Item.allNodes_perm _ rest)
  | names, .declaration (.routine inner) :: rest => by
    simpa only [Item.allNodes, Item.nodes, Declaration.nodes, Item.allTypeNodes,
      Declaration.typeNodes, Item.allOccurrences, map_append] using
      perm_append_parts (Routine.nodes_perm names inner) (Item.allNodes_perm names rest)
  | names, .statement inner :: rest => by
    simpa only [Item.allNodes, Item.nodes, Item.allTypeNodes, Item.allOccurrences, map_append] using
      perm_append_parts (Statement.nodes_perm names inner) (Item.allNodes_perm names rest)

theorem Routine.nodes_perm : (names : Names) → (routine : Routine) →
    routine.nodes ~ routine.typeNodes ++ (routine.occurrences names).map Occurrence.tree
  | names, .mk span name params res none => by
    simp [Routine.nodes, Routine.typeNodes, Routine.occurrences]
  | names, .mk span name params res (some body) => by
    have bodySorted := Body.nodes_perm (names.withParameters params) body
    simpa only [Routine.nodes, Routine.typeNodes, Routine.occurrences, append_assoc] using
      (bodySorted.append_left _).append_left _

theorem Body.nodes_perm : (names : Names) → (body : Body) →
    body.nodes ~ body.typeNodes ++ (body.occurrences names).map Occurrence.tree
  | names, .expression val => by
    simp [Body.nodes, Body.typeNodes, Body.occurrences]
  | names, .block inner => by
    simpa only [Body.nodes, Body.typeNodes, Body.occurrences] using Block.nodes_perm names inner

end

theorem Declaration.allNodes_perm :
    Declaration.allNodes decls ~
      decls.flatMap Declaration.typeNodes ++
        (Declaration.allOccurrences names decls).map Occurrence.tree := by
  induction decls generalizing names with
  | nil => simp [Declaration.allNodes, Declaration.allOccurrences]
  | cons first rest ih =>
    cases first with
    | var inner =>
      rw [Declaration.allOccurrences, map_append]
      exact perm_append_parts (Perm.of_eq (VarDecl.nodes_eq names inner)) (ih _)
    | type inner =>
      have innerSorted : inner.type.nodes ~ inner.type.nodes ++ [] := by simp
      exact perm_append_parts innerSorted (ih _)
    | routine inner =>
      rw [Declaration.allOccurrences, map_append]
      exact perm_append_parts (Routine.nodes_perm names inner) (ih _)

theorem Program.nodes_perm (program : Program) :
    program.nodes ~ program.typeNodes ++ program.occurrences.map Occurrence.tree :=
  Declaration.allNodes_perm _

end Coverage

end Imperative
