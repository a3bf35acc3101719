import Imperative.Proofs.Meaning.Run
import Imperative.Proofs.Simplify.Shape
import Mathlib.Data.List.Forall2

/-!
# Simplification keeps the meaning

Runs of simplified statements are runs of the statements: the same things are printed and called,
the same cells change, and the run fails in the same way if it fails.
-/

namespace Imperative.Meaning

open List Literal Declaration

variable {res : Literal}

def literalValue : Literal → Value
  | .integer val => .integer val
  | .real val => .real val
  | .boolean val => .boolean val

theorem operand_toExpr (span : Span) :
    operand world scope (lit.toExpr span) = pure (.plain (literalValue lit)) := by
  cases lit <;> rw [toExpr, operand] <;> rfl

theorem eq_integer_of_ofInt? (isLiteral : ofInt? val = some lit) : lit = .integer val := by
  rw [ofInt?] at isLiteral
  split at isLiteral <;> cases isLiteral
  rfl

theorem eq_real_of_ofFloat? (isLiteral : ofFloat? val = some lit) : lit = .real val := by
  rw [ofFloat?] at isLiteral
  split at isLiteral <;> cases isLiteral
  rfl

/-- A unary operator that is computed beforehand gives the same when the program runs. -/
theorem unary_of_unary? {op : UnaryOperator} {operand : Literal}
    (isResult : unary? op operand = some res) :
    unary op (literalValue operand) = pure (literalValue res) := by
  cases op <;> cases operand <;> try cases isResult
  case minus.integer val =>
    rw [eq_integer_of_ofInt? isResult]
    rfl
  all_goals rfl

theorem integers_of_integers? (isResult : integers? op left right = some res) :
    integers op left right = pure (literalValue res) := by
  cases op with
  | add | sub | mul =>
    rw [eq_integer_of_ofInt? isResult]
    rfl
  | div =>
    rw [integers?] at isResult
    split at isResult
    · cases isResult
    · next notZero =>
      rw [eq_integer_of_ofInt? isResult, integers, if_neg notZero]
      rfl
  | mod =>
    rw [integers?] at isResult
    split at isResult
    · cases isResult
    · next notZero =>
      cases isResult
      rw [integers, if_neg fun isZero => notZero (.inl isZero)]
      rfl
  | less | lessEqual | greater | greaterEqual | equal | notEqual =>
    cases isResult
    rfl
  | and | or | xor => cases isResult

theorem reals_of_reals? (isResult : reals? op left right = some res) :
    reals op left right = pure (literalValue res) := by
  cases op with
  | add | sub | mul =>
    rw [eq_real_of_ofFloat? isResult]
    rfl
  | div | mod =>
    rw [reals?] at isResult
    split at isResult
    · cases isResult
    · rw [eq_real_of_ofFloat? isResult]
      rfl
  | less | lessEqual | greater | greaterEqual | equal | notEqual =>
    cases isResult
    rfl
  | and | or | xor => cases isResult

theorem combine_of_booleans? (isResult : booleans? op left right = some res) :
    combine op (.boolean left) (.boolean right) = pure (literalValue res) := by
  cases op with
  | and | or | xor =>
    cases isResult
    rfl
  | equal | notEqual =>
    cases isResult
    cases left <;> cases right <;> rfl
  | add | sub | mul | div | mod | less | lessEqual | greater | greaterEqual => cases isResult

theorem notLogical_of_numbers (isResult : binary? op left right = some res)
    (notBoolean : ∀ truth, left ≠ .boolean truth) : ¬ op.isLogical = true := by
  cases op with
  | and | or | xor =>
    cases left with
    | boolean truth => exact absurd rfl (notBoolean truth)
    | integer _ | real _ => cases right <;> cases isResult
  | add | sub | mul | div | mod | less | lessEqual | greater | greaterEqual | equal | notEqual =>
    nofun

/-- A binary operator that is computed beforehand gives the same when the program runs. -/
theorem combine_of_binary? (isResult : binary? op left right = some res) :
    combine op (literalValue left) (literalValue right) = pure (literalValue res) := by
  cases left with
  | boolean left =>
    cases right with
    | boolean right => exact combine_of_booleans? isResult
    | integer _ | real _ => cases isResult
  | integer left =>
    have notLogical := notLogical_of_numbers isResult nofun
    cases right with
    | integer right => exact (if_neg notLogical).trans (integers_of_integers? isResult)
    | real right => exact (if_neg notLogical).trans (reals_of_reals? isResult)
    | boolean _ => cases isResult
  | real left =>
    have notLogical := notLogical_of_numbers isResult nofun
    cases right with
    | integer | real => exact (if_neg notLogical).trans (reals_of_reals? isResult)
    | boolean _ => cases isResult

theorem settled?_boolean :
    settled? op (.boolean val) = if decides op val then some val else none := by
  cases op <;> cases val <;> rfl

theorem settled?_of_notLogical (notLogical : ¬ op.isLogical = true) : settled? op left = none := by
  cases op with
  | and | or | xor => exact absurd rfl notLogical
  | add | sub | mul | div | mod | less | lessEqual | greater | greaterEqual | equal | notEqual =>
    rfl

theorem settled?_of_binary? (span : Span) (isOpen : Expr.decided? op (left.toExpr span) = none)
    (isResult : binary? op left right = some res) :
    settled? op (literalValue left) = none := by
  cases left with
  | boolean val => exact settled?_boolean.trans isOpen
  | integer | real => exact settled?_of_notLogical (notLogical_of_numbers isResult nofun)

section Expressions

variable (world : World) (scope : Scope)

mutual

theorem operand_simplify (expression : Expr) :
    operand world scope expression.simplify.value = operand world scope expression := by
  cases expression with
  | integer span val => rfl
  | real span val => rfl
  | boolean span val => rfl
  | name span identifier => rfl
  | field span recv identifier => rw [Expr.simplify_field, operand, operand, operand_simplify recv]
  | index span recv pos =>
    rw [Expr.simplify_index, operand, operand, operand_simplify recv, operand_simplify pos]
  | call span routine args => rw [Expr.simplify_call, operand, operand, operands_simplify args]
  | unary span op inner =>
    have same := operand_simplify inner
    rw [Expr.simplify_unary]
    split
    · next lit isFolded =>
      rcases Expr.foldUnary?_eq_some isFolded with ⟨innerLit, isInner, isResult⟩
      rw [isInner, operand_toExpr] at same
      rw [operand_toExpr, operand, ← same]
      simp only [pure_bind, Operand.load, unary_of_unary? isResult]
    · rw [operand, operand, same]
  | binary span op left right =>
    have sameLeft := operand_simplify left
    have sameRight := operand_simplify right
    rw [Expr.simplify_binary]
    split
    · next val isDecided =>
      rcases Expr.eq_boolean_of_decided? isDecided with ⟨isLeft, decides⟩
      rw [isLeft, operand] at sameLeft
      rw [operand, operand, ← sameLeft]
      simp only [pure_bind, Operand.load, settled?_boolean, if_pos decides]
    · next isOpen =>
      split
      · next lit isFolded =>
        rcases Expr.foldBinary?_eq_some isFolded with
          ⟨leftLit, rightLit, isLeft, isRight, isResult⟩
        rw [isLeft] at isOpen
        rw [isLeft, operand_toExpr] at sameLeft
        rw [isRight, operand_toExpr] at sameRight
        rw [operand_toExpr, operand, ← sameLeft, ← sameRight]
        simp only [pure_bind, Operand.load, settled?_of_binary? _ isOpen isResult,
          combine_of_binary? isResult]
      · rw [operand, operand, sameLeft, sameRight]

theorem operands_simplify (expressions : List Expr) :
    operands world scope (expressions.map (·.simplify.value)) =
      operands world scope expressions := by
  cases expressions with
  | nil => rfl
  | cons first rest =>
    rw [map_cons, operands, operands, operand_simplify first, operands_simplify rest]

end

theorem evaluate_simplify :
    evaluate world scope expression.simplify.value = evaluate world scope expression := by
  rw [evaluate, evaluate, operand_simplify]

theorem test_simplify (cond : Expr) :
    test world scope cond.simplify.value = test world scope cond := by
  rw [test, test, evaluate_simplify]

theorem test_of_truth? {cond : Expr} (isTruth : cond.simplify.value.truth? = some val) :
    test world scope cond = pure val := by
  rw [← test_simplify, Expr.eq_boolean_of_truth? isTruth, test, evaluate, operand]
  rfl

theorem bound_simplify :
    bound world scope expression.simplify.value = bound world scope expression := by
  rw [bound, bound, evaluate_simplify]

theorem printAll_simplify :
    printAll world scope (items.map (·.simplify.value)) =
      printAll world scope items := by
  induction items with
  | nil => rfl
  | cons first rest ih => rw [map_cons, printAll, printAll, evaluate_simplify, ih]

theorem declare_simplify (decl : VarDecl) :
    declare world scope decl.simplify.value = declare world scope decl := by
  obtain ⟨span, name, type, init⟩ := decl
  have same : firstValue world scope (VarDecl.mk span name type init).simplify.value =
      firstValue world scope (.mk span name type init) := by
    rw [VarDecl.simplify_mk]
    cases type <;> cases init <;> simp only [Option.map, firstValue, evaluate_simplify]
  rw [declare, same, VarDecl.simplify_mk, declare]
  rfl

end Expressions

section Statements

variable (world : World) (rounds : Nat)

def runBlock? (scope : Scope) : Option Block → Run Flow
  | some block => runBlock world rounds scope block
  | none => return .next

theorem runStatement_branch (scope : Scope) (span : Span) (cond : Expr) (consequent : Block)
    (alternative : Option Block) :
    runStatement world rounds scope (.branch span cond consequent alternative) = (do
      if ← test world scope cond then runBlock world rounds scope consequent
      else runBlock? world rounds scope alternative) := by
  cases alternative <;> rw [runStatement] <;> rfl

variable {world rounds} in
theorem runStatement_of_isEmpty (isEmpty : stmt.isEmpty = true) :
    runStatement world rounds scope stmt = pure .next := by
  cases stmt <;> cases isEmpty
  rw [runStatement]

mutual

theorem runStatement_simplify (scope : Scope) (stmt : Statement) :
    runStatement world rounds scope stmt.simplify.value = runStatement world rounds scope stmt := by
  cases stmt with
  | assign span tgt val =>
    rw [Statement.simplify_assign, runStatement, runStatement, operand_simplify, evaluate_simplify]
  | call span routine args =>
    rw [Statement.simplify_call, runStatement, runStatement, operands_simplify]
  | branch span cond consequent alternative =>
    have sameConsequent := runBlock_simplify scope consequent
    have sameAlternative := runBlock?_simplify scope alternative
    cases isTruth : cond.simplify.value.truth? with
    | some val =>
      rw [Statement.simplify_branch_of_truth isTruth, runStatement_branch,
        test_of_truth? world scope isTruth, pure_bind]
      cases val with
      | true => rw [Statement.taken, runStatement, sameConsequent, if_pos rfl]
      | false =>
        rw [if_neg nofun, ← sameAlternative]
        cases alternative with
        | none => rw [Statement.taken, runStatement, Option.map_none, runBlock?]
        | some alternative => rw [Statement.taken, runStatement, Option.map_some, runBlock?]
    | none =>
      rw [Statement.simplify_branch_of_open isTruth, runStatement_branch, runStatement_branch,
        test_simplify, sameConsequent, sameAlternative]
  | whileLoop span cond body =>
    have sameBody := runBlock_simplify scope body
    by_cases isFalse : cond.simplify.value.truth? = some false
    · rw [Statement.simplify_whileLoop_of_false isFalse, runStatement, runStatement,
        test_of_truth? world scope isFalse]
      cases rounds <;> rfl
    · rw [Statement.simplify_whileLoop_of_not_false isFalse, runStatement, runStatement,
        test_simplify, sameBody]
  | rangeLoop span iter first last dir body =>
    have sameBody := fun inner => runBlock_simplify inner body
    rw [Statement.simplify_rangeLoop, runStatement, runStatement, bound_simplify, bound_simplify]
    simp only [sameBody]
  | arrayLoop span iter array dir body =>
    have sameBody := fun inner => runBlock_simplify inner body
    rw [Statement.simplify_arrayLoop, runStatement, runStatement, operand_simplify]
    simp only [sameBody]
  | giveBack span val =>
    rw [Statement.simplify_giveBack]
    cases val with
    | none => rfl
    | some val => rw [Option.map_some, runStatement, runStatement, evaluate_simplify]
  | print span items => rw [Statement.simplify_print, runStatement, runStatement, printAll_simplify]
  | empty span => rw [Statement.simplify_empty]
  | block span inner =>
    rw [Statement.simplify_block, runStatement, runStatement, runBlock_simplify scope inner]

theorem runBlock_simplify (scope : Scope) (block : Block) :
    runBlock world rounds scope block.simplify.value = runBlock world rounds scope block := by
  cases block with
  | mk span items => rw [Block.simplify_mk, runBlock, runBlock, runItems_simplify scope items]

theorem runBlock?_simplify (scope : Scope) (block : Option Block) :
    runBlock? world rounds scope (block.map (·.simplify.value)) =
      runBlock? world rounds scope block := by
  cases block with
  | none => rfl
  | some block => exact runBlock_simplify scope block

theorem runItems_simplify (scope : Scope) (items : List Item) :
    runItems world rounds scope (Block.simplifyItems items).value =
      runItems world rounds scope items := by
  cases items with
  | nil => rw [Block.simplifyItems_nil]
  | cons first rest =>
    have sameRest := fun inner => runItems_simplify inner rest
    cases first with
    | declaration inner =>
      rw [Block.simplifyItems_declaration]
      cases inner with
      | var decl =>
        rw [simplify_var, runItems, runItems, declare_simplify]
        simp only [sameRest]
      | type decl => rw [simplify_type, runItems, runItems, sameRest]
      | routine routine => rw [simplify_routine, runItems, runItems]
    | statement inner =>
      have same := runStatement_simplify scope inner
      rw [Block.simplifyItems_statement, runItems, ← same, ← sameRest]
      split
      · next isEmpty => rw [runStatement_of_isEmpty isEmpty, followedBy, pure_bind]
      · rw [runItems]

end

end Statements

/--
One declaration can stand for the other.  From every state and in every scope, whatever the
routines do that are called, an initial value is computed alike, the variable is declared alike,
and a body runs alike for every number of rounds of its loops.
-/
inductive Alike : Declaration → Declaration → Prop where
  | var {decl image : VarDecl} (name : image.name = decl.name) (type : image.type = decl.type)
      (init : Option.Rel
        (fun val folded => ∀ world scope, evaluate world scope folded = evaluate world scope val)
        decl.initial image.initial)
      (declares : ∀ world scope, declare world scope image = declare world scope decl) :
      Alike (.var decl) (.var image)
  | type (decl : TypeDecl) : Alike (.type decl) (.type decl)
  | routine {routine image : Routine} (name : image.name = routine.name)
      (params : image.parameters = routine.parameters) (res : image.result = routine.result)
      (body : Option.Rel
        (fun body simplified => ∀ world rounds scope,
          runBody world rounds scope simplified = runBody world rounds scope body)
        routine.body image.body) : Alike (.routine routine) (.routine image)

mutual

def declaredIn : Statement → List Declaration
  | .branch _ _ consequent (some alternative) => declaredInBlock consequent ++
    declaredInBlock alternative
  | .branch _ _ consequent none => declaredInBlock consequent
  | .whileLoop _ _ body | .rangeLoop _ _ _ _ _ body | .arrayLoop _ _ _ _ body
  | .block _ body => declaredInBlock body
  | .assign _ _ _ | .call _ _ _ | .giveBack _ _ | .print _ _ | .empty _ => []

def declaredInBlock : Block → List Declaration
  | .mk _ items => declaredInItems items

def declaredInItems : List Item → List Declaration
  | [] => []
  | .declaration inner :: rest => withInner inner ++ declaredInItems rest
  | .statement inner :: rest => declaredIn inner ++ declaredInItems rest

/-- The declaration and all that are inside of it. -/
def withInner : Declaration → List Declaration
  | .routine (.mk span name params res (some (.block inner))) =>
    .routine (.mk span name params res (some (.block inner))) :: declaredInBlock inner
  | .routine (.mk span name params res (some (.expression val))) =>
    [.routine (.mk span name params res (some (.expression val)))]
  | .routine (.mk span name params res none) => [.routine (.mk span name params res none)]
  | .var decl => [.var decl]
  | .type decl => [.type decl]

end

def images (decls : List Declaration) : List Declaration :=
  decls.map (·.simplify.value)

theorem images_append : images (first ++ rest) = images first ++ images rest := map_append

mutual

theorem declaredIn_simplify :
    (declaredIn stmt.simplify.value).Sublist (images (declaredIn stmt)) := by
  cases stmt with
  | branch span cond consequent alternative =>
    have ofConsequent := declaredInBlock_simplify consequent
    cases alternative with
    | none =>
      cases isTruth : cond.simplify.value.truth? with
      | some val =>
        rw [Statement.simplify_branch_of_truth isTruth]
        cases val with
        | true => rwa [Statement.taken, declaredIn]
        | false => exact nil_sublist _
      | none =>
        rw [Statement.simplify_branch_of_open isTruth]
        rwa [Option.map_none, declaredIn]
    | some alternative =>
      have ofAlternative := declaredInBlock_simplify alternative
      rw [declaredIn, images_append]
      cases isTruth : cond.simplify.value.truth? with
      | some val =>
        rw [Statement.simplify_branch_of_truth isTruth]
        cases val with
        | true => exact ofConsequent.trans (sublist_append_left _ _)
        | false => exact ofAlternative.trans (sublist_append_right _ _)
      | none =>
        rw [Statement.simplify_branch_of_open isTruth]
        exact ofConsequent.append ofAlternative
  | whileLoop span cond body =>
    by_cases isFalse : cond.simplify.value.truth? = some false
    · rw [Statement.simplify_whileLoop_of_false isFalse, declaredIn]
      exact nil_sublist _
    · rw [Statement.simplify_whileLoop_of_not_false isFalse, declaredIn, declaredIn]
      exact declaredInBlock_simplify body
  | rangeLoop _ _ _ _ _ body | arrayLoop _ _ _ _ body => exact declaredInBlock_simplify body
  | block span inner => exact declaredInBlock_simplify inner
  | assign | call | giveBack | print | empty => exact nil_sublist _

theorem declaredInBlock_simplify (block : Block) :
    (declaredInBlock block.simplify.value).Sublist (images (declaredInBlock block)) := by
  cases block with
  | mk span items => exact declaredInItems_simplify items

theorem declaredInItems_simplify (items : List Item) :
    (declaredInItems (Block.simplifyItems items).value).Sublist
      (images (declaredInItems items)) := by
  cases items with
  | nil => exact nil_sublist _
  | cons first rest =>
    have ofRest := declaredInItems_simplify rest
    cases first with
    | declaration inner =>
      rw [Block.simplifyItems_declaration, declaredInItems, declaredInItems, images_append]
      exact withInner_simplify.append ofRest
    | statement inner =>
      rw [Block.simplifyItems_statement, declaredInItems, images_append]
      split
      · exact ofRest.trans (sublist_append_right _ _)
      · exact declaredIn_simplify.append ofRest

theorem withInner_simplify :
    (withInner declaration.simplify.value).Sublist (images (withInner declaration)) := by
  cases declaration with
  | var decl =>
    rw [simplify_var, withInner, withInner, images, map_singleton,
      simplify_var]
  | type decl =>
    rw [simplify_type, withInner, images, map_singleton, simplify_type]
  | routine routine =>
    cases routine with
    | mk span name params res body =>
      cases body with
      | none => exact .refl _
      | some body =>
        cases body with
        | expression val => exact .refl _
        | block inner => exact (declaredInBlock_simplify inner).cons_cons _

end

end Imperative.Meaning
