import Imperative.Simplify.Program

/-!
# What simplification leaves

The value of what is simplified in terms of the simplified parts, whatever was counted.
-/

namespace Imperative

variable {val : Bool} {cond : Expr} {span : Span}

namespace Tally

@[simp]
theorem value_pure (val : α) : (pure val : Tally α).value = val := rfl

@[simp]
theorem value_bind (next : α → Tally β) : (tally >>= next).value = (next tally.value).value := rfl

@[simp]
theorem value_fold (val : α) : (fold val).value = val := rfl

@[simp]
theorem value_remove (val : α) : (remove val).value = val := rfl

end Tally

namespace Literal

theorem toExpr_of_literal? {lit : Literal} (isLiteral : expr.literal? = some lit) :
    expr = lit.toExpr expr.span := by
  cases expr <;> cases isLiteral <;> rfl

theorem isLogical_of_decides (isDecided : decides op val = true) : op.isLogical = true := by
  cases op with
  | and | or => rfl
  | add | sub | mul | div | mod | less | lessEqual | greater | greaterEqual | equal | notEqual
  | xor => cases isDecided

@[simp]
theorem literal?_toExpr (lit : Literal) (span : Span) : (lit.toExpr span).literal? = some lit := by
  cases lit <;> rfl

end Literal

namespace Expr

theorem value_simplify (expr : Expr) : expr.simplify.value = expr.fold.value.getD expr := rfl

@[simp]
theorem simplify_integer (span : Span) (val : Int) :
    (integer span val).simplify.value = integer span val := rfl

@[simp]
theorem simplify_real (span : Span) (val : Float) :
    (real span val).simplify.value = real span val := rfl

@[simp]
theorem simplify_boolean : (boolean span val).simplify.value = boolean span val := rfl

@[simp]
theorem simplify_name : (name span identifier).simplify.value = name span identifier := rfl

theorem simplify_field :
    (field span recv identifier).simplify.value = field span recv.simplify.value identifier := by
  rw [value_simplify, value_simplify]
  show (recv.fold.value.map fun recv => field span recv identifier).getD _ = _
  cases recv.fold.value <;> rfl

theorem simplify_index :
    (index span recv pos).simplify.value = index span recv.simplify.value pos.simplify.value := by
  rw [value_simplify, value_simplify, value_simplify, fold]
  simp only [Tally.value_bind]
  cases recv.fold.value <;> cases pos.fold.value <;> rfl

theorem getD_foldAll :
    (foldAll expressions).value.getD expressions =
      expressions.map (·.simplify.value) := by
  induction expressions with
  | nil => rfl
  | cons first rest ih =>
    rw [List.map_cons, ← ih, value_simplify, foldAll]
    simp only [Tally.value_bind]
    cases first.fold.value <;> cases (foldAll rest).value <;> rfl

theorem value_simplifyAll : (simplifyAll expressions).value = expressions.map (·.simplify.value) :=
  getD_foldAll

theorem value_simplify? : (simplify? expr).value = expr.map (·.simplify.value) := by
  cases expr <;> rfl

theorem simplify_call :
    (call span routine args).simplify.value =
      call span routine (args.map (·.simplify.value)) := by
  rw [value_simplify, ← getD_foldAll]
  show ((foldAll args).value.map (call span routine)).getD _ = _
  cases (foldAll args).value <;> rfl

theorem simplify_unary (span : Span) (op : UnaryOperator) (operand : Expr) :
    (unary span op operand).simplify.value = match foldUnary? op operand.simplify.value with
      | some lit => lit.toExpr span
      | none => unary span op operand.simplify.value := by
  rw [value_simplify, value_simplify, fold]
  simp only [Tally.value_bind]
  cases foldUnary? op (operand.fold.value.getD operand) with
  | some lit => rfl
  | none => cases operand.fold.value <;> rfl

theorem simplify_binary :
    (binary span op left right).simplify.value = match decided? op left.simplify.value with
      | some val => boolean span val
      | none =>
        match foldBinary? op left.simplify.value right.simplify.value with
        | some lit => lit.toExpr span
        | none => binary span op left.simplify.value right.simplify.value := by
  rw [value_simplify, value_simplify, value_simplify, fold]
  simp only [Tally.value_bind]
  cases decided? op (left.fold.value.getD left) with
  | some val => rfl
  | none =>
    simp only [Tally.value_bind]
    cases foldBinary? op (left.fold.value.getD left) (right.fold.value.getD right) with
    | some lit => rfl
    | none => cases left.fold.value <;> cases right.fold.value <;> rfl

theorem simplify_unary_of_open {op : UnaryOperator}
    (isOpen : (unary span op operand).simplify.value.literal? = none) :
    (unary span op operand).simplify.value = unary span op operand.simplify.value := by
  rw [simplify_unary] at isOpen ⊢
  split at isOpen
  · rw [Literal.literal?_toExpr] at isOpen
    cases isOpen
  · rfl

theorem simplify_binary_of_open
    (isOpen : (binary span op left right).simplify.value.literal? = none) :
    (binary span op left right).simplify.value =
      binary span op left.simplify.value right.simplify.value := by
  rw [simplify_binary] at isOpen ⊢
  split at isOpen
  · cases isOpen
  · split at isOpen
    · rw [Literal.literal?_toExpr] at isOpen
      cases isOpen
    · rfl

theorem eq_boolean_of_decided? (isDecided : decided? op left = some val) :
    left = boolean left.span val ∧ Literal.decides op val = true := by
  cases left with
  | boolean span found =>
    rw [decided?] at isDecided
    split at isDecided
    · next decides =>
      cases isDecided
      exact ⟨rfl, decides⟩
    · cases isDecided
  | _ => cases isDecided

theorem foldUnary?_eq_some {op : UnaryOperator} (isFolded : foldUnary? op operand = some res) :
    ∃ lit : Literal, operand = lit.toExpr operand.span ∧ Literal.unary? op lit = some res := by
  rcases Option.bind_eq_some_iff.mp isFolded with ⟨lit, isLiteral, isResult⟩
  exact ⟨lit, Literal.toExpr_of_literal? isLiteral, isResult⟩

theorem foldBinary?_eq_some (isFolded : foldBinary? op left right = some res) :
    ∃ leftLit rightLit : Literal, left = leftLit.toExpr left.span ∧
      right = rightLit.toExpr right.span ∧ Literal.binary? op leftLit rightLit = some res := by
  rcases Option.bind_eq_some_iff.mp isFolded with ⟨leftLit, isLeft, isRest⟩
  rcases Option.bind_eq_some_iff.mp isRest with ⟨rightLit, isRight, isResult⟩
  exact ⟨leftLit, rightLit, Literal.toExpr_of_literal? isLeft,
    Literal.toExpr_of_literal? isRight, isResult⟩

theorem simplify_keeps (expr : Expr) : expr.simplify.value.span = expr.span ∧
    expr.simplify.value.isPlace = expr.isPlace := by
  have folded (lit : Literal) (span : Span) :
      (lit.toExpr span).span = span ∧ (lit.toExpr span).isPlace = false := by
    cases lit <;> exact ⟨rfl, rfl⟩
  cases expr with
  | integer | real | boolean | name => exact ⟨rfl, rfl⟩
  | field span recv identifier => rw [simplify_field]; exact ⟨rfl, rfl⟩
  | index span recv pos => rw [simplify_index]; exact ⟨rfl, rfl⟩
  | call span routine args => rw [simplify_call]; exact ⟨rfl, rfl⟩
  | unary span op operand =>
    rw [simplify_unary]
    split
    · exact folded _ span
    · exact ⟨rfl, rfl⟩
  | binary span op left right =>
    rw [simplify_binary]
    split
    · exact ⟨rfl, rfl⟩
    · split
      · exact folded _ span
      · exact ⟨rfl, rfl⟩

@[simp]
theorem span_simplify {expr : Expr} : expr.simplify.value.span = expr.span := expr.simplify_keeps.1

@[simp]
theorem isPlace_simplify (expr : Expr) : expr.simplify.value.isPlace = expr.isPlace :=
  expr.simplify_keeps.2

def truth? : Expr → Option Bool
  | boolean _ val => some val
  | _ => none

theorem eq_boolean_of_truth? (isTruth : expr.truth? = some val) : expr = boolean expr.span val := by
  cases expr <;> cases isTruth
  rfl

end Expr

@[simp]
theorem VarDecl.simplify_mk (span : Span) (name : String) (type : Option TypeExpr) :
    (VarDecl.mk span name type init).simplify.value =
      .mk span name type (init.map (·.simplify.value)) := by
  cases init <;> rfl

namespace Statement

/-- What is left of a branch whose condition is the literal `taken`. -/
def taken (span : Span) (consequent : Block) (alternative : Option Block) : Bool → Statement
  | true => .block span consequent.simplify.value
  | false =>
    match alternative with
    | some alternative => .block span alternative.simplify.value
    | none => .empty span

theorem simplify_assign (span : Span) (tgt val : Expr) :
    (assign span tgt val).simplify.value = assign span tgt.simplify.value val.simplify.value := rfl

theorem simplify_call :
    (call span routine args).simplify.value =
      call span routine (args.map (·.simplify.value)) := by
  rw [← Expr.value_simplifyAll]
  rfl

theorem simplify_branch_of_truth (isTruth : cond.simplify.value.truth? = some val) :
    (branch span cond consequent alternative).simplify.value =
      taken span consequent alternative val := by
  -- The recursion looks at the alternative, so the branch unfolds once that is known.
  cases alternative <;> refine (Tally.value_bind _).trans ?_ <;>
    rw [Expr.eq_boolean_of_truth? isTruth] <;>
    cases val <;> rfl

theorem simplify_branch_of_open (isOpen : cond.simplify.value.truth? = none) :
    (branch span cond consequent alternative).simplify.value =
      branch span cond.simplify.value consequent.simplify.value
        (alternative.map (·.simplify.value)) := by
  cases alternative <;> refine (Tally.value_bind _).trans ?_ <;>
    generalize cond.simplify.value = simplified at isOpen ⊢
  case none =>
    cases simplified with
    | boolean _ _ => cases isOpen
    | _ => rfl
  case some =>
    cases simplified with
    | boolean _ _ => cases isOpen
    | _ => rfl

/-- A loop whose condition is `false` disappears. -/
theorem simplify_whileLoop_of_false (isFalse : cond.simplify.value.truth? = some false) :
    (whileLoop span cond body).simplify.value = empty span := by
  refine (Tally.value_bind _).trans ?_
  rw [Expr.eq_boolean_of_truth? isFalse]
  rfl

theorem simplify_whileLoop_of_not_false (notFalse : cond.simplify.value.truth? ≠ some false) :
    (whileLoop span cond body).simplify.value =
      whileLoop span cond.simplify.value body.simplify.value := by
  refine (Tally.value_bind _).trans ?_
  generalize cond.simplify.value = simplified at notFalse ⊢
  cases simplified with
  | boolean _ val =>
    cases val with
    | true => rfl
    | false => exact absurd rfl notFalse
  | _ => rfl

theorem simplify_rangeLoop :
    (rangeLoop span iter first last dir body).simplify.value =
      rangeLoop span iter first.simplify.value last.simplify.value dir body.simplify.value := rfl

theorem simplify_arrayLoop :
    (arrayLoop span iter array dir body).simplify.value =
      arrayLoop span iter array.simplify.value dir body.simplify.value := rfl

theorem simplify_giveBack (span : Span) (val : Option Expr) :
    (giveBack span val).simplify.value = giveBack span (val.map (·.simplify.value)) := by
  rw [← Expr.value_simplify?]
  rfl

theorem simplify_print :
    (print span items).simplify.value = print span (items.map (·.simplify.value)) := by
  rw [← Expr.value_simplifyAll]
  rfl

@[simp]
theorem simplify_empty : (empty span).simplify.value = empty span := rfl

theorem simplify_block :
    (block span nested).simplify.value = block span nested.simplify.value := rfl

end Statement

namespace Block

theorem simplify_mk (span : Span) (items : List Item) :
    (mk span items).simplify.value = mk span (simplifyItems items).value := rfl

@[simp]
theorem items_simplify (block : Block) :
    block.simplify.value.items = (simplifyItems block.items).value := by
  obtain ⟨span, items⟩ := block
  rfl

@[simp]
theorem simplifyItems_nil : (simplifyItems []).value = [] := rfl

theorem simplifyItems_declaration :
    (simplifyItems (.declaration decl :: rest)).value =
      .declaration decl.simplify.value :: (simplifyItems rest).value := rfl

theorem simplifyItems_statement :
    (simplifyItems (.statement stmt :: rest)).value =
      if stmt.simplify.value.isEmpty then (simplifyItems rest).value
      else .statement stmt.simplify.value :: (simplifyItems rest).value := rfl

end Block

def Body.simplified : Body → Body
  | .expression val => .expression val.simplify.value
  | .block inner => .block inner.simplify.value

def Routine.simplified : Routine → Routine
  | .mk span name params res body => .mk span name params res (body.map Body.simplified)

namespace Routine

@[simp]
theorem name_simplified (routine : Routine) : routine.simplified.name = routine.name := by
  cases routine
  rfl

@[simp]
theorem parameters_simplified (routine : Routine) :
    routine.simplified.parameters = routine.parameters := by
  cases routine
  rfl

@[simp]
theorem result_simplified (routine : Routine) : routine.simplified.result = routine.result := by
  cases routine
  rfl

@[simp]
theorem body_simplified (routine : Routine) :
    routine.simplified.body = routine.body.map Body.simplified := by
  cases routine
  rfl

@[simp]
theorem isForward_simplified (routine : Routine) :
    routine.simplified.isForward = routine.isForward := by
  simp [isForward]

end Routine

namespace Declaration

@[simp]
theorem simplify_var : (var decl).simplify.value = var decl.simplify.value :=
  rfl

@[simp]
theorem simplify_type : (type decl).simplify.value = type decl := rfl

@[simp]
theorem simplify_routine {inner : Routine} :
    (routine inner).simplify.value = routine inner.simplified := by
  obtain ⟨span, name, params, res, body⟩ := inner
  cases body with
  | none => rfl
  | some body => cases body <;> rfl

theorem value_simplifyAll : (simplifyAll decls).value = decls.map (·.simplify.value) := by
  induction decls with
  | nil => rfl
  | cons first rest ih =>
    rw [simplifyAll, List.map_cons, ← ih]
    rfl

end Declaration

@[simp]
theorem Program.declarations_simplify (program : Program) :
    program.simplify.value.declarations = program.declarations.map (·.simplify.value) :=
  Declaration.value_simplifyAll

end Imperative
