import Imperative.Proofs.Simplify.Shape

/-!
# Simplifying once is enough

Folding goes from the leaves up, and a rule looks at operands that are folded already.  So no rule
that was tried and did not apply can apply later.
-/

namespace Imperative

open Statement

namespace Tally

@[simp]
theorem folded_pure : (pure val : Tally α).folded = 0 := rfl

@[simp]
theorem folded_fold : (fold val).folded = 1 := rfl

@[simp]
theorem folded_bind (tally : Tally α) :
    (tally >>= next).folded = tally.folded + (next tally.value).folded := rfl

@[simp]
theorem pure_bind (val : α) (next : α → Tally β) : (pure val >>= next) = next val := by
  show Tally.mk _ (0 + _) (0 + _) = _
  rw [Nat.zero_add, Nat.zero_add]
  rfl

end Tally

namespace Expr

theorem fold_toExpr (lit : Literal) (span : Span) : (lit.toExpr span).fold = pure none := by
  cases lit <;> rfl

mutual

theorem fold_simplify : (expr : Expr) → expr.simplify.value.fold = pure none
  | integer _ _ | real _ _ | boolean _ _ | name _ _ => rfl
  | field _ recv _ => by
    rw [simplify_field, fold, fold_simplify recv]
    rfl
  | index _ recv pos => by
    rw [simplify_index, fold, fold_simplify recv, fold_simplify pos]
    rfl
  | call _ _ args => by
    rw [simplify_call, fold, foldAll_simplify args]
    rfl
  | unary span op operand => by
    rw [simplify_unary]
    split
    · exact fold_toExpr _ _
    · next isOpen =>
      rw [fold, fold_simplify operand, Tally.pure_bind, Option.getD_none, isOpen]
      rfl
  | binary span op left right => by
    rw [simplify_binary]
    split
    · rfl
    · next notDecided =>
      split
      · exact fold_toExpr _ _
      · next isOpen =>
        rw [fold, fold_simplify left, Tally.pure_bind, Option.getD_none, notDecided]
        dsimp only
        rw [fold_simplify right, Tally.pure_bind, Option.getD_none, isOpen]

theorem foldAll_simplify : (exprs : List Expr) → foldAll (exprs.map (·.simplify.value)) = pure none
  | [] => rfl
  | first :: rest => by
    rw [List.map_cons, foldAll, fold_simplify first, foldAll_simplify rest]
    rfl

end

mutual

theorem fold_eq_none_iff : (expr : Expr) → (expr.fold.value = none ↔ expr.fold.folded = 0)
  | integer _ _ | real _ _ | boolean _ _ | name _ _ => ⟨fun _ => rfl, fun _ => rfl⟩
  | field _ recv _ => by
    have ih := fold_eq_none_iff recv
    rw [fold]
    simp [ih]
  | index _ recv pos => by
    have atRecv := fold_eq_none_iff recv
    have atPos := fold_eq_none_iff pos
    rw [fold]
    cases isRecv : recv.fold.value <;> cases isPos : pos.fold.value <;> simp_all
  | call _ _ args => by
    have ih := foldAll_eq_none_iff args
    rw [fold]
    simp [ih]
  | unary span op operand => by
    have ih := fold_eq_none_iff operand
    rw [fold]
    cases isFolded : foldUnary? op (operand.fold.value.getD operand) <;> simp [isFolded, ih]
  | binary span op left right => by
    have atLeft := fold_eq_none_iff left
    have atRight := fold_eq_none_iff right
    rw [fold]
    cases isDecided : decided? op (left.fold.value.getD left) with
    | some val => simp [isDecided]
    | none =>
      cases isFolded : foldBinary? op (left.fold.value.getD left) (right.fold.value.getD right) with
      | some lit => simp [isDecided, isFolded]
      | none => cases isLeft : left.fold.value <;> cases isRight : right.fold.value <;> simp_all

theorem foldAll_eq_none_iff : (exprs : List Expr) →
    ((foldAll exprs).value = none ↔ (foldAll exprs).folded = 0)
  | [] => ⟨fun _ => rfl, fun _ => rfl⟩
  | first :: rest => by
    have atFirst := fold_eq_none_iff first
    have atRest := foldAll_eq_none_iff rest
    rw [foldAll]
    cases isFirst : first.fold.value <;> cases isRest : (foldAll rest).value <;> simp_all

end

@[simp]
theorem simplify_simplify (expr : Expr) :
    expr.simplify.value.simplify = pure expr.simplify.value := by
  rw [simplify, fold_simplify]
  rfl

@[simp]
theorem simplifyAll_simplify :
    simplifyAll (simplifyAll exprs).value = pure (simplifyAll exprs).value := by
  rw [value_simplifyAll, simplifyAll, foldAll_simplify]
  rfl

@[simp]
theorem simplify?_simplify : simplify? (simplify? expr).value = pure (simplify? expr).value := by
  cases expr with
  | none => rfl
  | some expr => simp [simplify?]

end Expr

@[simp]
theorem VarDecl.simplify_simplify : (decl : VarDecl) →
    decl.simplify.value.simplify = pure decl.simplify.value
  | .mk span name type init => by simp [VarDecl.simplify]

mutual

theorem Statement.simplify_simplify : (stmt : Statement) →
    stmt.simplify.value.simplify = pure stmt.simplify.value
  | .assign _ _ _ | .call _ _ _ | .giveBack _ _ | .print _ _ => by simp [simplify]
  | .branch span cond consequent none => by
    have consequentKept := Block.simplify_simplify consequent
    cases isTruth : cond.simplify.value.truth? with
    | some val =>
      rw [simplify_branch_of_truth isTruth]
      cases val <;> simp [taken, simplify, consequentKept]
    | none =>
      rw [simplify_branch_of_open isTruth, Option.map_none, simplify]
      simp only [Expr.simplify_simplify, consequentKept, Tally.pure_bind]
      split <;> simp_all [Expr.truth?]
  | .branch span cond consequent (some alternative) => by
    have consequentKept := Block.simplify_simplify consequent
    have alternativeKept := Block.simplify_simplify alternative
    cases isTruth : cond.simplify.value.truth? with
    | some val =>
      rw [simplify_branch_of_truth isTruth]
      cases val <;> simp [taken, simplify, consequentKept, alternativeKept]
    | none =>
      rw [simplify_branch_of_open isTruth, Option.map_some, simplify]
      simp only [Expr.simplify_simplify, consequentKept, alternativeKept, Tally.pure_bind]
      split <;> simp_all [Expr.truth?]
  | .whileLoop span cond body => by
    have bodyKept := Block.simplify_simplify body
    by_cases isFalse : cond.simplify.value.truth? = some false
    · rw [simplify_whileLoop_of_false isFalse]
      rfl
    · rw [simplify_whileLoop_of_not_false isFalse, simplify]
      simp only [Expr.simplify_simplify, bodyKept, Tally.pure_bind]
      split <;> simp_all [Expr.truth?]
  | .rangeLoop _ _ _ _ _ body => by simp [simplify, Block.simplify_simplify body]
  | .arrayLoop _ _ _ _ body => by simp [simplify, Block.simplify_simplify body]
  | .empty _ => rfl
  | .block _ inner => by simp [simplify, Block.simplify_simplify inner]

theorem Block.simplify_simplify : (block : Block) →
    block.simplify.value.simplify = pure block.simplify.value
  | .mk _ items => by simp [Block.simplify, Block.simplifyItems_simplify items]

theorem Block.simplifyItems_simplify : (items : List Item) →
    Block.simplifyItems (Block.simplifyItems items).value = pure (Block.simplifyItems items).value
  | [] => rfl
  | .declaration inner :: rest => by
    simp [Block.simplifyItems, Declaration.simplify_simplify inner,
      Block.simplifyItems_simplify rest]
  | .statement inner :: rest => by
    rw [Block.simplifyItems_statement]
    split
    · exact Block.simplifyItems_simplify rest
    · next notEmpty =>
      simp [Block.simplifyItems, Statement.simplify_simplify inner,
        Block.simplifyItems_simplify rest, notEmpty]

theorem Declaration.simplify_simplify : (decl : Declaration) →
    decl.simplify.value.simplify = pure decl.simplify.value
  | .var inner => by simp [Declaration.simplify]
  | .type _ => rfl
  | .routine (.mk _ _ _ _ none) => rfl
  | .routine (.mk _ _ _ _ (some (.expression val))) => by
    simp [Declaration.simplify]
  | .routine (.mk _ _ _ _ (some (.block inner))) => by
    simp [Declaration.simplify, Block.simplify_simplify inner]

end

theorem Declaration.simplifyAll_simplify (decls : List Declaration) :
    simplifyAll (decls.map (·.simplify.value)) = pure (decls.map (·.simplify.value)) := by
  induction decls with
  | nil => rfl
  | cons first rest ih => simp [simplifyAll, Declaration.simplify_simplify, ih]

/--
Folding what was folded gives it back as it is and counts nothing, and an expression is given back
as it is exactly if nothing is counted.  A simplified program is simplified to itself, with nothing
folded and nothing removed.
-/
theorem simplify_fixed :
    (∀ expr : Expr,
      (expr.fold.value.getD expr).fold = { value := none, folded := 0, removed := 0 } ∧
        (expr.fold.value.getD expr).simplify.value = expr.fold.value.getD expr ∧
        (expr.fold.value = none ↔ expr.fold.folded = 0)) ∧
      ∀ program : Program,
        program.simplify.value.simplify =
          { value := program.simplify.value, folded := 0, removed := 0 } := by
  refine ⟨fun expr => ⟨expr.fold_simplify, congrArg Tally.value expr.simplify_simplify,
    expr.fold_eq_none_iff⟩, fun program => ?_⟩
  have kept := Declaration.simplifyAll_simplify program.declarations
  rw [← Program.declarations_simplify] at kept
  rw [Program.simplify, kept]
  rfl

end Imperative
