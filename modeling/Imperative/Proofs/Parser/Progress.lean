import Imperative.Proofs.Parser.Lockstep

/-!
# The rules of the grammar make progress

Every rule has a rank.  A rule calls a rule of a lower rank, or it has consumed a token before, so
the calls are never deeper than the tokens that are left allow.
-/

namespace Imperative.Parser

open Token (Kind)
open Bisimulation (InStep)

variable {sim : Bisimulation} {pair : sim.Pair}

/-- What is known of the rules of a group. -/
class Ranked (group : Group) where
  syntactic (rule : group.Rule) : Syntactic (group.Result rule)
  /-- Without a token consumed, a rule only calls rules of a lower rank. -/
  rank : group.Rule → Fin 4
  /-- How many tokens the rule consumes at least, if the current one is of this kind. -/
  least : group.Rule → Kind → Fin 2
  /-- Every span of the syntax that the rule goes on with has the property. -/
  Given : (Span → Prop) → group.Rule → Prop
  given_of_forall {place : Span → Prop} (everywhere : ∀ span, place span) (rule : group.Rule) :
    Given place rule

namespace Group

variable {group : Group} [ranked : Ranked group]

instance (rule : group.Rule) : Syntactic (group.Result rule) := ranked.syntactic rule

/-- How many tokens the rule consumes at least, if the current one is of this kind. -/
abbrev least (group : Group) [ranked : Ranked group] : group.Rule → Kind → Fin 2 := ranked.least

/-- The called rule has fewer tokens left, or not more of them and a lower rank. -/
def Below (caller : group.Rule) (pre : Nat) (callee : group.Rule) (post : Nat) : Prop :=
  post < pre ∨ post ≤ pre ∧ ranked.rank callee < ranked.rank caller

abbrev Answers (group : Group) [ranked : Ranked group] (rule : group.Rule)
    (run other : Parser (group.Result rule)) (pair : sim.Pair) : Prop :=
  InStep (pair.left - group.least rule pair.current.kind) run other pair

theorem Answers.strict {run other : Parser (group.Result rule)}
    (answers : group.Answers rule run other pair)
    (consumes : group.least rule pair.current.kind = 1) :
    InStep (pair.left - 1) run other pair := by
  rw [Answers, consumes] at answers
  exact answers

/-- Two ways to run the rules are in step below a call with so many tokens left. -/
def AnswersBelow (group : Group) [ranked : Ranked group] (sim : Bisimulation)
    (caller : group.Rule) (left : Nat)
    (call other : (rule : group.Rule) → Parser (group.Result rule)) : Prop :=
  ∀ callee (pair : sim.Pair), ranked.Given sim.place callee →
    Below caller left callee pair.left → group.Answers callee (call callee) (other callee) pair

def Settles (group : Group) [ranked : Ranked group] (rule : group.Rule) : Prop :=
  ∀ (sim : Bisimulation) (call other : (rule : group.Rule) → Parser (group.Result rule))
    (pair : sim.Pair), ranked.Given sim.place rule →
      group.AnswersBelow sim rule pair.left call other →
      group.Answers rule (group.body call rule) (group.body other rule) pair

def measure (rule : group.Rule) (left : Nat) : Nat := 4 * left + ranked.rank rule

theorem measure_lt {caller callee : group.Rule}
    (below : Below caller pre callee post) : measure callee post < measure caller pre := by
  simp only [measure]
  rcases below with fewer | ⟨notMore, lower⟩ <;> omega

theorem measure_lt_depth (rule : group.Rule) (st : State) : measure rule st.left < st.depth := by
  have := st.left_le_length
  simp only [measure, State.depth]
  omega

/-- What each rule of the group does is settled by the calls below. -/
class Progressive (group : Group) [Ranked group] : Prop where
  settles (rule : group.Rule) : group.Settles rule

variable [progressive : Progressive group]

theorem within_answers {rule : group.Rule} (pair : sim.Pair) (given : ranked.Given sim.place rule)
    (enough : measure rule pair.left < depth) (enoughOther : measure rule pair.left < depthOther) :
    group.Answers rule (group.within depth rule) (group.within depthOther rule) pair := by
  induction depth generalizing rule pair depthOther with
  | zero => omega
  | succ depth ih =>
    obtain ⟨depthOther, rfl⟩ : ∃ less, depthOther = less + 1 := ⟨depthOther - 1, by omega⟩
    apply progressive.settles rule sim _ _ pair given
    intro callee post given below
    have := measure_lt below
    exact ih post given (by omega) (by omega)

theorem within_parse_answers (pair : sim.Pair) (given : ranked.Given sim.place rule)
    (enough : measure rule pair.left < depth) :
    group.Answers rule (group.within depth rule) (group.parse rule) pair := by
  have enoughOther := measure_lt_depth rule pair.second
  rw [← sim.left pair.related] at enoughOther
  exact (within_answers pair given enough enoughOther).of_eq rfl rfl

theorem parse_answers (group : Group) [ranked : Ranked group] [Progressive group]
    (rule : group.Rule) (pair : sim.Pair) (given : ranked.Given sim.place rule) :
    group.Answers rule (group.parse rule) (group.parse rule) pair :=
  (within_parse_answers pair given (measure_lt_depth rule pair.first)).of_eq rfl rfl

end Group

theorem missingOperand_inStep : InStep pair.left missingOperand missingOperand pair := by
  have placed := pair.token
  refine .current (.report fun post sameCurrent sameLeft => ?_)
  refine .ite (fun _ => .pure ⟨sim.opening placed, trivial⟩ (by omega)) fun goesOn => ?_
  refine .advance rfl (fun last fewer => .pure ⟨placed, trivial⟩ (by omega)) fun atEnd => ?_
  rw [← sameCurrent, atEnd] at goesOn
  exact goesOn rfl

instance : Ranked expressionRules where
  syntactic
    | .arguments => inferInstanceAs (Syntactic (List Expr))
    | .expression _ | .binaryTail _ _ | .operand | .primary | .selectionTail _ _ =>
      inferInstanceAs (Syntactic Expr)
  rank
    | .arguments => 3
    | .expression _ => 2
    | .operand => 1
    | .primary | .binaryTail _ _ | .selectionTail _ _ => 0
  least
    | .primary, .identifier => 1
    | _, _ => 0
  Given place
    | .binaryTail _ left => left.outline.All place
    | .selectionTail opening recv => place opening ∧ recv.outline.All place
    | .arguments | .expression _ | .operand | .primary => True
  given_of_forall everywhere
    | .binaryTail _ left => Outline.all_of_forall everywhere left.outline
    | .selectionTail opening recv =>
      ⟨everywhere opening, Outline.all_of_forall everywhere recv.outline⟩
    | .arguments | .expression _ | .operand | .primary => trivial

theorem binaryTail_settles : expressionRules.Settles (.binaryTail minimum left) := by
  intro sim call other pair placed answers
  refine .current ?_
  split
  · exact .pure placed (Nat.le_refl _)
  · next op isOperator =>
    refine .ite (fun _ => .pure placed (Nat.le_refl _)) fun _ => ?_
    refine .advance rfl (fun post fewer => ?_) fun atEnd => ?_
    · refine (answers (.expression _) post trivial (.inl fewer)).bind
        fun right last placedRight bound => ?_
      have whole : (Expr.binary (left.span.cover right.span) op left right).outline.All sim.place :=
        ⟨sim.cover placed.root placedRight.root, placed, placedRight, trivial⟩
      exact (answers (.binaryTail minimum _) last whole (.inl (by omega))).mono (by omega)
    · rw [atEnd] at isOperator
      cases isOperator

theorem operand_settles : expressionRules.Settles .operand := by
  intro sim call other pair _ answers
  refine .current ?_
  split
  · exact (answers .primary pair trivial (.inr ⟨Nat.le_refl _, by decide⟩)).mono (Nat.sub_le _ _)
  · next op isOperator =>
    refine .advance rfl (fun post fewer => ?_) fun atEnd => ?_
    · refine (answers (.expression _) post trivial (.inl fewer)).bind
        fun operand last placed bound => ?_
      exact .pure ⟨sim.cover pair.token placed.root, placed, trivial⟩ (by omega)
    · rw [atEnd] at isOperator
      cases isOperator

theorem primary_settles : expressionRules.Settles .primary := by
  intro sim call other pair _ answers
  -- What follows the first token may be selections from a primary expression.
  have selection {tree : Expr} {post : sim.Pair} (fewer : post.left < pair.left)
      (placed : tree.outline.All sim.place) :=
    (answers (.selectionTail pair.current.span tree) post ⟨pair.token, placed⟩ (.inl fewer)).mono
      (show _ ≤ pair.left - (expressionRules.least .primary pair.current.kind).val by omega)
  refine .current ?_
  split
  iterate 3
    next isKind => exact .advance isKind fun post fewer => selection fewer ⟨pair.token, trivial⟩
  · next isKind =>
    refine .advance isKind fun post fewer => ?_
    refine .accept (fun opened fewerOpened => ?_) (selection fewer ⟨pair.token, trivial⟩)
    refine .check (fun _ => (InStep.pure (show sim.Placed [] from trivial) (Nat.le_refl _)).bind ?_)
      fun _ => (answers .arguments opened trivial (.inl (by omega))).bind ?_
    all_goals
      intro args last placed bound
      refine .expect fun closed boundClosed _ => .spanFrom ?_
      exact selection (by omega) ⟨closed.upTo pair.token, placed⟩
  · next isKind =>
    refine .advance isKind fun post fewer => ?_
    refine (answers (.expression _) post trivial (.inl fewer)).bind fun inner last placed bound =>
      ?_
    refine .expect fun closed boundClosed _ => .spanFrom ?_
    exact selection (by omega) (placed.withSpan (closed.upTo pair.token))
  · next notName _ =>
    have none : expressionRules.least .primary pair.current.kind = 0 := by
      dsimp only [Group.least, Ranked.least]
      split
      · contradiction
      · rfl
    rw [none]
    exact missingOperand_inStep

theorem selectionTail_settles : expressionRules.Settles (.selectionTail opening recv) := by
  intro sim call other pair given answers
  obtain ⟨placed, placedRecv⟩ := given
  have selection {tree : Expr} {post : sim.Pair} (fewer : post.left < pair.left)
      (placedTree : tree.outline.All sim.place) :=
    (answers (.selectionTail opening tree) post ⟨placed, placedTree⟩ (.inl fewer)).mono
      (show _ ≤ pair.left by omega)
  refine .accept (fun post fewer => ?_) (.accept (fun post fewer => ?_) ?_)
  · refine .expectName fun field last bound => .spanFrom ?_
    exact selection (by omega) ⟨last.upTo placed, placedRecv, trivial⟩
  · refine (answers (.expression _) post trivial (.inl fewer)).bind
      fun pos last placedPos bound => ?_
    refine .expect fun closed boundClosed _ => .spanFrom ?_
    exact selection (by omega) ⟨closed.upTo placed, placedRecv, placedPos, trivial⟩
  · exact .pure placedRecv (Nat.le_refl _)

theorem arguments_settles : expressionRules.Settles .arguments := by
  intro sim call other pair _ answers
  refine (answers (.expression 0) pair trivial (.inr ⟨Nat.le_refl _, by decide⟩)).bind
    fun arg post placed bound => ?_
  refine .accept (fun last fewer => ?_) (.pure ⟨placed, trivial⟩ (by omega))
  refine (answers .arguments last trivial (.inl (by omega))).bind
    fun others ending placedOthers boundOthers => ?_
  exact .pure ⟨placed, placedOthers⟩ (by omega)

theorem expression_settles : expressionRules.Settles (.expression minimum) := by
  intro sim call other pair _ answers
  refine (answers .operand pair trivial
    (.inr ⟨Nat.le_refl _, show (1 : Fin 4) < 2 by decide⟩)).bind fun left post placed bound => ?_
  exact (answers (.binaryTail minimum left) post placed
    (.inr ⟨by omega, show (0 : Fin 4) < 2 by decide⟩)).mono (by omega)

instance : expressionRules.Progressive where
  settles
    | .expression _ => expression_settles
    | .binaryTail _ _ => binaryTail_settles
    | .operand => operand_settles
    | .primary => primary_settles
    | .selectionTail _ _ => selectionTail_settles
    | .arguments => arguments_settles

theorem expression_inStep : InStep pair.left expression expression pair :=
  expressionRules.parse_answers (.expression 0) pair trivial

theorem expressions_inStep : InStep pair.left expressions expressions pair :=
  expressionRules.parse_answers .arguments pair trivial

theorem primary_inStep (isName : pair.current.kind = .identifier) :
    InStep (pair.left - 1) primary primary pair :=
  (expressionRules.parse_answers .primary pair trivial).strict (by rw [isName]; rfl)

theorem arraySize_inStep : InStep pair.left arraySize arraySize pair := by
  refine .accept (fun post fewer => ?_) (.pure trivial (Nat.le_refl _))
  refine .check (fun _ => (InStep.pure (show sim.Placed none from trivial) (Nat.le_refl _)).bind ?_)
    fun _ => expression_inStep.some.bind ?_
  all_goals
    intro size last placed bound
    exact .expect fun closed boundClosed _ => .pure placed (by omega)

theorem initialValue_inStep : InStep pair.left initialValue initialValue pair :=
  .accept (fun post fewer => expression_inStep.some.mono (Nat.le_of_lt fewer))
    (.pure trivial (Nat.le_refl _))

theorem missingType_inStep : InStep pair.left missingType missingType pair :=
  .current (.report fun _ _ sameLeft =>
    .pure ⟨sim.opening pair.token, trivial⟩ (Nat.le_of_eq sameLeft))

instance : Ranked typeRules where
  syntactic
    | .type => inferInstanceAs (Syntactic TypeExpr)
    | .fields => inferInstanceAs (Syntactic (List VarDecl))
    | .varDecl => inferInstanceAs (Syntactic VarDecl)
  rank
    | .fields => 2
    | .varDecl => 1
    | .type => 0
  least
    | .varDecl, .keyword .varWord => 1
    | _, _ => 0
  Given _ _ := True
  given_of_forall _ _ := trivial

theorem type_settles : typeRules.Settles .type := by
  intro sim call other pair _ answers
  refine .current ?_
  split
  · next isKind =>
    refine .advance isKind fun post fewer => ?_
    dsimp only
    split <;> exact .pure ⟨pair.token, trivial⟩ (Nat.le_of_lt fewer)
  · next isKind =>
    refine .advance isKind fun post fewer => .skipSeparators fun inside boundInside => ?_
    refine (answers .fields inside trivial (.inl (by omega))).bind fun fields last placed bound =>
      ?_
    refine .demand fun _ closed boundClosed _ => .spanFrom ?_
    exact .pure ⟨closed.upTo pair.token, placed⟩ (by omega)
  · next isKind =>
    refine .advance isKind fun post fewer => ?_
    refine arraySize_inStep.bind fun size inside placedSize boundInside => ?_
    refine (answers .type inside trivial (.inl (by omega))).bind fun element last placed bound => ?_
    refine .spanFrom (.pure ?_ (by omega))
    exact ⟨last.upTo pair.token, placed, Outline.allIn_toList placedSize⟩
  · exact missingType_inStep

theorem fields_settles : typeRules.Settles .fields := by
  intro sim call other pair _ answers
  refine .check (fun isVar => ?_) fun _ => .pure trivial (Nat.le_refl _)
  have positive := pair.left_pos isVar
  refine ((answers .varDecl pair trivial (.inr ⟨Nat.le_refl _, by decide⟩)).strict
    (by rw [isVar]; rfl)).bind fun field post placed bound => ?_
  refine .skipSeparators fun inside boundInside => ?_
  refine (answers .fields inside trivial (.inl (by omega))).bind
    fun fields last placedFields boundLast => ?_
  exact .pure ⟨placed, placedFields⟩ (show _ ≤ pair.left by omega)

theorem varDecl_settles : typeRules.Settles .varDecl := by
  intro sim call other pair _ answers
  refine .current (.expect fun post bound strict => ?_)
  have limit : post.left ≤ pair.left - typeRules.least .varDecl pair.current.kind := by
    dsimp only [Group.least, Ranked.least]
    split
    · next isVar => exact Nat.le_sub_one_of_lt (strict isVar)
    · exact bound
  refine .expectName fun name named boundNamed => ?_
  refine .accept
    (fun inside fewer => (answers .type inside trivial (.inr ⟨by omega, by decide⟩)).some.bind ?_)
    ((InStep.pure (show sim.Placed none from trivial) (Nat.le_refl _)).bind ?_)
  all_goals
    intro type typed placedType boundType
    refine initialValue_inStep.bind fun init last placedInit boundLast => ?_
    refine .spanFrom (.pure ?_ (by omega))
    have placed := last.upTo pair.token
    cases type with
    | none => exact ⟨placed, Outline.allIn_toList placedInit⟩
    | some type => exact ⟨placed, placedType, Outline.allIn_toList placedInit⟩

instance : typeRules.Progressive where
  settles
    | .type => type_settles
    | .fields => fields_settles
    | .varDecl => varDecl_settles

theorem type_inStep : InStep pair.left type type pair :=
  typeRules.parse_answers .type pair trivial

theorem varDecl_inStep (isVar : pair.current.kind = .keyword .varWord) :
    InStep (pair.left - 1) varDecl varDecl pair :=
  (typeRules.parse_answers .varDecl pair trivial).strict (by rw [isVar]; rfl)

theorem typeDecl_inStep (isType : pair.current.kind = .keyword .typeWord) :
    InStep (pair.left - 1) typeDecl typeDecl pair := by
  refine .current (.expect fun post _ strict => ?_)
  have fewer := strict isType
  refine .expectName fun name named boundNamed => .expect fun inside boundInside _ => ?_
  refine type_inStep.bind fun type last placed boundLast => ?_
  exact .spanFrom (.pure ⟨last.upTo pair.token, placed, trivial⟩ (by omega))

theorem simpleDeclaration_inStep
    (isSimple : pair.current.kind = .keyword .varWord ∨ pair.current.kind = .keyword .typeWord) :
    InStep (pair.left - 1) simpleDeclaration simpleDeclaration pair := by
  refine .check (fun isType => ?_) fun notType => ?_
  · exact (typeDecl_inStep isType).bind fun decl post placed bound => .pure placed bound
  · exact (varDecl_inStep (isSimple.resolve_right notType)).bind
      fun decl post placed bound => .pure placed bound

instance : Ranked statementRules where
  syntactic
    | .block => inferInstanceAs (Syntactic Block)
    | .items => inferInstanceAs (Syntactic (List Item))
    | .statement => inferInstanceAs (Syntactic Statement)
  rank
    | .block => 2
    | .items => 1
    | .statement => 0
  least
    | .statement, kind => if kind.endsBlock then 0 else 1
    | _, _ => 0
  Given _ _ := True
  given_of_forall _ _ := trivial

theorem missingStatement_inStep :
    InStep (pair.left - statementRules.least .statement pair.current.kind) missingStatement
      missingStatement pair := by
  refine .current (.report fun post sameCurrent sameLeft => .recover fun last bound strict => ?_)
  refine .pure ⟨pair.token, trivial⟩ ?_
  rw [sameCurrent, sameLeft] at *
  dsimp only [Group.least, Ranked.least]
  split
  · exact bound
  · next goesOn =>
    exact Nat.le_sub_one_of_lt
      (strict (by grind [stopsStatement, Kind.endsBlock]) (by grind [Kind.endsBlock]))

theorem assignmentOrCall_inStep (isName : pair.current.kind = .identifier) :
    InStep (pair.left - 1) assignmentOrCall assignmentOrCall pair := by
  refine .current ((primary_inStep isName).bind fun tgt post placed bound => ?_)
  refine .accept (fun inside fewer => ?_) ?_
  · refine expression_inStep.bind fun val last placedVal boundLast => ?_
    exact .spanFrom (.pure ⟨last.upTo pair.token, placed, placedVal, trivial⟩ (by omega))
  · simp only [if_neg Bool.false_ne_true]
    split
    · exact .pure placed bound
    · refine .reportAt placed.root fun inside _ sameLeft => .recover fun last boundLast _ => ?_
      exact .pure ⟨placed.root, trivial⟩ (by omega)

theorem returnStatement_inStep (isReturn : pair.current.kind = .keyword .returnWord) :
    InStep (pair.left - 1) returnStatement returnStatement pair := by
  refine .current (.expect fun post _ strict => .current ?_)
  have fewer := strict isReturn
  refine .ite (fun _ => (InStep.pure (show sim.Placed none from trivial) (Nat.le_refl _)).bind ?_)
    fun _ => expression_inStep.some.bind ?_
  all_goals
    intro val last placed bound
    exact .spanFrom (.pure ⟨last.upTo pair.token, Outline.allIn_toList placed⟩ (by omega))

theorem printStatement_inStep (isPrint : pair.current.kind = .keyword .printWord) :
    InStep (pair.left - 1) printStatement printStatement pair := by
  refine .current (.expect fun post _ strict => ?_)
  have fewer := strict isPrint
  refine expressions_inStep.bind fun items last placed bound => ?_
  exact .spanFrom (.pure ⟨last.upTo pair.token, placed⟩ (by omega))

theorem loopHeader_inStep : InStep pair.left loopHeader loopHeader pair := by
  refine expression_inStep.bind fun lower post placed bound => ?_
  refine .accept (fun inside fewer => ?_) (.pure ⟨placed, trivial⟩ bound)
  refine expression_inStep.bind fun upper last placedUpper boundLast => ?_
  exact .pure ⟨placed, placedUpper, trivial⟩ (by omega)

theorem loopDirection_inStep : InStep pair.left loopDirection loopDirection pair :=
  .accept (fun _ fewer => .pure trivial (Nat.le_of_lt fewer)) (.pure trivial (Nat.le_refl _))

theorem statement_settles : statementRules.Settles .statement := by
  intro sim call other pair _ answers
  have opening := pair.token
  refine .current (.current ?_)
  split
  · next isKind =>
    refine .advance isKind fun post fewer => ?_
    refine expression_inStep.bind fun cond _ placedCond _ => ?_
    refine .expect fun inside _ _ => ?_
    refine (answers .block inside trivial (.inl (by omega))).bind fun consequent _ placedConsequent
      _ => ?_
    refine .accept (fun inside _ => (answers .block inside trivial (.inl (by omega))).some.bind ?_)
      ((InStep.pure (show sim.Placed none from trivial) (Nat.le_refl _)).bind ?_)
    all_goals
      intro alternative _ placedAlternative _
      refine .expect fun last _ _ => .spanFrom (.pure ?_ (by omega))
      have placed := last.upTo opening
      cases alternative with
      | none => exact ⟨placed, placedCond, placedConsequent, trivial⟩
      | some alternative => exact ⟨placed, placedCond, placedConsequent, placedAlternative, trivial⟩
  · next isKind =>
    refine .advance isKind fun post fewer => ?_
    refine expression_inStep.bind fun cond _ placedCond _ => ?_
    refine .expect fun inside _ _ => ?_
    refine (answers .block inside trivial (.inl (by omega))).bind fun body _ placedBody _ => ?_
    refine .expect fun last _ _ => .spanFrom (.pure ?_ (by omega))
    exact ⟨last.upTo opening, placedCond, placedBody, trivial⟩
  · next isKind =>
    refine .advance isKind fun post fewer => .expectName fun iter _ _ => ?_
    refine .expect fun header _ _ => ?_
    refine loopHeader_inStep.bind fun header dir placedHeader _ => ?_
    refine loopDirection_inStep.bind fun dir _ _ _ => .expect fun inside _ _ => ?_
    refine (answers .block inside trivial (.inl (by omega))).bind fun body _ placedBody _ => ?_
    refine .expect fun last _ _ => .spanFrom ?_
    have placed := last.upTo opening
    cases header with
    | range lower upper =>
      exact .pure ⟨placed, placedHeader.1, placedHeader.2.1, placedBody, trivial⟩ (by omega)
    | array elements => exact .pure ⟨placed, placedHeader.1, placedBody, trivial⟩ (by omega)
  · next isKind => exact (returnStatement_inStep isKind).mono (by omega)
  · next isKind => exact (printStatement_inStep isKind).mono (by omega)
  · next isKind => exact (assignmentOrCall_inStep isKind).mono (by omega)
  · exact missingStatement_inStep

theorem items_settles : statementRules.Settles .items := by
  intro sim call other pair _ answers
  refine .current (.ite (fun _ => .pure trivial (Nat.le_refl _)) fun goesOn => ?_)
  have positive := pair.left_pos rfl (by grind [Kind.endsBlock])
  have stmt := (answers .statement pair trivial
    (.inr ⟨Nat.le_refl _, by decide⟩)).strict (if_neg goesOn)
  refine .ite (fun isSimple => ((simpleDeclaration_inStep isSimple).map ?_).bind ?_)
    fun _ => (stmt.map ?_).bind ?_
  iterate 2
    · exact fun _ placed => placed
    · intro item post placed bound
      refine .skipSeparators fun inside _ => ?_
      refine (answers .items inside trivial (.inl (by omega))).bind
        fun items last placedItems boundLast => ?_
      exact .pure ⟨placed, placedItems⟩ (show _ ≤ pair.left by omega)

theorem block_settles : statementRules.Settles .block := by
  intro sim call other pair _ answers
  refine .current (.skipSeparators fun post bound => ?_)
  refine (answers .items post trivial (.inr ⟨bound, by decide⟩)).bind
    fun items last placed boundLast => ?_
  exact .spanFrom (.pure ⟨last.upTo pair.token, placed⟩ (show _ ≤ pair.left by omega))

instance : statementRules.Progressive where
  settles
    | .block => block_settles
    | .items => items_settles
    | .statement => statement_settles

theorem block_inStep : InStep pair.left block block pair :=
  statementRules.parse_answers .block pair trivial

instance : Ranked parameterRules where
  syntactic _ := inferInstanceAs (Syntactic (List Parameter))
  rank _ := 0
  least _ _ := 0
  Given _ _ := True
  given_of_forall _ _ := trivial

instance : Ranked declarationRules where
  syntactic _ := inferInstanceAs (Syntactic (List Declaration))
  rank _ := 0
  least _ _ := 0
  Given _ _ := True
  given_of_forall _ _ := trivial

theorem parameters_settles : parameterRules.Settles () := by
  intro sim call other pair _ answers
  refine .current (.expectName fun name _ _ => .expect fun inside _ _ => ?_)
  refine type_inStep.bind fun type post placedType _ => .spanFrom ?_
  have placed := post.upTo pair.token
  refine .accept (fun last _ => ?_)
    (.pure ⟨⟨placed, placedType, trivial⟩, trivial⟩ (show _ ≤ pair.left by omega))
  refine (answers () last trivial (.inl (by omega))).bind fun others _ placedOthers _ => ?_
  exact .pure ⟨⟨placed, placedType, trivial⟩, placedOthers⟩ (show _ ≤ pair.left by omega)

instance : parameterRules.Progressive where
  settles _ := parameters_settles

theorem parameters_inStep : InStep pair.left parameters parameters pair := by
  refine .expect fun post _ _ => .check
    (fun _ => (InStep.pure (show sim.Placed ([] : List Parameter) from trivial)
      (Nat.le_refl _)).bind ?_)
    fun _ => (parameterRules.parse_answers () post trivial).bind ?_
  all_goals
    intro parameters _ placed _
    exact .expect fun last _ _ => .pure placed (by omega)

theorem routineBody_inStep : InStep pair.left routineBody routineBody pair := by
  refine .current (.ite (fun _ => .pure trivial (Nat.le_refl _)) fun _ => ?_)
  refine .accept (fun post _ => ?_) (.expect fun post _ _ => ?_)
  · exact expression_inStep.bind fun val _ placed _ => .pure placed (by omega)
  · refine block_inStep.bind fun block _ placed _ => ?_
    exact .expect fun last _ _ => .pure placed (by omega)

theorem routine_inStep (isRoutine : pair.current.kind = .keyword .routineWord) :
    InStep (pair.left - 1) routine routine pair := by
  refine .current (.expect fun post _ strict => .expectName fun name inside _ => ?_)
  have fewer := strict isRoutine
  refine parameters_inStep.bind fun parameters inside placedParams _ => ?_
  refine .accept (fun inside _ => type_inStep.some.bind ?_)
    ((InStep.pure (show sim.Placed none from trivial) (Nat.le_refl _)).bind ?_)
  all_goals
    intro res inside placedRes _
    refine routineBody_inStep.bind fun body last placedBody _ => ?_
    refine .spanFrom (.pure ?_ (by omega))
    have placed := last.upTo pair.token
    have sig := Outline.allIn_toList placedRes
    cases body with
    | none => exact ⟨placed, Outline.allIn_append.mpr ⟨placedParams, sig⟩⟩
    | some body =>
      exact ⟨placed, Outline.allIn_append.mpr ⟨placedParams,
        Outline.allIn_append.mpr ⟨sig, placedBody, trivial⟩⟩⟩

theorem declarations_inStep
    (atEnd : pair.current.kind = .endOfFile → pair.left ≤ limit)
    (answers : ∀ post : sim.Pair, post.left < pair.left → InStep limit (call ()) (other ()) post) :
    InStep limit (declarationRules.body call ()) (declarationRules.body other ()) pair := by
  -- What comes after a declaration has fewer tokens left.
  have others {decl : Declaration} {post : sim.Pair} (placed : sim.Placed decl)
      (fewer : post.left < pair.left) :
      InStep limit (do skipSeparators; return decl :: (← call ()))
        (do skipSeparators; return decl :: (← other ())) post := by
    refine .skipSeparators fun last _ => ?_
    refine (answers last (by omega)).bind fun others _ placedOthers bound => ?_
    exact .pure ⟨placed, placedOthers⟩ bound
  refine .current ?_
  split
  · next isEnd => exact .pure trivial (atEnd isEnd)
  iterate 2
    next isKind =>
      have positive := pair.left_pos isKind
      refine (simpleDeclaration_inStep (by simp [isKind])).bind fun decl post placed _ => ?_
      exact others placed (by omega)
  · next isKind =>
    have positive := pair.left_pos isKind
    refine ((routine_inStep isKind).map ?_).bind ?_
    · exact fun _ placed => placed
    · intro decl post placed _
      exact others placed (by omega)
  · next notEnd _ _ _ =>
    refine .report fun post sameCurrent sameLeft => .recover fun inside _ strict => ?_
    have fewer := strict (by rw [sameCurrent]; grind [Kind.startsDeclaration])
      (by rw [sameCurrent]; exact notEnd)
    exact .skipSeparators fun last _ => answers last (by omega)

instance : declarationRules.Progressive where
  settles _ _ _ _ _ _ answers := declarations_inStep (fun _ => Nat.le_refl _) fun post fewer =>
    (answers () post trivial (.inl fewer)).mono (Nat.le_of_lt fewer)

end Imperative.Parser
