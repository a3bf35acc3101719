import Imperative.Proofs.Grammar.Expression
import Imperative.Proofs.Parser.Equations

/-!
# Sentences are parsed

The parser for expressions reads every sentence of the grammar, as long as the next operator binds
no more tightly than the level of the sentence.
-/

namespace Imperative.Parser

open List

open Grammar
open Token (Kind)

variable {tree : Expr} {toks : List Token} {prev : Span}

def selects : Kind → Bool
  | .symbol .dot | .symbol .leftBracket | .symbol .leftParen => true
  | _ => false

def continues (kind : Kind) : Bool := selects kind || (BinaryOperator.ofToken? kind).isSome

theorem selects_of_operator (isOperator : BinaryOperator.ofToken? kind = some op) :
    selects kind = false := by
  cases kind with
  | symbol mark => cases mark <;> first | rfl | cases isOperator
  | _ => rfl

def startOf : List Token → Span
  | [] => default
  | first :: _ => first.span

theorem nextKind_append (notEmpty : toks ≠ []) : nextKind (toks ++ rest) = nextKind toks := by
  cases toks with
  | nil => exact absurd rfl notEmpty
  | cons first others => rfl

theorem startOf_append (notEmpty : toks ≠ []) : startOf (toks ++ rest) = startOf toks := by
  cases toks with
  | nil => exact absurd rfl notEmpty
  | cons first others => rfl

theorem spanOver_eq (notEmpty : toks ≠ []) :
    spanOver toks = (startOf toks).upTo (endOf prev toks).stop := by
  cases toks with
  | nil => exact absurd rfl notEmpty
  | cons first others => rfl

/-- A primary expression is read, and after it what is selected from it. -/
structure ReadsPrimary (toks : List Token) (tree : Expr) : Prop where
  noSign : UnaryOperator.ofToken? (nextKind toks) = none
  goesOn {prev : Span} {more : List Token} {res : Expr} {ends : Kind → Prop}
    (noCall : ∀ rest, ends (nextKind rest) → nextKind (more ++ rest) ≠ .symbol .leftParen)
    (others : Reads (endOf prev toks)
      (expressionRules.parse (.selectionTail (startOf toks) tree)) more res ends) :
    Reads prev (expressionRules.parse .primary) (toks ++ more) res ends

def ReadsOperand (toks : List Token) (tree : Expr) : Prop :=
  ∀ prev, Reads prev (expressionRules.parse .operand) toks tree (selects · = false)

/-- What comes after an expression of the level does not go on with its last operand. -/
def StopsAt (level : Level) (kind : Kind) : Prop :=
  selects kind = false ∧ ∀ op, BinaryOperator.ofToken? kind = some op → op.leftPower ≤ level.rank

/-- An expression is read, and after it the binary operators that go on with it. -/
def ReadsExpression (level : Level) (toks : List Token) (tree : Expr) : Prop :=
  ∀ ⦃prev : Span⦄ ⦃more : List Token⦄ ⦃res : Expr⦄ ⦃ends : Kind → Prop⦄ ⦃minimum : Nat⦄,
    minimum ≤ level.rank → (∀ rest, ends (nextKind rest) →
      StopsAt level (nextKind (more ++ rest))) →
    Reads (endOf prev toks) (expressionRules.parse (.binaryTail minimum tree)) more res ends →
    Reads prev (expressionRules.parse (.expression minimum)) (toks ++ more) res ends

def ReadsArguments (toks : List Token) (trees : List Expr) : Prop :=
  ∀ prev, Reads prev (expressionRules.parse .arguments) toks trees fun kind =>
    continues kind = false ∧ kind ≠ .symbol .comma

theorem binaryTail_stops (prev : Span) (minimum : Nat) (left : Expr) :
    Reads prev (expressionRules.parse (.binaryTail minimum left)) [] left fun kind =>
      ∀ op, BinaryOperator.ofToken? kind = some op → op.leftPower < minimum := by
  rw [Group.parse_eq]
  refine .atEnd fun tok below => ?_
  split
  · exact .pure
  · next op isOperator =>
    rw [if_pos (below op isOperator)]
    exact .pure

theorem selectionTail_stops :
    Reads prev (expressionRules.parse (.selectionTail opening recv)) [] recv
      (selects · = false) := by
  rw [Group.parse_eq]
  refine .acceptNot (fun rest ends isDot => ?_) (.acceptNot (fun rest ends isBracket => ?_) .pure)
  · rw [nil_append] at isDot
    rw [isDot] at ends
    cases ends
  · rw [nil_append] at isBracket
    rw [isBracket] at ends
    cases ends

theorem ReadsPrimary.whole (reads : ReadsPrimary toks tree) :
    Reads prev (expressionRules.parse .primary) toks tree (selects · = false) := by
  have both : Reads prev (expressionRules.parse .primary) (toks ++ []) tree
      (selects · = false) := by
    refine reads.goesOn (fun rest ends isCall => ?_) selectionTail_stops
    rw [nil_append] at isCall
    rw [isCall] at ends
    cases ends
  rwa [append_nil] at both

theorem ReadsPrimary.operand (notEmpty : toks ≠ []) (reads : ReadsPrimary toks tree) :
    ReadsOperand toks tree := by
  intro prev
  rw [Group.parse_eq]
  refine .peek (UnaryOperator.ofToken? · = none) (fun rest _ => ?_) fun tok noSign => ?_
  · rw [nextKind_append notEmpty]
    exact reads.noSign
  · simp only [noSign]
    exact reads.whole

theorem ReadsOperand.expression (reads : ReadsOperand toks tree) :
    ReadsExpression level toks tree := by
  intro prev more res ends minimum _ stops others
  rw [Group.parse_eq]
  exact (reads prev).bind others fun rest holds => (stops rest holds).1

theorem ReadsExpression.whole {minimum : Nat} (reads : ReadsExpression level toks tree)
    (atMost : minimum ≤ level.rank) :
    Reads prev (expressionRules.parse (.expression minimum)) toks tree fun kind =>
      selects kind = false ∧
        ∀ op, BinaryOperator.ofToken? kind = some op → op.leftPower < minimum := by
  have stops := (binaryTail_stops (endOf prev toks) minimum tree).imp
    fun kind (ends : selects kind = false ∧ _) => ends.2
  have both := reads atMost (fun rest ends => ⟨ends.1, fun op isOperator =>
    Nat.le_trans (Nat.le_of_lt (ends.2 op isOperator)) atMost⟩) stops
  rwa [append_nil] at both

theorem ReadsExpression.inner (reads : ReadsExpression level toks tree) :
    Reads prev (expressionRules.parse (.expression 0)) toks tree (continues · = false) := by
  refine (reads.whole (Nat.zero_le _)).imp fun kind ends => ?_
  obtain ⟨noSelection, noOp⟩ := Bool.or_eq_false_iff.mp ends
  refine ⟨noSelection, fun op isOperator => ?_⟩
  rw [isOperator] at noOp
  cases noOp

/-- What the rules say of a phrase: it is read by the parsers that may come upon it. -/
def ReadsPhrase (toks : List Token) : Phrase → Prop
  | .expression level tree =>
    ReadsExpression level toks tree ∧ (Level.signed.rank ≤ level.rank → ReadsOperand toks tree) ∧
      (Level.selection.rank ≤ level.rank → ReadsPrimary toks tree)
  | .arguments trees => trees ≠ [] → ReadsArguments toks trees

theorem ReadsPrimary.phrase (notEmpty : toks ≠ []) (reads : ReadsPrimary toks tree) :
    ReadsPhrase toks (.expression level tree) :=
  ⟨(reads.operand notEmpty).expression, fun _ => reads.operand notEmpty, fun _ => reads⟩

theorem readsPrimary_call (isName : callee.kind = .identifier)
    (opens : opening.kind = .symbol .leftParen) (closes : closing.kind = .symbol .rightParen)
    (begins : (Phrase.arguments args).Begins toks) (reads : args ≠ [] → ReadsArguments toks args) :
    ReadsPrimary (callee :: opening :: toks ++ [closing])
      (.call (callee.span.upTo closing.span.stop) (callee.text.getD "") args) where
  noSign := by rw [cons_append, nextKind_cons, isName]; rfl
  goesOn {_ more _ _} _ others := by
    simp only [cons_append, append_assoc, nil_append, endOf_cons, endOf_append,
      endOf_nil] at others ⊢
    rw [Group.parse_eq]
    refine .current ?_
    simp only [isName]
    refine .advance (.accept opens ?_)
    obtain ⟨rfl, rfl⟩ | ⟨notNone, hasFirst⟩ := begins
    · refine .check (fun _ _ => closes) ?_
      rw [if_pos rfl, pure_bind]
      exact .expect closes (.spanFrom others)
    · refine .checkNot (fun rest _ isClosing => ?_) ?_
      · have first := begins_append hasFirst (closing :: more ++ rest)
        rw [← append_assoc, isClosing] at first
        cases first
      · exact (reads notNone _).before (by rw [closes]; decide) (.expect closes (.spanFrom others))

theorem readsPrimary_parenthesized (opens : opening.kind = .symbol .leftParen)
    (closes : closing.kind = .symbol .rightParen) (reads : ReadsExpression .disjunction toks tree) :
    ReadsPrimary (opening :: toks ++ [closing])
      (tree.withSpan (opening.span.upTo closing.span.stop)) where
  noSign := by rw [cons_append, nextKind_cons, opens]; rfl
  goesOn _ others := by
    simp only [cons_append, append_assoc, nil_append, endOf_cons, endOf_append,
      endOf_nil] at others ⊢
    rw [Group.parse_eq]
    refine .current ?_
    simp only [opens]
    exact .advance (reads.inner.before (by rw [closes]; rfl) (.expect closes (.spanFrom others)))

theorem readsPrimary_field (notEmpty : toks ≠ []) (isDot : dot.kind = .symbol .dot)
    (isName : name.kind = .identifier) (reads : ReadsPrimary toks recv) :
    ReadsPrimary (toks ++ [dot, name])
      (.field (spanOver (toks ++ [dot, name])) recv (name.text.getD missingName)) where
  noSign := by rw [nextKind_append notEmpty]; exact reads.noSign
  goesOn {prev} _ _ _ _ others := by
    rw [spanOver_eq (by simp), startOf_append notEmpty, endOf_append] at others
    rw [append_assoc]
    refine reads.goesOn (fun rest _ => by simp [isDot]) ?_
    rw [Group.parse_eq]
    exact .accept isDot (.expectName isName (.spanFrom others))

theorem readsPrimary_index (notEmpty : toks ≠ [])
    (opens : opening.kind = .symbol .leftBracket) (closes : closing.kind = .symbol .rightBracket)
    (reads : ReadsPrimary toks recv) (readsPos : ReadsExpression .disjunction inside pos) :
    ReadsPrimary (toks ++ opening :: inside ++ [closing])
      (.index (spanOver (toks ++ opening :: inside ++ [closing])) recv pos) where
  noSign := by rw [append_assoc, nextKind_append notEmpty]; exact reads.noSign
  goesOn {prev} _ _ _ _ others := by
    have isEnd : endOf prev (toks ++ opening :: inside ++ [closing]) = closing.span := by simp
    rw [spanOver_eq (by simp), isEnd, append_assoc, startOf_append notEmpty] at others
    simp only [append_assoc, cons_append, nil_append]
    refine reads.goesOn (fun rest _ => by simp [opens]) ?_
    rw [Group.parse_eq]
    refine .acceptNot (fun rest _ => by simp [opens]) (.accept opens ?_)
    exact readsPos.inner.before (by rw [closes]; rfl) (.expect closes (.spanFrom others))

theorem readsOperand_unary (isOperator : UnaryOperator.ofToken? sign.kind = some op)
    (reads : ReadsExpression .signed toks operand) :
    ReadsOperand (sign :: toks) (.unary (sign.span.cover operand.span) op operand) := by
  intro prev
  rw [Group.parse_eq]
  refine .current ?_
  simp only [isOperator]
  exact .advance ((reads.whole (Nat.le_refl _)).last
    (fun _ ends => ⟨ends, fun other _ => by cases other <;> decide⟩) .pure)

theorem readsExpression_binary (isOperator : BinaryOperator.ofToken? mark.kind = some op)
    (readsLeft : ReadsExpression (operatorLevel op) first left)
    (readsRight : ReadsExpression (rightLevel op) second right) :
    ReadsExpression (operatorLevel op) (first ++ mark :: second)
      (.binary (left.span.cover right.span) op left right) := by
  intro prev more res ends minimum atMost stops others
  simp only [append_assoc, cons_append, endOf_append, endOf_cons] at others ⊢
  refine readsLeft atMost (fun rest _ => ⟨selects_of_operator isOperator, ?_⟩) ?_
  · intro other isOther
    rw [cons_append, nextKind_cons, isOperator] at isOther
    cases isOther
    exact Nat.le_of_eq leftPower_eq
  · rw [Group.parse_eq]
    refine .current ?_
    simp only [isOperator]
    rw [if_neg (by rw [leftPower_eq]; omega)]
    -- The right operand stops at the next operator, which is of this level or a looser one.
    refine .advance ((readsRight.whole (Nat.le_of_eq rightPower_eq)).bind others ?_)
    intro rest holds
    refine ⟨(stops rest holds).1, fun other isOther => ?_⟩
    have below := (stops rest holds).2 other isOther
    rw [← leftPower_eq] at below
    exact Nat.lt_succ_of_le below

theorem readsArguments_last (reads : ReadsExpression .disjunction toks tree) :
    ReadsArguments toks [tree] := by
  intro prev
  rw [Group.parse_eq]
  exact reads.inner.last (fun _ ends => ends.1) (.acceptNot (fun _ ends => ends.2) .pure)

theorem readsArguments_cons (isComma : comma.kind = .symbol .comma)
    (reads : ReadsExpression .disjunction first tree) (readsMore : ReadsArguments more others) :
    ReadsArguments (first ++ comma :: more) (tree :: others) := by
  intro prev
  rw [Group.parse_eq]
  exact reads.inner.before (by rw [isComma]; rfl)
    (.accept isComma ((readsMore _).last (fun _ ends => ends) .pure))

theorem reads_of_writes (writes : Writes toks phrase) : ReadsPhrase toks phrase := by
  induction writes with
  | integer isKind | real isKind | boolean isKind =>
    refine ReadsPrimary.phrase (by simp) ⟨by rw [nextKind_cons, isKind]; rfl, ?_⟩
    intro prev more res ends _ others
    rw [Group.parse_eq]
    refine .current ?_
    simp only [isKind]
    exact .advance others
  | name isName =>
    refine ReadsPrimary.phrase (by simp) ⟨by rw [nextKind_cons, isName]; rfl, ?_⟩
    intro prev more res ends noCall others
    rw [Group.parse_eq]
    refine .current ?_
    simp only [isName]
    exact .advance (.acceptNot noCall others)
  | call isName opens inner closes ih =>
    exact (readsPrimary_call isName opens closes inner.begins ih).phrase (by simp)
  | parenthesized opens inner closes ih =>
    exact (readsPrimary_parenthesized opens closes ih.1).phrase (by simp)
  | field selects isDot isName ih =>
    exact (readsPrimary_field (ne_nil_of_begins selects.begins) isDot isName
      (ih.2.2 (Nat.le_refl _))).phrase (by simp)
  | index selects opens inner closes readsRecv readsPos =>
    exact (readsPrimary_index (ne_nil_of_begins selects.begins) opens closes
      (readsRecv.2.2 (Nat.le_refl _)) readsPos.1).phrase (by simp)
  | unary isOperator inner ih =>
    have reads := readsOperand_unary isOperator ih.1
    exact ⟨reads.expression, fun _ => reads, fun tight => absurd tight (by decide)⟩
  | @binary mark op first second left right onLeft isOperator onRight readsLeft readsRight =>
    have loose : (operatorLevel op).rank < Level.signed.rank := by
      cases op <;> decide
    refine ⟨readsExpression_binary isOperator readsLeft.1 readsRight.1,
      fun tight => absurd tight (by omega), fun tight => absurd tight ?_⟩
    exact Nat.not_le_of_lt (Nat.lt_trans loose (by decide))
  | @tighter level next toks tree isNext inner ih =>
    have isRank := Level.rank_of_next? isNext
    refine ⟨?_, fun tight => ih.2.1 (by omega), fun tight => ih.2.2 (by omega)⟩
    intro prev more res ends minimum atMost stops others
    refine ih.1 (by omega) (fun rest holds => ?_) others
    refine ⟨(stops rest holds).1, fun op isOperator => ?_⟩
    have looser := (stops rest holds).2 op isOperator
    omega
  | noArguments => exact fun notNone => absurd rfl notNone
  | lastArgument inner ih => exact fun _ => readsArguments_last ih.1
  | argument inner isComma more readsFirst readsMore =>
    exact fun _ => readsArguments_cons isComma readsFirst.1 (readsMore (by simp))

theorem reads_expression (writes : Writes toks (.expression .disjunction tree)) :
    Reads prev expression toks tree (continues · = false) :=
  (reads_of_writes writes).1.inner

theorem continues_of_separators (separators : Separators back) (ends : nextKind rest = .endOfFile) :
    continues (nextKind (back ++ rest)) = false := by
  cases back with
  | nil =>
    rw [nil_append, ends]
    rfl
  | cons tok others =>
    have separates := separators tok mem_cons_self
    rw [cons_append, nextKind_cons]
    generalize tok.kind = kind at separates
    cases kind with
    | symbol mark => cases mark <;> first | rfl | cases separates
    | _ => first | rfl | cases separates

end Imperative.Parser
