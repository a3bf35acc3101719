import Imperative.Proofs.Grammar.Expression
import Imperative.Proofs.Parser.Equations

/-!
# What is parsed without a diagnostic is a sentence

The powers of binding are the ranks of levels: the loop over binary operators keeps an expression
of some level, and the operator that comes next never binds more tightly than that.
-/

-- The rest of a parser is a long term, and so is the instance that it is steady.
set_option synthInstance.maxSize 512

namespace Imperative.Parser

open List

open Grammar
open Token (Kind)

/-- The operator that comes next, if there is one, does not belong to the level. -/
def Ends (level : Level) (st : State) : Prop :=
  ∀ op, BinaryOperator.ofToken? st.current.kind = some op → op.leftPower < level.rank

theorem missingOperand_takes : Takes missingOperand st property := by
  apply Takes.current
  have reported : Takes (report .primaryExpected) st fun _ _ _ => False := .of_report
  apply reported.bind
  intro _ _ _ _ impossible
  exact impossible.elim

theorem leftPower_lt_signed {op : BinaryOperator} : op.leftPower < Level.signed.rank := by
  cases op <;> decide

mutual

theorem level_takes (level : Level) (st : State) (atMost : level.rank ≤ Level.signed.rank) :
    Takes (expressionRules.parse (.expression level.rank)) st fun toks tree post =>
      Writes toks (.expression level tree) ∧ Ends level post := by
  rw [Group.parse_eq]
  apply operand_takes.bind
  intro toks left post consumes written
  exact binaryTail_takes level written atMost fun op _ => Nat.le_of_lt leftPower_lt_signed
termination_by 4 * st.rest.length + 2
decreasing_by all_goals grind

theorem binaryTail_takes (level : Level)
    (written : Writes front (.expression tight left)) (atMost : level.rank ≤ tight.rank)
    (binds : ∀ op, BinaryOperator.ofToken? st.current.kind = some op → op.leftPower ≤ tight.rank) :
    Takes (expressionRules.parse (.binaryTail level.rank left)) st fun toks tree post =>
      Writes (front ++ toks) (.expression level tree) ∧ Ends level post := by
  rw [Group.parse_eq]
  apply Takes.current
  split
  · next noOp =>
    apply Takes.pure
    rw [append_nil]
    refine ⟨written.looser atMost, fun op isOperator => ?_⟩
    rw [noOp] at isOperator
    cases isOperator
  · next op isOperator =>
    split
    · next tooLoose =>
      apply Takes.pure
      rw [append_nil]
      refine ⟨written.looser atMost, fun other isOther => ?_⟩
      rw [isOperator] at isOther
      cases isOther
      exact tooLoose
    · next goesOn =>
      have notAtEnd : st.current.kind ≠ .endOfFile := by
        intro isEnd
        rw [isEnd] at isOperator
        cases isOperator
      apply Takes.advance notAtEnd
      intro afterMark consumesMark
      rw [rightPower_eq]
      have rightAtMost : (rightLevel op).rank ≤ Level.signed.rank := by
        cases op <;> decide
      apply (level_takes (rightLevel op) afterMark rightAtMost).bind
      rintro toks right post consumes ⟨onRight, ends⟩
      have onLeft : Writes front (.expression (operatorLevel op) left) :=
        written.looser (leftPower_eq ▸ binds op isOperator)
      have whole := Writes.binary onLeft isOperator onRight
      have rest := binaryTail_takes level whole
        (by rw [← leftPower_eq]; omega)
        fun other isOther => by
          have below := ends other isOther
          rw [← rightPower_eq, BinaryOperator.rightPower] at below
          rw [← leftPower_eq]
          omega
      simpa using rest
termination_by 4 * st.rest.length
decreasing_by all_goals grind

theorem operand_takes :
    Takes (expressionRules.parse .operand) st fun toks tree _ =>
      Writes toks (.expression .signed tree) := by
  rw [Group.parse_eq]
  apply Takes.current
  split
  · apply primary_takes.imp
    intro toks tree post written
    exact written.looser (by decide)
  · next op isOperator =>
    have notAtEnd : st.current.kind ≠ .endOfFile := by
      intro isEnd
      rw [isEnd] at isOperator
      cases isOperator
    apply Takes.advance notAtEnd
    intro afterSign consumesSign
    apply (level_takes .signed afterSign (Nat.le_refl _)).bind
    rintro toks operand post consumes ⟨written, -⟩
    apply Takes.pure
    rw [append_nil]
    exact .unary isOperator written
termination_by 4 * st.rest.length + 1
decreasing_by all_goals grind

theorem primary_takes :
    Takes (expressionRules.parse .primary) st fun toks tree _ =>
      Writes toks (.expression .selection tree) := by
  have step {kind : Kind} (isKind : st.current.kind = kind) (notEnd : kind ≠ .endOfFile)
      {tree : Expr} (written : Writes [st.current] (.expression .atom tree)) :
      Takes (do advance; expressionRules.parse (.selectionTail st.current.span tree)) st
        fun toks tree _ => Writes toks (.expression .selection tree) := by
    apply Takes.advance (isKind ▸ notEnd)
    intro post consumes
    exact selectionTail_takes (written.looser (by decide))
  rw [Group.parse_eq]
  apply Takes.current
  split
  · next isInteger => exact step isInteger (by decide) (.integer isInteger)
  · next isReal => exact step isReal (by decide) (.real isReal)
  · next isBoolean => exact step isBoolean (by decide) (.boolean isBoolean)
  · next isName =>
    dsimp only
    apply Takes.advance (by simp [isName])
    intro afterName consumesName
    apply Takes.accept (by decide)
    · intro opens afterOpening consumesOpening
      apply Takes.check
      have close (toks : List Token) (args : List Expr) (state' : State)
          (consumes : afterOpening.Consumes toks state') (inner : Writes toks (.arguments args)) :
          Takes (do
            expect (.symbol .rightParen)
            expressionRules.parse (.selectionTail st.current.span
              (.call (← spanFrom st.current.span) (st.current.text.getD "") args)))
            state' fun more tree _ =>
              Writes (st.current :: afterName.current :: toks ++ more)
                (.expression .selection tree) := by
        apply Takes.expect (by decide)
        intro closes afterClosing consumesClosing
        apply Takes.spanFrom
        rw [consumesClosing.previous]
        have whole : Writes _ (.expression .selection _) :=
          (Writes.call isName opens inner closes).looser (by decide)
        apply (selectionTail_takes whole).imp
        intro more tree post writes
        simpa using writes
      split
      · exact close [] [] afterOpening (.refl _) .noArguments
      · apply arguments_takes.bind
        rintro toks args post consumes ⟨written, -⟩
        exact close toks args post consumes written
    · intro notOpening
      exact selectionTail_takes ((Writes.name isName).looser (by decide))
  · next opens =>
    apply Takes.advance (by simp [opens])
    intro afterOpening consumesOpening
    apply (level_takes .disjunction afterOpening (by decide)).bind
    rintro toks inner afterInner consumesInner ⟨written, -⟩
    apply Takes.expect (by decide)
    intro closes afterClosing consumesClosing
    apply Takes.spanFrom
    rw [consumesClosing.previous]
    have whole : Writes _ (.expression .selection _) :=
      (Writes.parenthesized opens written closes).looser (by decide)
    apply (selectionTail_takes whole).imp
    intro more tree post writes
    simpa using writes
  · exact missingOperand_takes
termination_by 4 * st.rest.length
decreasing_by all_goals grind

theorem selectionTail_takes (written : Writes (first :: front) (.expression .selection recv)) :
    Takes (expressionRules.parse (.selectionTail first.span recv)) st fun toks tree _ =>
      Writes (first :: front ++ toks) (.expression .selection tree) := by
  rw [Group.parse_eq]
  apply Takes.accept (by decide)
  · intro isDot afterDot consumesDot
    apply Takes.expectName
    intro isName afterName consumesName
    apply Takes.spanFrom
    have isSpan : first.span.upTo afterName.previous.stop =
        spanOver (first :: front ++ [st.current, afterDot.current]) := by
      simp [spanOver, consumesName.previous]
    rw [isSpan]
    apply (selectionTail_takes (written.field isDot isName)).imp
    intro toks tree post writes
    simpa using writes
  · intro notDot
    apply Takes.accept (by decide)
    · intro opens afterOpening consumesOpening
      apply (level_takes .disjunction afterOpening (by decide)).bind
      rintro toks pos afterInner consumesInner ⟨inner, -⟩
      apply Takes.expect (by decide)
      intro closes afterClosing consumesClosing
      apply Takes.spanFrom
      have isSpan : first.span.upTo afterClosing.previous.stop =
          spanOver (first :: front ++ st.current :: toks ++ [afterInner.current]) := by
        simp [spanOver, consumesClosing.previous]
      rw [isSpan]
      apply (selectionTail_takes (written.index opens inner closes)).imp
      intro more tree post writes
      simpa using writes
    · intro notOpening
      apply Takes.pure
      rwa [append_nil]
termination_by 4 * st.rest.length
decreasing_by all_goals grind

theorem arguments_takes :
    Takes (expressionRules.parse .arguments) st fun toks trees _ =>
      Writes toks (.arguments trees) ∧ trees ≠ [] := by
  rw [Group.parse_eq]
  apply (level_takes .disjunction st (by decide)).bind
  rintro toks first afterFirst consumesFirst ⟨written, -⟩
  apply Takes.accept (by decide)
  · intro isComma afterComma consumesComma
    apply arguments_takes.bind
    rintro more others afterOthers consumesOthers ⟨writtenOthers, notNone⟩
    obtain ⟨another, others, rfl⟩ := exists_cons_of_ne_nil notNone
    apply Takes.pure
    rw [append_nil]
    exact ⟨.argument written isComma writtenOthers, by simp⟩
  · intro notComma
    apply Takes.pure
    rw [append_nil]
    exact ⟨.lastArgument written, by simp⟩
termination_by 4 * st.rest.length + 3
decreasing_by all_goals grind

end

end Imperative.Parser
