import Imperative.Proofs.Parser.Equations

/-!
# Parsing ends

In every chain of calls tokens are consumed, unless the rank of the rules falls, so no chain is
infinite and every loop consumes a token in each turn.
-/

namespace Imperative.Parser

open Token (Kind)
open Bisimulation (InStep)

theorem State.advanceWhile_ends (st : State) (enough : st.rest.length ≤ count) :
    skipped (st.advanceWhile skipped count).current.kind = false ∨
      (st.advanceWhile skipped count).current.kind = .endOfFile := by
  induction count generalizing st with
  | zero =>
    have none : st.rest = [] := List.length_eq_zero_iff.mp (Nat.le_zero.mp enough)
    right
    rw [advanceWhile, current, none]
    rfl
  | succ count ih =>
    rw [advanceWhile]
    split
    · apply ih
      have fewer : st.advance.rest.length ≤ st.rest.tail.length :=
        (List.dropWhile_sublist _).length_le
      rw [List.length_tail] at fewer
      omega
    · next stops => exact .inl (Bool.eq_false_iff.mpr stops)

namespace Group

/-- A rule that is called in a state. -/
abbrev Call (group : Group) : Type := group.Rule × State

/-- A call makes another if it gives something else as soon as the other one does. -/
def Calls (group : Group) (caller callee : group.Call) : Prop :=
  ∃ answers : (rule : group.Rule) → Parser (group.Result rule),
    (∀ rule st, (rule, st) ≠ callee → answers rule st = group.parse rule st) ∧
      group.body answers caller.1 caller.2 ≠ group.parse caller.1 caller.2

/-- What it means that the rules of a group are sure to come to an end. -/
structure Terminates (group : Group) [ranked : Ranked group] : Prop where
  /-- The rules do what their bodies say. -/
  solves : group.parse = group.body group.parse
  /-- Nothing else does what the bodies say. -/
  unique (answers : (rule : group.Rule) → Parser (group.Result rule)) :
    answers = group.body answers → answers = group.parse
  /-- Calls are never followed to the depth where something would stand in for a rule. -/
  settled (rule : group.Rule) (st : State) (depth : Nat) :
    st.depth ≤ depth → group.within depth rule st = group.parse rule st
  /-- There is no infinite chain of calls. -/
  wellFounded : WellFounded fun callee caller => group.Calls caller callee
  /-- A chain of calls that comes back to its rule, or to one of no lower rank, consumes a token. -/
  progress (caller callee : group.Call) : Relation.TransGen group.Calls caller callee →
    ranked.rank caller.1 ≤ ranked.rank callee.1 → callee.2.left < caller.2.left

variable {group : Group} [ranked : Ranked group] [progressive : Progressive group]

theorem body_eq
    (same : ∀ callee post, Below rule st.left callee post.left →
      answers callee post = group.parse callee post) :
    group.body answers rule st = group.parse rule st := by
  rw [parse_eq]
  apply InStep.eq
  apply progressive.settles rule _ _ _ (origin st)
  · exact ranked.given_of_forall (fun _ => trivial) rule
  · intro callee post given below
    exact (group.parse_answers callee post given).of_eq (same callee post.first below) rfl

theorem eq_parse (solves : answers = group.body answers) (st : State) :
    answers rule st = group.parse rule st := by
  rw [solves]
  apply body_eq
  intro callee post below
  have := measure_lt below
  exact eq_parse solves post
termination_by measure rule st.left

theorem Calls.below (calls : group.Calls caller callee) :
    Below caller.1 caller.2.left callee.1 callee.2.left := by
  obtain ⟨answers, same, differs⟩ := calls
  apply Classical.byContradiction
  intro notBelow
  apply differs
  apply body_eq
  intro rule post below
  apply same
  rintro rfl
  exact notBelow below

omit progressive in
theorem Below.trans {first second third : group.Rule} (pre : Below first start second mid)
    (post : Below second mid third ending) : Below first start third ending := by
  rcases pre with fewer | ⟨notMore, lower⟩ <;> rcases post with fewer' | ⟨notMore', lower'⟩
  · exact .inl (by omega)
  · exact .inl (by omega)
  · exact .inl (by omega)
  · exact .inr ⟨by omega, by omega⟩

theorem below_of_chain {caller callee : group.Call}
    (chain : Relation.TransGen group.Calls caller callee) :
    Below caller.1 caller.2.left callee.1 callee.2.left := by
  induction chain with
  | single calls => exact calls.below
  | tail _ calls ih => exact ih.trans calls.below

theorem terminates : group.Terminates where
  solves := funext fun _ => parse_eq
  unique answers solves := funext fun rule => funext (eq_parse solves)
  settled rule st depth enough := by
    have deep := Nat.lt_of_lt_of_le (measure_lt_depth rule st) enough
    exact (within_parse_answers (origin st)
      (ranked.given_of_forall (fun _ => trivial) rule) deep).eq
  wellFounded := by
    have falls : WellFounded fun callee caller : group.Call =>
        measure callee.1 callee.2.left < measure caller.1 caller.2.left :=
      InvImage.wf _ Nat.lt_wfRel.wf
    exact Subrelation.wf (fun calls => measure_lt calls.below) falls
  progress caller callee chain notLower := by
    rcases below_of_chain chain with fewer | ⟨-, lower⟩
    · exact fewer
    · exact absurd notLower (Nat.not_le_of_lt lower)

end Group

theorem expression_calls_operand :
    expressionRules.Calls (.expression minimum, st) (.operand, st) := by
  let whole := (expressionRules.parse (.expression minimum) st).2
  let mark : Diagnostic := { stage := .syntactic, span := st.closing, message := "" }
  -- If the operand led to the end of the text with one more diagnostic, the expression would too.
  let ending : State := { whole with rest := [], diagnostics := mark :: whole.diagnostics }
  classical
  obtain ⟨answers, isAnswer⟩ : ∃ answers : (rule : ExpressionRule) → Parser rule.Result,
      ∀ rule post, answers rule post =
        if (rule, post) = (.operand, st) then ((expressionRules.parse rule post).1, ending)
        else expressionRules.parse rule post := ⟨_, fun _ _ => rfl⟩
  refine ⟨answers, fun rule post isOther => (isAnswer rule post).trans (if_neg isOther), ?_⟩
  intro same
  have run : answers (.binaryTail minimum (answers .operand st).1) (answers .operand st).2 =
      expressionRules.parse (.expression minimum) st := same
  rw [isAnswer .operand, if_pos rfl, isAnswer, if_neg (by simp), Group.parse_eq] at run
  have isWhole : ending = whole := congrArg Prod.snd run
  have longer := congrArg (·.diagnostics.length) isWhole
  simp [ending] at longer

/--
The rules for expressions, types, statements, parameters and declarations come to an end on all
tokens, and so does the skipping of tokens between them.
-/
theorem rules_terminate :
    expressionRules.Terminates ∧ typeRules.Terminates ∧ statementRules.Terminates ∧
      parameterRules.Terminates ∧ declarationRules.Terminates ∧
      ∀ (skipped : Kind → Bool) (state : State),
        skipped (skipWhile skipped state).2.current.kind = false ∨
          (skipWhile skipped state).2.current.kind = .endOfFile :=
  ⟨Group.terminates, Group.terminates, Group.terminates, Group.terminates, Group.terminates,
    fun _ state => state.advanceWhile_ends (Nat.le_refl _)⟩

end Imperative.Parser
