import Imperative.Proofs.Grammar.Completeness
import Imperative.Proofs.Grammar.Sentences
import Mathlib.Data.List.DropRight

/-!
# Expressions on their own

Tokens are read as an expression without a diagnostic exactly if, without the separators around
it, they are a sentence of the grammar.
-/

namespace Imperative.Parser

open List

open Grammar
open Token (Kind)

/-- The token is a separator. -/
def separates (tok : Token) : Bool := tok.kind.isSeparator

/-- The tokens before the end of the text, without separators at either end. -/
def strip (toks : List Token) : List Token :=
  ((Feed.ofTokens toks).tokens.dropWhile separates).rdropWhile separates

theorem exists_strip :
    ∃ front back, (Feed.ofTokens toks).tokens = front ++ (strip toks ++ back) ∧
      Separators front ∧ Separators back := by
  refine ⟨(Feed.ofTokens toks).tokens.takeWhile separates,
    ((Feed.ofTokens toks).tokens.dropWhile separates).rtakeWhile separates, ?_, ?_, ?_⟩
  · rw [strip, rdropWhile_append_rtakeWhile, takeWhile_append_dropWhile]
  · intro tok isIn
    exact mem_takeWhile_imp (p := separates) isIn
  · intro tok isIn
    exact mem_rtakeWhile_imp (p := separates) isIn

theorem rdropWhile_separators (separators : Separators back) :
    (toks ++ back).rdropWhile separates = toks.rdropWhile separates := by
  induction back using List.reverseRecOn with
  | nil => rw [append_nil]
  | append_singleton back last ih =>
    obtain ⟨separators, lastSeparates⟩ := forall_mem_append.mp separators
    have dropsLast : separates last = true := lastSeparates last (by simp)
    rw [← append_assoc, rdropWhile_concat_pos _ _ _ dropsLast, ih separators]

theorem strip_eq (parts : (Feed.ofTokens toks).tokens = front ++ (mid ++ back))
    (separatorsFront : Separators front) (separatorsBack : Separators back) (notEmpty : mid ≠ [])
    (notSeparators : ∀ tok ∈ mid, tok.kind.isSeparator = false) : strip toks = mid := by
  obtain ⟨first, rest, rfl⟩ := exists_cons_of_ne_nil notEmpty
  have firstStays : ¬ separates first = true := by
    simpa [separates] using notSeparators first mem_cons_self
  have allSeparate : ∀ tok ∈ front, separates tok = true := separatorsFront
  rw [strip, parts, dropWhile_append_of_pos allSeparate, cons_append,
    dropWhile_cons_of_neg firstStays, ← cons_append,
    rdropWhile_separators separatorsBack, rdropWhile_eq_self_iff]
  intro hasLast
  simpa [separates] using notSeparators _ (getLast_mem hasLast)

theorem standaloneExpression_takes :
    Takes standaloneExpression st fun toks tree post =>
      ∃ front mid back, toks = front ++ (mid ++ back) ∧ Separators front ∧
        Separators back ∧ Writes mid (.expression .disjunction tree) ∧
        post.current.kind = .endOfFile := by
  rw [standaloneExpression]
  apply Takes.skipSeparators
  intro front afterFront consumesFront separatorsFront _
  apply (level_takes .disjunction afterFront (by decide)).bind
  rintro mid tree afterTree consumesTree ⟨written, -⟩
  apply Takes.skipSeparators
  intro back afterBack consumesBack separatorsBack _
  apply Takes.check
  split
  · have reported : Takes (report .tokenAfterExpression) afterBack fun _ _ _ => False := .of_report
    apply reported.bind
    intro _ _ _ _ impossible
    exact impossible.elim
  · next atEnd =>
    apply Takes.pure
    exact ⟨front, mid, back, by simp, separatorsFront, separatorsBack, written,
      by simpa using atEnd⟩

theorem run_standaloneExpression (writes : Writes (strip toks) (.expression .disjunction tree)) :
    run standaloneExpression (Feed.ofTokens toks) = { value := tree, diagnostics := [] } := by
  obtain ⟨front, back, parts, separatorsFront, separatorsBack⟩ := exists_strip
  have errorlessFront := errorless_of_separators separatorsFront
  have errorlessBack := errorless_of_separators separatorsBack
  have errorlessMid : Errorless (strip toks) := fun tok isIn =>
    not_error_of_belongs (writes.belongs tok isIn)
  have errorless : Errorless (front ++ (strip toks ++ back)) :=
    errorless_append.mpr ⟨errorlessFront, errorless_append.mpr ⟨errorlessMid, errorlessBack⟩⟩
  have reads : Reads startSpan standaloneExpression (front ++ (strip toks ++ back)) tree
      (· = .endOfFile) := by
    refine .skipSeparators separatorsFront (fun rest _ => ?_) ((reads_expression writes).bind
      ((reads_skipSeparators separatorsBack).last (fun kind ends => by rw [ends]; rfl)
        (.check (fun _ ends => ends) .pure)) fun rest ends => ?_)
    · rw [append_assoc]
      exact not_isSeparator_of_begins (begins_append writes.begins _)
    · exact continues_of_separators separatorsBack ends
  have isRun := reads (Feed.ofTokens toks).closing [] errorless (by decide) rfl
  have notErr := errorless.nextKind_append (by decide : nextKind [] ≠ .error)
  rw [append_nil, ← parts] at isRun notErr
  rw [run, State.ofFeed_eq notErr, isRun]
  rfl

/--
A list of tokens is read as an expression without a diagnostic exactly if it is a sentence with
separators around it, and the tree that is returned is the only one that the sentence writes.
-/
theorem standaloneExpression_recognizes (tokens : List Token) :
    ((run standaloneExpression (Feed.ofTokens tokens)).diagnostics = [] ↔
      ∃ tree, Writes (strip tokens) (.expression .disjunction tree)) ∧
    ∀ tree, Writes (strip tokens) (.expression .disjunction tree) →
      (run standaloneExpression (Feed.ofTokens tokens)).value = tree := by
  refine ⟨⟨fun clean => ?_, ?_⟩, ?_⟩
  · have steady : Steady standaloneExpression := by
      unfold standaloneExpression
      infer_instance
    have startClean := (steady.passes _).clean clean
    obtain ⟨read, consumes, front, middle, back, rfl, separatorsFront, separatorsBack, writes,
      atEnd⟩ := standaloneExpression_takes clean
    have parts := consumes.rest
    rw [State.ofFeed_rest startClean] at parts
    have inside : ∀ token ∈ (standaloneExpression (State.ofFeed (Feed.ofTokens tokens))).2.rest,
        token.kind ≠ .endOfFile := fun token isIn =>
      Feed.ofTokens_inside token (by rw [parts]; simp [isIn])
    rw [State.rest_eq_nil_of_end inside atEnd, append_nil] at parts
    rw [strip_eq parts separatorsFront separatorsBack (ne_nil_of_begins writes.begins)
      fun token isIn => not_isSeparator_of_belongs (writes.belongs token isIn)]
    exact ⟨_, writes⟩
  · rintro ⟨tree, writes⟩
    rw [run_standaloneExpression writes]
  · intro tree writes
    rw [run_standaloneExpression writes]

end Imperative.Parser
