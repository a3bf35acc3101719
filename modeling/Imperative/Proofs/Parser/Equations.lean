import Imperative.Proofs.Parser.Progress

/-!
# The rules as equations

A rule does what its body says, with calls of the rules themselves: the depth that bounds the calls
is never reached.
-/

-- The rest of a parser is a long term, and so is the instance that it is steady.
set_option synthInstance.maxSize 512

namespace Imperative.Parser

open Bisimulation (InStep)

def Bisimulation.ofInvariant (holds : State → Prop)
    (advance : ∀ st, holds st → st.current.kind ≠ .endOfFile → holds st.advance)
    (report : ∀ st span mistake, holds st → holds (st.report span mistake)) : Bisimulation where
  related first second := first = second ∧ holds first
  place _ := True
  current related := congrArg State.current related.1
  previous related := congrArg State.previous related.1
  left related := congrArg State.left related.1
  advance related notAtEnd := ⟨congrArg State.advance related.1, advance _ related.2 notAtEnd⟩
  report mistake related _ :=
    ⟨congrArg (State.report _ mistake) related.1, report _ _ mistake related.2⟩
  token _ := trivial
  upTo _ _ := trivial
  upToCurrent _ _ := trivial
  opening _ := trivial
  cover _ _ := trivial

def following (origin : State) : Bisimulation :=
  .ofInvariant origin.Follows (fun st follows _ => follows.trans st.advance_follows)
    fun st _ _ follows => follows.trans st.report_follows

def origin (st : State) : (following st).Pair := ⟨st, st, rfl, .refl st⟩

theorem Bisimulation.InStep.eq [Syntactic α] {parser other : Parser α}
    (step : InStep limit parser other (origin st)) : parser st = other st := by
  obtain ⟨val, post, run, runOther, -⟩ := step
  exact run.trans (post.related.1 ▸ runOther.symm)

namespace Group

variable {group : Group} [ranked : Ranked group] [progressive : Progressive group]

theorem parse_eq : group.parse rule = group.body group.parse rule := by
  funext st
  have enough := measure_lt_depth rule st
  obtain ⟨depth, isDepth⟩ : ∃ depth, st.depth = depth + 1 := ⟨st.depth - 1, by omega⟩
  have isWithin : group.parse rule st = group.within st.depth rule st := rfl
  rw [isWithin, isDepth, within]
  rw [isDepth] at enough
  apply InStep.eq
  apply progressive.settles rule _ _ _ (origin st)
  · exact ranked.given_of_forall (fun _ => trivial) rule
  · intro callee post given below
    exact within_parse_answers post given
      (Nat.lt_of_lt_of_le (measure_lt below) (Nat.le_of_lt_succ enough))

-- What a given rule reads is known by its name, so the type is left out of the search.
instance (rule : group.Rule) : @Steady (no_index (group.Result rule)) (group.parse rule) where
  passes st := by
    obtain ⟨val, post, run, -⟩ := group.parse_answers rule (origin st)
      (ranked.given_of_forall (fun _ => trivial) rule)
    exact (congrArg Prod.snd run) ▸ post.related.2

end Group

section

variable {sim : Bisimulation}

theorem declarations_end :
    InStep 0 (declarationRules.parse ()) (declarationRules.parse ()) pair := by
  rw [Group.parse_eq]
  exact declarations_inStep (fun isEnd => Nat.le_of_eq (congrArg _ (State.tokens_of_end isEnd)))
    fun post fewer => declarations_end
termination_by pair.left

theorem program_inStep (pair : sim.Pair) : InStep 0 program program pair := by
  refine .current (.skipSeparators fun post _ => ?_)
  refine declarations_end.bind fun decls last placed bound => .current ?_
  exact .pure ⟨sim.upToCurrent last.related pair.token, placed⟩ bound

theorem standaloneExpression_inStep (pair : sim.Pair) :
    InStep pair.left standaloneExpression standaloneExpression pair := by
  refine .skipSeparators fun post bound => ?_
  refine expression_inStep.bind fun val last placed lastBound => ?_
  refine .skipSeparators fun final finalBound => .check (fun _ => ?_) fun _ => .report ?_
  · exact .pure placed (by omega)
  · exact fun reported _ sameLeft => .pure placed (by omega)

end

instance : Steady expression := inferInstanceAs (Steady (expressionRules.parse _))

instance : Steady primary := inferInstanceAs (Steady (expressionRules.parse _))

instance : Steady expressions := inferInstanceAs (Steady (expressionRules.parse _))

instance : Steady arraySize := by
  unfold arraySize
  infer_instance

instance : Steady initialValue := by
  unfold initialValue
  infer_instance

instance : Steady type := inferInstanceAs (Steady (typeRules.parse _))

instance : Steady varDecl := inferInstanceAs (Steady (typeRules.parse _))

instance : Steady typeDecl := by
  unfold typeDecl
  infer_instance

instance : Steady loopHeader := by
  unfold loopHeader
  infer_instance

instance : Steady loopDirection := by
  unfold loopDirection
  infer_instance

instance : Steady block := inferInstanceAs (Steady (statementRules.parse _))

instance : Steady parameters := by
  unfold parameters
  infer_instance

instance : Steady routineBody := by
  unfold routineBody
  infer_instance

instance : Steady program := by
  unfold program
  infer_instance

end Imperative.Parser
