import Imperative.Parser.State

/-!
# What every parser does to the state

A parser consumes tokens and adds diagnostics, and it does nothing else to the state.
-/

-- The rest of a parser is a long term, and so is the instance that it is steady.
set_option synthInstance.maxSize 512

namespace Imperative.Parser

/-- The second state has only the last tokens of the first, and keeps its diagnostics. -/
structure State.Follows (pre post : State) : Prop where
  suffix : post.rest <:+ pre.rest
  clean : post.diagnostics = [] → pre.diagnostics = []

namespace State

theorem Follows.refl (st : State) : st.Follows st where
  suffix := List.suffix_refl _
  clean noDiagnostics := noDiagnostics

theorem Follows.trans {first second : State} (pre : first.Follows second)
    (post : second.Follows third) : first.Follows third where
  suffix := post.suffix.trans pre.suffix
  clean noDiagnostics := pre.clean (post.clean noDiagnostics)

theorem settle_follows (st : State) : st.Follows st.settle where
  suffix := List.dropWhile_suffix _
  clean noDiagnostics := (List.append_eq_nil_iff.mp noDiagnostics).1

theorem advance_follows (st : State) : st.Follows st.advance := by
  apply Follows.trans _ (settle_follows _)
  exact ⟨List.tail_suffix _, fun noDiagnostics => noDiagnostics⟩

theorem advanceWhile_follows (count : Nat) (st : State) :
    st.Follows (st.advanceWhile skipped count) := by
  induction count generalizing st with
  | zero => exact .refl st
  | succ count ih =>
    rw [advanceWhile]
    split
    · exact (advance_follows st).trans (ih st.advance)
    · exact .refl st

theorem report_follows (st : State) : st.Follows (st.report span mistake) where
  suffix := List.suffix_refl _
  clean noDiagnostics := (List.append_eq_nil_iff.mp noDiagnostics).1

end State

section Steady

open Token (Kind)

variable {α β : Type}

/--
A parser that leads from every state to one that follows it.  Instances find this for the rest of
a parser, so that a diagnostic of the first step is known to stay.
-/
class Steady (parser : Parser α) : Prop where
  passes : ∀ st : State, st.Follows (parser st).2

theorem Steady.bind [first : Steady parser] (rest : ∀ val, Steady (next val)) :
    Steady (parser >>= next) :=
  ⟨fun st => (first.passes st).trans ((rest (parser st).1).passes (parser st).2)⟩

instance (val : α) : Steady (pure val) := ⟨fun st => .refl st⟩

instance (parser : Parser α) (next : α → Parser β) [Steady parser]
    [rest : ∀ val, Steady (next val)] : Steady (parser >>= next) := .bind rest

instance (transform : α → β) (parser : Parser α) [inner : Steady parser] :
    Steady (transform <$> parser) := ⟨inner.passes⟩

instance (cond : Prop) [Decidable cond] (consequent alternative : Parser α) [Steady consequent]
    [Steady alternative] :
    Steady (if cond then consequent else alternative) := by
  split <;> infer_instance

instance : Steady (get : Parser State) := ⟨fun st => .refl st⟩

instance : Steady current := by
  unfold current
  infer_instance

instance : Steady advance := ⟨State.advance_follows⟩

instance (kind : Kind) : Steady (check kind) := by
  unfold check
  infer_instance

instance (kind : Kind) : Steady (accept kind) := by
  unfold accept
  infer_instance

instance (span : Span) (mistake : Mistake) : Steady (reportAt span mistake) :=
  ⟨State.report_follows⟩

instance (mistake : Mistake) : Steady (report mistake) := by
  unfold report
  infer_instance

instance (kind : Kind) (wanted : Wanted) : Steady (demand kind wanted) := by
  unfold demand
  infer_instance

instance (kind : Kind) : Steady (expect kind) := by
  unfold expect
  infer_instance

instance (thing : String) : Steady (expectName thing) := by
  unfold expectName
  infer_instance

instance (skipped : Kind → Bool) : Steady (skipWhile skipped) :=
  ⟨fun st => State.advanceWhile_follows st.rest.length st⟩

instance : Steady skipSeparators := by
  unfold skipSeparators
  infer_instance

instance (stops : Kind → Bool) : Steady (recover stops) := by
  unfold recover
  infer_instance

instance (opening : Span) : Steady (spanFrom opening) := by
  unfold spanFrom
  infer_instance

end Steady

end Imperative.Parser
