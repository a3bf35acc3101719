import Imperative.Proofs.Lowering.Loops
import Imperative.Proofs.Scalar.Code

/-!
# The machine follows the source

A statement and its code end alike.  `Simulates` says so, and it is put together along the code.
-/

namespace Imperative.Scalar

open Lowering (Frame RangeLocals)
open Wasm (Code Module Performs Result Runs State Value)

namespace Outcome

variable {outcome : Outcome}

theorem andThen_of_not_normal (other : ∀ store, outcome ≠ .normal store) :
    outcome.andThen next = outcome := by
  cases outcome with
  | normal store => exact absurd rfl (other store)
  | returned | trapped | stuck | exhausted => rfl

theorem leave_of_not_normal (other : ∀ store, outcome ≠ .normal store) :
    outcome.leave depth = outcome := by
  cases outcome with
  | normal store => exact absurd rfl (other store)
  | returned | trapped | stuck | exhausted => rfl

theorem leave_andThen :
    (outcome.andThen next).leave depth = outcome.andThen fun store => (next store).leave depth := by
  cases outcome <;> rfl

theorem leave_demand (store : Store) (computed : Except Fault α) (next : α → Outcome)
    (depth : Nat) :
    (store.demand computed next).leave depth =
      store.demand computed fun val => (next val).leave depth := by
  cases computed with
  | ok => rfl
  | error fault => cases fault <;> rfl

end Outcome

/-- The local is reserved, and it is not the cell of a variable that may be assigned to. -/
def Pinned (cells : List (String × Cell)) (frame : Frame) (index : Nat) : Prop :=
  frame.Reserved index ∧ ∀ cell ∈ cells, cell.2.isFixed = false → cell.2.slot ≠ index

theorem Pinned.grow (grows : pre.Grows after) (index : Nat)
    (pinned : Pinned cells pre index) : Pinned cells after index :=
  ⟨grows.reserved index pinned.1, pinned.2⟩

def Unchanged (kept : Nat → Prop) (pre after : State) : Prop :=
  ∀ index, kept index → after.locals[index]? = pre.locals[index]?

section Ends

variable (outer : Outer) (base : State) (cells : List (String × Cell)) (kept : Nat → Prop)

def Follows (start : State) : Outcome → Result → Prop
  | .normal store, .next st => Mirrors outer base cells store st ∧ Unchanged kept start st
  | .returned val store, .returned st =>
    Agree outer.names outer.order base store st ∧
      st.stack = val.toList.map fun datum => .i32 datum.word
  | .trapped printed, .trapped calls => calls = base.calls ++ printed.map printCall
  | _, _ => False

def Simulates (module : Module) (code : Code) (start : State) (outcome : Outcome) : Prop :=
  outcome ≠ .exhausted →
    ∃ ending, Runs module code start ending ∧ Follows outer base cells kept start outcome ending

/-- The loop ends like the statement, by a branch to the block around it unless it escapes. -/
def SimulatesLoop (module : Module) (code : Code) (start : State) (outcome : Outcome) : Prop :=
  outcome ≠ .exhausted →
    (∃ store after, outcome = .normal store ∧
      Performs module (.loop code) start (.branch 0 after) ∧
      Mirrors outer base cells store after ∧ Unchanged kept start after) ∨
    ∃ ending, Performs module (.loop code) start ending ∧ ending.escapes = true ∧
      Follows outer base cells kept start outcome ending

end Ends

section Rules

variable {base : State} {cells : List (String × Cell)} {kept : Nat → Prop}

theorem Follows.cases (follows : Follows outer base cells kept start outcome ending) :
    (∃ store st, outcome = .normal store ∧ ending = .next st ∧
      Mirrors outer base cells store st ∧ Unchanged kept start st) ∨
    (ending.escapes = true ∧ (∀ store, outcome ≠ .normal store) ∧
      ∀ others property other, Follows outer base others property other outcome ending) := by
  cases outcome with
  | normal store =>
    cases ending with
    | next st => exact .inl ⟨store, st, rfl, rfl, follows⟩
    | branch | returned | trapped | stuck | exhausted => exact follows.elim
  | returned val store =>
    cases ending with
    | returned st => exact .inr ⟨rfl, nofun, fun _ _ _ => follows⟩
    | next | branch | trapped | stuck | exhausted => exact follows.elim
  | trapped printed =>
    cases ending with
    | trapped calls => exact .inr ⟨rfl, nofun, fun _ _ _ => follows⟩
    | next | branch | returned | stuck | exhausted => exact follows.elim
  | stuck | exhausted => exact follows.elim

theorem Follows.leave (follows : Follows outer base cells kept start outcome ending) :
    ending.leave [] = ending := by
  rcases follows.cases with ⟨store, st, -, rfl, mirrors, -⟩ | ⟨escaping, -⟩
  · rw [Result.leave, Lowering.with_empty_stack mirrors.stack]
  · exact Result.leave_of_escapes escaping

theorem Simulates.demand (agree : Agree outer.names outer.order base store start)
    (computes : Computes module code start kind computed)
    (goesOn : ∀ datum, datum.kind = kind → Simulates outer base cells kept module rest
      { start with stack := .i32 datum.word :: start.stack } (next datum)) :
    Simulates outer base cells kept module (code ++ rest) start (store.demand computed next) := by
  intro ends
  rcases computes with ⟨isKind, leaves⟩
  cases computed with
  | ok datum =>
    rcases goesOn datum (isKind datum rfl) ends with ⟨ending, runs, follows⟩
    exact ⟨ending, Runs.append leaves runs, follows⟩
  | error fault =>
    cases fault with
    | trap => exact ⟨_, .append_stop leaves rfl rest, agree.calls⟩
    | stuck => exact leaves.elim

theorem Simulates.after (runs : Runs module code start (.next mid))
    (unchanged : Unchanged kept start mid)
    (goesOn : Simulates outer base cells stillKept module rest mid outcome)
    (weaker : ∀ index, kept index → stillKept index) :
    Simulates outer base cells kept module (code ++ rest) start outcome := by
  intro ends
  rcases goesOn ends with ⟨ending, restRuns, follows⟩
  refine ⟨ending, runs.append restRuns, ?_⟩
  rcases follows.cases with ⟨store, st, rfl, rfl, mirrors, stillUnchanged⟩ | ⟨-, -, same⟩
  · exact ⟨mirrors, fun index isKept =>
      (stillUnchanged index (weaker index isKept)).trans (unchanged index isKept)⟩
  · exact same _ _ _

theorem Simulates.imp (simulates : Simulates outer base cells stillKept module code start outcome)
    (weaker : ∀ index, kept index → stillKept index) :
    Simulates outer base cells kept module code start outcome :=
  .after .nil (fun _ _ => rfl) simulates weaker

theorem Simulates.andThen (first : Simulates outer base cells kept module code start outcome)
    (second : ∀ store st, Mirrors outer base cells store st → Unchanged kept start st →
      Simulates outer base others stillKept module rest st (next store))
    (weaker : ∀ index, kept index → stillKept index) :
    Simulates outer base others kept module (code ++ rest) start (outcome.andThen next) := by
  intro ends
  have firstEnds : outcome ≠ .exhausted := by
    rintro rfl
    exact ends rfl
  rcases first firstEnds with ⟨ending, runs, follows⟩
  rcases follows.cases with ⟨store, st, rfl, rfl, mirrors, unchanged⟩ | ⟨escaping, other, same⟩
  · rcases second store st mirrors unchanged ends with ⟨ending, restRuns, restFollows⟩
    refine ⟨ending, runs.append restRuns, ?_⟩
    rcases restFollows.cases with ⟨last, after, isLast, rfl, lastMirrors, lastUnchanged⟩ | ⟨-, -,
      same⟩
    · show Follows outer base others kept start (next store) _
      rw [isLast]
      refine ⟨lastMirrors, fun index isKept => ?_⟩
      rw [lastUnchanged index (weaker index isKept), unchanged index isKept]
    · exact same _ _ _
  · refine ⟨ending, runs.append_stop (Result.isNext_of_escapes escaping) rest, ?_⟩
    rw [Outcome.andThen_of_not_normal other]
    exact same _ _ _

theorem Simulates.leave (inner : List (String × Cell))
    (simulates : Simulates outer base (inner ++ cells) kept module code start outcome) :
    Simulates outer base cells kept module code start (outcome.leave cells.length) := by
  intro ends
  have endsInside : outcome ≠ .exhausted := by
    rintro rfl
    exact ends rfl
  rcases simulates endsInside with ⟨ending, runs, follows⟩
  refine ⟨ending, runs, ?_⟩
  rcases follows.cases with ⟨store, st, rfl, rfl, mirrors, unchanged⟩ | ⟨-, other, same⟩
  · exact ⟨mirrors.leave, unchanged⟩
  · rw [Outcome.leave_of_not_normal other]
    exact same _ _ _

theorem Simulates.conditional (isEmpty : start.stack = [])
    (chosen : Simulates outer base cells kept module (if word = 0 then alternative else consequent)
      start
      outcome) :
    Simulates outer base cells kept module [.conditional consequent alternative]
      { start with stack := .i32 word :: start.stack } outcome := by
  intro ends
  rcases chosen ends with ⟨ending, runs, follows⟩
  rw [← Lowering.with_empty_stack isEmpty] at runs
  refine ⟨ending, .single ?_, follows⟩
  rw [← follows.leave]
  refine .conditional ?_ runs
  rw [isEmpty]

theorem SimulatesLoop.repeating (isEmpty : start.stack = [])
    (simulates : SimulatesLoop outer base cells kept module code start outcome) :
    Simulates outer base cells kept module [Lowering.repeating code] start outcome := by
  intro ends
  rcases simulates ends with
    ⟨store, after, rfl, performs, mirrors, unchanged⟩ | ⟨ending, performs, escaping, follows⟩
  · exact ⟨_, Lowering.repeating_next isEmpty performs mirrors.stack, mirrors, unchanged⟩
  · exact ⟨ending, Lowering.repeating_escapes isEmpty performs escaping, follows⟩

theorem SimulatesLoop.after (unchanged : Unchanged kept start mid)
    (gets : ∀ ending, Performs module (.loop code) mid ending →
      Performs module (.loop code) start ending)
    (later : SimulatesLoop outer base cells kept module code mid outcome) :
    SimulatesLoop outer base cells kept module code start outcome := by
  intro ends
  rcases later ends with
    ⟨store, st, rfl, performs, mirrors, stillUnchanged⟩ | ⟨ending, performs, escaping, follows⟩
  · exact .inl ⟨store, st, rfl, gets _ performs, mirrors, fun index isKept =>
      (stillUnchanged index isKept).trans (unchanged index isKept)⟩
  · refine .inr ⟨ending, gets _ performs, escaping, ?_⟩
    rcases follows.cases with ⟨_, _, _, rfl, _⟩ | ⟨-, -, same⟩
    · cases escaping
    · exact same _ _ _

theorem SimulatesLoop.turn (first : Simulates outer base cells stillKept module body start outcome)
    (escapes : ∀ ending, Runs module body start ending → ending.escapes = true →
      Performs module (.loop code) start ending)
    (again : ∀ store mid, Runs module body start (.next mid) → Mirrors outer base cells store mid →
      Unchanged stillKept start mid →
      SimulatesLoop outer base cells kept module code start (next store)) :
    SimulatesLoop outer base cells kept module code start (outcome.andThen next) := by
  intro ends
  have firstEnds : outcome ≠ .exhausted := by
    rintro rfl
    exact ends rfl
  rcases first firstEnds with ⟨ending, runs, follows⟩
  rcases follows.cases with ⟨store, mid, rfl, rfl, mirrors, unchanged⟩ | ⟨escaping, other, same⟩
  · exact again store mid runs mirrors unchanged ends
  · refine .inr ⟨ending, escapes ending runs escaping, escaping, ?_⟩
    rw [Outcome.andThen_of_not_normal other]
    exact same _ _ _

end Rules

end Imperative.Scalar
