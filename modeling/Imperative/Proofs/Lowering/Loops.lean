import Imperative.Lowering.Statement
import Imperative.Proofs.Wasm.Runs

/-!
# Loops in the machine

A loop over a range tests before its body whether the counter is past the bound, and after it
whether the counter has reached the bound, so the counter never wraps around.
-/

namespace Imperative.Lowering

open Wasm (Code Instruction Module Numeric Performs Result Runs State Value)

def isPast (counter bound : Int32) : Direction → Bool
  | .forward => bound < counter
  | .reverse => counter < bound

def isDone (counter bound : Int32) : Direction → Bool
  | .forward => bound ≤ counter
  | .reverse => counter ≤ bound

def nextCounter (counter : Int32) : Direction → Int32
  | .forward => counter + 1
  | .reverse => counter - 1

theorem toInt_succ {counter : Int32} (below : counter < bound) :
    (counter + 1).toInt = counter.toInt + 1 := by
  have less := Int32.lt_iff_toInt_lt.mp below
  have atMost := bound.toInt_lt
  have atLeast := counter.le_toInt
  rw [Int32.toInt_add, Int32.toInt_one]
  exact Int.bmod_eq_of_le (by omega) (by omega)

theorem toInt_pred {counter : Int32} (above : bound < counter) :
    (counter - 1).toInt = counter.toInt - 1 := by
  have less := Int32.lt_iff_toInt_lt.mp above
  have atMost := counter.toInt_lt
  have atLeast := bound.le_toInt
  rw [Int32.toInt_sub, Int32.toInt_one]
  exact Int.bmod_eq_of_le (by omega) (by omega)

def entryTest : Direction → Numeric
  | .forward => .i32GtS
  | .reverse => .i32LtS

def exitTest : Direction → Numeric
  | .forward => .i32GeS
  | .reverse => .i32LeS

def stepOperation : Direction → Numeric
  | .forward => .i32Add
  | .reverse => .i32Sub

/-- Compare the counter with the bound, and leave the loop if the test holds. -/
def compareCode (locals : RangeLocals) (test : Numeric) : Code :=
  [.localGet locals.counter, .localGet locals.bound, compute test, .brIf 1]

def rangeBody (locals : RangeLocals) (dir : Direction) (body : Code) : Code :=
  compareCode locals (entryTest dir) ++ body ++ compareCode locals (exitTest dir) ++
    bump locals.counter 1 (stepOperation dir) ++ [.br 0]

theorem rangeCode_eq : rangeCode locals dir body = repeating (rangeBody locals dir body) := by
  cases dir <;> rfl

structure Counting (locals : RangeLocals) (counter bound : Int32) (st : State) : Prop where
  counter : st.locals[locals.counter]? = some (.i32 counter)
  bound : st.locals[locals.bound]? = some (.i32 bound)
  stack : st.stack = []

section Ranges

variable {module : Module} {locals : RangeLocals} {dir : Direction} {body : Code}
    {counter bound : Int32} {st : State}

theorem with_empty_stack (isEmpty : st.stack = []) : { st with stack := [] } = st := by
  obtain ⟨stack, locals, globals, memory, calls⟩ := st
  cases isEmpty
  rfl

theorem runs_compare (counting : Counting locals counter bound st)
    (arity : test.signature.1.length = 2)
    (gives : test.apply [.i32 counter, .i32 bound] = .value (.ofBool truth)) :
    Runs module (compareCode locals test) st (if truth then .branch 1 st else .next st) := by
  obtain ⟨stack, values, globals, memory, calls⟩ := st
  obtain ⟨isCounter, isBound, rfl⟩ := counting
  have compared :
      Runs module [.localGet locals.counter, .localGet locals.bound, compute test]
        { stack := [], locals := values, globals, memory, calls }
        (.next { stack := [.ofBool truth], locals := values, globals, memory, calls }) :=
    .cons (.localGet isCounter) (.cons (.localGet isBound) (.single (.binary arity rfl gives)))
  cases truth with
  | true => exact compared.append (.stop (.brIf_true rfl) rfl [])
  | false => exact compared.append (.single (.brIf_false rfl))

theorem runs_entry (counting : Counting locals counter bound st)
    (isTruth : isPast counter bound dir = truth) :
    Runs module (compareCode locals (entryTest dir)) st
      (if truth then .branch 1 st else .next st) := by
  subst isTruth
  cases dir <;> exact runs_compare counting rfl rfl

theorem runs_exit (counting : Counting locals counter bound st)
    (isTruth : isDone counter bound dir = truth) :
    Runs module (compareCode locals (exitTest dir)) st
      (if truth then .branch 1 st else .next st) := by
  subst isTruth
  cases dir <;> exact runs_compare counting rfl rfl

theorem runs_bump {val res : Int32} (isLocal : st.locals[index]? = some (.i32 val))
    (arity : step.signature.1.length = 2)
    (gives : step.apply [.i32 val, .i32 (.ofNat num)] = .value (.i32 res)) :
    Runs module (bump index num step) st
      (.next { st with locals := st.locals.set index (.i32 res) }) := by
  have inBounds : index < st.locals.length := (List.getElem?_eq_some_iff.mp isLocal).1
  refine .cons (.localGet isLocal) (.cons .i32Const ?_)
  exact .cons (.binary arity rfl gives) (.single (.localSet inBounds rfl))

theorem loop_branch (isEmpty : st.stack = []) (runs : Runs module code st (.branch 1 mid)) :
    Performs module (.loop code) st (.branch 0 mid) := by
  rw [← with_empty_stack isEmpty] at runs
  exact .loop_exit runs nofun

theorem loop_escapes (isEmpty : st.stack = []) (runs : Runs module code st res)
    (escaping : res.escapes = true) : Performs module (.loop code) st res := by
  rw [← with_empty_stack isEmpty] at runs
  rw [← Result.leave_of_escapes escaping]
  apply Performs.loop_exit runs
  rintro post rfl
  cases escaping

theorem rangeLoop_past (counting : Counting locals counter bound st)
    (past : isPast counter bound dir = true) :
    Performs module (.loop (rangeBody locals dir body)) st (.branch 0 st) := by
  have entered : Runs module (compareCode locals (entryTest dir)) st (.branch 1 st) :=
    runs_entry counting past
  apply loop_branch counting.stack
  exact (((entered.append_stop rfl _).append_stop rfl _).append_stop rfl _).append_stop rfl _

section Turn

variable (counting : Counting locals counter bound st) (notPast : isPast counter bound dir = false)

include counting notPast

theorem runs_turn (runs : Runs module body st res) :
    Runs module (compareCode locals (entryTest dir) ++ body) st res := by
  have entered : Runs module (compareCode locals (entryTest dir)) st (.next st) :=
    runs_entry counting notPast
  exact entered.append runs

theorem rangeLoop_escapes (runs : Runs module body st res) (escaping : res.escapes = true) :
    Performs module (.loop (rangeBody locals dir body)) st res := by
  have endsEarly := Result.isNext_of_escapes escaping
  have turn := runs_turn counting notPast runs
  apply loop_escapes counting.stack _ escaping
  exact ((turn.append_stop endsEarly _).append_stop endsEarly _).append_stop endsEarly _

theorem rangeLoop_done (runs : Runs module body st (.next mid))
    (stillCounting : Counting locals counter bound mid) (done : isDone counter bound dir = true) :
    Performs module (.loop (rangeBody locals dir body)) st (.branch 0 mid) := by
  have left : Runs module (compareCode locals (exitTest dir)) mid (.branch 1 mid) :=
    runs_exit stillCounting done
  have turn := runs_turn counting notPast runs
  apply loop_branch counting.stack
  exact ((turn.append left).append_stop rfl _).append_stop rfl _

theorem rangeLoop_step (runs : Runs module body st (.next mid))
    (stillCounting : Counting locals counter bound mid) (notDone : isDone counter bound dir = false)
    (again : Performs module (.loop (rangeBody locals dir body))
      { mid with
        locals := mid.locals.set locals.counter (.i32 (nextCounter counter dir)) } res) :
    Performs module (.loop (rangeBody locals dir body)) st res := by
  have stays : Runs module (compareCode locals (exitTest dir)) mid (.next mid) :=
    runs_exit stillCounting notDone
  have turn := runs_turn counting notPast runs
  have bumps : Runs module (bump locals.counter 1 (stepOperation dir)) mid (.next { mid with
      locals := mid.locals.set locals.counter (.i32 (nextCounter counter dir)) }) := by
    cases dir <;> exact runs_bump stillCounting.counter rfl rfl
  have stepped : Runs module (rangeBody locals dir body) st
      (.branch 0 { mid with
        locals := mid.locals.set locals.counter (.i32 (nextCounter counter dir)) }) :=
    ((turn.append stays).append bumps).append (.stop (.br 0 _) rfl [])
  rw [← with_empty_stack counting.stack] at stepped
  apply Performs.loop_again stepped
  have sameStack : mid.stack = st.stack := stillCounting.stack.trans counting.stack.symm
  rw [← sameStack]
  exact again

end Turn

end Ranges

def whileBody (test body : Code) : Code := test ++ [compute .i32Eqz, .brIf 1] ++ body ++ [.br 0]

section Conditions

variable {module : Module} {test : Code} {word : Int32} {st : State}

def Tests (module : Module) (test : Code) (word : Int32) (st : State) : Prop :=
  Runs module test st (.next { st with stack := .i32 word :: st.stack })

theorem runs_test (isEmpty : st.stack = []) (tests : Tests module test word st)
    (isTruth : (word == 0) = truth) :
    Runs module (test ++ [compute .i32Eqz, .brIf 1]) st
      (if truth then .branch 1 st else .next st) := by
  obtain ⟨stack, values, globals, memory, calls⟩ := st
  obtain rfl : stack = [] := isEmpty
  have tested : Runs module (test ++ [compute .i32Eqz])
      { stack := [], locals := values, globals, memory, calls }
      (.next { stack := [.ofBool truth], locals := values, globals, memory, calls }) := by
    subst isTruth
    exact tests.append (.single (.i32Eqz rfl))
  rw [List.append_cons]
  cases truth with
  | true => exact tested.append (.stop (.brIf_true rfl) rfl [])
  | false => exact tested.append (.single (.brIf_false rfl))

section Turn

variable (isEmpty : st.stack = [])

include isEmpty

theorem whileLoop_done (tests : Tests module test 0 st) :
    Performs module (.loop (whileBody test body)) st (.branch 0 st) := by
  have left : Runs module (test ++ [compute .i32Eqz, .brIf 1]) st (.branch 1 st) :=
    runs_test isEmpty tests rfl
  exact loop_branch isEmpty ((left.append_stop rfl _).append_stop rfl _)

theorem whileLoop_test_escapes (runs : Runs module test st res) (escaping : res.escapes = true) :
    Performs module (.loop (whileBody test body)) st res := by
  have endsEarly := Result.isNext_of_escapes escaping
  apply loop_escapes isEmpty _ escaping
  exact ((runs.append_stop endsEarly _).append_stop endsEarly _).append_stop endsEarly _

theorem runs_whileTurn (tests : Tests module test word st) (holds : word ≠ 0)
    (runs : Runs module body st res) :
    Runs module (test ++ [compute .i32Eqz, .brIf 1] ++ body) st res := by
  have entered : Runs module (test ++ [compute .i32Eqz, .brIf 1]) st (.next st) :=
    runs_test isEmpty tests (beq_false_of_ne holds)
  exact entered.append runs

theorem whileLoop_escapes (tests : Tests module test word st) (holds : word ≠ 0)
    (runs : Runs module body st res) (escaping : res.escapes = true) :
    Performs module (.loop (whileBody test body)) st res := by
  have turn := runs_whileTurn isEmpty tests holds runs
  exact loop_escapes isEmpty (turn.append_stop (Result.isNext_of_escapes escaping) _) escaping

theorem whileLoop_again (tests : Tests module test word st) (holds : word ≠ 0)
    (runs : Runs module body st (.next mid)) (stillEmpty : mid.stack = [])
    (again : Performs module (.loop (whileBody test body)) mid res) :
    Performs module (.loop (whileBody test body)) st res := by
  have turn := (runs_whileTurn isEmpty tests holds runs).append (.stop (.br 0 _) rfl [])
  rw [← with_empty_stack isEmpty] at turn
  apply Performs.loop_again turn
  rw [isEmpty, with_empty_stack stillEmpty]
  exact again

end Turn

end Conditions

section Whole

variable {st : State}

theorem repeating_next (isEmpty : st.stack = [])
    (performs : Performs module (.loop code) st (.branch 0 post))
    (stillEmpty : post.stack = []) : Runs module [repeating code] st (.next post) := by
  rw [← with_empty_stack isEmpty] at performs
  have blocked := Performs.block (.stop performs rfl [])
  rw [isEmpty] at blocked
  have left : Result.leave [] (.branch 0 post) = .next post := by
    rw [Result.leave, with_empty_stack stillEmpty]
  rw [left] at blocked
  exact .single blocked

theorem repeating_escapes (isEmpty : st.stack = []) (performs : Performs module (.loop code) st res)
    (escaping : res.escapes = true) : Runs module [repeating code] st res := by
  have endsEarly := Result.isNext_of_escapes escaping
  rw [← with_empty_stack isEmpty] at performs
  have blocked := Performs.block (.stop performs endsEarly [])
  rw [Result.leave_of_escapes escaping] at blocked
  exact .stop blocked endsEarly []

end Whole

end Imperative.Lowering
