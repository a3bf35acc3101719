import Imperative.Proofs.Wasm.Machine

/-!
# Runs

More fuel never changes how code ends, so the result is determined, and there is one rule for each
way in which code is put together.
-/

namespace Imperative.Wasm

variable {rest : List Value} {index : Nat} {res : Result} {st : State}

namespace Result

def isNext : Result → Bool
  | next _ => true
  | _ => false

def escapes : Result → Bool
  | returned _ | trapped _ => true
  | _ => false

theorem isNext_of_escapes (escaping : res.escapes = true) : res.isNext = false := by
  cases res <;> first | rfl | cases escaping

theorem leave_of_escapes (escaping : res.escapes = true) : res.leave stack = res := by
  cases res <;> first | rfl | cases escaping

@[simp]
theorem andThen_next (st : State) (next : State → Result) :
    (Result.next st).andThen next = next st := rfl

theorem andThen_of_not_next (endsEarly : res.isNext = false) (next : State → Result) :
    res.andThen next = res := by
  cases res with
  | next => cases endsEarly
  | branch | returned | trapped | stuck | exhausted => rfl

theorem ne_exhausted_of_andThen {next : State → Result} (ends : res.andThen next ≠ .exhausted) :
    res ≠ .exhausted := by
  rintro rfl
  exact ends rfl

theorem ne_exhausted_of_leave (ends : res.leave stack ≠ .exhausted) : res ≠ .exhausted := by
  rintro rfl
  exact ends rfl

theorem leave_ne_exhausted (ends : res ≠ .exhausted) : res.leave stack ≠ .exhausted := by
  intro exhausted
  cases res with
  | branch label st => cases label <;> cases exhausted
  | next | returned | trapped | stuck => cases exhausted
  | exhausted => exact ends rfl

theorem ne_exhausted_of_giveBack
    (ends : res.giveBack caller below results ≠ .exhausted) : res ≠ .exhausted := by
  rintro rfl
  exact ends rfl

end Result

variable {module : Module}

theorem run_succ :
    (∀ code st, runCode module fuel code st ≠ .exhausted →
      runCode module (fuel + 1) code st = runCode module fuel code st) ∧
    (∀ instr st, runInstruction module fuel instr st ≠ .exhausted →
      runInstruction module (fuel + 1) instr st = runInstruction module fuel instr st) := by
  induction fuel with
  | zero =>
    constructor
    · intro code st ends
      exact absurd (by rw [runCode]) ends
    · intro instr st ends
      exact absurd (by rw [runInstruction]) ends
  | succ fuel ih =>
    rcases ih with ⟨codeKept, instrKept⟩
    constructor
    · intro code st ends
      cases code with
      | nil => simp only [runCode]
      | cons first rest =>
        rw [runCode] at ends
        rw [runCode, runCode, instrKept first st (Result.ne_exhausted_of_andThen ends)]
        cases res : runInstruction module fuel first st with
        | next mid =>
          rw [res] at ends
          exact codeKept rest mid ends
        | branch | returned | trapped | stuck | exhausted => rfl
    · intro instr st ends
      cases instr with
      | block body =>
        rw [runInstruction, runInstruction, codeKept body _ (Result.ne_exhausted_of_leave ends)]
      | loop body =>
        rw [runInstruction] at ends
        rw [runInstruction, runInstruction]
        have bodyEnds : runCode module fuel body { st with stack := [] } ≠ .exhausted := by
          intro exhausted
          rw [exhausted] at ends
          exact ends rfl
        rw [codeKept body _ bodyEnds]
        split
        · next post branched =>
          rw [branched] at ends
          exact instrKept (.loop body) _ ends
        · rfl
      | conditional consequent alternative =>
        rw [runInstruction] at ends
        rw [runInstruction, runInstruction]
        split
        · next test rest isStack =>
          rw [isStack] at ends
          dsimp only
          rw [codeKept _ _ (Result.ne_exhausted_of_leave ends)]
        · rfl
      | call index =>
        rw [runInstruction] at ends
        rw [runInstruction, runInstruction]
        split
        · rfl
        · next type isType =>
          rw [isType] at ends
          dsimp only at ends ⊢
          split
          · rfl
          · next isDefined =>
            rw [if_neg isDefined] at ends
            split
            · rfl
            · next function isFunction =>
              rw [isFunction] at ends
              rw [codeKept _ _ (Result.ne_exhausted_of_giveBack ends)]
      | unreachable | nop | br | brIf | ret | drop | localGet | localSet | globalGet
      | globalSet | load | store | i32Const | f64Const | numeric => simp only [runInstruction]

theorem runCode_mono (enough : fuel ≤ more) (ends : runCode module fuel code st ≠ .exhausted) :
    runCode module more code st = runCode module fuel code st := by
  induction enough with
  | refl => rfl
  | step _ ih => rw [run_succ.1 code st (by rwa [ih]), ih]

theorem runInstruction_mono (enough : fuel ≤ more)
    (ends : runInstruction module fuel instr st ≠ .exhausted) :
    runInstruction module more instr st = runInstruction module fuel instr st := by
  induction enough with
  | refl => rfl
  | step _ ih => rw [run_succ.2 instr st (by rwa [ih]), ih]

/-- The code ends in the result, with enough fuel. -/
def Runs (module : Module) (code : Code) (st : State) (res : Result) : Prop :=
  res ≠ .exhausted ∧ ∃ fuel, runCode module fuel code st = res

def Performs (module : Module) (instr : Instruction) (st : State) (res : Result) : Prop :=
  res ≠ .exhausted ∧ ∃ fuel, runInstruction module fuel instr st = res

theorem Runs.unique (runsFirst : Runs module code st first)
    (runsSecond : Runs module code st second) :
    first = second := by
  rcases runsFirst with ⟨firstEnds, fuel, rfl⟩
  rcases runsSecond with ⟨secondEnds, other, rfl⟩
  rw [← runCode_mono (Nat.le_max_left fuel other) firstEnds,
    ← runCode_mono (Nat.le_max_right fuel other) secondEnds]

section Rules

variable {first rest : Code}

theorem Runs.nil : Runs module [] st (.next st) := ⟨nofun, 1, by rw [runCode]⟩

theorem Runs.cons (performs : Performs module instr st (.next mid))
    (runs : Runs module rest mid res) : Runs module (instr :: rest) st res := by
  rcases performs with ⟨headEnds, fuel, isHead⟩
  rcases runs with ⟨restEnds, other, isRest⟩
  refine ⟨restEnds, max fuel other + 1, ?_⟩
  rw [runCode, runInstruction_mono (Nat.le_max_left fuel other) (by rwa [isHead]), isHead,
    Result.andThen_next, runCode_mono (Nat.le_max_right fuel other) (by rwa [isRest]), isRest]

theorem Runs.stop (performs : Performs module instr st res)
    (endsEarly : res.isNext = false) (rest : Code) : Runs module (instr :: rest) st res := by
  rcases performs with ⟨ends, fuel, isHead⟩
  refine ⟨ends, fuel + 1, ?_⟩
  rw [runCode, isHead, Result.andThen_of_not_next endsEarly]

theorem runs_cons_iff :
    Runs module (instr :: rest) st res ↔
      (∃ mid, Performs module instr st (.next mid) ∧ Runs module rest mid res) ∨
      (Performs module instr st res ∧ res.isNext = false) := by
  constructor
  · rintro ⟨ends, fuel, isResult⟩
    cases fuel with
    | zero => exact absurd isResult.symm ends
    | succ fuel =>
      rw [runCode] at isResult
      cases isHead : runInstruction module fuel instr st with
      | next mid =>
        rw [isHead] at isResult
        exact .inl ⟨mid, ⟨nofun, fuel, isHead⟩, ends, fuel, isResult⟩
      | branch | returned | trapped | stuck | exhausted =>
        rw [isHead] at isResult
        subst isResult
        exact .inr ⟨⟨ends, fuel, isHead⟩, rfl⟩
  · rintro (⟨mid, performs, runs⟩ | ⟨performs, endsEarly⟩)
    · exact .cons performs runs
    · exact .stop performs endsEarly rest

theorem Runs.append (runsFirst : Runs module first st (.next mid))
    (runsSecond : Runs module second mid res) : Runs module (first ++ second) st res := by
  induction first generalizing st with
  | nil =>
    obtain rfl : mid = st := by
      have same := runsFirst.unique .nil
      injection same
    exact runsSecond
  | cons instr rest ih =>
    rcases runs_cons_iff.mp runsFirst with ⟨next, performs, runs⟩ | ⟨-, endsEarly⟩
    · exact .cons performs (ih runs)
    · cases endsEarly

theorem Runs.append_stop (runs : Runs module first st res) (endsEarly : res.isNext = false)
    (second : Code) : Runs module (first ++ second) st res := by
  induction first generalizing st with
  | nil =>
    have same := runs.unique .nil
    subst same
    cases endsEarly
  | cons instr rest ih =>
    rcases runs_cons_iff.mp runs with ⟨mid, performs, restRuns⟩ | ⟨performs, -⟩
    · exact .cons performs (ih restRuns)
    · exact .stop performs endsEarly _

theorem Runs.single (performs : Performs module instr st res) : Runs module [instr] st res := by
  cases res with
  | next mid => exact .cons performs .nil
  | branch | returned | trapped | stuck | exhausted => exact .stop performs rfl []

end Rules

def Instruction.isSimple : Instruction → Bool
  | .block _ | .loop _ | .conditional _ _ | .call _ => false
  | _ => true

theorem computeValue_ne_exhausted : computeValue operation st ≠ .exhausted := by
  simp only [computeValue]
  split <;> nofun

theorem loadValue_ne_exhausted : loadValue type access st ≠ .exhausted := by
  simp only [loadValue]
  split
  · split <;> nofun
  · nofun

theorem storeValue_ne_exhausted : storeValue type access st ≠ .exhausted := by
  simp only [storeValue]
  split
  · split <;> nofun
  · split <;> nofun
  · nofun

theorem performSimple_ne_exhausted : performSimple instr st ≠ .exhausted := by
  cases instr with
  | numeric operation => exact computeValue_ne_exhausted
  | load type access => exact loadValue_ne_exhausted
  | store type access => exact storeValue_ne_exhausted
  | brIf label =>
    simp only [performSimple]
    split
    · split <;> nofun
    · nofun
  | localSet index | globalSet index =>
    simp only [performSimple]
    split
    · split <;> nofun
    · nofun
  | drop | localGet | globalGet =>
    simp only [performSimple]
    split <;> nofun
  | unreachable | nop | br | ret | i32Const | f64Const | block | loop | conditional | call => nofun

theorem Performs.of_simple (isSimple : instr.isSimple = true)
    (isResult : performSimple instr st = res) : Performs module instr st res := by
  subst isResult
  refine ⟨performSimple_ne_exhausted, 1, ?_⟩
  cases instr with
  | block | loop | conditional | call => cases isSimple
  | unreachable | nop | br | brIf | ret | drop | localGet | localSet | globalGet | globalSet
  | load | store | i32Const | f64Const | numeric => simp only [runInstruction]

namespace Performs

theorem localGet (found : st.locals[index]? = some val) :
    Performs module (.localGet index) st (.next { st with stack := val :: st.stack }) :=
  of_simple rfl (by simp only [performSimple, found])

theorem localSet (inBounds : index < st.locals.length) (isStack : st.stack = val :: rest) :
    Performs module (.localSet index) st
      (.next { st with stack := rest, locals := st.locals.set index val }) :=
  of_simple rfl (by simp only [performSimple, isStack, if_pos inBounds])

theorem globalGet (found : st.globals[index]? = some val) :
    Performs module (.globalGet index) st (.next { st with stack := val :: st.stack }) :=
  of_simple rfl (by simp only [performSimple, found])

theorem globalSet (inBounds : index < st.globals.length) (isStack : st.stack = val :: rest) :
    Performs module (.globalSet index) st
      (.next { st with stack := rest, globals := st.globals.set index val }) :=
  of_simple rfl (by simp only [performSimple, isStack, if_pos inBounds])

theorem i32Const {val : Int32} :
    Performs module (.i32Const val) st (.next { st with stack := .i32 val :: st.stack }) :=
  of_simple rfl rfl

theorem drop (isStack : st.stack = val :: rest) :
    Performs module .drop st (.next { st with stack := rest }) :=
  of_simple rfl (by simp only [performSimple, isStack])

theorem unreachable : Performs module .unreachable st (.trapped st.calls) :=
  of_simple rfl rfl

theorem ret : Performs module .ret st (.returned st) := of_simple rfl rfl

theorem br (label : Nat) (st : State) : Performs module (.br label) st (.branch label st) :=
  of_simple rfl rfl

theorem brIf_true (isStack : st.stack = .ofBool true :: rest) :
    Performs module (.brIf label) st (.branch label { st with stack := rest }) :=
  of_simple rfl (by simp [performSimple, isStack, Value.ofBool])

theorem brIf_false (isStack : st.stack = .ofBool false :: rest) :
    Performs module (.brIf label) st (.next { st with stack := rest }) :=
  of_simple rfl (by simp [performSimple, isStack, Value.ofBool])

theorem binary (arity : operation.signature.1.length = 2)
    (isStack : st.stack = right :: left :: rest) {res : Value}
    (gives : operation.apply [left, right] = .value res) :
    Performs module (.numeric operation) st (.next { st with stack := res :: rest }) :=
  of_simple rfl (by simp [performSimple, computeValue, arity, isStack, gives])

theorem binary_trap (arity : operation.signature.1.length = 2)
    (isStack : st.stack = right :: left :: rest) (gives : operation.apply [left, right] = .trap) :
    Performs module (.numeric operation) st (.trapped st.calls) :=
  of_simple rfl (by simp [performSimple, computeValue, arity, isStack, gives])

theorem i32Eqz {val : Int32} (isStack : st.stack = .i32 val :: rest) :
    Performs module (.numeric .i32Eqz) st (.next { st with stack := .ofBool (val == 0) :: rest }) :=
  of_simple rfl (by simp [performSimple, computeValue, Numeric.signature, Numeric.apply, isStack])

section Blocks

variable {body consequent alternative : Code}

theorem block (runs : Runs module body { st with stack := [] } res) :
    Performs module (.block body) st (res.leave st.stack) := by
  rcases runs with ⟨ends, fuel, isResult⟩
  refine ⟨Result.leave_ne_exhausted ends, fuel + 1, ?_⟩
  rw [runInstruction, isResult]

theorem loop_exit (runs : Runs module body { st with stack := [] } res)
    (leaves : ∀ post, res ≠ .branch 0 post) :
    Performs module (.loop body) st (res.leave st.stack) := by
  rcases runs with ⟨ends, fuel, isResult⟩
  refine ⟨Result.leave_ne_exhausted ends, fuel + 1, ?_⟩
  rw [runInstruction, isResult]
  split
  · next post => exact absurd rfl (leaves post)
  · rfl

theorem loop_again (runs : Runs module body { st with stack := [] } (.branch 0 post))
    (again : Performs module (.loop body) { post with stack := st.stack } res) :
    Performs module (.loop body) st res := by
  rcases runs with ⟨bodyEnds, fuel, isBranch⟩
  rcases again with ⟨ends, other, isResult⟩
  refine ⟨ends, max fuel other + 1, ?_⟩
  rw [runInstruction, runCode_mono (Nat.le_max_left fuel other) (by rwa [isBranch]), isBranch]
  show runInstruction module _ (.loop body) { post with stack := st.stack } = res
  rw [runInstruction_mono (Nat.le_max_right fuel other) (by rwa [isResult]), isResult]

theorem conditional (isStack : st.stack = .i32 test :: rest)
    (runs : Runs module (if test = 0 then alternative else consequent) { st with stack := [] }
      res) :
    Performs module (.conditional consequent alternative) st (res.leave rest) := by
  rcases runs with ⟨ends, fuel, isResult⟩
  refine ⟨Result.leave_ne_exhausted ends, fuel + 1, ?_⟩
  rw [runInstruction, isStack]
  dsimp only
  rw [isResult]

theorem call_import (isImport : index < module.imports.length)
    (isType : module.functionType? index = some { parameters := [param], results := [] })
    (isStack : st.stack = val :: rest) :
    Performs module (.call index) st
      (.next { st with stack := rest, calls := st.calls ++ [⟨index, [val]⟩] }) := by
  refine ⟨nofun, 1, ?_⟩
  rw [runInstruction, isType]
  simp [isImport, isStack]

end Blocks

end Performs

mutual

/-- The locals that the instruction sets, or one inside of it. -/
@[simp]
def Instruction.sets : Instruction → List Nat
  | .localSet index => [index]
  | .block body => codeSets body
  | .loop body => codeSets body
  | .conditional consequent alternative => codeSets consequent ++ codeSets alternative
  | _ => []

/-- The locals that the code sets, at any depth. -/
@[simp]
def codeSets : List Instruction → List Nat
  | [] => []
  | first :: rest => first.sets ++ codeSets rest

end

@[simp]
theorem codeSets_append : codeSets (first ++ second) = codeSets first ++ codeSets second := by
  induction first with
  | nil => rfl
  | cons instr rest ih => simp [ih]

end Imperative.Wasm
