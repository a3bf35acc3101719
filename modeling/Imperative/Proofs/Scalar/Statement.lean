import Imperative.Proofs.Scalar.Simulation

/-!
# The code of scalar statements is correct

The proof is by induction on the statement, for any fuel.  A loop is followed turn by turn: while
its body runs, its counter and its bound are pinned.
-/

namespace Imperative.Scalar

open Simulates

open Lowering (Advances Counting Frame RangeLocals Workspace bind_of_ok bind_ok coerce inFrame_ok
  isDone isPast itemCode lift_ok nextCounter printInteger printStatement pure_ok rangeCode
  returnStatement)
open Wasm (Code Module Performs Result Runs State Value)

variable {code : Code}

/-! ## Ranges -/

def counted (counter bound : Int32) : Direction → List Int32
  | .forward => ascending counter bound
  | .reverse => (ascending bound counter).reverse

theorem ascending_of_lt (empty : last < first) : ascending first last = [] := by
  have less := Int32.lt_iff_toInt_lt.mp empty
  have noVals : (last.toInt - first.toInt + 1).toNat = 0 := by omega
  rw [ascending, noVals]
  rfl

theorem ascending_self : ascending val val = [val] := by
  simp [ascending]

theorem ascending_cons (below : first < last) :
    ascending first last = first :: ascending (first + 1) last := by
  have less := Int32.lt_iff_toInt_lt.mp below
  have oneMore : (last.toInt - first.toInt + 1).toNat =
      (last.toInt - (first + 1).toInt + 1).toNat + 1 := by
    rw [Lowering.toInt_succ below]
    omega
  rw [ascending, oneMore, List.range_succ_eq_map, List.map_cons, List.map_map, ascending]
  congr 1
  · simp
  · apply List.map_congr_left
    intro distance _
    show Int32.ofInt (first.toInt + ((distance + 1 : Nat) : Int)) = _
    congr 1
    omega

theorem ascending_concat (below : first < last) :
    ascending first last = ascending first (last - 1) ++ [last] := by
  have less := Int32.lt_iff_toInt_lt.mp below
  have oneMore : (last.toInt - first.toInt + 1).toNat =
      ((last - 1).toInt - first.toInt + 1).toNat + 1 := by
    rw [Lowering.toInt_pred below]
    omega
  rw [ascending, oneMore, List.range_succ, List.map_append, ascending]
  congr 1
  rw [Lowering.toInt_pred below, List.map_singleton]
  have isLast : first.toInt + ((last.toInt - 1 - first.toInt + 1).toNat : Int) = last.toInt := by
    omega
  rw [isLast, Int32.ofInt_toInt]

theorem counted_past (past : isPast counter bound dir = true) : counted counter bound dir = [] := by
  cases dir with
  | forward => exact ascending_of_lt (of_decide_eq_true past)
  | reverse =>
    rw [counted, ascending_of_lt (of_decide_eq_true past)]
    rfl

theorem counted_done (notPast : isPast counter bound dir = false)
    (done : isDone counter bound dir = true) : counted counter bound dir = [counter] := by
  have same : counter = bound := by
    cases dir with
    | forward =>
      exact Int32.le_antisymm (Int32.not_lt.mp (of_decide_eq_false notPast))
        (of_decide_eq_true done)
    | reverse =>
      exact Int32.le_antisymm (of_decide_eq_true done)
        (Int32.not_lt.mp (of_decide_eq_false notPast))
  subst same
  cases dir <;> simp [counted, ascending_self]

theorem counted_step (notDone : isDone counter bound dir = false) :
    counted counter bound dir = counter :: counted (nextCounter counter dir) bound dir := by
  cases dir with
  | forward => exact ascending_cons (Int32.not_le.mp (of_decide_eq_false notDone))
  | reverse =>
    simp [counted, nextCounter, ascending_concat (Int32.not_le.mp (of_decide_eq_false notDone))]

/-! ## Simple statements -/

/-- The module imports the function that prints integers. -/
structure Printing (module : Module) : Prop where
  isImport : printInteger < module.imports.length
  type : module.functionType? printInteger = some { parameters := [.i32], results := [] }

/-- However much fuel there is, the code ends like what is run, in the scope of the cells. -/
def Setting.Correct (setting : Setting) (outer : Outer) (module : Module)
    (cells : List (String × Cell)) (pre post : Frame) (code : Code)
    (run : Nat → Store → Outcome) : Prop :=
  ∀ ⦃fuel : Nat⦄ ⦃base : State⦄ ⦃store : Store⦄ ⦃st : State⦄, post.size ≤ base.locals.length →
    Mirrors outer base setting.cells store st →
    Simulates outer base cells (Pinned setting.cells pre) module code st (run fuel store)

theorem Setting.Correct.of_succ {setting : Setting} {cells : List (String × Cell)}
    (goesOn : ∀ fuel base store st, post.size ≤ base.locals.length →
      Mirrors outer base setting.cells store st →
      Simulates outer base cells (Pinned setting.cells pre) module code st (run (fuel + 1) store))
    (exhausts : ∀ store, run 0 store = .exhausted := by exact fun _ => rfl) :
    setting.Correct outer module cells pre post code run := by
  intro fuel base store st enough mirrors
  cases fuel with
  | zero => exact fun ends => absurd (exhausts store) ends
  | succ fuel => exact goesOn fuel base store st enough mirrors

section Statements

variable {outer : Outer} {res : Option Kind} {base : State} {module : Module} {setting : Setting}
    {pre : Frame} {store : Store} {st : State}

theorem runs_set {datum : Datum} (isStack : st.stack = .i32 datum.word :: rest)
    (inBounds : slot < st.locals.length) :
    Runs module (coerce datum.kind.type tgt.type ++ [.localSet slot]) st
      (.next { st with
        stack := rest
        locals := st.locals.set slot (.i32 (datum.as tgt).word) }) := by
  refine (runs_coerce isStack).append (.single (.localSet ?_ rfl))
  exact inBounds

/-- The instruction gives the value on the stack to the variable. -/
def Setting.Assigns (setting : Setting) (outer : Outer) (module : Module) (pre : Frame)
    (instr : Wasm.Instruction) (name : String) (tgt : Kind) : Prop :=
  ∀ ⦃base store st⦄, Mirrors outer base setting.cells store st → ∀ datum : Datum,
    ∃ post mid, store.assign name datum = some post ∧
      Runs module [instr] { st with stack := .i32 (datum.as tgt).word :: st.stack } (.next mid) ∧
      Mirrors outer base setting.cells post mid ∧ Unchanged (Pinned setting.cells pre) st mid

theorem Setting.Laid.assigns_local (laid : setting.Laid outer res pre)
    (isCell : setting.cells.lookup name = some cell) (notFixed : cell.isFixed = false) :
    setting.Assigns outer module pre (.localSet cell.slot) name cell.kind := by
  intro base store st mirrors datum
  rcases lookup_keeps mirrors.cells with
    ⟨noCell, -⟩ | ⟨found, old, isFound, isLocal, -, holds⟩
  · rw [isCell] at noCell
    cases noCell
  · rw [isCell] at isFound
    cases isFound
    have assigned : store.assign name datum =
        some { store with locals := replace name datum store.locals } := by
      rw [Store.assign, isLocal]
      rfl
    refine ⟨_, _, assigned, .single (.localSet (List.getElem?_eq_some_iff.mp holds).1 rfl), ?_, ?_⟩
    · exact ⟨{ mirrors.agree with }, keeps_replace mirrors.cells laid.distinct isCell,
        List.length_set.trans mirrors.size, mirrors.stack⟩
    · rintro index ⟨-, notAssigned⟩
      exact List.getElem?_set_ne (notAssigned _ (mem_of_lookup isCell) notFixed)

theorem Outer.Sound.assigns_global (sound : outer.Sound)
    (noCell : setting.cells.lookup name = none)
    (isVariable : outer.names name = some (.var tgt.type))
    (isName : outer.order[index]? = some name) :
    setting.Assigns outer module pre (.globalSet index) name tgt := by
  intro base store st mirrors datum
  rcases mirrors.agree.globals index name tgt isName isVariable with ⟨old, isGlobal, rfl, holds⟩
  have noLocal : store.locals.lookup name = none := by
    rcases lookup_keeps mirrors.cells with ⟨-, noLocal⟩ | ⟨cell, datum, isCell, -⟩
    · exact noLocal
    · rw [noCell] at isCell
      cases isCell
  have assigned : store.assign name datum =
      some { store with
        globals := fun other =>
          if other = name then some (datum.as old.kind) else store.globals other } := by
    rw [Store.assign, noLocal, isGlobal]
    rfl
  refine ⟨_, _, assigned, .single (.globalSet (List.getElem?_eq_some_iff.mp holds).1 rfl), ?_,
    fun _ _ => rfl⟩
  have agree := mirrors.agree.setGlobal sound isName isVariable datum
  exact ⟨{ agree with }, mirrors.cells, mirrors.size, mirrors.stack⟩

/-- The step borrows no local, and its code does what is run. -/
def Setting.Simple (setting : Setting) (outer : Outer) (res : Option Kind) (module : Module)
    (step : Lowering.Emit Code) (run : Nat → Store → Outcome) : Prop :=
  ∀ ⦃pre post code⦄, setting.Laid outer res pre → step pre = .ok (code, post) →
    post = pre ∧ setting.Correct outer module setting.cells pre pre code run

section Simple

variable (sound : outer.Sound)

include sound

theorem Setting.Assigns.correct (assigns : setting.Assigns outer module pre instr name tgt)
    (laid : setting.Laid outer res pre) (isScalar : scalarExpr setting.names val = true)
    (isOk : (do
      let (code, type) ← Lowering.expression setting.environment val
      return code ++ coerce type tgt.type ++ [instr]) pre = .ok (code, post)) :
    post = pre ∧ setting.Correct outer module setting.cells pre pre code fun fuel =>
      runStatement res fuel setting.names (.assign span (.name place name) val) := by
  rcases expression_bind (laid.known sound) isScalar isOk with ⟨valCode, kind, computing, isPure⟩
  rcases pure_ok.mp isPure with ⟨rfl, rfl⟩
  refine ⟨rfl, .of_succ fun _ _ _ _ _ mirrors => ?_⟩
  rw [runStatement, List.append_assoc]
  apply demand mirrors.agree (computing _ _ _ (mirrors.reads laid sound))
  rintro datum rfl
  rcases assigns mirrors datum with ⟨post, mid, assigned, runs, postMirrors, unchanged⟩
  rw [assigned]
  exact fun _ => ⟨_, (runs_coerce rfl).append runs, postMirrors, unchanged⟩

theorem assignment_simple (isTgt : scalarTarget setting.names setting.iterators target = true)
    (isScalar : scalarExpr setting.names val = true) :
    setting.Simple outer res module (Lowering.assignment setting.environment span target val)
      fun fuel => runStatement res fuel setting.names (.assign span target val) := by
  intro pre post code laid isOk
  cases target with
  | name place name =>
    simp only [scalarTarget, Bool.and_eq_true, decide_eq_true_eq] at isTgt
    rcases isTgt with ⟨isVariable, notIter⟩
    rcases Option.isSome_iff_exists.mp isVariable with ⟨tgtKind, isTgtKind⟩
    have isVariable := variableKind?_eq_some.mp isTgtKind
    rw [Lowering.assignment] at isOk
    cases isCell : setting.cells.lookup name with
    | some cell =>
      rcases laid.inside name cell tgtKind isCell isVariable with ⟨rfl, isIter⟩
      have emits : Lowering.variableOperand setting.environment place name =
          .ok ([], .place (.slot cell.slot) cell.kind.type) := by
        rw [Lowering.variableOperand, laid.lookup_inside isCell]
        rfl
      rw [bind_of_ok (target_name emits)] at isOk
      exact (laid.assigns_local isCell (Bool.eq_false_iff.mpr (mt isIter notIter))).correct sound
        laid isScalar isOk
    | none =>
      have isOuter := laid.outside name tgtKind isCell isVariable
      rcases sound.placed name tgtKind isOuter with ⟨index, isPlaced, isName⟩
      have emits : Lowering.variableOperand setting.environment place name =
          .ok ([], .place (.global index) tgtKind.type) := by
        rw [Lowering.variableOperand, laid.lookup_outside isCell, isPlaced]
        rfl
      rw [bind_of_ok (target_name emits)] at isOk
      exact (sound.assigns_global isCell isOuter isName).correct sound laid isScalar isOk
  | integer | real | boolean | field | index | call | unary | binary => cases isTgt

theorem return_simple
    (isScalar : scalarStatement res setting.names setting.iterators (.giveBack span val) = true) :
    setting.Simple outer res module (returnStatement setting.environment val) fun fuel =>
      runStatement res fuel setting.names (.giveBack span val) := by
  intro pre post code laid isOk
  cases val with
  | none =>
    rcases pure_ok.mp isOk with ⟨rfl, rfl⟩
    obtain rfl := Option.isNone_iff_eq_none.mp isScalar
    refine ⟨rfl, .of_succ fun _ _ _ st _ mirrors => ?_⟩
    exact fun _ => ⟨_, .single .ret, mirrors.agree, mirrors.stack⟩
  | some val =>
    rw [scalarStatement, Bool.and_eq_true] at isScalar
    rcases Option.isSome_iff_exists.mp isScalar.1 with ⟨tgt, rfl⟩
    rw [returnStatement, laid.result] at isOk
    rcases expression_bind (laid.known sound) isScalar.2 isOk with
      ⟨valCode, kind, computing, isPure⟩
    rcases pure_ok.mp isPure with ⟨rfl, rfl⟩
    refine ⟨rfl, .of_succ fun _ _ _ st _ mirrors => ?_⟩
    rw [runStatement, List.append_assoc]
    apply demand mirrors.agree (computing _ _ _ (mirrors.reads laid sound))
    rintro datum rfl
    refine fun _ => ⟨_, (runs_coerce rfl).append (.single Performs.ret), { mirrors.agree with }, ?_⟩
    rw [mirrors.stack]
    rfl

theorem print_simple (printing : Printing module)
    (areScalar : values.all (scalarExpr setting.names) = true) :
    setting.Simple outer res module (printStatement setting.environment values) fun _ store =>
      printAll store values := by
  intro pre post code laid isOk
  induction values generalizing post code with
  | nil =>
    rcases pure_ok.mp isOk with ⟨rfl, rfl⟩
    exact ⟨rfl, fun _ _ _ st _ mirrors _ => ⟨_, .nil, mirrors, fun _ _ => rfl⟩⟩
  | cons first rest ih =>
    rcases Bool.and_eq_true_iff.mp areScalar with ⟨isScalar, restScalar⟩
    rcases expression_bind (laid.known sound) isScalar isOk with
      ⟨firstCode, kind, computing, isRest⟩
    rcases bind_ok.mp isRest with ⟨function, _, isLifted, afterPrinter⟩
    rcases lift_ok.mp isLifted with ⟨isPrinter, rfl⟩
    rcases bind_ok.mp afterPrinter with ⟨others, mid, isOthers, isPure⟩
    rcases ih restScalar isOthers with ⟨rfl, restCorrect⟩
    rcases pure_ok.mp isPure with ⟨rfl, rfl⟩
    obtain rfl := printer_ok isPrinter
    refine ⟨rfl, fun fuel base store st enough mirrors => ?_⟩
    apply demand mirrors.agree (computing _ _ _ (mirrors.reads laid sound))
    rintro datum rfl
    have printed : Runs module [.call printInteger] { st with stack := .i32 datum.word :: st.stack }
        (.next { st with calls := st.calls ++ [printCall datum.word] }) :=
      .single (Performs.call_import printing.isImport printing.type rfl)
    refine after printed (fun _ _ => rfl) (@restCorrect fuel _ _ _ enough ?_)
      fun _ kept => kept
    exact ⟨mirrors.agree.print, mirrors.cells, mirrors.size, mirrors.stack⟩

end Simple

/-! ## Loops -/

theorem Mirrors.setOther (mirrors : Mirrors outer base setting.cells store st)
    (unused : ∀ cell ∈ setting.cells, cell.2.slot ≠ slot) (val : Value) :
    Mirrors outer base setting.cells store { st with locals := st.locals.set slot val } :=
  ⟨{ mirrors.agree with }, keeps_set_other mirrors.cells unused,
    List.length_set.trans mirrors.size, mirrors.stack⟩

theorem unchanged_set (fresh : ¬ pre.Reserved slot)
    (isSet : post.locals = st.locals.set slot val) : Unchanged (Pinned cells pre) st post := by
  rintro index ⟨isReserved, -⟩
  have different : slot ≠ index := by
    rintro rfl
    exact fresh isReserved
  rw [isSet, List.getElem?_set_ne different]

theorem assignable_iterate {holds : String × Cell → Prop} :
    (∀ cell ∈ (setting.iterate iter slot).cells, cell.2.isFixed = false → holds cell) ↔
      ∀ cell ∈ setting.cells, cell.2.isFixed = false → holds cell := by
  simp [Setting.iterate]

section Turns

theorem whileLoop_simulates (sound : outer.Sound) (computing : setting.Computing testCode kind test)
    (bodyCorrect : setting.Correct outer module setting.cells pre post bodyCode fun fuel =>
      runBlock res fuel setting.names body)
    (laid : setting.Laid outer res pre) (enough : post.size ≤ base.locals.length)
    (mirrors : Mirrors outer base setting.cells store st) :
    SimulatesLoop outer base setting.cells (Pinned setting.cells pre) module
      (Lowering.whileBody testCode bodyCode) st
      (runStatement res fuel setting.names (.whileLoop span test body) store) := by
  induction fuel generalizing store st with
  | zero => exact fun ends => absurd rfl ends
  | succ fuel ih =>
    rw [runStatement]
    rcases computing module store.lookup st (mirrors.reads laid sound) with ⟨-, leaves⟩
    change Leaves _ _ _ (Datum.word <$> store.evaluate test) at leaves
    cases tested : store.evaluate test with
    | error fault =>
      rw [tested] at leaves
      cases fault with
      | trap =>
        intro _
        exact .inr ⟨_, Lowering.whileLoop_test_escapes mirrors.stack leaves rfl, rfl,
          mirrors.agree.calls⟩
      | stuck => exact leaves.elim
    | ok datum =>
      rw [tested] at leaves
      show SimulatesLoop _ _ _ _ _ _ _ (if datum.truth = true then _ else _)
      have tests : Lowering.Tests module testCode datum.word st := leaves
      rw [Datum.truth_eq]
      by_cases isZero : datum.word = 0
      · rw [isZero] at tests ⊢
        intro _
        exact .inl ⟨store, st, rfl, Lowering.whileLoop_done mirrors.stack tests, mirrors,
          fun _ _ => rfl⟩
      · rw [if_pos (bne_iff_ne.mpr isZero)]
        refine .turn (bodyCorrect enough mirrors) ?_ ?_
        · intro ending runs escaping
          exact Lowering.whileLoop_escapes mirrors.stack tests isZero runs escaping
        · intro later mid runs laterMirrors unchanged
          refine .after unchanged ?_ (ih laterMirrors)
          intro ending performs
          exact Lowering.whileLoop_again mirrors.stack tests isZero runs laterMirrors.stack performs

section Ranges

variable {locals : RangeLocals} {counting bounded : Frame}
    (laid : setting.Laid outer res pre)
    (givesCounter : pre.Gives counting locals.counter)
    (givesBound : counting.Gives bounded locals.bound)

include laid givesCounter givesBound

theorem pinned_range :
    Pinned (setting.iterate iter locals.counter).cells bounded locals.counter ∧
      Pinned (setting.iterate iter locals.counter).cells bounded locals.bound :=
  ⟨⟨givesBound.grows.reserved _ givesCounter.reserved,
      assignable_iterate.mpr fun cell mem _ => laid.unused givesCounter.fresh cell mem⟩,
    ⟨givesBound.reserved, assignable_iterate.mpr fun cell mem _ =>
      (laid.grow givesCounter.advances).unused givesBound.fresh cell mem⟩⟩

omit laid in
theorem pinned_iterate (pinned : Pinned setting.cells pre index) :
    Pinned (setting.iterate iter locals.counter).cells bounded index :=
  ⟨(givesCounter.grows.trans givesBound.grows).reserved index pinned.1,
    assignable_iterate.mpr pinned.2⟩

theorem rangeLoop_simulates
    (bodyCorrect : (setting.iterate iter locals.counter).Correct outer module
      (setting.iterate iter locals.counter).cells bounded last bodyCode fun fuel =>
        runBlock res fuel (setting.iterate iter locals.counter).names body)
    (enough : last.size ≤ base.locals.length) (mirrors : Mirrors outer base setting.cells store st)
    (isCounting : Counting locals counter bound st) :
    SimulatesLoop outer base setting.cells (Pinned setting.cells pre) module
      (Lowering.rangeBody locals dir bodyCode) st
      (runRange res fuel setting.names iter (counted counter bound dir) body store) := by
  induction fuel generalizing store st counter with
  | zero => exact fun ends => absurd rfl ends
  | succ fuel ih =>
    cases notPast : isPast counter bound dir with
    | true =>
      rw [counted_past notPast, runRange]
      intro _
      exact .inl ⟨store, st, rfl, Lowering.rangeLoop_past isCounting notPast, mirrors,
        fun _ _ => rfl⟩
    | false =>
      have innerMirrors : Mirrors outer base (setting.iterate iter locals.counter).cells
          (store.declare iter (.integer counter)) st :=
        ⟨{ mirrors.agree with }, .cons ⟨rfl, rfl, isCounting.counter⟩ mirrors.cells, mirrors.size,
          mirrors.stack⟩
      have turn := leave [_] (@bodyCorrect fuel _ _ _ enough innerMirrors)
      rw [mirrors.cells.length_eq] at turn
      have stillCounting {mid : State} (isEmpty : mid.stack = [])
          (unchanged : Unchanged
            (Pinned (setting.iterate iter locals.counter).cells bounded) st mid) :
          Counting locals counter bound mid := by
        rcases pinned_range laid givesCounter givesBound with ⟨counterPinned, boundPinned⟩
        exact ⟨(unchanged _ counterPinned).trans isCounting.counter,
          (unchanged _ boundPinned).trans isCounting.bound, isEmpty⟩
      cases done : isDone counter bound dir with
      | true =>
        rw [counted_done notPast done, runRange]
        refine .turn turn (fun ending => Lowering.rangeLoop_escapes isCounting notPast) ?_
        intro later mid runs laterMirrors unchanged ends
        cases fuel with
        | zero => exact absurd rfl ends
        | succ fuel =>
          refine .inl ⟨later, mid, by rw [runRange], ?_, laterMirrors, ?_⟩
          · exact Lowering.rangeLoop_done isCounting notPast runs
              (stillCounting laterMirrors.stack unchanged) done
          · exact fun index pinned => unchanged index
              (pinned_iterate givesCounter givesBound pinned)
      | false =>
        rw [counted_step done, runRange]
        refine .turn turn (fun ending => Lowering.rangeLoop_escapes isCounting notPast) ?_
        intro later mid runs laterMirrors unchanged
        have counts := stillCounting laterMirrors.stack unchanged
        refine .after ?_
          (fun ending => Lowering.rangeLoop_step isCounting notPast runs counts done)
          (ih (laterMirrors.setOther (laid.unused givesCounter.fresh) _) ⟨?_, ?_, ?_⟩)
        · intro index pinned
          rw [unchanged_set givesCounter.fresh rfl index pinned]
          exact unchanged index (pinned_iterate givesCounter givesBound pinned)
        · exact List.getElem?_set_self (List.getElem?_eq_some_iff.mp counts.counter).1
        · have different : locals.counter ≠ locals.bound := fun same =>
            givesBound.fresh (same ▸ givesCounter.reserved)
          exact (List.getElem?_set_ne different).trans counts.bound
        · exact laterMirrors.stack

omit laid givesCounter givesBound in
/-- Once both ends are in their locals, the loop counts through the values of the range. -/
theorem counting_ends (different : locals.counter ≠ locals.bound)
    {values : List Value} (counterExists : locals.counter < values.length)
    (boundExists : locals.bound < values.length) (isEmpty : st.stack = [])
    (isSet : st.locals = (values.set (rangeEnds locals dir).1 (.i32 first)).set
      (rangeEnds locals dir).2 (.i32 second)) :
    ∃ counter bound, rangeValues first second dir = counted counter bound dir ∧
      Counting locals counter bound st := by
  cases dir with
  | forward =>
    refine ⟨first, second, rfl, ?_, ?_, isEmpty⟩
    · rw [isSet]
      exact (List.getElem?_set_ne different.symm).trans (List.getElem?_set_self counterExists)
    · rw [isSet]
      exact List.getElem?_set_self (by simpa [rangeEnds] using boundExists)
  | reverse =>
    refine ⟨second, first, rfl, ?_, ?_, isEmpty⟩
    · rw [isSet]
      exact List.getElem?_set_self (by simpa [rangeEnds] using counterExists)
    · rw [isSet]
      exact (List.getElem?_set_ne different).trans (List.getElem?_set_self boundExists)

theorem range_correct (span : Span) (dir : Direction) (sound : outer.Sound)
    {firstKind secondKind : Kind} (firstComputing : setting.Computing firstCode firstKind first)
    (secondComputing : setting.Computing secondCode secondKind second)
    (bodyCorrect : (setting.iterate iter locals.counter).Correct outer module
      (setting.iterate iter locals.counter).cells bounded last bodyCode fun fuel =>
        runBlock res fuel (setting.iterate iter locals.counter).names body)
    (advances : Advances bounded last) :
    setting.Correct outer module setting.cells pre last
      (firstCode ++ (setEnd firstKind (rangeEnds locals dir).1 ++
        (secondCode ++ setEnd secondKind (rangeEnds locals dir).2)) ++
          [rangeCode locals dir bodyCode]) fun fuel =>
      runStatement res fuel setting.names (.rangeLoop span iter first second dir body) := by
  refine .of_succ fun fuel base store st enough mirrors => ?_
  have boundFresh : ¬ pre.Reserved locals.bound := fun wasReserved =>
    givesBound.fresh (givesCounter.grows.reserved _ wasReserved)
  have counterExists : locals.counter < base.locals.length :=
    Nat.lt_of_lt_of_le (advances.grows.reserved _
      (givesBound.grows.reserved _ givesCounter.reserved)).1 enough
  have boundExists : locals.bound < base.locals.length :=
    Nat.lt_of_lt_of_le (advances.grows.reserved _ givesBound.reserved).1 enough
  have different : locals.counter ≠ locals.bound := fun same =>
    givesBound.fresh (same ▸ givesCounter.reserved)
  have ends : ∀ slot, slot = locals.counter ∨ slot = locals.bound →
      ¬ pre.Reserved slot ∧ slot < base.locals.length := by
    rintro slot (rfl | rfl)
    · exact ⟨givesCounter.fresh, counterExists⟩
    · exact ⟨boundFresh, boundExists⟩
  have firstEnd := ends (rangeEnds locals dir).1 (by cases dir <;> simp [rangeEnds])
  have secondEnd := ends (rangeEnds locals dir).2 (by cases dir <;> simp [rangeEnds])
  rw [runStatement]
  simp only [List.append_assoc]
  apply demand mirrors.agree (firstComputing _ _ _ (mirrors.reads laid sound))
  rintro firstDatum rfl
  have firstSet := mirrors.setOther (laid.unused firstEnd.1) (.i32 (firstDatum.as .integer).word)
  refine after (runs_set rfl ?_) (unchanged_set firstEnd.1 rfl) ?_ fun _ pinned => pinned
  · exact mirrors.size ▸ firstEnd.2
  apply demand firstSet.agree (secondComputing _ _ _ (firstSet.reads laid sound))
  rintro secondDatum rfl
  have secondSet := firstSet.setOther (laid.unused secondEnd.1)
    (.i32 (secondDatum.as .integer).word)
  refine .after (runs_set rfl ?_) (unchanged_set secondEnd.1 rfl) ?_ fun _ pinned => pinned
  · exact firstSet.size ▸ secondEnd.2
  rw [Lowering.rangeCode_eq]
  refine SimulatesLoop.repeating secondSet.stack ?_
  rcases counting_ends different (mirrors.size ▸ counterExists)
    (mirrors.size ▸ boundExists) secondSet.stack rfl with ⟨counter, bound, sameVals, isCounting⟩
  show SimulatesLoop _ _ _ _ _ _ _ (runRange _ _ _ _
    (rangeValues (firstDatum.as .integer).word (secondDatum.as .integer).word dir) _ _)
  rw [sameVals]
  exact rangeLoop_simulates laid givesCounter givesBound bodyCorrect enough secondSet isCounting

end Ranges

end Turns

end Statements

/-! ## Declarations -/

theorem declaration_correct {setting : Setting} {decl : VarDecl}
    (sound : outer.Sound) (laid : setting.Laid outer res pre)
    (starting : setting.Starting valCode kind decl) (gives : pre.Gives mid slot)
    (advances : Advances mid post)
    (restCorrect : (setting.declare decl.name kind slot).Correct outer module cells mid post others
      fun fuel store =>
        (runItems res fuel (setting.declare decl.name kind slot).names rest store).leave
          cells.length) :
    setting.Correct outer module cells pre post (valCode ++ [.localSet slot] ++ others)
      fun fuel store =>
        (runItems res fuel setting.names (.declaration (.var decl) :: rest) store).leave
          cells.length := by
  refine .of_succ fun fuel base store st enough mirrors => ?_
  rw [runItems, Outcome.leave_demand, List.append_assoc]
  apply demand mirrors.agree (starting _ _ _ (mirrors.reads laid sound))
  rintro datum rfl
  have inBounds : slot < st.locals.length := by
    rw [mirrors.size]
    exact Nat.lt_of_lt_of_le (advances.grows.reserved _ gives.reserved).1 enough
  have declared : Mirrors outer base
      (setting.declare decl.name datum.kind slot).cells (store.declare decl.name datum)
      { st with locals := st.locals.set slot (.i32 datum.word) } := by
    have others := mirrors.setOther (laid.unused gives.fresh) (.i32 datum.word)
    exact ⟨{ mirrors.agree with }, .cons ⟨rfl, rfl, List.getElem?_set_self inBounds⟩ others.cells,
      others.size, mirrors.stack⟩
  refine .after (.single (.localSet ?_ rfl)) (unchanged_set gives.fresh rfl)
    (restCorrect enough declared) ?_
  · exact inBounds
  · rintro index ⟨isReserved, notAssigned⟩
    refine ⟨gives.grows.reserved index isReserved, ?_⟩
    intro cell mem notFixed
    rcases List.mem_cons.mp mem with rfl | older
    · rintro rfl
      exact gives.fresh isReserved
    · exact notAssigned cell older notFixed

/-! ## All statements -/

/-- Whatever frame the step is taken in, its code does what is run, in the scope of the cells. -/
def Setting.Lowers (setting : Setting) (outer : Outer) (res : Option Kind) (module : Module)
    (cells : List (String × Cell)) (step : Lowering.Lower Code) (run : Nat → Store → Outcome) :
    Prop :=
  ∀ ⦃pre post code⦄, setting.Laid outer res pre.frame → step pre = .ok (code, post) →
    Advances pre.frame post.frame ∧ setting.Correct outer module cells pre.frame post.frame code run

section Induction

variable {outer : Outer} {res : Option Kind}

variable {setting : Setting} {cells : List (String × Cell)}

theorem Setting.Lowers.bind {next : Code → Lowering.Lower α}
    (lowers : setting.Lowers outer res module cells step run) (laid :
      setting.Laid outer res pre.frame)
    (isOk : (step >>= next) pre = .ok (val, post)) :
    ∃ code mid, Advances pre.frame mid.frame ∧
      setting.Correct outer module cells pre.frame mid.frame code run ∧
      next code mid = .ok (val, post) := by
  rcases bind_ok.mp isOk with ⟨code, mid, isStep, isRest⟩
  rcases lowers laid isStep with ⟨advances, correct⟩
  exact ⟨code, mid, advances, correct, isRest⟩

theorem lowers_nil : setting.Lowers outer res module setting.cells (pure []) fun _ => .normal := by
  intro pre post code laid isOk
  rcases pure_ok.mp isOk with ⟨rfl, rfl⟩
  exact ⟨.refl laid.tidy, fun _ _ _ st _ mirrors _ => ⟨_, .nil, mirrors, fun _ _ => rfl⟩⟩

theorem Setting.Simple.inFrame
    (simple : setting.Simple outer res module step run) :
    setting.Lowers outer res module setting.cells (Lowering.inFrame step) run := by
  intro pre post code laid isOk
  rcases inFrame_ok.mp isOk with ⟨frame, isStep, rfl⟩
  rcases simple laid isStep with ⟨rfl, correct⟩
  exact ⟨.refl laid.tidy, correct⟩

theorem Setting.Lowers.of_succ (lowers : setting.Lowers outer res module cells step run)
    (goesOn : ∀ fuel store, whole (fuel + 1) store = run fuel store)
    (exhausts : ∀ store, whole 0 store = .exhausted := by exact fun _ => rfl) :
    setting.Lowers outer res module cells step whole := by
  intro pre post code laid isOk
  rcases lowers laid isOk with ⟨advances, correct⟩
  refine ⟨advances, .of_succ (fun fuel base store st enough mirrors => ?_) exhausts⟩
  rw [goesOn]
  exact correct enough mirrors

theorem branch_lowers (sound : outer.Sound) (isScalar : scalarExpr setting.names test = true)
    (consequentLowers : setting.Lowers outer res module setting.cells
      (Lowering.block setting.environment consequent) fun fuel =>
        runBlock res fuel setting.names consequent)
    (alternativeLowers : setting.Lowers outer res module setting.cells
      (Lowering.otherwise setting.environment alternative) fun fuel store =>
        match alternative with
        | some alternative => runBlock res fuel setting.names alternative store
        | none => .normal store) :
    setting.Lowers outer res module setting.cells
      (Lowering.statement setting.environment (.branch span test consequent alternative))
        fun fuel =>
        runStatement res fuel setting.names (.branch span test consequent alternative) := by
  intro pre post code laid isOk
  rw [Lowering.branch_eq] at isOk
  rcases condition_bind (laid.known sound) isScalar isOk with ⟨testCode, kind, computing, isRest⟩
  rcases consequentLowers.bind laid isRest with
    ⟨consequentCode, mid, advances, consequentCorrect, isRest⟩
  rcases alternativeLowers.bind (laid.grow advances) isRest with
    ⟨alternativeCode, last, alternativeAdvances, alternativeCorrect, isPure⟩
  rcases pure_ok.mp isPure with ⟨rfl, rfl⟩
  refine ⟨advances.trans alternativeAdvances, .of_succ fun fuel base store st enough mirrors => ?_⟩
  apply demand mirrors.agree (computing _ _ _ (mirrors.reads laid sound))
  rintro datum rfl
  apply conditional mirrors.stack
  rw [Datum.truth_eq]
  by_cases isZero : datum.word = 0
  · rw [if_pos isZero, if_neg (by simp [isZero])]
    exact (alternativeCorrect enough mirrors).imp (Pinned.grow advances.grows)
  · rw [if_neg isZero, if_pos (bne_iff_ne.mpr isZero)]
    exact consequentCorrect (Nat.le_trans alternativeAdvances.grows.size enough) mirrors

mutual

theorem statement_correct (printing : Printing module) (sound : outer.Sound) : (stmt : Statement) →
    {setting : Setting} → (∀ name ∈ stmt.typeNames, DeclaredName name) →
    scalarStatement res setting.names setting.iterators stmt = true →
    setting.Lowers outer res module setting.cells (Lowering.statement setting.environment stmt)
      fun fuel => runStatement res fuel setting.names stmt
  | .assign span target val, setting, _, isScalar => by
    rw [scalarStatement, Bool.and_eq_true] at isScalar
    exact (assignment_simple sound isScalar.1 isScalar.2).inFrame
  | .branch span test consequent none, setting, wellNamed, isScalar => by
    simp only [scalarStatement, Bool.and_true, Bool.and_eq_true] at isScalar
    exact branch_lowers sound isScalar.1 (block_correct printing sound consequent wellNamed
      isScalar.2)
      lowers_nil
  | .branch span test consequent (some alternative), setting, wellNamed, isScalar => by
    simp only [scalarStatement, Bool.and_eq_true] at isScalar
    rcases isScalar with ⟨⟨testScalar, consequentScalar⟩, alternativeScalar⟩
    obtain ⟨consequentNamed, alternativeNamed⟩ := List.forall_mem_append.mp wellNamed
    exact branch_lowers sound testScalar (block_correct printing sound consequent consequentNamed
      consequentScalar)
      (block_correct printing sound alternative alternativeNamed alternativeScalar)
  | .whileLoop span test body, setting, wellNamed, isScalar => by
    intro pre post code laid isOk
    simp only [scalarStatement, Bool.and_eq_true] at isScalar
    rcases condition_bind (laid.known sound) isScalar.1 isOk with
      ⟨testCode, kind, computing, isRest⟩
    rcases (block_correct printing sound body wellNamed isScalar.2).bind laid isRest with
      ⟨bodyCode, mid, advances, correct, isPure⟩
    rcases pure_ok.mp isPure with ⟨rfl, rfl⟩
    refine ⟨advances, fun fuel base store st enough mirrors => ?_⟩
    exact (whileLoop_simulates sound computing correct laid enough mirrors).repeating mirrors.stack
  | .rangeLoop span iter first second dir body, setting, wellNamed, isScalar => by
    intro pre post code laid isOk
    simp only [scalarStatement, Bool.and_eq_true] at isScalar
    rcases isScalar with ⟨⟨firstScalar, secondScalar⟩, bodyScalar⟩
    rcases bind_ok.mp isOk with ⟨⟨setup, locals⟩, _, lowersSetup, isRest⟩
    rcases inFrame_ok.mp lowersSetup with ⟨bounded, isSetup, rfl⟩
    rcases rangeSetup_code (laid.known sound) laid.tidy firstScalar secondScalar isSetup with
      ⟨counting, firstCode, secondCode, firstKind, secondKind, givesCounter, givesBound,
        firstComputing, secondComputing, rfl⟩
    have inner : (setting.iterate iter locals.counter).Laid outer res
        (Workspace.mk bounded pre.memory).frame :=
      (laid.iterate givesCounter).grow givesBound.advances
    rcases (block_correct printing sound body wellNamed bodyScalar).bind inner isRest with
      ⟨bodyCode, last, advances, correct, isReleased⟩
    rcases bind_ok.mp isReleased with ⟨_, _, releases, isPure⟩
    rcases inFrame_ok.mp releases with ⟨freed, isFreed, rfl⟩
    rcases pure_ok.mp isPure with ⟨rfl, rfl⟩
    refine ⟨givesCounter.advances.trans (Lowering.release_keeps givesBound advances isFreed), ?_⟩
    have whole := range_correct laid givesCounter givesBound span dir sound firstComputing
      secondComputing correct advances
    cases isFreed
    exact whole
  | .giveBack span val, setting, _, isScalar => (return_simple sound isScalar).inFrame
  | .print span values, setting, _, isScalar =>
    (print_simple sound printing isScalar).inFrame.of_succ fun _ _ => by rw [runStatement]
  | .empty span, setting, _, _ => lowers_nil.of_succ fun _ _ => by rw [runStatement]
  | .block span inner, setting, wellNamed, isScalar =>
    (block_correct printing sound inner wellNamed isScalar).of_succ fun _ _ => by rw [runStatement]
  | .call _ _ _, _, _, isScalar | .arrayLoop _ _ _ _ _, _, _, isScalar => by
    cases isScalar

theorem block_correct (printing : Printing module) (sound : outer.Sound) : (block : Block) →
    {setting : Setting} → (∀ name ∈ block.typeNames, DeclaredName name) →
    scalarBlock res setting.names setting.iterators block = true →
    setting.Lowers outer res module setting.cells (Lowering.block setting.environment block)
      fun fuel => runBlock res fuel setting.names block
  | .mk span items, setting, wellNamed, isScalar => by
    intro pre post code laid isOk
    rcases items_correct printing sound items wellNamed isScalar List.suffix_rfl laid isOk with
      ⟨advances, correct⟩
    refine ⟨advances, .of_succ fun fuel _ _ _ enough mirrors => ?_⟩
    rw [runBlock, ← mirrors.cells.length_eq]
    exact correct enough mirrors

theorem items_correct (printing : Printing module) (sound : outer.Sound) : (items : List Item) →
    {setting : Setting} → {cells : List (String × Cell)} →
    (∀ name ∈ Block.itemNames items, DeclaredName name) →
    scalarItems res setting.names setting.iterators items = true → cells <:+ setting.cells →
    setting.Lowers outer res module cells (itemCode setting.environment items) fun fuel store =>
      (runItems res fuel setting.names items store).leave cells.length
  | [], setting, cells, _, _, isOuter => by
    intro pre post code laid isOk
    rcases pure_ok.mp isOk with ⟨rfl, rfl⟩
    refine ⟨.refl laid.tidy, .of_succ fun _ _ _ st _ mirrors => ?_⟩
    rcases isOuter with ⟨inner, isSplit⟩
    rw [← isSplit] at mirrors
    exact fun _ => ⟨_, .nil, mirrors.leave, fun _ _ => rfl⟩
  | .declaration (.var decl) :: rest, setting, cells, wellNamed, isScalar, isOuter => by
    intro pre post code laid isOk
    rw [scalarItems] at isScalar
    split at isScalar
    · next kind isKind =>
      obtain ⟨declNamed, restNamed⟩ := List.forall_mem_append.mp wellNamed
      rcases bind_ok.mp isOk with ⟨⟨first, extended⟩, mid, declares, isRest⟩
      rcases declareLocal_code sound laid declNamed isKind declares with
        ⟨slot, valCode, starting, gives, rfl, rfl⟩
      rcases (items_correct printing sound rest restNamed isScalar
        (isOuter.trans (List.suffix_cons _ _))).bind (laid.declare gives) isRest with
        ⟨others, _, advances, correct, isPure⟩
      rcases pure_ok.mp isPure with ⟨rfl, rfl⟩
      exact ⟨gives.advances.trans advances,
        declaration_correct sound laid starting gives advances correct⟩
    · cases isScalar
  | .declaration (.type decl) :: rest, setting, cells, wellNamed, isScalar, isOuter => by
    intro pre post code laid isOk
    rw [scalarItems] at isScalar
    split at isScalar
    · next kind isKind =>
      obtain ⟨declNamed, restNamed⟩ := List.forall_mem_append.mp wellNamed
      have resolves := resolves_of_writtenKind declNamed isKind (some decl.name)
      have sameCells : cells <:+ (setting.defineType decl kind).cells := isOuter
      rcases items_correct printing sound rest restNamed isScalar sameCells
        (laid.defineType resolves) isOk with ⟨advances, correct⟩
      refine ⟨advances, .of_succ fun fuel _ _ _ enough mirrors => ?_⟩
      rw [runItems, resolves.value]
      exact correct enough mirrors
    · cases isScalar
  | .declaration (.routine _) :: _, _, _, _, isScalar, _ => by
    cases isScalar
  | .statement first :: rest, setting, cells, wellNamed, isScalar, isOuter => by
    intro pre post code laid isOk
    rw [scalarItems, Bool.and_eq_true] at isScalar
    obtain ⟨firstNamed, restNamed⟩ := List.forall_mem_append.mp wellNamed
    rcases (statement_correct printing sound first firstNamed isScalar.1).bind laid isOk with
      ⟨firstCode, mid, advances, correct, isRest⟩
    rcases (items_correct printing sound rest restNamed isScalar.2 isOuter).bind
      (laid.grow advances) isRest with ⟨others, _, restAdvances, restCorrect, isPure⟩
    rcases pure_ok.mp isPure with ⟨rfl, rfl⟩
    refine ⟨advances.trans restAdvances, .of_succ fun fuel _ _ _ enough mirrors => ?_⟩
    rw [runItems, Outcome.leave_andThen]
    refine andThen (correct (Nat.le_trans restAdvances.grows.size enough) mirrors) ?_
      (Pinned.grow advances.grows)
    exact fun _ _ laterMirrors _ => restCorrect enough laterMirrors

end

end Induction

end Imperative.Scalar
