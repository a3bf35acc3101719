import Imperative.Proofs.Simplify.Typing
import Imperative.Proofs.Typing.Registration

/-!
# The order of routines

Two declarations under different names are registered independently of each other, and checking a
body leaves nothing behind but reports.
-/

namespace Imperative.Typing

open List

variable {left right st : Analysis} {first second : Routine}

/-- The analyses differ at most in the order of reports and of symbols of the outermost scope. -/
structure Shuffled (left right : Analysis) : Prop where
  scene : left.scene.Alike right.scene
  diagnostics : left.diagnostics.Perm right.diagnostics

theorem Shuffled.trans (shuffled : Shuffled left mid) (further : Shuffled mid right) :
    Shuffled left right :=
  ⟨shuffled.scene.trans further.scene, shuffled.diagnostics.trans further.diagnostics⟩

theorem Shuffled.step {step : Checker α} (shuffled : Shuffled left right)
    (blind : Blind step) : Shuffled (step left).2 (step right).2 := by
  obtain ⟨-, alike, reported, isReported, isReportedOther, -⟩ := blind left right shuffled.scene
  refine ⟨alike, ?_⟩
  rw [isReported, isReportedOther]
  exact shuffled.diagnostics.append_right reported

/-- What is reported for a declaration, first about its types and then about its name. -/
def reportsOf (routine : Routine) (declared : Reported Signature) (existing : Option Symbol) :
    List Diagnostic :=
  declared.problems.map (fun entry => entry.2.toDiagnostic entry.1) ++
    (register routine.name declared.value existing).2.toList.map (·.toDiagnostic routine.span)

/-- Neither of two declarations under different names sees the other one. -/
theorem Registers.both (different : first.name ≠ second.name)
    (registers : Registers first one.value (st.reporting one.problems) mid)
    (further : Registers second other.value (mid.reporting other.problems) post) :
    post.expected = st.expected ∧
      post.symbols.context = .define second.name
        (register second.name other.value (st.symbols.context second.name)).1
          (.define first.name
            (register first.name one.value (st.symbols.context first.name)).1 st.symbols.context) ∧
      post.diagnostics = st.diagnostics ++
        (reportsOf first one (st.symbols.context first.name) ++
          reportsOf second other (st.symbols.context second.name)) := by
  have untouched := congrFun registers.context second.name
  rw [Context.define_other different.symm] at untouched
  have context := further.context
  have diagnostics := further.diagnostics
  simp only [Analysis.reporting] at untouched context diagnostics
  rw [untouched, registers.context] at context
  rw [untouched, registers.diagnostics] at diagnostics
  refine ⟨further.expected.trans registers.expected, context, ?_⟩
  simpa only [reportsOf, Analysis.reporting, append_assoc] using diagnostics

theorem declareRoutine_swap (different : first.name ≠ second.name)
    (outside : st.symbols.inner = []) :
    Shuffled (declareRoutine second (declareRoutine first st).2).2
      (declareRoutine first (declareRoutine second st).2).2 := by
  obtain ⟨firstResult, isFirst⟩ := declareRoutine_registers first
  obtain ⟨secondResult, isSecond⟩ := declareRoutine_registers second
  obtain ⟨-, -, firstAlone⟩ := isFirst st outside
  obtain ⟨-, -, secondAlone⟩ := isSecond st outside
  obtain ⟨-, -, secondAfter⟩ := isSecond _ firstAlone.inner
  obtain ⟨-, -, firstAfter⟩ := isFirst _ secondAlone.inner
  rw [firstAlone.typeNamed_eq] at secondAfter
  rw [secondAlone.typeNamed_eq] at firstAfter
  obtain ⟨expected, context, diagnostics⟩ := firstAlone.both different secondAfter
  obtain ⟨expectedOther, contextOther, diagnosticsOther⟩ :=
    secondAlone.both different.symm firstAfter
  refine ⟨⟨secondAfter.inner.trans firstAfter.inner.symm, fun name => ?_,
    expected.trans expectedOther.symm⟩, ?_⟩
  · refine (SymbolTable.lookupGlobal_eq secondAfter.inner).trans
      (Eq.trans ?_ (SymbolTable.lookupGlobal_eq firstAfter.inner).symm)
    rw [context, contextOther, Context.define_comm different]
    rfl
  · rw [diagnostics, diagnosticsOther]
    exact perm_append_comm.append_left st.diagnostics

theorem checkRoutine_swap :
    Shuffled (checkRoutine second (checkRoutine first st).2).2
      (checkRoutine first (checkRoutine second st).2).2 := by
  have stays (routine : Routine) (pre : Analysis) :
    (checkRoutine routine pre).2.scene = pre.scene :=
    checkRoutine_follows.stays pre
  have blind (routine : Routine) : Blind (checkRoutine routine) :=
    (checkRoutine_records (Outline.all_of_forall (fun _ => trivial) _)).blind
  have alike (routine : Routine) : st.scene.Alike (checkRoutine routine st).2.scene :=
    (stays routine st).symm ▸ .refl
  obtain ⟨-, -, ofFirst, firstAlone, firstAfter, -⟩ := blind first st _ (alike second)
  obtain ⟨-, -, ofSecond, secondAlone, secondAfter, -⟩ := blind second st _ (alike first)
  refine ⟨?_, ?_⟩
  · rw [stays, stays, stays, stays]
    exact .refl
  · rw [firstAfter, secondAfter, firstAlone, secondAlone, append_assoc, append_assoc]
    exact perm_append_comm.append_left st.diagnostics

theorem declareAll_append (earlier later : List Declaration) (st : Analysis) :
    declareAll (earlier ++ later) st = declareAll later (declareAll earlier st).2 := by
  induction earlier generalizing st with
  | nil => rfl
  | cons decl rest ih => cases decl <;> exact ih _

theorem checkAll_append (earlier later : List Declaration) (st : Analysis) :
    checkAll (earlier ++ later) st = checkAll later (checkAll earlier st).2 := by
  induction earlier generalizing st with
  | nil => rfl
  | cons decl rest ih => cases decl <;> exact ih _

/--
The order of routines does not matter to the analysis: a program with two neighbouring routines of
different names gets the same reports, up to their order, when the two are swapped.
-/
theorem routine_order_irrelevant (span : Span) (earlier later : List Declaration)
    (different : first.name ≠ second.name) :
    (Program.analyze ⟨span, earlier ++ .routine first :: .routine second :: later⟩).diagnostics.Perm
      (Program.analyze
        ⟨span, earlier ++ .routine second :: .routine first :: later⟩).diagnostics := by
  have declareBlind (decls : List Declaration) : Blind (declareAll decls) :=
    (declareAll_records (Outline.allIn_of_forall (fun _ => trivial) _)).blind
  have checkBlind (decls : List Declaration) : Blind (checkAll decls) :=
    (checkAll_records (Outline.allIn_of_forall (fun _ => trivial) _)).blind
  have outside := @declareAll_outside Analysis.initial earlier rfl
  have declared := (declareRoutine_swap different outside).step (declareBlind later)
  have started := declared.step (checkBlind earlier)
  have inOrder := started.step (checkBlind [.routine first, .routine second])
  have checked := inOrder.trans checkRoutine_swap
  have finished := checked.step (checkBlind later)
  have whole (one other : Routine) : Program.analyze
      ⟨span, earlier ++ .routine one :: .routine other :: later⟩ =
        (checkAll later (checkRoutine other (checkRoutine one (checkAll earlier
          (declareAll later (declareRoutine other (declareRoutine one
            (declareAll earlier .initial).2).2).2).2).2).2).2).2 := by
    refine congrArg Prod.snd ((checkAll_append ..).trans ?_)
    exact congrArg (fun st : Unit × Analysis => checkAll (.routine one :: .routine other :: later)
      (checkAll earlier st.2).2) (declareAll_append ..)
  rw [whole, whole]
  exact finished.diagnostics

theorem routine_order_irrelevant_mutual :
    let calling (name other : String) : Routine :=
      .mk default name [] (some (.primitive default .integer))
        (some (.expression (.call default other [])))
    (calling "even" "odd").name ≠ (calling "odd" "even").name ∧
      (Program.analyze ⟨default,
          [.routine (calling "even" "odd"), .routine (calling "odd" "even")]⟩).diagnostics.Perm
        (Program.analyze ⟨default,
          [.routine (calling "odd" "even"), .routine (calling "even" "odd")]⟩).diagnostics := by
  intro calling
  have different : (calling "even" "odd").name ≠ (calling "odd" "even").name := by decide
  exact ⟨different, routine_order_irrelevant default [] [] different⟩

end Imperative.Typing
