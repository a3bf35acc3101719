import Imperative.Proofs.Typing.Scene

/-!
# Steps from any state

What a step of the analysis does whether or not a problem is reported: diagnostics are only ever
added, and what becomes of the scene is bounded by a `Reach`.
-/

namespace Imperative.Typing

/-- What a step may change of the scene. -/
inductive Reach where
  | nothing
  | scope
  | everything

namespace Reach

def Allows : Reach → Scene → Scene → Prop
  | nothing, pre, post => post = pre
  | scope, pre, post =>
    pre.symbols.inner ≠ [] →
      post.symbols.leave = pre.symbols.leave ∧ post.symbols.inner ≠ [] ∧
        post.expected = pre.expected
  | everything, _, _ => True

theorem allows_refl (reach : Reach) : reach.Allows scene scene := by
  cases reach with
  | nothing => exact rfl
  | scope => exact fun inside => ⟨rfl, inside, rfl⟩
  | everything => trivial

theorem allows_trans {reach : Reach} (first : reach.Allows pre mid)
    (second : reach.Allows mid post) : reach.Allows pre post := by
  cases reach with
  | nothing => exact second.trans first
  | scope =>
    intro inside
    obtain ⟨firstLeave, midInside, firstExpected⟩ := first inside
    obtain ⟨secondLeave, afterInside, secondExpected⟩ := second midInside
    exact ⟨secondLeave.trans firstLeave, afterInside, secondExpected.trans firstExpected⟩
  | everything => trivial

end Reach

/--
Within its reach `step` only adds diagnostics.  Where it adds none, `other` does the same to the
scene, gives the same value and adds none either.
-/
structure Follows {α : Type} (reach : Reach) (step other : Checker α) : Prop where
  grows : ∀ pre, pre.diagnostics <+: (step pre).2.diagnostics
  stays : ∀ pre, reach.Allows pre.scene (step pre).2.scene
  agrees : ∀ {pre start}, start.scene = pre.scene →
    (step pre).2.diagnostics = pre.diagnostics →
    (other start).2.diagnostics = start.diagnostics ∧ (other start).1 = (step pre).1 ∧
      (other start).2.scene = (step pre).2.scene

/-- The step follows itself. -/
abbrev Repeats {α : Type} (reach : Reach) (step : Checker α) : Prop := Follows reach step step

theorem quiet_of_bind {next : α → Checker β}
    (stepGrows : pre.diagnostics <+: (step pre).2.diagnostics)
    (nextGrows : (step pre).2.diagnostics <+: ((step >>= next) pre).2.diagnostics)
    (quiet : ((step >>= next) pre).2.diagnostics = pre.diagnostics) :
    (step pre).2.diagnostics = pre.diagnostics ∧
      (next (step pre).1 (step pre).2).2.diagnostics = (step pre).2.diagnostics := by
  have first : (step pre).2.diagnostics = pre.diagnostics :=
    (nextGrows.trans (quiet ▸ List.prefix_refl _)).eq_of_length_le stepGrows.length_le
  exact ⟨first, quiet.trans first.symm⟩

namespace Follows

variable {α β : Type} {reach : Reach}

/-- A step that leaves the scene as it is follows itself if the scene decides what it does. -/
theorem of_reading {step : Checker α} (grows : ∀ pre, pre.diagnostics <+: (step pre).2.diagnostics)
    (stays : ∀ pre, (step pre).2.scene = pre.scene)
    (reads : ∀ pre start, start.scene = pre.scene →
      (step pre).2.diagnostics = pre.diagnostics →
      (step start).2.diagnostics = start.diagnostics ∧ (step start).1 = (step pre).1) :
    Follows reach step step where
  grows := grows
  stays pre := (stays pre).symm ▸ reach.allows_refl
  agrees {pre start} sameScene quiet := by
    obtain ⟨startQuiet, sameVal⟩ := reads pre start sameScene quiet
    exact ⟨startQuiet, sameVal, (stays start).trans (sameScene.trans (stays pre).symm)⟩

theorem pure (val : α) : Follows reach (Pure.pure val : Checker α) (Pure.pure val) :=
  of_reading (fun _ => List.prefix_refl _) (fun _ => rfl) fun _ _ _ _ => ⟨rfl, rfl⟩

theorem bind (stepFollows : Follows reach step other)
    (nextFollows : ∀ val, Follows reach (next val) (otherNext val)) :
    Follows reach (step >>= next) (other >>= otherNext) where
  grows pre := (stepFollows.grows pre).trans ((nextFollows _).grows _)
  stays pre := Reach.allows_trans (stepFollows.stays pre) ((nextFollows _).stays _)
  agrees := by
    intro pre start sameScene quiet
    obtain ⟨stepQuiet, nextQuiet⟩ :=
      quiet_of_bind (stepFollows.grows pre) ((nextFollows _).grows _) quiet
    obtain ⟨otherQuiet, sameVal, sameMid⟩ := stepFollows.agrees sameScene stepQuiet
    obtain ⟨restQuiet, sameRes, sameEnd⟩ := (nextFollows _).agrees sameMid nextQuiet
    rw [← sameVal] at restQuiet sameRes sameEnd
    have sameRest : (otherNext (other start).1 (other start).2).1 =
        (next (step pre).1 (step pre).2).1 := by rw [sameRes, sameVal]
    have sameLast : (otherNext (other start).1 (other start).2).2.scene =
        (next (step pre).1 (step pre).2).2.scene := by rw [sameEnd, sameVal]
    exact ⟨restQuiet.trans otherQuiet, sameRest, sameLast⟩

theorem get
    (nextFollows : ∀ st start, start.scene = st.scene → Follows reach (next st) (otherNext start)) :
    Follows reach (MonadState.get >>= next) (MonadState.get >>= otherNext) where
  grows pre := (nextFollows pre pre rfl).grows pre
  stays pre := (nextFollows pre pre rfl).stays pre
  agrees {pre start} sameScene quiet := (nextFollows pre start sameScene).agrees sameScene quiet

theorem ite {cond : Prop} [Decidable cond]
    (consequentFollows : Follows reach consequent otherConsequent)
    (alternativeFollows : Follows reach alternative otherAlternative) :
    Follows reach (if cond then consequent else alternative)
      (if cond then otherConsequent else otherAlternative) := by
  split
  · exact consequentFollows
  · exact alternativeFollows

/-- A step that leaves the scene as it is may be left out, if its value is allowed for. -/
theorem skip {next rest : α → Checker β}
    (stepFollows : Follows .nothing step skipped)
    (nextFollows : ∀ val, Follows reach (next val) (rest val))
    (known : ∀ start, Follows reach (next (skipped start).1) other) :
    Follows reach (step >>= next) other where
  grows pre := (stepFollows.grows pre).trans ((nextFollows _).grows _)
  stays pre := by
    have sameScene : (step pre).2.scene = pre.scene := stepFollows.stays pre
    rw [← sameScene]
    exact (nextFollows _).stays _
  agrees := by
    intro pre start sameScene quiet
    obtain ⟨stepQuiet, nextQuiet⟩ :=
      quiet_of_bind (stepFollows.grows pre) ((nextFollows _).grows _) quiet
    obtain ⟨-, sameVal, -⟩ := stepFollows.agrees sameScene stepQuiet
    have otherFollows := known start
    rw [sameVal] at otherFollows
    exact otherFollows.agrees (sameScene.trans (stepFollows.stays pre).symm) nextQuiet

theorem skipFirst (stepFollows : Follows .nothing step skipped)
    (nextFollows : Follows reach next other) : Follows reach (step >>= fun _ => next) other :=
  stepFollows.skip (fun _ => nextFollows) fun _ => nextFollows

theorem skipLast {step other last skipped : Checker Unit}
    (stepFollows : Follows .nothing step other) (lastFollows : Follows .nothing last skipped) :
    Follows .nothing (step >>= fun _ => last) other where
  grows pre := (stepFollows.grows pre).trans (lastFollows.grows _)
  stays pre := (lastFollows.stays _).trans (stepFollows.stays pre)
  agrees := by
    intro pre start sameScene quiet
    obtain ⟨stepQuiet, -⟩ := quiet_of_bind (stepFollows.grows pre) (lastFollows.grows _) quiet
    obtain ⟨otherQuiet, -, sameEnd⟩ := stepFollows.agrees sameScene stepQuiet
    exact ⟨otherQuiet, rfl, sameEnd.trans (lastFollows.stays _).symm⟩

theorem widen (follows : Follows reach step other) : Follows .everything step other where
  grows := follows.grows
  stays _ := trivial
  agrees := follows.agrees

theorem of_nothing (follows : Follows .nothing step other) : Follows reach step other where
  grows := follows.grows
  stays pre := (show _ = _ from follows.stays pre).symm ▸ reach.allows_refl
  agrees := follows.agrees

end Follows

section Reading

variable {place : Span → Prop} {reach : Reach}

theorem report_follows (span : Span) (problem : Problem) : Repeats reach (report span problem) :=
  .of_reading (fun _ => List.prefix_append _ _) (fun _ => rfl) fun _ _ _ quiet =>
    absurd (List.append_right_eq_self.mp quiet) (List.cons_ne_nil _ _)

theorem report_bind_follows {next skipped : Unit → Checker α}
    (nextFollows : ∀ val, Follows reach (next val) (skipped val)) :
    Follows reach (report span problem >>= next) other := by
  have reportFollows : Repeats reach (report span problem) :=
    report_follows span problem
  have follows := reportFollows.bind nextFollows
  refine ⟨follows.grows, follows.stays, fun _ quiet => ?_⟩
  obtain ⟨reportQuiet, -⟩ := quiet_of_bind (reportFollows.grows _) ((nextFollows ()).grows _) quiet
  exact absurd (List.append_right_eq_self.mp reportQuiet) (List.cons_ne_nil _ _)

/-- The step looks up names, reports problems at places and gives a value. -/
inductive Reads (place : Span → Prop) : {α : Type} → Checker α → Prop where
  | pure {α : Type} (val : α) : Reads place (Pure.pure val)
  | report {span : Span} (placed : place span) (problem : Problem) :
      Reads place (Typing.report span problem)
  | bind {α β : Type} {step : Checker α} {next : α → Checker β} (reads : Reads place step)
      (nextReads : ∀ val, Reads place (next val)) : Reads place (step >>= next)
  | names {α : Type} {next : Context → Checker α} (nextReads : ∀ ctx, Reads place (next ctx)) :
      Reads place (MonadState.get >>= fun st => next st.symbols.context)

theorem Reads.follows (reads : Reads (fun _ => True) step) :
    Follows reach step step := by
  induction reads with
  | pure val => exact .pure val
  | report _ problem => exact report_follows _ problem
  | bind _ _ ih nextIh => exact ih.bind nextIh
  | names _ ih =>
    apply Follows.get
    intro st start sameScene
    injection sameScene with sameSymbols
    rw [sameSymbols]
    exact ih _

theorem reject_reads (placed : place span) :
    Reads place (reject span problem) := (Reads.report placed problem).bind fun _ => .pure _

/-- A step that only happens if its condition holds, and otherwise a problem is reported. -/
theorem unless_reads {next : Unit → Checker α} (placed : place span)
    (nextReads : Reads place (next ())) :
    Reads place (if (!condition) = true then report span problem >>= next else next ()) := by
  split
  · exact (Reads.report placed problem).bind fun _ => nextReads
  · exact nextReads

theorem lookup_reads : Reads place (lookup name) :=
  .names fun ctx => .pure (ctx name)

theorem reportAll_reads {problems : List (Span × Problem)}
    (placed : ∀ entry ∈ problems, place entry.1) :
    Reads place (problems.forM fun (span, problem) => report span problem) := by
  induction problems with
  | nil => exact .pure ()
  | cons first rest ih =>
    obtain ⟨ofFirst, ofRest⟩ := List.forall_mem_cons.mp placed
    exact (Reads.report ofFirst first.2).bind fun _ => ih ofRest

theorem resolveType_reads
    (placed : ∀ lookup, ∀ entry ∈ (resolve lookup hint written).problems, place entry.1) :
    Reads place (resolveType hint written) :=
  .names fun ctx => (reportAll_reads (placed ctx.typeNamed)).bind fun _ =>
    .pure (resolve ctx.typeNamed hint written).value

theorem resolveSilently_reads : Reads place (resolveSilently written) :=
  .names fun ctx => .pure (resolve ctx.typeNamed none written).value

theorem resolveType_follows : Repeats reach (resolveType hint written) :=
  (resolveType_reads fun _ _ _ => trivial).follows

theorem variableType_reads (placed : place span) : Reads place (variableType span name) := by
  apply lookup_reads.bind
  intro found
  split
  · exact .pure _
  · exact reject_reads placed
  · exact reject_reads placed

theorem fieldType_reads (placed : place span) : Reads place (fieldType span recv field) := by
  unfold fieldType
  split
  · split
    · exact .pure _
    · exact reject_reads placed
  · exact .pure _
  · exact reject_reads placed

theorem elementType_reads (placed : place span) : Reads place (elementType span recv) := by
  unfold elementType
  split
  · exact .pure _
  · exact .pure _
  · exact reject_reads placed

theorem checkArguments_reads (pos : Nat) (placed : ∀ entry ∈ found, place entry.1)
    (expected : List Ty) : Reads place (checkArguments pos found expected) := by
  induction found generalizing pos expected with
  | nil => exact .pure ()
  | cons arg rest ih =>
    obtain ⟨ofFirst, ofRest⟩ := List.forall_mem_cons.mp placed
    cases expected with
    | nil => exact .pure ()
    | cons param params =>
      rw [checkArguments]
      exact unless_reads ofFirst (ih (pos + 1) ofRest params)

theorem callType_reads (placed : place span)
    (ofArgs : ∀ entry ∈ args, place entry.1) : Reads place (callType span name args) := by
  apply lookup_reads.bind
  intro found
  split
  · split
    · exact (checkArguments_reads 1 ofArgs _).bind fun _ => .pure _
    · exact reject_reads placed
  · exact reject_reads placed
  · exact reject_reads placed

theorem unaryType_reads (placed : place span) : Reads place (unaryType span op operand) := by
  unfold unaryType
  repeat' split
  all_goals first | exact .pure _ | exact reject_reads placed

theorem binaryType_reads (placed : place span) (op : BinaryOperator) (left right : Ty) :
    Reads place (binaryType span op left right) := by
  unfold binaryType
  split
  · unfold logicalType
    exact unless_reads placed (unless_reads placed (.pure _))
  · repeat' split
    all_goals first | exact .pure _ | exact reject_reads placed

theorem checkIndex_reads (placed : place span) : Reads place (checkIndex span type) :=
  unless_reads placed (.pure ())

theorem variableDeclType_reads (placed : place span) :
    Reads place (variableDeclType span name declared init) := by
  unfold variableDeclType
  split
  · exact unless_reads placed (.pure _)
  · exact .pure _
  · split
    · exact reject_reads placed
    · exact .pure _
  · exact reject_reads placed

theorem record_follows : Repeats reach (record span type) :=
  .of_reading (fun _ => List.prefix_refl _) (fun _ => rfl) fun _ _ _ _ => ⟨rfl, rfl⟩

end Reading

theorem modifySymbols_follows : Repeats .everything (modifySymbols change) where
  grows _ := List.prefix_refl _
  stays _ := trivial
  agrees sameScene _ := by
    injection sameScene with sameSymbols sameExpected
    exact ⟨rfl, rfl, congrArg₂ Scene.mk (congrArg change sameSymbols) sameExpected⟩

theorem setExpected_follows : Repeats .everything (setExpected expected) where
  grows _ := List.prefix_refl _
  stays _ := trivial
  agrees sameScene _ := by
    injection sameScene with sameSymbols
    exact ⟨rfl, rfl, congrArg (Scene.mk · expected) sameSymbols⟩

theorem allows_of_define (defined : pre.symbols.define? name sym = some extended) :
    Reach.scope.Allows pre { pre with symbols := extended } := by
  intro inside
  obtain ⟨leaves, stillInside⟩ := SymbolTable.leave_of_define inside defined
  exact ⟨leaves, stillInside, rfl⟩

theorem define_follows : Repeats .scope (define name sym span problem) := by
  have follows : Repeats .everything (define name sym span problem) := by
    apply Follows.get
    intro st start sameScene
    injection sameScene with sameSymbols
    rw [sameSymbols]
    split
    · exact modifySymbols_follows
    · exact report_follows _ _
  refine ⟨follows.grows, fun pre => ?_, follows.agrees⟩
  rw [define_eq]
  cases defined : pre.symbols.define? name sym with
  | none => exact Reach.allows_refl _
  | some extended =>
    have inScene : pre.scene.symbols.define? name sym = some extended := defined
    exact allows_of_define inScene

theorem defineIterator_follows : Repeats .scope (defineIterator name type) := by
  refine ⟨modifySymbols_follows.grows, fun pre => ?_, modifySymbols_follows.agrees⟩
  change Reach.scope.Allows pre.scene
    { pre.scene with
      symbols := (pre.scene.symbols.define? name (.var type)).getD pre.scene.symbols }
  cases defined : pre.scene.symbols.define? name (.var type) with
  | none => exact Reach.allows_refl _
  | some extended => exact allows_of_define defined

theorem scope_follows (kind : ScopeKind) (follows : Follows .scope step other) :
    Follows .nothing
      (do
        modifySymbols (SymbolTable.enter kind)
        step
        modifySymbols SymbolTable.leave)
      (do
        modifySymbols (SymbolTable.enter kind)
        other
        modifySymbols SymbolTable.leave) where
  grows := (modifySymbols_follows.bind fun _ => follows.widen.bind fun _ =>
    modifySymbols_follows).grows
  stays pre := by
    obtain ⟨leaves, -, expected⟩ :=
      follows.stays (modifySymbols (SymbolTable.enter kind) pre).2 (List.cons_ne_nil _ _)
    exact congrArg₂ Scene.mk leaves expected
  agrees := (modifySymbols_follows.bind fun _ => follows.widen.bind fun _ =>
    modifySymbols_follows).agrees

end Imperative.Typing
