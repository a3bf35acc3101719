import Imperative.Compiler.Compilation
import Imperative.Proofs.Lowering.Unused
import Imperative.Proofs.Simplify.Operand

/-!
# Lowering simplified programs

What is removed can only make the code smaller, and the memory of the simplified program never ends
after that of the program.
-/

namespace Imperative.Lowering

open Wasm (Code)

variable {env : Environment}
    {span : Span} {type : Ty}

/-! ## Steps that take no more memory -/

/--
Where `step` succeeds `other` does, with related results, unless one of the integers does not fit.
If it starts with no more memory in use, it ends with no more.
-/
def Tracks {α β : Type} (values : List Int) (step : Lower α) (other : Lower β)
    (relation : α → β → Prop) : Prop :=
  ∀ ⦃pre start : Workspace⦄, start.memory.stop ≤ pre.memory.stop →
    ∀ ⦃val : α⦄ ⦃post : Workspace⦄, step pre = .ok (val, post) →
      Yields values (other start) fun res =>
        relation val res.1 ∧ res.2.memory.stop ≤ post.memory.stop

variable {values : List Int}

namespace Tracks

variable {α : Type}

theorem pure (related : relation val other) :
    Tracks values (Pure.pure val) (Pure.pure other) relation := by
  intro pre start within res post isOk
  rcases pure_ok.mp isOk with ⟨rfl, rfl⟩
  exact ⟨related, within⟩

theorem bind (stepTracks : Tracks values step other first)
    (nextTracks : ∀ val res, first val res → Tracks values (next val) (otherNext res) second) :
    Tracks values (step >>= next) (other >>= otherNext) second := by
  intro pre start within val post isOk
  rcases bind_ok.mp isOk with ⟨mid, workspace, stepOk, nextOk⟩
  exact .bind (stepTracks within stepOk) fun res related =>
    nextTracks mid res.1 related.1 related.2 nextOk

theorem finish {ending : α → γ} {otherEnding : β → δ}
    (stepTracks : Tracks values step other first) :
    Tracks values (step >>= (Pure.pure <| ending ·))
      (other >>= (Pure.pure <| otherEnding ·)) fun _ _ => True :=
  stepTracks.bind fun _ _ _ => .pure trivial

theorem skip (swells : WhileUnused step property)
    (nextTracks : ∀ val, Tracks values (next val) other relation) :
    Tracks values (step >>= next) other relation := by
  intro pre start within val post isOk
  rcases bind_ok.mp isOk with ⟨mid, workspace, stepOk, nextOk⟩
  exact nextTracks mid (Nat.le_trans within (swells _ _ _ stepOk).1) nextOk

theorem skipLast (stepTracks : Tracks values step other fun _ _ => True)
    (swells : ∀ val, WhileUnused (next val) fun _ => True) :
    Tracks values (step >>= next) other fun _ _ => True := by
  intro pre start within val post isOk
  rcases bind_ok.mp isOk with ⟨mid, workspace, stepOk, nextOk⟩
  exact (stepTracks within stepOk).imp fun res related =>
    ⟨trivial, Nat.le_trans related.2 (swells mid _ _ _ nextOk).1⟩

theorem inFrame (mimics : Mimics values step other relation) :
    Tracks values (Lowering.inFrame step) (Lowering.inFrame other) relation := by
  intro pre start within val post isOk
  rcases inFrame_ok.mp isOk with ⟨frame, stepOk, rfl⟩
  have yields : Yields values (other start.frame) fun res => relation val res.1 := mimics stepOk
  cases ran : other start.frame with
  | ok res =>
    rw [ran] at yields
    exact .of_ok (inFrame_ok.mpr ⟨res.2, ran, rfl⟩) ⟨yields, within⟩
  | error error =>
    rw [ran] at yields
    have fails : Lowering.inFrame other start = .error error := by
      simp only [Lowering.inFrame, Bind.bind, StateT.bind, get, getThe, MonadStateOf.get,
        StateT.get, Pure.pure, Except.pure, Except.bind, ran]
      rfl
    rw [fails]
    exact yields

theorem lift_self (computed : Except Error α) :
    Tracks values (liftM computed) (liftM computed) Eq := by
  intro pre start within val post isOk
  rcases lift_ok.mp isOk with ⟨isComputed, rfl⟩
  exact .of_ok (lift_ok.mpr ⟨isComputed, rfl⟩) ⟨rfl, within⟩

theorem of_throw : Tracks values (MonadExcept.throw error) other relation := by
  intro pre start within val post isOk
  cases isOk

end Tracks

theorem reserve_tracks : Tracks values (reserve span type) (reserve span type) fun _ _ => True := by
  intro pre start within addr post isOk
  rcases reserve_ok.mp isOk with ⟨memory, allocated, rfl⟩
  rcases allocate_of_le within allocated with ⟨otherAddr, otherMemory, otherAllocated, less⟩
  exact .of_ok (reserve_ok.mpr ⟨otherMemory, otherAllocated, rfl⟩) ⟨trivial, less⟩

/-! ## Aggregates -/

theorem copySetup_yields {src target remaining otherSrc otherTgt otherRemaining : Nat}
    (isOk : copySetup src target remaining type = .ok code) :
    Yields values (copySetup otherSrc otherTgt otherRemaining type) fun _ => True := by
  cases type with
  | array element length =>
    rcases except_bind_ok.mp isOk with ⟨stride, isSize, -⟩
    exact .of_ok (except_bind_ok.mpr ⟨stride, isSize, rfl⟩) trivial
  | integer | real | boolean | void | record | error =>
    rcases except_bind_ok.mp isOk with ⟨bytes, isSize, -⟩
    exact .of_ok (except_bind_ok.mpr ⟨bytes, isSize, rfl⟩) trivial

theorem copyAggregate_mimics :
    Mimics values (copyAggregate type) (copyAggregate type) fun _ _ => True := by
  refine acquire_mimics.bind fun src otherSrc _ => ?_
  refine acquire_mimics.bind fun target otherTgt _ => ?_
  refine acquire_mimics.bind fun remaining otherRemaining _ => ?_
  refine (Mimics.lift fun _ => copySetup_yields).bind fun _ _ _ => ?_
  refine release_mimics.bind fun _ _ _ => release_mimics.bind fun _ _ _ => ?_
  exact release_mimics.finish

mutual

theorem clearAggregate_mimics : (type : Ty) →
    Mimics values (clearAggregate type) (clearAggregate type) fun _ _ => True
  | .record name fields => by
    refine acquire_mimics.bind fun _ _ _ => ?_
    refine (clearFields_mimics name fields _ _ fields).bind fun _ _ _ => ?_
    exact release_mimics.finish
  | .array element length => by
    have elementClears := clearAggregate_mimics element
    refine acquire_mimics.bind fun _ _ _ => Mimics.lift_self.bind fun _ _ _ => ?_
    refine acquire_mimics.bind fun _ _ _ => ?_
    split
    · exact elementClears.bind fun _ _ _ => release_mimics.bind fun _ _ _ =>
        release_mimics.finish
    · exact Mimics.lift_self.bind fun _ _ _ => release_mimics.bind fun _ _ _ =>
        release_mimics.finish
  | .integer | .real | .boolean | .void | .error => by
    intro pre start val post isOk
    cases isOk

theorem clearFields_mimics (record : String) (all : List (String × Ty)) (base other : Nat) :
    (fields : List (String × Ty)) →
      Mimics values (clearFields record all base fields) (clearFields record all other fields)
        fun _ _ => True
  | [] => .pure trivial
  | (name, type) :: rest => by
    have others := clearFields_mimics record all base other rest
    refine Mimics.lift_self.bind fun found _ sameFound => ?_
    subst sameFound
    obtain ⟨offset, _⟩ := found
    have typeClears := clearAggregate_mimics type
    dsimp only
    split
    · exact typeClears.bind fun _ _ _ => others.finish
    · exact Mimics.lift_self.bind fun _ _ _ => others.finish

end

theorem initializeAggregate_mimics
    {init otherInit : Option (Code × Ty)} (sameInit : init.map Prod.snd = otherInit.map Prod.snd) :
    Mimics values (initializeAggregate type addr init)
      (initializeAggregate type other otherInit) fun _ _ => True := by
  refine (clearAggregate_mimics type).bind fun _ _ _ => ?_
  cases init with
  | none =>
    cases otherInit with
    | none => exact .pure trivial
    | some _ => cases sameInit
  | some _ =>
    cases otherInit with
    | none => cases sameInit
    | some _ => exact copyAggregate_mimics.finish

/-! ## Declarations and simple statements -/

section Simple

variable {env other : Environment} (alike : env.Alike other)

include alike

omit alike in
theorem constants_of_some
    (within : Expr.constantsOf (Option.map change (some val)).toList ⊆ values) :
    (change val).constants ⊆ values := by
  rw [Option.map_some, Option.toList_some, Expr.constantsOf, List.append_subset] at within
  exact within.1

theorem initialValue_mimics
    (within : Expr.constantsOf (init.map (·.simplify.value)).toList ⊆ values) :
    Mimics values (initialValue env init)
      (initialValue other (init.map (·.simplify.value))) fun val res =>
        val.map Prod.snd = res.map Prod.snd := by
  cases init with
  | none => exact .pure rfl
  | some val =>
    refine (expression_mimics alike (constants_of_some within)).bind fun _ _ same => .pure ?_
    exact congrArg some same

theorem declareLocal_tracks {decl : VarDecl} (within : decl.simplify.value.constants ⊆ values) :
    Tracks values (declareLocal env decl) (declareLocal other decl.simplify.value)
      fun val res => val.2.Alike res.2 := by
  obtain ⟨span, name, declared, init⟩ := decl
  rw [VarDecl.simplify_mk] at within
  rw [VarDecl.simplify_mk, declareLocal, declareLocal]
  refine (Tracks.inFrame (initialValue_mimics alike within)).bind fun val res same => ?_
  have sameType : declaredType other span name declared (res.map Prod.snd) =
      declaredType env span name declared (val.map Prod.snd) := by
    rw [← same]
    cases declared with
    | none => cases val <;> rfl
    | some written => rw [declaredType, declaredType, alike.resolve]
  rw [sameType]
  refine (Tracks.lift_self _).bind fun type _ isType => ?_
  subst isType
  split
  · refine reserve_tracks.bind fun addr otherAddr _ => ?_
    refine (Tracks.inFrame (initializeAggregate_mimics same)).bind fun _ _ _ => ?_
    exact .pure (alike.define (.fixed _ _))
  · refine (Tracks.lift_self _).bind fun valueType _ isValType => ?_
    subst isValType
    refine (Tracks.inFrame addLocal_mimics).bind fun _ _ _ => ?_
    exact .pure (alike.define (.slot _ _))

theorem assignment_mimics (placeWithin : place.simplify.value.constants ⊆ values)
    (valWithin : val.simplify.value.constants ⊆ values) :
    Mimics values (assignment env span place val)
      (assignment other span place.simplify.value val.simplify.value) fun _ _ => True := by
  refine (target_mimics alike placeWithin).bind fun found res same => ?_
  obtain ⟨code, foundPlace, type⟩ := found
  obtain ⟨otherCode, otherPlace, otherType⟩ := res
  have valMimics := expression_mimics alike valWithin
  cases same with
  | slot | global => exact valMimics.finish
  | memory offset otherOffset =>
    dsimp only
    split
    · exact valMimics.bind fun _ _ _ => copyAggregate_mimics.finish
    · exact valMimics.bind fun _ _ _ => Mimics.lift_self.finish

theorem callStatement_mimics (within : Expr.constantsOf (args.map (·.simplify.value)) ⊆ values) :
    Mimics values (callStatement env span name args)
      (callStatement other span name (args.map (·.simplify.value))) fun _ _ => True := by
  rw [callStatement, callStatement, ← Expr.simplify_call]
  rw [← Expr.constants, ← Expr.simplify_call] at within
  exact (expression_mimics alike within).finish

theorem returnStatement_mimics
    (within : Expr.constantsOf (val.map (·.simplify.value)).toList ⊆ values) :
    Mimics values (returnStatement env val)
      (returnStatement other (val.map (·.simplify.value))) fun _ _ => True := by
  cases val with
  | none => exact .pure trivial
  | some val =>
    exact (expression_mimics alike (constants_of_some within)).finish

theorem printStatement_mimics (within : Expr.constantsOf (items.map (·.simplify.value)) ⊆ values) :
    Mimics values (printStatement env items)
      (printStatement other (items.map (·.simplify.value))) fun _ _ => True := by
  induction items with
  | nil => exact .pure trivial
  | cons first rest ih =>
    rw [List.map_cons, Expr.constantsOf, List.append_subset] at within
    rw [List.map_cons, printStatement, printStatement, Expr.span_simplify]
    refine (expression_mimics alike within.1).bind fun val res same => ?_
    obtain ⟨code, type⟩ := val
    obtain ⟨otherCode, _⟩ := res
    subst same
    exact Mimics.lift_self.bind fun _ _ _ => (ih within.2).finish

theorem condition_mimics (within : test.simplify.value.constants ⊆ values) :
    Mimics values (condition env test) (condition other test.simplify.value) fun _ _ => True :=
  (expression_mimics alike within).finish

/-! ## Loops -/

theorem rangeSetup_mimics (firstWithin : first.simplify.value.constants ⊆ values)
    (lastWithin : last.simplify.value.constants ⊆ values) :
    Mimics values (rangeSetup env first last dir)
      (rangeSetup other first.simplify.value last.simplify.value dir) fun _ _ => True := by
  refine addLocal_mimics.bind fun _ _ _ => acquire_mimics.bind fun _ _ _ => ?_
  cases dir <;>
    exact (expression_mimics alike firstWithin).bind fun _ _ _ =>
      (expression_mimics alike lastWithin).finish

omit alike in
theorem fetchElement_mimics :
    Mimics values (fetchElement span element) (fetchElement span element) fun val res =>
      val.2.Alike res.2 := by
  rw [fetchElement]
  split
  · exact addLocal_mimics.bind fun _ _ _ => .pure (.pointer _ _)
  · refine Mimics.lift_self.bind fun valueType _ isValType => ?_
    subst isValType
    exact addLocal_mimics.bind fun _ _ _ => .pure (.slot _ _)

theorem arraySetup_mimics (within : array.simplify.value.constants ⊆ values) :
    Mimics values (arraySetup env array dir)
      (arraySetup other array.simplify.value dir) fun val res =>
        val.element = res.element ∧ val.storage.Alike res.storage := by
  rw [arraySetup, arraySetup, Expr.span_simplify]
  refine (expression_mimics alike within).bind fun val res same => ?_
  obtain ⟨code, type⟩ := val
  obtain ⟨otherCode, _⟩ := res
  subst same
  refine Mimics.lift_self.bind fun element _ isElement => ?_
  subst isElement
  refine Mimics.lift_self.bind fun _ _ _ => acquire_mimics.bind fun _ _ _ => ?_
  refine acquire_mimics.bind fun _ _ _ => acquire_mimics.bind fun _ _ _ => ?_
  refine fetchElement_mimics.bind fun _ _ stored => ?_
  cases dir <;> exact .pure ⟨rfl, stored⟩

omit alike in
theorem releaseArray_mimics :
    Mimics values (releaseArray locals) (releaseArray otherLocals) fun _ _ => True :=
  release_mimics.bind fun _ _ _ => release_mimics.bind fun _ _ _ => release_mimics

end Simple

/-! ## Statements and blocks -/

mutual

/-- A simplified statement is lowered where the statement is, unless a literal does not fit. -/
theorem statement_tracks : {env other : Environment} → env.Alike other →
    (inner : Statement) → inner.simplify.value.constants ⊆ values →
    Tracks values (statement env inner) (statement other inner.simplify.value) fun _ _ => True
  | env, other, alike, .assign span place val, within => by
    rw [Statement.simplify_assign, Statement.constants, List.append_subset] at within
    exact .inFrame (assignment_mimics alike within.1 within.2)
  | env, other, alike, .call span name args, within => by
    rw [Statement.simplify_call, Statement.constants] at within
    rw [Statement.simplify_call, statement, statement]
    exact .inFrame (callStatement_mimics alike within)
  | env, other, alike, .branch span test consequent none, within => by
    have consequentTracks := block_tracks alike consequent
    cases isTruth : test.simplify.value.truth? with
    | none =>
      rw [Statement.simplify_branch_of_open isTruth, Option.map_none] at within ⊢
      rw [Statement.constants, List.append_subset] at within
      exact (Tracks.inFrame (condition_mimics alike within.1)).bind fun _ _ _ =>
        (consequentTracks within.2).finish
    | some val =>
      rw [Statement.simplify_branch_of_truth isTruth] at within ⊢
      cases val with
      | true =>
        exact .skip .anyInFrame fun _ => (consequentTracks within).skipLast fun _ => .pure trivial
      | false =>
        exact .skip .anyInFrame fun _ => .skip (block_whileUnused env consequent) fun _ =>
          .pure trivial
  | env, other, alike, .branch span test consequent (some alternative), within => by
    have consequentTracks := block_tracks alike consequent
    have alternativeTracks := block_tracks alike alternative
    cases isTruth : test.simplify.value.truth? with
    | none =>
      rw [Statement.simplify_branch_of_open isTruth, Option.map_some] at within ⊢
      rw [Statement.constants, List.append_subset, List.append_subset] at within
      exact (Tracks.inFrame (condition_mimics alike within.1.1)).bind fun _ _ _ =>
        (consequentTracks within.1.2).bind fun _ _ _ =>
          (alternativeTracks within.2).finish
    | some val =>
      rw [Statement.simplify_branch_of_truth isTruth] at within ⊢
      cases val with
      | true =>
        exact .skip .anyInFrame fun _ => (consequentTracks within).skipLast fun _ =>
          (block_whileUnused env alternative).bind fun _ => .pure fun _ => trivial
      | false =>
        exact .skip .anyInFrame fun _ =>
          .skip (block_whileUnused env consequent) fun _ =>
            (alternativeTracks within).skipLast fun _ => .pure trivial
  | env, other, alike, .whileLoop span test body, within => by
    by_cases isFalse : test.simplify.value.truth? = some false
    · rw [Statement.simplify_whileLoop_of_false isFalse, statement]
      exact .skip .anyInFrame fun _ => .skip (block_whileUnused env body) fun _ => .pure trivial
    · rw [Statement.simplify_whileLoop_of_not_false isFalse] at within ⊢
      rw [Statement.constants, List.append_subset] at within
      exact (Tracks.inFrame (condition_mimics alike within.1)).bind fun _ _ _ =>
        (block_tracks alike body within.2).finish
  | env, other, alike, .rangeLoop span iter first last dir body, within => by
    rw [Statement.simplify_rangeLoop, Statement.constants, List.append_subset,
      List.append_subset] at within
    obtain ⟨⟨firstWithin, lastWithin⟩, bodyWithin⟩ := within
    rw [Statement.simplify_rangeLoop, statement, statement]
    refine (Tracks.inFrame (rangeSetup_mimics alike firstWithin lastWithin)).bind fun _ _ _ => ?_
    refine (block_tracks (alike.define (.slot _ _)) body bodyWithin).bind fun _ _ _ => ?_
    exact (Tracks.inFrame release_mimics).finish
  | env, other, alike, .arrayLoop span iter array dir body, within => by
    rw [Statement.simplify_arrayLoop, Statement.constants, List.append_subset] at within
    rw [Statement.simplify_arrayLoop, statement, statement]
    refine (Tracks.inFrame (arraySetup_mimics alike within.1)).bind
      fun arrayLoop otherLoop same => ?_
    rw [← same.1]
    refine (block_tracks (alike.define same.2) body within.2).bind fun _ _ _ => ?_
    exact (Tracks.inFrame releaseArray_mimics).finish
  | env, other, alike, .giveBack span val, within => by
    rw [Statement.simplify_giveBack, Statement.constants] at within
    rw [Statement.simplify_giveBack, statement, statement]
    exact .inFrame (returnStatement_mimics alike within)
  | env, other, alike, .print span items, within => by
    rw [Statement.simplify_print, Statement.constants] at within
    rw [Statement.simplify_print, statement, statement]
    exact .inFrame (printStatement_mimics alike within)
  | env, other, alike, .empty span, _ => by
    rw [Statement.simplify_empty, statement, statement]
    exact .pure trivial
  | env, other, alike, .block span inner, within => by
    rw [Statement.simplify_block, Statement.constants] at within
    rw [Statement.simplify_block, statement, statement]
    exact block_tracks alike inner within

theorem block_tracks : {env other : Environment} → env.Alike other →
    (inner : Block) → inner.simplify.value.constants ⊆ values →
    Tracks values (block env inner) (block other inner.simplify.value) fun _ _ => True
  | _, _, alike, .mk _ items, within => itemCode_tracks alike items within

theorem itemCode_tracks : {env other : Environment} → env.Alike other →
    (items : List Item) → Block.constantsOf (Block.simplifyItems items).value ⊆ values →
    Tracks values (itemCode env items)
      (itemCode other (Block.simplifyItems items).value) fun _ _ => True
  | env, other, alike, [], _ => .pure trivial
  | env, other, alike, .declaration (.var decl) :: rest, within => by
    rw [Block.simplifyItems_declaration, Declaration.simplify_var] at within ⊢
    rw [Block.constantsOf, List.append_subset] at within
    refine (declareLocal_tracks alike within.1).bind fun _ _ innerAlike => ?_
    exact (itemCode_tracks innerAlike rest within.2).finish
  | env, other, alike, .declaration (.type decl) :: rest, within => by
    rw [Block.simplifyItems_declaration, Declaration.simplify_type] at within ⊢
    exact itemCode_tracks alike.defineType rest within
  | env, other, alike, .declaration (.routine routine) :: rest, _ => .of_throw
  | env, other, alike, .statement first :: rest, within => by
    have restTracks := itemCode_tracks alike rest
    rw [Block.simplifyItems_statement] at within ⊢
    split at within
    · next isDropped =>
      rw [if_pos isDropped]
      exact .skip (statement_whileUnused env first) fun _ =>
        (restTracks within).skipLast fun _ => .pure trivial
    · next isKept =>
      rw [Block.constantsOf, List.append_subset] at within
      rw [if_neg isKept, itemCode]
      exact (statement_tracks alike first within.1).bind fun _ _ _ =>
        (restTracks within.2).finish

end

/-! ## Routines -/

theorem parameterStorage_tracks :
    Tracks values (parameterStorage span index type) (parameterStorage span index type)
      fun val res => val.2.Alike res.2 := by
  unfold parameterStorage
  split
  · exact .pure (.pointer _ _)
  · split
    · refine reserve_tracks.bind fun _ _ _ => ?_
      exact (Tracks.inFrame (initializeAggregate_mimics rfl)).bind fun _ _ _ => .pure (.fixed _ _)
    · exact .pure (.slot _ _)

theorem bindParameters_tracks (alike : env.Alike other) (index : Nat) :
    Tracks values (bindParameters env index params)
      (bindParameters other index params) fun val res => val.2.Alike res.2 := by
  induction params generalizing env other index with
  | nil => exact .pure alike
  | cons first rest ih =>
    obtain ⟨param, type⟩ := first
    refine parameterStorage_tracks.bind fun _ _ stored => ?_
    exact (ih (alike.define stored) (index + 1)).bind fun _ _ innerAlike => .pure innerAlike

theorem bodyCode_tracks (alike : env.Alike other) (within : body.simplified.constants ⊆ values) :
    Tracks values (bodyCode env body) (bodyCode other body.simplified) fun _ _ => True := by
  cases body with
  | expression val =>
    exact (Tracks.inFrame (expression_mimics alike within)).finish
  | block inner => exact (block_tracks alike inner within).finish

/--
Some of the deferred values are left out, and the others are simplified; their constants are among
the integers.
-/
inductive Thinned (values : List Int) : List Deferred → List Deferred → Prop
  | nil : Thinned values [] []
  | drop (first : Deferred) {rest other : List Deferred} (thinned : Thinned values rest other) :
      Thinned values (first :: rest) other
  | scalar {val : Expr} (within : val.simplify.value.constants ⊆ values) (type : Ty)
      (index : Nat) {rest other : List Deferred} (thinned : Thinned values rest other) :
      Thinned values (.scalar val type index :: rest) (.scalar val.simplify.value type index ::
        other)
  | aggregate {val : Expr} (within : val.simplify.value.constants ⊆ values) (type : Ty)
      (addr : Nat) {rest other : List Deferred} (thinned : Thinned values rest other) :
      Thinned values (.aggregate val type addr :: rest)
        (.aggregate val.simplify.value type addr :: other)

theorem Thinned.append (thinned : Thinned values deferred other)
    (moreThinned : Thinned values more otherMore) :
    Thinned values (deferred ++ more) (other ++ otherMore) := by
  induction thinned with
  | nil => exact moreThinned
  | drop first _ ih => exact .drop first ih
  | scalar within type index _ ih => exact .scalar within type index ih
  | aggregate within type addr _ ih => exact .aggregate within type addr ih

theorem computeDeferred_mimics (thinned : Thinned values deferred other) :
    Mimics values (computeDeferred env deferred) (computeDeferred env other) fun _ _ => True := by
  have alike := Environment.Alike.refl env
  induction thinned with
  | nil => exact .pure trivial
  | drop first _ ih =>
    cases first with
    | scalar val type index => exact .skip fun _ => ih.skipLast
    | aggregate val type addr => exact .skip fun _ => .skip fun _ => ih.skipLast
  | scalar within type index _ ih =>
    exact (expression_mimics alike within).bind fun _ _ _ => ih.finish
  | aggregate within type addr _ ih =>
    exact (expression_mimics alike within).bind fun _ _ _ =>
      copyAggregate_mimics.bind fun _ _ _ => ih.finish

theorem routineCode_tracks (thinned : Thinned values deferred other)
    (within : body.simplified.constants ⊆ values) :
    Tracks values (routineCode env deferred params body)
      (routineCode env other params body.simplified) fun _ _ => True := by
  refine (Tracks.inFrame (computeDeferred_mimics thinned)).bind fun _ _ _ => ?_
  refine (bindParameters_tracks (.refl env) 0).bind fun _ _ innerAlike => ?_
  exact (bodyCode_tracks innerAlike within).finish

/-- Two images have functions of the same names, and the second takes no more memory. -/
structure Image.Less (image other : Image) : Prop where
  names : image.module.functions.map Wasm.Function.name =
    other.module.functions.map Wasm.Function.name
  memory : other.memory.stop ≤ image.memory.stop

theorem entered_eq {funcs others : List Wasm.Function}
    (sameNames : funcs.map Wasm.Function.name = others.map Wasm.Function.name) :
    (funcs.any fun function => function.name = name) = others.any fun function => function.name =
      name := by
  have byNames : ∀ list : List Wasm.Function, (list.any fun function => function.name = name) =
      (list.map Wasm.Function.name).any fun other => other = name := by
    intro list
    rw [List.any_map]
    rfl
  rw [byNames, byNames, sameNames]

theorem addRoutine_yields {image : Image} (thinned : Thinned values deferred otherDeferred)
    (within : body.simplified.constants ⊆ values)
    (less : image.Less otherImage) (isOk : addRoutine options env deferred routine body image =
      .ok post) :
    Yields values (addRoutine options env otherDeferred routine.simplified body.simplified
      otherImage) fun res => post.Less res := by
  rw [addRoutine] at isOk ⊢
  rw [Routine.name_simplified, Routine.parameters_simplified]
  cases registered : env.routines.lookup routine.name with
  | none =>
    rw [registered] at isOk
    cases isOk
  | some info =>
    rw [registered] at isOk
    rcases except_bind_ok.mp isOk with ⟨type, isType, isInterned⟩
    refine .bind (.of_ok isType rfl) fun _ sameType => ?_
    subst sameType
    have sameFuncs := intern_functions type image.module
    have otherFuncs := intern_functions type otherImage.module
    generalize image.module.intern type = interned at sameFuncs isInterned
    generalize otherImage.module.intern type = otherInterned at otherFuncs ⊢
    obtain ⟨typeIndex, module⟩ := interned
    obtain ⟨otherIndex, otherModule⟩ := otherInterned
    have sameNames : module.functions.map Wasm.Function.name =
        otherModule.functions.map Wasm.Function.name := by
      rw [sameFuncs, otherFuncs, less.names]
    rcases except_bind_ok.mp isInterned with ⟨⟨code, workspace⟩, isCode, isPure⟩
    cases isPure
    rw [entered_eq sameNames] at isCode
    refine .bind (routineCode_tracks ?_ within less.memory isCode) fun res related => ?_
    · split
      · exact thinned
      · exact .nil
    · refine ⟨?_, related.2⟩
      split <;> split <;> simp [Wasm.Module.addExport, sameNames]

theorem addRoutines_yields {image : Image} (thinned : Thinned values deferred otherDeferred)
    (within : (decls.map (·.simplify.value)).flatMap Declaration.constants ⊆ values)
    (less : image.Less otherImage) (isOk : addRoutines options env deferred image decls =
      .ok post) :
    Yields values (addRoutines options env otherDeferred otherImage
      (decls.map (·.simplify.value))) fun res =>
        post.Less res := by
  induction decls generalizing image otherImage with
  | nil =>
    cases isOk
    exact less
  | cons first rest ih =>
    rw [List.map_cons, List.flatMap_cons, List.append_subset] at within
    cases first with
    | var | type => exact ih within.2 less isOk
    | routine routine =>
      have bodyWithin := within.1
      rw [Declaration.simplify_routine, Declaration.constants, Routine.body_simplified]
        at bodyWithin
      rw [List.map_cons, Declaration.simplify_routine, addRoutines, Routine.body_simplified]
      rw [addRoutines] at isOk
      cases hasBody : routine.body with
      | none =>
        rw [hasBody] at isOk
        exact ih within.2 less isOk
      | some body =>
        rw [hasBody] at isOk bodyWithin
        rcases except_bind_ok.mp isOk with ⟨mid, isAdded, isRest⟩
        exact .bind (addRoutine_yields thinned bodyWithin less isAdded)
          fun _ midLess => ih within.2 midLess isRest

/-! ## Variables of the program -/

/-- The same variables are kept in the same places, and fewer values are deferred. -/
structure Globals.Thins (values : List Int) (st other : Globals) : Prop where
  environment : st.environment = other.environment
  count : st.globals.length = other.globals.length
  memory : st.memory = other.memory
  deferred : Thinned values st.deferred other.deferred

theorem globalType_yields (within : Expr.constantsOf (init.map (·.simplify.value)).toList ⊆ values)
    (isOk : globalType env span name declared init = .ok type) :
    Yields values (globalType env span name declared
      (init.map (·.simplify.value))) fun res => type = res := by
  cases declared with
  | some written => exact .of_ok isOk rfl
  | none =>
    cases init with
    | none => cases isOk
    | some val =>
      rcases except_bind_ok.mp isOk with ⟨⟨⟨code, found⟩, frame⟩, isExpr, isPure⟩
      cases isPure
      exact .bind (expression_mimics (.refl env) (constants_of_some within) isExpr) fun _ same =>
        same

theorem constantInitial_simplify
    (isConstant : (constantInitial type val).isSome = true) : val.simplify.value = val := by
  cases val with
  | integer | real | boolean => rfl
  | name | field | index | call | unary | binary => cases isConstant

theorem addScalar_yields (thins : st.Thins values other)
    (within : Expr.constantsOf (init.map (·.simplify.value)).toList ⊆ values)
    (isOk : addScalar st span name type init = .ok post) :
    Yields values (addScalar other span name type (init.map (·.simplify.value)))
      fun res => post.Thins values res := by
  rcases except_bind_ok.mp isOk with ⟨valueType, isScalar, isPure⟩
  cases isPure
  refine .bind (.of_ok isScalar rfl) fun _ sameType => ?_
  refine ⟨?_, ?_, thins.memory, thins.deferred.append ?_⟩
  · rw [thins.environment, thins.count]
  · rw [List.length_append, List.length_append, thins.count]
    rfl
  · cases init with
    | none => exact .nil
    | some val =>
      simp only [Option.map_some, Option.bind_some, Option.toList_some, List.map_cons,
        List.map_nil, thins.count]
      by_cases isConstant : (constantInitial type val).isSome = true
      · rw [constantInitial_simplify isConstant, if_pos isConstant]
        exact .nil
      · rw [if_neg isConstant]
        split
        · exact .drop _ .nil
        · exact .scalar (constants_of_some within) type _ .nil

theorem addAggregate_yields (thins : st.Thins values other)
    (within : Expr.constantsOf (init.map (·.simplify.value)).toList ⊆ values)
    (isOk : addAggregate st span name type init = .ok post) :
    Yields values
      (addAggregate other span name type (init.map (·.simplify.value))) fun res =>
        post.Thins values res := by
  rcases except_bind_ok.mp isOk with ⟨⟨addr, memory⟩, allocated, isPure⟩
  cases isPure
  rw [thins.memory] at allocated
  refine .bind (.of_ok allocated rfl) fun _ sameMemory => ?_
  subst sameMemory
  refine ⟨?_, thins.count, rfl, thins.deferred.append ?_⟩
  · rw [thins.environment]
  · cases init with
    | none => exact .nil
    | some val =>
      exact .aggregate (constants_of_some within) type addr .nil

theorem addGlobals_yields (thins : st.Thins values other)
    (within : (decls.map (·.simplify.value)).flatMap Declaration.constants ⊆ values)
    (isOk : addGlobals st decls = .ok post) :
    Yields values
      (addGlobals other (decls.map (·.simplify.value))) fun res => post.Thins values res := by
  induction decls generalizing st other with
  | nil =>
    cases isOk
    exact thins
  | cons first rest ih =>
    rw [List.map_cons, List.flatMap_cons, List.append_subset] at within
    cases first with
    | type inner => exact ih thins within.2 isOk
    | routine inner =>
      rw [List.map_cons, Declaration.simplify_routine]
      exact ih thins within.2 isOk
    | var inner =>
      obtain ⟨span, name, declared, init⟩ := inner
      have initWithin := within.1
      rw [Declaration.simplify_var, VarDecl.simplify_mk] at initWithin
      rw [List.map_cons, Declaration.simplify_var, VarDecl.simplify_mk, addGlobals, addGlobal,
        ← thins.environment]
      rcases except_bind_ok.mp isOk with ⟨mid, isAdded, isRest⟩
      rcases except_bind_ok.mp isAdded with ⟨type, isType, isKept⟩
      refine .bind ?_ fun _ midThins => ih midThins within.2 isRest
      refine .bind (globalType_yields initWithin isType) fun _ sameType => ?_
      subst sameType
      split at isKept
      · next isAggregate =>
        rw [if_pos isAggregate]
        exact addAggregate_yields thins initWithin isKept
      · next notAggregate =>
        rw [if_neg notAggregate]
        exact addScalar_yields thins initWithin isKept

/-! ## Programs -/

theorem defineTypes_simplify (env : Environment) :
    defineTypes env (decls.map (·.simplify.value)) =
      defineTypes env decls := by
  induction decls generalizing env with
  | nil => rfl
  | cons first rest ih =>
    rw [List.map_cons]
    cases first with
    | var inner => exact ih env
    | type inner => exact ih _
    | routine inner =>
      rw [Declaration.simplify_routine]
      exact ih env

theorem routineInfo_simplified : routineInfo env routine.simplified index =
    routineInfo env routine index := by
  rw [routineInfo, routineInfo, Routine.parameters_simplified, Routine.result_simplified]

theorem registerRoutines_simplify (env : Environment) (next : Nat) :
    registerRoutines env next (decls.map (·.simplify.value)) =
      registerRoutines env next decls := by
  induction decls generalizing env next with
  | nil => rfl
  | cons first rest ih =>
    rw [List.map_cons]
    cases first with
    | var | type => exact ih env next
    | routine inner =>
      rw [Declaration.simplify_routine, registerRoutines, registerRoutines,
        Routine.isForward_simplified, Routine.name_simplified]
      split
      · rw [routineInfo_simplified]
        exact ih _ next
      · rw [routineInfo_simplified]
        exact ih _ (next + 1)

/--
A simplified program is lowered where the program is, unless one of its constants does not fit.
-/
theorem lower_simplify_yields (isOk : lower options program = .ok module) :
    Yields program.simplify.value.constants (lower options program.simplify.value) fun _ =>
      True := by
  have within := List.Subset.refl program.simplify.value.constants
  rw [Program.constants, Program.declarations_simplify] at within
  rw [lower] at isOk ⊢
  rw [Program.constants, Program.declarations_simplify, defineTypes_simplify,
    registerRoutines_simplify]
  rcases except_bind_ok.mp isOk with ⟨st, isSt, isRest⟩
  rcases except_bind_ok.mp isRest with ⟨image, isImage, -⟩
  refine .bind (addGlobals_yields ⟨rfl, rfl, rfl, .nil⟩ within isSt) fun other thins => ?_
  have less : Image.Less
      { module := { printingModule options with globals := st.globals }
        memory := st.memory }
      { module := { printingModule options with globals := other.globals }
        memory := other.memory } :=
    ⟨rfl, Nat.le_of_eq (congrArg StaticMemory.stop thins.memory.symm)⟩
  rw [← thins.environment]
  exact .bind (addRoutines_yields thins.deferred within less isImage) fun _ _ => trivial

/-- A result is given, or one of the constants is refused because it does not fit in 32 bits. -/
def OkUnlessRange {α : Type} (constants : List Int) (res : Except Error α) : Prop :=
  (∃ val, res = .ok val) ∨
    ∃ val ∈ constants, ¬ InRange val ∧
      ∃ span, res = .error (.refused (.literalRange val) (some span))

theorem lower_simplify_okUnlessRange (isOk : lower options program = .ok module) :
    OkUnlessRange program.simplify.value.constants (lower options program.simplify.value) := by
  have yields := lower_simplify_yields isOk
  cases res : lower options program.simplify.value with
  | ok simplified => exact .inl ⟨simplified, rfl⟩
  | error error =>
    rw [res] at yields
    obtain ⟨isConstant, outside⟩ := yields
    exact .inr ⟨_, isConstant, outside, _, rfl⟩

section Compilation

open Compiler

theorem OkUnlessRange.map {res : Except Error α}
    (okUnless : OkUnlessRange constants res) (convert : α → β) :
    OkUnlessRange constants (res >>= fun val => pure (convert val)) := by
  rcases okUnless with ⟨val, rfl⟩ | ⟨val, isConstant, outside, span, rfl⟩
  · exact .inl ⟨convert val, rfl⟩
  · exact .inr ⟨val, isConstant, outside, span, rfl⟩

theorem compile_okUnlessRange
    (sameOptions : plain.options = settings.options) (isPlain : plain.simplifies = false)
    {outcome : Outcome} (isOk : compile plain text = .ok outcome) :
    OkUnlessRange (Program.parseTokens (Token.tokenize text)).value.simplify.value.constants
      (compile settings text) := by
  simp only [compile] at isOk ⊢
  split at isOk
  · next noDiagnostics =>
    rw [if_pos noDiagnostics]
    rcases except_bind_ok.mp isOk with ⟨module, lowered, -⟩
    rw [simplified, isPlain, sameOptions] at lowered
    refine OkUnlessRange.map ?_ _
    rw [simplified]
    split
    · exact lower_simplify_okUnlessRange lowered
    · exact .inl ⟨module, lowered⟩
  · next someDiagnostics =>
    rw [if_neg someDiagnostics]
    exact .inl ⟨_, rfl⟩

/--
A program that has a module has one after simplification, and a text that is compiled without
simplification is compiled with it, if the constants of the simplified program fit in 32 bits;
otherwise one that does not fit may be refused.
-/
theorem lower_simplify (options : Options) (program : Program) (settings plain : Settings)
    (sameOptions : plain.options = settings.options) (isPlain : plain.simplifies = false)
    (text : String) :
    ((∃ module, lower options program = .ok module) →
      OkUnlessRange program.simplify.value.constants (lower options program.simplify.value)) ∧
    ((∃ outcome, compile plain text = .ok outcome) →
      OkUnlessRange (Program.parseTokens (Token.tokenize text)).value.simplify.value.constants
        (compile settings text)) := by
  constructor
  · rintro ⟨module, lowered⟩
    exact lower_simplify_okUnlessRange lowered
  · rintro ⟨outcome, compiled⟩
    exact compile_okUnlessRange sameOptions isPlain compiled

end Compilation

def plainSettings : Compiler.Settings := { Compiler.Settings.standard with simplify := false }

theorem exists_of_isOk {res : Except Error α} (isOk : res.isOk = true) :
    ∃ val, res = .ok val := by
  cases res with
  | ok val => exact ⟨val, rfl⟩
  | error error => cases isOk

theorem decidedText_lowered :
    ((lower Options.standard (Program.parse Typing.decidedText).value).isOk &&
      (Compiler.compile plainSettings Typing.decidedText).isOk) = true := by
  unfold Compiler.compile Token.tokenize Program.parse Parser.Feed.ofText Typing.decidedText
  decide +kernel

theorem lower_simplify_decidedText :
    (lower Options.standard (Program.parse Typing.decidedText).value).isOk = true ∧
      OkUnlessRange (Program.parse Typing.decidedText).value.simplify.value.constants
        (lower Options.standard (Program.parse Typing.decidedText).value.simplify.value) ∧
      (Compiler.compile plainSettings Typing.decidedText).isOk = true ∧
      OkUnlessRange
        (Program.parseTokens (Token.tokenize Typing.decidedText)).value.simplify.value.constants
        (Compiler.compile .standard Typing.decidedText) := by
  have isLowered := decidedText_lowered
  rw [Bool.and_eq_true] at isLowered
  obtain ⟨lowered, compiled⟩ := isLowered
  have both := lower_simplify Options.standard (Program.parse Typing.decidedText).value .standard
    plainSettings rfl rfl Typing.decidedText
  exact ⟨lowered, both.1 (exists_of_isOk lowered), compiled, both.2 (exists_of_isOk compiled)⟩

def overflowText : String := "routine main() is\nprint 2147483647 + 1\nend\n"

theorem compile_overflowText :
    ((Compiler.compile plainSettings overflowText).isOk &&
      match Compiler.compile .standard overflowText with
      | .error (.refused refusal _) =>
        refusal.message == "Integer literal 2147483648 does not fit in 32 bits"
      | _ => false) = true := by
  unfold Compiler.compile Token.tokenize overflowText
  decide +kernel

end Imperative.Lowering
