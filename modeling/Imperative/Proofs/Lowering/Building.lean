import Imperative.Proofs.Lowering.Frames
import Imperative.Proofs.Lowering.Outcome
import Imperative.Proofs.Wasm.Validation

/-!
# Building code

Code is built while the locals of its function are still being added, and it is typed by those of
the finished function.  So the context of the finished function is fixed, and a step is typed there
provided that its locals turn out to be the first ones of that context.
-/

namespace Imperative.Lowering

open List

open Wasm (Code Context Instruction Numeric Spares ValueType)

variable {code : Code} {ctx : Context} {given : Prop}

/-- The frame of the function being built, in what a step works on. -/
class Framed (State : Type) where
  frame : State → Frame

instance : Framed Frame := ⟨fun frame => frame⟩

instance : Framed Workspace := ⟨Workspace.frame⟩

/-- The locals of the frame are the first ones of the context. -/
structure Frame.Within (ctx : Context) (frame : Frame) : Prop where
  parameters : frame.parameters ≤ ctx.locals.length
  locals : frame.locals <+: ctx.locals.drop frame.parameters

def Frame.FreeTyped (ctx : Context) (frame : Frame) : Prop :=
  ∀ entry ∈ frame.free, ctx.locals[entry.2]? = some entry.1

/--
A step leads from one frame to another.  In the context, what it gives is typed if what was
given to it is.
-/
structure Frame.Leads (ctx : Context) (given : Prop) (pre post : Frame) (typed : Prop) : Prop where
  parameters : post.parameters = pre.parameters
  locals : pre.locals <+: post.locals
  typed : given → pre.FreeTyped ctx → post.Within ctx → typed ∧ post.FreeTyped ctx

/--
Unless a limit is exceeded, the step gives a value with the fact, which is typed in the context
if what was given to the step is.
-/
def Builds {State α : Type} [Framed State] (ctx : Context) (given : Prop)
    (step : StateT State (Except Error) α) (fact typed : α → Prop) : Prop :=
  ∀ st, Meets (step st) fun res =>
    fact res.1 ∧ (Framed.frame st).Leads ctx given (Framed.frame res.2) (typed res.1)

theorem Frame.Within.of_prefix {pre post : Frame} (within : post.Within ctx)
    (parameters : post.parameters = pre.parameters) (locals : pre.locals <+: post.locals) :
    pre.Within ctx where
  parameters := parameters ▸ within.parameters
  locals := parameters ▸ locals.trans within.locals

theorem Frame.Leads.trans {first second : Frame} {typed whole : Prop}
    (leads : first.Leads ctx given second typed)
    (next : second.Leads ctx (given ∧ typed) third whole) : first.Leads ctx given third whole where
  parameters := next.parameters.trans leads.parameters
  locals := leads.locals.trans next.locals
  typed isGiven free within := by
    obtain ⟨holds, midFree⟩ :=
      leads.typed isGiven free (within.of_prefix next.parameters next.locals)
    exact next.typed ⟨isGiven, holds⟩ midFree within

theorem Frame.Leads.refl {frame : Frame} {typed : Prop} (holds : given → typed) :
    frame.Leads ctx given frame typed where
  parameters := rfl
  locals := prefix_rfl
  typed isGiven free _ := ⟨holds isGiven, free⟩

namespace Builds

variable {State α : Type} [Framed State] {ctx : Context} {given : Prop}

theorem pure (holds : fact val) (isTyped : given → typed val) :
    Builds ctx given (Pure.pure val : StateT State (Except Error) α) fact typed :=
  fun _ => Meets.pure ⟨holds, .refl isTyped⟩

theorem bind {next : α → StateT State (Except Error) β}
    (builds : Builds ctx given step fact typed)
    (nextBuilds : ∀ val, fact val →
      Builds ctx (given ∧ typed val) (next val) wholeFact wholeTyped) :
    Builds ctx given (step >>= next) wholeFact wholeTyped := by
  intro st
  apply Meets.bind (builds st)
  rintro ⟨val, mid⟩ ⟨holds, leads⟩
  apply (nextBuilds val holds mid).imp
  rintro ⟨res, post⟩ ⟨wholeHolds, nextLeads⟩
  exact ⟨wholeHolds, leads.trans nextLeads⟩

theorem imp {step : StateT State (Except Error) α}
    (builds : Builds ctx less step fact typed)
    (enough : given → less) (factImplies : ∀ val, fact val → otherFact val)
    (typedImplies : ∀ val, fact val → given → typed val → otherTyped val) :
    Builds ctx given step otherFact otherTyped := by
  intro st
  apply (builds st).imp
  rintro ⟨val, post⟩ ⟨holds, leads⟩
  refine ⟨factImplies val holds, leads.parameters, leads.locals, fun isGiven free within => ?_⟩
  obtain ⟨isTyped, afterFree⟩ := leads.typed (enough isGiven) free within
  exact ⟨typedImplies val holds isGiven isTyped, afterFree⟩

theorem of_less {step : StateT State (Except Error) α}
    (builds : Builds ctx less step fact typed) (enough : given → less) :
    Builds ctx given step fact typed :=
  builds.imp enough (fun _ holds => holds) fun _ _ _ isTyped => isTyped

theorem lift (meets : Meets res fact) :
    Builds ctx given (liftM res : StateT State (Except Error) α) fact fun _ => True := by
  intro st
  cases res with
  | ok val => exact ⟨meets, .refl fun _ => trivial⟩
  | error error => exact meets

theorem ite {cond : Prop} [Decidable cond] {consequent alternative : StateT State (Except Error) α}
    (ifHolds : cond → Builds ctx given consequent fact typed)
    (ifFails : ¬ cond → Builds ctx given alternative fact typed) :
    Builds ctx given (if cond then consequent else alternative) fact typed := by
  split
  · next holds => exact ifHolds holds
  · next fails => exact ifFails fails

end Builds

theorem Frame.Within.last {frame : Frame}
    (within : ({ frame with locals := frame.locals ++ [type] } : Frame).Within ctx) :
    ctx.locals[frame.parameters + frame.locals.length]? = some type := by
  obtain ⟨more, appended⟩ := within.locals
  rw [← getElem?_drop]
  simp only at appended
  rw [← appended]
  simp

theorem addLocal_builds :
    Builds ctx given (addLocal type) (fun _ => True) fun index =>
      ctx.locals[index]? = some type := by
  intro frame
  refine ⟨trivial, rfl, prefix_append _ _, fun _ free within => ?_⟩
  exact ⟨within.last, free⟩

theorem acquire_builds :
    Builds ctx given (acquire type) (fun _ => True) fun index =>
      ctx.locals[index]? = some type := by
  intro frame
  cases taken : takeFree type frame.free with
  | none =>
    rw [acquire_of_none taken]
    exact addLocal_builds frame
  | some found =>
    obtain ⟨index, left⟩ := found
    rw [acquire_of_some taken]
    have within := (perm_of_takeFree taken).subset
    refine ⟨trivial, rfl, prefix_rfl, fun _ free _ => ?_⟩
    exact forall_mem_cons.mp fun entry mem => free entry (within mem)

theorem release_builds (borrowed : given → ctx.locals[index]? = some type) :
    Builds ctx given (release type index) (fun _ => True) fun _ => True := by
  intro frame
  refine ⟨trivial, rfl, prefix_rfl, fun isGiven free _ => ⟨trivial, ?_⟩⟩
  intro entry mem
  rcases mem_cons.mp mem with rfl | later
  · exact borrowed isGiven
  · exact free entry later

theorem inFrame_builds (builds : Builds ctx given step fact typed) :
    Builds ctx given (inFrame step) fact typed := by
  intro workspace
  have meets := builds workspace.frame
  show Meets ((step workspace.frame >>= fun res => .ok (res, workspace)) >>= fun mid =>
    .ok (mid.1.1, { workspace with frame := mid.1.2 })) _
  revert meets
  cases step workspace.frame <;> exact id

theorem reserve_builds (span : Span) {type : Ty} (proper : type.Proper) :
    Builds ctx given (reserve span type) (fun _ => True) fun _ => True := by
  intro workspace
  have meets := (allocate_meets workspace.memory proper).locating span
  show Meets ((locating span (workspace.memory.allocate type) >>= fun res =>
    .ok (res, workspace)) >>= fun mid => .ok (mid.1.1, { workspace with memory := mid.1.2 })) _
  revert meets
  cases locating span (workspace.memory.allocate type) with
  | ok => exact fun _ => ⟨trivial, .refl fun _ => trivial⟩
  | error => exact id

/-- The code takes the first stack to the second, whatever lies deeper, and truncates no real. -/
def Turns (ctx : Context) (code : Code) (pops pushes : List ValueType) : Prop :=
  ∀ deeper, Spares code ∧ Code.Typed ctx code (pops ++ deeper) (pushes ++ deeper)

/-- The step builds code that turns the one stack into the other. -/
abbrev CodeBuilds {State : Type} [Framed State] (ctx : Context) (given : Prop)
    (step : StateT State (Except Error) Code) (pops pushes : List ValueType) : Prop :=
  Builds ctx given step (fun _ => True) fun code => Turns ctx code pops pushes

namespace Turns

theorem nil : Turns ctx [] stack stack :=
  fun _ => ⟨Wasm.spares_nil, Wasm.Code.typed_nil.mpr rfl⟩

theorem append (turnsFirst : Turns ctx first pre mid) (turnsSecond : Turns ctx second mid post) :
    Turns ctx (first ++ second) pre post :=
  fun deeper => ⟨Wasm.spares_append.mpr ⟨(turnsFirst deeper).1, (turnsSecond deeper).1⟩,
    (turnsFirst deeper).2.append (turnsSecond deeper).2⟩

theorem above (turns : Turns ctx code pre post) (below : List ValueType) :
    Turns ctx code (pre ++ below) (post ++ below) := by
  intro deeper
  rw [append_assoc, append_assoc]
  exact turns (below ++ deeper)

theorem cons (turnsFirst : Turns ctx [first] pre mid) (turnsRest : Turns ctx rest mid post) :
    Turns ctx (first :: rest) pre post := append turnsFirst turnsRest

theorem inside (turns : Turns ctx code pre post) : Turns ctx.inside code pre post := by
  intro deeper
  refine ⟨(turns deeper).1, Wasm.Code.Typed.weaken ?_ code (turns deeper).2⟩
  exact ⟨rfl, rfl, prefix_rfl, rfl, Nat.le_succ _⟩

theorem closed (turns : Turns ctx code [] []) : Spares code ∧ Code.Typed ctx code [] [] := turns []

end Turns

end Imperative.Lowering
