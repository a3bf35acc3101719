import Imperative.Lowering.Program
import Imperative.Proofs.Lowering.Frames
import Imperative.Proofs.Wasm.Runs

/-!
# Temporaries are given back

A local that was reserved before an expression was lowered is reserved after it, and the code of
the expression does not set it.
-/

namespace Imperative.Lowering

open Wasm (Code ValueType codeSets)

/-- In the frame some temporaries are still borrowed, the newest first, since the first frame. -/
def Owes (start : Frame) : List Nat → Frame → Prop
  | [], frame => Advances start frame
  | index :: older, frame =>
    ∃ lender given, Owes start older lender ∧ lender.Gives given index ∧ Advances given frame

def Frame.Spares (frame : Frame) (indices : List Nat) : Prop :=
  ∀ index ∈ indices, ¬ frame.Reserved index

/--
The step gives back the temporaries, and keeps every local reserved that was reserved.  If none of
the used locals was, then none of those that its value sets was.
-/
def Returns {α : Type} (owed used : List Nat) (step : Emit α) (sets : α → List Nat) : Prop :=
  ∀ ⦃start pre post : Frame⦄ ⦃val : α⦄, Owes start owed pre → start.Spares used →
    step pre = .ok (val, post) → Advances start post ∧ start.Spares (sets val)

section Steps

variable {α : Type} {start : Frame}

theorem Owes.advances (owes : Owes start owed pre) : Advances start pre := by
  induction owed generalizing pre with
  | nil => exact owes
  | cons index older ih =>
    obtain ⟨lender, given, owes, gives, later⟩ := owes
    exact (ih owes).trans (gives.advances.trans later)

theorem Owes.advance (owes : Owes start owed pre) (advances : Advances pre post) :
    Owes start owed post := by
  cases owed with
  | nil => exact .trans owes advances
  | cons =>
    obtain ⟨lender, given, older, gives, earlier⟩ := owes
    exact ⟨lender, given, older, gives, earlier.trans advances⟩

theorem Frame.Spares.earlier (spares : pre.Spares used) (advances : Advances start pre) :
    start.Spares used :=
  fun index mem isReserved => spares index mem (advances.grows.reserved index isReserved)

namespace Returns

theorem lift {computed : Except Error α} (within : ∀ val, computed = .ok val → sets val ⊆ used) :
    Returns [] used (liftM computed) sets := by
  intro start pre post val owes spares isOk
  rcases lift_ok.mp isOk with ⟨isVal, rfl⟩
  exact ⟨owes, fun index mem => spares index (within val isVal mem)⟩

theorem mono (stepReturns : Returns owed fewer step sets) (within : fewer ⊆ used) :
    Returns owed used step sets :=
  fun _ _ _ _ owes spares => stepReturns owes fun index mem => spares index (within mem)

theorem pure (within : sets val ⊆ used) : Returns [] used (Pure.pure val) sets := by
  intro start pre post res owes spares isOk
  rcases pure_ok.mp isOk with ⟨rfl, rfl⟩
  exact ⟨owes, fun index mem => spares index (within mem)⟩

theorem bind (stepReturns : Returns [] [] step first)
    (rest : ∀ val, Returns owed (first val ++ used) (next val) sets) :
    Returns owed used (step >>= next) sets := by
  intro start pre post res owes spares isOk
  rcases bind_ok.mp isOk with ⟨val, mid, isFirst, isRest⟩
  obtain ⟨advances, firstSpares⟩ :=
    stepReturns (.refl owes.advances.tidy) (List.forall_mem_nil _) isFirst
  exact rest val (owes.advance advances)
    (List.forall_mem_append.mpr ⟨firstSpares.earlier owes.advances, spares⟩) isRest

theorem andThen (stepReturns : Returns owed used step first)
    (rest : ∀ val, Returns [] (first val) (next val) sets) :
    Returns owed used (step >>= next) sets := by
  intro start pre post res owes spares isOk
  rcases bind_ok.mp isOk with ⟨val, mid, isFirst, isRest⟩
  obtain ⟨advances, firstSpares⟩ := stepReturns owes spares isFirst
  exact rest val advances firstSpares isRest

theorem compute {computed : Except Error β}
    (rest : ∀ val, computed = .ok val → Returns owed used (next val) sets) :
    Returns owed used (liftM computed >>= next) sets := by
  intro start pre post res owes spares isOk
  rcases bind_ok.mp isOk with ⟨val, mid, isLifted, isRest⟩
  rcases lift_ok.mp isLifted with ⟨isVal, rfl⟩
  exact rest val isVal owes spares isRest

theorem acquire (rest : ∀ index, Returns (index :: owed) (index :: used) (next index) sets) :
    Returns owed used (Lowering.acquire type >>= next) sets := by
  intro start pre post res owes spares isOk
  rcases bind_ok.mp isOk with ⟨index, mid, takes, isRest⟩
  have gives := acquire_gives owes.advances.tidy takes
  exact rest index ⟨pre, mid, owes, gives, .refl gives.tidy⟩ (List.forall_mem_cons.mpr
    ⟨fun isReserved => gives.fresh (owes.advances.grows.reserved index isReserved), spares⟩) isRest

theorem release (rest : Returns owed used (next ()) sets) :
    Returns (index :: owed) used (Lowering.release type index >>= next) sets := by
  rintro start pre post res ⟨lender, given, owes, gives, advances⟩ spares isOk
  rcases bind_ok.mp isOk with ⟨_, mid, frees, isRest⟩
  exact rest (owes.advance (release_keeps gives advances frees)) spares isRest

end Returns

end Steps

@[simp]
theorem codeSets_coerce (src target : Ty) : codeSets (coerce src target) = [] := by
  unfold coerce
  repeat' split
  all_goals rfl

@[simp]
theorem codeSets_addOffset : codeSets (addOffset offset) = [] := by
  unfold addOffset
  split <;> rfl

theorem codeSets_loaded (isOk : loaded span emitted = .ok val) :
    codeSets val.1 = codeSets emitted.1 := by
  obtain ⟨⟨code, type⟩, isLoad, isPure⟩ := except_bind_ok.mp isOk
  cases isPure
  match found : emitted.2, isLoad with
  | .value _, isLoad | .place (.slot _) _, isLoad | .place (.global _) _, isLoad =>
    cases isLoad
    simp
  | .place (.memory _) type, isLoad =>
    rw [Operand.load] at isLoad
    split at isLoad
    · cases isLoad
      simp
    · obtain ⟨_, -, isPure⟩ := except_bind_ok.mp isLoad
      cases isPure
      simp [load]

@[simp]
theorem codeSets_elementAddress :
    codeSets (elementAddress offset array position stride index) =
      array :: (codeSets index ++ [position]) := by
  simp [elementAddress, checkBounds, elementDistance, compute, word, load]

theorem codeSets_literal (isOk : literal span val = .ok instr) : instr.sets = [] := by
  unfold literal at isOk
  split at isOk <;> cases isOk
  rfl

theorem codeSets_variable (isOk : variableOperand env span name = .ok val) :
    codeSets val.1 = [] := by
  unfold variableOperand at isOk
  repeat' split at isOk
  all_goals
    cases isOk
    try rfl

abbrev Emits {α : Type} (step : Emit (Code × α)) : Prop :=
  Returns [] [] step fun res => codeSets res.1

theorem realOperation_returns : Returns [] [] (realOperation op) codeSets := by
  cases op with
  | mod =>
    refine .acquire fun _ => .acquire fun _ => .release (.release (.pure ?_))
    simp [remainderCode, compute]
  | add | sub | mul | div | less | lessEqual | greater | greaterEqual | equal | notEqual | and | or
  | xor => exact .pure (by simp [compute])

theorem binaryOperation_returns :
    Returns [] (codeSets left.1 ++ codeSets right.1) (binaryOperation op left right)
      fun res => codeSets res.1 := by
  simp only [binaryOperation]
  split
  · exact .pure (by simp [compute])
  · split
    · exact realOperation_returns.bind fun _ => .pure (by simp)
    · exact .pure (by simp [compute])

mutual

theorem operand_returns (env : Environment) : (val : Expr) → Emits (operand env val)
  | .integer _ _ => .compute fun _ isLiteral => .pure (by simp [codeSets_literal isLiteral])
  | .real _ _ | .boolean _ _ => .pure (by simp)
  | .name _ _ => .lift fun _ isOk => by simp [codeSets_variable isOk]
  | .field _ recv _ => by
    refine (operand_returns env recv).bind fun _ => .compute fun _ _ => .compute fun _ _ => ?_
    exact .pure (by simp)
  | .index _ recv index => by
    refine (operand_returns env recv).bind fun _ => .compute fun _ _ => .compute fun _ _ => ?_
    refine .compute fun _ _ => .acquire fun _ => (operand_returns env index).bind fun _ => ?_
    refine .compute fun _ isLoaded => .acquire fun _ => .release (.release (.pure ?_))
    grind [Wasm.codeSets_append, codeSets_elementAddress, codeSets_coerce, codeSets_loaded isLoaded]
  | .call _ _ args =>
    .compute fun _ _ => (argumentCode_returns args _).bind fun _ => .pure (by simp)
  | .unary _ .plus inner =>
    (operand_returns env inner).bind fun _ => .compute fun _ isLoaded =>
      .pure (by simp [codeSets_loaded isLoaded])
  | .unary _ .not inner =>
    (operand_returns env inner).bind fun _ => .compute fun _ isLoaded =>
      .pure (by simp [codeSets_loaded isLoaded, compute])
  | .unary span .minus inner => by
    have innerReturns := operand_returns env inner
    rcases minus_cases env span inner with ⟨place, val, rfl⟩ | isMinus
    · exact .compute fun _ isLiteral => .pure (by simp [codeSets_literal isLiteral])
    · rw [isMinus]
      refine innerReturns.bind fun _ => .compute fun _ isLoaded => .pure ?_
      unfold negation
      split <;> simp [codeSets_loaded isLoaded, compute]
  | .binary _ op left right => by
    refine (operand_returns env left).bind fun _ => .compute fun _ leftLoaded => ?_
    refine (operand_returns env right).bind fun _ => .compute fun _ rightLoaded => ?_
    refine (binaryOperation_returns.mono ?_).andThen fun _ => .pure (by simp)
    simp [codeSets_loaded leftLoaded, codeSets_loaded rightLoaded]

theorem argumentCode_returns :
    (args : List Expr) → (params : List Ty) → Returns [] [] (argumentCode env args params) codeSets
  | [], _ | _ :: _, [] => by
    rw [argumentCode]
    · exact .pure (by simp)
    · nofun
  | argument :: args, _ :: params => by
    refine (operand_returns env argument).bind fun _ => .compute fun _ isLoaded => ?_
    exact (argumentCode_returns args params).bind fun _ =>
      .pure (by simp [codeSets_loaded isLoaded])

end

theorem expression_returns : Emits (expression env val) :=
  (operand_returns env val).bind fun _ => .lift fun _ isLoaded => by
    simp [codeSets_loaded isLoaded]

theorem copyAggregate_returns : Returns [] [] (copyAggregate type) fun _ => [] :=
  .acquire fun _ => .acquire fun _ => .acquire fun _ => .compute fun _ _ =>
    .release (.release (.release (.pure (List.nil_subset _))))

theorem computeDeferred_returns : Returns [] [] (computeDeferred env deferred) fun _ => [] := by
  induction deferred with
  | nil => exact .pure (List.nil_subset _)
  | cons first rest ih =>
    cases first with
    | scalar val type index =>
      exact expression_returns.bind fun _ => ih.bind fun _ => .pure (List.nil_subset _)
    | aggregate val type addr =>
      exact expression_returns.bind fun _ => copyAggregate_returns.bind fun _ =>
        ih.bind fun _ => .pure (List.nil_subset _)

end Imperative.Lowering
