import Imperative.Proofs.Typing.Scene
import Imperative.Proofs.Typing.Throughout

/-!
# The analysis of expressions follows the typing rules

The context is proper, so the error type, which the analysis lets pass everywhere, never comes up.
-/

namespace Imperative.Typing

open List

theorem variableType_observes {span : Span} :
    Observes tbl (variableType span name) fun scene type =>
      scene.context name = some (.var type) := by
  apply lookup_observes.bind
  intro found
  match found with
  | some (.var type) =>
    apply (Observes.pure type).imp
    rintro scene res rfl found
    exact found.symm
  | some (.type _) => exact reject_ensures
  | some (.routine _) => exact reject_ensures
  | none => exact reject_ensures

theorem fieldType_observes {span : Span} :
    Observes tbl (fieldType span recv field) fun _ type =>
      recv.isError = false →
        ∃ name fields, recv = .record name fields ∧ Ty.field? fields field = some type := by
  unfold fieldType
  split
  · next name fields =>
    split
    · next type found =>
      apply (Observes.pure type).imp
      rintro scene res rfl _
      exact ⟨name, fields, rfl, found⟩
    · exact reject_ensures
  · exact (Observes.pure _).imp fun _ _ _ isType => by simp [Ty.isError] at isType
  · exact reject_ensures

theorem elementType_observes {span : Span} :
    Observes tbl (elementType span recv) fun _ type =>
      recv.isError = false → ∃ size, recv = .array type size := by
  unfold elementType
  split
  · next element size =>
    apply (Observes.pure element).imp
    rintro scene res rfl _
    exact ⟨size, rfl⟩
  · exact (Observes.pure _).imp fun _ _ _ isType => by simp [Ty.isError] at isType
  · exact reject_ensures

theorem checkIndex_observes {span : Span} :
    Observes tbl (checkIndex span type) fun _ _ => type.assignable .integer = true := unless_report

theorem checkArguments_observes (pos : Nat) (found : List (Span × Ty)) (expected : List Ty) :
    Observes tbl (checkArguments pos found expected) fun _ _ =>
      found.length = expected.length →
        List.Forall₂ (fun arg param => arg.2.assignable param = true) found expected := by
  induction found generalizing pos expected with
  | nil =>
    cases expected with
    | nil => exact (Observes.pure ()).imp fun _ _ _ _ => .nil
    | cons _ _ => exact (Observes.pure ()).imp fun _ _ _ sameLength => by simp at sameLength
  | cons arg rest ih =>
    cases expected with
    | nil => exact (Observes.pure ()).imp fun _ _ _ sameLength => by simp at sameLength
    | cons param params =>
      rw [checkArguments]
      apply (unless_report_bind (ih (pos + 1) params)).imp
      rintro scene _ ⟨assignable, fits⟩ sameLength
      exact .cons assignable (fits (by simpa using sameLength))

theorem callType_observes {span : Span} :
    Observes tbl (callType span name args) fun scene type =>
      ∃ sig, scene.context name = some (.routine sig) ∧ type = sig.result ∧
        List.Forall₂ (fun arg param => arg.2.assignable param = true)
          args (sig.parameters.map Prod.snd) := by
  apply lookup_observes.bind
  intro found
  match found with
  | some (.routine sig) =>
    apply Ensures.ite
    · intro sameLength
      apply (checkArguments_observes 1 args (sig.parameters.map Prod.snd)).bind
      intro _
      apply (Observes.pure sig.result).imp
      rintro scene res rfl fits found
      exact ⟨sig, found.symm, rfl, fits (by simpa using sameLength.symm)⟩
    · intro _
      exact reject_ensures
  | some (.var _) => exact reject_ensures
  | some (.type _) => exact reject_ensures
  | none => exact reject_ensures

theorem unaryType_observes {span : Span} :
    Observes tbl (unaryType span op operand) fun _ type =>
      operand.isError = false →
        (op ≠ .not ∧ operand.isNumeric = true ∧ type = operand) ∨
          (op = .not ∧ operand.assignable .boolean = true ∧ type = .boolean) := by
  apply Ensures.ite
  · intro isError
    exact (Observes.pure _).imp fun _ _ _ isType => by simp [isError] at isType
  · intro _
    cases op with
    | plus | minus =>
      apply Ensures.ite
      · intro numeric
        apply (Observes.pure operand).imp
        rintro scene res rfl _
        exact .inl ⟨by simp, numeric, rfl⟩
      · intro _
        exact reject_ensures
    | not =>
      apply Ensures.ite
      · intro assignable
        apply (Observes.pure Ty.boolean).imp
        rintro scene res rfl _
        exact .inr ⟨rfl, assignable, rfl⟩
      · intro _
        exact reject_ensures

theorem logicalType_observes {span : Span} :
    Observes tbl (logicalType span op left right) fun _ type =>
      left.assignable .boolean = true ∧ right.assignable .boolean = true ∧ type = .boolean := by
  unfold logicalType
  apply Observes.imp
  · apply unless_report_bind
    apply unless_report_bind
    exact Observes.pure _
  · rintro scene type ⟨leftAssignable, rightAssignable, rfl⟩
    simp [leftAssignable, rightAssignable]

/-- The ways in which a binary operator on two operands has a type. -/
inductive BinaryTyped (op : BinaryOperator) (left right : Ty) : Ty → Prop
  | logical (logical : op.isLogical = true) (leftAssignable : left.assignable .boolean = true)
      (rightAssignable : right.assignable .boolean = true) : BinaryTyped op left right .boolean
  | arithmetic (arithmetic : op.isArithmetic = true) (leftNumeric : left.isNumeric = true)
      (rightNumeric : right.isNumeric = true) :
      BinaryTyped op left right (if left.isInteger && right.isInteger then .integer else .real)
  | comparison (comparison : op.isComparison = true) (comparable : comparable left right = true) :
      BinaryTyped op left right .boolean

theorem binaryType_observes {span : Span} :
    Observes tbl (binaryType span op left right) fun _ type =>
      left.isError = false → right.isError = false → BinaryTyped op left right type := by
  apply Ensures.ite
  · intro logical
    apply logicalType_observes.imp
    rintro scene type ⟨leftAssignable, rightAssignable, rfl⟩ _ _
    exact .logical logical leftAssignable rightAssignable
  · intro _
    apply Ensures.ite
    · intro isError
      exact (Observes.pure _).imp fun _ _ _ leftIsType rightIsType => by
        simp [leftIsType, rightIsType] at isError
    · intro _
      apply Ensures.ite
      · intro cond
        simp only [Bool.and_eq_true] at cond
        obtain ⟨⟨arithmetic, leftNumeric⟩, rightNumeric⟩ := cond
        apply (Observes.pure _).imp
        rintro scene type rfl _ _
        exact .arithmetic arithmetic leftNumeric rightNumeric
      · intro _
        apply Ensures.ite
        · intro cond
          simp only [Bool.and_eq_true] at cond
          apply (Observes.pure _).imp
          rintro scene type rfl _ _
          exact .comparison cond.1 cond.2
        · intro _
          exact reject_ensures

def Admits (Converts : Ty → Ty → Prop) : Prop :=
  ∀ src tgt, src.Proper → tgt.Proper → src.assignable tgt = true → Converts src tgt

section Rules

theorem HasType.converts (admits : Admits Converts) (proper : ctx.Proper)
    (typed : HasType Converts ctx val found) (tgtProper : tgt.Proper)
    (assignable : found.assignable tgt = true) : Converts found tgt :=
  admits found tgt
    ((typed.returnable proper).proper_of_assignable tgtProper assignable) tgtProper assignable

theorem HasType.binary (admits : Admits Converts) (proper : ctx.Proper) {span : Span}
    (leftTyped : HasType Converts ctx left leftType)
    (rightTyped : HasType Converts ctx right rightType)
    (typed : BinaryTyped op leftType rightType type) :
    HasType Converts ctx (.binary span op left right) type := by
  cases typed with
  | logical logical leftAssignable rightAssignable =>
    exact .logical logical
      leftTyped (leftTyped.converts admits proper trivial leftAssignable)
      rightTyped (rightTyped.converts admits proper trivial rightAssignable)
  | arithmetic arithmetic leftNumeric rightNumeric =>
    exact .arithmetic arithmetic leftTyped leftNumeric rightTyped rightNumeric
  | comparison comparison comparable => exact .comparison comparison leftTyped rightTyped comparable

theorem Fits.of_assignable (admits : Admits Converts) (proper : ctx.Proper)
    (typed : List.Forall₂ (fun arg entry => HasType Converts ctx arg entry.2) args found)
    (assignable : List.Forall₂ (fun (entry : Span × Ty) param => entry.2.assignable param = true)
      found expected)
    (expectedProper : ∀ param ∈ expected, param.Proper) : Fits Converts ctx args expected := by
  induction typed generalizing expected with
  | nil =>
    cases assignable
    exact .nil
  | cons argumentTyped _ ih =>
    cases assignable with
    | cons headAssignable tailAssignable =>
      refine .cons argumentTyped ?_ ?_
      · exact argumentTyped.converts admits proper (expectedProper _ (by simp)) headAssignable
      · apply ih tailAssignable
        intro param mem
        exact expectedProper param (by simp [mem])

mutual

/-- An expression whose type is found without a diagnostic has that type, which is recorded. -/
theorem infer_observes (admits : Admits Converts) : (expr : Expr) →
    Observes tbl (infer expr) fun scene type =>
      scene.context.Proper → Noted Converts tbl scene.context expr type
  | .integer span _ => by
    apply record_observes.imp
    rintro scene type ⟨rfl, entered⟩ _
    exact .of_parts .integer (forall_mem_nil _) entered
  | .real span _ => by
    apply record_observes.imp
    rintro scene type ⟨rfl, entered⟩ _
    exact .of_parts .real (forall_mem_nil _) entered
  | .boolean span _ => by
    apply record_observes.imp
    rintro scene type ⟨rfl, entered⟩ _
    exact .of_parts .boolean (forall_mem_nil _) entered
  | .name span name => by
    apply variableType_observes.bind
    intro type
    apply record_observes.imp
    rintro scene res ⟨rfl, entered⟩ found _
    exact .of_parts (.name found) (forall_mem_nil _) entered
  | .field span recv field => by
    apply (infer_observes admits recv).bind
    intro recvType
    apply fieldType_observes.bind
    intro type
    apply record_observes.imp
    rintro scene res ⟨rfl, entered⟩ fieldFound recvNoted proper
    obtain ⟨typed, recorded⟩ := recvNoted proper
    obtain ⟨name, fields, rfl, found⟩ := fieldFound (typed.returnable proper).not_error
    exact .of_parts (.field typed found) recorded entered
  | .index span recv pos => by
    apply (infer_observes admits recv).bind
    intro recvType
    apply (infer_observes admits pos).bind
    intro posType
    apply checkIndex_observes.bind
    intro _
    apply elementType_observes.bind
    intro type
    apply record_observes.imp
    rintro scene res ⟨rfl, entered⟩ elementFound assignable posNoted recvNoted proper
    obtain ⟨typed, recorded⟩ := recvNoted proper
    obtain ⟨positionTyped, posRecorded⟩ := posNoted proper
    obtain ⟨size, rfl⟩ := elementFound (typed.returnable proper).not_error
    refine .of_parts (.index typed positionTyped
      (positionTyped.converts admits proper trivial assignable)) ?_ entered
    rw [Expr.parts_index]
    exact forall_mem_append.mpr ⟨recorded, posRecorded⟩
  | .call span name args => by
    apply (inferAll_observes admits args).bind
    intro found
    apply callType_observes.bind
    intro type
    apply record_observes.imp
    rintro scene res ⟨rfl, entered⟩ ⟨sig, declared, rfl, assignable⟩ noted proper
    obtain ⟨typed, recorded⟩ := noted proper
    refine .of_parts (.call declared (.of_assignable admits proper typed assignable ?_)) recorded
      entered
    intro param mem
    obtain ⟨entry, inParams, rfl⟩ := mem_map.mp mem
    exact (proper name _ declared).1 entry inParams
  | .unary span op operand => by
    apply (infer_observes admits operand).bind
    intro operandType
    apply unaryType_observes.bind
    intro type
    apply record_observes.imp
    rintro scene res ⟨rfl, entered⟩ unaryTyped operandNoted proper
    obtain ⟨typed, recorded⟩ := operandNoted proper
    rcases unaryTyped (typed.returnable proper).not_error with
      ⟨signed, numeric, rfl⟩ | ⟨rfl, assignable, rfl⟩
    · exact .of_parts (.sign signed typed numeric) recorded entered
    · exact .of_parts (.not typed (typed.converts admits proper trivial assignable))
        recorded entered
  | .binary span op left right => by
    apply (infer_observes admits left).bind
    intro leftType
    apply (infer_observes admits right).bind
    intro rightType
    apply binaryType_observes.bind
    intro type
    apply record_observes.imp
    rintro scene res ⟨rfl, entered⟩ binaryTyped rightNoted leftNoted proper
    obtain ⟨leftTyped, leftRecorded⟩ := leftNoted proper
    obtain ⟨rightTyped, rightRecorded⟩ := rightNoted proper
    refine .of_parts (.binary admits proper leftTyped rightTyped
      (binaryTyped (leftTyped.returnable proper).not_error
        (rightTyped.returnable proper).not_error)) ?_ entered
    rw [Expr.parts_binary]
    exact forall_mem_append.mpr ⟨leftRecorded, rightRecorded⟩

theorem inferAll_observes (admits : Admits Converts) : (expressions : List Expr) →
    Observes tbl (inferAll expressions) fun scene found =>
      scene.context.Proper →
        List.Forall₂ (fun expr entry => HasType Converts scene.context expr entry.2)
          expressions found ∧
        ∀ node ∈ Expr.allNodes expressions, HasEntry Converts tbl scene.context node
  | [] => by
    apply (Observes.pure _).imp
    rintro scene found rfl _
    exact ⟨.nil, forall_mem_nil _⟩
  | first :: rest => by
    rw [inferAll, Expr.allNodes_cons]
    apply (infer_observes admits first).bind
    intro firstType
    apply (inferAll_observes admits rest).bind
    intro found
    apply (Observes.pure _).imp
    rintro scene res rfl restNoted firstNoted proper
    obtain ⟨restTyped, restRecorded⟩ := restNoted proper
    exact ⟨.cons (firstNoted proper).typed restTyped,
      forall_mem_append.mpr ⟨(firstNoted proper).recorded, restRecorded⟩⟩

end

end Rules

end Imperative.Typing
