import Imperative.Typing.SymbolTable

/-!
# Types that go together

Identity of types is equality of outlines, which leave out the sizes of arrays and the fields of
records.  So it is an equivalence, except for the error type, which goes with every type.
-/

namespace Imperative

namespace Ty

/-- The error type is neither the type nor met on the way down the elements of an array. -/
def Known : Ty → Prop
  | error => False
  | array element _ => element.Known
  | integer | real | boolean | void | record _ _ => True

def outline : Ty → Ty
  | array element _ => array element.outline none
  | record name _ => record name []
  | type => type

theorem same_iff : {left right : Ty} → left.Known → right.Known →
    (left.same right = true ↔ left.outline = right.outline)
  | .array left _, .array right _, leftKnown, rightKnown => by
    have elements : left.same right = true ↔ left.outline = right.outline :=
      same_iff leftKnown rightKnown
    simpa [same, outline] using elements
  | .integer, right, _, rightKnown | .real, right, _, rightKnown | .boolean, right, _, rightKnown
  | .void, right, _, rightKnown | .record _ _, right, _, rightKnown => by
    cases right <;> simp_all [same, outline, Known]
  | .array left _, .integer, _, _ | .array left _, .real, _, _ | .array left _, .boolean, _, _
  | .array left _, .void, _, _ | .array left _, .record _ _, _, _ => by
    simp [same, outline]

/-- Values go from one outline to the other, unchanged or from a whole number or a truth value. -/
def Flows (source target : Ty) : Prop :=
  source = target ∧ source ≠ .void ∨
    (source = .integer ∨ source = .boolean) ∧
      (target = .integer ∨ target = .real ∨ target = .boolean)

theorem assignable_iff {source target : Ty} (sourceKnown : source.Known)
    (targetKnown : target.Known) :
    source.assignable target = true ↔ Flows source.outline target.outline := by
  cases source with
  | error => exact sourceKnown.elim
  | array element _ =>
    cases target with
    | error => exact targetKnown.elim
    | array other _ =>
      have elements : element.same other = true ↔ element.outline = other.outline :=
        same_iff sourceKnown targetKnown
      simpa [assignable, outline, Flows] using elements
    | integer | real | boolean | void | record => simp [assignable, outline, Flows]
  | integer | real | boolean | void | record =>
    cases target with
    | error => exact targetKnown.elim
    | integer | real | boolean | void | array | record => simp [assignable, outline, Flows]

theorem Flows.trans (start : Flows first second)
    (finish : Flows second third) : Flows first third := by
  rcases start with ⟨rfl, notVoid⟩ | ⟨discrete, scalar⟩
  · exact finish
  · rcases finish with ⟨rfl, notVoid⟩ | ⟨-, stillScalar⟩
    · exact .inr ⟨discrete, scalar⟩
    · exact .inr ⟨discrete, stillScalar⟩

end Ty

namespace Typing

def Signature.Known (signature : Signature) : Prop :=
  (∀ parameter ∈ signature.parameters, parameter.2.Known) ∧ signature.result.Known

def Signature.outline (signature : Signature) : List Ty × Ty :=
  (signature.parameters.map (·.2.outline), signature.result.outline)

theorem Signature.agrees_iff {left right : Signature} (leftKnown : left.Known)
    (rightKnown : right.Known) : left.agrees right = true ↔ left.outline = right.outline := by
  obtain ⟨parameters, result, _⟩ := left
  obtain ⟨others, otherResult, _⟩ := right
  obtain ⟨parametersKnown, resultKnown⟩ := leftKnown
  obtain ⟨othersKnown, otherKnown⟩ := rightKnown
  have inOrder (parameters others : List (String × Ty))
      (parametersKnown : ∀ parameter ∈ parameters, parameter.2.Known)
      (othersKnown : ∀ other ∈ others, other.2.Known) : (parameters.length = others.length ∧
        (parameters.zip others).all (fun pair => pair.1.2.same pair.2.2) = true) ↔
        parameters.map (·.2.outline) = others.map (·.2.outline) := by
    induction parameters generalizing others with
    | nil => cases others <;> simp
    | cons parameter parameters ih =>
      cases others with
      | nil => simp
      | cons other others =>
        obtain ⟨firstKnown, laterKnown⟩ := List.forall_mem_cons.mp parametersKnown
        obtain ⟨otherKnown, othersKnown⟩ := List.forall_mem_cons.mp othersKnown
        rw [List.map_cons, List.map_cons, List.cons.injEq, ← ih others laterKnown othersKnown,
          ← Ty.same_iff firstKnown otherKnown, List.zip_cons_cons, List.all_cons,
          Bool.and_eq_true, List.length_cons, List.length_cons, Nat.add_right_cancel_iff]
        exact and_left_comm
  simp only [agrees, Bool.and_eq_true, decide_eq_true_eq, outline, Prod.mk.injEq]
  exact and_congr (inOrder parameters others parametersKnown othersKnown)
    (Ty.same_iff resultKnown otherKnown)

theorem equivalence_of_classes {classOf : α → β}
    (decided : ∀ left right, related left right ↔ classOf left = classOf right) :
    Equivalence related where
  refl _ := (decided _ _).mpr rfl
  symm isRelated := (decided _ _).mpr ((decided _ _).mp isRelated).symm
  trans first second :=
    (decided _ _).mpr (((decided _ _).mp first).trans ((decided _ _).mp second))

/-- A type that is known. -/
abbrev KnownType := { type : Ty // type.Known }

abbrev KnownSignature := { signature : Signature // signature.Known }

/--
Known types fall into classes of types that are the same, and assignability is a transitive
relation of these classes in which only `void` is not related to itself.  A real goes nowhere but
to a real.  Signatures that agree have types of the same classes.
-/
theorem compatibility_coherent :
    Equivalence (fun left right : KnownType => left.val.same right.val = true) ∧
      (∀ first second third : KnownType, first.val.assignable second.val = true →
        second.val.assignable third.val = true → first.val.assignable third.val = true) ∧
      (∀ type : KnownType, type.val.assignable type.val = true ↔ type.val ≠ .void) ∧
      (∀ source other target further : KnownType, source.val.same other.val = true →
        target.val.same further.val = true →
        (source.val.assignable target.val = true ↔ other.val.assignable further.val = true)) ∧
      (∀ target : KnownType, Ty.real.assignable target.val = true → target.val = .real) ∧
      Equivalence (fun left right : KnownSignature => left.val.agrees right.val = true) := by
  have flows (source target : KnownType) := Ty.assignable_iff source.property target.property
  refine ⟨?_, ?_, ?_, ?_, ?_, ?_⟩
  · exact equivalence_of_classes fun left right => Ty.same_iff left.property right.property
  · intro first second third start finish
    rw [flows] at start finish ⊢
    exact start.trans finish
  · intro type
    rw [flows, Ty.Flows]
    obtain ⟨type, known⟩ := type
    cases type <;> simp [Ty.outline]
  · intro source other target further sources targets
    rw [Ty.same_iff source.property other.property] at sources
    rw [Ty.same_iff target.property further.property] at targets
    rw [flows, flows, sources, targets]
  · rintro ⟨target, known⟩ assignable
    cases target with
    | real => rfl
    | error => exact known.elim
    | integer | boolean | void | array | record => cases assignable
  · exact equivalence_of_classes fun left right => Signature.agrees_iff left.property right.property

end Typing

end Imperative
