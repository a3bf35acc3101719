import Imperative.Lowering.Layout
import Imperative.Proofs.Typing.Records

/-!
# Conversions of aggregates

An aggregate is copied with the layout of the target on both sides, and an array that is passed is
read with the layout of the parameter.  So the two types have to agree on where the parts are; only
the length of the outermost array may differ.
-/

namespace Imperative.Lowering

/-- The records have the same fields at the same offsets and of the same types, and one size. -/
structure FieldsAgree (src : String) (sourceFields : List (String × Ty)) (tgt : String)
    (targetFields : List (String × Ty)) : Prop where
  names : sourceFields.map Prod.fst = targetFields.map Prod.fst
  offsets : ∀ field, fieldOffset src sourceFields field = fieldOffset tgt targetFields field
  size : size (.record src sourceFields) = size (.record tgt targetFields)

theorem FieldsAgree.refl : FieldsAgree name fields name fields where
  names := rfl
  offsets _ := rfl
  size := rfl

/-- The parts of the two types are at the same places. -/
def SameLayout : Ty → Ty → Prop
  | .array src srcLength, .array tgt tgtLength => srcLength = tgtLength ∧ SameLayout src tgt
  | .record src sourceFields, .record tgt targetFields =>
    FieldsAgree src sourceFields tgt targetFields
  | .integer, .integer | .real, .real | .boolean, .boolean => True
  | _, _ => False

/-- A value of the first type can be taken for one of the second, up to the number of elements. -/
def LayoutCompatible : Ty → Ty → Prop
  | .array src _, .array tgt _ => size src = size tgt ∧ SameLayout src tgt
  | .record src sourceFields, .record tgt targetFields =>
    FieldsAgree src sourceFields tgt targetFields
  | _, _ => False

/-- Arrays have the same lengths at every depth. -/
def LengthsAgree : Ty → Ty → Prop
  | .array src srcLength, .array tgt tgtLength => srcLength = tgtLength ∧ LengthsAgree src tgt
  | _, _ => True

def InnerLengthsAgree : Ty → Ty → Prop
  | .array src _, .array tgt _ => LengthsAgree src tgt
  | _, _ => True

theorem SameLayout.refl : (type : Ty) → type.Proper → SameLayout type type
  | .integer, _ | .real, _ | .boolean, _ => trivial
  | .array element _, proper => ⟨rfl, SameLayout.refl element proper⟩
  | .record _ _, _ => FieldsAgree.refl
  | .void, proper | .error, proper => proper.elim

theorem SameLayout.lengths (same : SameLayout src tgt) : LengthsAgree src tgt := by
  fun_induction LengthsAgree src tgt with
  | case1 _ _ _ _ ih => exact ⟨same.1, ih same.2⟩
  | case2 => trivial

theorem eq_of_same :
    (src tgt : Ty) → src.Proper → tgt.Proper →
      src.Listed catalog → tgt.Listed catalog → src.same tgt = true →
      LengthsAgree src tgt → src = tgt
  | .integer, tgt, _, _, _, _, _, _ | .real, tgt, _, _, _, _, _, _
  | .boolean, tgt, _, _, _, _, _, _ => by
    cases tgt <;> simp_all [Ty.same]
  | .void, _, srcProper, _, _, _, _, _ | .error, _, srcProper, _, _, _, _, _ => srcProper.elim
  | .array src length, tgt, srcProper, tgtProper, srcListed, tgtListed, same, agree => by
    cases tgt with
    | array tgt tgtLength =>
      rw [Ty.same] at same
      rw [eq_of_same src tgt srcProper tgtProper srcListed tgtListed same agree.2, agree.1]
    | error => exact tgtProper.elim
    | integer | real | boolean | void | record => simp [Ty.same] at same
  | .record src fields, tgt, _, tgtProper, srcListed, tgtListed, same, _ => by
    cases tgt with
    | record tgt targetFields =>
      obtain rfl : src = tgt := by simpa [Ty.same] using same
      rw [Option.some.inj (srcListed.1.symm.trans tgtListed.1)]
    | error => exact tgtProper.elim
    | integer | real | boolean | void | array => simp [Ty.same] at same

/-- The value may be stored, and neither type has anything in it that could not be typed. -/
def Stored (src tgt : Ty) : Prop := src.Proper ∧ tgt.Proper ∧ src.assignable tgt = true

/--
The value may be stored, an aggregate only as an aggregate, and then their layouts are compatible
just if the arrays inside of arrays have the same lengths.
-/
structure Conforms (src tgt : Ty) : Prop where
  assignable : src.assignable tgt = true
  aggregate : src.isAggregate = tgt.isAggregate
  layout : src.isAggregate = true → (LayoutCompatible src tgt ↔ InnerLengthsAgree src tgt)

/-- A value that may be stored conforms, if the records in both types go by their names. -/
theorem stored_conforms : Typing.Strengthens Stored Conforms := by
  rintro catalog src tgt srcListed tgtListed ⟨srcProper, tgtProper, assignable⟩
  cases src with
  | void | error => simp at srcProper
  | integer | real | boolean =>
    refine ⟨assignable, ?_, fun isAggregate => by cases isAggregate⟩
    cases tgt <;> simp_all [Ty.assignable, Ty.isAggregate]
  | array element length =>
    cases tgt with
    | array tgtElement tgtLength =>
      refine ⟨assignable, rfl, fun _ => ⟨fun compatible => compatible.2.lengths, fun agree => ?_⟩⟩
      obtain rfl := eq_of_same element tgtElement srcProper tgtProper srcListed tgtListed assignable
        agree
      exact ⟨rfl, SameLayout.refl element srcProper⟩
    | error => exact tgtProper.elim
    | integer | real | boolean | void | record => simp [Ty.assignable] at assignable
  | record name fields =>
    cases tgt with
    | record tgtName targetFields =>
      have same : Ty.record name fields = .record tgtName targetFields :=
        eq_of_same _ _ srcProper tgtProper srcListed tgtListed assignable trivial
      cases same
      exact ⟨assignable, rfl, fun _ => ⟨fun _ => trivial, fun _ => FieldsAgree.refl⟩⟩
    | error => exact tgtProper.elim
    | integer | real | boolean | void | array => simp [Ty.assignable] at assignable

/--
In an accepted program, wherever a value of one type is assigned, passed, given back or used as
an initial value of another one, the layouts of aggregates are compatible just if arrays inside
of arrays have the same lengths.
-/
theorem conversions_conform_of_accepted {text : String}
    (parses : (Program.parse text).diagnostics = [])
    (analyzes : (Program.parse text).value.analyze.diagnostics = [])
    (apart : (Program.parse text).value.ParametersApart)
    (hidesNone : (Program.parse text).value.HidesNoRecord) :
    (Program.parse text).value.WellTyped Conforms := by
  have wellTyped : (Program.parse text).value.WellTyped Stored :=
    Program.wellTyped_of_analyze
      (fun _ _ sourceProper targetProper assignable => ⟨sourceProper, targetProper, assignable⟩)
      (Program.parse_wellNamed parses) apart analyzes
  exact wellTyped.strengthen stored_conforms (Program.parse_apart parses) hidesNone

/-- A program that copies, passes and gives back records and arrays of arrays. -/
def copyingText : String :=
  "type P is record var x : integer var a : array[3] real end\n" ++
    "routine copy(p : P, m : array[] array[2] integer) : P is\nvar q : P is p\n" ++
    "var n : array[4] array[2] integer\nn := m\nreturn q\nend\n"

theorem copyingText_accepted :
    ((Program.parse copyingText).diagnostics.isEmpty &&
      (Program.parse copyingText).value.analyze.diagnostics.isEmpty &&
        decide (Program.parse copyingText).value.ParametersApart &&
          decide (Program.parse copyingText).value.HidesNoRecord) = true := by
  rw [@Program.parse_of_toList copyingText _
    (toList_append_of (toList_append_of String.toList_ofList String.toList_ofList)
      String.toList_ofList)]
  decide +kernel

theorem conversions_conform_of_copyingText :
    (Program.parse copyingText).diagnostics = [] ∧
      (Program.parse copyingText).value.analyze.diagnostics = [] ∧
      (Program.parse copyingText).value.ParametersApart ∧
      (Program.parse copyingText).value.HidesNoRecord ∧
      (Program.parse copyingText).value.WellTyped Conforms := by
  have accepted := copyingText_accepted
  simp only [Bool.and_eq_true, List.isEmpty_iff, decide_eq_true_eq] at accepted
  obtain ⟨⟨⟨parses, analyzes⟩, apart⟩, hidesNone⟩ := accepted
  exact ⟨parses, analyzes, apart, hidesNone,
    conversions_conform_of_accepted parses analyzes apart hidesNone⟩

/-- A program in which a record type hides another one of the same name. -/
def hiddenRecordText : String :=
  "type R is record var x : integer end\nvar g : R\nroutine main() is\n" ++
    "type R is record var a : real var b : real end\nvar l : R\ng := l\nend\n"

/-- A record that hides another one of its name is taken for it, whatever its size. -/
example :
    ((Program.parse hiddenRecordText).diagnostics.isEmpty &&
      (Program.parse hiddenRecordText).value.analyze.diagnostics.isEmpty &&
        ((Program.parse hiddenRecordText).value.analyze.types.map fun entry =>
          (size entry.2).toOption) == [some 16, some 4]) = true := by
  rw [@Program.parse_of_toList hiddenRecordText _
    (toList_append_of String.toList_ofList String.toList_ofList)]
  decide +kernel

/-- A program that assigns an array of longer arrays to one of shorter arrays. -/
def nestedText : String :=
  "routine main() is\nvar a : array[2] array[3] integer\nvar b : array[2] array[5] integer\n" ++
    "a := b\nend\n"

/-- The lengths of arrays inside of arrays are not looked at, so layouts may not be compatible. -/
theorem conversion_not_compatible_nestedText :
    ((Program.parse nestedText).diagnostics.isEmpty &&
      (Program.parse nestedText).value.analyze.diagnostics.isEmpty &&
        ((Program.parse nestedText).value.analyze.types.map fun entry => entry.2.describe) ==
          ["array[2] array[5] integer", "array[2] array[3] integer"]) = true ∧
      ¬ LayoutCompatible (.array (.array .integer (some 5)) (some 2))
        (.array (.array .integer (some 3)) (some 2)) := by
  constructor
  · rw [@Program.parse_of_toList nestedText _
      (toList_append_of String.toList_ofList String.toList_ofList)]
    decide +kernel
  · intro compatible
    cases compatible.2.1

end Imperative.Lowering
