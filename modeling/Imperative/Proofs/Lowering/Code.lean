import Imperative.Proofs.Lowering.Building

/-!
# The types of pieces of code

What each short sequence of instructions takes from the stack and leaves there.
-/

namespace Imperative.Lowering

open Wasm (Code Context Instruction Numeric Spares ValueType)

variable {type : Ty}

theorem turns_word (num : Nat) : Turns ctx [word num] [] [.i32] := by
  intro deeper
  simp [word, Instruction.Typed]

theorem turns_zero {type : ValueType} : Turns ctx [zero type] [] [type] := by
  intro deeper
  cases type <;> simp [zero, Instruction.Typed]

theorem turns_localGet {type : ValueType} (found : ctx.locals[index]? = some type) :
    Turns ctx [.localGet index] [] [type] := by
  intro deeper
  simp [Instruction.Typed, found]

theorem turns_localSet {type : ValueType} (found : ctx.locals[index]? = some type) :
    Turns ctx [.localSet index] [type] [] := by
  intro deeper
  simp [Instruction.Typed, found]

theorem turns_load {type : ValueType} : Turns ctx [load type offset] [.i32] [type] := by
  intro deeper
  simp [load, Instruction.Typed, Wasm.MemArg.natural]

theorem turns_store (type : ValueType) (offset : UInt32) :
    Turns ctx [store type offset] [type, .i32] [] := by
  intro deeper
  simp [store, Instruction.Typed, Wasm.MemArg.natural]

theorem turns_compute (operation : Numeric)
    (notTruncating : operation ≠ .i32TruncF64S := by decide) :
    Turns ctx [compute operation] operation.signature.1.reverse [operation.signature.2] := by
  intro deeper
  simp [compute, Instruction.Typed, notTruncating.symm]

theorem turns_onIntegers (onIntegers : operation.signature = ([.i32, .i32], .i32)) :
    Turns ctx [compute operation] [.i32, .i32] [.i32] := by
  have computes := @turns_compute ctx operation
  rw [onIntegers] at computes
  apply computes
  rintro rfl
  cases onIntegers

theorem turns_plus : Turns ctx (plus num) [.i32] [.i32] := by
  intro deeper
  simp [plus, word, compute, Instruction.Typed, Numeric.signature]

theorem turns_addOffset (offset : UInt32) : Turns ctx (addOffset offset) [.i32] [.i32] := by
  unfold addOffset
  split
  · exact .nil
  · exact turns_plus

theorem turns_bump (found : ctx.locals[index]? = some .i32) (num : Nat)
    (onIntegers : step.signature = ([.i32, .i32], .i32)) :
      Turns ctx (bump index num step) [] [] := by
  have computes : Turns ctx [compute step] [.i32, .i32] [.i32] := turns_onIntegers onIntegers
  exact ((turns_localGet found).append ((turns_word num).above [.i32])).append
    (computes.append (turns_localSet found))

theorem turns_repeating (bodyTyped : Spares body ∧ Code.Typed ctx.inside.inside body [] []) :
    Turns ctx [repeating body] [] [] := by
  intro deeper
  simp [repeating, Instruction.Typed, bodyTyped]

theorem turns_conditional (consequentTurns : Turns ctx consequent [] [])
    (alternativeTurns : Turns ctx alternative [] []) :
    Turns ctx [.conditional consequent alternative] [.i32] [] := by
  intro deeper
  simp [Instruction.Typed, consequentTurns.inside.closed, alternativeTurns.inside.closed]

def representation (type : Ty) : List ValueType := (valueType? type).toList

@[simp]
theorem representation_reverse : (representation type).reverse = representation type := by
  unfold representation
  cases valueType? type <;> rfl

theorem representation_of_aggregate (isAggregate : type.isAggregate = true) :
    representation type = [.i32] := by
  cases type <;> simp_all [Ty.isAggregate, representation, valueType?]

theorem exists_valueType (proper : type.Proper) :
    ∃ valueType, valueType? type = some valueType := by
  cases type <;> simp_all [valueType?]

theorem representation_of_valueType (isType : valueType? type = some valueType) :
    representation type = [valueType] := by
  simp [representation, isType]

theorem scalarType_meets (proper : type.Proper) :
    Meets (scalarType span type) fun valueType => valueType? type = some valueType := by
  obtain ⟨valueType, isType⟩ := exists_valueType proper
  unfold scalarType
  rw [isType]
  exact Meets.pure rfl

theorem turns_coerce (srcProper : src.Proper)
    (tgtProper : tgt.Proper) (assignable : src.assignable tgt = true) :
    Turns ctx (coerce src tgt) (representation src) (representation tgt) := by
  intro deeper
  cases src <;> cases tgt <;>
    simp_all [Ty.assignable, coerce, Ty.isReal, Ty.isInteger, Ty.isBoolean, representation,
      valueType?, compute, Instruction.Typed, Numeric.signature]

theorem turns_elementDistance (found : ctx.locals[pos]? = some .i32) (stride : Nat) :
    Turns ctx (elementDistance pos stride) [] [.i32] := by
  intro deeper
  simp [elementDistance, word, compute, Instruction.Typed, Numeric.signature, found]

theorem turns_checkBounds (arrayFound : ctx.locals[array]? = some .i32)
    (posFound : ctx.locals[pos]? = some .i32) : Turns ctx (checkBounds array pos) [] [] := by
  intro deeper
  simp [checkBounds, load, compute, Instruction.Typed, Numeric.signature, Wasm.MemArg.natural,
    arrayFound, posFound]

theorem turns_elementAddress (arrayFound : ctx.locals[array]? = some .i32)
    (posFound : ctx.locals[pos]? = some .i32) {index : Code}
    (indexTurns : Turns ctx index [] [.i32]) :
    Turns ctx (elementAddress offset array pos stride index) [.i32] [.i32] := by
  unfold elementAddress
  have setup := (((turns_addOffset offset).append (turns_localSet arrayFound)).append
    indexTurns).append (turns_localSet posFound)
  have checked := setup.append (turns_checkBounds arrayFound posFound)
  have distance := (turns_elementDistance posFound stride).above [.i32]
  exact (checked.append ((turns_localGet arrayFound).cons distance)).append (turns_compute .i32Add)

end Imperative.Lowering
