import Imperative.Proofs.Lowering.Code

/-!
# Copying and clearing are typed

The code that copies an aggregate takes two addresses from the stack, and the code that clears
one takes one.
-/

namespace Imperative.Lowering

open Wasm (Code Context Instruction Numeric ValueType)

theorem turns_commonBytes (srcFound : ctx.locals[src]? = some .i32)
    (tgtFound : ctx.locals[tgt]? = some .i32)
    (remainingFound : ctx.locals[remaining]? = some .i32) :
    Turns ctx (commonBytes src tgt remaining stride) [] [] := by
  intro deeper
  simp [commonBytes, word, load, compute, Instruction.Typed, Numeric.signature,
    Wasm.MemArg.natural, srcFound, tgtFound, remainingFound]

theorem turns_copyWords (srcFound : ctx.locals[src]? = some .i32)
    (tgtFound : ctx.locals[tgt]? = some .i32)
    (remainingFound : ctx.locals[remaining]? = some .i32) :
    Turns ctx [copyWords src tgt remaining] [] [] := by
  apply turns_repeating
  simp [bump, word, load, store, compute, Instruction.Typed, Numeric.signature,
    Wasm.MemArg.natural, srcFound, tgtFound, remainingFound]

theorem copySetup_meets (proper : type.Proper) :
    Meets (copySetup src tgt remaining type) fun code =>
      ctx.locals[src]? = some .i32 → ctx.locals[tgt]? = some .i32 →
        ctx.locals[remaining]? = some .i32 → Turns ctx code [] [] := by
  unfold copySetup
  split
  · next element length =>
    apply (size_meets element proper).bind
    intro stride _
    apply Meets.pure
    intro srcFound tgtFound remainingFound
    exact ((turns_commonBytes srcFound tgtFound remainingFound).append
      (turns_bump tgtFound _ rfl)).append (turns_bump srcFound _ rfl)
  · apply (size_meets type proper).bind
    intro bytes _
    apply Meets.pure
    intro _ _ remainingFound
    exact (turns_word bytes).cons (turns_localSet remainingFound)

theorem copyAggregate_builds (proper : type.Proper) :
    CodeBuilds ctx given (copyAggregate type) [.i32, .i32] [] := by
  unfold copyAggregate
  apply acquire_builds.bind
  intro src _
  apply acquire_builds.bind
  intro tgt _
  apply acquire_builds.bind
  intro remaining _
  apply (Builds.lift (copySetup_meets proper)).bind
  intro setup setupTurns
  apply (release_builds (·.1.2)).bind
  intro _ _
  apply (release_builds (·.1.1.1.2)).bind
  intro _ _
  apply (release_builds (·.1.1.1.1.1.2)).bind
  intro _ _
  apply Builds.pure trivial
  rintro ⟨⟨⟨⟨⟨⟨⟨-, srcFound⟩, tgtFound⟩, remainingFound⟩, -⟩, -⟩, -⟩, -⟩
  have addresses : Turns ctx [.localSet src, .localSet tgt] [.i32, .i32] [] :=
    ((turns_localSet srcFound).above [.i32]).append (turns_localSet tgtFound)
  exact (addresses.append (setupTurns srcFound tgtFound remainingFound)).append
    (turns_copyWords srcFound tgtFound remainingFound)

theorem clearScalar_meets (proper : type.Proper) :
    Meets (clearScalar offset type) fun code => Turns ctx code [.i32] [] := by
  obtain ⟨valueType, isType⟩ := exists_valueType proper
  unfold clearScalar
  rw [isType]
  apply Meets.pure
  exact (turns_zero.above [.i32]).append (turns_store valueType offset)

theorem turns_clearElements (baseFound : ctx.locals[base]? = some .i32)
    (remainingFound : ctx.locals[remaining]? = some .i32)
    (clearTurns : Turns ctx clearOne [.i32] []) :
    Turns ctx (clearElements base remaining start stride clearOne) [] [] := by
  have advance := (turns_bump baseFound stride (rfl : Numeric.i32Add.signature = _)).append
    (turns_bump remainingFound 1 (rfl : Numeric.i32Sub.signature = _))
  have clearOnce := (clearTurns.append advance).inside.inside
  unfold clearElements
  refine Turns.append (Turns.append ?_ (turns_bump baseFound start rfl)) (turns_repeating ?_)
  · intro deeper
    simp [load, Instruction.Typed, Wasm.MemArg.natural, baseFound, remainingFound]
  · have test : Turns ctx.inside.inside
        [.localGet remaining, .i32Const 0, compute .i32LeS, .brIf 1, .localGet base] [] [.i32] := by
      intro deeper
      simp [compute, Instruction.Typed, Numeric.signature, baseFound, remainingFound]
    have again : Turns ctx.inside.inside [.br 0] [] [] := by
      intro deeper
      simp [Instruction.Typed]
    simpa only [List.append_assoc] using ((test.append clearOnce).append again).closed

mutual

theorem clearAggregate_builds {given : Prop} : (type : Ty) → type.Proper →
    type.isAggregate = true → CodeBuilds ctx given (clearAggregate type) [.i32] []
  | .record name fields, proper, _ => by
    rw [clearAggregate]
    apply acquire_builds.bind
    intro base _
    apply (clearFields_builds proper (·.2) fields proper fun _ mem => mem).bind
    intro code _
    apply (release_builds (·.1.2)).bind
    intro _ _
    apply Builds.pure trivial
    rintro ⟨⟨⟨-, baseFound⟩, codeTurns⟩, -⟩
    exact (turns_localSet baseFound).cons codeTurns
  | .array element _, proper, _ => by
    rw [clearAggregate]
    apply acquire_builds.bind
    intro base _
    apply (Builds.lift (size_meets element proper)).bind
    intro stride _
    apply acquire_builds.bind
    intro remaining _
    have closing {given : Prop} (clearOne : Code)
        (typed : given → ctx.locals[base]? = some .i32 ∧
          ctx.locals[remaining]? = some .i32 ∧ Turns ctx clearOne [.i32] []) :
        Builds ctx given
          (do
            release .i32 remaining
            release .i32 base
            pure (.localSet base :: clearElements base remaining (dataOffset element) stride
              clearOne))
          (fun _ => True) fun code => Turns ctx code [.i32] [] := by
      apply (release_builds fun isGiven => (typed isGiven).2.1).bind
      intro _ _
      apply (release_builds fun isGiven => (typed isGiven.1).1).bind
      intro _ _
      apply Builds.pure trivial
      rintro ⟨⟨isGiven, -⟩, -⟩
      obtain ⟨baseFound, remainingFound, clearTurns⟩ := typed isGiven
      exact (turns_localSet baseFound).cons
        (turns_clearElements baseFound remainingFound clearTurns)
    apply Builds.ite
    · intro isAggregate
      apply (clearAggregate_builds element proper isAggregate).bind
      intro clearOne _
      exact closing clearOne fun isGiven => ⟨isGiven.1.1.1.2, isGiven.1.2, isGiven.2⟩
    · intro _
      apply (Builds.lift (clearScalar_meets (show element.Proper from proper))).bind
      intro clearOne clearTurns
      exact closing clearOne fun isGiven => ⟨isGiven.1.1.1.2, isGiven.1.2, clearTurns⟩
  | .integer, _, notAggregate | .real, _, notAggregate | .boolean, _, notAggregate
  | .void, _, notAggregate | .error, _, notAggregate => by simp [Ty.isAggregate] at notAggregate

theorem clearFields_builds {given : Prop}
    (allProper : Ty.FieldsProper all) (baseFound : given → ctx.locals[base]? = some .i32) :
    (fields : List (String × Ty)) → Ty.FieldsProper fields → (∀ entry ∈ fields, entry ∈ all) →
      CodeBuilds ctx given (clearFields record all base fields) [] []
  | [], _, _ => by
    rw [clearFields]
    exact Builds.pure trivial fun _ => .nil
  | (name, type) :: rest, proper, within => by
    obtain ⟨typeProper, restProper⟩ := proper
    obtain ⟨fieldType, found⟩ := exists_field_of_mem (within (name, type) (by simp))
    rw [clearFields]
    apply (Builds.lift (fieldOffset_meets allProper found)).bind
    rintro ⟨offset, _⟩ _
    have closing {given : Prop} (clearOne : Code)
        (typed : given → ctx.locals[base]? = some .i32 ∧ Turns ctx clearOne [.i32] []) :
        Builds ctx given
          (do
            let others ← clearFields record all base rest
            pure (.localGet base :: clearOne ++ others))
          (fun _ => True) fun code => Turns ctx code [] [] := by
      apply (clearFields_builds allProper (fun isGiven => (typed isGiven).1) rest
        restProper fun entry mem => within entry (by simp [mem])).bind
      intro others _
      apply Builds.pure trivial
      rintro ⟨isGiven, othersTurn⟩
      obtain ⟨baseFound, clearTurns⟩ := typed isGiven
      exact ((turns_localGet baseFound).cons clearTurns).append othersTurn
    apply Builds.ite
    · intro isAggregate
      apply (clearAggregate_builds type typeProper isAggregate).bind
      intro inner _
      exact closing (plus offset ++ inner) fun isGiven =>
        ⟨baseFound isGiven.1.1, turns_plus.append isGiven.2⟩
    · intro _
      apply (Builds.lift (clearScalar_meets typeProper)).bind
      intro clearOne clearTurns
      exact closing clearOne fun isGiven => ⟨baseFound isGiven.1.1, clearTurns⟩

end

end Imperative.Lowering
