import Imperative.Lowering.StaticMemory
import Imperative.Proofs.Typing.Resolution

/-!
# Limits

Four of the refusals say that a program, correct as it is, exceeds a limit: a literal does not
fit, a routine that is called has no body, a value has no static size, or memory is too small.
-/

namespace Imperative.Lowering

/-- The refusal says that a limit is exceeded. -/
inductive Refusal.IsLimit : Refusal → Prop
  | literalRange (val : Int) : Refusal.IsLimit (.literalRange val)
  | neverDefined (routine : String) : Refusal.IsLimit (.neverDefined routine)
  | noStaticSize (type : Ty) : Refusal.IsLimit (.noStaticSize type)
  | tooLarge : Refusal.IsLimit .tooLarge

def Error.IsLimit (error : Error) : Prop :=
  ∃ refusal span, error = .refused refusal span ∧ refusal.IsLimit

/-- The computation gives a value with the property, or a limit is exceeded. -/
def Meets {α : Type} (res : Except Error α) (property : α → Prop) : Prop := match res with
  | .ok val => property val
  | .error error => error.IsLimit

theorem Error.isLimit_refuse (isLimit : refusal.IsLimit) :
    (Error.refuse span refusal).IsLimit := ⟨refusal, some span, rfl, isLimit⟩

theorem Error.IsLimit.locate {error : Error} (isLimit : error.IsLimit) :
    (error.locate span).IsLimit := by
  obtain ⟨refusal, place, rfl, limit⟩ := isLimit
  cases place with
  | none => exact ⟨refusal, some span, rfl, limit⟩
  | some place => exact ⟨refusal, some place, rfl, limit⟩

namespace Meets

theorem pure (holds : property val) : Meets (Pure.pure val) property := holds

theorem throw (isLimit : error.IsLimit) : Meets (MonadExcept.throw error) property := isLimit

theorem imp (meets : Meets res first) (implies : ∀ val, first val → second val) :
    Meets res second := by
  cases res with
  | ok val => exact implies val meets
  | error error => exact meets

theorem bind (meets : Meets res first) (nextMeets : ∀ val, first val → Meets (next val) second) :
    Meets (res >>= next) second := by
  cases res with
  | ok val => exact nextMeets val meets
  | error error => exact meets

theorem forall_of_nonempty [someIndex : Nonempty ι] {property : ι → α → Prop}
    (each : ∀ index, Meets res (property index)) :
      Meets res fun val => ∀ index, property index val := by
  cases res with
  | ok val => exact each
  | error error =>
    obtain ⟨index⟩ := someIndex
    exact each index

theorem of_ok (meets : Meets res property) (isOk : res = .ok val) : property val := by
  subst isOk
  exact meets

theorem locating (meets : Meets res property) (span : Span) :
    Meets (Lowering.locating span res) property := by
  cases res with
  | ok val => exact meets
  | error error => exact Error.IsLimit.locate meets

end Meets

theorem bounded_meets : Meets (bounded num) fun val => val = num := by
  unfold bounded
  split
  · exact Meets.pure rfl
  · exact Meets.throw ⟨.tooLarge, none, rfl, .tooLarge⟩

mutual

theorem size_meets : (type : Ty) → type.Proper → Meets (size type) fun _ => True
  | .integer, _ | .boolean, _ | .real, _ => by
    rw [size]
    exact Meets.pure trivial
  | .record name fields, proper => by
    rw [size]
    apply (fieldsSize_meets 0 fields proper).bind
    intro stop _
    exact bounded_meets.imp fun _ _ => trivial
  | .array element (some length), proper => by
    rw [size]
    apply (size_meets element proper).bind
    intro stride _
    apply bounded_meets.bind
    intro length _
    apply bounded_meets.bind
    intro elements _
    exact bounded_meets.imp fun _ _ => trivial
  | .array element none, _ => by
    rw [size]
    exact Meets.throw ⟨_, none, rfl, .noStaticSize _⟩
  | .void, proper | .error, proper => proper.elim

theorem fieldsSize_meets : (offset : Nat) → (fields : List (String × Ty)) →
    Ty.FieldsProper fields → Meets (fieldsSize offset fields) fun _ => True
  | _, [], _ => by
    rw [fieldsSize]
    exact Meets.pure trivial
  | offset, (_, type) :: rest, proper => by
    rw [fieldsSize]
    apply bounded_meets.bind
    intro start _
    apply (size_meets type proper.1).bind
    intro bytes _
    apply bounded_meets.bind
    intro stop _
    exact fieldsSize_meets stop rest proper.2

end

theorem fieldFrom_meets (offset : Nat) (proper : Ty.FieldsProper fields)
    (found : Ty.field? fields field = some type) :
    Meets (fieldFrom record field offset fields) fun res => res.2 = type := by
  induction fields generalizing offset with
  | nil => simp [Ty.field?] at found
  | cons entry rest ih =>
    obtain ⟨name, entryType⟩ := entry
    rw [fieldFrom]
    apply bounded_meets.bind
    intro start _
    by_cases isField : name = field
    · subst isField
      rw [if_pos rfl]
      simp only [Ty.field?, List.lookup_cons_self, Option.some.injEq] at found
      exact Meets.pure found
    · rw [if_neg isField]
      apply (size_meets entryType proper.1).bind
      intro bytes _
      apply bounded_meets.bind
      intro stop _
      apply ih stop proper.2
      simpa [Ty.field?, List.lookup_cons, beq_false_of_ne (Ne.symm isField)] using found

theorem fieldOffset_meets (proper : Ty.FieldsProper fields)
    (found : Ty.field? fields field = some type) :
    Meets (fieldOffset record fields field) fun res => res.2 = type :=
  fieldFrom_meets 0 proper found

theorem exists_field_of_mem (mem : entry ∈ fields) :
    ∃ type, Ty.field? fields entry.1 = some type := by
  refine Option.ne_none_iff_exists'.mp fun notFound => ?_
  have different := List.lookup_eq_none_iff.mp notFound entry mem
  simp at different

mutual

theorem headers_meets : (type : Ty) → type.Proper → Meets (headers type) fun _ => True
  | .array element (some length), proper => by
    rw [headers]
    apply (size_meets element proper).bind
    intro stride _
    apply (headers_meets element proper).bind
    intro first _
    exact Meets.pure trivial
  | .record name fields, proper => by
    rw [headers]
    exact fieldHeaders_meets proper fields proper fun _ mem => mem
  | .array _ none, _ | .integer, _ | .real, _ | .boolean, _ | .void, _ | .error, _ => by
    simp only [headers]
    exact Meets.pure trivial

theorem fieldHeaders_meets (allProper : Ty.FieldsProper all) :
    (fields : List (String × Ty)) → Ty.FieldsProper fields → (∀ entry ∈ fields, entry ∈ all) →
      Meets (fieldHeaders record all fields) fun _ => True
  | [], _, _ => by
    rw [fieldHeaders]
    exact Meets.pure trivial
  | (name, type) :: rest, proper, within => by
    obtain ⟨fieldType, found⟩ := exists_field_of_mem (within (name, type) (by simp))
    rw [fieldHeaders]
    apply (fieldOffset_meets allProper found).bind
    intro offset _
    apply (headers_meets type proper.1).bind
    intro inner _
    apply (fieldHeaders_meets allProper rest proper.2
      fun entry mem => within entry (by simp [mem])).bind
    intro outer _
    exact Meets.pure trivial

end

theorem allocate_meets (memory : StaticMemory) (proper : type.Proper) :
    Meets (memory.allocate type) fun _ => True := by
  unfold StaticMemory.allocate
  apply bounded_meets.bind
  intro addr _
  apply (size_meets type proper).bind
  intro bytes _
  apply bounded_meets.bind
  intro stop _
  apply (headers_meets type proper).bind
  intro inner _
  exact Meets.pure trivial

end Imperative.Lowering
