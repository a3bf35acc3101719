import Imperative.Proofs.Lowering.Regions

/-!
# Values in memory

The size of a type, the offsets of fields and the offset of the elements of an array are computed
apart from each other.  They agree.
-/

namespace Imperative.Lowering

variable {type element : Ty} {bytes stride : Nat}

theorem word_dvd_alignment : 4 ∣ alignment type := by
  rcases alignment_cases type with isWord | isDouble
  · exact ⟨1, isWord⟩
  · exact ⟨2, isDouble⟩

theorem alignment_array : alignment (.array element length) = alignment element := by
  rw [alignment]
  exact Nat.max_eq_left four_le_alignment

theorem dvd_alignUp : align ∣ alignUp num align := Nat.dvd_mul_left _ _

theorem alignment_dvd_size : (type : Ty) → {bytes : Nat} → size type = .ok bytes →
    alignment type ∣ bytes
  | .integer, _, isSize | .real, _, isSize | .boolean, _, isSize => by
    cases isSize
    decide
  | .void, _, isSize | .error, _, isSize | .array _ none, _, isSize => by cases isSize
  | .array element (some length), _, isSize => by
    obtain ⟨stride, isStride, -, -, -, rfl⟩ := size_array_ok.mp isSize
    rw [alignment_array]
    exact Nat.dvd_add dvd_alignUp (Nat.dvd_mul_right_of_dvd (alignment_dvd_size element isStride)
      length)
  | .record _ fields, _, isSize => by
    obtain ⟨stop, -, -, rfl⟩ := size_record_ok.mp isSize
    rw [alignment]
    exact dvd_alignUp

/-- The field lies between two offsets. -/
def Occupies (record : String) (fields : List (String × Ty)) (field : String × Ty)
    (start stop : Nat) : Prop :=
  fieldOffset record fields field.1 = .ok (start, field.2) ∧
    ∃ bytes, size field.2 = .ok bytes ∧ stop = start + bytes

theorem Occupies.unique (first : Occupies record fields field start stop)
    (second : Occupies record fields field otherStart otherStop) :
    start = otherStart ∧ stop = otherStop := by
  obtain ⟨isStart, bytes, isBytes, rfl⟩ := first
  obtain ⟨isOther, others, isOthers, rfl⟩ := second
  cases isStart.symm.trans isOther
  cases isBytes.symm.trans isOthers
  exact ⟨rfl, rfl⟩

/-- Every field is found, aligned and inside of the bounds, and before the fields after it. -/
structure FieldsSound (record : String) (all : List (String × Ty)) (low high : Nat)
    (fields : List (String × Ty)) : Prop where
  found : ∀ field ∈ fields, ∃ start stop, Occupies record all field start stop ∧
    alignment field.2 ∣ start ∧ low ≤ start ∧ stop ≤ high
  ordered : fields.Pairwise fun first second => ∀ start stop otherStart otherStop,
    Occupies record all first start stop → Occupies record all second otherStart otherStop →
      stop ≤ otherStart

theorem FieldsAt.sound (fieldsAt : FieldsAt record all offset fields stop) :
    offset ≤ stop ∧ FieldsSound record all offset stop fields := by
  induction fieldsAt with
  | nil => exact ⟨Nat.le_refl _, nofun, .nil⟩
  | @cons name type rest offset bytes stop isOffset isSize _ _ ih =>
    obtain ⟨atMost, others⟩ := ih
    have takes : Occupies record all (name, type) _ _ := ⟨isOffset, bytes, isSize, rfl⟩
    have aligned := le_alignUp offset (alignment_pos type)
    refine ⟨by omega, List.forall_mem_cons.mpr ⟨⟨_, _, takes, dvd_alignUp, aligned, atMost⟩,
      fun field isLater => ?_⟩, .cons (fun field isLater => ?_) others.ordered⟩
    · obtain ⟨start, stop, isField, isAligned, starts, ends⟩ := others.found field isLater
      exact ⟨start, stop, isField, isAligned, by omega, ends⟩
    · intro start stop otherStart otherStop isFirst isField
      obtain ⟨_, _, isOther, -, starts, -⟩ := others.found field isLater
      obtain ⟨-, rfl⟩ := takes.unique isFirst
      obtain ⟨rfl, -⟩ := isOther.unique isField
      exact starts

/-- Where an element of an array starts. -/
def elementOffset (element : Ty) (stride index : Nat) : Nat := dataOffset element + index * stride

/-- Every element is aligned and after the length, and the elements fill the bytes in order. -/
structure ElementsSound (element : Ty) (stride length bytes : Nat) : Prop where
  sized : size element = .ok stride
  aligned : ∀ index, alignment element ∣ elementOffset element stride index
  afterLength : ∀ index, lengthSize ≤ elementOffset element stride index
  ordered : ∀ first second, first < second →
    elementOffset element stride first + stride ≤ elementOffset element stride second
  ends : elementOffset element stride length = bytes

theorem elementsSound_of_size (isStride : size element = .ok stride)
    (isBytes : bytes = dataOffset element + stride * length) :
      ElementsSound element stride length bytes where
  sized := isStride
  aligned index :=
    Nat.dvd_add dvd_alignUp (Nat.dvd_mul_left_of_dvd (alignment_dvd_size element isStride) index)
  afterLength index := Nat.le_add_right_of_le (le_alignUp lengthSize (alignment_pos element))
  ordered first second pre := by
    rw [elementOffset, Nat.add_assoc, ← Nat.succ_mul]
    exact Nat.add_le_add_left (Nat.mul_le_mul_right stride pre) _
  ends := by rw [isBytes, elementOffset, Nat.mul_comm]

/-- The parts of a type are aligned, apart from each other and inside of its bytes. -/
def PartsSound (bytes : Nat) : Ty → Prop
  | .record name fields => FieldsSound name fields 0 bytes fields
  | .array element (some length) => dataOffset element < addressLimit ∧ length < addressLimit ∧
    ∃ stride, stride < addressLimit ∧ ElementsSound element stride length bytes
  | _ => True

theorem size_lt (isSize : size type = .ok bytes) : bytes < addressLimit := by
  cases type with
  | integer | real | boolean =>
    cases isSize
    decide
  | void | error => cases isSize
  | array element length =>
    cases length with
    | none => cases isSize
    | some length =>
      obtain ⟨stride, -, -, -, fits, rfl⟩ := size_array_ok.mp isSize
      exact fits
  | record name fields =>
    obtain ⟨stop, -, fits, rfl⟩ := size_record_ok.mp isSize
    exact fits

/--
A type with a size has aligned parts that lie one after another inside of its bytes, the elements of
an array right up to the end, and no number exceeds the addresses.
-/
theorem layout_sound (distinct : DistinctFields type) (isSize : size type = .ok bytes) :
    alignment type ∣ bytes ∧ 4 ∣ bytes ∧ bytes < addressLimit ∧ PartsSound bytes type := by
  have aligned := alignment_dvd_size type isSize
  refine ⟨aligned, Nat.dvd_trans word_dvd_alignment aligned, size_lt isSize, ?_⟩
  cases type with
  | integer | real | boolean | void | error => trivial
  | array element length =>
    cases length with
    | none => trivial
    | some length =>
      obtain ⟨stride, isStride, lengthFits, -, -, isBytes⟩ := size_array_ok.mp isSize
      exact ⟨dataOffset_lt element, lengthFits, stride, size_lt isStride,
        elementsSound_of_size isStride isBytes⟩
  | record name fields =>
    obtain ⟨stop, isStop, -, rfl⟩ := size_record_ok.mp isSize
    rw [DistinctFields] at distinct
    have sound : FieldsSound name fields 0 stop fields :=
      (fieldsAt_of_size distinct.1 (fun _ _ => rfl) isStop).sound.2
    refine ⟨fun field mem => ?_, sound.ordered⟩
    obtain ⟨start, ends, isField, isAligned, starts, inside⟩ := sound.found field mem
    exact ⟨start, ends, isField, isAligned, starts,
      Nat.le_trans inside (le_alignUp stop (fieldsAlignment_pos fields))⟩

def nestedType : Ty :=
  .record "R" [("flag", .boolean),
    ("grid", .array (.record "P" [("x", .real), ("ok", .boolean)]) (some 3)), ("last", .integer)]

theorem layout_sound_nestedType :
    DistinctFields nestedType ∧ size nestedType = .ok 72 ∧ alignment nestedType = 8 ∧
      8 ∣ 72 ∧ 4 ∣ 72 ∧ 72 < addressLimit ∧ PartsSound 72 nestedType := by
  have distinct : DistinctFields nestedType := by
    simp [nestedType, DistinctFields, AllDistinct]
  have isSize : size nestedType = .ok 72 := by rfl
  have isAligned : alignment nestedType = 8 := by rfl
  exact ⟨distinct, isSize, isAligned, isAligned ▸ layout_sound distinct isSize⟩

end Imperative.Lowering
