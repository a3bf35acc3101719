import Imperative.Proofs.Wasm.RoundTrip
import Imperative.Wasm.Text
import Mathlib.Data.List.Nodup

/-!
# The text determines the binary form

A text is taken apart again from the front: each section ends where no entry starts with its word,
and each part of an entry at a character that it cannot contain.  Code ends where the indentation
gets smaller.
-/

namespace Imperative.Wasm.Text

open List

open Decode (shapeOf shape?_opcode)

/-! ## Texts up to a delimiter -/

def Within (accepts : Char → Bool) (text : String) : Prop := text.toList.all accepts = true

instance (accepts : Char → Bool) (text : String) : Decidable (Within accepts text) :=
  inferInstanceAs (Decidable (_ = true))

/-- No accepted character comes first. -/
def Ends (accepts : Char → Bool) (text : String) : Prop :=
  ∀ char ∈ text.toList.head?, accepts char = false

abbrev Free (stop : Char) : String → Prop := Within (· != stop)

@[simp]
theorem within_append :
    Within accepts (text ++ other) ↔ Within accepts text ∧ Within accepts other := by
  simp [Within]

theorem Within.imp (within : Within accepts text)
    (implies : ∀ char, accepts char = true → others char = true) : Within others text :=
  List.all_eq_true.mpr fun char member => implies char (List.all_eq_true.mp within char member)

theorem ends (starts : front.toList = char :: more) (stops : accepts char = false) :
    Ends accepts (front ++ back) := by
  simp [Ends, starts, stops]

/-- A text ends where its characters do. -/
theorem cut (within : Within accepts front) (otherWithin : Within accepts other)
    (isEnd : Ends accepts back) (otherEnd : Ends accepts rest)
    (same : front ++ back = other ++ rest) : front = other ∧ back = rest := by
  have taken {front back : String} (within : Within accepts front) (isEnd : Ends accepts back) :
      (front ++ back).toList.takeWhile accepts = front.toList := by
    rw [String.toList_append, takeWhile_append_of_pos (List.all_eq_true.mp within)]
    unfold Ends at isEnd
    cases chars : back.toList with
    | nil => simp
    | cons char more => simp [isEnd char (by simp [chars])]
  obtain rfl : front = other :=
    String.toList_inj.mp ((taken within isEnd).symm.trans (same ▸ taken otherWithin otherEnd))
  exact ⟨rfl, (String.append_right_inj _).mp same⟩

theorem apart (starts : front.toList = first :: more)
    (otherStarts : other.toList = second :: others) (differ : first ≠ second) {back rest : String} :
    front ++ back ≠ other ++ rest := by
  intro same
  have heads := congrArg (fun text => text.toList.head?) same
  simp [starts, otherStarts, differ] at heads

/-- What is written starts in its own way, and can be told from a text that goes on after it. -/
structure Told {α β : Type} (starts : String → Prop) (known : α → Prop) (view : α → β)
    (write : α → String) : Prop where
  opens (entry : α) (back : String) : starts (write entry ++ back)
  inj {entry other : α} {back rest : String} : known entry → known other →
    write entry ++ back = write other ++ rest → view entry = view other ∧ back = rest

theorem Told.list {entries others : List α} (told : Told starts known view write)
    (areKnown : ∀ entry ∈ entries, known entry)
    (othersKnown : ∀ entry ∈ others, known entry) (ends : ¬ starts back) (otherEnds : ¬ starts rest)
    (same : String.join (entries.map write) ++ back = String.join (others.map write) ++ rest) :
    entries.map view = others.map view ∧ back = rest := by
  induction entries generalizing others with
  | nil =>
    cases others with
    | nil => exact ⟨rfl, (String.append_right_inj _).mp same⟩
    | cons other others =>
      rw [map_nil, map_cons, String.join_nil, String.join_cons, String.empty_append,
        String.append_assoc] at same
      exact absurd (same ▸ told.opens other _) ends
  | cons entry entries ih =>
    cases others with
    | nil =>
      rw [map_nil, map_cons, String.join_nil, String.join_cons, String.empty_append,
        String.append_assoc] at same
      exact absurd (same ▸ told.opens entry _) otherEnds
    | cons other others =>
      obtain ⟨isKnown, areKnown⟩ := forall_mem_cons.mp areKnown
      obtain ⟨otherKnown, othersKnown⟩ := forall_mem_cons.mp othersKnown
      simp only [map_cons, String.join_cons, String.append_assoc] at same
      obtain ⟨views, same⟩ := told.inj isKnown otherKnown same
      obtain ⟨laterViews, backs⟩ := ih areKnown othersKnown same
      exact ⟨congrArg₂ List.cons views laterViews, backs⟩

/-! ## Numbers and names -/

theorem within_repr {number : Nat} : Within Char.isDigit number.repr :=
  List.all_eq_true.mpr fun _ member =>
    Nat.isDigit_of_mem_toDigits (by decide) (by decide) (Nat.toList_repr ▸ member)

theorem number_inj {number other : Nat} (isEnd : Ends Char.isDigit back)
    (otherEnd : Ends Char.isDigit rest) :
    toString number ++ back = toString other ++ rest ↔ number = other ∧ back = rest := by
  refine ⟨fun same => ?_, fun ⟨numbers, backs⟩ => numbers ▸ backs ▸ rfl⟩
  obtain ⟨numbers, backs⟩ := cut within_repr within_repr isEnd otherEnd same
  exact ⟨Nat.repr_inj.mp numbers, backs⟩

theorem label_inj : label index ++ back = label other ++ rest ↔ index = other ∧ back = rest := by
  simp (disch := exact ends rfl rfl) only [label, String.append_assoc, String.append_right_inj,
    number_inj]

theorem hexDigit_inj : ∀ digit other : Fin 16, hexDigit digit = hexDigit other → digit = other := by
  decide

theorem escapeByte_append_inj (same : escapeByte byte ++ back = escapeByte other ++ rest) :
    byte = other ∧ back = rest := by
  have below := byte.toNat_lt
  have otherBelow := other.toNat_lt
  have valid {code : Nat} (printable : code ≤ 0x7E) : (Char.ofNat code).toNat = code := by
    rw [Char.toNat_ofNat, if_pos (.inl (by omega))]
  unfold escapeByte at same
  dsimp only at same
  split at same <;> split at same
  · next printable otherPrintable =>
    obtain ⟨chars, tails⟩ := List.cons.inj same
    have codes := congrArg Char.toNat chars
    rw [valid printable.2.1, valid otherPrintable.2.1] at codes
    exact ⟨UInt8.toNat_inj.mp codes, tails⟩
  · next printable _ =>
    have codes := congrArg Char.toNat (List.cons.inj same).1
    rw [valid printable.2.1] at codes
    exact absurd codes printable.2.2.2
  · next _ printable =>
    have codes := congrArg Char.toNat (List.cons.inj same).1
    rw [valid printable.2.1] at codes
    exact absurd codes.symm printable.2.2.2
  · obtain ⟨highs, more⟩ := List.cons.inj (List.cons.inj same).2
    obtain ⟨lows, tails⟩ := List.cons.inj more
    have high := hexDigit_inj ⟨byte.toNat / 16, by omega⟩ ⟨other.toNat / 16, by omega⟩ highs
    have low := hexDigit_inj ⟨byte.toNat % 16, by omega⟩ ⟨other.toNat % 16, by omega⟩ lows
    simp only [Fin.mk.injEq] at high low
    exact ⟨UInt8.toNat_inj.mp (by omega), tails⟩

theorem escaped_inj {bytes others : List UInt8}
    (same : bytes.flatMap escapeByte = others.flatMap escapeByte) : bytes = others := by
  have nonempty (byte : UInt8) : escapeByte byte ≠ [] := by
    unfold escapeByte
    dsimp only
    split <;> exact cons_ne_nil _ _
  induction bytes generalizing others with
  | nil =>
    cases others with
    | nil => rfl
    | cons other rest => exact absurd (append_eq_nil_iff.mp same.symm).1 (nonempty other)
  | cons byte rest ih =>
    cases others with
    | nil => exact absurd (append_eq_nil_iff.mp same).1 (nonempty byte)
    | cons other others =>
      obtain ⟨rfl, tails⟩ := escapeByte_append_inj same
      rw [ih tails]

theorem escapeByte_free : (escapeByte byte).all (· != '"') = true := by
  have all : ∀ code : Fin 256, (escapeByte (.ofFin code)).all (· != '"') = true := by
    decide +kernel
  exact all byte.toFin

theorem quotedBytes_inj :
    quotedBytes bytes ++ back = quotedBytes others ++ rest ↔ bytes = others ∧ back = rest := by
  have free (bytes : List UInt8) : Free '"' (.ofList (bytes.flatMap escapeByte)) := by
    rw [Free, Within, String.toList_ofList, all_flatMap]
    exact all_eq_true.mpr fun byte _ => escapeByte_free
  refine ⟨fun same => ?_, fun ⟨bytes, backs⟩ => bytes ▸ backs ▸ rfl⟩
  simp only [quotedBytes, String.append_assoc] at same
  obtain ⟨texts, backs⟩ := cut (free bytes) (free others) (ends rfl rfl) (ends rfl rfl)
    ((String.append_right_inj _).mp same)
  exact ⟨escaped_inj (String.ofList_injective texts), (String.append_right_inj _).mp backs⟩

theorem quotedName_inj :
    quotedName name ++ back = quotedName other ++ rest ↔ name = other ∧ back = rest := by
  refine quotedBytes_inj.trans (and_congr_left fun _ => ⟨fun bytes => ?_, (· ▸ rfl)⟩)
  have arrays := congrArg List.toByteArray bytes
  rw [Decode.toByteArray_toList, Decode.toByteArray_toList] at arrays
  exact String.toByteArray_inj.mp arrays

/-! ## Types -/

theorem typeName_inj {type other : ValueType} :
    type.name ++ back = other.name ++ rest ↔ type = other ∧ back = rest := by
  cases type <;> cases other <;> simp only [String.append_right_inj, true_and, reduceCtorEq,
    false_and, iff_false] <;> exact apart rfl rfl (by decide)

theorem valueTypes_singleton : valueTypes [type] = type.name := String.intercalate_singleton

theorem valueTypes_cons {first next : ValueType} :
    valueTypes (first :: next :: others) = first.name ++ (" " ++ valueTypes (next :: others)) := by
  rw [valueTypes, map_cons, map_cons, String.intercalate_cons_cons, String.append_assoc]
  rfl

theorem valueTypes_inj {types others : List ValueType} (notEmpty : types ≠ [])
    (otherNotEmpty : others ≠ [])
    (same : valueTypes types ++ (")" ++ back) = valueTypes others ++ (")" ++ rest)) :
    types = others ∧ back = rest := by
  induction types generalizing others with
  | nil => exact absurd rfl notEmpty
  | cons first types ih =>
    obtain ⟨other, others, rfl⟩ := exists_cons_of_ne_nil otherNotEmpty
    cases types <;> cases others <;>
      simp only [valueTypes_cons, valueTypes_singleton, String.append_assoc, typeName_inj,
        String.append_right_inj] at same
    · exact ⟨same.1 ▸ rfl, same.2⟩
    · exact absurd same.2 (apart rfl rfl (by decide))
    · exact absurd same.2 (apart rfl rfl (by decide))
    · obtain ⟨laters, backs⟩ := ih (cons_ne_nil _ _) (cons_ne_nil _ _) same.2
      exact ⟨same.1 ▸ laters ▸ rfl, backs⟩

/-- The types after an opening, if there are any. -/
def group (opening closing : String) (types : List ValueType) : String :=
  if types.isEmpty then "" else opening ++ (valueTypes types ++ (")" ++ closing))

theorem group_inj (ends : ∀ more, back ≠ opening ++ more)
    (otherEnds : ∀ more, rest ≠ opening ++ more)
    (same : group opening closing types ++ back = group opening closing others ++ rest) :
    types = others ∧ back = rest := by
  cases types <;> cases others <;>
    simp only [group, isEmpty_nil, isEmpty_cons, if_true, Bool.false_eq_true, if_false,
      String.empty_append, String.append_assoc, String.append_right_inj] at same
  · exact ⟨rfl, same⟩
  · exact absurd same (ends _)
  · exact absurd same.symm (otherEnds _)
  · obtain ⟨types, backs⟩ := valueTypes_inj (cons_ne_nil _ _) (cons_ne_nil _ _) same
    exact ⟨types, (String.append_right_inj _).mp backs⟩

theorem typeGroup_eq (word : String) :
    typeGroup word types = group (" (" ++ (word ++ " ")) "" types := by
  simp only [typeGroup, group, String.append_assoc, String.append_empty]

theorem typeGroups_inj {type other : FuncType}
    (same : typeGroup "param" type.parameters ++
      (typeGroup "result" type.results ++ ("))" ++ back)) =
      typeGroup "param" other.parameters ++ (typeGroup "result" other.results ++ ("))" ++ rest))) :
    type = other ∧ back = rest := by
  have noGroup (word back more : String) : "))" ++ back ≠ " (" ++ (word ++ " ") ++ more := by
    rw [String.append_assoc]
    exact apart rfl rfl (by decide)
  have noParameters (types : List ValueType) (back more : String) :
      typeGroup "result" types ++ ("))" ++ back) ≠ " (" ++ ("param" ++ " ") ++ more := by
    intro same
    cases types with
    | nil => exact noGroup _ _ _ (String.empty_append.symm.trans same)
    | cons first others =>
      simp only [typeGroup, isEmpty_cons, Bool.false_eq_true, if_false, String.append_assoc,
        String.append_right_inj] at same
      exact apart rfl rfl (by decide) same
  rw [typeGroup_eq "param", typeGroup_eq "param"] at same
  obtain ⟨params, further⟩ := group_inj (noParameters _ _) (noParameters _ _) same
  rw [typeGroup_eq, typeGroup_eq] at further
  obtain ⟨results, backs⟩ := group_inj (noGroup _ _) (noGroup _ _) further
  cases type
  cases params
  cases results
  exact ⟨rfl, (String.append_right_inj _).mp backs⟩

/-! ## Reals -/

def numeralChar (char : Char) : Bool := char.isDigit || char ∈ ['-', '.', 'e']

abbrev Numeral : String → Prop := Within numeralChar

@[simp]
theorem numeral_repr (number : Nat) : Numeral number.repr :=
  within_repr.imp fun char isDigit => by rw [numeralChar, isDigit, Bool.true_or]

@[simp]
theorem numeral_zeros (count : Nat) : Numeral (Real.zeros count) := by
  simp +decide [Within, Real.zeros]

theorem numeral_part (isNumeral : Numeral text)
    (isPart : part.Sublist text.toList) : Numeral (String.ofList part) := by
  rw [Numeral, Within, String.toList_ofList, List.all_eq_true]
  exact fun char member => List.all_eq_true.mp isNumeral char (isPart.subset member)

@[simp]
theorem numeral_int {number : Int} : Numeral (toString number) := by
  show Numeral number.repr
  rw [Int.repr_eq_if]
  split <;> simp +decide

theorem numeral_positional {decimal : Real.Decimal} : Numeral decimal.positional := by
  unfold Real.Decimal.positional
  dsimp only
  split
  · simp +decide
  · have padded : Numeral (Real.zeros ((-decimal.exponent).toNat + 1 -
      (Nat.repr decimal.digits).length) ++ Nat.repr decimal.digits) := by simp
    simp +decide [numeral_part padded, take_sublist, drop_sublist]

theorem numeral_scientific (decimal : Real.Decimal) : Numeral (decimal.scientific "e") := by
  have first := numeral_part (numeral_repr decimal.digits) (take_sublist 1 _)
  have others := numeral_part (numeral_repr decimal.digits) (drop_sublist 1 _)
  unfold Real.Decimal.scientific
  dsimp only
  split <;> simp only [within_append, first, others, numeral_int, and_true, true_and] <;> decide

/-- The values that are not finite, by their bits, with their texts. -/
def specials : List (UInt64 × String) :=
  [(Float.nan.toBits, "nan"), (0x7ff0000000000000, "inf"), (0xfff0000000000000, "-inf")]

theorem special_of_isInf {val : Float} (isInf : val.isInf = true) :
    (val.toBits, (if Real.isNegative val.toBits then "-" else "") ++ "inf") ∈ specials := by
  have same (bits : UInt64) (valid : Float.Model.Format.binary64.Valid bits.toBitVec)
      (unpacked : val.toModel.unpack = .unpack .binary64 bits.toBitVec) :
      val.toBits = bits :=
    UInt64.toBitVec_inj.mp
      ((Float.Model.UnpackedFloat.unpack_inj_of_valid val.toModel.valid valid).mp unpacked)
  cases unpacked : val.toModel.unpack with
  | infinity sign =>
    cases sign with
    | positive =>
      rw [same 0x7ff0000000000000 ⟨fun _ nonzero => absurd rfl nonzero⟩ (unpacked.trans rfl)]
      exact .tail _ (.head _)
    | negative =>
      rw [same 0xfff0000000000000 ⟨fun _ nonzero => absurd rfl nonzero⟩ (unpacked.trans rfl)]
      exact .tail _ (.tail _ (.head _))
  | notANumber | zero | finite =>
    simp [Float.isInf, Float.Model.isInf, unpacked, Float.Model.UnpackedFloat.isInf] at isInf

theorem isFinite_of_not {val : Float} (notNaN : ¬ val.isNaN = true)
    (notInf : ¬ val.isInf = true) : val.isFinite = true := by
  simp only [Float.isNaN, Float.Model.isNaN, Float.isInf, Float.Model.isInf] at notNaN notInf
  rw [Float.isFinite, Float.Model.isFinite]
  cases unpacked : val.toModel.unpack with
  | notANumber => exact absurd (unpacked ▸ rfl) notNaN
  | infinity sign => exact absurd (unpacked ▸ rfl) notInf
  | zero | finite => rfl

theorem real_cases (val : Float) :
    (val.toBits, real val) ∈ specials ∨ (val.isFinite = true ∧ Numeral (real val)) := by
  have sign : Numeral (if Real.isNegative val.toBits then "-" else "") := by
    split <;> decide
  unfold real Real.Layout.write
  split
  · next isNaN =>
    rw [Float.isNaN_eq_decide_eq_nan, decide_eq_true_iff] at isNaN
    exact .inl (isNaN ▸ .head _)
  · next notNaN =>
    dsimp only
    split
    · next isInf => exact .inl (special_of_isInf isInf)
    · next notInf =>
      refine .inr ⟨isFinite_of_not notNaN notInf, ?_⟩
      split
      · exact within_append.mpr ⟨sign, numeral_positional⟩
      · exact within_append.mpr ⟨sign, numeral_scientific _⟩

/-- Finite floats with the same text are the same. -/
def Faithful (known : Float → Prop) : Prop :=
  ∀ val other, known val → known other → val.isFinite = true → other.isFinite = true →
    real val = real other → val = other

variable {known : Float → Prop}

/-- If the finite values among them have texts of their own, then all of them have. -/
theorem real_inj (faithful : Faithful known) (isKnown : known val) (otherKnown : known other)
    (same : real val = real other) : val = other := by
  have notNumeral : ∀ text ∈ specials.map Prod.snd, ¬ Numeral text := by decide
  have nodup : (specials.map Prod.snd).Nodup := by decide
  rcases real_cases val with isSpecial | ⟨isFinite, isNumeral⟩ <;>
    rcases real_cases other with otherSpecial | ⟨otherFinite, otherNumeral⟩
  · have entries := inj_on_of_nodup_map nodup isSpecial otherSpecial same
    exact Float.toBits_inj.mp (congrArg Prod.fst entries)
  · exact absurd (same ▸ otherNumeral) (notNumeral _ (mem_map_of_mem isSpecial))
  · exact absurd (same ▸ isNumeral) (notNumeral _ (mem_map_of_mem otherSpecial))
  · exact faithful val other isKnown otherKnown isFinite otherFinite same

/-! ## Operands -/

theorem align_inj (fits : align ≤ 31) (otherFits : other ≤ 31)
    (same : ((1 : UInt32) <<< align).toNat = ((1 : UInt32) <<< other).toNat) : align = other := by
  have power {align : UInt32} (fits : align ≤ 31) :
      ((1 : UInt32) <<< align).toNat = 2 ^ align.toNat := by
    have below : align.toNat < 32 := Nat.lt_succ_of_le (UInt32.le_iff_toNat_le.mp fits)
    have powerBelow := Nat.pow_lt_pow_right (by decide : 1 < 2) below
    rw [UInt32.toNat_shiftLeft, Nat.mod_eq_of_lt below, Nat.shiftLeft_eq]
    exact (Nat.mod_eq_of_lt (by simpa using powerBelow)).trans (Nat.one_mul _)
  rw [power fits, power otherFits] at same
  exact UInt32.toNat_inj.mp (Nat.pow_right_injective (Nat.le_refl 2) same)

def alignment (type : ValueType) (align : UInt32) : String :=
  if align = type.naturalAlign then "" else " align=" ++ toString ((1 : UInt32) <<< align).toNat

theorem alignment_inj (fits : align ≤ 31) (otherFits : other ≤ 31)
    (same : alignment type align = alignment type other) : align = other := by
  unfold alignment at same
  split at same <;> split at same
  · next isNatural otherNatural => exact isNatural.trans otherNatural.symm
  · simp at same
  · simp at same
  · exact align_inj fits otherFits (Nat.repr_inj.mp ((String.append_right_inj _).mp same))

theorem memArg_inj (fits : arg.align ≤ 31)
    (otherFits : other.align ≤ 31) (same : memArg type arg = memArg type other) : arg = other := by
  have isEnd (align : UInt32) : Ends Char.isDigit (alignment type align) ∧
      ∀ text, alignment type align ≠ " offset=" ++ text := by
    unfold alignment
    split
    · exact ⟨nofun, fun text same => by simp at same⟩
    · refine ⟨ends rfl rfl, fun text same => ?_⟩
      have seconds := congrArg (fun text => text.toList[1]?) same
      simp at seconds
  obtain ⟨align, offset⟩ := arg
  obtain ⟨otherAlign, otherOffset⟩ := other
  change (if offset = 0 then _ else _) ++ alignment type align =
    (if otherOffset = 0 then _ else _) ++ alignment type otherAlign at same
  split at same <;> split at same
  · next isZero otherZero =>
    obtain rfl : align = otherAlign :=
      alignment_inj fits otherFits ((String.append_right_inj _).mp same)
    rw [isZero, otherZero]
  · rw [String.empty_append, String.append_assoc] at same
    exact absurd same ((isEnd align).2 _)
  · rw [String.empty_append, String.append_assoc] at same
    exact absurd same.symm ((isEnd otherAlign).2 _)
  · rw [String.append_assoc, String.append_assoc, String.append_right_inj] at same
    obtain ⟨offsets, aligns⟩ := (number_inj (isEnd align).1 (isEnd otherAlign).1).mp same
    obtain rfl : align = otherAlign := alignment_inj fits otherFits aligns
    exact congrArg _ (UInt32.toNat_inj.mp offsets)

theorem immediate_spaced (instruction : Instruction) : Ends (· != ' ') (immediate instruction) := by
  cases instruction with
  | load type arg | store type arg =>
    rw [immediate]
    unfold memArg
    split <;> split
    · nofun
    all_goals
      simp only [String.append_assoc, String.empty_append]
      exact ends rfl rfl
  | br | brIf | call | localGet | localSet | globalGet | globalSet | i32Const | f64Const =>
    exact ends rfl rfl
  | _ => nofun

theorem Numeral.free (isNumeral : Numeral text) : Free '\n' text :=
  isNumeral.imp fun char isChar => by
    rw [bne_iff_ne]
    rintro rfl
    cases isChar

theorem free_immediate (instruction : Instruction) : Free '\n' (immediate instruction) := by
  cases instruction with
  | br number | brIf number | call number | localGet number | localSet number | globalGet number
  | globalSet number => exact within_append.mpr ⟨by decide, (numeral_repr number).free⟩
  | load type arg | store type arg =>
    rw [immediate]
    unfold memArg
    split <;> split <;> simp +decide [(numeral_repr _).free]
  | i32Const val => exact within_append.mpr ⟨by decide, numeral_int.free⟩
  | f64Const val =>
    have special : ∀ text ∈ specials.map Prod.snd, Free '\n' text := by decide
    refine within_append.mpr ⟨by decide, ?_⟩
    rcases real_cases val with isSpecial | ⟨-, isNumeral⟩
    · exact special _ (mem_map_of_mem isSpecial)
    · exact isNumeral.free
  | _ => exact rfl

/-! ## Instructions -/

def specimen : Decode.Shape → Instruction
  | .plain leaf => leaf
  | .indexed make => make 0
  | .access make => make ⟨0, 0⟩
  | .nested make => make []
  | .conditional => .conditional [] []
  | .i32Const => .i32Const 0
  | .f64Const => .f64Const 0

def specimens : List Instruction :=
  ((List.range 256).filterMap fun code => Decode.shape? (.ofNat code)).map specimen

theorem specimen_mem {instruction : Instruction} : specimen (shapeOf instruction) ∈ specimens := by
  refine mem_map_of_mem (mem_filterMap.mpr ⟨instruction.opcode.toNat, ?_, ?_⟩)
  · exact mem_range.mpr instruction.opcode.toNat_lt
  · rw [UInt8.ofNat_toNat, shape?_opcode]

theorem specimen_mnemonic {instruction : Instruction} :
    (specimen (shapeOf instruction)).mnemonic = instruction.mnemonic := by
  cases instruction with
  | load type | store type => cases type <;> rfl
  | _ => rfl

theorem mnemonics_nodup : (specimens.map Instruction.mnemonic).Nodup := by
  decide +kernel

theorem mnemonic_inj {instruction other : Instruction}
    (same : instruction.mnemonic = other.mnemonic) :
    specimen (shapeOf instruction) = specimen (shapeOf other) :=
  inj_on_of_nodup_map mnemonics_nodup specimen_mem specimen_mem
    (specimen_mnemonic.trans (same.trans specimen_mnemonic.symm))

def IsWord (text : String) : Prop :=
  (text.toList.head?.any fun char => char ≠ ' ' && char ≠ '(') = true

instance (text : String) : Decidable (IsWord text) := inferInstanceAs (Decidable (_ = true))

theorem IsWord.append (isWord : IsWord text) (other : String) : IsWord (text ++ other) := by
  unfold IsWord at *
  rw [String.toList_append]
  cases chars : text.toList with
  | nil => simp [chars] at isWord
  | cons char rest => simpa [chars] using isWord

theorem mnemonic_word (instruction : Instruction) : Free ' ' instruction.mnemonic ∧
    Free '\n' instruction.mnemonic ∧ IsWord instruction.mnemonic := by
  have all : ∀ instruction ∈ specimens, Free ' ' instruction.mnemonic ∧
      Free '\n' instruction.mnemonic ∧ IsWord instruction.mnemonic := by
    decide +kernel
  rw [← specimen_mnemonic]
  exact all _ specimen_mem

theorem plain_inj {instruction other : Instruction} (same : plain instruction = plain other) :
    instruction.mnemonic = other.mnemonic ∧ immediate instruction = immediate other :=
  cut (mnemonic_word instruction).1 (mnemonic_word other).1
    (immediate_spaced _) (immediate_spaced _) same

theorem free_plain {instruction : Instruction} : Free '\n' (plain instruction) :=
  within_append.mpr ⟨(mnemonic_word instruction).2.1, free_immediate instruction⟩

/-- The instruction holds no others. -/
def Leaf : Instruction → Prop
  | .block _ | .loop _ | .conditional _ _ => False
  | _ => True

/-! ## Code -/

mutual

/-- Alignments in the instruction can be written, and its constants are among the known ones. -/
def OrdinaryInstruction (known : Float → Prop) : Instruction → Prop
  | .block body | .loop body => OrdinaryCode known body
  | .conditional consequent alternative => OrdinaryCode known consequent ∧
    OrdinaryCode known alternative
  | .load _ access | .store _ access => access.align ≤ 31
  | .f64Const val => known val
  | _ => True

/-- The instructions are ordinary. -/
def OrdinaryCode (known : Float → Prop) : List Instruction → Prop
  | [] => True
  | first :: rest => OrdinaryInstruction known first ∧ OrdinaryCode known rest

end

def render (lines : List String) : String := String.join (lines.map (· ++ "\n"))

@[simp]
theorem render_nil : render [] = "" := String.join_nil

@[simp]
theorem render_cons (lines : List String) :
    render (text :: lines) = text ++ ("\n" ++ render lines) := by
  simp [render, String.append_assoc]

@[simp]
theorem render_append (lines others : List String) :
    render (lines ++ others) = render lines ++ render others := by
  simp [render]

def Shallower (depth : Nat) (text : String) : Prop := ∀ more, text ≠ indentation depth ++ more

theorem shallower_line (isWord : IsWord word) :
    Shallower (depth + 1) (indentation depth ++ (word ++ back)) := by
  intro more same
  have lists := congrArg String.toList same
  rw [indentation, indentation, Nat.mul_succ, ← replicate_append_replicate] at lists
  simp only [String.toList_append, String.toList_ofList, append_assoc] at lists
  have words := isWord.append back
  rw [IsWord, String.toList_append, append_cancel_left lists] at words
  simp [List.replicate] at words

theorem instruction_leaf (isLeaf : Leaf leaf) :
    instruction depth leaf = [line depth (plain leaf)] := by
  cases leaf with
  | block | loop | conditional => cases isLeaf
  | _ => rw [instruction] <;> nofun

def alternativeText (depth : Nat) : Code → String
  | [] => indentation depth ++ ("end" ++ "\n")
  | first :: rest => indentation depth ++ ("else" ++ ("\n" ++
    (render (code (depth + 1) (first :: rest)) ++ (indentation depth ++ ("end" ++ "\n")))))

theorem conditional_text :
    render (instruction depth (.conditional consequent alternative)) = indentation depth ++ ("if" ++
      ("\n" ++ (render (code (depth + 1) consequent) ++ alternativeText depth alternative))) := by
  cases alternative <;> simp [instruction, line, alternativeText, code, String.append_assoc]

theorem instruction_opens :
    ∃ more, render (instruction depth first) ++ back =
      indentation depth ++ (plain first ++ ("\n" ++ more)) := by
  by_cases isLeaf : Leaf first
  · rw [instruction_leaf isLeaf, render_cons, line, String.append_assoc, String.append_assoc,
      String.append_assoc]
    exact ⟨_, rfl⟩
  · cases first <;> first | exact absurd trivial isLeaf | simp [conditional_text, instruction, line,
      plain, Instruction.mnemonic, immediate, String.append_assoc]

theorem code_opens :
    ∃ more, render (code depth (first :: rest)) ++ back =
      indentation depth ++ (plain first ++ ("\n" ++ more)) := by
  rw [code, render_append, String.append_assoc]
  exact instruction_opens

theorem leaf_inj (faithful : Faithful known) (isLeaf : Leaf leaf)
    (ordinary : OrdinaryInstruction known leaf) (otherOrdinary : OrdinaryInstruction known other)
    (same : plain leaf = plain other) : leaf = other := by
  obtain ⟨names, texts⟩ := plain_inj same
  have specimens := mnemonic_inj names
  cases leaf <;> cases isLeaf <;> cases other <;> cases specimens
  case br | brIf | call | localGet | localSet | globalGet | globalSet =>
    rw [Nat.repr_inj.mp ((String.append_right_inj _).mp texts)]
  case load | store => rw [memArg_inj ordinary otherOrdinary texts]
  case i32Const => rw [Int32.toInt_inj.mp (Int.repr_inj.mp ((String.append_right_inj _).mp texts))]
  case f64Const =>
    rw [real_inj faithful ordinary otherOrdinary ((String.append_right_inj _).mp texts)]
  all_goals rfl

/-- Code with the same text as this is the same, and ends where it does. -/
def Determined (known : Float → Prop) (first : Code) : Prop :=
  ∀ (second : Code) (depth : Nat) (back rest : String), OrdinaryCode known second →
    Shallower depth back → Shallower depth rest →
    render (code depth first) ++ back = render (code depth second) ++ rest →
    first = second ∧ back = rest

section Instructions

theorem Determined.closed (determined : Determined known first)
    (ordinary : OrdinaryCode known second)
    (same : render (code (depth + 1) first) ++ (indentation depth ++ ("end" ++ ("\n" ++ back))) =
      render (code (depth + 1) second) ++ (indentation depth ++ ("end" ++ ("\n" ++ rest)))) :
    first = second ∧ back = rest := by
  obtain ⟨codes, ends⟩ := determined second _ _ _ ordinary (shallower_line (by decide))
    (shallower_line (by decide)) same
  simp only [String.append_right_inj] at ends
  exact ⟨codes, ends⟩

theorem shallower_alternative :
    Shallower (depth + 1) (alternativeText depth alternative ++ back) := by
  cases alternative <;> rw [alternativeText, String.append_assoc, String.append_assoc] <;>
    exact shallower_line (by decide)

theorem Determined.alternative (determined : Determined known first)
    (ordinary : OrdinaryCode known second)
    (same : alternativeText depth first ++ back = alternativeText depth second ++ rest) :
    first = second ∧ back = rest := by
  have ends (back rest : String) : "end" ++ back ≠ "else" ++ rest := by
    intro same
    have seconds := congrArg (fun text => text.toList[1]?) same
    simp at seconds
  cases first <;> cases second <;>
    simp only [alternativeText, String.append_assoc, String.append_right_inj] at same
  · exact ⟨rfl, same⟩
  · exact absurd same (ends _ _)
  · exact absurd same.symm (ends _ _)
  · exact determined.closed ordinary same

theorem instruction_inj (faithful : Faithful known)
    (inner : ∀ body : Code, sizeOf body < sizeOf first → OrdinaryCode known body →
      Determined known body)
    (ordinary : OrdinaryInstruction known first) (otherOrdinary : OrdinaryInstruction known second)
    (same : render (instruction depth first) ++ back = render (instruction depth second) ++ rest) :
    first = second ∧ back = rest := by
  have plains : plain first = plain second := by
    obtain ⟨more, opens⟩ := instruction_opens
    obtain ⟨others, otherOpens⟩ := instruction_opens
    rw [opens, otherOpens, String.append_right_inj] at same
    exact (cut free_plain free_plain (ends rfl rfl) (ends rfl rfl) same).1
  have specimens := mnemonic_inj (plain_inj plains).1
  by_cases isLeaf : Leaf first
  · obtain rfl := leaf_inj faithful isLeaf ordinary otherOrdinary plains
    exact ⟨rfl, (String.append_right_inj _).mp same⟩
  · cases first <;> try exact absurd trivial isLeaf
    all_goals cases second <;> cases specimens
    rotate_left 2
    · next consequent alternative otherConsequent otherAlternative =>
      simp only [conditional_text, String.append_assoc, String.append_right_inj] at same
      rw [OrdinaryInstruction] at ordinary otherOrdinary
      obtain ⟨rfl, tails⟩ := inner consequent (by simp; omega) ordinary.1 _ _ _ _
        otherOrdinary.1 shallower_alternative shallower_alternative same
      obtain ⟨rfl, ends⟩ :=
        (inner alternative (by simp) ordinary.2).alternative otherOrdinary.2 tails
      exact ⟨rfl, ends⟩
    all_goals
      next body otherBody =>
        simp only [instruction, line, render_append, render_cons, render_nil, String.append_assoc,
          String.append_empty, String.append_right_inj] at same
        obtain ⟨rfl, ends⟩ := (inner body (by simp) ordinary).closed otherOrdinary same
        exact ⟨rfl, ends⟩

theorem code_determined (faithful : Faithful known)
    (ordinary : OrdinaryCode known first) : Determined known first := by
  intro second depth back rest otherOrdinary ends otherEnds same
  match first, second with
  | [], [] => exact ⟨rfl, (String.append_right_inj _).mp same⟩
  | [], other :: others =>
    obtain ⟨more, opens⟩ := code_opens
    rw [code, render_nil, String.empty_append, opens] at same
    exact absurd same (ends _)
  | first :: firsts, [] =>
    obtain ⟨more, opens⟩ := code_opens
    rw [opens, code, render_nil, String.empty_append] at same
    exact absurd same.symm (otherEnds _)
  | first :: firsts, other :: others =>
    rw [code, code, render_append, render_append, String.append_assoc, String.append_assoc] at same
    rw [OrdinaryCode] at ordinary otherOrdinary
    -- Only instructions inside of the first one and those after it are smaller.
    obtain ⟨rfl, tails⟩ := instruction_inj faithful
      (fun body smaller => code_determined faithful) ordinary.1 otherOrdinary.1 same
    obtain ⟨rfl, sameEnds⟩ := code_determined faithful ordinary.2 others depth back
      rest otherOrdinary.2 ends otherEnds tails
    exact ⟨rfl, sameEnds⟩
  termination_by sizeOf first

end Instructions

/-! ## Entries -/

/-- The text starts with an entry, and the word of the entry with the letter. -/
def Keyed (key : Char) (text : String) : Prop := text.toList[3]? = some key

theorem keyed (starts : word.toList = '(' :: key :: more) (back : String) :
    Keyed key (indentation 1 ++ (word ++ back)) := by
  simp [Keyed, indentation, starts, List.replicate]

theorem types_told : Told (Keyed 't') (fun _ => True) Prod.fst fun entry : FuncType × Nat =>
    funcType entry.2 entry.1 ++ "\n" where
  opens entry back := by
    simp only [funcType, line, String.append_assoc]
    exact keyed rfl _
  inj _ _ same := by
    simp only [funcType, line, String.append_assoc, String.append_right_inj, label_inj] at same
    obtain ⟨types, ends⟩ := typeGroups_inj same.2
    exact ⟨types, (String.append_right_inj _).mp ends⟩

theorem imports_told : Told (Keyed 'i') (fun _ => True) Prod.fst fun entry : Import × Nat =>
    importEntry entry.2 entry.1 ++ "\n" where
  opens entry back := by
    simp only [importEntry, line, String.append_assoc]
    exact keyed rfl _
  inj {entry other _ _} _ _ same := by
    simp (disch := exact ends rfl rfl) only [importEntry, line, String.append_assoc,
      String.append_right_inj, quotedName_inj, label_inj, number_inj] at same
    obtain ⟨modules, names, -, types, backs⟩ := same
    obtain ⟨⟨module, name, typeIndex⟩, index⟩ := entry
    obtain ⟨rfl, rfl, rfl⟩ := And.intro modules (And.intro names types)
    exact ⟨rfl, backs⟩

theorem memory_told : Told (Keyed 'm') (fun _ => True) id fun limits => memory limits ++ "\n" where
  opens entry back := by
    simp only [memory, line, String.append_assoc]
    exact keyed rfl _
  inj {limits other _ _} _ _ same := by
    obtain ⟨least, most⟩ := limits
    obtain ⟨otherLeast, otherMost⟩ := other
    cases most <;> cases otherMost <;>
      simp (disch := exact ends rfl rfl) only [memory, line, String.append_assoc,
        String.empty_append, String.append_right_inj, number_inj, UInt32.toNat_inj] at same
    · exact ⟨same.1 ▸ rfl, same.2⟩
    · exact absurd same.2 (apart rfl rfl (by decide))
    · exact absurd same.2 (apart rfl rfl (by decide))
    · exact ⟨same.1 ▸ same.2.1 ▸ rfl, same.2.2⟩

theorem exports_told :
    Told (Keyed 'e') (fun _ => True) id fun entry => exportEntry entry ++ "\n" where
  opens entry back := by
    simp only [exportEntry, line, String.append_assoc]
    exact keyed rfl _
  inj {entry other _ _} _ _ same := by
    simp only [exportEntry, line, String.append_assoc, String.append_right_inj,
      quotedName_inj] at same
    have free (kind : ExportKind) : Free ' ' kind.keyword := by cases kind <;> decide
    obtain ⟨keywords, indices⟩ := cut (free _) (free _) (ends rfl rfl) (ends rfl rfl) same.2
    simp (disch := exact ends rfl rfl) only [String.append_right_inj, number_inj] at indices
    have kinds : entry.kind = other.kind := by
      revert keywords
      cases entry.kind <;> cases other.kind <;> decide
    obtain ⟨name, kind, index⟩ := entry
    obtain ⟨rfl, rfl, rfl⟩ := And.intro same.1 (And.intro kinds indices.1)
    exact ⟨rfl, indices.2⟩

theorem data_told : Told (Keyed 'd') (fun _ => True) Prod.fst fun entry : DataSegment × Nat =>
    dataEntry entry.2 entry.1 ++ "\n" where
  opens entry back := by
    simp only [dataEntry, line, String.append_assoc]
    exact keyed rfl _
  inj {entry other _ _} _ _ same := by
    simp (disch := exact ends rfl rfl) only [dataEntry, line, String.append_assoc,
      String.append_right_inj, label_inj, number_inj, quotedBytes_inj, UInt32.toNat_inj] at same
    obtain ⟨-, offsets, bytes, backs⟩ := same
    obtain ⟨⟨offset, contents⟩, index⟩ := entry
    obtain ⟨rfl, rfl⟩ := And.intro offsets bytes
    exact ⟨rfl, backs⟩

theorem globals_told (faithful : Faithful known) :
    Told (Keyed 'g') (fun entry => Leaf entry.1.initial ∧ OrdinaryInstruction known entry.1.initial)
      Prod.fst fun entry : Global × Nat => globalEntry entry.2 entry.1 ++ "\n" where
  opens entry back := by
    simp only [globalEntry, line, String.append_assoc]
    exact keyed rfl _
  inj {entry other _ _} isKnown otherKnown same := by
    obtain ⟨⟨type, mutable, init⟩, index⟩ := entry
    obtain ⟨⟨otherType, otherMutable, otherInitial⟩, otherIndex⟩ := other
    have differ (type : ValueType) (back rest : String) : "(mut " ++ back ≠ type.name ++ rest := by
      cases type <;> exact apart rfl rfl (by decide)
    have initials {back rest : String}
        (same : plain init ++ ("))" ++ ("\n" ++ back)) =
          plain otherInitial ++ ("))" ++ ("\n" ++ rest))) :
        init = otherInitial ∧ back = rest := by
      rw [← String.append_assoc, ← @String.append_assoc (plain otherInitial)] at same
      obtain ⟨plains, backs⟩ := cut (within_append.mpr ⟨free_plain, by decide⟩)
        (within_append.mpr ⟨free_plain, by decide⟩) (ends rfl rfl) (ends rfl rfl) same
      have sameInit := (String.append_left_inj _).mp plains
      exact ⟨leaf_inj faithful isKnown.1 isKnown.2 otherKnown.2 sameInit,
        (String.append_right_inj _).mp backs⟩
    cases mutable <;> cases otherMutable <;>
      simp only [globalEntry, line, String.append_assoc, String.append_right_inj, label_inj,
        if_true, Bool.false_eq_true, if_false, typeName_inj] at same
    · obtain ⟨-, rfl, afterType⟩ := same
      obtain ⟨rfl, backs⟩ := initials afterType
      exact ⟨rfl, backs⟩
    · exact absurd same.2.symm (differ _ _ _)
    · exact absurd same.2 (differ _ _ _)
    · obtain ⟨-, rfl, afterType⟩ := same
      obtain ⟨rfl, backs⟩ := initials afterType
      exact ⟨rfl, backs⟩

/-! ## Functions -/

theorem functionEntry_eq : render (functionEntry index function) =
    indentation 1 ++ ("(func " ++ (label index ++
      (" (type " ++ (toString function.typeIndex ++ (")" ++ ("\n" ++
        (group (indentation 2 ++ "(local ") "\n" function.locals ++
          (render (code 2 function.body) ++ (indentation 1 ++ (")" ++ "\n")))))))))) := by
  cases locals : function.locals <;>
    simp [functionEntry, group, line, locals, String.append_assoc, -String.reduceAppend]

theorem functions_told (faithful : Faithful known) :
    Told (Keyed 'f') (fun entry => OrdinaryCode known entry.1.body)
      ((fun function => { function with name := "" }) ∘ Prod.fst) fun entry : Function × Nat =>
        render (functionEntry entry.2 entry.1) where
  opens entry back := by
    rw [functionEntry_eq, String.append_assoc, String.append_assoc]
    exact keyed rfl _
  inj {entry other _ _} isKnown otherKnown same := by
    have noLocals (body : Code) (back more : String) : render (code 2 body) ++
        (indentation 1 ++ (")" ++ back)) ≠ indentation 2 ++ "(local " ++ more := by
      intro same
      rw [String.append_assoc] at same
      cases body with
      | nil =>
        rw [code, render_nil, String.empty_append] at same
        exact shallower_line (by decide) _ same
      | cons first others =>
        obtain ⟨further, opens⟩ := code_opens
        have isWord := ((mnemonic_word first).2.2.append (immediate first)).append ("\n" ++ further)
        rw [← plain, (String.append_right_inj _).mp (opens.symm.trans same)] at isWord
        simp [IsWord] at isWord
    simp (disch := exact ends rfl rfl) only [functionEntry_eq, String.append_assoc,
      String.append_right_inj, label_inj, number_inj] at same
    obtain ⟨-, types, afterType⟩ := same
    obtain ⟨locals, codes⟩ := group_inj (noLocals _ _) (noLocals _ _) afterType
    obtain ⟨bodies, backs⟩ := code_determined faithful isKnown _ 2 _ _ otherKnown
      (shallower_line (by decide)) (shallower_line (by decide)) codes
    exact ⟨by simp only [Function.comp_apply, types, locals, bodies],
      by simpa only [String.append_right_inj] using backs⟩

/-! ## Sections -/

theorem functionEntries_eq (module : Module) :
    (module.functions.mapIdx fun pos function =>
      functionEntry (module.functionIndex pos) function) =
      (module.functions.zipIdx module.imports.length).map fun entry =>
        functionEntry entry.2 entry.1 := by
  rw [zipIdx_eq_map_add, mapIdx_eq_zipIdx_map, map_map]
  rfl

theorem render_map (write : α → String) (entries : List α) :
    render (entries.map write) =
      String.join (entries.map fun entry => write entry ++ "\n") := by
  simp [render, Function.comp_def]

theorem render_flatten (blocks : List (List String)) :
    render blocks.flatten = String.join (blocks.map render) := by
  induction blocks with
  | nil => simp
  | cons block blocks ih => simp [ih]

/-- The text starts with an entry of one of the sections, and tells what is seen of a module. -/
structure Determines {β : Type} (keys : List Char) (known : Module → Prop) (view : Module → β)
    (text : Module → String) : Prop where
  keyed (module : Module) (key : Char) : Keyed key (text module) → key ∈ keys
  inj {first second : Module} : known first → known second → text first = text second →
    view first = view second

theorem Told.before {write : α → String}
    {keys : List Char} {known : Module → Prop}
    (told : Told (Keyed key) isKnown view write) (entries : Module → List α)
    (areKnown : ∀ module, known module → ∀ entry ∈ entries module, isKnown entry) (isOther :
      key ∉ keys)
    (determines : Determines keys known others text) :
    Determines (key :: keys) known (fun module => ((entries module).map view, others module))
      fun module => String.join ((entries module).map write) ++ text module where
  keyed module other isKeyed := by
    cases isEntries : entries module with
    | nil =>
      rw [isEntries, map_nil, String.join_nil, String.empty_append] at isKeyed
      exact mem_cons_of_mem _ (determines.keyed module other isKeyed)
    | cons entry rest =>
      rw [isEntries, map_cons, String.join_cons, String.append_assoc] at isKeyed
      exact mem_cons.mpr (.inl (Option.some.inj (isKeyed.symm.trans (told.opens entry _))))
  inj isFirst isSecond same := by
    have ends (module : Module) : ¬ Keyed key (text module) :=
      mt (determines.keyed module key) isOther
    obtain ⟨views, texts⟩ := told.list (areKnown _ isFirst) (areKnown _ isSecond) (ends _) (ends _)
      same
    exact congrArg₂ Prod.mk views (determines.inj isFirst isSecond texts)

theorem closing_determines {known : Module → Prop} :
    Determines [] known (fun _ => ()) fun _ => render [")"] where
  keyed _ key isKeyed := by simp [Keyed, render] at isKeyed
  inj _ _ _ := rfl

end Imperative.Wasm.Text

namespace Imperative.Wasm

/--
The globals of the module start as constants.  Alignments can be written as powers of two, and real
constants are among the known ones.
-/
structure Module.Ordinary (known : Float → Prop) (module : Module) : Prop where
  globals : ∀ global ∈ module.globals, (∃ val, global.initial = .i32Const val) ∨
    ∃ val, known val ∧ global.initial = .f64Const val
  functions : ∀ function ∈ module.functions, Text.OrdinaryCode known function.body

theorem Binary.vectorSection_map (kind : UInt8) (entry : β → Bytes) (view : α → β)
    (entries : List α) :
    vectorSection kind entry (entries.map view) =
      vectorSection kind (fun item => entry (view item)) entries := by
  simp [vectorSection, vector, List.flatMap_map]

theorem Binary.encode_nameless : encode module.nameless = encode module := by
  simp only [encode, Module.nameless, vectorSection_map]
  rfl

open Imperative.Wasm.Text in
theorem Module.Ordinary.constant {module : Module} (ordinary : module.Ordinary known)
    (entry : Global × Nat) (isIn : entry ∈ module.globals.zipIdx) :
    Leaf entry.1.initial ∧ OrdinaryInstruction known entry.1.initial := by
  rcases ordinary.globals _ (List.fst_mem_of_mem_zipIdx isIn) with
    ⟨val, initial⟩ | ⟨val, isKnown, initial⟩ <;> rw [initial]
  · exact ⟨trivial, trivial⟩
  · exact ⟨trivial, isKnown⟩

open Imperative.Wasm.Text in
/--
If finite constants have texts of their own, the text of a module determines everything of it but
the names of its functions and the table of its types, and so its binary form.
-/
theorem text_determines_binary {known : Float → Prop} {first second : Module}
    (faithful : Faithful known) (ordinary : first.Ordinary known)
    (otherOrdinary : second.Ordinary known) (same : Text.encode first = Text.encode second) :
    first.nameless = second.nameless ∧ Binary.encode first = Binary.encode second := by
  have told := types_told.before (·.types.zipIdx) (fun _ _ _ _ => trivial) (by decide) <|
    imports_told.before (·.imports.zipIdx) (fun _ _ _ _ => trivial) (by decide) <|
    memory_told.before (·.memory.toList) (fun _ _ _ _ => trivial) (by decide) <|
    (globals_told faithful).before (·.globals.zipIdx)
      (fun _ => Module.Ordinary.constant) (by decide) <|
    (functions_told faithful).before (fun module => module.functions.zipIdx module.imports.length)
      (fun _ ordinary _ isIn => ordinary.functions _ (List.fst_mem_of_mem_zipIdx isIn))
      (by decide) <|
    exports_told.before (·.exports) (fun _ _ _ _ => trivial) (by decide) <|
    data_told.before (·.data.zipIdx) (fun _ _ _ _ => trivial) (by decide) <|
      closing_determines
  have texts : render (lines first) = render (lines second) := same
  simp only [lines, functionEntries_eq] at texts
  simp only [List.mapIdx_eq_zipIdx_map, render_append, render_cons, render_map, render_flatten,
    List.map_map, String.append_assoc, String.append_right_inj] at texts
  have parts := told.inj ordinary otherOrdinary texts
  simp only [Prod.mk.injEq, ← List.map_map, List.zipIdx_map_fst, List.map_id, and_true] at parts
  obtain ⟨types, imports, memories, globals, functions, exports, data⟩ := parts
  have memory : first.memory = second.memory := by simpa using congrArg List.head? memories
  have nameless : first.nameless = second.nameless := by
    rw [Module.nameless, Module.nameless, types, imports, functions, memory, globals, exports, data]
  exact ⟨nameless, by rw [← Binary.encode_nameless, nameless, Binary.encode_nameless]⟩

def storingModule (name : String) : Module :=
  { sampleModule name with
    functions :=
      [{ name, typeIndex := 0, locals := [.i32, .f64],
         body := [.localGet 0, .f64Const 1.5, .store .f64 { align := 3, offset := 8 },
          .loop [.localGet 0, .load .i32 { align := 0, offset := 0 },
            .conditional [.br 1] []], .localGet 0] }] }

theorem storingModule_ordinary : (storingModule name).Ordinary (· = 1.5) := by
  refine ⟨List.forall_mem_singleton.mpr (.inr ⟨1.5, rfl, rfl⟩), List.forall_mem_singleton.mpr ?_⟩
  simp +decide [Text.OrdinaryCode, Text.OrdinaryInstruction]

theorem text_determines_binary_storingModule :
    (storingModule "first").Ordinary (· = 1.5) ∧ (storingModule "second").Ordinary (· = 1.5) ∧
      Text.encode (storingModule "first") = Text.encode (storingModule "second") ∧
      (storingModule "first").nameless = (storingModule "second").nameless ∧
      Binary.encode (storingModule "first") = Binary.encode (storingModule "second") :=
  ⟨storingModule_ordinary, storingModule_ordinary, rfl,
    text_determines_binary (fun _ _ isKnown otherKnown _ _ _ => isKnown.trans otherKnown.symm)
      storingModule_ordinary storingModule_ordinary rfl⟩

end Imperative.Wasm
