import Mathlib
import Imperative.Wasm.Binary
import Imperative.Proofs.Wasm.Decoder

/-!
# Decoding what was encoded

Every part of the binary format delimits itself: whatever bytes come after it, the decoder takes
exactly the part and gives back what was encoded.  The library is imported whole, since no part of
it leads to `Float.ofBits_toBits`.
-/

namespace Imperative.Wasm

open Binary Instruction

open Decode (Decoder)

variable {bytes rest : List UInt8} {depth : Nat}

/-! ## Modules whose numbers fit -/

/-- The number fits in 32 bits. -/
def Fits (number : Nat) : Prop := number < 2 ^ 32

instance (number : Nat) : Decidable (Fits number) := inferInstanceAs (Decidable (_ < _))

mutual

def Instruction.indices : Instruction → List Nat
  | .block body => codeIndices body
  | .loop body => codeIndices body
  | .conditional consequent alternative => codeIndices consequent ++ codeIndices alternative
  | .br index => [index]
  | .brIf index => [index]
  | .call index => [index]
  | .localGet index => [index]
  | .localSet index => [index]
  | .globalGet index => [index]
  | .globalSet index => [index]
  | _ => []

/-- The numbers in some code. -/
def codeIndices : List Instruction → List Nat
  | [] => []
  | first :: rest => first.indices ++ codeIndices rest

end

/-- The numbers in the code fit. -/
def CodeFits (code : Code) : Prop := ∀ index ∈ codeIndices code, Fits index

instance (code : Code) : Decidable (CodeFits code) :=
  inferInstanceAs (Decidable (∀ index ∈ codeIndices code, Fits index))

/-- Whether the numbers of parameters and results fit. -/
structure FuncType.Sized (type : FuncType) : Prop where
  parameters : Fits type.parameters.length
  results : Fits type.results.length

/-- Whether the lengths of the names and the index of the type fit. -/
structure Import.Sized (entry : Import) : Prop where
  module : Fits entry.module.toUTF8.toList.length
  name : Fits entry.name.toUTF8.toList.length
  typeIndex : Fits entry.typeIndex

/-- The locals and the instructions of a function as they are encoded. -/
def Function.bodyBytes (function : Function) : Binary.Bytes :=
  vector (fun (count, type) => number count ++ [type.code]) (Binary.runs function.locals) ++
    Binary.code function.body ++ [closing]

/-- Whether the number of locals, the length of the body and the indices in it fit. -/
structure Function.Sized (function : Function) : Prop where
  typeIndex : Fits function.typeIndex
  locals : Fits function.locals.length
  code : CodeFits function.body
  body : Fits function.bodyBytes.length

/-- Whether the length of the name and the index fit. -/
structure Export.Sized (entry : Export) : Prop where
  name : Fits entry.name.toUTF8.toList.length
  index : Fits entry.index

/-- Whether the numbers of a module fit: those of its entries, and for every section the number
of the entries and the length of their bytes. -/
structure Module.Sized (module : Module) : Prop where
  types : ∀ type ∈ module.types, type.Sized
  imports : ∀ entry ∈ module.imports, entry.Sized
  functions : ∀ function ∈ module.functions, function.Sized
  globals : ∀ global ∈ module.globals, CodeFits [global.initial]
  exports : ∀ entry ∈ module.exports, entry.Sized
  data : ∀ segment ∈ module.data, Fits segment.bytes.length
  typeCount : Fits module.types.length
  importCount : Fits module.imports.length
  functionCount : Fits module.functions.length
  globalCount : Fits module.globals.length
  exportCount : Fits module.exports.length
  dataCount : Fits module.data.length
  typeBytes : Fits (vector funcType module.types).length
  importBytes : Fits (vector importEntry module.imports).length
  functionBytes : Fits (vector functionEntry module.functions).length
  memoryBytes : Fits (vector limits module.memory.toList).length
  globalBytes : Fits (vector globalEntry module.globals).length
  exportBytes : Fits (vector exportEntry module.exports).length
  codeBytes : Fits (vector codeEntry module.functions).length
  dataBytes : Fits (vector dataEntry module.data).length

/--
The module without what is not encoded: the names of its functions, and the table in which its
types are looked up.
-/
def Module.nameless (module : Module) : Module :=
  { module with
    functions := module.functions.map fun function => { function with name := "" }
    typeLookup := [] }

namespace Decode

variable {α : Type}

/-! ## Taking a value off the front -/

/-- Whatever comes after the bytes, the decoder takes exactly them and gives the value. -/
def Decodes (decoder : Decoder α) (bytes : List UInt8) (val : α) : Prop :=
  ∀ rest, decoder (bytes ++ rest) = some (val, rest)

theorem bind_eq (taken : decoder bytes = some (val, rest)) (next : α → Decoder β) :
    (decoder >>= next) bytes = next val rest := by
  have isBind : (decoder >>= next) bytes = (decoder bytes).bind fun res => next res.1 res.2 := rfl
  rw [isBind, taken, Option.bind_some]

theorem Decodes.pure : Decodes (pure val) [] val := fun _ => rfl

theorem Decodes.done (isResult : val = res) : Decodes (Pure.pure val) [] res :=
  isResult ▸ .pure

theorem Decodes.bind (first : Decodes decoder front val) (second : Decodes (next val) back res) :
    Decodes (decoder >>= next) (front ++ back) res := by
  intro rest
  rw [List.append_assoc, bind_eq (first (back ++ rest)), second]

theorem Decodes.before (first : Decodes decoder bytes val) (second : Decodes (next val) [] res) :
    Decodes (decoder >>= next) bytes res := by
  simpa using first.bind second

theorem Decodes.after (first : Decodes decoder [] val) (second : Decodes (next val) bytes res) :
    Decodes (decoder >>= next) bytes res := first.bind second

theorem get_bind (next : List UInt8 → Decoder β) : (get >>= next) bytes = next bytes bytes := rfl

theorem lift_eq (given : res = some val) (bytes : List UInt8) :
    (liftM res : Decoder α) bytes = some (val, bytes) := by
  subst given
  rfl

theorem guard_eq {cond : Prop} [Decidable cond] (holds : cond)
    (bytes : List UInt8) : (guard cond : Decoder Unit) bytes = some ((), bytes) := by
  rw [guard, if_pos holds]
  rfl

theorem Decodes.lift (given : res = some val) : Decodes (liftM res : Decoder α) [] val :=
  lift_eq given

theorem Decodes.guarded {cond : Prop} [Decidable cond] (holds : cond) :
    Decodes (guard cond : Decoder Unit) [] () := guard_eq holds

/-! ## Bytes and integers -/

theorem byte_decodes : Decodes byte [first] first := fun _ => rfl

theorem mark_decodes : Decodes (mark expected) [expected] () :=
  byte_decodes.bind (.guarded rfl)

theorem take_decodes (bytes : List UInt8) : Decodes (take bytes.length) bytes bytes := by
  intro rest
  simp [take]

theorem unsigned_decodes (bits number : Nat) (fits : number < 2 ^ bits) :
    Decodes (unsigned bits) (VarInt.unsigned number) number := by
  intro rest
  fun_induction VarInt.unsigned number generalizing bits with
  | case1 number short =>
    have toNat : (UInt8.ofNat number).toNat = number := by
      simpa using Nat.mod_eq_of_lt (by omega : number < 256)
    simp [unsigned, toNat, short, fits]
  | case2 number long ih =>
    have toNat : (UInt8.ofNat (number % 128 + 128)).toNat = number % 128 + 128 := by
      simpa using Nat.mod_eq_of_lt (by omega : number % 128 + 128 < 256)
    have wide : 7 < bits := by
      by_contra narrow
      have : 2 ^ bits ≤ 2 ^ 7 := Nat.pow_le_pow_right (by decide) (by omega)
      omega
    have isShift : 2 ^ bits = 2 ^ (bits - 7) * 128 := by
      rw [show (128 : Nat) = 2 ^ 7 from rfl, ← Nat.pow_add, Nat.sub_add_cancel (by omega)]
    have again := ih (bits - 7) (by omega)
    simp only [List.cons_append, unsigned, toNat]
    rw [if_neg (by omega), if_pos wide, again]
    show some (128 * (number / 128) + (number % 128 + 128 - 128), rest) = some (number, rest)
    rw [Nat.add_sub_cancel, Nat.div_add_mod]

theorem signed_decodes (bits : Nat) (number : Int) (least : -(2 ^ (bits - 1) : Nat) ≤ number)
    (most : number < (2 ^ (bits - 1) : Nat)) :
    Decodes (signed bits) (VarInt.signed number) number := by
  intro rest
  fun_induction VarInt.signed number generalizing bits with
  | case1 number short =>
    have toNat : (UInt8.ofNat (number % 128).toNat).toNat = (number % 128).toNat := by
      simpa using Nat.mod_eq_of_lt (by omega : (number % 128).toNat < 256)
    simp only [List.cons_append, List.nil_append, signed, toNat]
    by_cases negative : number < 0
    · rw [if_neg (by omega), if_pos (by omega), if_pos (by omega)]
      congr 2
      omega
    · rw [if_pos (by omega), if_pos (by omega)]
      congr 2
      omega
  | case2 number long ih =>
    have toNat : (UInt8.ofNat ((number % 128).toNat + 128)).toNat = (number % 128).toNat + 128 := by
      simpa using Nat.mod_eq_of_lt (by omega : (number % 128).toNat + 128 < 256)
    have wide : 7 < bits := by
      by_contra narrow
      have : 2 ^ (bits - 1) ≤ 2 ^ 6 := Nat.pow_le_pow_right (by decide) (by omega)
      omega
    have isShift : 2 ^ (bits - 1) = 2 ^ (bits - 7 - 1) * 128 := by
      rw [show (128 : Nat) = 2 ^ 7 from rfl, ← Nat.pow_add]
      congr 1
      omega
    have again := ih (bits - 7) (by omega) (by omega)
    simp only [List.cons_append, signed, toNat]
    rw [if_neg (by omega), if_neg (by omega), if_pos wide, again]
    show some (128 * (number / 128) + (((number % 128).toNat + 128 : Nat) - 128 : Int), rest) =
      some (number, rest)
    congr 2
    omega

theorem number_decodes (fits : Fits val) : Decodes number (Binary.number val) val :=
  unsigned_decodes 32 val fits

theorem littleEndian_double : littleEndian (Binary.double val) = val.toBits.toNat := by
  have bound : val.toBits.toNat < 18446744073709551616 := val.toBits.toNat_lt
  simp only [Binary.double, List.range, List.range.loop, List.map_cons, List.map_nil,
    littleEndian, UInt8.toNat_ofNat', Nat.pow_eq, Nat.reducePow]
  omega

theorem double_decodes : Decodes double (Binary.double val) val := by
  have isVal : Float.ofBits (UInt64.ofNat (littleEndian (Binary.double val))) = val := by
    rw [littleEndian_double, UInt64.ofNat_toNat, Float.ofBits_toBits]
  refine (take_decodes (Binary.double val)).before ?_
  rw [isVal]
  exact .pure

/-! ## Names, vectors and frames -/

theorem toList_loop (bytes : ByteArray) :
    ByteArray.toList.loop bytes pos reversed = reversed.reverse ++ bytes.data.toList.drop pos := by
  fun_induction ByteArray.toList.loop bytes pos reversed with
  | case1 pos reversed inside ih =>
    have isNext : bytes.get! pos = bytes.data.toList[pos] := by
      simp [ByteArray.get!, getElem!_pos, inside]
    rw [ih, List.reverse_cons, List.append_assoc, isNext,
      List.singleton_append, List.getElem_cons_drop]
  | case2 pos reversed outside =>
    rw [List.drop_eq_nil_of_le (by simpa using outside), List.append_nil]

theorem toByteArray_toList (bytes : ByteArray) : bytes.toList.toByteArray = bytes := by
  rw [ByteArray.toList, toList_loop]
  ext1
  simp [List.data_toByteArray]

theorem name_decodes (fits : Fits text.toUTF8.toList.length) :
    Decodes name (Binary.name text) text := by
  have valid : String.fromUTF8? text.toUTF8.toList.toByteArray = some text := by
    rw [toByteArray_toList, String.fromUTF8?,
      dif_pos (show text.toUTF8.IsValidUTF8 from text.isValidUTF8)]
    rfl
  exact (number_decodes fits).bind ((take_decodes text.toUTF8.toList).before (.lift valid))

theorem times_decodes (entries : List α)
    (each : ∀ entry ∈ entries, Decodes decoder (encoder entry) (view entry)) :
    Decodes (times decoder entries.length) (entries.flatMap encoder) (entries.map view) := by
  induction entries with
  | nil => exact .pure
  | cons first rest ih =>
    have others := ih fun entry isIn => each entry (List.mem_cons_of_mem first isIn)
    exact (each first List.mem_cons_self).bind (others.before Decodes.pure)

theorem vector_decodes (fits : Fits entries.length)
    (each : ∀ entry ∈ entries, Decodes decoder (encoder entry) (view entry)) :
    Decodes (vector decoder) (Binary.vector encoder entries) (entries.map view) :=
  (number_decodes fits).bind (times_decodes entries each)

theorem complete_of_decodes (decodes : Decodes decoder bytes val) :
    complete decoder bytes = some val := by
  have all := decodes []
  rw [List.append_nil] at all
  rw [complete, all]

theorem framed_decodes (fits : Fits bytes.length) (decodes : Decodes decoder bytes val) :
    Decodes (framed decoder) (Binary.number bytes.length ++ bytes) val :=
  (number_decodes fits).bind ((take_decodes bytes).before (.lift (complete_of_decodes decodes)))

/-! ## Instructions -/

def shapeOf : Instruction → Shape
  | .block _ => .nested .block
  | .loop _ => .nested .loop
  | .conditional _ _ => .conditional
  | .br _ => .indexed .br
  | .brIf _ => .indexed .brIf
  | .call _ => .indexed .call
  | .localGet _ => .indexed .localGet
  | .localSet _ => .indexed .localSet
  | .globalGet _ => .indexed .globalGet
  | .globalSet _ => .indexed .globalSet
  | .load type _ => .access (.load type)
  | .store type _ => .access (.store type)
  | .i32Const _ => .i32Const
  | .f64Const _ => .f64Const
  | instruction => .plain instruction

theorem opcode_read {instruction : Instruction} :
    shape? instruction.opcode = some (shapeOf instruction) ∧ ending? instruction.opcode = none := by
  cases instruction with
  | numeric operation => cases operation <;> exact ⟨rfl, rfl⟩
  | load type access | store type access => cases type <;> exact ⟨rfl, rfl⟩
  | _ => exact ⟨rfl, rfl⟩

theorem shape?_opcode (instruction : Instruction) :
    shape? instruction.opcode = some (shapeOf instruction) := opcode_read.1

theorem instruction_head (instruction : Instruction) :
    (Binary.instruction instruction).head? = some instruction.opcode := by
  cases instruction with
  | conditional consequent alternative => cases alternative <;> simp [Binary.instruction]
  | numeric operation => simp [Binary.instruction, opcode]
  | _ => simp [Binary.instruction]

theorem memArg_decodes : Decodes memArg (Binary.memArg access) access := by
  refine (number_decodes access.align.toNat_lt).bind
    ((number_decodes access.offset.toNat_lt).before (.done ?_))
  rw [UInt32.ofNat_toNat, UInt32.ofNat_toNat]

theorem plain_decodes {instruction : Instruction}
    (shape : shapeOf instruction = .plain instruction) :
    Decodes (Decode.instruction (depth + 1)) [instruction.opcode] instruction := by
  refine byte_decodes.before ?_
  rw [shape?_opcode, shape]
  exact .pure

theorem indexed_decodes (shape : shapeOf (make index) = .indexed make) (fits : Fits index) :
    Decodes (Decode.instruction (depth + 1)) ((make index).opcode :: Binary.number index)
      (make index) := by
  refine byte_decodes.bind ?_
  rw [shape?_opcode, shape]
  exact (number_decodes fits).before .pure

theorem access_decodes (shape : shapeOf (make access) = .access make) :
    Decodes (Decode.instruction (depth + 1)) ((make access).opcode :: Binary.memArg access)
      (make access) := by
  refine byte_decodes.bind ?_
  rw [shape?_opcode, shape]
  exact memArg_decodes.before .pure

theorem nested_decodes (shape : shapeOf (make body) = .nested make)
    (inner : Decodes (Decode.code depth) (Binary.code body ++ [closing]) (body, .closing)) :
    Decodes (Decode.instruction (depth + 1))
      ((make body).opcode :: emptyBlock :: Binary.code body ++ [closing])
      (make body) := by
  refine byte_decodes.bind ?_
  rw [shape?_opcode, shape]
  exact mark_decodes.bind (inner.before ((Decodes.guarded rfl).after Decodes.pure))

def endingByte : Ending → UInt8
  | .closing => closing
  | .otherwise => otherwise

theorem conditional_decodes
    (inner : ∀ ending, Decodes (Decode.code depth) (Binary.code consequent ++ [endingByte ending])
      (consequent, ending))
    (other : Decodes (Decode.code depth) (Binary.code alternative ++ [Binary.closing]) (alternative,
      .closing)) :
    Decodes (Decode.instruction (depth + 1)) (Binary.instruction
      (.conditional consequent alternative))
      (.conditional consequent alternative) := by
  cases alternative with
  | nil =>
    refine byte_decodes.bind ?_
    exact mark_decodes.bind ((inner .closing).before .pure)
  | cons first rest =>
    have isCode : Binary.instruction (.conditional consequent (first :: rest)) =
        [(conditional consequent (first :: rest)).opcode] ++ ([0x40] ++
          ((Binary.code consequent ++ [endingByte .otherwise]) ++
            (Binary.code (first :: rest) ++ [Binary.closing]))) := by
      simp [Binary.instruction, Binary.code, Binary.emptyBlock, endingByte]
    rw [Decode.instruction, isCode]
    refine byte_decodes.bind ?_
    exact mark_decodes.bind ((inner .otherwise).bind
      (other.before ((Decodes.guarded rfl).after Decodes.pure)))

def InstructionDecodes (depth : Nat) : Prop :=
  ∀ instruction : Instruction, (∀ index ∈ instruction.indices, Fits index) →
    (Binary.instruction instruction).length ≤ depth →
    Decodes (Decode.instruction depth) (Binary.instruction instruction) instruction

def CodeDecodes (depth : Nat) : Prop :=
  ∀ ending body, CodeFits body → (Binary.code body).length < depth →
    Decodes (Decode.code depth) (Binary.code body ++ [endingByte ending]) (body, ending)

theorem instruction_decodes_step (inner : CodeDecodes depth) : InstructionDecodes (depth + 1) := by
  intro instruction fits short
  cases instruction with
  | block body | loop body =>
    have shorter : (Binary.code body).length < depth := by
      simp [Binary.instruction] at short
      omega
    have bodyFits : CodeFits body := by simpa [indices, CodeFits] using fits
    exact nested_decodes rfl (inner .closing body bodyFits shorter)
  | conditional consequent alternative =>
    have shorter : (Binary.code consequent).length < depth ∧
      (Binary.code alternative).length < depth := by
      cases alternative <;> simp [Binary.instruction, Binary.code] at short ⊢ <;> omega
    have bothFit : CodeFits consequent ∧ CodeFits alternative := by
      constructor <;> intro index isIn <;> apply fits <;> simp [indices, isIn]
    exact conditional_decodes (fun ending => inner ending consequent bothFit.1 shorter.1)
      (inner .closing alternative bothFit.2 shorter.2)
  | i32Const val =>
    refine byte_decodes.bind ?_
    refine (signed_decodes 32 val.toInt val.le_toInt val.toInt_lt).before (.done ?_)
    rw [Int32.ofInt_toInt]
  | f64Const val =>
    refine byte_decodes.bind ?_
    exact double_decodes.before .pure
  | load type access | store type access => exact access_decodes rfl
  | br index | brIf index | call index | localGet index | localSet index | globalGet index
  | globalSet index => exact indexed_decodes rfl (fits index (by simp [indices]))
  | unreachable | nop | ret | drop => exact plain_decodes rfl
  | numeric operation =>
    have plain : Decodes (Decode.instruction (depth + 1))
        [(numeric operation).opcode] (.numeric operation) := plain_decodes rfl
    exact plain

theorem code_decodes_step (single : InstructionDecodes depth) (several : CodeDecodes depth) :
    CodeDecodes (depth + 1) := by
  intro ending body fits short rest
  cases body with
  | nil => cases ending <;> rfl
  | cons first others =>
    have unended : (Binary.code (first :: others) ++ [endingByte ending] ++ rest).head?.bind
        ending? = none := by
      simp [Binary.code, instruction_head, opcode_read.2]
    have firstFits : ∀ index ∈ first.indices, Fits index :=
      fun index isIn => fits index (by simp [codeIndices, isIn])
    have othersFit : CodeFits others := fun index isIn => fits index (by simp [codeIndices, isIn])
    have positive : 0 < (Binary.instruction first).length :=
      List.length_pos_of_mem (List.mem_of_head? (instruction_head first))
    rw [Binary.code, List.length_append] at short
    rw [Decode.code, get_bind, unended, Binary.code, List.append_assoc (Binary.instruction first)]
    refine (?sequence : Decodes _ (Binary.instruction first ++
      (Binary.code others ++ [endingByte ending])) (first :: others, ending)) rest
    refine .bind (single first firstFits (by omega)) ?_
    refine .before (several ending others othersFit (by omega)) ?_
    exact .pure

theorem decodes_within : InstructionDecodes depth ∧ CodeDecodes depth := by
  induction depth with
  | zero =>
    constructor
    · intro instruction _ short
      have starts := instruction_head instruction
      rw [List.length_eq_zero_iff.mp (Nat.le_zero.mp short)] at starts
      cases starts
    · intro ending body _ short
      cases short
  | succ depth ih => exact ⟨instruction_decodes_step ih.2, code_decodes_step ih.1 ih.2⟩

/-- Instructions are decoded to the depth of their own length, whatever comes after them. -/
theorem expression_decodes (fits : CodeFits body) :
    Decodes expression (Binary.code body ++ [closing]) body := by
  intro rest
  have deep : (Binary.code body).length <
      (Binary.code body ++ [closing] ++ rest).length := by
    simp
  rw [expression, get_bind]
  refine (?closed : Decodes _ (Binary.code body ++ [closing]) body) rest
  refine .before (decodes_within.2 .closing body fits deep) ?_
  exact .after (.guarded rfl) .pure

/-! ## Entries of sections -/

theorem valueType_decodes : Decodes valueType [type.code] type := by
  cases type <;> exact fun _ => rfl

theorem valueTypes_decode (fits : Fits types.length) :
    Decodes (vector valueType) (Binary.vector (fun type => [type.code]) types) types := by
  have each : Decodes (vector valueType) (Binary.vector (fun type => [type.code]) types)
      (types.map id) := vector_decodes fits fun type _ => valueType_decodes
  rwa [List.map_id] at each

theorem funcType_decodes (sized : type.Sized) : Decodes funcType (Binary.funcType type) type :=
  mark_decodes.bind ((valueTypes_decode sized.parameters).bind
    ((valueTypes_decode sized.results).before Decodes.pure))

theorem importEntry_decodes (sized : entry.Sized) :
    Decodes importEntry (Binary.importEntry entry) entry := by
  rw [Binary.importEntry, List.append_assoc]
  exact (name_decodes sized.module).bind ((name_decodes sized.name).bind
    (mark_decodes.bind ((number_decodes sized.typeIndex).before .pure)))

theorem limits_decodes : Decodes limits (Binary.limits size) size := by
  obtain ⟨least, most⟩ := size
  cases most with
  | none =>
    refine byte_decodes.bind ((number_decodes least.toNat_lt).before (.done ?_))
    rw [UInt32.ofNat_toNat]
  | some most =>
    refine byte_decodes.bind ((number_decodes least.toNat_lt).bind
      ((number_decodes most.toNat_lt).before (.done ?_)))
    rw [UInt32.ofNat_toNat, UInt32.ofNat_toNat]

theorem mutability_decodes : Decodes mutability [if mutable then 0x01 else 0x00] mutable := by
  cases mutable <;> exact fun _ => rfl

theorem globalEntry_decodes (fits : CodeFits [global.initial]) :
    Decodes globalEntry (Binary.globalEntry global) global := by
  have init := expression_decodes fits
  rw [Binary.code, Binary.code, List.append_nil] at init
  exact valueType_decodes.bind (mutability_decodes.bind (init.before .pure))

theorem exportKind_decodes : Decodes exportKind [kind.code] kind := by
  cases kind <;> exact fun _ => rfl

theorem exportEntry_decodes (sized : entry.Sized) :
    Decodes exportEntry (Binary.exportEntry entry) entry :=
  (name_decodes sized.name).bind (exportKind_decodes.bind
    ((number_decodes sized.index).before .pure))

/-! ### Locals in runs -/

theorem flatten_runs :
    ((Binary.runs types).map fun run => List.replicate run.1 run.2).flatten = types := by
  fun_induction Binary.runs types with
  | case1 => rfl
  | case2 rest count next others isRuns ih =>
    rw [isRuns] at ih
    simpa [List.replicate_succ] using ih
  | case3 _ _ _ _ _ isRuns _ ih | case4 _ _ isRuns ih =>
    rw [isRuns] at ih
    simpa using ih

theorem runs_bounded :
    (Binary.runs types).length ≤ types.length ∧
      ∀ run ∈ Binary.runs types, run.1 ≤ types.length := by
  fun_induction Binary.runs types with
  | case1 => simp
  | case2 rest count next others isRuns ih =>
    rw [isRuns, List.forall_mem_cons] at ih
    obtain ⟨few, first, short⟩ := ih
    refine ⟨Nat.le_succ_of_le few, List.forall_mem_cons.mpr ⟨Nat.succ_le_succ first, ?_⟩⟩
    exact fun run isIn => Nat.le_succ_of_le (short run isIn)
  | case3 type rest count next others isRuns differs ih =>
    rw [isRuns] at ih
    obtain ⟨few, short⟩ := ih
    refine ⟨Nat.succ_le_succ few, List.forall_mem_cons.mpr ⟨Nat.succ_le_succ (Nat.zero_le _), ?_⟩⟩
    exact fun run isIn => Nat.le_succ_of_le (short run isIn)
  | case4 type rest isRuns ih => simp

theorem localRun_decodes (fits : Fits count) :
    Decodes localRun (Binary.number count ++ [type.code]) (List.replicate count type) :=
  (number_decodes fits).bind (valueType_decodes.before .pure)

theorem functionBody_decodes {function : Function} (sized : function.Sized) :
    Decodes functionBody function.bodyBytes (function.locals, function.body) := by
  obtain ⟨few, short⟩ := runs_bounded
  have locals : Decodes (vector localRun) _
      ((Binary.runs function.locals).map fun run => List.replicate run.1 run.2) :=
    vector_decodes (Nat.lt_of_le_of_lt few sized.locals) fun run isIn =>
      localRun_decodes (Nat.lt_of_le_of_lt (short run isIn) sized.locals)
  rw [Function.bodyBytes, List.append_assoc]
  refine locals.bind ((expression_decodes sized.code).before (.done ?_))
  rw [flatten_runs]

theorem codeEntry_decodes (sized : function.Sized) :
    Decodes (framed functionBody) (codeEntry function) (function.locals, function.body) :=
  framed_decodes sized.body (functionBody_decodes sized)

theorem dataEntry_decodes {segment : DataSegment} (fits : Fits segment.bytes.length) :
    Decodes dataEntry (Binary.dataEntry segment) segment := by
  have place : Decodes expression
      (Binary.code [.i32Const segment.offset.toInt32] ++ [Binary.closing])
      [.i32Const segment.offset.toInt32] :=
    expression_decodes (by simp [CodeFits, codeIndices, indices])
  have isEntry : Binary.dataEntry segment = Binary.number 0 ++
      ((Binary.code [.i32Const segment.offset.toInt32] ++ [Binary.closing]) ++
        (Binary.number segment.bytes.length ++ segment.bytes)) := by
    simp [Binary.dataEntry, Binary.code]
  rw [isEntry]
  exact (number_decodes (by decide)).bind ((Decodes.guarded rfl).after (place.bind
    ((number_decodes fits).bind ((take_decodes segment.bytes).before .pure))))

/-! ## Sections -/

def Later (kind : UInt8) (rest : List UInt8) : Prop := ∀ first ∈ rest.head?, kind < first

theorem later_nil : Later kind [] := by
  simp [Later]

theorem later_vectorSection (before : kind < next) (later : Later next rest) :
    Later kind (vectorSection next encoder entries ++ rest) := by
  intro first isHead
  cases entries with
  | nil => exact UInt8.lt_trans before (later first isHead)
  | cons entry entries =>
    have isNext : next = first := Option.some.inj isHead
    rwa [← isNext]

/-- A section with what comes after it, which it is left out for if it has no entries. -/
theorem optionalSection_eq (few : Fits entries.length)
    (short : Fits (Binary.vector encoder entries).length)
    (each : ∀ entry ∈ entries, Decodes decoder (encoder entry) (view entry))
    (later : Later kind rest) :
    optionalSection kind decoder (Binary.vectorSection kind encoder entries ++ rest) =
      some (entries.map view, rest) := by
  cases entries with
  | nil =>
    have absent : ¬ rest.head? = some kind := fun present =>
      UInt8.lt_irrefl kind (later kind present)
    simp only [Binary.vectorSection, optionalSection, get_bind, List.isEmpty_nil, if_true,
      List.nil_append, if_neg absent]
    rfl
  | cons entry entries =>
    have contents : Decodes (do
        mark kind
        let entries ← framed (vector decoder)
        guard (!entries.isEmpty)
        return entries)
        (Binary.vectorSection kind encoder (entry :: entries)) ((entry :: entries).map view) :=
      mark_decodes.bind ((framed_decodes short (vector_decodes few each)).before
        ((Decodes.guarded rfl).after Decodes.pure))
    have present : (Binary.vectorSection kind encoder (entry :: entries) ++ rest).head? =
        some kind := rfl
    rw [optionalSection, get_bind, if_pos present]
    exact contents rest

/-! ## Modules -/

theorem functions_eq {functions : List Function} :
    Decode.functions (functions.map Function.typeIndex)
        (functions.map fun function => (function.locals, function.body)) =
      some (functions.map fun function => { function with name := "" }) := by
  simp [Decode.functions, List.zipWith_map, List.zipWith_self, guard]

theorem memory_eq {memory : Option Limits} : Decode.memory memory.toList = some memory := by
  cases memory <;> rfl

theorem parts_encode {module : Module} (sized : module.Sized) :
    parts (Binary.encode module) = some (module.nameless, []) := by
  have oneMemory : Fits module.memory.toList.length := by
    cases module.memory <;> simp [Fits]
  rw [Binary.encode, ← List.append_nil (Binary.vectorSection 11 Binary.dataEntry module.data)]
  simp only [List.append_assoc]
  rw [parts, bind_eq (show take 8 (Binary.header ++ _) = _ from take_decodes Binary.header _),
    bind_eq (guard_eq (show Binary.header = header from rfl) _),
    bind_eq (optionalSection_eq sized.typeCount sized.typeBytes
      (fun type isIn => funcType_decodes (sized.types type isIn)) ?_),
    bind_eq (optionalSection_eq sized.importCount sized.importBytes
      (fun entry isIn => importEntry_decodes (sized.imports entry isIn)) ?_),
    bind_eq (optionalSection_eq sized.functionCount sized.functionBytes
      (fun function isIn => number_decodes (sized.functions function isIn).typeIndex) ?_),
    bind_eq (optionalSection_eq oneMemory sized.memoryBytes (fun size _ => limits_decodes) ?_),
    bind_eq (optionalSection_eq sized.globalCount sized.globalBytes
      (fun global isIn => globalEntry_decodes (sized.globals global isIn)) ?_),
    bind_eq (optionalSection_eq sized.exportCount sized.exportBytes
      (fun entry isIn => exportEntry_decodes (sized.exports entry isIn)) ?_),
    bind_eq (optionalSection_eq sized.functionCount sized.codeBytes
      (fun function isIn => codeEntry_decodes (sized.functions function isIn)) ?_),
    bind_eq (optionalSection_eq sized.dataCount sized.dataBytes
      (fun segment isIn => dataEntry_decodes (sized.data segment isIn)) later_nil)]
  simp only [List.map_id_fun', id]
  rw [bind_eq (lift_eq functions_eq []), bind_eq (lift_eq memory_eq [])]
  · rfl
  -- Each section comes before those with greater numbers.
  all_goals repeat first | exact later_nil | refine later_vectorSection (by decide) ?_

theorem module_encode {module : Module} (sized : module.Sized) :
    Decode.module (encode module) = some module.nameless := by
  rw [Decode.module, complete, parts_encode sized]

end Decode

/-- The binary format loses nothing of a module but the names of its functions and the table of its
types: the decoder gives back everything else, so modules with the same bytes agree on it. -/
theorem decode_encode {first second : Module} (firstSized : first.Sized)
    (secondSized : second.Sized) :
    Decode.module (encode first) = some first.nameless ∧
      (encode first = encode second → first.nameless = second.nameless) := by
  have decoded := Decode.module_encode firstSized
  refine ⟨decoded, fun same => ?_⟩
  rw [same, Decode.module_encode secondSized] at decoded
  exact (Option.some.inj decoded).symm

/-- A module with an entry in each section, whose function has the given name. -/
def sampleModule (name : String) : Module where
  types := [{ parameters := [.i32], results := [.i32] }, { parameters := [.f64], results := [] }]
  imports := [{ module := "env", name := "print", typeIndex := 1 }]
  functions :=
    [{ name, typeIndex := 0, locals := [.i32, .i32, .f64],
       body := [.localGet 0, .i32Const (-300), .numeric .i32LtS,
        .conditional [.i32Const (-300), .ret] [.globalGet 0, .call 0], .localGet 0] }]
  memory := some { least := 1, most := some 300 }
  globals := [{ type := .f64, mutable := true, initial := .f64Const 1.5 }]
  exports := [{ name := "limit", kind := .function, index := 1 }]
  data := [{ offset := 200, bytes := [1, 2, 3] }]

theorem sampleModule_sized {name : String} (isName : name = "limit" ∨ name = "bound") :
    (sampleModule name).Sized := by
  rcases isName with rfl | rfl
  all_goals
    constructor
    case types =>
      exact List.forall_mem_cons.mpr ⟨⟨by decide, by decide⟩,
        List.forall_mem_singleton.mpr ⟨by decide, by decide⟩⟩
    case imports =>
      exact List.forall_mem_singleton.mpr ⟨by decide +kernel, by decide +kernel, by decide⟩
    case functions =>
      exact List.forall_mem_singleton.mpr
        ⟨by decide, by decide, by decide +kernel, by decide +kernel⟩
    case globals => exact List.forall_mem_singleton.mpr (by decide +kernel)
    case exports => exact List.forall_mem_singleton.mpr ⟨by decide +kernel, by decide⟩
    case data => exact List.forall_mem_singleton.mpr (by decide)
    all_goals decide +kernel

/-- Two modules that differ in the name of a function have the same bytes. -/
theorem decode_encode_sampleModule :
    Decode.module (encode (sampleModule "limit")) = some (sampleModule "limit").nameless ∧
      encode (sampleModule "limit") = encode (sampleModule "bound") ∧
      (sampleModule "limit").nameless = (sampleModule "bound").nameless := by
  have same : encode (sampleModule "limit") = encode (sampleModule "bound") := rfl
  obtain ⟨decoded, agree⟩ :=
    decode_encode (sampleModule_sized (.inl rfl)) (sampleModule_sized (.inr rfl))
  exact ⟨decoded, same, agree same⟩

end Imperative.Wasm
