import Imperative.Proofs.Lowering.Success

/-!
# Regions of static memory

Once the size of a region is known no later step can fail, so a call that is refused leaves the
memory as it was.  The regions of a run follow each other, and the headers lie inside of them in
the order of their addresses.
-/

namespace Imperative.Lowering

/-- Why a reservation ends early. -/
inductive Stop where
  | refused (error : Error)
  | pageLimit
  | overflow

/-- A part of a reservation.  What is recorded before it ends early stays recorded. -/
abbrev Reserve := ExceptT Stop (StateM StaticMemory)

/-- A computation that is checked, and may be refused. -/
def checked {α : Type} : Except Error α → Reserve α
  | .ok val => pure val
  | .error error => throw (.refused error)

/-- A number that is computed unchecked, and must not overflow. -/
def computed (num : Nat) : Reserve Nat := if num < addressLimit then pure num else throw .overflow

/-- The memory with further headers. -/
def StaticMemory.record (memory : StaticMemory) (headers : List Header) : StaticMemory :=
  { memory with headers := memory.headers ++ headers }

mutual

/-- The headers of a type are recorded one by one. -/
def recordHeaders : Ty → Nat → Reserve Unit
  | .array element (some length), address => do
    let length ← checked (bounded length)
    modify fun memory => memory.record [{ address, length := length }]
    if element.isAggregate then
      let stride ← checked (size element)
      let offset ← computed (dataOffset element)
      let base ← computed (address + offset)
      (List.range length).forM fun index => do
        let distance ← computed (index * stride)
        let place ← computed (base + distance)
        recordHeaders element place
  | .record name fields, address => recordFields name fields address fields
  | _, _ => pure ()

def recordFields (record : String) (all : List (String × Ty)) (address : Nat) :
    List (String × Ty) → Reserve Unit
  | [] => pure ()
  | (name, type) :: rest => do
    if type.isAggregate then
      let (offset, _) ← checked (fieldOffset record all name)
      let place ← computed (address + offset)
      recordHeaders type place
    recordFields record all address rest

end

/-- The greatest number of pages. -/
def pageLimit : Nat := 65536

/-- Reserve a region for a value of the type and give its address, step by step. -/
def reserveRegion (type : Ty) : Reserve Nat := do
  let memory ← get
  let address ← checked (bounded (alignUp memory.stop (alignment type)))
  let bytes ← checked (size type)
  let stop ← checked (bounded (address + bytes))
  if pageLimit < (stop + StaticMemory.pageSize - 1) / StaticMemory.pageSize then throw .pageLimit
  else
    recordHeaders type address
    modify fun memory => { memory with stop }
    return address

theorem reserve_bind_ok {next : α → Reserve β}
    (isOk : step memory = (.ok val, after)) : (step >>= next) memory = next val after := by
  show (StateT.bind step (ExceptT.bindCont next)) memory = _
  rw [StateT.bind, isOk]
  rfl

def Records (step : Reserve Unit) (headers : List Header) : Prop :=
  ∀ memory, step memory = (.ok (), memory.record headers)

theorem StaticMemory.record_nil (memory : StaticMemory) : memory.record [] = memory := by
  simp [record]

theorem StaticMemory.record_append (memory : StaticMemory) :
    (memory.record first).record second = memory.record (first ++ second) := by
  simp [record]

namespace Records

theorem pure : Records (Pure.pure ()) [] := fun memory => by rw [memory.record_nil]; rfl

theorem bind {step next : Reserve Unit} (records : Records step first)
    (others : Records next second) : Records (step >>= fun _ => next) (first ++ second) := by
  intro memory
  rw [reserve_bind_ok (records memory), others, memory.record_append]

theorem checked {next : α → Reserve Unit}
    {headers : List Header} (isOk : res = .ok val) (records : Records (next val) headers) :
    Records (Lowering.checked res >>= next) headers := by
  subst isOk
  exact records

theorem computed {headers : List Header} (fits : num < addressLimit)
    (records : Records (next num) headers) : Records (Lowering.computed num >>= next) headers := by
  rw [Lowering.computed, if_pos fits]
  exact records

theorem forM {indices : List Nat} {headers : Nat → List Header}
    (records : ∀ index ∈ indices, Records (step index) (headers index)) :
    Records (indices.forM step) (indices.flatMap headers) := by
  induction indices with
  | nil => exact pure
  | cons index rest ih =>
    obtain ⟨first, others⟩ := List.forall_mem_cons.mp records
    exact first.bind (ih others)

end Records

def Laid (low high : Nat) : List Header → Prop
  | [] => low ≤ high
  | header :: rest => low ≤ header.address ∧ Laid (header.address + lengthSize) high rest

namespace Laid

theorem lower (within : other ≤ low) :
    {headers : List Header} → Laid low high headers → Laid other high headers
  | [], laid => Nat.le_trans within laid
  | _ :: _, ⟨starts, laid⟩ => ⟨Nat.le_trans within starts, laid⟩

theorem append (before : Laid low mid first) (gap : mid ≤ start) (after : Laid start high second) :
    Laid low high (first ++ second) := by
  induction first generalizing low with
  | nil => exact after.lower (Nat.le_trans before gap)
  | cons header rest ih => exact ⟨before.1, ih before.2⟩

theorem shift {headers : List Header} (laid : Laid low high headers) :
    Laid (bytes + low) (bytes + high) (headers.map (Header.shift bytes)) := by
  induction headers generalizing low with
  | nil => exact Nat.add_le_add_left laid bytes
  | cons header rest ih => exact ⟨Nat.add_le_add_left laid.1 bytes, ih laid.2⟩

theorem elements (laid : Laid 0 stride first) :
    Laid start (start + length * stride)
      ((List.range length).flatMap fun index =>
        first.map (Header.shift (start + index * stride))) := by
  induction length with
  | zero => exact Nat.le_add_right start _
  | succ length ih =>
    rw [List.range_succ, List.flatMap_append, List.flatMap_singleton, Nat.succ_mul, ← Nat.add_assoc]
    exact ih.append (Nat.le_refl _) laid.shift

theorem within : {headers : List Header} → Laid low high headers →
    low ≤ high ∧ ∀ header ∈ headers, low ≤ header.address ∧ header.address + lengthSize ≤ high
  | [], laid => ⟨laid, nofun⟩
  | header :: rest, ⟨starts, laid⟩ => by
    obtain ⟨ends, others⟩ := within laid
    refine ⟨by omega, List.forall_mem_cons.mpr ⟨⟨starts, ends⟩, fun other mem => ?_⟩⟩
    have := others other mem
    omega

theorem apart : {headers : List Header} → Laid low high headers →
    headers.Pairwise fun first second => first.address + lengthSize ≤ second.address
  | [], _ => .nil
  | _ :: _, ⟨_, laid⟩ => .cons (fun other mem => (laid.within.2 other mem).1) laid.apart

end Laid

theorem elementHeaders_eq :
    elementHeaders start stride length first =
      (List.range length).flatMap fun index =>
        first.map (Header.shift (start + index * stride)) := by
  unfold elementHeaders
  split
  · next isEmpty => simp [List.isEmpty_iff.mp isEmpty]
  · rfl

theorem map_shift (headers : List Header) :
    (headers.map (Header.shift second)).map (Header.shift first) =
      headers.map (Header.shift (first + second)) := by
  simp [Header.shift, Nat.add_assoc]

theorem headers_scalar (scalar : type.isAggregate ≠ true) : headers type = .ok [] := by
  cases type with
  | integer | real | boolean | void | error => simp [headers, pure, Except.pure]
  | array | record => exact absurd rfl scalar

mutual

/-- Fields have different names at every depth. -/
def DistinctFields : Ty → Prop
  | .array element _ => DistinctFields element
  | .record _ fields => (fields.map Prod.fst).Nodup ∧ AllDistinct fields
  | _ => True

def AllDistinct : List (String × Ty) → Prop
  | [] => True
  | (_, type) :: rest => DistinctFields type ∧ AllDistinct rest

end

mutual

theorem headers_of_size : (type : Ty) → DistinctFields type → {bytes : Nat} →
    size type = .ok bytes → ∃ inner, headers type = .ok inner ∧ Laid 0 bytes inner ∧
      ∀ address, address + bytes < addressLimit →
        Records (recordHeaders type address) (inner.map (Header.shift address))
  | .integer, _, _, isSize | .real, _, _, isSize | .boolean, _, _, isSize => by
    cases isSize
    rw [headers]
    · exact ⟨[], rfl, Nat.zero_le _, fun _ _ => .pure⟩
    · nofun
    · nofun
  | .void, _, _, isSize | .error, _, _, isSize | .array _ none, _, _, isSize => by cases isSize
  | .array element (some length), distinct, bytes, isSize => by
    obtain ⟨stride, isStride, lengthFits, elementsFit, fits, rfl⟩ := size_array_ok.mp isSize
    obtain ⟨first, isFirst, laid, records⟩ := headers_of_size element distinct isStride
    have header : lengthSize ≤ dataOffset element := le_alignUp _ (alignment_pos element)
    refine ⟨{ address := 0, length := length } ::
      elementHeaders (dataOffset element) stride length first, ?_, ?_, ?_⟩
    · rw [headers, isStride, isFirst]
      rfl
    · refine ⟨Nat.le_refl 0, ?_⟩
      rw [elementHeaders_eq, Nat.mul_comm]
      exact laid.elements.lower (by simpa using header)
    · intro address inside
      have one : Records (modify fun memory => memory.record [{ address, length := length }])
          [{ address, length := length }] := fun _ => rfl
      refine .checked (bounded_ok.mpr ⟨lengthFits, rfl⟩) (one.bind ?_)
      split
      · refine .checked isStride (.computed (by omega) (.computed (by omega) ?_))
        rw [elementHeaders_eq, List.map_flatMap]
        refine .forM fun index inRange => ?_
        have next : (index + 1) * stride ≤ stride * length := by
          rw [Nat.mul_comm]
          exact Nat.mul_le_mul_left stride (List.mem_range.mp inRange)
        rw [Nat.succ_mul] at next
        rw [map_shift, ← Nat.add_assoc]
        exact .computed (by omega) (.computed (by omega) (records _ (by omega)))
      · next scalar =>
        cases (headers_scalar scalar).symm.trans isFirst
        exact .pure
  | .record name fields, distinct, bytes, isSize => by
    obtain ⟨stop, isStop, fits, rfl⟩ := size_record_ok.mp isSize
    have aligned := le_alignUp stop (fieldsAlignment_pos fields)
    obtain ⟨inner, isInner, laid, records⟩ := fieldHeaders_of_size fields distinct.2
      (fieldsAt_of_size distinct.1 (fun _ _ => rfl) isStop)
    refine ⟨inner, ?_, ?_, fun address inside => ?_⟩
    · rw [headers, isInner]
    · exact List.append_nil inner ▸ laid.append aligned (Nat.le_refl _)
    · exact records address (by omega)

theorem fieldHeaders_of_size :
    (fields : List (String × Ty)) → AllDistinct fields → {offset stop : Nat} →
      FieldsAt record all offset fields stop →
      ∃ inner, fieldHeaders record all fields = .ok inner ∧ Laid offset stop inner ∧
        ∀ address, address + stop < addressLimit →
          Records (recordFields record all address fields) (inner.map (Header.shift address))
  | [], _, _, _, .nil => by
    refine ⟨[], by rw [fieldHeaders]; rfl, Nat.le_refl _, fun _ _ => ?_⟩
    exact .pure
  | (name, type) :: rest, distinct, offset, stop, .cons isOffset isBytes fits others => by
    obtain ⟨inner, isInner, laid, records⟩ := headers_of_size type distinct.1 isBytes
    obtain ⟨outer, isOuter, outerLaid, outerRecords⟩ :=
      fieldHeaders_of_size rest distinct.2 others
    have aligned := le_alignUp offset (alignment_pos type)
    refine ⟨inner.map (.shift (alignUp offset (alignment type))) ++ outer, ?_, ?_, ?_⟩
    · rw [fieldHeaders, isOffset, isInner, isOuter]
      rfl
    · exact (laid.shift.lower aligned).append (Nat.le_refl _) outerLaid
    · intro address inside
      have ends := outerLaid.within.1
      have others := outerRecords address inside
      rw [recordFields, List.map_append, map_shift]
      split
      · refine .checked isOffset (.computed (by omega) ?_)
        exact (records _ (by omega)).bind others
      · next scalar =>
        cases (headers_scalar scalar).symm.trans isInner
        exact others

end

/-- The offset of the elements is the only number that is not checked when a size is computed. -/
theorem dataOffset_lt (element : Ty) : dataOffset element < addressLimit := by
  have cases := alignment_cases element
  have atMost := Nat.div_mul_le_self (lengthSize + alignment element - 1) (alignment element)
  simp only [dataOffset, alignUp, lengthSize, addressLimit] at *
  omega

theorem pages_le (fits : stop < addressLimit) :
    (stop + StaticMemory.pageSize - 1) / StaticMemory.pageSize ≤ pageLimit := by
  simp only [addressLimit, StaticMemory.pageSize, pageLimit] at *
  omega

/-- The answer of a reservation that gives a result, and the memory after it. -/
def outcome (memory : StaticMemory) :
    Except Error (Nat × StaticMemory) → Except Stop Nat × StaticMemory
  | .ok (address, after) => (.ok address, after)
  | .error error => (.error (.refused error), memory)

theorem checked_bind_eq {next : α → Reserve Nat}
    (same : ∀ val, res = .ok val → next val memory = outcome memory (other val)) :
    (checked res >>= next) memory = outcome memory (res >>= other) := by
  cases res with
  | ok val => exact same val rfl
  | error error => rfl

/-- Step by step the same is reserved, and nothing is left behind if that is refused. -/
theorem reserveRegion_eq (distinct : DistinctFields type) :
    reserveRegion type memory = outcome memory (memory.allocate type) := by
  have isCurrent : (get : Reserve StaticMemory) memory = (.ok memory, memory) := rfl
  refine checked_bind_eq fun address _ => checked_bind_eq fun bytes isBytes =>
    checked_bind_eq fun stop isStop => ?_
  obtain ⟨fits, rfl⟩ := bounded_ok.mp isStop
  obtain ⟨inner, isInner, -, records⟩ := headers_of_size type distinct isBytes
  rw [if_neg (Nat.not_lt_of_le (pages_le fits)), reserve_bind_ok (records address fits memory),
    isInner]
  rfl

/-- One call of a run: what was asked for, the answer, and the memory before and after it. -/
structure Call where
  type : Ty
  before : StaticMemory
  answer : Except Stop Nat
  after : StaticMemory

def calls (memory : StaticMemory) : List Ty → List Call
  | [] => []
  | type :: rest =>
    let (answer, after) := reserveRegion type memory
    { type, before := memory, answer, after } :: calls after rest

/-- The memory ends below the limit, and its headers lie one after another. -/
structure StaticMemory.Sound (memory : StaticMemory) : Prop where
  fits : memory.stop < addressLimit
  laid : Laid 0 memory.stop memory.headers

theorem StaticMemory.Sound.empty : StaticMemory.empty.Sound := ⟨by decide, Nat.le_refl 0⟩

variable {memory : StaticMemory}

theorem StaticMemory.Sound.pages_bounds (sound : memory.Sound) :
    memory.stop ≤ memory.pages * StaticMemory.pageSize ∧ memory.pages ≤ pageLimit := by
  have fits := sound.fits
  simp only [StaticMemory.pages, addressLimit, StaticMemory.pageSize, pageLimit] at *
  omega

/-- A call gives a region of its own after the memory before, or changes nothing. -/
structure Call.Sound (call : Call) : Prop where
  agrees : (call.answer, call.after) = outcome call.before (call.before.allocate call.type)
  given : ∀ address, call.answer = .ok address →
    alignment call.type ∣ address ∧ call.before.stop ≤ address ∧
      ∃ bytes inner, size call.type = .ok bytes ∧ call.after.stop = address + bytes ∧
        call.after.headers = call.before.headers ++ inner ∧
        ∀ header ∈ inner, address ≤ header.address ∧ header.address + lengthSize ≤ call.after.stop
  refused : ∀ stop, call.answer = .error stop →
    call.after = call.before ∧ ∃ error, stop = .refused error
  pages : call.after.stop ≤ call.after.pages * StaticMemory.pageSize ∧ call.after.pages ≤ pageLimit
  headers : call.after.headers.Pairwise fun first second =>
    first.address + lengthSize ≤ second.address

theorem reserveRegion_sound (distinct : DistinctFields type) (sound : memory.Sound)
    (isCall : reserveRegion type memory = (answer, after)) :
    after.Sound ∧ memory.stop ≤ after.stop ∧
      Call.Sound { type, before := memory, answer, after } := by
  rw [reserveRegion_eq distinct] at isCall
  have agrees := isCall.symm
  cases allocated : memory.allocate type with
  | error error =>
    rw [allocated] at isCall
    cases isCall
    refine ⟨sound, Nat.le_refl _, agrees, nofun, ?_, sound.pages_bounds, sound.laid.apart⟩
    rintro _ ⟨⟩
    exact ⟨rfl, error, rfl⟩
  | ok res =>
    obtain ⟨address, memoryPost⟩ := res
    rw [allocated] at isCall
    cases isCall
    obtain ⟨bytes, inner, isSize, isHeaders, isStop, fits, isAddr, headersPost⟩ :=
      allocate_ok allocated
    obtain ⟨_, isInner, laid, -⟩ := headers_of_size type distinct isSize
    cases isHeaders.symm.trans isInner
    rw [← isAddr] at isStop
    have starts : memory.stop ≤ address := isAddr ▸ le_alignUp _ (alignment_pos type)
    have inside : Laid address after.stop (inner.map (.shift address)) :=
      isStop ▸ laid.shift
    have soundPost : after.Sound := ⟨fits, headersPost ▸ sound.laid.append starts inside⟩
    refine ⟨soundPost, by omega, agrees, ?_, nofun, soundPost.pages_bounds, soundPost.laid.apart⟩
    rintro _ ⟨⟩
    exact ⟨isAddr ▸ Nat.dvd_mul_left _ _, starts, bytes, _, isSize, isStop, headersPost,
      inside.within.2⟩

theorem calls_ordered (distinct : ∀ type ∈ types, DistinctFields type) (sound : memory.Sound) :
    (∀ call ∈ calls memory types, call.Sound ∧ memory.stop ≤ call.before.stop) ∧
      (calls memory types).Pairwise fun first second => first.after.stop ≤ second.before.stop := by
  induction types generalizing memory with
  | nil => exact ⟨nofun, .nil⟩
  | cons type rest ih =>
    obtain ⟨distinctType, distinctRest⟩ := List.forall_mem_cons.mp distinct
    obtain ⟨soundPost, grows, soundCall⟩ := reserveRegion_sound distinctType sound rfl
    obtain ⟨later, ordered⟩ := ih distinctRest soundPost
    refine ⟨List.forall_mem_cons.mpr ⟨⟨soundCall, Nat.le_refl _⟩, fun call mem => ?_⟩,
      .cons (fun call mem => (later call mem).2) ordered⟩
    exact ⟨(later call mem).1, Nat.le_trans grows (later call mem).2⟩

/--
Every call of a run gives an aligned region that ends the memory, or changes nothing; no number
exceeds 32 bits on the way, and no two regions overlap.
-/
theorem calls_sound {types : List Ty} (distinct : ∀ type ∈ types, DistinctFields type) :
    (∀ call ∈ calls .empty types, call.Sound) ∧
      ((calls .empty types).Pairwise fun first second => ∀ address other,
        first.answer = .ok address → second.answer = .ok other → first.after.stop ≤ other) ∧
      ∀ element, dataOffset element < addressLimit := by
  obtain ⟨all, ordered⟩ := calls_ordered distinct StaticMemory.Sound.empty
  refine ⟨fun call member => (all call member).1, ordered.imp_of_mem ?_, dataOffset_lt⟩
  intro first second _ isSecond ends address other _ isOther
  exact Nat.le_trans ends ((all second isSecond).1.given other isOther).2.1

/-- Arrays in a record in an array, an array that is too large, and a real. -/
def mixedTypes : List Ty :=
  [.array (.record "R" [("a", .array .integer (some 2)), ("x", .real)]) (some 3),
    .array .real (some 600000000), .real]

theorem distinct_mixedTypes : ∀ type ∈ mixedTypes, DistinctFields type := by
  simp [mixedTypes, DistinctFields, AllDistinct]

theorem calls_sound_mixedTypes :
    ((calls .empty mixedTypes).map fun call =>
      (call.answer.toOption, call.after.stop, call.after.headers.map Header.address)) =
        [(some 0, 80, [0, 8, 32, 56]), (none, 80, [0, 8, 32, 56]), (some 80, 88, [0, 8, 32, 56])] ∧
      (∀ type ∈ mixedTypes, DistinctFields type) ∧ ∀ call ∈ calls .empty mixedTypes, call.Sound :=
  ⟨by decide +kernel, distinct_mixedTypes, (calls_sound distinct_mixedTypes).1⟩

end Imperative.Lowering
