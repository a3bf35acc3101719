import Imperative.Proofs.Lowering.Regions
import Mathlib.Data.List.Basic
import Mathlib.Data.List.GetD
import Mathlib.Data.List.TakeWhile

/-!
# Segments of static memory

Seen as one image, stretches that do not overlap give at each address the sum of their bytes, each
one zero outside of itself.  Joining them over a gap and cutting zeros off does not change it.
-/

namespace Imperative.Lowering

open List

open Wasm (DataSegment)

variable {low high stop : Nat} {header : Header} {headers rest : List Header}

/-- The byte at an address if bytes lie from `start` on, and zero outside of them. -/
def byteAt (start : Nat) (bytes : List UInt8) (addr : Nat) : UInt8 :=
  if start ≤ addr then bytes.getD (addr - start) 0 else 0

section Bytes

variable {addr : Nat} {bytes : List UInt8}

theorem byteAt_before (pre : addr < start) : byteAt start bytes addr = 0 :=
  if_neg (Nat.not_le_of_lt pre)

theorem byteAt_after (post : start + bytes.length ≤ addr) : byteAt start bytes addr = 0 := by
  rw [byteAt, if_pos (by omega)]
  exact getD_eq_default _ _ (by omega)

theorem byteAt_nil : byteAt start [] addr = 0 := by
  simp [byteAt]

theorem byteAt_zeros (start count addr : Nat) : byteAt start (List.replicate count 0) addr = 0 := by
  by_cases inside : addr < start + count
  · rw [byteAt]
    split
    · exact getD_replicate 0 (by omega)
    · rfl
  · exact byteAt_after (by rw [length_replicate]; omega)

theorem byteAt_append :
    byteAt start (bytes ++ others) addr =
      byteAt start bytes addr ||| byteAt (start + bytes.length) others addr := by
  by_cases pre : addr < start
  · rw [byteAt_before pre, byteAt_before pre, byteAt_before (by omega), UInt8.zero_or]
  · have starts : start ≤ addr := Nat.le_of_not_lt pre
    by_cases inside : addr < start + bytes.length
    · rw [byteAt_before inside, UInt8.or_zero, byteAt, byteAt, if_pos starts, if_pos starts,
        getD_append _ _ _ _ (by omega)]
    · have ends : start + bytes.length ≤ addr := Nat.le_of_not_lt inside
      rw [byteAt_after ends, UInt8.zero_or, byteAt, byteAt, if_pos starts, if_pos ends,
        getD_append_right _ _ _ _ (by omega), Nat.sub_add_eq]

end Bytes

def image : List Stretch → Nat → UInt8
  | [], _ => 0
  | stretch :: rest, addr => byteAt stretch.address stretch.bytes addr ||| image rest addr

def Header.stretch (header : Header) : Stretch :=
  { address := header.address, bytes := lengthBytes header.length }

theorem length_lengthBytes : (lengthBytes given).length = lengthSize := by
  simp [lengthBytes, lengthSize]

/-- An image of the headers has the bytes of their lengths, and zero at every other address. -/
structure Shows (bytes : Nat → UInt8) (headers : List Header) : Prop where
  lengths : ∀ header ∈ headers,
    (List.range lengthSize).map (fun place => bytes (header.address + place)) =
      lengthBytes header.length
  zeros : ∀ addr, (∀ header ∈ headers, addr < header.address ∨
    header.address + lengthSize ≤ addr) → bytes addr = 0

theorem image_outside
    (outside : ∀ header ∈ headers, addr < header.address ∨ header.address + lengthSize ≤ addr) :
    image (headers.map Header.stretch) addr = 0 := by
  induction headers with
  | nil => rfl
  | cons header rest ih =>
    obtain ⟨first, others⟩ := forall_mem_cons.mp outside
    have noByte : byteAt header.address (lengthBytes header.length) addr = 0 := by
      rcases first with pre | post
      · exact byteAt_before pre
      · exact byteAt_after (by rwa [length_lengthBytes])
    rw [map_cons, image, ih others, UInt8.or_zero]
    exact noByte

theorem image_header (laid : Laid low high headers) (mem : header ∈ headers)
    (inside : place < lengthSize) :
    image (headers.map Header.stretch) (header.address + place) =
      (lengthBytes header.length).getD place 0 := by
  induction headers generalizing low with
  | nil => cases mem
  | cons first rest ih =>
    rw [map_cons, image]
    rcases mem_cons.mp mem with rfl | isLater
    · rw [image_outside fun other isOther => .inl (by
        have := (laid.2.within.2 other isOther).1
        omega), UInt8.or_zero, Header.stretch, byteAt, if_pos (Nat.le_add_right _ _),
        Nat.add_sub_cancel_left]
    · have post := (laid.2.within.2 header isLater).1
      have noByte : byteAt first.address (lengthBytes first.length) (header.address + place) = 0 :=
        byteAt_after (by rw [length_lengthBytes]; omega)
      rw [ih laid.2 isLater]
      exact (congrArg (· ||| _) noByte).trans UInt8.zero_or

theorem image_shows (laid : Laid low high headers) :
    Shows (image (headers.map Header.stretch)) headers where
  lengths header mem := by
    refine ext_getElem (by rw [length_lengthBytes]; simp) fun place inside within => ?_
    simp only [getElem_map, getElem_range]
    rw [image_header laid mem within]
    exact getD_eq_getElem _ _ _
  zeros _ outside := image_outside outside

theorem continueStretch_near (near : header.address - stop ≤ segmentGap) :
    continueStretch stop (header :: rest) =
      (List.replicate (header.address - stop) 0 ++ lengthBytes header.length ++
        (continueStretch (stop + (header.address - stop) + lengthSize) rest).1,
        (continueStretch (stop + (header.address - stop) + lengthSize) rest).2) := if_pos near

theorem continueStretch_far (far : ¬ header.address - stop ≤ segmentGap) :
    continueStretch stop (header :: rest) = ([], stretches (header :: rest)) := if_neg far

def Spread (low high : Nat) : List Stretch → Prop
  | [] => low ≤ high
  | stretch :: rest =>
    low ≤ stretch.address ∧ Spread (stretch.address + stretch.bytes.length) high rest

/-- Bytes that lie from `stop` on and stretches after them have the image of the headers. -/
structure Joins (stop high : Nat) (headers : List Header)
    (res : List UInt8 × List Stretch) : Prop where
  image : ∀ addr, byteAt stop res.1 addr ||| image res.2 addr =
    image (headers.map Header.stretch) addr
  spread : Spread (stop + res.1.length) high res.2

theorem Joins.stretch (joins : Joins (header.address + lengthSize) high rest res) :
    (∀ addr, Lowering.image
      ({ address := header.address, bytes := lengthBytes header.length ++ res.1 } :: res.2)
        addr = Lowering.image ((header :: rest).map Header.stretch) addr) ∧
      Spread (header.address + (lengthBytes header.length ++ res.1).length) high res.2 := by
  constructor
  · intro addr
    rw [Lowering.image, byteAt_append, length_lengthBytes, UInt8.or_assoc, joins.image]
    rfl
  · rw [length_append, length_lengthBytes, ← Nat.add_assoc]
    exact joins.spread

theorem continueStretch_joins (laid : Laid stop high headers) :
    Joins stop high headers (continueStretch stop headers) := by
  induction headers generalizing stop with
  | nil =>
    refine ⟨fun addr => ?_, laid⟩
    rw [continueStretch, byteAt_nil, UInt8.zero_or]
    rfl
  | cons header rest ih =>
    obtain ⟨starts, later⟩ := laid
    by_cases near : header.address - stop ≤ segmentGap
    · obtain ⟨sameImage, spread⟩ := (ih later).stretch
      have meets : stop + (header.address - stop) = header.address := by omega
      rw [continueStretch_near near, meets]
      refine ⟨fun addr => ?_, ?_⟩
      · rw [append_assoc, byteAt_append, byteAt_zeros, UInt8.zero_or, length_replicate,
          meets, ← sameImage]
        rfl
      · rw [append_assoc, length_append, length_replicate, ← Nat.add_assoc, meets]
        exact spread
    · obtain ⟨sameImage, spread⟩ := (ih later).stretch
      rw [continueStretch_far near]
      refine ⟨fun addr => ?_, starts, spread⟩
      rw [byteAt_nil, UInt8.zero_or]
      exact sameImage addr

theorem stretches_joins (laid : Laid low high headers) :
    (∀ addr, image (stretches headers) addr =
      image (headers.map Header.stretch) addr) ∧ Spread low high (stretches headers) := by
  cases headers with
  | nil => exact ⟨fun _ => rfl, laid⟩
  | cons header rest =>
    obtain ⟨sameImage, spread⟩ := (continueStretch_joins laid.2).stretch
    exact ⟨sameImage, laid.1, spread⟩

/-- There is no zero at either end. -/
def Tight (bytes : List UInt8) : Prop :=
  (∃ byte, bytes.head? = some byte ∧ byte ≠ 0) ∧ ∃ byte, bytes.getLast? = some byte ∧ byte ≠ 0

theorem takeWhile_zeros (bytes : List UInt8) : bytes.takeWhile (fun byte => byte = 0) =
    List.replicate (bytes.takeWhile fun byte => byte = 0).length 0 := by
  refine eq_replicate_of_mem fun byte mem => ?_
  simpa using mem_takeWhile_imp mem

theorem dropWhile_zeros (bytes : List UInt8) :
    bytes.drop (bytes.takeWhile fun byte => byte = 0).length =
      bytes.dropWhile fun byte => byte = 0 := by
  have parts := takeWhile_append_dropWhile (p := fun byte : UInt8 => byte = 0) (l := bytes)
  exact (congrArg (List.drop _) parts.symm).trans drop_left

theorem head?_dropWhile_ne {bytes : List UInt8}
    (nonempty : bytes.dropWhile (fun byte => byte = 0) ≠ []) :
    ∃ byte, (bytes.dropWhile fun byte => byte = 0).head? = some byte ∧ byte ≠ 0 := by
  refine ⟨_, head?_eq_some_head nonempty, ?_⟩
  simpa using head_dropWhile_not (fun byte : UInt8 => byte = 0) nonempty

theorem dropEnd_zeros {bytes : List UInt8} : ∃ count,
    bytes = (bytes.reverse.dropWhile fun byte => byte = 0).reverse ++ List.replicate count 0 := by
  have parts := takeWhile_append_dropWhile (p := fun byte : UInt8 => byte = 0) (l := bytes.reverse)
  rw [takeWhile_zeros] at parts
  have reversed := congrArg List.reverse parts
  rw [reverse_reverse, reverse_append, reverse_replicate] at reversed
  exact ⟨_, reversed.symm⟩

theorem trim_cases (stretch : Stretch) : ∃ pre core post,
    stretch.bytes = List.replicate pre 0 ++ (core ++ List.replicate post 0) ∧
      ((core = [] ∧ stretch.trim = none) ∨
        (Tight core ∧
          stretch.trim = some { address := stretch.address + pre, bytes := core })) := by
  have front := takeWhile_append_dropWhile (p := fun byte : UInt8 => byte = 0) (l := stretch.bytes)
  rw [takeWhile_zeros] at front
  obtain ⟨post, back⟩ := dropEnd_zeros
  refine ⟨_, _, post, front.symm.trans (congrArg (_ ++ ·) back), ?_⟩
  rw [Stretch.trim, dropWhile_zeros]
  split
  · next isEmpty => exact .inl ⟨by rw [isEmpty_iff.mp isEmpty]; rfl, rfl⟩
  · next notEmpty =>
    have nonempty := mt List.isEmpty_iff.mpr notEmpty
    have sameHead := @List.head?_append_of_ne_nil _ _ (.replicate post 0)
      (mt reverse_eq_nil_iff.mp nonempty)
    rw [← back] at sameHead
    obtain ⟨last, isLast, lastNonzero⟩ := head?_dropWhile_ne nonempty
    obtain ⟨first, isFirst, firstNonzero⟩ :=
      @head?_dropWhile_ne stretch.bytes fun isEmpty => nonempty (by rw [isEmpty]; rfl)
    refine .inr ⟨⟨⟨first, sameHead.symm.trans isFirst, firstNonzero⟩, last, ?_, lastNonzero⟩, rfl⟩
    rw [getLast?_reverse]
    exact isLast

namespace Spread

variable {stretches : List Stretch}

theorem lower (within : other ≤ low) :
    {stretches : List Stretch} → Spread low high stretches → Spread other high stretches
  | [], spread => Nat.le_trans within spread
  | _ :: _, ⟨starts, spread⟩ => ⟨Nat.le_trans within starts, spread⟩

theorem within : {low : Nat} → {stretches : List Stretch} → Spread low high stretches →
    low ≤ high ∧ ∀ stretch ∈ stretches,
      low ≤ stretch.address ∧ stretch.address + stretch.bytes.length ≤ high
  | _, [], spread => ⟨spread, nofun⟩
  | _, stretch :: rest, ⟨starts, spread⟩ => by
    obtain ⟨ends, others⟩ := within spread
    refine ⟨by omega, forall_mem_cons.mpr ⟨⟨starts, ends⟩, fun other mem => ?_⟩⟩
    have := others other mem
    omega

theorem apart : {low : Nat} → {stretches : List Stretch} → Spread low high stretches →
    stretches.Pairwise fun first second => first.address + first.bytes.length ≤ second.address
  | _, [], _ => .nil
  | _, _ :: _, ⟨_, spread⟩ => .cons (fun other mem => (spread.within.2 other mem).1) spread.apart

theorem trim (spread : Spread low high stretches) :
    (∀ addr, image (stretches.filterMap Stretch.trim) addr = image stretches addr) ∧
      Spread low high (stretches.filterMap Stretch.trim) ∧
      ∀ stretch ∈ stretches.filterMap Stretch.trim, Tight stretch.bytes := by
  induction stretches generalizing low with
  | nil => exact ⟨fun _ => rfl, spread, nofun⟩
  | cons stretch rest ih =>
    obtain ⟨starts, later⟩ := spread
    obtain ⟨sameImage, spread, tight⟩ := ih later
    obtain ⟨pre, core, post, isBytes, cases⟩ := trim_cases stretch
    have isCore : ∀ addr, byteAt stretch.address stretch.bytes addr =
        byteAt (stretch.address + pre) core addr := by
      intro addr
      rw [isBytes, byteAt_append, byteAt_append, byteAt_zeros, byteAt_zeros, UInt8.zero_or,
        UInt8.or_zero, length_replicate]
    have length := congrArg List.length isBytes
    rw [length_append, length_append, length_replicate] at length
    rcases cases with ⟨rfl, isNone⟩ | ⟨isTight, isSome⟩
    · rw [filterMap_cons_none isNone]
      refine ⟨fun addr => ?_, spread.lower (by omega), tight⟩
      rw [image, isCore, byteAt_nil, UInt8.zero_or, sameImage]
    · rw [filterMap_cons_some isSome]
      refine ⟨fun addr => ?_, ⟨Nat.le_add_right_of_le starts, spread.lower ?_⟩,
        forall_mem_cons.mpr ⟨isTight, tight⟩⟩
      · rw [image, image, isCore, sameImage]
      · show stretch.address + pre + core.length ≤ _
        omega

end Spread

/-- The image with the bytes of a segment. -/
def overwrite (bytes : Nat → UInt8) (segment : DataSegment) (addr : Nat) : UInt8 :=
  if segment.offset.toNat ≤ addr then
    segment.bytes.getD (addr - segment.offset.toNat) (bytes addr)
  else bytes addr

/-- The bytes of a memory of zeros after the segments are written to it. -/
def initialBytes (segments : List DataSegment) : Nat → UInt8 := segments.foldl overwrite fun _ => 0

def Stretch.segment (stretch : Stretch) : DataSegment :=
  { offset := UInt32.ofNat stretch.address, bytes := stretch.bytes }

theorem segments_eq (memory : StaticMemory) : memory.segments =
    ((stretches memory.headers).filterMap Stretch.trim).map Stretch.segment := by
  rw [StaticMemory.segments, map_filterMap]
  rfl

theorem offset_segment {stretch : Stretch} (fits : stretch.address < addressLimit) :
    stretch.segment.offset.toNat = stretch.address := UInt32.toNat_ofNat_of_lt' fits

theorem overwrite_eq {stretch : Stretch} (fits : stretch.address < addressLimit)
    (free : ∀ addr, stretch.address ≤ addr → bytes addr = 0) (addr : Nat) :
    overwrite bytes stretch.segment addr =
      bytes addr ||| byteAt stretch.address stretch.bytes addr := by
  rw [overwrite, byteAt, offset_segment fits]
  split
  · next starts =>
    rw [free addr starts, UInt8.zero_or]
    rfl
  · rw [UInt8.or_zero]

theorem foldl_overwrite {stretches : List Stretch} (fits : high < addressLimit)
    (spread : Spread low high stretches) (free : ∀ addr, low ≤ addr → bytes addr = 0) :
    (stretches.map Stretch.segment).foldl overwrite bytes addr =
      bytes addr ||| image stretches addr := by
  induction stretches generalizing low bytes with
  | nil => exact UInt8.or_zero.symm
  | cons stretch rest ih =>
    obtain ⟨starts, later⟩ := spread
    have inside := later.within.1
    have written := @overwrite_eq bytes stretch (by omega)
      fun other post => free other (Nat.le_trans starts post)
    have freePost : ∀ other, stretch.address + stretch.bytes.length ≤ other →
        overwrite bytes stretch.segment other = 0 := by
      intro other post
      rw [written, byteAt_after post, UInt8.or_zero, free other (by omega)]
    rw [map_cons, foldl_cons, ih later freePost, written, image, UInt8.or_assoc]

/--
The segments of a memory hold the lengths of its arrays and zeros otherwise.  They are in order,
apart from each other, inside of the memory that is used, and not longer than needed.
-/
structure StaticMemory.Described (memory : StaticMemory) : Prop where
  shows : Shows (initialBytes memory.segments) memory.headers
  ordered : memory.segments.Pairwise fun first second =>
    first.offset.toNat + first.bytes.length ≤ second.offset.toNat
  inside : ∀ segment ∈ memory.segments, segment.offset.toNat + segment.bytes.length ≤ memory.stop
  tight : ∀ segment ∈ memory.segments, Tight segment.bytes

theorem StaticMemory.Sound.described {memory : StaticMemory} (sound : memory.Sound) :
    memory.Described := by
  obtain ⟨joined, spread⟩ := stretches_joins sound.laid
  obtain ⟨trimmed, spread, tight⟩ := spread.trim
  have fits : ∀ stretch ∈ (stretches memory.headers).filterMap Stretch.trim,
      stretch.address < addressLimit := by
    intro stretch mem
    have := (spread.within.2 stretch mem).2
    have := sound.fits
    omega
  have isImage : initialBytes memory.segments = image (memory.headers.map Header.stretch) := by
    funext addr
    rw [segments_eq, initialBytes, foldl_overwrite sound.fits spread (fun _ _ => rfl),
      UInt8.zero_or, trimmed, joined]
  refine ⟨isImage ▸ image_shows sound.laid, ?_, ?_, ?_⟩ <;> rw [segments_eq]
  · rw [pairwise_map]
    refine spread.apart.imp_of_mem fun isFirst isSecond ends => ?_
    rw [offset_segment (fits _ isFirst), offset_segment (fits _ isSecond)]
    exact ends
  · refine forall_mem_map.mpr fun stretch mem => ?_
    rw [offset_segment (fits _ mem)]
    exact (spread.within.2 stretch mem).2
  · exact forall_mem_map.mpr tight

/-- The memory after regions are reserved for the types; a call that is refused changes nothing. -/
def StaticMemory.reserveAll (memory : StaticMemory) (types : List Ty) : StaticMemory :=
  types.foldl (fun memory type => (outcome memory (memory.allocate type)).2) memory

theorem StaticMemory.Sound.reserveAll {memory : StaticMemory} (sound : memory.Sound)
    (distinct : ∀ type ∈ types, DistinctFields type) : (memory.reserveAll types).Sound := by
  induction types generalizing memory with
  | nil => exact sound
  | cons type rest ih =>
    obtain ⟨distinctType, distinctRest⟩ := forall_mem_cons.mp distinct
    have step := reserveRegion_sound distinctType sound (reserveRegion_eq distinctType)
    exact ih step.1 distinctRest

/-- The segments put the headers of all reserved arrays into memory, and nothing else. -/
theorem segments_reproduce_headers {types : List Ty}
    (distinct : ∀ type ∈ types, DistinctFields type) :
    (StaticMemory.empty.reserveAll types).Described :=
  (StaticMemory.Sound.empty.reserveAll distinct).described

theorem segments_reproduce_headers_mixedTypes :
    let memory := StaticMemory.empty.reserveAll mixedTypes
    (∀ type ∈ mixedTypes, DistinctFields type) ∧
      (memory.segments.map fun segment => (segment.offset.toNat, segment.bytes)) =
        [(0, [3, 0, 0, 0, 0, 0, 0, 0, 2]), (32, [2]), (56, [2])] ∧ memory.Described :=
  ⟨distinct_mixedTypes, by decide +kernel, segments_reproduce_headers distinct_mixedTypes⟩

end Imperative.Lowering
