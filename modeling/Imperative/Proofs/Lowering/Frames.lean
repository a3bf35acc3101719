import Imperative.Proofs.Lowering.Success

/-!
# Locals and temporaries

Borrowing a temporary gives one that was not reserved before, so it is none of the variables and
none of the temporaries that are in use.
-/

namespace Imperative.Lowering

open List

open Wasm (ValueType)

namespace Frame

def size (frame : Frame) : Nat := frame.parameters + frame.locals.length

def Reserved (frame : Frame)
    (index : Nat) : Prop := index < frame.size ∧ index ∉ frame.free.map Prod.snd

/-- The free temporaries are different locals that exist. -/
structure Tidy (frame : Frame) : Prop where
  distinct : (frame.free.map Prod.snd).Nodup
  exist : ∀ index ∈ frame.free.map Prod.snd, index < frame.size

/-- There are no fewer locals than before, and what was reserved still is. -/
structure Grows (pre post : Frame) : Prop where
  parameters : post.parameters = pre.parameters
  size : pre.size ≤ post.size
  reserved : ∀ index, pre.Reserved index → post.Reserved index

theorem Grows.refl {frame : Frame} : frame.Grows frame :=
  ⟨rfl, Nat.le_refl _, fun _ isReserved => isReserved⟩

theorem Grows.trans {first second : Frame} (earlier : first.Grows second)
    (later : second.Grows third) : first.Grows third :=
  ⟨later.parameters.trans earlier.parameters, Nat.le_trans earlier.size later.size,
    fun index isReserved => later.reserved index (earlier.reserved index isReserved)⟩

theorem start_tidy (parameters : Nat) : (Frame.start parameters).Tidy := ⟨.nil, nofun⟩

theorem start_reserved {parameters index : Nat} :
    (Frame.start parameters).Reserved index ↔ index < parameters :=
  ⟨fun isReserved => isReserved.1, fun inBounds => ⟨inBounds, nofun⟩⟩

end Frame

/-- The locals that exist grow in number, and those that are free stay in order. -/
structure Advances (pre post : Frame) : Prop where
  grows : pre.Grows post
  tidy : post.Tidy

theorem Advances.refl (tidy : frame.Tidy) : Advances frame frame :=
  ⟨.refl, tidy⟩

theorem Advances.trans (earlier : Advances first second) (later : Advances second third) :
    Advances first third := ⟨earlier.grows.trans later.grows, later.tidy⟩

theorem perm_of_replaceFree (taken : replaceFree type newest older = some (index, rest)) :
    ((type, index) :: rest).Perm (newest :: older) := by
  induction older generalizing index rest with
  | nil => cases taken
  | cons entry older ih =>
    rw [replaceFree] at taken
    split at taken
    · next isType =>
      cases taken
      obtain ⟨entryType, entryIndex⟩ := entry
      cases isType
      exact .swap newest (entryType, entryIndex) older
    · rcases Option.map_eq_some_iff.mp taken with ⟨⟨found, others⟩, fromOlder, same⟩
      cases same
      calc ((type, index) :: entry :: others).Perm (entry :: (type, index) :: others) :=
            .swap entry (type, index) others
        _ |>.Perm (entry :: newest :: older) := (ih fromOlder).cons entry
        _ |>.Perm (newest :: entry :: older) := .swap newest entry older

theorem perm_of_takeFree (taken : takeFree type free = some (index, rest)) :
    ((type, index) :: rest).Perm free := by
  cases free with
  | nil => cases taken
  | cons newest older =>
    rw [takeFree] at taken
    split at taken
    · next isType =>
      cases taken
      obtain ⟨newestType, newestIndex⟩ := newest
      cases isType
      exact .refl _
    · exact perm_of_replaceFree taken

section Steps

variable {index : Nat} {pre post : Frame}

theorem addLocal_ok (isOk : addLocal type pre = .ok (index, post)) :
    index = pre.size ∧ post = { pre with locals := pre.locals ++ [type] } := by
  cases isOk
  exact ⟨rfl, rfl⟩

/-- What is known of a local that a frame has just given out. -/
structure Frame.Gives (pre post : Frame) (index : Nat) : Prop where
  grows : pre.Grows post
  tidy : post.Tidy
  reserved : post.Reserved index
  fresh : ¬ pre.Reserved index

theorem addLocal_gives (tidy : pre.Tidy) (isOk : addLocal type pre = .ok (index, post)) :
    pre.Gives post index := by
  rcases addLocal_ok isOk with ⟨rfl, rfl⟩
  have larger : Frame.size { pre with locals := pre.locals ++ [type] } = pre.size + 1 := by
    simp [Frame.size, Nat.add_assoc]
  refine ⟨⟨rfl, ?_, ?_⟩, ⟨tidy.distinct, ?_⟩, ⟨?_, ?_⟩, ?_⟩
  · omega
  · rintro other ⟨inside, notFree⟩
    exact ⟨by omega, notFree⟩
  · intro other isFree
    have := tidy.exist other isFree
    omega
  · omega
  · intro isFree
    have := tidy.exist _ isFree
    omega
  · rintro ⟨impossible, -⟩
    omega

theorem acquire_gives (tidy : pre.Tidy) (isOk : acquire type pre = .ok (index, post)) :
    pre.Gives post index := by
  cases taken : takeFree type pre.free with
  | none =>
    rw [acquire_of_none taken] at isOk
    exact addLocal_gives tidy isOk
  | some pair =>
    obtain ⟨found, free⟩ := pair
    rw [acquire_of_some taken] at isOk
    cases isOk
    have perm := (perm_of_takeFree taken).map Prod.snd
    have distinct : (index :: free.map Prod.snd).Nodup := perm.nodup_iff.mpr tidy.distinct
    have wasFree {other : Nat} (isFree : other ∈ free.map Prod.snd) :
        other ∈ pre.free.map Prod.snd := perm.subset (mem_cons_of_mem _ isFree)
    have itself : index ∈ pre.free.map Prod.snd := perm.subset (mem_cons_self ..)
    refine ⟨⟨rfl, Nat.le_refl _, ?_⟩, ⟨(nodup_cons.mp distinct).2, ?_⟩, ⟨?_, ?_⟩, ?_⟩
    · rintro other ⟨inside, notFree⟩
      exact ⟨inside, fun isFree => notFree (wasFree isFree)⟩
    · intro other isFree
      exact tidy.exist other (wasFree isFree)
    · exact tidy.exist index itself
    · exact (nodup_cons.mp distinct).1
    · rintro ⟨-, notFree⟩
      exact notFree itself

theorem Frame.Gives.advances (gives : pre.Gives post index) : Advances pre post :=
  ⟨gives.grows, gives.tidy⟩

/-- Once a temporary is given back, what was reserved before it was borrowed still is. -/
theorem release_keeps (gives : pre.Gives borrowed index) (advances : Advances borrowed last)
    (isOk : release type index last = .ok ((), post)) : Advances pre post := by
  have isReserved := advances.grows.reserved index gives.reserved
  cases isOk
  refine ⟨⟨advances.grows.parameters.trans gives.grows.parameters,
    Nat.le_trans gives.grows.size advances.grows.size, ?_⟩,
    ⟨nodup_cons.mpr ⟨isReserved.2, advances.tidy.distinct⟩, ?_⟩⟩
  · intro other wasReserved
    rcases advances.grows.reserved other (gives.grows.reserved other wasReserved) with
      ⟨inside, notFree⟩
    refine ⟨inside, fun isFree => ?_⟩
    rcases mem_cons.mp isFree with rfl | older
    · exact gives.fresh wasReserved
    · exact notFree older
  · intro other isFree
    rcases mem_cons.mp isFree with rfl | older
    · exact isReserved.1
    · exact advances.tidy.exist other older

end Steps

end Imperative.Lowering
