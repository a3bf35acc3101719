import Imperative.Source.Cursor

/-!
# Bytes and cursors

A cursor that was moved from the start of its text is determined by its byte offset: a reset to
that offset gives it back, with its line and column.
-/

namespace Imperative

open List

namespace Text

theorem byteLength_append :
    byteLength (first ++ second) = byteLength first + byteLength second := by
  induction first with
  | nil => simp [byteLength]
  | cons char rest ih =>
    simp only [cons_append, byteLength, ih]
    omega

theorem byteLength_pos (notEmpty : text ≠ []) : 0 < byteLength text := by
  cases text with
  | nil => exact absurd rfl notEmpty
  | cons char rest => exact Nat.add_pos_left char.utf8Size_pos _

theorem dropBytes_append : dropBytes (byteLength first) (first ++ second) = some second := by
  induction first with
  | nil => cases second <;> simp [dropBytes, byteLength]
  | cons char rest ih =>
    have positive := char.utf8Size_pos
    rw [cons_append, byteLength, dropBytes, if_neg (by omega), if_pos (by omega),
      Nat.add_sub_cancel_left, ih]

theorem takeBytes_append : takeBytes (byteLength first) (first ++ second) = some first := by
  induction first with
  | nil => cases second <;> simp [takeBytes, byteLength]
  | cons char rest ih =>
    have positive := char.utf8Size_pos
    rw [cons_append, byteLength, takeBytes, if_neg (by omega), if_pos (by omega),
      Nat.add_sub_cancel_left, ih, Option.map_some]

end Text

open Text

theorem Span.extract_append {span : Span} (starts : span.start = byteLength pre)
    (isLength : span.length = byteLength inside) :
    span.extract (pre ++ (inside ++ post)) = inside := by
  have atStop : min span.stop (byteLength (pre ++ (inside ++ post))) = span.stop := by
    simp only [Span.stop, byteLength_append]
    omega
  have atStart : min span.start span.stop = byteLength pre := by
    rw [← starts]
    exact Nat.min_eq_left (Nat.le_add_right _ _)
  have isRest : span.stop - byteLength pre = byteLength inside := by
    simp only [Span.stop]
    omega
  rw [Span.extract, atStop, atStart, dropBytes_append, Option.bind_some, isRest, takeBytes_append,
    Option.getD_some]

namespace Cursor

theorem position_advance (cur : Cursor) :
    cur.advance.position = cur.position + byteLength (cur.rest.take 1) := by
  unfold advance
  cases remaining : cur.rest with
  | nil => rfl
  | cons char rest => by_cases ends : endsLine char rest <;> simp [ends, byteLength]

theorem position_advanceBy (count : Nat) (cur : Cursor) :
    (cur.advanceBy count).position = cur.position + byteLength (cur.rest.take count) := by
  induction count generalizing cur with
  | zero => rfl
  | succ count ih =>
    rw [advanceBy, ih, position_advance, advance_rest, Nat.add_assoc, ← byteLength_append]
    cases cur.rest <;> simp

theorem advanceBy_succ (count : Nat) (cur : Cursor) :
    cur.advanceBy (count + 1) = (cur.advanceBy count).advance := by
  induction count generalizing cur with
  | zero => rfl
  | succ count ih => exact ih cur.advance

@[simp]
theorem advance_text (cur : Cursor) : cur.advance.text = cur.text := by
  unfold advance
  split
  · rfl
  · dsimp only
    split <;> rfl

@[simp]
theorem advanceBy_text (count : Nat) (cur : Cursor) : (cur.advanceBy count).text = cur.text := by
  induction count generalizing cur with
  | zero => rfl
  | succ count ih => exact (ih _).trans cur.advance_text

/-- The cursor was moved from the start of its text over what is not left. -/
def Reached (cur : Cursor) : Prop :=
  ∃ read, cur.text = read ++ cur.rest ∧ cur = (atStart cur.text).advanceBy read.length

theorem Reached.atStart {text : List Char} : (Cursor.atStart text).Reached := ⟨[], rfl, rfl⟩

theorem Reached.advance {cur : Cursor} (reached : cur.Reached) : cur.advance.Reached := by
  obtain ⟨read, isText, isCur⟩ := reached
  cases remaining : cur.rest with
  | nil =>
    rw [Cursor.advance, remaining]
    exact ⟨read, isText, isCur⟩
  | cons char rest =>
    refine ⟨read ++ [char], ?_, ?_⟩
    · rw [advance_text, advance_rest, isText, remaining, append_assoc]
      rfl
    · rw [advance_text, length_append, length_singleton, advanceBy_succ, ← isCur]

theorem Reached.advanceBy {cur : Cursor} (reached : cur.Reached) (count : Nat) :
    (cur.advanceBy count).Reached := by
  induction count generalizing cur with
  | zero => exact reached
  | succ count ih => exact ih reached.advance

theorem reset_reached {cur : Cursor} : (cur.reset pos).Reached :=
  Reached.atStart.advanceBy _

theorem wholeCharacters_append {read rest : List Char} :
    wholeCharacters (byteLength read) (read ++ rest) = read.length := by
  induction read with
  | nil =>
    cases rest with
    | nil => rfl
    | cons char rest => exact if_neg (Nat.not_le_of_gt char.utf8Size_pos)
  | cons char read ih =>
    rw [cons_append, byteLength, wholeCharacters, if_pos (Nat.le_add_right _ _),
      Nat.add_sub_cancel_left, ih, length_cons]

theorem Reached.exists_read (reached : cur.Reached) :
    ∃ read, cur.text = read ++ cur.rest ∧ cur.position = byteLength read ∧
      cur = (Cursor.atStart cur.text).advanceBy read.length := by
  obtain ⟨read, isText, isCur⟩ := reached
  refine ⟨read, isText, ?_, isCur⟩
  rw [isCur, position_advanceBy]
  show 0 + byteLength (cur.text.take read.length) = _
  rw [isText, take_left, Nat.zero_add]

theorem Reached.reset_position {cur other : Cursor} (reached : cur.Reached)
    (sameText : other.text = cur.text) : other.reset cur.position = cur := by
  obtain ⟨read, isText, isPos, isCur⟩ := reached.exists_read
  have isCount : wholeCharacters (byteLength read) cur.text = read.length := by
    rw [isText]
    exact wholeCharacters_append
  rw [reset, sameText, isPos, isCount, ← isCur]

end Cursor

end Imperative
