import Imperative.Proofs.Source.Cursor
import Mathlib.Data.Finset.Lattice.Fold
import Mathlib.Order.Bounds.Basic
import Mathlib.Order.Interval.Finset.Nat
import Mathlib.Order.Lattice.Nat

/-!
# Lines and columns

Line and column are decided by the byte offset, however a cursor got there.
-/

namespace Imperative

open List

namespace Text

/-- The byte offset in front of a character. -/
def offset (text : List Char) (index : Nat) : Nat := byteLength (text.take index)

/-- A newline, or a carriage return that no newline follows. -/
def BreaksAt (text : List Char) (index : Nat) : Prop :=
  text[index]? = some '\n' ∨ text[index]? = some '\r' ∧ text[index + 1]? ≠ some '\n'

instance (text : List Char) : DecidablePred (BreaksAt text) := fun _ => instDecidableOr

/-- The line breaks that end at or before a byte offset. -/
def breaksBefore (text : List Char) (position : Nat) : Finset Nat :=
  {index ∈ Finset.range text.length | BreaksAt text index ∧ offset text (index + 1) ≤ position}

/-- The number of a line, from its breaks. -/
def lineAt (text : List Char) (position : Nat) : Nat := 1 + (breaksBefore text position).card

/-- Where the last of these line breaks ends, or the start of the text. -/
def lineStart (text : List Char) (position : Nat) : Nat :=
  (breaksBefore text position).sup fun index => offset text (index + 1)

/-- How many characters of the line come before, and one. -/
def columnAt (text : List Char) (position : Nat) : Nat :=
  1 + Finset.card {index ∈ Finset.range text.length |
    lineStart text position ≤ offset text index ∧ offset text index < position}

/-- A character starts or the text ends at the byte offset. -/
def Boundary (text : List Char) (position : Nat) : Prop :=
  ∃ index ≤ text.length, offset text index = position

variable {text : List Char} {index other count : Nat}

theorem offset_mono : Monotone (offset text) := by
  intro index other isLe
  obtain ⟨more, rfl⟩ := Nat.exists_eq_add_of_le isLe
  rw [offset, offset, take_add, byteLength_append]
  exact Nat.le_add_right _ _

theorem offset_le_iff (inside : index ≤ text.length) :
    offset text index ≤ offset text other ↔ index ≤ other := by
  refine ⟨fun isLe => ?_, fun isLe => offset_mono isLe⟩
  by_contra isLt
  obtain ⟨more, rfl⟩ := Nat.exists_eq_add_of_lt (Nat.lt_of_not_ge isLt)
  have positive : 0 < byteLength ((text.drop other).take (more + 1)) := by
    refine byteLength_pos fun isEmpty => ?_
    have := congrArg length isEmpty
    simp at this
    omega
  rw [offset, offset, Nat.add_assoc, take_add, byteLength_append] at isLe
  omega

theorem offset_lt_iff (inside : other ≤ text.length) :
    offset text index < offset text other ↔ index < other := by
  rw [← Nat.not_le, offset_le_iff inside, Nat.not_le]

/-- The line breaks among the first characters. -/
def breaksAmong (text : List Char) (count : Nat) : Finset Nat :=
  {index ∈ Finset.range count | BreaksAt text index}

/-- The character that the line starts with. -/
def lineIndex (text : List Char) (count : Nat) : Nat := (breaksAmong text count).sup (· + 1)

theorem breaksBefore_offset (inside : count ≤ text.length) :
    breaksBefore text (offset text count) = breaksAmong text count := by
  ext index
  simp only [breaksBefore, breaksAmong, Finset.mem_filter, Finset.mem_range]
  constructor
  · rintro ⟨isIn, breaks, ends⟩
    exact ⟨(offset_le_iff isIn).mp ends, breaks⟩
  · rintro ⟨isIn, breaks⟩
    exact ⟨isIn.trans_le inside, breaks, offset_mono isIn⟩

theorem lineStart_offset (inside : count ≤ text.length) :
    lineStart text (offset text count) = offset text (lineIndex text count) := by
  rw [lineStart, breaksBefore_offset inside, lineIndex,
    Finset.apply_sup_eq_sup_comp_of_linearOrder (offset text) offset_mono rfl]
  rfl

theorem lineIndex_le (text : List Char) (count : Nat) : lineIndex text count ≤ count :=
  Finset.sup_le fun _ isIn => Finset.mem_range.mp (Finset.mem_filter.mp isIn).1

theorem columnAt_offset (inside : count ≤ text.length) :
    columnAt text (offset text count) = 1 + (count - lineIndex text count) := by
  have isLine : {index ∈ Finset.range text.length |
      lineStart text (offset text count) ≤ offset text index ∧
        offset text index < offset text count} = Finset.Ico (lineIndex text count) count := by
    ext index
    simp only [lineStart_offset inside, offset_lt_iff inside,
      offset_le_iff ((lineIndex_le text count).trans inside), Finset.mem_filter, Finset.mem_range,
      Finset.mem_Ico]
    exact ⟨And.right, fun isIn => ⟨isIn.2.trans_le inside, isIn⟩⟩
  rw [columnAt, isLine, Nat.card_Ico]

theorem breaksAmong_succ :
    breaksAmong text (count + 1) =
      if BreaksAt text count then insert count (breaksAmong text count)
      else breaksAmong text count := by
  rw [breaksAmong, Finset.range_add_one, Finset.filter_insert]
  rfl

theorem card_breaksAmong_succ :
    (breaksAmong text (count + 1)).card =
      (breaksAmong text count).card + if BreaksAt text count then 1 else 0 := by
  rw [breaksAmong_succ]
  split
  · exact Finset.card_insert_of_notMem (by simp [breaksAmong])
  · rfl

theorem lineIndex_succ :
    lineIndex text (count + 1) =
      if BreaksAt text count then count + 1 else lineIndex text count := by
  rw [lineIndex, breaksAmong_succ]
  split
  · rw [Finset.sup_insert]
    exact max_eq_left ((lineIndex_le text count).trans (Nat.le_succ count))
  · rfl

end Text

open Text

namespace Cursor

theorem endsLine_iff {text rest : List Char} {count : Nat}
    (isRest : text.drop count = char :: rest) :
    endsLine char rest = true ↔ BreaksAt text count := by
  have isChar : text[count]? = some char := by rw [← head?_drop, isRest, head?_cons]
  have isNext : text[count + 1]? = rest.head? := by
    rw [← head?_drop, ← tail_drop, isRest, tail_cons]
  rw [BreaksAt, isChar, isNext]
  simp [endsLine]

theorem place_advanceBy {text : List Char} {count : Nat} (inside : count ≤ text.length) :
    ((atStart text).advanceBy count).line = lineAt text (offset text count) ∧
      ((atStart text).advanceBy count).column = columnAt text (offset text count) := by
  rw [lineAt, breaksBefore_offset inside, columnAt_offset inside]
  induction count with
  | zero => exact ⟨rfl, rfl⟩
  | succ count ih =>
    obtain ⟨isLine, isColumn⟩ := ih (Nat.le_of_succ_le inside)
    obtain ⟨char, rest, isNext⟩ : ∃ char rest, text.drop count = char :: rest :=
      exists_cons_of_ne_nil (drop_eq_nil_iff.not.mpr (Nat.not_le.mpr inside))
    have isRest : ((atStart text).advanceBy count).rest = char :: rest :=
      (advanceBy_rest _ _).trans isNext
    have before := lineIndex_le text count
    rw [advanceBy_succ, advance, isRest, card_breaksAmong_succ, lineIndex_succ]
    simp only [endsLine_iff isNext]
    split
    · exact ⟨by rw [isLine, Nat.add_assoc], by rw [Nat.sub_self]⟩
    · exact ⟨isLine, by simp only [isColumn]; omega⟩

/-- What a reader does with a cursor. -/
inductive Move where
  | peek
  | peekAhead
  | advance
  | accept (expected : Char)
  | reset (position : Nat)

/-- The cursor after a move. -/
def perform (cur : Cursor) : Move → Cursor
  | .peek | .peekAhead => cur
  | .advance => cur.advance
  | .accept expected => (cur.accept expected).2
  | .reset position => cur.reset position

theorem Reached.perform {cur : Cursor} (reached : cur.Reached) :
    (cur.perform move).Reached ∧ (cur.perform move).text = cur.text := by
  cases move with
  | peek | peekAhead => exact ⟨reached, rfl⟩
  | advance => exact ⟨reached.advance, advance_text cur⟩
  | accept expected =>
    rw [Cursor.perform, accept]
    split
    · exact ⟨reached.advance, advance_text cur⟩
    · exact ⟨reached, rfl⟩
  | reset position => exact ⟨reset_reached, advanceBy_text _ _⟩

theorem Reached.performAll (reached : cur.Reached) {moves : List Move} :
    (moves.foldl Cursor.perform cur).Reached ∧
      (moves.foldl Cursor.perform cur).text = cur.text := by
  induction moves generalizing cur with
  | nil => exact ⟨reached, rfl⟩
  | cons move moves ih =>
    obtain ⟨stillReached, sameText⟩ := reached.perform
    obtain ⟨atLast, lastText⟩ := ih stillReached
    exact ⟨atLast, lastText.trans sameText⟩

/-- The whole characters in some bytes are those in front of the offsets up to there. -/
theorem le_wholeCharacters_iff {text : List Char} (inside : index ≤ text.length) :
    index ≤ wholeCharacters bytes text ↔ offset text index ≤ bytes := by
  induction text generalizing index bytes with
  | nil => simp [Nat.le_zero.mp inside, offset, byteLength]
  | cons char rest ih =>
    cases index with
    | zero => simp [offset, byteLength]
    | succ index =>
      have isOffset : offset (char :: rest) (index + 1) = char.utf8Size + offset rest index := rfl
      rw [isOffset, wholeCharacters]
      split
      · rw [Nat.add_le_add_iff_right, ih (Nat.le_of_succ_le_succ inside)]
        omega
      · omega

theorem wholeCharacters_le (bytes : Nat) (text : List Char) :
    wholeCharacters bytes text ≤ text.length := by
  induction text generalizing bytes with
  | nil => exact Nat.le_refl 0
  | cons char rest ih =>
    rw [wholeCharacters]
    split
    · exact Nat.succ_le_succ (ih _)
    · exact Nat.zero_le _

theorem reset_greatest {position : Nat} {cur : Cursor} :
    IsGreatest {other | Boundary cur.text other ∧ other ≤ min position (byteLength cur.text)}
      (cur.reset position).position := by
  have inside := wholeCharacters_le position cur.text
  have isPosition : (cur.reset position).position =
      offset cur.text (wholeCharacters position cur.text) :=
    (position_advanceBy _ _).trans (Nat.zero_add _)
  have isEnd : offset cur.text cur.text.length = byteLength cur.text := by rw [offset, take_length]
  rw [isPosition]
  refine ⟨⟨⟨_, inside, rfl⟩, le_min ?_ ?_⟩, ?_⟩
  · exact (le_wholeCharacters_iff inside).mp (Nat.le_refl _)
  · exact isEnd ▸ offset_mono inside
  · rintro other ⟨⟨index, isIn, rfl⟩, isLe⟩
    exact offset_mono ((le_wholeCharacters_iff isIn).mpr (isLe.trans (min_le_left _ _)))

/--
Line and column are a function of the position, whatever moves led there.  A reset lands on the
greatest boundary that is not above the offset.
-/
theorem place_determined (text : List Char) (moves : List Move) :
    let cur := moves.foldl perform (atStart text)
    Boundary text cur.position ∧ cur.line = lineAt text cur.position ∧
      cur.column = columnAt text cur.position ∧
      ∀ position, IsGreatest
        {other | Boundary text other ∧ other ≤ min position (byteLength text)}
        (cur.reset position).position := by
  obtain ⟨reached, isText⟩ := Reached.atStart.performAll
  generalize moves.foldl perform (atStart text) = cur at *
  obtain rfl : cur.text = text := isText
  obtain ⟨read, isRead, isPosition, isCur⟩ := reached.exists_read
  have inside : read.length ≤ cur.text.length := by simp [isRead]
  have isOffset : cur.position = offset cur.text read.length := by
    rw [isPosition, offset, isRead, take_left]
  obtain ⟨isLine, isColumn⟩ := place_advanceBy inside
  rw [← isCur] at isLine isColumn
  refine ⟨⟨_, inside, isOffset.symm⟩, ?_, ?_, fun position => reset_greatest⟩
  · rw [isLine, isOffset]
  · rw [isColumn, isOffset]

end Cursor

end Imperative
