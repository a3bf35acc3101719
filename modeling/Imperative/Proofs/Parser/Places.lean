import Imperative.Parser.State
import Imperative.Typing.Resolve
import Mathlib.Data.List.Basic
import Mathlib.Data.Prod.Lex

/-!
# The places of tokens

No two tokens of a text are at the same place.  A record without a name of its own is named after
its place, and from such a name the place can be told.
-/

namespace Imperative

variable {cur : Cursor}

/-- Where a span starts, as a reader counts it; later lines come after earlier ones. -/
def Span.spot (span : Span) : Nat ×ₗ Nat := toLex (span.line, span.column)

theorem toList_place (span : Span) :
    span.place.toList = Nat.toDigits 10 span.line ++ ':' :: Nat.toDigits 10 span.column := by
  have parts : span.place = toString span.line ++ ":" ++ toString span.column := rfl
  rw [parts, String.toList_append, String.toList_append, List.append_assoc]
  simp [Nat.repr]

theorem colon_not_digit : ':' ∉ Nat.toDigits 10 num := by
  intro mem
  have isDigit := Nat.isDigit_of_mem_toDigits (by decide) (by decide) mem
  revert isDigit
  decide

theorem toDigits_inj (same : Nat.toDigits 10 first = Nat.toDigits 10 second) : first = second := by
  rw [← Nat.ofDigitChars_ten_toDigits (n := first), same, Nat.ofDigitChars_ten_toDigits]

theorem Typing.anonymousRecord_inj
    (sameName : anonymousRecord first = anonymousRecord second) : first.spot = second.spot := by
  have samePlace := (String.append_right_inj _).mp ((String.append_left_inj _).mp sameName)
  have sameLists := congrArg String.toList samePlace
  rw [toList_place, toList_place,
    List.append_cons_inj_of_notMem colon_not_digit colon_not_digit] at sameLists
  rw [Span.spot, Span.spot, toDigits_inj sameLists.1, toDigits_inj sameLists.2.2]

namespace Cursor

def spot (cur : Cursor) : Nat ×ₗ Nat := toLex (cur.line, cur.column)

theorem spot_lt_advance (notAtEnd : cur.rest ≠ []) : cur.spot < cur.advance.spot := by
  unfold advance
  cases remaining : cur.rest with
  | nil => exact absurd remaining notAtEnd
  | cons char rest =>
    simp only [spot]
    split
    · exact Prod.Lex.toLex_lt_toLex.mpr (.inl (Nat.lt_succ_self _))
    · exact Prod.Lex.toLex_lt_toLex.mpr (.inr ⟨rfl, Nat.lt_succ_self _⟩)

theorem spot_le_advance : cur.spot ≤ cur.advance.spot := by
  by_cases atEnd : cur.rest = []
  · simp [advance, atEnd]
  · exact (spot_lt_advance atEnd).le

theorem spot_le_advanceBy (cur : Cursor) : cur.spot ≤ (cur.advanceBy count).spot := by
  induction count generalizing cur with
  | zero => exact le_refl _
  | succ count ih => exact spot_le_advance.trans (ih cur.advance)

theorem spot_lt_advanceBy (positive : 0 < count) (notAtEnd : cur.rest ≠ []) :
    cur.spot < (cur.advanceBy count).spot := by
  obtain ⟨fewer, rfl⟩ := Nat.exists_eq_succ_of_ne_zero (Nat.pos_iff_ne_zero.mp positive)
  exact (spot_lt_advance notAtEnd).trans_le (spot_le_advanceBy cur.advance)

end Cursor

namespace Token

@[simp]
theorem Content.span_token (content : Content) (span : Span) :
    (content.token span characters).span = span := by
  cases content <;> rfl

theorem scan_spot (notAtEnd : (scan cur).1.kind ≠ .endOfFile) :
    cur.spot ≤ (scan cur).1.span.spot ∧ (scan cur).1.span.spot < (scan cur).2.spot := by
  revert notAtEnd
  unfold scan
  simp only
  split
  · intro notAtEnd
    exact absurd rfl notAtEnd
  · next char rest remaining =>
    intro _
    have notEmpty : (cur.advanceBy (triviaLength cur.rest)).rest ≠ [] := by
      rw [remaining]
      exact List.cons_ne_nil char rest
    rw [Content.span_token]
    exact ⟨Cursor.spot_le_advanceBy cur,
      Cursor.spot_lt_advanceBy (Lexeme.recognize_length_pos char rest) notEmpty⟩

end Token

namespace Parser

def spots (toks : List Token) : List (Nat ×ₗ Nat) := toks.map fun tok => tok.span.spot

theorem Feed.ofCursor_spots (cur : Cursor) :
    (∀ spot ∈ spots (Feed.ofCursor cur).tokens, cur.spot ≤ spot) ∧
      (spots (Feed.ofCursor cur).tokens).Pairwise (· < ·) := by
  induction cur using Feed.ofCursor.induct with
  | case1 cur atEnd =>
    rw [Feed.ofCursor, if_pos atEnd]
    simp [spots]
  | case2 cur notAtEnd ih =>
    rw [Feed.ofCursor, if_neg notAtEnd]
    obtain ⟨fromCur, beforeNext⟩ := Token.scan_spot notAtEnd
    obtain ⟨later, ordered⟩ := ih
    simp only [spots, List.map_cons, List.mem_cons, List.pairwise_cons] at later ordered ⊢
    refine ⟨?_, fun spot mem => beforeNext.trans_le (later spot mem), ordered⟩
    rintro spot (rfl | mem)
    · exact fromCur
    · exact fromCur.trans (beforeNext.le.trans (later spot mem))

end Parser

end Imperative
