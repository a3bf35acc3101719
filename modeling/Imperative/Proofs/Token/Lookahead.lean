import Imperative.Proofs.Token.Tiling
import Imperative.Token.Reader
import Mathlib.Data.List.Iterate

/-!
# Lookahead is invisible

What a reader hands out is decided by the byte offset up to which tokens were taken, and by whether
the iteration is over.
-/

namespace Imperative.Token

open List

variable {cur : Cursor}

def pass (cur : Cursor) : Cursor := (scan cur).2

theorem pass_text (cur : Cursor) : (pass cur).text = cur.text := by
  unfold pass scan
  dsimp only
  split <;> simp

theorem pass_reached (reached : cur.Reached) : (pass cur).Reached := by
  unfold pass scan
  dsimp only
  split
  · exact reached.advanceBy _
  · exact (reached.advanceBy _).advanceBy _

/-- The cursor at a byte offset. -/
def cursorAt (text : List Char) (position : Nat) : Cursor := (Cursor.atStart text).reset position

/-- The token from a byte offset on. -/
def tokenAt (text : List Char) (position : Nat) : Token := (scan (cursorAt text position)).1

/-- The token that is read from a byte offset on after `count` others. -/
def tokenAfter (text : List Char) (position : Nat) : Nat → Token
  | 0 => tokenAt text position
  | count + 1 => tokenAfter text (tokenAt text position).span.stop count

theorem cursorAt_text (text : List Char) : (cursorAt text position).text = text :=
  Cursor.advanceBy_text _ _

theorem pass_cursorAt (text : List Char) :
    pass (cursorAt text position) = cursorAt text (tokenAt text position).span.stop := by
  obtain ⟨-, -, -, -, goesOn, -⟩ := scan_tile
  have reached : (pass (cursorAt text position)).Reached :=
    pass_reached Cursor.reset_reached
  have sameText := (pass_text (cursorAt text position)).trans (cursorAt_text text)
  exact (reached.reset_position sameText.symm).symm.trans (congrArg (cursorAt text) goesOn)

theorem tokenAfter_eq (text : List Char) (position count : Nat) :
    tokenAfter text position count = (scan (pass^[count] (cursorAt text position))).1 := by
  induction count generalizing position with
  | zero => rfl
  | succ count ih => rw [tokenAfter, ih, Function.iterate_succ_apply, pass_cursorAt]

/-- Where reading goes on, and whether the iteration is over. -/
structure Place where
  position : Nat
  finished : Bool

/-- What a reader is asked for. -/
inductive Request where
  | next
  | peek (k : Nat)
  | iterate
  | reset (position : Nat)

/-- The answer at a place, with nothing kept. -/
def Place.answer (text : List Char) (request : Request) (place : Place) : Option Token × Place :=
  let tok := tokenAt text place.position
  match request with
  | .next => (some tok, { place with position := tok.span.stop })
  | .peek k => (some (tokenAfter text place.position (max k 1 - 1)), place)
  | .iterate =>
    if place.finished then (none, place)
    else (some tok, { position := tok.span.stop, finished := tok.kind = .endOfFile })
  | .reset position => (none, { position, finished := false })

/-- The answer of a reader. -/
def Reader.answer (request : Request) (reader : Reader) : Option Token × Reader :=
  match request with
  | .next => (some reader.next.1, reader.next.2)
  | .peek k => (some (reader.peek k).1, (reader.peek k).2)
  | .iterate => reader.iterate
  | .reset position => (none, reader.reset position)

/-- The answers to requests, one after another. -/
def answers {State : Type} (answer : Request → State → Option Token × State) :
    List Request → State → List (Option Token) × State
  | [], st => ([], st)
  | request :: rest, st =>
    let (first, mid) := answer request st
    let (others, post) := answers answer rest mid
    (first :: others, post)

def Keeps (text : List Char) (position : Nat) (reader : Reader) : Prop :=
  ∃ count,
    reader.lookahead =
        (List.iterate pass (cursorAt text position) count).map (fun cur => (scan cur).1) ∧
      reader.cursor = pass^[count] (cursorAt text position)

/-- The reader is at the place, perhaps with tokens that it keeps. -/
structure Represents (text : List Char) (reader : Reader) (place : Place) : Prop where
  finished : reader.finished = place.finished
  keeps : Keeps text place.position reader

theorem Reader.fill_eq (count : Nat) (reader : Reader) :
    reader.fill count =
      { reader with
        cursor := pass^[count] reader.cursor
        lookahead := reader.lookahead ++
          (List.iterate pass reader.cursor count).map fun cur => (scan cur).1 } := by
  induction count generalizing reader with
  | zero => simp [fill]
  | succ count ih => simp [fill, ih, pass]

section Requests

variable {text : List Char} {position : Nat}

theorem Keeps.next (keeps : Keeps text position reader) :
    reader.next.1 = tokenAt text position ∧ reader.next.2.finished = reader.finished ∧
      Keeps text (tokenAt text position).span.stop reader.next.2 := by
  obtain ⟨count, isKept, isCur⟩ := keeps
  obtain ⟨cur, lookahead, finished⟩ := reader
  cases isKept
  cases isCur
  rw [Keeps, ← pass_cursorAt]
  cases count with
  | zero => exact ⟨rfl, rfl, 0, rfl, rfl⟩
  | succ count => exact ⟨rfl, rfl, count, rfl, rfl⟩

theorem Keeps.peek (keeps : Keeps text position reader) :
    (reader.peek k).1 = tokenAfter text position (max k 1 - 1) ∧
      (reader.peek k).2.finished = reader.finished ∧ Keeps text position (reader.peek k).2 := by
  obtain ⟨count, isKept, isCur⟩ := keeps
  have enough : max k 1 - 1 < count + (max k 1 - count) := by omega
  have isFilled : reader.fill (max k 1 - reader.lookahead.length) =
      { reader with
        cursor := pass^[count + (max k 1 - count)] (cursorAt text position)
        lookahead := (List.iterate pass (cursorAt text position)
          (count + (max k 1 - count))).map fun cur => (scan cur).1 } := by
    rw [Reader.fill_eq, isKept, isCur, length_map, length_iterate, ← map_append,
      ← iterate_add, ← Function.iterate_add_apply, Nat.add_comm count]
  rw [Reader.peek, isFilled]
  rw [getElem?_map, getElem?_iterate _ _ _ _ enough, tokenAfter_eq]
  exact ⟨rfl, rfl, _, rfl, rfl⟩

theorem Keeps.reset (keeps : Keeps text position reader) :
    Keeps text other (reader.reset other) := by
  obtain ⟨count, -, isCur⟩ := keeps
  have sameText : reader.cursor.text = text := by
    rw [isCur]
    clear isCur
    induction count with
    | zero => exact cursorAt_text text
    | succ count ih => rw [Function.iterate_succ_apply', pass_text, ih]
  exact ⟨0, rfl, congrArg (fun text => cursorAt text other) sameText⟩

theorem Represents.answer (represents : Represents text reader place) :
    (reader.answer request).1 = (place.answer text request).1 ∧
      Represents text (reader.answer request).2 (place.answer text request).2 := by
  obtain ⟨isOver, keeps⟩ := represents
  obtain ⟨isNext, nextOver, keepsNext⟩ := keeps.next
  cases request with
  | next => exact ⟨congrArg some isNext, nextOver.trans isOver, keepsNext⟩
  | peek k =>
    obtain ⟨isAhead, stillOver, stillKeeps⟩ := keeps.peek
    exact ⟨congrArg some isAhead, stillOver.trans isOver, stillKeeps⟩
  | iterate =>
    simp only [Reader.answer, Reader.iterate, Place.answer, isOver]
    split
    · exact ⟨rfl, isOver, keeps⟩
    · exact ⟨congrArg some isNext, by simp only [isNext], keepsNext⟩
  | reset position => exact ⟨rfl, rfl, keeps.reset⟩

theorem Represents.answers (represents : Represents text reader place) :
    (answers Reader.answer requests reader).1 = (answers (Place.answer text) requests place).1 ∧
      Represents text (answers Reader.answer requests reader).2
        (answers (Place.answer text) requests place).2 := by
  induction requests generalizing reader place with
  | nil => exact ⟨rfl, represents⟩
  | cons request rest ih =>
    obtain ⟨sameAnswer, goesOn⟩ := represents.answer
    obtain ⟨sameOthers, post⟩ := ih goesOn
    exact ⟨congrArg₂ List.cons sameAnswer sameOthers, post⟩

end Requests

theorem triviaLength_of_break {text : List Char}
    (breaks : ∀ char ∈ text.head?, breaksLine char = true) : triviaLength text = 0 := by
  cases text with
  | nil => rfl
  | cons char rest =>
    have isBreak : char = '\n' ∨ char = '\r' := by simpa [breaksLine] using breaks char rfl
    rcases isBreak with rfl | rfl <;> rfl

theorem triviaLength_drop (text : List Char) :
    triviaLength (text.drop (triviaLength text)) = 0 := by
  induction text with
  | nil => rfl
  | cons char rest ih =>
    rw [triviaLength]
    split
    · exact ih
    · next notBlank =>
      split
      · next isComment =>
        obtain ⟨rfl, isSecond⟩ := isComment
        exact triviaLength_of_break head?_after_line
      · next notComment => rw [drop_zero, triviaLength, if_neg notBlank, if_neg notComment]

theorem scan_opening : scan (cur.advanceBy (triviaLength cur.rest)) = scan cur := by
  unfold scan
  rw [Cursor.advanceBy_rest, triviaLength_drop, Cursor.advanceBy]

theorem scan_pass (atEnd : (scan cur).1.kind = .endOfFile) : scan (pass cur) = scan cur := by
  have isOpening : pass cur = cur.advanceBy (triviaLength cur.rest) := by
    revert atEnd
    unfold pass scan
    dsimp only
    split
    · exact fun _ => rfl
    · intro atEnd
      rw [Content.kind_token] at atEnd
      exact absurd atEnd (Lexeme.recognize_kind _ _)
  rw [isOpening, scan_opening]

theorem tokenAfter_end {text : List Char} (atEnd : (tokenAt text position).kind = .endOfFile)
    {count : Nat} : tokenAfter text position count = tokenAt text position := by
  have repeats : scan (pass (cursorAt text position)) = scan (cursorAt text position) :=
    scan_pass atEnd
  have fixed : pass (pass (cursorAt text position)) = pass (cursorAt text position) :=
    congrArg Prod.snd repeats
  cases count with
  | zero => rfl
  | succ count =>
    rw [tokenAfter_eq, Function.iterate_succ_apply, Function.iterate_fixed fixed, repeats, tokenAt]

/-- The tokens from a cursor on are the next one and, unless it is the end, those after it. -/
theorem tokensFrom_eq (cur : Cursor) :
    tokensFrom cur = (scan cur).1 ::
      if (scan cur).1.kind = .endOfFile then [] else tokensFrom (pass cur) := by
  rw [tokensFrom]
  split <;> rfl

theorem tokensFrom_start (reached : cur.Reached) :
    tokensFrom (cur.reset (scan cur).1.span.start) = tokensFrom cur := by
  have isPos : (scan cur).1.span.start = (cur.advanceBy (triviaLength cur.rest)).position := by
    unfold scan
    dsimp only
    split
    · rfl
    · rw [Content.span_token]
      rfl
  rw [isPos, (reached.advanceBy _).reset_position (Cursor.advanceBy_text _ cur).symm,
    tokensFrom, scan_opening, ← tokensFrom]

theorem tokensFrom_reset (reached : cur.Reached) (isTok : (tokensFrom cur)[index]? = some tok) :
    tokensFrom (cur.reset tok.span.start) = (tokensFrom cur).drop index := by
  induction index generalizing cur with
  | zero =>
    rw [tokensFrom_eq] at isTok
    cases isTok
    exact tokensFrom_start reached
  | succ index ih =>
    rw [tokensFrom_eq] at isTok
    rw [tokensFrom_eq cur]
    split at isTok
    · cases isTok
    · next notAtEnd =>
      rw [if_neg notAtEnd, drop_succ_cons,
        ← ih (pass_reached reached) isTok, Cursor.reset, Cursor.reset, pass_text]

theorem answers_finished {text : List Char} {position count : Nat} :
    (answers (Place.answer text) (List.replicate count .iterate) { position, finished := true }).1 =
      List.replicate count none := by
  induction count with
  | zero => rfl
  | succ count ih => exact congrArg (none :: ·) ih

theorem answers_iterate (text : List Char) (position count : Nat) :
    (answers (Place.answer text) (List.replicate count .iterate)
      { position, finished := false }).1 =
        (List.range count).map fun index => (tokensFrom (cursorAt text position))[index]? := by
  induction count generalizing position with
  | zero => rfl
  | succ count ih =>
    have shifted : (fun index => (tokensFrom (cursorAt text position))[index]?) ∘ Nat.succ =
        fun index => (if (tokenAt text position).kind = .endOfFile then []
          else tokensFrom (pass (cursorAt text position)))[index]? := by
      rw [tokensFrom_eq]
      rfl
    rw [replicate_succ, answers, range_succ_eq_map, map_cons, map_map, shifted]
    refine congrArg₂ List.cons (by rw [tokensFrom_eq]; rfl) ?_
    by_cases atEnd : (tokenAt text position).kind = .endOfFile
    · simp only [Place.answer, atEnd, decide_true, if_true, getElem?_nil]
      exact answers_finished.trans (by simp)
    · simp only [Place.answer, atEnd, decide_false, if_false, pass_cursorAt]
      exact ih _

/--
A reader answers as if it kept no tokens, the end of the text is repeated for ever, and after a
reset to the start of a token the iteration goes on with that token.
-/
theorem lookahead_invisible (text : String) (requests : List Request) :
    (answers Reader.answer requests (Reader.ofText text)).1 =
        (answers (Place.answer text.toList) requests { position := 0, finished := false }).1 ∧
      (∀ position count, (tokenAt text.toList position).kind = .endOfFile →
        tokenAfter text.toList position count = tokenAt text.toList position) ∧
      ∀ index token, (tokenize text)[index]? = some token → ∀ count,
        (answers Reader.answer (.reset token.span.start :: List.replicate count .iterate)
          (answers Reader.answer requests (Reader.ofText text)).2).1 =
            none :: (List.range count).map fun later => (tokenize text)[index + later]? := by
  have start : Represents text.toList (Reader.ofText text) { position := 0, finished := false } :=
    ⟨rfl, 0, rfl, (Cursor.Reached.atStart.reset_position rfl).symm⟩
  obtain ⟨sameAnswers, represents⟩ := start.answers
  refine ⟨sameAnswers, fun position count atEnd => tokenAfter_end atEnd, ?_⟩
  intro index token isToken count
  have isSuffix := tokensFrom_reset Cursor.Reached.atStart isToken
  rw [represents.answers.1, answers]
  refine congrArg (none :: ·) ((answers_iterate _ _ count).trans ?_)
  rw [cursorAt, isSuffix, tokenize]
  simp only [getElem?_drop]

end Imperative.Token
