import Imperative.Command.Report
import Imperative.Proofs.Parser.Feeds
import Imperative.Proofs.Parser.Positions
import Imperative.Proofs.Source.Lines

/-!
# The lines that are shown

A cursor also counts a line at a carriage return that no newline follows, but the lines that are
shown with a diagnostic end at newlines only.
-/

namespace Imperative

open List

namespace Text

/-- The lines of a text, each with what ends it. -/
def linesEnded : List Char → List (List Char × List Char)
  | [] => []
  | '\n' :: rest => ([], ['\n']) :: linesEnded rest
  | '\r' :: '\n' :: rest => ([], ['\r', '\n']) :: linesEnded rest
  | char :: rest =>
    match linesEnded rest with
    | [] => [([char], [])]
    | (line, ending) :: others => (char :: line, ending) :: others

/--
Which line a byte offset falls in.  The end of the text is part of the last line if nothing ends it.
-/
def fallsIn (position : Nat) : List (List Char × List Char) → Option Nat
  | [] => none
  | (line, ending) :: others =>
    if position < byteLength (line ++ ending) ∨ ending = [] ∧ position = byteLength line then some 0
    else (fallsIn (position - byteLength (line ++ ending)) others).map (· + 1)

/-- A carriage return that no newline follows. -/
def LoneReturn (text : List Char) (index : Nat) : Prop :=
  text[index]? = some '\r' ∧ text[index + 1]? ≠ some '\n'

theorem linesEnded_spec (text : List Char) :
    (linesEnded text).map Prod.fst = lines text ∧
      (linesEnded text).flatMap (fun line => line.1 ++ line.2) = text := by
  fun_induction linesEnded text with
  | case1 => exact ⟨rfl, rfl⟩
  | case2 _ ih | case3 _ ih => simp [lines, ih]
  | case4 char rest notNewline notReturn isEmpty ih =>
    rw [lines, ← ih.1, isEmpty]
    · simpa [isEmpty] using ih.2
    · exact notNewline
    · exact notReturn
  | case5 char rest notNewline notReturn line ending others isRest ih =>
    rw [lines, ← ih.1, isRest]
    · simpa [isRest] using ih.2
    · exact notNewline
    · exact notReturn

theorem fallsIn_cons (char : Char) (position : Nat) (line ending : List Char)
    (others : List (List Char × List Char)) :
    fallsIn (char.utf8Size + position) ((char :: line, ending) :: others) =
      fallsIn position ((line, ending) :: others) := by
  simp only [fallsIn, cons_append, byteLength, Nat.add_lt_add_iff_left, Nat.add_left_cancel_iff,
    Nat.add_sub_add_left]

/-- An offset falls in the line whose number is that of the newlines in front of it. -/
theorem fallsIn_byteLength {read : List Char} (isText : read ++ rest = text) :
    fallsIn (byteLength read) (linesEnded text) =
      if read.count '\n' < (linesEnded text).length then some (read.count '\n') else none := by
  fun_induction linesEnded text generalizing read with
  | case1 => rfl
  | case2 rest ih =>
    cases read with
    | nil => rfl
    | cons first read =>
      obtain ⟨rfl, isRest⟩ := cons.inj isText
      by_cases inside : read.count '\n' < (linesEnded rest).length <;>
        simp [fallsIn, byteLength, ih isRest, inside]
  | case3 rest ih =>
    rcases read with _ | ⟨_, _ | ⟨_, read⟩⟩
    · rfl
    · obtain ⟨rfl, -⟩ := cons.inj isText
      rfl
    · obtain ⟨rfl, isNext⟩ := cons.inj isText
      obtain ⟨rfl, isRest⟩ := cons.inj isNext
      by_cases inside : read.count '\n' < (linesEnded rest).length <;>
        simp [fallsIn, byteLength, ← Nat.add_assoc, ih isRest, inside]
  | case4 char rest notNewline notReturn isEmpty ih =>
    have noRest := (linesEnded_spec rest).2
    rw [isEmpty, flatMap_nil] at noRest
    subst noRest
    cases read with
    | nil => simp [fallsIn, byteLength, char.utf8Size_pos]
    | cons first read =>
      obtain ⟨rfl, isRest⟩ := cons.inj isText
      obtain ⟨rfl, -⟩ := append_eq_nil_iff.mp isRest
      simp [fallsIn, byteLength, count_cons_of_ne notNewline]
  | case5 char rest notNewline notReturn line ending others isRest ih =>
    cases read with
    | nil => simp [fallsIn, byteLength, char.utf8Size_pos]
    | cons first read =>
      obtain ⟨rfl, isNext⟩ := cons.inj isText
      rw [byteLength, fallsIn_cons, ← isRest, ih isNext, isRest, count_cons_of_ne notNewline]
      rfl

theorem card_breaksAmong {count : Nat} :
    (text.take count).count '\n' ≤ (breaksAmong text count).card ∧
      ((breaksAmong text count).card = (text.take count).count '\n' ↔
        ∀ index < count, ¬ LoneReturn text index) := by
  induction count with
  | zero => simp [breaksAmong]
  | succ count ih =>
    obtain ⟨isLe, isEq⟩ := ih
    rw [card_breaksAmong_succ, take_add_one, count_append, Nat.forall_lt_succ_right, ← isEq]
    by_cases isNewline : text[count]? = some '\n'
    · have notLone : ¬ LoneReturn text count := by simp [LoneReturn, isNewline]
      have breaks : BreaksAt text count := .inl isNewline
      simp [breaks, notLone, isNewline, isLe]
    · have noNewline : text[count]?.toList.count '\n' = 0 := by
        cases isChar : text[count]? with
        | none => rfl
        | some char => simpa [isChar, count_singleton] using isNewline
      by_cases isLone : LoneReturn text count
      · have breaks : BreaksAt text count := .inr isLone
        simp only [breaks, isLone, noNewline, if_pos, not_true, and_false, iff_false]
        omega
      · have notBreaks : ¬ BreaksAt text count := fun breaks => breaks.elim isNewline isLone
        simp [notBreaks, isLone, noNewline, isLe]

end Text

namespace Command

open Text

theorem line_of_real {span : Span} (real : span.Real text) :
    ∃ read rest, read ++ rest = text ∧ byteLength read = span.start ∧
      span.line = 1 + (breaksAmong text read.length).card := by
  obtain ⟨read, rest, rfl, isStart⟩ := exists_read real.start
  have inside : read.length ≤ (read ++ rest).length := by simp
  refine ⟨read, rest, rfl, isStart, ?_⟩
  rw [real.line, ← isStart, Cursor.reset]
  dsimp only [Cursor.atStart]
  rw [Cursor.wholeCharacters_append, ← breaksBefore_offset inside]
  exact (Cursor.place_advanceBy inside).1

theorem exists_outcome (reported : diagnostic ∈ (Program.parse text).value.analyze.diagnostics) :
    ∃ outcome, Compiler.compile settings text = .ok outcome ∧ diagnostic ∈ outcome.diagnostics := by
  have member := mem_append_right (Program.parse text).diagnostics reported
  rw [Compiler.compile, ← Parser.parse_eq_parseTokens]
  rw [if_neg (by simpa using ne_nil_of_mem member)]
  exact ⟨_, rfl, member⟩

theorem spans_real (compiled : Compiler.compile settings text = .ok outcome)
    (member : diagnostic ∈ outcome.diagnostics) : diagnostic.span.Real text.toList := by
  have isOutcome : outcome.diagnostics = (Program.parse text).diagnostics ++
      (Program.parse text).value.analyze.diagnostics := by
    rw [Compiler.compile, ← Parser.parse_eq_parseTokens] at compiled
    dsimp only at compiled
    split at compiled
    · cases lowered : Lowering.lower settings.options
        (Compiler.simplified settings (Program.parse text).value).value <;>
        rw [lowered] at compiled <;> cases compiled
      rfl
    · cases compiled
      rfl
  obtain ⟨program, diagnostics⟩ := Parser.run_program_real
    (Parser.Feed.ofCursor_real (@Cursor.Reached.atStart text.toList))
  rw [isOutcome, mem_append] at member
  exact member.elim (diagnostics diagnostic) (Program.analyze_placed program diagnostic)

/--
The line that a diagnostic of a text is shown with is the one that the start of its span falls in,
exactly if no carriage return without a newline after it stands in front of the span.
-/
theorem shown_line_iff {text : String} {outcome : Compiler.Outcome} {diagnostic : Diagnostic}
    (compiled : Compiler.compile settings text = .ok outcome)
    (member : diagnostic ∈ outcome.diagnostics)
    (isShown : lineOf (lines text.toList) diagnostic = some shown) :
    fallsIn diagnostic.span.start (linesEnded text.toList) = some (diagnostic.span.line - 1) ↔
      ∀ index, LoneReturn text.toList index →
        diagnostic.span.start ≤ offset text.toList index := by
  obtain ⟨read, rest, isText, isStart, isLine⟩ := line_of_real (spans_real compiled member)
  obtain ⟨isLe, isEq⟩ := @card_breaksAmong text.toList read.length
  have isRead : text.toList.take read.length = read := by rw [← isText, take_left]
  have inside : read.length ≤ text.toList.length := by simp [← isText]
  have noneBefore : (∀ index, LoneReturn text.toList index →
      diagnostic.span.start ≤ offset text.toList index) ↔
        ∀ index < read.length, ¬ LoneReturn text.toList index := by
    have isOffset : diagnostic.span.start = offset text.toList read.length := by
      rw [← isStart, offset, isRead]
    simp only [isOffset, offset_le_iff inside]
    exact forall_congr' fun index =>
      ⟨fun behind before isLone => (behind isLone).not_gt before,
        fun notLone isLone => Nat.le_of_not_gt fun before => notLone before isLone⟩
  have isKnown : diagnostic.span.line - 1 < (linesEnded text.toList).length := by
    rw [← length_map Prod.fst, (linesEnded_spec text.toList).1]
    exact (List.getElem?_eq_some_iff.mp isShown).1
  rw [isRead] at isLe isEq
  rw [noneBefore, ← isEq, ← isStart, fallsIn_byteLength isText]
  rw [isLine, Nat.add_sub_cancel_left] at isKnown ⊢
  constructor
  · intro falls
    split at falls
    · exact (Option.some.inj falls).symm
    · cases falls
  · intro same
    rw [← same, if_pos isKnown]

/-- Whether a diagnostic is shown with the line, and falls in the line with the number. -/
def shows (text line : List Char) (number : Nat) (diagnostic : Diagnostic) : Bool :=
  lineOf (lines text) diagnostic == some line &&
    fallsIn diagnostic.span.start (linesEnded text) == some number

def newlineText : String := "var x is 1\r\nvar y is b\n"

theorem newlineText_shown :
    (Program.parse newlineText).value.analyze.diagnostics.any
      (shows newlineText.toList ['v', 'a', 'r', ' ', 'y', ' ', 'i', 's', ' ', 'b'] 1) = true := by
  have isText : newlineText.toList = _ := String.toList_ofList
  rw [Program.parse_of_toList isText, isText]
  decide +kernel

theorem shown_line_iff_newlineText :
    ∃ outcome diagnostic, Compiler.compile .standard newlineText = .ok outcome ∧
      diagnostic ∈ outcome.diagnostics ∧
      (fallsIn diagnostic.span.start (linesEnded newlineText.toList) =
        some (diagnostic.span.line - 1) ↔
          ∀ index, LoneReturn newlineText.toList index →
            diagnostic.span.start ≤ offset newlineText.toList index) := by
  obtain ⟨diagnostic, reported, isShown⟩ := any_eq_true.mp newlineText_shown
  obtain ⟨outcome, compiled, member⟩ := exists_outcome reported
  simp only [shows, Bool.and_eq_true, beq_iff_eq] at isShown
  exact ⟨outcome, diagnostic, compiled, member, shown_line_iff compiled member isShown.1⟩

def returnText : String := "var x is 1\rvar y is b\nvar z is 1\n"

theorem returnText_shown :
    (Program.parse returnText).value.analyze.diagnostics.any
      (shows returnText.toList ['v', 'a', 'r', ' ', 'z', ' ', 'i', 's', ' ', '1'] 0) = true := by
  have isText : returnText.toList = _ := String.toList_ofList
  rw [Program.parse_of_toList isText, isText]
  decide +kernel

/-- What is shown is the second line, but the diagnostic is about the first one. -/
theorem shown_line_not_about_returnText :
    ∃ outcome diagnostic, Compiler.compile .standard returnText = .ok outcome ∧
      diagnostic ∈ outcome.diagnostics ∧
      lineOf (lines returnText.toList) diagnostic =
        some ['v', 'a', 'r', ' ', 'z', ' ', 'i', 's', ' ', '1'] ∧
      fallsIn diagnostic.span.start (linesEnded returnText.toList) = some 0 ∧
      (lines returnText.toList)[0]? ≠
        some ['v', 'a', 'r', ' ', 'z', ' ', 'i', 's', ' ', '1'] := by
  obtain ⟨diagnostic, reported, isShown⟩ := any_eq_true.mp returnText_shown
  obtain ⟨outcome, compiled, member⟩ := exists_outcome reported
  simp only [shows, Bool.and_eq_true, beq_iff_eq] at isShown
  have isText : returnText.toList = _ := String.toList_ofList
  refine ⟨outcome, diagnostic, compiled, member, isShown.1, isShown.2, ?_⟩
  rw [isText]
  decide

end Command

end Imperative
