import Imperative.Proofs.Parser.Equations
import Imperative.Proofs.Token.Lookahead
import Imperative.Proofs.Typing.TypeTable

/-!
# Positions are real

The spans of tokens are real, and every other span that a parser makes goes from the start of a
token to the end of another one.
-/

namespace Imperative

open List

open Text (byteLength dropBytes dropBytes_append)

variable {text : List Char} {span : Span} {offset : Nat}

/-- Whether the offset is between two characters of the text, or at one of its ends. -/
def Text.isBoundary (text : List Char) (offset : Nat) : Bool := (dropBytes offset text).isSome

/-- The span lies in the text on whole characters, and says where a reader finds its start. -/
structure Span.Real (text : List Char) (span : Span) : Prop where
  inside : span.stop ≤ byteLength text
  start : Text.isBoundary text span.start = true
  stop : Text.isBoundary text span.stop = true
  line : span.line = ((Cursor.atStart text).reset span.start).line
  column : span.column = ((Cursor.atStart text).reset span.start).column

theorem Text.exists_read (isBoundary : isBoundary text offset = true) :
    ∃ read rest, read ++ rest = text ∧ byteLength read = offset := by
  revert isBoundary
  unfold isBoundary
  fun_induction dropBytes offset text with
  | case1 => exact fun _ => ⟨[], [], rfl, rfl⟩
  | case3 char rest => exact fun _ => ⟨[], char :: rest, rfl, rfl⟩
  | case4 count char rest notZero fits ih =>
    intro isBoundary
    obtain ⟨read, unread, rfl, isOffset⟩ := ih isBoundary
    refine ⟨char :: read, unread, rfl, ?_⟩
    rw [byteLength]
    omega
  | case2 | case5 => simp

theorem Text.le_byteLength_of_isBoundary (isBoundary : isBoundary text offset = true) :
    offset ≤ byteLength text := by
  obtain ⟨read, rest, rfl, rfl⟩ := exists_read isBoundary
  rw [byteLength_append]
  exact Nat.le_add_right _ _

theorem Cursor.Reached.isBoundary {cur : Cursor} (reached : cur.Reached) :
    Text.isBoundary cur.text cur.position = true := by
  obtain ⟨read, isText, isPos, -⟩ := reached.exists_read
  rw [Text.isBoundary, isPos, isText, dropBytes_append, Option.isSome_some]

namespace Span.Real

theorem upTo (real : span.Real text) (ends : Text.isBoundary text offset = true) :
    (span.upTo offset).Real text := by
  have isStop : (span.upTo offset).stop = max span.start offset := by
    simp only [Span.upTo, Span.stop]
    omega
  have stop : Text.isBoundary text (span.upTo offset).stop = true := by
    rw [isStop]
    rcases Nat.le_total span.start offset with pre | post
    · rwa [Nat.max_eq_right pre]
    · rw [Nat.max_eq_left post]
      exact real.start
  exact ⟨Text.le_byteLength_of_isBoundary stop, real.start, stop, real.line, real.column⟩

theorem opening (real : span.Real text) : span.opening.Real text :=
  ⟨Text.le_byteLength_of_isBoundary real.start, real.start, real.start, real.line, real.column⟩

theorem cover (real : span.Real text) (otherReal : other.Real text) :
    (span.cover other).Real text := by
  have ends : Text.isBoundary text (max span.stop other.stop) = true := by
    rcases Nat.le_total span.stop other.stop with pre | post
    · rw [Nat.max_eq_right pre]
      exact otherReal.stop
    · rw [Nat.max_eq_left post]
      exact real.stop
  unfold Span.cover
  dsimp only
  split
  · exact otherReal.upTo ends
  · exact real.upTo ends

theorem spanTo {opening closing : Cursor} (opens : opening.Reached) (closes : closing.Reached)
    (sameText : closing.text = opening.text) : (opening.spanTo closing).Real opening.text := by
  have atOpening := opens.isBoundary
  have isReset : (Cursor.atStart opening.text).reset opening.position = opening :=
    opens.reset_position rfl
  -- The span ends at the later one of the two cursors.
  have empty : ({ opening.spanTo closing with length := 0 } : Span).Real opening.text :=
    ⟨Text.le_byteLength_of_isBoundary atOpening, atOpening, atOpening,
      congrArg Cursor.line isReset.symm, congrArg Cursor.column isReset.symm⟩
  exact empty.upTo (sameText ▸ closes.isBoundary)

end Span.Real

namespace Token

theorem scan_span :
    (scan cur).1.span = (cur.advanceBy (triviaLength cur.rest)).spanTo (pass cur) := by
  unfold pass scan
  dsimp only
  split
  · rfl
  · rw [Content.span_token]

theorem scan_real (reached : cur.Reached) : (scan cur).1.span.Real cur.text := by
  have real := Span.Real.spanTo (reached.advanceBy (triviaLength cur.rest))
    (pass_reached reached) (by rw [pass_text, Cursor.advanceBy_text])
  rwa [← scan_span, Cursor.advanceBy_text] at real

end Token

namespace Parser

/-- Every span of a feed is real. -/
structure Feed.Real (text : List Char) (feed : Feed) : Prop where
  tokens : ∀ token ∈ feed.tokens, token.span.Real text
  closing : feed.closing.Real text

theorem Feed.ofCursor_real (reached : cur.Reached) : (Feed.ofCursor cur).Real cur.text := by
  induction cur using Feed.ofCursor.induct with
  | case1 cur atEnd =>
    rw [Feed.ofCursor, if_pos atEnd]
    exact ⟨forall_mem_nil _, Token.scan_real reached⟩
  | case2 cur notAtEnd ih =>
    rw [Feed.ofCursor, if_neg notAtEnd]
    have others := ih (Token.pass_reached reached)
    rw [show (Token.scan cur).2.text = cur.text from Token.pass_text cur] at others
    exact ⟨forall_mem_cons.mpr ⟨Token.scan_real reached, others.tokens⟩, others.closing⟩

/-- Every span of a state is real; of the token that was consumed last, only its end matters. -/
structure State.Real (text : List Char) (st : State) : Prop where
  tokens : ∀ token ∈ st.rest, token.span.Real text
  closing : st.closing.Real text
  previous : Text.isBoundary text st.previous.stop = true
  diagnostics : ∀ diagnostic ∈ st.diagnostics, diagnostic.span.Real text

namespace State.Real

variable {st : State}

theorem current (real : st.Real text) : st.current.span.Real text := by
  unfold State.current
  cases remaining : st.rest with
  | nil => exact real.closing
  | cons first rest => exact real.tokens first (by simp [remaining])

theorem settle (real : st.Real text) : st.settle.Real text where
  tokens token isIn := real.tokens token ((dropWhile_sublist _).subset isIn)
  closing := real.closing
  previous := real.previous
  diagnostics := by
    refine forall_mem_append.mpr ⟨real.diagnostics, forall_mem_map.mpr ?_⟩
    exact fun token isIn => real.tokens token ((takeWhile_sublist _).subset isIn)

theorem advance (real : st.Real text) : st.advance.Real text :=
  settle
    { tokens := fun token isIn => real.tokens token (mem_of_mem_tail isIn)
      closing := real.closing
      previous := real.current.stop
      diagnostics := real.diagnostics }

theorem report (real : st.Real text) (placed : span.Real text) :
    (st.report span mistake).Real text :=
  { real with
    diagnostics := forall_mem_append.mpr ⟨real.diagnostics, forall_mem_singleton.mpr placed⟩ }

end State.Real

def realistic (text : List Char) : Bisimulation where
  related first second := first = second ∧ first.Real text
  place := Span.Real text
  current related := congrArg State.current related.1
  previous related := congrArg State.previous related.1
  left related := congrArg State.left related.1
  advance related _ := ⟨congrArg State.advance related.1, related.2.advance⟩
  report mistake related placed :=
    ⟨congrArg (State.report _ mistake) related.1, related.2.report placed⟩
  token related := related.2.current
  upTo related placed := placed.upTo related.2.previous
  upToCurrent related placed := placed.upTo related.2.current.stop
  opening := Span.Real.opening
  cover := Span.Real.cover

theorem run_program_real (real : feed.Real text) :
    (run program feed).value.outline.All (Span.Real text) ∧
      ∀ diagnostic ∈ (run program feed).diagnostics, diagnostic.span.Real text := by
  have states : (State.ofFeed feed).Real text :=
    State.Real.settle
      { tokens := real.tokens
        closing := real.closing
        previous := by cases text <;> rfl
        diagnostics := forall_mem_nil _ }
  obtain ⟨val, post, isRun, -, placed, -⟩ :=
    program_inStep (⟨_, _, rfl, states⟩ : (realistic text).Pair)
  simp only [run, isRun]
  exact ⟨placed, post.related.2.diagnostics⟩

end Parser

/--
Every span of a program that is read from a text, and of a diagnostic about it, is real, whether or
not the text is valid.
-/
theorem Program.positions_real (text : String) :
    (Program.parse text).value.outline.All (Span.Real text.toList) ∧
      (∀ diagnostic ∈ (Program.parse text).diagnostics, diagnostic.span.Real text.toList) ∧
      ∀ diagnostic ∈ (Program.parse text).value.analyze.diagnostics,
        diagnostic.span.Real text.toList := by
  obtain ⟨program, diagnostics⟩ := Parser.run_program_real
    (Parser.Feed.ofCursor_real Cursor.Reached.atStart)
  exact ⟨program, diagnostics, Program.analyze_placed program⟩

end Imperative
