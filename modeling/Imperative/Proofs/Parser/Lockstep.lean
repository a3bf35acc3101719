import Imperative.Proofs.Grammar.Runs
import Imperative.Proofs.Syntax.Outline

/-!
# Parsers in step

Two parsers that are in step do the same from related states.  What states are related, and what is
known of the spans that are made from them, is up to a `Bisimulation`.
-/

namespace Imperative.Parser

open Token (Kind)

variable {α β : Type}

namespace State

variable {st : State}

/-- The tokens up to the end of the text. -/
def tokens (st : State) : List Token := st.rest.takeWhile fun token => token.kind ≠ .endOfFile

/-- How many tokens are left. -/
def left (st : State) : Nat := st.tokens.length

theorem takeWhile_dropWhile (kept : ∀ item, drops item = true → keeps item = true)
    (items : List α) :
    (items.dropWhile drops).takeWhile keeps = (items.takeWhile keeps).dropWhile drops := by
  induction items with
  | nil => rfl
  | cons item rest ih =>
    by_cases isDropped : drops item = true
    · simp [isDropped, kept item isDropped, ih]
    · by_cases isKept : keeps item = true <;> simp [isDropped, isKept]

theorem tokens_of_current (notAtEnd : st.current.kind ≠ .endOfFile) :
    st.tokens = st.current :: st.rest.tail.takeWhile fun token => token.kind ≠ .endOfFile := by
  unfold tokens
  cases remaining : st.rest with
  | nil => exact absurd (by simp [current, remaining, Token.bare]) notAtEnd
  | cons first rest =>
    have isFirst : st.current = first := by simp [current, remaining]
    rw [isFirst] at notAtEnd ⊢
    simp [notAtEnd]

theorem tokens_of_end (atEnd : st.current.kind = .endOfFile) : st.tokens = [] := by
  unfold tokens
  cases remaining : st.rest with
  | nil => rfl
  | cons first rest =>
    have isFirst : st.current = first := by simp [current, remaining]
    simp [← isFirst, atEnd]

theorem tokens_settle :
    st.settle.tokens = st.tokens.dropWhile fun token => token.kind = .error := by
  apply takeWhile_dropWhile
  intro token isError
  simp only [decide_eq_true_eq] at isError ⊢
  simp [isError]

theorem left_advance (notAtEnd : st.current.kind ≠ .endOfFile) : st.advance.left < st.left := by
  rw [left, left, advance, tokens_settle, tokens_of_current notAtEnd, List.length_cons]
  exact Nat.lt_succ_of_le (List.dropWhile_sublist _).length_le

theorem left_le_length (st : State) : st.left ≤ st.rest.length :=
  (List.takeWhile_sublist _).length_le

theorem advanceWhile_stops (stops : skipped st.current.kind = false) :
    st.advanceWhile skipped count = st := by
  cases count with
  | zero => rfl
  | succ count => rw [advanceWhile, stops, if_neg Bool.false_ne_true]

end State

/--
States from which parsers do the same, as long as they consume no end of a text, and a property of
the spans that are made from such states.
-/
structure Bisimulation where
  related : State → State → Prop
  place : Span → Prop
  current {first second : State} : related first second → first.current = second.current
  previous {first second : State} : related first second → first.previous = second.previous
  left {first second : State} : related first second → first.left = second.left
  advance {first second : State} : related first second → first.current.kind ≠ .endOfFile →
    related first.advance second.advance
  report {first second : State} {span : Span} (mistake : Mistake) : related first second →
    place span → related (first.report span mistake) (second.report span mistake)
  token {first second : State} : related first second → place first.current.span
  upTo {first second : State} {span : Span} : related first second → place span →
    place (span.upTo first.previous.stop)
  upToCurrent {first second : State} {span : Span} : related first second → place span →
    place (span.upTo first.current.span.stop)
  opening {span : Span} : place span → place span.opening
  cover {span other : Span} : place span → place other → place (span.cover other)

namespace Bisimulation

variable (sim : Bisimulation)

/-- Two related states. -/
structure Pair where
  first : State
  second : State
  related : sim.related first second

abbrev Placed [Syntactic α] (val : α) : Prop := Syntactic.Placed sim.place val

variable {sim}

namespace Pair

variable (pair : sim.Pair)

abbrev current : Token := pair.first.current

/-- How many tokens are left, on both sides. -/
abbrev left : Nat := pair.first.left

theorem token : sim.place pair.current.span := sim.token pair.related

theorem upTo (placed : sim.place span) :
    sim.place (span.upTo pair.first.previous.stop) := sim.upTo pair.related placed

theorem left_pos (isKind : pair.current.kind = kind) (notEnd : kind ≠ .endOfFile := by decide) :
    0 < pair.left := Nat.zero_lt_of_lt (State.left_advance (isKind ▸ notEnd))

end Pair

/--
Two parsers return the same syntax from a pair of states, and lead to another pair with no more
tokens left than the limit.
-/
def InStep [Syntactic α] (limit : Nat) (parser other : Parser α) (pair : sim.Pair) : Prop :=
  ∃ (val : α) (post : sim.Pair), parser pair.first = (val, post.first) ∧
    other pair.second = (val, post.second) ∧ sim.Placed val ∧ post.left ≤ limit

namespace InStep

variable [Syntactic α] [Syntactic β] {pair post : sim.Pair}
  {other : Parser α}

theorem mono (step : InStep mid parser other pair) (bound : mid ≤ limit) :
    InStep limit parser other pair := by
  obtain ⟨val, post, run, runOther, placed, left⟩ := step
  exact ⟨val, post, run, runOther, placed, Nat.le_trans left bound⟩

theorem of_eq (step : InStep limit rest restOther post) (run : parser pair.first = rest post.first)
    (runOther : other pair.second = restOther post.second) : InStep limit parser other pair := by
  rw [InStep, run, runOther]
  exact step

theorem pure {val : α} (placed : sim.Placed val) (bound : pair.left ≤ limit) :
    InStep limit (Pure.pure val) (Pure.pure val) pair := ⟨val, pair, rfl, rfl, placed, bound⟩

theorem map {transform : α → β} (step : InStep limit parser other pair)
    (placed : ∀ val, sim.Placed val → sim.Placed (transform val)) :
    InStep limit (transform <$> parser) (transform <$> other) pair := by
  obtain ⟨val, post, run, runOther, isPlaced, left⟩ := step
  exact ⟨transform val, post, map_eq run, map_eq runOther, placed val isPlaced, left⟩

theorem some (step : InStep limit parser other pair) :
    InStep limit (some <$> parser) (some <$> other) pair := step.map fun _ placed => placed

theorem bind {next nextOther : α → Parser β} (step : InStep mid parser other pair)
    (rest : ∀ val (post : sim.Pair), sim.Placed val → post.left ≤ mid →
      InStep limit (next val) (nextOther val) post) :
    InStep limit (parser >>= next) (other >>= nextOther) pair := by
  obtain ⟨val, post, run, runOther, placed, left⟩ := step
  exact (rest val post placed left).of_eq (bind_eq run) (bind_eq runOther)

theorem ite {cond : Prop} [Decidable cond] (ifTrue : cond → InStep limit parser other pair)
    (ifFalse : ¬cond → InStep limit alternative alternativeOther pair) :
    InStep limit (if cond then parser else alternative) (if cond then other else alternativeOther)
      pair := by
  by_cases holds : cond
  · rw [if_pos holds, if_pos holds]
    exact ifTrue holds
  · rw [if_neg holds, if_neg holds]
    exact ifFalse holds

section

variable {next : Unit → Parser β}

theorem current {next nextOther : Token → Parser β}
    (rest : InStep limit (next pair.current) (nextOther pair.current) pair) :
    InStep limit (Parser.current >>= next) (Parser.current >>= nextOther) pair :=
  rest.of_eq current_bind (by rw [current_bind, Pair.current, sim.current pair.related])

theorem spanFrom {opening : Span} {next nextOther : Span → Parser β}
    (rest : InStep limit (next (opening.upTo pair.first.previous.stop))
      (nextOther (opening.upTo pair.first.previous.stop)) pair) :
    InStep limit (Parser.spanFrom opening >>= next) (Parser.spanFrom opening >>= nextOther) pair :=
  rest.of_eq spanFrom_bind (by rw [spanFrom_bind, sim.previous pair.related])

theorem check {next nextOther : Bool → Parser β}
    (ifFound : pair.current.kind = kind → InStep limit (next true) (nextOther true) pair)
    (ifNot : pair.current.kind ≠ kind → InStep limit (next false) (nextOther false) pair) :
    InStep limit (Parser.check kind >>= next) (Parser.check kind >>= nextOther) pair := by
  rw [Parser.check, bind_assoc, bind_assoc]
  refine .current ?_
  by_cases found : pair.current.kind = kind
  · rw [decide_eq_true found]
    exact ifFound found
  · rw [decide_eq_false found]
    exact ifNot found

theorem advance (isKind : pair.current.kind = kind)
    (rest : ∀ post : sim.Pair, post.left < pair.left →
      InStep limit (next ()) (nextOther ()) post) (notEnd : kind ≠ .endOfFile := by decide) :
    InStep limit (Parser.advance >>= next) (Parser.advance >>= nextOther) pair := by
  have notAtEnd : pair.current.kind ≠ .endOfFile := isKind ▸ notEnd
  exact (rest ⟨_, _, sim.advance pair.related notAtEnd⟩ (State.left_advance notAtEnd)).of_eq rfl rfl

theorem accept {next nextOther : Bool → Parser β}
    (ifFound : ∀ post : sim.Pair, post.left < pair.left →
      InStep limit (next true) (nextOther true) post)
    (ifNot : InStep limit (next false) (nextOther false) pair)
    (notEnd : kind ≠ .endOfFile := by decide) :
    InStep limit (Parser.accept kind >>= next) (Parser.accept kind >>= nextOther) pair := by
  rw [Parser.accept, bind_assoc, bind_assoc]
  refine .check (fun found => ?_) fun _ => ifNot.of_eq rfl rfl
  rw [if_pos rfl, bind_assoc, bind_assoc]
  exact .advance found (fun post fewer => (ifFound post fewer).of_eq rfl rfl) notEnd

theorem reportAt (placed : sim.place span)
    (rest : ∀ post : sim.Pair, post.current = pair.current → post.left = pair.left →
      InStep limit (next ()) (nextOther ()) post) :
    InStep limit (Parser.reportAt span mistake >>= next)
      (Parser.reportAt span mistake >>= nextOther) pair :=
  (rest ⟨_, _, sim.report mistake pair.related placed⟩ rfl rfl).of_eq rfl rfl

theorem report
    (rest : ∀ post : sim.Pair, post.current = pair.current → post.left = pair.left →
      InStep limit (next ()) (nextOther ()) post) :
    InStep limit (Parser.report mistake >>= next) (Parser.report mistake >>= nextOther) pair := by
  rw [Parser.report, bind_assoc, bind_assoc]
  exact .current (.reportAt pair.token rest)

theorem demand {next nextOther : Option String → Parser β}
    (rest : ∀ text (post : sim.Pair), post.left ≤ pair.left →
      (pair.current.kind = kind → post.left < pair.left) →
      InStep limit (next text) (nextOther text) post) (notEnd : kind ≠ .endOfFile := by decide) :
    InStep limit (Parser.demand kind wanted >>= next) (Parser.demand kind wanted >>= nextOther)
      pair := by
  rw [Parser.demand, bind_assoc, bind_assoc]
  refine .current ?_
  split
  · next found =>
    rw [bind_assoc, bind_assoc]
    exact .advance found (fun post fewer =>
      (rest _ post (Nat.le_of_lt fewer) fun _ => fewer).of_eq rfl rfl) notEnd
  · next found =>
    rw [bind_assoc, bind_assoc]
    exact .report fun post _ sameLeft =>
      (rest _ post (Nat.le_of_eq sameLeft) fun isKind => absurd isKind found).of_eq rfl rfl

theorem expect
    (rest : ∀ post : sim.Pair, post.left ≤ pair.left →
      (pair.current.kind = kind → post.left < pair.left) →
      InStep limit (next ()) (nextOther ()) post) (notEnd : kind ≠ .endOfFile := by decide) :
    InStep limit (Parser.expect kind >>= next) (Parser.expect kind >>= nextOther) pair :=
  .demand (fun _ => rest) notEnd

theorem expectName {next nextOther : String → Parser β}
    (rest : ∀ name (post : sim.Pair), post.left ≤ pair.left →
      InStep limit (next name) (nextOther name) post) :
    InStep limit (Parser.expectName thing >>= next) (Parser.expectName thing >>= nextOther)
      pair := by
  rw [Parser.expectName, bind_assoc, bind_assoc]
  exact .demand fun text post bound _ => rest _ post bound

end

variable {next : Unit → Parser β}

omit [Syntactic β] in
theorem advanceWhile (stops : skipped .endOfFile = false) (related : sim.related first second)
    (enough : first.left ≤ count) (enoughOther : first.left ≤ countOther) :
    sim.related (first.advanceWhile skipped count) (second.advanceWhile skipped countOther) ∧
      (first.advanceWhile skipped count).left ≤ first.left ∧
      (skipped first.current.kind = true →
        (first.advanceWhile skipped count).left < first.left) := by
  have same := sim.current related
  cases skips : skipped first.current.kind with
  | false =>
    rw [State.advanceWhile_stops skips, State.advanceWhile_stops (same ▸ skips)]
    exact ⟨related, Nat.le_refl _, fun isSkipped => absurd isSkipped Bool.false_ne_true⟩
  | true =>
    have notAtEnd : first.current.kind ≠ .endOfFile := by
      intro atEnd
      rw [atEnd, stops] at skips
      cases skips
    have fewer := State.left_advance notAtEnd
    obtain ⟨count, rfl⟩ : ∃ less, count = less + 1 := ⟨count - 1, by omega⟩
    obtain ⟨countOther, rfl⟩ : ∃ less, countOther = less + 1 := ⟨countOther - 1, by omega⟩
    rw [State.advanceWhile, State.advanceWhile, if_pos skips, if_pos (same ▸ skips)]
    obtain ⟨states, bound, -⟩ := advanceWhile stops (sim.advance related notAtEnd)
      (show _ ≤ count by omega) (show _ ≤ countOther by omega)
    exact ⟨states, by omega, fun _ => by omega⟩
termination_by first.left

theorem skipWhile (stops : skipped .endOfFile = false)
    (rest : ∀ post : sim.Pair, post.left ≤ pair.left →
      (skipped pair.current.kind = true → post.left < pair.left) →
      (skipped pair.current.kind = false → post.current = pair.current) →
      InStep limit (next ()) (nextOther ()) post) :
    InStep limit (Parser.skipWhile skipped >>= next) (Parser.skipWhile skipped >>= nextOther)
      pair := by
  have enoughOther := pair.second.left_le_length
  rw [← sim.left pair.related] at enoughOther
  obtain ⟨states, bound, strict⟩ :=
    advanceWhile stops pair.related pair.first.left_le_length enoughOther
  exact (rest ⟨_, _, states⟩ bound strict fun skips =>
    congrArg State.current (State.advanceWhile_stops skips)).of_eq rfl rfl

theorem skipSeparators
    (rest : ∀ post : sim.Pair, post.left ≤ pair.left → InStep limit (next ()) (nextOther ()) post) :
    InStep limit (Parser.skipSeparators >>= next) (Parser.skipSeparators >>= nextOther) pair :=
  .skipWhile rfl fun post bound _ _ => rest post bound

theorem recover
    (rest : ∀ post : sim.Pair, post.left ≤ pair.left →
      (stops pair.current.kind = false → pair.current.kind ≠ .endOfFile → post.left < pair.left) →
      InStep limit (next ()) (nextOther ()) post) :
    InStep limit (Parser.recover stops >>= next) (Parser.recover stops >>= nextOther) pair := by
  rw [Parser.recover, bind_assoc, bind_assoc]
  refine .skipWhile (by simp) fun post bound strict same => ?_
  refine .skipWhile rfl fun last boundLast strictLast _ => ?_
  refine rest last (by omega) fun goesOn notAtEnd => ?_
  cases separates : pair.current.kind.isSeparator with
  | false => exact Nat.lt_of_le_of_lt boundLast (strict (by simp [separates, goesOn, notAtEnd]))
  | true =>
    have fewer := strictLast (by rw [same (by simp [separates]), separates])
    omega

end InStep

end Bisimulation

end Imperative.Parser
