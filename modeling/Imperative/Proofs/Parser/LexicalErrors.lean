import Imperative.Compiler.Compilation
import Imperative.Proofs.Lowering.Success
import Imperative.Proofs.Parser.Feeds
import Imperative.Proofs.Typing.TypeTable

/-!
# Reports of lexical errors

The lexical diagnostics so far, followed by those of the errors that are left, stay the same all
the time, and at the end of a text no error is left.
-/

namespace Imperative.Parser

open Token (Kind)

/-- The diagnostic for an error token. -/
def lexicalDiagnostic (token : Token) : Diagnostic :=
  { stage := .lexical, span := token.span, message := token.text.getD "" }

/-- The diagnostics for the errors among the tokens. -/
def lexicalDiagnostics (tokens : List Token) : List Diagnostic :=
  (tokens.filter (·.kind = .error)).map lexicalDiagnostic

theorem lexicalDiagnostics_errors :
    (tokens.takeWhile (·.kind = .error)).map lexicalDiagnostic ++
      lexicalDiagnostics (tokens.dropWhile (·.kind = .error)) = lexicalDiagnostics tokens := by
  induction tokens with
  | nil => rfl
  | cons token rest ih =>
    by_cases isError : token.kind = .error
    · simpa [lexicalDiagnostics, isError] using ih
    · simp [lexicalDiagnostics, isError]

namespace State

variable {st : State}

/-- The lexical diagnostics so far and those of the errors that are left. -/
def lexical (st : State) : List Diagnostic :=
  st.diagnostics.filter (·.stage = .lexical) ++ lexicalDiagnostics st.tokens

theorem lexical_settle : st.settle.lexical = st.lexical := by
  have found : st.settle.diagnostics =
      st.diagnostics ++ (st.tokens.takeWhile (·.kind = .error)).map lexicalDiagnostic := by
    rw [takeWhile_tokens]
    rfl
  have allLexical : ((st.tokens.takeWhile (·.kind = .error)).map lexicalDiagnostic).filter
      (·.stage = .lexical) = (st.tokens.takeWhile (·.kind = .error)).map lexicalDiagnostic := by
    rw [List.filter_eq_self, List.forall_mem_map]
    exact fun _ _ => rfl
  rw [lexical, lexical, found, tokens_settle, List.filter_append, allLexical, List.append_assoc,
    lexicalDiagnostics_errors]

theorem settle_current : st.settle.current.kind ≠ .error := by
  have first := st.rest.head?_dropWhile_not (·.kind = .error)
  rw [current, show st.settle.rest = st.rest.dropWhile (·.kind = .error) from rfl]
  cases isFirst : (st.rest.dropWhile (·.kind = .error)).head? with
  | none =>
    intro isError
    cases isError
  | some token =>
    rw [isFirst] at first
    exact of_decide_eq_false first

theorem lexical_advance (settled : st.current.kind ≠ .error)
    (notAtEnd : st.current.kind ≠ .endOfFile) : st.advance.lexical = st.lexical := by
  rw [advance, lexical_settle, lexical, lexical, tokens_of_current notAtEnd]
  simp [lexicalDiagnostics, settled, tokens]

theorem lexical_report : (st.report span mistake).lexical = st.lexical := by
  simp [lexical, report, tokens]

end State

def reporting (total : List Diagnostic) : Bisimulation :=
  .ofInvariant (fun st => st.current.kind ≠ .error ∧ st.lexical = total)
    (fun _ invariant notAtEnd =>
      ⟨State.settle_current, (State.lexical_advance invariant.1 notAtEnd).trans invariant.2⟩)
    fun _ _ _ invariant => ⟨invariant.1, State.lexical_report.trans invariant.2⟩

theorem run_program_lexical (feed : Feed) :
    (run program feed).diagnostics.filter (·.stage = .lexical) =
      lexicalDiagnostics (feed.tokens.takeWhile (·.kind ≠ .endOfFile)) := by
  have start : (State.ofFeed feed).lexical =
      lexicalDiagnostics (feed.tokens.takeWhile (·.kind ≠ .endOfFile)) := State.lexical_settle
  obtain ⟨val, post, isRun, -, -, bound⟩ := program_inStep
    (⟨State.ofFeed feed, _, rfl, State.settle_current, start⟩ : (reporting _).Pair)
  have drained : post.first.tokens = [] := List.eq_nil_of_length_eq_zero (Nat.le_zero.mp bound)
  have total := post.related.2.2
  rw [State.lexical, drained] at total
  rw [run, isRun]
  exact (List.append_nil _).symm.trans total

theorem analyze_semantic (program : Program) :
    ∀ diagnostic ∈ program.analyze.diagnostics, diagnostic.stage = .semantic := by
  have records := Typing.checkProgram_records
    (Outline.all_of_forall (fun _ => trivial) program.outline)
  obtain ⟨-, -, reported, isReported, -, stages⟩ := records.blind .initial .initial .refl
  rw [Program.analyze, isReported]
  exact stages

theorem takeWhile_ofText :
    (Feed.ofText text).tokens.takeWhile (·.kind ≠ .endOfFile) = (Feed.ofText text).tokens := by
  rw [List.takeWhile_eq_self_iff]
  exact fun token mem => decide_eq_true (Feed.ofCursor_inside token mem)

theorem takeWhile_tokenize :
    (Token.tokenize text).takeWhile (·.kind ≠ .endOfFile) = (Feed.ofText text).tokens := by
  rw [Token.tokenize, tokensFrom_eq, takeWhile_before_end rfl]
  exact takeWhile_ofText

theorem lexicalDiagnostics_tokenize :
    lexicalDiagnostics (Token.tokenize text) = lexicalDiagnostics (Feed.ofText text).tokens := by
  rw [Token.tokenize, tokensFrom_eq]
  simp [lexicalDiagnostics, Token.bare, Feed.ofText]

def compileDiagnostics (text : String) : List Diagnostic :=
  let parsed := Program.parseTokens (Token.tokenize text)
  parsed.diagnostics ++ parsed.value.analyze.diagnostics

theorem compile_lexicalErrors
    (isOk : Compiler.compile settings text = .ok outcome) :
    outcome.statistics.lexicalErrors = Diagnostic.count .lexical (compileDiagnostics text) := by
  rw [Compiler.compile] at isOk
  split at isOk
  · obtain ⟨module, -, isOutcome⟩ := Lowering.except_bind_ok.mp isOk
    cases isOutcome
    rfl
  · cases isOk
    rfl

theorem compile_of_diagnostics (reported : compileDiagnostics text ≠ []) :
    ∃ outcome, Compiler.compile settings text = .ok outcome := by
  rw [Compiler.compile, if_neg]
  · exact ⟨_, rfl⟩
  · rw [List.isEmpty_iff]
    exact reported

theorem count_compileDiagnostics :
    Diagnostic.count .lexical (compileDiagnostics text) =
      (Token.tokenize text).countP (·.kind = .error) := by
  have noneSemantic : (Program.parseTokens (Token.tokenize text)).value.analyze.diagnostics.filter
      (·.stage = .lexical) = [] := by
    rw [List.filter_eq_nil_iff]
    intro diagnostic mem
    simp [analyze_semantic _ diagnostic mem]
  have ofTokens := run_program_lexical (Feed.buffered (Token.tokenize text))
  rw [Feed.buffered, takeWhile_tokenize, ← lexicalDiagnostics_tokenize] at ofTokens
  rw [Diagnostic.count, List.countP_eq_length_filter, compileDiagnostics, List.filter_append,
    noneSemantic, List.append_nil]
  refine (congrArg List.length ofTokens).trans ?_
  rw [lexicalDiagnostics, List.length_map, List.countP_eq_length_filter]

/--
Every lexical error is reported exactly once, with its span and text, and in order.  So their number
is the one that a compilation gives, which never fails where there are any.
-/
theorem lexical_errors_reported (settings : Compiler.Settings) (text : String)
    (tokens : List Token) :
    (Program.parse text).diagnostics.filter (·.stage = .lexical) =
        lexicalDiagnostics (Token.tokenize text) ∧
      (Program.parseTokens tokens).diagnostics.filter (·.stage = .lexical) =
        lexicalDiagnostics (tokens.takeWhile (·.kind ≠ .endOfFile)) ∧
      (∀ outcome, Compiler.compile settings text = .ok outcome →
        outcome.statistics.lexicalErrors = (Token.tokenize text).countP (·.kind = .error)) ∧
      (0 < (Token.tokenize text).countP (·.kind = .error) →
        ∃ outcome, Compiler.compile settings text = .ok outcome) := by
  refine ⟨?_, run_program_lexical (Feed.buffered tokens), fun outcome isOk => ?_, fun errors => ?_⟩
  · have ofText := run_program_lexical (Feed.ofText text)
    rw [takeWhile_ofText, ← lexicalDiagnostics_tokenize] at ofText
    exact ofText
  · rw [compile_lexicalErrors isOk, count_compileDiagnostics]
  · apply compile_of_diagnostics
    intro noneReported
    rw [← count_compileDiagnostics, noneReported] at errors
    exact absurd errors (Nat.lt_irrefl 0)

end Imperative.Parser
