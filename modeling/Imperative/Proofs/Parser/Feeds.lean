import Imperative.Proofs.Parser.Equations
import Imperative.Proofs.Token.Tiling

/-!
# Feeds that parsers do not tell apart

A parser stops at the first token for the end of a text, so nothing that comes after it matters.
-/

namespace Imperative.Parser

open Token (Kind)

def Feed.ending (feed : Feed) : Token :=
  (feed.tokens.find? (·.kind = .endOfFile)).getD (.bare .endOfFile feed.closing)

namespace State

def ending (st : State) : Token := Feed.ending { tokens := st.rest, closing := st.closing }

theorem current_eq (st : State) : st.current = st.tokens.head?.getD st.ending := by
  unfold current tokens ending Feed.ending
  cases st.rest with
  | nil => rfl
  | cons first rest => by_cases isEnd : first.kind = .endOfFile <;> simp [isEnd]

/-- The states differ at most in what comes after the end of the text. -/
structure Alike (first second : State) : Prop where
  tokens : first.tokens = second.tokens
  ending : first.ending = second.ending
  previous : first.previous = second.previous
  diagnostics : first.diagnostics = second.diagnostics

theorem takeWhile_tokens (st : State) :
    st.tokens.takeWhile (·.kind = .error) = st.rest.takeWhile (·.kind = Kind.error) := by
  unfold tokens
  induction st.rest with
  | nil => rfl
  | cons token rest ih =>
    by_cases isError : token.kind = .error
    · simpa [isError] using ih
    · by_cases isEnd : token.kind = .endOfFile <;> simp [isEnd, isError]

theorem find?_errors (tokens : List Token) :
    (tokens.dropWhile (·.kind = .error)).find? (·.kind = .endOfFile) =
      tokens.find? (·.kind = Kind.endOfFile) := by
  induction tokens with
  | nil => rfl
  | cons token rest ih =>
    by_cases isError : token.kind = .error
    · simp [isError, ih]
    · simp [isError]

theorem Alike.settle {first second : State} (alike : first.Alike second) :
    first.settle.Alike second.settle where
  tokens := by rw [tokens_settle, tokens_settle, alike.tokens]
  ending := by
    have same := alike.ending
    unfold State.ending Feed.ending State.settle at *
    rw [find?_errors, find?_errors]
    exact same
  previous := alike.previous
  diagnostics := by
    have sameErrors : first.rest.takeWhile (·.kind = Kind.error) =
        second.rest.takeWhile (·.kind = .error) := by
      rw [← takeWhile_tokens, alike.tokens, takeWhile_tokens]
    simp only [State.settle, alike.diagnostics, sameErrors]

theorem Alike.current {first second : State} (alike : first.Alike second) :
    first.current = second.current := by
  rw [current_eq, current_eq, alike.tokens, alike.ending]

theorem Alike.advance {first second : State} (alike : first.Alike second)
    (notAtEnd : first.current.kind ≠ .endOfFile) : first.advance.Alike second.advance := by
  have notAtEndOther : second.current.kind ≠ .endOfFile := alike.current ▸ notAtEnd
  refine Alike.settle ⟨?_, ?_, congrArg Token.span alike.current, alike.diagnostics⟩
  · have same := alike.tokens
    rw [tokens_of_current notAtEnd, tokens_of_current notAtEndOther] at same
    exact (List.cons.inj same).2
  · have same := alike.ending
    unfold State.ending Feed.ending at same ⊢
    rw [rest_of_current notAtEnd, rest_of_current notAtEndOther,
      List.find?_cons_of_neg (by simpa using notAtEnd),
      List.find?_cons_of_neg (by simpa using notAtEndOther)] at same
    exact same

end State

def alike : Bisimulation where
  related := State.Alike
  place _ := True
  current := State.Alike.current
  previous := State.Alike.previous
  left related := congrArg List.length related.tokens
  advance := State.Alike.advance
  report _ related _ := { related with diagnostics := congrArg (· ++ _) related.diagnostics }
  token _ := trivial
  upTo _ _ := trivial
  upToCurrent _ _ := trivial
  opening _ := trivial
  cover _ _ := trivial

theorem run_eq [Syntactic α] {parser : Parser α} {limit : alike.Pair → Nat}
    (inStep : ∀ pair, Bisimulation.InStep (limit pair) parser parser pair)
    (sameToks : feed.tokens.takeWhile (·.kind ≠ .endOfFile) =
      other.tokens.takeWhile (·.kind ≠ .endOfFile))
    (sameEnding : feed.ending = other.ending) : run parser feed = run parser other := by
  have states : (State.ofFeed feed).Alike (State.ofFeed other) :=
    State.Alike.settle ⟨sameToks, sameEnding, rfl, rfl⟩
  obtain ⟨val, post, isRun, isRunOther, -⟩ := inStep ⟨_, _, states⟩
  simp only [run, isRun, isRunOther, post.related.diagnostics]

theorem scan_end (atEnd : (Token.scan cur).1.kind = .endOfFile) :
    (Token.scan cur).1 = .bare .endOfFile (Token.scan cur).1.span := by
  revert atEnd
  unfold Token.scan
  dsimp only
  split
  · exact fun _ => rfl
  · intro atEnd
    rw [Token.Content.kind_token] at atEnd
    exact absurd atEnd (Token.Lexeme.recognize_kind _ _)

theorem tokensFrom_eq :
    Token.tokensFrom cur =
      (Feed.ofCursor cur).tokens ++ [.bare .endOfFile (Feed.ofCursor cur).closing] := by
  induction cur using Feed.ofCursor.induct with
  | case1 cur atEnd =>
    rw [Token.tokensFrom, Feed.ofCursor, if_pos atEnd, if_pos atEnd, ← scan_end atEnd]
    rfl
  | case2 cur notAtEnd ih =>
    rw [Token.tokensFrom, Feed.ofCursor, if_neg notAtEnd, if_neg notAtEnd, ih]
    rfl

theorem Feed.ofCursor_inside : ∀ tok ∈ (Feed.ofCursor cur).tokens, tok.kind ≠ .endOfFile := by
  induction cur using Feed.ofCursor.induct with
  | case1 cur atEnd =>
    rw [Feed.ofCursor, if_pos atEnd]
    exact List.forall_mem_nil _
  | case2 cur notAtEnd ih =>
    rw [Feed.ofCursor, if_neg notAtEnd]
    exact List.forall_mem_cons.mpr ⟨notAtEnd, ih⟩

section

variable {ending : Token} (isEnd : ending.kind = .endOfFile)

include isEnd

theorem takeWhile_before_end :
    (tokens ++ ending :: rest).takeWhile (·.kind ≠ .endOfFile) =
      tokens.takeWhile (·.kind ≠ .endOfFile) := by
  induction tokens with
  | nil => simp [isEnd]
  | cons token others ih =>
    by_cases atEnd : token.kind = .endOfFile
    · simp [atEnd]
    · simpa [atEnd] using ih

theorem Feed.ending_buffered {tokens rest : List Token} :
    (Feed.buffered (tokens ++ ending :: rest)).ending =
      (tokens.find? (·.kind = .endOfFile)).getD ending := by
  simp [Feed.ending, Feed.buffered, List.find?_append, isEnd]

omit isEnd in
theorem parse_eq_parseTokens (text : String) :
    Program.parse text = Program.parseTokens (Token.tokenize text) := by
  rw [Program.parse, Program.parseTokens, Token.tokenize, tokensFrom_eq, Feed.ofText]
  generalize Feed.ofCursor (.atStart text.toList) = feed
  apply run_eq program_inStep
  · exact (takeWhile_before_end rfl).symm
  · exact (Feed.ending_buffered rfl).symm

omit isEnd in
/-- For expressions it makes no difference whether the feed of a list keeps the end of the text. -/
theorem run_standaloneExpression_buffered (inside : ∀ token ∈ tokens, token.kind ≠ .endOfFile)
    (closing : Span) :
    run standaloneExpression (.buffered (tokens ++ [.bare .endOfFile closing])) =
      run standaloneExpression (.ofTokens (tokens ++ [.bare .endOfFile closing])) := by
  rw [Feed.ofTokens_append_end inside]
  apply run_eq standaloneExpression_inStep
  · exact takeWhile_before_end rfl
  · exact Feed.ending_buffered rfl

omit isEnd in
/-- A text is read as an expression as the list of its tokens is. -/
theorem expression_parse_eq (text : String) :
    Expr.parse text = run standaloneExpression (.ofTokens (Token.tokenize text)) := by
  rw [Token.tokenize, tokensFrom_eq, Feed.ofTokens_append_end Feed.ofCursor_inside]
  rfl

/--
A text is parsed as the list of its tokens is, and nothing that comes after a token for the end of
a text is parsed.
-/
theorem feeds_agree (text : String) (tokens rest : List Token) :
    Program.parse text = Program.parseTokens (Token.tokenize text) ∧
      Program.parseTokens (tokens ++ [ending] ++ rest) =
        Program.parseTokens (tokens ++ [ending]) := by
  refine ⟨parse_eq_parseTokens text, ?_⟩
  rw [List.append_assoc, List.singleton_append]
  apply run_eq program_inStep
  · exact (takeWhile_before_end isEnd).trans (takeWhile_before_end isEnd).symm
  · rw [Feed.ending_buffered isEnd, Feed.ending_buffered isEnd]

end

/-- Tokens after the end of a text, one of them an error, make no difference to an empty program. -/
theorem feeds_agree_after_end :
    (Token.bare .endOfFile default).kind = .endOfFile ∧
      Program.parse "var x : integer" = Program.parseTokens (Token.tokenize "var x : integer") ∧
      Program.parseTokens ([.bare .newLine default] ++ [.bare .endOfFile default] ++
          [.bare .error default, .bare (.keyword .varWord) default]) =
        Program.parseTokens ([.bare .newLine default] ++ [.bare .endOfFile default]) :=
  ⟨rfl, feeds_agree rfl "var x : integer" _ _⟩

end Imperative.Parser
