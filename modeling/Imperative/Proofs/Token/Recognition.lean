import Imperative.Proofs.Token.Lookahead

/-!
# Lexemes on their own

What a lexeme is can be told from its own characters; those after it only decide where it ends.
-/

namespace Imperative.Token

open List

open Text (byteLength)

variable {text : List Char} {count : Nat} {cur : Cursor} {lexeme : Lexeme}

theorem takeWhile_take : (text.take count).takeWhile holds = (text.takeWhile holds).take count := by
  induction text generalizing count with
  | nil => simp
  | cons char rest ih =>
    cases count with
    | zero => rfl
    | succ count => cases isHeld : holds char <;> simp [isHeld, ih]

theorem dropWhile_take :
    (text.take count).dropWhile holds =
      (text.dropWhile holds).take (count - (text.takeWhile holds).length) := by
  induction text generalizing count with
  | nil => simp
  | cons char rest ih =>
    cases count with
    | zero => simp
    | succ count => cases isHeld : holds char <;> simp [isHeld, ih]

theorem head?_take_pos (positive : 0 < count) : (text.take count).head? = text.head? := by
  rw [head?_take, if_neg (Nat.pos_iff_ne_zero.mp positive)]

theorem tail_take : (text.take count).tail = text.tail.take (count - 1) := by
  rw [← drop_one, drop_take, drop_one]

theorem signPart_take (positive : 0 < count) : signPart (text.take count) = signPart text := by
  cases text with
  | nil => rw [take_nil]
  | cons char rest =>
    obtain ⟨count, rfl⟩ := Nat.exists_eq_add_of_lt positive
    simp [signPart]

theorem groupsLength_take :
    groupsLength inside (text.take (groupsLength inside text)) = groupsLength inside text := by
  induction text generalizing inside with
  | nil => rfl
  | cons char rest ih =>
    rw [groupsLength]
    split
    · next goesOn =>
      rw [take_succ_cons, groupsLength, ih, if_pos]
      rcases Bool.or_eq_true _ _ ▸ goesOn with isInside | starts
      · rw [isInside, Bool.true_or]
      · cases rest with
        | nil => cases starts
        | cons digit rest =>
          have isDigit : digit.isDigit = true := by
            simp only [startsFraction, Bool.and_eq_true] at starts
            exact starts.2
          simp only [groupsLength, isDigit, Bool.true_and, Bool.true_or, if_true, take_succ_cons]
          exact goesOn
    · rfl

/-- An exponent is read from itself and the further groups that follow it. -/
theorem exponentPart_take (text : List Char) :
    exponentPart (text.take ((exponentPart text).length +
      groupsLength false (text.drop (exponentPart text).length))) = exponentPart text := by
  cases text with
  | nil => rfl
  | cons mark rest =>
    generalize isPart : exponentPart (mark :: rest) = part
    rw [exponentPart] at isPart
    split at isPart
    · next isMark =>
      dsimp only at isPart
      split at isPart
      · have noGroups : groupsLength false (mark :: rest) = 0 := by
          rcases isMark with rfl | rfl <;> cases rest <;> rfl
        subst isPart
        rw [length_nil, drop_zero, noGroups]
        rfl
      · next notEmpty =>
        subst isPart
        rw [cons_append, length_cons, Nat.add_right_comm, take_succ_cons, length_append,
          exponentPart, if_pos isMark]
        have positive : 0 < ((rest.drop (signPart rest).length).takeWhile Char.isDigit).length :=
          length_pos_iff.mpr (by simpa using notEmpty)
        dsimp only
        rw [signPart_take (by omega), drop_take, takeWhile_take, take_of_length_le (by omega),
          if_neg notEmpty]
        rfl
    · next notMark =>
      subst isPart
      rw [length_nil, Nat.zero_add, drop_zero]
      cases groupsLength false (mark :: rest) with
      | zero => rfl
      | succ count => rw [take_succ_cons, exponentPart, if_neg notMark]

theorem startsFraction_take (starts : startsFraction text = true)
    (enough : (text.tail.takeWhile Char.isDigit).length < count) :
    startsFraction (text.take count) = true := by
  rcases text with _ | ⟨point, _ | ⟨digit, rest⟩⟩
  · cases starts
  · cases starts
  · have isDigit : digit.isDigit = true := (Bool.and_eq_true_iff.mp starts).2
    rw [tail_cons, takeWhile_cons_of_pos isDigit, length_cons] at enough
    obtain ⟨more, rfl⟩ : ∃ more, count = more + 2 := ⟨count - 2, by omega⟩
    exact starts

theorem recognizeNumber_take :
    recognizeNumber digit (rest.take ((recognizeNumber digit rest).length - 1)) =
      recognizeNumber digit rest := by
  generalize isNumber : recognizeNumber digit rest = lexeme
  rw [recognizeNumber] at isNumber ⊢
  split at isNumber
  · next starts =>
    subst isNumber
    dsimp only
    have isExponent := exponentPart_take ((rest.dropWhile Char.isDigit).tail.dropWhile Char.isDigit)
    rw [takeWhile_take, dropWhile_take,
      take_of_length_le (l := rest.takeWhile Char.isDigit) (by omega)]
    generalize rest.takeWhile Char.isDigit = whole at *
    generalize rest.dropWhile Char.isDigit = after at *
    rw [if_pos (startsFraction_take starts (by omega)), tail_take, takeWhile_take, dropWhile_take,
      take_of_length_le (l := after.tail.takeWhile Char.isDigit) (by omega)]
    generalize after.tail.takeWhile Char.isDigit = fraction
    generalize after.tail.dropWhile Char.isDigit = final at *
    generalize isLeft : _ - fraction.length = left
    obtain rfl : left = (exponentPart final).length +
        groupsLength false (final.drop (exponentPart final).length) := by omega
    rw [isExponent, drop_take, Nat.add_sub_cancel_left, groupsLength_take]
  · next notReal =>
    subst isNumber
    rw [Nat.add_sub_cancel, takeWhile_take, dropWhile_take, Nat.sub_self, take_length]
    rfl

theorem recognizeSymbol_take :
    recognizeSymbol char (rest.take ((recognizeSymbol char rest).length - 1)) =
      recognizeSymbol char rest := by
  unfold recognizeSymbol
  cases paired : rest.head?.bind (pairSymbol? char) with
  | some symbol => simp only [Nat.add_one_sub_one, head?_take_pos Nat.one_pos, paired]
  | none => cases singleSymbol? char <;> rfl

/-- A lexeme is recognized from its own characters. -/
theorem Lexeme.recognize_take (char : Char) (rest : List Char) :
    Lexeme.recognize char (rest.take ((Lexeme.recognize char rest).length - 1)) =
      Lexeme.recognize char rest := by
  unfold Lexeme.recognize
  split
  · unfold recognizeLineBreak
    split
    · next isPair => simp [head?_take_pos Nat.one_pos, isPair]
    · simp
  · split
    · simp only [recognizeWord, Nat.add_sub_cancel, takeWhile_take, take_length]
    · split
      · exact recognizeNumber_take
      · exact recognizeSymbol_take

theorem triviaLength_take (noTrivia : triviaLength (char :: rest) = 0) :
    triviaLength (char :: rest.take count) = 0 := by
  rw [triviaLength] at noTrivia ⊢
  split at noTrivia
  · omega
  · next notBlank =>
    rw [if_neg notBlank]
    split at noTrivia
    · omega
    · next notComment =>
      rw [if_neg]
      rintro ⟨isSlash, isSecond⟩
      rw [head?_take] at isSecond
      split at isSecond
      · cases isSecond
      · exact notComment ⟨isSlash, isSecond⟩

/-- The token of the lexeme at a cursor. -/
def lexemeToken (cur : Cursor) (lexeme : Lexeme) : Token :=
  lexeme.content.token (cur.spanTo (cur.advanceBy lexeme.length)) (cur.rest.take lexeme.length)

theorem scan_lexeme (isRest : cur.rest = char :: rest) (noTrivia : triviaLength (char :: rest) = 0)
    (isLexeme : Lexeme.recognize char rest = lexeme) :
    scan cur = (lexemeToken cur lexeme, cur.advanceBy lexeme.length) := by
  unfold scan lexemeToken
  simp only [isRest, noTrivia, Cursor.advanceBy, isLexeme]

theorem tokensFrom_lexeme (isRest : cur.rest = char :: rest)
    (noTrivia : triviaLength (char :: rest) = 0) (isLexeme : Lexeme.recognize char rest = lexeme) :
    tokensFrom cur = lexemeToken cur lexeme :: tokensFrom (cur.advanceBy lexeme.length) := by
  rw [tokensFrom_eq, pass, scan_lexeme isRest noTrivia isLexeme, lexemeToken, Content.kind_token,
    if_neg (isLexeme ▸ Lexeme.recognize_kind char rest)]

theorem scan_nil (isEnd : cur.rest = []) : scan cur = (bare .endOfFile (cur.spanTo cur), cur) := by
  unfold scan
  simp only [isEnd, triviaLength, Cursor.advanceBy]

theorem tokensFrom_nil (isEnd : cur.rest = []) :
    tokensFrom cur = [bare .endOfFile (cur.spanTo cur)] := by
  rw [tokensFrom_eq, scan_nil isEnd]
  rfl

/-- The token of a content that starts a text. -/
def Content.first (content : Content) (characters : List Char) : Token :=
  content.token { start := 0, length := byteLength characters, line := 1, column := 1 } characters

theorem lexemeToken_atStart :
    lexemeToken (Cursor.atStart text) lexeme = lexeme.content.first (text.take lexeme.length) := by
  have isSpan : (Cursor.atStart text).spanTo ((Cursor.atStart text).advanceBy lexeme.length) =
      { start := 0, length := byteLength (text.take lexeme.length), line := 1, column := 1 } := by
    rw [Cursor.spanTo, Cursor.position_advanceBy, Nat.add_sub_cancel_left]
    rfl
  rw [lexemeToken, isSpan]
  rfl

theorem tokensFrom_alone (noTrivia : triviaLength (char :: rest) = 0) :
    let lexeme := Lexeme.recognize char rest
    ∃ last, tokensFrom (Cursor.atStart ((char :: rest).take lexeme.length)) =
      [lexeme.content.first ((char :: rest).take lexeme.length), bare .endOfFile last] := by
  have isLexeme := Lexeme.recognize_take char rest
  obtain ⟨count, isCount⟩ :=
    Nat.exists_eq_succ_of_ne_zero (Lexeme.recognize_length_pos char rest).ne'
  dsimp only
  rw [isCount, Nat.succ_sub_one] at isLexeme
  rw [isCount, take_succ_cons, tokensFrom_lexeme rfl (triviaLength_take noTrivia) isLexeme,
    lexemeToken_atStart, isCount, take_of_length_le (l := char :: rest.take count) (by simp),
    tokensFrom_nil (by simp [Cursor.atStart])]
  exact ⟨_, rfl⟩

/-- The part of the text that the token spans is read as the same token and nothing else. -/
def ReadAgain (text : List Char) (tok : Token) : Prop :=
  byteLength (tok.span.extract text) = tok.span.length ∧
    ∃ last, tokensFrom (Cursor.atStart (tok.span.extract text)) =
      [{ tok with span := { start := 0, length := tok.span.length, line := 1, column := 1 } },
        bare .endOfFile last]

theorem scan_readAgain (reached : cur.Reached) (notAtEnd : (scan cur).1.kind ≠ .endOfFile) :
    ReadAgain cur.text (scan cur).1 := by
  have noTrivia := triviaLength_drop cur.rest
  rw [← Cursor.advanceBy_rest] at noTrivia
  rw [← scan_opening] at notAtEnd ⊢
  rw [← Cursor.advanceBy_text (triviaLength cur.rest)]
  have opens := reached.advanceBy (triviaLength cur.rest)
  generalize cur.advanceBy (triviaLength cur.rest) = opening at *
  cases isRest : opening.rest with
  | nil =>
    rw [scan_nil isRest] at notAtEnd
    exact absurd rfl notAtEnd
  | cons char rest =>
    rw [isRest] at noTrivia
    obtain ⟨read, isText, isPosition, -⟩ := opens.exists_read
    obtain ⟨last, isAgain⟩ := tokensFrom_alone noTrivia
    have isScan := scan_lexeme isRest noTrivia rfl
    generalize Lexeme.recognize char rest = lexeme at isScan isAgain
    rw [← isRest] at isAgain
    have isLength : (opening.spanTo (opening.advanceBy lexeme.length)).length =
        byteLength (opening.rest.take lexeme.length) := by
      rw [Cursor.spanTo, Cursor.position_advanceBy, Nat.add_sub_cancel_left]
    have isSlice := @Span.extract_append _ _ (opening.rest.drop lexeme.length) _ isPosition isLength
    rw [take_append_drop, ← isText] at isSlice
    rw [isScan, ReadAgain, lexemeToken, Content.span_token, isSlice, isAgain, isLength]
    refine ⟨rfl, last, ?_⟩
    cases lexeme.content <;> rfl

theorem exists_scan (reached : cur.Reached) (isTok : tok ∈ tokensFrom cur) :
    ∃ place : Cursor, place.Reached ∧ place.text = cur.text ∧ tok = (scan place).1 := by
  induction cur using tokensFrom.induct with
  | case1 cur atEnd =>
    rw [tokensFrom, if_pos atEnd] at isTok
    exact ⟨cur, reached, rfl, mem_singleton.mp isTok⟩
  | case2 cur notAtEnd ih =>
    rw [tokensFrom, if_neg notAtEnd] at isTok
    rcases mem_cons.mp isTok with rfl | later
    · exact ⟨cur, reached, rfl, rfl⟩
    · obtain ⟨place, isPlace, sameText, isScan⟩ := ih (pass_reached reached) later
      exact ⟨place, isPlace, sameText.trans (pass_text cur), isScan⟩

/--
A token is recognized from its own text: the part of a text that it spans is read as the same token
and nothing else.
-/
theorem token_read_again {text : String} {token : Token} (isToken : token ∈ tokenize text)
    (notEnd : token.kind ≠ .endOfFile) :
    let slice := token.span.extract text.toList
    byteLength slice = token.span.length ∧
      ∃ last, tokenize (String.ofList slice) =
        [{ token with span := { start := 0, length := token.span.length, line := 1, column := 1 } },
          bare .endOfFile last] := by
  obtain ⟨place, reached, sameText, rfl⟩ := exists_scan Cursor.Reached.atStart isToken
  have again := scan_readAgain reached notEnd
  rw [sameText] at again
  simp only [tokenize, String.toList_ofList]
  exact again

/-- The first number of a range is read without the points that follow it. -/
theorem token_read_again_range :
    let token : Token :=
      { kind := .integerLiteral, span := { start := 0, length := 1, line := 1, column := 1 },
        text := some "7", value := some (.integer 7) }
    token ∈ tokenize "7..9" ∧ token.kind ≠ .endOfFile ∧
      ∃ last, tokenize (String.ofList (token.span.extract "7..9".toList)) =
        [token, bare .endOfFile last] := by
  have isRest : (Cursor.atStart "7..9".toList).rest = '7' :: ['.', '.', '9'] := rfl
  have isFirst : tokenize "7..9" = _ := tokensFrom_lexeme isRest rfl rfl
  have isToken : (_ : Token) ∈ tokenize "7..9" := isFirst ▸ mem_cons_self
  exact ⟨isToken, by decide, (token_read_again isToken (by decide)).2⟩

end Imperative.Token
