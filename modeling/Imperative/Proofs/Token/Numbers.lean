import Imperative.Proofs.Token.Recognition

/-!
# Numbers

Digits are an integer, and two numbers with a point between them a real; two points make a range.
The characters after a number decide which of these it is.
-/

namespace Imperative.Token

open List

open Text (byteLength)

variable {char : Char} {text whole fraction : List Char} {cur : Cursor}

/-- A number is written with at least one digit. -/
structure Digits (text : List Char) : Prop where
  notEmpty : text ≠ []
  areDigits : ∀ char ∈ text, char.isDigit = true

/-- No digit comes first. -/
def NoDigit (text : List Char) : Prop := ∀ char ∈ text.head?, char.isDigit = false

theorem startsWord_digit (isDigit : char.isDigit = true) : startsWord char = false := by
  rw [Bool.eq_false_iff]
  intro starts
  rw [startsWord] at starts
  delta Char.isAlpha Char.isUpper Char.isLower at starts
  simp only [Bool.or_eq_true, Bool.and_eq_true, decide_eq_true_eq, beq_iff_eq] at starts
  rcases starts with (isUpper | isLower) | rfl
  · simp only [Char.isDigit, Bool.and_eq_true, decide_eq_true_eq] at isDigit
    grind
  · simp only [Char.isDigit, Bool.and_eq_true, decide_eq_true_eq] at isDigit
    grind
  · cases isDigit

theorem scan_digit (isDigit : char.isDigit = true) :
    triviaLength (char :: rest) = 0 ∧ Lexeme.recognize char rest = recognizeNumber char rest := by
  have inLine : breaksLine char = false := by
    simp only [breaksLine, Bool.or_eq_false_iff, beq_eq_false_iff_ne]
    constructor <;> rintro rfl <;> cases isDigit
  refine ⟨?_, ?_⟩
  · rw [triviaLength, if_neg, if_neg]
    · rintro ⟨rfl, -⟩
      cases isDigit
    · rintro (rfl | rfl) <;> cases isDigit
  · rw [Lexeme.recognize, inLine, startsWord_digit isDigit, isDigit]
    rfl

theorem takeWhile_digits (areDigits : ∀ char ∈ whole, char.isDigit = true) (stops : NoDigit rest) :
    (whole ++ rest).takeWhile Char.isDigit = whole ∧
      (whole ++ rest).dropWhile Char.isDigit = rest := by
  rw [takeWhile_append_of_pos areDigits, dropWhile_append_of_pos areDigits]
  cases rest with
  | nil => simp
  | cons char rest => simp [stops char rfl]

theorem noDigit_nil : NoDigit [] := by
  rintro char ⟨⟩

theorem noDigit_point : NoDigit ('.' :: rest) := by
  rintro char ⟨⟩
  rfl

theorem startsFraction_digits (isFraction : Digits fraction) :
    startsFraction ('.' :: (fraction ++ rest)) = true := by
  obtain ⟨notEmpty, areDigits⟩ := isFraction
  cases fraction with
  | nil => exact absurd rfl notEmpty
  | cons first others => simpa [startsFraction] using areDigits first mem_cons_self

theorem tokensFrom_integer (isNumber : Digits whole) (isRest : cur.rest = whole ++ rest)
    (stops : NoDigit rest) (notReal : startsFraction rest = false) :
    tokensFrom cur = lexemeToken cur { content := integerContent whole, length := whole.length } ::
      tokensFrom (cur.advanceBy whole.length) := by
  obtain ⟨notEmpty, areDigits⟩ := isNumber
  cases whole with
  | nil => exact absurd rfl notEmpty
  | cons first others =>
    obtain ⟨isDigit, areOthers⟩ := forall_mem_cons.mp areDigits
    obtain ⟨noTrivia, isNumber⟩ := scan_digit isDigit
    obtain ⟨isWhole, isAfter⟩ := takeWhile_digits areOthers stops
    rw [recognizeNumber, isWhole, isAfter, notReal] at isNumber
    exact tokensFrom_lexeme isRest noTrivia isNumber

/-- A number with a point, in front of what is no exponent: further groups are part of it. -/
theorem tokensFrom_real (isWhole : Digits whole) (isFraction : Digits fraction)
    (isRest : cur.rest = whole ++ '.' :: (fraction ++ rest)) (stops : NoDigit rest)
    (noExponent : exponentPart rest = []) :
    let further := groupsLength false rest
    let lexeme : Lexeme :=
      { content := if further = 0 then realContent whole fraction [] else .mistaken .multiplePoints
        length := (whole ++ '.' :: fraction).length + further }
    tokensFrom cur = lexemeToken cur lexeme :: tokensFrom (cur.advanceBy lexeme.length) := by
  obtain ⟨notEmpty, areDigits⟩ := isWhole
  cases whole with
  | nil => exact absurd rfl notEmpty
  | cons first others =>
    obtain ⟨isDigit, areOthers⟩ := forall_mem_cons.mp areDigits
    obtain ⟨noTrivia, isNumber⟩ := scan_digit isDigit
    obtain ⟨isWhole, isAfter⟩ := takeWhile_digits areOthers noDigit_point
    obtain ⟨isPart, isFinal⟩ := takeWhile_digits isFraction.areDigits stops
    have isLength : others.length + 1 + (1 + fraction.length) + 0 + groupsLength false rest =
        (first :: others ++ '.' :: fraction).length + groupsLength false rest := by
      simp
      omega
    rw [recognizeNumber, isWhole, isAfter, if_pos (startsFraction_digits isFraction)] at isNumber
    dsimp only at isNumber
    rw [tail_cons, isPart, isFinal, noExponent, length_nil, drop_zero, isLength] at isNumber
    exact tokensFrom_lexeme isRest noTrivia isNumber

theorem groupsLength_digits (areDigits : ∀ char ∈ whole, char.isDigit = true) :
    groupsLength true (whole ++ rest) = whole.length + groupsLength true rest := by
  induction whole with
  | nil => simp
  | cons first others ih =>
    obtain ⟨isDigit, areOthers⟩ := forall_mem_cons.mp areDigits
    rw [cons_append, groupsLength, isDigit, Bool.true_and, Bool.true_or, if_pos rfl, ih areOthers,
      length_cons, Nat.add_right_comm]

theorem groupsLength_written {groups : List (List Char)}
    (areGroups : ∀ group ∈ groups, Digits group) (inside : Bool) :
    groupsLength inside (groups.flatMap ('.' :: ·)) = (groups.flatMap ('.' :: ·)).length := by
  induction groups generalizing inside with
  | nil => rfl
  | cons group groups ih =>
    obtain ⟨isGroup, areOthers⟩ := forall_mem_cons.mp areGroups
    rw [flatMap_cons, cons_append, groupsLength, startsFraction_digits isGroup, Bool.or_true,
      if_pos rfl, groupsLength_digits isGroup.areDigits, ih areOthers, length_cons, length_append]

/-- A number without a point is an integer literal, or an error if it is too large. -/
def integerToken (digits : List Char) : Token :=
  let span : Span := { start := 0, length := byteLength digits, line := 1, column := 1 }
  let value := Nat.ofDigitChars 10 digits 0
  if value ≤ 2 ^ 63 - 1 then
    { kind := .integerLiteral, span, text := some (String.ofList digits),
      value := some (.integer value) }
  else { kind := .error, span, text := some "Malformed integer literal", value := none }

/-- A number with a point is a real literal, or an error if its value is not finite. -/
def realToken (whole fraction : List Char) : Token :=
  let characters := whole ++ '.' :: fraction
  let span : Span := { start := 0, length := byteLength characters, line := 1, column := 1 }
  let value := Real.ofDecimal
    { digits := Nat.ofDigitChars 10 (whole ++ fraction) 0, exponent := -fraction.length }
  if value.isFinite then
    { kind := .realLiteral, span, text := some (String.ofList characters),
      value := some (.real value) }
  else { kind := .error, span, text := some "Malformed real literal", value := none }

theorem decimalValue_eq : decimalValue digits = Nat.ofDigitChars 10 digits 0 := rfl

theorem first_integerContent : (integerContent digits).first digits = integerToken digits := by
  have isGreatest : greatestInteger = 2 ^ 63 - 1 := rfl
  rw [integerContent, integerToken, Content.first, decimalValue_eq, isGreatest]
  split <;> rfl

theorem first_realContent :
    (realContent whole fraction []).first (whole ++ '.' :: fraction) =
      realToken whole fraction := by
  have noExponent : exponentValue [] - (fraction.length : Int) = -fraction.length := Int.zero_sub _
  rw [realContent, realToken, Content.first, noExponent, decimalValue_eq]
  split <;> rfl

theorem rest_advanceBy (isRest : cur.rest = text ++ rest) :
    (cur.advanceBy text.length).rest = rest := by
  rw [Cursor.advanceBy_rest, isRest, drop_left]

theorem token_eq_first (content : Content) (span : Span) :
    content.token span characters = { content.first characters with span } := by
  cases content <;> rfl

theorem tokensFrom_plain {kind : Kind} (read : List Char)
    (isRest : cur.rest = char :: (read ++ rest))
    (noTrivia : triviaLength (char :: (read ++ rest)) = 0)
    (isLexeme : Lexeme.recognize char (read ++ rest) =
      { content := .plain kind, length := read.length + 1 }) :
    ∃ span next, next.rest = rest ∧ tokensFrom cur =
      { kind, span, text := some (String.ofList (char :: read)), value := none } ::
        tokensFrom next := by
  have isText : cur.rest = (char :: read) ++ rest := isRest
  have isToken := tokensFrom_lexeme isRest noTrivia isLexeme
  rw [lexemeToken, isText, ← length_cons, take_left] at isToken
  exact ⟨_, _, rest_advanceBy isText, isToken⟩

/-- A number with a point at the start of a text that goes on with neither exponent nor groups. -/
theorem tokensFrom_first_real (isWhole : Digits whole) (isFraction : Digits fraction)
    (stops : NoDigit rest) (noExponent : exponentPart rest = [])
    (noGroups : groupsLength false rest = 0) :
    ∃ next, next.rest = rest ∧ tokensFrom (Cursor.atStart (whole ++ '.' :: fraction ++ rest)) =
      realToken whole fraction :: tokensFrom next := by
  have isRest : (Cursor.atStart (whole ++ '.' :: fraction ++ rest)).rest =
      whole ++ '.' :: fraction ++ rest := rfl
  refine ⟨_, rest_advanceBy isRest, ?_⟩
  rw [tokensFrom_real isWhole isFraction (isRest.trans (append_assoc ..)) stops noExponent,
    noGroups, if_pos rfl, lexemeToken_atStart, Nat.add_zero, take_left, first_realContent]

/-- The tokens are a name of one letter and perhaps a sign. -/
def AreMarks (mark : Char) (sign : List Symbol) (tokens : List Token) : Prop :=
  ∃ name place last, tokens =
    { kind := .identifier, span := name, text := some (String.ofList [mark]), value := none } ::
      sign.map (fun symbol =>
        { kind := .symbol symbol, span := place, text := some symbol.spelling, value := none }) ++
        [bare .endOfFile last]

theorem tokensFrom_marks (isMark : mark = 'e' ∨ mark = 'E')
    (isSign : sign = [] ∨ sign = [.plus] ∨ sign = [.minus])
    (isRest : cur.rest = mark :: sign.flatMap (·.spelling.toList)) :
    AreMarks mark sign (tokensFrom cur) := by
  have isName : ∃ span next, next.rest = sign.flatMap (·.spelling.toList) ∧ tokensFrom cur =
      { kind := .identifier, span, text := some (String.ofList [mark]), value := none } ::
        tokensFrom next := by
    refine tokensFrom_plain [] isRest ?_ ?_
    · rcases isMark with rfl | rfl <;> rfl
    · rcases isMark with rfl | rfl <;> rcases isSign with rfl | rfl | rfl <;> rfl
  obtain ⟨name, next, after, isFirst⟩ := isName
  rw [AreMarks, isFirst]
  rcases isSign with rfl | rfl | rfl
  · rw [tokensFrom_nil after]
    exact ⟨name, name, _, rfl⟩
  all_goals
    obtain ⟨place, final, isEnd, isSecond⟩ := tokensFrom_plain [] after rfl rfl
    rw [isSecond, tokensFrom_nil isEnd]
    exact ⟨name, place, _, rfl⟩

/--
Numbers are told apart.  Digits alone are an integer, two points between digits make a range of
integers and one point makes a real.  Further points make an error of the whole, and a mark that no
exponent follows is a name of its own.
-/
theorem numbers_told_apart
    (isWhole : Digits whole) (isFraction : Digits fraction)
    (areGroups : ∀ group ∈ groups, Digits group) (notEmpty : groups ≠ [])
    (isMark : mark = 'e' ∨ mark = 'E') (isSign : sign = [] ∨ sign = [.plus] ∨ sign = [.minus]) :
    let real := whole ++ '.' :: fraction
    let grouped := real ++ groups.flatMap ('.' :: ·)
    (∃ last, tokenize (String.ofList whole) = [integerToken whole, bare .endOfFile last]) ∧
      (∃ dots second last, tokenize (String.ofList (whole ++ '.' :: '.' :: fraction)) =
        [integerToken whole,
          { kind := .symbol .dotDot, span := dots, text := some "..", value := none },
          { integerToken fraction with span := second }, bare .endOfFile last]) ∧
      (∃ last, tokenize (String.ofList real) = [realToken whole fraction, bare .endOfFile last]) ∧
      (∃ last, tokenize (String.ofList grouped) =
        [{ kind := .error
           span := { start := 0, length := byteLength grouped, line := 1, column := 1 }
           text := some "Invalid number literal: multiple decimal points"
           value := none },
          bare .endOfFile last]) ∧
      ∃ marks, AreMarks mark sign marks ∧
        tokenize (String.ofList (real ++ mark :: sign.flatMap (·.spelling.toList))) =
          realToken whole fraction :: marks := by
  simp only [tokenize, String.toList_ofList]
  refine ⟨?_, ?_, ?_, ?_, ?_⟩
  · have isRest : (Cursor.atStart whole).rest = whole ++ [] := (append_nil whole).symm
    rw [tokensFrom_integer isWhole isRest noDigit_nil rfl, lexemeToken_atStart, take_length,
      first_integerContent, tokensFrom_nil (rest_advanceBy isRest)]
    exact ⟨_, rfl⟩
  · have isRest : (Cursor.atStart (whole ++ '.' :: '.' :: fraction)).rest =
      whole ++ '.' :: '.' :: fraction := rfl
    obtain ⟨dots, next, after, isDots⟩ :=
      tokensFrom_plain ['.'] (rest_advanceBy isRest) rfl rfl
    have isLast : next.rest = fraction ++ [] := after.trans (append_nil fraction).symm
    rw [tokensFrom_integer isWhole isRest noDigit_point rfl, lexemeToken_atStart, take_left,
      first_integerContent, isDots, tokensFrom_integer isFraction isLast noDigit_nil rfl,
      lexemeToken, isLast, take_left, token_eq_first, first_integerContent,
      tokensFrom_nil (rest_advanceBy isLast)]
    exact ⟨dots, _, _, rfl⟩
  · obtain ⟨next, isEnd, isReal⟩ :=
      tokensFrom_first_real isWhole isFraction noDigit_nil rfl rfl
    rw [append_nil] at isReal
    rw [isReal, tokensFrom_nil isEnd]
    exact ⟨_, rfl⟩
  · have areFurther := groupsLength_written areGroups false
    obtain ⟨tail, isTail⟩ : ∃ tail, groups.flatMap ('.' :: ·) = '.' :: tail := by
      obtain ⟨group, others, rfl⟩ := exists_cons_of_ne_nil notEmpty
      exact ⟨_, rfl⟩
    have isRest : (Cursor.atStart (whole ++ '.' :: fraction ++ '.' :: tail)).rest =
        whole ++ '.' :: (fraction ++ '.' :: tail) := append_assoc ..
    rw [isTail] at areFurther ⊢
    rw [tokensFrom_real isWhole isFraction isRest noDigit_point rfl, areFurther,
      if_neg (by simp), lexemeToken_atStart, ← length_append, take_length,
      tokensFrom_nil (by rw [Cursor.advanceBy_rest]; exact drop_length)]
    exact ⟨_, rfl⟩
  · have noExponent : exponentPart (mark :: sign.flatMap (·.spelling.toList)) = [] := by
      rcases isMark with rfl | rfl <;> rcases isSign with rfl | rfl | rfl <;> rfl
    have noGroups : groupsLength false (mark :: sign.flatMap (·.spelling.toList)) = 0 := by
      rcases isMark with rfl | rfl <;> rcases isSign with rfl | rfl | rfl <;> rfl
    have stops : NoDigit (mark :: sign.flatMap (·.spelling.toList)) := by
      rintro char ⟨⟩
      rcases isMark with rfl | rfl <;> rfl
    obtain ⟨next, after, isReal⟩ :=
      tokensFrom_first_real isWhole isFraction stops noExponent noGroups
    exact ⟨_, tokensFrom_marks isMark isSign after, isReal⟩

/-- `07.5` is a real, `.25` after it makes an error of both, and `E-` is no exponent. -/
theorem numbers_told_apart_grouped :
    Digits ['0', '7'] ∧ Digits ['5'] ∧ Digits ['2', '5'] ∧
      (∃ last, tokenize (String.ofList ['0', '7', '.', '5', '.', '2', '5']) =
        [{ kind := .error
           span := { start := 0, length := 7, line := 1, column := 1 }
           text := some "Invalid number literal: multiple decimal points"
           value := none },
          bare .endOfFile last]) ∧
      ∃ marks, AreMarks 'E' [.minus] marks ∧
        tokenize (String.ofList ['0', '7', '.', '5', 'E', '-']) =
          realToken ['0', '7'] ['5'] :: marks := by
  have isWhole : Digits ['0', '7'] := ⟨by simp, by simp⟩
  have isFraction : Digits ['5'] := ⟨by simp, by simp⟩
  have isGroup : Digits ['2', '5'] := ⟨by simp, by simp⟩
  have areGroups : ∀ group ∈ [['2', '5']], Digits group := by simpa using isGroup
  obtain ⟨-, -, -, grouped, marked⟩ := numbers_told_apart isWhole isFraction areGroups (by simp)
    (.inr rfl) (.inr (.inr rfl))
  exact ⟨isWhole, isFraction, isGroup, grouped, marked⟩

end Imperative.Token
