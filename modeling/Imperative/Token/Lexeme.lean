import Imperative.Real.Decimal
import Imperative.Token

/-!
# Lexemes

`Lexeme.recognize` decides which token stands at the front of a text and how many
characters it takes.  The decision depends on nothing but those characters: the
longest word, number or symbol is taken.  A number is real only if its point is
followed by a digit, so that `1..3` is a range; a further point followed by a digit
makes the whole of it an error.
-/

namespace Imperative.Token

/-- What is wrong with the characters of an error token. -/
inductive Mistake where
  | multiplePoints
  | integerRange
  | realRange
  | unexpected (char : Char)

def Mistake.message : Mistake → String
  | multiplePoints => "Invalid number literal: multiple decimal points"
  | integerRange => "Malformed integer literal"
  | realRange => "Malformed real literal"
  | unexpected char => "Unexpected char '" ++ char.toString ++ "'"

/-- What stands at the front of a text. -/
inductive Content where
  | plain (kind : Kind)
  | literal (kind : Kind) (value : Value)
  | mistaken (mistake : Mistake)

/-- A content and the number of characters it takes. -/
structure Lexeme where
  content : Content
  length : Nat

/-! ## Trivia -/

def breaksLine (char : Char) : Bool :=
  char == '\n' || char == '\r'

def triviaLength : List Char → Nat
  | [] => 0
  | char :: rest =>
    if char = ' ' ∨ char = '\t' then triviaLength rest + 1
    else if char = '/' ∧ rest.head? = some '/' then
      (rest.takeWhile fun char => !breaksLine char).length + 1
    else 0

/-! ## Words -/

def startsWord (char : Char) : Bool :=
  char.isAlpha || char == '_'

def continuesWord (char : Char) : Bool :=
  char.isAlphanum || char == '_'

def wordContent (word : String) : Content :=
  if word = "true" then .literal .booleanLiteral (.boolean true)
  else if word = "false" then .literal .booleanLiteral (.boolean false)
  else
    match Keyword.ofSpelling? word with
    | some keyword => .plain (.keyword keyword)
    | none => .plain .identifier

def recognizeWord (char : Char) (rest : List Char) : Lexeme :=
  let tail := rest.takeWhile continuesWord
  { content := wordContent (String.ofList (char :: tail)), length := tail.length + 1 }

/-! ## Numbers -/

def decimalValue (digits : List Char) : Nat :=
  digits.foldl (fun value digit => 10 * value + (digit.toNat - '0'.toNat)) 0

def startsFraction : List Char → Bool
  | point :: digit :: _ => point == '.' && digit.isDigit
  | _ => false

def signPart : List Char → List Char
  | char :: _ => if char = '+' ∨ char = '-' then [char] else []
  | [] => []

/-- The exponent at the front of a text: its mark, an optional sign and digits. -/
def exponentPart : List Char → List Char
  | [] => []
  | mark :: rest =>
    if mark = 'e' ∨ mark = 'E' then
      let sign := signPart rest
      let digits := (rest.drop sign.length).takeWhile Char.isDigit
      if digits.isEmpty then [] else mark :: sign ++ digits
    else []

def exponentValue (exponent : List Char) : Int :=
  let sign := signPart (exponent.drop 1)
  let value : Int := decimalValue (exponent.drop (1 + sign.length))
  if sign = ['-'] then -value else value

/--
The number of characters of further groups of a point and digits.  Inside a group
digits may follow; outside one only the point of the next group.
-/
def groupsLength (inside : Bool) : List Char → Nat
  | [] => 0
  | char :: rest =>
    if (inside && char.isDigit) || startsFraction (char :: rest) then
      groupsLength true rest + 1
    else 0

def greatestInteger : Nat := 9223372036854775807

def integerContent (digits : List Char) : Content :=
  if decimalValue digits ≤ greatestInteger then
    .literal .integerLiteral (.integer (decimalValue digits))
  else .mistaken .integerRange

def realContent (whole fraction exponent : List Char) : Content :=
  let value := Real.ofDecimal
    { digits := decimalValue (whole ++ fraction)
      exponent := exponentValue exponent - fraction.length }
  if value.isFinite then .literal .realLiteral (.real value) else .mistaken .realRange

def recognizeNumber (digit : Char) (rest : List Char) : Lexeme :=
  let whole := rest.takeWhile Char.isDigit
  let afterWhole := rest.dropWhile Char.isDigit
  if startsFraction afterWhole then
    let fraction := afterWhole.tail.takeWhile Char.isDigit
    let afterFraction := afterWhole.tail.dropWhile Char.isDigit
    let exponent := exponentPart afterFraction
    let further := groupsLength false (afterFraction.drop exponent.length)
    { content :=
        if further = 0 then realContent (digit :: whole) fraction exponent
        else .mistaken .multiplePoints
      length := whole.length + 1 + (1 + fraction.length) + exponent.length + further }
  else
    { content := integerContent (digit :: whole), length := whole.length + 1 }

/-! ## Symbols -/

def pairSymbol? (first second : Char) : Option Symbol :=
  match first, second with
  | ':', '=' => some .assign
  | '=', '>' => some .arrow
  | '.', '.' => some .dotDot
  | '<', '=' => some .lessEqual
  | '>', '=' => some .greaterEqual
  | '/', '=' => some .notEqual
  | _, _ => none

def singleSymbol? (char : Char) : Option Symbol :=
  match char with
  | '(' => some .leftParen
  | ')' => some .rightParen
  | '[' => some .leftBracket
  | ']' => some .rightBracket
  | ',' => some .comma
  | ';' => some .semicolon
  | '+' => some .plus
  | '-' => some .minus
  | '*' => some .star
  | '%' => some .percent
  | ':' => some .colon
  | '=' => some .equal
  | '.' => some .dot
  | '<' => some .less
  | '>' => some .greater
  | '/' => some .slash
  | _ => none

def recognizeSymbol (char : Char) (rest : List Char) : Lexeme :=
  match rest.head?.bind (pairSymbol? char) with
  | some symbol => { content := .plain (.symbol symbol), length := 2 }
  | none =>
    match singleSymbol? char with
    | some symbol => { content := .plain (.symbol symbol), length := 1 }
    | none => { content := .mistaken (.unexpected char), length := 1 }

/-! ## The decision -/

/-- The line break at the front of a text; a carriage return takes a newline with it. -/
def recognizeLineBreak (char : Char) (rest : List Char) : Lexeme :=
  { content := .plain .newLine
    length := if char = '\r' ∧ rest.head? = some '\n' then 2 else 1 }

/-- The lexeme at the front of the text `char :: rest`, which starts with no trivia. -/
def Lexeme.recognize (char : Char) (rest : List Char) : Lexeme :=
  if breaksLine char then recognizeLineBreak char rest
  else if startsWord char then recognizeWord char rest
  else if char.isDigit then recognizeNumber char rest
  else recognizeSymbol char rest

theorem Lexeme.recognize_length_pos (char : Char) (rest : List Char) :
    0 < (Lexeme.recognize char rest).length := by
  unfold Lexeme.recognize
  split
  · simp only [recognizeLineBreak]
    split <;> omega
  · split
    · simp [recognizeWord]
    · split
      · simp only [recognizeNumber]
        split <;> simp only <;> omega
      · simp only [recognizeSymbol]
        split
        · simp
        · split <;> simp

def Content.token (content : Content) (span : Span) (characters : List Char) : Token :=
  match content with
  | .plain kind => { kind, span, text := some (String.ofList characters), value := none }
  | .literal kind value =>
    { kind, span, text := some (String.ofList characters), value := some value }
  | .mistaken mistake => { kind := .error, span, text := some mistake.message, value := none }

end Imperative.Token
