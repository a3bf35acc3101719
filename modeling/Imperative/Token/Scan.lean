import Imperative.Source.Cursor
import Imperative.Token.Lexeme

/-!
# Scanning

`Token.scan` reads the next token after a cursor, and `Token.tokenize` all tokens of
a text up to and including the token for its end.  Every token but the last takes
at least one character, which is why scanning ends.
-/

namespace Imperative.Token

/--
Read the next token: skip trivia, then take the lexeme that stands there.  At the end
of the text the token is empty, and so it stays.
-/
def scan (cursor : Cursor) : Token × Cursor :=
  let opening := cursor.advanceBy (triviaLength cursor.rest)
  match opening.rest with
  | [] => (bare .endOfFile (opening.spanTo opening), opening)
  | char :: rest =>
    let lexeme := Lexeme.recognize char rest
    let closing := opening.advanceBy lexeme.length
    (lexeme.content.token (opening.spanTo closing) (opening.rest.take lexeme.length), closing)

theorem scan_rest_lt (cursor : Cursor) (notEnd : (scan cursor).1.kind ≠ .endOfFile) :
    (scan cursor).2.rest.length < cursor.rest.length := by
  revert notEnd
  unfold scan
  simp only
  split
  · intro notEnd
    exact absurd rfl notEnd
  · rename_i char rest remaining
    intro _
    have taken := Lexeme.recognize_length_pos char rest
    have shorter : (char :: rest).length ≤ cursor.rest.length := by
      rw [← remaining]
      simp
    simp only [Cursor.advanceBy_rest, List.length_drop] at shorter remaining ⊢
    have positive : 0 < (cursor.rest.drop (triviaLength cursor.rest)).length := by
      rw [remaining]
      simp
    simp only [List.length_drop] at positive
    omega

def tokensFrom (cursor : Cursor) : List Token :=
  if (scan cursor).1.kind = .endOfFile then [(scan cursor).1]
  else (scan cursor).1 :: tokensFrom (scan cursor).2
termination_by cursor.rest.length
decreasing_by exact scan_rest_lt cursor ‹_›

def tokenize (text : String) : List Token :=
  tokensFrom (Cursor.atStart text.toList)

end Imperative.Token
