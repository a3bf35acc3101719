import Imperative.Proofs.Parser.Places
import Imperative.Proofs.Source.Cursor
import Mathlib.Data.List.TakeWhile

/-!
# Tokens tile the text

Every character of a text belongs to exactly one token or to the trivia between them.
-/

namespace Imperative.Token

open List

open Text (byteLength byteLength_append byteLength_pos dropBytes dropBytes_append)

variable {text : List Char} {toks : List Token} {offset : Nat}

/-- Blanks and tabs, and after them perhaps a comment, which ends only with its line. -/
inductive Trivia : List Char → List Char → Prop where
  | nothing (rest : List Char) : Trivia [] rest
  | blank {char : Char} {gap rest : List Char} :
      char = ' ' ∨ char = '\t' → Trivia gap rest → Trivia (char :: gap) rest
  | comment {text rest : List Char} :
      (∀ char ∈ text, breaksLine char = false) → (∀ char ∈ rest.head?, breaksLine char = true) →
        Trivia ('/' :: '/' :: text) rest

theorem head?_after_line :
    ∀ char ∈ (text.drop (text.takeWhile (!breaksLine ·)).length).head?, breaksLine char = true := by
  induction text with
  | nil => exact nofun
  | cons first rest ih =>
    cases ends : breaksLine first with
    | true => simp [ends]
    | false => simpa [ends] using ih

theorem trivia_line :
    Trivia ('/' :: '/' :: text.take (text.takeWhile (!breaksLine ·)).length)
      (text.drop (text.takeWhile (!breaksLine ·)).length) := by
  rw [← prefix_iff_eq_take.mp (List.takeWhile_prefix (!breaksLine ·))]
  exact .comment (fun char inLine => by simpa using mem_takeWhile_imp inLine) head?_after_line

theorem triviaLength_trivia (text : List Char) :
    Trivia (text.take (triviaLength text)) (text.drop (triviaLength text)) := by
  induction text with
  | nil => exact .nothing []
  | cons char rest ih =>
    rw [triviaLength]
    split
    · next isBlank => exact .blank isBlank ih
    · split
      · next isComment =>
        obtain ⟨rfl, isSecond⟩ := isComment
        cases rest with
        | nil => cases isSecond
        | cons second text =>
          cases isSecond
          exact trivia_line
      · exact .nothing _

def Content.kind : Content → Kind
  | .plain kind | .literal kind _ => kind
  | .mistaken _ => .error

@[simp]
theorem Content.kind_token (content : Content) (span : Span) :
    (content.token span characters).kind = content.kind := by
  cases content <;> rfl

theorem Content.text_token {content : Content} {span : Span} (isRight : content.kind ≠ .error) :
    (content.token span characters).text = some (String.ofList characters) := by
  cases content with
  | plain | literal => rfl
  | mistaken => exact absurd rfl isRight

theorem Lexeme.recognize_kind (char : Char) (rest : List Char) :
    (Lexeme.recognize char rest).content.kind ≠ .endOfFile := by
  unfold Lexeme.recognize recognizeLineBreak recognizeWord wordContent recognizeNumber
    integerContent realContent recognizeSymbol
  dsimp only
  repeat' split
  all_goals simp [Content.kind]

/-- The token was read from the lexeme that comes after the gap, where `rest` follows. -/
structure Tile (offset : Nat) (gap lexeme rest : List Char) (tok : Token) : Prop where
  trivia : Trivia gap (lexeme ++ rest)
  start : tok.span.start = offset + byteLength gap
  length : tok.span.length = byteLength lexeme
  atEnd : tok.kind = .endOfFile ↔ lexeme = []
  text : tok.kind ≠ .endOfFile → tok.kind ≠ .error → tok.text = some (String.ofList lexeme)

/--
The tokens and the trivia before each of them make up a text that starts at a byte offset.  The
last token stands for the end of the text.
-/
inductive Tiles : Nat → List Char → List Token → Prop where
  | last {offset : Nat} {gap : List Char} {tok : Token} :
      Tile offset gap [] [] tok → Tiles offset gap [tok]
  | cons {offset : Nat} {gap lexeme rest : List Char} {tok : Token} {toks : List Token} :
      Tile offset gap lexeme rest tok → lexeme ≠ [] → Tiles tok.span.stop rest toks →
        Tiles offset (gap ++ (lexeme ++ rest)) (tok :: toks)

theorem scan_tile :
    ∃ gap lexeme, cur.rest = gap ++ (lexeme ++ (scan cur).2.rest) ∧
      Tile cur.position gap lexeme (scan cur).2.rest (scan cur).1 ∧
      (scan cur).2.position = (scan cur).1.span.stop ∧
      (lexeme = [] → (scan cur).2.rest = []) := by
  have trivia := triviaLength_trivia cur.rest
  have whole := (take_append_drop (triviaLength cur.rest) cur.rest).symm
  have atOpening := Cursor.position_advanceBy (triviaLength cur.rest) cur
  have openingRest := Cursor.advanceBy_rest (triviaLength cur.rest) cur
  rw [← openingRest] at trivia whole
  unfold scan
  dsimp only
  generalize cur.advanceBy (triviaLength cur.rest) = opening at *
  generalize cur.rest.take (triviaLength cur.rest) = gap at *
  split
  · next isEnd =>
    refine ⟨gap, [], whole, ?_, ?_, fun _ => isEnd⟩
    · exact ⟨trivia, atOpening, by simp [bare, Cursor.spanTo, byteLength], by simp [bare],
        fun notEnd => absurd rfl notEnd⟩
    · simp [bare, Cursor.spanTo, Span.stop]
  · next char rest isRest =>
    have positive := Lexeme.recognize_length_pos char rest
    have isKind := Lexeme.recognize_kind char rest
    generalize Lexeme.recognize char rest = lexeme at *
    have atClosing := Cursor.position_advanceBy lexeme.length opening
    have notEmpty : opening.rest.take lexeme.length ≠ [] := by
      rw [isRest, Ne, take_eq_nil_iff]
      simp
      omega
    have closingRest := Cursor.advanceBy_rest lexeme.length opening
    refine ⟨gap, opening.rest.take lexeme.length, ?_, ⟨?_, ?_, ?_, ?_, ?_⟩, ?_, ?_⟩
    · rw [closingRest, take_append_drop, ← whole]
    · rw [closingRest, take_append_drop]
      exact trivia
    · rw [Content.span_token]
      exact atOpening
    · rw [Content.span_token]
      simp only [Cursor.spanTo]
      omega
    · rw [Content.kind_token]
      exact iff_of_false isKind notEmpty
    · rw [Content.kind_token]
      exact fun _ isRight => Content.text_token isRight
    · rw [Content.span_token]
      simp only [Cursor.spanTo, Span.stop]
      omega
    · exact fun isEmpty => absurd isEmpty notEmpty

theorem tokensFrom_tiles (cur : Cursor) : Tiles cur.position cur.rest (tokensFrom cur) := by
  induction cur using tokensFrom.induct with
  | case1 cur atEnd =>
    obtain ⟨gap, lexeme, isText, tile, -, isLast⟩ := scan_tile
    cases tile.atEnd.mp atEnd
    rw [isLast rfl] at tile isText
    rw [tokensFrom, if_pos atEnd, isText, append_nil, append_nil]
    exact .last tile
  | case2 cur notAtEnd ih =>
    obtain ⟨gap, lexeme, isText, tile, goesOn, -⟩ := scan_tile
    rw [tokensFrom, if_neg notAtEnd, isText]
    exact .cons tile (mt tile.atEnd.mpr notAtEnd) (goesOn ▸ ih)

theorem Tiles.last_token (tiles : Tiles offset text toks) :
    ∃ pre last, toks = pre ++ [last] ∧ last.kind = .endOfFile ∧
      last.span.start = offset + byteLength text ∧ last.span.length = 0 ∧
      ∀ tok ∈ pre, tok.kind ≠ .endOfFile ∧ 0 < tok.span.length := by
  induction tiles with
  | @last offset gap tok tile =>
    exact ⟨[], tok, rfl, tile.atEnd.mpr rfl, tile.start, tile.length, forall_mem_nil _⟩
  | @cons offset gap lexeme rest tok toks tile notEmpty _ ih =>
    obtain ⟨pre, last, rfl, isEnd, start, length, inside⟩ := ih
    refine ⟨tok :: pre, last, rfl, isEnd, ?_, length, forall_mem_cons.mpr ⟨?_, inside⟩⟩
    · rw [start, Span.stop, tile.start, tile.length, byteLength_append, byteLength_append]
      omega
    · exact ⟨mt tile.atEnd.mp notEmpty, tile.length ▸ byteLength_pos notEmpty⟩

theorem Tiles.ordered (tiles : Tiles offset text toks) :
    (∀ tok ∈ toks, offset ≤ tok.span.start) ∧
      toks.Pairwise fun first second =>
        first.span.start < second.span.start ∧ first.span.stop ≤ second.span.start := by
  induction tiles with
  | last tile => simp [tile.start]
  | cons tile notEmpty _ ih =>
    obtain ⟨later, ordered⟩ := ih
    have start := tile.start
    have positive := tile.length ▸ byteLength_pos notEmpty
    simp only [Span.stop] at later
    refine ⟨forall_mem_cons.mpr ⟨by omega, fun tok mem => ?_⟩,
      pairwise_cons.mpr ⟨fun tok mem => ?_, ordered⟩⟩
    · have := later tok mem
      omega
    · have := later tok mem
      simp only [Span.stop]
      omega

/--
The token starts and ends between characters of the text, and its own text is what lies between,
unless it is an error or the end.
-/
structure CutFrom (text : List Char) (tok : Token) : Prop where
  start : (dropBytes tok.span.start text).isSome = true
  stop : (dropBytes tok.span.stop text).isSome = true
  isText : tok.kind ≠ .endOfFile → tok.kind ≠ .error →
    tok.text = some (String.ofList (tok.span.extract text))

theorem Tile.stop_eq (tile : Tile (byteLength pre) gap lexeme rest tok) :
    tok.span.stop = byteLength (pre ++ gap ++ lexeme) := by
  rw [Span.stop, tile.start, tile.length, byteLength_append, byteLength_append]

theorem Tile.cutFrom (tile : Tile (byteLength pre) gap lexeme rest tok) :
    CutFrom (pre ++ gap ++ lexeme ++ rest) tok := by
  have start : tok.span.start = byteLength (pre ++ gap) := by
    rw [tile.start, byteLength_append]
  constructor
  · rw [start, append_assoc, dropBytes_append, Option.isSome_some]
  · rw [tile.stop_eq, dropBytes_append, Option.isSome_some]
  · intro notEnd isRight
    rw [tile.text notEnd isRight, append_assoc, Span.extract_append start tile.length]

theorem Tiles.cutFrom (tiles : Tiles offset text toks) (pre : List Char)
    (isOffset : offset = byteLength pre) : ∀ tok ∈ toks, CutFrom (pre ++ text) tok := by
  induction tiles generalizing pre with
  | last tile =>
    subst isOffset
    have cut := tile.cutFrom
    rw [append_nil, append_nil] at cut
    exact forall_mem_singleton.mpr cut
  | cons tile _ _ ih =>
    subst isOffset
    rw [← append_assoc, ← append_assoc]
    exact forall_mem_cons.mpr ⟨tile.cutFrom, ih _ tile.stop_eq⟩

/--
The tokens of a text tile it: they end with the only token for its end, they lie one after another
on whole characters, and what is between them is trivia.
-/
theorem tokenize_tiles (text : String) :
    Tiles 0 text.toList (tokenize text) ∧
      (∃ before last, tokenize text = before ++ [last] ∧ last.kind = .endOfFile ∧
        last.span.start = byteLength text.toList ∧ last.span.length = 0 ∧
        ∀ token ∈ before, token.kind ≠ .endOfFile ∧ 0 < token.span.length) ∧
      ((tokenize text).Pairwise fun first second =>
        first.span.start < second.span.start ∧ first.span.stop ≤ second.span.start) ∧
      ∀ token ∈ tokenize text, CutFrom text.toList token := by
  have tiles : Tiles 0 text.toList (tokenize text) := tokensFrom_tiles (Cursor.atStart text.toList)
  obtain ⟨before, last, isTokens, isEnd, start, length, inside⟩ := tiles.last_token
  rw [Nat.zero_add] at start
  exact ⟨tiles, ⟨before, last, isTokens, isEnd, start, length, inside⟩, tiles.ordered.2,
    tiles.cutFrom [] rfl⟩

end Imperative.Token
