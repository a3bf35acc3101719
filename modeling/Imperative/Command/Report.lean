import Imperative.Compiler.Compilation

/-!
# Reports

What the command tells about a compilation: each diagnostic with the line it is about,
counts, and the tokens of a text.
-/

namespace Imperative.Command

open Compiler (Statistics)

def times (count : Nat) (character : Char) : String :=
  String.ofList (List.replicate count character)

/-! ## Diagnostics -/

def lineOf (lines : List (List Char)) (diagnostic : Diagnostic) : Option (List Char) :=
  lines[diagnostic.span.line - 1]?

def excerpt (line : List Char) (span : Span) : String :=
  let before := span.column - 1
  let room := max (Text.byteLength line - before) 1
  let width := min (max span.length 1) room
  "  " ++ String.ofList line ++ "\n" ++ "  " ++ times before ' ' ++ times width '^' ++ "\n"

def reportOne (path : String) (lines : List (List Char)) (diagnostic : Diagnostic) : String :=
  let title :=
    path ++ ":" ++ toString diagnostic.span.line ++ ":" ++ toString diagnostic.span.column ++
      ": error: " ++ diagnostic.message ++ "\n"
  match lineOf lines diagnostic with
  | some line => title ++ excerpt line diagnostic.span
  | none => title

def report (path text : String) (diagnostics : List Diagnostic) : String :=
  let lines := Text.lines text.toList
  String.join (diagnostics.map (reportOne path lines)) ++
    "失敗: " ++ toString diagnostics.length ++ " 件のエラー\n"

/-! ## Counts -/

def reportStatistics (statistics : Statistics) : String :=
  "統計情報\n" ++
    "  行数:             " ++ toString statistics.lines ++ "\n" ++
    "  トークン数:       " ++ toString statistics.tokens ++ "\n" ++
    "  宣言数:           " ++ toString statistics.declarations ++ "\n" ++
    "  関数数:           " ++ toString statistics.functions ++ "\n" ++
    "  畳み込み:         " ++ toString statistics.folded ++ "\n" ++
    "  除去した文:       " ++ toString statistics.removed ++ "\n"

/-! ## Tokens -/

/-- A character of a token; only line ends and quotation marks have to be escaped. -/
def visible : Char → List Char
  | '\n' => ['\\', 'n']
  | '\r' => ['\\', 'r']
  | '\t' => ['\\', 't']
  | '"' => ['\\', '"']
  | '\'' => ['\\', '\'']
  | '\\' => ['\\', '\\']
  | character => [character]

/-- Where a token is: the line flush right in five columns, and the column flush left in four. -/
def position (span : Span) : String :=
  let line := toString span.line
  let column := toString span.column
  times (5 - line.length) ' ' ++ line ++ ":" ++ column ++ times (4 - column.length) ' '

/-- What is told about a token: of an error its message, and of any other its part of the text. -/
def reportToken (text : List Char) (token : Token) : String :=
  let content :=
    if token.kind = .error then token.text.getD ""
    else String.ofList ((token.span.extract text).flatMap visible)
  position token.span ++ " " ++ token.kind.label ++ " " ++ content ++ "\n"

/-- The tokens that are told about; line ends only if asked for. -/
def reportedTokens (newlines : Bool) (tokens : List Token) : List Token :=
  tokens.filter fun token => newlines || token.kind ≠ .newLine

end Imperative.Command
