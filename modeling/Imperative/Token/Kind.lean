/-!
# Kinds of tokens

A token is a keyword, a symbol, an identifier, a literal, a line break, the end of
the text, or an error.  Keywords and symbols have a fixed spelling, from which
both the scanner and the messages are derived.
-/

namespace Imperative.Token

/-- The reserved words. -/
inductive Keyword where
  | varWord
  | typeWord
  | recordWord
  | arrayWord
  | routineWord
  | isWord
  | endWord
  | ifWord
  | thenWord
  | elseWord
  | whileWord
  | forWord
  | inWord
  | reverseWord
  | loopWord
  | returnWord
  | printWord
  | andWord
  | orWord
  | xorWord
  | notWord
  deriving DecidableEq

namespace Keyword

def spelling : Keyword → String
  | varWord => "var"
  | typeWord => "type"
  | recordWord => "record"
  | arrayWord => "array"
  | routineWord => "routine"
  | isWord => "is"
  | endWord => "end"
  | ifWord => "if"
  | thenWord => "then"
  | elseWord => "else"
  | whileWord => "while"
  | forWord => "for"
  | inWord => "in"
  | reverseWord => "reverse"
  | loopWord => "loop"
  | returnWord => "return"
  | printWord => "print"
  | andWord => "and"
  | orWord => "or"
  | xorWord => "xor"
  | notWord => "not"

def all : List Keyword :=
  [varWord, typeWord, recordWord, arrayWord, routineWord, isWord, endWord, ifWord, thenWord,
    elseWord, whileWord, forWord, inWord, reverseWord, loopWord, returnWord, printWord, andWord,
    orWord, xorWord, notWord]

def ofSpelling? (word : String) : Option Keyword :=
  all.find? fun keyword => keyword.spelling = word

/-- The name of a keyword in listings: its spelling with a capital letter. -/
def label (keyword : Keyword) : String :=
  keyword.spelling.capitalize

end Keyword

/-- Punctuation and the operators that are not words. -/
inductive Symbol where
  | leftParen
  | rightParen
  | leftBracket
  | rightBracket
  | comma
  | colon
  | semicolon
  | dot
  | dotDot
  | assign
  | arrow
  | plus
  | minus
  | star
  | slash
  | percent
  | less
  | lessEqual
  | greater
  | greaterEqual
  | equal
  | notEqual
  deriving DecidableEq

namespace Symbol

def spelling : Symbol → String
  | leftParen => "("
  | rightParen => ")"
  | leftBracket => "["
  | rightBracket => "]"
  | comma => ","
  | colon => ":"
  | semicolon => ";"
  | dot => "."
  | dotDot => ".."
  | assign => ":="
  | arrow => "=>"
  | plus => "+"
  | minus => "-"
  | star => "*"
  | slash => "/"
  | percent => "%"
  | less => "<"
  | lessEqual => "<="
  | greater => ">"
  | greaterEqual => ">="
  | equal => "="
  | notEqual => "/="

def label : Symbol → String
  | leftParen => "LParen"
  | rightParen => "RParen"
  | leftBracket => "LBracket"
  | rightBracket => "RBracket"
  | comma => "Comma"
  | colon => "Colon"
  | semicolon => "Semicolon"
  | dot => "Dot"
  | dotDot => "DotDot"
  | assign => "Assign"
  | arrow => "Arrow"
  | plus => "Plus"
  | minus => "Minus"
  | star => "Star"
  | slash => "Slash"
  | percent => "Percent"
  | less => "Less"
  | lessEqual => "LessEqual"
  | greater => "Greater"
  | greaterEqual => "GreaterEqual"
  | equal => "Equal"
  | notEqual => "NotEqual"

def all : List Symbol :=
  [leftParen, rightParen, leftBracket, rightBracket, comma, colon, semicolon, dot, dotDot, assign,
    arrow, plus, minus, star, slash, percent, less, lessEqual, greater, greaterEqual, equal,
    notEqual]

end Symbol

/-- What a token is. -/
inductive Kind where
  | endOfFile
  | error
  | newLine
  | identifier
  | integerLiteral
  | realLiteral
  | booleanLiteral
  | keyword (word : Keyword)
  | symbol (mark : Symbol)
  deriving DecidableEq

namespace Kind

def describe : Kind → String
  | endOfFile => "end of file"
  | error => "error"
  | newLine => "newline"
  | identifier => "identifier"
  | integerLiteral => "integer literal"
  | realLiteral => "real literal"
  | booleanLiteral => "boolean literal"
  | keyword word => "'" ++ word.spelling ++ "'"
  | symbol mark => "'" ++ mark.spelling ++ "'"

def label : Kind → String
  | endOfFile => "Eof"
  | error => "Error"
  | newLine => "NewLine"
  | identifier => "Identifier"
  | integerLiteral => "IntegerLiteral"
  | realLiteral => "RealLiteral"
  | booleanLiteral => "BooleanLiteral"
  | keyword word => word.label
  | symbol mark => mark.label

def all : List Kind :=
  [endOfFile, error, newLine, identifier, integerLiteral, realLiteral, booleanLiteral] ++
    Keyword.all.map keyword ++ Symbol.all.map symbol

def ofLabel? (label : String) : Option Kind :=
  all.find? fun kind => kind.label = label

def startsDeclaration : Kind → Bool
  | keyword .varWord | keyword .typeWord | keyword .routineWord => true
  | _ => false

def isSeparator : Kind → Bool
  | newLine | symbol .semicolon => true
  | _ => false

def isKeyword : Kind → Bool
  | keyword _ => true
  | _ => false

def isLiteral : Kind → Bool
  | integerLiteral | realLiteral | booleanLiteral => true
  | _ => false

def isOperator : Kind → Bool
  | keyword .andWord | keyword .orWord | keyword .xorWord | keyword .notWord => true
  | symbol .leftParen | symbol .rightParen | symbol .leftBracket | symbol .rightBracket
  | symbol .comma | symbol .colon | symbol .semicolon | symbol .dot => false
  | symbol _ => true
  | _ => false

/-- Whether the token ends a block: `end`, `else` or the end of the text. -/
def endsBlock : Kind → Bool
  | keyword .endWord | keyword .elseWord | endOfFile => true
  | _ => false

end Kind

end Imperative.Token
