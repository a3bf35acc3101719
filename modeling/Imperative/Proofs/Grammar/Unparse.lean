import Imperative.Proofs.Grammar.ProgramCompleteness

/-!
# Writing programs

A program is written with a line break between declarations, items and fields, and with parentheses
exactly where an expression binds less tightly than its place wants.
-/

namespace Imperative

open List

open Grammar
open Token (Keyword Symbol Value)
open Imperative.Parser (Separators)

/-! ## Tokens -/

namespace Token

/-- The token of a keyword. -/
def ofKeyword (word : Keyword) : Token :=
  { kind := .keyword word, span := default, text := some word.spelling, value := none }

/-- The token of a symbol. -/
def ofSymbol (mark : Symbol) : Token :=
  { kind := .symbol mark, span := default, text := some mark.spelling, value := none }

/-- The token of an identifier. -/
def ofName (name : String) : Token :=
  { kind := .identifier, span := default, text := some name, value := none }

/-- The token of a literal. -/
def ofValue (val : Value) : Token :=
  { kind :=
      match val with
      | .integer _ => .integerLiteral
      | .real _ => .realLiteral
      | .boolean _ => .booleanLiteral
    span := default
    text := none
    value := some val }

/-- The token of a newline. -/
def lineBreak : Token := .bare .newLine default

/-- A line break, if anything follows. -/
def between {α : Type} : List α → List Token
  | [] => []
  | _ :: _ => [lineBreak]

theorem noSeparators : Separators [] := forall_mem_nil _

theorem between_separators : Separators (between rest) := by
  cases rest with
  | nil => exact noSeparators
  | cons first rest =>
    intro token isIn
    rw [mem_singleton.mp isIn]
    rfl

theorem eq_nil_of_between (none : between rest = []) : rest = [] := by
  cases rest with
  | nil => rfl
  | cons first rest => cases none

end Token

def UnaryOperator.token : UnaryOperator → Token
  | plus => .ofSymbol .plus
  | minus => .ofSymbol .minus
  | not => .ofKeyword .notWord

theorem UnaryOperator.ofToken?_token (op : UnaryOperator) : ofToken? op.token.kind = some op := by
  cases op <;> rfl

def BinaryOperator.token : BinaryOperator → Token
  | add => .ofSymbol .plus
  | sub => .ofSymbol .minus
  | mul => .ofSymbol .star
  | div => .ofSymbol .slash
  | mod => .ofSymbol .percent
  | less => .ofSymbol .less
  | lessEqual => .ofSymbol .lessEqual
  | greater => .ofSymbol .greater
  | greaterEqual => .ofSymbol .greaterEqual
  | equal => .ofSymbol .equal
  | notEqual => .ofSymbol .notEqual
  | and => .ofKeyword .andWord
  | or => .ofKeyword .orWord
  | xor => .ofKeyword .xorWord

theorem BinaryOperator.ofToken?_token (op : BinaryOperator) : ofToken? op.token.kind = some op := by
  cases op <;> rfl

/-! ## Expressions -/

namespace Expr

/-- The level at which an expression is written. -/
def level : Expr → Level
  | integer _ _ | real _ _ | boolean _ _ | name _ _ | call _ _ _ => .atom
  | field _ _ _ | index _ _ _ => .selection
  | unary _ _ _ => .signed
  | binary _ op _ _ => operatorLevel op

/-- Parentheses, if the expression binds less tightly than wanted. -/
def enclose (wanted : Level) (tree : Expr) (tokens : List Token) : List Token :=
  if tree.level.rank < wanted.rank then
    .ofSymbol .leftParen :: tokens ++ [.ofSymbol .rightParen]
  else
    tokens

mutual

/-- The tokens of an expression. -/
def unparse : Expr → List Token
  | integer _ val => [.ofValue (.integer val)]
  | real _ val => [.ofValue (.real val)]
  | boolean _ val => [.ofValue (.boolean val)]
  | name _ identifier => [.ofName identifier]
  | field _ recv identifier =>
    recv.enclose .selection recv.unparse ++ [.ofSymbol .dot, .ofName identifier]
  | index _ recv pos =>
    recv.enclose .selection recv.unparse ++
      .ofSymbol .leftBracket :: pos.unparse ++ [.ofSymbol .rightBracket]
  | call _ routine args =>
    .ofName routine :: .ofSymbol .leftParen :: unparseAll args ++ [.ofSymbol .rightParen]
  | unary _ op operand => op.token :: operand.enclose .signed operand.unparse
  | binary _ op left right =>
    left.enclose (operatorLevel op) left.unparse ++
      op.token :: right.enclose (rightLevel op) right.unparse

/-- Arguments with commas between them. -/
def unparseAll : List Expr → List Token
  | [] => []
  | [last] => last.unparse
  | first :: next :: rest => first.unparse ++ .ofSymbol .comma :: unparseAll (next :: rest)

end

mutual

/-- The expression without its spans. -/
def erase : Expr → Expr
  | integer _ val => integer default val
  | real _ val => real default val
  | boolean _ val => boolean default val
  | name _ identifier => name default identifier
  | field _ recv identifier => field default recv.erase identifier
  | index _ recv pos => index default recv.erase pos.erase
  | call _ routine args => call default routine (eraseAll args)
  | unary _ op operand => unary default op operand.erase
  | binary _ op left right => binary default op left.erase right.erase

def eraseAll : List Expr → List Expr
  | [] => []
  | first :: rest => first.erase :: eraseAll rest

end

theorem erase_withSpan {span : Span} {tree : Expr} : (tree.withSpan span).erase = tree.erase := by
  cases tree <;> rfl

def WrittenAs (level : Level) (tree : Expr) (tokens : List Token) : Prop :=
  ∃ placed, Writes tokens (.expression level placed) ∧ placed.erase = tree.erase

theorem WrittenAs.enclose (written : WrittenAs tree.level tree tokens) :
    WrittenAs wanted tree (tree.enclose wanted tokens) := by
  obtain ⟨placed, writes, same⟩ := written
  rw [Expr.enclose]
  split
  · refine ⟨_, (Writes.parenthesized rfl (writes.looser (Nat.zero_le _)) rfl).looser ?_,
      erase_withSpan.trans same⟩
    cases wanted <;> decide
  · next tight => exact ⟨placed, writes.looser (Nat.le_of_not_lt tight), same⟩

mutual

theorem unparse_writes : (tree : Expr) → WrittenAs tree.level tree tree.unparse
  | integer _ _ => ⟨_, .integer rfl, rfl⟩
  | real _ _ => ⟨_, .real rfl, rfl⟩
  | boolean _ _ => ⟨_, .boolean rfl, rfl⟩
  | name _ _ => ⟨_, .name rfl, rfl⟩
  | field _ recv _ => by
    obtain ⟨placed, writes, same⟩ := (unparse_writes recv).enclose
    exact ⟨_, .field writes rfl rfl, by rw [erase, same, erase]; rfl⟩
  | index _ recv pos => by
    obtain ⟨placed, writes, same⟩ := (unparse_writes recv).enclose
    obtain ⟨inner, writesInner, sameInner⟩ := unparse_writes pos
    exact ⟨_, .index writes rfl (writesInner.looser (Nat.zero_le _)) rfl,
      by rw [erase, same, sameInner, erase]⟩
  | call _ routine args => by
    obtain ⟨placed, writes, same⟩ := unparseAll_writes args
    exact ⟨_, .call rfl rfl writes rfl, by rw [erase, same, erase]; rfl⟩
  | unary _ op operand => by
    obtain ⟨placed, writes, same⟩ := (unparse_writes operand).enclose
    exact ⟨_, .unary op.ofToken?_token writes, by rw [erase, same, erase]⟩
  | binary _ op left right => by
    obtain ⟨placed, writes, same⟩ := (unparse_writes left).enclose
    obtain ⟨other, writesOther, sameOther⟩ := (unparse_writes right).enclose
    exact ⟨_, .binary writes op.ofToken?_token writesOther, by rw [erase, same, sameOther, erase]⟩

theorem unparseAll_writes : (trees : List Expr) →
    ∃ placed, Writes (unparseAll trees) (.arguments placed) ∧ eraseAll placed = eraseAll trees
  | [] => ⟨[], .noArguments, rfl⟩
  | [last] => by
    obtain ⟨placed, writes, same⟩ := unparse_writes last
    exact ⟨[placed], .lastArgument (writes.looser (Nat.zero_le _)), by rw [eraseAll, same]; rfl⟩
  | first :: next :: rest => by
    obtain ⟨placed, writes, same⟩ := unparse_writes first
    obtain ⟨others, writesOthers, sameOthers⟩ := unparseAll_writes (next :: rest)
    cases others with
    | nil => cases sameOthers
    | cons other others =>
      exact ⟨_, .argument (writes.looser (Nat.zero_le _)) rfl writesOthers,
        by rw [eraseAll, same, sameOthers]; rfl⟩

end

theorem exists_writes (tree : Expr) :
    ∃ placed, Writes tree.unparse (.expression .disjunction placed) ∧
      placed.erase = tree.erase := by
  obtain ⟨placed, writes, same⟩ := unparse_writes tree
  exact ⟨placed, writes.looser (Nat.zero_le _), same⟩

/-- The expression is a name or a call with selections. -/
def startsAtName : Expr → Bool
  | name _ _ | call _ _ _ => true
  | field _ recv _ | index _ recv _ => recv.startsAtName
  | _ => false

theorem enclose_eq {tree : Expr} (tight : wanted.rank ≤ tree.level.rank) :
    tree.enclose wanted tokens = tokens := if_neg (Nat.not_lt_of_le tight)

theorem startsAtName_spec : (tree : Expr) → tree.startsAtName = true →
    Level.selection.rank ≤ tree.level.rank ∧ Parser.nextKind tree.unparse = .identifier
  | name _ _, _ | call _ _ _, _ => ⟨Nat.le_succ 7, rfl⟩
  | field _ recv _, starts | index _ recv _, starts => by
    obtain ⟨tight, isName⟩ := startsAtName_spec recv starts
    refine ⟨Nat.le_refl 7, ?_⟩
    simp only [unparse, enclose_eq tight, append_assoc]
    rw [Parser.nextKind_append (by intro none; rw [none] at isName; cases isName)]
    exact isName

end Expr

/-! ## Types -/

def unparseSize : Option Expr → List Token
  | none => [.ofSymbol .leftBracket, .ofSymbol .rightBracket]
  | some size => .ofSymbol .leftBracket :: size.unparse ++ [.ofSymbol .rightBracket]

def unparseInitial : Option Expr → List Token
  | none => []
  | some val => .ofKeyword .isWord :: val.unparse

mutual

def TypeExpr.unparse : TypeExpr → List Token
  | .primitive _ name => [.ofName name.spelling]
  | .named _ name => [.ofName name]
  | .record _ fields =>
    .ofKeyword .recordWord :: (VarDecl.unparseAll fields ++ [.ofKeyword .endWord])
  | .array _ element size => .ofKeyword .arrayWord :: (unparseSize size ++ element.unparse)

def TypeExpr.unparse? : Option TypeExpr → List Token
  | none => []
  | some type => .ofSymbol .colon :: type.unparse

def VarDecl.unparse : VarDecl → List Token
  | .mk _ name type init =>
    .ofKeyword .varWord :: .ofName name :: (TypeExpr.unparse? type ++ unparseInitial init)

def VarDecl.unparseAll : List VarDecl → List Token
  | [] => []
  | first :: rest => first.unparse ++ (Token.between rest ++ VarDecl.unparseAll rest)

end

mutual

def TypeExpr.erase : TypeExpr → TypeExpr
  | .primitive _ name => .primitive default name
  | .named _ name => .named default name
  | .record _ fields => .record default (VarDecl.eraseAll fields)
  | .array _ element size => .array default element.erase (size.map Expr.erase)

def TypeExpr.erase? : Option TypeExpr → Option TypeExpr
  | none => none
  | some type => some type.erase

def VarDecl.erase : VarDecl → VarDecl
  | .mk _ name type init => .mk default name (TypeExpr.erase? type) (init.map Expr.erase)

def VarDecl.eraseAll : List VarDecl → List VarDecl
  | [] => []
  | first :: rest => first.erase :: VarDecl.eraseAll rest

end

mutual

/-- No named type has a built-in name. -/
def TypeExpr.wellFormed : TypeExpr → Bool
  | .primitive _ _ => true
  | .named _ name => (PrimitiveName.ofSpelling? name).isNone
  | .record _ fields => VarDecl.wellFormedAll fields
  | .array _ element _ => element.wellFormed

def TypeExpr.wellFormed? : Option TypeExpr → Bool
  | none => true
  | some type => type.wellFormed

def VarDecl.wellFormed : VarDecl → Bool
  | .mk _ _ type _ => TypeExpr.wellFormed? type

def VarDecl.wellFormedAll : List VarDecl → Bool
  | [] => true
  | first :: rest => first.wellFormed && VarDecl.wellFormedAll rest

end

theorem PrimitiveName.ofSpelling?_spelling (name : PrimitiveName) :
    ofSpelling? name.spelling = some name := by
  cases name <;> decide

theorem unparseSize_writes :
    ∃ placed, WritesSize (unparseSize size) placed ∧
      placed.map Expr.erase = size.map Expr.erase := by
  cases size with
  | none => exact ⟨none, .unsized rfl rfl, rfl⟩
  | some size =>
    obtain ⟨placed, writes, same⟩ := size.exists_writes
    exact ⟨some placed, .sized rfl writes rfl, congrArg some same⟩

theorem unparseInitial_writes :
    ∃ placed, WritesInitial (unparseInitial init) placed ∧
      placed.map Expr.erase = init.map Expr.erase := by
  cases init with
  | none => exact ⟨none, .missing, rfl⟩
  | some val =>
    obtain ⟨placed, writes, same⟩ := val.exists_writes
    exact ⟨some placed, .given rfl writes, congrArg some same⟩

mutual

theorem TypeExpr.unparse_writes : (tree : TypeExpr) → tree.wellFormed = true →
    ∃ placed, WritesType tree.unparse (.type placed) ∧ placed.erase = tree.erase
  | .primitive _ name, _ => ⟨_, .primitive rfl name.ofSpelling?_spelling, rfl⟩
  | .named _ name, wellFormed => ⟨_, .named rfl (Option.isNone_iff_eq_none.mp wellFormed), rfl⟩
  | .record _ fields, wellFormed => by
    obtain ⟨placed, writes, same⟩ := VarDecl.unparseAll_writes fields wellFormed
    have opens : (Token.ofKeyword .recordWord).kind = .keyword .recordWord := rfl
    exact ⟨_, .record opens Token.noSeparators writes rfl,
      by rw [TypeExpr.erase, same, TypeExpr.erase]⟩
  | .array _ element size, wellFormed => by
    obtain ⟨placed, writes, same⟩ := TypeExpr.unparse_writes element wellFormed
    obtain ⟨placedSize, writesSize, sameSize⟩ := unparseSize_writes
    exact ⟨_, .array rfl writesSize writes, by rw [TypeExpr.erase, same, sameSize, TypeExpr.erase]⟩

theorem TypeExpr.unparse?_writes : (tree : Option TypeExpr) → TypeExpr.wellFormed? tree = true →
    ∃ placed, WritesType (TypeExpr.unparse? tree) (.ascription placed) ∧
      TypeExpr.erase? placed = TypeExpr.erase? tree
  | none, _ => ⟨none, .untyped, rfl⟩
  | some type, wellFormed => by
    obtain ⟨placed, writes, same⟩ := TypeExpr.unparse_writes type wellFormed
    exact ⟨some placed, .typed rfl writes, congrArg some same⟩

theorem VarDecl.unparse_writes : (tree : VarDecl) → tree.wellFormed = true →
    ∃ placed, WritesType tree.unparse (.varDecl placed) ∧ placed.erase = tree.erase
  | .mk _ name type init, wellFormed => by
    obtain ⟨placed, writes, same⟩ := TypeExpr.unparse?_writes type wellFormed
    obtain ⟨placedInit, writesInit, sameInit⟩ := unparseInitial_writes
    exact ⟨_, .varDecl rfl rfl writes writesInit,
      by rw [VarDecl.erase, same, sameInit, VarDecl.erase]; rfl⟩

theorem VarDecl.unparseAll_writes : (trees : List VarDecl) → VarDecl.wellFormedAll trees = true →
    ∃ placed, WritesType (VarDecl.unparseAll trees) (.fields placed) ∧
      VarDecl.eraseAll placed = VarDecl.eraseAll trees
  | [], _ => ⟨[], .noFields, rfl⟩
  | first :: rest, wellFormed => by
    obtain ⟨wellFormedFirst, wellFormedRest⟩ := Bool.and_eq_true_iff.mp wellFormed
    obtain ⟨placed, writes, same⟩ := VarDecl.unparse_writes first wellFormedFirst
    obtain ⟨others, writesOthers, sameOthers⟩ := VarDecl.unparseAll_writes rest wellFormedRest
    exact ⟨placed :: others, .field writes Token.between_separators writesOthers,
      by rw [VarDecl.eraseAll, same, sameOthers, VarDecl.eraseAll]⟩

end

/-! ## Statements -/

def Direction.unparse : Direction → List Token
  | .forward => []
  | .reverse => [.ofKeyword .reverseWord]

theorem Direction.unparse_writes (dir : Direction) : WritesDirection dir.unparse dir := by
  cases dir with
  | forward => exact .forward
  | reverse => exact .reverse rfl

def Parameter.unparseAll : List Parameter → List Token
  | [] => []
  | [last] => .ofName last.name :: .ofSymbol .colon :: last.type.unparse
  | first :: next :: rest =>
    .ofName first.name :: .ofSymbol .colon ::
      (first.type.unparse ++ .ofSymbol .comma :: Parameter.unparseAll (next :: rest))

mutual

/-- The tokens of a statement; those without a syntax of their own have none. -/
def Statement.unparse : Statement → List Token
  | .assign _ tgt val => tgt.unparse ++ .ofSymbol .assign :: val.unparse
  | .call span routine args => (Expr.call span routine args).unparse
  | .branch _ cond consequent none =>
    .ofKeyword .ifWord :: (cond.unparse ++ .ofKeyword .thenWord ::
      (consequent.unparse ++ [.ofKeyword .endWord]))
  | .branch _ cond consequent (some alternative) =>
    .ofKeyword .ifWord :: (cond.unparse ++ .ofKeyword .thenWord ::
      (consequent.unparse ++ .ofKeyword .elseWord ::
        (alternative.unparse ++ [.ofKeyword .endWord])))
  | .whileLoop _ cond body =>
    .ofKeyword .whileWord :: (cond.unparse ++ .ofKeyword .loopWord ::
      (body.unparse ++ [.ofKeyword .endWord]))
  | .rangeLoop _ iter first last dir body =>
    .ofKeyword .forWord :: .ofName iter :: .ofKeyword .inWord ::
      (first.unparse ++ .ofSymbol .dotDot :: last.unparse ++
        (dir.unparse ++ .ofKeyword .loopWord :: (body.unparse ++ [.ofKeyword .endWord])))
  | .arrayLoop _ iter array dir body =>
    .ofKeyword .forWord :: .ofName iter :: .ofKeyword .inWord ::
      (array.unparse ++
        (dir.unparse ++ .ofKeyword .loopWord :: (body.unparse ++ [.ofKeyword .endWord])))
  | .giveBack _ none => [.ofKeyword .returnWord]
  | .giveBack _ (some val) => .ofKeyword .returnWord :: val.unparse
  | .print _ items => .ofKeyword .printWord :: Expr.unparseAll items
  | .empty _ => []
  | .block _ _ => []

def Block.unparse : Block → List Token
  | .mk _ items => Item.unparseAll items

def Item.unparseAll : List Item → List Token
  | [] => []
  | first :: rest => first.unparse ++ (Token.between rest ++ Item.unparseAll rest)

def Item.unparse : Item → List Token
  | .declaration inner => inner.unparse
  | .statement inner => inner.unparse

def Declaration.unparse : Declaration → List Token
  | .var inner => inner.unparse
  | .type inner =>
    .ofKeyword .typeWord :: .ofName inner.name :: .ofKeyword .isWord :: inner.type.unparse
  | .routine inner => inner.unparse

def Routine.unparse : Routine → List Token
  | .mk _ name params res body =>
    .ofKeyword .routineWord :: .ofName name :: .ofSymbol .leftParen ::
      (Parameter.unparseAll params ++ .ofSymbol .rightParen ::
        (TypeExpr.unparse? res ++ Body.unparse? body))

def Body.unparse? : Option Body → List Token
  | none => []
  | some (.expression val) => .ofSymbol .arrow :: val.unparse
  | some (.block inner) => .ofKeyword .isWord :: (inner.unparse ++ [.ofKeyword .endWord])

end

def TypeDecl.erase (decl : TypeDecl) : TypeDecl :=
  { span := default, name := decl.name, type := decl.type.erase }

def Parameter.erase (param : Parameter) : Parameter :=
  { span := default, name := param.name, type := param.type.erase }

mutual

/-- The statement without its spans. -/
def Statement.erase : Statement → Statement
  | .assign _ tgt val => .assign default tgt.erase val.erase
  | .call _ routine args => .call default routine (Expr.eraseAll args)
  | .branch _ cond consequent none => .branch default cond.erase consequent.erase none
  | .branch _ cond consequent (some alternative) =>
    .branch default cond.erase consequent.erase (some alternative.erase)
  | .whileLoop _ cond body => .whileLoop default cond.erase body.erase
  | .rangeLoop _ iter first last dir body =>
    .rangeLoop default iter first.erase last.erase dir body.erase
  | .arrayLoop _ iter array dir body => .arrayLoop default iter array.erase dir body.erase
  | .giveBack _ val => .giveBack default (val.map Expr.erase)
  | .print _ items => .print default (Expr.eraseAll items)
  | .empty _ => .empty default
  | .block _ inner => .block default inner.erase

def Block.erase : Block → Block
  | .mk _ items => .mk default (Item.eraseAll items)

def Item.eraseAll : List Item → List Item
  | [] => []
  | first :: rest => first.erase :: Item.eraseAll rest

def Item.erase : Item → Item
  | .declaration inner => .declaration inner.erase
  | .statement inner => .statement inner.erase

def Declaration.erase : Declaration → Declaration
  | .var inner => .var inner.erase
  | .type inner => .type inner.erase
  | .routine inner => .routine inner.erase

def Routine.erase : Routine → Routine
  | .mk _ name params res body =>
    .mk default name (params.map Parameter.erase) (TypeExpr.erase? res) (Body.erase? body)

def Body.erase? : Option Body → Option Body
  | none => none
  | some (.expression val) => some (.expression val.erase)
  | some (.block inner) => some (.block inner.erase)

end

mutual

/-- The statement can be written. -/
def Statement.wellFormed : Statement → Bool
  | .assign _ tgt _ => tgt.startsAtName
  | .call _ _ _ | .giveBack _ _ => true
  | .branch _ _ consequent none => consequent.wellFormed
  | .branch _ _ consequent (some alternative) => consequent.wellFormed && alternative.wellFormed
  | .whileLoop _ _ body | .rangeLoop _ _ _ _ _ body | .arrayLoop _ _ _ _ body => body.wellFormed
  | .print _ items => !items.isEmpty
  | .empty _ | .block _ _ => false

def Block.wellFormed : Block → Bool
  | .mk _ items => Item.wellFormedAll items

def Item.wellFormedAll : List Item → Bool
  | [] => true
  | first :: rest => first.wellFormed && Item.wellFormedAll rest

def Item.wellFormed : Item → Bool
  | .declaration (.var inner) => inner.wellFormed
  | .declaration (.type inner) => inner.type.wellFormed
  | .declaration (.routine _) => false
  | .statement inner => inner.wellFormed

end

mutual

theorem Statement.unparse_writes : (tree : Statement) → tree.wellFormed = true →
    ∃ placed, WritesStatement tree.unparse (.statement placed) ∧ placed.erase = tree.erase
  | .assign _ tgt val, wellFormed => by
    obtain ⟨tight, isName⟩ := tgt.startsAtName_spec wellFormed
    obtain ⟨placed, writes, same⟩ := tgt.unparse_writes
    obtain ⟨placedVal, writesVal, sameVal⟩ := val.exists_writes
    exact ⟨_, .assign (writes.looser tight) isName rfl writesVal,
      by rw [Statement.erase, same, sameVal, Statement.erase]⟩
  | .call span routine args, _ => by
    obtain ⟨placed, writes, same⟩ := Expr.unparseAll_writes args
    exact ⟨_, .call (.tighter rfl (.call rfl rfl writes rfl)) rfl,
      by rw [Statement.erase, same, Statement.erase]; rfl⟩
  | .branch _ cond consequent none, wellFormed => by
    obtain ⟨test, writesTest, sameTest⟩ := cond.exists_writes
    obtain ⟨placed, writes, same⟩ := Block.unparse_writes consequent wellFormed
      (.ofKeyword .thenWord) (.ofKeyword .endWord)
    exact ⟨_, .branch rfl writesTest rfl writes rfl,
      by rw [Statement.erase, sameTest, same, Statement.erase]⟩
  | .branch _ cond consequent (some alternative), wellFormed => by
    obtain ⟨wellFormedFirst, wellFormedSecond⟩ := Bool.and_eq_true_iff.mp wellFormed
    obtain ⟨test, writesTest, sameTest⟩ := cond.exists_writes
    obtain ⟨placed, writes, same⟩ := Block.unparse_writes consequent wellFormedFirst
      (.ofKeyword .thenWord) (.ofKeyword .elseWord)
    obtain ⟨other, writesOther, sameOther⟩ := Block.unparse_writes alternative wellFormedSecond
      (.ofKeyword .elseWord) (.ofKeyword .endWord)
    exact ⟨_, .branchElse rfl writesTest rfl writes rfl writesOther rfl,
      by rw [Statement.erase, sameTest, same, sameOther, Statement.erase]⟩
  | .whileLoop _ cond body, wellFormed => by
    obtain ⟨test, writesTest, sameTest⟩ := cond.exists_writes
    obtain ⟨placed, writes, same⟩ := Block.unparse_writes body wellFormed
      (.ofKeyword .loopWord) (.ofKeyword .endWord)
    exact ⟨_, .whileLoop rfl writesTest rfl writes rfl,
      by rw [Statement.erase, sameTest, same, Statement.erase]⟩
  | .rangeLoop _ iter first last dir body, wellFormed => by
    obtain ⟨low, writesLow, sameLow⟩ := first.exists_writes
    obtain ⟨high, writesHigh, sameHigh⟩ := last.exists_writes
    obtain ⟨placed, writes, same⟩ := Block.unparse_writes body wellFormed
      (.ofKeyword .loopWord) (.ofKeyword .endWord)
    exact ⟨_, .forLoop rfl rfl rfl (.range writesLow rfl writesHigh) dir.unparse_writes rfl
        writes rfl,
      by rw [loopStatement, Statement.erase, sameLow, sameHigh, same, Statement.erase]; rfl⟩
  | .arrayLoop _ iter array dir body, wellFormed => by
    obtain ⟨placedArray, writesOver, sameOver⟩ := array.exists_writes
    obtain ⟨placed, writes, same⟩ := Block.unparse_writes body wellFormed
      (.ofKeyword .loopWord) (.ofKeyword .endWord)
    exact ⟨_, .forLoop rfl rfl rfl (.array writesOver) dir.unparse_writes rfl writes rfl,
      by rw [loopStatement, Statement.erase, sameOver, same, Statement.erase]; rfl⟩
  | .giveBack _ none, _ => ⟨_, .returnNothing rfl, rfl⟩
  | .giveBack _ (some val), _ => by
    obtain ⟨placed, writes, same⟩ := val.exists_writes
    exact ⟨_, .returnValue rfl writes,
      by rw [Statement.erase, Option.map_some, same, Statement.erase]; rfl⟩
  | .print _ items, wellFormed => by
    obtain ⟨placed, writes, same⟩ := Expr.unparseAll_writes items
    cases items with
    | nil => cases wellFormed
    | cons item items =>
      cases placed with
      | nil => cases same
      | cons first others =>
        exact ⟨_, .print rfl writes, by rw [Statement.erase, same, Statement.erase]⟩

theorem Block.unparse_writes : (tree : Block) → tree.wellFormed = true → (pre post : Token) →
    ∃ placed, WritesStatement tree.unparse (.block pre post placed) ∧ placed.erase = tree.erase
  | .mk _ items, wellFormed, pre, post => by
    obtain ⟨placed, writes, same⟩ := Item.unparseAll_writes items wellFormed
    exact ⟨_, .block Token.noSeparators writes, by rw [Block.erase, same, Block.erase]⟩

theorem Item.unparseAll_writes : (trees : List Item) → Item.wellFormedAll trees = true →
    ∃ placed, WritesStatement (Item.unparseAll trees) (.items placed) ∧
      Item.eraseAll placed = Item.eraseAll trees
  | [], _ => ⟨[], .noItems, rfl⟩
  | first :: rest, wellFormed => by
    obtain ⟨wellFormedFirst, wellFormedRest⟩ := Bool.and_eq_true_iff.mp wellFormed
    obtain ⟨placed, writes, same⟩ := Item.unparse_writes first wellFormedFirst
    obtain ⟨others, writesOthers, sameOthers⟩ := Item.unparseAll_writes rest wellFormedRest
    have apart : isOpen placed = true → Token.between rest = [] → others = [] := by
      intro _ none
      rw [Token.eq_nil_of_between none] at sameOthers
      cases others with
      | nil => rfl
      | cons other others => cases sameOthers
    exact ⟨placed :: others, .item writes Token.between_separators writesOthers apart,
      by rw [Item.eraseAll, same, sameOthers, Item.eraseAll]⟩

theorem Item.unparse_writes : (tree : Item) → tree.wellFormed = true →
    ∃ placed, WritesStatement tree.unparse (.item placed) ∧ placed.erase = tree.erase
  | .declaration (.var inner), wellFormed => by
    obtain ⟨placed, writes, same⟩ := inner.unparse_writes wellFormed
    exact ⟨_, .declarationItem (.var writes),
      by rw [Item.erase, Declaration.erase, same, Item.erase, Declaration.erase]⟩
  | .declaration (.type inner), wellFormed => by
    obtain ⟨placed, writes, same⟩ := inner.type.unparse_writes wellFormed
    exact ⟨_, .declarationItem (.type rfl rfl rfl writes),
      by rw [Item.erase, Declaration.erase, TypeDecl.erase, same]; rfl⟩
  | .statement inner, wellFormed => by
    obtain ⟨placed, writes, same⟩ := Statement.unparse_writes inner wellFormed
    exact ⟨_, .statementItem writes, by rw [Item.erase, same, Item.erase]⟩

end

/-! ## Programs -/

def Body.wellFormed? : Option Body → Bool
  | none | some (.expression _) => true
  | some (.block inner) => inner.wellFormed

def Routine.wellFormed (routine : Routine) : Bool :=
  routine.parameters.all (·.type.wellFormed) &&
    TypeExpr.wellFormed? routine.result && Body.wellFormed? routine.body

def Declaration.wellFormed : Declaration → Bool
  | .var inner => inner.wellFormed
  | .type inner => inner.type.wellFormed
  | .routine inner => inner.wellFormed

namespace Program

/--
The program can be written: no statement is empty or a bare block, every type that is named has
another name than the built-in ones, no routine is declared in another one, something is printed
by every `print`, and what is assigned to starts at a name or a call.
-/
def wellFormed (program : Program) : Bool := program.declarations.all Declaration.wellFormed

def unparseAll : List Declaration → List Token
  | [] => []
  | first :: rest => first.unparse ++ (Token.between rest ++ unparseAll rest)

/-- The tokens of a program. -/
def unparse (program : Program) : List Token := unparseAll program.declarations

/-- The program without its spans. -/
def erase (program : Program) : Program :=
  { span := default, declarations := program.declarations.map Declaration.erase }

end Program

theorem Parameter.unparseAll_writes : (trees : List Parameter) →
    (trees.all (·.type.wellFormed)) = true →
    ∃ placed, (Parameter.unparseAll trees = [] ∧ placed = [] ∨
        WritesParameters (Parameter.unparseAll trees) placed) ∧
      placed.map Parameter.erase = trees.map Parameter.erase
  | [], _ => ⟨[], .inl ⟨rfl, rfl⟩, rfl⟩
  | [last], wellFormed => by
    obtain ⟨placed, writes, same⟩ := last.type.unparse_writes (by simpa using wellFormed)
    exact ⟨_, .inr (.last rfl rfl writes), by rw [map_singleton, Parameter.erase, same]; rfl⟩
  | first :: next :: rest, wellFormed => by
    rw [all_cons, Bool.and_eq_true_iff] at wellFormed
    obtain ⟨placed, writes, same⟩ := first.type.unparse_writes wellFormed.1
    obtain ⟨others, isNone | writesOthers, sameOthers⟩ :=
      Parameter.unparseAll_writes (next :: rest) wellFormed.2
    · rw [isNone.2] at sameOthers
      cases sameOthers
    · exact ⟨_, .inr (.more rfl rfl writes rfl writesOthers),
        by rw [map_cons, Parameter.erase, same, sameOthers]; rfl⟩

theorem Body.unparse?_writes (wellFormed : Body.wellFormed? tree = true) :
    ∃ placed, WritesBody (Body.unparse? tree) placed ∧ Body.erase? placed = Body.erase? tree := by
  match tree, wellFormed with
  | none, _ => exact ⟨none, .missing, rfl⟩
  | some (.expression val), _ =>
    obtain ⟨placed, writes, same⟩ := val.exists_writes
    exact ⟨_, .expression rfl writes, by rw [Body.erase?, same, Body.erase?]⟩
  | some (.block inner), wellFormed =>
    obtain ⟨placed, writes, same⟩ := inner.unparse_writes wellFormed (.ofKeyword .isWord)
      (.ofKeyword .endWord)
    exact ⟨_, .block rfl writes rfl, by rw [Body.erase?, same, Body.erase?]⟩

theorem Routine.unparse_writes (tree : Routine) (wellFormed : tree.wellFormed = true) :
    ∃ placed, WritesRoutine tree.unparse placed ∧ placed.erase = tree.erase := by
  cases tree with
  | mk span name params res body =>
    simp only [Routine.wellFormed, Bool.and_eq_true] at wellFormed
    obtain ⟨⟨ofParameters, ofResult⟩, ofBody⟩ := wellFormed
    obtain ⟨placed, writes, same⟩ := Parameter.unparseAll_writes params ofParameters
    obtain ⟨placedRes, writesRes, sameRes⟩ := TypeExpr.unparse?_writes res ofResult
    obtain ⟨placedBody, writesBody, sameBody⟩ := Body.unparse?_writes ofBody
    exact ⟨_, .mk rfl rfl rfl writes rfl writesRes writesBody,
      by rw [Routine.erase, same, sameRes, sameBody, Routine.erase]; rfl⟩

theorem Declaration.unparse_writes (tree : Declaration) (wellFormed : tree.wellFormed = true) :
    ∃ placed, WritesDeclaration tree.unparse placed ∧ placed.erase = tree.erase := by
  cases tree with
  | var inner =>
    obtain ⟨placed, writes, same⟩ := inner.unparse_writes wellFormed
    exact ⟨_, .simple (.var writes), by rw [Declaration.erase, same, Declaration.erase]⟩
  | type inner =>
    obtain ⟨placed, writes, same⟩ := inner.type.unparse_writes wellFormed
    exact ⟨_, .simple (.type rfl rfl rfl writes),
      by rw [Declaration.erase, TypeDecl.erase, same]; rfl⟩
  | routine inner =>
    obtain ⟨placed, writes, same⟩ := inner.unparse_writes wellFormed
    exact ⟨_, .routine writes, by rw [Declaration.erase, same, Declaration.erase]⟩

namespace Program

theorem unparseAll_writes (wellFormed : trees.all Declaration.wellFormed = true) :
    ∃ placed, WritesDeclarations (unparseAll trees) placed ∧
      placed.map Declaration.erase = trees.map Declaration.erase := by
  induction trees with
  | nil => exact ⟨[], .nil, rfl⟩
  | cons first rest ih =>
    rw [all_cons, Bool.and_eq_true_iff] at wellFormed
    obtain ⟨placed, writes, same⟩ := first.unparse_writes wellFormed.1
    obtain ⟨others, writesOthers, sameOthers⟩ := ih wellFormed.2
    have apart : isForward placed = true → Token.between rest = [] → others = [] := by
      intro _ none
      rw [Token.eq_nil_of_between none] at sameOthers
      exact map_eq_nil_iff.mp sameOthers
    exact ⟨placed :: others, .cons writes Token.between_separators writesOthers apart,
      by rw [map_cons, same, sameOthers, map_cons]⟩

theorem unparse_writes (program : Program) (wellFormed : program.wellFormed = true)
    (closing : Span) :
    ∃ placed, WritesProgram closing program.unparse placed ∧ placed.erase = program.erase := by
  obtain ⟨placed, writes, same⟩ := unparseAll_writes wellFormed
  exact ⟨_, .mk Token.noSeparators writes, by rw [erase, same, erase]⟩

theorem inside_of_regular (regular : Regular tokens) :
    ∀ token ∈ tokens, token.kind ≠ .endOfFile := by
  intro token isIn isEnd
  have isPart := regular token isIn
  rw [isEnd] at isPart
  cases isPart

/--
Parsing inverts writing: the tokens of a well-formed program are parsed without a diagnostic, and
the program that is returned is the one that was written, up to the spans.
-/
theorem parseTokens_unparse (program : Program) (wellFormed : program.wellFormed = true)
    (closing : Span) :
    let parsed := Program.parseTokens (program.unparse ++ [.bare .endOfFile closing])
    parsed.diagnostics = [] ∧ parsed.value.erase = program.erase := by
  obtain ⟨placed, writes, same⟩ := unparse_writes program wellFormed closing
  have isFeed := Parser.Feed.ofTokens_append_end (inside_of_regular writes.regular) closing
  have isRun : Program.parseTokens (program.unparse ++ [.bare .endOfFile closing]) =
      { value := placed, diagnostics := [] } :=
    Parser.parseTokens_of_writes (by rw [isFeed]; exact writes)
  rw [isRun]
  exact ⟨rfl, same⟩

/-- A recursive routine with a forward declaration, and a loop that prints what it returns. -/
def factorial : Program :=
  let integer : TypeExpr := .primitive default .integer
  let param : Parameter := { span := default, name := "n", type := integer }
  let arg : Expr := .name default "n"
  let one : Expr := .integer default 1
  { span := default
    declarations :=
      [.routine (.mk default "factorial" [param] (some integer) none),
        .routine (.mk default "main" [] none (some (.block (.mk default
          [.statement (.rangeLoop default "i" one (.integer default 10) .reverse (.mk default
            [.statement (.print default [.call default "factorial" [.name default "i"]])]))])))),
        .routine (.mk default "factorial" [param] (some integer) (some (.block (.mk default
          [.statement (.branch default (.binary default .less arg one)
            (.mk default [.statement (.giveBack default (some one))]) none),
           .statement (.giveBack default (some (.binary default .mul arg
            (.call default "factorial" [.binary default .sub arg one]))))]))))] }

theorem parseTokens_unparse_factorial :
    factorial.wellFormed = true ∧
      let parsed := Program.parseTokens (factorial.unparse ++ [.bare .endOfFile default])
      parsed.diagnostics = [] ∧ parsed.value.erase = factorial.erase :=
  ⟨rfl, parseTokens_unparse factorial rfl default⟩

end Program

end Imperative
