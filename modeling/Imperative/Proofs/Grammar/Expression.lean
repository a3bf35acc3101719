import Imperative.Proofs.Grammar.Runs

/-!
# The grammar of expressions

Expressions have levels, from those that bind least to those that bind most.  Every binary operator
associates to the left: its left operand is of its own level and its right one of the next.
-/

namespace Imperative.Grammar

open List

open Token (Kind)
open Imperative.Parser (spanOver)

variable {kind : Kind} {toks : List Token}

/-- How tightly an expression binds. -/
inductive Level where
  | disjunction
  | exclusion
  | conjunction
  | comparison
  | sum
  | product
  | signed
  | selection
  | atom
  deriving DecidableEq

namespace Level

/-- How tightly expressions of the level bind. -/
def rank : Level → Nat
  | disjunction => 0
  | exclusion => 1
  | conjunction => 2
  | comparison => 3
  | sum => 4
  | product => 5
  | signed => 6
  | selection => 7
  | atom => 8

/-- The next level, which binds more tightly. -/
def next? : Level → Option Level
  | disjunction => some exclusion
  | exclusion => some conjunction
  | conjunction => some comparison
  | comparison => some sum
  | sum => some product
  | product => some signed
  | signed => some selection
  | selection => some atom
  | atom => none

theorem rank_of_next? {level next : Level} (isNext : level.next? = some next) :
    next.rank = level.rank + 1 := by
  cases level <;> cases isNext <;> rfl

theorem exists_next? {level tighter : Level} (looser : level.rank < tighter.rank) :
    ∃ next, level.next? = some next ∧ next.rank ≤ tighter.rank := by
  cases level with
  | atom => cases tighter <;> simp [rank] at looser
  | _ => exact ⟨_, rfl, looser⟩

theorem rank_inj {first second : Level} (same : first.rank = second.rank) : first = second := by
  cases first <;> cases second <;> first | rfl | cases same

end Level

/-- The level of expressions with the operator. -/
def operatorLevel : BinaryOperator → Level
  | .or => .disjunction
  | .xor => .exclusion
  | .and => .conjunction
  | .less | .lessEqual | .greater | .greaterEqual | .equal | .notEqual => .comparison
  | .add | .sub => .sum
  | .mul | .div | .mod => .product

/-- The level of right operands. -/
def rightLevel : BinaryOperator → Level
  | .or => .exclusion
  | .xor => .conjunction
  | .and => .comparison
  | .less | .lessEqual | .greater | .greaterEqual | .equal | .notEqual => .sum
  | .add | .sub => .product
  | .mul | .div | .mod => .signed

theorem leftPower_eq : op.leftPower = (operatorLevel op).rank := by
  cases op <;> rfl

theorem rightPower_eq : op.rightPower = (rightLevel op).rank := by
  cases op <;> rfl

/-- What tokens write: an expression of a level, or arguments with commas between them. -/
inductive Phrase where
  | expression (level : Level) (tree : Expr)
  | arguments (trees : List Expr)

/-- The tokens write the phrase. -/
inductive Writes : List Token → Phrase → Prop where
  | integer {tok : Token} (isInteger : tok.kind = .integerLiteral) :
      Writes [tok] (.expression .atom (.integer tok.span tok.integerValue))
  | real {tok : Token} (isReal : tok.kind = .realLiteral) :
      Writes [tok] (.expression .atom (.real tok.span tok.realValue))
  | boolean {tok : Token} (isBoolean : tok.kind = .booleanLiteral) :
      Writes [tok] (.expression .atom (.boolean tok.span tok.booleanValue))
  | name {tok : Token} (isName : tok.kind = .identifier) :
      Writes [tok] (.expression .atom (.name tok.span (tok.text.getD "")))
  | call {routine opening closing : Token} {toks : List Token} {arguments : List Expr}
      (isName : routine.kind = .identifier) (opens : opening.kind = .symbol .leftParen)
      (inner : Writes toks (.arguments arguments)) (closes : closing.kind = .symbol .rightParen) :
      Writes (routine :: opening :: toks ++ [closing])
        (.expression .atom (.call (routine.span.upTo closing.span.stop) (routine.text.getD "")
          arguments))
  | parenthesized {opening closing : Token} {toks : List Token} {tree : Expr}
      (opens : opening.kind = .symbol .leftParen)
      (inner : Writes toks (.expression .disjunction tree))
      (closes : closing.kind = .symbol .rightParen) :
      Writes (opening :: toks ++ [closing])
        (.expression .atom (tree.withSpan (opening.span.upTo closing.span.stop)))
  | field {toks : List Token} {recv : Expr} {dot name : Token}
      (selects : Writes toks (.expression .selection recv)) (isDot : dot.kind = .symbol .dot)
      (isName : name.kind = .identifier) :
      Writes (toks ++ [dot, name])
        (.expression .selection
          (.field (spanOver (toks ++ [dot, name])) recv (name.text.getD Parser.missingName)))
  | index {toks inside : List Token} {recv pos : Expr} {opening closing : Token}
      (selects : Writes toks (.expression .selection recv))
      (opens : opening.kind = .symbol .leftBracket)
      (inner : Writes inside (.expression .disjunction pos))
      (closes : closing.kind = .symbol .rightBracket) :
      Writes (toks ++ opening :: inside ++ [closing])
        (.expression .selection
          (.index (spanOver (toks ++ opening :: inside ++ [closing])) recv pos))
  | unary {sign : Token} {op : UnaryOperator} {toks : List Token} {operand : Expr}
      (isOperator : UnaryOperator.ofToken? sign.kind = some op)
      (inner : Writes toks (.expression .signed operand)) :
      Writes (sign :: toks) (.expression .signed (.unary (sign.span.cover operand.span) op operand))
  | binary {mark : Token} {op : BinaryOperator} {first second : List Token} {left right : Expr}
      (onLeft : Writes first (.expression (operatorLevel op) left))
      (isOperator : BinaryOperator.ofToken? mark.kind = some op)
      (onRight : Writes second (.expression (rightLevel op) right)) :
      Writes (first ++ mark :: second)
        (.expression (operatorLevel op) (.binary (left.span.cover right.span) op left right))
  | tighter {level next : Level} {toks : List Token} {tree : Expr}
      (isNext : level.next? = some next) (inner : Writes toks (.expression next tree)) :
      Writes toks (.expression level tree)
  | noArguments : Writes [] (.arguments [])
  | lastArgument {toks : List Token} {tree : Expr}
      (inner : Writes toks (.expression .disjunction tree)) : Writes toks (.arguments [tree])
  | argument {comma : Token} {first rest : List Token} {tree another : Expr} {others : List Expr}
      (inner : Writes first (.expression .disjunction tree)) (isComma : comma.kind = .symbol .comma)
      (more : Writes rest (.arguments (another :: others))) :
      Writes (first ++ comma :: rest) (.arguments (tree :: another :: others))

theorem Writes.looser {level tight : Level} (writes : Writes toks (.expression tight tree))
    (atMost : level.rank ≤ tight.rank) : Writes toks (.expression level tree) := by
  obtain same | less := Nat.eq_or_lt_of_le atMost
  · rwa [Level.rank_inj same]
  · obtain ⟨next, isNext, nextAtMost⟩ := Level.exists_next? less
    exact .tighter isNext (writes.looser nextAtMost)
termination_by tight.rank - level.rank
decreasing_by
  have := Level.rank_of_next? isNext
  omega

def begins : Kind → Bool
  | .integerLiteral | .realLiteral | .booleanLiteral | .identifier | .symbol .leftParen => true
  | kind => (UnaryOperator.ofToken? kind).isSome

theorem ne_nil_of_begins (hasFirst : begins (Parser.nextKind toks) = true) : toks ≠ [] := by
  rintro rfl
  cases hasFirst

theorem begins_append (hasFirst : begins (Parser.nextKind toks) = true) (rest : List Token) :
    begins (Parser.nextKind (toks ++ rest)) = true := by
  cases toks with
  | nil => cases hasFirst
  | cons first others => exact hasFirst

theorem not_isSeparator_of_begins (hasFirst : begins kind = true) : kind.isSeparator = false := by
  cases kind with
  | symbol mark => cases mark <;> first | rfl | cases hasFirst
  | _ => first | rfl | cases hasFirst

/-- An expression has a first token, and so have arguments unless there are none. -/
def Phrase.Begins (toks : List Token) : Phrase → Prop
  | .expression _ _ => begins (Parser.nextKind toks) = true
  | .arguments trees => trees = [] ∧ toks = [] ∨ trees ≠ [] ∧ begins (Parser.nextKind toks) = true

theorem Writes.begins (writes : Writes toks phrase) : phrase.Begins toks := by
  induction writes with
  | integer isKind | real isKind | boolean isKind | name isKind =>
    rw [Phrase.Begins, Parser.nextKind_cons, isKind]
    rfl
  | call isName =>
    rw [Phrase.Begins, cons_append, Parser.nextKind_cons, isName]
    rfl
  | parenthesized opens =>
    rw [Phrase.Begins, cons_append, Parser.nextKind_cons, opens]
    rfl
  | field _ _ _ ih | binary _ _ _ ih => exact begins_append ih _
  | index _ _ _ _ ih =>
    rw [append_assoc]
    exact begins_append ih _
  | @unary sign op _ _ isOperator =>
    rw [Phrase.Begins, Parser.nextKind_cons]
    generalize sign.kind = kind at isOperator
    cases kind with
    | symbol mark => cases mark <;> first | rfl | cases isOperator
    | keyword word => cases word <;> first | rfl | cases isOperator
    | _ => cases isOperator
  | tighter _ _ ih => exact ih
  | noArguments => exact .inl ⟨rfl, rfl⟩
  | lastArgument _ ih => exact .inr ⟨by simp, ih⟩
  | argument _ _ _ ih => exact .inr ⟨by simp, begins_append ih _⟩

def belongs : Kind → Bool
  | .endOfFile | .error | .newLine | .symbol .semicolon => false
  | _ => true

theorem not_isSeparator_of_belongs (isPart : belongs kind = true) : kind.isSeparator = false := by
  cases kind with
  | symbol mark => cases mark <;> first | rfl | cases isPart
  | _ => first | rfl | cases isPart

theorem not_error_of_belongs (isPart : belongs kind = true) : kind ≠ .error := by
  rintro rfl
  cases isPart

theorem belongs_of_unary (isOperator : UnaryOperator.ofToken? kind = some op) :
    belongs kind = true := by
  cases kind with
  | symbol mark => cases mark <;> first | rfl | cases isOperator
  | _ => first | rfl | cases isOperator

theorem belongs_of_binary (isOperator : BinaryOperator.ofToken? kind = some op) :
    belongs kind = true := by
  cases kind with
  | symbol mark => cases mark <;> first | rfl | cases isOperator
  | _ => first | rfl | cases isOperator

theorem Writes.belongs (writes : Writes toks phrase) : ∀ tok ∈ toks, belongs tok.kind = true := by
  induction writes with
  | integer isKind | real isKind | boolean isKind | name isKind => simp [isKind, Grammar.belongs]
  | call isName opens inner closes ih =>
    simpa [isName, opens, closes, Grammar.belongs, or_imp, forall_and] using ih
  | parenthesized opens inner closes ih =>
    simpa [opens, closes, Grammar.belongs, or_imp, forall_and] using ih
  | field selects isDot isName ih =>
    simpa [isDot, isName, Grammar.belongs, or_imp, forall_and] using ih
  | index selects opens inner closes ofRecv ofPos =>
    simpa [opens, closes, Grammar.belongs, or_imp, forall_and] using ⟨ofRecv, ofPos⟩
  | unary isOperator inner ih => exact forall_mem_cons.mpr ⟨belongs_of_unary isOperator, ih⟩
  | binary onLeft isOperator onRight ofLeft ofRight =>
    exact forall_mem_append.mpr
      ⟨ofLeft, forall_mem_cons.mpr ⟨belongs_of_binary isOperator, ofRight⟩⟩
  | tighter isNext inner ih => exact ih
  | noArguments => simp
  | lastArgument inner ih => exact ih
  | argument inner isComma more ofFirst ofMore =>
    simpa [isComma, Grammar.belongs, or_imp, forall_and] using ⟨ofFirst, ofMore⟩

end Imperative.Grammar
