import Imperative.Proofs.Grammar.Expression

/-!
# The grammar of programs

One relation for each kind of syntax, between tokens and the trees that they write.  Separators
are optional, except after what would otherwise go on: a `return` without a value, and a routine
without a body.
-/

namespace Imperative.Grammar

open Token (Kind)
open Imperative.Parser (spanOver endOf Separators)

variable {toks : List Token}

/-- The tokens write the size of an array type, which may be left out with its brackets. -/
inductive WritesSize : List Token → Option Expr → Prop where
  | missing : WritesSize [] none
  | unsized {opening closing : Token} (opens : opening.kind = .symbol .leftBracket)
      (closes : closing.kind = .symbol .rightBracket) : WritesSize [opening, closing] none
  | sized {opening closing : Token} {toks : List Token} {size : Expr}
      (opens : opening.kind = .symbol .leftBracket)
      (inner : Writes toks (.expression .disjunction size))
      (closes : closing.kind = .symbol .rightBracket) :
      WritesSize (opening :: toks ++ [closing]) (some size)

/-- The tokens write the initial value of a variable, if there is one. -/
inductive WritesInitial : List Token → Option Expr → Prop where
  | missing : WritesInitial [] none
  | given {mark : Token} {toks : List Token} {val : Expr} (isMark : mark.kind = .keyword .isWord)
      (inner : Writes toks (.expression .disjunction val)) : WritesInitial (mark :: toks) (some val)

/-- What tokens write: a type, one with a colon or none, a variable, or the fields of a record. -/
inductive TypePhrase where
  | type (tree : TypeExpr)
  | ascription (tree : Option TypeExpr)
  | varDecl (decl : VarDecl)
  | fields (decls : List VarDecl)

inductive WritesType : List Token → TypePhrase → Prop where
  | primitive {tok : Token} {name : PrimitiveName} (isName : tok.kind = .identifier)
      (isPrimitive : PrimitiveName.ofSpelling? (tok.text.getD "") = some name) :
      WritesType [tok] (.type (.primitive tok.span name))
  | named {tok : Token} (isName : tok.kind = .identifier)
      (isOther : PrimitiveName.ofSpelling? (tok.text.getD "") = none) :
      WritesType [tok] (.type (.named tok.span (tok.text.getD "")))
  | record {opening closing : Token} {separators toks : List Token} {fields : List VarDecl}
      (opens : opening.kind = .keyword .recordWord) (separate : Separators separators)
      (inner : WritesType toks (.fields fields)) (closes : closing.kind = .keyword .endWord) :
      WritesType (opening :: (separators ++ (toks ++ [closing])))
        (.type (.record (opening.span.upTo closing.span.stop) fields))
  | array {opening : Token} {front toks : List Token} {size : Option Expr} {element : TypeExpr}
      (opens : opening.kind = .keyword .arrayWord) (inBrackets : WritesSize front size)
      (inner : WritesType toks (.type element)) :
      WritesType (opening :: (front ++ toks))
        (.type (.array (spanOver (opening :: (front ++ toks))) element size))
  | untyped : WritesType [] (.ascription none)
  | typed {colon : Token} {toks : List Token} {type : TypeExpr}
      (isColon : colon.kind = .symbol .colon) (inner : WritesType toks (.type type)) :
      WritesType (colon :: toks) (.ascription (some type))
  | varDecl {opening name : Token} {toks back : List Token} {type : Option TypeExpr}
      {init : Option Expr} (opens : opening.kind = .keyword .varWord)
      (isName : name.kind = .identifier) (inner : WritesType toks (.ascription type))
      (ofInitial : WritesInitial back init) :
      WritesType (opening :: name :: (toks ++ back))
        (.varDecl (.mk (spanOver (opening :: name :: (toks ++ back)))
          (name.text.getD Parser.missingName) type init))
  | noFields : WritesType [] (.fields [])
  | field {first separators rest : List Token} {decl : VarDecl} {decls : List VarDecl}
      (inner : WritesType first (.varDecl decl)) (separate : Separators separators)
      (more : WritesType rest (.fields decls)) :
      WritesType (first ++ (separators ++ rest)) (.fields (decl :: decls))

/-- The tokens write the declaration of a variable or of a type. -/
inductive WritesSimple : List Token → Declaration → Prop where
  | var {toks : List Token} {decl : VarDecl} (inner : WritesType toks (.varDecl decl)) :
      WritesSimple toks (.var decl)
  | type {opening name mark : Token} {toks : List Token} {type : TypeExpr}
      (opens : opening.kind = .keyword .typeWord) (isName : name.kind = .identifier)
      (isMark : mark.kind = .keyword .isWord) (inner : WritesType toks (.type type)) :
      WritesSimple (opening :: name :: mark :: toks)
        (.type
          { span := spanOver (opening :: name :: mark :: toks)
            name := name.text.getD Parser.missingName
            type })

/--
The span of a block between two tokens.  It starts at the first token of the block, or at the
one after it if the block is empty, and ends at the last one before that.
-/
def blockSpan (pre : Token) (toks : List Token) (post : Token) : Span :=
  ((toks ++ [post]).head (by simp)).span.upTo (endOf pre.span toks).stop

/-- The tokens write the range or the array of a `for` loop. -/
inductive WritesHeader : List Token → Parser.LoopHeader → Prop where
  | range {first last : List Token} {mark : Token} {low high : Expr}
      (onLow : Writes first (.expression .disjunction low)) (isMark : mark.kind = .symbol .dotDot)
      (onHigh : Writes last (.expression .disjunction high)) :
      WritesHeader (first ++ mark :: last) (.range low high)
  | array {toks : List Token} {array : Expr}
      (inner : Writes toks (.expression .disjunction array)) : WritesHeader toks (.array array)

inductive WritesDirection : List Token → Direction → Prop where
  | forward : WritesDirection [] .forward
  | reverse {mark : Token} (isMark : mark.kind = .keyword .reverseWord) :
      WritesDirection [mark] .reverse

def loopStatement (span : Span) (iter : String) (dir : Direction) (body : Block) :
    Parser.LoopHeader → Statement
  | .range first last => .rangeLoop span iter first last dir body
  | .array array => .arrayLoop span iter array dir body

/-- Whether a separator or the end of the block has to come after the item. -/
def isOpen : Item → Bool
  | .statement (.giveBack _ none) => true
  | _ => false

/-- What tokens write: a statement, a block between two tokens, an item, or all items of a block. -/
inductive StatementPhrase where
  | statement (tree : Statement)
  | block (pre post : Token) (tree : Block)
  | item (tree : Item)
  | items (trees : List Item)

inductive WritesStatement : List Token → StatementPhrase → Prop where
  | assign {first second : List Token} {mark : Token} {tgt val : Expr}
      (onLeft : Writes first (.expression .selection tgt))
      (starts : Parser.nextKind first = .identifier) (isMark : mark.kind = .symbol .assign)
      (onRight : Writes second (.expression .disjunction val)) :
      WritesStatement (first ++ mark :: second)
        (.statement (.assign (spanOver (first ++ mark :: second)) tgt val))
  | call {toks : List Token} {span : Span} {routine : String} {args : List Expr}
      (inner : Writes toks (.expression .selection (.call span routine args)))
      (starts : Parser.nextKind toks = .identifier) :
      WritesStatement toks (.statement (.call span routine args))
  | branch {opening mid closing : Token} {first second : List Token} {cond : Expr} {consequent :
    Block}
      (opens : opening.kind = .keyword .ifWord)
      (test : Writes first (.expression .disjunction cond))
      (isMiddle : mid.kind = .keyword .thenWord)
      (ifHolds : WritesStatement second (.block mid closing consequent))
      (closes : closing.kind = .keyword .endWord) :
      WritesStatement (opening :: (first ++ mid :: (second ++ [closing])))
        (.statement (.branch (opening.span.upTo closing.span.stop) cond consequent none))
  | branchElse {opening mid between closing : Token} {first second third : List Token}
      {cond : Expr} {consequent alternative : Block} (opens : opening.kind = .keyword .ifWord)
      (test : Writes first (.expression .disjunction cond))
      (isMiddle : mid.kind = .keyword .thenWord)
      (ifHolds : WritesStatement second (.block mid between consequent))
      (isBetween : between.kind = .keyword .elseWord)
      (ifFails : WritesStatement third (.block between closing alternative))
      (closes : closing.kind = .keyword .endWord) :
      WritesStatement (opening :: (first ++ mid :: (second ++ between :: (third ++ [closing]))))
        (.statement (.branch (opening.span.upTo closing.span.stop) cond consequent
          (some alternative)))
  | whileLoop {opening mid closing : Token} {first second : List Token} {cond : Expr} {body : Block}
      (opens : opening.kind = .keyword .whileWord)
      (test : Writes first (.expression .disjunction cond))
      (isMiddle : mid.kind = .keyword .loopWord)
      (inner : WritesStatement second (.block mid closing body))
      (closes : closing.kind = .keyword .endWord) :
      WritesStatement (opening :: (first ++ mid :: (second ++ [closing])))
        (.statement (.whileLoop (opening.span.upTo closing.span.stop) cond body))
  | forLoop {opening name mark mid closing : Token} {first second third : List Token}
      {header : Parser.LoopHeader} {dir : Direction} {body : Block}
      (opens : opening.kind = .keyword .forWord) (isName : name.kind = .identifier)
      (isMark : mark.kind = .keyword .inWord) (ofHeader : WritesHeader first header)
      (towards : WritesDirection second dir) (isMiddle : mid.kind = .keyword .loopWord)
      (inner : WritesStatement third (.block mid closing body))
      (closes : closing.kind = .keyword .endWord) :
      WritesStatement
        (opening :: name :: mark :: (first ++ (second ++ mid :: (third ++ [closing]))))
        (.statement (loopStatement (opening.span.upTo closing.span.stop)
          (name.text.getD Parser.missingName) dir body header))
  | returnNothing {opening : Token} (opens : opening.kind = .keyword .returnWord) :
      WritesStatement [opening] (.statement (.giveBack (spanOver [opening]) none))
  | returnValue {opening : Token} {toks : List Token} {val : Expr}
      (opens : opening.kind = .keyword .returnWord)
      (inner : Writes toks (.expression .disjunction val)) :
      WritesStatement (opening :: toks)
        (.statement (.giveBack (spanOver (opening :: toks)) (some val)))
  | print {opening : Token} {toks : List Token} {item : Expr} {items : List Expr}
      (opens : opening.kind = .keyword .printWord)
      (inner : Writes toks (.arguments (item :: items))) :
      WritesStatement (opening :: toks)
        (.statement (.print (spanOver (opening :: toks)) (item :: items)))
  | block {pre post : Token} {separators toks : List Token} {items : List Item}
      (separate : Separators separators) (inner : WritesStatement toks (.items items)) :
      WritesStatement (separators ++ toks)
        (.block pre post (.mk (blockSpan pre (separators ++ toks) post) items))
  | declarationItem {toks : List Token} {declaration : Declaration}
      (inner : WritesSimple toks declaration) :
      WritesStatement toks (.item (.declaration declaration))
  | statementItem {toks : List Token} {statement : Statement}
      (inner : WritesStatement toks (.statement statement)) :
      WritesStatement toks (.item (.statement statement))
  | noItems : WritesStatement [] (.items [])
  | item {first separators rest : List Token} {item : Item} {items : List Item}
      (inner : WritesStatement first (.item item)) (separate : Separators separators)
      (more : WritesStatement rest (.items items))
      (apart : isOpen item = true → separators = [] → items = []) :
      WritesStatement (first ++ (separators ++ rest)) (.items (item :: items))

/-- The tokens write one or more parameters with commas between them. -/
inductive WritesParameters : List Token → List Parameter → Prop where
  | last {name colon : Token} {toks : List Token} {type : TypeExpr}
      (isName : name.kind = .identifier) (isColon : colon.kind = .symbol .colon)
      (inner : WritesType toks (.type type)) :
      WritesParameters (name :: colon :: toks)
        [{ span := spanOver (name :: colon :: toks)
           name := name.text.getD Parser.missingName
           type }]
  | more {name colon comma : Token} {toks rest : List Token} {type : TypeExpr}
      {params : List Parameter} (isName : name.kind = .identifier)
      (isColon : colon.kind = .symbol .colon) (inner : WritesType toks (.type type))
      (isComma : comma.kind = .symbol .comma) (others : WritesParameters rest params) :
      WritesParameters (name :: colon :: (toks ++ comma :: rest))
        ({ span := spanOver (name :: colon :: toks)
           name := name.text.getD Parser.missingName
           type } :: params)

inductive WritesBody : List Token → Option Body → Prop where
  | missing : WritesBody [] none
  | expression {mark : Token} {toks : List Token} {val : Expr} (isMark : mark.kind = .symbol .arrow)
      (inner : Writes toks (.expression .disjunction val)) :
      WritesBody (mark :: toks) (some (.expression val))
  | block {mark closing : Token} {toks : List Token} {block : Block}
      (isMark : mark.kind = .keyword .isWord)
      (inner : WritesStatement toks (.block mark closing block))
      (closes : closing.kind = .keyword .endWord) :
      WritesBody (mark :: (toks ++ [closing])) (some (.block block))

inductive WritesRoutine : List Token → Routine → Prop where
  | mk {opening name left right : Token} {first second third : List Token}
      {params : List Parameter} {res : Option TypeExpr} {body : Option Body}
      (opens : opening.kind = .keyword .routineWord) (isName : name.kind = .identifier)
      (isLeft : left.kind = .symbol .leftParen)
      (ofParameters : first = [] ∧ params = [] ∨ WritesParameters first params)
      (isRight : right.kind = .symbol .rightParen) (ofResult : WritesType second (.ascription res))
      (ofBody : WritesBody third body) :
      WritesRoutine (opening :: name :: left :: (first ++ right :: (second ++ third)))
        (.mk (spanOver (opening :: name :: left :: (first ++ right :: (second ++ third))))
          (name.text.getD Parser.missingName) params res body)

inductive WritesDeclaration : List Token → Declaration → Prop where
  | simple {toks : List Token} {declaration : Declaration} (inner : WritesSimple toks declaration) :
      WritesDeclaration toks declaration
  | routine {toks : List Token} {routine : Routine} (inner : WritesRoutine toks routine) :
      WritesDeclaration toks (.routine routine)

/-- Whether a separator or the end of the text has to come after the declaration. -/
def isForward : Declaration → Bool
  | .routine routine => routine.isForward
  | _ => false

inductive WritesDeclarations : List Token → List Declaration → Prop where
  | nil : WritesDeclarations [] []
  | cons {first separators rest : List Token} {declaration : Declaration}
      {declarations : List Declaration} (inner : WritesDeclaration first declaration)
      (separate : Separators separators) (more : WritesDeclarations rest declarations)
      (apart : isForward declaration = true → separators = [] → declarations = []) :
      WritesDeclarations (first ++ (separators ++ rest)) (declaration :: declarations)

/-- The tokens before the end of a text, which is at the given place, write the program. -/
inductive WritesProgram (closing : Span) : List Token → Program → Prop where
  | mk {separators toks : List Token} {declarations : List Declaration}
      (separate : Separators separators) (inner : WritesDeclarations toks declarations) :
      WritesProgram closing (separators ++ toks)
        { span :=
            (((separators ++ toks).head?.map Token.span).getD closing).upTo closing.stop
          declarations }

/-- The token may be part of a program. -/
@[simp]
def occurs : Kind → Bool
  | .endOfFile | .error => false
  | _ => true

def Regular (toks : List Token) : Prop := ∀ tok ∈ toks, occurs tok.kind = true

@[simp]
theorem regular_nil : Regular [] := List.forall_mem_nil _

@[simp]
theorem regular_cons :
    Regular (tok :: rest) ↔ occurs tok.kind = true ∧ Regular rest := List.forall_mem_cons

@[simp]
theorem regular_append : Regular (first ++ second) ↔ Regular first ∧ Regular second :=
  List.forall_mem_append

theorem Regular.errorless (regular : Regular toks) : Parser.Errorless toks := by
  intro tok isIn isError
  have isPart := regular tok isIn
  rw [isError] at isPart
  cases isPart

theorem regular_of_separators (separators : Separators toks) : Regular toks := by
  intro tok isIn
  have separates := separators tok isIn
  generalize tok.kind = kind at separates
  cases kind <;> first | rfl | cases separates

theorem Writes.regular (writes : Writes toks phrase) : Regular toks := by
  intro tok isIn
  have isPart := writes.belongs tok isIn
  generalize tok.kind = kind at isPart
  cases kind <;> first | rfl | cases isPart

theorem WritesSize.regular (writes : WritesSize toks size) : Regular toks := by
  cases writes with
  | missing => exact regular_nil
  | unsized opens closes => simp [opens, closes]
  | sized opens inner closes => simp [inner.regular, opens, closes]

theorem WritesInitial.regular (writes : WritesInitial toks init) : Regular toks := by
  cases writes with
  | missing => exact regular_nil
  | given isMark inner => simp [inner.regular, isMark]

theorem WritesType.regular (writes : WritesType toks phrase) : Regular toks := by
  induction writes with
  | primitive isName | named isName => simp [isName]
  | untyped | noFields => exact regular_nil
  | record opens separate _ closes ih => simp [opens, closes, regular_of_separators separate, ih]
  | array opens inBrackets _ ih => simp [opens, inBrackets.regular, ih]
  | typed isColon _ ih => simp [isColon, ih]
  | varDecl opens isName _ ofInitial ih => simp [opens, isName, ofInitial.regular, ih]
  | field _ separate _ ofFirst ofRest => simp [regular_of_separators separate, ofFirst, ofRest]

theorem WritesSimple.regular (writes : WritesSimple toks declaration) : Regular toks := by
  cases writes with
  | var inner => exact inner.regular
  | type opens isName isMark inner => simp [opens, isName, isMark, inner.regular]

theorem WritesHeader.regular (writes : WritesHeader toks header) : Regular toks := by
  cases writes with
  | range onLow isMark onHigh => simp [onLow.regular, isMark, onHigh.regular]
  | array inner => exact inner.regular

theorem WritesDirection.regular (writes : WritesDirection toks dir) : Regular toks := by
  cases writes with
  | forward => exact regular_nil
  | reverse isMark => simp [isMark]

theorem WritesStatement.regular (writes : WritesStatement toks phrase) : Regular toks := by
  induction writes with
  | assign onLeft _ isMark onRight => simp [onLeft.regular, isMark, onRight.regular]
  | call inner => exact inner.regular
  | branch opens test isMiddle _ closes ih
  | whileLoop opens test isMiddle _ closes ih => simp [opens, test.regular, isMiddle, closes, ih]
  | branchElse opens test isMiddle _ isBetween _ closes ofFirst ofSecond =>
    simp [opens, test.regular, isMiddle, isBetween, closes, ofFirst, ofSecond]
  | forLoop opens isName isMark ofHeader towards isMiddle _ closes ih =>
    simp [opens, isName, isMark, ofHeader.regular, towards.regular, isMiddle, closes, ih]
  | returnNothing opens => simp [opens]
  | returnValue opens inner | print opens inner => simp [opens, inner.regular]
  | block separate _ ih => simp [regular_of_separators separate, ih]
  | declarationItem inner => exact inner.regular
  | statementItem _ ih => exact ih
  | noItems => exact regular_nil
  | item _ separate _ _ ofFirst ofRest => simp [regular_of_separators separate, ofFirst, ofRest]

theorem WritesParameters.regular (writes : WritesParameters toks params) : Regular toks := by
  induction writes with
  | last isName isColon inner => simp [isName, isColon, inner.regular]
  | more isName isColon inner isComma _ ih => simp [isName, isColon, inner.regular, isComma, ih]

theorem WritesBody.regular (writes : WritesBody toks body) : Regular toks := by
  cases writes with
  | missing => exact regular_nil
  | expression isMark inner => simp [isMark, inner.regular]
  | block isMark inner closes => simp [isMark, inner.regular, closes]

theorem WritesRoutine.regular (writes : WritesRoutine toks routine) : Regular toks := by
  cases writes with
  | mk opens isName isLeft ofParameters isRight ofResult ofBody =>
    obtain ⟨rfl, -⟩ | ofParameters := ofParameters
    · simp [opens, isName, isLeft, isRight, ofResult.regular, ofBody.regular]
    · simp [opens, isName, isLeft, ofParameters.regular, isRight, ofResult.regular, ofBody.regular]

theorem WritesDeclarations.regular (writes : WritesDeclarations toks declarations) :
    Regular toks := by
  induction writes with
  | nil => exact regular_nil
  | cons inner separate _ _ ih =>
    have regularFirst := by
      cases inner with
      | simple inner | routine inner => exact inner.regular
    simp [regularFirst, regular_of_separators separate, ih]

theorem WritesProgram.regular (writes : WritesProgram closing toks program) : Regular toks := by
  cases writes with
  | mk separate inner => simp [regular_of_separators separate, inner.regular]

end Imperative.Grammar
