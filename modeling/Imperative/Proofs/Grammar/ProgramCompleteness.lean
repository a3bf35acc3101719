import Imperative.Proofs.Grammar.TypeCompleteness

/-!
# Programs are parsed

The parser reads every program of the grammar.  Where a statement ends is told from the next token:
it starts another one, separates the two or ends the block.
-/

namespace Imperative.Parser

open List

open Grammar
open Token (Kind)

variable {tree : Declaration} {trees : List Declaration} {toks : List Token} {prev : Span}

def startsSimple (kind : Kind) : Bool := kind = .keyword .varWord ∨ kind = .keyword .typeWord

def startsStatement : Kind → Bool
  | .identifier => true
  | .keyword word =>
    match word with
    | .ifWord | .whileWord | .forWord | .returnWord | .printWord => true
    | _ => false
  | _ => false

def startsItem (kind : Kind) : Bool := startsSimple kind || startsStatement kind

theorem startsItem_spec (starts : startsItem kind = true) :
    bounds kind = true ∧ kind.isSeparator = false ∧ kind.endsBlock = false ∧ kind ≠ .endOfFile := by
  cases kind with
  | keyword word => cases word <;> first | decide | cases starts
  | _ => first | decide | cases starts

def closes (kind : Kind) : Bool := kind.isSeparator || kind.endsBlock

theorem reads_primary (writes : Writes toks (.expression .selection val)) :
    Reads prev primary toks val (selects · = false) :=
  ((reads_of_writes writes).2.2 (Nat.le_refl _)).whole

theorem reads_loopHeader (writes : WritesHeader toks header) :
    Reads prev loopHeader toks header fun kind =>
      continues kind = false ∧ kind ≠ .symbol .dotDot := by
  cases writes with
  | range onLow isMark onHigh =>
    exact (reads_expression onLow).before (by rw [isMark]; rfl)
      (.accept isMark ((reads_expression onHigh).last (fun _ ends => ends.1) .pure))
  | array inner =>
    exact (reads_expression inner).last (fun _ ends => ends.1)
      (.acceptNot (fun _ ends => ends.2) .pure)

theorem reads_loopDirection (writes : WritesDirection toks dir) :
    Reads prev loopDirection toks dir (· ≠ .keyword .reverseWord) := by
  cases writes with
  | forward => exact .acceptNot (fun _ ends => ends) .pure
  | reverse isMark => exact .accept isMark .pure

/-- What the rules say of a phrase: it is read by the parser for it. -/
def ReadsStatementPhrase (toks : List Token) : StatementPhrase → Prop
  | .statement stmt =>
    ∀ prev, Reads prev (statementRules.parse .statement) toks stmt fun kind =>
      bounds kind = true ∧ (isOpen (.statement stmt) = true → closes kind = true)
  | .block pre post tree =>
    post.kind.endsBlock = true →
      ∀ ⦃α : Type⦄ ⦃next : Block → Parser α⦄ ⦃more : List Token⦄ ⦃res : α⦄ ⦃ends : Kind → Prop⦄,
        Reads (endOf pre.span toks) (next tree) (post :: more) res ends →
        Reads pre.span (block >>= next) (toks ++ post :: more) res ends
  | .item item =>
    ∀ prev, Reads prev
      (if nextKind toks = .keyword .varWord ∨ nextKind toks = .keyword .typeWord then
          Item.declaration <$> simpleDeclaration
        else
          Item.statement <$> statementRules.parse .statement) toks item fun kind =>
      bounds kind = true ∧ (isOpen item = true → closes kind = true)
  | .items items => ∀ prev, Reads prev (statementRules.parse .items) toks items (·.endsBlock = true)

def BeginsStatementPhrase (toks : List Token) : StatementPhrase → Prop
  | .statement _ => startsStatement (nextKind toks) = true
  | .block .. => True
  | .item _ => startsItem (nextKind toks) = true
  | .items trees => trees = [] ∧ toks = [] ∨ trees ≠ [] ∧ startsItem (nextKind toks) = true

theorem beginsSimple (writes : WritesSimple toks decl) : startsSimple (nextKind toks) = true := by
  cases writes with
  | var inner =>
    have begins : nextKind toks = .keyword .varWord := beginsTypePhrase inner
    rw [begins]
    rfl
  | type opens =>
    rw [nextKind_cons, opens]
    rfl

theorem beginsStatementPhrase (writes : WritesStatement toks phrase) :
    BeginsStatementPhrase toks phrase := by
  induction writes with
  | @assign first _ _ _ _ _ starts _ _ =>
    have notEmpty : first ≠ [] := by
      rintro rfl
      cases starts
    rw [BeginsStatementPhrase, nextKind_append notEmpty, starts]
    rfl
  | call _ starts =>
    rw [BeginsStatementPhrase, starts]
    rfl
  | branch opens | branchElse opens | whileLoop opens | forLoop opens | returnNothing opens
  | returnValue opens | print opens =>
    rw [BeginsStatementPhrase, nextKind_cons, opens]
    rfl
  | block => trivial
  | declarationItem inner =>
    rw [BeginsStatementPhrase, startsItem, beginsSimple inner]
    rfl
  | statementItem _ ih => rw [BeginsStatementPhrase, startsItem, ih, Bool.or_true]
  | noItems => exact .inl ⟨rfl, rfl⟩
  | @item first _ _ _ _ _ _ _ _ ih _ =>
    have notEmpty : first ≠ [] := by
      rintro rfl
      cases ih
    exact .inr ⟨cons_ne_nil _ _, (congrArg startsItem (nextKind_append notEmpty)).trans ih⟩

theorem bounds_items (writes : WritesStatement toks (.items items)) (rest : List Token)
    (ends : (nextKind rest).endsBlock = true) :
    bounds (nextKind (toks ++ rest)) = true ∧ (nextKind (toks ++ rest)).isSeparator = false := by
  obtain ⟨-, rfl⟩ | ⟨-, starts⟩ := beginsStatementPhrase writes
  · rw [nil_append]
    refine ⟨bounds_of_endsBlock ends, ?_⟩
    generalize nextKind rest = kind at ends
    cases kind <;> first | rfl | cases ends
  · rw [nextKind_append (by rintro rfl; cases starts)]
    exact ⟨(startsItem_spec starts).1, (startsItem_spec starts).2.1⟩

theorem closes_item (writes : WritesStatement toks (.items items))
    (separate : Separators separators) (apart : isOpen item = true → separators = [] → items = [])
    (ends : (nextKind rest).endsBlock = true) (opens : isOpen item = true) :
    closes (nextKind (separators ++ (toks ++ rest))) = true := by
  cases separators with
  | cons separator others =>
    rw [closes, cons_append, nextKind_cons, separate _ mem_cons_self]
    rfl
  | nil =>
    obtain ⟨-, rfl⟩ | ⟨notNone, -⟩ := beginsStatementPhrase writes
    · rw [closes, nil_append, nil_append, ends, Bool.or_true]
    · exact absurd (apart opens rfl) notNone

theorem head?_append_cons (toks : List Token) (post : Token) (rest : List Token) :
    (toks ++ post :: rest).head? = some ((toks ++ [post]).head (by simp)) := by
  cases toks <;> rfl

theorem closes_of_begins (begins : begins kind = true) : closes kind = false := by
  cases kind with
  | symbol mark => cases mark <;> first | rfl | cases begins
  | keyword word => cases word <;> first | rfl | cases begins
  | _ => first | rfl | cases begins

theorem reads_of_writesStatement (writes : WritesStatement toks phrase) :
    ReadsStatementPhrase toks phrase := by
  induction writes with
  | @assign first second mark tgt val onLeft starts isMark onRight =>
    intro prev
    rw [Group.parse_eq]
    cases first with
    | nil => cases starts
    | cons opening others =>
      simp only [spanOver, cons_append, endOf_append, endOf_cons]
      refine .current (.current ?_)
      simp only [show opening.kind = .identifier from starts]
      exact .current ((reads_primary onLeft).before (by rw [isMark]; rfl) (.accept isMark
        ((reads_expression onRight).last (fun _ ends => continues_of_bounds ends.1)
          (.spanFrom .pure))))
  | @call toks span routine args inner starts =>
    intro prev
    rw [Group.parse_eq]
    cases toks with
    | nil => cases starts
    | cons opening others =>
      refine .current (.current ?_)
      simp only [show opening.kind = .identifier from starts]
      exact .current ((reads_primary inner).last
        (fun _ ends => (Bool.or_eq_false_iff.mp (continues_of_bounds ends.1)).1)
        (.acceptNot (fun _ ends => ne_of_bounds ends.1 rfl) .pure))
  | branch opens test isMiddle _ isLast ih =>
    intro prev
    rw [Group.parse_eq]
    refine .current (.current ?_)
    simp only [opens]
    refine .advance ((reads_expression test).before (by rw [isMiddle]; rfl) (.expect isMiddle
      (ih (by rw [isLast]; rfl) (.acceptNot (fun _ _ => by simp [isLast]) ?_))))
    rw [if_neg (by decide), pure_bind]
    exact .expect isLast (.spanFrom .pure)
  | branchElse opens test isMiddle _ isBetween _ isLast readsFirst readsSecond =>
    intro prev
    rw [Group.parse_eq]
    refine .current (.current ?_)
    simp only [opens]
    refine .advance ((reads_expression test).before (by rw [isMiddle]; rfl) (.expect isMiddle
      (readsFirst (by rw [isBetween]; rfl) (.accept isBetween ?_))))
    rw [if_pos rfl, bind_map_left]
    exact readsSecond (by rw [isLast]; rfl) (.expect isLast (.spanFrom .pure))
  | whileLoop opens test isMiddle _ isLast ih =>
    intro prev
    rw [Group.parse_eq]
    refine .current (.current ?_)
    simp only [opens]
    exact .advance ((reads_expression test).before (by rw [isMiddle]; rfl) (.expect isMiddle
      (ih (by rw [isLast]; rfl) (.expect isLast (.spanFrom .pure)))))
  | @forLoop _ _ _ _ _ _ _ _ header _ _ opens isName isMark ofHeader towards isMiddle _ isLast ih =>
    intro prev
    rw [Group.parse_eq]
    refine .current (.current ?_)
    simp only [opens]
    refine .advance (.expectName isName (.expect isMark ((reads_loopHeader ofHeader).bind
      ((reads_loopDirection towards).before (by rw [isMiddle]; decide) (.expect isMiddle
        (ih (by rw [isLast]; rfl) (.expect isLast (.spanFrom ?_))))) fun rest _ => ?_)))
    · cases header <;> exact .pure
    · cases towards with
      | forward =>
        rw [nil_append, cons_append, nextKind_cons, isMiddle]
        decide
      | reverse isReverse =>
        rw [cons_append, cons_append, nextKind_cons, isReverse]
        decide
  | returnNothing opens =>
    intro prev
    rw [Group.parse_eq]
    refine .current (.current ?_)
    simp only [opens]
    refine .current (.expect opens (.atEnd fun tok ends => ?_))
    dsimp only
    rw [← closes, if_pos (ends.2 rfl), pure_bind]
    exact .spanFrom .pure
  | returnValue opens inner =>
    intro prev
    rw [Group.parse_eq]
    refine .current (.current ?_)
    simp only [opens]
    refine .current (.expect opens (.peek (closes · = false) (fun rest _ =>
      closes_of_begins (begins_append inner.begins rest)) fun tok goesOn => ?_))
    dsimp only
    rw [← closes, if_neg (by rw [goesOn]; decide)]
    exact (reads_expression inner).map.last (fun _ ends => continues_of_bounds ends.1)
      (.spanFrom .pure)
  | print opens inner =>
    intro prev
    rw [Group.parse_eq]
    refine .current (.current ?_)
    simp only [opens]
    exact .current (.expect opens ((reads_of_writes inner (cons_ne_nil _ _) _).last
      (fun _ ends => ⟨continues_of_bounds ends.1, ne_of_bounds ends.1 rfl⟩) (.spanFrom .pure)))
  | @block pre post separators toks items separate inner ih =>
    intro endsBlock α next more res ends others
    have isFirst := head?_append_cons (separators ++ toks) post more
    rw [blockSpan, endOf_append] at others
    generalize (separators ++ toks ++ [post]).head (by simp) = opening at isFirst others
    rw [block, Group.parse_eq]
    refine .assoc (.first isFirst ?_)
    rw [append_assoc]
    refine .assoc (.skipSeparators separate (fun rest _ => ?_)
      (.assoc ((ih _).before endsBlock (.assoc (.spanFrom others)))))
    rw [append_assoc]
    exact (bounds_items inner (post :: more ++ rest) endsBlock).2
  | declarationItem inner =>
    intro prev
    rw [if_pos (of_decide_eq_true (beginsSimple inner))]
    exact ((reads_simpleDeclaration inner _).imp fun _ ends => ends.1).map
  | statementItem inner ih =>
    intro prev
    rw [if_neg]
    · exact (ih prev).map
    · have starts := beginsStatementPhrase inner
      rintro (isKind | isKind) <;>
        rw [BeginsStatementPhrase, isKind] at starts <;>
        cases starts
  | noItems =>
    intro prev
    rw [Group.parse_eq]
    refine .atEnd fun tok ends => ?_
    rw [if_pos ends]
    exact .pure
  | @item first separators rest item items inner separate more apart readsFirst readsMore =>
    intro prev
    have starts := beginsStatementPhrase inner
    rw [Group.parse_eq]
    refine .peek (· = nextKind first) (fun rest _ => ?_) fun tok isKind => ?_
    · rw [append_assoc, nextKind_append (by rintro rfl; cases starts)]
    · rw [isKind, if_neg (by rw [(startsItem_spec starts).2.2.1]; decide)]
      refine .ite ((readsFirst _).bind (.skipSeparators separate
        (fun rest ends => (bounds_items more rest ends).2)
        ((readsMore _).last (fun _ ends => ends) .pure)) fun rest ends => ?_)
      rw [append_assoc]
      exact ⟨bounds_separators separate (bounds_items more rest ends).1,
        closes_item more separate apart ends⟩

theorem reads_of_writesParameters {parameters : List Parameter}
    (writes : WritesParameters toks parameters) (prev : Span) :
    Reads prev (parameterRules.parse ()) toks parameters (· = .symbol .rightParen) := by
  induction writes generalizing prev with
  | last isName isColon inner =>
    rw [Group.parse_eq]
    refine .current (.expectName isName (.expect isColon ((reads_of_writesType inner _).last
      (fun _ _ => trivial) (.spanFrom (.acceptNot (fun rest ends => ?_) .pure)))))
    rw [nil_append, ends]
    decide
  | more isName isColon inner isComma _ ih =>
    rw [Group.parse_eq]
    exact .current (.expectName isName (.expect isColon ((reads_of_writesType inner _).before
      trivial (.spanFrom (.accept isComma ((ih _).last (fun _ ends => ends) .pure))))))

theorem reads_parameters {parameters : List Parameter} (isLeft : left.kind = .symbol .leftParen)
    (writes : toks = [] ∧ parameters = [] ∨ WritesParameters toks parameters)
    (isRight : right.kind = .symbol .rightParen) (prev : Span) :
    Reads prev Parser.parameters (left :: (toks ++ [right])) parameters fun _ => True := by
  refine .expect isLeft ?_
  obtain ⟨rfl, rfl⟩ | writes := writes
  · refine .check (fun _ _ => isRight) ?_
    rw [if_pos rfl, pure_bind]
    exact .expect isRight .pure
  · refine .checkNot (fun rest _ => ?_) ((reads_of_writesParameters writes _).before isRight
      (.expect isRight .pure))
    cases writes with
    | last isName | more isName => simp [isName]

theorem reads_routineBody (writes : WritesBody toks body) :
    Reads prev routineBody toks body fun kind =>
      bounds kind = true ∧ (body = none → kind.isSeparator = true ∨ kind = .endOfFile) := by
  cases writes with
  | missing =>
    refine .atEnd fun tok ends => ?_
    rw [if_pos (by simpa using ends.2 rfl)]
    exact .pure
  | expression isMark inner =>
    refine .current ?_
    rw [isMark, if_neg (by decide)]
    exact .accept isMark ((reads_expression inner).last
      (fun _ ends => continues_of_bounds ends.1) .pure)
  | block isMark inner isLast =>
    refine .current ?_
    rw [isMark, if_neg (by decide)]
    exact .acceptNot (fun _ _ => by simp [isMark]) (.expect isMark
      (reads_of_writesStatement inner (by rw [isLast]; rfl) (.expect isLast .pure)))

theorem reads_routine {routine : Routine} (writes : WritesRoutine toks routine) :
    Reads prev Parser.routine toks routine fun kind =>
      bounds kind = true ∧ (routine.isForward = true → kind.isSeparator = true ∨
        kind = .endOfFile) := by
  cases writes with
  | @mk opening name left right first second third parameters res body opens isName isLeft
      ofParameters isRight ofResult ofBody =>
    have isAll : left :: (first ++ right :: (second ++ third)) =
        left :: (first ++ [right]) ++ (second ++ third) := by simp
    have isEnd : endOf name.span (left :: (first ++ [right])) = right.span := by simp
    have reads := (reads_parameters isLeft ofParameters isRight name.span)
    simp only [spanOver, endOf_cons, endOf_append]
    rw [isAll]
    refine .current (.expect opens (.expectName isName (reads.bind ?_ fun _ _ => trivial)))
    rw [isEnd]
    refine reads_of_writesType ofResult (fun rest ends => ?_) ((reads_routineBody ofBody).last
      (fun _ ends => ⟨ends.1, fun isNone => ends.2 (by rw [isNone]; rfl)⟩) (.spanFrom .pure))
    cases ofBody with
    | missing => exact ne_of_bounds ends.1 rfl
    | expression isMark | block isMark => simp [isMark]

theorem beginsDeclaration (writes : WritesDeclaration toks tree) :
    startsSimple (nextKind toks) = true ∨ nextKind toks = .keyword .routineWord := by
  cases writes with
  | simple inner => exact .inl (beginsSimple inner)
  | routine inner =>
    cases inner with
    | mk opens => exact .inr opens

theorem ne_nil_of_writesDeclaration (writes : WritesDeclaration toks tree) : toks ≠ [] := by
  rintro rfl
  rcases beginsDeclaration writes with isSimple | isRoutine
  · cases isSimple
  · cases isRoutine

theorem bounds_declarations (writes : WritesDeclarations toks trees)
    (ends : nextKind rest = .endOfFile) :
    bounds (nextKind (toks ++ rest)) = true ∧ (nextKind (toks ++ rest)).isSeparator = false := by
  cases writes with
  | nil =>
    rw [nil_append, ends]
    decide
  | cons inner =>
    rw [append_assoc, nextKind_append (ne_nil_of_writesDeclaration inner)]
    rcases (beginsDeclaration inner).imp_left of_decide_eq_true with (isKind | isKind) | isKind <;>
      rw [isKind] <;> decide

theorem closes_declaration (writes : WritesDeclarations toks trees)
    (separate : Separators separators)
    (apart : isForward tree = true → separators = [] → trees = [])
    (ends : nextKind rest = .endOfFile) (forward : isForward tree = true) :
    (nextKind (separators ++ (toks ++ rest))).isSeparator = true ∨
      nextKind (separators ++ (toks ++ rest)) = .endOfFile := by
  cases separators with
  | cons separator others => exact .inl (separate _ mem_cons_self)
  | nil =>
    obtain rfl := apart forward rfl
    cases writes
    exact .inr ends

theorem reads_declarations (writes : WritesDeclarations toks trees) (prev : Span) :
    Reads prev (declarationRules.parse ()) toks trees (· = .endOfFile) := by
  induction writes generalizing prev with
  | nil =>
    rw [Group.parse_eq]
    refine .atEnd fun tok ends => ?_
    simp only [ends]
    exact .pure
  | @cons first separators more tree trees inner separate others apart ih =>
    have meets (rest) (ends : nextKind rest = .endOfFile) :
        bounds (nextKind (separators ++ more ++ rest)) = true ∧
          (isForward tree = true → (nextKind (separators ++ more ++ rest)).isSeparator = true ∨
            nextKind (separators ++ more ++ rest) = .endOfFile) := by
      rw [append_assoc]
      exact ⟨bounds_separators separate (bounds_declarations others ends).1,
        closes_declaration others separate apart ends⟩
    have reads (prev) : Reads prev
        (do skipSeparators; return tree :: (← declarationRules.parse ())) (separators ++ more)
        (tree :: trees) (· = .endOfFile) :=
      .skipSeparators separate (fun rest ends => (bounds_declarations others ends).2)
        ((ih _).last (fun _ ends => ends) .pure)
    rw [Group.parse_eq]
    refine .peek (· = nextKind first) (fun rest _ => ?_) fun tok isKind => ?_
    · rw [append_assoc, nextKind_append (ne_nil_of_writesDeclaration inner)]
    · cases inner with
      | simple inner =>
        have first := reads_simpleDeclaration inner prev
        rcases of_decide_eq_true (beginsSimple inner) with isSimple | isSimple <;>
          simp only [isKind, isSimple] <;>
          exact first.bind (reads _) fun rest ends => (meets rest ends).1
      | routine inner =>
        have isRoutine : nextKind first = .keyword .routineWord := by
          cases inner with
          | mk opens => exact opens
        simp only [isKind, isRoutine]
        exact (reads_routine inner).map.bind (reads _) meets

theorem State.span_current_clean (closing : Span) :
    (State.clean closing prev toks).current.span = (toks.head?.map Token.span).getD closing := by
  cases toks <;> rfl

theorem program_eq {program : Program}
    (writes : WritesProgram ((rest.head?.map Token.span).getD closing) toks program)
    (atEnd : nextKind rest = .endOfFile) (prev : Span) :
    Parser.program (.clean closing prev (toks ++ rest)) =
      (program, .clean closing (endOf prev toks) rest) := by
  have errorless : Errorless toks := writes.regular.errorless
  cases writes with
  | @mk separators toks decls separate inner =>
    have reads : Reads prev (skipSeparators >>= fun _ => declarationRules.parse ())
        (separators ++ toks) decls (· = .endOfFile) :=
      .skipSeparators separate (fun rest ends => (bounds_declarations inner ends).2)
        (reads_declarations inner _)
    have read := reads closing rest errorless (by rw [atEnd]; decide) atEnd
    have isOpening : ((separators ++ toks ++ rest).head?.map Token.span).getD closing =
        ((separators ++ toks).head?.map Token.span).getD
          ((rest.head?.map Token.span).getD closing) := by
      cases separators ++ toks <;> rfl
    rw [Parser.program, current_bind, State.span_current_clean, isOpening, ← bind_assoc,
      bind_eq read, current_bind, State.span_current_clean]
    rfl

/-- A list of tokens goes on with the end of a text after the tokens before it, or with nothing. -/
theorem Feed.exists_buffered :
    ∃ rest, toks = (ofTokens toks).tokens ++ rest ∧ nextKind rest = .endOfFile ∧
      (rest.head?.map Token.span).getD (buffered toks).closing = (ofTokens toks).closing := by
  cases found : toks.find? fun tok => tok.kind = .endOfFile with
  | none =>
    have notEnd := find?_eq_none.mp found
    have notFound : (toks.reverse.find? fun tok => tok.kind = .endOfFile) = none :=
      find?_eq_none.mpr (by simpa using notEnd)
    refine ⟨[], ?_, rfl, ?_⟩
    · have isAll : (toks ++ []).takeWhile (·.kind ≠ Kind.endOfFile) = toks ++ [] :=
        takeWhile_append_of_pos (by simpa using notEnd)
      simpa [ofTokens] using isAll.symm
    · simp [buffered, notFound]
  | some ending =>
    obtain ⟨isEnd, pre, post, rfl, inside⟩ := find?_eq_some_iff_append.mp found
    refine ⟨ending :: post, ?_, by simpa using isEnd, by simp [ofTokens, found]⟩
    rw [ofTokens, takeWhile_append_of_pos (by simpa using inside)]
    simp [isEnd]

theorem Feed.tokens_buffered : (buffered toks).tokens = toks := rfl

/-- A list of tokens is read as the program that it writes, and nothing is reported. -/
theorem parseTokens_of_writes {program : Program}
    (writes : WritesProgram (Feed.ofTokens toks).closing (Feed.ofTokens toks).tokens program) :
    Program.parseTokens toks = { value := program, diagnostics := [] } := by
  obtain ⟨rest, isAll, atEnd, isClosing⟩ := Feed.exists_buffered
  have notErr := writes.regular.errorless.nextKind_append (by rw [atEnd]; decide)
  rw [← isClosing] at writes
  have isRun := program_eq writes atEnd startSpan
  rw [← isAll] at isRun notErr
  have isSt : State.ofFeed (.buffered toks) = _ := State.ofFeed_eq notErr
  rw [Program.parseTokens, run, isSt, Feed.tokens_buffered, isRun]
  rfl

end Imperative.Parser
