import Imperative.Proofs.Grammar.ProgramCompleteness
import Imperative.Proofs.Grammar.Sentences
import Imperative.Proofs.Parser.Feeds

/-!
# What is parsed without a diagnostic is a program

There is one statement for each rule of the grammar, as there is for expressions.
-/

-- The rest of a parser is a long term, and so is the instance that it is steady.
set_option synthInstance.maxSize 512

namespace Imperative.Parser

open List

open Grammar
open Token (Kind)

variable {st : State}

namespace State.Consumes

variable {pre : State} {toks : List Token}

theorem current_eq (consumes : pre.Consumes toks post) (notEmpty : toks ≠ []) :
    pre.current = toks.head notEmpty := by
  obtain ⟨first, rest, rfl⟩ := exists_cons_of_ne_nil notEmpty
  simp [State.current, consumes.rest]

theorem span_eq (consumes : pre.Consumes toks post) (notEmpty : toks ≠ []) :
    pre.current.span.upTo post.previous.stop = spanOver toks := by
  obtain ⟨first, rest, rfl⟩ := exists_cons_of_ne_nil notEmpty
  rw [consumes.current_eq notEmpty, consumes.previous]
  rfl

theorem current_of_nil (consumes : pre.Consumes [] post) : post.current = pre.current := by
  rw [State.current, State.current, consumes.rest, consumes.closing, nil_append]

theorem blockSpan_eq (consumes : pre.Consumes toks post) (isPrev : opening.span = pre.previous) :
    blockSpan opening toks post.current = pre.current.span.upTo post.previous.stop := by
  rw [blockSpan, consumes.previous, isPrev]
  cases toks with
  | nil => rw [← consumes.current_of_nil]; rfl
  | cons first rest => rw [consumes.current_eq (cons_ne_nil _ _)]; rfl

end State.Consumes

theorem Takes.never {next : α → Parser β}
    [∀ val, Steady (next val)]
    (reported : Takes parser st fun _ _ _ => False) : Takes (parser >>= next) st property := by
  apply reported.bind
  intro _ _ _ _ impossible
  exact impossible.elim

theorem spanned_takes {start : State} {make : Span → α} (consumes : start.Consumes toks st)
    (notEmpty : toks ≠ []) (holds : property [] (make (spanOver toks)) st) :
    Takes (do return make (← spanFrom start.current.span)) st property := by
  apply Takes.spanFrom
  rw [consumes.span_eq notEmpty]
  exact .pure holds

/-- A type may come after a colon; what comes then is the same with and without one. -/
theorem ascription_takes {next : Option TypeExpr → Parser α} [∀ type, Steady (next type)]
    (typeTakes : ∀ post, st.Consumes [st.current] post →
      Takes type post fun toks tree _ => WritesType toks (.type tree))
    (others : ∀ toks tree post, st.Consumes toks post → WritesType toks (.ascription tree) →
      Takes (next tree) post fun more res last => property (toks ++ more) res last) :
    Takes (do if (← accept (.symbol .colon)) then next (← some <$> type) else next (← pure none)) st
      property := by
  apply Takes.accept (by decide)
  · intro isColon afterColon consumesColon
    rw [if_pos rfl, map_eq_pure_bind, bind_assoc]
    apply (typeTakes afterColon consumesColon).bind
    intro toks tree afterType consumesType written
    exact others _ (some tree) afterType (consumesColon.trans consumesType) (.typed isColon written)
  · intro notColon
    exact others [] none st (.refl _) .untyped

theorem missingType_takes : Takes missingType st property := by
  apply Takes.current
  exact Takes.never .of_report

theorem expression_takes :
    Takes expression st fun toks tree _ => Writes toks (.expression .disjunction tree) := by
  apply (level_takes .disjunction st (by decide)).imp
  rintro toks tree post ⟨written, -⟩
  exact written

theorem arraySize_takes : Takes arraySize st fun toks size _ => WritesSize toks size := by
  rw [arraySize]
  dsimp only
  apply Takes.accept (by decide)
  · intro opens afterOpening _
    apply Takes.check
    split
    · rw [pure_bind]
      apply Takes.expect (by decide)
      intro closes afterClosing _
      apply Takes.pure
      exact .unsized opens closes
    · rw [map_eq_pure_bind, bind_assoc]
      apply expression_takes.bind
      intro toks size afterSize _ written
      rw [pure_bind]
      apply Takes.expect (by decide)
      intro closes afterClosing _
      apply Takes.pure
      exact .sized opens written closes
  · intro notOpening
    apply Takes.pure
    exact .missing

theorem initialValue_takes : Takes initialValue st fun toks init _ => WritesInitial toks init := by
  apply Takes.accept (by decide)
  · intro isMark afterMark _
    apply Takes.map
    apply expression_takes.imp
    intro toks val post written
    exact .given isMark written
  · intro notMark
    apply Takes.pure
    exact .missing

mutual

theorem type_takes {st : State} :
    Takes type st fun toks tree _ => WritesType toks (.type tree) := by
  rw [type, Group.parse_eq]
  apply Takes.current
  split
  · next isName =>
    have notEnd : st.current.kind ≠ .endOfFile := by simp [isName]
    dsimp only
    split
    · next primitive isPrimitive =>
      apply Takes.advance notEnd
      intro post _
      apply Takes.pure
      exact .primitive isName isPrimitive
    · next isOther =>
      apply Takes.advance notEnd
      intro post _
      apply Takes.pure
      exact .named isName isOther
  · next opens =>
    apply Takes.advance (by simp [opens])
    intro afterOpening consumesOpening
    apply Takes.skipSeparators
    intro separators afterSeparators consumesSeparators separate _
    apply fields_takes.bind
    intro toks fields afterFields _ written
    apply Takes.demand (by decide)
    intro closes afterClosing consumesClosing
    apply Takes.spanFrom
    rw [consumesClosing.previous]
    apply Takes.pure
    exact .record opens separate written closes
  · next opens =>
    apply Takes.advance (by simp [opens])
    intro afterOpening consumesOpening
    apply arraySize_takes.bind
    intro front size afterSize consumesSize inBrackets
    apply type_takes.bind
    intro toks element afterElement consumesElement written
    apply spanned_takes (consumesOpening.trans (consumesSize.trans consumesElement)) (by simp)
    rw [append_nil]
    exact .array opens inBrackets written
  · exact missingType_takes
termination_by 4 * st.rest.length
decreasing_by all_goals grind

theorem fields_takes {st : State} :
    Takes (typeRules.parse .fields) st fun toks fields _ =>
      WritesType toks (.fields fields) := by
  rw [Group.parse_eq]
  apply Takes.check
  split
  · apply (varDecl_takes st).bind
    intro first decl afterDecl consumesDecl written
    have notEmpty : 0 < first.length := by
      cases written
      simp
    apply Takes.skipSeparators
    intro separators afterSeparators consumesSeparators separate _
    apply fields_takes.bind
    intro rest decls post _ more
    apply Takes.pure
    rw [append_nil]
    exact .field written separate more
  · apply Takes.pure
    exact .noFields
termination_by 4 * st.rest.length + 1
decreasing_by all_goals grind

theorem varDecl_takes (st : State) :
    Takes varDecl st fun toks decl _ => WritesType toks (.varDecl decl) := by
  rw [varDecl, Group.parse_eq]
  apply Takes.current
  apply Takes.expect (by decide)
  intro opens afterOpening consumesOpening
  apply Takes.expectName
  intro isName afterName consumesName
  apply ascription_takes fun afterColon consumesColon => type_takes
  intro toks type afterType consumesType ofType
  apply initialValue_takes.bind
  intro back init post consumesBack ofInitial
  apply spanned_takes
    (consumesOpening.trans (consumesName.trans (consumesType.trans consumesBack))) (by simp)
  rw [append_nil]
  exact .varDecl opens isName ofType ofInitial
termination_by 4 * st.rest.length
decreasing_by all_goals grind

end

theorem typeDecl_takes : Takes typeDecl st fun toks decl _ => WritesSimple toks (.type decl) := by
  apply Takes.current
  apply Takes.expect (by decide)
  intro opens afterOpening consumesOpening
  apply Takes.expectName
  intro isName afterName consumesName
  apply Takes.expect (by decide)
  intro isMark afterMark consumesMark
  apply type_takes.bind
  intro toks type post consumesType written
  apply spanned_takes
    (consumesOpening.trans (consumesName.trans (consumesMark.trans consumesType))) (by simp)
  rw [append_nil]
  exact .type opens isName isMark written

theorem simpleDeclaration_takes :
    Takes simpleDeclaration st fun toks declaration _ =>
      WritesSimple toks declaration := by
  apply Takes.check
  split
  · rw [← map_eq_pure_bind]
    apply Takes.map
    exact typeDecl_takes
  · apply Takes.map
    apply (varDecl_takes st).imp
    intro toks decl post written
    exact .var written

theorem missingStatement_takes : Takes missingStatement st property := by
  apply Takes.current
  exact Takes.never .of_report

/-- An item after which a separator or the end of the block has to come has one after it. -/
def Stops (item : Item) (st : State) : Prop := isOpen item = true → closes st.current.kind = true

theorem Stops.of_closed (closed : isOpen item = false) : Stops item st :=
  fun isOpen => absurd (closed.symm.trans isOpen) Bool.false_ne_true

theorem nextKind_of_consumes {pre post : State} (consumes : pre.Consumes toks post)
    (notEmpty : toks ≠ []) (isKind : pre.current.kind = kind) : nextKind toks = kind := by
  obtain ⟨first, rest, rfl⟩ := exists_cons_of_ne_nil notEmpty
  rwa [consumes.current_eq notEmpty] at isKind

theorem assignmentOrCall_takes (isName : st.current.kind = .identifier) :
    Takes assignmentOrCall st fun toks tree post =>
      WritesStatement toks (.statement tree) ∧ Stops (.statement tree) post := by
  apply Takes.current
  refine @Takes.bind _ _ _ _ _ _ _ ?steady primary_takes ?takes
  case steady =>
    intro tgt
    cases tgt <;> infer_instance
  case takes =>
    intro first tgt afterTgt consumesTgt onLeft
    have starts := nextKind_of_consumes consumesTgt (ne_nil_of_begins onLeft.begins) isName
    refine @Takes.accept _ _ _ _ _ ?steady (by decide) ?assigns ?calls
    case steady => cases tgt <;> infer_instance
    case assigns =>
      intro isMark afterMark consumesMark
      apply expression_takes.bind
      intro second val post consumesVal onRight
      apply spanned_takes (consumesTgt.trans (consumesMark.trans consumesVal)) (by simp)
      rw [append_nil]
      exact ⟨.assign onLeft starts isMark onRight, .of_closed rfl⟩
    case calls =>
      intro notMark
      rw [if_neg (by simp)]
      split
      · apply Takes.pure
        rw [append_nil]
        exact ⟨.call onLeft starts, .of_closed rfl⟩
      · have reported : Takes (reportAt tgt.span .assignmentOrCallExpected) afterTgt
            fun _ _ _ => False := fun clean =>
          absurd clean (append_ne_nil_of_right_ne_nil _ (cons_ne_nil _ _))
        exact reported.never

theorem returnStatement_takes :
    Takes returnStatement st fun toks tree post =>
      WritesStatement toks (.statement tree) ∧ Stops (.statement tree) post := by
  rw [returnStatement]
  dsimp only
  apply Takes.current
  apply Takes.expect (by decide)
  intro opens afterOpening consumesOpening
  apply Takes.current
  split
  · next stops =>
    rw [pure_bind]
    apply spanned_takes consumesOpening (by simp)
    exact ⟨.returnNothing opens, fun _ => stops⟩
  · rw [map_eq_pure_bind, bind_assoc]
    apply expression_takes.bind
    intro toks val post consumesVal written
    rw [pure_bind]
    apply spanned_takes (consumesOpening.trans consumesVal) (by simp)
    rw [append_nil]
    exact ⟨.returnValue opens written, .of_closed rfl⟩

theorem printStatement_takes :
    Takes printStatement st fun toks tree post =>
      WritesStatement toks (.statement tree) ∧ Stops (.statement tree) post := by
  apply Takes.current
  apply Takes.expect (by decide)
  intro opens afterOpening consumesOpening
  apply arguments_takes.bind
  rintro toks items post consumesItems ⟨written, notNone⟩
  obtain ⟨item, items, rfl⟩ := exists_cons_of_ne_nil notNone
  apply spanned_takes (consumesOpening.trans consumesItems) (by simp)
  rw [append_nil]
  exact ⟨.print opens written, .of_closed rfl⟩

theorem loopHeader_takes : Takes loopHeader st fun toks header _ => WritesHeader toks header := by
  apply expression_takes.bind
  intro first low afterFirst _ onLow
  apply Takes.accept (by decide)
  · intro isMark afterMark _
    rw [if_pos rfl, ← map_eq_pure_bind]
    apply Takes.map
    apply expression_takes.imp
    intro last high post onHigh
    exact .range onLow isMark onHigh
  · intro notMark
    apply Takes.pure
    rw [append_nil]
    exact .array onLow

theorem loopDirection_takes :
    Takes loopDirection st fun toks dir _ => WritesDirection toks dir := by
  apply Takes.accept (by decide)
  · intro isMark post _
    apply Takes.pure
    exact .reverse isMark
  · intro notMark
    apply Takes.pure
    exact .forward

mutual

theorem block_takes {st : State} (isPrev : pre.span = st.previous) :
    Takes block st fun toks tree post =>
      WritesStatement toks (.block pre post.current tree) := by
  rw [block, Group.parse_eq]
  apply Takes.current
  apply Takes.skipSeparators
  intro separators afterSeparators consumesSeparators separate _
  apply items_takes.bind
  rintro toks items post consumesItems ⟨written, -⟩
  have consumes := consumesSeparators.trans consumesItems
  apply Takes.spanFrom
  rw [← consumes.blockSpan_eq isPrev]
  apply Takes.pure
  rw [append_nil]
  exact .block separate written
termination_by 4 * st.rest.length + 2
decreasing_by all_goals grind

theorem items_takes {st : State} :
    Takes (statementRules.parse .items) st fun toks items _ =>
      WritesStatement toks (.items items) ∧ (st.current.kind.endsBlock = true → items = []) := by
  rw [Group.parse_eq]
  apply Takes.current
  dsimp only
  split
  · apply Takes.pure
    exact ⟨.noItems, fun _ => rfl⟩
  · next goesOn =>
    -- After an item, whichever it is, separators and the other items follow.
    have others (first : List Token) (item : Item) (afterFirst : State)
        (consumesFirst : st.Consumes first afterFirst)
        (written : WritesStatement first (.item item)) (stops : Stops item afterFirst) :
        Takes (do
          skipSeparators
          return item :: (← statementRules.parse .items)) afterFirst fun more items _ =>
          WritesStatement (first ++ more) (.items items) ∧
            (st.current.kind.endsBlock = true → items = []) := by
      have notEmpty : 0 < first.length := by
        have begins : startsItem (nextKind first) = true := beginsStatementPhrase written
        cases first with
        | nil => cases begins
        | cons => simp
      apply Takes.skipSeparators
      intro separators afterSeparators consumesSeparators separate notSeparator
      apply items_takes.bind
      rintro rest items post _ ⟨more, noneAtEnd⟩
      apply Takes.pure
      rw [append_nil]
      refine ⟨.item written separate more fun isOpen noSeparators => ?_,
        fun ends => absurd ends goesOn⟩
      subst noSeparators
      apply noneAtEnd
      have closed := stops isOpen
      rw [← consumesSeparators.current_of_nil, closes, notSeparator] at closed
      exact closed
    split
    · rw [map_eq_pure_bind, bind_assoc]
      apply simpleDeclaration_takes.bind
      intro first declaration afterFirst consumesFirst written
      exact others first _ afterFirst consumesFirst (.declarationItem written) (.of_closed rfl)
    · rw [map_eq_pure_bind, bind_assoc]
      apply (statement_takes st).bind
      rintro first stmt afterFirst consumesFirst ⟨written, stops⟩
      exact others first _ afterFirst consumesFirst (.statementItem written) stops
termination_by 4 * st.rest.length + 1
decreasing_by all_goals grind

theorem statement_takes (st : State) :
    Takes (statementRules.parse .statement) st fun toks tree post =>
      WritesStatement toks (.statement tree) ∧ Stops (.statement tree) post := by
  rw [Group.parse_eq]
  apply Takes.current
  apply Takes.current
  split
  · next opens =>
    dsimp only
    apply Takes.advance (by simp [opens])
    intro afterOpening consumesOpening
    apply expression_takes.bind
    intro first cond afterTest consumesTest test
    apply Takes.expect (by decide)
    intro isMiddle afterMid consumesMid
    apply (block_takes consumesMid.previous.symm).bind
    intro second consequent afterFirst consumesFirst ifHolds
    apply Takes.accept (by decide)
    · intro isBetween afterBetween consumesBetween
      rw [if_pos rfl, map_eq_pure_bind, bind_assoc]
      apply (block_takes consumesBetween.previous.symm).bind
      intro third alternative afterSecond consumesSecond ifFails
      rw [pure_bind]
      apply Takes.expect (by decide)
      intro closes afterClosing consumesClosing
      apply Takes.spanFrom
      rw [consumesClosing.previous]
      apply Takes.pure
      exact ⟨.branchElse opens test isMiddle ifHolds isBetween ifFails closes, .of_closed rfl⟩
    · intro notBetween
      rw [if_neg (by simp), pure_bind]
      apply Takes.expect (by decide)
      intro closes afterClosing consumesClosing
      apply Takes.spanFrom
      rw [consumesClosing.previous]
      apply Takes.pure
      exact ⟨.branch opens test isMiddle ifHolds closes, .of_closed rfl⟩
  · next opens =>
    apply Takes.advance (by simp [opens])
    intro afterOpening consumesOpening
    apply expression_takes.bind
    intro first cond afterTest consumesTest test
    apply Takes.expect (by decide)
    intro isMiddle afterMid consumesMid
    apply (block_takes consumesMid.previous.symm).bind
    intro second body afterBody consumesBody inner
    apply Takes.expect (by decide)
    intro closes afterClosing consumesClosing
    apply Takes.spanFrom
    rw [consumesClosing.previous]
    apply Takes.pure
    exact ⟨.whileLoop opens test isMiddle inner closes, .of_closed rfl⟩
  · next opens =>
    have steady (span : Span) (iter : String) (header : LoopHeader)
        (dir : Direction) (body : Block) :
        Steady (match header with
          | .range first last =>
            (pure (.rangeLoop span iter first last dir body) : Parser Statement)
          | .array array => pure (.arrayLoop span iter array dir body)) := by
      cases header <;> infer_instance
    apply Takes.advance (by simp [opens])
    intro afterOpening consumesOpening
    apply Takes.expectName
    intro isName afterName consumesName
    apply Takes.expect (by decide)
    intro isMark afterMark consumesMark
    apply loopHeader_takes.bind
    intro first header afterHeader consumesHeader ofHeader
    apply loopDirection_takes.bind
    intro second dir afterDir consumesDir towards
    apply Takes.expect (by decide)
    intro isMiddle afterMid consumesMid
    apply (block_takes consumesMid.previous.symm).bind
    intro third body afterBody consumesBody inner
    apply Takes.expect (by decide)
    intro closes afterClosing consumesClosing
    have written := WritesStatement.forLoop opens isName isMark ofHeader towards isMiddle
      inner closes
    apply Takes.spanFrom
    rw [consumesClosing.previous]
    cases header <;> exact Takes.pure ⟨written, .of_closed rfl⟩
  · exact returnStatement_takes
  · exact printStatement_takes
  · next isName => exact assignmentOrCall_takes isName
  · exact missingStatement_takes
termination_by 4 * st.rest.length
decreasing_by all_goals grind

end

theorem parameterRules_takes {st : State} :
    Takes (parameterRules.parse ()) st fun toks trees _ => WritesParameters toks trees := by
  rw [Group.parse_eq]
  apply Takes.current
  apply Takes.expectName
  intro isName afterName consumesName
  apply Takes.expect (by decide)
  intro isColon afterColon consumesColon
  apply type_takes.bind
  intro toks type afterType consumesType written
  have consumes := consumesName.trans (consumesColon.trans consumesType)
  apply Takes.spanFrom
  rw [consumes.span_eq (by simp)]
  apply Takes.accept (by decide)
  · intro isComma afterComma consumesComma
    rw [if_pos rfl, ← map_eq_pure_bind]
    apply Takes.map
    apply parameterRules_takes.imp
    intro rest others post writtenOthers
    exact .more isName isColon written isComma writtenOthers
  · intro notComma
    apply Takes.pure
    rw [append_nil]
    exact .last isName isColon written
termination_by st.rest.length
decreasing_by grind

theorem routineBody_takes {st : State} :
    Takes routineBody st fun toks body post =>
      WritesBody toks body ∧ (body = none →
        post.current.kind.isSeparator = true ∨ post.current.kind = .endOfFile) := by
  apply Takes.current
  dsimp only
  split
  · next stops =>
    apply Takes.pure
    exact ⟨.missing, fun _ => by simpa using stops⟩
  · apply Takes.accept (by decide)
    · intro isMark afterMark _
      apply expression_takes.bind
      intro toks val post _ written
      apply Takes.pure
      rw [append_nil]
      exact ⟨.expression isMark written, (absurd · (Option.some_ne_none _))⟩
    · intro notMark
      apply Takes.expect (by decide)
      intro isMark afterMark consumesMark
      apply (block_takes consumesMark.previous.symm).bind
      intro toks block afterBlock _ inner
      apply Takes.expect (by decide)
      intro closes afterClosing _
      apply Takes.pure
      exact ⟨.block isMark inner closes, (absurd · (Option.some_ne_none _))⟩

def WritesParenthesized (toks : List Token) (trees : List Parameter) : Prop :=
  ∃ left first right, toks = left :: (first ++ [right]) ∧ left.kind = .symbol .leftParen ∧
    (first = [] ∧ trees = [] ∨ WritesParameters first trees) ∧ right.kind = .symbol .rightParen

theorem parameters_takes :
    Takes parameters st fun toks trees _ => WritesParenthesized toks trees := by
  rw [parameters]
  dsimp only
  apply Takes.expect (by decide)
  intro isLeft afterLeft _
  apply Takes.check
  split
  · rw [pure_bind]
    apply Takes.expect (by decide)
    intro isRight post _
    apply Takes.pure
    exact ⟨_, [], _, rfl, isLeft, .inl ⟨rfl, rfl⟩, isRight⟩
  · apply parameterRules_takes.bind
    intro first trees afterFirst _ written
    apply Takes.expect (by decide)
    intro isRight post _
    apply Takes.pure
    exact ⟨_, first, _, rfl, isLeft, .inr written, isRight⟩

theorem routine_takes :
    Takes routine st fun toks tree post =>
      WritesRoutine toks tree ∧ (tree.isForward = true →
        post.current.kind.isSeparator = true ∨ post.current.kind = .endOfFile) := by
  rw [routine]
  dsimp only
  apply Takes.current
  apply Takes.expect (by decide)
  intro opens afterOpening consumesOpening
  apply Takes.expectName
  intro isName afterName consumesName
  apply parameters_takes.bind
  rintro _ trees afterParams consumesParams ⟨left, first, right, rfl, isLeft, ofParameters, isRight⟩
  apply ascription_takes fun afterColon consumesColon => type_takes
  intro second res afterRes consumesRes ofResult
  apply routineBody_takes.bind
  rintro third body post consumesBody ⟨ofBody, stops⟩
  have consumes := consumesOpening.trans
    (consumesName.trans (consumesParams.trans (consumesRes.trans consumesBody)))
  have written := WritesRoutine.mk opens isName isLeft ofParameters isRight ofResult ofBody
  apply spanned_takes consumes (by simp)
  exact ⟨by simpa using written, fun isForward => stops (Option.isNone_iff_eq_none.mp isForward)⟩

/--
Declarations are read up to the end of the text, and so there are none if the text ends at once.
-/
theorem declarations_takes {st : State} :
    Takes (declarationRules.parse ()) st fun toks trees post =>
      WritesDeclarations toks trees ∧ post.current.kind = .endOfFile ∧
        (st.current.kind = .endOfFile → trees = []) := by
  have others (first : List Token) (tree : Declaration) (afterFirst : State)
      (notAtEnd : st.current.kind ≠ .endOfFile) (consumesFirst : st.Consumes first afterFirst)
      (written : WritesDeclaration first tree)
      (stops : isForward tree = true → afterFirst.current.kind.isSeparator = true ∨
        afterFirst.current.kind = .endOfFile) :
      Takes (do
        skipSeparators
        return tree :: (← declarationRules.parse ())) afterFirst fun more trees post =>
        WritesDeclarations (first ++ more) trees ∧ post.current.kind = .endOfFile ∧
          (st.current.kind = .endOfFile → trees = []) := by
    have notEmpty := length_pos_iff.mpr (ne_nil_of_writesDeclaration written)
    apply Takes.skipSeparators
    intro separators afterSeparators consumesSeparators separate notSeparator
    apply declarations_takes.bind
    rintro rest trees post _ ⟨more, atEnd, noneAtEnd⟩
    apply Takes.pure
    rw [append_nil]
    refine ⟨.cons written separate more fun isForward noSeparators => ?_, atEnd,
      fun isEnd => absurd isEnd notAtEnd⟩
    subst noSeparators
    apply noneAtEnd
    rw [consumesSeparators.current_of_nil] at notSeparator ⊢
    simpa [notSeparator] using stops isForward
  rw [Group.parse_eq]
  apply Takes.current
  split
  case h_1 atEnd =>
    apply Takes.pure
    exact ⟨.nil, atEnd, fun _ => rfl⟩
  case h_2 isSimple | h_3 isSimple =>
    apply simpleDeclaration_takes.bind
    intro first tree afterFirst consumesFirst written
    refine others first tree afterFirst (by simp [isSimple]) consumesFirst (.simple written) ?_
    cases written <;> nofun
  case h_4 isRoutine =>
    rw [map_eq_pure_bind, bind_assoc]
    apply routine_takes.bind
    rintro first tree afterFirst consumesFirst ⟨written, stops⟩
    exact others first _ afterFirst (by simp [isRoutine]) consumesFirst (.routine written) stops
  case h_5 => exact .never .of_report
termination_by st.rest.length
decreasing_by grind

theorem program_takes (isInside : ∀ tok ∈ st.rest, tok.kind ≠ .endOfFile) :
    Takes program st fun toks tree post =>
      WritesProgram st.closing toks tree ∧ post.rest = [] := by
  apply Takes.current
  apply Takes.skipSeparators
  intro separators afterSeparators consumesSeparators separate _
  apply declarations_takes.bind
  rintro toks trees post consumesTrees ⟨written, atEnd, -⟩
  apply Takes.current
  apply Takes.pure
  rw [append_nil]
  have consumes := consumesSeparators.trans consumesTrees
  have isInsidePost : ∀ tok ∈ post.rest, tok.kind ≠ .endOfFile := fun tok isIn =>
    isInside tok (by rw [consumes.rest]; simp [isIn])
  have noneLeft := State.rest_eq_nil_of_end isInsidePost atEnd
  have isClosing : post.current.span = st.closing := by
    rw [State.current, noneLeft, consumes.closing]
    rfl
  have isOpening : st.current.span =
      ((separators ++ toks).head?.map Token.span).getD st.closing := by
    rw [State.current, consumes.rest, noneLeft, append_nil]
    cases separators ++ toks <;> rfl
  rw [isClosing, isOpening]
  exact ⟨.mk separate written, noneLeft⟩

theorem writes_of_run (isInside : ∀ tok ∈ feed.tokens, tok.kind ≠ .endOfFile)
    (clean : (run program feed).diagnostics = []) :
    WritesProgram feed.closing feed.tokens (run program feed).value := by
  have startClean := ((inferInstance : Steady program).passes _).clean clean
  have isRest := State.ofFeed_rest startClean
  obtain ⟨toks, consumes, written, noneLeft⟩ :=
    program_takes (isRest ▸ isInside) clean
  have isAll : feed.tokens = toks := by
    rw [← isRest, consumes.rest, noneLeft, append_nil]
  rw [isAll]
  exact written

end Imperative.Parser

theorem Imperative.Program.parse_writes (parses : (Program.parse text).diagnostics = []) :
    Grammar.WritesProgram (Parser.Feed.ofText text).closing (Parser.Feed.ofText text).tokens
      (Program.parse text).value := Parser.writes_of_run Parser.Feed.ofCursor_inside parses
