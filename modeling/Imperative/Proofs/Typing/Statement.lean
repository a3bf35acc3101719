import Imperative.Proofs.Typing.Expression

/-!
# The analysis of statements follows the typing rules

The items of a block extend the innermost scope, and leaving it gives back what was around it.
-/

namespace Imperative.Typing

open List SymbolTable

variable {items : List Item}

variable {Converts : Ty → Ty → Prop} {tbl : List (Span × Ty)}

theorem declareType_ensures (wellNamed : decl.type.WellNamed) :
    Ensures tbl (declareType decl) fun pre _ post =>
      ∃ type extended, Resolves pre.context (some decl.name) decl.type type ∧
        pre.symbols.define? decl.name (.type type) = some extended ∧
        post = { pre with symbols := extended } := by
  apply Ensures.bind (resolveType_observes wellNamed)
  intro type
  apply define_ensures.imp
  rintro mid _ post ⟨extended, defined, rfl⟩ pre ⟨rfl, resolves⟩
  exact ⟨type, extended, resolves, defined, rfl⟩

theorem variableDeclType_observes (span : Span) :
    Observes tbl (variableDeclType span name declared init) fun _ type =>
      (declared = some type ∧ ∀ found, init = some found → found.assignable type = true) ∨
        (declared = none ∧ init = some type ∧ type.isVoid = false) := by
  match declared, init with
  | some declared, some init =>
    rw [variableDeclType]
    apply (unless_report_bind (.pure declared)).imp
    rintro scene type ⟨assignable, rfl⟩
    refine .inl ⟨rfl, ?_⟩
    rintro found ⟨⟩
    exact assignable
  | some declared, none =>
    apply (Observes.pure declared).imp
    rintro scene type rfl
    exact .inl ⟨rfl, by simp⟩
  | none, some init =>
    apply Ensures.ite
    · intro _
      exact reject_ensures
    · intro hasValue
      apply (Observes.pure init).imp
      rintro scene type rfl
      exact .inr ⟨rfl, rfl, by simpa using hasValue⟩
  | none, none => exact reject_ensures

def VariableDeclared (Converts : Ty → Ty → Prop) (tbl : List (Span × Ty)) (decl : VarDecl)
    (pre post : Scene) : Prop :=
  ∃ type extended,
    (pre.context.Proper → VarTyped Converts pre.context decl type ∧
      ∀ val, decl.initial = some val → Recorded Converts tbl pre.context val) ∧
    pre.symbols.define? decl.name (.var type) = some extended ∧
    post = { pre with symbols := extended }

theorem writtenType_observes
    (wellNamed : ∀ name ∈ TypeExpr.namesOf? declared, DeclaredName name) :
    Observes tbl (writtenType declared) fun scene found =>
      Option.Rel (Resolves scene.context none) declared found := by
  cases declared with
  | none => exact (Observes.pure none).imp fun _ _ isNone => isNone ▸ .none
  | some written =>
    exact (resolveType_observes wellNamed).bind fun type =>
      (Observes.pure (some type)).imp fun _ _ isType resolves => isType ▸ .some resolves

theorem initialType_observes (admits : Admits Converts) :
    Observes tbl (initialType init) fun scene found =>
      Option.Rel (fun val type => scene.context.Proper → Noted Converts tbl scene.context val type)
        init found := by
  cases init with
  | none => exact (Observes.pure none).imp fun _ _ isNone => isNone ▸ .none
  | some val =>
    exact (infer_observes admits val).bind fun type =>
      (Observes.pure (some type)).imp fun _ _ isType noted => isType ▸ .some noted

theorem declaredType_observes (admits : Admits Converts)
    (wellNamed : ∀ name ∈ TypeExpr.namesOf? decl.type, DeclaredName name) :
    Observes tbl (declaredType decl) fun scene type => scene.context.Proper →
      VarTyped Converts scene.context decl type ∧
        ∀ val, decl.initial = some val → Recorded Converts tbl scene.context val := by
  obtain ⟨span, name, written, val⟩ := decl
  apply (writtenType_observes wellNamed).bind
  intro declared
  apply (initialType_observes admits).bind
  intro init
  apply (variableDeclType_observes span).imp
  intro scene type fits noted resolved proper
  cases resolved with
  | none =>
    cases noted with
    | none => simp at fits
    | some noted =>
      rcases fits with ⟨⟨⟩, -⟩ | ⟨-, ⟨⟩, hasValue⟩
      refine ⟨.inferred (noted proper).typed hasValue, ?_⟩
      rintro _ ⟨⟩
      exact (noted proper).recorded
  | some resolves =>
    rcases fits with ⟨⟨⟩, assignable⟩ | ⟨⟨⟩, -⟩
    cases noted with
    | none => exact ⟨.declared resolves, by rintro _ ⟨⟩⟩
    | some noted =>
      obtain ⟨typed, recorded⟩ := noted proper
      refine ⟨.initialized resolves typed
        (typed.converts admits proper (resolves.proper proper) (assignable _ rfl)), ?_⟩
      rintro _ ⟨⟩
      exact recorded

theorem declareVariable_ensures (admits : Admits Converts)
    (wellNamed : ∀ name ∈ TypeExpr.namesOf? decl.type, DeclaredName name) :
    Ensures tbl (declareVariable decl) fun pre _ post =>
      VariableDeclared Converts tbl decl pre post := by
  rw [declareVariable_eq]
  apply Ensures.bind (declaredType_observes admits wellNamed)
  intro type
  apply define_ensures.imp
  rintro mid _ post ⟨extended, defined, rfl⟩ pre ⟨rfl, typed⟩
  exact ⟨type, extended, typed, defined, rfl⟩

theorem checkCondition_observes (admits : Admits Converts) (cond : Expr) :
    Observes tbl (checkCondition cond problem) fun scene _ =>
      scene.context.Proper →
        ∃ type, Noted Converts tbl scene.context cond type ∧ Converts type .boolean := by
  apply (infer_observes admits cond).bind
  intro type
  apply unless_report.imp
  intro scene _ assignable noted proper
  exact ⟨type, noted proper, (noted proper).typed.converts admits proper trivial assignable⟩

theorem checkBound_observes (admits : Admits Converts) :
    Observes tbl (checkBound bound problem) fun scene _ =>
      scene.context.Proper →
        ∃ type, Noted Converts tbl scene.context bound type ∧ Converts type .integer := by
  apply (infer_observes admits bound).bind
  intro type
  apply unless_report.imp
  intro scene _ assignable noted proper
  exact ⟨type, noted proper, (noted proper).typed.converts admits proper trivial assignable⟩

theorem iteratorType_observes (admits : Admits Converts) :
    Observes tbl (iteratorType array) fun scene type =>
      scene.context.Proper → ∃ size, Noted Converts tbl scene.context array (.array type size) := by
  apply (infer_observes admits array).bind
  intro found
  split
  · next element size =>
    apply (Observes.pure element).imp
    rintro scene type rfl noted proper
    exact ⟨size, noted proper⟩
  · apply (Observes.pure _).imp
    rintro scene type rfl noted proper
    exact absurd ((noted proper).typed.returnable proper).not_error (by simp [Ty.isError])
  · exact reject_ensures

theorem checkAssignment_observes (admits : Admits Converts) (span : Span) :
    Observes tbl (checkAssignment span tgt val) fun scene _ =>
      scene.context.Proper →
        (∀ res, StatementTyped Converts res scene.context (.assign span tgt val)) ∧
          StatementThroughout Converts (Recorded Converts tbl) scene.context
            (.assign span tgt val) := by
  apply (infer_observes admits tgt).bind
  intro tgtType
  apply (infer_observes admits val).bind
  intro valueType
  apply Ensures.ite
  · intro _
    exact report_ensures _ _ _
  · intro isPlace
    apply unless_report.imp
    intro scene _ assignable valNoted tgtNoted proper
    obtain ⟨tgtTyped, tgtRecorded⟩ := tgtNoted proper
    obtain ⟨valueTyped, valRecorded⟩ := valNoted proper
    -- A place is never a call, so its type is proper.
    have tgtProper : tgtType.Proper := by
      cases tgt with
      | name _ name =>
        cases tgtTyped with
        | name found => exact proper name _ found
      | field _ recv _ =>
        cases tgtTyped with
        | field receiverTyped found => exact (receiverTyped.fields_proper proper).field found
      | index _ recv _ =>
        cases tgtTyped with
        | index receiverTyped _ _ => exact receiverTyped.element_proper proper
      | integer | real | boolean | call | unary | binary => simp [Expr.isPlace] at isPlace
    refine ⟨fun res => ?_, tgtRecorded, valRecorded⟩
    exact .assign (by simpa using isPlace) tgtTyped valueTyped
      (valueTyped.converts admits proper tgtProper assignable)

theorem checkReturn_observes (admits : Admits Converts) (span : Span) :
    Observes tbl (checkReturn span val) fun scene _ =>
      scene.context.Proper → ∀ res, Returnable res → scene.expected = some res →
        StatementTyped Converts res scene.context (.giveBack span val) ∧
          StatementThroughout Converts (Recorded Converts tbl) scene.context
            (.giveBack span val) := by
  apply Ensures.bind get_ensures
  intro st
  cases expected : st.expected with
  | none => exact report_ensures _ _ _
  | some res =>
    cases val with
    | none =>
      apply Ensures.imp unless_report
      rintro mid _ post ⟨rfl, isVoid⟩ pre ⟨rfl, rfl⟩
      refine ⟨rfl, fun _ other _ same => ?_⟩
      obtain rfl : res = other := by simpa [Analysis.scene, expected] using same
      exact ⟨.giveBackNothing isVoid, trivial⟩
    | some val =>
      apply Ensures.bind (infer_observes admits val)
      intro type
      apply Ensures.ite
      · intro _
        exact report_ensures _ _ _
      · intro hasResult
        apply Ensures.imp unless_report
        rintro _ _ post ⟨rfl, assignable⟩ mid ⟨rfl, noted⟩ pre ⟨rfl, rfl⟩
        refine ⟨rfl, fun proper other returnable same => ?_⟩
        obtain rfl : res = other := by simpa [Analysis.scene, expected] using same
        have noVoid : res.isVoid = false := by simpa using hasResult
        obtain ⟨typed, recorded⟩ := noted proper
        exact ⟨.giveBack noVoid typed
          (typed.converts admits proper (returnable.proper noVoid) assignable), recorded⟩

theorem checkPrinted_observes (admits : Admits Converts) (items : List Expr) :
    Observes tbl (checkPrinted items) fun scene _ =>
      scene.context.Proper → ∀ item ∈ items, ∃ type,
        Noted Converts tbl scene.context item type ∧ type.isVoid = false ∧
          type.isAggregate = false := by
  induction items with
  | nil => exact (Observes.pure ()).imp fun _ _ _ _ _ mem => by cases mem
  | cons first rest ih =>
    apply (infer_observes admits first).bind
    intro type
    apply Ensures.ite
    · intro _
      apply (report_ensures _ _ fun _ _ _ => False).bind
      intro _
      exact Ensures.imp ih fun _ _ _ _ _ impossible => impossible.elim
    · intro printable
      apply ih.imp
      intro scene _ restNoted noted proper item mem
      rcases mem_cons.mp mem with rfl | later
      · simp only [Bool.or_eq_true, not_or, Bool.not_eq_true] at printable
        exact ⟨type, noted proper, printable⟩
      · exact restNoted proper item later

/-- What is known about items of a block that are accepted inside of some scope. -/
def ItemsAccepted (Converts : Ty → Ty → Prop) (tbl : List (Span × Ty)) (items : List Item)
    (pre post : Scene) : Prop :=
  pre.symbols.inner ≠ [] →
    post.symbols.leave = pre.symbols.leave ∧ post.expected = pre.expected ∧
      (pre.context.Proper → ∀ res, Returnable res → pre.expected = some res →
        ItemsTyped Converts res pre.context items ∧
          ItemsThroughout Converts (Recorded Converts tbl) pre.context items)

theorem loopScope_observes (iter : String)
    (itemsEnsure : Ensures tbl (checkItems items) fun pre _ post =>
      ItemsAccepted Converts tbl items pre post) :
    Observes tbl
      (do
        modifySymbols (enter .loop)
        defineIterator iter type
        checkItems items
        modifySymbols leave)
      fun scene _ =>
        scene.context.Proper → type.Proper → ∀ res, Returnable res →
          scene.expected = some res →
          ItemsTyped Converts res (Context.define iter (.var type) scene.context) items ∧
            ItemsThroughout Converts (Recorded Converts tbl)
              (Context.define iter (.var type) scene.context) items := by
  apply Ensures.bind modifySymbols_ensures
  intro _
  apply Ensures.bind modifySymbols_ensures
  intro _
  apply Ensures.bind itemsEnsure
  intro _
  apply modifySymbols_ensures.imp
  rintro _ _ final rfl inner accepted entered rfl pre rfl
  obtain ⟨extended, defined⟩ := define_enter
  have leaves := leave_of_define (cons_ne_nil _ _) defined
  rw [defined] at accepted
  obtain ⟨left, sameExpected, noted⟩ := accepted leaves.2
  refine ⟨?_, fun proper typeProper res returnable expected => ?_⟩
  · rw [left, sameExpected]
    simp [leaves.1]
  · have ctx : extended.context = Context.define iter (.var type) pre.context := by
      rw [context_of_define defined, context_enter]
      rfl
    have iterProper : (Symbol.var type).Proper := typeProper
    have itemsNoted := noted (by
      rw [Scene.context, Option.getD_some, ctx]
      exact proper.define iterProper) res returnable expected
    rw [Scene.context, Option.getD_some, ctx] at itemsNoted
    exact itemsNoted

theorem blockScope_observes
    (itemsEnsure : Ensures tbl (checkItems items) fun pre _ post =>
      ItemsAccepted Converts tbl items pre post) :
    Observes tbl
      (do
        modifySymbols (enter kind)
        checkItems items
        modifySymbols leave)
      fun scene _ =>
        scene.context.Proper → ∀ res, Returnable res → scene.expected = some res →
          ItemsTyped Converts res scene.context items ∧
            ItemsThroughout Converts (Recorded Converts tbl) scene.context items := by
  apply Ensures.bind modifySymbols_ensures
  intro _
  apply Ensures.bind itemsEnsure
  intro _
  apply modifySymbols_ensures.imp
  rintro _ _ final rfl inner accepted pre rfl
  obtain ⟨left, sameExpected, noted⟩ := accepted (cons_ne_nil _ _)
  refine ⟨?_, fun proper res returnable expected => ?_⟩
  · rw [left, sameExpected]
    simp
  · have itemsNoted := noted (by
      exact proper) res returnable expected
    exact itemsNoted

theorem ItemsAccepted.defined (defined : pre.symbols.define? name sym = some extended)
    (restAccepted : ItemsAccepted Converts tbl rest { pre with symbols := extended } post)
    (symProper : pre.context.Proper → sym.Proper)
    (typed : pre.context.Proper → ∀ res,
      ItemsTyped Converts res (Context.define name sym pre.context) rest →
      ItemsTyped Converts res pre.context items)
    (throughout : pre.context.Proper →
      ItemsThroughout Converts (Recorded Converts tbl) (Context.define name sym pre.context) rest →
      ItemsThroughout Converts (Recorded Converts tbl) pre.context items) :
    ItemsAccepted Converts tbl items pre post := by
  intro inside
  have leaves := leave_of_define inside defined
  obtain ⟨left, sameExpected, restNoted⟩ := restAccepted leaves.2
  refine ⟨left.trans leaves.1, sameExpected, fun proper res returnable expected => ?_⟩
  have ctx : extended.context = Context.define name sym pre.context :=
    context_of_define defined
  have restProper : (Scene.mk extended pre.expected).context.Proper := by
    rw [Scene.context, ctx]
    exact proper.define (symProper proper)
  obtain ⟨restTyped, inRest⟩ := restNoted restProper res returnable expected
  rw [Scene.context, ctx] at restTyped inRest
  exact ⟨typed proper res restTyped, throughout proper inRest⟩

mutual

theorem checkStatement_observes (admits : Admits Converts) : (stmt : Statement) →
    (∀ name ∈ stmt.typeNames, DeclaredName name) →
    Observes tbl (checkStatement stmt) fun scene _ =>
      scene.context.Proper → ∀ res, Returnable res → scene.expected = some res →
        StatementTyped Converts res scene.context stmt ∧
          StatementThroughout Converts (Recorded Converts tbl) scene.context stmt
  | .assign span tgt val, _ => by
    apply (checkAssignment_observes admits span).imp
    intro scene _ noted proper res _ _
    exact ⟨(noted proper).1 res, (noted proper).2⟩
  | .call span name args, _ => by
    have likeCall : checkStatement (.call span name args) =
        infer (.call span name args) >>= fun _ => pure () := by
      rw [checkStatement, infer]
      simp only [bind_assoc]
    rw [likeCall]
    apply (infer_observes admits (.call span name args)).bind
    intro type
    apply (Observes.pure ()).imp
    intro scene _ _ noted proper res _ _
    exact ⟨.call (noted proper).typed, (noted proper).recorded⟩
  | .branch span cond consequent (some alternative), wellNamed => by
    simp only [Statement.typeNames, mem_append] at wellNamed
    apply (checkCondition_observes admits cond).bind
    intro _
    apply (checkBlock_observes admits consequent fun name mem => wellNamed name (.inl mem)).bind
    intro _
    apply (checkBlock_observes admits alternative fun name mem => wellNamed name (.inr mem)).imp
    intro scene _ alternativeNoted consequentNoted condNoted proper res returnable expected
    obtain ⟨type, ⟨typed, recorded⟩, converts⟩ := condNoted proper
    obtain ⟨thenTyped, inThen⟩ := consequentNoted proper res returnable expected
    obtain ⟨elseTyped, inElse⟩ := alternativeNoted proper res returnable expected
    refine ⟨.branch typed converts thenTyped ?_, recorded, inThen, inElse⟩
    rintro block ⟨⟩
    exact elseTyped
  | .branch span cond consequent none, wellNamed => by
    apply (checkCondition_observes admits cond).bind
    intro _
    apply (checkBlock_observes admits consequent wellNamed).bind
    intro _
    apply (Observes.pure ()).imp
    intro scene _ _ consequentNoted condNoted proper res returnable expected
    obtain ⟨type, ⟨typed, recorded⟩, converts⟩ := condNoted proper
    obtain ⟨thenTyped, inThen⟩ := consequentNoted proper res returnable expected
    exact ⟨.branch typed converts thenTyped nofun, recorded, inThen⟩
  | .whileLoop span cond body, wellNamed => by
    apply (checkCondition_observes admits cond).bind
    intro _
    apply (checkBlock_observes admits body wellNamed).imp
    intro scene _ bodyNoted condNoted proper res returnable expected
    obtain ⟨type, ⟨typed, recorded⟩, converts⟩ := condNoted proper
    obtain ⟨bodyTyped, inBody⟩ := bodyNoted proper res returnable expected
    exact ⟨.whileLoop typed converts bodyTyped, recorded, inBody⟩
  | .rangeLoop span iter first last dir (.mk _ items), wellNamed => by
    apply (checkBound_observes admits).bind
    intro _
    apply (checkBound_observes admits).bind
    intro _
    apply (loopScope_observes iter (checkItems_ensures admits items wellNamed)).imp
    intro scene _ bodyNoted lastNoted firstNoted proper res returnable expected
    obtain ⟨firstType, ⟨firstTyped, inFirst⟩, firstConverts⟩ := firstNoted proper
    obtain ⟨lastType, ⟨lastTyped, inLast⟩, lastConverts⟩ := lastNoted proper
    obtain ⟨bodyTyped, inBody⟩ := bodyNoted proper trivial res returnable expected
    exact ⟨.rangeLoop firstTyped firstConverts lastTyped lastConverts (.mk bodyTyped),
      inFirst, inLast, inBody⟩
  | .arrayLoop span iter array dir (.mk _ items), wellNamed => by
    apply (iteratorType_observes admits).bind
    intro type
    apply (loopScope_observes iter (checkItems_ensures admits items wellNamed)).imp
    intro scene _ bodyNoted arrayNoted proper res returnable expected
    obtain ⟨size, typed, recorded⟩ := arrayNoted proper
    obtain ⟨bodyTyped, inBody⟩ := bodyNoted proper (typed.element_proper proper) res returnable
      expected
    exact ⟨.arrayLoop typed (.mk bodyTyped), recorded, type, size, typed, inBody⟩
  | .giveBack span val, _ => checkReturn_observes admits span
  | .print span items, _ => by
    apply (checkPrinted_observes admits items).imp
    intro scene _ noted proper res _ _
    refine ⟨.print fun item mem => ?_, fun item mem => ?_⟩
    · obtain ⟨type, itemNoted, printable⟩ := noted proper item mem
      exact ⟨type, itemNoted.typed, printable⟩
    · obtain ⟨type, itemNoted, -⟩ := noted proper item mem
      exact itemNoted.recorded
  | .empty span, _ => (Observes.pure ()).imp fun _ _ _ _ _ _ _ => ⟨.empty, trivial⟩
  | .block span nested, wellNamed => by
    apply (checkBlock_observes admits nested wellNamed).imp
    intro scene _ noted proper res returnable expected
    obtain ⟨typed, inBlock⟩ := noted proper res returnable expected
    exact ⟨.block typed, inBlock⟩

theorem checkBlock_observes (admits : Admits Converts) : (block : Block) →
    (∀ name ∈ block.typeNames, DeclaredName name) →
    Observes tbl (checkBlock kind block) fun scene _ =>
      scene.context.Proper → ∀ res, Returnable res → scene.expected = some res →
        BlockTyped Converts res scene.context block ∧
          BlockThroughout Converts (Recorded Converts tbl) scene.context block
  | .mk span items, wellNamed => by
    apply (blockScope_observes (checkItems_ensures admits items wellNamed)).imp
    intro scene _ noted proper res returnable expected
    obtain ⟨typed, inItems⟩ := noted proper res returnable expected
    exact ⟨.mk typed, inItems⟩

theorem checkItems_ensures (admits : Admits Converts) : (items : List Item) →
    (∀ name ∈ Block.itemNames items, DeclaredName name) →
    Ensures tbl (checkItems items) fun pre _ post => ItemsAccepted Converts tbl items pre post
  | [], _ => by
    apply Ensures.imp (Observes.pure ())
    rintro pre _ post ⟨rfl, -⟩ _
    exact ⟨rfl, rfl, fun _ _ _ _ => ⟨.nil, trivial⟩⟩
  | .declaration (.var decl) :: rest, wellNamed => by
    simp only [Block.itemNames, mem_append] at wellNamed
    apply Ensures.bind (declareVariable_ensures admits fun name mem => wellNamed name (.inl mem))
    intro _
    apply (checkItems_ensures admits rest fun name mem => wellNamed name (.inr mem)).imp
    rintro _ _ post restAccepted pre ⟨type, extended, noted, defined, rfl⟩
    exact .defined defined restAccepted (fun proper => (noted proper).1.proper proper)
      (fun proper res restTyped => .var (noted proper).1 restTyped)
      fun proper inRest => ⟨(noted proper).2, type, (noted proper).1, inRest⟩
  | .declaration (.type decl) :: rest, wellNamed => by
    simp only [Block.itemNames, mem_append] at wellNamed
    apply Ensures.bind (declareType_ensures fun name mem => wellNamed name (.inl mem))
    intro _
    apply (checkItems_ensures admits rest fun name mem => wellNamed name (.inr mem)).imp
    rintro _ _ post restAccepted pre ⟨type, extended, resolves, defined, rfl⟩
    exact .defined defined restAccepted (fun proper => resolves.proper proper)
      (fun _ res restTyped => .type resolves restTyped) fun _ inRest => ⟨type, resolves, inRest⟩
  | .declaration (.routine routine) :: rest, wellNamed => by
    apply (report_ensures _ _ fun _ _ _ => False).bind
    intro _
    exact (checkItems_ensures admits rest wellNamed).imp fun _ _ _ _ _ impossible => impossible.elim
  | .statement first :: rest, wellNamed => by
    simp only [Block.itemNames, mem_append] at wellNamed
    apply Ensures.bind (checkStatement_observes admits first
      fun name mem => wellNamed name (.inl mem))
    intro _
    apply (checkItems_ensures admits rest fun name mem => wellNamed name (.inr mem)).imp
    rintro _ _ post restAccepted pre ⟨rfl, firstNoted⟩ inside
    obtain ⟨left, sameExpected, restNoted⟩ := restAccepted inside
    refine ⟨left, sameExpected, fun proper res returnable expected => ?_⟩
    obtain ⟨firstTyped, inFirst⟩ := firstNoted proper res returnable expected
    obtain ⟨restTyped, inRest⟩ := restNoted proper res returnable expected
    exact ⟨.statement firstTyped restTyped, inFirst, inRest⟩

end

end Imperative.Typing
