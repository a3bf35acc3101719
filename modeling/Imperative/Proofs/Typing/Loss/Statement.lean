import Imperative.Proofs.Simplify.Typing
import Imperative.Proofs.Typing.Loss.Expression

/-!
# Statements without a declaration

An error as initial value makes an error of the variable, and one in the head of a loop an error
of the iterator; both are known by their names from then on.
-/

namespace Imperative.Typing

variable {lost : String} {depth : Nat}

theorem define_of_some (defined : st.symbols.define? name sym = some extended) :
    define name sym span problem st = ((), { st with symbols := extended }) := by
  unfold define
  simp only [bind, StateT.bind, get, getThe, MonadStateOf.get, StateT.get, Pure.pure, defined]
  rfl

theorem define_of_quiet (quiet : (define name sym span problem st).2.diagnostics = st.diagnostics) :
    ∃ extended, st.symbols.define? name sym = some extended := by
  unfold define at quiet
  simp only [bind, StateT.bind, get, getThe, MonadStateOf.get, StateT.get, Pure.pure] at quiet
  cases defined : st.symbols.define? name sym with
  | some extended => exact ⟨extended, rfl⟩
  | none =>
    simp only [defined] at quiet
    exact absurd (List.append_right_eq_self.mp quiet) (List.cons_ne_nil _ _)

theorem define_loses (remains : Remains False (some sym) (some left)) :
    Loses lost depth names (define name sym span problem) (define name left span problem) Eq []
      ((name, left.kind) :: names) where
  grows := define_follows.grows
  ends := by
    intro pre start lacks describes quiet
    obtain ⟨extended, defined⟩ := define_of_quiet quiet
    obtain ⟨extendedLeft, definedLeft, lacksExtended⟩ := lacks.define remains defined
    rw [define_of_some defined, define_of_some definedLeft]
    exact
      { value := rfl
        lacks := lacksExtended
        describes := describes.define definedLeft
        around := fun inside => (SymbolTable.leave_of_define inside definedLeft).1
        diagnostics := (List.append_nil _).symm
        spans := rfl
        known := by simp }

theorem declareType_loses :
    Forgets lost depth names (declareType decl) Eq [] ((decl.name, .type) :: names) := by
  apply resolveType_loses.after
  rintro type _ rfl
  exact define_loses (.type type)

/-- A type that may be left out. -/
inductive OptionFades : Option Ty → Option Ty → Prop where
  | none : OptionFades none none
  | some {type left : Ty} (fades : Fades type left) : OptionFades (some type) (some left)

instance : Std.Refl OptionFades where
  refl
    | none => .none
    | some _ => .some .same

theorem variableDeclType_loses (fades : OptionFades init left) :
    Loses lost depth names (variableDeclType span name declared init)
      (variableDeclType span name declared left) Fades [] names := by
  cases fades with
  | none =>
    cases declared with
    | none => exact reject_loses
    | some declared => exact .pure .same
  | @some type typeLeft fades =>
    cases declared with
    | some declared =>
      rw [variableDeclType, variableDeclType]
      exact unless_bind_loses (fades.assignable .same) (.pure .same)
    | none =>
      cases fades with
      | error => exact .absorbed (.ite (reject_reads trivial).follows (.pure type))
      | same =>
        unfold variableDeclType
        simp only
        split
        · exact reject_loses
        · exact .pure .same

theorem writtenType_loses : Forgets lost depth names (writtenType declared) Eq [] names := by
  cases declared with
  | none => exact .pure rfl
  | some written => exact resolveType_loses.after fun _ _ same => .pure (congrArg some same)

theorem initialType_loses : Forgets lost depth names (initialType init) OptionFades
    (Expr.optionOccurrences names init) names := by
  cases init with
  | none => exact .pure .none
  | some val => exact (infer_loses val).before fun _ _ fades => .pure (.some fades)

theorem declaredType_loses :
    Forgets lost depth names (declaredType decl) Fades (decl.occurrences names) names := by
  apply writtenType_loses.after
  rintro declared _ rfl
  exact initialType_loses.before fun _ _ fades => variableDeclType_loses fades

theorem declareVariable_loses (decl : VarDecl) : Forgets lost depth names (declareVariable decl) Eq
      (decl.occurrences names) ((decl.name, .variable) :: names) := by
  rw [declareVariable_eq]
  exact declaredType_loses.before fun _ _ fades => define_loses (.var fades)

theorem checkCondition_loses {cond : Expr} :
    Forgets lost depth names (checkCondition cond problem) Eq (cond.occurrences names) names :=
  (infer_loses cond).before fun _ _ fades => unless_loses (fades.assignable .same)

theorem checkBound_loses :
    Forgets lost depth names (checkBound bound problem) Eq (bound.occurrences names) names :=
  (infer_loses bound).before fun _ _ fades => unless_loses (fades.assignable .same)

theorem iteratorType_loses :
    Forgets lost depth names (iteratorType array) Fades (array.occurrences names) names := by
  apply (infer_loses array).before
  intro type left fades
  cases fades with
  | same =>
    split
    · exact .pure .same
    · exact .pure .same
    · exact reject_loses
  | error =>
    split
    · exact .pure .error
    · exact .pure .error
    · exact reject_loses

theorem checkAssignment_loses : Forgets lost depth names (checkAssignment span tgt val)
      Eq (tgt.occurrences names ++ val.occurrences names) names := by
  apply (infer_loses tgt).bind
  intro tgtType tgtLeft tgtFades
  apply (infer_loses val).before
  intro valueType valLeft valFades
  split
  · exact report_loses
  · exact unless_loses (valFades.assignable tgtFades)

theorem checkReturn_loses : Forgets lost depth names (checkReturn span val) Eq
      (Expr.optionOccurrences names val) names := by
  apply Loses.get
  intro st start lacks
  have sameExpected : start.expected = st.expected := lacks.expected
  rw [sameExpected]
  cases st.expected with
  | none => exact report_loses
  | some expected =>
    cases val with
    | none => exact unless_loses id
    | some val =>
      apply (infer_loses val).before
      intro type left fades
      split
      · exact report_loses
      · exact unless_loses (fades.assignable .same)

theorem Fades.isPrintable (fades : Fades type left)
    (printable : (type.isVoid || type.isAggregate) = false) :
    (left.isVoid || left.isAggregate) = false := by
  cases fades with
  | same => exact printable
  | error => rfl

theorem checkPrinted_loses :
    Forgets lost depth names (checkPrinted items) Eq (Expr.allOccurrences names items) names := by
  induction items with
  | nil => exact .pure rfl
  | cons first rest ih =>
    rw [checkPrinted, Expr.allOccurrences_cons]
    apply (infer_loses first).bind
    intro type left fades
    cases printable : (type.isVoid || type.isAggregate) with
    | true => exact report_bind_loses ih.grows
    | false =>
      rw [fades.isPrintable printable]
      exact ih

def SymbolTable.push (scope : Scope) (tbl : SymbolTable) : SymbolTable :=
  { tbl with inner := scope :: tbl.inner }

theorem Describes.iterate (describes : Describes depth names tbl) :
    Describes (depth + 1) ((iter, .variable) :: names)
      (tbl.push { kind := .loop, symbols := [(iter, .var type)] }) :=
  describes.enter.define (show (tbl.enter .loop).define? iter (.var type) = _ from rfl)

theorem scope_loses (fades : scope.Fades left)
    (opens : ∀ tbl, Describes depth names tbl → Describes (depth + 1) inside (tbl.push left))
    (loses : Loses lost (depth + 1) inside step other Eq found post) :
    Loses lost depth names
      (do
        modifySymbols (SymbolTable.push scope)
        step
        modifySymbols SymbolTable.leave)
      (do
        modifySymbols (SymbolTable.push left)
        other
        modifySymbols SymbolTable.leave) Eq found names where
  grows pre := loses.grows (modifySymbols (.push scope) pre).2
  ends := by
    intro pre start lacks describes quiet
    have opened : Lacks lost (modifySymbols (.push scope) pre).2.scene
        (modifySymbols (.push left) start).2.scene :=
      ⟨.cons fades lacks.inner, lacks.outermost, lacks.expected⟩
    have outcome := loses.ends opened (opens start.symbols describes) quiet
    have leaves : (other (modifySymbols (.push left) start).2).2.symbols.leave =
        start.symbols := outcome.around (List.cons_ne_nil _ _)
    have stillDescribes : Describes depth names
        (other (modifySymbols (.push left) start).2).2.symbols.leave := by
      rw [leaves]
      exact describes
    exact
      { value := rfl
        lacks := outcome.lacks.leave
        describes := stillDescribes
        around := fun _ => congrArg SymbolTable.leave leaves
        diagnostics := outcome.diagnostics
        spans := outcome.spans
        known := outcome.known }

theorem emptyScope_fades :
    Scope.Fades { kind, symbols := [] } { kind, symbols := [] } := fun _ => .none

theorem iteratorScope_fades (fades : Fades type left) :
    Scope.Fades { kind := .loop, symbols := [(iter, .var type)] }
      { kind := .loop, symbols := [(iter, .var left)] } :=
  .cons (fun _ => .none) (.var fades) iter


mutual

theorem checkStatement_loses : (depth : Nat) → (names : Names) → (stmt : Statement) →
    Forgets lost depth names (checkStatement stmt) Eq (stmt.occurrences names) names
  | depth, names, .assign span tgt val => checkAssignment_loses
  | depth, names, .call span name args => by
    rw [checkStatement, Statement.occurrences, Expr.occurrences_call]
    apply (inferAll_loses args).bind
    intro found left fade
    apply (callType_loses fade).after
    intro type typeLeft fades
    exact (record_loses fades (.call span name args) nofun).before fun _ _ _ => .pure rfl
  | depth, names, .branch _ cond consequent none => by
    apply checkCondition_loses.bind
    intro _ _ _
    exact (checkBlock_loses depth names .block consequent).before fun _ _ _ => .pure rfl
  | depth, names, .branch _ cond consequent (some alternative) => by
    apply checkCondition_loses.bind
    intro _ _ _
    apply (checkBlock_loses depth names .block consequent).bind
    intro _ _ _
    exact checkBlock_loses depth names .block alternative
  | depth, names, .whileLoop _ cond body => by
    apply checkCondition_loses.bind
    intro _ _ _
    exact checkBlock_loses depth names .loop body
  | depth, names, .rangeLoop _ iter first last _ (.mk _ items) => by
    obtain ⟨post, itemsLose⟩ := checkItems_loses (depth + 1) ((iter, .variable) :: names) items
    apply checkBound_loses.bind
    intro _ _ _
    apply checkBound_loses.bind
    intro _ _ _
    exact (scope_loses (iteratorScope_fades .same) (fun _ describes => describes.iterate)
      itemsLose :)
  | depth, names, .arrayLoop _ iter array _ (.mk _ items) => by
    obtain ⟨post, itemsLose⟩ := checkItems_loses (depth + 1) ((iter, .variable) :: names) items
    apply iteratorType_loses.bind
    intro type left fades
    exact (scope_loses (iteratorScope_fades fades) (fun _ describes => describes.iterate)
      itemsLose :)
  | depth, names, .giveBack span val => checkReturn_loses
  | depth, names, .print _ items => checkPrinted_loses
  | depth, names, .empty _ => .pure rfl
  | depth, names, .block _ inner => checkBlock_loses depth names .block inner

theorem checkBlock_loses : (depth : Nat) → (names : Names) → (kind : ScopeKind) →
    (block : Block) →
    Forgets lost depth names (checkBlock kind block) Eq (block.occurrences names) names
  | depth, names, kind, .mk _ items => by
    obtain ⟨post, itemsLose⟩ := checkItems_loses (depth + 1) names items
    exact scope_loses emptyScope_fades (fun _ describes => describes.enter) itemsLose

theorem checkItems_loses : (depth : Nat) → (names : Names) → (items : List Item) →
    ∃ post, Forgets lost depth names (checkItems items) Eq (Item.allOccurrences names items) post
  | depth, names, [] => ⟨names, .pure rfl⟩
  | depth, names, .declaration (.var inner) :: rest => by
    obtain ⟨post, restLoses⟩ := checkItems_loses depth ((inner.name, .variable) :: names) rest
    exact ⟨post, (declareVariable_loses inner).bind fun _ _ _ => restLoses⟩
  | depth, names, .declaration (.type inner) :: rest => by
    obtain ⟨post, restLoses⟩ := checkItems_loses depth ((inner.name, .type) :: names) rest
    exact ⟨post, declareType_loses.after fun _ _ _ => restLoses⟩
  | depth, names, .declaration (.routine inner) :: rest => by
    obtain ⟨post, restLoses⟩ := checkItems_loses depth names rest
    exact ⟨post, report_bind_loses restLoses.grows⟩
  | depth, names, .statement inner :: rest => by
    obtain ⟨post, restLoses⟩ := checkItems_loses depth names rest
    exact ⟨post, (checkStatement_loses depth names inner).bind fun _ _ _ => restLoses⟩

end

end Imperative.Typing
