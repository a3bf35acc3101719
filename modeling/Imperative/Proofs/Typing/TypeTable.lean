import Imperative.Proofs.Syntax.Outline
import Imperative.Proofs.Typing.Expression
import Imperative.Proofs.Typing.Stability
import Mathlib.Data.List.Nodup

/-!
# The table of types

The analysis looks at expressions in the order of the text and at none of them twice, so the spans
in the table are among those of the program, in order.
-/

namespace Imperative.Typing

open List

/-! ## Scenes that are alike -/

/-- The scenes differ at most in how the symbols of the outermost scope are listed. -/
structure Scene.Alike (scene other : Scene) : Prop where
  inner : scene.symbols.inner = other.symbols.inner
  outermost : ∀ name, scene.symbols.lookupGlobal name = other.symbols.lookupGlobal name
  expected : scene.expected = other.expected

namespace Scene.Alike

theorem refl {scene : Scene} : scene.Alike scene := ⟨rfl, fun _ => rfl, rfl⟩

theorem trans {scene other third : Scene} (alike : scene.Alike other)
    (further : other.Alike third) : scene.Alike third :=
  ⟨alike.inner.trans further.inner,
    fun name => (alike.outermost name).trans (further.outermost name),
    alike.expected.trans further.expected⟩

theorem context {scene other : Scene} (alike : scene.Alike other) :
    scene.symbols.context = other.symbols.context := by
  funext name
  have outermost : scene.symbols.outermost.symbols.lookup name =
      other.symbols.outermost.symbols.lookup name := alike.outermost name
  simp only [SymbolTable.context_eq, SymbolTable.entries, alike.inner, flatMap_append,
    lookup_append, flatMap_cons, flatMap_nil, append_nil, outermost]

theorem define {scene other : Scene} (alike : scene.Alike other) :
    scene.symbols.define? name sym = none ∧ other.symbols.define? name sym = none ∨
      ∃ extended otherExtended, scene.symbols.define? name sym = some extended ∧
        other.symbols.define? name sym = some otherExtended ∧
        Alike { scene with symbols := extended } { other with symbols := otherExtended } := by
  obtain ⟨⟨inner, outermost⟩, expected⟩ := scene
  obtain ⟨⟨_, otherOutermost⟩, _⟩ := other
  obtain ⟨rfl, same, rfl⟩ := alike
  simp only [SymbolTable.lookupGlobal] at same
  cases inner with
  | nil =>
    simp only [SymbolTable.define?, SymbolTable.defineIn, ← same]
    cases outermost.symbols.lookup name with
    | some _ => exact .inl ⟨rfl, rfl⟩
    | none =>
      refine .inr ⟨_, _, rfl, rfl, rfl, fun other => ?_, rfl⟩
      simp only [SymbolTable.lookupGlobal, lookup_cons, same]
  | cons scope outer =>
    simp only [SymbolTable.define?, SymbolTable.defineIn]
    cases scope.symbols.lookup name with
    | some _ => exact .inl ⟨rfl, rfl⟩
    | none => exact .inr ⟨_, _, rfl, rfl, rfl, same, rfl⟩

end Scene.Alike

def Blind {α : Type} (step : Checker α) : Prop :=
  ∀ pre start : Analysis, pre.scene.Alike start.scene →
    (step pre).1 = (step start).1 ∧ (step pre).2.scene.Alike (step start).2.scene ∧
      ∃ reported, (step pre).2.diagnostics = pre.diagnostics ++ reported ∧
        (step start).2.diagnostics = start.diagnostics ++ reported ∧
        ∀ diagnostic ∈ reported, diagnostic.stage = .semantic

namespace Blind

variable {α β : Type}

theorem silent {step : Checker α} (quiet : ∀ pre, (step pre).2.diagnostics = pre.diagnostics)
    (same : ∀ pre start : Analysis, pre.scene.Alike start.scene →
      (step pre).1 = (step start).1 ∧ (step pre).2.scene.Alike (step start).2.scene) :
    Blind step := by
  intro pre start alike
  obtain ⟨sameVal, post⟩ := same pre start alike
  refine ⟨sameVal, post, [], ?_, ?_, forall_mem_nil _⟩ <;> rw [quiet, append_nil]

theorem pure : Blind (Pure.pure val) :=
  .silent (fun _ => rfl) fun _ _ alike => ⟨rfl, alike⟩

theorem bind {next : α → Checker β} (blind : Blind step)
    (nextBlind : ∀ val, Blind (next val)) : Blind (step >>= next) := by
  intro pre start alike
  obtain ⟨sameVal, mid, first, isFirst, isFirstOther, firstStage⟩ := blind pre start alike
  obtain ⟨sameRes, post, second, isSecond, isSecondOther, secondStage⟩ :=
    nextBlind (step pre).1 _ _ mid
  rw [isFirst, append_assoc] at isSecond
  rw [isFirstOther, append_assoc] at isSecondOther
  have isRest : (step >>= next) start = next (step pre).1 (step start).2 := by
    rw [sameVal]
    rfl
  rw [isRest]
  exact ⟨sameRes, post, _, isSecond, isSecondOther, forall_mem_append.mpr ⟨firstStage, secondStage⟩⟩

theorem get {next : Analysis → Checker α} (nextBlind : ∀ st, Blind (next st))
    (same : ∀ st other : Analysis, st.scene.Alike other.scene → next st = next other) :
    Blind (MonadState.get >>= next) := by
  intro pre start alike
  have isNext : (MonadState.get >>= next) start = next pre start :=
    congrFun (same pre start alike).symm start
  rw [isNext]
  exact nextBlind pre pre start alike

theorem modifySymbols {change : SymbolTable → SymbolTable}
    (keeps : ∀ scene other : Scene, scene.Alike other →
      Scene.Alike { scene with symbols := change scene.symbols }
        { other with symbols := change other.symbols }) : Blind (Typing.modifySymbols change) :=
  .silent (fun _ => rfl) fun pre start alike => ⟨rfl, keeps pre.scene start.scene alike⟩

theorem report {span : Span} : Blind (Typing.report span problem) :=
  fun _ _ alike => ⟨rfl, alike, _, rfl, rfl, forall_mem_singleton.mpr rfl⟩

end Blind

/-! ## What steps record -/

def Analysis.Placed (place : Span → Prop) (analysis : Analysis) : Prop :=
  ∀ diagnostic ∈ analysis.diagnostics, place diagnostic.span

abbrev AllAt {α : Type} (place : Span → Prop) (entries : List (Span × α)) : Prop :=
  ∀ entry ∈ entries, place entry.1

/-- A visit of an expression: the expression, and the state before its type is inferred. -/
structure Visit where
  tree : Expr
  before : Analysis

namespace Visit

/-- The type that is inferred. -/
def type (visit : Visit) : Ty := (infer visit.tree visit.before).1

/-- What is recorded for the visit. -/
def entry (visit : Visit) : Span × Ty := (visit.tree.span, visit.type)

/-- The table after the visit. -/
def table (visit : Visit) : List (Span × Ty) := (infer visit.tree visit.before).2.types

end Visit

/-- The table holds what the visits record, the last one first, and then what is older. -/
structure Visited (visits : List Visit) (older table : List (Span × Ty)) : Prop where
  whole : table = visits.map Visit.entry ++ older
  kept : ∀ visit ∈ visits, visit.table <:+ table

/--
The step records types for some of the expressions, in order, and keeps the older ones.  It reports
problems at places only, the same ones in scenes that are alike.
-/
structure Records {α : Type} (place : Span → Prop) (step : Checker α) (trees : List Expr) :
    Prop where
  types : ∀ before, ∃ visits, Visited visits before.types (step before).2.types ∧
    (visits.map Visit.tree).reverse.Sublist trees
  reports : ∀ before, before.Placed place → (step before).2.Placed place
  blind : Blind step

namespace Records

variable {α β : Type} {place : Span → Prop} {step : Checker α} {next : α → Checker β}

theorem of_same (same : ∀ before, (step before).2.types = before.types ∧
    (step before).2.diagnostics = before.diagnostics) (blind : Blind step) :
    Records place step [] where
  types before := ⟨[], ⟨(same before).1, nofun⟩, .refl _⟩
  reports before placed := by rwa [Analysis.Placed, (same before).2]
  blind := blind

theorem pure : Records place (Pure.pure val) [] :=
  of_same (fun _ => ⟨rfl, rfl⟩) .pure

theorem bindReturned (holds : α → Prop) (records : Records place step trees)
    (returned : ∀ before, holds (step before).1)
    (nextRecords : ∀ val, holds val → Records place (next val) others)
    (nextBlind : ∀ val, Blind (next val)) : Records place (step >>= next) (trees ++ others) where
  types before := by
    obtain ⟨visits, ⟨isFirst, kept⟩, fromTrees⟩ := records.types before
    obtain ⟨more, ⟨isSecond, keptLater⟩, fromOthers⟩ :=
      (nextRecords _ (returned before)).types (step before).2
    refine ⟨more ++ visits, ⟨?_, forall_mem_append.mpr ⟨keptLater, fun visit mem => ?_⟩⟩, ?_⟩
    · rw [map_append, append_assoc, ← isFirst]
      exact isSecond
    · exact (kept visit mem).trans ⟨_, isSecond.symm⟩
    · rw [map_append, reverse_append]
      exact fromTrees.append fromOthers
  reports before placed :=
    (nextRecords _ (returned before)).reports _ (records.reports before placed)
  blind := records.blind.bind nextBlind

theorem bind (records : Records place step trees)
    (nextRecords : ∀ val, Records place (next val) others) :
    Records place (step >>= next) (trees ++ others) :=
  bindReturned (fun _ => True) records (fun _ => trivial) (fun val _ => nextRecords val)
    fun val => (nextRecords val).blind

theorem map (records : Records place step trees) : Records place (transform <$> step) trees :=
  ⟨records.types, records.reports, records.blind.bind fun _ => .pure⟩

theorem get {next : Analysis → Checker α} (nextRecords : ∀ st, Records place (next st) trees)
    (same : ∀ st other : Analysis, st.scene.Alike other.scene → next st = next other) :
    Records place (MonadState.get >>= next) trees where
  types before := (nextRecords before).types before
  reports before := (nextRecords before).reports before
  blind := .get (fun st => (nextRecords st).blind) same

theorem ite [Decidable condition]
    (ifHolds : Records place step trees) (ifFails : Records place alternative trees) :
    Records place (if condition then step else alternative) trees := by
  split
  · exact ifHolds
  · exact ifFails

theorem mono (records : Records place step trees) (fewer : trees.Sublist others) :
    Records place step others where
  types before := by
    obtain ⟨visits, visited, fromTrees⟩ := records.types before
    exact ⟨visits, visited, fromTrees.trans fewer⟩
  reports := records.reports
  blind := records.blind

theorem after (records : Records place step [])
    (nextRecords : ∀ val, Records place (next val) others) : Records place (step >>= next) others :=
  records.bind nextRecords

theorem before (records : Records place step trees)
    (nextRecords : ∀ val, Records place (next val) []) : Records place (step >>= next) trees := by
  have whole := records.bind nextRecords
  rwa [append_nil] at whole

theorem subset (records : Records place step trees) {before : Analysis} :
    before.types ⊆ (step before).2.types := by
  obtain ⟨visits, visited, -⟩ := records.types before
  rw [visited.whole]
  exact subset_append_right _ before.types

/-- A visit: the type is found first, and then recorded. -/
theorem infer (isInfer : Typing.infer tree = typing >>= record tree.span)
    (records : Records place typing tree.parts) : Records place (Typing.infer tree) tree.nodes where
  types before := by
    obtain ⟨visits, ⟨isTbl, kept⟩, fromParts⟩ := records.types before
    have isType : (Typing.infer tree before).1 = (typing before).1 := by
      rw [isInfer]
      rfl
    have isPost : (Typing.infer tree before).2.types =
        (tree.span, (typing before).1) :: (typing before).2.types := by
      rw [isInfer]
      rfl
    refine ⟨{ tree, before } :: visits, ⟨?_, forall_mem_cons.mpr
      ⟨suffix_rfl, fun visit mem => ?_⟩⟩, ?_⟩
    · rw [isPost, ← isType, isTbl]
      rfl
    · rw [isPost]
      exact (kept visit mem).trans (suffix_cons _ _)
    · rw [map_cons, reverse_cons]
      exact fromParts.append (List.Sublist.refl _)
  reports before placed := by
    rw [isInfer]
    exact records.reports before placed
  blind := by
    rw [isInfer]
    exact records.blind.bind fun _ => .silent (fun _ => rfl) fun _ _ alike => ⟨rfl, alike⟩

end Records

variable {place : Span → Prop} {span : Span}

section Steps

theorem report_records (placed : place span) : Records place (report span problem) [] where
  types _ := ⟨[], ⟨rfl, nofun⟩, .refl _⟩
  reports _ others := forall_mem_append.mpr ⟨others, forall_mem_singleton.mpr placed⟩
  blind := .report

theorem modifySymbols_records
    (keeps : ∀ scene other : Scene, scene.Alike other →
      Scene.Alike { scene with symbols := change scene.symbols }
        { other with symbols := change other.symbols }) :
    Records place (modifySymbols change) [] := .of_same (fun _ => ⟨rfl, rfl⟩) (.modifySymbols keeps)

theorem enter_records : Records place (modifySymbols (SymbolTable.enter kind)) [] :=
  modifySymbols_records fun _ _ alike => { alike with inner := congrArg (_ :: ·) alike.inner }

theorem leave_records : Records place (modifySymbols SymbolTable.leave) [] :=
  modifySymbols_records fun _ _ alike => { alike with inner := congrArg tail alike.inner }

theorem setExpected_records : Records place (setExpected expected) [] :=
  .of_same (fun _ => ⟨rfl, rfl⟩)
    (.silent (fun _ => rfl) fun _ _ alike => ⟨rfl, { alike with expected := rfl }⟩)

theorem Reads.records (reads : Reads place step) :
    Records place step [] := by
  induction reads with
  | pure val => exact .pure
  | report placed problem => exact report_records placed
  | bind _ _ ih nextIh => exact ih.after nextIh
  | @names _ next _ ih =>
    exact .get (fun st => ih _) fun st other alike => congrArg next alike.context

theorem Reads.blind (reads : Reads (fun _ => True) step) :
    Blind step := reads.records.blind

theorem define_blind : Blind (define name sym span problem) := by
  intro pre start alike
  rw [define_eq, define_eq]
  rcases alike.define with ⟨isTaken, isTakenOther⟩ |
    ⟨extended, otherExtended, isDefined, isDefinedOther, extendedAlike⟩
  · rw [show pre.symbols.define? name sym = none from isTaken,
      show start.symbols.define? name sym = none from isTakenOther]
    exact Blind.report pre start alike
  · rw [show pre.symbols.define? name sym = some extended from isDefined,
      show start.symbols.define? name sym = some otherExtended from isDefinedOther]
    exact ⟨rfl, extendedAlike, [], (append_nil _).symm, (append_nil _).symm, forall_mem_nil _⟩

theorem define_records (placed : place span) : Records place (define name sym span problem) [] where
  types st := by
    have same : (define name sym span problem st).2.types = st.types := by
      rw [define_eq]
      cases st.symbols.define? name sym <;> rfl
    exact ⟨[], ⟨same, nofun⟩, .refl _⟩
  reports st others := by
    rw [define_eq]
    cases st.symbols.define? name sym with
    | none => exact (report_records placed).reports st others
    | some _ => exact others
  blind := define_blind

def Problem.isOfType : Problem → Bool
  | undefinedType _ | fieldWithoutType | duplicateField _ | sizeNotPositive | sizeNotConstant =>
    true
  | _ => false

abbrev OfType (place : Span → Prop) (problems : List (Span × Problem)) : Prop :=
  ∀ entry ∈ problems, place entry.1 ∧ entry.2.isOfType = true

theorem arrayLength_placed (placed : Outline.AllIn place (size.map Expr.outline).toList) :
    OfType place (arrayLength size).problems := by
  cases size with
  | none => exact forall_mem_nil _
  | some size =>
    rw [arrayLength]
    split
    · split
      · exact forall_mem_nil _
      · exact forall_mem_singleton.mpr ⟨placed.1.root, rfl⟩
    · exact forall_mem_singleton.mpr ⟨placed.1.root, rfl⟩

mutual

/-- What is wrong with a written type is reported at a span of the type, and is about types. -/
theorem resolve_placed {lookup : String → Option Ty} : (written : TypeExpr) →
    written.outline.All place → OfType place (resolve lookup hint written).problems
  | .primitive _ _, _ => forall_mem_nil _
  | .named span name, placed => by
    rw [resolve, namedType]
    split
    · exact forall_mem_nil _
    · split
      · exact forall_mem_nil _
      · exact forall_mem_singleton.mpr ⟨placed.1, rfl⟩
  | .record span fields, placed =>
    forall_mem_append.mpr ⟨resolveFields_placed lookup [] fields placed.2, forall_mem_nil _⟩
  | .array span element size, placed => by
    refine forall_mem_append.mpr ⟨resolve_placed element placed.2.1, forall_mem_append.mpr ⟨?_, ?_⟩⟩
    · exact arrayLength_placed placed.2.2
    · exact forall_mem_nil _

theorem resolveFields_placed (lookup : String → Option Ty) (taken : List String) :
    (fields : List VarDecl) → Outline.AllIn place (VarDecl.outlines fields) →
      OfType place (resolveFields lookup taken fields).problems
  | [], _ => forall_mem_nil _
  | .mk span name type init :: rest, placed => by
    have isPlaced : place span := by cases type <;> exact placed.1.1
    have ofRest (later : List String) := resolveFields_placed lookup later rest placed.2
    have ofTail (type : Ty) : OfType place (if name ∈ taken then do
          Reported.report span (.duplicateField name)
          resolveFields lookup taken rest
        else do
          let rest ← resolveFields lookup (name :: taken) rest
          return (name, type) :: rest).problems := by
      split
      · exact forall_mem_cons.mpr ⟨⟨isPlaced, rfl⟩, ofRest taken⟩
      · exact forall_mem_append.mpr ⟨ofRest (name :: taken), forall_mem_nil _⟩
    cases type with
    | none => exact forall_mem_cons.mpr ⟨⟨isPlaced, rfl⟩, ofTail _⟩
    | some written => exact forall_mem_append.mpr ⟨resolve_placed written placed.1.2.1, ofTail _⟩

end

theorem resolveType_records
    (placed : written.outline.All place) : Records place (resolveType hint written) [] :=
  (resolveType_reads fun _ entry mem => (resolve_placed written placed entry mem).1).records

end Steps

/-! ## Expressions -/

section Expressions

theorem inferAll_placed (placed : Outline.AllIn place (Expr.outlines trees)) (before : Analysis) :
    AllAt place (inferAll trees before).1 := by
  induction trees generalizing before with
  | nil => exact forall_mem_nil _
  | cons first rest ih => exact forall_mem_cons.mpr ⟨placed.1.root, ih placed.2 _⟩

mutual

theorem infer_records : (tree : Expr) → tree.outline.All place →
    Records place (infer tree) tree.nodes
  | .integer _ _, _ | .real _ _, _ | .boolean _ _, _ => .infer (by rw [infer]; rfl) .pure
  | .name span name, placed => .infer (by rw [infer]; rfl) (variableType_reads placed.1).records
  | .field span recv field, placed => by
    refine .infer (by rw [infer, ← bind_assoc]; rfl) ?_
    exact (infer_records recv placed.2.1).before fun type => (fieldType_reads placed.1).records
  | .index span recv pos, placed => by
    refine .infer (by simp only [infer, ← bind_assoc]; rfl) ?_
    rw [Expr.parts_index]
    apply (infer_records recv placed.2.1).bind
    intro recvType
    apply ((infer_records pos placed.2.2.1).before fun _ =>
      (checkIndex_reads placed.2.2.1.root).records).before
    intro _
    exact (elementType_reads placed.1).records
  | .call span name args, placed => by
    refine .infer (by rw [infer, ← bind_assoc]; rfl) ?_
    rw [← append_nil (Expr.parts _)]
    exact (inferAll_records args placed.2).bindReturned (AllAt place) (inferAll_placed placed.2)
      (fun found ofFound => (callType_reads placed.1 ofFound).records)
      fun _ => (callType_reads trivial fun _ _ => trivial).blind
  | .unary span op operand, placed => by
    refine .infer (by rw [infer, ← bind_assoc]; rfl) ?_
    exact (infer_records operand placed.2.1).before fun type => (unaryType_reads placed.1).records
  | .binary span op left right, placed => by
    refine .infer (by simp only [infer, ← bind_assoc]; rfl) ?_
    rw [Expr.parts_binary]
    apply (infer_records left placed.2.1).bind
    intro leftType
    exact (infer_records right placed.2.2.1).before fun rightType =>
      (binaryType_reads placed.1 op leftType rightType).records

theorem inferAll_records : (trees : List Expr) → Outline.AllIn place (Expr.outlines trees) →
    Records place (inferAll trees) (Expr.allNodes trees)
  | [], _ => .pure
  | first :: rest, placed => by
    rw [inferAll, Expr.allNodes_cons]
    apply (infer_records first placed.1).bind
    intro firstType
    exact (inferAll_records rest placed.2).before fun _ => .pure

end

end Expressions

/-! ## Statements and programs -/

section Statements

theorem declareType_records (placed : decl.outline.All place) :
    Records place (declareType decl) [] :=
  (resolveType_records placed.2.1).after fun _ => define_records placed.1

theorem initialType_records (placed : Outline.AllIn place (init.map Expr.outline).toList) :
    Records place (initialType init) (Expr.optionNodes init) := by
  cases init with
  | none => exact .pure
  | some val => exact (infer_records val placed.1).map

theorem declareVariable_records : (decl : VarDecl) → decl.outline.All place →
    Records place (declareVariable decl) decl.nodes
  | .mk span name none init, placed => by
    rw [declareVariable_eq]
    exact (Records.pure.after fun _ => (initialType_records placed.2).before fun _ =>
      (variableDeclType_reads placed.1).records).before fun _ => define_records placed.1
  | .mk span name (some written) init, placed => by
    rw [declareVariable_eq]
    refine Records.mono ?_ (sublist_append_right _ _)
    exact ((resolveType_records placed.2.1).map.after fun _ =>
      (initialType_records placed.2.2).before fun _ =>
        (variableDeclType_reads placed.1).records).before fun _ => define_records placed.1

theorem checkCondition_records (placed : condition.outline.All place) :
    Records place (checkCondition condition problem) condition.nodes :=
  (infer_records condition placed).before fun _ => .ite (report_records placed.root) .pure

theorem checkBound_records (placed : bound.outline.All place) :
    Records place (checkBound bound problem) bound.nodes :=
  (infer_records bound placed).before fun _ => .ite (report_records placed.root) .pure

theorem iteratorType_records (placed : array.outline.All place) :
    Records place (iteratorType array) array.nodes := by
  apply (infer_records array placed).before
  intro type
  split
  · exact .pure
  · exact .pure
  · exact (reject_reads placed.root).records

theorem checkAssignment_records (placed : place span)
    (ofTgt : tgt.outline.All place) (ofValue : val.outline.All place) :
    Records place (checkAssignment span tgt val) (tgt.nodes ++ val.nodes) := by
  apply (infer_records tgt ofTgt).bind
  intro tgtType
  apply (infer_records val ofValue).before
  intro valueType
  exact .ite (report_records placed) (.ite (report_records placed) .pure)

theorem checkReturn_records (placed : place span)
    (ofValue : Outline.AllIn place (val.map Expr.outline).toList) :
    Records place (checkReturn span val) (Expr.optionNodes val) := by
  refine .get (fun st => ?_) fun st other alike => ?_
  · split
    · exact (report_records placed).mono (nil_sublist _)
    · exact (infer_records _ ofValue.1).before fun _ =>
        .ite (report_records placed) (.ite (report_records placed) .pure)
    · exact .ite (report_records placed) .pure
  · rw [show st.expected = other.expected from alike.expected]

theorem checkPrinted_records (placed : Outline.AllIn place (Expr.outlines items)) :
    Records place (checkPrinted items) (Expr.allNodes items) := by
  induction items with
  | nil => exact .pure
  | cons first rest ih =>
    rw [checkPrinted, Expr.allNodes_cons]
    apply (infer_records first placed.1).bind
    intro type
    exact .ite ((report_records placed.1.root).after fun _ => ih placed.2) (ih placed.2)

theorem defineIterator_records : Records place (defineIterator name type) [] := by
  apply modifySymbols_records
  intro scene other alike
  rcases alike.define with ⟨isTaken, isTakenOther⟩ |
    ⟨extended, otherExtended, isDefined, isDefinedOther, extendedAlike⟩
  · rw [isTaken, isTakenOther]
    exact alike
  · rw [isDefined, isDefinedOther]
    exact extendedAlike

mutual

theorem checkStatement_records : (stmt : Statement) → stmt.outline.All place →
    Records place (checkStatement stmt) stmt.nodes
  | .assign span tgt val, placed => checkAssignment_records placed.1 placed.2.1 placed.2.2.1
  | .call span name args, placed => by
    exact (infer_records (.call span name args) placed).before fun _ => .pure
  | .branch _ condition consequent none, placed => by
    apply (checkCondition_records placed.2.1).bind
    intro _
    exact (checkBlock_records consequent placed.2.2.1).before fun _ => .pure
  | .branch _ condition consequent (some alternative), placed => by
    apply (checkCondition_records placed.2.1).bind
    intro _
    apply (checkBlock_records consequent placed.2.2.1).bind
    intro _
    exact checkBlock_records alternative placed.2.2.2.1
  | .whileLoop _ condition body, placed => by
    apply (checkCondition_records placed.2.1).bind
    intro _
    exact checkBlock_records body placed.2.2.1
  | .rangeLoop _ iter first last _ (.mk _ items), placed => by
    apply (checkBound_records placed.2.1).bind
    intro _
    apply (checkBound_records placed.2.2.1).bind
    intro _
    apply enter_records.after
    intro _
    apply defineIterator_records.after
    intro _
    exact (checkItems_records items placed.2.2.2.1.2).before fun _ => leave_records
  | .arrayLoop _ iter array _ (.mk _ items), placed => by
    apply (iteratorType_records placed.2.1).bind
    intro element
    apply enter_records.after
    intro _
    apply defineIterator_records.after
    intro _
    exact (checkItems_records items placed.2.2.1.2).before fun _ => leave_records
  | .giveBack span val, placed => checkReturn_records placed.1 placed.2
  | .print _ items, placed => checkPrinted_records placed.2
  | .empty _, _ => .pure
  | .block _ inner, placed => checkBlock_records inner placed.2.1

theorem checkBlock_records : (block : Block) → block.outline.All place →
    Records place (checkBlock kind block) block.nodes
  | .mk _ items, placed => by
    apply enter_records.after
    intro _
    exact (checkItems_records items placed.2).before fun _ => leave_records

theorem checkItems_records : (items : List Item) → Outline.AllIn place (Item.outlines items) →
    Records place (checkItems items) (Item.allNodes items)
  | [], _ => .pure
  | .declaration (.var inner) :: rest, placed =>
    (declareVariable_records inner placed.1).bind fun _ => checkItems_records rest placed.2
  | .declaration (.type inner) :: rest, placed => by
    apply (declareType_records placed.1).after
    intro _
    exact (checkItems_records rest placed.2).mono (sublist_append_right _ _)
  | .declaration (.routine inner) :: rest, placed => by
    apply (report_records placed.1.routine.1).after
    intro _
    exact (checkItems_records rest placed.2).mono (sublist_append_right _ _)
  | .statement inner :: rest, placed =>
    (checkStatement_records inner placed.1).bind fun _ => checkItems_records rest placed.2

end

theorem defineParameters_records (placed : Outline.AllIn place (params.map Parameter.outline)) :
    Records place (defineParameters params) [] := by
  induction params with
  | nil => exact .pure
  | cons first rest ih =>
    apply resolveSilently_reads.records.after
    intro type
    exact (define_records placed.1.1).after fun _ => ih placed.2

theorem checkBody_records (placed : body.outline.All place) :
    Records place (checkBody expected body) body.nodes := by
  cases body with
  | expression val =>
    exact (infer_records val placed).before fun _ => .ite (report_records placed.root) .pure
  | block inner =>
    obtain ⟨span, items⟩ := inner
    exact checkItems_records items placed.2

theorem checkRoutine_records (placed : routine.outline.All place) :
    Records place (checkRoutine routine) routine.nodes := by
  obtain ⟨span, name, params, res, body⟩ := routine
  rw [Routine.nodes_mk]
  refine Records.mono ?_ ((sublist_append_right _ _).trans (sublist_append_right _ _))
  cases body with
  | none => exact .pure
  | some body =>
    obtain ⟨ofParameters, ofRest⟩ := Outline.allIn_append.mp placed.2
    obtain ⟨-, ofBody, -⟩ := Outline.allIn_append.mp ofRest
    have inScope (expected : Ty) :
      Records place (routineScope params body expected) body.nodes := by
      apply enter_records.after
      intro _
      apply (defineParameters_records ofParameters).after
      intro _
      refine .get (fun st => ?_) fun st other alike => ?_
      · apply setExpected_records.after
        intro _
        apply (checkBody_records ofBody).before
        intro _
        exact setExpected_records.after fun _ => leave_records
      · rw [show st.expected = other.expected from alike.expected]
    cases res with
    | none => exact inScope .void
    | some written => exact resolveSilently_reads.records.after inScope

theorem parameterTypes_records (placed : Outline.AllIn place (params.map Parameter.outline)) :
    Records place (parameterTypes params) [] := by
  induction params with
  | nil => exact .pure
  | cons first rest ih =>
    apply (resolveType_records placed.1.2.1).after
    intro type
    exact (ih placed.2).after fun _ => .pure

theorem signature_records (placed : routine.outline.All place) :
    Records place (signature routine) [] := by
  obtain ⟨-, ofParameters, ofResult⟩ := placed.routine
  apply (parameterTypes_records ofParameters).after
  intro params
  cases res : routine.result with
  | none => exact .pure
  | some written =>
    rw [res] at ofResult
    exact (resolveType_records ofResult.1).after fun _ => .pure

theorem replace_records : Records place
    (modifySymbols fun symbols => (symbols.replaceGlobal? name sym).getD symbols) [] := by
  apply modifySymbols_records
  intro scene other alike
  have same := alike.outermost name
  simp only [SymbolTable.replaceGlobal?, same]
  cases found : other.symbols.lookupGlobal name with
  | none => exact alike
  | some old =>
    refine { alike with outermost := fun sought => ?_ }
    have sameNow := alike.outermost sought
    rw [SymbolTable.lookupGlobal] at same sameNow
    simp only [Option.getD_some, SymbolTable.lookupGlobal, SymbolTable.lookup_replaced, same,
      sameNow]

theorem declareRoutine_records (placed : routine.outline.All place) :
    Records place (declareRoutine routine) [] := by
  apply (signature_records placed).after
  intro declared
  have here := placed.routine.1
  refine .get (fun st => ?_) fun st other alike => ?_
  · split
    · exact define_records here
    · exact .ite (report_records here) (.ite (report_records here) (.ite replace_records .pure))
    · exact report_records here
  · rw [show st.symbols.lookupGlobal routine.name = other.symbols.lookupGlobal routine.name from
      alike.outermost routine.name]

theorem declareAll_records (placed : Outline.AllIn place (decls.map Declaration.outline)) :
    Records place (declareAll decls) [] := by
  induction decls with
  | nil => exact .pure
  | cons first rest ih =>
    have others := ih placed.2
    cases first with
    | var inner => exact others
    | type inner => exact (declareType_records placed.1).after fun _ => others
    | routine inner => exact (declareRoutine_records placed.1).after fun _ => others

theorem checkAll_records (placed : Outline.AllIn place (decls.map Declaration.outline)) :
    Records place (checkAll decls) (Declaration.allNodes decls) := by
  induction decls with
  | nil => exact .pure
  | cons first rest ih =>
    have others := ih placed.2
    cases first with
    | var inner => exact (declareVariable_records inner placed.1).bind fun _ => others
    | type inner => exact others.mono (sublist_append_right _ _)
    | routine inner => exact (checkRoutine_records placed.1).bind fun _ => others

theorem checkProgram_records (placed : program.outline.All place) :
    Records place (checkProgram program) program.nodes :=
  (declareAll_records placed.2).after fun _ => checkAll_records placed.2

end Statements

theorem lookup_of_mem {entries : List (Span × α)} (keys : (entries.map Prod.fst).Nodup)
    (isIn : (span, val) ∈ entries) : entries.lookup span = some val := by
  induction entries with
  | nil => cases isIn
  | cons entry rest ih =>
    obtain ⟨fresh, keys⟩ := nodup_cons.mp keys
    rcases mem_cons.mp isIn with rfl | later
    · exact lookup_cons_self
    · have different : span ≠ entry.1 := by
        rintro rfl
        exact fresh (mem_map.mpr ⟨_, later, rfl⟩)
      rw [lookup_cons, beq_false_of_ne different]
      exact ih keys later

end Imperative.Typing

namespace Imperative.Program

open Typing

theorem analyze_visited (program : Program) : ∃ visits, Visited visits [] program.analyze.types ∧
    (visits.map Visit.tree).reverse.Sublist program.nodes :=
  (checkProgram_records (Outline.all_of_forall (fun _ => trivial) program.outline)).types .initial

theorem analyze_spans_nodup {program : Program} (distinct : (program.nodes.map Expr.span).Nodup) :
    (program.analyze.types.map Prod.fst).Nodup := by
  obtain ⟨visits, visited, fromNodes⟩ := program.analyze_visited
  rw [visited.whole, List.append_nil, List.map_map, ← List.nodup_reverse, ← List.map_reverse]
  have inOrder := fromNodes.map Expr.span
  rw [← List.map_reverse, List.map_map] at inOrder
  exact inOrder.nodup distinct

theorem analyze_placed {program : Program} (placed : program.outline.All place) :
    ∀ diagnostic ∈ program.analyze.diagnostics, place diagnostic.span :=
  (checkProgram_records placed).reports Analysis.initial (List.forall_mem_nil _)

/-- If expressions have different spans, each recorded type is found under its span. -/
theorem typeAt_of_mem {program : Program} (distinct : (program.nodes.map Expr.span).Nodup)
    {span : Span} (recorded : (span, type) ∈ program.analyze.types) :
    program.analyze.typeAt span = some type := lookup_of_mem (analyze_spans_nodup distinct) recorded

end Imperative.Program
