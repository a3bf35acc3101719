import Imperative.Proofs.Syntax.Scopes
import Imperative.Proofs.Typing.Stability

/-!
# The analysis without a declaration

Two runs of the analysis side by side.  The first finds nothing wrong; the second starts in a
state that lacks the declaration of a variable of the outermost scope, and in which the types of
other variables may have become errors for that reason.
-/

namespace Imperative.Typing

open List

variable {names : Names} {depth : Nat} {problem : Problem} {span : Span} {name : String}
    {extended : SymbolTable}

/-- The type is the same, or it has become an error. -/
inductive Fades (type : Ty) : Ty → Prop where
  | same : Fades type type
  | error : Fades type .error

instance : Std.Refl Fades where
  refl _ := .same

theorem Fades.assignable (foundFades : Fades found foundLeft)
    (expectedFades : Fades expected expectedLeft) (assignable : found.assignable expected = true) :
    foundLeft.assignable expectedLeft = true := by
  cases foundFades with
  | error => cases expectedLeft <;> rfl
  | same =>
    cases expectedFades with
    | same => exact assignable
    | error => cases found <;> rfl

/--
What is left of a definition.  The type of a variable may have become an error, and the variable
may be gone if that is allowed.
-/
inductive Remains (mayGo : Prop) : Option Symbol → Option Symbol → Prop where
  | none : Remains mayGo none none
  | var {type left : Ty} (fades : Fades type left) :
      Remains mayGo (some (.var type)) (some (.var left))
  | type (type : Ty) : Remains mayGo (some (.type type)) (some (.type type))
  | routine (sig : Signature) : Remains mayGo (some (.routine sig)) (some (.routine sig))
  | gone (type : Ty) (allowed : mayGo) : Remains mayGo (some (.var type)) Option.none

namespace Remains

variable {mayGo : Prop}

theorem refl (found : Option Symbol) : Remains mayGo found found := by
  cases found with
  | none => exact .none
  | some sym =>
    cases sym with
    | var type => exact .var .same
    | type type => exact .type type
    | routine sig => exact .routine sig

theorem or (inner : Remains False found left) (outer : Remains mayGo others othersLeft) :
    Remains mayGo (found.or others) (left.or othersLeft) := by
  cases inner with
  | none => exact outer
  | var fades => exact .var fades
  | type type => exact .type type
  | routine sig => exact .routine sig
  | gone _ allowed => exact allowed.elim

theorem mono (remains : Remains False found left) : Remains mayGo found left := by
  simpa using remains.or .none

theorem eq_none (remains : Remains mayGo Option.none left) : left = Option.none := by
  cases remains
  rfl

theorem cons {mayGo : String → Prop}
    (remains : ∀ name, Remains (mayGo name) (symbols.lookup name) (lefts.lookup name))
    (added : Remains False (some sym) (some left)) (defined name : String) :
    Remains (mayGo name) (((defined, sym) :: symbols).lookup name)
      (((defined, left) :: lefts).lookup name) := by
  simp only [lookup_cons]
  cases name == defined with
  | true => exact added.mono
  | false => exact remains name

end Remains

def Scope.Fades (scope left : Scope) : Prop :=
  ∀ name, Remains False (scope.symbols.lookup name) (left.symbols.lookup name)

theorem SymbolTable.defineIn_of_fresh (fresh : scope.symbols.lookup name = none) :
    ∃ extended, defineIn name sym scope = some extended ∧
      extended = { scope with symbols := (name, sym) :: scope.symbols } :=
  ⟨_, by rw [defineIn, fresh], rfl⟩

theorem remains_lookupIn {mayGo : Prop} (fades : List.Forall₂ Scope.Fades scopes lefts)
    (remains : Remains mayGo (outermost.symbols.lookup name) (outermostLeft.symbols.lookup name)) :
    Remains mayGo (SymbolTable.lookupIn name (scopes ++ [outermost]))
      (SymbolTable.lookupIn name (lefts ++ [outermostLeft])) := by
  simp only [SymbolTable.lookupIn_eq]
  induction fades with
  | nil => simpa using remains
  | cons scopeFades _ ih =>
    simp only [cons_append, flatMap_cons, lookup_append]
    exact (scopeFades name).or ih

/-- The second scene is the first one without a variable of the outermost scope. -/
structure Lacks (lost : String) (scene left : Scene) : Prop where
  inner : List.Forall₂ Scope.Fades scene.symbols.inner left.symbols.inner
  outermost : ∀ name, Remains (name = lost) (scene.symbols.lookupGlobal name)
    (left.symbols.lookupGlobal name)
  expected : left.expected = scene.expected

namespace Lacks

variable {lost : String} {scene left : Scene}

theorem refl : Lacks lost scene scene where
  inner := forall₂_same.mpr fun _ _ _ => .refl _
  outermost _ := .refl _
  expected := rfl

theorem context (lacks : Lacks lost scene left) :
    Remains (name = lost) (scene.context name) (left.context name) :=
  remains_lookupIn lacks.inner (lacks.outermost name)

theorem lookupType_eq (lacks : Lacks lost scene left) (name : String) :
    left.symbols.lookupType name = scene.symbols.lookupType name := by
  have remains : Remains _ (scene.symbols.lookup name) (left.symbols.lookup name) :=
    lacks.context
  simp only [SymbolTable.lookupType]
  generalize scene.symbols.lookup name = found at remains ⊢
  generalize left.symbols.lookup name = foundLeft at remains ⊢
  cases remains <;> rfl

theorem define (lacks : Lacks lost scene left) (remains : Remains False (some sym) (some symLeft))
    (defined : scene.symbols.define? name sym = some extended) :
    ∃ extendedLeft, left.symbols.define? name symLeft = some extendedLeft ∧
      Lacks lost { scene with symbols := extended } { left with symbols := extendedLeft } := by
  obtain ⟨⟨inner, outermost⟩, expected⟩ := scene
  obtain ⟨⟨innerLeft, outermostLeft⟩, expectedLeft⟩ := left
  obtain ⟨innerFades, outermostRemains, sameExpected⟩ := lacks
  cases innerFades with
  | nil =>
    obtain ⟨scope, inScope, rfl⟩ := Option.map_eq_some_iff.mp defined
    obtain ⟨fresh, rfl⟩ := SymbolTable.defineIn_eq_some inScope
    have remainsFresh : Remains (name = lost) (outermost.symbols.lookup name)
        (outermostLeft.symbols.lookup name) := outermostRemains name
    rw [fresh] at remainsFresh
    obtain ⟨scopeLeft, inScopeLeft, isScopeLeft⟩ :=
      SymbolTable.defineIn_of_fresh remainsFresh.eq_none
    refine ⟨_, Option.map_eq_some_iff.mpr ⟨scopeLeft, inScopeLeft, rfl⟩, .nil, ?_, sameExpected⟩
    subst isScopeLeft
    exact Remains.cons outermostRemains remains name
  | cons scopeFades outerFades =>
    obtain ⟨scope, inScope, rfl⟩ := Option.map_eq_some_iff.mp defined
    obtain ⟨fresh, rfl⟩ := SymbolTable.defineIn_eq_some inScope
    have remainsFresh := fresh ▸ scopeFades name
    obtain ⟨scopeLeft, inScopeLeft, isScopeLeft⟩ :=
      SymbolTable.defineIn_of_fresh remainsFresh.eq_none
    refine ⟨_, Option.map_eq_some_iff.mpr ⟨scopeLeft, inScopeLeft, rfl⟩,
      .cons ?_ outerFades, outermostRemains, sameExpected⟩
    subst isScopeLeft
    exact Remains.cons scopeFades remains name

theorem leave (lacks : Lacks lost scene left) :
    Lacks lost { scene with symbols := scene.symbols.leave }
      { left with symbols := left.symbols.leave } where
  inner := by
    have inner := lacks.inner
    simp only [SymbolTable.leave]
    generalize scene.symbols.inner = scopes at inner ⊢
    generalize left.symbols.inner = lefts at inner ⊢
    cases inner with
    | nil => exact .nil
    | cons _ outer => exact outer
  outermost := lacks.outermost
  expected := lacks.expected

theorem forget (lacks : Lacks lost scene left) (outside : scene.symbols.inner = [])
    (outsideLeft : left.symbols.inner = [])
    (defined : scene.symbols.define? lost (.var type) = some extended) :
    Lacks lost { scene with symbols := extended } left where
  inner := by
    rw [outsideLeft, (SymbolTable.fresh_of_define outside defined).2]
    exact .nil
  outermost name := by
    obtain ⟨fresh, stillOutside⟩ := SymbolTable.fresh_of_define outside defined
    rw [SymbolTable.lookupGlobal_eq stillOutside, SymbolTable.context_of_define defined]
    have remains := lacks.outermost name
    rw [SymbolTable.lookupGlobal_eq outside] at remains
    by_cases isLost : name = lost
    · subst isLost
      rw [fresh] at remains
      rw [Context.define_same, remains.eq_none]
      exact .gone type rfl
    · rw [Context.define_other isLost]
      exact remains
  expected := lacks.expected

end Lacks

def Symbol.kind : Symbol → NameKind
  | .var _ => .variable
  | .type _ => .type
  | .routine _ => .routine

variable {sym : Symbol}

/-- The names in scope are those of the table, which has so many inner scopes. -/
structure Describes (depth : Nat) (names : Names) (tbl : SymbolTable) : Prop where
  depth : tbl.inner.length = depth
  kinds : ∀ name, (tbl.context name).map Symbol.kind = names.lookup name

theorem Describes.enter (describes : Describes depth names tbl) :
    Describes (depth + 1) names (tbl.enter kind) where
  depth := congrArg Nat.succ describes.depth
  kinds := describes.kinds

theorem Describes.extend (describes : Describes depth names tbl)
    (sameDepth : extended.inner.length = tbl.inner.length)
    (isDefined : extended.context = Context.define name sym tbl.context) :
    Describes depth ((name, sym.kind) :: names) extended where
  depth := sameDepth.trans describes.depth
  kinds other := by
    rw [isDefined, lookup_cons]
    by_cases same : other = name
    · subst same
      simp
    · rw [Context.define_other same, beq_false_of_ne same]
      exact describes.kinds other

theorem Describes.define (describes : Describes depth names tbl)
    (defined : tbl.define? name sym = some extended) :
    Describes depth ((name, sym.kind) :: names) extended := by
  refine describes.extend ?_ (SymbolTable.context_of_define defined)
  obtain ⟨inner, outermost⟩ := tbl
  cases inner with
  | nil | cons =>
    obtain ⟨scope, -, rfl⟩ := Option.map_eq_some_iff.mp defined
    rfl

def undeclared (name : String) (found : List Occurrence) : List Diagnostic :=
  (found.filterMap (Occurrence.unbound? name)).map fun span =>
    (Problem.undeclaredIdentifier name).toDiagnostic span

@[simp]
theorem undeclared_nil : undeclared name [] = [] := rfl

theorem undeclared_append :
    undeclared name (found ++ more) = undeclared name found ++ undeclared name more := by
  simp [undeclared]

/-- An occurrence of a name is that of a variable, or that of the lost name. -/
def Known (lost : String) (occ : Occurrence) : Prop :=
  ∀ span name, occ.tree = .name span name →
    occ.names.lookup name = some .variable ∨ name = lost ∧ occ.names.lookup name = none

/-- How the second run ends after a first one that reported nothing. -/
structure Outcome {α : Type} (lost : String) (depth : Nat) (related : α → α → Prop)
    (found : List Occurrence) (names : Names) (start : Analysis) (whole rest : α × Analysis) :
    Prop where
  value : related whole.1 rest.1
  lacks : Lacks lost whole.2.scene rest.2.scene
  describes : Describes depth names rest.2.symbols
  around : start.symbols.inner ≠ [] → rest.2.symbols.leave = start.symbols.leave
  diagnostics : rest.2.diagnostics = start.diagnostics ++ undeclared lost found
  spans : rest.2.types.map Prod.fst = (found.map (·.tree.span)).reverse ++ start.types.map Prod.fst
  known : ∀ occ ∈ found, Known lost occ

/--
Where `step` reports nothing, `other`, begun without the declaration of `lost`, looks at the
occurrences `found` and reports those of the lost name.
-/
structure Loses {α : Type} (lost : String) (depth : Nat) (names : Names) (step other : Checker α)
    (related : α → α → Prop) (found : List Occurrence) (after : Names) : Prop where
  grows : ∀ before, before.diagnostics <+: (step before).2.diagnostics
  ends : ∀ {before start}, Lacks lost before.scene start.scene →
    Describes depth names start.symbols →
    (step before).2.diagnostics = before.diagnostics →
    Outcome lost depth related found after start (step before) (other start)

/-- Both runs take the same step. -/
abbrev Forgets {α : Type} (lost : String) (depth : Nat) (names : Names) (step : Checker α)
    (related : α → α → Prop) (found : List Occurrence) (after : Names) : Prop :=
  Loses lost depth names step step related found after

theorem Outcome.same {α : Type} {related : α → α → Prop} {value valLeft : α}
    (isRelated : related value valLeft) (lacks : Lacks lost before.scene start.scene)
    (describes : Describes depth names start.symbols) :
    Outcome lost depth related [] names start (value, before) (valLeft, start) where
  value := isRelated
  lacks := lacks
  describes := describes
  around _ := rfl
  diagnostics := by simp
  spans := by simp
  known := by simp

namespace Loses

variable {α β : Type} {lost : String} {depth : Nat} {names mid last : Names} {next : α → Checker β}
    {related : α → α → Prop} {whole : β → β → Prop} {found more : List Occurrence}

theorem pure {value valLeft : α} (isRelated : related value valLeft) :
    Loses lost depth names (Pure.pure value) (Pure.pure valLeft) related [] names where
  grows _ := prefix_refl _
  ends lacks describes _ := .same isRelated lacks describes

theorem bind [Std.Refl related] (stepLoses : Loses lost depth names step other related found mid)
    (nextLoses : ∀ value valLeft, related value valLeft →
      Loses lost depth mid (next value) (otherNext valLeft) whole more last) :
    Loses lost depth names (step >>= next) (other >>= otherNext) whole (found ++ more) last where
  grows before := (stepLoses.grows before).trans ((nextLoses _ _ (Std.Refl.refl _)).grows _)
  ends := by
    intro before start lacks describes quiet
    obtain ⟨stepQuiet, nextQuiet⟩ := quiet_of_bind (stepLoses.grows before)
      ((nextLoses _ _ (Std.Refl.refl _)).grows _) quiet
    have first := stepLoses.ends lacks describes stepQuiet
    have second := (nextLoses _ _ first.value).ends first.lacks first.describes nextQuiet
    have sameDepth : (other start).2.symbols.inner.length = start.symbols.inner.length :=
      first.describes.depth.trans describes.depth.symm
    refine ⟨second.value, second.lacks, second.describes, fun inside => ?_, ?_, ?_, ?_⟩
    · have stillInside : (other start).2.symbols.inner ≠ [] := by
        intro empty
        rw [empty] at sameDepth
        exact inside (length_eq_zero_iff.mp sameDepth.symm)
      exact (second.around stillInside).trans (first.around inside)
    · have reports := second.diagnostics
      rw [first.diagnostics, append_assoc, ← undeclared_append] at reports
      exact reports
    · have spans := second.spans
      rw [first.spans, ← append_assoc, ← reverse_append, ← map_append] at spans
      exact spans
    · intro occ mem
      rcases mem_append.mp mem with isFirst | isSecond
      · exact first.known occ isFirst
      · exact second.known occ isSecond

theorem after [Std.Refl related] (stepLoses : Loses lost depth names step other related [] mid)
    (nextLoses : ∀ value valLeft, related value valLeft →
      Loses lost depth mid (next value) (otherNext valLeft) whole more last) :
    Loses lost depth names (step >>= next) (other >>= otherNext) whole more last :=
  stepLoses.bind nextLoses

theorem before [Std.Refl related] (stepLoses : Loses lost depth names step other related found mid)
    (nextLoses : ∀ value valLeft, related value valLeft →
      Loses lost depth mid (next value) (otherNext valLeft) whole [] last) :
    Loses lost depth names (step >>= next) (other >>= otherNext) whole found last := by
  have loses := stepLoses.bind nextLoses
  rwa [append_nil] at loses

theorem get {next : Analysis → Checker β}
    (nextLoses : ∀ st start, Lacks lost st.scene start.scene →
      Loses lost depth names (next st) (otherNext start) whole found last) :
    Loses lost depth names (MonadState.get >>= next) (MonadState.get >>= otherNext) whole found
      last where
  grows before := (nextLoses before before .refl).grows before
  ends lacks describes quiet := (nextLoses _ _ lacks).ends lacks describes quiet

theorem of_loud (grows : ∀ before, before.diagnostics <+: (step before).2.diagnostics)
    (loud : ∀ before, (step before).2.diagnostics ≠ before.diagnostics) :
    Loses lost depth names step other related found last where
  grows := grows
  ends _ _ quiet := absurd quiet (loud _)

theorem absorbed {step skipped : Checker Ty} (follows : Follows .nothing step skipped) :
    Loses lost depth names step (Pure.pure .error) Fades [] names where
  grows := follows.grows
  ends {before start} lacks describes _ := by
    have sameScene : (step before).2.scene = before.scene := follows.stays before
    have stillLacks : Lacks lost (step before).2.scene start.scene := sameScene.symm ▸ lacks
    exact .same .error stillLacks describes

end Loses

section Steps

variable {α : Type} {lost : String} {depth : Nat} {names after : Names} {related : α → α → Prop}
  {next : Unit → Checker α} {found : List Occurrence}

theorem report_loses {related : Unit → Unit → Prop} :
    Loses lost depth names (report span problem) other related found after :=
  .of_loud (fun _ => prefix_append _ _) fun _ quiet =>
    absurd (append_right_eq_self.mp quiet) (cons_ne_nil _ _)

theorem reject_loses {related : Ty → Ty → Prop} :
    Loses lost depth names (reject span problem) other related found after :=
  .of_loud (fun _ => prefix_append _ _) fun _ quiet =>
    absurd (append_right_eq_self.mp quiet) (cons_ne_nil _ _)

theorem report_bind_loses
    (grows : ∀ before, before.diagnostics <+: (next () before).2.diagnostics) :
    Loses lost depth names (report span problem >>= next) other related found after := by
  have reportGrows := (@report_follows .nothing span problem).grows
  refine .of_loud (fun before => (reportGrows before).trans (grows _)) fun before quiet => ?_
  obtain ⟨reportQuiet, -⟩ := quiet_of_bind (reportGrows before) (grows _) quiet
  exact absurd (append_right_eq_self.mp reportQuiet) (cons_ne_nil _ _)

theorem unless_loses (stillHolds : condition = true → condLeft = true) :
    Loses lost depth names (if (!condition) = true then report span problem else pure ())
      (if (!condLeft) = true then report span problemLeft else pure ()) Eq [] names := by
  cases holds : condition with
  | false => exact report_loses
  | true =>
    rw [stillHolds holds]
    exact .pure rfl

theorem unless_bind_loses (stillHolds : condition = true → condLeft = true)
    (nextLoses : Loses lost depth names (next ()) (otherNext ()) related found after) :
    Loses lost depth names (if (!condition) = true then report span problem >>= next else next ())
      (if (!condLeft) = true then report span problemLeft >>= otherNext else otherNext ())
      related found after := by
  cases holds : condition with
  | false => exact report_bind_loses nextLoses.grows
  | true =>
    rw [stillHolds holds]
    exact nextLoses

theorem record_loses (fades : Fades type left) (tree : Expr)
    (isCompound : ∀ span name, tree ≠ .name span name) :
    Loses lost depth names (record tree.span type) (record tree.span left) Fades
      [{ names, tree }] names where
  grows _ := prefix_refl _
  ends lacks describes _ :=
    { value := fades
      lacks := lacks
      describes := describes
      around := fun _ => rfl
      diagnostics := by
        have isBound : Occurrence.unbound? lost { names, tree } = none := by
          cases tree with
          | name span name => exact absurd rfl (isCompound span name)
          | _ => rfl
        rw [undeclared, filterMap_cons_none isBound, filterMap_nil, map_nil, append_nil]
        rfl
      spans := rfl
      known := by
        intro occ mem span name isName
        rw [mem_singleton] at mem
        subst mem
        exact absurd isName (isCompound span name) }

theorem lookup_loses : Forgets lost depth names (lookup name) (Remains (name = lost)) [] names :=
  .get fun _ _ lacks => .pure lacks.context

instance (mayGo : Prop) : Std.Refl (Remains mayGo) where
  refl := .refl

theorem reportAll_loses (problems : List (Span × Problem)) :
    Forgets lost depth names (problems.forM fun (span, problem) => report span problem) Eq []
      names := by
  cases problems with
  | nil => exact .pure rfl
  | cons first rest => exact report_bind_loses (@Reads.follows .nothing _ _
      (reportAll_reads fun _ _ => trivial)).grows

theorem resolveType_loses : Forgets lost depth names (resolveType hint written) Eq [] names := by
  apply Loses.get
  intro st start lacks
  have sameTys : start.symbols.lookupType = st.symbols.lookupType := funext lacks.lookupType_eq
  dsimp only
  rw [sameTys]
  exact (reportAll_loses _).after fun _ _ _ => .pure rfl

theorem resolveSilently_loses : Forgets lost depth names (resolveSilently written) Eq [] names := by
  apply Loses.get
  intro st start lacks
  have sameTys : start.symbols.lookupType = st.symbols.lookupType := funext lacks.lookupType_eq
  rw [sameTys]
  exact .pure rfl

end Steps

end Imperative.Typing
