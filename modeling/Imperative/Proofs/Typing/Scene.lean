import Imperative.Proofs.Typing.Regularity
import Imperative.Typing.Program

/-!
# Steps that report nothing

Of the state of the analysis, only the `Scene` decides what is accepted.  A step that reports a
problem ensures everything, so the rules for sequences need no case for failure.
-/

namespace Imperative.Typing

variable {name : String} {tbl : SymbolTable}

namespace SymbolTable

/-- What the names stand for in the scopes. -/
def context (tbl : SymbolTable) : Context := fun name => tbl.lookup name

/-- The entries of all scopes. -/
def entries (tbl : SymbolTable) : List (String × Symbol) :=
  (tbl.inner ++ [tbl.outermost]).flatMap Scope.symbols

theorem lookupIn_eq : lookupIn name scopes = (scopes.flatMap Scope.symbols).lookup name := by
  induction scopes with
  | nil => simp [lookupIn]
  | cons scope outer ih =>
    simp only [lookupIn, List.flatMap_cons, List.lookup_append, ih]
    cases scope.symbols.lookup name <;> rfl

theorem context_eq : tbl.context name = tbl.entries.lookup name := lookupIn_eq

@[simp]
theorem context_enter : (tbl.enter kind).context = tbl.context := by
  funext name
  simp [context_eq, entries, enter]

@[simp]
theorem leave_enter : (tbl.enter kind).leave = tbl := rfl

theorem defineIn_eq_some {scope extended : Scope}
    (defined : defineIn name sym scope = some extended) :
    scope.symbols.lookup name = none ∧
      extended = { scope with symbols := (name, sym) :: scope.symbols } := by
  unfold defineIn at defined
  split at defined
  · cases defined
  · next fresh =>
    cases defined
    exact ⟨fresh, rfl⟩

theorem entries_of_define (defined : tbl.define? name sym = some extended) :
    extended.entries = (name, sym) :: tbl.entries := by
  obtain ⟨inner, outermost⟩ := tbl
  cases inner with
  | nil | cons =>
    obtain ⟨scope, inScope, rfl⟩ := Option.map_eq_some_iff.mp defined
    obtain ⟨-, rfl⟩ := defineIn_eq_some inScope
    simp [entries]

theorem context_of_define (defined : tbl.define? name sym = some extended) :
    extended.context = Context.define name sym tbl.context := by
  funext other
  simp only [context_eq, Context.define, entries_of_define defined, List.lookup_cons]
  by_cases same : other = name
  · simp [same]
  · simp [same, beq_false_of_ne same]

theorem leave_of_define (inside : tbl.inner ≠ []) (defined : tbl.define? name sym = some extended) :
    extended.leave = tbl.leave ∧ extended.inner ≠ [] := by
  obtain ⟨inner, outermost⟩ := tbl
  cases inner with
  | nil => exact absurd rfl inside
  | cons innermost outer =>
    obtain ⟨scope, -, rfl⟩ := Option.map_eq_some_iff.mp defined
    simp [leave]

theorem fresh_of_define (outside : tbl.inner = [])
    (defined : tbl.define? name sym = some extended) :
    tbl.context name = none ∧ extended.inner = [] := by
  obtain ⟨inner, outermost⟩ := tbl
  subst outside
  obtain ⟨scope, inScope, rfl⟩ := Option.map_eq_some_iff.mp defined
  obtain ⟨fresh, -⟩ := defineIn_eq_some inScope
  exact ⟨by simpa [context_eq, entries] using fresh, rfl⟩

theorem define_enter : ∃ extended, (tbl.enter kind).define? name sym = some extended := ⟨_, rfl⟩

theorem lookupGlobal_eq (outside : tbl.inner = []) : tbl.lookupGlobal name = tbl.context name := by
  simp [context_eq, entries, outside, lookupGlobal]

theorem lookup_replaced (name : String) (sym : Symbol) (symbols : List (String × Symbol))
    (other : String) :
    (symbols.map fun entry => if entry.1 = name then (name, sym) else entry).lookup other =
      if other = name then (symbols.lookup name).map fun _ => sym
      else symbols.lookup other := by
  induction symbols with
  | nil => simp
  | cons entry rest ih =>
    obtain ⟨key, val⟩ := entry
    by_cases isKey : key = name <;> by_cases same : other = name
    · subst isKey same
      simp
    · subst isKey
      simp [List.lookup_cons, beq_false_of_ne same, ih, same]
    · subst same
      simp [List.lookup_cons, isKey, beq_false_of_ne (Ne.symm isKey), ih]
    · simp [List.lookup_cons, isKey, same, ih]

theorem context_of_replace (outside : tbl.inner = []) (known : tbl.context name = some old)
    (sym : Symbol) :
    ((tbl.replaceGlobal? name sym).getD tbl).inner = [] ∧
      ((tbl.replaceGlobal? name sym).getD tbl).context = Context.define name sym tbl.context := by
  rw [← lookupGlobal_eq outside] at known
  refine ⟨by simp [replaceGlobal?, known, outside], ?_⟩
  funext other
  simp only [context_eq, entries, replaceGlobal?, known, Option.getD_some, outside, List.nil_append,
    List.flatMap_cons, List.flatMap_nil, List.append_nil, lookup_replaced, Context.define]
  rw [lookupGlobal] at known
  simp [known]

end SymbolTable

/-- What decides whether the rest of the program is accepted. -/
structure Scene where
  symbols : SymbolTable
  expected : Option Ty

/-- What the names stand for. -/
def Scene.context (scene : Scene) : Context := scene.symbols.context

def Analysis.scene (analysis : Analysis) : Scene :=
  { symbols := analysis.symbols, expected := analysis.expected }

/--
If the step ends without a diagnostic and what is recorded then is in the table, so it was
before, and the scenes before and after are related.
-/
def Ensures {α : Type} (tbl : List (Span × Ty)) (step : Checker α)
    (relation : Scene → α → Scene → Prop) : Prop :=
  ∀ pre, (step pre).2.diagnostics = [] → (step pre).2.types ⊆ tbl →
    pre.diagnostics = [] ∧ pre.types ⊆ tbl ∧ relation pre.scene (step pre).1 (step pre).2.scene

/-- A step that ends without a diagnostic leaves the scene as it is and gives a fitting result. -/
def Observes {α : Type} (tbl : List (Span × Ty)) (step : Checker α)
    (property : Scene → α → Prop) : Prop :=
  Ensures tbl step fun pre val post => post = pre ∧ property pre val

variable {tbl : List (Span × Ty)}

namespace Ensures

theorem related (ensures : Ensures (step pre).2.types step relation)
    (clean : (step pre).2.diagnostics = []) : relation pre.scene (step pre).1 (step pre).2.scene :=
  (ensures pre clean (.refl _)).2.2

theorem imp (ensures : Ensures tbl step first)
    (implies : ∀ pre val post, first pre val post → second pre val post) :
    Ensures tbl step second := by
  intro pre clean within
  obtain ⟨startsClean, startsWithin, related⟩ := ensures pre clean within
  exact ⟨startsClean, startsWithin, implies _ _ _ related⟩

theorem bind (stepEnsures : Ensures tbl step first)
    (nextEnsures : ∀ val, Ensures tbl (next val) fun mid res post => ∀ pre, first pre val mid →
      whole pre res post) :
    Ensures tbl (step >>= next) whole := by
  intro pre clean within
  obtain ⟨midClean, midWithin, rest⟩ := nextEnsures (step pre).1 (step pre).2 clean within
  obtain ⟨startsClean, startsWithin, related⟩ := stepEnsures pre midClean midWithin
  exact ⟨startsClean, startsWithin, rest pre.scene related⟩

theorem ite [Decidable condition]
    (ifHolds : condition → Ensures tbl consequent relation)
    (ifFails : ¬ condition → Ensures tbl alternative relation) :
    Ensures tbl (if condition then consequent else alternative) relation := by
  split
  · next holds => exact ifHolds holds
  · next fails => exact ifFails fails

end Ensures

namespace Observes

theorem imp (observes : Observes tbl step first)
    (implies : ∀ scene val, first scene val → second scene val) : Observes tbl step second :=
  Ensures.imp observes fun _ _ _ related => ⟨related.1, implies _ _ related.2⟩

theorem bind (stepObserves : Observes tbl step first)
    (nextObserves : ∀ val, Observes tbl (next val) fun scene res => first scene val →
      whole scene res) :
    Observes tbl (step >>= next) whole := by
  apply Ensures.bind stepObserves
  intro val
  apply Ensures.imp (nextObserves val)
  rintro mid res post ⟨rfl, fits⟩ pre ⟨rfl, stepFits⟩
  exact ⟨rfl, fits stepFits⟩

theorem pure (val : α) : Observes tbl (Pure.pure val : Checker α) fun _ res => res = val :=
  fun _ clean within => ⟨clean, within, rfl, rfl⟩

end Observes

section Steps

theorem report_ensures (span : Span) (problem : Problem) (relation : Scene → Unit → Scene → Prop) :
    Ensures tbl (report span problem) relation := by
  intro pre clean _
  exact absurd clean (List.append_ne_nil_of_right_ne_nil _ (List.cons_ne_nil _ _))

theorem reject_ensures :
    Ensures tbl (reject span problem) relation := by
  apply (report_ensures span problem fun _ _ _ => False).bind
  intro _
  exact Ensures.imp (Observes.pure _) fun _ _ _ _ _ impossible => impossible.elim

/-- A step that only happens if its condition holds, and otherwise a problem is reported. -/
theorem unless_report :
    Observes tbl (if (!condition) = true then report span problem else pure ()) fun _ _ =>
      condition = true := by
  apply Ensures.ite
  · intro _
    exact report_ensures span problem _
  · intro holds
    refine (Observes.pure ()).imp fun _ _ _ => ?_
    simpa using holds

theorem unless_report_bind (nextObserves : Observes tbl (next ()) property) :
    Observes tbl (if (!condition) = true then report span problem >>= next else next ())
      fun scene val => condition = true ∧ property scene val := by
  apply Ensures.ite
  · intro _
    apply (report_ensures span problem fun _ _ _ => False).bind
    intro _
    exact Ensures.imp nextObserves fun _ _ _ _ _ impossible => impossible.elim
  · intro holds
    refine nextObserves.imp fun _ _ fits => ⟨?_, fits⟩
    simpa using holds

theorem record_observes :
    Observes tbl (record span type) fun _ res =>
      res = type ∧ (span, type) ∈ tbl := by
  intro pre clean within
  have isRecorded : (span, type) ∈ tbl := within (List.mem_cons_self ..)
  exact ⟨clean, List.Subset.trans (List.subset_cons_self ..) within, rfl, rfl, isRecorded⟩

theorem get_ensures :
    Ensures tbl (get : Checker Analysis) fun pre st post =>
      post = pre ∧ st.scene = pre := fun _ clean within => ⟨clean, within, rfl, rfl⟩

theorem modifySymbols_ensures :
    Ensures tbl (modifySymbols change) fun pre _ post =>
      post = { pre with symbols := change pre.symbols } :=
  fun _ clean within => ⟨clean, within, rfl⟩

theorem setExpected_ensures :
    Ensures tbl (setExpected expected) fun pre _ post => post = { pre with expected } :=
  fun _ clean within => ⟨clean, within, rfl⟩

theorem lookup_observes :
    Observes tbl (lookup name) fun scene found => found = scene.context name :=
  fun _ clean within => ⟨clean, within, rfl, rfl⟩

theorem define_eq :
    define name sym span problem st =
      (match st.symbols.define? name sym with
        | some symbols => modifySymbols fun _ => symbols
        | none => report span problem) st := rfl

theorem define_ensures :
    Ensures tbl (define name sym span problem) fun pre _ post =>
      ∃ extended, pre.symbols.define? name sym = some extended ∧
        post = { pre with symbols := extended } := by
  intro pre clean within
  rw [define_eq] at clean within ⊢
  cases defined : pre.symbols.define? name sym with
  | none =>
    simp only [defined] at clean within
    exact (report_ensures span problem (fun _ _ _ => False) pre clean within).2.2.elim
  | some extended =>
    simp only [defined] at clean within ⊢
    exact ⟨clean, within, extended, defined, rfl⟩

theorem reportAll_observes :
    Observes tbl (problems.forM fun (span, problem) => report span problem) fun _ _ =>
      problems = [] := by
  induction problems with
  | nil => exact (Observes.pure ()).imp fun _ _ _ => rfl
  | cons first rest ih =>
    apply (report_ensures first.1 first.2 fun _ _ _ => False).bind
    intro _
    exact .imp ih fun _ _ _ _ _ impossible => impossible.elim

theorem resolveType_observes (wellNamed : written.WellNamed) :
    Observes tbl (resolveType hint written) fun scene type =>
      Resolves scene.context hint written type := by
  intro pre clean within
  obtain ⟨reportedClean, reportedWithin, -⟩ :=
    Observes.pure (resolve pre.symbols.lookupType hint written).value _ clean within
  obtain ⟨startsClean, startsWithin, same, noProblems⟩ :=
    reportAll_observes pre reportedClean reportedWithin
  exact ⟨startsClean, startsWithin, same, wellNamed, noProblems, rfl⟩

theorem resolveSilently_observes :
    Observes tbl (resolveSilently written) fun scene type =>
      type = (resolve scene.context.typeNamed none written).value :=
  fun _ clean within => ⟨clean, within, rfl, rfl⟩

/-- What an accepted declaration of a routine does to the symbols. -/
inductive Enrols (routine : Routine) (declared : Signature) (symbols : SymbolTable) :
    SymbolTable → Prop
  | first (defined : symbols.define? routine.name (.routine declared) = some extended) :
      Enrols routine declared symbols extended
  | completed (found : symbols.lookupGlobal routine.name = some (.routine existing))
      (incomplete : existing.hasBody = false) (agrees : existing.agrees declared = true)
      (hasBody : declared.hasBody = true)
      (replaced : (symbols.replaceGlobal? routine.name (.routine declared)).getD symbols =
        extended) :
      Enrols routine declared symbols extended
  | repeated (found : symbols.lookupGlobal routine.name = some (.routine existing))
      (agrees : existing.agrees declared = true) (noBody : declared.hasBody = false) :
      Enrols routine declared symbols symbols

theorem declareRoutine_enrols (observes : Observes tbl (signature routine) resolved) :
    Ensures tbl (declareRoutine routine) fun pre _ post =>
      ∃ declared, resolved pre declared ∧ post.expected = pre.expected ∧
        Enrols routine declared pre.symbols post.symbols := by
  apply Ensures.bind observes
  intro declared
  apply Ensures.bind get_ensures
  intro st
  split
  · apply define_ensures.imp
    rintro _ _ post ⟨extended, defined, rfl⟩ _ ⟨rfl, -⟩ pre ⟨rfl, isResolved⟩
    exact ⟨declared, isResolved, rfl, .first defined⟩
  · next existing found =>
    refine .ite (fun _ => report_ensures _ _ _) fun oneBody => ?_
    refine .ite (fun _ => report_ensures _ _ _) fun agrees => ?_
    have agreement : existing.agrees declared = true := by simpa using agrees
    refine .ite (fun hasBody => ?_) fun noBody => ?_
    · have incomplete : existing.hasBody = false := by simpa [hasBody] using oneBody
      apply modifySymbols_ensures.imp
      rintro _ _ post rfl _ ⟨rfl, rfl⟩ pre ⟨rfl, isResolved⟩
      exact ⟨declared, isResolved, rfl, .completed found incomplete agreement hasBody rfl⟩
    · apply Ensures.imp (Observes.pure ())
      rintro _ _ post ⟨rfl, -⟩ _ ⟨rfl, rfl⟩ pre ⟨rfl, isResolved⟩
      exact ⟨declared, isResolved, rfl, .repeated found agreement (by simpa using noBody)⟩
  · exact report_ensures _ _ _

end Steps

def writtenType : Option TypeExpr → Checker (Option Ty)
  | some written => some <$> resolveType none written
  | none => pure none

def initialType : Option Expr → Checker (Option Ty)
  | some val => some <$> infer val
  | none => pure none

def declaredType (decl : VarDecl) : Checker Ty := do
  let declared ← writtenType decl.type
  let init ← initialType decl.initial
  variableDeclType decl.span decl.name declared init

theorem declareVariable_eq :
    declareVariable decl = declaredType decl >>= fun type =>
      define decl.name (.var type) decl.span (.variableRedefined decl.name) := by
  obtain ⟨span, name, _ | written, _ | val⟩ := decl <;> rfl

/-- A body is checked in a scope of its own, in which the parameters are defined. -/
def routineScope (params : List Parameter) (body : Body) (res : Ty) : Checker Unit := do
  modifySymbols (.enter .routine)
  defineParameters params
  let prev := (← get).expected
  setExpected (some res)
  checkBody res body
  setExpected prev
  modifySymbols .leave

end Imperative.Typing
