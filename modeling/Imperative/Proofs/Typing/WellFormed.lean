import Imperative.Proofs.Typing.Passage

/-!
# Well-formed types

Whatever is reported on the way, every type that is resolved is well formed, and so is every type
that the analysis keeps in a symbol table.
-/

namespace Imperative

open List

/-- At every depth, fields have different names and sizes are positive. -/
inductive Ty.WellFormed : Ty → Prop
  | scalar (isScalar : type.isAggregate = false) : WellFormed type
  | array (element : WellFormed elementType) (positive : ∀ length ∈ size, 0 < length) :
      WellFormed (.array elementType size)
  | record (distinct : (fields.map Prod.fst).Nodup)
      (each : ∀ field ∈ fields, WellFormed field.2) : WellFormed (.record name fields)

namespace Ty.WellFormed

theorem element {element : Ty} (wellFormed : WellFormed (.array element size)) :
    WellFormed element := by
  cases wellFormed with
  | scalar isScalar => cases isScalar
  | array element _ => exact element

theorem field (wellFormed : WellFormed (.record name fields)) (mem : entry ∈ fields) :
    WellFormed entry.2 := by
  cases wellFormed with
  | scalar isScalar => cases isScalar
  | record _ each => exact each entry mem

end Ty.WellFormed

namespace Typing

theorem arrayLength_positive : ∀ length ∈ (arrayLength size).value, 0 < length := by
  unfold arrayLength
  split
  · simp
  · split
    · split
      · next positive => simpa using positive
      · simp
    · simp

section Resolving

variable {lookup : String → Option Ty}

mutual

theorem resolve_wellFormed (known : ∀ name type, lookup name = some type → type.WellFormed)
    (hint : Option String) : (written : TypeExpr) → (resolve lookup hint written).value.WellFormed
  | .primitive _ name => by cases name <;> exact .scalar rfl
  | .named _ name => by
    rw [resolve, namedType]
    split
    · exact .scalar rfl
    · split
      · next found => exact known name _ found
      · exact .scalar rfl
  | .record _ fields => by
    obtain ⟨distinct, each⟩ := resolveFields_wellFormed known [] fields
    exact .record distinct fun field mem => (each field mem).2
  | .array _ element _ => .array (resolve_wellFormed known none element) arrayLength_positive

/-- The names of the fields that are kept differ from each other and from those that are taken. -/
theorem resolveFields_wellFormed (known : ∀ name type, lookup name = some type → type.WellFormed)
    (taken : List String) : (written : List VarDecl) →
    ((resolveFields lookup taken written).value.map Prod.fst).Nodup ∧
      ∀ field ∈ (resolveFields lookup taken written).value, field.1 ∉ taken ∧ field.2.WellFormed
  | [] => ⟨.nil, forall_mem_nil _⟩
  | .mk span name type init :: rest => by
    have ⟨fieldType, wellFormed, value⟩ : ∃ fieldType : Ty, fieldType.WellFormed ∧
        (resolveFields lookup taken (.mk span name type init :: rest)).value =
          if name ∈ taken then (resolveFields lookup taken rest).value
          else (name, fieldType) :: (resolveFields lookup (name :: taken) rest).value := by
      cases type with
      | none => exact ⟨.error, .scalar rfl, by rw [resolveFields]; split <;> simp [*]⟩
      | some written =>
        exact ⟨_, resolve_wellFormed known none written, by rw [resolveFields]; split <;> simp [*]⟩
    rw [value]
    -- A field whose name is taken is left out; any other name is taken from here on.
    split
    · exact resolveFields_wellFormed known taken rest
    · have := resolveFields_wellFormed known (name :: taken) rest
      grind [nodup_cons]

end

end Resolving

/-- The types of all symbols are well formed. -/
abbrev SymbolTable.WellFormed (tbl : SymbolTable) : Prop :=
  tbl.Each fun sym => ∀ type ∈ sym.types, type.WellFormed

variable {st : Analysis} {span : Span}

theorem SymbolTable.WellFormed.resolve {tbl : SymbolTable} (wellFormed : tbl.WellFormed)
    (hint : Option String) (written : TypeExpr) :
    (Typing.resolve tbl.lookupType hint written).value.WellFormed := by
  refine resolve_wellFormed (fun name type found => ?_) hint written
  unfold lookupType at found
  split at found <;> cases found
  next isType => exact wellFormed.found isType _ (mem_singleton_self _)

/-- In the state, the step gives a well-formed type. -/
abbrev Gives (st : Analysis) (step : Checker Ty) : Prop := (step st).1.WellFormed

/-- In the state, the step leads to well-formed symbols. -/
abbrev Keeps {α : Type} (st : Analysis) (step : Checker α) : Prop := (step st).2.symbols.WellFormed

theorem Gives.bind {next : α → Checker Ty}
    (gives : Gives (step st).2 (next (step st).1)) : Gives st (step >>= next) := gives

theorem Keeps.bind {next : α → Checker β}
    (keeps : Keeps (step st).2 (next (step st).1)) : Keeps st (step >>= next) := keeps

theorem Follows.keeps (follows : Follows .nothing step other)
    (wellFormed : st.symbols.WellFormed) : Keeps st step := by
  rw [Keeps, follows.symbols_eq]
  exact wellFormed

theorem fieldType_gives (wellFormed : recv.WellFormed) : Gives st (fieldType span recv field) := by
  cases recv with
  | record name fields =>
    unfold fieldType
    dsimp only
    split
    · next found => exact wellFormed.field (mem_of_lookup found)
    · exact .scalar rfl
  | integer | real | boolean | void | error | array => exact .scalar rfl

theorem elementType_gives (wellFormed : recv.WellFormed) : Gives st (elementType span recv) := by
  cases recv with
  | array => exact wellFormed.element
  | integer | real | boolean | void | error | record => exact .scalar rfl

theorem unaryType_gives (wellFormed : type.WellFormed) : Gives st (unaryType span op type) := by
  unfold unaryType
  split
  · exact .scalar rfl
  · cases op with
    | plus | minus =>
      dsimp only
      split
      · exact wellFormed
      · exact .scalar rfl
    | not =>
      dsimp only
      split <;> exact .scalar rfl

theorem binaryType_gives : Gives st (binaryType span op left right) := by
  unfold binaryType logicalType
  repeat' split
  all_goals exact .scalar rfl

theorem variableDeclType_gives (name : String) (declared init : Option Ty)
    (each : ∀ type ∈ declared.or init, type.WellFormed) :
    Gives st (variableDeclType span name declared init) := by
  unfold variableDeclType
  split
  · split <;> exact each _ rfl
  · exact each _ rfl
  · split
    · exact .scalar rfl
    · exact each _ rfl
  · exact .scalar rfl

section Checking

variable (wellFormed : st.symbols.WellFormed)
include wellFormed

theorem variableType_gives : Gives st (variableType span name) := by
  unfold variableType
  apply Gives.bind
  split
  · next found => exact wellFormed.found found _ (mem_singleton_self _)
  · exact .scalar rfl
  · exact .scalar rfl

theorem callType_gives : Gives st (callType span name args) := by
  unfold callType
  apply Gives.bind
  split
  · next found =>
    split
    · exact wellFormed.found found _ mem_cons_self
    · exact .scalar rfl
  · exact .scalar rfl
  · exact .scalar rfl

theorem infer_gives : (tree : Expr) → Gives st (infer tree)
  | .integer _ _ | .real _ _ | .boolean _ _ => .scalar rfl
  | .binary _ _ _ _ => binaryType_gives
  | .name _ _ => variableType_gives wellFormed
  | .field _ recv _ => fieldType_gives (infer_gives recv)
  | .index _ recv _ => elementType_gives (infer_gives recv)
  -- Arguments leave the symbols as they are, so the routine is the one that was declared.
  | .call _ _ args => callType_gives ((inferAll_follows args).symbols_eq st ▸ wellFormed)
  | .unary _ _ inner => unaryType_gives (infer_gives inner)

theorem resolveType_keeps : Keeps st (resolveType hint written) :=
  Follows.keeps resolveType_follows wellFormed

theorem define_keeps (each : ∀ type ∈ sym.types, type.WellFormed) :
    Keeps st (define name sym span problem) := by
  rw [Keeps, define_eq]
  cases defined : st.symbols.define? name sym with
  | none => exact wellFormed
  | some extended => exact wellFormed.define each defined

theorem declaredType_gives : Gives st (declaredType decl) := by
  obtain ⟨span, name, _ | written, _ | val⟩ := decl
  · exact .scalar rfl
  · exact variableDeclType_gives name none (some _)
      (by rintro _ ⟨⟩; exact infer_gives wellFormed val)
  · exact wellFormed.resolve none written
  · exact variableDeclType_gives name (some _) (some _)
      (by rintro _ ⟨⟩; exact wellFormed.resolve none written)

theorem declareVariable_keeps : Keeps st (declareVariable decl) := by
  rw [declareVariable_eq]
  exact define_keeps (declaredType_follows.keeps wellFormed)
    (forall_mem_singleton.mpr (declaredType_gives wellFormed))

theorem declareType_keeps : Keeps st (declareType decl) :=
  define_keeps (resolveType_keeps wellFormed)
    (forall_mem_singleton.mpr (wellFormed.resolve (some decl.name) decl.type))

theorem defineParameter_keeps :
    Keeps st (define name (.var (resolveSilently written st).1) span problem) :=
  define_keeps wellFormed (forall_mem_singleton.mpr (wellFormed.resolve none written))

theorem defineParameters_keeps : Keeps st (defineParameters params) := by
  induction params generalizing st with
  | nil => exact wellFormed
  | cons first rest ih => exact ih (defineParameter_keeps wellFormed)

theorem iteratorType_gives : Gives st (iteratorType array) := by
  have arrayGives : (infer array st).1.WellFormed := infer_gives wellFormed array
  unfold iteratorType
  apply Gives.bind
  split
  · next isArray => exact Ty.WellFormed.element (isArray ▸ arrayGives)
  · exact .scalar rfl
  · exact .scalar rfl

theorem parameterTypes_wellFormed : ∀ param ∈ (parameterTypes params st).1, param.2.WellFormed := by
  induction params generalizing st with
  | nil => exact forall_mem_nil _
  | cons first rest ih =>
    exact forall_mem_cons.mpr ⟨wellFormed.resolve none first.type,
      ih (resolveType_keeps wellFormed)⟩

theorem signature_wellFormed :
    ∀ type ∈ (Symbol.routine (signature routine st).1).types, type.WellFormed := by
  have params :=
    forall_mem_map.mpr (@parameterTypes_wellFormed st wellFormed routine.parameters)
  obtain ⟨span, name, declared, result, body⟩ := routine
  cases result with
  | none => exact forall_mem_cons.mpr ⟨.scalar rfl, params⟩
  | some written =>
    exact forall_mem_cons.mpr
      ⟨(@Follows.keeps _ _ _ _ parameterTypes_follows wellFormed).resolve none written, params⟩

theorem declareRoutine_keeps : Keeps st (declareRoutine routine) := by
  have same : Keeps st (signature routine) := Follows.keeps signature_follows wellFormed
  have each := @signature_wellFormed st wellFormed routine
  unfold declareRoutine
  apply Keeps.bind
  apply Keeps.bind
  split
  · exact define_keeps same each
  · split
    · exact same
    · split
      · exact same
      · split
        · exact same.replace each
        · exact same
  · exact same

theorem declareAll_keeps : Keeps st (declareAll decls) := by
  induction decls generalizing st with
  | nil => exact wellFormed
  | cons first rest ih =>
    cases first with
    | var => exact ih wellFormed
    | type => exact ih (declareType_keeps wellFormed)
    | routine => exact ih (declareRoutine_keeps wellFormed)

end Checking

theorem Leads.wellFormed (leads : Leads moment reached) (wellFormed : moment.2.symbols.WellFormed) :
    reached.2.symbols.WellFormed := by
  cases leads with
  | passVariable | passType | parameters | bodyItems | nested | blockItems | localRoutine
  | inside => exact wellFormed
  | typeDeclared | localType => exact declareType_keeps wellFormed
  | routineDeclared => exact declareRoutine_keeps wellFormed
  | variableChecked | localVariable => exact declareVariable_keeps wellFormed
  | routineChecked => exact checkRoutine_follows.keeps wellFormed
  | parameter => exact defineParameter_keeps wellFormed
  | body => exact @defineParameters_keeps (.enter .routine _) wellFormed.enter _
  | @consequent _ cond => exact (checkCondition_follows cond _).keeps wellFormed
  | @alternative _ cond consequent =>
    exact (checkBlock_follows _ consequent).keeps ((checkCondition_follows cond _).keeps wellFormed)
  | @whileBody _ cond => exact (checkCondition_follows cond _).keeps wellFormed
  | @rangeBody _ _ first last =>
    exact .enterLoop ((checkBound_follows last _).keeps
      ((checkBound_follows first _).keeps wellFormed)) (forall_mem_singleton.mpr (.scalar rfl))
  | @arrayBody _ _ array =>
    exact .enterLoop ((iteratorType_follows array).keeps wellFormed)
      (forall_mem_singleton.mpr (iteratorType_gives wellFormed))
  | @later first => exact (checkStatement_follows first).keeps wellFormed

theorem wellFormed_of_leads (leads : Relation.ReflTransGen Leads start moment)
    (wellFormed : start.2.symbols.WellFormed) : moment.2.symbols.WellFormed := by
  induction leads with
  | refl => exact wellFormed
  | tail _ last ih => exact last.wellFormed ih

theorem Passes.wellFormed (passes : Passes program st) : st.symbols.WellFormed := by
  obtain ⟨start, task, starts, leads⟩ := passes
  have basic : Analysis.initial.symbols.WellFormed :=
    SymbolTable.each_basicSymbols fun name => by
      cases name <;> exact forall_mem_singleton.mpr (.scalar rfl)
  apply wellFormed_of_leads leads
  cases starts with
  | first => exact basic
  | second => exact declareAll_keeps basic

end Typing

end Imperative
