import Imperative.Proofs.Lowering.Statement
import Imperative.Proofs.Scalar.Expression
import Mathlib.Data.List.Nodup

/-!
# Where variables are kept

A local variable has a cell: a local of the machine that is reserved for it.  A variable without a
cell is one of the program, and it is kept in a global.
-/

namespace Imperative.Scalar

open List

open Lowering (Advances Environment Frame Storage TypesAgree Variable)
open Wasm (HostCall Module State Value)

variable {kind : Kind} {locals : List Value} {slot : Nat}
    {name : String} {names : Typing.Context}

/-- What a routine finds around it, with the names of the globals of the machine. -/
structure Outer where
  names : Typing.Context
  scope : List (String × Variable)
  order : List String

/-- The integers and booleans of the program are kept in the globals with their names. -/
structure Outer.Sound (outer : Outer) : Prop where
  placed : ∀ (name : String) (kind : Kind), outer.names name = some (.var kind.type) →
    ∃ index, outer.scope.lookup name = some { type := kind.type, storage := .global index } ∧
      outer.order[index]? = some name
  distinct : outer.order.Nodup

/-- The local that is reserved for a variable, which is fixed if it is the iterator of a loop. -/
structure Cell where
  kind : Kind
  slot : Nat
  isFixed : Bool

def Cell.entry (cell : Cell) : Variable := { type := cell.kind.type, storage := .slot cell.slot }

/-- What is known while a piece of code is lowered. -/
structure Setting where
  names : Typing.Context
  iterators : List String
  environment : Environment
  cells : List (String × Cell)

def resultType : Option Kind → Ty
  | some kind => kind.type
  | none => .void

theorem not_isVoid_resultType : ¬ (resultType (some kind)).isVoid = true := by
  cases kind <;> decide

namespace Setting

def declare (setting : Setting) (name : String) (kind : Kind) (slot : Nat) : Setting :=
  { names := setting.names.define name (.var kind.type)
    iterators := setting.iterators.filter (· ≠ name)
    environment := setting.environment.defineVariable name kind.type (.slot slot)
    cells := (name, { kind, slot, isFixed := false }) :: setting.cells }

def iterate (setting : Setting) (name : String) (slot : Nat) : Setting :=
  { names := setting.names.define name (.var .integer)
    iterators := name :: setting.iterators
    environment := setting.environment.defineVariable name .integer (.slot slot)
    cells := (name, { kind := .integer, slot, isFixed := true }) :: setting.cells }

def defineType (setting : Setting) (decl : TypeDecl) (kind : Kind) : Setting :=
  { setting with
    names := setting.names.define decl.name (.type kind.type)
    environment := setting.environment.defineType decl }

/-- The names and the environment know the cells, and what they know besides is outside. -/
structure Laid (setting : Setting) (outer : Outer) (result : Option Kind) (frame : Frame) :
    Prop where
  scope : setting.environment.scope =
    setting.cells.map (fun cell => (cell.1, cell.2.entry)) ++ outer.scope
  types : TypesAgree setting.names setting.environment
  result : setting.environment.result = resultType result
  inside : ∀ (name : String) (cell : Cell) (kind : Kind), setting.cells.lookup name = some cell →
    setting.names name = some (.var kind.type) →
    cell.kind = kind ∧ (cell.isFixed = true → name ∈ setting.iterators)
  outside : ∀ (name : String) (kind : Kind), setting.cells.lookup name = none →
    setting.names name = some (.var kind.type) → outer.names name = some (.var kind.type)
  distinct : (setting.cells.map (·.2.slot)).Nodup
  reserved : ∀ cell ∈ setting.cells, frame.Reserved cell.2.slot
  tidy : frame.Tidy

end Setting

section Settings

variable {outer : Outer} {result : Option Kind} {setting : Setting} {pre post : Frame}

theorem Setting.Laid.grow (laid : setting.Laid outer result pre) (advances : Advances pre post) :
    setting.Laid outer result post :=
  { laid with
    reserved := fun cell mem => advances.grows.reserved _ (laid.reserved cell mem)
    tidy := advances.tidy }

theorem Setting.Laid.unused (laid : setting.Laid outer result pre)
    (fresh : ¬ pre.Reserved slot) : ∀ cell ∈ setting.cells, cell.2.slot ≠ slot := by
  rintro cell mem rfl
  exact fresh (laid.reserved cell mem)

theorem Setting.Laid.define (laid : setting.Laid outer result pre) (name : String) (cell : Cell)
    (advances : Advances pre post) (isReserved : post.Reserved cell.slot)
    (unused : ∀ other ∈ setting.cells, other.2.slot ≠ cell.slot) {iterators : List String}
    (fixed : cell.isFixed = true → name ∈ iterators)
    (kept : ∀ other ∈ setting.iterators, other ≠ name → other ∈ iterators) :
    Setting.Laid
      { names := setting.names.define name (.var cell.kind.type)
        iterators
        environment := setting.environment.defineVariable name cell.kind.type (.slot cell.slot)
        cells := (name, cell) :: setting.cells } outer result post where
  scope := by
    show (name, cell.entry) :: setting.environment.scope = _
    rw [laid.scope]
    rfl
  types := laid.types.define_symbol nofun
  result := laid.result
  inside other found kind isCell isVariable := by
    rcases Typing.Context.define_eq_some.mp isVariable with ⟨rfl, isVar⟩ | ⟨different, isVariable⟩
    · rw [lookup_cons_self] at isCell
      cases isCell
      injection isVar with sameType
      exact ⟨Kind.type_injective sameType, fixed⟩
    · simp only [lookup_cons, beq_false_of_ne different] at isCell
      rcases laid.inside other found kind isCell isVariable with ⟨isKind, isIter⟩
      exact ⟨isKind, fun isFixed => kept other (isIter isFixed) different⟩
  outside other kind noCell isVariable := by
    dsimp only at noCell isVariable
    have different : other ≠ name := by
      rintro rfl
      rw [lookup_cons_self] at noCell
      cases noCell
    rw [Typing.Context.define_other different] at isVariable
    simp only [lookup_cons, beq_false_of_ne different] at noCell
    exact laid.outside other kind noCell isVariable
  distinct := by
    refine nodup_cons.mpr ⟨?_, laid.distinct⟩
    intro mem
    rcases mem_map.mp mem with ⟨older, isOlder, sameSlot⟩
    exact unused older isOlder sameSlot
  reserved other mem := by
    rcases mem_cons.mp mem with rfl | older
    · exact isReserved
    · exact advances.grows.reserved _ (laid.reserved other older)
  tidy := advances.tidy

theorem Setting.Laid.declare (laid : setting.Laid outer result pre)
    (gives : pre.Gives post slot) : (setting.declare name kind slot).Laid outer result post :=
  laid.define name { kind, slot, isFixed := false } gives.advances gives.reserved
    (laid.unused gives.fresh) nofun fun other mem different =>
      mem_filter.mpr ⟨mem, by simpa using different⟩

theorem Setting.Laid.iterate (laid : setting.Laid outer result pre)
    (gives : pre.Gives post slot) : (setting.iterate name slot).Laid outer result post :=
  laid.define name { kind := .integer, slot, isFixed := true } gives.advances gives.reserved
    (laid.unused gives.fresh) (fun _ => mem_cons_self ..) fun _ mem _ => mem_cons_of_mem _ mem

theorem resolves_of_writtenKind (wellNamed : type.WellNamed)
    (isKind : writtenKind? names type = some kind) (hint : Option String) :
    Typing.Resolves names hint type kind.type := by
  have isType := Kind.ofType?_eq_some.mp isKind
  cases type with
  | primitive span name => exact ⟨wellNamed, rfl, isType⟩
  | named span name =>
    have found : Typing.resolve names.typeNamed none (.named span name) =
        { value := kind.type, problems := [] } := by
      simp only [Typing.resolve, Typing.namedType] at isType ⊢
      split
      · next isError =>
        rw [if_pos isError] at isType
        cases kind <;> cases isType
      · next notErr =>
        rw [if_neg notErr] at isType
        split
        · next type isNamed =>
          rw [isNamed] at isType
          exact congrArg (Typing.Reported.mk · []) isType
        · next notNamed =>
          rw [notNamed] at isType
          cases kind <;> cases isType
    exact ⟨wellNamed, congrArg Typing.Reported.problems found, congrArg Typing.Reported.value found⟩
  | record | array => cases kind <;> cases isType

theorem variable_of_defineType
    (isVariable : names.define name (.type type) other = some (.var found)) :
    names other = some (.var found) := by
  rcases Typing.Context.define_eq_some.mp isVariable with ⟨-, ⟨⟩⟩ | ⟨-, known⟩
  exact known

theorem Setting.Laid.defineType (laid : setting.Laid outer result pre)
    (resolves : Typing.Resolves setting.names (some decl.name) decl.type kind.type) :
    (setting.defineType decl kind).Laid outer result pre where
  scope := laid.scope
  types := laid.types.defineType resolves
  result := laid.result
  inside name cell found isCell isVariable :=
    laid.inside name cell found isCell (variable_of_defineType isVariable)
  outside name found noCell isVariable :=
    laid.outside name found noCell (variable_of_defineType isVariable)
  distinct := laid.distinct
  reserved := laid.reserved
  tidy := laid.tidy

theorem lookup_map_entry (cells : List (String × Cell)) :
    (cells.map fun cell => (cell.1, cell.2.entry)).lookup name =
      (cells.lookup name).map Cell.entry := by
  induction cells with
  | nil => rfl
  | cons cell rest ih =>
    obtain ⟨cellName, cell⟩ := cell
    simp only [map_cons, lookup_cons, ih]
    split <;> rfl

theorem Setting.Laid.lookup_inside (laid : setting.Laid outer result pre)
    (isCell : setting.cells.lookup name = some cell) :
    setting.environment.scope.lookup name = some cell.entry := by
  rw [laid.scope, lookup_append, lookup_map_entry, isCell]
  rfl

theorem Setting.Laid.lookup_outside (laid : setting.Laid outer result pre)
    (noCell : setting.cells.lookup name = none) :
    setting.environment.scope.lookup name = outer.scope.lookup name := by
  rw [laid.scope, lookup_append, lookup_map_entry, noCell]
  rfl

theorem Setting.Laid.known (laid : setting.Laid outer result pre) (sound : outer.Sound) :
    Known setting.names setting.environment := by
  intro name kind isVariable
  cases isCell : setting.cells.lookup name with
  | some cell =>
    rcases laid.inside name cell kind isCell isVariable with ⟨rfl, -⟩
    exact ⟨.slot cell.slot, laid.lookup_inside isCell, rfl⟩
  | none =>
    rcases sound.placed name kind (laid.outside name kind isCell isVariable) with
      ⟨index, found, -⟩
    exact ⟨.global index, (laid.lookup_outside isCell).trans found, rfl⟩

end Settings

def printCall (word : Int32) : HostCall :=
  { function := Lowering.printInteger, arguments := [.i32 word] }

section Globals

variable (names : Typing.Context) (order : List String)

/-- The globals, whose names stand in order, hold the integers and booleans of the program. -/
def Encodes (globals : String → Option Datum) (values : List Value) : Prop :=
  ∀ (index : Nat) (name : String) (kind : Kind), order[index]? = some name →
    names name = some (.var kind.type) →
    ∃ datum, globals name = some datum ∧ datum.kind = kind ∧ values[index]? = some (.i32 datum.word)

/-- Globals of variables that are not scalar are as before. -/
def SameOthers (pre post : List Value) : Prop :=
  post.length = pre.length ∧
    ∀ (index : Nat) (name : String), order[index]? = some name →
      variableKind? names name = none → post[index]? = pre[index]?

/-- What is the same in the store and in the state, apart from the local variables. -/
structure Agree (base : State) (store : Store) (st : State) : Prop where
  globals : Encodes names order store.globals st.globals
  others : SameOthers names order base.globals st.globals
  memory : st.memory = base.memory
  calls : st.calls = base.calls ++ store.printed.map printCall

end Globals

/-- The cell holds the value of the local variable. -/
structure Keeps (locals : List Value) (cell : String × Cell) (entry : String × Datum) : Prop where
  name : entry.1 = cell.1
  kind : entry.2.kind = cell.2.kind
  value : locals[cell.2.slot]? = some (.i32 entry.2.word)

/-- The state is that of the store, at the boundary of a statement. -/
structure Mirrors (outer : Outer) (base : State) (cells : List (String × Cell)) (store : Store)
    (st : State) : Prop where
  agree : Agree outer.names outer.order base store st
  cells : List.Forall₂ (Keeps st.locals) cells store.locals
  size : st.locals.length = base.locals.length
  stack : st.stack = []

section Stores

variable {outer : Outer} {cells : List (String × Cell)}

theorem lookup_keeps (keeps : List.Forall₂ (Keeps locals) cells entries) :
    (cells.lookup name = none ∧ entries.lookup name = none) ∨
      ∃ cell datum, cells.lookup name = some cell ∧ entries.lookup name = some datum ∧
        datum.kind = cell.kind ∧ locals[cell.slot]? = some (.i32 datum.word) := by
  induction keeps with
  | nil => exact .inl ⟨rfl, rfl⟩
  | @cons cell entry cells entries head _ ih =>
    obtain ⟨cellName, cell⟩ := cell
    obtain ⟨entryName, datum⟩ := entry
    obtain rfl : entryName = cellName := head.name
    by_cases same : name = entryName
    · subst same
      exact .inr ⟨cell, datum, lookup_cons_self, lookup_cons_self, head.kind, head.value⟩
    · simpa only [lookup_cons, beq_false_of_ne same] using ih

theorem Mirrors.reads (mirrors : Mirrors outer base cells store st)
    (laid : Setting.Laid ⟨names, iterators, env, cells⟩ outer result frame) (sound : outer.Sound) :
    Reads names env store.lookup st := by
  intro name kind entry isVariable found
  rcases lookup_keeps mirrors.cells with
    ⟨noCell, noLocal⟩ | ⟨cell, datum, isCell, isLocal, isKind, holds⟩
  · have isOuter := laid.outside name kind noCell isVariable
    rcases sound.placed name kind isOuter with ⟨index, isPlaced, isName⟩
    rw [laid.lookup_outside noCell, isPlaced] at found
    cases found
    rcases mirrors.agree.globals index name kind isName isOuter with
      ⟨datum, isGlobal, isKind, holds⟩
    refine ⟨datum, ?_, isKind, holds⟩
    simpa only [Store.lookup, noLocal] using isGlobal
  · rw [laid.lookup_inside isCell] at found
    cases found
    rcases laid.inside name cell kind isCell isVariable with ⟨rfl, -⟩
    exact ⟨datum, by simp only [Store.lookup, isLocal], isKind, holds⟩

theorem keeps_set_other (keeps : List.Forall₂ (Keeps locals) cells entries)
    (unused : ∀ cell ∈ cells, cell.2.slot ≠ slot) :
    List.Forall₂ (Keeps (locals.set slot value)) cells entries := by
  induction keeps with
  | nil => exact .nil
  | cons head _ ih =>
    refine .cons ⟨head.name, head.kind, ?_⟩ (ih fun cell mem => unused cell (mem_cons_of_mem _ mem))
    rw [getElem?_set_ne (unused _ (mem_cons_self ..)).symm]
    exact head.value

theorem keeps_replace (keeps : List.Forall₂ (Keeps locals) cells entries)
    (distinct : (cells.map (·.2.slot)).Nodup) (isCell : cells.lookup name = some cell) :
    List.Forall₂ (Keeps (locals.set cell.slot (.i32 (datum.as cell.kind).word))) cells
      (replace name datum entries) := by
  induction keeps with
  | nil => cases isCell
  | @cons first entry cells entries head rest ih =>
    obtain ⟨firstName, first⟩ := first
    obtain ⟨entryName, old⟩ := entry
    obtain rfl : entryName = firstName := head.name
    rcases nodup_cons.mp distinct with ⟨notLater, laterDistinct⟩
    by_cases same : name = entryName
    · subst same
      rw [lookup_cons_self] at isCell
      cases isCell
      rw [replace, if_pos rfl]
      refine .cons ⟨rfl, ?_, ?_⟩ (keeps_set_other rest ?_)
      · exact Datum.kind_as.trans head.kind
      · rw [head.kind]
        exact List.getElem?_set_self (List.getElem?_eq_some_iff.mp head.value).1
      · intro later mem sameSlot
        exact notLater (mem_map.mpr ⟨later, mem, sameSlot⟩)
    · simp only [lookup_cons, beq_false_of_ne same] at isCell
      rw [replace, if_neg (Ne.symm same)]
      refine .cons ⟨rfl, head.kind, ?_⟩ (ih laterDistinct isCell)
      have different : cell.slot ≠ first.slot := by
        intro sameSlot
        exact notLater (mem_map.mpr ⟨(name, cell), mem_of_lookup isCell, sameSlot⟩)
      rw [getElem?_set_ne different]
      exact head.value

theorem Agree.setGlobal (agree : Agree outer.names outer.order base store st) (sound : outer.Sound)
    (isName : outer.order[index]? = some name) (isVariable : outer.names name =
      some (.var kind.type))
    (datum : Datum) :
    Agree outer.names outer.order base
      { store with
        globals := fun other => if other = name then some (datum.as kind) else store.globals other }
      { st with globals := st.globals.set index (.i32 (datum.as kind).word) } where
  globals pos other otherKind isOther otherVariable := by
    rcases agree.globals pos other otherKind isOther otherVariable with
      ⟨old, isOld, isKind, holds⟩
    by_cases same : other = name
    · subst same
      have samePos : index = pos := by
        rcases List.getElem?_eq_some_iff.mp isName with ⟨inBounds, atIndex⟩
        rcases List.getElem?_eq_some_iff.mp isOther with ⟨alsoInBounds, atPos⟩
        exact sound.distinct.getElem_inj_iff.mp (atIndex.trans atPos.symm)
      subst samePos
      rw [isVariable] at otherVariable
      injection otherVariable with sameSym
      injection sameSym with sameType
      obtain rfl := Kind.type_injective sameType
      refine ⟨datum.as kind, if_pos rfl, Datum.kind_as, ?_⟩
      exact List.getElem?_set_self (List.getElem?_eq_some_iff.mp holds).1
    · refine ⟨old, (if_neg same).trans isOld, isKind, ?_⟩
      have different : index ≠ pos := by
        rintro rfl
        rw [isName] at isOther
        cases isOther
        exact same rfl
      rw [getElem?_set_ne different]
      exact holds
  others := by
    refine ⟨(length_set).trans agree.others.1, ?_⟩
    intro pos other isOther notScalar
    have different : index ≠ pos := by
      rintro rfl
      rw [isName] at isOther
      cases isOther
      rw [variableKind?_eq_some.mpr isVariable] at notScalar
      cases notScalar
    rw [getElem?_set_ne different]
    exact agree.others.2 pos other isOther notScalar
  memory := agree.memory
  calls := agree.calls

theorem Agree.print (agree : Agree outer.names outer.order base store st) :
    Agree outer.names outer.order base (store.print datum)
      { st with calls := st.calls ++ [printCall datum.word] } where
  globals := agree.globals
  others := agree.others
  memory := agree.memory
  calls := by
    rw [agree.calls]
    simp [Store.print]

theorem Mirrors.leave {inner : List (String × Cell)}
    (mirrors : Mirrors outer base (inner ++ cells) store st) :
    Mirrors outer base cells (store.leave cells.length) st := by
  have sameLength : store.locals.length = inner.length + cells.length := by
    rw [← mirrors.cells.length_eq, length_append]
  have kept := forall₂_drop inner.length mirrors.cells
  rw [drop_left] at kept
  refine ⟨{ mirrors.agree with }, ?_, mirrors.size, mirrors.stack⟩
  rw [Store.leave, sameLength, Nat.add_sub_cancel]
  exact kept

end Stores

end Imperative.Scalar
