import Imperative.Proofs.Typing.Catalog
import Imperative.Proofs.Typing.Program
import Mathlib.Data.List.Perm.Basic

/-!
# Conversions between records

Wherever the typing rules ask for a conversion, both types are listed in one catalog.  So a well
typed program is well typed with any stronger notion of conversion that holds of listed types.
-/

namespace Imperative

open List

variable {rest : List Writing}

mutual

/-- No record type is declared in the statement under one of the names. -/
def Statement.hidesNoRecord (known : List String) : Statement → Bool
  | .branch _ _ consequent (some alternative) =>
    consequent.hidesNoRecord known && alternative.hidesNoRecord known
  | .branch _ _ consequent none => consequent.hidesNoRecord known
  | .whileLoop _ _ body | .rangeLoop _ _ _ _ _ body | .arrayLoop _ _ _ _ body
  | .block _ body => body.hidesNoRecord known
  | .assign _ _ _ | .call _ _ _ | .giveBack _ _ | .print _ _ | .empty _ => true

def Block.hidesNoRecord (known : List String) : Block → Bool
  | .mk _ items => Block.itemsHideNoRecord known items

/-- No record type is declared under one of the names or one that is declared before. -/
def Block.itemsHideNoRecord (known : List String) : List Item → Bool
  | [] => true
  | .declaration (.var _) :: rest | .declaration (.routine _) :: rest =>
    Block.itemsHideNoRecord known rest
  | .declaration (.type decl) :: rest =>
    (Typing.recordNames decl).all (fun name => !known.contains name) &&
      Block.itemsHideNoRecord (Typing.recordNames decl ++ known) rest
  | .statement inner :: rest => inner.hidesNoRecord known && Block.itemsHideNoRecord known rest

end

def Body.hidesNoRecord (known : List String) : Body → Bool
  | .block inner => inner.hidesNoRecord known
  | .expression _ => true

/-- The name of a record that is declared. -/
def Declaration.recordNames : Declaration → List String
  | .type decl => Typing.recordNames decl
  | .var _ | .routine _ => []

namespace Program

/-- The names of the types that are declared as records outside of routines. -/
def recordNames (program : Program) : List String :=
    program.declarations.flatMap Declaration.recordNames

/-- No record type that is declared in a routine hides another one of the same name. -/
def HidesNoRecord (program : Program) : Prop :=
  ∀ routine ∈ program.routines,
    (routine.body.all fun body => body.hidesNoRecord program.recordNames) = true

instance (program : Program) : Decidable program.HidesNoRecord :=
  inferInstanceAs (Decidable (∀ routine ∈ program.routines, _))

end Program

namespace Typing

variable {Converts Stronger : Ty → Ty → Prop} {catalog : Catalog} {ctx : Context}

theorem HasType.listed (listed : ctx.Listed catalog) :
    (expression : Expr) → {type : Ty} → HasType Converts ctx expression type → type.Listed catalog
  | .integer _ _, _, .integer | .real _ _, _, .real | .boolean _ _, _, .boolean
  | .unary _ _ _, _, .not _ _ | .binary _ _ _ _, _, .logical ..
  | .binary _ _ _ _, _, .comparison .. => trivial
  | .name _ identifier, type, .name found => listed identifier (.var type) found
  | .field _ recv _, _, .field receiverTyped found =>
    (HasType.listed listed recv receiverTyped).2.field found
  | .index _ recv _, _, .index receiverTyped _ _ => (HasType.listed listed recv receiverTyped :)
  | .call _ routine _, _, .call found _ => (listed routine _ found).2
  | .unary _ _ operand, _, .sign _ operandTyped _ => HasType.listed listed operand operandTyped
  | .binary _ _ _ _, _, .arithmetic .. => by split <;> simp

/-- Conversions between listed types are conversions of the stronger kind. -/
def Strengthens (Converts Stronger : Ty → Ty → Prop) : Prop :=
  ∀ {catalog : Catalog} {src tgt : Ty}, src.Listed catalog → tgt.Listed catalog →
    Converts src tgt → Stronger src tgt

section Strengthening

variable {Converts Stronger : Ty → Ty → Prop} (strengthens : Strengthens Converts Stronger)
include strengthens

section Expressions

variable {ctx : Context} {catalog : Catalog} (listed : ctx.Listed catalog)
include listed

mutual

theorem HasType.strengthen : (expression : Expr) → {type : Ty} →
    HasType Converts ctx expression type →
      HasType Stronger ctx expression type
  | .integer _ _, _, .integer => .integer
  | .real _ _, _, .real => .real
  | .boolean _ _, _, .boolean => .boolean
  | .name _ _, _, .name found => .name found
  | .field _ recv _, _, .field receiverTyped found => .field (.strengthen recv receiverTyped) found
  | .index _ recv pos, _, .index receiverTyped positionTyped converts =>
    .index (.strengthen recv receiverTyped)
      (.strengthen pos positionTyped)
      (strengthens (positionTyped.listed listed) trivial converts)
  | .call _ routine args, _, .call found fits =>
    .call found (.strengthen args
      (by
        intro type mem
        obtain ⟨param, inParams, rfl⟩ := mem_map.mp mem
        exact (listed routine _ found).1 param inParams) fits)
  | .unary _ _ operand, _, .sign signed operandTyped numeric =>
    .sign signed (.strengthen operand operandTyped) numeric
  | .unary _ _ operand, _, .not operandTyped converts =>
    .not (.strengthen operand operandTyped)
      (strengthens (operandTyped.listed listed) trivial converts)
  | .binary _ _ left right, _, .logical logical leftTyped leftConverts rightTyped rightConverts =>
    .logical logical (.strengthen left leftTyped)
      (strengthens (leftTyped.listed listed) trivial leftConverts)
      (.strengthen right rightTyped)
      (strengthens (rightTyped.listed listed) trivial rightConverts)
  | .binary _ _ left right, _,
      .arithmetic arithmetic leftTyped leftNumeric rightTyped rightNumeric =>
    .arithmetic arithmetic (.strengthen left leftTyped) leftNumeric
      (.strengthen right rightTyped) rightNumeric
  | .binary _ _ left right, _, .comparison comparison leftTyped rightTyped comparable =>
    .comparison comparison (.strengthen left leftTyped) (.strengthen right rightTyped) comparable

theorem Fits.strengthen : (args : List Expr) → {parameters : List Ty} →
    (∀ param ∈ parameters, param.Listed catalog) →
      Fits Converts ctx args parameters → Fits Stronger ctx args parameters
  | [], _, _, .nil => .nil
  | argument :: args, _, paramsListed, .cons argumentTyped converts rest =>
    .cons (.strengthen argument argumentTyped)
      (strengthens (argumentTyped.listed listed) (paramsListed _ (by simp)) converts)
      (.strengthen args (fun param mem => paramsListed param (by simp [mem])) rest)

end

/-- A declared variable gets a type that is listed with the records that are written in it. -/
theorem VarTyped.strengthen (ready : Ready catalog known (decl.writings ++ rest))
    (typed : VarTyped Converts ctx decl type) :
    VarTyped Stronger ctx decl type ∧
      ∃ larger, catalog.Within larger ∧ type.Listed larger ∧ Ready larger known rest := by
  cases typed with
  | declared resolves => exact ⟨.declared resolves, ready.resolve listed resolves⟩
  | initialized resolves valueTyped converts =>
    obtain ⟨larger, within, typeListed, readyRest⟩ := ready.resolve listed resolves
    have foundListed := Ty.Listed.within within _ (valueTyped.listed listed)
    exact ⟨.initialized resolves (.strengthen strengthens listed _ valueTyped)
        (strengthens foundListed typeListed converts), larger, within, typeListed, readyRest⟩
  | inferred valueTyped hasValue =>
    exact ⟨.inferred (.strengthen strengthens listed _ valueTyped) hasValue,
      catalog, .refl, valueTyped.listed listed, ready.right⟩

end Expressions

-- Blocks hand `strengthens` on to their items only.
set_option linter.unusedSectionVars false in
mutual

theorem StatementTyped.strengthen :
    (statement : Statement) → {ctx : Context} → {catalog : Catalog} →
      ctx.Listed catalog → res.Listed catalog → Ready catalog known statement.writings →
      statement.hidesNoRecord known = true → StatementTyped Converts res ctx statement →
      StatementTyped Stronger res ctx statement
  | .assign _ place val, _, catalog, listed, _, _, _,
      .assign isPlace placeTyped valueTyped converts =>
    .assign isPlace (.strengthen strengthens listed place placeTyped)
      (.strengthen strengthens listed val valueTyped)
      (strengthens (valueTyped.listed listed) (placeTyped.listed listed) converts)
  | .call _ _ _, _, _, listed, _, _, _, .call callTyped =>
    .call (.strengthen strengthens listed _ callTyped)
  | .branch _ test consequent none, _, catalog, listed, resListed, ready, hidesNone,
      .branch testTyped converts consequentTyped _ =>
    .branch (.strengthen strengthens listed test testTyped)
      (strengthens (testTyped.listed listed) trivial converts)
      (.strengthen consequent listed resListed ready hidesNone consequentTyped)
      (by simp)
  | .branch _ test consequent (some alternative), _, catalog, listed, resListed, ready,
      hidesNone, .branch testTyped converts consequentTyped alternativeTyped => by
    rw [Statement.hidesNoRecord, Bool.and_eq_true] at hidesNone
    refine .branch (.strengthen strengthens listed test testTyped)
      (strengthens (testTyped.listed listed) trivial converts)
      (.strengthen consequent listed resListed ready.left hidesNone.1 consequentTyped) ?_
    rintro _ ⟨⟩
    exact .strengthen alternative listed resListed ready.right hidesNone.2 (alternativeTyped _ rfl)
  | .whileLoop _ test body, _, catalog, listed, resListed, ready, hidesNone,
      .whileLoop testTyped converts bodyTyped =>
    .whileLoop (.strengthen strengthens listed test testTyped)
      (strengthens (testTyped.listed listed) trivial converts)
      (.strengthen body listed resListed ready hidesNone bodyTyped)
  | .rangeLoop _ iter first last _ body, _, catalog, listed, resListed, ready, hidesNone,
      .rangeLoop firstTyped firstConverts lastTyped lastConverts bodyTyped =>
    .rangeLoop (.strengthen strengthens listed first firstTyped)
      (strengthens (firstTyped.listed listed) trivial firstConverts)
      (.strengthen strengthens listed last lastTyped)
      (strengthens (lastTyped.listed listed) trivial lastConverts)
      (BlockTyped.strengthen body (listed.define trivial) resListed ready hidesNone bodyTyped)
  | .arrayLoop _ iter array _ body, _, catalog, listed, resListed, ready, hidesNone,
      .arrayLoop arrayTyped bodyTyped =>
    .arrayLoop (.strengthen strengthens listed array arrayTyped)
      (.strengthen body (listed.define (arrayTyped.listed listed)) resListed ready
        hidesNone bodyTyped)
  | .giveBack _ none, _, _, _, _, _, _, .giveBackNothing isVoid => .giveBackNothing isVoid
  | .giveBack _ (some val), _, catalog, listed, resListed, _, _,
      .giveBack hasResult valueTyped converts =>
    .giveBack hasResult (.strengthen strengthens listed val valueTyped)
      (strengthens (valueTyped.listed listed) resListed converts)
  | .print _ items, _, _, listed, _, _, _, .print itemsTyped => by
    refine .print fun item mem => ?_
    obtain ⟨type, itemTyped, hasValue, isScalar⟩ := itemsTyped item mem
    exact ⟨type, .strengthen strengthens listed item itemTyped, hasValue, isScalar⟩
  | .empty _, _, _, _, _, _, _, .empty => .empty
  | .block _ inner, _, _, listed, resListed, ready, hidesNone, .block innerTyped =>
    .block (.strengthen inner listed resListed ready hidesNone innerTyped)

theorem BlockTyped.strengthen : (block : Block) → {ctx : Context} → {catalog : Catalog} →
      ctx.Listed catalog → res.Listed catalog → Ready catalog known block.writings →
      block.hidesNoRecord known = true → BlockTyped Converts res ctx block →
      BlockTyped Stronger res ctx block
  | .mk _ items, _, _, listed, resListed, ready, hidesNone, .mk itemsTyped =>
    .mk (.strengthen items listed resListed ready hidesNone itemsTyped)

theorem ItemsTyped.strengthen : (items : List Item) → {known : List String} → {ctx : Context} →
    {catalog : Catalog} →
      ctx.Listed catalog → res.Listed catalog → Ready catalog known (Block.itemWritings items) →
      Block.itemsHideNoRecord known items = true → ItemsTyped Converts res ctx items →
      ItemsTyped Stronger res ctx items
  | [], _, _, _, _, _, _, _, .nil => .nil
  | .declaration (.var decl) :: rest, _, _, _, listed, resListed, ready, hidesNone,
      .var declTyped restTyped => by
    obtain ⟨declTyped, larger, within, typeListed, readyRest⟩ :=
      declTyped.strengthen strengthens listed ready
    exact .var declTyped
      (.strengthen rest ((listed.within within).define typeListed)
        (.within within _ resListed) readyRest hidesNone restTyped)
  | .declaration (.type decl) :: rest, known, _, _, listed, resListed, ready, hidesNone,
      .type resolves restTyped => by
    rw [Block.itemsHideNoRecord, Bool.and_eq_true] at hidesNone
    obtain ⟨larger, within, typeListed, readyRest⟩ := ready.declare listed resolves
      (by simpa using hidesNone.1)
    exact .type resolves
      (.strengthen rest ((listed.within within).define typeListed)
        (.within within _ resListed) readyRest hidesNone.2 restTyped)
  | .statement first :: rest, _, _, _, listed, resListed, ready, hidesNone,
      .statement firstTyped restTyped => by
    rw [Block.itemsHideNoRecord, Bool.and_eq_true] at hidesNone
    exact .statement
      (.strengthen first listed resListed ready.left hidesNone.1 firstTyped)
      (.strengthen rest listed resListed ready.right hidesNone.2 restTyped)

end

theorem BodyTyped.strengthen (listed : ctx.Listed catalog) (resListed : res.Listed catalog)
    (ready : Ready catalog known (Body.writings? (some body)))
    (hidesNone : body.hidesNoRecord known = true) (typed : BodyTyped Converts ctx res body) :
    BodyTyped Stronger ctx res body := by
  cases typed with
  | discarded valueTyped isVoid =>
    exact .discarded (.strengthen strengthens listed _ valueTyped) isVoid
  | expression valueTyped hasResult converts =>
    exact .expression (.strengthen strengthens listed _ valueTyped) hasResult
      (strengthens (valueTyped.listed listed) resListed converts)
  | block innerTyped =>
    exact .block (.strengthen strengthens _ listed resListed ready hidesNone innerTyped)

theorem RoutineTyped.strengthen (listed : ctx.Listed catalog)
    (ready : Ready catalog known (Body.writings? routine.body))
    (hidesNone : (routine.body.all fun body => body.hidesNoRecord known) = true)
    (typed : RoutineTyped Converts ctx routine) : RoutineTyped Stronger ctx routine := by
  cases typed with
  | forward noBody => exact .forward noBody
  | defined hasBody declared bodyTyped =>
    have sigListed := listed routine.name _ declared
    rw [hasBody] at ready hidesNone
    exact .defined hasBody declared
      (bodyTyped.strengthen strengthens (listed.defineAll sigListed.1) sigListed.2 ready hidesNone)

end Strengthening

theorem Ready.parameters
    (every : List.Forall₂ (fun (param : Parameter) (entry : String × Ty) => entry.1 = param.name ∧
      Resolves ctx none param.type entry.2) written declared)
    (listed : ctx.Listed catalog)
    (ready : Ready catalog known (written.flatMap (·.type.writings) ++ rest)) :
    ∃ larger, catalog.Within larger ∧ (∀ entry ∈ declared, entry.2.Listed larger) ∧
      Ready larger known rest := by
  induction every generalizing catalog with
  | nil => exact ⟨catalog, .refl, by simp, ready⟩
  | cons entry _ ih =>
    rw [flatMap_cons, append_assoc] at ready
    obtain ⟨mid, within, typeListed, readyRest⟩ := ready.resolve listed entry.2
    obtain ⟨larger, restWithin, restListed, readyLast⟩ := ih (listed.within within) readyRest
    refine ⟨larger, within.trans restWithin, ?_, readyLast⟩
    intro declared mem
    rcases mem_cons.mp mem with rfl | later
    · exact .within restWithin _ typeListed
    · exact restListed declared later

theorem Declares.listed (declares : Declares ctx routine sig) (listed : ctx.Listed catalog)
    (ready : Ready catalog known (routine.signatureWritings ++ rest)) :
    ∃ larger, catalog.Within larger ∧ (Symbol.routine sig).Listed larger ∧
      Ready larger known rest := by
  rw [Routine.signatureWritings, append_assoc] at ready
  obtain ⟨mid, within, paramsListed, readyRes⟩ := Ready.parameters declares.parameters listed ready
  cases given : routine.result with
  | none =>
    rw [given] at readyRes
    refine ⟨mid, within, ⟨paramsListed, ?_⟩, readyRes⟩
    rw [declares.noResult given]
    trivial
  | some written =>
    rw [given] at readyRes
    obtain ⟨larger, restWithin, resListed, readyRest⟩ :=
      readyRes.resolve (listed.within within) (declares.result written given)
    exact ⟨larger, within.trans restWithin,
      ⟨fun param mem => .within restWithin _ (paramsListed param mem), resListed⟩, readyRest⟩

def declaredWritings : Declaration → List Writing
  | .var _ => []
  | .type decl => decl.writings
  | .routine inner => inner.signatureWritings

def checkedWritings : Declaration → List Writing
  | .var decl => decl.writings
  | .type _ => []
  | .routine inner => Body.writings? inner.body

theorem Ready.of_subset (ready : Ready catalog known writings) (subset : known ⊆ more) :
    Ready catalog more writings where
  covers name fields found := (ready.covers name fields found).imp_left (@subset name)
  free := ready.free
  apart := ready.apart

theorem eq_name_of_mem_recordNames (mem : name ∈ recordNames decl) : name = decl.name := by
  unfold recordNames at mem
  split at mem
  · exact mem_singleton.mp mem
  · cases mem

def AreTypes (ctx : Context) (names : List String) : Prop :=
  ∀ name ∈ names, ∃ type, ctx name = some (.type type)

theorem AreTypes.define (areTys : AreTypes ctx names)
    (notType : ∀ type, ctx name ≠ some (.type type)) :
    AreTypes (Context.define name sym ctx) names := by
  intro other mem
  obtain ⟨type, found⟩ := areTys other mem
  refine ⟨type, Context.define_eq_some.mpr (.inr ⟨?_, found⟩)⟩
  rintro rfl
  exact notType type found

theorem Declared.listed (declared : Declared ctx decls final) (listed : ctx.Listed catalog)
    (ready : Ready catalog known (decls.flatMap declaredWritings ++ rest))
    (areTys : AreTypes ctx known) :
    ∃ larger, final.Listed larger ∧
      Ready larger (known ++ decls.flatMap Declaration.recordNames) rest := by
  induction declared generalizing catalog known with
  | nil => exact ⟨catalog, listed, ready.of_subset (by simp)⟩
  | var _ ih => exact ih listed ready areTys
  | @type ctx _ decl type _ fresh resolves _ ih =>
    rw [flatMap_cons, append_assoc] at ready
    have notType (meaning : Ty) : ctx decl.name ≠ some (.type meaning) := by
      rw [fresh]
      exact (Option.some_ne_none _).symm
    have notKnown : ∀ name ∈ recordNames decl, name ∉ known := by
      intro name isName isKnown
      obtain ⟨meaning, found⟩ := areTys name isKnown
      rw [eq_name_of_mem_recordNames isName] at found
      exact notType meaning found
    have areStillTys : AreTypes (.define decl.name (.type type) ctx)
        (recordNames decl ++ known) := by
      intro name mem
      rcases mem_append.mp mem with isName | isKnown
      · rw [eq_name_of_mem_recordNames isName]
        exact ⟨type, Context.define_same⟩
      · exact areTys.define notType name isKnown
    obtain ⟨mid, within, typeListed, readyRest⟩ := ready.declare listed resolves notKnown
    obtain ⟨larger, finalListed, readyLast⟩ :=
      ih ((listed.within within).define typeListed) readyRest areStillTys
    refine ⟨larger, finalListed, readyLast.of_subset ?_⟩
    intro name mem
    simp only [mem_append, flatMap_cons, Declaration.recordNames] at mem ⊢
    rcases mem with (isName | isKnown) | later
    · exact .inr (.inl isName)
    · exact .inl isKnown
    · exact .inr (.inr later)
  | routine fresh declares _ ih =>
    rw [flatMap_cons, append_assoc] at ready
    obtain ⟨mid, within, sigListed, readyRest⟩ := declares.listed listed ready
    refine ih ((listed.within within).define sigListed) readyRest (areTys.define ?_)
    rw [fresh]
    exact fun _ => (Option.some_ne_none _).symm
  | repeated _ _ _ _ _ ih =>
    rw [flatMap_cons, append_assoc] at ready
    exact ih listed ready.right areTys
  | completed isRoutine _ declares _ _ _ ih =>
    rw [flatMap_cons, append_assoc] at ready
    obtain ⟨mid, within, sigListed, readyRest⟩ := declares.listed listed ready
    refine ih ((listed.within within).define sigListed) readyRest (areTys.define ?_)
    rw [isRoutine]
    intro meaning isType
    cases isType

theorem Checked.strengthen (strengthens : Strengthens Converts Stronger)
    (checked : Checked Converts (RoutineTyped Converts) ctx decls final)
    (listed : ctx.Listed catalog) (ready : Ready catalog known (decls.flatMap checkedWritings))
    (hidesNone : ∀ routine, .routine routine ∈ decls →
      (routine.body.all fun body => body.hidesNoRecord known) = true) :
    Checked Stronger (RoutineTyped Stronger) ctx decls final := by
  induction checked generalizing catalog with
  | nil => exact .nil
  | var fresh declTyped _ ih =>
    obtain ⟨declTyped, larger, within, typeListed, readyRest⟩ :=
      declTyped.strengthen strengthens listed ready
    exact .var fresh declTyped
      (ih ((listed.within within).define typeListed) readyRest
        fun routine mem => hidesNone routine (by simp [mem]))
  | type _ ih => exact .type (ih listed ready fun routine mem => hidesNone routine (by simp [mem]))
  | @routine _ _ routine _ routineTyped _ ih =>
    exact .routine (routineTyped.strengthen strengthens listed ready.left
      (hidesNone routine (by simp)))
      (ih listed ready.right fun routine mem => hidesNone routine (by simp [mem]))

theorem Apart.perm (apart : Writing.Apart first) (perm : first.Perm second) :
    Writing.Apart second where
  records := (perm.filterMap _).nodup_iff.mp apart.records
  names name written := apart.names name (perm.mem_iff.mpr written)

end Typing

open Typing in
/-- A well-typed program is so with every stronger notion of conversion on listed types. -/
theorem Program.WellTyped.strengthen (strengthens : Strengthens Converts Stronger)
    {program : Program}
    (apart : Writing.Apart program.writings) (hidesNone : program.HidesNoRecord)
    (wellTyped : program.WellTyped Converts) : program.WellTyped Stronger := by
  obtain ⟨ctx, final, declared, checked⟩ := wellTyped
  have inTwoPasses : Declaration.writings =
      fun declaration => declaredWritings declaration ++ checkedWritings declaration := by
    funext declaration
    cases declaration <;> simp [Declaration.writings, declaredWritings, checkedWritings]
  rw [Program.writings, inTwoPasses] at apart
  have ready := Ready.empty (Apart.perm apart (flatMap_append_perm _ _ _).symm)
  obtain ⟨catalog, listed, readyChecked⟩ :=
    declared.listed Context.basic_listed ready (by simp [AreTypes])
  refine ⟨ctx, final, declared, checked.strengthen strengthens listed readyChecked ?_⟩
  intro routine mem
  exact hidesNone routine (Program.mem_routines.mpr mem)

end Imperative
