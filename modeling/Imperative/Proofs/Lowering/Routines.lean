import Imperative.Proofs.Lowering.Globals

/-!
# The code of routines is typed

The function for a routine computes deferred values first, if it is the entry point, then sets up
its parameters and goes on with its body.
-/

namespace Imperative.Wasm.Module

/-- The table has each type of the module with its index, and nothing else. -/
def Indexed (module : Module) : Prop :=
  ∀ type index, module.typeLookup.lookup type = some index ↔ module.types[index]? = some type

theorem empty_indexed : empty.Indexed := fun _ _ => ⟨nofun, nofun⟩

theorem Indexed.concat {module : Module} {type : FuncType} (indexed : module.Indexed)
    (notFound : module.typeLookup.lookup type = none) :
    Indexed
      { module with
        types := module.types ++ [type]
        typeLookup := (type, module.types.length) :: module.typeLookup } := by
  intro other index
  by_cases isNew : other = type
  · subst isNew
    have absent : module.types[index]? ≠ some other := fun found =>
      nomatch notFound.symm.trans ((indexed other index).mpr found)
    grind
  · have kept := indexed other index
    grind

/-- No type is in a module twice, since the table has one index for it. -/
theorem Indexed.nodup {module : Module} (indexed : module.Indexed) : module.types.Nodup := by
  refine List.pairwise_iff_getElem.mpr fun first second isFirst isSecond before same => ?_
  have atFirst := (indexed _ first).mpr (List.getElem?_eq_getElem isFirst)
  have atSecond := (indexed _ second).mpr (List.getElem?_eq_getElem isSecond)
  rw [same, atSecond] at atFirst
  exact absurd (Option.some.inj atFirst) (Nat.ne_of_gt before)

end Imperative.Wasm.Module

namespace Imperative.Lowering

open List

open Typing (BodyTyped HasType Returnable)
open Wasm (Code Context FuncType Function Global Instruction Module ValueType)

variable {index : Nat}

section Routines

theorem Situated.of_within (situated : Situated ctx given names env)
    (within : earlier.Within names) : Situated ctx given earlier env :=
  { situated with
    proper := fun name sym known => situated.proper name sym (within name sym known)
    agrees := situated.agrees.of_within within }

theorem computeDeferred_builds (situated : Situated ctx given names env)
    (sameGlobals : given → ctx.globals = globals)
    (deferredTyped : ∀ val ∈ deferred, val.Typed names globals) :
    CodeBuilds ctx given (computeDeferred env deferred) [] [] := by
  induction deferred with
  | nil => exact .pure trivial fun _ => .nil
  | cons first rest ih =>
    have restBuilds := ih fun val mem => deferredTyped val (by simp [mem])
    have firstTyped := deferredTyped first (by simp)
    cases first with
    | scalar val type index =>
      obtain ⟨⟨earlier, found, within, valueTyped, converts⟩, typeProper, holds⟩ := firstTyped
      have pre := situated.of_within within
      apply (expression_builds pre valueTyped).bind
      rintro ⟨code, _⟩ rfl
      apply (restBuilds.of_less (·.1)).bind
      intro others _
      refine .pure trivial fun ⟨⟨isGiven, turns⟩, othersTurn⟩ => ?_
      obtain ⟨global, isGlobal, mutable, isType⟩ := holds
      rw [← sameGlobals isGiven] at isGlobal
      have leaves := turns_converted pre.proper valueTyped converts typeProper turns
      rw [representation_of_valueType isType] at leaves
      exact leaves.append ((turns_globalSet isGlobal mutable).cons othersTurn)
    | aggregate val type addr =>
      obtain ⟨⟨earlier, found, within, valueTyped, converts⟩, typeProper, isAggregate⟩ := firstTyped
      have pre := situated.of_within within
      apply (expression_builds pre valueTyped).bind
      rintro ⟨code, _⟩ rfl
      apply (copyAggregate_builds typeProper).bind
      intro copy _
      apply (restBuilds.of_less (·.1.1)).bind
      intro others _
      refine .pure trivial fun ⟨⟨⟨_, turns⟩, copies⟩, othersTurn⟩ => ?_
      have leaves := turns_converted pre.proper valueTyped converts typeProper turns
      rw [coerce_of_aggregate isAggregate, append_nil,
        representation_of_aggregate isAggregate] at leaves
      exact (((turns_word addr).cons (leaves.above [.i32])).append copies).append othersTurn

theorem parameterStorage_builds {span : Span} (proper : type.Proper)
    (isLocal : given → ctx.locals[index]? = valueType? type) :
    Builds ctx given (parameterStorage span index type)
      (fun result => result.2.isDirect = true → type.isAggregate = false)
      fun result => Turns ctx result.1 [] [] ∧
        Variable.Placed ctx { type, storage := result.2 } := by
  obtain ⟨valueType, isType⟩ := exists_valueType proper
  unfold parameterStorage
  split
  · exact Builds.pure nofun fun isGiven => ⟨.nil, isLocal isGiven⟩
  · apply Builds.ite
    · intro isAggregate
      apply (reserve_builds span proper).bind
      intro addr _
      apply (inFrame_builds (initializeAggregate_builds proper isAggregate ?_)).bind
      · intro code _
        exact Builds.pure nofun fun ⟨_, turns⟩ => ⟨turns, trivial⟩
      · rintro ⟨isGiven, -⟩ _ _ ⟨⟩
        rw [representation_of_valueType isType, coerce_of_aggregate isAggregate]
        exact turns_localGet ((isLocal isGiven).trans isType)
    · intro notAggregate
      refine .pure (fun _ => by simpa using notAggregate) fun isGiven => ⟨.nil, ?_⟩
      exact ⟨valueType, isType, (isLocal isGiven).trans isType⟩

theorem bindParameters_builds (situated : Situated ctx given names env)
    (paramsProper : ∀ param ∈ params, param.2.Proper)
    (areLocals : given → ∀ (pos : Nat) (param : Parameter × Ty),
      params[pos]? = some param → ctx.locals[index + pos]? = valueType? param.2) :
    Builds ctx given (bindParameters env index params)
      (fun result =>
        Agrees (names.defineAll (params.map fun param => (param.1.name, param.2)))
          result.2 ∧ result.2.result = env.result)
      fun result => Turns ctx result.1 [] [] ∧ result.2.Placed ctx := by
  induction params generalizing given names env index with
  | nil => exact .pure ⟨situated.agrees, rfl⟩ fun isGiven => ⟨.nil, situated.placed isGiven⟩
  | cons first rest ih =>
    obtain ⟨param, type⟩ := first
    have typeProper : type.Proper := paramsProper (param, type) (by simp)
    apply (parameterStorage_builds typeProper fun isGiven => areLocals isGiven 0 _ rfl).bind
    rintro ⟨code, storage⟩ direct
    have inner := situated.defineVariable typeProper direct
      fun (isGiven : given ∧ Turns ctx code [] [] ∧ Variable.Placed ctx { type, storage }) =>
        (situated.placed isGiven.1).defineVariable param.name isGiven.2.2
    apply (ih inner (fun other mem => paramsProper other (by simp [mem])) ?_).bind
    · rintro ⟨others, final⟩ ⟨agrees, sameRes⟩
      refine .pure ⟨agrees, sameRes⟩ fun ⟨⟨_, turns, _⟩, othersTurn, placed⟩ => ?_
      exact ⟨turns.append othersTurn, placed⟩
    · intro isGiven pos other found
      rw [Nat.add_right_comm, Nat.add_assoc]
      exact areLocals isGiven.1 (pos + 1) other found

theorem bodyCode_builds (situated : Situated ctx given names env)
    (bodyTyped : BodyTyped Assignable names env.result body) :
    CodeBuilds ctx given (bodyCode env body) [] (representation env.result) := by
  have nothing (isVoid : env.result.isVoid = true) : representation env.result = [] := by
    revert isVoid
    cases env.result <;> simp [Ty.isVoid, representation, valueType?]
  cases bodyTyped with
  | discarded valueTyped isVoid =>
    apply (inFrame_builds (expression_builds situated valueTyped)).bind
    rintro ⟨code, _⟩ rfl
    refine .pure trivial fun built => ?_
    obtain ⟨-, turns⟩ := built
    rw [if_pos isVoid, nothing isVoid]
    exact turns.append turns_discard
  | expression valueTyped hasResult converts =>
    have resProper := situated.returnable.proper hasResult
    apply (inFrame_builds (expression_builds situated valueTyped)).bind
    rintro ⟨code, _⟩ rfl
    refine .pure trivial fun built => ?_
    obtain ⟨-, turns⟩ := built
    simp only [hasResult, Bool.false_eq_true, if_false]
    exact turns_converted situated.proper valueTyped converts resProper turns
  | block innerTyped =>
    apply (block_builds situated _ innerTyped).bind
    intro code _
    refine .pure trivial fun built => ?_
    obtain ⟨-, turns⟩ := built
    split
    · next isVoid =>
      rw [nothing isVoid]
      exact turns
    · refine turns.append fun deeper => ?_
      simp [Instruction.Typed]

theorem routineCode_builds (situated : Situated ctx given names env)
    (sameGlobals : given → ctx.globals = globals)
    (deferredTyped : ∀ val ∈ deferred, val.Typed names globals) {earlier : Typing.Context}
    (within : earlier.Within names) (paramsProper : ∀ param ∈ params, param.2.Proper)
    (areLocals : given → ∀ (pos : Nat) (param : Parameter × Ty), params[pos]? = some param →
      ctx.locals[pos]? = valueType? param.2)
    (bodyTyped : BodyTyped Assignable
      (earlier.defineAll (params.map fun param => (param.1.name, param.2))) env.result body) :
    CodeBuilds ctx given (routineCode env deferred params body) [] (representation env.result) := by
  have pre := situated.of_within within
  apply (inFrame_builds (computeDeferred_builds situated sameGlobals deferredTyped)).bind
  intro first _
  apply ((bindParameters_builds pre paramsProper
    (fun isGiven pos param found => by
      rw [Nat.zero_add]
      exact areLocals isGiven pos param found)).of_less (·.1)).bind
  rintro ⟨setup, inner⟩ ⟨agrees, sameRes⟩
  have properInside : (earlier.defineAll
      (params.map fun param => (param.1.name, param.2))).Proper := by
    apply pre.proper.defineAll
    intro entry mem
    obtain ⟨param, isParam, rfl⟩ := mem_map.mp mem
    exact paramsProper param isParam
  rw [← sameRes] at bodyTyped
  have returnable : Returnable inner.result := sameRes ▸ situated.returnable
  apply (bodyCode_builds ⟨properInside, agrees, returnable, fun isGiven => isGiven.2.2⟩
    bodyTyped).bind
  intro code _
  refine .pure trivial fun ⟨⟨⟨_, firstTurns⟩, setupTurns, _⟩, turns⟩ => ?_
  rw [sameRes] at turns
  exact (firstTurns.append setupTurns).append turns

end Routines

theorem functionType_meets (paramsProper : ∀ param ∈ params, param.2.Proper) :
    Meets (functionType params result) fun type =>
      type = { parameters := (params.map Prod.snd).filterMap valueType?
               results := representation result } := by
  have valueTypes : Meets (params.mapM fun entry => scalarType entry.1.span entry.2)
      fun types => types = (params.map Prod.snd).filterMap valueType? := by
    induction params with
    | nil => exact .pure rfl
    | cons first rest ih =>
      rw [mapM_cons]
      apply (scalarType_meets (paramsProper first (by simp))).bind
      intro valueType isType
      apply (ih fun other mem => paramsProper other (by simp [mem])).bind
      rintro _ rfl
      exact Meets.pure (by simp [isType])
  apply valueTypes.bind
  rintro _ rfl
  exact .pure rfl

theorem intern_found {module : Module} (indexed : module.Indexed) (type : FuncType) :
    (module.intern type).2.types[(module.intern type).1]? = some type := by
  unfold Module.intern
  split
  · next index found => exact (indexed type index).mp found
  · simp

/-- The second module has the types of the first, perhaps more, and the same surroundings. -/
structure Extends (pre post : Module) : Prop where
  types : pre.types <+: post.types
  imports : post.imports = pre.imports
  globals : post.globals = pre.globals
  indexed : pre.Indexed → post.Indexed

theorem Extends.refl : Extends module module := ⟨prefix_rfl, rfl, rfl, id⟩

theorem Extends.trans (extended : Extends first second) (further : Extends second third) :
    Extends first third where
  types := extended.types.trans further.types
  imports := further.imports.trans extended.imports
  globals := further.globals.trans extended.globals
  indexed := further.indexed ∘ extended.indexed

theorem getElem?_of_prefix (extended : types <+: more)
    (found : types[index]? = some type) : more[index]? = some type := by
  obtain ⟨inBounds, rfl⟩ := List.getElem?_eq_some_iff.mp found
  exact prefix_iff_getElem?.mp extended index inBounds

theorem Extends.type? (extended : Extends pre post)
    (found : pre.types[index]? = some type) : post.types[index]? = some type :=
  getElem?_of_prefix extended.types found

theorem intern_extends (type : FuncType) (module : Module) :
    Extends module (module.intern type).2 := by
  unfold Module.intern
  split
  · exact .refl
  · next notFound => exact ⟨prefix_append _ _, rfl, rfl, fun indexed => indexed.concat notFound⟩

theorem addImport_indexed {module : Module} (indexed : module.Indexed) (type : FuncType) :
    (module.addImport source name type).2.Indexed :=
  (intern_extends type module).indexed indexed

theorem intern_functions (type : FuncType) (module : Module) :
    (module.intern type).2.functions = module.functions := by
  unfold Module.intern
  split <;> rfl

end Imperative.Lowering
