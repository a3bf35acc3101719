import Imperative.Proofs.Lowering.Calls
import Imperative.Proofs.Lowering.TypeAgreement
import Imperative.Proofs.Lowering.Unused
import Imperative.Proofs.Typing.WellFormed

/-!
# Environments with well-formed types

Every environment that lowering comes to holds well-formed types, also if lowering fails later on.
-/

namespace Imperative.Lowering

open Typing (resolve_wellFormed)

/-- Every type in the environment is well formed. -/
abbrev Environment.WellFormed : Environment → Prop :=
  Environment.Each (fun entry => entry.type.WellFormed) Ty.WellFormed
    fun info => ∀ type ∈ info.result :: info.parameters, type.WellFormed

theorem Environment.WellFormed.resolve {env : Environment} (wellFormed : env.WellFormed)
    (hint : Option String) (written : TypeExpr) : (env.resolve hint written).WellFormed :=
  resolve_wellFormed (fun _ _ found => wellFormed.types _ (mem_of_lookup found)) hint written

theorem type_of_base {found : Operand} (isOk : found.base span = .ok res) : res.2 = found.type := by
  match found with
  | .value _ => cases isOk; rfl
  | .place (.memory _) _ =>
    rw [Operand.base] at isOk
    split at isOk <;> cases isOk
    rfl
  | .place (.slot _) _ | .place (.global _) _ => cases isOk

theorem type_of_loaded (isOk : loaded span emitted = .ok res) : res.2 = emitted.2.type := by
  obtain ⟨⟨code, type⟩, isLoad, isPure⟩ := except_bind_ok.mp isOk
  cases isPure
  match found : emitted.2, isLoad with
  | .value _, isLoad | .place (.slot _) _, isLoad | .place (.global _) _, isLoad =>
    cases isLoad
    rfl
  | .place (.memory _) _, isLoad =>
    rw [Operand.load] at isLoad
    split at isLoad
    · cases isLoad
      rfl
    · obtain ⟨_, -, isPure⟩ := except_bind_ok.mp isLoad
      cases isPure
      rfl

theorem mem_of_fieldFrom (isOk : fieldFrom record field offset fields = .ok res) :
    (field, res.2) ∈ fields := by
  induction fields generalizing offset with
  | nil => cases isOk
  | cons entry rest ih =>
    rw [fieldFrom] at isOk
    obtain ⟨start, -, found⟩ := except_bind_ok.mp isOk
    split at found
    · next same =>
      cases found
      exact same ▸ List.mem_cons_self
    · obtain ⟨_, -, later⟩ := except_bind_ok.mp found
      obtain ⟨_, -, later⟩ := except_bind_ok.mp later
      exact List.mem_cons_of_mem _ (ih later)

theorem wellFormed_of_fieldPlace (wellFormed : type.WellFormed)
    (isOk : fieldPlace span offset type field = .ok place) : place.type.WellFormed := by
  cases type with
  | record =>
    obtain ⟨res, isField, isPure⟩ := except_bind_ok.mp isOk
    cases isPure
    exact wellFormed.field (mem_of_fieldFrom (locating_ok.mp isField))
  | integer | real | boolean | void | error | array => cases isOk

theorem wellFormed_of_elementOf (wellFormed : type.WellFormed)
    (isOk : elementOf span type = .ok element) : element.WellFormed := by
  cases type <;> cases isOk
  exact wellFormed.element

theorem binaryOperation_scalar :
    Grants (binaryOperation op left right) fun res => res.2.isAggregate = false := by
  refine .ite (fun _ => .pure rfl) fun _ =>
    .ite (fun _ => .skip fun _ => .pure ?_) fun _ => .pure ?_
  · split <;> rfl
  · split <;> rfl

theorem loaded_grants {step : Emit (Wasm.Code × Operand)} {change : Wasm.Code × Ty → Wasm.Code}
    (grants : Grants step fun res => res.2.type.WellFormed) :
    Grants (step >>= fun found => liftM (loaded span found) >>= fun result =>
      pure (change result, .value result.2)) fun res : Wasm.Code × Operand =>
        res.2.type.WellFormed := by
  refine grants.bind fun found ofFound => ?_
  refine .compute fun result isLoaded => ?_
  exact .pure (type_of_loaded isLoaded ▸ ofFound)

section Expressions

variable {env : Environment} (wellFormed : env.WellFormed)
include wellFormed

theorem operand_grants : (tree : Expr) → Grants (operand env tree) fun res => res.2.type.WellFormed
  | .integer _ _ => .skip fun _ => .pure (.scalar rfl)
  | .real _ _ | .boolean _ _ => .pure (.scalar rfl)
  | .name _ _ => .lift fun _ isOk => by
    unfold variableOperand at isOk
    split at isOk
    · cases isOk
    · next found =>
      have ofVariable := wellFormed.scope _ (mem_of_lookup found)
      split at isOk <;> cases isOk <;> exact ofVariable
  | .field _ recv _ => by
    refine (operand_grants recv).bind fun base ofRecv => ?_
    refine .compute fun place isBase => ?_
    refine .compute fun found isField => ?_
    exact .pure (wellFormed_of_fieldPlace (type_of_base isBase ▸ ofRecv) isField)
  | .index _ recv _ => by
    refine (operand_grants recv).bind fun base ofRecv => ?_
    refine .compute fun place isBase => ?_
    refine .compute fun element isElement => ?_
    -- Neither the index nor the temporaries matter to the type of the element.
    iterate 7 refine .skip fun _ => ?_
    exact .pure (wellFormed_of_elementOf (type_of_base isBase ▸ ofRecv) isElement)
  | .call _ _ args => by
    refine .compute fun callee isCallee => ?_
    have known := mem_of_lookup (callee_ok isCallee).1
    exact .skip fun _ => .pure (wellFormed.routines _ known _ List.mem_cons_self)
  | .unary _ .plus inner => loaded_grants (operand_grants inner)
  | .unary _ .not inner => .skip fun _ => .skip fun _ => .pure (.scalar rfl)
  | .unary span .minus inner => by
    have innerGrants := operand_grants inner
    rcases minus_cases env span inner with ⟨place, val, rfl⟩ | isMinus
    · exact .skip fun _ => .pure (.scalar rfl)
    · rw [isMinus]
      exact loaded_grants innerGrants
  | .binary _ op left right => by
    -- The operands and their codes do not matter, since every operator gives a scalar.
    iterate 4 refine .skip fun _ => ?_
    refine binaryOperation_scalar.bind fun result isScalar => ?_
    exact .pure (.scalar isScalar)

theorem expression_grants : Grants (expression env tree) fun res => res.2.WellFormed := by
  refine (operand_grants wellFormed tree).bind fun found ofTree => ?_
  exact .lift fun _ isOk => type_of_loaded isOk ▸ ofTree

theorem arraySetup_grants :
    Grants (arraySetup env array dir) fun res => res.element.WellFormed := by
  refine (expression_grants wellFormed).bind fun (code, type) ofArray => ?_
  refine .compute fun element isElement => ?_
  have ofElement : element.WellFormed := by
    cases type <;> cases isElement
    exact ofArray.element
  iterate 5 refine .skip fun _ => ?_
  exact .pure ofElement

theorem declareLocal_grants : Grants (declareLocal env decl) fun res => res.2.WellFormed := by
  have ofInit : Grants (initialValue env decl.initial)
      fun val => ∀ pair ∈ val, pair.2.WellFormed := by
    cases decl.initial with
    | none => exact .pure (by simp)
    | some val =>
      exact (expression_grants wellFormed).bind fun _ ofVal => .pure (by rintro _ ⟨⟩; exact ofVal)
  intro pre res post isOk
  obtain ⟨val, type, storage, each, isType, same⟩ := declareLocal_defines ofInit pre res post isOk
  rw [same]
  apply wellFormed.defineVariable
  -- The type is the one that is written, or else that of the first value.
  unfold declaredType at isType
  split at isType
  · cases isType
    exact wellFormed.resolve _ _
  · next isInit =>
    obtain ⟨pair, isVal, rfl⟩ := Option.map_eq_some_iff.mp isInit
    cases isType
    exact each pair isVal
  · cases isType

end Expressions

theorem Lowers.wellFormed (lowers : Lowers site next) (wellFormed : site.1.WellFormed) :
    next.1.WellFormed := by
  cases lowers with
  | rangeBody => exact wellFormed.defineVariable (.scalar rfl)
  | arrayBody isSetUp =>
    exact wellFormed.defineVariable (arraySetup_grants wellFormed _ _ _ isSetUp)
  | afterVariable isDeclared => exact declareLocal_grants wellFormed _ _ _ isDeclared
  | afterType => exact wellFormed.defineType (wellFormed.resolve _ _)
  | _ => exact wellFormed

theorem defineTypes_wellFormed : (defineTypes .empty decls).WellFormed :=
  defineTypes_induct Environment.each_empty fun env _ _ (wellFormed : env.WellFormed) =>
    wellFormed.defineType (wellFormed.resolve _ _)

theorem registerRoutines_wellFormed (wellFormed : env.WellFormed) :
    (registerRoutines env next decls).WellFormed := by
  refine registerRoutines_induct wellFormed fun env routine index _ wellFormed => ?_
  apply wellFormed.registerRoutine
  refine List.forall_mem_cons.mpr ⟨?_, List.forall_mem_map.mpr fun _ _ => wellFormed.resolve _ _⟩
  unfold routineInfo
  cases routine.result with
  | none => exact .scalar rfl
  | some written => exact wellFormed.resolve none written

theorem globalType_wellFormed (wellFormed : env.WellFormed)
    (isOk : globalType env span name declared init = .ok type) : type.WellFormed := by
  unfold globalType at isOk
  split at isOk
  · cases isOk
    exact wellFormed.resolve _ _
  · obtain ⟨_, isExpr, isPure⟩ := except_bind_ok.mp isOk
    cases isPure
    exact expression_grants wellFormed _ _ _ isExpr
  · cases isOk

/-- An environment that lowering the program comes to, also if it fails later. -/
inductive Reaches (options : Options) (program : Program) : Environment → Prop
  | types (part : earlier <+: program.declarations) :
    Reaches options program (defineTypes .empty earlier)
  | routines (part : earlier <+: program.declarations) :
      Reaches options program (registerRoutines (defineTypes .empty program.declarations) 2 earlier)
  | globals (part : earlier <+: program.declarations)
      (isAdded : addGlobals (Globals.start program) earlier = .ok st) :
      Reaches options program st.environment
  | parameters (isAdded : addGlobals (Globals.start program) program.declarations = .ok st)
      (mem : .routine routine ∈ program.declarations) (hasBody : routine.body = some body)
      (registered : st.environment.routines.lookup routine.name = some info)
      (part : earlier <+: routine.parameters.zip info.parameters)
      (isBound : bindParameters { st.environment with result := info.result } 0 earlier workspace =
        .ok ((setup, extended), post)) : Reaches options program extended
  | site (starts : Starts options program start) (lowers :
    Relation.ReflTransGen Lowers start site) :
      Reaches options program site.1

theorem addGlobals_wellFormed (isAdded : addGlobals (Globals.start program) earlier = .ok st) :
    st.environment.WellFormed :=
  addGlobals_keeps (fun _ _ _ _ isType wellFormed =>
      wellFormed.defineVariable (globalType_wellFormed wellFormed isType))
    (registerRoutines_wellFormed defineTypes_wellFormed) isAdded

theorem bindParameters_wellFormed {env : Environment} {written : List Parameter}
    (wellFormed : env.WellFormed) (registered : env.routines.lookup name = some info)
    (part : params ⊆ written.zip info.parameters) :
    Grants (bindParameters { env with result } 0 params) fun res => res.2.WellFormed := by
  have each := (List.forall_mem_cons.mp (wellFormed.routines _ (mem_of_lookup registered))).2
  refine bindParameters_keeps (fun _ param _ mem holds => holds.defineVariable ?_)
    wellFormed.withResult
  exact each _ (List.of_mem_zip (part mem)).2

theorem Starts.wellFormed (starts : Starts options program site) : site.1.WellFormed := by
  cases starts with
  | inferred _ isAdded => exact addGlobals_wellFormed isAdded
  | deferred isAdded => exact (addGlobals_wellFormed isAdded).withResult
  | body isAdded _ _ registered isBound =>
    exact bindParameters_wellFormed (addGlobals_wellFormed isAdded) registered
      (List.Subset.refl _) _ _ _ isBound

theorem Reaches.wellFormed (reaches : Reaches options program env) : env.WellFormed := by
  cases reaches with
  | types => exact defineTypes_wellFormed
  | routines => exact registerRoutines_wellFormed defineTypes_wellFormed
  | globals _ isAdded => exact addGlobals_wellFormed isAdded
  | parameters isAdded _ _ registered part isBound =>
    exact bindParameters_wellFormed (addGlobals_wellFormed isAdded) registered part.subset _ _ _
      isBound
  | site starts lowers =>
    induction lowers with
    | refl => exact starts.wellFormed
    | tail _ last ih => exact last.wellFormed ih

/--
Whatever the program is and whatever is reported, every type that is resolved in a state that the
analysis passes through, or in an environment that lowering comes to, is well formed, and so is
every type that is stored there.
-/
theorem resolved_types_wellFormed (options : Options) (program : Program) :
    (∀ state, Typing.Passes program state →
      (∀ entry ∈ state.symbols.entries, ∀ type ∈ entry.2.types, type.WellFormed) ∧
        ∀ hint written, (Typing.resolve state.symbols.lookupType hint written).value.WellFormed) ∧
      ∀ env, Reaches options program env →
        env.WellFormed ∧ ∀ hint written, (env.resolve hint written).WellFormed :=
  ⟨fun _ passes => ⟨passes.wellFormed, passes.wellFormed.resolve⟩,
    fun _ reaches => ⟨reaches.wellFormed, reaches.wellFormed.resolve⟩⟩

/-- A record with two fields of the same name and with an array of no elements. -/
def malformedText : String :=
  "type P is record\nvar x : integer\nvar x : real\nvar a : array[0] real\nend\nvar p : P\n"

theorem malformedText_reported :
    ((Program.parse malformedText).value.analyze.diagnostics.map (·.message)) =
      ["Duplicate field 'x' in record", "Array size must be positive"] := by
  rw [@Program.parse_of_toList malformedText _ String.toList_ofList]
  decide +kernel

theorem resolved_types_of_malformedText :
    (Program.parse malformedText).value.analyze.diagnostics.map (·.message) =
      ["Duplicate field 'x' in record", "Array size must be positive"] ∧
      (Program.parse malformedText).value.analyze.symbols.WellFormed ∧
      (defineTypes .empty (Program.parse malformedText).value.declarations).WellFormed := by
  obtain ⟨ofAnalysis, ofLowering⟩ :=
    resolved_types_wellFormed Options.standard (Program.parse malformedText).value
  exact ⟨malformedText_reported, (ofAnalysis _ Typing.passes_analyze).1,
    (ofLowering _ (.types (List.prefix_refl _))).1⟩

end Imperative.Lowering
