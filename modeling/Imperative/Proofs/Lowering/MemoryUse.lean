import Imperative.Parser.Program
import Imperative.Proofs.Lowering.Unused
import Imperative.Proofs.Typing.Program

/-!
# Modules that use memory declare it

An aggregate is kept in memory that was reserved for it, with three exceptions: an array without a
size, the result of a call, and a record without fields.  Without these, code that loads or stores
comes with a memory.
-/

namespace Imperative.Lowering

open List

open Wasm (Dry Module)

variable {env : Environment}

/-- Whether the first value is that of a variable that is not an aggregate. -/
def Deferred.isScalar : Deferred → Bool
  | .scalar _ _ _ => true
  | .aggregate _ _ _ => false

section Routines

variable {env : Environment}

theorem computeDeferred_dry (flat : env.Flat) (scalar : ∀ val ∈ deferred, val.isScalar = true) :
    Grants (computeDeferred env deferred) Dry := by
  induction deferred with
  | nil => exact .pure rfl
  | cons first rest ih =>
    obtain ⟨firstScalar, restScalar⟩ := forall_mem_cons.mp scalar
    cases first with
    | aggregate => cases firstScalar
    | scalar val type index =>
      refine (expression_dry flat).bind ?_
      rintro ⟨code, found⟩ dry
      refine (ih restScalar).bind fun others othersDry => ?_
      exact .pure (by simp [dry.1, dry_coerce, othersDry])

theorem parameterStorage_whileUnused (span : Span) :
    WhileUnused (parameterStorage span index type) fun res =>
      type.isUnsized = false → Sized type →
        Dry res.1 ∧ type.isAggregate = false ∧ res.2.isDirect = true := by
  unfold parameterStorage
  split
  · exact .pure nofun
  · split
    · refine reserve_whileUnused.bind fun addr => ?_
      refine WhileUnused.anyInFrame.bind fun code => WhileUnused.pure ?_
      intro _ notSized _ sized
      exact absurd sized notSized
    · next scalar => exact .pure fun _ _ => ⟨rfl, by simpa using scalar, rfl⟩

theorem bindParameters_whileUnused (env : Environment) (index : Nat) :
    WhileUnused (bindParameters env index params) fun res =>
      env.Flat →
        (∀ param ∈ params, param.2.isUnsized = false ∧ Sized param.2) → Dry res.1 ∧ res.2.Flat := by
  induction params generalizing env index with
  | nil => exact .pure fun flat _ => ⟨rfl, flat⟩
  | cons first rest ih =>
    obtain ⟨param, type⟩ := first
    refine (parameterStorage_whileUnused param.span).bind ?_
    rintro ⟨code, storage⟩
    refine (ih _ (index + 1)).bind ?_
    rintro ⟨others, inner⟩
    refine .pure fun othersBound firstBound flat known => ?_
    obtain ⟨⟨isSized, sized⟩, restKnown⟩ := forall_mem_cons.mp known
    obtain ⟨dry, notAggregate, direct⟩ := firstBound isSized sized
    obtain ⟨othersDry, innerFlat⟩ :=
      othersBound (flat.defineVariable ⟨notAggregate, direct⟩) restKnown
    exact ⟨by simp [dry, othersDry], innerFlat⟩

theorem bodyCode_whileUnused :
    WhileUnused (bodyCode env body) fun code =>
      env.Flat → body.filled = true → Dry code := by
  cases body with
  | expression val =>
    refine (WhileUnused.inFrame fun flat => expression_dry flat).bind ?_
    rintro ⟨code, type⟩
    refine WhileUnused.pure fun dry flat _ => ?_
    split <;> simp [(dry flat).1, dry_discard, dry_coerce]
  | block inner =>
    refine (block_whileUnused env inner).bind fun code => WhileUnused.pure ?_
    intro dry flat filled
    split <;> simp [dry flat filled]

theorem routineCode_whileUnused :
    WhileUnused (routineCode env deferred params body) fun code =>
      env.Flat → (∀ val ∈ deferred, val.isScalar = true) →
        (∀ param ∈ params, param.2.isUnsized = false ∧ Sized param.2) →
        body.filled = true → Dry code := by
  refine (WhileUnused.inFrame fun given : env.Flat ∧
    ∀ val ∈ deferred, val.isScalar = true => computeDeferred_dry given.1 given.2).bind
      fun first => ?_
  refine (bindParameters_whileUnused env 0).bind ?_
  rintro ⟨setup, inner⟩
  refine bodyCode_whileUnused.bind fun code => WhileUnused.pure ?_
  intro bodyDry bound firstDry flat scalar known filled
  obtain ⟨setupDry, innerFlat⟩ := bound flat known
  simp [firstDry ⟨flat, scalar⟩, setupDry, bodyDry innerFlat filled]

end Routines

/-- No routine takes an array without a size or gives back an aggregate. -/
def sharesNothing (program : Program) : Bool :=
  let env := defineTypes Environment.empty program.declarations
  program.routines.all fun routine => (routineInfo env routine none).sharesNothing

/-- No variable of the program is an aggregate. -/
structure Globals.Flat (st : Globals) : Prop where
  environment : st.environment.Flat
  deferred : ∀ val ∈ st.deferred, val.isScalar = true

theorem Globals.Flat.start
    (filled : program.declarations.all Declaration.filled = true)
    (shares : sharesNothing program = true) : (Globals.start program).Flat where
  environment := by
    have allFilled := all_eq_true.mp filled
    have defined : (defineTypes .empty program.declarations).Flat :=
      defineTypes_induct Environment.each_empty fun env decl mem (flat : env.Flat) =>
        flat.defineType (flat.resolve (allFilled _ mem))
    -- Whether a routine shares memory is read off its signature, which the types in reach settle.
    refine (@registerRoutines_induct _ _ _ (fun env => env.Flat ∧
      env.types = (defineTypes .empty program.declarations).types) ⟨defined, rfl⟩ ?_).1
    intro env routine index mem ⟨flat, sameTys⟩
    refine ⟨flat.registerRoutine ⟨?_, forall_mem_map.mpr fun param isParam => ?_⟩,
      (registerRoutine_keeps ..).2.1.trans sameTys⟩
    · have isShared := all_eq_true.mp shares routine (Program.mem_routines.mpr mem)
      simp only [RoutineInfo.sharesNothing, routineInfo, Environment.resolve, sameTys] at isShared ⊢
      exact isShared
    · have paramsFilled := all_eq_true.mp (Bool.and_eq_true_iff.mp (allFilled _ mem)).1
      exact flat.resolve (paramsFilled param isParam)
  deferred := nofun

theorem globalType_sized (flat : env.Flat) {decl : VarDecl} (filled : decl.filled = true)
    (isType : globalType env decl.span decl.name decl.type decl.initial = .ok type) :
      Sized type := by
  obtain ⟨span, name, declared, init⟩ := decl
  cases declared with
  | some written =>
    cases isType
    exact flat.resolve filled
  | none =>
    cases init with
    | none => cases isType
    | some val =>
      obtain ⟨⟨⟨code, found⟩, frame⟩, isExpr, isPure⟩ := except_bind_ok.mp isType
      cases isPure
      exact .of_scalar (expression_dry flat _ _ _ isExpr).2

theorem addGlobal_flat (isOk : addGlobal st decl = .ok post) :
    st.memory.stop ≤ post.memory.stop ∧
      (post.memory.stop = 0 → decl.filled = true → st.Flat → post.Flat) := by
  obtain ⟨span, name, declared, init⟩ := decl
  obtain ⟨type, isType, added⟩ := except_bind_ok.mp isOk
  split at added
  · obtain ⟨⟨addr, memory⟩, isAllocated, isPure⟩ := except_bind_ok.mp added
    cases isPure
    have allocated := locating_ok.mp isAllocated
    refine ⟨stop_le_of_allocate allocated, fun unused filled flat => ?_⟩
    obtain ⟨bytes, -, isSize, -, isStop, -⟩ := allocate_ok allocated
    have positive := globalType_sized flat.environment filled isType bytes isSize
    have nothing : memory.stop = 0 := unused
    omega
  · next scalar =>
    obtain ⟨valueType, -, isPure⟩ := except_bind_ok.mp added
    cases isPure
    refine ⟨Nat.le_refl _, fun _ _ flat => ⟨?_, ?_⟩⟩
    · exact flat.environment.defineVariable ⟨by simpa using scalar, rfl⟩
    · refine forall_mem_append.mpr ⟨flat.deferred, fun val mem => ?_⟩
      split at mem
      · cases mem
      · obtain ⟨first, -, rfl⟩ := mem_map.mp mem
        rfl

theorem addGlobals_flat (isOk : addGlobals st decls = .ok post) :
    st.memory.stop ≤ post.memory.stop ∧
      (post.memory.stop = 0 → (∀ declaration ∈ decls, declaration.filled = true) →
        st.Flat → post.Flat) := by
  induction decls generalizing st with
  | nil =>
    cases isOk
    exact ⟨Nat.le_refl _, fun _ _ flat => flat⟩
  | cons declaration rest ih =>
    cases declaration with
    | type | routine =>
      obtain ⟨swells, follows⟩ := ih isOk
      exact ⟨swells, fun unused filled => follows unused (forall_mem_cons.mp filled).2⟩
    | var decl =>
      obtain ⟨mid, isAdded, isRest⟩ := except_bind_ok.mp isOk
      obtain ⟨firstSwells, firstFlat⟩ := addGlobal_flat isAdded
      obtain ⟨restSwells, restFlat⟩ := ih isRest
      refine ⟨Nat.le_trans firstSwells restSwells, fun unused filled flat => ?_⟩
      obtain ⟨declFilled, restFilled⟩ := forall_mem_cons.mp filled
      exact restFlat unused restFilled
        (firstFlat (Nat.le_zero.mp (unused ▸ restSwells)) declFilled flat)

/-- The functions of routines leave memory alone if none is in use after all of them. -/
theorem addRoutines_dry {st : Globals} {image : Image}
    (isOk : addRoutines options st.environment st.deferred image decls = .ok post) :
    image.memory.stop ≤ post.memory.stop ∧
      (post.memory.stop = 0 → (∀ declaration ∈ decls, declaration.filled = true) →
        st.Flat → (∀ function ∈ image.module.functions, Dry function.body) →
        ∀ function ∈ post.module.functions, Dry function.body) := by
  induction decls generalizing image with
  | nil =>
    cases isOk
    exact ⟨Nat.le_refl _, fun _ _ _ dry => dry⟩
  | cons declaration rest ih =>
    have skipped (isRest : addRoutines options st.environment st.deferred image rest =
        .ok post) := ih isRest
    cases declaration with
    | var | type =>
      obtain ⟨swells, follows⟩ := skipped isOk
      exact ⟨swells, fun unused filled => follows unused (forall_mem_cons.mp filled).2⟩
    | routine routine =>
      rw [addRoutines] at isOk
      cases hasBody : routine.body with
      | none =>
        rw [hasBody] at isOk
        obtain ⟨swells, follows⟩ := skipped isOk
        exact ⟨swells, fun unused filled => follows unused (forall_mem_cons.mp filled).2⟩
      | some body =>
        rw [hasBody] at isOk
        obtain ⟨mid, isFirst, isRest⟩ := except_bind_ok.mp isOk
        obtain ⟨info, computed, workspace, function, registered, isComputed, isCode, -, -, -,
          oneMore, sameMemory, -⟩ := addRoutine_ok isFirst
        obtain ⟨firstSwells, firstDry⟩ := routineCode_whileUnused _ _ _ isCode
        obtain ⟨restSwells, restDry⟩ := ih isRest
        rw [sameMemory] at restSwells
        refine ⟨Nat.le_trans firstSwells restSwells, fun unused filled flat dry => ?_⟩
        obtain ⟨routineFilled, restFilled⟩ := forall_mem_cons.mp filled
        refine restDry unused restFilled flat ?_
        rw [oneMore]
        refine forall_mem_append.mpr ⟨dry, forall_mem_singleton.mpr ?_⟩
        obtain ⟨shares, sized⟩ := flat.environment.routines _ (mem_of_lookup registered)
        apply firstDry (Nat.le_zero.mp (unused ▸ restSwells))
        · exact flat.environment.withResult
        · rcases isComputed with rfl | ⟨-, rfl⟩
          · exact forall_mem_nil _
          · exact flat.deferred
        · intro param mem
          have isParam := (of_mem_zip mem).2
          have notUnsized := all_eq_true.mp (Bool.and_eq_true_iff.mp shares).1 _ isParam
          exact ⟨by simpa using notUnsized, sized _ isParam⟩
        · have bodyFilled := (Bool.and_eq_true_iff.mp routineFilled).2
          rw [hasBody] at bodyFilled
          exact bodyFilled

/--
If no routine shares memory with its callers and every written record has a field, a module with
code that loads or stores declares and exports its memory.
-/
theorem memory_declared_of_accesses {options : Options} {program : Program} {module : Module}
    (lowered : lower options program = .ok module) (shares : sharesNothing program = true)
    (filled : program.declarations.all Declaration.filled = true) {function : Wasm.Function}
    (member : function ∈ module.functions) (accesses : Wasm.codeAccesses function.body = true) :
    module.memory.isSome = true ∧
      ∃ entry ∈ module.exports, entry.name = options.memoryName ∧ entry.kind = .memory := by
  have allFilled := all_eq_true.mp filled
  obtain ⟨state, isState, isImage⟩ := except_bind_ok.mp lowered
  obtain ⟨image, isAdded, isPure⟩ := except_bind_ok.mp isImage
  cases isPure
  have used : image.memory.isUsed = true := by
    rw [StaticMemory.isUsed, decide_eq_true_eq, Nat.pos_iff_ne_zero]
    intro unused
    obtain ⟨swells, follows⟩ := addRoutines_dry isAdded
    have stateUnused : state.memory.stop = 0 := Nat.le_zero.mp (unused ▸ swells)
    have flat := (addGlobals_flat isState).2 stateUnused allFilled (.start filled shares)
    rw [addMemory_functions] at member
    have dry := follows unused allFilled flat (forall_mem_nil _) function member
    rw [dry] at accesses
    cases accesses
  unfold addMemory
  rw [if_pos used]
  exact ⟨rfl, _, mem_append_right _ (mem_singleton.mpr rfl), rfl, rfl⟩

def storingText : String :=
  "type P is record var x : real end\nroutine f(p : P, n : integer) : real is\n" ++
    "var a : array[2] integer\na[n] := 1\nreturn p.x\nend\n"

theorem storingText_lowered :
    (sharesNothing (Program.parse storingText).value &&
      (Program.parse storingText).value.declarations.all Declaration.filled &&
        (lower Options.standard (Program.parse storingText).value).toOption.any
          (·.functions.any fun function => Wasm.codeAccesses function.body)) = true := by
  decide +kernel

theorem memory_declared_storingText :
    ∃ module, lower Options.standard (Program.parse storingText).value = .ok module ∧
      (∃ function ∈ module.functions, Wasm.codeAccesses function.body = true) ∧
      module.memory.isSome = true ∧
      ∃ entry ∈ module.exports, entry.name = "memory" ∧ entry.kind = .memory := by
  have accepted := storingText_lowered
  simp only [Bool.and_eq_true] at accepted
  obtain ⟨⟨shares, filled⟩, isLowered⟩ := accepted
  obtain ⟨module, lowered, stores⟩ := exists_of_any isLowered
  obtain ⟨function, member, accesses⟩ := any_eq_true.mp stores
  exact ⟨module, lowered, ⟨function, member, accesses⟩,
    memory_declared_of_accesses lowered shares filled member accesses⟩

def unsizedText : String := "routine first(a : array[] integer) : integer => a[1]\n"

def returnedText : String :=
  "routine make() : array[2] integer => make()\n" ++
    "routine main() is\nfor x in make() loop\nprint x\nend\nend\n"

def emptyRecordText : String :=
  "type E is record end\nroutine main() is\nvar a : E\nvar b : E\na := b\nend\n"

/-- Whether the text is accepted, and its code loads or stores without a memory. -/
def lacksMemory (text : String) : Bool :=
  (Program.parse text).diagnostics.isEmpty &&
    (Program.parse text).value.analyze.diagnostics.isEmpty &&
      match lower Options.standard (Program.parse text).value with
      | .ok module => module.memory.isNone && module.functions.any fun function =>
        Wasm.codeAccesses function.body
      | .error _ => false

theorem memory_not_declared :
    (lacksMemory unsizedText &&
      (Program.parse unsizedText).value.declarations.all Declaration.filled &&
        lacksMemory returnedText &&
          (Program.parse returnedText).value.declarations.all Declaration.filled &&
            lacksMemory emptyRecordText &&
              sharesNothing (Program.parse emptyRecordText).value) = true := by
  decide +kernel

end Imperative.Lowering
