import Imperative.Proofs.Lowering.Contents
import Imperative.Proofs.Scalar.Statement

/-!
# The code of scalar routines is correct

A routine finds its arguments in the first locals of its function.  Its code ends with the result
on the stack, or it traps where the routine does.
-/

namespace Imperative.Scalar

open List

open Lowering (Advances Deferred Environment Frame StaticMemory Workspace bindParameters bind_ok
  bodyCode coerce discard inFrame_ok pure_ok)
open Wasm (Code Module Performs Result Runs State Value)

variable {written : List (Parameter × Ty)}

/-- The setting after parameters, which are the locals from `index` on. -/
def Setting.receive (setting : Setting) (index : Nat) : List (String × Kind) → Setting
  | [] => setting
  | (name, kind) :: rest => (setting.declare name kind index).receive (index + 1) rest

section Parameters

variable {outer : Outer} {setting : Setting}

theorem Setting.receive_names :
    (setting.receive index params).names =
      setting.names.defineAll (params.map fun param => (param.1, param.2.type)) := by
  induction params generalizing setting index with
  | nil => rfl
  | cons first rest ih => exact ih

theorem Setting.receive_iterators (noIterators : setting.iterators = []) :
    (setting.receive index params).iterators = [] := by
  induction params generalizing setting index with
  | nil => exact noIterators
  | cons first rest ih =>
    apply ih
    simp [Setting.declare, noIterators]

theorem Setting.Laid.receive (laid : setting.Laid outer res frame)
    (reserved : ∀ slot, index ≤ slot → slot < index + params.length → frame.Reserved slot)
    (below : ∀ cell ∈ setting.cells, cell.2.slot < index) :
    (setting.receive index params).Laid outer res frame := by
  induction params generalizing setting index with
  | nil => exact laid
  | cons first rest ih =>
    obtain ⟨name, kind⟩ := first
    have isReserved : frame.Reserved index := reserved index (Nat.le_refl _) (by simp)
    have declared : (setting.declare name kind index).Laid outer res frame :=
      laid.define name { kind, slot := index, isFixed := false } (.refl laid.tidy) isReserved
        (fun cell mem => Nat.ne_of_lt (below cell mem)) nofun fun other mem different =>
          mem_filter.mpr ⟨mem, by simpa using different⟩
    apply ih declared
    · intro slot above within
      refine reserved slot (by omega) ?_
      rw [length_cons]
      omega
    · intro cell mem
      rcases mem_cons.mp mem with rfl | older
      · exact Nat.lt_succ_self index
      · exact Nat.lt_succ_of_lt (below cell older)

theorem receive_keeps (keeps : List.Forall₂ (Keeps locals) setting.cells entries)
    (kinds : args.map Datum.kind = params.map Prod.snd)
    (passed : ∀ (pos : Nat) (datum : Datum), args[pos]? = some datum →
      locals[index + pos]? = some (.i32 datum.word)) :
    List.Forall₂ (Keeps locals) (setting.receive index params).cells
      (((params.map Prod.fst).zip args).reverse ++ entries) := by
  induction params generalizing setting index args entries with
  | nil => exact keeps
  | cons first rest ih =>
    obtain ⟨name, kind⟩ := first
    cases args with
    | nil => cases kinds
    | cons datum others =>
      injection kinds with isKind restKinds
      have isFirst : locals[index]? = some (.i32 datum.word) := passed 0 datum rfl
      have declared : List.Forall₂ (Keeps locals) (setting.declare name kind index).cells
          ((name, datum) :: entries) := .cons ⟨rfl, isKind, isFirst⟩ keeps
      have whole := ih declared restKinds fun pos other found => by
        rw [Nat.add_right_comm, Nat.add_assoc]
        exact passed (pos + 1) other found
      simpa [Setting.receive] using whole

theorem bindParameters_ok {inner : Environment}
    (sameTys : written.map (fun entry => (entry.1.name, entry.2)) =
      params.map fun param => (param.1, param.2.type)) {setup : Code}
    (isOk : bindParameters setting.environment index written pre = .ok ((setup, inner), post)) :
    setup = [] ∧ inner = (setting.receive index params).environment ∧ post = pre := by
  induction written generalizing setting index params setup pre with
  | nil =>
    cases params with
    | nil =>
      rcases pure_ok.mp isOk with ⟨same, rfl⟩
      cases same
      exact ⟨rfl, rfl, rfl⟩
    | cons => cases sameTys
  | cons entry rest ih =>
    obtain ⟨param, type⟩ := entry
    cases params with
    | nil => cases sameTys
    | cons first others =>
      obtain ⟨name, kind⟩ := first
      injection sameTys with isFirst areOthers
      injection isFirst with isName isType
      dsimp only at isName isType
      subst isName isType
      have isSlot : Lowering.parameterStorage param.span index kind.type =
        pure ([], .slot index) := by
        cases kind <;> rfl
      rw [bindParameters, isSlot] at isOk
      rcases bind_ok.mp isOk with ⟨_, _, isStorage, isOthers⟩
      rcases pure_ok.mp isStorage with ⟨rfl, rfl⟩
      rcases bind_ok.mp isOthers with ⟨⟨code, last⟩, mid, isRest, isPure⟩
      rcases pure_ok.mp isPure with ⟨same, rfl⟩
      cases same
      exact ih areOthers isRest

end Parameters

/-- The code of a body ended as the body did, with its result on the stack or by a trap. -/
def EndsAlike (names : Typing.Context) (order : List String) (base : State) (outcome : Outcome)
    (ending : Result) : Prop := match outcome with
  | .returned val store =>
    ∃ st, (ending = .next st ∨ ending = .returned st) ∧
      Agree names order base store st ∧ st.stack = val.toList.map fun datum => .i32 datum.word
  | .trapped printed => ending = .trapped (base.calls ++ printed.map printCall)
  | .normal _ | .stuck | .exhausted => False

section Bodies

variable {outer : Outer} {setting : Setting}
    {st : State}

theorem value_ends (sound : outer.Sound) (mirrors : Mirrors outer base setting.cells store st)
    (laid : setting.Laid outer res pre) (computing : setting.Computing code kind val) :
    ∃ ending,
      Runs module
          (if setting.environment.result.isVoid then code ++ discard kind.type
            else code ++ coerce kind.type setting.environment.result) st ending ∧
        EndsAlike outer.names outer.order base
          (runBody res fuel setting.names store (.expression val)) ending := by
  have agree := mirrors.agree
  rcases computing module store.lookup st (mirrors.reads laid sound) with ⟨isKind, leaves⟩
  change Leaves _ _ _ (Datum.word <$> store.evaluate val) at leaves
  rw [runBody, laid.result]
  cases evaluated : store.evaluate val with
  | error fault =>
    rw [evaluated] at leaves
    cases fault with
    | stuck => exact leaves.elim
    | trap =>
      have traps (rest : Code) := Runs.append_stop leaves rfl rest
      refine ⟨.trapped st.calls, ?_, congrArg _ agree.calls⟩
      split <;> exact traps _
  | ok datum =>
    rw [evaluated] at leaves
    obtain rfl := isKind datum evaluated
    cases res with
    | none =>
      have dropped : discard datum.kind.type = [.drop] := by
        cases datum <;> rfl
      rw [dropped]
      exact ⟨_, Runs.append leaves (.single (.drop rfl)), _, .inl rfl, { agree with },
        mirrors.stack⟩
    | some tgt =>
      rw [if_neg not_isVoid_resultType]
      refine ⟨_, Runs.append leaves (runs_coerce rfl), _, .inl rfl, { agree with }, ?_⟩
      rw [mirrors.stack]
      rfl

theorem block_ends {inner : Block} (laid : setting.Laid outer res pre)
    (simulates : Simulates outer base setting.cells kept module code st
      (runBlock res fuel setting.names inner store))
    (ends : runBody res fuel setting.names store (.block inner) ≠ .exhausted) :
    ∃ ending,
      Runs module
          (if setting.environment.result.isVoid then code else code ++ [.unreachable]) st ending ∧
        EndsAlike outer.names outer.order base
          (runBody res fuel setting.names store (.block inner)) ending := by
  have blockEnds : runBlock res fuel setting.names inner store ≠ .exhausted := by
    intro exhausted
    apply ends
    simp only [runBody, exhausted]
  rw [laid.result]
  simp only [runBody]
  rcases simulates blockEnds with ⟨ending, runs, follows⟩
  cases ran : runBlock res fuel setting.names inner store with
  | normal last =>
    rw [ran] at follows
    cases ending with
    | next final =>
      have agree := follows.1.agree
      cases res with
      | none => exact ⟨_, runs, final, .inl rfl, agree, follows.1.stack⟩
      | some tgt =>
        rw [if_neg not_isVoid_resultType]
        refine ⟨_, runs.append (.single .unreachable), ?_⟩
        exact congrArg _ agree.calls
    | branch | returned | trapped | stuck | exhausted => exact follows.elim
  | returned val last =>
    rw [ran] at follows
    cases ending with
    | returned final =>
      refine ⟨.returned final, ?_, final, .inr rfl, follows⟩
      split
      · exact runs
      · exact runs.append_stop rfl _
    | next | branch | trapped | stuck | exhausted => exact follows.elim
  | trapped printed =>
    rw [ran] at follows
    cases ending with
    | trapped calls =>
      refine ⟨.trapped calls, ?_, congrArg _ follows⟩
      split
      · exact runs
      · exact runs.append_stop rfl _
    | next | branch | returned | stuck | exhausted => exact follows.elim
  | stuck =>
    rw [ran] at follows
    exact follows.elim
  | exhausted => exact absurd ran blockEnds

end Bodies

theorem body_ends (sound : outer.Sound) (printing : Printing module)
    {setting : Setting} (laid : setting.Laid outer res pre.frame)
    (noIterators : setting.iterators = []) (wellNamed : ∀ name ∈ body.typeNames, DeclaredName name)
    (isScalar : scalarBody res setting.names body = true)
    (isOk : bodyCode setting.environment body pre = .ok (code, post)) :
    Advances pre.frame post.frame ∧
      ∀ base store st fuel, post.frame.size ≤ base.locals.length →
        Mirrors outer base setting.cells store st →
        runBody res fuel setting.names store body ≠ .exhausted →
        ∃ ending, Runs module code st ending ∧
          EndsAlike outer.names outer.order base
            (runBody res fuel setting.names store body) ending := by
  cases body with
  | expression val =>
    rcases bind_ok.mp isOk with ⟨⟨valCode, type⟩, _, lowersVal, isPure⟩
    rcases inFrame_ok.mp lowersVal with ⟨frame, isVal, rfl⟩
    rcases pure_ok.mp isPure with ⟨rfl, rfl⟩
    rcases Option.isSome_iff_exists.mp isScalar with ⟨kind, isKind⟩
    rcases expression_means (laid.known sound) isKind isVal with ⟨rfl, rfl, computing⟩
    exact ⟨.refl laid.tidy, fun _ _ _ _ _ mirrors _ => value_ends sound mirrors laid computing⟩
  | block inner =>
    rw [scalarBody, ← noIterators] at isScalar
    rcases (block_correct printing sound inner wellNamed isScalar).bind laid isOk with
      ⟨blockCode, mid, advances, correct, isPure⟩
    rcases pure_ok.mp isPure with ⟨rfl, rfl⟩
    exact ⟨advances, fun _ _ _ _ enough mirrors => block_ends laid (correct enough mirrors)⟩

/-- A function is entered with the arguments, and the globals hold the variables of the program. -/
structure Entered (names : Typing.Context) (order : List String) (locals : List Wasm.ValueType)
    (args : List Datum) (globals : String → Option Datum) (st : State) : Prop where
  stack : st.stack = []
  size : st.locals.length = args.length + locals.length
  passed : ∀ (pos : Nat) (datum : Datum), args[pos]? = some datum →
    st.locals[pos]? = some (.i32 datum.word)
  globals : Encodes names order globals st.globals

def Setting.outermost (outer : Outer) (env : Environment) : Setting where
  names := outer.names
  iterators := []
  environment := env
  cells := []

section Routines

variable {outer : Outer} {env : Environment} {shape : Shape} (sameScope : env.scope = outer.scope)
    (types : Lowering.TypesAgree outer.names env) (isResult : env.result = resultType shape.result)

include sameScope types isResult

/-- The setting in which the parameters are bound is laid in every frame that keeps them. -/
theorem receive_laid (sameTys : written.map (fun entry => (entry.1.name, entry.2)) = shape.typed)
    (advances : Advances (Frame.start written.length) settled) :
    ((Setting.outermost outer env).receive 0 shape.parameters).Laid outer shape.result settled := by
  have isCount : written.length = shape.parameters.length := by
    have sameLength := congrArg List.length sameTys
    simpa [Shape.typed] using sameLength
  have laid : (Setting.outermost outer env).Laid outer shape.result settled :=
    { scope := sameScope
      types
      result := isResult
      inside := nofun
      outside := fun _ _ _ isVariable => isVariable
      distinct := .nil
      reserved := nofun
      tidy := advances.tidy }
  refine laid.receive (fun slot _ inside => ?_) nofun
  apply advances.grows.reserved
  rw [Frame.start_reserved, isCount]
  omega

theorem routineCode_ends (sound : outer.Sound) (printing : Printing module)
    (sameTys : written.map (fun entry => (entry.1.name, entry.2)) = shape.typed)
    (wellNamed : ∀ name ∈ body.typeNames, DeclaredName name)
    (isScalar : scalarBody shape.result (outer.names.defineAll shape.typed) body = true)
    {workspace : Workspace}
    (isOk : Lowering.routineCode env deferred written body
      { frame := Frame.start written.length, memory } = .ok (whole, workspace)) :
    ∃ init frame code,
      Lowering.computeDeferred env deferred (Frame.start written.length) = .ok (init, frame) ∧
        whole = init ++ code ∧
        ∀ args globals fuel, args.map Datum.kind = shape.parameters.map Prod.snd →
          runBody shape.result fuel (outer.names.defineAll shape.typed)
              (.enter (shape.parameters.map Prod.fst) args globals) body ≠ .exhausted →
          ∀ st,
            Entered outer.names outer.order workspace.frame.locals args globals st →
              ∃ ending, Runs module code st ending ∧
                EndsAlike outer.names outer.order st
                  (runBody shape.result fuel (outer.names.defineAll shape.typed)
                    (.enter (shape.parameters.map Prod.fst) args globals) body)
                  ending := by
  rcases bind_ok.mp isOk with ⟨init, _, computes, isBinding⟩
  rcases inFrame_ok.mp computes with ⟨settled, isInit, rfl⟩
  rcases bind_ok.mp isBinding with ⟨⟨setup, inner⟩, mid, isBound, isRest⟩
  rcases bind_ok.mp isRest with ⟨code, last, isBodyCode, isPure⟩
  rcases pure_ok.mp isPure with ⟨rfl, rfl⟩
  have binds : bindParameters (Setting.outermost outer env).environment 0 written _ = _ := isBound
  rcases bindParameters_ok sameTys binds with ⟨rfl, rfl, rfl⟩
  have advances :=
    (Lowering.computeDeferred_returns (.refl (Frame.start_tidy _)) (forall_mem_nil _) isInit).1
  have laid := receive_laid sameScope types isResult sameTys advances
  have sameNames :
      ((Setting.outermost outer env).receive 0 shape.parameters).names =
        outer.names.defineAll shape.typed := Setting.receive_names
  rw [← sameNames] at isScalar
  rcases body_ends sound printing laid (Setting.receive_iterators rfl) wellNamed isScalar
    isBodyCode with ⟨bodyAdvances, bodyEnds⟩
  refine ⟨init, settled, code, isInit, by rw [append_nil], ?_⟩
  intro args globals fuel areKinds ends st entered
  have mirrors : Mirrors outer st ((Setting.outermost outer env).receive 0 shape.parameters).cells
      (.enter (shape.parameters.map Prod.fst) args globals) st := by
    refine ⟨⟨entered.globals, ⟨rfl, fun _ _ _ _ => rfl⟩, rfl, ?_⟩, ?_, rfl, entered.stack⟩
    · simp [Store.enter]
    · have noCells : List.Forall₂ (Keeps st.locals) (Setting.outermost outer env).cells [] := .nil
      have keeps := receive_keeps noCells areKinds fun pos datum isDatum => by
        rw [Nat.zero_add]
        exact entered.passed pos datum isDatum
      rw [append_nil] at keeps
      exact keeps
  rw [← sameNames] at ends ⊢
  refine bodyEnds st _ st fuel ?_ mirrors ends
  have noMore : workspace.frame.parameters = written.length :=
    bodyAdvances.grows.parameters.trans advances.grows.parameters
  have isCount : args.length = shape.parameters.length := by
    simpa using congrArg List.length areKinds
  have sameLength : written.length = shape.parameters.length := by
    simpa [Shape.typed] using congrArg List.length sameTys
  rw [entered.size, Frame.size, noMore]
  omega

end Routines

end Imperative.Scalar
