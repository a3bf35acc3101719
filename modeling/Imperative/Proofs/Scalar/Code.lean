import Imperative.Proofs.Scalar.Layout

/-!
# The parts of scalar statements

What lowering makes of targets, declarations, conditions and ranges, as far as running the code
needs to know.
-/

namespace Imperative.Scalar

open Lowering

open Lowering (Advances Environment Frame RangeLocals Workspace bind_of_ok bind_ok coerce
  declareLocal inFrame_ok initialValue itemCode lift_ok printStatement pure_ok returnStatement)
open Wasm (Code Instruction Module State)

variable {code : Code} {kind : Kind}

def Setting.Computing (setting : Setting) (code : Code) (kind : Kind) (val : Expr) : Prop :=
  Means setting.names setting.environment code kind val

def Setting.Starting (setting : Setting) (code : Code) (kind : Kind) (decl : VarDecl) : Prop :=
  ∀ module store st, Reads setting.names setting.environment store.lookup st →
    Computes module code st kind (firstDatum setting.names store decl)

/-- The local that gets the first end of a range, and the one that gets the second. -/
def rangeEnds (locals : RangeLocals) : Direction → Nat × Nat
  | .forward => (locals.counter, locals.bound)
  | .reverse => (locals.bound, locals.counter)

/-- Give the value on the stack to an end of a range. -/
def setEnd (kind : Kind) (slot : Nat) : Code :=
  coerce kind.type Kind.integer.type ++ [.localSet slot]

section Lowered

variable {setting : Setting}

theorem target_name
    (emits : variableOperand env place name = .ok ([], .place found type)) :
    target env (.name place name) frame = .ok (([], found, type), frame) := by
  simp only [target, Expr.isPlace, if_true, operand, emits]
  rfl

@[simp]
theorem coerce_self : coerce kind.type kind.type = [] := by
  cases kind <;> rfl

theorem scalarType_ok (isOk : scalarType span kind.type = .ok valueType) :
    valueType = .i32 := by
  simp only [scalarType, kind.valueType_eq] at isOk
  cases isOk
  rfl

theorem declare_ok
    (isInit : initialValue env init pre.frame = .ok (initCode, pre.frame))
    (isType : declaredType env span name declared (initCode.map Prod.snd) = .ok kind.type)
    (tidy : pre.frame.Tidy)
    (isOk : declareLocal env (.mk span name declared init) pre = .ok ((code, extended), post)) :
    ∃ slot, pre.frame.Gives post.frame slot ∧
      code = (match initCode with
        | some (code, initType) => code ++ coerce initType kind.type
        | none => [.i32Const 0]) ++ [.localSet slot] ∧
      extended = env.defineVariable name kind.type (.slot slot) := by
  rw [declareLocal, bind_of_ok (inFrame_ok.mpr ⟨_, isInit, rfl⟩)] at isOk
  rcases bind_ok.mp isOk with ⟨type, _, isLifted, rest⟩
  rcases lift_ok.mp isLifted with ⟨isDeclared, rfl⟩
  rw [isType] at isDeclared
  cases isDeclared
  rw [if_neg (by simp)] at rest
  rcases bind_ok.mp rest with ⟨valueType, _, isLifted, rest⟩
  rcases lift_ok.mp isLifted with ⟨isScalar, rfl⟩
  obtain rfl := scalarType_ok isScalar
  rcases bind_ok.mp rest with ⟨slot, _, added, isPure⟩
  rcases inFrame_ok.mp added with ⟨frame, isAdded, rfl⟩
  rcases pure_ok.mp isPure with ⟨isPair, rfl⟩
  cases isPair
  refine ⟨slot, addLocal_gives tidy isAdded, ?_, rfl⟩
  cases initCode <;> rfl

theorem initialValue_ok (known : Known setting.names setting.environment)
    (isScalar : init.all (scalarExpr setting.names) = true)
    (isOk : initialValue setting.environment init pre = .ok (initCode, post)) :
    post = pre ∧
      ((init = none ∧ initCode = none) ∨
        ∃ val code kind, init = some val ∧ initCode = some (code, kind.type) ∧
          kind? setting.names val = some kind ∧ setting.Computing code kind val) := by
  cases init with
  | none =>
    rw [initialValue] at isOk
    rcases pure_ok.mp isOk with ⟨rfl, rfl⟩
    exact ⟨rfl, .inl ⟨rfl, rfl⟩⟩
  | some val =>
    rw [initialValue] at isOk
    rcases map_ok.mp isOk with ⟨⟨code, type⟩, isVal, rfl⟩
    rcases Option.isSome_iff_exists.mp isScalar with ⟨kind, isKind⟩
    rcases expression_means known isKind isVal with ⟨rfl, rfl, means⟩
    exact ⟨rfl, .inr ⟨val, code, kind, rfl, rfl, isKind, means⟩⟩

theorem declareLocal_code (sound : outer.Sound) (laid : setting.Laid outer res pre.frame)
    (wellNamed : ∀ name ∈ TypeExpr.namesOf? decl.type, DeclaredName name)
    (isKind : declKind? setting.names decl = some kind)
    (isOk : declareLocal setting.environment decl pre = .ok ((code, extended), post)) :
    ∃ slot valCode, setting.Starting valCode kind decl ∧
      pre.frame.Gives post.frame slot ∧ code = valCode ++ [.localSet slot] ∧
      extended = setting.environment.defineVariable decl.name kind.type (.slot slot) := by
  obtain ⟨span, name, declared, init⟩ := decl
  have isScalar : init.all (scalarExpr setting.names) = true := by
    cases declared with
    | some type =>
      rw [declKind?] at isKind
      split at isKind
      · next isScalar => exact isScalar
      · cases isKind
    | none =>
      cases init with
      | some val => exact Option.isSome_iff_exists.mpr ⟨kind, isKind⟩
      | none => cases isKind
  have ran := isOk
  rw [declareLocal] at ran
  rcases bind_ok.mp ran with ⟨initCode, _, lowersInit, -⟩
  rcases inFrame_ok.mp lowersInit with ⟨frame, isInit, -⟩
  rcases initialValue_ok (laid.known sound) isScalar isInit with ⟨rfl, shape⟩
  have typed (isType : declaredType setting.environment span name declared
      (initCode.map Prod.snd) = .ok kind.type) := declare_ok isInit isType laid.tidy isOk
  cases declared with
  | some type =>
    rw [declKind?, if_pos isScalar] at isKind
    have resolves := resolves_of_writtenKind wellNamed isKind none
    rcases typed (congrArg Except.ok (laid.types.resolve_eq resolves)) with
      ⟨slot, gives, rfl, rfl⟩
    refine ⟨slot, _, ?_, gives, rfl, rfl⟩
    intro module store st reads
    rcases shape with ⟨rfl, rfl⟩ | ⟨val, code, valKind, rfl, rfl, -, computing⟩
    · simp only [firstDatum, isKind]
      have computes := computes_constant module st (.initial kind)
      rwa [Datum.word_initial, Datum.kind_initial] at computes
    · simp only [firstDatum, isKind]
      exact (computing module store.lookup st reads).coerce kind
  | none =>
    rcases shape with ⟨rfl, rfl⟩ | ⟨val, code, valKind, rfl, rfl, isValKind, computing⟩
    · cases isKind
    · rw [declKind?, isValKind] at isKind
      cases isKind
      rcases typed rfl with ⟨slot, gives, rfl, rfl⟩
      refine ⟨slot, code, ?_, gives, by simp, rfl⟩
      intro module store st reads
      exact computing module store.lookup st reads

theorem printer_ok (isOk : printer span kind.type = .ok function) :
    function = printInteger := by
  cases kind <;> cases isOk <;> rfl

section Simple

variable (known : Known setting.names setting.environment)

include known

theorem expression_bind {res : α} {next : Code × Ty → Lowering.Emit α}
    (isScalar : scalarExpr setting.names val = true)
    (isOk : (expression setting.environment val >>= next) pre = .ok (res, post)) :
    ∃ code kind, setting.Computing code kind val ∧
      next (code, kind.type) pre = .ok (res, post) := by
  rcases bind_ok.mp isOk with ⟨⟨code, type⟩, mid, isVal, isRest⟩
  rcases Option.isSome_iff_exists.mp isScalar with ⟨kind, isKind⟩
  rcases expression_means known isKind isVal with ⟨rfl, rfl, means⟩
  exact ⟨code, kind, means, isRest⟩

theorem condition_bind {res : α} {next : Code → Lowering.Lower α} {pre post : Workspace}
    (isScalar : scalarExpr setting.names val = true)
    (isOk : (inFrame (condition setting.environment val) >>= next) pre =
      .ok (res, post)) :
    ∃ code kind, setting.Computing code kind val ∧ next code pre = .ok (res, post) := by
  rcases bind_ok.mp isOk with ⟨test, _, lowersTest, isRest⟩
  rcases inFrame_ok.mp lowersTest with ⟨frame, isTest, rfl⟩
  rcases expression_bind known isScalar isTest with ⟨code, kind, computing, isPure⟩
  rcases pure_ok.mp isPure with ⟨rfl, rfl⟩
  exact ⟨_, kind, by simpa using computing, isRest⟩

theorem rangeSetup_code (tidy : pre.Tidy) (firstScalar : scalarExpr setting.names first = true)
    (secondScalar : scalarExpr setting.names second = true)
    (isOk : rangeSetup setting.environment first second dir pre = .ok ((code, locals), post)) :
    ∃ counting firstCode secondCode firstKind secondKind,
      pre.Gives counting locals.counter ∧ counting.Gives post locals.bound ∧
        setting.Computing firstCode firstKind first ∧
        setting.Computing secondCode secondKind second ∧
        code = firstCode ++ (setEnd firstKind (rangeEnds locals dir).1 ++
          (secondCode ++ setEnd secondKind (rangeEnds locals dir).2)) := by
  rw [rangeSetup] at isOk
  rcases bind_ok.mp isOk with ⟨counter, counting, isCounter, isRest⟩
  have givesCounter := addLocal_gives tidy isCounter
  rcases bind_ok.mp isRest with ⟨bound, bounded, isBound, isRest⟩
  have givesBound := acquire_gives givesCounter.tidy isBound
  cases dir with
  | forward | reverse =>
    rcases expression_bind known firstScalar isRest with
      ⟨firstCode, firstKind, firstComputing, isRest⟩
    rcases expression_bind known secondScalar isRest with
      ⟨secondCode, secondKind, secondComputing, isPure⟩
    rcases pure_ok.mp isPure with ⟨isPair, rfl⟩
    cases isPair
    exact ⟨counting, firstCode, secondCode, firstKind, secondKind, givesCounter, givesBound,
      firstComputing, secondComputing, by simp [setEnd, rangeEnds, Kind.type]⟩

end Simple

end Lowered

end Imperative.Scalar
