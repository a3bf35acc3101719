import Imperative.Lowering.Statement

/-!
# Steps that succeed

A step of lowering that succeeds is taken apart into the steps it was put together from.
-/

namespace Imperative.Lowering

variable {type : Ty}

theorem except_bind_ok {next : α → Except Error β} :
    (step >>= next) = .ok res ↔ ∃ val, step = .ok val ∧ next val = .ok res := by
  cases step with
  | error error =>
    constructor
    · intro isOk
      cases isOk
    · rintro ⟨_, isOk, -⟩
      cases isOk
  | ok val =>
    constructor
    · intro isOk
      exact ⟨val, rfl, isOk⟩
    · rintro ⟨_, ⟨⟩, isOk⟩
      exact isOk

section Steps

variable {σ α : Type} {pre post : σ}

theorem bind_ok {next : α → StateT σ (Except Error) β} :
    (step >>= next) pre = .ok (res, post) ↔
      ∃ val mid, step pre = .ok (val, mid) ∧ next val mid = .ok (res, post) := by
  show (step pre >>= fun pair => next pair.1 pair.2) = .ok (res, post) ↔ _
  rw [except_bind_ok, Prod.exists]

theorem bind_of_ok (isOk : step pre = .ok (val, mid)) {next : α → StateT σ (Except Error) β} :
    (step >>= next) pre = next val mid := by
  show (step pre >>= fun pair => next pair.1 pair.2) = _
  rw [isOk]
  rfl

theorem map_ok {step : StateT σ (Except Error) α} :
    (convert <$> step) pre = .ok (res, post) ↔
      ∃ val, step pre = .ok (val, post) ∧ convert val = res := by
  show (step pre >>= fun pair => .ok (convert pair.1, pair.2)) = .ok (res, post) ↔ _
  simp [except_bind_ok]

theorem pure_ok :
    (pure val : StateT σ (Except Error) α) pre = .ok (res, post) ↔ res = val ∧ post = pre := by
  constructor
  · intro isOk
    cases isOk
    exact ⟨rfl, rfl⟩
  · rintro ⟨rfl, rfl⟩
    rfl

theorem lift_ok {computed : Except Error α} :
    (liftM computed : StateT σ (Except Error) α) pre = .ok (res, post) ↔
      computed = .ok res ∧ post = pre := by
  show (computed >>= fun val => .ok (val, pre)) = .ok (res, post) ↔ _
  rw [except_bind_ok]
  simp [@eq_comm _ pre, and_left_comm]

end Steps

theorem acquire_of_none {type : Wasm.ValueType}
    (noneFree : takeFree type frame.free = none) : acquire type frame = addLocal type frame := by
  have isGet : (get : Emit Frame) frame = .ok (frame, frame) := rfl
  rw [acquire, bind_of_ok isGet, noneFree]

theorem acquire_of_some {type : Wasm.ValueType}
    (taken : takeFree type frame.free = some (index, free)) :
    acquire type frame = .ok (index, { frame with free }) := by
  have isGet : (get : Emit Frame) frame = .ok (frame, frame) := rfl
  rw [acquire, bind_of_ok isGet, taken]
  rfl

theorem inFrame_ok {res : α} :
    inFrame step pre = .ok (res, post) ↔
      ∃ frame, step pre.frame = .ok (res, frame) ∧ post = { pre with frame } := by
  show (liftM (step pre.frame) >>=
    fun pair _ => .ok (pair.1, { pre with frame := pair.2 }) : Lower α) pre = _ ↔ _
  simp [bind_ok, lift_ok, @eq_comm _ _ post, and_left_comm]

/-- The code of the second block of a branch, if it has one. -/
def otherwise (env : Environment) : Option Block → Lower Wasm.Code
  | some alternative => block env alternative
  | none => pure []

theorem branch_eq : statement env (.branch span test consequent alternative) = (do
    let testCode ← inFrame (condition env test)
    let consequentCode ← block env consequent
    let alternativeCode ← otherwise env alternative
    return testCode ++ [.conditional consequentCode alternativeCode]) := by
  cases alternative <;> rfl

def Grants {State α : Type} (step : StateT State (Except Error) α) (property : α → Prop) : Prop :=
  ∀ pre val post, step pre = .ok (val, post) → property val

namespace Grants

variable {State α : Type}

theorem pure (holds : property val) :
    Grants (Pure.pure val : StateT State (Except Error) α) property := by
  intro pre res post isOk
  rw [(pure_ok.mp isOk).1]
  exact holds

theorem any : Grants step fun _ => True :=
  fun _ _ _ _ => trivial

theorem bind
    (grants : Grants step property) (nextGrants : ∀ val, property val → Grants (next val) whole) :
    Grants (step >>= next) whole := by
  intro pre res post isOk
  obtain ⟨val, mid, isStep, isNext⟩ := bind_ok.mp isOk
  exact nextGrants val (grants pre val mid isStep) mid res post isNext

theorem lift {res : Except Error α} (holds : ∀ val, res = .ok val → property val) :
    Grants (liftM res : StateT State (Except Error) α) property :=
  fun _ val _ isOk => holds val (lift_ok.mp isOk).1

theorem skip (nextGrants : ∀ val, Grants (next val) whole) : Grants (step >>= next) whole :=
  any.bind fun val _ => nextGrants val

theorem compute {res : Except Error α} {next : α → StateT State (Except Error) β}
    (nextGrants : ∀ val, res = .ok val → Grants (next val) whole) :
    Grants (liftM res >>= next) whole :=
  (lift fun _ isOk => isOk).bind nextGrants

theorem ite {cond : Prop} [Decidable cond] (ifHolds : cond → Grants step property)
    (ifFails : ¬ cond → Grants alternative property) :
      Grants (if cond then step else alternative) property := by
  split
  · next holds => exact ifHolds holds
  · next fails => exact ifFails fails

theorem inFrame {step : Emit α} (grants : Grants step property) :
    Grants (Lowering.inFrame step) property := by
  intro pre val post isOk
  obtain ⟨frame, stepOk, -⟩ := inFrame_ok.mp isOk
  exact grants _ _ _ stepOk

end Grants

theorem exists_of_any {res : Except Error α} (holds : res.toOption.any property = true) :
    ∃ val, res = .ok val ∧ property val = true := by
  cases res with
  | ok val => exact ⟨val, rfl, holds⟩
  | error => cases holds

theorem callee_ok (isOk : callee env span name count = .ok res) :
    env.routines.lookup name = some res.2 ∧ res.2.index = some res.1 := by
  unfold callee at isOk
  split at isOk
  · cases isOk
  · next lookedUp =>
    split at isOk
    · cases isOk
    · next isIndexed =>
      split at isOk <;> cases isOk
      exact ⟨lookedUp, isIndexed⟩

theorem operand_minus {inner : Expr} (notLit : ∀ place val, inner ≠ .integer place val) :
    operand env (.unary span .minus inner) = (do
      let (code, type) ← loaded inner.span (← operand env inner)
      return (negation code type, .value type)) := by
  rw [operand]
  exact notLit

theorem minus_cases (env : Environment) (span : Span) (inner : Expr) :
    (∃ place val, inner = .integer place val) ∨
      operand env (.unary span .minus inner) = (do
        let (code, type) ← loaded inner.span (← operand env inner)
        return (negation code type, .value type)) := by
  by_cases isLit : ∃ place val, inner = .integer place val
  · exact .inl isLit
  · exact .inr (operand_minus fun place val same => isLit ⟨place, val, same⟩)

mutual

theorem alignment_cases : (type : Ty) → alignment type = 4 ∨ alignment type = 8
  | .real | .integer | .boolean | .void | .error => by simp [alignment]
  | .array element size => by
    have cases := alignment_cases element
    rw [alignment]
    omega
  | .record name fields => fieldsAlignment_cases fields

theorem fieldsAlignment_cases : (fields : List (String × Ty)) →
    fieldsAlignment fields = 4 ∨ fieldsAlignment fields = 8
  | [] => .inl rfl
  | (name, type) :: rest => by
    have first := alignment_cases type
    have others := fieldsAlignment_cases rest
    rw [fieldsAlignment]
    omega

end

theorem four_le_alignment : 4 ≤ alignment type := by
  have cases := alignment_cases type
  omega

theorem alignment_pos (type : Ty) : 0 < alignment type :=
  Nat.lt_of_lt_of_le (by decide) four_le_alignment

theorem fieldsAlignment_pos (fields : List (String × Ty)) : 0 < fieldsAlignment fields := by
  have cases := fieldsAlignment_cases fields
  omega

theorem le_alignUp (num : Nat) (positive : 0 < align) : num ≤ alignUp num align := by
  have division := Nat.div_add_mod (num + align - 1) align
  have remainder := Nat.mod_lt (num + align - 1) positive
  rw [Nat.mul_comm] at division
  rw [alignUp]
  omega

theorem alignUp_mono (within : num ≤ other) (align : Nat) :
    alignUp num align ≤ alignUp other align :=
  Nat.mul_le_mul_right align (Nat.div_le_div_right (by omega))

theorem bounded_ok : bounded num = .ok res ↔ num < addressLimit ∧ res = num := by
  rw [bounded]
  split
  · next fits =>
    constructor
    · rintro ⟨⟩
      exact ⟨fits, rfl⟩
    · rintro ⟨-, rfl⟩
      rfl
  · next exceeds =>
    constructor
    · rintro ⟨⟩
    · exact fun fits => absurd fits.1 exceeds

section Sizes

variable {offset stop bytes : Nat} {name : String}

theorem size_array_ok : size (.array type (some length)) = .ok bytes ↔
    ∃ stride, size type = .ok stride ∧ length < addressLimit ∧ stride * length < addressLimit ∧
      dataOffset type + stride * length < addressLimit ∧
        bytes = dataOffset type + stride * length := by
  simp only [size, except_bind_ok, bounded_ok]
  constructor
  · rintro ⟨stride, isStride, _, ⟨lengthFits, rfl⟩, _, ⟨elementsFit, rfl⟩, fits⟩
    exact ⟨stride, isStride, lengthFits, elementsFit, fits⟩
  · rintro ⟨stride, isStride, lengthFits, elementsFit, fits⟩
    exact ⟨stride, isStride, length, ⟨lengthFits, rfl⟩, _, ⟨elementsFit, rfl⟩, fits⟩

theorem size_record_ok : size (.record name fields) = .ok bytes ↔
    ∃ stop, fieldsSize 0 fields = .ok stop ∧
      alignUp stop (fieldsAlignment fields) < addressLimit ∧
      bytes = alignUp stop (fieldsAlignment fields) := by
  simp only [size, except_bind_ok, bounded_ok, alignment]

theorem fieldsSize_cons_ok : fieldsSize offset ((name, type) :: fields) = .ok stop ↔
    ∃ bytes, size type = .ok bytes ∧ alignUp offset (alignment type) + bytes < addressLimit ∧
      fieldsSize (alignUp offset (alignment type) + bytes) fields = .ok stop := by
  simp only [fieldsSize, except_bind_ok, bounded_ok]
  constructor
  · rintro ⟨_, ⟨-, rfl⟩, bytes, isBytes, _, ⟨fits, rfl⟩, others⟩
    exact ⟨bytes, isBytes, fits, others⟩
  · rintro ⟨bytes, isBytes, fits, others⟩
    exact ⟨_, ⟨by omega, rfl⟩, bytes, isBytes, _, ⟨fits, rfl⟩, others⟩

theorem le_fieldsSize (isSize : fieldsSize offset fields = .ok stop) : offset ≤ stop := by
  induction fields generalizing offset with
  | nil =>
    cases isSize
    exact Nat.le_refl _
  | cons first rest ih =>
    obtain ⟨name, type⟩ := first
    obtain ⟨bytes, -, -, others⟩ := fieldsSize_cons_ok.mp isSize
    have aligned := le_alignUp offset (alignment_pos type)
    have ends := ih others
    omega

theorem fieldFrom_first (fits : alignUp offset (alignment type) < addressLimit) :
    fieldFrom record name offset ((name, type) :: fields) =
      .ok (alignUp offset (alignment type), type) := by
  rw [fieldFrom, bounded_ok.mpr ⟨fits, rfl⟩]
  exact if_pos rfl

theorem fieldFrom_later (isOther : name ≠ field) (isSize : size type = .ok bytes)
    (fits : alignUp offset (alignment type) + bytes < addressLimit) :
    fieldFrom record field offset ((name, type) :: fields) =
      fieldFrom record field (alignUp offset (alignment type) + bytes) fields := by
  have startFits : alignUp offset (alignment type) < addressLimit := by omega
  rw [fieldFrom, bounded_ok.mpr ⟨startFits, rfl⟩]
  refine (if_neg isOther).trans ?_
  rw [isSize]
  show (bounded (alignUp offset (alignment type) + bytes) >>= _) = _
  rw [bounded_ok.mpr ⟨fits, rfl⟩]
  rfl

end Sizes

/-- Fields from an offset on, which the record finds where the computation of the size puts them. -/
inductive FieldsAt (record : String) (all : List (String × Ty)) :
    Nat → List (String × Ty) → Nat → Prop
  | nil : FieldsAt record all stop [] stop
  | cons {name : String} {type : Ty} {rest : List (String × Ty)} {offset bytes stop : Nat}
      (isOffset : fieldOffset record all name = .ok (alignUp offset (alignment type), type))
      (isSize : size type = .ok bytes) (fits :
        alignUp offset (alignment type) + bytes < addressLimit)
      (others : FieldsAt record all (alignUp offset (alignment type) + bytes) rest stop) :
      FieldsAt record all offset ((name, type) :: rest) stop

theorem fieldsAt_of_size
    (names : (fields.map Prod.fst).Nodup) (found : ∀ name ∈ fields.map Prod.fst,
      fieldOffset record all name = fieldFrom record name offset fields)
    (isSize : fieldsSize offset fields = .ok stop) : FieldsAt record all offset fields stop := by
  induction fields generalizing offset with
  | nil =>
    cases isSize
    exact .nil
  | cons first rest ih =>
    obtain ⟨name, type⟩ := first
    obtain ⟨bytes, isBytes, fits, atRest⟩ := fieldsSize_cons_ok.mp isSize
    obtain ⟨notLater, laterNames⟩ := List.nodup_cons.mp names
    refine .cons ?_ isBytes fits (ih laterNames (fun other isLater => ?_) atRest)
    · rw [found name List.mem_cons_self, fieldFrom_first (by omega)]
    · have isOther : name ≠ other := fun same => notLater (same ▸ isLater)
      rw [found other (List.mem_cons_of_mem _ isLater), fieldFrom_later isOther isBytes fits]

theorem allocate_ok {memory post : StaticMemory} (isOk : memory.allocate type = .ok (addr, post)) :
    ∃ bytes inner, size type = .ok bytes ∧ headers type = .ok inner ∧
      post.stop = alignUp memory.stop (alignment type) + bytes ∧ post.stop < addressLimit ∧
      addr = alignUp memory.stop (alignment type) ∧
      post.headers = memory.headers ++ inner.map (Header.shift addr) := by
  rcases except_bind_ok.mp isOk with ⟨_, isAddr, atSize⟩
  obtain ⟨-, rfl⟩ := bounded_ok.mp isAddr
  rcases except_bind_ok.mp atSize with ⟨bytes, isSize, atStop⟩
  rcases except_bind_ok.mp atStop with ⟨_, isStop, atHeaders⟩
  obtain ⟨fits, rfl⟩ := bounded_ok.mp isStop
  rcases except_bind_ok.mp atHeaders with ⟨inner, isHeaders, isPure⟩
  cases isPure
  exact ⟨bytes, inner, isSize, isHeaders, rfl, fits, rfl, rfl⟩

theorem stop_le_of_allocate {memory post : StaticMemory}
    (isOk : memory.allocate type = .ok (addr, post)) : memory.stop ≤ post.stop := by
  obtain ⟨bytes, -, -, -, isStop, -⟩ := allocate_ok isOk
  have aligned := le_alignUp memory.stop (alignment_pos type)
  omega

theorem allocate_of_le {memory other post : StaticMemory} (within : other.stop ≤ memory.stop)
    (isOk : memory.allocate type = .ok (addr, post)) :
    ∃ otherAddr otherPost, other.allocate type = .ok (otherAddr, otherPost) ∧
      otherPost.stop ≤ post.stop := by
  obtain ⟨bytes, inner, isSize, isHeaders, isStop, fits, -⟩ := allocate_ok isOk
  have aligned := alignUp_mono within (alignment type)
  have addrFits : bounded (alignUp other.stop (alignment type)) = .ok _ :=
    bounded_ok.mpr ⟨by omega, rfl⟩
  have stopFits : bounded (alignUp other.stop (alignment type) + bytes) = .ok _ :=
    bounded_ok.mpr ⟨by omega, rfl⟩
  rw [StaticMemory.allocate, addrFits, isSize, isHeaders]
  refine ⟨_, _, except_bind_ok.mpr ⟨_, rfl, except_bind_ok.mpr ⟨_, rfl, except_bind_ok.mpr
    ⟨_, stopFits, rfl⟩⟩⟩, ?_⟩
  show alignUp other.stop (alignment type) + bytes ≤ post.stop
  omega

theorem locating_ok :
    locating span res = .ok val ↔ res = .ok val := by
  cases res with
  | ok found => exact .rfl
  | error error =>
    constructor <;>
      · intro isOk
        cases isOk

theorem reserve_ok :
    reserve span type pre = .ok (addr, post) ↔
      ∃ memory, pre.memory.allocate type = .ok (addr, memory) ∧ post = { pre with memory } := by
  show (liftM (locating span (pre.memory.allocate type)) >>=
    fun pair _ => .ok (pair.1, { pre with memory := pair.2 }) : Lower Nat) pre = _ ↔ _
  simp [bind_ok, lift_ok, locating_ok, @eq_comm _ _ post, and_left_comm]

end Imperative.Lowering
