import Imperative.Proofs.Lowering.Contents

/-!
# Code that leaves memory alone

Loads and stores are made for aggregates, and a declaration that lets one in reserves memory for
it.  So as long as no memory is in use, the code of statements neither loads nor stores.
-/

namespace Imperative

mutual

/-- No record that is written in the type is empty. -/
def TypeExpr.filled : TypeExpr → Bool
  | .primitive _ _ | .named _ _ => true
  | .record _ fields => !fields.isEmpty && fieldsFilled fields
  | .array _ element _ => element.filled

def TypeExpr.fieldsFilled : List VarDecl → Bool
  | [] => true
  | .mk _ _ (some type) _ :: rest => type.filled && fieldsFilled rest
  | .mk _ _ none _ :: rest => fieldsFilled rest

end

def VarDecl.filled (decl : VarDecl) : Bool := decl.type.all TypeExpr.filled

mutual

def Statement.filled : Statement → Bool
  | .branch _ _ consequent (some alternative) => consequent.filled && alternative.filled
  | .branch _ _ consequent none => consequent.filled
  | .whileLoop _ _ body | .rangeLoop _ _ _ _ _ body | .arrayLoop _ _ _ _ body
  | .block _ body => body.filled
  | .assign _ _ _ | .call _ _ _ | .giveBack _ _ | .print _ _ | .empty _ => true

def Block.filled : Block → Bool
  | .mk _ items => Block.itemsFilled items

def Block.itemsFilled : List Item → Bool
  | [] => true
  | .declaration (.var decl) :: rest => decl.filled && Block.itemsFilled rest
  | .declaration (.type decl) :: rest => decl.type.filled && Block.itemsFilled rest
  | .declaration (.routine _) :: rest => Block.itemsFilled rest
  | .statement inner :: rest => inner.filled && Block.itemsFilled rest

end

def Body.filled : Body → Bool
  | .expression _ => true
  | .block inner => inner.filled

def Declaration.filled : Declaration → Bool
  | .var decl => decl.filled
  | .type decl => decl.type.filled
  | .routine inner => inner.parameters.all (·.type.filled) && inner.body.all Body.filled

/-- The type is an array without a size. -/
def Ty.isUnsized : Ty → Bool
  | .array _ none => true
  | _ => false

end Imperative

namespace Imperative.Wasm

mutual

/-- Whether the instruction, or one inside of it, loads or stores. -/
@[simp]
def Instruction.accesses : Instruction → Bool
  | .load _ _ => true
  | .store _ _ => true
  | .block body => codeAccesses body
  | .loop body => codeAccesses body
  | .conditional consequent alternative => codeAccesses consequent || codeAccesses alternative
  | _ => false

/-- Whether the code loads or stores, at any depth. -/
@[simp]
def codeAccesses : List Instruction → Bool
  | [] => false
  | first :: rest => first.accesses || codeAccesses rest

end

@[simp]
theorem codeAccesses_append :
    codeAccesses (first ++ second) = (codeAccesses first || codeAccesses second) := by
  induction first with
  | nil => rfl
  | cons instr rest ih => simp only [List.cons_append, codeAccesses, ih, Bool.or_assoc]

/-- The code neither loads nor stores. -/
@[simp]
abbrev Dry (code : Code) : Prop := codeAccesses code = false

end Imperative.Wasm

namespace Imperative.Lowering

open Wasm (Code Dry Module)

/-- Values of the type take at least one byte, if the type has a size. -/
def Sized (type : Ty) : Prop := ∀ bytes, size type = .ok bytes → 0 < bytes

theorem Sized.of_scalar (notAggregate : type.isAggregate = false) : Sized type := by
  intro bytes isSize
  cases type with
  | integer | real | boolean =>
    cases isSize
    decide
  | void | error => cases isSize
  | array | record => cases notAggregate

theorem sized_array : Sized (.array element length) := by
  intro bytes isSize
  cases length with
  | none => cases isSize
  | some length =>
    obtain ⟨stride, -, -, -, -, rfl⟩ := size_array_ok.mp isSize
    have header : lengthSize ≤ dataOffset element := le_alignUp _ (alignment_pos element)
    exact Nat.add_pos_left (Nat.lt_of_lt_of_le (by decide) header) _

theorem Sized.record {record field : String} (sized : Sized type) :
    Sized (.record record ((field, type) :: rest)) := by
  intro bytes isSize
  obtain ⟨stop, isStop, -, rfl⟩ := size_record_ok.mp isSize
  obtain ⟨first, isFirst, -, atRest⟩ := fieldsSize_cons_ok.mp isStop
  have positive := sized first isFirst
  have others := le_fieldsSize atRest
  exact Nat.lt_of_lt_of_le (by omega) (le_alignUp stop (fieldsAlignment_pos _))

/-- A written type takes memory if its records have fields and the types with a name do. -/
theorem sized_resolve (known : ∀ name type, lookup name = some type → Sized type) :
    (hint : Option String) → (written : TypeExpr) → written.filled = true →
      Sized (Typing.resolve lookup hint written).value
  | _, .primitive _ name, _ => by
    cases name <;> exact .of_scalar rfl
  | _, .named span name, _ => by
    rw [Typing.resolve, Typing.namedType]
    split
    · exact .of_scalar rfl
    · split
      · next found => exact known name _ found
      · exact .of_scalar rfl
  | _, .array _ _ _, _ => sized_array
  | _, .record _ [], filled => by cases filled
  | _, .record _ (.mk _ _ none _ :: _), _ => (Sized.of_scalar rfl).record
  | _, .record _ (.mk _ _ (some first) _ :: rest), filled => by
    have firstFilled : first.filled = true := by
      simp only [TypeExpr.filled, TypeExpr.fieldsFilled, Bool.and_eq_true] at filled
      exact filled.2.1
    exact (sized_resolve known none first firstFilled).record

/--
Whether a routine neither uses an array where its caller has it nor gives an aggregate back, so that
it shares no memory with its callers.
-/
def RoutineInfo.sharesNothing (info : RoutineInfo) : Bool :=
  info.parameters.all (fun type => !type.isUnsized) && !info.result.isAggregate

/-- What holds of each variable, type and routine of an environment. -/
structure Environment.Each (ofVariable : Variable → Prop) (ofType : Ty → Prop)
    (ofRoutine : RoutineInfo → Prop) (env : Environment) : Prop where
  scope : ∀ entry ∈ env.scope, ofVariable entry.2
  types : ∀ entry ∈ env.types, ofType entry.2
  routines : ∀ entry ∈ env.routines, ofRoutine entry.2

namespace Environment

theorem each_empty : Environment.empty.Each ofVariable ofType ofRoutine :=
  ⟨List.forall_mem_nil _, List.forall_mem_nil _, List.forall_mem_nil _⟩

namespace Each

variable {env : Environment} (each : env.Each ofVariable ofType ofRoutine)
include each

theorem withResult : { env with result := type }.Each ofVariable ofType ofRoutine :=
  ⟨each.scope, each.types, each.routines⟩

theorem defineType (holds : ofType (env.resolve (some decl.name) decl.type)) :
    (env.defineType decl).Each ofVariable ofType ofRoutine :=
  ⟨each.scope, List.forall_mem_cons.mpr ⟨holds, each.types⟩, each.routines⟩

theorem defineVariable (holds : ofVariable ⟨type, storage⟩) :
    (env.defineVariable name type storage).Each ofVariable ofType ofRoutine :=
  ⟨List.forall_mem_cons.mpr ⟨holds, each.scope⟩, each.types, each.routines⟩

theorem registerRoutine (holds : ofRoutine info) :
    (registerRoutine name info env).Each ofVariable ofType ofRoutine := by
  unfold Lowering.registerRoutine
  dsimp only
  split
  · exact each
  · exact ⟨each.scope, each.types, List.forall_mem_cons.mpr ⟨holds, each.routines⟩⟩

end Each

/-- No variable is an aggregate, and none of the types and routines lets one in without memory. -/
abbrev Flat : Environment → Prop :=
  Each (fun entry => entry.type.isAggregate = false ∧ entry.storage.isDirect = true) Sized
    fun info => info.sharesNothing = true ∧ ∀ type ∈ info.parameters, Sized type

theorem Flat.resolve {env : Environment} (flat : env.Flat) (filled : written.filled = true) :
    Sized (env.resolve hint written) :=
  sized_resolve (fun _ _ found => flat.types _ (mem_of_lookup found)) hint written filled

end Environment

def Operand.IsDirect : Operand → Prop
  | .value type => type.isAggregate = false
  | .place (.memory _) _ => False
  | .place _ type => type.isAggregate = false

theorem dry_coerce (src target : Ty) : Dry (coerce src target) := by
  unfold coerce
  split
  · rfl
  · split
    · rfl
    · split
      · rfl
      · split <;> rfl

theorem dry_discard : Dry (discard type) := by
  unfold discard
  split <;> rfl

theorem load_dry {found : Operand} (direct : found.IsDirect)
    (isOk : found.load span = .ok res) : Dry res.1 ∧ res.2.isAggregate = false := by
  match found with
  | .value type | .place (.slot _) type | .place (.global _) type =>
    cases isOk
    exact ⟨rfl, direct⟩
  | .place (.memory _) _ => exact direct.elim

theorem base_direct {found : Operand} (direct : found.IsDirect) (res : UInt32 × Ty)
    (isOk : found.base span = .ok res) : res.2.isAggregate = false := by
  match found with
  | .value type =>
    cases isOk
    exact direct
  | .place (.slot _) _ | .place (.global _) _ => cases isOk
  | .place (.memory _) _ => exact direct.elim

theorem loading_dry {next : Code × Ty → Emit α}
    (dry : Grants step fun res => Dry res.1 ∧ res.2.IsDirect)
    (nextGrants : ∀ code type, Dry code → type.isAggregate = false →
      Grants (next (code, type)) property) :
    Grants (step >>= fun emitted => liftM (loaded span emitted) >>= next) property := by
  refine dry.bind fun emitted ⟨emittedDry, direct⟩ => ?_
  have isLoaded : ∀ res, loaded span emitted = .ok res → Dry res.1 ∧ res.2.isAggregate = false := by
    intro res isOk
    obtain ⟨⟨code, type⟩, isLoad, isPure⟩ := except_bind_ok.mp isOk
    cases isPure
    obtain ⟨codeDry, notAggregate⟩ := load_dry direct isLoad
    exact ⟨by simp [emittedDry, codeDry], notAggregate⟩
  refine (Grants.lift isLoaded).bind fun ⟨code, type⟩ ⟨codeDry, notAggregate⟩ => ?_
  exact nextGrants code type codeDry notAggregate

theorem literal_dry (instr : Wasm.Instruction)
    (isOk : literal span val = .ok instr) : Dry [instr] := by
  unfold literal at isOk
  split at isOk <;> cases isOk
  rfl

theorem realOperation_dry : Grants (realOperation op) Dry := by
  cases op with
  | mod => exact .skip fun divisor => .skip fun dividend => .skip fun _ => .skip fun _ => .pure rfl
  | add | sub | mul | div | less | lessEqual | greater | greaterEqual | equal | notEqual | and
  | or | xor => exact .pure rfl

theorem binaryOperation_dry (leftDry : Dry left.1) (rightDry : Dry right.1) :
    Grants (binaryOperation op left right) fun res =>
      Dry res.1 ∧ res.2.isAggregate = false := by
  refine .ite (fun _ => .pure ⟨?_, rfl⟩) fun _ => .ite (fun _ => ?_) fun _ => ?_
  · simp [leftDry, rightDry, dry_coerce, compute]
  · refine realOperation_dry.bind fun operation dry => .pure ⟨?_, ?_⟩
    · simp [leftDry, rightDry, dry_coerce, dry]
    · split <;> rfl
  · refine .pure ⟨?_, ?_⟩
    · simp [leftDry, rightDry, compute]
    · split <;> rfl

section Expressions

variable {env : Environment} (flat : env.Flat)
include flat

theorem variableOperand_dry (res : Code × Operand)
    (isOk : variableOperand env span name = .ok res) : Dry res.1 ∧ res.2.IsDirect := by
  unfold variableOperand at isOk
  split at isOk
  · cases isOk
  · next type storage found =>
    obtain ⟨notAggregate, direct⟩ := flat.scope _ (mem_of_lookup found)
    cases storage with
    | slot | global =>
      cases isOk
      exact ⟨rfl, notAggregate⟩
    | fixed | pointer => cases direct

theorem callee_direct (isOk : callee env span name count = .ok res) :
    res.2.result.isAggregate = false := by
  have shares := (flat.routines _ (mem_of_lookup (callee_ok isOk).1)).1
  simpa using (Bool.and_eq_true_iff.mp shares).2

-- Arguments hand `flat` on to their operands only.
set_option linter.unusedSectionVars false in
mutual

theorem operand_dry : (tree : Expr) →
    Grants (operand env tree) fun res => Dry res.1 ∧ res.2.IsDirect
  | .integer span val => by
    refine (Grants.lift literal_dry).bind fun instr dry => ?_
    exact Grants.pure ⟨dry, rfl⟩
  | .real _ _ | .boolean _ _ => .pure ⟨rfl, rfl⟩
  | .name span name => .lift (variableOperand_dry flat)
  | .field span recv field => by
    refine (operand_dry recv).bind fun (code, base) ⟨_, direct⟩ => ?_
    refine (Grants.lift (base_direct direct)).bind fun (offset, type) notAggregate => ?_
    have refused : ∀ place, fieldPlace span offset type field = .ok place → False := by
      cases type with
      | record | array => cases notAggregate
      | integer | real | boolean | void | error => nofun
    exact (Grants.lift refused).bind fun _ impossible => impossible.elim
  | .index span recv pos => by
    refine (operand_dry recv).bind fun (code, base) ⟨_, direct⟩ => ?_
    refine (Grants.lift (base_direct direct)).bind fun (offset, type) notAggregate => ?_
    have refused : ∀ element, elementOf span type = .ok element → False := by
      cases type with
      | record | array => cases notAggregate
      | integer | real | boolean | void | error => nofun
    exact (Grants.lift refused).bind fun _ impossible => impossible.elim
  | .call span name args => by
    refine .compute fun (index, info) isCallee => ?_
    refine (argumentCode_dry args info.parameters).bind fun code dry => ?_
    exact .pure ⟨by simp [dry], callee_direct flat isCallee⟩
  | .unary _ .plus inner =>
    loading_dry (operand_dry inner) fun code type dry notAggregate => .pure ⟨dry, notAggregate⟩
  | .unary span .minus inner => by
    have innerDry := operand_dry inner
    rcases minus_cases env span inner with ⟨place, val, rfl⟩ | isMinus
    · exact .compute fun instr isLiteral => .pure ⟨literal_dry instr isLiteral, rfl⟩
    · rw [isMinus]
      refine loading_dry innerDry fun code type dry notAggregate => .pure ⟨?_, notAggregate⟩
      unfold negation
      split <;> simp [dry, compute]
  | .unary _ .not inner =>
    loading_dry (operand_dry inner) fun code type dry _ =>
      .pure ⟨by simp [dry, dry_coerce, compute], rfl⟩
  | .binary _ op left right => by
    refine loading_dry (operand_dry left) fun leftCode leftType leftDry _ => ?_
    refine loading_dry (operand_dry right) fun rightCode rightType rightDry _ => ?_
    refine (binaryOperation_dry leftDry rightDry).bind fun (code, type) dry => ?_
    exact .pure dry

theorem argumentCode_dry : (args : List Expr) → (params : List Ty) →
    Grants (argumentCode env args params) Dry
  | argument :: args, param :: params => by
    refine loading_dry (operand_dry argument) fun code type dry _ => ?_
    refine (argumentCode_dry args params).bind fun others othersDry => ?_
    exact .pure (by simp [dry, dry_coerce, othersDry])
  | [], _ | _ :: _, [] => by
    rw [argumentCode]
    · exact .pure rfl
    · simp

end

theorem expression_dry :
    Grants (expression env val) fun res => Dry res.1 ∧ res.2.isAggregate = false := by
  have evaluated : expression env val =
      operand env val >>= fun emitted => liftM (loaded val.span emitted) >>= pure := by
    simp only [bind_pure]
    rfl
  rw [evaluated]
  exact loading_dry (operand_dry flat val) fun code type dry notAggregate =>
    .pure ⟨dry, notAggregate⟩

end Expressions

/--
The step only adds to the memory in use, and if none is in use after it, its value has the property.
-/
def WhileUnused {α : Type} (step : Lower α) (property : α → Prop) : Prop :=
  ∀ pre val post, step pre = .ok (val, post) →
    pre.memory.stop ≤ post.memory.stop ∧ (post.memory.stop = 0 → property val)

namespace WhileUnused

theorem pure (holds : property val) : WhileUnused (Pure.pure val) property := by
  intro pre res post isOk
  obtain ⟨rfl, rfl⟩ := pure_ok.mp isOk
  exact ⟨Nat.le_refl _, fun _ => holds⟩

theorem imp (holds : WhileUnused step first) (implies : ∀ val, first val → second val) :
    WhileUnused step second := by
  intro pre val post isOk
  obtain ⟨swells, known⟩ := holds pre val post isOk
  exact ⟨swells, fun unused => implies val (known unused)⟩

/-- What is known of the first value is known only if none is in use after the rest. -/
theorem bind (stepHolds : WhileUnused step first)
    (nextHolds : ∀ val, WhileUnused (next val) fun res => first val → whole res) :
    WhileUnused (step >>= next) whole := by
  intro pre res post isOk
  obtain ⟨val, mid, stepOk, nextOk⟩ := bind_ok.mp isOk
  obtain ⟨stepSwells, holds⟩ := stepHolds pre val mid stepOk
  obtain ⟨nextSwells, follows⟩ := nextHolds val mid res post nextOk
  refine ⟨Nat.le_trans stepSwells nextSwells, fun unused => follows unused (holds ?_)⟩
  exact Nat.le_zero.mp (unused ▸ nextSwells)

theorem lift {computed : Except Error α} (holds : ∀ val, computed = .ok val → property val) :
    WhileUnused (liftM computed : Lower α) property := by
  intro pre val post isOk
  obtain ⟨isVal, rfl⟩ := lift_ok.mp isOk
  exact ⟨Nat.le_refl _, fun _ => holds val isVal⟩

theorem inFrame (grants : given → Grants step property) :
    WhileUnused (Lowering.inFrame step) fun val => given → property val := by
  intro pre val post isOk
  obtain ⟨frame, stepOk, rfl⟩ := inFrame_ok.mp isOk
  exact ⟨Nat.le_refl _, fun _ holds => grants holds _ _ _ stepOk⟩

theorem simple {env : Environment} (dry : env.Flat → Grants step Dry) :
    WhileUnused (Lowering.inFrame step) fun code => env.Flat → filled → Dry code :=
  (inFrame dry).imp fun _ dry flat _ => dry flat

theorem anyInFrame : WhileUnused (Lowering.inFrame step) fun _ => True := by
  intro pre val post isOk
  obtain ⟨frame, -, rfl⟩ := inFrame_ok.mp isOk
  exact ⟨Nat.le_refl _, fun _ => trivial⟩

end WhileUnused

theorem reserve_whileUnused : WhileUnused (reserve span type) fun _ => ¬ Sized type := by
  intro pre addr post isOk
  obtain ⟨memory, allocated, rfl⟩ := reserve_ok.mp isOk
  refine ⟨stop_le_of_allocate allocated, fun unused sized => ?_⟩
  obtain ⟨bytes, -, isSize, -, isStop, -⟩ := allocate_ok allocated
  have positive := sized bytes isSize
  have nothing : memory.stop = 0 := unused
  omega

section Statements

variable {env : Environment}

theorem declareLocal_whileUnused :
    WhileUnused (declareLocal env decl) fun res =>
      env.Flat → decl.filled = true → Dry res.1 ∧ res.2.Flat := by
  obtain ⟨span, name, declared, init⟩ := decl
  have evaluated (flat : env.Flat) : Grants (initialValue env init)
      fun found => ∀ code type, found = some (code, type) → Dry code ∧
        type.isAggregate = false := by
    cases init with
    | none => exact .pure nofun
    | some val =>
      refine (expression_dry flat).bind fun found dry => .pure ?_
      rintro code type ⟨⟩
      exact dry
  refine (WhileUnused.inFrame evaluated).bind fun init => ?_
  have isSized : ∀ type, declaredType env span name declared (init.map Prod.snd) =
      .ok type → env.Flat → declared.all TypeExpr.filled = true →
        (∀ code found, init = some (code, found) → found.isAggregate = false) → Sized type := by
    intro type isOk flat filled scalar
    cases declared with
    | some written =>
      cases isOk
      exact flat.resolve filled
    | none =>
      cases init with
      | some first =>
        cases isOk
        exact .of_scalar (scalar first.1 first.2 rfl)
      | none => cases isOk
  refine (WhileUnused.lift isSized).bind fun type => ?_
  split
  · refine reserve_whileUnused.bind fun addr => ?_
    refine WhileUnused.anyInFrame.bind fun code => WhileUnused.pure ?_
    intro _ notSized sized dry flat filled
    exact absurd (sized flat filled fun code found isFirst => (dry flat code found isFirst).2)
      notSized
  · next scalar =>
    refine (WhileUnused.lift fun _ _ => trivial).bind fun valueType => ?_
    refine WhileUnused.anyInFrame.bind fun index => WhileUnused.pure ?_
    intro _ _ _ dry flat _
    refine ⟨?_, flat.defineVariable ⟨by simpa using scalar, rfl⟩⟩
    cases init with
    | none => cases valueType <;> rfl
    | some first => simp [(dry flat first.1 first.2 rfl).1, dry_coerce]

variable (flat : env.Flat)
include flat

theorem assignment_dry : Grants (assignment env span place val) Dry := by
  have placed : Grants (target env place) fun res =>
      Dry res.1 ∧ (Operand.place res.2.1 res.2.2).IsDirect := by
    refine .ite (fun _ => ?_) fun _ => ?_
    · refine (operand_dry flat place).bind fun (code, found) dry => ?_
      cases found with
      | place holder type => exact .pure dry
      | value type => exact .lift nofun
    · exact .lift nofun
  refine placed.bind fun (code, found, type) ⟨dry, direct⟩ => ?_
  cases found with
  | memory offset => exact direct.elim
  | slot index | global index =>
    refine (expression_dry flat).bind fun (valCode, valueType) valDry => ?_
    exact .pure (by simp [dry, valDry.1, dry_coerce])

theorem callStatement_dry : Grants (callStatement env span name args) Dry :=
  (expression_dry flat).bind fun (code, type) dry => .pure (by simp [dry.1, dry_discard])

theorem returnStatement_dry : Grants (returnStatement env val) Dry := by
  cases val with
  | none => exact .pure rfl
  | some val =>
    exact (expression_dry flat).bind fun (code, type) dry => .pure (by simp [dry.1, dry_coerce])

theorem printStatement_dry : Grants (printStatement env values) Dry := by
  induction values with
  | nil => exact .pure rfl
  | cons first rest ih =>
    refine (expression_dry flat).bind fun (code, type) dry => ?_
    refine .skip fun function => ?_
    refine ih.bind fun others othersDry => ?_
    exact Grants.pure (by simp [dry.1, othersDry])

theorem condition_dry : Grants (condition env test) Dry := by
  refine (expression_dry flat).bind fun (code, type) dry => Grants.pure ?_
  split <;> simp [dry.1, dry_coerce]

theorem rangeSetup_dry :
    Grants (rangeSetup env first last dir) fun res => Dry res.1 := by
  refine .skip fun counter => .skip fun bound => ?_
  cases dir with
  | forward | reverse =>
    refine (expression_dry flat).bind fun (firstCode, firstType) firstDry => ?_
    refine (expression_dry flat).bind fun (lastCode, lastType) lastDry => ?_
    exact .pure (by simp [firstDry.1, lastDry.1, dry_coerce])

theorem arraySetup_refused : Grants (arraySetup env array dir) fun _ => False := by
  refine (expression_dry flat).bind fun (code, type) dry => ?_
  have refused : ∀ element, loopElement array.span type = .ok element → False := by
    cases type with
    | record | array => cases dry.2
    | integer | real | boolean | void | error => nofun
  exact (Grants.lift refused).bind fun _ impossible => impossible.elim

end Statements

mutual

theorem statement_whileUnused : (env : Environment) → (inner : Statement) →
    WhileUnused (statement env inner) fun code => env.Flat → inner.filled = true → Dry code
  | env, .assign span place val => .simple fun flat => assignment_dry flat
  | env, .call span name args => .simple fun flat => callStatement_dry flat
  | env, .branch span test consequent none => by
    refine (WhileUnused.inFrame fun flat => condition_dry flat).bind fun testCode => ?_
    refine (block_whileUnused env consequent).bind fun consequentCode => ?_
    refine WhileUnused.pure ?_
    intro consequentDry testDry flat filled
    simp [testDry flat, consequentDry flat filled]
  | env, .branch span test consequent (some alternative) => by
    refine (WhileUnused.inFrame fun flat => condition_dry flat).bind fun testCode => ?_
    refine (block_whileUnused env consequent).bind fun consequentCode => ?_
    refine (block_whileUnused env alternative).bind fun alternativeCode => ?_
    refine WhileUnused.pure ?_
    intro alternativeDry consequentDry testDry flat filled
    obtain ⟨thenFilled, elseFilled⟩ := Bool.and_eq_true_iff.mp filled
    simp [testDry flat, consequentDry flat thenFilled, alternativeDry flat elseFilled]
  | env, .whileLoop span test body => by
    refine (WhileUnused.inFrame fun flat => condition_dry flat).bind fun testCode => ?_
    refine (block_whileUnused env body).bind fun bodyCode => WhileUnused.pure ?_
    intro bodyDry testDry flat filled
    simp [whileCode, repeating, compute, testDry flat, bodyDry flat filled]
  | env, .rangeLoop span iter first last dir body => by
    refine (WhileUnused.inFrame fun flat => rangeSetup_dry flat).bind fun (setup, locals) => ?_
    refine (block_whileUnused _ body).bind fun bodyCode => ?_
    refine WhileUnused.anyInFrame.bind fun _ => WhileUnused.pure ?_
    intro _ bodyDry setupDry flat filled
    have inner := bodyDry (flat.defineVariable ⟨rfl, rfl⟩) filled
    cases dir <;> simp [rangeCode, repeating, bump, word, compute, setupDry flat, inner]
  | env, .arrayLoop span iter array dir body => by
    refine (WhileUnused.inFrame fun flat => arraySetup_refused flat).bind fun arrayLoop => ?_
    refine (block_whileUnused _ body).bind fun bodyCode => ?_
    refine WhileUnused.anyInFrame.bind fun _ => WhileUnused.pure ?_
    intro _ _ refused flat _
    exact (refused flat).elim
  | env, .giveBack span val => .simple fun flat => returnStatement_dry flat
  | env, .print span values => .simple fun flat => printStatement_dry flat
  | env, .empty span => .pure fun _ _ => rfl
  | env, .block span inner => block_whileUnused env inner

theorem block_whileUnused : (env : Environment) → (inner : Block) →
    WhileUnused (block env inner) fun code => env.Flat → inner.filled = true → Dry code
  | env, .mk _ items => itemCode_whileUnused env items

theorem itemCode_whileUnused : (env : Environment) → (items : List Item) →
    WhileUnused (itemCode env items) fun code =>
      env.Flat → Block.itemsFilled items = true → Dry code
  | env, [] => .pure fun _ _ => rfl
  | env, .declaration (.var decl) :: rest => by
    refine declareLocal_whileUnused.bind fun (code, inner) => ?_
    refine (itemCode_whileUnused inner rest).bind fun others => .pure ?_
    intro othersDry declared flat filled
    obtain ⟨declFilled, restFilled⟩ := Bool.and_eq_true_iff.mp filled
    obtain ⟨dry, innerFlat⟩ := declared flat declFilled
    simp [dry, othersDry innerFlat restFilled]
  | env, .declaration (.type decl) :: rest => by
    apply (itemCode_whileUnused (env.defineType decl) rest).imp
    intro code dry flat filled
    obtain ⟨typeFilled, restFilled⟩ := Bool.and_eq_true_iff.mp filled
    exact dry (flat.defineType (flat.resolve typeFilled)) restFilled
  | env, .declaration (.routine routine) :: rest => .lift nofun
  | env, .statement first :: rest => by
    refine (statement_whileUnused env first).bind fun code => ?_
    refine (itemCode_whileUnused env rest).bind fun others => .pure ?_
    intro othersDry dry flat filled
    obtain ⟨firstFilled, restFilled⟩ := Bool.and_eq_true_iff.mp filled
    simp [dry flat firstFilled, othersDry flat restFilled]

end

end Imperative.Lowering
