import Imperative.Wasm.Module

/-!
# Validation

The typing rules that a module has to obey before it may run.  A stack is a list of value types, the
top first, and every rule leaves what lies deeper on it alone.  All blocks have the empty type, so a
label is no more than the number of blocks between it and its use.
-/

namespace Imperative.Wasm

/-- The types of the operands of a computing instruction, in order, and of its result. -/
def Numeric.signature : Numeric → List ValueType × ValueType
  | i32Eqz => ([.i32], .i32)
  | i32Eq | i32Ne | i32LtS | i32GtS | i32LeS | i32GeS => ([.i32, .i32], .i32)
  | f64Eq | f64Ne | f64Lt | f64Gt | f64Le | f64Ge => ([.f64, .f64], .i32)
  | i32Add | i32Sub | i32Mul | i32DivS | i32RemS => ([.i32, .i32], .i32)
  | i32And | i32Or | i32Xor => ([.i32, .i32], .i32)
  | f64Neg | f64Trunc => ([.f64], .f64)
  | f64Add | f64Sub | f64Mul | f64Div => ([.f64, .f64], .f64)
  | i32TruncF64S => ([.f64], .i32)
  | f64ConvertI32S => ([.i32], .f64)

/-- What the code of a function may refer to. -/
structure Context where
  functions : Nat → Option FuncType
  globals : List Global
  locals : List ValueType
  results : List ValueType
  labels : Nat

/-- The context inside of a block. -/
def Context.inside (context : Context) : Context := { context with labels := context.labels + 1 }

@[simp]
theorem Context.inside_locals (context : Context) : context.inside.locals = context.locals := rfl

@[simp]
theorem Context.inside_labels (context : Context) :
    context.inside.labels = context.labels + 1 := rfl

mutual

/-- The instruction takes the stack `before` to the stack `after`. -/
def Instruction.Typed (context : Context) : Instruction → List ValueType → List ValueType → Prop
  | .unreachable, _, _ => True
  | .nop, pre, post => post = pre
  | .block body, pre, post => post = pre ∧ Code.Typed context.inside body [] []
  | .loop body, pre, post => post = pre ∧ Code.Typed context.inside body [] []
  | .conditional consequent alternative, pre, post =>
    pre = .i32 :: post ∧ Code.Typed context.inside consequent [] [] ∧
      Code.Typed context.inside alternative [] []
  | .br label, _, _ => label < context.labels
  | .brIf label, pre, post => pre = .i32 :: post ∧ label < context.labels
  | .ret, pre, _ => ∃ deeper, pre = context.results.reverse ++ deeper
  | .call function, pre, post =>
    ∃ type deeper, context.functions function = some type ∧
      pre = type.parameters.reverse ++ deeper ∧ post = type.results.reverse ++ deeper
  | .drop, pre, post => ∃ type, pre = type :: post
  | .localGet index, pre, post => ∃ type, context.locals[index]? = some type ∧ post = type :: pre
  | .localSet index, pre, post => ∃ type, context.locals[index]? = some type ∧ pre = type :: post
  | .globalGet index, pre, post =>
    ∃ global, context.globals[index]? = some global ∧ post = global.type :: pre
  | .globalSet index, pre, post =>
    ∃ global, context.globals[index]? = some global ∧ global.mutable ∧ pre = global.type :: post
  | .load type access, pre, post =>
    access.align ≤ type.naturalAlign ∧ ∃ deeper, pre = .i32 :: deeper ∧ post = type :: deeper
  | .store type access, pre, post => access.align ≤ type.naturalAlign ∧ pre = type :: .i32 :: post
  | .i32Const _, pre, post => post = .i32 :: pre
  | .f64Const _, pre, post => post = .f64 :: pre
  | .numeric operation, pre, post =>
    ∃ deeper, pre = operation.signature.1.reverse ++ deeper ∧ post = operation.signature.2 :: deeper

/-- The instructions one after the other take the stack `before` to the stack `after`. -/
def Code.Typed (context : Context) : List Instruction → List ValueType → List ValueType → Prop
  | [], pre, post => post = pre
  | first :: rest, pre, post =>
    ∃ mid, Instruction.Typed context first pre mid ∧ Code.Typed context rest mid post

end

/-- The type of a function, imported or not. -/
def Module.functionType? (module : Module) (index : Nat) : Option FuncType :=
  ((module.imports.map Import.typeIndex ++ module.functions.map Function.typeIndex)[index]?).bind
    fun typeIndex => module.types[typeIndex]?

/-- What the body of a function of the type, with so many further locals, may refer to. -/
def Module.context (module : Module) (type : FuncType) (locals : List ValueType) : Context :=
  { functions := module.functionType?
    globals := module.globals
    locals := type.parameters ++ locals
    results := type.results
    labels := 0 }

/-- The body of the function obeys the rules and leaves exactly the results of its type. -/
def Function.Valid (module : Module) (function : Function) : Prop :=
  ∃ type, module.types[function.typeIndex]? = some type ∧
    Code.Typed (module.context type function.locals) function.body [] type.results.reverse

@[simp]
theorem Code.typed_nil : Code.Typed context [] pre post ↔ post = pre := by
  rw [Code.Typed]

@[simp]
theorem Code.typed_cons :
    Code.Typed context (first :: rest) pre post ↔
      ∃ mid, Instruction.Typed context first pre mid ∧ Code.Typed context rest mid post := by
  rw [Code.Typed]

theorem Code.typed_append :
    Code.Typed context (first ++ second) pre post ↔
      ∃ mid, Code.Typed context first pre mid ∧ Code.Typed context second mid post := by
  induction first generalizing pre with
  | nil => simp
  | cons instr rest ih =>
    simp only [List.cons_append, Code.typed_cons, ih]
    constructor
    · rintro ⟨next, head, mid, tail, remaining⟩
      exact ⟨mid, ⟨next, head, tail⟩, remaining⟩
    · rintro ⟨mid, ⟨next, head, tail⟩, remaining⟩
      exact ⟨next, head, mid, tail, remaining⟩

theorem Code.Typed.append (typedFirst : Code.Typed context first pre mid)
    (typedSecond : Code.Typed context second mid post) :
    Code.Typed context (first ++ second) pre post :=
  Code.typed_append.mpr ⟨mid, typedFirst, typedSecond⟩

theorem Code.Typed.cons (typedFirst : Instruction.Typed context first pre mid)
    (typedRest : Code.Typed context rest mid post) : Code.Typed context (first :: rest) pre post :=
  Code.typed_cons.mpr ⟨mid, typedFirst, typedRest⟩

/-- The second context has at least the locals and the labels of the first. -/
structure Context.Extends (smaller larger : Context) : Prop where
  functions : larger.functions = smaller.functions
  globals : larger.globals = smaller.globals
  locals : smaller.locals <+: larger.locals
  results : larger.results = smaller.results
  labels : smaller.labels ≤ larger.labels

theorem Context.Extends.inside {smaller larger : Context} (extension : smaller.Extends larger) :
    smaller.inside.Extends larger.inside where
  functions := extension.functions
  globals := extension.globals
  locals := extension.locals
  results := extension.results
  labels := Nat.succ_le_succ extension.labels

theorem Context.Extends.local? {smaller larger : Context} (extension : smaller.Extends larger)
    {index : Nat} (found : smaller.locals[index]? = some type) :
      larger.locals[index]? = some type := by
  obtain ⟨more, appended⟩ := extension.locals
  have inBounds : index < smaller.locals.length := (List.getElem?_eq_some_iff.mp found).1
  rw [← appended, List.getElem?_append_left inBounds]
  exact found

mutual

theorem Instruction.Typed.weaken {smaller larger : Context} (extension : smaller.Extends larger) :
    (instr : Instruction) → {pre post : List ValueType} →
      Instruction.Typed smaller instr pre post → Instruction.Typed larger instr pre post
  | .unreachable, _, _, _ => by simp only [Instruction.Typed]
  | .nop, _, _, typed | .drop, _, _, typed | .load _ _, _, _, typed | .store _ _, _, _, typed
  | .i32Const _, _, _, typed | .f64Const _, _, _, typed | .numeric _, _, _, typed =>
    by simpa only [Instruction.Typed] using typed
  | .block body, _, _, typed => ⟨typed.1, .weaken extension.inside body typed.2⟩
  | .loop body, _, _, typed => ⟨typed.1, .weaken extension.inside body typed.2⟩
  | .conditional consequent alternative, _, _, typed =>
    ⟨typed.1, .weaken extension.inside consequent typed.2.1,
      .weaken extension.inside alternative typed.2.2⟩
  | .br label, _, _, typed => Nat.lt_of_lt_of_le typed extension.labels
  | .brIf label, _, _, typed => ⟨typed.1, Nat.lt_of_lt_of_le typed.2 extension.labels⟩
  | .ret, _, _, typed => by
    simpa only [Instruction.Typed, extension.results] using typed
  | .call function, _, _, typed => by
    simpa only [Instruction.Typed, extension.functions] using typed
  | .localGet index, _, _, typed => by
    obtain ⟨type, found, pushed⟩ := typed
    exact ⟨type, extension.local? found, pushed⟩
  | .localSet index, _, _, typed => by
    obtain ⟨type, found, popped⟩ := typed
    exact ⟨type, extension.local? found, popped⟩
  | .globalGet index, _, _, typed => by
    simpa only [Instruction.Typed, extension.globals] using typed
  | .globalSet index, _, _, typed => by
    simpa only [Instruction.Typed, extension.globals] using typed

theorem Code.Typed.weaken (extension : smaller.Extends larger) :
    (code : List Instruction) → {pre post : List ValueType} →
      Code.Typed smaller code pre post → Code.Typed larger code pre post
  | [], _, _, typed => by simpa only [Code.typed_nil] using typed
  | first :: rest, _, _, typed => by
    obtain ⟨mid, head, tail⟩ := Code.typed_cons.mp typed
    exact .cons (.weaken extension first head) (.weaken extension rest tail)

end

mutual

/-- The computing instructions in an instruction, at any depth. -/
@[simp]
def Instruction.operations : Instruction → List Numeric
  | .numeric operation => [operation]
  | .block body => codeOperations body
  | .loop body => codeOperations body
  | .conditional consequent alternative => codeOperations consequent ++ codeOperations alternative
  | _ => []

/-- The computing instructions in code, at any depth. -/
@[simp]
def codeOperations : List Instruction → List Numeric
  | [] => []
  | first :: rest => first.operations ++ codeOperations rest

end

theorem codeOperations_append :
    codeOperations (first ++ second) = codeOperations first ++ codeOperations second := by
  induction first with
  | nil => rfl
  | cons instr rest ih => simp only [List.cons_append, codeOperations, ih, List.append_assoc]

def Spares (code : Code) : Prop := .i32TruncF64S ∉ codeOperations code

@[simp]
theorem spares_nil : Spares [] := by
  simp [Spares]

@[simp]
theorem spares_cons : Spares (instr :: rest) ↔ .i32TruncF64S ∉ instr.operations ∧ Spares rest := by
  simp [Spares]

@[simp]
theorem spares_append : Spares (first ++ second) ↔ Spares first ∧ Spares second := by
  simp [Spares, codeOperations_append]

@[simp]
theorem not_mem_codeOperations : .i32TruncF64S ∉ codeOperations code ↔ Spares code :=
  .rfl

end Imperative.Wasm
