/-!
# Instructions

The instructions of a function body.  Structured control is a tree: a block, a loop or
a conditional holds the instructions inside it, and the mark that closes it is only
written when the tree is encoded.  All blocks have the empty type, so they leave the
stack as they found it.
-/

namespace Imperative.Wasm

/-- The type of a value on the stack. -/
inductive ValueType where
  | i32
  | f64
  deriving DecidableEq

namespace ValueType

def code : ValueType → UInt8
  | i32 => 0x7F
  | f64 => 0x7C

def name : ValueType → String
  | i32 => "i32"
  | f64 => "f64"

def naturalAlign : ValueType → UInt32
  | i32 => 2
  | f64 => 3

end ValueType

/-- How memory is accessed: the alignment as an exponent of two, and an offset. -/
structure MemArg where
  align : UInt32
  offset : UInt32
  deriving DecidableEq

def MemArg.natural (type : ValueType) (offset : UInt32) : MemArg :=
  { align := type.naturalAlign, offset }

/-- The instructions that only compute on the stack. -/
inductive Numeric where
  | i32Eqz
  | i32Eq
  | i32Ne
  | i32LtS
  | i32GtS
  | i32LeS
  | i32GeS
  | f64Eq
  | f64Ne
  | f64Lt
  | f64Gt
  | f64Le
  | f64Ge
  | i32Add
  | i32Sub
  | i32Mul
  | i32DivS
  | i32RemS
  | i32And
  | i32Or
  | i32Xor
  | f64Neg
  | f64Trunc
  | f64Add
  | f64Sub
  | f64Mul
  | f64Div
  | i32TruncF64S
  | f64ConvertI32S
  deriving DecidableEq

namespace Numeric

def opcode : Numeric → UInt8
  | i32Eqz => 0x45
  | i32Eq => 0x46
  | i32Ne => 0x47
  | i32LtS => 0x48
  | i32GtS => 0x4A
  | i32LeS => 0x4C
  | i32GeS => 0x4E
  | f64Eq => 0x61
  | f64Ne => 0x62
  | f64Lt => 0x63
  | f64Gt => 0x64
  | f64Le => 0x65
  | f64Ge => 0x66
  | i32Add => 0x6A
  | i32Sub => 0x6B
  | i32Mul => 0x6C
  | i32DivS => 0x6D
  | i32RemS => 0x6F
  | i32And => 0x71
  | i32Or => 0x72
  | i32Xor => 0x73
  | f64Neg => 0x9A
  | f64Trunc => 0x9D
  | f64Add => 0xA0
  | f64Sub => 0xA1
  | f64Mul => 0xA2
  | f64Div => 0xA3
  | i32TruncF64S => 0xAA
  | f64ConvertI32S => 0xB7

def mnemonic : Numeric → String
  | i32Eqz => "i32.eqz"
  | i32Eq => "i32.eq"
  | i32Ne => "i32.ne"
  | i32LtS => "i32.lt_s"
  | i32GtS => "i32.gt_s"
  | i32LeS => "i32.le_s"
  | i32GeS => "i32.ge_s"
  | f64Eq => "f64.eq"
  | f64Ne => "f64.ne"
  | f64Lt => "f64.lt"
  | f64Gt => "f64.gt"
  | f64Le => "f64.le"
  | f64Ge => "f64.ge"
  | i32Add => "i32.add"
  | i32Sub => "i32.sub"
  | i32Mul => "i32.mul"
  | i32DivS => "i32.div_s"
  | i32RemS => "i32.rem_s"
  | i32And => "i32.and"
  | i32Or => "i32.or"
  | i32Xor => "i32.xor"
  | f64Neg => "f64.neg"
  | f64Trunc => "f64.trunc"
  | f64Add => "f64.add"
  | f64Sub => "f64.sub"
  | f64Mul => "f64.mul"
  | f64Div => "f64.div"
  | i32TruncF64S => "i32.trunc_f64_s"
  | f64ConvertI32S => "f64.convert_i32_s"

def all : List Numeric :=
  [i32Eqz, i32Eq, i32Ne, i32LtS, i32GtS, i32LeS, i32GeS, f64Eq, f64Ne, f64Lt, f64Gt, f64Le, f64Ge,
    i32Add, i32Sub, i32Mul, i32DivS, i32RemS, i32And, i32Or, i32Xor, f64Neg, f64Trunc, f64Add,
    f64Sub, f64Mul, f64Div, i32TruncF64S, f64ConvertI32S]

def ofMnemonic? (name : String) : Option Numeric :=
  all.find? fun operation => operation.mnemonic = name

end Numeric

/-- An instruction.  Labels count enclosing blocks from the innermost one. -/
inductive Instruction where
  | unreachable
  | nop
  | block (body : List Instruction)
  | loop (body : List Instruction)
  | conditional (consequent alternative : List Instruction)
  | br (label : Nat)
  | brIf (label : Nat)
  | ret
  | call (function : Nat)
  | drop
  | localGet (index : Nat)
  | localSet (index : Nat)
  | globalGet (index : Nat)
  | globalSet (index : Nat)
  | load (type : ValueType) (access : MemArg)
  | store (type : ValueType) (access : MemArg)
  | i32Const (value : Int32)
  | f64Const (value : Float)
  | numeric (operation : Numeric)

namespace Instruction

def opcode : Instruction → UInt8
  | unreachable => 0x00
  | nop => 0x01
  | block _ => 0x02
  | loop _ => 0x03
  | conditional _ _ => 0x04
  | br _ => 0x0C
  | brIf _ => 0x0D
  | ret => 0x0F
  | call _ => 0x10
  | drop => 0x1A
  | localGet _ => 0x20
  | localSet _ => 0x21
  | globalGet _ => 0x23
  | globalSet _ => 0x24
  | load .i32 _ => 0x28
  | load .f64 _ => 0x2B
  | store .i32 _ => 0x36
  | store .f64 _ => 0x39
  | i32Const _ => 0x41
  | f64Const _ => 0x44
  | numeric operation => operation.opcode

def mnemonic : Instruction → String
  | unreachable => "unreachable"
  | nop => "nop"
  | block _ => "block"
  | loop _ => "loop"
  | conditional _ _ => "if"
  | br _ => "br"
  | brIf _ => "br_if"
  | ret => "return"
  | call _ => "call"
  | drop => "drop"
  | localGet _ => "local.get"
  | localSet _ => "local.set"
  | globalGet _ => "global.get"
  | globalSet _ => "global.set"
  | load .i32 _ => "i32.load"
  | load .f64 _ => "f64.load"
  | store .i32 _ => "i32.store"
  | store .f64 _ => "f64.store"
  | i32Const _ => "i32.const"
  | f64Const _ => "f64.const"
  | numeric operation => operation.mnemonic

end Instruction

abbrev Code := List Instruction

end Imperative.Wasm
