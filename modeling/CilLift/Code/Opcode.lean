import CilLift.Text

/-! # Opcodes and tokens

    Code names methods, constructors, fields, types and strings by tokens. A
    token means nothing by itself; the instruction that holds it tells which
    of the five kinds it asks for.

    The opcodes that are understood are in one table: the number that stands in
    the code, the mnemonic and the shape of the operand that follows. Opcodes
    that differ only in the operator or the numeric kind they name are grouped,
    and the short forms with a built-in index share a constructor.

    Main statements: every opcode is in `Opcode.all`, and `Opcode.ofNumber?`
    finds every opcode by its number.
-/

namespace CilLift

/-! ## Tokens -/

/-- A number that stands for something outside the code. -/
structure Token where
  value : UInt32
  deriving DecidableEq, Repr

/-- A token as listings and messages write it. -/
def Token.render (t : Token) : String :=
  "0x" ++ Text.hex 8 t.value.toNat

/-- What a token is expected to stand for. -/
inductive TokenKind where
  | method | ctor | field | type | string
  deriving DecidableEq, Repr

/-- The kind's name in messages. -/
def TokenKind.name : TokenKind → String
  | .method => "method"
  | .ctor => "constructor"
  | .field => "field"
  | .type => "type"
  | .string => "string"

/-! ## Opcodes -/

/-- What stands in the code behind an opcode. -/
inductive Shape where
  | empty
  /-- The index of an argument or a local variable. -/
  | slot
  | int8 | int32 | int64
  | single | double
  | token (kind : TokenKind)
  deriving DecidableEq, Repr

/-- Operators on two operands, as opcodes tell them apart. The forms marked
    `Un` take their operands as unsigned or unordered. -/
inductive Arith where
  | add | sub | mul | div | divUn | rem | remUn
  | and | or | xor | shl | shr | shrUn
  | ceq | cgt | cgtUn | clt | cltUn
  deriving DecidableEq, Repr

/-- Targets of the numeric conversions. -/
inductive Conv where
  | i1 | i2 | i4 | i8 | u1 | u2 | u4 | u8 | r4 | r8
  deriving DecidableEq, Repr

/-- Element kinds that an array access can name without a token. -/
inductive Elem where
  | i1 | u1 | i2 | u2 | i4 | u4 | i8 | i | r4 | r8 | ref
  deriving DecidableEq, Repr

/-- An opcode. -/
inductive Opcode where
  | nop | dup | pop | ret
  | ldnull
  | ldcI4M1
  | ldcI4Short (n : Fin 9)
  | ldcI4S | ldcI4 | ldcI8 | ldcR4 | ldcR8 | ldstr
  | ldarg (n : Fin 4)
  | ldloc (n : Fin 4)
  | stloc (n : Fin 4)
  | ldargS | ldargaS | stargS | ldlocS | ldlocaS | stlocS
  | arith (a : Arith)
  | neg | not
  | conv (c : Conv)
  | box | castclass | isinst
  | call | callvirt | newobj
  | ldfld | ldflda | ldsfld | ldsflda
  | newarr | ldlen
  | ldelemOf (e : Elem)
  | ldelem
  deriving DecidableEq, Repr

/-- A row of the opcode table. -/
structure Opcode.Row where
  /-- One byte, or `0xfe` and a second byte as one big-endian number. -/
  number : Nat
  mnemonic : String
  shape : Shape
  deriving DecidableEq, Repr

/-! ## The table -/

namespace Arith

/-- Number and mnemonic. -/
def row : Arith → Nat × String
  | .add => (0x58, "add")
  | .sub => (0x59, "sub")
  | .mul => (0x5a, "mul")
  | .div => (0x5b, "div")
  | .divUn => (0x5c, "div.un")
  | .rem => (0x5d, "rem")
  | .remUn => (0x5e, "rem.un")
  | .and => (0x5f, "and")
  | .or => (0x60, "or")
  | .xor => (0x61, "xor")
  | .shl => (0x62, "shl")
  | .shr => (0x63, "shr")
  | .shrUn => (0x64, "shr.un")
  | .ceq => (0xfe01, "ceq")
  | .cgt => (0xfe02, "cgt")
  | .cgtUn => (0xfe03, "cgt.un")
  | .clt => (0xfe04, "clt")
  | .cltUn => (0xfe05, "clt.un")

/-- Every operator once. -/
def all : List Arith :=
  [.add, .sub, .mul, .div, .divUn, .rem, .remUn, .and, .or, .xor, .shl, .shr, .shrUn,
    .ceq, .cgt, .cgtUn, .clt, .cltUn]

theorem mem_all (a : Arith) : a ∈ all := by
  cases a <;> decide

end Arith

namespace Conv

/-- Number and mnemonic. -/
def row : Conv → Nat × String
  | .i1 => (0x67, "conv.i1")
  | .i2 => (0x68, "conv.i2")
  | .i4 => (0x69, "conv.i4")
  | .i8 => (0x6a, "conv.i8")
  | .r4 => (0x6b, "conv.r4")
  | .r8 => (0x6c, "conv.r8")
  | .u4 => (0x6d, "conv.u4")
  | .u8 => (0x6e, "conv.u8")
  | .u2 => (0xd1, "conv.u2")
  | .u1 => (0xd2, "conv.u1")

/-- Every conversion target once. -/
def all : List Conv :=
  [.i1, .i2, .i4, .i8, .u1, .u2, .u4, .u8, .r4, .r8]

theorem mem_all (c : Conv) : c ∈ all := by
  cases c <;> decide

end Conv

namespace Elem

/-- Number and mnemonic. -/
def row : Elem → Nat × String
  | .i1 => (0x90, "ldelem.i1")
  | .u1 => (0x91, "ldelem.u1")
  | .i2 => (0x92, "ldelem.i2")
  | .u2 => (0x93, "ldelem.u2")
  | .i4 => (0x94, "ldelem.i4")
  | .u4 => (0x95, "ldelem.u4")
  | .i8 => (0x96, "ldelem.i8")
  | .i => (0x97, "ldelem.i")
  | .r4 => (0x98, "ldelem.r4")
  | .r8 => (0x99, "ldelem.r8")
  | .ref => (0x9a, "ldelem.ref")

/-- Every element kind once. -/
def all : List Elem :=
  [.i1, .u1, .i2, .u2, .i4, .u4, .i8, .i, .r4, .r8, .ref]

theorem mem_all (e : Elem) : e ∈ all := by
  cases e <;> decide

end Elem

namespace Opcode

/-- A built-in index as the last part of a mnemonic. -/
def indexed (stem : String) (n : Nat) : String :=
  stem ++ String.singleton (Nat.digitChar n)

/-- The table row of an opcode. -/
def row : Opcode → Row
  | .nop => ⟨0x00, "nop", .empty⟩
  | .ldarg n => ⟨0x02 + n, indexed "ldarg." n, .empty⟩
  | .ldloc n => ⟨0x06 + n, indexed "ldloc." n, .empty⟩
  | .stloc n => ⟨0x0a + n, indexed "stloc." n, .empty⟩
  | .ldargS => ⟨0x0e, "ldarg.s", .slot⟩
  | .ldargaS => ⟨0x0f, "ldarga.s", .slot⟩
  | .stargS => ⟨0x10, "starg.s", .slot⟩
  | .ldlocS => ⟨0x11, "ldloc.s", .slot⟩
  | .ldlocaS => ⟨0x12, "ldloca.s", .slot⟩
  | .stlocS => ⟨0x13, "stloc.s", .slot⟩
  | .ldnull => ⟨0x14, "ldnull", .empty⟩
  | .ldcI4M1 => ⟨0x15, "ldc.i4.m1", .empty⟩
  | .ldcI4Short n => ⟨0x16 + n, indexed "ldc.i4." n, .empty⟩
  | .ldcI4S => ⟨0x1f, "ldc.i4.s", .int8⟩
  | .ldcI4 => ⟨0x20, "ldc.i4", .int32⟩
  | .ldcI8 => ⟨0x21, "ldc.i8", .int64⟩
  | .ldcR4 => ⟨0x22, "ldc.r4", .single⟩
  | .ldcR8 => ⟨0x23, "ldc.r8", .double⟩
  | .dup => ⟨0x25, "dup", .empty⟩
  | .pop => ⟨0x26, "pop", .empty⟩
  | .call => ⟨0x28, "call", .token .method⟩
  | .ret => ⟨0x2a, "ret", .empty⟩
  | .arith a => ⟨a.row.1, a.row.2, .empty⟩
  | .neg => ⟨0x65, "neg", .empty⟩
  | .not => ⟨0x66, "not", .empty⟩
  | .conv c => ⟨c.row.1, c.row.2, .empty⟩
  | .callvirt => ⟨0x6f, "callvirt", .token .method⟩
  | .ldstr => ⟨0x72, "ldstr", .token .string⟩
  | .newobj => ⟨0x73, "newobj", .token .ctor⟩
  | .castclass => ⟨0x74, "castclass", .token .type⟩
  | .isinst => ⟨0x75, "isinst", .token .type⟩
  | .ldfld => ⟨0x7b, "ldfld", .token .field⟩
  | .ldflda => ⟨0x7c, "ldflda", .token .field⟩
  | .ldsfld => ⟨0x7e, "ldsfld", .token .field⟩
  | .ldsflda => ⟨0x7f, "ldsflda", .token .field⟩
  | .box => ⟨0x8c, "box", .token .type⟩
  | .newarr => ⟨0x8d, "newarr", .token .type⟩
  | .ldlen => ⟨0x8e, "ldlen", .empty⟩
  | .ldelemOf e => ⟨e.row.1, e.row.2, .empty⟩
  | .ldelem => ⟨0xa3, "ldelem", .token .type⟩

/-- The opcodes that are not part of a group. -/
def single : List Opcode :=
  [.nop, .dup, .pop, .ret, .ldnull, .ldcI4M1, .ldcI4S, .ldcI4, .ldcI8, .ldcR4, .ldcR8, .ldstr,
    .ldargS, .ldargaS, .stargS, .ldlocS, .ldlocaS, .stlocS, .neg, .not, .box, .castclass, .isinst,
    .call, .callvirt, .newobj, .ldfld, .ldflda, .ldsfld, .ldsflda, .newarr, .ldlen, .ldelem]

/-- The opcodes that are part of a group. -/
def grouped : List Opcode :=
  [(List.finRange 9).map ldcI4Short, (List.finRange 4).map ldarg, (List.finRange 4).map ldloc,
    (List.finRange 4).map stloc, Arith.all.map arith, Conv.all.map conv,
    Elem.all.map ldelemOf].flatten

/-- Every opcode once. -/
def all : List Opcode :=
  single ++ grouped

/-- The number in the code. -/
def number (o : Opcode) : Nat := o.row.number

/-- The name in listings. -/
def mnemonic (o : Opcode) : String := o.row.mnemonic

/-- The shape of the operand. -/
def shape (o : Opcode) : Shape := o.row.shape

/-- The number that an instruction tells when it is asked for its opcode. This
    list is kept apart from the table that instructions are read by. -/
def reported : Opcode → Nat
  | .nop => 0x00
  | .ldarg 0 => 0x02 | .ldarg 1 => 0x03 | .ldarg 2 => 0x04 | .ldarg 3 => 0x05
  | .ldloc 0 => 0x06 | .ldloc 1 => 0x07 | .ldloc 2 => 0x08 | .ldloc 3 => 0x09
  | .stloc 0 => 0x0a | .stloc 1 => 0x0b | .stloc 2 => 0x0c | .stloc 3 => 0x0d
  | .ldargS => 0x0e | .ldargaS => 0x0f | .stargS => 0x10
  | .ldlocS => 0x11 | .ldlocaS => 0x12 | .stlocS => 0x13
  | .ldnull => 0x14 | .ldcI4M1 => 0x15
  | .ldcI4Short 0 => 0x16 | .ldcI4Short 1 => 0x17 | .ldcI4Short 2 => 0x18
  | .ldcI4Short 3 => 0x19 | .ldcI4Short 4 => 0x1a | .ldcI4Short 5 => 0x1b
  | .ldcI4Short 6 => 0x1c | .ldcI4Short 7 => 0x1d | .ldcI4Short 8 => 0x1e
  | .ldcI4S => 0x1f | .ldcI4 => 0x20 | .ldcI8 => 0x21 | .ldcR4 => 0x22 | .ldcR8 => 0x23
  | .dup => 0x25 | .pop => 0x26 | .call => 0x28 | .ret => 0x2a
  | .arith .add => 0x58 | .arith .sub => 0x59 | .arith .mul => 0x5a
  | .arith .div => 0x5b | .arith .divUn => 0x5c | .arith .rem => 0x5d | .arith .remUn => 0x5e
  | .arith .and => 0x5f | .arith .or => 0x60 | .arith .xor => 0x61
  | .arith .shl => 0x62 | .arith .shr => 0x63 | .arith .shrUn => 0x64
  | .neg => 0x65 | .not => 0x66
  | .conv .i1 => 0x67 | .conv .i2 => 0x68 | .conv .i4 => 0x69 | .conv .i8 => 0x6a
  | .conv .r4 => 0x6b | .conv .r8 => 0x6c | .conv .u4 => 0x6d | .conv .u8 => 0x6e
  | .callvirt => 0x6f | .ldstr => 0x72 | .newobj => 0x73 | .castclass => 0x74 | .isinst => 0x75
  | .ldfld => 0x7b | .ldflda => 0x7c | .ldsfld => 0x7e | .ldsflda => 0x7f
  | .box => 0x8c | .newarr => 0x8d | .ldlen => 0x8e
  | .ldelemOf .i1 => 0x90 | .ldelemOf .u1 => 0x91 | .ldelemOf .i2 => 0x92 | .ldelemOf .u2 => 0x93
  | .ldelemOf .i4 => 0x94 | .ldelemOf .u4 => 0x95 | .ldelemOf .i8 => 0x96 | .ldelemOf .i => 0x97
  | .ldelemOf .r4 => 0x98 | .ldelemOf .r8 => 0x99 | .ldelemOf .ref => 0x9a
  | .ldelem => 0xa3
  | .conv .u2 => 0xd1 | .conv .u1 => 0xd2
  | .arith .ceq => 0xfe01 | .arith .cgt => 0xfe02 | .arith .cgtUn => 0xfe03
  | .arith .clt => 0xfe04 | .arith .cltUn => 0xfe05

/-- The opcode of a number. -/
def ofNumber? (number : Nat) : Option Opcode :=
  all.find? (·.number = number)

/-- How many bytes the opcode itself takes. -/
def width (o : Opcode) : Nat :=
  if 0xff < o.number then 2 else 1

/-- The bytes of the opcode itself. -/
def bytes (o : Opcode) : List UInt8 :=
  if 0xff < o.number then [UInt8.ofNat (o.number / 256), UInt8.ofNat (o.number % 256)]
  else [UInt8.ofNat o.number]

@[simp] theorem length_bytes (o : Opcode) : o.bytes.length = o.width := by
  simp only [bytes, width]
  split <;> rfl

theorem mem_all (o : Opcode) : o ∈ all := by
  cases o with
  | ldcI4Short | ldarg | ldloc | stloc | arith | conv | ldelemOf =>
    exact List.mem_append_right _
      (by simp [grouped, Arith.mem_all, Conv.mem_all, Elem.mem_all])
  | _ => exact List.mem_append_left _ (by decide)

/-- No two opcodes of the table have the same number. -/
theorem ofNumber?_number (o : Opcode) : ofNumber? o.number = some o := by
  have h : ∀ o ∈ all, ofNumber? o.number = some o := by decide +kernel
  exact h o (mem_all o)

end Opcode

end CilLift
