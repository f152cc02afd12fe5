import CilLift.Code.Instruction
import CilLift.Symbol

/-! # Operations and their consumers

    An operation is what an instruction asks for once its token, if it has one,
    is resolved. Short and long forms of an instruction are one operation. An
    instruction asks a resolver at most one question, of the kind that its
    opcode's shape names.

    Code is read from its start, instruction by instruction, and handed to a
    consumer: first the instruction with its offset, then its operation.
    Reading ends after the first `ret`. It stops early with the fault of a
    byte sequence that is no instruction, of a token that stands for nothing,
    or with the consumer's own fault. Bytes behind the `ret` are never looked
    at.
-/

namespace CilLift

/-! ## Operations -/

/-- An operation with its argument. -/
inductive Operation where
  | nop | dup | pop | ret
  | ldnull
  | ldcI4 (v : Int32)
  | ldcI8 (v : Int64)
  | ldcR4 (bits : UInt32)
  | ldcR8 (bits : UInt64)
  | ldstr (text : String)
  | ldarg (index : UInt8)
  | ldarga (index : UInt8)
  | starg (index : UInt8)
  | ldloc (index : UInt8)
  | ldloca (index : UInt8)
  | stloc (index : UInt8)
  | arith (a : Arith)
  | neg | not
  | conv (c : Conv)
  | box (type : Ty)
  | castclass (type : Ty)
  | isinst (type : Ty)
  | call (method : MethodRef)
  | callvirt (method : MethodRef)
  | newobj (ctor : ConstructorRef)
  | ldfld (field : FieldRef)
  | ldflda (field : FieldRef)
  | ldsfld (field : FieldRef)
  | ldsflda (field : FieldRef)
  | newarr (element : Ty)
  | ldlen
  | ldelem (element : Ty)

/-- The type that a numeric conversion yields. -/
def Conv.type : Conv → Ty
  | .i1 => .prim .sbyte
  | .i2 => .prim .int16
  | .i4 => .prim .int32
  | .i8 => .prim .int64
  | .u1 => .prim .byte
  | .u2 => .prim .uint16
  | .u4 => .prim .uint32
  | .u8 => .prim .uint64
  | .r4 => .prim .single
  | .r8 => .prim .double

/-- The element type that an array access names in its opcode. -/
def Elem.type : Elem → Ty
  | .i1 => .prim .sbyte
  | .u1 => .prim .byte
  | .i2 => .prim .int16
  | .u2 => .prim .uint16
  | .i4 => .prim .int32
  | .u4 => .prim .uint32
  | .i8 => .prim .int64
  | .i => .prim .intPtr
  | .r4 => .prim .single
  | .r8 => .prim .double
  | .ref => .prim .object

/-- Goes on with what a token stands for, or fails because it stands for
    nothing of that kind. -/
def resolved {α : Type} (offset : Nat) (token : Token) (kind : TokenKind) (found : Option α)
    (next : α → Operation) : Except Fault Operation :=
  match found with
  | some a => .ok (next a)
  | none => .error (.unresolved offset token kind)

/-- The operation of the instruction at `offset`. -/
def Instruction.operation (r : Resolver) (offset : Nat) : Instruction → Except Fault Operation
  | ⟨.nop, _⟩ => .ok .nop
  | ⟨.dup, _⟩ => .ok .dup
  | ⟨.pop, _⟩ => .ok .pop
  | ⟨.ret, _⟩ => .ok .ret
  | ⟨.ldnull, _⟩ => .ok .ldnull
  | ⟨.ldcI4M1, _⟩ => .ok (.ldcI4 (-1))
  | ⟨.ldcI4Short n, _⟩ => .ok (.ldcI4 (Int32.ofNat n))
  | ⟨.ldcI4S, v⟩ => .ok (.ldcI4 (Int8.toInt32 v))
  | ⟨.ldcI4, v⟩ => .ok (.ldcI4 v)
  | ⟨.ldcI8, v⟩ => .ok (.ldcI8 v)
  | ⟨.ldcR4, bits⟩ => .ok (.ldcR4 bits)
  | ⟨.ldcR8, bits⟩ => .ok (.ldcR8 bits)
  | ⟨.ldstr, t⟩ => resolved offset t .string (r.string t) .ldstr
  | ⟨.ldarg n, _⟩ => .ok (.ldarg (UInt8.ofNat n))
  | ⟨.ldloc n, _⟩ => .ok (.ldloc (UInt8.ofNat n))
  | ⟨.stloc n, _⟩ => .ok (.stloc (UInt8.ofNat n))
  | ⟨.ldargS, index⟩ => .ok (.ldarg index)
  | ⟨.ldargaS, index⟩ => .ok (.ldarga index)
  | ⟨.stargS, index⟩ => .ok (.starg index)
  | ⟨.ldlocS, index⟩ => .ok (.ldloc index)
  | ⟨.ldlocaS, index⟩ => .ok (.ldloca index)
  | ⟨.stlocS, index⟩ => .ok (.stloc index)
  | ⟨.arith a, _⟩ => .ok (.arith a)
  | ⟨.neg, _⟩ => .ok .neg
  | ⟨.not, _⟩ => .ok .not
  | ⟨.conv c, _⟩ => .ok (.conv c)
  | ⟨.box, t⟩ => resolved offset t .type (r.type t) .box
  | ⟨.castclass, t⟩ => resolved offset t .type (r.type t) .castclass
  | ⟨.isinst, t⟩ => resolved offset t .type (r.type t) .isinst
  | ⟨.call, t⟩ => resolved offset t .method (r.method t) .call
  | ⟨.callvirt, t⟩ => resolved offset t .method (r.method t) .callvirt
  | ⟨.newobj, t⟩ => resolved offset t .ctor (r.ctor t) .newobj
  | ⟨.ldfld, t⟩ => resolved offset t .field (r.field t) .ldfld
  | ⟨.ldflda, t⟩ => resolved offset t .field (r.field t) .ldflda
  | ⟨.ldsfld, t⟩ => resolved offset t .field (r.field t) .ldsfld
  | ⟨.ldsflda, t⟩ => resolved offset t .field (r.field t) .ldsflda
  | ⟨.newarr, t⟩ => resolved offset t .type (r.type t) .newarr
  | ⟨.ldlen, _⟩ => .ok .ldlen
  | ⟨.ldelemOf e, _⟩ => .ok (.ldelem e.type)
  | ⟨.ldelem, t⟩ => resolved offset t .type (r.type t) .ldelem

/-! ## Consumers -/

/-- Something with a state that takes instructions and operations, and may
    refuse them. What a refused call did to the state is kept. -/
structure Consumer (σ : Type) where
  observe : (offset : Nat) → Instruction → EStateM Fault σ Unit
  perform : Operation → EStateM Fault σ Unit

namespace Consumer

variable {σ : Type}

/-- Hands one instruction to the consumer. -/
def accept (c : Consumer σ) (r : Resolver) (offset : Nat) (i : Instruction) :
    EStateM Fault σ Unit := do
  c.observe offset i
  match i.operation r offset with
  | .error fault => throw fault
  | .ok operation => c.perform operation

/-- Hands over the instructions in the bytes that remain at `offset`. The next
    instruction stands where reading the present one stopped. -/
def feedFrom (c : Consumer σ) (r : Resolver) (offset : Nat) (bytes : List UInt8) :
    EStateM Fault σ Unit :=
  match _h : decode offset bytes with
  | .error fault => throw fault
  | .ok (i, rest) => do
    c.accept r offset i
    if i.opcode = .ret then pure ()
    else c.feedFrom r (offset + (bytes.length - rest.length)) rest
termination_by bytes.length
decreasing_by exact length_lt_of_decode _h

/-- Hands over the instructions of some code. -/
def feed (c : Consumer σ) (r : Resolver) (code : List UInt8) : EStateM Fault σ Unit :=
  c.feedFrom r 0 code

end Consumer

end CilLift
