import CilLift.Code.Opcode
import CilLift.Fault

/-! # Instructions

    An instruction is an opcode with an operand of the opcode's shape. This
    module writes instructions as bytes and reads them back. Reading works on
    the bytes that remain; the offset serves only to say where a fault
    occurred.

    Operands stand in code least significant byte first: `littleEndian` writes
    a number in a given width and `ofLittleEndian` reads it back.
-/

namespace CilLift

/-! ## Numbers as bytes -/

namespace Code

/-- The `width` lowest bytes of `n`, least significant first. -/
def littleEndian : (width n : Nat) → List UInt8
  | 0, _ => []
  | width + 1, n => UInt8.ofNat (n % 256) :: littleEndian width (n / 256)

/-- The number whose bytes, least significant first, are given. -/
def ofLittleEndian : List UInt8 → Nat
  | [] => 0
  | b :: bs => b.toNat + 256 * ofLittleEndian bs

@[simp] theorem length_littleEndian (width n : Nat) : (littleEndian width n).length = width := by
  induction width generalizing n with
  | zero => rfl
  | succ width ih => simp [littleEndian, ih]

theorem ofLittleEndian_lt (bs : List UInt8) : ofLittleEndian bs < Nat.pow 256 bs.length := by
  induction bs with
  | nil => exact Nat.zero_lt_one
  | cons b bs ih =>
    have hb := b.toNat_lt
    have hpow : Nat.pow 256 (b :: bs).length = Nat.pow 256 bs.length * 256 := rfl
    simp only [ofLittleEndian, hpow]
    omega

/-- Reading undoes writing when the number fits the width. -/
theorem ofLittleEndian_littleEndian {width n : Nat} (h : n < Nat.pow 256 width) :
    ofLittleEndian (littleEndian width n) = n := by
  induction width generalizing n with
  | zero => exact (Nat.lt_one_iff.mp h).symm
  | succ width ih =>
    have hpow : Nat.pow 256 (width + 1) = Nat.pow 256 width * 256 := rfl
    have hq : n / 256 < Nat.pow 256 width := by omega
    have hb : (UInt8.ofNat (n % 256)).toNat = n % 256 := by
      simp
    simp only [littleEndian, ofLittleEndian, ih hq, hb]
    omega

/-- Writing undoes reading in the width of what was read. -/
theorem littleEndian_ofLittleEndian (bs : List UInt8) :
    littleEndian bs.length (ofLittleEndian bs) = bs := by
  induction bs with
  | nil => rfl
  | cons b bs ih =>
    have hb := b.toNat_lt
    have hq : (b.toNat + 256 * ofLittleEndian bs) / 256 = ofLittleEndian bs := by omega
    have hr : (b.toNat + 256 * ofLittleEndian bs) % 256 = b.toNat := by omega
    simp only [List.length_cons, littleEndian, ofLittleEndian, hq, hr, ih, UInt8.ofNat_toNat]

end Code

/-! ## Operands -/

namespace Shape

/-- The operands of a shape. Floating-point operands are bit patterns. -/
def Operand : Shape → Type
  | .empty => Unit
  | .slot => UInt8
  | .int8 => Int8
  | .int32 => Int32
  | .int64 => Int64
  | .single => UInt32
  | .double => UInt64
  | .token _ => Token

/-- How many bytes an operand takes. -/
def width : Shape → Nat
  | .empty => 0
  | .slot | .int8 => 1
  | .int32 | .single | .token _ => 4
  | .int64 | .double => 8

/-- The operand's bit pattern. -/
def toNat : (s : Shape) → s.Operand → Nat
  | .empty, _ => 0
  | .slot, n => UInt8.toNat n
  | .int8, n => (Int8.toUInt8 n).toNat
  | .int32, n => (Int32.toUInt32 n).toNat
  | .int64, n => (Int64.toUInt64 n).toNat
  | .single, bits => UInt32.toNat bits
  | .double, bits => UInt64.toNat bits
  | .token _, t => (Token.value t).toNat

/-- The operand with a given bit pattern. -/
def ofNat : (s : Shape) → Nat → s.Operand
  | .empty, _ => ()
  | .slot, n => UInt8.ofNat n
  | .int8, n => (UInt8.ofNat n).toInt8
  | .int32, n => (UInt32.ofNat n).toInt32
  | .int64, n => (UInt64.ofNat n).toInt64
  | .single, n => UInt32.ofNat n
  | .double, n => UInt64.ofNat n
  | .token _, n => Token.mk (UInt32.ofNat n)

/-- An operand as bytes. -/
def write (s : Shape) (operand : s.Operand) : List UInt8 :=
  Code.littleEndian s.width (s.toNat operand)

/-- Takes an operand off the front of some bytes, if there are enough. -/
def read (s : Shape) (bytes : List UInt8) : Option (s.Operand × List UInt8) :=
  if s.width ≤ bytes.length then
    some (s.ofNat (Code.ofLittleEndian (bytes.take s.width)), bytes.drop s.width)
  else
    none

theorem length_write (s : Shape) (operand : s.Operand) :
    (s.write operand).length = s.width := by
  simp [write]

theorem toNat_lt (s : Shape) (operand : s.Operand) : s.toNat operand < Nat.pow 256 s.width := by
  cases s with
  | empty => exact Nat.zero_lt_one
  | slot => exact UInt8.toNat_lt _
  | int8 => exact UInt8.toNat_lt _
  | int32 => exact UInt32.toNat_lt _
  | int64 => exact UInt64.toNat_lt _
  | single => exact UInt32.toNat_lt _
  | double => exact UInt64.toNat_lt _
  | token => exact UInt32.toNat_lt _

theorem ofNat_toNat (s : Shape) (operand : s.Operand) : s.ofNat (s.toNat operand) = operand := by
  cases s with
  | empty => rfl
  | slot => exact UInt8.ofNat_toNat
  | int8 => exact congrArg UInt8.toInt8 UInt8.ofNat_toNat
  | int32 => exact congrArg UInt32.toInt32 UInt32.ofNat_toNat
  | int64 => exact congrArg UInt64.toInt64 UInt64.ofNat_toNat
  | single => exact UInt32.ofNat_toNat
  | double => exact UInt64.ofNat_toNat
  | token => exact congrArg Token.mk UInt32.ofNat_toNat

end Shape

/-! ## Instructions -/

/-- An instruction. -/
structure Instruction where
  opcode : Opcode
  operand : opcode.shape.Operand

namespace Instruction

/-- How many bytes the instruction takes. -/
def size (i : Instruction) : Nat :=
  i.opcode.width + i.opcode.shape.width

/-- The instruction as bytes. -/
def encode (i : Instruction) : List UInt8 :=
  i.opcode.bytes ++ i.opcode.shape.write i.operand

@[simp] theorem length_encode (i : Instruction) : i.encode.length = i.size := by
  simp [encode, size, Shape.length_write]

end Instruction

/-! ## Reading -/

/-- First byte of the opcodes that take two bytes. -/
def extendedMark : UInt8 := 0xfe

/-- The opcode number at the front of some bytes and how many bytes it takes,
    whether or not it is understood. A mark at the very end stands alone. -/
def opcodeNumber? : List UInt8 → Option (Nat × Nat)
  | [] => none
  | first :: rest =>
    if first = extendedMark then
      match rest with
      | [] => some (first.toNat, 1)
      | second :: _ => some (first.toNat * 256 + second.toNat, 2)
    else
      some (first.toNat, 1)

/-- Takes an instruction off the front of the bytes that remain at `offset`.
    A known opcode without its whole operand is truncated, and so is a mark
    that stands alone. -/
def decode (offset : Nat) (bytes : List UInt8) : Except Fault (Instruction × List UInt8) :=
  match opcodeNumber? bytes with
  | none => .error (.missingReturn offset)
  | some (number, width) =>
    -- Only a mark without a second byte has the mark itself as its number.
    if number = extendedMark.toNat then .error (.truncated offset number)
    else
      match Opcode.ofNumber? number with
      | none => .error (.unsupported offset number)
      | some opcode =>
        match opcode.shape.read (bytes.drop width) with
        | none => .error (.truncated offset number)
        | some (operand, rest) => .ok (⟨opcode, operand⟩, rest)

/-- The instruction that starts at an offset of the code, and the offset at
    which reading it stops. -/
def instructionAt (code : List UInt8) (offset : Nat) : Except Fault (Instruction × Nat) :=
  match decode offset (code.drop offset) with
  | .error fault => .error fault
  | .ok (i, rest) => .ok (i, code.length - rest.length)

/-- The opcode number at an offset of the code. -/
def opcodeNumberAt? (code : List UInt8) (offset : Nat) : Option (Nat × Nat) :=
  opcodeNumber? (code.drop offset)

/-- An opcode number takes at least one byte, and there are that many. -/
theorem opcodeNumber?_width {bytes : List UInt8} {number width : Nat}
    (h : opcodeNumber? bytes = some (number, width)) : 0 < width ∧ width ≤ bytes.length := by
  unfold opcodeNumber? at h
  split at h
  · cases h
  · split at h
    · split at h <;> (cases h; simp)
    · cases h; simp

/-- Reading an instruction uses up at least one byte. -/
theorem length_lt_of_decode {offset : Nat} {bytes rest : List UInt8} {i : Instruction}
    (h : decode offset bytes = .ok (i, rest)) : rest.length < bytes.length := by
  unfold decode at h
  split at h
  · cases h
  · rename_i number width hpeek
    have hw := opcodeNumber?_width hpeek
    split at h
    · cases h
    · split at h
      · cases h
      · split at h
        · cases h
        · rename_i operand rest' hread
          simp only [Except.ok.injEq, Prod.mk.injEq] at h
          obtain ⟨-, rfl⟩ := h
          simp only [Shape.read] at hread
          split at hread <;> simp at hread
          rw [← hread.2]
          simp only [List.length_drop]
          omega

end CilLift
