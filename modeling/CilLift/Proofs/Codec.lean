import CilLift.Code.Instruction

/-! # Reading what was written

    An instruction that stands at the front of some bytes is read back whole,
    whatever follows it and wherever it stands, and nothing else is ever read:
    the bytes of an instruction are the only ones that it is read from.

    The argument goes through the layout of an instruction: the opcode's bytes
    give back its number because no one-byte opcode is the mark of the two-byte
    ones, the table gives back the opcode of the number, and the operand is
    read from exactly the bytes it was written to.

    Numbers of opcodes are kept in three places: the table that instructions are
    read by, the numbers that instructions report, and the layout of the
    instruction set, which has the sizes of operands.

    Main statements: `decode_ok_iff` for the bytes that remain,
    `reported_eq_number` and `operandSize?_eq` for the agreement of the three
    tables, and `decoding_inverts_encoding` for code with an offset, together
    with the opcode number and the operand size that stand there.
-/

namespace CilLift

/-! ## Opcodes -/

/-- A one-byte opcode lies below the mark, and the first byte of a two-byte
    one is the mark. -/
theorem Opcode.number_cases (o : Opcode) :
    o.number < 0xfe ∨ (0xfe00 ≤ o.number ∧ o.number ≤ 0xfeff) := by
  have h : ∀ o ∈ all, o.number < 0xfe ∨ (0xfe00 ≤ o.number ∧ o.number ≤ 0xfeff) := by
    decide +kernel
  exact h o (mem_all o)

theorem Opcode.number_ne_extendedMark (o : Opcode) : o.number ≠ extendedMark.toNat := by
  have hmark : extendedMark.toNat = 0xfe := rfl
  rcases o.number_cases with h | h <;> omega

theorem opcodeNumber?_bytes (o : Opcode) (rest : List UInt8) :
    opcodeNumber? (o.bytes ++ rest) = some (o.number, o.width) := by
  have hmark : extendedMark.toNat = 0xfe := rfl
  rcases o.number_cases with h | ⟨hlow, hhigh⟩
  -- A number of one byte is not taken for the mark.
  · have hone : ¬ 0xff < o.number := by omega
    have hnum : (UInt8.ofNat o.number).toNat = o.number := by
      rw [UInt8.toNat_ofNat']
      omega
    have hne : UInt8.ofNat o.number ≠ extendedMark := by
      intro heq
      rw [heq, hmark] at hnum
      omega
    simp only [Opcode.bytes, Opcode.width, if_neg hone, List.cons_append, List.nil_append,
      opcodeNumber?, if_neg hne, hnum]
  -- Of two bytes, the first is the mark and the second the rest of the number.
  · have htwo : 0xff < o.number := by omega
    have hfirst : UInt8.ofNat (o.number / 256) = extendedMark := by
      have : o.number / 256 = 0xfe := by omega
      rw [this]
      rfl
    have hsecond : (UInt8.ofNat (o.number % 256)).toNat = o.number % 256 := by
      rw [UInt8.toNat_ofNat']
      omega
    have hnum : extendedMark.toNat * 256 + o.number % 256 = o.number := by
      rw [hmark]
      omega
    simp only [Opcode.bytes, Opcode.width, if_pos htwo, List.cons_append, List.nil_append,
      opcodeNumber?, hfirst, if_true, hsecond, hnum]

/-- The bytes at the front, if they hold an opcode's number, are the bytes of
    that opcode. -/
theorem Opcode.eq_bytes_append {o : Opcode} {bytes : List UInt8} {width : Nat}
    (h : opcodeNumber? bytes = some (o.number, width)) : bytes = o.bytes ++ bytes.drop width := by
  have hmark : extendedMark.toNat = 0xfe := rfl
  unfold opcodeNumber? at h
  split at h
  · cases h
  · rename_i first rest
    split at h
    · rename_i hfirst
      split at h
      -- A mark that stands alone is the number of no opcode.
      · simp only [Option.some.injEq, Prod.mk.injEq] at h
        exact absurd h.1.symm (hfirst ▸ o.number_ne_extendedMark)
      · rename_i second rest
        simp only [Option.some.injEq, Prod.mk.injEq] at h
        obtain ⟨hnumber, rfl⟩ := h
        have hsecond := second.toNat_lt
        have hnum : o.number = 0xfe00 + second.toNat := by
          rw [← hnumber, hfirst, hmark]
        have htwo : 0xff < o.number := by omega
        have hhigh : o.number / 256 = 0xfe := by omega
        have hlow : o.number % 256 = second.toNat := by omega
        rw [bytes, if_pos htwo, hhigh, hlow, UInt8.ofNat_toNat, hfirst]
        rfl
    · simp only [Option.some.injEq, Prod.mk.injEq] at h
      obtain ⟨hnumber, rfl⟩ := h
      have hfirst := first.toNat_lt
      have hone : ¬ 0xff < o.number := by omega
      rw [bytes, if_neg hone, ← hnumber, UInt8.ofNat_toNat]
      rfl

theorem Opcode.number_of_ofNumber? {number : Nat} {o : Opcode} (h : ofNumber? number = some o) :
    o.number = number := by
  simpa using List.find?_some h

/-! ## Operands -/

theorem Shape.toNat_ofNat {s : Shape} {n : Nat} (h : n < Nat.pow 256 s.width) :
    s.toNat (s.ofNat n) = n := by
  cases s with
  | empty => exact (Nat.lt_one_iff.mp h).symm
  | slot => exact UInt8.toNat_ofNat_of_lt h
  | int8 => exact UInt8.toNat_ofNat_of_lt h
  | int32 => exact UInt32.toNat_ofNat_of_lt h
  | int64 => exact UInt64.toNat_ofNat_of_lt h
  | single => exact UInt32.toNat_ofNat_of_lt h
  | double => exact UInt64.toNat_ofNat_of_lt h
  | token => exact UInt32.toNat_ofNat_of_lt h

theorem Shape.read_write (s : Shape) (operand : s.Operand) (rest : List UInt8) :
    s.read (s.write operand ++ rest) = some (operand, rest) := by
  have hlen : s.width = (s.write operand).length := (s.length_write operand).symm
  have hle : s.width ≤ (s.write operand ++ rest).length := by
    rw [List.length_append]
    omega
  have htake : (s.write operand ++ rest).take s.width = s.write operand := by
    rw [hlen, List.take_left]
  have hdrop : (s.write operand ++ rest).drop s.width = rest := by
    rw [hlen, List.drop_left]
  rw [read, if_pos hle, htake, hdrop, write,
    Code.ofLittleEndian_littleEndian (s.toNat_lt operand), ofNat_toNat]

/-- An operand is read from the bytes it is written as and from no others. -/
theorem Shape.read_eq_some_iff {s : Shape} {operand : s.Operand} {bytes rest : List UInt8} :
    s.read bytes = some (operand, rest) ↔ bytes = s.write operand ++ rest := by
  constructor
  · intro h
    unfold read at h
    by_cases hle : s.width ≤ bytes.length
    · rw [if_pos hle, Option.some.injEq, Prod.mk.injEq] at h
      obtain ⟨rfl, rfl⟩ := h
      -- The number that was read fits the width, so it is written the same.
      have hlen : (bytes.take s.width).length = s.width := by
        rw [List.length_take]
        omega
      have hlt := Code.ofLittleEndian_lt (bytes.take s.width)
      have hback := Code.littleEndian_ofLittleEndian (bytes.take s.width)
      rw [hlen] at hlt hback
      rw [write, toNat_ofNat hlt, hback, List.take_append_drop]
    · rw [if_neg hle] at h
      cases h
  · intro h
    rw [h, read_write]

/-! ## Instructions -/

theorem Instruction.size_pos (i : Instruction) : 0 < i.size := by
  unfold size Opcode.width
  split <;> omega

theorem opcodeNumber?_encode (i : Instruction) (rest : List UInt8) :
    opcodeNumber? (i.encode ++ rest) = some (i.opcode.number, i.opcode.width) := by
  rw [Instruction.encode, List.append_assoc, opcodeNumber?_bytes]

/-- An instruction is read back from its own bytes, and what follows is left
    for the next one. -/
theorem decode_encode (i : Instruction) (offset : Nat) (rest : List UInt8) :
    decode offset (i.encode ++ rest) = .ok (i, rest) := by
  have hbytes : i.encode ++ rest =
      i.opcode.bytes ++ (i.opcode.shape.write i.operand ++ rest) := by
    rw [Instruction.encode, List.append_assoc]
  have hdrop : (i.encode ++ rest).drop i.opcode.width =
      i.opcode.shape.write i.operand ++ rest := by
    rw [hbytes, ← Opcode.length_bytes, List.drop_left]
  simp only [decode, opcodeNumber?_encode, if_neg i.opcode.number_ne_extendedMark,
    Opcode.ofNumber?_number, hdrop, Shape.read_write]

/-- An instruction is read from its own bytes and from no others. -/
theorem decode_ok_iff {offset : Nat} {bytes rest : List UInt8} {i : Instruction} :
    decode offset bytes = .ok (i, rest) ↔ bytes = i.encode ++ rest := by
  constructor
  · intro h
    unfold decode at h
    split at h
    · cases h
    · rename_i number width hnumber
      split at h
      · cases h
      · split at h
        · cases h
        · rename_i o hopcode
          split at h
          · cases h
          · rename_i operand rest' hread
            cases h
            rw [← Opcode.number_of_ofNumber? hopcode] at hnumber
            rw [Opcode.eq_bytes_append hnumber, Shape.read_eq_some_iff.mp hread,
              Instruction.encode, List.append_assoc]
  · intro h
    rw [h, decode_encode]

/-- Reading an instruction uses up as many bytes as the instruction takes. -/
theorem length_sub_of_decode {offset : Nat} {bytes rest : List UInt8} {i : Instruction}
    (h : decode offset bytes = .ok (i, rest)) : bytes.length - rest.length = i.size := by
  rw [decode_ok_iff.mp h, List.length_append, Instruction.length_encode, Nat.add_sub_cancel]

/-- The instruction at an offset is the one whose bytes stand there. -/
theorem instructionAt_ok_iff {code : List UInt8} {offset next : Nat} {i : Instruction} :
    instructionAt code offset = .ok (i, next) ↔
      i.encode <+: code.drop offset ∧ next = offset + i.size := by
  have hnext : ∀ rest, code.drop offset = i.encode ++ rest →
      code.length - rest.length = offset + i.size := by
    intro rest hrest
    have hpos := i.size_pos
    have hlen := congrArg List.length hrest
    rw [List.length_drop, List.length_append, Instruction.length_encode] at hlen
    omega
  unfold instructionAt
  constructor
  · intro h
    split at h
    · cases h
    · rename_i i' rest hdecode
      cases h
      have hrest := decode_ok_iff.mp hdecode
      exact ⟨⟨rest, hrest.symm⟩, hnext rest hrest⟩
  · intro h
    obtain ⟨⟨rest, hrest⟩, rfl⟩ := h
    rw [decode_ok_iff.mpr hrest.symm, ← hnext rest hrest.symm]

namespace Instruction

/-- The instruction that ends a method. -/
def ret : Instruction := ⟨.ret, ()⟩

/-- Instructions as bytes, one after the other. -/
def encodeAll (code : List Instruction) : List UInt8 :=
  code.flatMap encode

@[simp] theorem encodeAll_nil : encodeAll [] = [] := rfl

@[simp] theorem encodeAll_cons (i : Instruction) (code : List Instruction) :
    encodeAll (i :: code) = i.encode ++ encodeAll code := rfl

end Instruction

/-! ## Layout of the instruction set -/

namespace Opcode

/-- The numbers that are in use, in runs with the same size of operand: the
    first and the last number of a run, and how many bytes an operand takes. -/
def layout : List (Nat × Nat × Nat) :=
  [(0x00, 0x00, 0), (0x02, 0x0d, 0), (0x0e, 0x13, 1), (0x14, 0x1e, 0), (0x1f, 0x1f, 1),
    (0x20, 0x20, 4), (0x21, 0x21, 8), (0x22, 0x22, 4), (0x23, 0x23, 8), (0x25, 0x26, 0),
    (0x28, 0x28, 4), (0x2a, 0x2a, 0), (0x58, 0x6e, 0), (0x6f, 0x6f, 4), (0x72, 0x75, 4),
    (0x7b, 0x7c, 4), (0x7e, 0x7f, 4), (0x8c, 0x8d, 4), (0x8e, 0x8e, 0), (0x90, 0x9a, 0),
    (0xa3, 0xa3, 4), (0xd1, 0xd2, 0), (0xfe01, 0xfe05, 0)]

/-- How many bytes of operand follow an opcode number that is in use. -/
def operandSize? (number : Nat) : Option Nat :=
  (layout.find? fun run => run.1 ≤ number ∧ number ≤ run.2.1).map (·.2.2)

/-- The layout and the table of opcodes have the same numbers with the same
    sizes. -/
theorem operandSize?_eq (number : Nat) :
    operandSize? number = (ofNumber? number).map (·.shape.width) := by
  have htable : ∀ o ∈ all, operandSize? o.number = some o.shape.width := by decide +kernel
  have hlayout : ∀ run ∈ layout, ∀ n ∈ List.range' run.1 (run.2.1 + 1 - run.1),
      (ofNumber? n).isSome = true := by decide +kernel
  cases hopcode : ofNumber? number with
  | some o =>
    rw [← number_of_ofNumber? hopcode]
    exact htable o (mem_all o)
  | none =>
    -- A number of a run would be the number of some opcode.
    rw [operandSize?, Option.map_none, Option.map_eq_none_iff, List.find?_eq_none]
    intro run hrun hmem
    have hrange : number ∈ List.range' run.1 (run.2.1 + 1 - run.1) := by
      rw [List.mem_range'_1]
      simp only [decide_eq_true_eq] at hmem
      omega
    have hsome := hlayout run hrun number hrange
    rw [hopcode] at hsome
    cases hsome

/-- Instructions report the numbers that they are read by. -/
theorem reported_eq_number (o : Opcode) : o.reported = o.number := by
  have h : ∀ o ∈ all, o.reported = o.number := by decide +kernel
  exact h o (mem_all o)

end Opcode

/-- The size of an instruction follows from the number that it reports. -/
theorem Instruction.size_eq (i : Instruction) :
    i.size = (if 0xff < i.opcode.reported then 2 else 1) +
      (Opcode.operandSize? i.opcode.reported).getD 0 := by
  rw [Opcode.reported_eq_number, Opcode.operandSize?_eq, Opcode.ofNumber?_number]
  rfl

/-- Reading at an offset and writing undo each other, whatever stands around:
    a written instruction is read back with the offset behind it, and whatever
    is read at an offset is written there byte by byte. The opcode number that
    stands there is the one that the instruction reports, it is in use, and its
    width and the size of its operand make up the size of the instruction. -/
theorem decoding_inverts_encoding :
    (∀ (i : Instruction) (before after : List UInt8),
      instructionAt (before ++ i.encode ++ after) before.length =
        .ok (i, before.length + i.size)) ∧
    ∀ (code : List UInt8) (offset : Nat) (i : Instruction) (next : Nat),
      instructionAt code offset = .ok (i, next) →
        offset < next ∧ next ≤ code.length ∧
        i.encode = (code.drop offset).take (next - offset) ∧ next - offset = i.size ∧
        ∃ width operandSize,
          opcodeNumberAt? code offset = some (i.opcode.reported, width) ∧
          Opcode.ofNumber? i.opcode.reported = some i.opcode ∧
          Opcode.operandSize? i.opcode.reported = some operandSize ∧
          width + operandSize = i.size := by
  refine ⟨?_, ?_⟩
  · intro i before after
    rw [instructionAt_ok_iff, List.append_assoc, List.drop_left]
    exact ⟨List.prefix_append _ _, rfl⟩
  · intro code offset i next h
    obtain ⟨hencode, rfl⟩ := instructionAt_ok_iff.mp h
    have hsize : offset + i.size - offset = i.size := Nat.add_sub_cancel_left _ _
    have hpos := i.size_pos
    have hlen : i.size ≤ code.length - offset := by
      have hle := hencode.length_le
      rwa [Instruction.length_encode, List.length_drop] at hle
    rw [i.opcode.reported_eq_number]
    refine ⟨by omega, by omega, ?_, hsize, i.opcode.width, i.opcode.shape.width, ?_, ?_, ?_, rfl⟩
    · rw [hsize, ← i.length_encode]
      exact List.prefix_iff_eq_take.mp hencode
    · obtain ⟨rest, hrest⟩ := hencode
      rw [opcodeNumberAt?, ← hrest, opcodeNumber?_encode]
    · exact i.opcode.ofNumber?_number
    · rw [Opcode.operandSize?_eq, Opcode.ofNumber?_number]
      rfl

/-- A wide literal between bytes that are no instructions. -/
theorem decoding_inverts_encoding_ldcI8 :
    instructionAt [0xfe, 0x21, 0xfe, 0xff, 0xff, 0xff, 0xff, 0xff, 0xff, 0xff, 0xfe] 1 =
        .ok (⟨.ldcI8, (-2 : Int64)⟩, 10) ∧
      (⟨.ldcI8, (-2 : Int64)⟩ : Instruction).encode =
        [0x21, 0xfe, 0xff, 0xff, 0xff, 0xff, 0xff, 0xff, 0xff] := by
  have h : instructionAt [0xfe, 0x21, 0xfe, 0xff, 0xff, 0xff, 0xff, 0xff, 0xff, 0xff, 0xfe] 1 =
      .ok (⟨.ldcI8, (-2 : Int64)⟩, 10) := by cbv
  exact ⟨h, (decoding_inverts_encoding.2 _ _ _ _ h).2.2.1⟩

end CilLift
