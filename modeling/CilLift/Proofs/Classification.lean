import CilLift.Proofs.Codec

/-! # Why code cannot be read on

    Where no instruction stands in some code, there is exactly one of three
    reasons: the code is at its end, an instruction is cut off by the end, or
    the opcode number that stands there is not in use. `Finds` says which
    result reading at an offset has to have, in terms of the bytes that stand
    there and the layout of the instruction set alone.

    Main statements: `finds_iff` says that reading has just these results, and
    `faults_classified` gives the exact condition for each of the three faults
    and for success.
-/

namespace CilLift

/-! ## What stands at an offset -/

/-- A whole opcode number stands at the offset and takes so many bytes. -/
inductive NumberAt (code : List UInt8) (offset : Nat) : (number width : Nat) → Prop where
  /-- A byte that is not the mark is a number by itself. -/
  | one (b : UInt8) (hbyte : code[offset]? = some b) (hmark : b ≠ 0xfe) :
    NumberAt code offset b.toNat 1
  /-- The mark makes a number together with the byte behind it. -/
  | two (b : UInt8) (hmark : code[offset]? = some 0xfe) (hbyte : code[offset + 1]? = some b) :
    NumberAt code offset (0xfe00 + b.toNat) 2

/-- The last byte of the code stands at the offset and is the mark. -/
def LoneMarkAt (code : List UInt8) (offset : Nat) : Prop :=
  code[offset]? = some 0xfe ∧ offset + 1 = code.length

/-- An instruction of this opcode number starts at the offset but does not end
    inside the code: its second byte is missing, or part of its operand. -/
def CutAt (code : List UInt8) (offset number : Nat) : Prop :=
  (number = 0xfe ∧ LoneMarkAt code offset) ∨
    ∃ width size, NumberAt code offset number width ∧ Opcode.operandSize? number = some size ∧
      code.length < offset + width + size

/-- An opcode number that is not in use stands at the offset. -/
def UnknownAt (code : List UInt8) (offset number : Nat) : Prop :=
  ∃ width, NumberAt code offset number width ∧ Opcode.operandSize? number = none

/-- Reading at the offset has to have this result. -/
inductive Finds (code : List UInt8) (offset : Nat) : Except Fault (Instruction × Nat) → Prop where
  | nothing (hend : code.length ≤ offset) : Finds code offset (.error (.missingReturn offset))
  | cut (number : Nat) (hcut : CutAt code offset number) :
    Finds code offset (.error (.truncated offset number))
  | unknown (number : Nat) (hunknown : UnknownAt code offset number) :
    Finds code offset (.error (.unsupported offset number))
  | whole (i : Instruction) (hbytes : i.encode <+: code.drop offset) :
    Finds code offset (.ok (i, offset + i.size))

variable {code : List UInt8} {offset number width : Nat}

/-! ## Opcode numbers -/

/-- A number takes one byte or two, all of them inside the code. -/
theorem NumberAt.add_le_length (h : NumberAt code offset number width) :
    0 < width ∧ offset + width ≤ code.length := by
  cases h with
  | one b hbyte hmark =>
    obtain ⟨hlt, -⟩ := List.getElem?_eq_some_iff.mp hbyte
    omega
  | two b hmark hbyte =>
    obtain ⟨hlt, -⟩ := List.getElem?_eq_some_iff.mp hbyte
    omega

/-- The mark by itself is not a number. -/
theorem NumberAt.ne_extendedMark (h : NumberAt code offset number width) :
    number ≠ extendedMark.toNat := by
  have hvalue : extendedMark.toNat = 0xfe := rfl
  cases h with
  | one b hbyte hmark =>
    intro heq
    exact hmark (UInt8.toNat_inj.mp heq)
  | two b hmark hbyte => omega

theorem opcodeNumberAt?_of_numberAt (h : NumberAt code offset number width) :
    opcodeNumberAt? code offset = some (number, width) := by
  unfold opcodeNumberAt?
  cases h with
  | one b hbyte hmark =>
    obtain ⟨hlt, rfl⟩ := List.getElem?_eq_some_iff.mp hbyte
    have hne : code[offset] ≠ extendedMark := hmark
    rw [List.drop_eq_getElem_cons hlt]
    simp only [opcodeNumber?, if_neg hne]
  | two b hmark hbyte =>
    obtain ⟨hlt, hfirst⟩ := List.getElem?_eq_some_iff.mp hmark
    obtain ⟨hlt', rfl⟩ := List.getElem?_eq_some_iff.mp hbyte
    have heq : code[offset] = extendedMark := hfirst
    rw [List.drop_eq_getElem_cons hlt, List.drop_eq_getElem_cons hlt', opcodeNumber?, if_pos heq,
      heq]
    rfl

theorem opcodeNumberAt?_of_loneMarkAt (h : LoneMarkAt code offset) :
    opcodeNumberAt? code offset = some (extendedMark.toNat, 1) := by
  obtain ⟨hmark, hlast⟩ := h
  obtain ⟨hlt, hfirst⟩ := List.getElem?_eq_some_iff.mp hmark
  have heq : code[offset] = extendedMark := hfirst
  have hrest : code.drop (offset + 1) = [] := List.drop_eq_nil_of_le (by omega)
  rw [opcodeNumberAt?, List.drop_eq_getElem_cons hlt, hrest, opcodeNumber?, if_pos heq, heq]

/-- Every offset is behind the code, at a mark that ends it, or at a number. -/
theorem offset_cases (code : List UInt8) (offset : Nat) :
    code.length ≤ offset ∨ LoneMarkAt code offset ∨
      ∃ number width, NumberAt code offset number width := by
  by_cases hend : code.length ≤ offset
  · exact .inl hend
  · right
    have hlt : offset < code.length := by omega
    have hbyte : code[offset]? = some code[offset] := List.getElem?_eq_getElem hlt
    by_cases hmark : code[offset] = 0xfe
    · rw [hmark] at hbyte
      by_cases hlast : offset + 1 = code.length
      · exact .inl ⟨hbyte, hlast⟩
      · have hnext : code[offset + 1]? = some code[offset + 1] :=
          List.getElem?_eq_getElem (by omega)
        exact .inr ⟨_, _, .two _ hbyte hnext⟩
    · exact .inr ⟨_, _, .one _ hbyte hmark⟩

/-! ## Results of reading -/

theorem instructionAt_of_le (h : code.length ≤ offset) :
    instructionAt code offset = .error (.missingReturn offset) := by
  rw [instructionAt, List.drop_eq_nil_of_le h]
  rfl

theorem instructionAt_of_loneMarkAt (h : LoneMarkAt code offset) :
    instructionAt code offset = .error (.truncated offset 0xfe) := by
  have hnumber : opcodeNumber? (code.drop offset) = some (extendedMark.toNat, 1) :=
    opcodeNumberAt?_of_loneMarkAt h
  simp only [instructionAt, decode, hnumber, if_true]
  rfl

/-- Reading where a number stands comes down to the opcode of the number and
    the bytes that are left for its operand. -/
theorem instructionAt_of_numberAt (h : NumberAt code offset number width) :
    instructionAt code offset =
      match Opcode.ofNumber? number with
      | none => .error (.unsupported offset number)
      | some opcode =>
        match opcode.shape.read (code.drop (offset + width)) with
        | none => .error (.truncated offset number)
        | some (operand, rest) => .ok (⟨opcode, operand⟩, code.length - rest.length) := by
  have hnumber : opcodeNumber? (code.drop offset) = some (number, width) :=
    opcodeNumberAt?_of_numberAt h
  simp only [instructionAt, decode, hnumber, if_neg h.ne_extendedMark, List.drop_drop]
  cases Opcode.ofNumber? number with
  | none => rfl
  | some opcode =>
    dsimp only
    cases opcode.shape.read (code.drop (offset + width)) with
    | none => rfl
    | some found => rfl

theorem instructionAt_of_unknownAt (h : UnknownAt code offset number) :
    instructionAt code offset = .error (.unsupported offset number) := by
  obtain ⟨width, hnumber, hsize⟩ := h
  rw [Opcode.operandSize?_eq, Option.map_eq_none_iff] at hsize
  rw [instructionAt_of_numberAt hnumber, hsize]

theorem instructionAt_of_cutAt (h : CutAt code offset number) :
    instructionAt code offset = .error (.truncated offset number) := by
  rcases h with ⟨rfl, hlone⟩ | ⟨width, size, hnumber, hsize, hshort⟩
  · exact instructionAt_of_loneMarkAt hlone
  · rw [Opcode.operandSize?_eq, Option.map_eq_some_iff] at hsize
    obtain ⟨opcode, hopcode, rfl⟩ := hsize
    have hread : opcode.shape.read (code.drop (offset + width)) = none := by
      have hfew : ¬ opcode.shape.width ≤ (code.drop (offset + width)).length := by
        rw [List.length_drop]
        have hwidth := hnumber.add_le_length
        omega
      rw [Shape.read, if_neg hfew]
    rw [instructionAt_of_numberAt hnumber, hopcode]
    dsimp only
    rw [hread]

/-- An opcode in use with all of its operand behind it is an instruction. -/
theorem exists_instructionAt {size : Nat} (hnumber : NumberAt code offset number width)
    (hsize : Opcode.operandSize? number = some size)
    (hinside : offset + width + size ≤ code.length) :
    ∃ i next, instructionAt code offset = .ok (i, next) := by
  rw [Opcode.operandSize?_eq, Option.map_eq_some_iff] at hsize
  obtain ⟨opcode, hopcode, rfl⟩ := hsize
  have henough : opcode.shape.width ≤ (code.drop (offset + width)).length := by
    rw [List.length_drop]
    omega
  rw [instructionAt_of_numberAt hnumber, hopcode]
  dsimp only
  rw [Shape.read, if_pos henough]
  exact ⟨_, _, rfl⟩

/-- Every offset has a result that reading has to have. -/
theorem exists_finds (code : List UInt8) (offset : Nat) : ∃ result, Finds code offset result := by
  rcases offset_cases code offset with hend | hlone | ⟨number, width, hnumber⟩
  · exact ⟨_, .nothing hend⟩
  · exact ⟨_, .cut 0xfe (.inl ⟨rfl, hlone⟩)⟩
  · cases hsize : Opcode.operandSize? number with
    | none => exact ⟨_, .unknown number ⟨width, hnumber, hsize⟩⟩
    | some size =>
      by_cases hinside : offset + width + size ≤ code.length
      · obtain ⟨i, next, hfound⟩ := exists_instructionAt hnumber hsize hinside
        exact ⟨_, .whole i (instructionAt_ok_iff.mp hfound).1⟩
      · exact ⟨_, .cut number (.inr ⟨width, size, hnumber, hsize, by omega⟩)⟩

theorem Finds.instructionAt_eq {result : Except Fault (Instruction × Nat)}
    (h : Finds code offset result) : instructionAt code offset = result := by
  cases h with
  | nothing hend => exact instructionAt_of_le hend
  | cut number hcut => exact instructionAt_of_cutAt hcut
  | unknown number hunknown => exact instructionAt_of_unknownAt hunknown
  | whole i hbytes => exact instructionAt_ok_iff.mpr ⟨hbytes, rfl⟩

/-- Reading has the result that it has to have, and no other result is one. -/
theorem finds_iff {result : Except Fault (Instruction × Nat)} :
    Finds code offset result ↔ instructionAt code offset = result := by
  constructor
  · exact Finds.instructionAt_eq
  · rintro rfl
    obtain ⟨result, hfinds⟩ := exists_finds code offset
    rw [hfinds.instructionAt_eq]
    exact hfinds

/-- No instruction is read at an offset exactly where the code is at its end,
    cuts an instruction off, or holds an opcode number that is not in use; the
    fault tells which, and names the offset and the number. -/
theorem faults_classified (code : List UInt8) (offset : Nat) :
    (∀ o, instructionAt code offset = .error (.missingReturn o) ↔
      o = offset ∧ code.length ≤ offset) ∧
    (∀ o number, instructionAt code offset = .error (.truncated o number) ↔
      o = offset ∧ CutAt code offset number) ∧
    (∀ o number, instructionAt code offset = .error (.unsupported o number) ↔
      o = offset ∧ UnknownAt code offset number) ∧
    ((∃ i next, instructionAt code offset = .ok (i, next)) ↔
      offset < code.length ∧ (∀ number, ¬ CutAt code offset number) ∧
        ∀ number, ¬ UnknownAt code offset number) := by
  refine ⟨fun o => ?_, fun o number => ?_, fun o number => ?_, ?_⟩
  · rw [← finds_iff]
    constructor
    · intro h
      cases h with
      | nothing hend => exact ⟨rfl, hend⟩
    · rintro ⟨rfl, hend⟩
      exact .nothing hend
  · rw [← finds_iff]
    constructor
    · intro h
      cases h with
      | cut _ hcut => exact ⟨rfl, hcut⟩
    · rintro ⟨rfl, hcut⟩
      exact .cut number hcut
  · rw [← finds_iff]
    constructor
    · intro h
      cases h with
      | unknown _ hunknown => exact ⟨rfl, hunknown⟩
    · rintro ⟨rfl, hunknown⟩
      exact .unknown number hunknown
  · constructor
    · rintro ⟨i, next, hfound⟩
      -- Any of the three reasons would make reading fail.
      refine ⟨Nat.lt_of_not_le fun hend => ?_, fun number hcut => ?_, fun number hunknown => ?_⟩
      · rw [instructionAt_of_le hend] at hfound
        cases hfound
      · rw [instructionAt_of_cutAt hcut] at hfound
        cases hfound
      · rw [instructionAt_of_unknownAt hunknown] at hfound
        cases hfound
    · rintro ⟨hlt, hcut, hunknown⟩
      obtain ⟨result, hfinds⟩ := exists_finds code offset
      cases hfinds with
      | nothing hend => omega
      | cut number h => exact absurd h (hcut number)
      | unknown number h => exact absurd h (hunknown number)
      | whole i hbytes => exact ⟨i, _, instructionAt_ok_iff.mpr ⟨hbytes, rfl⟩⟩

end CilLift
