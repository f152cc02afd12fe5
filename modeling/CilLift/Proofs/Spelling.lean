import CilLift.Proofs.Offset

/-! # Spellings of instructions

    The same thing can be said in several ways: an index or a number can be
    built into the opcode or stand behind it, an address is loaded as the value
    is, a virtual call is a call, and operators do not tell signed from unsigned
    operands. `normalForm` brings instructions to one spelling and leaves out
    those that do nothing.

    Main statement: `lift_of_normalForm_eq` says that two methods whose
    instructions have the same normal form are lifted to the same function, or
    fail to be lifted with faults that differ at most in their offsets.
-/

namespace CilLift

open Instruction (encodeAll)

/-! ## Normal forms -/

/-- The operator on signed or ordered operands. -/
def Arith.signed : Arith → Arith
  | .divUn => .div
  | .remUn => .rem
  | .shrUn => .shr
  | .cgtUn => .cgt
  | .cltUn => .clt
  | a => a

theorem Arith.operator_signed (a : Arith) : a.signed.operator = a.operator := by
  cases a <;> rfl

namespace Instruction

/-- The instruction in the spelling that all its equivalents share: long forms
    with the number extended by its sign, loads of values, calls and signed
    operators. There is none for `nop`. -/
def normalized? : Instruction → Option Instruction
  | ⟨.nop, _⟩ => none
  | ⟨.ldarg n, _⟩ => some ⟨.ldargS, UInt8.ofNat n⟩
  | ⟨.ldloc n, _⟩ => some ⟨.ldlocS, UInt8.ofNat n⟩
  | ⟨.stloc n, _⟩ => some ⟨.stlocS, UInt8.ofNat n⟩
  | ⟨.ldcI4M1, _⟩ => some ⟨.ldcI4, (-1 : Int32)⟩
  | ⟨.ldcI4Short n, _⟩ => some ⟨.ldcI4, Int32.ofNat n⟩
  | ⟨.ldcI4S, v⟩ => some ⟨.ldcI4, Int8.toInt32 v⟩
  | ⟨.ldargaS, index⟩ => some ⟨.ldargS, index⟩
  | ⟨.ldlocaS, index⟩ => some ⟨.ldlocS, index⟩
  | ⟨.ldflda, t⟩ => some ⟨.ldfld, t⟩
  | ⟨.ldsflda, t⟩ => some ⟨.ldsfld, t⟩
  | ⟨.callvirt, t⟩ => some ⟨.call, t⟩
  | ⟨.arith a, _⟩ => some ⟨.arith a.signed, ()⟩
  | i => some i

/-- The instructions in their common spelling, without those that do nothing. -/
def normalForm (is : List Instruction) : List Instruction :=
  is.filterMap normalized?

variable {i j : Instruction}

theorem opcode_eq_nop (h : i.normalized? = none) : i.opcode = .nop := by
  obtain ⟨opcode, operand⟩ := i
  cases opcode with
  | nop => rfl
  | _ => cases h

theorem opcode_eq_ret_iff (h : i.normalized? = some j) : j.opcode = .ret ↔ i.opcode = .ret := by
  obtain ⟨opcode, operand⟩ := i
  cases opcode with
  | nop => cases h
  | _ =>
    cases h
    simp

end Instruction

/-! ## Performing normal forms -/

namespace Machine

variable {r : Resolver} {i j : Instruction}

theorem perform_nop (h : i.opcode = .nop) (r : Resolver) : perform r i = pure () := by
  obtain ⟨opcode, operand⟩ := i
  cases h
  rfl

/-- Operations that the same token can be resolved to may take each other's
    place if they are executed alike. -/
theorem executeResolved_resolved {α : Type} (next other : α → Operation)
    (h : ∀ a, execute (next a) = execute (other a)) (token : Token) (kind : TokenKind)
    (found : Option α) :
    executeResolved (resolved 0 token kind found next) =
      executeResolved (resolved 0 token kind found other) := by
  cases found with
  | none => rfl
  | some a => exact h a

/-- Spellings of an instruction build the same nodes, take and put the same
    values and fail with the same faults. -/
theorem perform_of_normalized? (h : i.normalized? = some j) (r : Resolver) :
    perform r j = perform r i := by
  obtain ⟨opcode, operand⟩ := i
  cases opcode with
  | nop => cases h
  | callvirt =>
    cases h
    exact executeResolved_resolved .call .callvirt (fun _ => rfl) operand .method _
  | ldflda =>
    cases h
    exact executeResolved_resolved .ldfld .ldflda (fun _ => rfl) operand .field _
  | ldsflda =>
    cases h
    exact executeResolved_resolved .ldsfld .ldsflda (fun _ => rfl) operand .field _
  | arith a =>
    cases h
    show binary a.signed.operator = binary a.operator
    rw [a.operator_signed]
  | _ =>
    cases h
    rfl

theorem performAll_normalForm (r : Resolver) (is : List Instruction) :
    performAll r (Instruction.normalForm is) = performAll r is := by
  induction is with
  | nil => rfl
  | cons i is ih =>
    unfold Instruction.normalForm at ih ⊢
    cases hnormalized : i.normalized? with
    | none =>
      have hnop := Instruction.opcode_eq_nop hnormalized
      have hret : ¬ i.opcode = .ret := by simp [hnop]
      rw [List.filterMap_cons_none hnormalized, ih, performAll, perform_nop hnop, pure_bind,
        if_neg hret]
    | some j =>
      have hret := Instruction.opcode_eq_ret_iff hnormalized
      rw [List.filterMap_cons_some hnormalized, performAll, performAll, ih,
        perform_of_normalized? hnormalized]
      simp only [hret]

end Machine

/-- What a method is lifted to depends only on the normal form of its
    instructions: two methods that agree in it, and in everything but their
    code, are lifted to the same function or fail with the same fault, which
    may occur at another offset. -/
theorem lift_of_normalForm_eq {is js : List Instruction}
    (h : Instruction.normalForm is = Instruction.normalForm js) (r : Resolver) (d : Delegate) :
    (∃ tree, (d.withCode (encodeAll is)).lift r = .ok tree ∧
        (d.withCode (encodeAll js)).lift r = .ok tree) ∨
      ∃ fault offset, (d.withCode (encodeAll is)).lift r = .error fault ∧
        (d.withCode (encodeAll js)).lift r = .error (fault.atOffset offset) := by
  have hperform : Machine.performAll r is = Machine.performAll r js := by
    rw [← Machine.performAll_normalForm r is, h, Machine.performAll_normalForm]
  have hlift : ((d.withCode (encodeAll is)).lift r).mapError (Fault.atOffset 0) =
      ((d.withCode (encodeAll js)).lift r).mapError (Fault.atOffset 0) := by
    rw [lift_encodeAll, lift_encodeAll, hperform]
  cases hfirst : (d.withCode (encodeAll is)).lift r with
  | ok tree =>
    cases hsecond : (d.withCode (encodeAll js)).lift r with
    | ok other =>
      rw [hfirst, hsecond] at hlift
      cases hlift
      exact .inl ⟨tree, rfl, rfl⟩
    | error fault =>
      rw [hfirst, hsecond] at hlift
      cases hlift
  | error fault =>
    cases hsecond : (d.withCode (encodeAll js)).lift r with
    | ok tree =>
      rw [hfirst, hsecond] at hlift
      cases hlift
    | error other =>
      rw [hfirst, hsecond] at hlift
      obtain ⟨offset, hother⟩ := Fault.exists_eq_atOffset (Except.error.inj hlift)
      exact .inr ⟨fault, offset, rfl, by rw [hother]⟩

/-! ### A call in two spellings -/

namespace Respelled

def measure : MethodRef where
  declaringType := "Scale"
  name := "Measure"
  parameters := [⟨"weight", .prim .int32⟩]
  returnType := .prim .int32
  attributes := ⟨0x0010⟩

def token : Token := ⟨0x0a000001⟩

def resolver : Resolver := (SymbolTable.ofList [(token, .method measure)]).resolver

def short : List Instruction :=
  [⟨.nop, ()⟩, ⟨.ldarg 0, ()⟩, ⟨.nop, ()⟩, ⟨.ldcI4M1, ()⟩, ⟨.arith .shrUn, ()⟩,
    ⟨.callvirt, token⟩, .ret]

def long : List Instruction :=
  [⟨.ldargaS, (0 : UInt8)⟩, ⟨.ldcI4, (-1 : Int32)⟩, ⟨.arith .shr, ()⟩, ⟨.call, token⟩, .ret]

/-- The two operands need a stack of two values. -/
def delegate (maxStack : Nat) : Delegate where
  type := .prim .object
  method :=
    { declaringType := .prim .object
      parameters := [⟨"x", .prim .int32⟩]
      attributes := ⟨0x0010⟩
      code := []
      maxStack
      locals := []
      initLocals := false }
  target := none

def tree : Expr :=
  .lambda [⟨"x", .prim .int32⟩]
    (.call none measure [.apply .rightShift (.parameter ⟨"x", .prim .int32⟩)
      (.constant (.int32 (-1)) (.prim .int32))])
    (.prim .object)

theorem normalForm_long :
    Instruction.normalForm short = Instruction.normalForm long := rfl

theorem lift_short :
    ((delegate 2).withCode (encodeAll short)).lift resolver = .ok tree := by
  have hrun : Machine.Run
      [.nop, .ldarg 0, .nop, .ldcI4 (-1), .arith .shrUn, .callvirt measure]
      (.initial ((delegate 2).withCode (encodeAll short))) _ :=
    .cons (.nop _) <|
    .load rfl (by decide) <|
    .cons (.nop _) <|
    .build (.ldcI4 (-1)) rfl (by decide) <|
    .build (.arith .shrUn _ _) rfl (by decide) <|
    .build (.callStatic measure [_] (.inr rfl) rfl rfl) rfl (by decide) <|
    .nil _
  exact lift_of_run rfl rfl rfl hrun rfl

theorem lift_short_error :
    ((delegate 1).withCode (encodeAll short)).lift resolver = .error (.stack 3 (.overflow 1)) := by
  rw [lift_of_instructions rfl]
  rfl

theorem lift_long :
    encodeAll short ≠ encodeAll long ∧
      Instruction.normalForm short = Instruction.normalForm long ∧
      ((delegate 2).withCode (encodeAll long)).lift resolver = .ok tree ∧
      ∃ offset, ((delegate 1).withCode (encodeAll long)).lift resolver =
        .error (.stack offset (.overflow 1)) := by
  refine ⟨by decide, normalForm_long, ?_, ?_⟩
  · rcases lift_of_normalForm_eq normalForm_long resolver (delegate 2) with
      ⟨other, hshort, hlong⟩ | ⟨fault, offset, hshort, -⟩
    · rw [lift_short] at hshort
      cases hshort
      exact hlong
    · rw [lift_short] at hshort
      cases hshort
  · rcases lift_of_normalForm_eq normalForm_long resolver (delegate 1) with
      ⟨other, hshort, -⟩ | ⟨fault, offset, hshort, hlong⟩
    · rw [lift_short_error] at hshort
      cases hshort
    · rw [lift_short_error] at hshort
      cases hshort
      exact ⟨offset, hlong⟩

end Respelled

end CilLift
