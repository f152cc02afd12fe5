import CilLift.Proofs.Parts
import CilLift.Proofs.Reading
import CilLift.Proofs.Run

/-! # Offsets of faults

    A machine remembers the offset of the instruction that it executes, and all
    it does with it is to name it in faults. So a machine that is moved to
    another offset does what it would have done, with the same fault at the
    other offset (`moves_execute`).

    Main statement: `lift_encodeAll` says that lifting written instructions is,
    up to the offset of the fault, performing them one after the other without
    regard to where they stand.
-/

namespace CilLift

open Instruction (encodeAll)

/-! ## Faults -/

namespace Fault

/-- The fault at another offset, if it names one. -/
def atOffset (offset : Nat) : Fault → Fault
  | .unsupported _ opcode => .unsupported offset opcode
  | .truncated _ opcode => .truncated offset opcode
  | .missingReturn _ => .missingReturn offset
  | .unresolved _ token kind => .unresolved offset token kind
  | .stack _ cause => .stack offset cause
  | .operand (.leftover count _) => .operand (.leftover count offset)
  | fault => fault

theorem atOffset_atOffset (fault : Fault) (first second : Nat) :
    (fault.atOffset first).atOffset second = fault.atOffset second := by
  cases fault with
  | operand cause => cases cause <;> rfl
  | _ => rfl

theorem exists_atOffset_eq (fault : Fault) : ∃ offset, fault.atOffset offset = fault := by
  cases fault with
  | unsupported offset | truncated offset | missingReturn offset | unresolved offset
  | stack offset => exact ⟨offset, rfl⟩
  | operand cause =>
    cases cause with
    | leftover count offset => exact ⟨offset, rfl⟩
    | _ => exact ⟨0, rfl⟩
  | _ => exact ⟨0, rfl⟩

/-- Faults that are the same at one offset differ in their offset only. -/
theorem exists_eq_atOffset {fault other : Fault} {offset : Nat}
    (h : fault.atOffset offset = other.atOffset offset) :
    ∃ position, other = fault.atOffset position := by
  obtain ⟨position, hposition⟩ := other.exists_atOffset_eq
  refine ⟨position, ?_⟩
  calc other = other.atOffset position := hposition.symm
    _ = (other.atOffset offset).atOffset position := (atOffset_atOffset _ _ _).symm
    _ = (fault.atOffset offset).atOffset position := by rw [h]
    _ = fault.atOffset position := atOffset_atOffset _ _ _

end Fault

/-- Where an instruction stands shows only in the fault of its token. -/
theorem Instruction.operation_atOffset (i : Instruction) (r : Resolver) (offset other : Nat) :
    i.operation r other = (i.operation r offset).mapError (Fault.atOffset other) := by
  rcases i.operation_cases r with ⟨operation, -, hfound⟩ | ⟨token, kind, hnone⟩
  · rw [hfound, hfound]
    rfl
  · rw [hnone, hnone]
    rfl

namespace Machine

variable {α β : Type}

/-! ## Effects at another offset -/

/-- The result of an effect at another offset. -/
def movedTo (offset : Nat) : EStateM.Result Fault Machine α → EStateM.Result Fault Machine α
  | .ok a m => .ok a (m.atOffset offset)
  | .error fault m => .error (fault.atOffset offset) (m.atOffset offset)

/-- The effect does the same at every offset. -/
def Moves (x : MachineM α) : Prop :=
  ∀ (m : Machine) (offset : Nat), x.run (m.atOffset offset) = movedTo offset (x.run m)

theorem Moves.bind {x : MachineM α} {f : α → MachineM β} (hx : Moves x)
    (hf : ∀ a, Moves (f a)) : Moves (x >>= f) := by
  intro m offset
  rw [EStateM.run_bind, EStateM.run_bind, hx m offset]
  cases x.run m with
  | ok a next => exact hf a next offset
  | error fault next => rfl

theorem moves_push (e : Expr) : Moves (push e) := by
  intro m offset
  rw [run_push, run_push]
  by_cases hroom : m.stack.items.length < m.stack.capacity
  · rw [if_pos hroom]
    exact if_pos hroom
  · rw [if_neg hroom]
    exact if_neg hroom

theorem moves_pop : Moves pop := by
  intro m offset
  have hitems : (m.atOffset offset).stack.items = m.stack.items := rfl
  rw [run_pop, run_pop, hitems]
  cases m.stack.items <;> rfl

theorem moves_peek : Moves peek := by
  intro m offset
  have hitems : (m.atOffset offset).stack.items = m.stack.items := rfl
  rw [run_peek, run_peek, hitems]
  cases m.stack.items <;> rfl

theorem moves_popN (count : Nat) : Moves (popN count) := by
  intro m offset
  rw [run_popN, run_popN]
  by_cases henough : count ≤ m.stack.items.length
  · rw [if_pos henough]
    exact if_pos henough
  · rw [if_neg henough]
    exact if_neg henough

theorem moves_load {value : Machine → Except Fault Expr}
    (hsame : ∀ (m : Machine) (offset : Nat), value (m.atOffset offset) = value m)
    (hfault : ∀ (m : Machine) (fault : Fault) (offset : Nat), value m = .error fault →
      fault.atOffset offset = fault) : Moves (load value) := by
  intro m offset
  simp only [load, EStateM.run_bind, EStateM.run_get, hsame]
  cases hvalue : value m with
  | error fault =>
    show EStateM.Result.error fault _ = .error (fault.atOffset offset) _
    rw [hfault m fault offset hvalue]
  | ok e => exact moves_push e m offset

theorem moves_store {place : Machine → Expr → Except Fault Machine}
    (hplace : ∀ (m : Machine) (e : Expr) (offset : Nat),
      place (m.atOffset offset) e = (place m e).map (·.atOffset offset))
    (hfault : ∀ (m : Machine) (e : Expr) (fault : Fault) (offset : Nat),
      place m e = .error fault → fault.atOffset offset = fault) : Moves (store place) := by
  refine moves_pop.bind fun e => ?_
  intro m offset
  simp only [EStateM.run_bind, EStateM.run_get, hplace]
  cases hput : place m e with
  | error fault =>
    show EStateM.Result.error fault _ = .error (fault.atOffset offset) _
    rw [hfault m e fault offset hput]
  | ok stored => rfl

theorem moves_finish : Moves finish := by
  refine moves_pop.bind fun body => ?_
  intro m offset
  simp only [EStateM.run_bind, EStateM.run_get]
  show (if m.stack.isEmpty then _ else _ : MachineM Unit).run _ = _
  cases m.stack.isEmpty <;> rfl

theorem setArgument_moved (m : Machine) (index : Nat) (value : Expr) (offset : Nat) :
    (m.atOffset offset).setArgument index value =
      (m.setArgument index value).map (·.atOffset offset) := by
  cases hset : m.setArgument index value with
  | ok stored => exact setArgument_atOffset hset offset
  | error fault =>
    cases hmoved : (m.atOffset offset).setArgument index value with
    | error other =>
      rw [setArgument_error hset, setArgument_error hmoved]
      rfl
    | ok stored =>
      -- Moved back, it would have been stored in the first place.
      have hback := setArgument_atOffset hmoved m.offset
      rw [show (m.atOffset offset).atOffset m.offset = m from rfl, hset] at hback
      cases hback

theorem setLocalVariable_moved (m : Machine) (index : Nat) (value : Expr) (offset : Nat) :
    (m.atOffset offset).setLocalVariable index value =
      (m.setLocalVariable index value).map (·.atOffset offset) := by
  unfold setLocalVariable
  by_cases hlt : index < m.locals.length
  · rw [if_pos hlt]
    exact if_pos hlt
  · rw [if_neg hlt]
    exact if_neg hlt

theorem moves_ofParts : OfParts Moves where
  pure _ _ _ := rfl
  bind := Moves.bind
  push := moves_push
  pop := moves_pop
  peek := moves_peek
  popN := moves_popN
  loadArgument index := by
    refine moves_load (fun _ _ => rfl) fun m fault offset h => ?_
    rw [argument_error h]
    rfl
  loadLocal index := by
    refine moves_load (fun _ _ => rfl) fun m fault offset h => ?_
    rcases localVariable_error h with rfl | rfl <;> rfl
  storeArgument index := by
    refine moves_store (fun m e => setArgument_moved m index e) fun m e fault offset h => ?_
    rw [setArgument_error h]
    rfl
  storeLocal index := by
    refine moves_store (fun m e => setLocalVariable_moved m index e) fun m e fault offset h => ?_
    rw [setLocalVariable_error h]
    rfl
  notArray _ _ _ := rfl
  finish := moves_finish

/-- Every operation does the same at every offset. -/
theorem moves_execute (op : Operation) : Moves (execute op) :=
  moves_ofParts.execute op

/-! ## Instructions without offsets -/

/-- Executes the operation that an instruction asks for, if its token stands for
    something. -/
def executeResolved : Except Fault Operation → MachineM Unit
  | .error fault => throw fault
  | .ok operation => execute operation

/-- Performs an instruction as if it stood at the start of the code. -/
def perform (r : Resolver) (i : Instruction) : MachineM Unit :=
  executeResolved (i.operation r 0)

/-- Performs instructions up to the first `ret`, each of them as if it stood at
    the start of the code. -/
def performAll (r : Resolver) : List Instruction → MachineM Unit
  | [] => throw (.missingReturn 0)
  | i :: is => do
    perform r i
    if i.opcode = .ret then pure () else performAll r is

theorem run_accept (r : Resolver) (offset : Nat) (i : Instruction) (m : Machine) :
    movedTo 0 ((consumer.accept r offset i).run m) = (perform r i).run (m.atOffset 0) := by
  have hop := i.operation_atOffset r offset 0
  unfold perform
  cases hcase : i.operation r offset with
  | error fault =>
    rw [hop, hcase, consumer.accept_of_error hcase]
    rfl
  | ok operation =>
    rw [hop, hcase, consumer.accept_of_ok hcase]
    exact (moves_execute operation (m.atOffset offset) 0).symm

/-- Feeding written instructions is performing them, up to offsets. -/
theorem run_feedFrom_encodeAll (r : Resolver) (offset : Nat) (is : List Instruction)
    (m : Machine) :
    movedTo 0 ((consumer.feedFrom r offset (encodeAll is)).run m) =
      (performAll r is).run (m.atOffset 0) := by
  induction is generalizing offset m with
  | nil =>
    have hend : decode offset (encodeAll []) = .error (.missingReturn offset) := rfl
    rw [consumer.feedFrom_of_error hend]
    rfl
  | cons i is ih =>
    have hfirst := run_accept r offset i m
    rw [Instruction.encodeAll_cons, consumer.feedFrom_of_ok (decode_encode i offset _),
      performAll, EStateM.run_bind, EStateM.run_bind, ← hfirst]
    cases (consumer.accept r offset i).run m with
    | error fault next => rfl
    | ok _ next =>
      by_cases hret : i.opcode = .ret
      · simp only [if_pos hret]
        rfl
      · simp only [if_neg hret]
        exact ih (offset + i.size) next

theorem answer_movedTo (offset : Nat) (result : EStateM.Result Fault Machine Unit) :
    answer (movedTo offset result) = (answer result).mapError (Fault.atOffset offset) := by
  cases result with
  | error fault m => rfl
  | ok _ m =>
    show (m.atOffset offset).outcome = m.outcome.mapError (Fault.atOffset offset)
    have hresult : (m.atOffset offset).result = m.result := rfl
    unfold outcome
    rw [hresult]
    cases m.result <;> rfl

end Machine

/-- Up to the offset of the fault, written instructions are lifted by
    performing them one after the other. -/
theorem lift_encodeAll (r : Resolver) (d : Delegate) (is : List Instruction) :
    ((d.withCode (encodeAll is)).lift r).mapError (Fault.atOffset 0) =
      Machine.answer ((Machine.performAll r is).run (.initial d)) := by
  rw [lift_eq_answer, ← Machine.answer_movedTo]
  exact congrArg Machine.answer (Machine.run_feedFrom_encodeAll r 0 is (.initial d))

end CilLift
