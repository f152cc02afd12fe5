import CilLift.Code.Operation
import CilLift.Proofs.Codec
import Mathlib.Data.List.Forall2

/-! # Traces of code

    What a piece of code amounts to does not depend on who reads it: it is a
    list of calls, two for each instruction, and possibly a fault at the end.
    `Trace.ofCode` reads the trace off the bytes without any consumer.

    Main statements: `feed_eq_follow` says that feeding code to a consumer is
    making the calls of its trace one after the other, and
    `ofBytes_encodeAll_append` that the trace of written instructions can be
    taken from the instructions themselves.
-/

namespace CilLift

/-! ## Calls and traces -/

/-- One call that a consumer of code receives. -/
inductive Call where
  | observe (offset : Nat) (i : Instruction)
  | perform (operation : Operation)

/-- The operation that the call asks for, if it asks for one. -/
def Call.operation? : Call → Option Operation
  | .observe .. => none
  | .perform operation => some operation

/-- The calls that some code leads to, and the fault that ends them where no
    `ret` does. -/
structure Trace where
  calls : List Call
  fault : Option Fault

namespace Trace

/-- A trace with the calls of one more instruction in front. -/
def cons (offset : Nat) (i : Instruction) (operation : Operation) (t : Trace) : Trace :=
  ⟨.observe offset i :: .perform operation :: t.calls, t.fault⟩

/-- The trace of the bytes that remain at `offset`. -/
def ofBytes (r : Resolver) (offset : Nat) (bytes : List UInt8) : Trace :=
  match _h : decode offset bytes with
  | .error fault => ⟨[], some fault⟩
  | .ok (i, rest) =>
    match i.operation r offset with
    -- The instruction is seen before its token is looked up.
    | .error fault => ⟨[.observe offset i], some fault⟩
    | .ok operation =>
      if i.opcode = .ret then cons offset i operation ⟨[], none⟩
      else cons offset i operation (ofBytes r (offset + i.size) rest)
termination_by bytes.length
decreasing_by exact length_lt_of_decode _h

/-- The trace of some code. -/
def ofCode (r : Resolver) (code : List UInt8) : Trace :=
  ofBytes r 0 code

/-- The operations of a trace in order. -/
def operations (t : Trace) : List Operation :=
  t.calls.filterMap Call.operation?

@[simp] theorem operations_cons (offset : Nat) (i : Instruction) (operation : Operation)
    (t : Trace) : (t.cons offset i operation).operations = operation :: t.operations := rfl

@[simp] theorem fault_cons (offset : Nat) (i : Instruction) (operation : Operation) (t : Trace) :
    (t.cons offset i operation).fault = t.fault := rfl

end Trace

/-! ## Following a trace -/

namespace Consumer

variable {σ : Type} (c : Consumer σ)

/-- Makes one call. -/
def call : Call → EStateM Fault σ Unit
  | .observe offset i => c.observe offset i
  | .perform operation => c.perform operation

/-- Makes calls one after the other, up to the first that is refused. -/
def callAll : List Call → EStateM Fault σ Unit
  | [] => pure ()
  | first :: rest => do
    c.call first
    callAll rest

/-- Makes the calls of a trace and ends with its fault, if it has one. -/
def follow (t : Trace) : EStateM Fault σ Unit := do
  c.callAll t.calls
  match t.fault with
  | none => pure ()
  | some fault => throw fault

theorem follow_cons (offset : Nat) (i : Instruction) (operation : Operation) (t : Trace) :
    c.follow (t.cons offset i operation) =
      (do c.observe offset i; c.perform operation; c.follow t) := by
  simp only [follow, Trace.cons, callAll, call, bind_assoc]

theorem feedFrom_of_error {r : Resolver} {offset : Nat} {bytes : List UInt8} {fault : Fault}
    (h : decode offset bytes = .error fault) : c.feedFrom r offset bytes = throw fault := by
  rw [feedFrom]
  split
  · simp_all
  · simp_all

theorem feedFrom_of_ok {r : Resolver} {offset : Nat} {bytes rest : List UInt8} {i : Instruction}
    (h : decode offset bytes = .ok (i, rest)) :
    c.feedFrom r offset bytes =
      (do c.accept r offset i
          if i.opcode = .ret then pure () else c.feedFrom r (offset + i.size) rest) := by
  rw [← length_sub_of_decode h, feedFrom]
  split
  · simp_all
  · rename_i heq
    rw [h] at heq
    cases heq
    rfl

/-- An instruction whose token stands for something is observed and then
    performed. -/
theorem accept_of_ok {r : Resolver} {offset : Nat} {i : Instruction} {operation : Operation}
    (h : i.operation r offset = .ok operation) :
    c.accept r offset i = (do c.observe offset i; c.perform operation) := by
  simp only [accept, h]

theorem accept_of_error {r : Resolver} {offset : Nat} {i : Instruction} {fault : Fault}
    (h : i.operation r offset = .error fault) :
    c.accept r offset i = (do c.observe offset i; throw fault) := by
  simp only [accept, h]

theorem throw_bind {α β : Type} (fault : Fault) (next : α → EStateM Fault σ β) :
    (throw fault >>= next : EStateM Fault σ β) = throw fault := rfl

/-- Feeding bytes to a consumer is following their trace. -/
theorem feedFrom_eq_follow (r : Resolver) (offset : Nat) (bytes : List UInt8) :
    c.feedFrom r offset bytes = c.follow (.ofBytes r offset bytes) := by
  -- One case for each way in which the trace can go on.
  fun_induction Trace.ofBytes r offset bytes with
  | case1 offset bytes fault hdecode =>
    rw [c.feedFrom_of_error hdecode, follow, callAll, pure_bind]
  | case2 offset bytes i rest hdecode fault hop =>
    rw [c.feedFrom_of_ok hdecode, c.accept_of_error hop]
    simp only [follow, callAll, call, bind_assoc, pure_bind, throw_bind]
  | case3 offset bytes i rest hdecode operation hop hret =>
    rw [c.feedFrom_of_ok hdecode, c.accept_of_ok hop, if_pos hret, follow_cons, bind_assoc]
    simp only [follow, callAll, pure_bind]
  | case4 offset bytes i rest hdecode operation hop hret ih =>
    rw [c.feedFrom_of_ok hdecode, c.accept_of_ok hop, if_neg hret, follow_cons, bind_assoc, ih]

/-- Feeding code to a consumer is following the code's trace, whatever the
    consumer does with the calls. -/
theorem feed_eq_follow (r : Resolver) (code : List UInt8) :
    c.feed r code = c.follow (.ofCode r code) :=
  c.feedFrom_eq_follow r 0 code

end Consumer

/-! ## Operations of instructions -/

theorem resolved_ok_iff {α : Type} {offset : Nat} {token : Token} {kind : TokenKind}
    {found : Option α} {next : α → Operation} {operation : Operation} :
    resolved offset token kind found next = .ok operation ↔
      ∃ a, found = some a ∧ next a = operation := by
  cases found with
  | none => simp [resolved]
  | some a => simp [resolved]

theorem Instruction.operation_cases_of_resolved {r : Resolver} {i : Instruction} {α : Type}
    {token : Token} {kind : TokenKind} {found : Option α} {next : α → Operation}
    (hop : ∀ offset, i.operation r offset = resolved offset token kind found next)
    (hret : i.opcode ≠ .ret) (hnext : ∀ a, next a ≠ .ret) :
    (∃ operation, (operation = .ret ↔ i.opcode = .ret) ∧
        ∀ offset, i.operation r offset = .ok operation) ∨
      ∃ token kind, ∀ offset, i.operation r offset = .error (.unresolved offset token kind) := by
  cases found with
  | none => exact .inr ⟨token, kind, hop⟩
  | some a => exact .inl ⟨next a, iff_of_false (hnext a) hret, hop⟩

/-- An instruction asks for the same operation wherever it stands, and only
    `ret` asks to return; or it has a token that stands for nothing, and the
    offset shows in the fault. -/
theorem Instruction.operation_cases (r : Resolver) (i : Instruction) :
    (∃ operation, (operation = .ret ↔ i.opcode = .ret) ∧
        ∀ offset, i.operation r offset = .ok operation) ∨
      ∃ token kind, ∀ offset, i.operation r offset = .error (.unresolved offset token kind) := by
  obtain ⟨opcode, operand⟩ := i
  cases opcode with
  | ldstr | box | castclass | isinst | call | callvirt | newobj
  | ldfld | ldflda | ldsfld | ldsflda | newarr | ldelem =>
    exact operation_cases_of_resolved (fun _ => rfl) (by simp) (by simp)
  | _ => exact .inl ⟨_, by simp, fun _ => rfl⟩

/-- Where an instruction stands has no influence on what it asks for. -/
theorem Instruction.operation_ok_of_offset {r : Resolver} {i : Instruction} {offset : Nat}
    {operation : Operation} (h : i.operation r offset = .ok operation) (other : Nat) :
    i.operation r other = .ok operation := by
  rcases i.operation_cases r with ⟨operation', -, hfound⟩ | ⟨token, kind, hnone⟩
  · rw [hfound] at h
    rw [hfound, h]
  · rw [hnone] at h
    cases h

/-- Only the instruction `ret` asks to return. -/
theorem Instruction.operation_eq_ret_iff {r : Resolver} {i : Instruction} {offset : Nat}
    {operation : Operation} (h : i.operation r offset = .ok operation) :
    operation = .ret ↔ i.opcode = .ret := by
  rcases i.operation_cases r with ⟨operation', hret, hfound⟩ | ⟨token, kind, hnone⟩
  · rw [hfound] at h
    cases h
    exact hret
  · rw [hnone] at h
    cases h

/-! ## The shape of traces -/

namespace Trace

/-- A trace without a fault ends with the first `ret`. -/
theorem operations_of_fault_eq_none {r : Resolver} {offset : Nat} {bytes : List UInt8}
    (h : (ofBytes r offset bytes).fault = none) :
    ∃ operations, (ofBytes r offset bytes).operations = operations ++ [.ret] ∧
      .ret ∉ operations := by
  -- The two cases that end in a fault are excluded, and `ret` ends the third.
  fun_induction ofBytes r offset bytes with
  | case1 | case2 => cases h
  | case3 offset bytes i rest hdecode operation hop hret =>
    rw [(Instruction.operation_eq_ret_iff hop).mpr hret]
    exact ⟨[], rfl, List.not_mem_nil⟩
  | case4 offset bytes i rest hdecode operation hop hret ih =>
    obtain ⟨operations, heq, hnot⟩ := ih h
    refine ⟨operation :: operations, ?_, ?_⟩
    · rw [operations_cons, heq, List.cons_append]
    · have hne : operation ≠ .ret := fun hcontra =>
        hret ((Instruction.operation_eq_ret_iff hop).mp hcontra)
      simp [hnot, hne.symm]

theorem ofBytes_of_ok {r : Resolver} {offset : Nat} {bytes rest : List UInt8} {i : Instruction}
    {operation : Operation} (hdecode : decode offset bytes = .ok (i, rest))
    (hop : i.operation r offset = .ok operation) :
    ofBytes r offset bytes =
      cons offset i operation
        (if i.opcode = .ret then ⟨[], none⟩ else ofBytes r (offset + i.size) rest) := by
  rw [ofBytes]
  split
  · simp_all
  · rename_i heq
    rw [hdecode] at heq
    cases heq
    rw [hop]
    dsimp only
    split <;> rfl

/-- The trace of an instruction in front of some bytes starts with that
    instruction. -/
theorem ofBytes_encode {r : Resolver} {i : Instruction} {operation : Operation} {offset : Nat}
    (hop : i.operation r offset = .ok operation) (rest : List UInt8) :
    ofBytes r offset (i.encode ++ rest) =
      cons offset i operation
        (if i.opcode = .ret then ⟨[], none⟩ else ofBytes r (offset + i.size) rest) :=
  ofBytes_of_ok (decode_encode i offset rest) hop

theorem ofBytes_encode_of_error {r : Resolver} {i : Instruction} {offset : Nat} {fault : Fault}
    (h : i.operation r offset = .error fault) (rest : List UInt8) :
    ofBytes r offset (i.encode ++ rest) = ⟨[.observe offset i], some fault⟩ := by
  have hdecode := decode_encode i offset rest
  rw [ofBytes]
  split
  · simp_all
  · rename_i heq
    rw [hdecode] at heq
    cases heq
    rw [h]

/-- The trace of instructions in front of some bytes, taken from the instructions
    themselves. -/
def ofInstructions (r : Resolver) (rest : List UInt8) (offset : Nat) : List Instruction → Trace
  | [] => ofBytes r offset rest
  | i :: is =>
    match i.operation r offset with
    | .error fault => ⟨[.observe offset i], some fault⟩
    | .ok operation =>
      cons offset i operation
        (if i.opcode = .ret then ⟨[], none⟩ else ofInstructions r rest (offset + i.size) is)

theorem ofInstructions_of_ok {r : Resolver} {i : Instruction} {operation : Operation}
    {offset : Nat} (hop : i.operation r offset = .ok operation) (rest : List UInt8)
    (is : List Instruction) :
    ofInstructions r rest offset (i :: is) =
      cons offset i operation
        (if i.opcode = .ret then ⟨[], none⟩ else ofInstructions r rest (offset + i.size) is) := by
  rw [ofInstructions, hop]

/-- Written instructions have their own trace, and no byte has to be read for
    it. -/
theorem ofBytes_encodeAll_append (r : Resolver) (is : List Instruction) (rest : List UInt8)
    (offset : Nat) :
    ofBytes r offset (Instruction.encodeAll is ++ rest) = ofInstructions r rest offset is := by
  induction is generalizing offset with
  | nil => rfl
  | cons i is ih =>
    rw [Instruction.encodeAll_cons, List.append_assoc]
    cases hop : i.operation r offset with
    | error fault => rw [ofBytes_encode_of_error hop, ofInstructions, hop]
    | ok operation => rw [ofBytes_encode hop, ofInstructions_of_ok hop, ih]

theorem ofCode_encodeAll (r : Resolver) (is : List Instruction) :
    ofCode r (Instruction.encodeAll is) = ofInstructions r [] 0 is := by
  rw [ofCode, ← ofBytes_encodeAll_append, List.append_nil]

/-- Instructions that ask for some operations, followed by `ret`, have a trace
    of just these operations and `ret`. What stands behind the `ret` does not
    matter. -/
theorem ofBytes_encodeAll {r : Resolver} {code : List Instruction} {operations : List Operation}
    (hops : List.Forall₂ (fun i operation => i.operation r 0 = .ok operation) code operations)
    (hret : .ret ∉ operations) (offset : Nat) (rest : List UInt8) :
    (ofBytes r offset (Instruction.encodeAll (code ++ [.ret]) ++ rest)).fault = none ∧
      (ofBytes r offset (Instruction.encodeAll (code ++ [.ret]) ++ rest)).operations =
        operations ++ [.ret] := by
  rw [ofBytes_encodeAll_append]
  -- The offset moves with every instruction that is read.
  induction hops generalizing offset with
  | nil => exact ⟨rfl, rfl⟩
  | @cons i operation code operations hop hrest ih =>
    obtain ⟨hne, hret⟩ := not_or.mp (mt List.mem_cons.mpr hret)
    have hop := Instruction.operation_ok_of_offset hop offset
    have hi : i.opcode ≠ .ret := fun h =>
      hne ((Instruction.operation_eq_ret_iff hop).mpr h).symm
    obtain ⟨hfault, hoperations⟩ := ih hret (offset + i.size)
    rw [List.cons_append, ofInstructions_of_ok hop, if_neg hi, fault_cons, operations_cons,
      hfault, hoperations]
    exact ⟨rfl, rfl⟩

end Trace

end CilLift
