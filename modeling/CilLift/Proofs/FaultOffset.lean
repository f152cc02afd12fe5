import CilLift.Proofs.AfterRefusal
import CilLift.Proofs.Classification
import CilLift.Proofs.Reading

/-! # Where faults occur

    A fault says at which offset it occurred. The offset is kept in two places:
    the reader knows how far it has come, and the machine remembers what it was
    last shown. `StopsAt` says without either of them what it means that
    lifting cannot go on at an offset, in a machine that knows no offset.

    A step lemma says what handing over one instruction comes to, and from it
    follows what a whole reading comes to: some instructions are executed one
    after the other, and the next one stops it (`exists_stopsAt`).

    Main statement: `fault_offsets` says that every offset in a fault of lifting
    is the sum of the sizes of the instructions before the one that failed.
-/

namespace CilLift

open Instruction (encodeAll sizeAll)

/-! ## Offsets of code that cannot be read -/

variable {code : List UInt8} {offset number : Nat}

theorem CutAt.lt_length (h : CutAt code offset number) :
    offset < code.length ∧ ∃ width, opcodeNumberAt? code offset = some (number, width) := by
  rcases h with ⟨rfl, hlone⟩ | ⟨width, size, hnumber, -, -⟩
  · have hlast := hlone.2
    exact ⟨by omega, 1, opcodeNumberAt?_of_loneMarkAt hlone⟩
  · have hinside := hnumber.add_le_length
    exact ⟨by omega, width, opcodeNumberAt?_of_numberAt hnumber⟩

theorem UnknownAt.lt_length (h : UnknownAt code offset number) :
    offset < code.length ∧ ∃ width, opcodeNumberAt? code offset = some (number, width) := by
  obtain ⟨width, hnumber, -⟩ := h
  have hinside := hnumber.add_le_length
  exact ⟨by omega, width, opcodeNumberAt?_of_numberAt hnumber⟩

theorem lt_length_of_instructionAt {i : Instruction} {next : Nat}
    (h : instructionAt code offset = .ok (i, next)) : offset < code.length := by
  obtain ⟨hbytes, -⟩ := instructionAt_ok_iff.mp h
  have hle := hbytes.length_le
  have hpos := i.size_pos
  rw [Instruction.length_encode, List.length_drop] at hle
  omega

namespace Machine

/-! ## Executing and stopping -/

/-- Executing the operations of these instructions, none of which returns, leads
    from the first machine to the second. -/
inductive Executes (r : Resolver) : List Instruction → Machine → Machine → Prop where
  | nil (m : Machine) : Executes r [] m m
  | cons {i : Instruction} {op : Operation} {is : List Instruction} {m₁ m₂ m₃ : Machine}
    (hret : i.opcode ≠ .ret) (hop : ∀ offset, i.operation r offset = .ok op)
    (first : Step op m₁ m₂) (rest : Executes r is m₂ m₃) : Executes r (i :: is) m₁ m₃

/-- The machine cannot go on with what stands at the offset. -/
inductive StopsAt (r : Resolver) (code : List UInt8) (m : Machine) (offset : Nat) :
    Fault → Prop where
  /-- No instruction stands there. -/
  | undecodable (fault : Fault) (hcode : instructionAt code offset = .error fault) :
    StopsAt r code m offset fault
  /-- The token of the instruction stands for nothing of the kind that it asks
      for. -/
  | unresolved (i : Instruction) (next : Nat) (kind : TokenKind) (token : Token)
    (hcode : instructionAt code offset = .ok (i, next)) (hask : i.question? = some (kind, token))
    (hnone : r.answer kind token = none) :
    StopsAt r code m offset (.unresolved offset token kind)
  /-- The operation of the instruction is refused. -/
  | refused (i : Instruction) (next : Nat) (op : Operation) (fault : Fault) (m' : Machine)
    (hcode : instructionAt code offset = .ok (i, next)) (hop : i.operation r offset = .ok op)
    (hrefused : (execute op).run (m.atOffset offset) = .error fault m') :
    StopsAt r code m offset fault

variable {r : Resolver} {m m' : Machine} {is : List Instruction} {fault : Fault}

theorem Executes.atOffset (h : Executes r is m m') (position : Nat) :
    Executes r is (m.atOffset position) (m'.atOffset position) := by
  induction h with
  | nil m => exact .nil _
  | cons hret hop first rest ih => exact .cons hret hop (first.atOffset position) ih

theorem Executes.opcode_ne_ret (h : Executes r is m m') : ∀ i ∈ is, i.opcode ≠ .ret := by
  induction h with
  | nil m => exact List.forall_mem_nil _
  | cons hret hop first rest ih => exact List.forall_mem_cons.mpr ⟨hret, ih⟩

/-- The offset that the machine remembered before has no influence. -/
theorem StopsAt.atOffset (h : StopsAt r code m offset fault) (position : Nat) :
    StopsAt r code (m.atOffset position) offset fault := by
  cases h with
  | undecodable _ hcode => exact .undecodable fault hcode
  | unresolved i next kind token hcode hask hnone =>
    exact .unresolved i next kind token hcode hask hnone
  | refused i next op _ m' hcode hop hrefused =>
    exact .refused i next op fault m' hcode hop hrefused

/-! ## One instruction -/

theorem step_of_accept {i : Instruction} (h : (consumer.accept r offset i).run m = .ok () m') :
    ∃ op, i.operation r offset = .ok op ∧ Step op (m.atOffset offset) m' := by
  cases hop : i.operation r offset with
  | error fault =>
    rw [consumer.accept_of_error hop] at h
    cases h
  | ok op =>
    rw [consumer.accept_of_ok hop] at h
    exact ⟨op, rfl, execute_ok_iff.mp h⟩

theorem stopsAt_of_accept {i : Instruction} {next : Nat}
    (hcode : instructionAt code offset = .ok (i, next))
    (h : (consumer.accept r offset i).run m = .error fault m') :
    StopsAt r code m offset fault := by
  cases hop : i.operation r offset with
  | error reason =>
    rw [consumer.accept_of_error hop] at h
    cases h
    obtain ⟨kind, token, hask, hnone, rfl⟩ := Instruction.operation_error_iff.mp hop
    exact .unresolved i next kind token hcode hask hnone
  | ok op =>
    rw [consumer.accept_of_ok hop] at h
    exact .refused i next op fault m' hcode hop h

/-! ## All instructions -/

theorem instructionAt_of_decode {bytes rest : List UInt8} {i : Instruction}
    (hbytes : code.drop offset = bytes) (h : decode offset bytes = .ok (i, rest)) :
    instructionAt code offset = .ok (i, offset + i.size) ∧ code.drop (offset + i.size) = rest := by
  have hsplit := decode_ok_iff.mp h
  constructor
  · rw [instructionAt_ok_iff, hbytes, hsplit]
    exact ⟨List.prefix_append _ _, rfl⟩
  · rw [← List.drop_drop, hbytes, hsplit, ← Instruction.length_encode, List.drop_left]

/-- A reading that fails has executed some instructions and is stopped at the
    one behind them. -/
theorem stopsAt_of_feedFrom {bytes : List UInt8} (hbytes : code.drop offset = bytes)
    (h : (consumer.feedFrom r offset bytes).run m = .error fault m') :
    ∃ is mid, encodeAll is <+: bytes ∧ Executes r is m mid ∧
      StopsAt r code mid (offset + sizeAll is) fault := by
  induction hlength : bytes.length using Nat.strongRecOn generalizing offset bytes m with
  | ind length ih =>
    cases hdecode : decode offset bytes with
    | error reason =>
      rw [consumer.feedFrom_of_error hdecode] at h
      cases h
      refine ⟨[], _, List.nil_prefix, .nil _, .undecodable fault ?_⟩
      rw [Instruction.sizeAll_nil, Nat.add_zero, instructionAt, hbytes, hdecode]
    | ok found =>
      obtain ⟨i, rest⟩ := found
      obtain ⟨hcode, hrest⟩ := instructionAt_of_decode hbytes hdecode
      rw [consumer.feedFrom_of_ok hdecode] at h
      rcases run_bind_error_iff.mp h with hfirst | ⟨⟨⟩, next, hfirst, hlater⟩
      · exact ⟨[], m, List.nil_prefix, .nil m, stopsAt_of_accept hcode hfirst⟩
      · by_cases hret : i.opcode = .ret
        · rw [if_pos hret] at hlater
          cases hlater
        · rw [if_neg hret] at hlater
          obtain ⟨op, hop, hstep⟩ := step_of_accept hfirst
          have hshorter : rest.length < length := hlength ▸ length_lt_of_decode hdecode
          obtain ⟨is, mid, hstarts, hexecutes, hstops⟩ :=
            ih rest.length hshorter hrest hlater rfl
          refine ⟨i :: is, mid.atOffset m.offset, ?_, ?_, ?_⟩
          · rw [Instruction.encodeAll_cons, decode_ok_iff.mp hdecode]
            exact (List.prefix_append_right_inj _).mpr hstarts
          · -- The machine is put back to where it was before it was shown anything.
            exact .cons hret (Instruction.operation_ok_of_offset hop) (hstep.atOffset m.offset)
              (hexecutes.atOffset m.offset)
          · rw [Instruction.sizeAll_cons, ← Nat.add_assoc]
            exact hstops.atOffset m.offset

/-- A reading that succeeds has executed a `ret`. -/
theorem outcome_of_feed (h : (consumer.feed r code).run m = .ok () m') :
    ∃ e, m'.outcome = .ok e := by
  rw [consumer.feed_eq_follow, Consumer.follow] at h
  obtain ⟨⟨⟩, next, hcalls, hend⟩ := run_bind_ok_iff.mp h
  cases hfault : (Trace.ofCode r code).fault with
  | some fault =>
    rw [hfault] at hend
    cases hend
  | none =>
    rw [hfault] at hend
    cases hend
    obtain ⟨ops, hops, -⟩ := Trace.operations_of_fault_eq_none hfault
    obtain ⟨final, offset, hrun, rfl⟩ := run_of_callAll hcalls
    have hrun' : Run (ops ++ [.ret]) m final := hops ▸ hrun
    obtain ⟨mid, -, hret⟩ := run_append_iff.mp hrun'
    obtain ⟨body, -, rfl⟩ := step_ret_iff.mp (run_singleton_iff.mp hret)
    exact ⟨.lambda mid.parameters body mid.resultType, rfl⟩

/-! ## Which fault stops where -/

/-- A refused operation names the offset that the machine was at, and its fault
    is none that reading can lead to. -/
theorem stopped_of_refused {op : Operation}
    (h : (execute op).run (m.atOffset offset) = .error fault m') :
    Stopped fault m' ∧ m'.offset = offset := by
  obtain ⟨taken, -, hleft⟩ := execute_losesAtMost op _ fault m' h
  exact ⟨stopsWell_execute op _ fault m' h, by rw [hleft]; rfl⟩

namespace StopsAt

theorem of_undecodable {o : Nat} (h : StopsAt r code m offset fault)
    (hfault : fault = .unsupported o number ∨ fault = .truncated o number) :
    o = offset ∧ o < code.length ∧ instructionAt code o = .error fault ∧
      ∃ width, opcodeNumberAt? code o = some (number, width) := by
  cases h with
  | undecodable _ hcode =>
    cases finds_iff.mpr hcode with
    | nothing hend => rcases hfault with hfault | hfault <;> cases hfault
    | cut number' hcut =>
      rcases hfault with hfault | hfault <;> cases hfault
      exact ⟨rfl, hcut.lt_length.1, hcode, hcut.lt_length.2⟩
    | unknown number' hunknown =>
      rcases hfault with hfault | hfault <;> cases hfault
      exact ⟨rfl, hunknown.lt_length.1, hcode, hunknown.lt_length.2⟩
  | unresolved => rcases hfault with hfault | hfault <;> cases hfault
  | refused i next op _ m' hcode hop hrefused =>
    have hstopped := (stopped_of_refused hrefused).1
    rcases hfault with rfl | rfl <;> cases hstopped

theorem of_unresolved {o : Nat} {token : Token} {kind : TokenKind}
    (h : StopsAt r code m offset (.unresolved o token kind)) :
    o = offset ∧ ∃ i next, instructionAt code o = .ok (i, next) ∧
      i.question? = some (kind, token) ∧ r.answer kind token = none := by
  cases h with
  | undecodable _ hcode => cases finds_iff.mpr hcode
  | unresolved i next kind token hcode hask hnone => exact ⟨rfl, i, next, hcode, hask, hnone⟩
  | refused i next op _ m' hcode hop hrefused => cases (stopped_of_refused hrefused).1

theorem of_stack {o : Nat} {cause : StackFault} (h : StopsAt r code m offset (.stack o cause)) :
    o = offset ∧ ∃ i next op m', instructionAt code o = .ok (i, next) ∧
      i.operation r o = .ok op ∧ (execute op).run (m.atOffset o) = .error (.stack o cause) m' := by
  cases h with
  | undecodable _ hcode => cases finds_iff.mpr hcode
  | refused i next op _ m' hcode hop hrefused =>
    obtain ⟨hstopped, hoffset⟩ := stopped_of_refused hrefused
    have ho : o = offset := by
      cases hstopped with
      | overflow => exact hoffset
      | underflow => exact hoffset
    subst ho
    exact ⟨rfl, i, next, op, m', hcode, hop, hrefused⟩

theorem of_missingReturn {o : Nat} (h : StopsAt r code m offset (.missingReturn o)) :
    o = offset ∧ code.length ≤ o := by
  cases h with
  | undecodable _ hcode =>
    cases finds_iff.mpr hcode with
    | nothing hend => exact ⟨rfl, hend⟩
  | refused i next op _ m' hcode hop hrefused => cases (stopped_of_refused hrefused).1

theorem ne_event (h : StopsAt r code m offset fault) (cause : EventFault) :
    fault ≠ .event cause := by
  rintro rfl
  cases h with
  | undecodable _ hcode => cases finds_iff.mpr hcode
  | refused i next op _ m' hcode hop hrefused => cases (stopped_of_refused hrefused).1

end StopsAt

end Machine

/-- Lifting that fails is stopped behind the instructions that it has executed. -/
theorem exists_stopsAt {r : Resolver} {d : Delegate} {fault : Fault}
    (h : d.lift r = .error fault) :
    ∃ is m, encodeAll is <+: d.method.code ∧ Machine.Executes r is (.initial d) m ∧
      Machine.StopsAt r d.method.code m (sizeAll is) fault := by
  unfold Delegate.lift at h
  cases hfeed : (Machine.consumer.feed r d.method.code).run (.initial d) with
  | ok _ m =>
    -- There is a result to look at, whatever was executed.
    obtain ⟨e, houtcome⟩ := Machine.outcome_of_feed hfeed
    rw [hfeed] at h
    dsimp only at h
    rw [houtcome] at h
    cases h
  | error reason m =>
    rw [hfeed] at h
    cases h
    obtain ⟨is, mid, hstarts, hexecutes, hstops⟩ := Machine.stopsAt_of_feedFrom List.drop_zero hfeed
    rw [Nat.zero_add] at hstops
    exact ⟨is, mid, hstarts, hexecutes, hstops⟩

/-- A reading that succeeds always leaves a result. Lifting that fails has
    executed the instructions at the start of the code up to some place, none
    of them a `ret`, and every offset in its fault is that place: an opcode
    number that cannot be read on stands there, or an instruction whose token
    stands for nothing or whose operation the stack refuses, or the code ends
    there. No fault is about an event. -/
theorem fault_offsets (r : Resolver) (d : Delegate) :
    (∀ m, (Machine.consumer.feed r d.method.code).run (.initial d) = .ok () m →
      ∃ e, m.outcome = .ok e) ∧
    ∀ fault, d.lift r = .error fault →
      ∃ is m, StartsWith d.method.code is ∧ (∀ i ∈ is, i.opcode ≠ .ret) ∧
        Machine.Executes r is (.initial d) m ∧
        (∀ o number, fault = .unsupported o number ∨ fault = .truncated o number →
          o = sizeAll is ∧ o < d.method.code.length ∧
            instructionAt d.method.code o = .error fault ∧
            ∃ width, opcodeNumberAt? d.method.code o = some (number, width)) ∧
        (∀ o token kind, fault = .unresolved o token kind →
          o = sizeAll is ∧ o < d.method.code.length ∧
            ∃ i next, instructionAt d.method.code o = .ok (i, next) ∧
              i.question? = some (kind, token) ∧ r.answer kind token = none) ∧
        (∀ o cause, fault = .stack o cause →
          o = sizeAll is ∧ o < d.method.code.length ∧
            ∃ i next op m', instructionAt d.method.code o = .ok (i, next) ∧
              i.operation r o = .ok op ∧
              (Machine.execute op).run (m.atOffset o) = .error fault m') ∧
        (∀ o, fault = .missingReturn o → o = d.method.code.length ∧ encodeAll is = d.method.code) ∧
        ∀ cause, fault ≠ .event cause := by
  refine ⟨fun m => Machine.outcome_of_feed, fun fault h => ?_⟩
  obtain ⟨is, m, hstarts, hexecutes, hstops⟩ := exists_stopsAt h
  refine ⟨is, m, startsWith_iff.mpr hstarts, hexecutes.opcode_ne_ret, hexecutes, ?_, ?_, ?_, ?_,
    hstops.ne_event⟩
  · intro o number hfault
    exact hstops.of_undecodable hfault
  · rintro o token kind rfl
    obtain ⟨ho, i, next, hcode, hask⟩ := hstops.of_unresolved
    exact ⟨ho, lt_length_of_instructionAt hcode, i, next, hcode, hask⟩
  · rintro o cause rfl
    obtain ⟨ho, i, next, op, m', hcode, hrefused⟩ := hstops.of_stack
    exact ⟨ho, lt_length_of_instructionAt hcode, i, next, op, m', hcode, hrefused⟩
  · rintro o rfl
    obtain ⟨ho, hend⟩ := hstops.of_missingReturn
    -- The instructions are a part of the code and no shorter than it.
    have hlength : d.method.code.length ≤ (encodeAll is).length := by
      rw [Instruction.length_encodeAll, ← ho]
      exact hend
    have hall : encodeAll is = d.method.code := hstarts.eq_of_length_le hlength
    refine ⟨?_, hall⟩
    rw [ho, ← hall, Instruction.length_encodeAll]

/-! ### A sum without its first operand -/

namespace Unbalanced

def delegate : Delegate where
  type := .prim .object
  method :=
    { declaringType := .prim .object
      parameters := []
      attributes := ⟨0x0010⟩
      code := encodeAll [⟨.ldcI4S, (5 : Int8)⟩, ⟨.arith .add, ()⟩, .ret]
      maxStack := 8
      locals := []
      initLocals := false }
  target := none

def resolver : Resolver := (SymbolTable.ofList []).resolver

theorem offset_add :
    delegate.lift resolver = .error (.stack 2 (.underflow 1 0)) ∧
      ∃ is, StartsWith delegate.method.code is ∧ (∀ i ∈ is, i.opcode ≠ .ret) ∧
        2 = sizeAll is ∧ 2 < delegate.method.code.length := by
  have hlift : delegate.lift resolver = .error (.stack 2 (.underflow 1 0)) := by
    rw [lift_of_instructions rfl]
    rfl
  obtain ⟨is, m, hstarts, hret, -, -, -, hstack, -⟩ :=
    (fault_offsets resolver delegate).2 _ hlift
  obtain ⟨hoffset, hinside, -⟩ := hstack 2 _ rfl
  exact ⟨hlift, is, hstarts, hret, hoffset, hinside⟩

end Unbalanced

end CilLift
