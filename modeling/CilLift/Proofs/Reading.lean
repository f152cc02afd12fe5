import CilLift.Lift
import CilLift.Listing
import CilLift.Proofs.Step
import CilLift.Proofs.View
import Mathlib.Data.List.Induction

/-! # Reading code

    What reading hands over is settled by the code and the resolver alone.
    `Trace.IsOf` says what the trace of some code is, without a consumer and
    without following the reader's recursion: the instructions that linear
    decoding finds, each at the sum of the sizes before it, and the one of
    three ends that they come to.

    Main statements: `feed_takes_trace` says that every consumer receives
    exactly the calls of the one trace, up to the first that it refuses, and
    `reading_ends_at_ret` says that neither the bytes behind a `ret` nor the
    meaning of tokens that do not occur before it have any influence.
-/

namespace CilLift

/-! ## Instructions in code -/

namespace Instruction

/-- How many bytes some instructions take together. -/
def sizeAll : List Instruction → Nat
  | [] => 0
  | i :: is => i.size + sizeAll is

@[simp] theorem sizeAll_nil : sizeAll [] = 0 := rfl

@[simp] theorem sizeAll_cons (i : Instruction) (is : List Instruction) :
    sizeAll (i :: is) = i.size + sizeAll is := rfl

@[simp] theorem encodeAll_append (is js : List Instruction) :
    encodeAll (is ++ js) = encodeAll is ++ encodeAll js :=
  List.flatMap_append

@[simp] theorem length_encodeAll (is : List Instruction) :
    (encodeAll is).length = sizeAll is := by
  induction is with
  | nil => rfl
  | cons i is ih => rw [encodeAll_cons, List.length_append, length_encode, ih, sizeAll_cons]

@[simp] theorem sizeAll_append (is js : List Instruction) :
    sizeAll (is ++ js) = sizeAll is + sizeAll js := by
  rw [← length_encodeAll, encodeAll_append, List.length_append, length_encodeAll,
    length_encodeAll]

/-- Instructions are no fewer bytes than they are instructions. -/
theorem length_le_sizeAll (is : List Instruction) : is.length ≤ sizeAll is := by
  induction is with
  | nil => exact Nat.zero_le _
  | cons i is ih =>
    have hpos := i.size_pos
    rw [List.length_cons, sizeAll_cons]
    omega

theorem eq_ret_of_opcode {i : Instruction} (h : i.opcode = .ret) : i = .ret := by
  obtain ⟨opcode, operand⟩ := i
  subst h
  rfl

end Instruction

open Instruction (encodeAll sizeAll)

/-- Linear decoding of the code from its start gives these instructions first:
    each of them stands at the sum of the sizes of those before it. -/
def StartsWith (code : List UInt8) (is : List Instruction) : Prop :=
  ∀ k i, is[k]? = some i →
    instructionAt code (sizeAll (is.take k)) = .ok (i, sizeAll (is.take (k + 1)))

/-- Code starts with the instructions whose bytes it starts with. -/
theorem startsWith_iff {code : List UInt8} {is : List Instruction} :
    StartsWith code is ↔ encodeAll is <+: code := by
  constructor
  · -- The last instruction stands behind the bytes of all others.
    induction is using List.reverseRecOn with
    | nil => exact fun _ => List.nil_prefix
    | append_singleton is i ih =>
      intro h
      have hinit : StartsWith code is := by
        intro k j hk
        have hlt : k < is.length := (List.getElem?_eq_some_iff.mp hk).1
        have hj := h k j (by rw [List.getElem?_append_left hlt, hk])
        rwa [List.take_append_of_le_length (by omega),
          List.take_append_of_le_length (by omega)] at hj
      obtain ⟨rest, rfl⟩ := ih hinit
      have hlast := h is.length i (by simp)
      rw [List.take_left, instructionAt_ok_iff, ← Instruction.length_encodeAll,
        List.drop_left] at hlast
      obtain ⟨⟨after, rfl⟩, -⟩ := hlast
      exact ⟨after, by simp⟩
  · intro h k i hk
    obtain ⟨rest, rfl⟩ := h
    obtain ⟨hlt, rfl⟩ := List.getElem?_eq_some_iff.mp hk
    have hsplit : is = is.take k ++ is[k] :: is.drop (k + 1) := by
      rw [← List.drop_eq_getElem_cons hlt, List.take_append_drop]
    have hnext : is.take (k + 1) = is.take k ++ [is[k]] := by
      rw [List.take_add_one, hk]
      rfl
    rw [instructionAt_ok_iff, hnext, Instruction.sizeAll_append]
    refine ⟨?_, by simp⟩
    have hbytes : encodeAll is ++ rest =
        encodeAll (is.take k) ++ (is[k].encode ++ (encodeAll (is.drop (k + 1)) ++ rest)) := by
      rw [← List.append_assoc (is[k].encode), ← Instruction.encodeAll_cons, ← List.append_assoc,
        ← Instruction.encodeAll_append, ← hsplit]
    rw [hbytes, ← Instruction.length_encodeAll, List.drop_left]
    exact List.prefix_append _ _

/-! ## Questions to a resolver -/

/-- The token that an operand is, and what it is expected to stand for. -/
def Shape.token? : (s : Shape) → s.Operand → Option (TokenKind × Token)
  | .token kind, t => some (kind, t)
  | _, _ => none

/-- What the instruction asks a resolver, if it asks something. -/
def Instruction.question? (i : Instruction) : Option (TokenKind × Token) :=
  i.opcode.shape.token? i.operand

/-- What the resolver answers when it is asked for a token of some kind. -/
def Resolver.answer (r : Resolver) : TokenKind → Token → Option Symbol
  | .method, t => (r.method t).map .method
  | .ctor, t => (r.ctor t).map .ctor
  | .field, t => (r.field t).map .field
  | .type, t => (r.type t).map .type
  | .string, t => (r.string t).map .string

theorem resolved_error_iff {α : Type} {offset : Nat} {token : Token} {kind : TokenKind}
    {found : Option α} {next : α → Operation} {fault : Fault} :
    resolved offset token kind found next = .error fault ↔
      found = none ∧ fault = .unresolved offset token kind := by
  cases found with
  | none => simp [resolved, eq_comm]
  | some a => simp [resolved]

theorem resolved_congr {α : Type} {offset : Nat} {token : Token} {kind : TokenKind}
    {found found' : Option α} {next : α → Operation} {symbol : α → Symbol}
    (hsymbol : Function.Injective symbol) (h : found.map symbol = found'.map symbol) :
    resolved offset token kind found next = resolved offset token kind found' next := by
  rw [Option.map_injective hsymbol h]

namespace Instruction

variable {r r' : Resolver} {i : Instruction}

/-- An instruction has no operation only where its question has no answer, and
    the fault names the question. -/
theorem operation_error_iff {offset : Nat} {fault : Fault} :
    i.operation r offset = .error fault ↔
      ∃ kind token, i.question? = some (kind, token) ∧ r.answer kind token = none ∧
        fault = .unresolved offset token kind := by
  obtain ⟨opcode, operand⟩ := i
  cases opcode with
  | ldstr | box | castclass | isinst | call | callvirt | newobj
  | ldfld | ldflda | ldsfld | ldsflda | newarr | ldelem =>
    constructor
    · intro h
      obtain ⟨hnone, hfault⟩ := resolved_error_iff.mp h
      exact ⟨_, _, rfl, Option.map_eq_none_iff.mpr hnone, hfault⟩
    · intro h
      obtain ⟨kind, token, hask, hnone, hfault⟩ := h
      cases hask
      exact resolved_error_iff.mpr ⟨Option.map_eq_none_iff.mp hnone, hfault⟩
  | _ =>
    -- The others hold no token and always have an operation.
    constructor
    · intro h
      cases h
    · intro h
      obtain ⟨kind, token, hask, -, -⟩ := h
      cases hask

/-- What an instruction asks for depends on the answer to its own question
    only. -/
theorem operation_congr (h : ∀ kind token, i.question? = some (kind, token) →
    r.answer kind token = r'.answer kind token) (offset : Nat) :
    i.operation r offset = i.operation r' offset := by
  obtain ⟨opcode, operand⟩ := i
  cases opcode with
  | ldstr => exact resolved_congr (fun _ _ => Symbol.string.inj) (h _ _ rfl)
  | box | castclass | isinst | newarr | ldelem =>
    exact resolved_congr (fun _ _ => Symbol.type.inj) (h _ _ rfl)
  | call | callvirt => exact resolved_congr (fun _ _ => Symbol.method.inj) (h _ _ rfl)
  | newobj => exact resolved_congr (fun _ _ => Symbol.ctor.inj) (h _ _ rfl)
  | ldfld | ldflda | ldsfld | ldsflda =>
    exact resolved_congr (fun _ _ => Symbol.field.inj) (h _ _ rfl)
  | _ => rfl

end Instruction

/-! ## The trace of code -/

/-- The instruction that the call shows, if it shows one. -/
def Call.instruction? : Call → Option Instruction
  | .observe _ i => some i
  | .perform _ => none

/-- Instructions before a `ret` together with the operations that they ask
    for. -/
def Resolver.Performs (r : Resolver) (steps : List (Instruction × Operation)) : Prop :=
  ∀ step ∈ steps, step.1.opcode ≠ .ret ∧ ∀ offset, step.1.operation r offset = .ok step.2

namespace Trace

/-- The instructions of some steps. -/
def instructions (steps : List (Instruction × Operation)) : List Instruction :=
  steps.map (·.1)

/-- The calls that some steps lead to from `offset` on. Each instruction is
    observed behind all instructions before it, then its operation is
    performed. -/
def callsFrom (offset : Nat) (steps : List (Instruction × Operation)) : List Call :=
  (steps.mapIdx fun k step =>
    [.observe (offset + sizeAll (instructions (steps.take k))) step.1,
      .perform step.2]).flatten

/-- The trace is the one of this code under this resolver. -/
inductive IsOf (r : Resolver) (code : List UInt8) : Trace → Prop where
  /-- All instructions up to the first `ret` are handed over, and nothing
      behind it. -/
  | returned (steps : List (Instruction × Operation)) (hsteps : r.Performs steps)
    (hcode : StartsWith code (instructions steps ++ [.ret])) :
    IsOf r code ⟨callsFrom 0 (steps ++ [(.ret, .ret)]), none⟩
  /-- No instruction stands behind those handed over. -/
  | undecodable (steps : List (Instruction × Operation)) (fault : Fault)
    (hsteps : r.Performs steps) (hcode : StartsWith code (instructions steps))
    (hfault : instructionAt code (sizeAll (instructions steps)) = .error fault) :
    IsOf r code ⟨callsFrom 0 steps, some fault⟩
  /-- The last instruction is observed, but its token stands for nothing of
      the kind that its opcode asks for. -/
  | unresolved (steps : List (Instruction × Operation)) (i : Instruction) (kind : TokenKind)
    (token : Token) (hsteps : r.Performs steps)
    (hcode : StartsWith code (instructions steps ++ [i]))
    (hask : i.question? = some (kind, token)) (hnone : r.answer kind token = none) :
    IsOf r code
      ⟨callsFrom 0 steps ++ [.observe (sizeAll (instructions steps)) i],
        some (.unresolved (sizeAll (instructions steps)) token kind)⟩

@[simp] theorem callsFrom_nil (offset : Nat) : callsFrom offset [] = [] := rfl

@[simp] theorem callsFrom_cons (offset : Nat) (i : Instruction) (op : Operation)
    (steps : List (Instruction × Operation)) :
    callsFrom offset ((i, op) :: steps) =
      .observe offset i :: .perform op :: callsFrom (offset + i.size) steps := by
  simp [callsFrom, instructions, List.mapIdx_cons, Nat.add_assoc]

theorem callsFrom_append (offset : Nat) (steps others : List (Instruction × Operation)) :
    callsFrom offset (steps ++ others) =
      callsFrom offset steps ++ callsFrom (offset + sizeAll (instructions steps)) others := by
  induction steps generalizing offset with
  | nil => rfl
  | cons step steps ih =>
    obtain ⟨i, op⟩ := step
    rw [List.cons_append, callsFrom_cons, callsFrom_cons, ih, Nat.add_assoc]
    rfl

/-! ### The three ends -/

section Ends

variable {r : Resolver} {offset : Nat}

theorem ofBytes_of_decode_error {bytes : List UInt8} {fault : Fault}
    (h : decode offset bytes = .error fault) : ofBytes r offset bytes = ⟨[], some fault⟩ := by
  rw [ofBytes]
  split <;> simp_all

theorem ofBytes_ret (rest : List UInt8) :
    ofBytes r offset (Instruction.ret.encode ++ rest) =
      ⟨[.observe offset .ret, .perform .ret], none⟩ := by
  have hop : Instruction.ret.operation r offset = .ok .ret := rfl
  rw [ofBytes_encode hop]
  rfl

/-- The calls of some steps come before those of the bytes behind them. -/
theorem ofBytes_steps {steps : List (Instruction × Operation)} (hsteps : r.Performs steps)
    (offset : Nat) (rest : List UInt8) :
    ofBytes r offset (encodeAll (instructions steps) ++ rest) =
      ⟨callsFrom offset steps ++
          (ofBytes r (offset + sizeAll (instructions steps)) rest).calls,
        (ofBytes r (offset + sizeAll (instructions steps)) rest).fault⟩ := by
  rw [ofBytes_encodeAll_append]
  induction steps generalizing offset with
  | nil => rfl
  | cons step steps ih =>
    obtain ⟨i, op⟩ := step
    obtain ⟨hstep, hsteps⟩ := List.forall_mem_cons.mp hsteps
    obtain ⟨hret, hop⟩ := hstep
    have hfirst : instructions ((i, op) :: steps) = i :: instructions steps := rfl
    have hsize : offset + sizeAll (instructions ((i, op) :: steps)) =
        offset + i.size + sizeAll (instructions steps) := by
      simp [instructions, Nat.add_assoc]
    rw [hsize, hfirst, ofInstructions_of_ok (hop offset), if_neg hret, ih hsteps, callsFrom_cons]
    rfl

end Ends

/-! ### Existence and uniqueness -/

variable {r : Resolver} {code : List UInt8} {t : Trace}

/-- There is no other trace of the code than the one that is read off it. -/
theorem IsOf.eq_ofCode (h : t.IsOf r code) : t = ofCode r code := by
  unfold ofCode
  cases h with
  | returned steps hsteps hcode =>
    obtain ⟨rest, rfl⟩ := startsWith_iff.mp hcode
    rw [Instruction.encodeAll_append, List.append_assoc, ofBytes_steps hsteps,
      Instruction.encodeAll_cons, Instruction.encodeAll_nil, List.append_nil, ofBytes_ret,
      callsFrom_append]
    rfl
  | undecodable steps fault hsteps hcode hfault =>
    obtain ⟨rest, rfl⟩ := startsWith_iff.mp hcode
    have hdecode : decode (sizeAll (instructions steps)) rest = .error fault := by
      unfold instructionAt at hfault
      rw [← Instruction.length_encodeAll, List.drop_left] at hfault
      split at hfault <;> simp_all
    rw [ofBytes_steps hsteps, Nat.zero_add, ofBytes_of_decode_error hdecode, List.append_nil]
  | unresolved steps i kind token hsteps hcode hask hnone =>
    obtain ⟨rest, rfl⟩ := startsWith_iff.mp hcode
    have herror : i.operation r (sizeAll (instructions steps)) =
        .error (.unresolved (sizeAll (instructions steps)) token kind) :=
      Instruction.operation_error_iff.mpr ⟨kind, token, hask, hnone, rfl⟩
    rw [Instruction.encodeAll_append, List.append_assoc, ofBytes_steps hsteps, Nat.zero_add,
      Instruction.encodeAll_cons, Instruction.encodeAll_nil, List.append_nil,
      ofBytes_encode_of_error herror]

/-- Some bytes are steps up to a `ret`, up to an instruction whose question has
    no answer, or up to where no instruction stands. -/
theorem exists_steps (r : Resolver) (bytes : List UInt8) :
    ∃ steps rest, bytes = encodeAll (instructions steps) ++ rest ∧ r.Performs steps ∧
      ((∃ after, rest = Instruction.ret.encode ++ after) ∨
        (∃ (i : Instruction) (kind : TokenKind) (token : Token) (after : List UInt8),
          rest = i.encode ++ after ∧ i.question? = some (kind, token) ∧
            r.answer kind token = none) ∨
        ∀ (i : Instruction) (after : List UInt8), rest ≠ i.encode ++ after) := by
  fun_induction ofBytes r 0 bytes with
  | case1 offset bytes fault hdecode =>
    refine ⟨[], bytes, rfl, List.forall_mem_nil _, .inr (.inr ?_)⟩
    intro i after hbytes
    rw [decode_ok_iff.mpr hbytes] at hdecode
    cases hdecode
  | case2 offset bytes i rest hdecode fault hop =>
    obtain ⟨kind, token, hask, hnone, -⟩ := Instruction.operation_error_iff.mp hop
    exact ⟨[], bytes, rfl, List.forall_mem_nil _,
      .inr (.inl ⟨i, kind, token, rest, decode_ok_iff.mp hdecode, hask, hnone⟩)⟩
  | case3 offset bytes i rest hdecode operation hop hret =>
    have hbytes := decode_ok_iff.mp hdecode
    rw [Instruction.eq_ret_of_opcode hret] at hbytes
    exact ⟨[], bytes, rfl, List.forall_mem_nil _, .inl ⟨rest, hbytes⟩⟩
  | case4 offset bytes i rest hdecode operation hop hret ih =>
    obtain ⟨steps, behind, hrest, hsteps, hend⟩ := ih
    refine ⟨(i, operation) :: steps, behind, ?_, ?_, hend⟩
    · rw [decode_ok_iff.mp hdecode, hrest]
      simp [instructions]
    · have hstep : i.opcode ≠ .ret ∧ ∀ offset, i.operation r offset = .ok operation :=
        ⟨hret, Instruction.operation_ok_of_offset hop⟩
      exact List.forall_mem_cons.mpr ⟨hstep, hsteps⟩

/-- All code has a trace. -/
theorem exists_isOf (r : Resolver) (code : List UInt8) : ∃ t : Trace, t.IsOf r code := by
  obtain ⟨steps, rest, rfl, hsteps, hret | hunresolved | hundecodable⟩ := exists_steps r code
  · obtain ⟨after, rfl⟩ := hret
    refine ⟨_, .returned steps hsteps (startsWith_iff.mpr ⟨after, ?_⟩)⟩
    simp
  · obtain ⟨i, kind, token, after, rfl, hask, hnone⟩ := hunresolved
    refine ⟨_, .unresolved steps i kind token hsteps (startsWith_iff.mpr ⟨after, ?_⟩) hask hnone⟩
    simp
  · have hstarts : StartsWith (encodeAll (instructions steps) ++ rest) (instructions steps) :=
      startsWith_iff.mpr ⟨rest, rfl⟩
    cases hdecode : decode (sizeAll (instructions steps)) rest with
    | ok found => exact absurd (decode_ok_iff.mp hdecode) (hundecodable found.1 found.2)
    | error fault =>
      refine ⟨_, .undecodable steps fault hsteps hstarts ?_⟩
      rw [instructionAt, ← Instruction.length_encodeAll, List.drop_left,
        Instruction.length_encodeAll, hdecode]

theorem isOf_ofCode (r : Resolver) (code : List UInt8) : (ofCode r code).IsOf r code := by
  obtain ⟨t, ht⟩ := exists_isOf r code
  rw [← ht.eq_ofCode]
  exact ht

/-! ### Observed instructions -/

theorem filterMap_instruction?_callsFrom (offset : Nat)
    (steps : List (Instruction × Operation)) :
    (callsFrom offset steps).filterMap Call.instruction? = instructions steps := by
  induction steps generalizing offset with
  | nil => rfl
  | cons step steps ih =>
    obtain ⟨i, op⟩ := step
    simp only [callsFrom_cons, List.filterMap_cons, Call.instruction?, ih]
    rfl

/-- The instructions that a trace shows are those that the code starts with. -/
theorem IsOf.startsWith (h : t.IsOf r code) :
    StartsWith code (t.calls.filterMap Call.instruction?) := by
  cases h with
  | returned steps hsteps hcode =>
    have heq : instructions (steps ++ [(.ret, .ret)]) = instructions steps ++ [.ret] :=
      List.map_append
    rw [filterMap_instruction?_callsFrom, heq]
    exact hcode
  | undecodable steps fault hsteps hcode hfault =>
    rw [filterMap_instruction?_callsFrom]
    exact hcode
  | unresolved steps i kind token hsteps hcode hask hnone =>
    rw [List.filterMap_append, filterMap_instruction?_callsFrom]
    exact hcode

/-- However many calls of a trace are made, the instructions that they show are
    written at the start of the code. -/
theorem IsOf.prefix_of_made (h : t.IsOf r code) {made : List Call} (hmade : made <+: t.calls) :
    encodeAll (made.filterMap Call.instruction?) <+: code := by
  have hall := startsWith_iff.mp h.startsWith
  obtain ⟨others, hothers⟩ := hmade.filterMap Call.instruction?
  rw [← hothers, Instruction.encodeAll_append] at hall
  exact (List.prefix_append _ _).trans hall

end Trace

/-! ## Every consumer -/

/-- How following the trace ends when all its calls are accepted. -/
def Trace.ending {σ : Type} (t : Trace) (s : σ) : EStateM.Result Fault σ Unit :=
  match t.fault with
  | none => .ok () s
  | some fault => .error fault s

namespace Consumer

variable {σ : Type} (c : Consumer σ)

/-- A consumer in a state takes these calls of the trace and comes to this
    result. -/
inductive Takes (t : Trace) (s : σ) : List Call → EStateM.Result Fault σ Unit → Prop where
  /-- All calls are accepted, and the trace ends as it does by itself. -/
  | all (s' : σ) (haccepted : (c.callAll t.calls).run s = .ok () s') :
    Takes t s t.calls (t.ending s')
  /-- A call is refused. It is the last one, and the refusal is the result. -/
  | refused (before : List Call) (call : Call) (after : List Call) (s' s'' : σ) (fault : Fault)
    (hcalls : t.calls = before ++ call :: after)
    (haccepted : (c.callAll before).run s = .ok () s')
    (hrefused : (c.call call).run s' = .error fault s'') :
    Takes t s (before ++ [call]) (.error fault s'')

/-- Passes a call on and writes it down, whether or not it is accepted. -/
def record (call : Call) : EStateM Fault (σ × List Call) Unit := fun s =>
  mapResult id (·, s.2 ++ [call]) ((c.call call).run s.1)

/-- The consumer together with a record of all calls that it has received. -/
def recording : Consumer (σ × List Call) where
  observe offset i := c.record (.observe offset i)
  perform operation := c.record (.perform operation)

theorem run_call_recording (call : Call) (s : σ) (log : List Call) :
    (c.recording.call call).run (s, log) =
      mapResult id (·, log ++ [call]) ((c.call call).run s) := by
  cases call <;> rfl

theorem run_callAll_cons_of_ok {call : Call} {s t : σ} (h : (c.call call).run s = .ok () t)
    (others : List Call) : (c.callAll (call :: others)).run s = (c.callAll others).run t := by
  rw [callAll, EStateM.run_bind, h]

theorem run_callAll_append_of_ok {before : List Call} {s s' : σ}
    (h : (c.callAll before).run s = .ok () s') (others : List Call) :
    (c.callAll (before ++ others)).run s = (c.callAll others).run s' := by
  induction before generalizing s with
  | nil =>
    cases h
    rfl
  | cons call before ih =>
    obtain ⟨⟨⟩, t, hcall, hrest⟩ := run_bind_ok_iff.mp h
    rw [List.cons_append, c.run_callAll_cons_of_ok hcall, ih hrest]

/-- A record grows by the calls that are accepted. -/
theorem run_callAll_recording {calls : List Call} {s s' : σ} (log : List Call)
    (h : (c.callAll calls).run s = .ok () s') :
    (c.recording.callAll calls).run (s, log) = .ok () (s', log ++ calls) := by
  induction calls generalizing s log with
  | nil =>
    cases h
    rw [List.append_nil]
    rfl
  | cons call calls ih =>
    obtain ⟨⟨⟩, t, hcall, hrest⟩ := run_bind_ok_iff.mp h
    have hrecorded : (c.recording.call call).run (s, log) = .ok () (t, log ++ [call]) := by
      rw [run_call_recording, hcall]
      rfl
    rw [c.recording.run_callAll_cons_of_ok hrecorded, ih _ hrest, List.append_assoc]
    rfl

/-- Calls are accepted one and all, or up to one that is refused. -/
theorem callAll_cases (calls : List Call) (s : σ) :
    (∃ s', (c.callAll calls).run s = .ok () s') ∨
      ∃ before call after s' s'' fault, calls = before ++ call :: after ∧
        (c.callAll before).run s = .ok () s' ∧ (c.call call).run s' = .error fault s'' := by
  induction calls generalizing s with
  | nil => exact .inl ⟨s, rfl⟩
  | cons call calls ih =>
    cases hcall : (c.call call).run s with
    | error fault t => exact .inr ⟨[], call, calls, s, t, fault, rfl, rfl, hcall⟩
    | ok _ t =>
      have hcons := c.run_callAll_cons_of_ok hcall
      rcases ih t with ⟨s', h⟩ | ⟨before, other, after, s', s'', fault, rfl, hacc, href⟩
      · exact .inl ⟨s', by rw [hcons, h]⟩
      · exact .inr ⟨call :: before, other, after, s', s'', fault, rfl, by rw [hcons, hacc], href⟩

theorem exists_takes (t : Trace) (s : σ) : ∃ made result, c.Takes t s made result := by
  rcases c.callAll_cases t.calls s with
    ⟨s', haccepted⟩ | ⟨before, call, after, s', s'', fault, hcalls, haccepted, hrefused⟩
  · exact ⟨_, _, .all s' haccepted⟩
  · exact ⟨_, _, .refused before call after s' s'' fault hcalls haccepted hrefused⟩

namespace Takes

variable {c} {t : Trace} {s : σ} {made : List Call} {result : EStateM.Result Fault σ Unit}

theorem made_prefix (h : c.Takes t s made result) : made <+: t.calls := by
  cases h with
  | all => exact List.prefix_rfl
  | refused before call after s' s'' fault hcalls =>
    rw [hcalls]
    exact ⟨after, by simp⟩

/-- What a consumer takes of a trace is what following it leads to. -/
theorem run_follow (h : c.Takes t s made result) : (c.follow t).run s = result := by
  unfold follow
  rw [EStateM.run_bind]
  cases h with
  | all s' haccepted =>
    rw [haccepted]
    unfold Trace.ending
    cases t.fault <;> rfl
  | refused before call after s' s'' fault hcalls haccepted hrefused =>
    rw [hcalls, c.run_callAll_append_of_ok haccepted, callAll, EStateM.run_bind, hrefused]

/-- The calls that a consumer takes of a trace are those it receives. -/
theorem recording (h : c.Takes t s made result) :
    c.recording.Takes t (s, []) made (mapResult id (·, made) result) := by
  cases h with
  | all s' haccepted =>
    have hending : mapResult id (·, t.calls) (t.ending s') = t.ending (s', t.calls) := by
      unfold Trace.ending
      cases t.fault <;> rfl
    rw [hending]
    exact .all _ (c.run_callAll_recording [] haccepted)
  | refused before call after s' s'' fault hcalls haccepted hrefused =>
    refine .refused before call after _ _ fault hcalls (c.run_callAll_recording [] haccepted) ?_
    rw [run_call_recording, hrefused]
    rfl

end Takes

end Consumer

/-- Some code has one trace under a resolver, and every consumer in every state
    receives exactly its calls, up to the first that it refuses. It comes to
    the refusal or to the end of the trace. The instructions that it is shown
    are at most as many as the bytes and stand at the start of the code. -/
theorem feed_takes_trace (r : Resolver) (code : List UInt8) :
    ∃ t : Trace, t.IsOf r code ∧ (∀ t' : Trace, t'.IsOf r code → t' = t) ∧
      ∀ {σ : Type} (c : Consumer σ) (s : σ), ∃ made result, c.Takes t s made result ∧
        (c.feed r code).run s = result ∧
        (c.recording.feed r code).run (s, []) = mapResult id (·, made) result ∧
        (made.filterMap Call.instruction?).length ≤ code.length ∧
        encodeAll (made.filterMap Call.instruction?) <+: code := by
  refine ⟨.ofCode r code, Trace.isOf_ofCode r code, fun t' ht' => ht'.eq_ofCode, ?_⟩
  intro σ c s
  obtain ⟨made, result, htakes⟩ := c.exists_takes (.ofCode r code) s
  have hbytes := (Trace.isOf_ofCode r code).prefix_of_made htakes.made_prefix
  refine ⟨made, result, htakes, ?_, ?_, ?_, hbytes⟩
  · rw [c.feed_eq_follow, htakes.run_follow]
  · rw [c.recording.feed_eq_follow, htakes.recording.run_follow]
  · have hle := hbytes.length_le
    have hsize := Instruction.length_le_sizeAll (made.filterMap Call.instruction?)
    rw [Instruction.length_encodeAll] at hle
    omega

/-! ## What reading does not depend on -/

/-- Neither the bytes behind a `ret` nor answers to questions that are not
    asked before it show in the trace. -/
theorem Trace.ofBytes_congr {r r' : Resolver} {is : List Instruction}
    (hanswers : ∀ i ∈ is, ∀ kind token, i.question? = some (kind, token) →
      r.answer kind token = r'.answer kind token)
    (offset : Nat) (rest rest' : List UInt8) :
    ofBytes r offset (encodeAll (is ++ [.ret]) ++ rest) =
      ofBytes r' offset (encodeAll (is ++ [.ret]) ++ rest') := by
  rw [ofBytes_encodeAll_append, ofBytes_encodeAll_append]
  induction is generalizing offset with
  | nil => rfl
  | cons i is ih =>
    obtain ⟨hi, his⟩ := List.forall_mem_cons.mp hanswers
    rw [List.cons_append, ofInstructions, ofInstructions, Instruction.operation_congr hi offset,
      ih his]

namespace Delegate

/-- The delegate with other code. -/
def withCode (d : Delegate) (code : List UInt8) : Delegate :=
  { d with method := { d.method with code } }

@[simp] theorem withCode_code (d : Delegate) (code : List UInt8) :
    (d.withCode code).method.code = code := rfl

@[simp] theorem initial_withCode (d : Delegate) (code : List UInt8) :
    Machine.initial (d.withCode code) = Machine.initial d := rfl

end Delegate

/-- Reading up to a `ret` depends on the bytes up to there and on the answers
    to the questions asked there. Under the same bytes and answers, every
    consumer receives the same calls and comes to the same result, so methods
    are lifted and listed alike. -/
theorem reading_ends_at_ret {r r' : Resolver} {code code' : List UInt8} {is : List Instruction}
    (hcode : StartsWith code (is ++ [.ret]))
    (hbytes : code'.take (sizeAll (is ++ [.ret])) = code.take (sizeAll (is ++ [.ret])))
    (hanswers : ∀ i ∈ is, ∀ kind token, i.question? = some (kind, token) →
      r.answer kind token = r'.answer kind token) :
    (∀ {σ : Type} (c : Consumer σ) (s : σ),
      (c.feed r code).run s = (c.feed r' code').run s ∧
        (c.recording.feed r code).run (s, []) = (c.recording.feed r' code').run (s, [])) ∧
    (∀ d : Delegate, (d.withCode code).lift r = (d.withCode code').lift r' ∧
      ∀ passes, (d.withCode code).liftWith r passes = (d.withCode code').liftWith r' passes) ∧
    Listing.complete r code = Listing.complete r' code' := by
  have htrace : Trace.ofCode r code = Trace.ofCode r' code' := by
    obtain ⟨rest, rfl⟩ := startsWith_iff.mp hcode
    rw [← Instruction.length_encodeAll, List.take_left] at hbytes
    have hcode' : encodeAll (is ++ [.ret]) <+: code' := hbytes ▸ List.take_prefix _ _
    obtain ⟨rest', rfl⟩ := hcode'
    exact Trace.ofBytes_congr hanswers 0 rest rest'
  have hfeed : ∀ {σ : Type} (c : Consumer σ), c.feed r code = c.feed r' code' := by
    intro σ c
    rw [c.feed_eq_follow, c.feed_eq_follow, htrace]
  have hlift : ∀ d : Delegate, (d.withCode code).lift r = (d.withCode code').lift r' := by
    intro d
    unfold Delegate.lift
    rw [Delegate.withCode_code, Delegate.withCode_code, Delegate.initial_withCode,
      Delegate.initial_withCode, hfeed]
  refine ⟨fun c s => ⟨by rw [hfeed], by rw [hfeed]⟩, fun d => ⟨hlift d, ?_⟩, ?_⟩
  · intro passes
    rw [Delegate.liftWith, Delegate.liftWith, hlift]
  · rw [Listing.complete, Listing.complete, Listing.ofCode, Listing.ofCode, hfeed]

/-! ### A greeting in front of two endings -/

namespace Greeting

def hello : Token := ⟨0x70000001⟩

def resolver : Resolver :=
  (SymbolTable.ofList [(hello, .string "hello")]).resolver

/-- The token of the text stands for a type as well, and so does every other
    token. -/
def richResolver : Resolver :=
  { resolver with type := fun _ => some (.prim .int32) }

def greeting : List Instruction :=
  [⟨.nop, ()⟩, ⟨.ldstr, hello⟩]

/-- Behind the `ret` stands a mark without a second byte. -/
def code : List UInt8 :=
  encodeAll (greeting ++ [.ret]) ++ [0xfe]

/-- Behind the `ret` stands a call without its token. -/
def otherCode : List UInt8 :=
  encodeAll (greeting ++ [.ret]) ++ [0x28, 0x01]

theorem startsWith_code : StartsWith code (greeting ++ [.ret]) :=
  startsWith_iff.mpr (List.prefix_append _ _)

theorem complete_otherCode :
    code ≠ otherCode ∧ StartsWith code (greeting ++ [.ret]) ∧
      otherCode.take (sizeAll (greeting ++ [.ret])) = code.take (sizeAll (greeting ++ [.ret])) ∧
      Listing.complete resolver code = Listing.complete richResolver otherCode := by
  have hbytes : otherCode.take (sizeAll (greeting ++ [.ret])) =
      code.take (sizeAll (greeting ++ [.ret])) := by decide
  have hanswers : ∀ i ∈ greeting, ∀ kind token, i.question? = some (kind, token) →
      resolver.answer kind token = richResolver.answer kind token := by
    intro i hi kind token hask
    simp only [greeting, List.mem_cons, List.not_mem_nil, or_false] at hi
    rcases hi with rfl | rfl
    · cases hask
    · cases hask
      rfl
  exact ⟨by decide, startsWith_code, hbytes,
    (reading_ends_at_ret startsWith_code hbytes hanswers).2.2⟩

end Greeting

end CilLift
