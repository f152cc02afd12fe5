import CilLift.Lift
import CilLift.Proofs.Step
import CilLift.Proofs.Trace

/-! # Runs of a machine

    A run is a list of operations executed one after the other, all with
    success. The offset that a machine remembers has no influence on it.

    Main statements: `Run.invariant` carries what every step preserves through
    a whole run, together with the operations executed so far, and
    `lift_ok_iff` says that a method is lifted exactly when its operations run
    up to `ret` and leave the body of the function alone on the stack.
    `lift_of_run` does so for written instructions.
-/

namespace CilLift

namespace Machine

variable {m m' : Machine} {op : Operation} {ops : List Operation}

/-! ## Offsets -/

/-- The machine at another instruction. -/
def atOffset (m : Machine) (offset : Nat) : Machine :=
  { m with offset }

@[simp] theorem atOffset_self (m : Machine) : m.atOffset m.offset = m := rfl

theorem Replaces.atOffset {operands : List Expr} {node : Expr}
    (h : m.Replaces operands node m') (offset : Nat) :
    (m.atOffset offset).Replaces operands node (m'.atOffset offset) := by
  obtain ⟨rest, hitems, hroom, rfl⟩ := h
  exact ⟨rest, hitems, hroom, rfl⟩

theorem setArgument_atOffset {index : Nat} {value : Expr}
    (h : m.setArgument index value = .ok m') (offset : Nat) :
    (m.atOffset offset).setArgument index value = .ok (m'.atOffset offset) := by
  obtain ⟨-, -, receiver, arguments, hm'⟩ := setArgument_ok h
  rw [setArgument_of_same h (n := m.atOffset offset) rfl rfl, hm']
  rfl

/-- The offset that is remembered has no influence on a step. -/
theorem Step.atOffset (h : Step op m m') (offset : Nat) :
    Step op (m.atOffset offset) (m'.atOffset offset) := by
  cases h with
  | nop => exact .nop _
  | dup e rest hitems hput => exact .dup e rest hitems (hput.atOffset offset)
  | pop e rest hitems => exact .pop e rest hitems
  | ret body hitems => exact .ret body hitems
  | load e hloaded hput =>
    refine .load e ?_ (hput.atOffset offset)
    rw [← hloaded]
    cases op <;> rfl
  | storeArgument e rest hitems hset =>
    exact .storeArgument e rest hitems (setArgument_atOffset hset offset)
  | storeLocal e rest hitems hset =>
    obtain ⟨hlt, rfl⟩ := setLocalVariable_ok_iff.mp hset
    exact .storeLocal e rest hitems (setLocalVariable_ok_iff.mpr ⟨hlt, rfl⟩)
  | build hbuilds hput => exact .build hbuilds (hput.atOffset offset)

/-! ## Runs -/

/-- Executing the operations one after the other leads from the first machine
    to the second. -/
inductive Run : List Operation → Machine → Machine → Prop where
  | nil (m : Machine) : Run [] m m
  | cons {op : Operation} {ops : List Operation} {m₁ m₂ m₃ : Machine} (first : Step op m₁ m₂)
    (rest : Run ops m₂ m₃) : Run (op :: ops) m₁ m₃

/-- A run that starts with loading a value. -/
theorem Run.load {e : Expr} (hloaded : m.loaded? op = some e)
    (hroom : m.stack.items.length < m.stack.capacity)
    (h : Run ops (m.withItems (e :: m.stack.items)) m') : Run (op :: ops) m m' :=
  .cons (.load e hloaded ⟨m.stack.items, rfl, hroom, rfl⟩) h

/-- A run that starts with building a node of the operands on top of the stack. -/
theorem Run.build {operands rest : List Expr} {node : Expr} (hbuilds : op.Builds operands node)
    (hitems : m.stack.items = operands.reverse ++ rest) (hroom : rest.length < m.stack.capacity)
    (h : Run ops (m.withItems (node :: rest)) m') : Run (op :: ops) m m' :=
  .cons (.build hbuilds ⟨rest, hitems, hroom, rfl⟩) h

theorem Run.atOffset (h : Run ops m m') (offset : Nat) :
    Run ops (m.atOffset offset) (m'.atOffset offset) := by
  induction h with
  | nil => exact .nil _
  | cons first rest ih => exact .cons (first.atOffset offset) ih

theorem run_append_iff {others : List Operation} :
    Run (ops ++ others) m m' ↔ ∃ mid, Run ops m mid ∧ Run others mid m' := by
  induction ops generalizing m with
  | nil =>
    constructor
    · intro h
      exact ⟨m, .nil m, h⟩
    · intro h
      obtain ⟨_, hnil, h⟩ := h
      cases hnil
      exact h
  | cons op ops ih =>
    constructor
    · intro h
      cases h with
      | cons first rest =>
        obtain ⟨mid, hops, hothers⟩ := ih.mp rest
        exact ⟨mid, .cons first hops, hothers⟩
    · intro h
      obtain ⟨mid, hops, hothers⟩ := h
      cases hops with
      | cons first rest => exact .cons first (ih.mpr ⟨mid, rest, hothers⟩)

theorem run_singleton_iff : Run [op] m m' ↔ Step op m m' := by
  constructor
  · intro h
    cases h with
    | cons first rest =>
      cases rest
      exact first
  · intro h
    exact .cons h (.nil m')

/-- What holds of a machine and the operations it has executed, and is
    preserved by every step of an allowed operation, holds after every run of
    allowed operations. -/
theorem Run.invariant {allowed : Operation → Prop} {inv : List Operation → Machine → Prop}
    (hstep : ∀ done op m m', allowed op → inv done m → Step op m m' → inv (done ++ [op]) m')
    (hrun : Run ops m m') (hops : ∀ op ∈ ops, allowed op) {done : List Operation}
    (hinv : inv done m) : inv (done ++ ops) m' := by
  induction hrun generalizing done with
  | nil =>
    rw [List.append_nil]
    exact hinv
  | cons first rest ih =>
    obtain ⟨hop, hops⟩ := List.forall_mem_cons.mp hops
    have hnext := ih hops (hstep done _ _ _ hop hinv first)
    rw [List.append_assoc] at hnext
    exact hnext

/-- No step changes the signature or the capacity of the stack. -/
theorem Step.frame (h : Step op m m') :
    m'.parameters = m.parameters ∧ m'.resultType = m.resultType ∧
      m'.stack.capacity = m.stack.capacity := by
  cases h with
  | nop | pop | ret => exact ⟨rfl, rfl, rfl⟩
  | dup e rest hitems hput | load e hloaded hput | build hbuilds hput =>
    obtain ⟨_, _, _, rfl⟩ := hput
    exact ⟨rfl, rfl, rfl⟩
  | storeArgument e rest hitems hset =>
    obtain ⟨_, _, _, _, rfl⟩ := setArgument_ok hset
    exact ⟨rfl, rfl, rfl⟩
  | storeLocal e rest hitems hset =>
    obtain ⟨_, rfl⟩ := setLocalVariable_ok_iff.mp hset
    exact ⟨rfl, rfl, rfl⟩

theorem Run.frame (h : Run ops m m') :
    m'.parameters = m.parameters ∧ m'.resultType = m.resultType ∧
      m'.stack.capacity = m.stack.capacity := by
  induction h with
  | nil => exact ⟨rfl, rfl, rfl⟩
  | cons first rest ih =>
    obtain ⟨hp, ht, hc⟩ := first.frame
    rw [← hp, ← ht, ← hc]
    exact ih

theorem step_ret_iff :
    Step .ret m m' ↔ ∃ body, m.stack.items = [body] ∧
      m' = { m.withItems [] with
        result := some (.lambda m.parameters body m.resultType) } := by
  rw [← execute_ok_iff]
  exact finish_ok_iff

/-! ## Runs and traces -/

theorem run_of_callAll {calls : List Call}
    (h : (consumer.callAll calls).run m = .ok () m') :
    ∃ mid offset, Run (calls.filterMap Call.operation?) m mid ∧ m' = mid.atOffset offset := by
  induction calls generalizing m with
  | nil =>
    cases h
    exact ⟨_, _, .nil _, (atOffset_self _).symm⟩
  | cons call calls ih =>
    obtain ⟨⟨⟩, next, hcall, hrest⟩ := run_bind_ok_iff.mp h
    obtain ⟨mid, offset, hrun, rfl⟩ := ih hrest
    cases call with
    | observe position i =>
      -- The machine only remembers the new offset; the old one is put back.
      cases hcall
      exact ⟨mid.atOffset m.offset, offset, hrun.atOffset m.offset, rfl⟩
    | perform op => exact ⟨mid, offset, .cons (execute_ok_iff.mp hcall) hrun, rfl⟩

theorem callAll_of_run {calls : List Call} (h : Run (calls.filterMap Call.operation?) m m') :
    ∃ offset, (consumer.callAll calls).run m = .ok () (m'.atOffset offset) := by
  induction calls generalizing m m' with
  | nil =>
    cases h
    exact ⟨_, congrArg _ (atOffset_self _).symm⟩
  | cons call calls ih =>
    cases call with
    | observe position i =>
      -- The run is the same from the offset that is observed.
      obtain ⟨offset, hrest⟩ := ih (h.atOffset position)
      exact ⟨offset, run_bind_ok_iff.mpr ⟨(), _, rfl, hrest⟩⟩
    | perform op =>
      cases h with
      | cons first rest =>
        obtain ⟨offset, hrest⟩ := ih rest
        exact ⟨offset, run_bind_ok_iff.mpr ⟨(), _, execute_ok_iff.mpr first, hrest⟩⟩

end Machine

/-! ## Lifting -/

/-- The nodes that the arguments of a method are before anything is stored
    into them, in the order of their numbers. -/
def Delegate.argumentNodes (d : Delegate) : List Expr :=
  d.receiver.toList ++ d.method.parameters.map .parameter

@[simp] theorem Machine.initial_argumentValues (d : Delegate) :
    (Machine.initial d).argumentValues = d.argumentNodes := rfl

/-- An argument is one of the parameters, a parameter that stands for the
    receiver, or the value that the receiver is bound to. -/
theorem Delegate.argumentNodes_cases {d : Delegate} {e : Expr} (h : e ∈ d.argumentNodes) :
    (∃ p ∈ d.method.parameters, e = .parameter p) ∨
      d.method.isStatic = false ∧ d.target = none ∧
        e = .parameter ⟨"this", d.method.declaringType⟩ ∨
      ∃ value, e = .constant value d.method.declaringType := by
  unfold argumentNodes receiver at h
  rcases List.mem_append.mp h with hreceiver | hparameter
  · by_cases hstatic : d.method.isStatic
    · simp [hstatic] at hreceiver
    · cases htarget : d.target with
      | none =>
        right; left
        simpa [hstatic, htarget] using hreceiver
      | some value =>
        right; right
        exact ⟨value, by simpa [hstatic, htarget] using hreceiver⟩
  · left
    obtain ⟨p, hp, rfl⟩ := List.mem_map.mp hparameter
    exact ⟨p, hp, rfl⟩

/-- A local variable that has a value starts with the default of its type. -/
theorem Method.initialLocal_eq_some {m : Method} {type : Ty} {e : Expr}
    (h : m.initialLocal type = some e) : e = .constant (.default type) type := by
  unfold initialLocal at h
  by_cases hinit : m.initLocals
  · rw [if_pos hinit, Option.some.injEq] at h
    exact h.symm
  · rw [if_neg hinit] at h
    cases h

open Machine (Run)

variable {r : Resolver} {d : Delegate}

/-- Lifting makes the calls of the code's trace and then looks at the result. -/
theorem lift_ok_iff_callAll {e : Expr} :
    d.lift r = .ok e ↔
      (Trace.ofCode r d.method.code).fault = none ∧
        ∃ m, (Machine.consumer.callAll (Trace.ofCode r d.method.code).calls).run (.initial d) =
          .ok () m ∧ m.result = some e := by
  unfold Delegate.lift
  rw [Consumer.feed_eq_follow, Consumer.follow, EStateM.run_bind]
  cases (Machine.consumer.callAll (Trace.ofCode r d.method.code).calls).run (.initial d) with
  | error fault m => simp
  | ok _ m =>
    cases (Trace.ofCode r d.method.code).fault with
    | some fault => simp
    | none =>
      cases hresult : m.result with
      | none => simp [Machine.outcome, hresult]
      | some result => simp [Machine.outcome, hresult]

/-- A method is lifted exactly when its operations run up to the first `ret`
    and leave one value on the stack; that value is the body of the function. -/
theorem lift_ok_iff {e : Expr} :
    d.lift r = .ok e ↔
      ∃ ops m body, (Trace.ofCode r d.method.code).fault = none ∧
        (Trace.ofCode r d.method.code).operations = ops ++ [.ret] ∧ .ret ∉ ops ∧
        Run ops (.initial d) m ∧ m.stack.items = [body] ∧
        e = .lambda d.method.parameters body d.type := by
  rw [lift_ok_iff_callAll]
  constructor
  · intro h
    obtain ⟨hfault, m, hcalls, hresult⟩ := h
    obtain ⟨ops, hops, hnot⟩ := Trace.operations_of_fault_eq_none hfault
    obtain ⟨final, offset, hrun, rfl⟩ := Machine.run_of_callAll hcalls
    have hrun' : Run (ops ++ [.ret]) (.initial d) final := hops ▸ hrun
    obtain ⟨mid, hmid, hret⟩ := Machine.run_append_iff.mp hrun'
    obtain ⟨body, hitems, rfl⟩ := Machine.step_ret_iff.mp (Machine.run_singleton_iff.mp hret)
    refine ⟨ops, mid, body, hfault, hops, hnot, hmid, hitems, ?_⟩
    -- The signature that `ret` looks up is still the one of the start.
    obtain ⟨hparameters, htype, -⟩ := hmid.frame
    have hlambda : some (Expr.lambda mid.parameters body mid.resultType) = some e := hresult
    rw [hparameters, htype] at hlambda
    exact (Option.some.inj hlambda).symm
  · intro h
    obtain ⟨ops, m, body, hfault, hops, -, hrun, hitems, rfl⟩ := h
    obtain ⟨hparameters, htype, -⟩ := hrun.frame
    have hret := Machine.step_ret_iff.mpr ⟨body, hitems, rfl⟩
    have hall : Run (ops ++ [.ret]) (.initial d) _ :=
      Machine.run_append_iff.mpr ⟨m, hrun, Machine.run_singleton_iff.mpr hret⟩
    rw [← hops] at hall
    obtain ⟨offset, hcalls⟩ := Machine.callAll_of_run hall
    refine ⟨hfault, _, hcalls, ?_⟩
    show some (Expr.lambda m.parameters body m.resultType) = _
    rw [hparameters, htype]
    rfl

/-! ## Lifting written instructions -/

/-- What an execution comes to. -/
def Machine.answer : EStateM.Result Fault Machine Unit → Except Fault Expr
  | .ok _ m => m.outcome
  | .error fault _ => .error fault

theorem lift_eq_answer (r : Resolver) (d : Delegate) :
    d.lift r = Machine.answer ((Machine.consumer.feed r d.method.code).run (.initial d)) := by
  unfold Delegate.lift Machine.answer
  rfl

/-- Lifting written instructions is following their own trace. -/
theorem lift_of_instructions {is : List Instruction}
    (hcode : d.method.code = Instruction.encodeAll is) :
    d.lift r =
      Machine.answer ((Machine.consumer.follow (.ofInstructions r [] 0 is)).run (.initial d)) := by
  rw [lift_eq_answer, Consumer.feed_eq_follow, hcode, Trace.ofCode_encodeAll]

/-- Written instructions whose operations run up to `ret` and leave one value on
    the stack are lifted to it. -/
theorem lift_of_run {is : List Instruction} {ops : List Operation} {m : Machine} {body : Expr}
    (hcode : d.method.code = Instruction.encodeAll is)
    (hfault : (Trace.ofInstructions r [] 0 is).fault = none)
    (hops : (Trace.ofInstructions r [] 0 is).operations = ops ++ [.ret])
    (hrun : Run ops (.initial d) m) (hitems : m.stack.items = [body]) :
    d.lift r = .ok (.lambda d.method.parameters body d.type) := by
  rw [← Trace.ofCode_encodeAll, ← hcode] at hfault hops
  obtain ⟨ops', hops', hret⟩ := Trace.operations_of_fault_eq_none hfault
  have heq : ops' = ops := List.append_cancel_right (hops'.symm.trans hops)
  rw [heq] at hret
  exact lift_ok_iff.mpr ⟨ops, m, body, hfault, hops, hret, hrun, hitems, rfl⟩

end CilLift
