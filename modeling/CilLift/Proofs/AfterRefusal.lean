import CilLift.Proofs.Parts
import CilLift.Proofs.Resumption

/-! # What a refused operation leaves

    `Stopped` says once with which faults an operation can be refused and what
    the machine looks like then: an overflow, for instance, happens only on a
    full stack. Together with what a refused operation can have taken
    (`execute_losesAtMost`) this shows that some refusals change nothing. An
    operation takes its operands before it puts its result, so an operation
    that has taken anything has room for the result.

    Main statement: `refusal_only_consumes` says that a refused operation has
    left everything but the stack as it was and taken no more than its operands
    from the stack, and that it has taken nothing if the stack was full, if it
    looked at the top of an empty stack, or if there was nothing to load.
-/

namespace CilLift

/-- Whether the fault is a stack that was full. -/
def Fault.isOverflow : Fault → Bool
  | .stack _ (.overflow _) => true
  | _ => false

/-- Whether the operation loads an argument or a local variable. -/
def Operation.isLoad : Operation → Bool
  | .ldarg _ | .ldarga _ | .ldloc _ | .ldloca _ => true
  | _ => false

namespace Machine

/-- An operation that is refused with this fault leaves a machine like this. -/
inductive Stopped : Fault → Machine → Prop where
  | overflow (m : Machine) (hfull : m.stack.capacity ≤ m.stack.items.length) :
    Stopped (.stack m.offset (.overflow m.stack.capacity)) m
  | underflow (m : Machine) (requested : Nat) (hfew : m.stack.items.length < requested) :
    Stopped (.stack m.offset (.underflow requested m.stack.items.length)) m
  | argumentOutOfRange (m : Machine) (index : Nat) : Stopped (.argumentOutOfRange index) m
  | localOutOfRange (m : Machine) (index : Nat) : Stopped (.localOutOfRange index) m
  | unsetLocal (m : Machine) (index : Nat) : Stopped (.unsetLocal index) m
  | notArray (m : Machine) (type : Ty) : Stopped (.operand (.notArray type.name)) m
  | leftover (m : Machine) (hleft : m.stack.items ≠ []) :
    Stopped (.operand (.leftover m.stack.items.length m.offset)) m

variable {α β : Type} {m m' : Machine} {fault : Fault}

/-! ## Effects -/

/-- Whenever the effect fails, the machine is one that can be stopped so. -/
def StopsWell (x : MachineM α) : Prop :=
  ∀ m fault m', x.run m = .error fault m' → Stopped fault m'

theorem StopsWell.bind {x : MachineM α} {f : α → MachineM β} (hx : StopsWell x)
    (hf : ∀ a, StopsWell (f a)) : StopsWell (x >>= f) := by
  intro m fault m' hrun
  rcases run_bind_error_iff.mp hrun with hfirst | ⟨a, mid, -, hsecond⟩
  · exact hx m fault m' hfirst
  · exact hf a mid fault m' hsecond

theorem stopsWell_pure (a : α) : StopsWell (pure a) := by
  intro m fault m' h
  cases h

/-- An effect that looks at the machine first is judged machine by machine. -/
theorem stopsWell_get_bind {f : Machine → MachineM α}
    (h : ∀ m fault m', (f m).run m = .error fault m' → Stopped fault m') :
    StopsWell (get >>= f) :=
  fun m => h m

theorem stopsWell_push (e : Expr) : StopsWell (push e) := by
  intro m fault m' h
  rw [run_push] at h
  split at h
  · cases h
  · rename_i hfull
    cases h
    exact .overflow m (by omega)

theorem stopped_of_empty (h : m.stack.items = []) :
    Stopped (.stack m.offset (.underflow 1 0)) m := by
  have hstopped := Stopped.underflow m 1 (by simp [h])
  rwa [h] at hstopped

theorem stopsWell_pop : StopsWell pop := by
  intro m fault m' h
  rw [run_pop] at h
  split at h
  · rename_i hempty
    cases h
    exact stopped_of_empty hempty
  · cases h

theorem stopsWell_peek : StopsWell peek := by
  intro m fault m' h
  rw [run_peek] at h
  split at h
  · rename_i hempty
    cases h
    exact stopped_of_empty hempty
  · cases h

theorem stopsWell_popN (count : Nat) : StopsWell (popN count) := by
  intro m fault m' h
  rw [run_popN] at h
  split at h
  · cases h
  · rename_i hfew
    cases h
    exact .underflow m _ (by omega)

theorem stopsWell_load {value : Machine → Except Fault Expr}
    (hvalue : ∀ m fault, value m = .error fault → Stopped fault m) : StopsWell (load value) := by
  apply stopsWell_get_bind
  intro m fault m' h
  cases hloaded : value m with
  | error reason =>
    simp only [hloaded] at h
    cases h
    exact hvalue m fault hloaded
  | ok e =>
    simp only [hloaded] at h
    exact stopsWell_push e m fault m' h

theorem stopsWell_store {place : Machine → Expr → Except Fault Machine}
    (hplace : ∀ m e fault, place m e = .error fault → Stopped fault m) :
    StopsWell (store place) := by
  refine stopsWell_pop.bind fun e => stopsWell_get_bind ?_
  intro m fault m' h
  cases hput : place m e with
  | error reason =>
    simp only [hput] at h
    cases h
    exact hplace m e fault hput
  | ok stored =>
    simp only [hput] at h
    cases h

theorem stopsWell_finish : StopsWell finish := by
  refine stopsWell_pop.bind fun body => stopsWell_get_bind ?_
  intro m fault m' h
  split at h
  · cases h
  · rename_i hempty
    cases h
    refine .leftover m ?_
    intro hnil
    exact hempty (m.stack.isEmpty_iff.mpr (by simp [OperandStack.depth, hnil]))

theorem stopsWell_ofParts : OfParts StopsWell where
  pure := stopsWell_pure
  bind := StopsWell.bind
  push := stopsWell_push
  pop := stopsWell_pop
  peek := stopsWell_peek
  popN := stopsWell_popN
  loadArgument index := by
    refine stopsWell_load fun m fault h => ?_
    rw [argument_error h]
    exact .argumentOutOfRange m index
  loadLocal index := by
    refine stopsWell_load fun m fault h => ?_
    rcases localVariable_error h with rfl | rfl
    · exact .unsetLocal m index
    · exact .localOutOfRange m index
  storeArgument index := by
    refine stopsWell_store fun m e fault h => ?_
    rw [setArgument_error h]
    exact .argumentOutOfRange m index
  storeLocal index := by
    refine stopsWell_store fun m e fault h => ?_
    rw [setLocalVariable_error h]
    exact .localOutOfRange m index
  notArray type := by
    intro m fault m' h
    cases h
    exact .notArray m type
  finish := stopsWell_finish

/-- Every refusal of an operation is one of those listed. -/
theorem stopsWell_execute (op : Operation) : StopsWell (execute op) :=
  stopsWell_ofParts.execute op

/-! ## Refusals that change nothing -/

/-- A machine within the bound of its stack is as it was when an operation
    overflows: the stack is still full, so nothing was taken from it. -/
theorem eq_of_overflow {op : Operation} (hdepth : m.stack.depth ≤ m.stack.capacity)
    (h : (execute op).run m = .error fault m') (hoverflow : fault.isOverflow = true) :
    m' = m := by
  obtain ⟨taken, -, rfl⟩ := execute_losesAtMost op m fault m' h
  have hfull : m.stack.capacity ≤ (m.stack.items.drop taken).length := by
    cases stopsWell_execute op m fault _ h with
    | overflow _ hfull => exact hfull
    | _ => cases hoverflow
  have hlength : m.stack.items.length ≤ (m.stack.items.drop taken).length := by
    have hle : m.stack.items.length ≤ m.stack.capacity := hdepth
    omega
  have hitems : m.stack.items.drop taken = m.stack.items :=
    (List.drop_suffix taken m.stack.items).eq_of_length_le hlength
  rw [dropItems, hitems, withItems_self]

/-- Looking at the top of the stack takes nothing from it. -/
theorem eq_of_dup (h : (execute .dup).run m = .error fault m') : m' = m := by
  have hloses : LosesAtMost (execute .dup) 0 := losesAtMost_peek.bind takes_peek losesAtMost_push
  obtain ⟨taken, hle, rfl⟩ := hloses m fault m' h
  rw [Nat.le_zero.mp hle, dropItems_zero]

theorem eq_of_isLoad {op : Operation} (hload : op.isLoad = true)
    (h : (execute op).run m = .error fault m') : m' = m := by
  have harity : op.arity = 0 := by
    cases op with
    | ldarg | ldarga | ldloc | ldloca => rfl
    | _ => cases hload
  obtain ⟨taken, hle, rfl⟩ := execute_losesAtMost op m fault m' h
  have hnone : taken = 0 := by omega
  rw [hnone, dropItems_zero]

end Machine

/-- A refused operation on a machine within the bound of its stack, as every
    machine of a delegate is after any calls, has at most taken its operands
    from the stack. It has taken nothing if the stack was full, and neither has
    an operation that only looks at the top of the stack or loads a value. -/
theorem refusal_only_consumes :
    (∀ (d : Delegate) (calls : List Call),
      (d.machineAfter calls).stack.capacity = d.method.maxStack ∧
        (d.machineAfter calls).stack.depth ≤ (d.machineAfter calls).stack.capacity) ∧
    ∀ (m m' : Machine) (op : Operation) (fault : Fault),
      m.stack.depth ≤ m.stack.capacity → (Machine.execute op).run m = .error fault m' →
        (m'.locals = m.locals ∧ m'.arguments = m.arguments ∧ m'.receiver = m.receiver ∧
          m'.parameters = m.parameters ∧ m'.resultType = m.resultType ∧ m'.result = m.result ∧
          m'.offset = m.offset ∧ m'.stack.capacity = m.stack.capacity) ∧
        m'.stack.items <:+ m.stack.items ∧
        m.stack.depth ≤ m'.stack.depth + op.arity ∧
        (fault.isOverflow = true ∨ op = .dup ∨ op.isLoad = true → m' = m) := by
  constructor
  · intro d calls
    have hkeeps : Machine.Keeps (.initial d) (d.machineAfter calls) := .afterAll _ calls
    exact ⟨hkeeps.capacity, hkeeps.depth (Nat.zero_le _)⟩
  · intro m m' op fault hdepth h
    have hunchanged : fault.isOverflow = true ∨ op = .dup ∨ op.isLoad = true → m' = m := by
      rintro (hoverflow | rfl | hload)
      · exact Machine.eq_of_overflow hdepth h hoverflow
      · exact Machine.eq_of_dup h
      · exact Machine.eq_of_isLoad hload h
    obtain ⟨taken, hle, rfl⟩ := Machine.execute_losesAtMost op m fault m' h
    refine ⟨⟨rfl, rfl, rfl, rfl, rfl, rfl, rfl, rfl⟩, List.drop_suffix taken _, ?_, hunchanged⟩
    show m.stack.items.length ≤ (m.stack.items.drop taken).length + op.arity
    rw [List.length_drop]
    omega

/-! ### A call without a receiver -/

namespace Receiverless

def greet : MethodRef where
  declaringType := "Person"
  name := "Greet"
  parameters := [⟨"other", .prim .object⟩]
  returnType := .prim .void
  attributes := ⟨0⟩

def delegate : Delegate where
  type := .prim .object
  method :=
    { declaringType := .prim .object
      parameters := []
      attributes := ⟨0x0010⟩
      code := []
      maxStack := 1
      locals := []
      initLocals := false }
  target := none

/-- One value is on the stack, which is full then. -/
def machine : Machine := delegate.machineAfter [.observe 3 .ret, .perform .ldnull]

/-- The argument is gone and the receiver was never there. -/
def emptied : Machine := machine.withItems []

theorem consumes_call :
    machine.stack.depth ≤ machine.stack.capacity ∧
      (Machine.execute (.callvirt greet)).run machine =
        .error (.stack 3 (.underflow 1 0)) emptied ∧
      emptied.stack.items <:+ machine.stack.items ∧
      machine.stack.depth ≤ emptied.stack.depth + (Operation.callvirt greet).arity ∧
      (Machine.execute .dup).run machine = .error (.stack 3 (.overflow 1)) machine := by
  obtain ⟨-, hdepth⟩ := refusal_only_consumes.1 delegate [.observe 3 .ret, .perform .ldnull]
  have hrefused : (Machine.execute (.callvirt greet)).run machine =
      .error (.stack 3 (.underflow 1 0)) emptied := rfl
  obtain ⟨-, hitems, harity, -⟩ :=
    refusal_only_consumes.2 machine emptied (.callvirt greet) _ hdepth hrefused
  refine ⟨hdepth, hrefused, hitems, harity, ?_⟩
  obtain ⟨left, hoverflow⟩ : ∃ left, (Machine.execute .dup).run machine =
      .error (.stack 3 (.overflow 1)) left := ⟨_, rfl⟩
  obtain ⟨-, -, -, hunchanged⟩ := refusal_only_consumes.2 machine left .dup _ hdepth hoverflow
  rw [hoverflow, hunchanged (.inl rfl)]

end Receiverless

end CilLift
