import CilLift.Proofs.Step

/-! # Refused operations

    An operation that is refused may already have taken operands from the
    stack. It has done nothing else: nothing was stored, put on the stack or
    returned.

    An effect `Takes` a number of values when that is all it does in case of
    success, and `LosesAtMost` a number of values when no more than these are
    gone in case of a fault. Sequences of effects add these numbers up.

    Main statement: `execute_losesAtMost` says that a refused operation has at
    most taken its operands.
-/

namespace CilLift

/-- Two effects fail one after the other when the first fails, or succeeds and
    leads to a state in which the second fails. -/
theorem run_bind_error_iff {ε σ α β : Type} {x : EStateM ε σ α} {f : α → EStateM ε σ β}
    {s s' : σ} {fault : ε} :
    (x >>= f).run s = .error fault s' ↔
      x.run s = .error fault s' ∨ ∃ a t, x.run s = .ok a t ∧ (f a).run t = .error fault s' := by
  rw [EStateM.run_bind]
  cases x.run s with
  | ok a t =>
    constructor
    · intro h
      exact .inr ⟨a, t, rfl, h⟩
    · intro h
      obtain h | ⟨_, _, heq, h⟩ := h
      · cases h
      · cases heq
        exact h
  | error other t => simp

namespace Machine

/-- The machine without the given number of values on top of its stack. -/
def dropItems (m : Machine) (count : Nat) : Machine :=
  m.withItems (m.stack.items.drop count)

@[simp] theorem dropItems_zero (m : Machine) : m.dropItems 0 = m := rfl

@[simp] theorem dropItems_dropItems (m : Machine) (first second : Nat) :
    (m.dropItems first).dropItems second = m.dropItems (first + second) := by
  simp only [dropItems, withItems_items, withItems_withItems, List.drop_drop]

theorem dropItems_one {m : Machine} {e : Expr} {rest : List Expr}
    (h : m.stack.items = e :: rest) : m.dropItems 1 = m.withItems rest := by
  rw [dropItems, h, List.drop_one, List.tail_cons]

/-! ## Effects that only take values -/

variable {α β : Type}

/-- All that the effect does when it succeeds is to take `count` values from
    the stack. -/
def Takes (x : MachineM α) (count : Nat) : Prop :=
  ∀ m a m', x.run m = .ok a m' → m' = m.dropItems count

/-- All that the effect has done when it fails is to take at most `count`
    values from the stack. -/
def LosesAtMost (x : MachineM α) (count : Nat) : Prop :=
  ∀ m fault m', x.run m = .error fault m' → ∃ taken, taken ≤ count ∧ m' = m.dropItems taken

theorem LosesAtMost.mono {x : MachineM α} {count bound : Nat} (h : LosesAtMost x count)
    (hle : count ≤ bound) : LosesAtMost x bound := by
  intro m fault m' hrun
  obtain ⟨taken, htaken, rfl⟩ := h m fault m' hrun
  exact ⟨taken, by omega, rfl⟩

/-- What the first effect takes is lost when the second one fails. -/
theorem LosesAtMost.bind {x : MachineM α} {f : α → MachineM β} {n k : Nat}
    (hx : LosesAtMost x n) (htakes : Takes x n) (hf : ∀ a, LosesAtMost (f a) k) :
    LosesAtMost (x >>= f) (n + k) := by
  intro m fault m' hrun
  rcases run_bind_error_iff.mp hrun with hfirst | ⟨a, mid, hfirst, hsecond⟩
  · obtain ⟨taken, hle, rfl⟩ := hx m fault m' hfirst
    exact ⟨taken, by omega, rfl⟩
  · have hmid := htakes m a mid hfirst
    obtain ⟨taken, hle, rfl⟩ := hf a mid fault m' hsecond
    refine ⟨n + taken, by omega, ?_⟩
    rw [hmid, dropItems_dropItems]

theorem takes_get : Takes (get : MachineM Machine) 0 := by
  intro m a m' h
  cases h
  rfl

theorem losesAtMost_get : LosesAtMost (get : MachineM Machine) 0 := by
  intro m fault m' h
  cases h

theorem losesAtMost_pure (a : α) : LosesAtMost (pure a) 0 := by
  intro m fault m' h
  cases h

theorem losesAtMost_set (m : Machine) : LosesAtMost (set m) 0 := by
  intro m fault m' h
  cases h

theorem losesAtMost_throw (fault : Fault) : LosesAtMost (throw fault : MachineM α) 0 := by
  intro m fault m' h
  cases h
  exact ⟨0, Nat.le_refl 0, rfl⟩

/-! ## The stack -/

theorem losesAtMost_push (e : Expr) : LosesAtMost (push e) 0 := by
  intro m fault m' h
  rw [run_push] at h
  split at h
  · cases h
  · cases h
    exact ⟨0, Nat.le_refl 0, rfl⟩

theorem takes_pop : Takes pop 1 := by
  intro m e m' h
  obtain ⟨rest, hitems, rfl⟩ := pop_ok_iff.mp h
  exact (dropItems_one hitems).symm

theorem losesAtMost_pop : LosesAtMost pop 1 := by
  intro m fault m' h
  rw [run_pop] at h
  split at h
  · cases h
    exact ⟨0, Nat.zero_le 1, rfl⟩
  · cases h

theorem takes_peek : Takes peek 0 := by
  intro m e m' h
  obtain ⟨-, rfl⟩ := peek_ok_iff.mp h
  rfl

theorem losesAtMost_peek : LosesAtMost peek 0 := by
  intro m fault m' h
  rw [run_peek] at h
  split at h
  · cases h
    exact ⟨0, Nat.le_refl 0, rfl⟩
  · cases h

/-- Several values are taken at once or not at all. -/
theorem run_popN_cases (count : Nat) (m : Machine) :
    (∃ es, (popN count).run m = .ok es (m.dropItems count)) ∨
      ∃ fault, (popN count).run m = .error fault m := by
  rw [run_popN]
  split
  · exact .inl ⟨_, rfl⟩
  · exact .inr ⟨_, rfl⟩

theorem takes_takeArguments (parameters : List Param) :
    Takes (takeArguments parameters) parameters.length := by
  intro m arguments m' h
  obtain ⟨es, hlen, -, rest, hitems, rfl⟩ := takeArguments_ok_iff.mp h
  have hreverse : es.reverse.length = parameters.length := by simp [hlen]
  rw [dropItems, hitems, ← hreverse, List.drop_left]

theorem losesAtMost_takeArguments (parameters : List Param) :
    LosesAtMost (takeArguments parameters) parameters.length := by
  intro m fault m' h
  rcases run_bind_error_iff.mp h with hpopped | ⟨es, mid, -, hpure⟩
  · rcases run_popN_cases parameters.length m with ⟨es, hok⟩ | ⟨other, herror⟩
    · rw [hok] at hpopped
      cases hpopped
    · rw [herror] at hpopped
      cases hpopped
      exact ⟨0, Nat.zero_le _, rfl⟩
  · cases hpure

/-! ## Operations -/

theorem losesAtMost_load (value : Machine → Except Fault Expr) : LosesAtMost (load value) 0 := by
  refine LosesAtMost.bind (k := 0) losesAtMost_get takes_get fun m => ?_
  cases value m with
  | error fault => exact losesAtMost_throw fault
  | ok e => exact losesAtMost_push e

theorem losesAtMost_store (place : Machine → Expr → Except Fault Machine) :
    LosesAtMost (store place) 1 := by
  refine LosesAtMost.bind (k := 0) losesAtMost_pop takes_pop fun e => ?_
  refine LosesAtMost.bind (k := 0) losesAtMost_get takes_get fun m => ?_
  cases place m e with
  | error fault => exact losesAtMost_throw fault
  | ok stored => exact losesAtMost_set stored

theorem losesAtMost_unary (node : Expr → Expr) : LosesAtMost (unary node) 1 :=
  losesAtMost_pop.bind takes_pop fun e => losesAtMost_push (node e)

theorem losesAtMost_popTwo (node : Expr → Expr → Expr) :
    LosesAtMost (do let right ← pop; let left ← pop; push (node left right) : MachineM Unit) 2 :=
  losesAtMost_pop.bind takes_pop fun right =>
    losesAtMost_pop.bind takes_pop fun left => losesAtMost_push (node left right)

theorem losesAtMost_callMethod (method : MethodRef) :
    LosesAtMost (callMethod method)
      (method.parameters.length + if method.isStatic then 0 else 1) := by
  refine (losesAtMost_takeArguments _).bind (takes_takeArguments _) fun arguments => ?_
  cases method.isStatic with
  | true => exact losesAtMost_push _
  | false => exact losesAtMost_pop.bind takes_pop fun receiver => losesAtMost_push _

theorem losesAtMost_construct (ctor : ConstructorRef) :
    LosesAtMost (construct ctor) ctor.parameters.length :=
  (losesAtMost_takeArguments _).bind (takes_takeArguments _) fun _ => losesAtMost_push _

theorem losesAtMost_arrayLength : LosesAtMost arrayLength 1 := by
  refine LosesAtMost.bind (k := 0) losesAtMost_pop takes_pop fun array => ?_
  split
  · exact losesAtMost_push _
  · exact losesAtMost_throw _

theorem losesAtMost_finish : LosesAtMost finish 1 := by
  refine LosesAtMost.bind (k := 0) losesAtMost_pop takes_pop fun body => ?_
  refine LosesAtMost.bind (k := 0) losesAtMost_get takes_get fun m => ?_
  split
  · exact losesAtMost_set _
  · exact losesAtMost_throw _

/-- A refused operation has at most taken its operands. -/
theorem execute_losesAtMost (op : Operation) : LosesAtMost (execute op) op.arity := by
  cases op with
  | nop => exact losesAtMost_pure ()
  | dup => exact (losesAtMost_peek.bind takes_peek losesAtMost_push).mono (Nat.zero_le 1)
  | pop => exact losesAtMost_pop.bind takes_pop fun _ => losesAtMost_pure ()
  | ret => exact losesAtMost_finish
  | ldnull | ldcI4 | ldcI8 | ldcR4 | ldcR8 | ldstr | ldsfld | ldsflda =>
    exact losesAtMost_push _
  | ldarg | ldarga | ldloc | ldloca => exact losesAtMost_load _
  | starg | stloc => exact losesAtMost_store _
  | neg | not | conv | box | castclass | isinst | ldfld | ldflda | newarr =>
    exact losesAtMost_unary _
  | arith => exact losesAtMost_popTwo _
  | ldelem type => exact losesAtMost_popTwo fun array position => _
  | call method | callvirt method => exact losesAtMost_callMethod method
  | newobj ctor => exact losesAtMost_construct ctor
  | ldlen => exact losesAtMost_arrayLength

end Machine

end CilLift
