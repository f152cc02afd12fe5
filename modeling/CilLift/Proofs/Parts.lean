import CilLift.Proofs.Step

/-! # Parts of operations

    Every operation is put together from a few parts: values are put on the
    stack and taken from it, arguments and local variables are loaded and
    stored, the function is finished, and something that is no array is
    refused. A property of effects that passes from parts to the whole has to
    be looked at for these parts only.

    Main statement: `OfParts.execute` says that such a property holds of every
    operation if it holds of the parts.
-/

namespace CilLift

namespace Machine

/-! ## Properties of effects -/

/-- All parts of operations have the property, and an effect made of two has it
    if both do. -/
structure OfParts (p : ∀ {α : Type}, MachineM α → Prop) : Prop where
  pure : ∀ {α : Type} (a : α), p (pure a)
  bind : ∀ {α β : Type} {x : MachineM α} {f : α → MachineM β}, p x → (∀ a, p (f a)) → p (x >>= f)
  push : ∀ e : Expr, p (push e)
  pop : p pop
  peek : p peek
  popN : ∀ count : Nat, p (popN count)
  loadArgument : ∀ index : Nat, p (load (·.argument index))
  loadLocal : ∀ index : Nat, p (load (·.localVariable index))
  storeArgument : ∀ index : Nat, p (store (·.setArgument index))
  storeLocal : ∀ index : Nat, p (store (·.setLocalVariable index))
  notArray : ∀ type : Ty, p (throw (.operand (.notArray type.name)) : MachineM Unit)
  finish : p finish

namespace OfParts

variable {p : ∀ {α : Type}, MachineM α → Prop}

theorem takeArguments (h : OfParts p) (parameters : List Param) :
    p (takeArguments parameters) :=
  h.bind (h.popN _) fun _ => h.pure _

theorem unary (h : OfParts p) (node : Expr → Expr) : p (unary node) :=
  h.bind h.pop fun _ => h.push _

theorem callMethod (h : OfParts p) (method : MethodRef) : p (callMethod method) := by
  refine h.bind (h.takeArguments method.parameters) fun arguments => ?_
  cases method.isStatic with
  | true => exact h.push _
  | false => exact h.bind h.pop fun _ => h.push _

theorem arrayLength (h : OfParts p) : p arrayLength := by
  refine h.bind h.pop fun array => ?_
  split
  · exact h.push _
  · exact h.notArray array.type

/-- A property that the parts have and that passes to what is made of them
    holds of every operation. -/
theorem execute (h : OfParts p) (op : Operation) : p (execute op) := by
  cases op with
  | nop => exact h.pure ()
  | dup => exact h.bind h.peek h.push
  | pop => exact h.bind h.pop fun _ => h.pure ()
  | ret => exact h.finish
  | ldnull | ldcI4 | ldcI8 | ldcR4 | ldcR8 | ldstr | ldsfld | ldsflda => exact h.push _
  | ldarg index | ldarga index => exact h.loadArgument index.toNat
  | ldloc index | ldloca index => exact h.loadLocal index.toNat
  | starg index => exact h.storeArgument index.toNat
  | stloc index => exact h.storeLocal index.toNat
  | arith | ldelem => exact h.bind h.pop fun _ => h.bind h.pop fun _ => h.push _
  | neg | not | conv | box | castclass | isinst | ldfld | ldflda | newarr => exact h.unary _
  | call method | callvirt method => exact h.callMethod method
  | newobj ctor => exact h.bind (h.takeArguments ctor.parameters) fun _ => h.push _
  | ldlen => exact h.arrayLength

end OfParts

/-! ## Arguments and local variables that are not there -/

variable {m : Machine} {fault : Fault} {index : Nat}

theorem argument_error (h : m.argument index = .error fault) :
    fault = .argumentOutOfRange index := by
  rcases m.index_cases index with ⟨hreceiver, rfl⟩ | ⟨slot, rfl⟩
  · obtain ⟨receiver, hr⟩ := Option.isSome_iff_exists.mp hreceiver
    rw [argument_receiver hr] at h
    cases h
  · rw [argument_slot] at h
    unfold declared at h
    split at h
    · cases h
    · cases h
      rfl

theorem setArgument_error {value : Expr} (h : m.setArgument index value = .error fault) :
    fault = .argumentOutOfRange index := by
  rcases m.index_cases index with ⟨hreceiver, rfl⟩ | ⟨slot, rfl⟩
  · rw [setArgument_receiver hreceiver] at h
    cases h
  · rw [setArgument_slot] at h
    unfold setDeclared at h
    split at h
    · cases h
    · cases h
      rfl

theorem localVariable_error (h : m.localVariable index = .error fault) :
    fault = .unsetLocal index ∨ fault = .localOutOfRange index := by
  unfold localVariable at h
  split at h
  · cases h
  · cases h
    exact .inl rfl
  · cases h
    exact .inr rfl

theorem setLocalVariable_error {value : Expr}
    (h : m.setLocalVariable index value = .error fault) : fault = .localOutOfRange index := by
  unfold setLocalVariable at h
  split at h
  · cases h
  · cases h
    rfl

end Machine

end CilLift
