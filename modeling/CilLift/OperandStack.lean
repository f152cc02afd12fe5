import CilLift.Fault

/-! # Operand stacks

    A stack with a bound on its depth. A push at full depth and a pop or peek
    of more than there is are refused; a refused operation yields no new stack.
    Several values can be taken at once, in the order they were pushed.
-/

namespace CilLift

/-- A stack of at most `capacity` values. -/
structure OperandStack (α : Type) where
  capacity : Nat
  /-- The values, the last pushed first. -/
  items : List α
  deriving Repr

namespace OperandStack

variable {α : Type}

/-- The stack with nothing on it. -/
def empty (capacity : Nat) : OperandStack α :=
  ⟨capacity, []⟩

/-- How many values are on the stack. -/
def depth (s : OperandStack α) : Nat :=
  s.items.length

/-- Whether nothing is on the stack. -/
def isEmpty (s : OperandStack α) : Bool :=
  s.items.isEmpty

/-- Puts a value on top. -/
def push (s : OperandStack α) (a : α) : Except StackFault (OperandStack α) :=
  if s.depth < s.capacity then .ok ⟨s.capacity, a :: s.items⟩
  else .error (.overflow s.capacity)

/-- The value on top. -/
def peek (s : OperandStack α) : Except StackFault α :=
  match s.items with
  | [] => .error (.underflow 1 0)
  | a :: _ => .ok a

/-- Takes the value on top. -/
def pop (s : OperandStack α) : Except StackFault (α × OperandStack α) :=
  match s.items with
  | [] => .error (.underflow 1 0)
  | a :: rest => .ok (a, ⟨s.capacity, rest⟩)

/-- Takes `count` values, the first pushed of them first. -/
def popN (s : OperandStack α) (count : Nat) :
    Except StackFault (List α × OperandStack α) :=
  if count ≤ s.depth then
    .ok ((s.items.take count).reverse, ⟨s.capacity, s.items.drop count⟩)
  else .error (.underflow count s.depth)

@[simp] theorem depth_empty (capacity : Nat) : (empty capacity : OperandStack α).depth = 0 := rfl

@[simp] theorem depth_mk (capacity : Nat) (items : List α) :
    (OperandStack.mk capacity items).depth = items.length := rfl

theorem isEmpty_iff (s : OperandStack α) : s.isEmpty = true ↔ s.depth = 0 := by
  simp [isEmpty, depth]

end OperandStack

end CilLift
