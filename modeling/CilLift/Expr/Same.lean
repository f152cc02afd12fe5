import CilLift.Expr.Basic

/-! # Sameness of members and expressions

    Two members are the same member when all their parts agree, types by
    `Ty.same`. Two expressions are the same when they have the same shape, their
    members and types are the same, and their constants hold values that are the
    same. As types are told apart by name and numbers as numbers, sameness is
    neither finer nor coarser than equality of the trees.
-/

namespace CilLift

/-! ## Members -/

/-- Sameness of parameters. -/
def Param.same (a b : Param) : Bool :=
  a.name == b.name && a.type.same b.type

/-- Sameness of methods. -/
def MethodRef.same (a b : MethodRef) : Bool :=
  a.name == b.name && a.declaringType == b.declaringType &&
    a.parameters.isEqv b.parameters Param.same &&
    a.returnType.same b.returnType && a.attributes == b.attributes

/-- Sameness of fields. -/
def FieldRef.same (a b : FieldRef) : Bool :=
  a.name == b.name && a.declaringType == b.declaringType &&
    a.type.same b.type && a.attributes == b.attributes

/-- Sameness of constructors. -/
def ConstructorRef.same (a b : ConstructorRef) : Bool :=
  a.declaringType.same b.declaringType && a.parameters.isEqv b.parameters Param.same

/-- Sameness of events. -/
def EventRef.same (a b : EventRef) : Bool :=
  a.name == b.name && a.declaringType == b.declaringType &&
    a.handlerType.same b.handlerType && a.adder.same b.adder && a.remover.same b.remover

@[simp] theorem Param.same_self (p : Param) : p.same p = true := by
  simp [Param.same]

/-- A list is related to itself by every reflexive relation. -/
theorem isEqv_self {α : Type} {r : α → α → Bool} (h : ∀ a, r a a = true) (l : List α) :
    l.isEqv l r = true := by
  induction l with
  | nil => rfl
  | cons a l ih => simp [List.isEqv, h a, ih]

@[simp] theorem MethodRef.same_self (m : MethodRef) : m.same m = true := by
  simp [MethodRef.same, isEqv_self Param.same_self]

@[simp] theorem FieldRef.same_self (f : FieldRef) : f.same f = true := by
  simp [FieldRef.same]

@[simp] theorem ConstructorRef.same_self (c : ConstructorRef) : c.same c = true := by
  simp [ConstructorRef.same, isEqv_self Param.same_self]

@[simp] theorem EventRef.same_self (e : EventRef) : e.same e = true := by
  simp [EventRef.same]

/-! ## Expressions -/

namespace Expr

mutual

/-- Sameness of expressions. -/
def same : Expr → Expr → Bool
  | .constant v s, .constant w t => v.same w && s.same t
  | .parameter p, .parameter q => p.same q
  | .field r f, .field s g => sameOption r s && f.same g
  | .binary o a b s, .binary p c d t => o == p && a.same c && b.same d && s.same t
  | .unary o a s, .unary p b t => o == p && a.same b && s.same t
  | .call r m as, .call s n bs => sameOption r s && m.same n && sameList as bs
  | .new c as, .new d bs => c.same d && sameList as bs
  | .newArray s a, .newArray t b => s.same t && a.same b
  | .index a i s, .index b j t => a.same b && i.same j && s.same t
  | .lambda ps a s, .lambda qs b t => ps.isEqv qs Param.same && a.same b && s.same t
  | .property r c m s, .property r' d n t => sameOption r r' && c == d && m == n && s.same t
  | .indexer r c m as s, .indexer r' d n bs t =>
    r.same r' && c == d && m == n && sameList as bs && s.same t
  | .assign a b, .assign c d => a.same c && b.same d
  | .event k r e h, .event l s f g => k == l && r.same s && e.same f && h.same g
  | _, _ => false

/-- Sameness of receivers. -/
def sameOption : Option Expr → Option Expr → Bool
  | none, none => true
  | some a, some b => a.same b
  | _, _ => false

/-- Sameness of argument lists. -/
def sameList : List Expr → List Expr → Bool
  | [], [] => true
  | a :: as, b :: bs => a.same b && sameList as bs
  | _, _ => false

end

end Expr

end CilLift
