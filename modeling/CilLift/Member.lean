import CilLift.Value

/-! # Members, methods and delegates

    Fields and constructors beside the methods and events of `Ty`, and what
    their attribute bits say.

    What is lifted is a method with its body and the frame it runs in, used as
    a function of some delegate type. A delegate of an instance method may be
    bound to the receiver that it will be called on.
-/

namespace CilLift

namespace Attributes

/-- What an event's own methods carry: they are virtual and have a special
    name. -/
def eventMethod : Attributes := ⟨0x0840⟩

/-- Whether the member belongs to its type. -/
def isStatic (a : Attributes) : Bool :=
  a.bits &&& 0x0010 != 0

/-- Whether the member's name has a meaning by convention. -/
def isSpecialName (a : Attributes) : Bool :=
  a.bits &&& 0x0800 != 0

end Attributes

/-- A field that code can read. -/
structure FieldRef where
  declaringType : String
  name : String
  type : Ty
  attributes : Attributes

/-- A constructor that code can call. -/
structure ConstructorRef where
  declaringType : Ty
  parameters : List Param

/-- Whether the method has no receiver. -/
def MethodRef.isStatic (m : MethodRef) : Bool :=
  m.attributes.isStatic

/-- Whether the method's name has a meaning by convention. -/
def MethodRef.isSpecialName (m : MethodRef) : Bool :=
  m.attributes.isSpecialName

/-- Whether the field has no receiver. -/
def FieldRef.isStatic (f : FieldRef) : Bool :=
  f.attributes.isStatic

/-! ## Events -/

/-- The two things that can be done with a handler. -/
inductive Subscription where
  | add | remove
  deriving DecidableEq, Repr

/-- The event whose methods follow the naming convention and take the handler
    as their only parameter. -/
def EventRef.conventional (declaringType name : String) (handlerType : Ty) : EventRef :=
  let method (stem : String) : MethodRef :=
    { declaringType
      name := stem ++ name
      parameters := [⟨"value", handlerType⟩]
      returnType := .prim .void
      attributes := .eventMethod }
  { declaringType, name, handlerType, adder := method "add_", remover := method "remove_" }

/-- The method that carries out a subscription. -/
def EventRef.method (e : EventRef) : Subscription → MethodRef
  | .add => e.adder
  | .remove => e.remover

/-! ## Methods with a body -/

/-- A method with its body. -/
structure Method where
  declaringType : Ty
  parameters : List Param
  attributes : Attributes
  code : List UInt8
  maxStack : Nat
  locals : List Ty
  /-- Whether local variables start with the default value of their type. -/
  initLocals : Bool

/-- Whether the method has no receiver. -/
def Method.isStatic (m : Method) : Bool :=
  m.attributes.isStatic

/-- A method together with the type of function it is used as and, if it is
    bound, the value of its receiver. -/
structure Delegate where
  type : Ty
  method : Method
  target : Option Value

end CilLift
