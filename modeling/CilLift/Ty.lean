/-! # Types and the members they carry

    A type is a primitive, an array of another type, or a named type defined
    by a program. A named type carries what a reader of expressions asks of
    it: its category, its events and the name of its default indexed member.
    Events refer to methods and methods to types, so these definitions depend
    on each other.

    Two named types are the same type when their names agree, whatever else
    they carry: `Ty.same` is coarser than equality of the data.
-/

namespace CilLift

/-- The types that need no definition. -/
inductive Primitive where
  | void | boolean | char
  | sbyte | byte | int16 | uint16 | int32 | uint32 | int64 | uint64 | intPtr
  | single | double
  | string | object
  deriving DecidableEq, Repr

/-- Category of a named type. -/
inductive Category where
  | reference | valueType | interface | delegate
  deriving DecidableEq, Repr

/-- Attribute bits of a method or a field. Bits without a meaning here are
    kept. -/
structure Attributes where
  bits : UInt16
  deriving DecidableEq, Repr

mutual

/-- A type. -/
inductive Ty where
  | prim (p : Primitive)
  | array (element : Ty)
  | named (info : NamedType)

/-- A named type and what is known about it. -/
structure NamedType where
  name : String
  category : Category
  events : List EventRef
  /-- Name of the indexed property that is reached by indexing. -/
  defaultMember : Option String

/-- An event with the methods that add and remove a handler. -/
structure EventRef where
  declaringType : String
  name : String
  handlerType : Ty
  adder : MethodRef
  remover : MethodRef

/-- A method that code can call. -/
structure MethodRef where
  declaringType : String
  name : String
  parameters : List Param
  returnType : Ty
  attributes : Attributes

/-- A named and typed parameter. -/
structure Param where
  name : String
  type : Ty

end

/-! ## Primitive types -/

namespace Primitive

/-- The name a type has in rendered trees and messages. -/
def name : Primitive → String
  | .void => "Void"
  | .boolean => "Boolean"
  | .char => "Char"
  | .sbyte => "SByte"
  | .byte => "Byte"
  | .int16 => "Int16"
  | .uint16 => "UInt16"
  | .int32 => "Int32"
  | .uint32 => "UInt32"
  | .int64 => "Int64"
  | .uint64 => "UInt64"
  | .intPtr => "IntPtr"
  | .single => "Single"
  | .double => "Double"
  | .string => "String"
  | .object => "Object"

/-- Every primitive type once. -/
def all : List Primitive :=
  [.void, .boolean, .char, .sbyte, .byte, .int16, .uint16, .int32, .uint32, .int64, .uint64,
    .intPtr, .single, .double, .string, .object]

/-- Whether values of the type are stored in place. -/
def isValueType : Primitive → Bool
  | .void | .string | .object => false
  | _ => true

theorem mem_all (p : Primitive) : p ∈ all := by
  cases p <;> decide

end Primitive

/-! ## Named types -/

/-- The first event of the given name. -/
def NamedType.event? (info : NamedType) (name : String) : Option EventRef :=
  info.events.find? (·.name == name)

/-! ## Types -/

namespace Ty

/-- The name of the type; an array's is that of its elements and a pair of
    brackets. -/
def name : Ty → String
  | .prim p => p.name
  | .array element => element.name ++ "[]"
  | .named info => info.name

/-- Whether values of the type are stored in place. -/
def isValueType : Ty → Bool
  | .prim p => p.isValueType
  | .array _ => false
  | .named info => info.category = .valueType

/-- Whether values of the type can handle an event. -/
def isDelegate : Ty → Bool
  | .named info => info.category = .delegate
  | _ => false

/-- The type of an array's elements. -/
def element? : Ty → Option Ty
  | .array element => some element
  | _ => none

/-- What a named type carries. -/
def info? : Ty → Option NamedType
  | .named info => some info
  | _ => none

/-- Sameness of types: named types are told apart by their names only. -/
def same : Ty → Ty → Bool
  | .prim p, .prim q => p == q
  | .array s, .array t => s.same t
  | .named i, .named j => i.name == j.name
  | _, _ => false

/-- Whether a value of type `source` fits where `target` is declared without
    a conversion: the types are the same, or the target is `Object` and the
    source is anything but `Void`. -/
def accepts (target source : Ty) : Bool :=
  target.same source || (target.same (.prim .object) && !source.same (.prim .void))

@[simp] theorem same_self (t : Ty) : t.same t = true := by
  fun_induction name t <;> simp_all [same]

@[simp] theorem accepts_self (t : Ty) : t.accepts t = true := by
  simp [accepts]

/-- Types that are the same have the same name. -/
theorem name_eq_of_same {s t : Ty} (h : s.same t = true) : s.name = t.name := by
  fun_induction same s t <;> simp_all [name]

end Ty

end CilLift
