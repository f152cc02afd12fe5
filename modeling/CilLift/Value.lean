import CilLift.Number.Decimal
import CilLift.Text
import CilLift.Ty

/-! # Values

    The concrete values that constant expressions hold. Floating-point numbers
    are bit patterns. An object knows its type and some of its fields, listed
    by name in increasing order with no name twice.

    `Value.same` compares numbers as numbers, so a floating-point pattern that
    is no number, or an object that holds one, differs from itself.
-/

namespace CilLift

/-- A concrete value. -/
inductive Value where
  | null
  | boolean (b : Bool)
  | char (unit : UInt16)
  | int8 (v : Int8)
  | uint8 (v : UInt8)
  | int16 (v : Int16)
  | uint16 (v : UInt16)
  | int32 (v : Int32)
  | uint32 (v : UInt32)
  | int64 (v : Int64)
  | uint64 (v : UInt64)
  | single (bits : UInt32)
  | double (bits : UInt64)
  | string (text : String)
  | object (type : Ty) (fields : List (String × Value))

namespace Value

/-- Puts a field into a list that is ordered by name. A field of that name
    that was there before is replaced. -/
def insertField (name : String) (value : Value) :
    List (String × Value) → List (String × Value)
  | [] => [(name, value)]
  | (n, v) :: rest =>
    if name < n then (name, value) :: (n, v) :: rest
    else if name = n then (name, value) :: rest
    else (n, v) :: insertField name value rest

/-- The object of the given type and fields, put in one after the other. -/
def ofFields (type : Ty) (fields : List (String × Value)) : Value :=
  .object type (fields.foldl (fun known f => insertField f.1 f.2 known) [])

/-- The value of an object's field, if the value is an object and the field is
    known. -/
def field? (name : String) : Value → Option Value
  | .object _ fields => fields.lookup name
  | _ => none

/-- The value of a slot that nothing was stored into. -/
def default (type : Ty) : Value :=
  match type with
  | .prim p =>
    match p with
    | .boolean => .boolean false
    | .char => .char 0
    | .sbyte => .int8 0
    | .byte => .uint8 0
    | .int16 => .int16 0
    | .uint16 => .uint16 0
    | .int32 => .int32 0
    | .uint32 => .uint32 0
    | .int64 | .intPtr => .int64 0
    | .uint64 => .uint64 0
    | .single => .single 0
    | .double => .double 0
    | .void | .string | .object => .null
  | .array _ => .null
  | .named info => if info.category = .valueType then .object type [] else .null

mutual

/-- Sameness of values. -/
def same : Value → Value → Bool
  | .null, .null => true
  | .boolean a, .boolean b => a == b
  | .char a, .char b => a == b
  | .int8 a, .int8 b => a == b
  | .uint8 a, .uint8 b => a == b
  | .int16 a, .int16 b => a == b
  | .uint16 a, .uint16 b => a == b
  | .int32 a, .int32 b => a == b
  | .uint32 a, .uint32 b => a == b
  | .int64 a, .int64 b => a == b
  | .uint64 a, .uint64 b => a == b
  | .single a, .single b => Number.Format.single.same a.toNat b.toNat
  | .double a, .double b => Number.Format.double.same a.toNat b.toNat
  | .string a, .string b => a == b
  | .object s fs, .object t gs => s.same t && sameFields fs gs
  | _, _ => false

/-- Sameness of field lists: the same names with values that are the same. -/
def sameFields : List (String × Value) → List (String × Value) → Bool
  | [], [] => true
  | (m, v) :: fs, (n, w) :: gs => m == n && v.same w && sameFields fs gs
  | _, _ => false

end

/-- The value as rendered trees show it. -/
def render : Value → String
  | .null => "null"
  | .boolean b => if b then "true" else "false"
  | .char unit => Text.quotedUnit unit
  | .int8 v => toString v.toInt
  | .uint8 v => toString v.toNat
  | .int16 v => toString v.toInt
  | .uint16 v => toString v.toNat
  | .int32 v => toString v.toInt
  | .uint32 v => toString v.toNat
  | .int64 v => toString v.toInt
  | .uint64 v => toString v.toNat
  | .single bits => Number.Format.single.text bits.toNat
  | .double bits => Number.Format.double.text bits.toNat
  | .string text => Text.quoted text
  | .object type _ => "value(" ++ type.name ++ ")"

/-- A field that was put in has its value, and the other fields keep theirs. -/
theorem lookup_insertField (name query : String) (value : Value) (fields : List (String × Value)) :
    (insertField name value fields).lookup query =
      if query = name then some value else fields.lookup query := by
  induction fields with
  | nil => grind [insertField]
  | cons f fields ih =>
    obtain ⟨n, v⟩ := f
    by_cases h : query = name <;> by_cases hn : name = n <;> grind [insertField]

@[simp] theorem field?_object_nil (name : String) (type : Ty) :
    (Value.object type []).field? name = none := rfl

end Value

end CilLift
