import CilLift.Expr.Transform

/-! # Passes over expressions

    Methods whose name has a meaning by convention are turned into what they
    stand for: equality operators into comparisons, getters and setters into
    properties and indexers and assignments to them, and the methods that add
    and remove handlers into event nodes. Calls of other methods stay. Indexers
    are recognised only for the default member of the receiver's type, and
    events only if the receiver's type has an event of that name that can be
    built from the call's operands.

    A field of a constant object whose value is known is replaced by that
    value, typed as the field. Everything else stays: properties, static
    fields, and fields the object does not know.

    Every event node can be turned into the call that it stands for, for
    readers of expressions that know nothing of events.
-/

namespace CilLift

/-! ## Accessors -/

namespace Accessor

/-- What is left of `name` behind `stem`, if it starts with it. -/
def after? (stem name : String) : Option String :=
  (stem.toList.isPrefixOf? name.toList).map String.ofList

/-- What a special name stands for. -/
inductive Role where
  | comparison (op : BinaryOp)
  | getter (property : String)
  | setter (property : String)
  | subscription (kind : Subscription) (event : String)
  deriving DecidableEq, Repr

/-- The role that a name has by convention. -/
def role? (name : String) : Option Role :=
  -- An operator's name may go on; an accessor's goes on with the member's name.
  if (after? "op_Equality" name).isSome then some (.comparison .equal)
  else if (after? "op_Inequality" name).isSome then some (.comparison .notEqual)
  else
    match after? "get_" name with
    | some property => some (.getter property)
    | none =>
      match after? "set_" name with
      | some property => some (.setter property)
      | none =>
        match after? "add_" name with
        | some event => some (.subscription .add event)
        | none => (after? "remove_" name).map (.subscription .remove)

/-- Whether `name` is the default indexed member of the receiver's type. -/
def isDefaultMember (receiver : Expr) (name : String) : Bool :=
  match receiver.type.info? with
  | some info => info.defaultMember == some name
  | none => false

/-- The property, if there are no indices, or the indexer that an accessor
    works on. -/
def place? (receiver : Option Expr) (declaringType name : String) (indices : List Expr)
    (type : Ty) : Option Expr :=
  match indices, receiver with
  | [], _ => some (.property receiver declaringType name type)
  | _ :: _, none => none
  | _ :: _, some r =>
    if isDefaultMember r name then some (.indexer r declaringType name indices type) else none

/-- What a call of the given role stands for. -/
def recognise? (role : Role) (receiver : Option Expr) (method : MethodRef)
    (arguments : List Expr) : Option Expr :=
  match role with
  | .comparison op =>
    match arguments with
    | [left, right] => some (.apply op left right)
    | _ => none
  | .getter name => place? receiver method.declaringType name arguments method.returnType
  | .setter name =>
    match arguments.getLast? with
    | none => none
    | some value =>
      let type := match method.parameters.getLast? with
        | some p => p.type
        | none => value.type
      (place? receiver method.declaringType name arguments.dropLast type).map (.assign · value)
  | .subscription kind name =>
    match receiver, arguments with
    | some r, [handler] =>
      match r.type.info?.bind (·.event? name) with
      | some event => (Expr.checkedEvent kind r event handler).toOption
      | none => none
    | _, _ => none

/-- What a call stands for, if its method's name has a meaning. -/
def replacement? (receiver : Option Expr) (method : MethodRef) (arguments : List Expr) :
    Option Expr :=
  if method.isSpecialName then
    (role? method.name).bind (recognise? · receiver method arguments)
  else
    none

/-- Replaces every call that stands for something else. -/
def transform : Transform Id :=
  { Transform.identity with
    call := fun receiver method arguments =>
      pure ((replacement? receiver method arguments).getD (.call receiver method arguments)) }

end Accessor

namespace Expr

/-- The expression with special-name calls turned into what they stand for. -/
def recogniseAccessors (e : Expr) : Expr :=
  e.transform Accessor.transform

end Expr

/-! ## Reads of known fields -/

namespace FieldRead

/-- The constant that a field read yields, if it is known. -/
def value? (receiver : Option Expr) (f : FieldRef) : Option Expr :=
  match receiver with
  | some (.constant object _) => (object.field? f.name).map (.constant · f.type)
  | _ => none

/-- Replaces every field read whose value is known. -/
def transform : Transform Id :=
  { Transform.identity with
    field := fun receiver f => pure ((value? receiver f).getD (.field receiver f)) }

end FieldRead

namespace Expr

/-- The expression with the reads of known fields carried out. -/
def foldFieldReads (e : Expr) : Expr :=
  e.transform FieldRead.transform

end Expr

/-! ## Events as calls -/

namespace EventCall

/-- Replaces every event node by its call. -/
def transform : Transform Id :=
  { Transform.identity with
    event := fun subscription receiver e handler =>
      let node := Expr.eventOrCall subscription receiver e handler
      pure (node.reduce?.getD node) }

end EventCall

namespace Expr

/-- The expression with event nodes turned into calls. -/
def reduceEvents (e : Expr) : Expr :=
  e.transform EventCall.transform

end Expr

/-! ## One after the other -/

/-- Which passes follow the execution. -/
structure Passes where
  accessors : Bool := true
  fieldReads : Bool := true
  eventCalls : Bool := false
  deriving DecidableEq, Repr

/-- The passes one after the other: accessors, then reads of known fields,
    then events as calls. -/
def Passes.run (passes : Passes) (e : Expr) : Expr :=
  let e := if passes.accessors then e.recogniseAccessors else e
  let e := if passes.fieldReads then e.foldFieldReads else e
  if passes.eventCalls then e.reduceEvents else e

end CilLift
