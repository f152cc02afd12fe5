import CilLift.Expr.Basic
import CilLift.Fault

/-! # Transforming expressions

    A `Transform` says what becomes of a constant and of a parameter, and how a
    call, a field read and an event are put together again from their
    transformed parts.
    `Expr.transformM` carries it through a tree: children left to right, then
    the node itself; every node not named above is rebuilt as it was. Before
    the children of a call, a field read or an event are visited, the node is
    announced.

    A handler is added to or removed from an event of a receiver. The node is
    built only if the event is declared on the receiver's own type, by name,
    and the handler is a delegate; otherwise the call of the event's method
    says the same. Event nodes are checked again when they are rebuilt, since
    their operands may have changed: where the parts no longer fit, the call
    they stand for takes their place. `Expr.reduce?` turns a node into that
    call.

    Main statements: one equation for each kind of node, such as
    `transform_call`, says what a transformation without effects makes of it.
-/

namespace CilLift

/-! ## Event nodes -/

namespace Expr

/-- The call that an event node stands for. -/
def accessorCall (subscription : Subscription) (receiver : Expr) (e : EventRef) (handler : Expr) :
    Expr :=
  .call (some receiver) (e.method subscription) [handler]

/-- Why an event node cannot be built of these parts, if it cannot. The
    declaring type is looked at first. -/
def eventFault? (receiver : Expr) (e : EventRef) (handler : Expr) : Option EventFault :=
  if e.declaringType ≠ receiver.type.name then
    some (.notDeclared e.name e.declaringType receiver.type.name)
  else if !handler.type.isDelegate then
    some (.notDelegate handler.type.name)
  else
    none

/-- The event node of these parts, if they fit together. -/
def checkedEvent (subscription : Subscription) (receiver : Expr) (e : EventRef) (handler : Expr) :
    Except EventFault Expr :=
  match eventFault? receiver e handler with
  | some fault => .error fault
  | none => .ok (.event subscription receiver e handler)

/-- The event node of these parts, or the call that it would stand for. -/
def eventOrCall (subscription : Subscription) (receiver : Expr) (e : EventRef) (handler : Expr) :
    Expr :=
  match checkedEvent subscription receiver e handler with
  | .ok node => node
  | .error _ => accessorCall subscription receiver e handler

/-- The call that the node stands for, if it is an event node. -/
def reduce? : Expr → Option Expr
  | .event subscription receiver e handler =>
    some (accessorCall subscription receiver e handler)
  | _ => none

/-- Parts fit together when the event is declared on the receiver's type and
    the handler is a delegate. -/
theorem eventFault?_eq_none_iff (receiver : Expr) (e : EventRef) (handler : Expr) :
    eventFault? receiver e handler = none ↔
      e.declaringType = receiver.type.name ∧ handler.type.isDelegate = true := by
  unfold eventFault?
  split
  · simp_all
  · split <;> simp_all

end Expr

/-! ## Transforms -/

/-- What a transformation does at the nodes that it can intercept. -/
structure Transform (m : Type → Type) where
  /-- Told of every call, field read and event before its children. -/
  announce : Expr → m Unit
  constant : Value → Ty → m Expr
  parameter : Param → m Expr
  field : Option Expr → FieldRef → m Expr
  call : Option Expr → MethodRef → List Expr → m Expr
  event : Subscription → Expr → EventRef → Expr → m Expr

/-- The transform that puts everything together as it was. -/
def Transform.identity {m : Type → Type} [Monad m] : Transform m where
  announce _ := pure ()
  constant value type := pure (.constant value type)
  parameter p := pure (.parameter p)
  field receiver f := pure (.field receiver f)
  call receiver method arguments := pure (.call receiver method arguments)
  event subscription receiver e handler := pure (.eventOrCall subscription receiver e handler)

/-- The transform that puts an expression in the places of a parameter. -/
def Transform.substituting (name : String) (replacement : Expr) : Transform Id :=
  { Transform.identity with
    parameter := fun p => pure (if p.name = name then replacement else .parameter p) }

/-- The transform that puts everything together as it was, and does something
    when it is told of a node. -/
def Transform.announcing {m : Type → Type} [Monad m] (announce : Expr → m Unit) : Transform m :=
  { Transform.identity with announce }

/-- The transform that keeps every node it is told of, the first one first. -/
def Transform.recording : Transform (StateM (Array Expr)) :=
  .announcing fun node => modify (·.push node)

namespace Expr

section Traversal

variable {m : Type → Type} [Monad m] (w : Transform m)

mutual

/-- The expression transformed by `w`. -/
def transformM : Expr → m Expr
  | .constant value type => w.constant value type
  | .parameter p => w.parameter p
  | .field receiver f => do
    w.announce (.field receiver f)
    let receiver ← transformOptionM receiver
    w.field receiver f
  | .binary op left right type => do
    let left ← left.transformM
    let right ← right.transformM
    return .binary op left right type
  | .unary op operand type => do
    let operand ← operand.transformM
    return .unary op operand type
  | .call receiver method arguments => do
    w.announce (.call receiver method arguments)
    let receiver ← transformOptionM receiver
    let arguments ← transformListM arguments
    w.call receiver method arguments
  | .new ctor arguments => do
    let arguments ← transformListM arguments
    return .new ctor arguments
  | .newArray element length => do
    let length ← length.transformM
    return .newArray element length
  | .index array position type => do
    let array ← array.transformM
    let position ← position.transformM
    return .index array position type
  | .lambda parameters body type => do
    let body ← body.transformM
    return .lambda parameters body type
  | .property receiver declaringType name type => do
    let receiver ← transformOptionM receiver
    return .property receiver declaringType name type
  | .indexer receiver declaringType name arguments type => do
    let receiver ← receiver.transformM
    let arguments ← transformListM arguments
    return .indexer receiver declaringType name arguments type
  | .assign target value => do
    let target ← target.transformM
    let value ← value.transformM
    return .assign target value
  | .event subscription receiver e handler => do
    w.announce (.event subscription receiver e handler)
    let receiver ← receiver.transformM
    let handler ← handler.transformM
    w.event subscription receiver e handler

/-- A receiver transformed by `w`. -/
def transformOptionM : Option Expr → m (Option Expr)
  | none => pure none
  | some e => do
    let e ← e.transformM
    return some e

/-- Arguments transformed by `w`, the first one first. -/
def transformListM : List Expr → m (List Expr)
  | [] => pure []
  | e :: es => do
    let e ← e.transformM
    let es ← transformListM es
    return e :: es

end

end Traversal

/-- The expression transformed without effects. -/
def transform (w : Transform Id) (e : Expr) : Expr :=
  (e.transformM w).run

section Equations

variable (w : Transform Id)

theorem transformOptionM_eq_map (e : Option Expr) :
    (transformOptionM w e).run = e.map (transform w) := by
  cases e <;> rfl

theorem transformListM_eq_map (es : List Expr) :
    (transformListM w es).run = es.map (transform w) := by
  induction es with
  | nil => rfl
  | cons e es ih => exact congrArg (transform w e :: ·) ih

@[simp] theorem transform_constant (value : Value) (type : Ty) :
    (constant value type).transform w = (w.constant value type).run := rfl

@[simp] theorem transform_parameter (p : Param) :
    (parameter p).transform w = (w.parameter p).run := rfl

@[simp] theorem transform_field (receiver : Option Expr) (f : FieldRef) :
    (field receiver f).transform w = (w.field (receiver.map (transform w)) f).run :=
  congrArg (fun r => (w.field r f).run) (transformOptionM_eq_map w receiver)

@[simp] theorem transform_binary (op : BinaryOp) (left right : Expr) (type : Ty) :
    (binary op left right type).transform w =
      .binary op (left.transform w) (right.transform w) type := rfl

@[simp] theorem transform_unary (op : UnaryOp) (operand : Expr) (type : Ty) :
    (unary op operand type).transform w = .unary op (operand.transform w) type := rfl

@[simp] theorem transform_call (receiver : Option Expr) (m : MethodRef) (arguments : List Expr) :
    (call receiver m arguments).transform w =
      (w.call (receiver.map (transform w)) m (arguments.map (transform w))).run := by
  rw [← transformOptionM_eq_map, ← transformListM_eq_map]
  rfl

@[simp] theorem transform_new (c : ConstructorRef) (arguments : List Expr) :
    (new c arguments).transform w = .new c (arguments.map (transform w)) :=
  congrArg (Expr.new c) (transformListM_eq_map w arguments)

@[simp] theorem transform_newArray (element : Ty) (length : Expr) :
    (newArray element length).transform w = .newArray element (length.transform w) := rfl

@[simp] theorem transform_index (array position : Expr) (type : Ty) :
    (index array position type).transform w =
      .index (array.transform w) (position.transform w) type := rfl

@[simp] theorem transform_lambda (parameters : List Param) (body : Expr) (type : Ty) :
    (lambda parameters body type).transform w =
      .lambda parameters (body.transform w) type := rfl

@[simp] theorem transform_property (receiver : Option Expr) (declaringType name : String)
    (type : Ty) :
    (property receiver declaringType name type).transform w =
      .property (receiver.map (transform w)) declaringType name type :=
  congrArg (fun r => Expr.property r declaringType name type)
    (transformOptionM_eq_map w receiver)

@[simp] theorem transform_indexer (receiver : Expr) (declaringType name : String)
    (arguments : List Expr) (type : Ty) :
    (indexer receiver declaringType name arguments type).transform w =
      .indexer (receiver.transform w) declaringType name (arguments.map (transform w)) type :=
  congrArg (fun as => Expr.indexer (receiver.transform w) declaringType name as type)
    (transformListM_eq_map w arguments)

@[simp] theorem transform_assign (target value : Expr) :
    (assign target value).transform w = .assign (target.transform w) (value.transform w) := rfl

@[simp] theorem transform_event (subscription : Subscription) (receiver : Expr) (e : EventRef)
    (handler : Expr) :
    (event subscription receiver e handler).transform w =
      (w.event subscription (receiver.transform w) e (handler.transform w)).run := rfl

end Equations

/-- The expression with `replacement` for every parameter of the given name.
    The replacement itself is not searched, and functions inside do not hide
    a parameter. -/
def substitute (e : Expr) (name : String) (replacement : Expr) : Expr :=
  e.transform (.substituting name replacement)

/-- The calls, field reads and events of the expression, each before those
    inside it. -/
def announced (e : Expr) : List Expr :=
  ((e.transformM .recording).run #[]).run.2.toList

end Expr

end CilLift
