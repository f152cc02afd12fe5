import CilLift.Code.Operation
import CilLift.Machine
import CilLift.Passes

/-! # Lifting methods to expressions

    The whole way from a method body to an expression: the body is executed
    symbolically, from a machine that holds the method's parameters, and the
    result goes through the passes that are asked for, always in the same
    order.
-/

namespace CilLift

/-! ## The machine of a method -/

/-- The receiver of a method before anything is executed: the bound value or a
    parameter named `this`. -/
def Delegate.receiver (d : Delegate) : Option Expr :=
  if d.method.isStatic then none
  else
    some (match d.target with
      | some value => .constant value d.method.declaringType
      | none => .parameter ⟨"this", d.method.declaringType⟩)

/-- A local variable before anything is executed. -/
def Method.initialLocal (m : Method) (type : Ty) : Option Expr :=
  if m.initLocals then some (.constant (.default type) type) else none

/-- The machine before anything is executed. -/
def Machine.initial (d : Delegate) : Machine where
  stack := .empty d.method.maxStack
  locals := d.method.locals.map d.method.initialLocal
  parameters := d.method.parameters
  arguments := d.method.parameters.map .parameter
  receiver := d.receiver
  resultType := d.type
  offset := 0
  result := none

namespace Machine

/-- The machine as a consumer of code: it remembers where it is, so that
    faults can say so. -/
def consumer : Consumer Machine where
  observe offset _ := modify ({ · with offset })
  perform := execute

/-- The finished function, if `ret` was executed. -/
def outcome (m : Machine) : Except Fault Expr :=
  match m.result with
  | some e => .ok e
  | none => .error (.missingReturn m.offset)

end Machine

/-! ## The function of a delegate -/

namespace Delegate

/-- The function that the delegate's method computes. -/
def lift (r : Resolver) (d : Delegate) : Except Fault Expr :=
  match (Machine.consumer.feed r d.method.code).run (.initial d) with
  | .ok _ m => m.outcome
  | .error fault _ => .error fault

/-- The function that the delegate's method computes, after some passes. -/
def liftWith (r : Resolver) (passes : Passes) (d : Delegate) : Except Fault Expr :=
  (d.lift r).map passes.run

end Delegate

end CilLift
