import CilLift.Code.Opcode

/-! # Faults

    Everything that can go wrong between the bytes of a method body and its
    expression, as causes. `Fault.message` is the only place that puts a cause
    into words.
-/

namespace CilLift

/-- What an operand stack refuses. -/
inductive StackFault where
  | underflow (requested depth : Nat)
  | overflow (capacity : Nat)
  deriving DecidableEq, Repr

/-- Why an event cannot be subscribed to. All names are names of types, except
    the event's own. -/
inductive EventFault where
  | notDeclared (event declaringType instanceType : String)
  | notDelegate (handlerType : String)
  deriving DecidableEq, Repr

/-- Why an operand is of no use to an operation. -/
inductive OperandFault where
  /-- Values were left below the returned one. -/
  | leftover (count offset : Nat)
  /-- The length of something that is no array was asked for. -/
  | notArray (typeName : String)
  /-- A reason that the consumer of the code states itself. -/
  | stated (reason : String)
  deriving DecidableEq, Repr

/-- Why reading or executing a method body stopped. -/
inductive Fault where
  | unsupported (offset opcode : Nat)
  | truncated (offset opcode : Nat)
  | missingReturn (offset : Nat)
  | unresolved (offset : Nat) (token : Token) (kind : TokenKind)
  | stack (offset : Nat) (cause : StackFault)
  | unsetLocal (index : Nat)
  | localOutOfRange (index : Nat)
  | argumentOutOfRange (index : Nat)
  | operand (cause : OperandFault)
  | event (cause : EventFault)
  deriving DecidableEq, Repr

open Text (hex offsetLabel)

/-- The words for a refused stack operation. -/
def StackFault.message : StackFault → String
  | .underflow requested depth =>
    "stack underflow: requested " ++ toString requested ++ " value(s) with depth " ++
      toString depth
  | .overflow capacity => "stack overflow: capacity " ++ toString capacity ++ " exceeded"

/-- The words for a refused event. -/
def EventFault.message : EventFault → String
  | .notDeclared event declaringType instanceType =>
    "event `" ++ event ++ "` is declared on `" ++ declaringType ++ "`, not on instance type `" ++
      instanceType ++ "`"
  | .notDelegate handlerType => "handler of type `" ++ handlerType ++ "` is not a delegate"

/-- The words for a useless operand. -/
def OperandFault.message : OperandFault → String
  | .leftover count offset =>
    toString count ++ " value(s) left on the stack at ret (" ++ offsetLabel offset ++ ")"
  | .notArray typeName => "ldlen on non-array type " ++ typeName
  | .stated reason => reason

/-- The words for a fault. -/
def Fault.message : Fault → String
  | .unsupported offset opcode =>
    "unsupported instruction 0x" ++ hex 2 opcode ++ " at " ++ offsetLabel offset
  | .truncated offset opcode =>
    "instruction 0x" ++ hex 2 opcode ++ " at " ++ offsetLabel offset ++ " is truncated"
  | .missingReturn offset =>
    "method body ended at " ++ offsetLabel offset ++ " without a ret instruction"
  | .unresolved offset token kind =>
    "cannot resolve " ++ kind.name ++ " token " ++ token.render ++ " at " ++ offsetLabel offset
  | .stack offset cause => "at " ++ offsetLabel offset ++ ": " ++ cause.message
  | .unsetLocal index =>
    "local variable " ++ toString index ++ " is read before it is assigned"
  | .localOutOfRange index => "local variable index " ++ toString index ++ " is out of range"
  | .argumentOutOfRange index => "argument index " ++ toString index ++ " is out of range"
  | .operand cause => "invalid operand: " ++ cause.message
  | .event cause => cause.message

/-- The words of the cause behind a fault, where the fault adds to them. -/
def Fault.source? : Fault → Option String
  | .stack _ cause => some cause.message
  | _ => none

end CilLift
