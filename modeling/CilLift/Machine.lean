import CilLift.Code.Operation
import CilLift.Expr.Basic
import CilLift.OperandStack

/-! # Symbolic execution

    A machine runs one method body on expressions in place of values. Its
    operand stack, local variables and arguments hold expressions; `ret`
    makes the function of the declared parameters whose body is the value on
    the stack.

    An operation that fails keeps what it has taken from the stack and changes
    nothing else.
-/

namespace CilLift

/-- State of a symbolic execution. -/
structure Machine where
  stack : OperandStack Expr
  /-- The local variables; nothing is known of one that was never stored. -/
  locals : List (Option Expr)
  parameters : List Param
  /-- The present value of each declared parameter. -/
  arguments : List Expr
  /-- The present value of the receiver of an instance method. -/
  receiver : Option Expr
  resultType : Ty
  /-- Offset of the instruction being executed. -/
  offset : Nat
  result : Option Expr

/-- Steps of a machine; a fault keeps the state it occurred in. -/
abbrev MachineM := EStateM Fault Machine

namespace Machine

/-! ## The stack -/

/-- A stack fault at the present instruction. -/
def stackFault {α : Type} (cause : StackFault) : MachineM α := do
  throw (.stack (← get).offset cause)

/-- Puts an expression on the stack. -/
def push (e : Expr) : MachineM Unit := do
  match (← get).stack.push e with
  | .error cause => stackFault cause
  | .ok stack => modify ({ · with stack })

/-- Takes the expression on top of the stack. -/
def pop : MachineM Expr := do
  match (← get).stack.pop with
  | .error cause => stackFault cause
  | .ok (e, stack) =>
    modify ({ · with stack })
    return e

/-- Looks at the expression on top of the stack. -/
def peek : MachineM Expr := do
  match (← get).stack.peek with
  | .error cause => stackFault cause
  | .ok e => return e

/-- Takes several expressions from the stack, the first pushed first. -/
def popN (count : Nat) : MachineM (List Expr) := do
  match (← get).stack.popN count with
  | .error cause => stackFault cause
  | .ok (es, stack) =>
    modify ({ · with stack })
    return es

/-! ## Arguments and local variables -/

/-- The present value of a declared parameter, known as argument `index`. -/
def declared (m : Machine) (index slot : Nat) : Except Fault Expr :=
  match m.arguments[slot]? with
  | some e => .ok e
  | none => .error (.argumentOutOfRange index)

/-- The present value of an argument. The receiver, where there is one, is
    argument zero and the declared parameters follow. -/
def argument (m : Machine) (index : Nat) : Except Fault Expr :=
  match m.receiver, index with
  | none, _ => m.declared index index
  | some receiver, 0 => .ok receiver
  | some _, slot + 1 => m.declared index slot

/-- The machine with another value for a declared parameter, known as argument
    `index`. -/
def setDeclared (m : Machine) (index slot : Nat) (value : Expr) : Except Fault Machine :=
  if slot < m.arguments.length then .ok { m with arguments := m.arguments.set slot value }
  else .error (.argumentOutOfRange index)

/-- The machine with another value for an argument. -/
def setArgument (m : Machine) (index : Nat) (value : Expr) : Except Fault Machine :=
  match m.receiver, index with
  | none, _ => m.setDeclared index index value
  | some _, 0 => .ok { m with receiver := some value }
  | some _, slot + 1 => m.setDeclared index slot value

/-- The present value of a local variable. -/
def localVariable (m : Machine) (index : Nat) : Except Fault Expr :=
  match m.locals[index]? with
  | some (some e) => .ok e
  | some none => .error (.unsetLocal index)
  | none => .error (.localOutOfRange index)

/-- The machine with another value for a local variable. -/
def setLocalVariable (m : Machine) (index : Nat) (value : Expr) : Except Fault Machine :=
  if index < m.locals.length then .ok { m with locals := m.locals.set index (some value) }
  else .error (.localOutOfRange index)

/-- Pushes a value that may fail to exist. -/
def load (value : Machine → Except Fault Expr) : MachineM Unit := do
  match value (← get) with
  | .error fault => throw fault
  | .ok e => push e

/-- Pops a value and puts it where there may be no place. -/
def store (place : Machine → Expr → Except Fault Machine) : MachineM Unit := do
  let value ← pop
  match place (← get) value with
  | .error fault => throw fault
  | .ok m => set m

/-! ## Operators and members -/

/-- Replaces two operands by the operator's node. -/
def binary (op : BinaryOp) : MachineM Unit := do
  -- The right operand was pushed last.
  let right ← pop
  let left ← pop
  push (.apply op left right)

/-- Replaces an operand by a node made of it. -/
def unary (node : Expr → Expr) : MachineM Unit := do
  let operand ← pop
  push (node operand)

/-- Replaces an operand by its conversion. -/
def convert (type : Ty) : MachineM Unit :=
  unary fun operand => .unary .convert operand type

/-- An argument as it is passed for a parameter: a constant that the parameter
    does not accept keeps its value and takes the parameter's type. -/
def passed (argument : Expr) (p : Param) : Expr :=
  match argument with
  | .constant value type =>
    if p.type.accepts type then argument else .constant value p.type
  | _ => argument

/-- Takes one argument for each parameter. -/
def takeArguments (parameters : List Param) : MachineM (List Expr) := do
  let arguments ← popN parameters.length
  return arguments.zipWith passed parameters

/-- Replaces the arguments, and the receiver below them unless the method is
    static, by the call. -/
def callMethod (method : MethodRef) : MachineM Unit := do
  -- The receiver lies below the arguments.
  let arguments ← takeArguments method.parameters
  if method.isStatic then
    push (.call none method arguments)
  else
    let receiver ← pop
    push (.call (some receiver) method arguments)

/-- Replaces the arguments by the new object. -/
def construct (ctor : ConstructorRef) : MachineM Unit := do
  let arguments ← takeArguments ctor.parameters
  push (.new ctor arguments)

/-- Replaces an array by its length. -/
def arrayLength : MachineM Unit := do
  let array ← pop
  if array.type.element?.isSome then
    push (.unary .arrayLength array (.prim .int32))
  else
    throw (.operand (.notArray array.type.name))

/-- Replaces an array and a position by the element, which has the array's
    element type if that is known. -/
def element (type : Ty) : MachineM Unit := do
  let position ← pop
  let array ← pop
  push (.index array position (array.type.element?.getD type))

/-- Makes the result of the value on the stack, which must be the only one. -/
def finish : MachineM Unit := do
  let body ← pop
  -- The value is gone from the stack even if it turns out not to be the last.
  let m ← get
  if m.stack.isEmpty then
    set { m with result := some (.lambda m.parameters body m.resultType) }
  else
    throw (.operand (.leftover m.stack.depth m.offset))

end Machine

/-- The operator of an expression that an opcode's operator becomes: signed
    and unsigned forms become the same one. -/
def Arith.operator : Arith → BinaryOp
  | .add => .add
  | .sub => .subtract
  | .mul => .multiply
  | .div | .divUn => .divide
  | .rem | .remUn => .modulo
  | .and => .and
  | .or => .or
  | .xor => .exclusiveOr
  | .shl => .leftShift
  | .shr | .shrUn => .rightShift
  | .ceq => .equal
  | .cgt | .cgtUn => .greaterThan
  | .clt | .cltUn => .lessThan

namespace Machine

/-! ## Execution -/

/-- Executes one operation. Loading an address is loading the value, and
    boxing is a conversion to `Object`. -/
def execute : Operation → MachineM Unit
  | .nop => pure ()
  | .dup => do push (← peek)
  | .pop => do let _ ← pop
  | .ret => finish
  | .ldnull => push .null
  | .ldcI4 v => push (.constant (.int32 v) (.prim .int32))
  | .ldcI8 v => push (.constant (.int64 v) (.prim .int64))
  | .ldcR4 bits => push (.constant (.single bits) (.prim .single))
  | .ldcR8 bits => push (.constant (.double bits) (.prim .double))
  | .ldstr text => push (.constant (.string text) (.prim .string))
  | .ldarg index | .ldarga index => load (·.argument index.toNat)
  | .starg index => store (·.setArgument index.toNat)
  | .ldloc index | .ldloca index => load (·.localVariable index.toNat)
  | .stloc index => store (·.setLocalVariable index.toNat)
  | .arith a => binary a.operator
  | .neg => unary fun e => .unary .negate e e.type
  | .not => unary fun e => .unary .not e e.type
  | .conv c => convert c.type
  | .box _ => convert (.prim .object)
  | .castclass type => convert type
  | .isinst type => unary fun e => .unary .typeAs e type
  | .call method | .callvirt method => callMethod method
  | .newobj ctor => construct ctor
  | .ldfld f | .ldflda f => unary fun e => .field (some e) f
  | .ldsfld f | .ldsflda f => push (.field none f)
  | .newarr type => unary fun e => .newArray type e
  | .ldlen => arrayLength
  | .ldelem type => element type

end Machine

end CilLift
