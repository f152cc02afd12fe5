import CilLift.Proofs.Run
import CilLift.Proofs.View

/-! # Execution on types

    A `TypeMachine` executes a method body on types alone. It keeps the type
    of each value on the stack, of each argument and of each local variable
    that has a value, and no expressions.

    Main statement: `lift_iff_typeOf` says that types decide everything about
    lifting but the body itself. A method fails to be lifted exactly with the
    fault that its execution on types stops with, and otherwise the body of
    the lifted function has the type that is left at `ret`.
-/

namespace CilLift

/-! ## The machine -/

/-- State of an execution on types. -/
@[ext]
structure TypeMachine where
  stack : OperandStack Ty
  /-- The types of the local variables that have a value. -/
  locals : List (Option Ty)
  arguments : List Ty
  receiver : Option Ty
  /-- Offset of the instruction being executed. -/
  offset : Nat
  /-- The type that was left at `ret`. -/
  result : Option Ty

/-- Steps of an execution on types. -/
abbrev TypeM := EStateM Fault TypeMachine

/-- Whether the operator compares its operands. -/
def Arith.isComparison : Arith → Bool
  | .ceq | .cgt | .cgtUn | .clt | .cltUn => true
  | _ => false

namespace TypeMachine

/-- The machine before anything is executed. -/
def initial (d : Delegate) : TypeMachine where
  stack := .empty d.method.maxStack
  locals := d.method.locals.map fun type => if d.method.initLocals then some type else none
  arguments := d.method.parameters.map (·.type)
  receiver := if d.method.isStatic then none else some d.method.declaringType
  offset := 0
  result := none

/-- A stack fault at the present instruction. -/
def stackFault {α : Type} (cause : StackFault) : TypeM α := do
  throw (.stack (← get).offset cause)

def push (type : Ty) : TypeM Unit := do
  match (← get).stack.push type with
  | .error cause => stackFault cause
  | .ok stack => modify ({ · with stack })

def pop : TypeM Ty := do
  match (← get).stack.pop with
  | .error cause => stackFault cause
  | .ok (type, stack) =>
    modify ({ · with stack })
    return type

def peek : TypeM Ty := do
  match (← get).stack.peek with
  | .error cause => stackFault cause
  | .ok type => return type

def popN (count : Nat) : TypeM (List Ty) := do
  match (← get).stack.popN count with
  | .error cause => stackFault cause
  | .ok (types, stack) =>
    modify ({ · with stack })
    return types

/-- The type of a declared parameter, known as argument `index`. -/
def declared (m : TypeMachine) (index slot : Nat) : Except Fault Ty :=
  match m.arguments[slot]? with
  | some type => .ok type
  | none => .error (.argumentOutOfRange index)

/-- The type of an argument, the receiver being the first where there is
    one. -/
def argument (m : TypeMachine) (index : Nat) : Except Fault Ty :=
  match m.receiver, index with
  | none, _ => m.declared index index
  | some receiver, 0 => .ok receiver
  | some _, slot + 1 => m.declared index slot

def setDeclared (m : TypeMachine) (index slot : Nat) (type : Ty) : Except Fault TypeMachine :=
  if slot < m.arguments.length then .ok { m with arguments := m.arguments.set slot type }
  else .error (.argumentOutOfRange index)

def setArgument (m : TypeMachine) (index : Nat) (type : Ty) : Except Fault TypeMachine :=
  match m.receiver, index with
  | none, _ => m.setDeclared index index type
  | some _, 0 => .ok { m with receiver := some type }
  | some _, slot + 1 => m.setDeclared index slot type

def localVariable (m : TypeMachine) (index : Nat) : Except Fault Ty :=
  match m.locals[index]? with
  | some (some type) => .ok type
  | some none => .error (.unsetLocal index)
  | none => .error (.localOutOfRange index)

def setLocalVariable (m : TypeMachine) (index : Nat) (type : Ty) : Except Fault TypeMachine :=
  if index < m.locals.length then .ok { m with locals := m.locals.set index (some type) }
  else .error (.localOutOfRange index)

/-- Pushes a type that may fail to exist. -/
def load (type : TypeMachine → Except Fault Ty) : TypeM Unit := do
  match type (← get) with
  | .error fault => throw fault
  | .ok type => push type

/-- Pops a type and puts it where there may be no place. -/
def store (place : TypeMachine → Ty → Except Fault TypeMachine) : TypeM Unit := do
  let type ← pop
  match place (← get) type with
  | .error fault => throw fault
  | .ok m => set m

/-- Replaces the type on top of the stack. -/
def retype (type : Ty → Ty) : TypeM Unit := do
  let operand ← pop
  push (type operand)

/-- Replaces two types, of which only the one pushed first matters. -/
def retypeTwo (type : Ty → Ty) : TypeM Unit := do
  let _ ← pop
  let first ← pop
  push (type first)

/-- Replaces the types of the arguments, and of the receiver below them unless
    the method is static, by the return type. -/
def callMethod (method : MethodRef) : TypeM Unit := do
  let _ ← popN method.parameters.length
  if method.isStatic then
    push method.returnType
  else
    let _ ← pop
    push method.returnType

def construct (ctor : ConstructorRef) : TypeM Unit := do
  let _ ← popN ctor.parameters.length
  push ctor.declaringType

def arrayLength : TypeM Unit := do
  let array ← pop
  if array.element?.isSome then push (.prim .int32)
  else throw (.operand (.notArray array.name))

/-- Makes the type on the stack the result, which must be the only one. -/
def finish : TypeM Unit := do
  let type ← pop
  let m ← get
  if m.stack.isEmpty then set { m with result := some type }
  else throw (.operand (.leftover m.stack.depth m.offset))

/-- Executes one operation. -/
def execute : Operation → TypeM Unit
  | .nop => pure ()
  | .dup => do push (← peek)
  | .pop => do let _ ← pop
  | .ret => finish
  | .ldnull => push (.prim .object)
  | .ldcI4 _ => push (.prim .int32)
  | .ldcI8 _ => push (.prim .int64)
  | .ldcR4 _ => push (.prim .single)
  | .ldcR8 _ => push (.prim .double)
  | .ldstr _ => push (.prim .string)
  | .ldarg index | .ldarga index => load (·.argument index.toNat)
  | .starg index => store (·.setArgument index.toNat)
  | .ldloc index | .ldloca index => load (·.localVariable index.toNat)
  | .stloc index => store (·.setLocalVariable index.toNat)
  | .arith a => retypeTwo fun left => if a.isComparison then .prim .boolean else left
  | .neg | .not => retype id
  | .conv c => retype fun _ => c.type
  | .box _ => retype fun _ => .prim .object
  | .castclass type | .isinst type => retype fun _ => type
  | .call method | .callvirt method => callMethod method
  | .newobj ctor => construct ctor
  | .ldfld f | .ldflda f => retype fun _ => f.type
  | .ldsfld f | .ldsflda f => push f.type
  | .newarr element => retype fun _ => .array element
  | .ldlen => arrayLength
  | .ldelem type => retypeTwo fun array => array.element?.getD type

/-- The machine as a consumer of code. -/
def consumer : Consumer TypeMachine where
  observe offset _ := modify ({ · with offset })
  perform := execute

/-- The type that was left at `ret`. -/
def outcome (m : TypeMachine) : Except Fault Ty :=
  match m.result with
  | some type => .ok type
  | none => .error (.missingReturn m.offset)

end TypeMachine

/-- The type that executing the delegate's method on types ends with. -/
def Delegate.typeOf (r : Resolver) (d : Delegate) : Except Fault Ty :=
  match (TypeMachine.consumer.feed r d.method.code).run (.initial d) with
  | .ok _ m => m.outcome
  | .error fault _ => .error fault

/-! ## Types of stacks -/

namespace OperandStack

variable {α β : Type} (f : α → β) (s : OperandStack α)

/-- The stack with every value replaced. -/
def map : OperandStack β := ⟨s.capacity, s.items.map f⟩

theorem push_map (a : α) : (s.map f).push (f a) = (s.push a).map (map f) := by
  by_cases h : s.items.length < s.capacity
  · simp [push, map, depth, h, Except.map]
  · simp [push, map, depth, h, Except.map]

theorem pop_map : (s.map f).pop = s.pop.map (Prod.map f (map f)) := by
  obtain ⟨capacity, items⟩ := s
  cases items <;> rfl

theorem peek_map : (s.map f).peek = s.peek.map f := by
  obtain ⟨capacity, items⟩ := s
  cases items <;> rfl

theorem popN_map (count : Nat) :
    (s.map f).popN count = (s.popN count).map (Prod.map (List.map f) (map f)) := by
  by_cases h : count ≤ s.items.length
  · simp [popN, map, depth, h, Except.map]
  · simp [popN, map, depth, h, Except.map]

end OperandStack

/-! ## Types of machines -/

/-- The machine with every expression replaced by its type. -/
def Machine.types (m : Machine) : TypeMachine where
  stack := m.stack.map Expr.type
  locals := m.locals.map (Option.map Expr.type)
  arguments := m.arguments.map Expr.type
  receiver := m.receiver.map Expr.type
  offset := m.offset
  result := (m.result.bind Expr.body?).map Expr.type

namespace Machine

variable (m : Machine)

@[simp] theorem types_stack : m.types.stack = m.stack.map Expr.type := rfl

@[simp] theorem types_offset : m.types.offset = m.offset := rfl

theorem types_initial (d : Delegate) : (initial d).types = .initial d := by
  have hlocals : (initial d).types.locals = (TypeMachine.initial d).locals := by
    simp only [types, initial, TypeMachine.initial, List.map_map]
    apply List.map_congr_left
    intro type _
    by_cases hinit : d.method.initLocals
    · simp [Method.initialLocal, hinit, Expr.type]
    · simp [Method.initialLocal, hinit]
  have harguments : (initial d).types.arguments = (TypeMachine.initial d).arguments := by
    simp only [types, initial, TypeMachine.initial, List.map_map]
    rfl
  have hreceiver : (initial d).types.receiver = (TypeMachine.initial d).receiver := by
    simp only [types, initial, TypeMachine.initial, Delegate.receiver]
    by_cases hstatic : d.method.isStatic
    · simp [hstatic]
    · cases htarget : d.target <;> simp [hstatic, Expr.type]
  exact TypeMachine.ext rfl hlocals harguments hreceiver rfl rfl

theorem types_argument (index : Nat) :
    m.types.argument index = (m.argument index).map Expr.type := by
  have hdeclared : ∀ slot, m.types.declared index slot = (m.declared index slot).map Expr.type := by
    intro slot
    simp only [TypeMachine.declared, declared, types, List.getElem?_map]
    cases m.arguments[slot]? <;> rfl
  have hreceiver : m.types.receiver = m.receiver.map Expr.type := rfl
  unfold TypeMachine.argument argument
  rw [hreceiver]
  cases m.receiver with
  | none => exact hdeclared index
  | some receiver =>
    cases index with
    | zero => rfl
    | succ slot => exact hdeclared slot

theorem types_setArgument (index : Nat) (e : Expr) :
    m.types.setArgument index e.type = (m.setArgument index e).map types := by
  have hdeclared : ∀ slot, m.types.setDeclared index slot e.type =
      (m.setDeclared index slot e).map types := by
    intro slot
    by_cases h : slot < m.arguments.length
    · simp [TypeMachine.setDeclared, setDeclared, types, h, Except.map]
    · simp [TypeMachine.setDeclared, setDeclared, types, h, Except.map]
  have hreceiver : m.types.receiver = m.receiver.map Expr.type := rfl
  unfold TypeMachine.setArgument setArgument
  rw [hreceiver]
  cases m.receiver with
  | none => exact hdeclared index
  | some receiver =>
    cases index with
    | zero => rfl
    | succ slot => exact hdeclared slot

theorem types_localVariable (index : Nat) :
    m.types.localVariable index = (m.localVariable index).map Expr.type := by
  simp only [TypeMachine.localVariable, localVariable, types, List.getElem?_map]
  rcases m.locals[index]? with _ | _ | e <;> rfl

theorem types_setLocalVariable (index : Nat) (e : Expr) :
    m.types.setLocalVariable index e.type = (m.setLocalVariable index e).map types := by
  by_cases h : index < m.locals.length
  · simp [TypeMachine.setLocalVariable, setLocalVariable, types, h, Except.map]
  · simp [TypeMachine.setLocalVariable, setLocalVariable, types, h, Except.map]

end Machine

/-! ## Effects on types -/

namespace TypeMachine

open Machine (types)

theorem mirrors_stackFault {α β : Type} (value : α → β) (cause : StackFault) :
    Mirrors types value (Machine.stackFault cause) (stackFault cause) := by
  intro m
  rfl

theorem mirrors_push (e : Expr) : Mirrors types id (Machine.push e) (push e.type) := by
  refine .bind .get fun m => ?_
  rw [Machine.types_stack, OperandStack.push_map]
  cases m.stack.push e with
  | error cause => exact mirrors_stackFault id cause
  | ok stack => exact fun _ => rfl

theorem mirrors_pop : Mirrors types Expr.type Machine.pop pop := by
  refine .bind .get fun m => ?_
  rw [Machine.types_stack, OperandStack.pop_map]
  cases m.stack.pop with
  | error cause => exact mirrors_stackFault Expr.type cause
  | ok taken => exact fun _ => rfl

theorem mirrors_peek : Mirrors types Expr.type Machine.peek peek := by
  refine .bind .get fun m => ?_
  rw [Machine.types_stack, OperandStack.peek_map]
  cases m.stack.peek with
  | error cause => exact mirrors_stackFault Expr.type cause
  | ok e => exact .pure e

theorem mirrors_popN (count : Nat) :
    Mirrors types (List.map Expr.type) (Machine.popN count) (popN count) := by
  refine .bind .get fun m => ?_
  rw [Machine.types_stack, OperandStack.popN_map]
  cases m.stack.popN count with
  | error cause => exact mirrors_stackFault (List.map Expr.type) cause
  | ok taken => exact fun _ => rfl

theorem mirrors_load {value : Machine → Except Fault Expr} {type : TypeMachine → Except Fault Ty}
    (h : ∀ m : Machine, type m.types = (value m).map Expr.type) :
    Mirrors types id (Machine.load value) (load type) := by
  refine .bind .get fun m => ?_
  rw [h m]
  cases value m with
  | error fault => exact .throw fault
  | ok e => exact mirrors_push e

theorem mirrors_store {place : Machine → Expr → Except Fault Machine}
    {place' : TypeMachine → Ty → Except Fault TypeMachine}
    (h : ∀ (m : Machine) (e : Expr), place' m.types e.type = (place m e).map types) :
    Mirrors types id (Machine.store place) (store place') := by
  refine .bind mirrors_pop fun e => .bind .get fun m => ?_
  rw [h m e]
  cases place m e with
  | error fault => exact .throw fault
  | ok m' => exact fun _ => rfl

theorem mirrors_unary {node : Expr → Expr} {type : Ty → Ty}
    (h : ∀ e, (node e).type = type e.type) :
    Mirrors types id (Machine.unary node) (retype type) := by
  refine .bind mirrors_pop fun e => ?_
  rw [← h e]
  exact mirrors_push (node e)

theorem mirrors_popTwo {node : Expr → Expr → Expr} {type : Ty → Ty}
    (h : ∀ left right, (node left right).type = type left.type) :
    Mirrors types id
      (do let right ← Machine.pop; let left ← Machine.pop; Machine.push (node left right))
      (retypeTwo type) := by
  refine .bind mirrors_pop fun right => .bind mirrors_pop fun left => ?_
  rw [← h left right]
  exact mirrors_push (node left right)

/-- How constants are passed shows in no type. -/
theorem mirrors_takeArguments (parameters : List Param) {f : List Expr → MachineM Unit}
    {g : TypeM Unit} (h : ∀ arguments, Mirrors types id (f arguments) g) :
    Mirrors types id (do let arguments ← Machine.takeArguments parameters; f arguments)
      (do let _ ← popN parameters.length; g) := by
  simp only [Machine.takeArguments, bind_assoc, pure_bind]
  exact .bind (mirrors_popN parameters.length) fun _ => h _

theorem mirrors_callMethod (method : MethodRef) :
    Mirrors types id (Machine.callMethod method) (callMethod method) := by
  refine mirrors_takeArguments method.parameters fun arguments => ?_
  cases method.isStatic with
  | true => exact mirrors_push (.call none method arguments)
  | false =>
    refine .bind mirrors_pop fun receiver => ?_
    exact mirrors_push (.call (some receiver) method arguments)

theorem mirrors_construct (ctor : ConstructorRef) :
    Mirrors types id (Machine.construct ctor) (construct ctor) :=
  mirrors_takeArguments ctor.parameters fun arguments => mirrors_push (.new ctor arguments)

theorem mirrors_arrayLength : Mirrors types id Machine.arrayLength arrayLength := by
  refine .bind mirrors_pop fun array => ?_
  cases array.type.element?.isSome with
  | true => exact mirrors_push (.unary .arrayLength array (.prim .int32))
  | false => exact .throw _

theorem mirrors_finish : Mirrors types id Machine.finish finish := by
  refine .bind mirrors_pop fun body => .bind .get fun m => ?_
  have hempty : m.types.stack.isEmpty = m.stack.isEmpty := by
    simp [OperandStack.isEmpty, OperandStack.map]
  have hdepth : m.types.stack.depth = m.stack.depth := by
    simp [OperandStack.depth, OperandStack.map]
  rw [hempty, hdepth]
  cases m.stack.isEmpty with
  | true => exact fun _ => rfl
  | false => exact .throw _

theorem isComparison_operator (a : Arith) : a.operator.isComparison = a.isComparison := by
  cases a <;> rfl

/-- Executing an operation on types does to the types of a machine what
    executing it on expressions does to the machine. -/
theorem mirrors_execute (op : Operation) :
    Mirrors types id (Machine.execute op) (execute op) := by
  cases op with
  | nop => exact .pure ()
  | dup => exact .bind mirrors_peek fun e => mirrors_push e
  | pop => exact .bind mirrors_pop fun _ => .pure ()
  | ret => exact mirrors_finish
  | ldnull => exact mirrors_push .null
  | ldcI4 v => exact mirrors_push (.constant (.int32 v) (.prim .int32))
  | ldcI8 v => exact mirrors_push (.constant (.int64 v) (.prim .int64))
  | ldcR4 bits => exact mirrors_push (.constant (.single bits) (.prim .single))
  | ldcR8 bits => exact mirrors_push (.constant (.double bits) (.prim .double))
  | ldstr text => exact mirrors_push (.constant (.string text) (.prim .string))
  | ldarg index | ldarga index => exact mirrors_load fun m => m.types_argument index.toNat
  | ldloc index | ldloca index => exact mirrors_load fun m => m.types_localVariable index.toNat
  | starg index => exact mirrors_store fun m e => m.types_setArgument index.toNat e
  | stloc index => exact mirrors_store fun m e => m.types_setLocalVariable index.toNat e
  | arith a =>
    apply mirrors_popTwo
    intro left right
    show (if a.operator.isComparison then Ty.prim .boolean else left.type) = _
    rw [isComparison_operator]
  | ldelem type => exact mirrors_popTwo fun _ _ => rfl
  | neg | not | conv | box | castclass | isinst | ldfld | ldflda | newarr =>
    exact mirrors_unary fun _ => rfl
  | call method | callvirt method => exact mirrors_callMethod method
  | newobj ctor => exact mirrors_construct ctor
  | ldsfld f | ldsflda f => exact mirrors_push (.field none f)
  | ldlen => exact mirrors_arrayLength

theorem mirrors_consumer : Machine.consumer.Mirrors types consumer := by
  intro call
  cases call with
  | observe offset i => exact fun _ => rfl
  | perform op => exact mirrors_execute op

end TypeMachine

/-! ## Lifting -/

theorem types_outcome_of_none {m : Machine} (h : m.result = none) :
    m.types.outcome = .error (.missingReturn m.offset) := by
  simp only [TypeMachine.outcome, Machine.types, h]
  rfl

theorem types_outcome_of_lambda {m : Machine} {ps : List Param} {body : Expr} {type : Ty}
    (h : m.result = some (.lambda ps body type)) : m.types.outcome = .ok body.type := by
  simp only [TypeMachine.outcome, Machine.types, h]
  rfl

/-- Both executions stop with the same fault, or one comes to the types of the
    machine that the other comes to. -/
theorem lift_typeOf_cases (r : Resolver) (d : Delegate) :
    (∃ fault, d.lift r = .error fault ∧ d.typeOf r = .error fault) ∨
      ∃ m : Machine, d.lift r = m.outcome ∧ d.typeOf r = m.types.outcome := by
  have hfeed := TypeMachine.mirrors_consumer.feed r d.method.code (.initial d)
  rw [Machine.types_initial] at hfeed
  unfold Delegate.lift Delegate.typeOf
  rw [hfeed]
  cases (Machine.consumer.feed r d.method.code).run (.initial d) with
  | error fault m => exact .inl ⟨fault, rfl, rfl⟩
  | ok _ m => exact .inr ⟨m, rfl, rfl⟩

/-- Types alone decide whether a method is lifted, with which fault it is not,
    and which type the body of the lifted function has. -/
theorem lift_iff_typeOf (r : Resolver) (d : Delegate) :
    (∀ fault, d.lift r = .error fault ↔ d.typeOf r = .error fault) ∧
      ∀ type, (∃ ps body functionType,
          d.lift r = .ok (.lambda ps body functionType) ∧ body.type = type) ↔
        d.typeOf r = .ok type := by
  rcases lift_typeOf_cases r d with ⟨fault, hlift, htype⟩ | ⟨m, hlift, htype⟩
  · rw [hlift, htype]
    simp
  · unfold Machine.outcome at hlift
    cases hresult : m.result with
    | none =>
      rw [hresult] at hlift
      rw [hlift, htype, types_outcome_of_none hresult]
      simp
    | some tree =>
      rw [hresult] at hlift
      -- Whatever is lifted is a function, so it has a body.
      obtain ⟨_, _, body, -, -, -, -, -, rfl⟩ := lift_ok_iff.mp hlift
      rw [hlift, htype, types_outcome_of_lambda hresult]
      simp

end CilLift
