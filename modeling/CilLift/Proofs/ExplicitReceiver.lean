import CilLift.Proofs.Parts
import CilLift.Proofs.Run
import CilLift.Proofs.View

/-! # Explicit receivers

    A receiver is a first argument under another name. The machine keeps it
    apart from the declared parameters, and `Machine.explicit` sees it among
    them.

    Main statement: `lift_explicit_receiver` says that an instance method
    without a bound receiver is lifted as the static method is that declares
    the receiver as its first parameter.
-/

namespace CilLift

/-! ## Methods with an explicit receiver -/

/-- The attributes of the same member without a receiver. -/
def Attributes.asStatic (a : Attributes) : Attributes :=
  ⟨a.bits ||| 0x0010⟩

theorem Attributes.isStatic_asStatic (a : Attributes) : a.asStatic.isStatic = true := by
  have hbits : ((a.bits ||| 0x0010) &&& 0x0010).toNat = (a.bits.toNat &&& 16) ||| 16 := by
    rw [UInt16.toNat_and, UInt16.toNat_or]
    exact Nat.and_or_distrib_right _ _ _
  have hpos : 16 ≤ ((a.bits ||| 0x0010) &&& 0x0010).toNat := hbits ▸ Nat.right_le_or
  unfold isStatic asStatic
  rw [bne_iff_ne]
  intro hzero
  rw [hzero] at hpos
  exact absurd hpos (by decide)

/-- The parameter that stands for the receiver of a method. -/
def Method.this (m : Method) : Param :=
  ⟨"this", m.declaringType⟩

/-- The static method that takes the receiver as its first parameter. -/
def Method.withExplicitReceiver (m : Method) : Method :=
  { m with attributes := m.attributes.asStatic, parameters := m.this :: m.parameters }

def Delegate.withExplicitReceiver (d : Delegate) : Delegate :=
  { d with method := d.method.withExplicitReceiver }

/-- A function with one more parameter in front. -/
def Expr.addParameter (p : Param) : Expr → Expr
  | .lambda ps body type => .lambda (p :: ps) body type
  | e => e

/-! ## Machines with an explicit receiver -/

namespace Machine

/-- The machine with its receiver among the arguments. -/
def explicit (this : Param) (m : Machine) : Machine :=
  { m with
    parameters := this :: m.parameters
    arguments := m.argumentValues
    receiver := none
    result := m.result.map (Expr.addParameter this) }

variable (this : Param) (m : Machine)

@[simp] theorem explicit_stack : (m.explicit this).stack = m.stack := rfl

@[simp] theorem explicit_offset : (m.explicit this).offset = m.offset := rfl

/-- Arguments keep their numbers. -/
theorem explicit_argument (index : Nat) :
    (m.explicit this).argument index = m.argument index := by
  unfold argument declared explicit argumentValues
  cases m.receiver with
  | none => rfl
  | some receiver =>
    cases index with
    | zero => rfl
    | succ slot => rfl

theorem explicit_setArgument (index : Nat) (value : Expr) :
    (m.explicit this).setArgument index value =
      (m.setArgument index value).map (explicit this) := by
  unfold setArgument setDeclared explicit argumentValues
  cases m.receiver with
  | none =>
    by_cases hlt : index < m.arguments.length
    · simp [hlt, Except.map]
    · simp [hlt, Except.map]
  | some receiver =>
    cases index with
    | zero => simp [Except.map]
    | succ slot =>
      by_cases hlt : slot < m.arguments.length
      · simp [hlt, Except.map]
      · simp [hlt, Except.map]

theorem explicit_setLocalVariable (index : Nat) (value : Expr) :
    (m.explicit this).setLocalVariable index value =
      (m.setLocalVariable index value).map (explicit this) := by
  by_cases hlt : index < m.locals.length
  · simp [setLocalVariable, explicit, argumentValues, hlt, Except.map]
  · simp [setLocalVariable, explicit, argumentValues, hlt, Except.map]

theorem explicit_outcome :
    (m.explicit this).outcome = m.outcome.map (Expr.addParameter this) := by
  unfold outcome explicit
  cases m.result <;> rfl

variable {d : Delegate}

theorem explicit_initial (hstatic : d.method.isStatic = false) (htarget : d.target = none) :
    (initial d).explicit d.method.this = initial d.withExplicitReceiver := by
  have hreceiver : d.receiver = some (.parameter d.method.this) := by
    simp [Delegate.receiver, hstatic, htarget, Method.this]
  have hstatic' : d.withExplicitReceiver.receiver = none :=
    if_pos d.method.attributes.isStatic_asStatic
  unfold explicit initial argumentValues
  rw [hstatic', hreceiver]
  rfl

/-! ## Effects on the receiver -/

theorem mirrors_stackFault {α : Type} (cause : StackFault) :
    Mirrors (explicit this) id (stackFault cause : MachineM α) (stackFault cause) := by
  intro m
  rfl

theorem mirrors_push (e : Expr) : Mirrors (explicit this) id (push e) (push e) := by
  refine .bind .get fun m => ?_
  rw [explicit_stack]
  cases m.stack.push e with
  | error cause => exact mirrors_stackFault this cause
  | ok stack => exact fun _ => rfl

theorem mirrors_pop : Mirrors (explicit this) id pop pop := by
  refine .bind .get fun m => ?_
  rw [explicit_stack]
  cases m.stack.pop with
  | error cause => exact mirrors_stackFault this cause
  | ok taken => exact fun _ => rfl

theorem mirrors_peek : Mirrors (explicit this) id peek peek := by
  refine .bind .get fun m => ?_
  rw [explicit_stack]
  cases m.stack.peek with
  | error cause => exact mirrors_stackFault this cause
  | ok e => exact .pure e

theorem mirrors_popN (count : Nat) : Mirrors (explicit this) id (popN count) (popN count) := by
  refine .bind .get fun m => ?_
  rw [explicit_stack]
  cases m.stack.popN count with
  | error cause => exact mirrors_stackFault this cause
  | ok taken => exact fun _ => rfl

theorem mirrors_load {value : Machine → Except Fault Expr}
    (h : ∀ m : Machine, value (m.explicit this) = value m) :
    Mirrors (explicit this) id (load value) (load value) := by
  refine .bind .get fun m => ?_
  rw [h m]
  cases value m with
  | error fault => exact .throw fault
  | ok e => exact mirrors_push this e

theorem mirrors_store {place : Machine → Expr → Except Fault Machine}
    (h : ∀ (m : Machine) (e : Expr), place (m.explicit this) e = (place m e).map (explicit this)) :
    Mirrors (explicit this) id (store place) (store place) := by
  refine .bind (mirrors_pop this) fun e => .bind .get fun m => ?_
  rw [id, h m e]
  cases place m e with
  | error fault => exact .throw fault
  | ok m' => exact fun _ => rfl

theorem mirrors_finish : Mirrors (explicit this) id finish finish := by
  refine .bind (mirrors_pop this) fun body => .bind .get fun m => ?_
  rw [explicit_stack, explicit_offset]
  cases m.stack.isEmpty with
  | true => exact fun _ => rfl
  | false => exact .throw _

theorem mirrors_ofParts :
    OfParts fun {α} (x : MachineM α) => Mirrors (explicit this) id x x where
  pure a := .pure a
  bind hx hf := .bind hx hf
  push := mirrors_push this
  pop := mirrors_pop this
  peek := mirrors_peek this
  popN := mirrors_popN this
  loadArgument index := mirrors_load this fun m => m.explicit_argument this index
  loadLocal _ := mirrors_load this fun _ => rfl
  storeArgument index := mirrors_store this fun m e => m.explicit_setArgument this index e
  storeLocal index := mirrors_store this fun m e => m.explicit_setLocalVariable this index e
  notArray _ := .throw _
  finish := mirrors_finish this

/-- It makes no difference to any operation whether the receiver is apart from
    the arguments or among them. -/
theorem mirrors_execute (op : Operation) :
    Mirrors (explicit this) id (execute op) (execute op) :=
  (mirrors_ofParts this).execute op

theorem mirrors_consumer : consumer.Mirrors (explicit this) consumer := by
  intro call
  cases call with
  | observe offset i => exact fun _ => rfl
  | perform op => exact mirrors_execute this op

end Machine

/-! ## Lifting -/

/-- The method with an explicit receiver is lifted with the same fault or to
    the same function with one more parameter. -/
theorem lift_withExplicitReceiver {d : Delegate} (r : Resolver)
    (hstatic : d.method.isStatic = false) (htarget : d.target = none) :
    d.withExplicitReceiver.lift r = (d.lift r).map (Expr.addParameter d.method.this) := by
  have hfeed := (Machine.mirrors_consumer d.method.this).feed r d.method.code (.initial d)
  rw [Machine.explicit_initial hstatic htarget] at hfeed
  have hcode : d.withExplicitReceiver.method.code = d.method.code := rfl
  unfold Delegate.lift
  rw [hcode, hfeed]
  cases (Machine.consumer.feed r d.method.code).run (.initial d) with
  | error fault m => rfl
  | ok _ m => exact m.explicit_outcome d.method.this

/-- An instance method without a bound receiver and the static method that
    takes the receiver as its first parameter fail to be lifted with the same
    faults, and are lifted to functions of the same body. -/
theorem lift_explicit_receiver {d : Delegate} (r : Resolver)
    (hstatic : d.method.isStatic = false) (htarget : d.target = none) :
    (∀ fault, d.lift r = .error fault ↔ d.withExplicitReceiver.lift r = .error fault) ∧
      ∀ body type, d.lift r = .ok (.lambda d.method.parameters body type) ↔
        d.withExplicitReceiver.lift r =
          .ok (.lambda (⟨"this", d.method.declaringType⟩ :: d.method.parameters) body type) := by
  rw [lift_withExplicitReceiver r hstatic htarget]
  cases hlift : d.lift r with
  | error fault => simp [Except.map]
  | ok tree =>
    obtain ⟨_, _, body, -, -, -, -, -, rfl⟩ := lift_ok_iff.mp hlift
    simp [Except.map, Expr.addParameter, Method.this]

/-! ### A counter that meets itself -/

namespace Counter

def counterType : Ty := .named ⟨"Counter", .reference, [], none⟩

/-- The first parameter accepts a counter and the second one does not. -/
def meet : MethodRef where
  declaringType := "Counter"
  name := "Meet"
  parameters := [⟨"other", .prim .object⟩, ⟨"label", .prim .string⟩]
  returnType := .prim .int32
  attributes := ⟨0⟩

def resolver : Resolver :=
  (SymbolTable.ofList [(⟨0x0a000001⟩, .method meet)]).resolver

def code : List Instruction :=
  [⟨.ldargS, (0 : UInt8)⟩, ⟨.ldargS, (0 : UInt8)⟩, ⟨.ldargS, (0 : UInt8)⟩,
    ⟨.callvirt, (⟨0x0a000001⟩ : Token)⟩, ⟨.ldargS, (1 : UInt8)⟩, ⟨.arith .add, ()⟩, .ret]

def step : Param := ⟨"step", .prim .int32⟩

def delegate : Delegate where
  type := .prim .object
  method :=
    { declaringType := counterType
      parameters := [step]
      attributes := ⟨0⟩
      code := Instruction.encodeAll code
      maxStack := 3
      locals := []
      initLocals := false }
  target := none

def this : Expr := .parameter ⟨"this", counterType⟩

def body : Expr :=
  .binary .add (.call (some this) meet [this, this]) (.parameter step) (.prim .int32)

theorem lift_code :
    delegate.lift resolver = .ok (.lambda [step] body (.prim .object)) := by
  have hrun : Machine.Run
      [.ldarg 0, .ldarg 0, .ldarg 0, .callvirt meet, .ldarg 1, .arith .add]
      (.initial delegate) _ :=
    .load rfl (by decide) <|
    .load rfl (by decide) <|
    .load rfl (by decide) <|
    .build (.callInstance meet _ [_, _] (.inr rfl) rfl rfl) rfl (by decide) <|
    .load rfl (by decide) <|
    .build (.arith .add _ _) rfl (by decide) <|
    .nil _
  exact lift_of_run rfl rfl rfl hrun rfl

theorem lift_delegate_explicit :
    delegate.lift resolver = .ok (.lambda [step] body (.prim .object)) ∧
      delegate.withExplicitReceiver.lift resolver =
        .ok (.lambda [⟨"this", counterType⟩, step] body (.prim .object)) :=
  ⟨lift_code, ((lift_explicit_receiver resolver rfl rfl).2 body _).mp lift_code⟩

end Counter

end CilLift
