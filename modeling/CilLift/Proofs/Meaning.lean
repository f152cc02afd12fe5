import CilLift.Proofs.Run

/-! # Meaning of lifted functions

    An `Interpretation` gives a meaning to constants, members and operators in
    some domain of values. Under it an expression has a value once its
    parameters have one, and a method body can be executed on values in place
    of expressions.

    Main statement: `lift_preserves_meaning` says that both agree. Where a
    method is lifted, executing it on any arguments returns a value, and the
    body of the lifted function evaluates to that value.
-/

namespace CilLift

universe u

/-! ## Interpretations -/

/-- Functions on a domain of values that stand for everything an expression
    can do. None of them is told the type that a node is annotated with, apart
    from the target of a conversion. -/
structure Interpretation (D : Type u) where
  constant : Value → D
  staticField : FieldRef → D
  field : FieldRef → D → D
  binary : BinaryOp → D → D → D
  negate : D → D
  not : D → D
  convert : Ty → D → D
  typeAs : Ty → D → D
  arrayLength : D → D
  call : MethodRef → Option D → List D → D
  construct : ConstructorRef → List D → D
  newArray : Ty → D → D
  index : D → D → D

variable {D : Type u} (I : Interpretation D)

/-- The meaning of a unary operator with the type of its node. -/
def Interpretation.unary : UnaryOp → Ty → D → D
  | .convert, type => I.convert type
  | .typeAs, type => I.typeAs type
  | .negate, _ => I.negate
  | .not, _ => I.not
  | .arrayLength, _ => I.arrayLength

/-! ## Values of expressions -/

/-- The values of parameters, by name. -/
abbrev Environment (D : Type u) := String → Option D

variable (env : Environment D)

mutual

/-- The value of an expression, if its parameters have one and all its nodes
    have a meaning. -/
def Expr.eval : Expr → Option D
  | .constant value _ => some (I.constant value)
  | .parameter p => env p.name
  | .field receiver f => do
    match ← Expr.evalReceiver receiver with
    | none => return I.staticField f
    | some value => return I.field f value
  | .binary op left right _ => do return I.binary op (← left.eval) (← right.eval)
  | .unary op operand type => do return I.unary op type (← operand.eval)
  | .call receiver method arguments => do
    return I.call method (← Expr.evalReceiver receiver) (← Expr.evalAll arguments)
  | .new ctor arguments => do return I.construct ctor (← Expr.evalAll arguments)
  | .newArray element length => do return I.newArray element (← length.eval)
  | .index array position _ => do return I.index (← array.eval) (← position.eval)
  | .lambda .. | .property .. | .indexer .. | .assign .. | .event .. => none

/-- The value of a receiver, if there is a receiver. -/
def Expr.evalReceiver : Option Expr → Option (Option D)
  | none => some none
  | some receiver => do return some (← receiver.eval)

/-- The values of some expressions. -/
def Expr.evalAll : List Expr → Option (List D)
  | [] => some []
  | e :: es => do return (← e.eval) :: (← Expr.evalAll es)

end

/-! ## Execution on values -/

namespace Interpretation

/-- The meaning of an arithmetic instruction. An unsigned form means what the
    signed form means. -/
def arith : Arith → D → D → D
  | .add => I.binary .add
  | .sub => I.binary .subtract
  | .mul => I.binary .multiply
  | .div | .divUn => I.binary .divide
  | .rem | .remUn => I.binary .modulo
  | .and => I.binary .and
  | .or => I.binary .or
  | .xor => I.binary .exclusiveOr
  | .shl => I.binary .leftShift
  | .shr | .shrUn => I.binary .rightShift
  | .ceq => I.binary .equal
  | .cgt | .cgtUn => I.binary .greaterThan
  | .clt | .cltUn => I.binary .lessThan

/-- What an operation computes from its operands, the first pushed first. The
    address of a field is the field's value, and boxing is a conversion. -/
def compute : Operation → List D → Option D
  | .ldnull, [] => some (I.constant .null)
  | .ldcI4 v, [] => some (I.constant (.int32 v))
  | .ldcI8 v, [] => some (I.constant (.int64 v))
  | .ldcR4 bits, [] => some (I.constant (.single bits))
  | .ldcR8 bits, [] => some (I.constant (.double bits))
  | .ldstr text, [] => some (I.constant (.string text))
  | .ldsfld f, [] | .ldsflda f, [] => some (I.staticField f)
  | .ldfld f, [a] | .ldflda f, [a] => some (I.field f a)
  | .arith op, [a, b] => some (I.arith op a b)
  | .neg, [a] => some (I.negate a)
  | .not, [a] => some (I.not a)
  | .conv c, [a] => some (I.convert c.type a)
  | .box _, [a] => some (I.convert (.prim .object) a)
  | .castclass type, [a] => some (I.convert type a)
  | .isinst type, [a] => some (I.typeAs type a)
  | .newarr element, [a] => some (I.newArray element a)
  | .ldlen, [a] => some (I.arrayLength a)
  | .ldelem _, [a, b] => some (I.index a b)
  | .newobj ctor, args => some (I.construct ctor args)
  | .call method, args | .callvirt method, args =>
    if method.isStatic then some (I.call method none args)
    else
      match args with
      | [] => none
      | receiver :: args => some (I.call method (some receiver) args)
  | _, _ => none

end Interpretation

namespace Delegate

/-- The value of the receiver that the delegate is bound to. -/
def bound? (d : Delegate) : Option Value :=
  if d.method.isStatic then none else d.target

/-- What has to be given a value before the method can be executed: the
    receiver of an instance method that is not bound, and the parameters. -/
def inputs (d : Delegate) : List Param :=
  if d.method.isStatic || d.target.isSome then d.method.parameters
  else ⟨"this", d.method.declaringType⟩ :: d.method.parameters

/-- The values of the inputs, by name. -/
def environment (d : Delegate) (values : List D) : Environment D :=
  fun name => ((d.inputs.map (·.name)).zip values).lookup name

end Delegate

/-- What a method body is executed in: its operand stack with the last pushed
    value first, its local variables and its arguments from the receiver on. -/
structure Frame (D : Type u) where
  stack : List D
  locals : List (Option D)
  arguments : List D

namespace Frame

/-- The frame with one more value on the stack, if there is one. -/
def push (s : Frame D) (value : Option D) : Option (Frame D) :=
  value.map fun v => { s with stack := v :: s.stack }

/-- Executes one operation that does not return. -/
def step (op : Operation) (s : Frame D) : Option (Frame D) :=
  match op with
  | .nop => some s
  | .dup => s.push s.stack.head?
  | .pop => if s.stack.isEmpty then none else some { s with stack := s.stack.tail }
  | .ldarg index | .ldarga index => s.push s.arguments[index.toNat]?
  | .ldloc index | .ldloca index => s.push s.locals[index.toNat]?.join
  | .starg index =>
    match s.stack with
    | v :: rest =>
      if index.toNat < s.arguments.length then
        some { s with stack := rest, arguments := s.arguments.set index.toNat v }
      else none
    | [] => none
  | .stloc index =>
    match s.stack with
    | v :: rest =>
      if index.toNat < s.locals.length then
        some { s with stack := rest, locals := s.locals.set index.toNat (some v) }
      else none
    | [] => none
  -- All others compute one value from the operands on top of the stack.
  | op =>
    if op.arity ≤ s.stack.length then
      push { s with stack := s.stack.drop op.arity }
        (I.compute op (s.stack.take op.arity).reverse)
    else none

/-- Executes operations up to the first `ret` and returns the value that is
    then alone on the stack. -/
def run : List Operation → Frame D → Option D
  | [], _ => none
  | .ret :: _, s =>
    match s.stack with
    | [v] => some v
    | _ => none
  | op :: ops, s => (s.step I op).bind (run ops)

/-- The frame of a method whose unbound arguments have the given values. -/
def initial (d : Delegate) (values : List D) : Frame D where
  stack := []
  locals := d.method.locals.map fun type =>
    if d.method.initLocals then some (I.constant (.default type)) else none
  arguments := (d.bound?.map I.constant).toList ++ values

end Frame

namespace Delegate

/-- What executing the delegate's method on some values returns. -/
def result (r : Resolver) (d : Delegate) (values : List D) : Option D :=
  (Frame.initial I d values).run I (Trace.ofCode r d.method.code).operations

end Delegate

/-! ## What operations build -/

section Builds

variable {I} {env}

theorem evalAll_of_map_eq {es : List Expr} {vs : List D}
    (h : es.map (Expr.eval I env) = vs.map some) : Expr.evalAll I env es = some vs := by
  induction es generalizing vs with
  | nil =>
    rw [List.map_nil, eq_comm, List.map_eq_nil_iff] at h
    rw [h, Expr.evalAll]
  | cons e es ih =>
    cases vs with
    | nil => cases h
    | cons v vs =>
      rw [List.map_cons, List.map_cons, List.cons.injEq] at h
      rw [Expr.evalAll, h.1, ih h.2]
      rfl

/-- The type that a constant is given for a parameter has no influence on its
    value. -/
theorem eval_passed (e : Expr) (p : Param) :
    (Machine.passed e p).eval I env = e.eval I env := by
  unfold Machine.passed
  split
  · split
    · rfl
    · simp only [Expr.eval]
  · rfl

/-- Arguments have the same values before and after they are passed. -/
theorem evalAll_passed {es : List Expr} {ps : List Param} (hlen : es.length = ps.length)
    {vs : List D} (hvs : es.map (Expr.eval I env) = vs.map some) :
    Expr.evalAll I env (es.zipWith Machine.passed ps) = some vs := by
  apply evalAll_of_map_eq
  rw [Machine.map_zipWith_passed eval_passed hlen, hvs]

theorem eval_operand {e : Expr} {vs : List D} (h : [e].map (Expr.eval I env) = vs.map some) :
    ∃ a, vs = [a] ∧ e.eval I env = some a := by
  obtain ⟨a, rfl, ha⟩ := List.map_eq_singleton_iff.mp h.symm
  exact ⟨a, rfl, ha.symm⟩

theorem eval_two_operands {left right : Expr} {vs : List D}
    (h : [left, right].map (Expr.eval I env) = vs.map some) :
    ∃ a b, vs = [a, b] ∧ left.eval I env = some a ∧ right.eval I env = some b := by
  obtain ⟨a, rest, rfl, ha, hrest⟩ := List.map_eq_cons_iff.mp h.symm
  obtain ⟨b, rfl, hb⟩ := List.map_eq_singleton_iff.mp hrest
  exact ⟨a, b, rfl, ha.symm, hb.symm⟩

/-- An arithmetic instruction means its operator. -/
theorem arith_eq_binary (a : Arith) : I.arith a = I.binary a.operator := by
  cases a <;> rfl

/-- A call has the value that either call operation computes from its
    operands. -/
theorem eval_call {op : Operation} {method : MethodRef}
    (hop : op = .call method ∨ op = .callvirt method) {receiver : Option Expr} {es : List Expr}
    (hreceiver : receiver.isSome ↔ method.isStatic = false)
    (hlen : es.length = method.parameters.length) {vs : List D}
    (hvs : (receiver.toList ++ es).map (Expr.eval I env) = vs.map some) :
    ∃ v, I.compute op vs = some v ∧
      (Expr.call receiver method (es.zipWith Machine.passed method.parameters)).eval I env =
        some v := by
  cases receiver with
  | none =>
    have hstatic : method.isStatic = true := by simpa using hreceiver
    refine ⟨I.call method none vs, ?_, ?_⟩
    · rcases hop with rfl | rfl <;> exact if_pos hstatic
    · simp only [Expr.eval, Expr.evalReceiver, evalAll_passed hlen hvs]
      rfl
  | some e =>
    have hstatic : ¬ method.isStatic = true := by simpa using hreceiver
    obtain ⟨a, ws, rfl, ha, hws⟩ := List.map_eq_cons_iff.mp hvs.symm
    refine ⟨I.call method (some a) ws, ?_, ?_⟩
    · rcases hop with rfl | rfl <;> exact if_neg hstatic
    · simp only [Expr.eval, Expr.evalReceiver, ← ha, evalAll_passed hlen hws.symm]
      rfl

/-- A node that an operation builds has the value that the operation computes
    from the values of the operands. -/
theorem Operation.Builds.eval_eq {op : Operation} {operands : List Expr} {node : Expr}
    (h : op.Builds operands node) {vs : List D}
    (hvs : operands.map (Expr.eval I env) = vs.map some) :
    ∃ v, I.compute op vs = some v ∧ node.eval I env = some v := by
  have hnone : operands = [] → vs = [] := by
    intro hoperands
    rw [hoperands] at hvs
    exact List.map_eq_nil_iff.mp hvs.symm
  cases h with
  | ldnull | ldcI4 | ldcI8 | ldcR4 | ldcR8 | ldstr =>
    rw [hnone rfl]
    exact ⟨_, rfl, by simp only [Expr.null, Expr.eval]⟩
  | staticField f hop =>
    rw [hnone rfl]
    rcases hop with rfl | rfl <;> exact ⟨_, rfl, rfl⟩
  | field f e hop =>
    obtain ⟨a, rfl, ha⟩ := eval_operand hvs
    refine ⟨I.field f a, ?_, ?_⟩
    · rcases hop with rfl | rfl <;> rfl
    · simp [Expr.eval, Expr.evalReceiver, ha]
  | neg e | not e | conv c e | box type e | castclass type e | isinst type e | newarr type e
  | ldlen e harray =>
    obtain ⟨a, rfl, ha⟩ := eval_operand hvs
    exact ⟨_, rfl, by simp [Expr.eval, Interpretation.unary, ha]⟩
  | arith a left right =>
    obtain ⟨x, y, rfl, hx, hy⟩ := eval_two_operands hvs
    refine ⟨I.arith a x y, rfl, ?_⟩
    simp [Expr.apply, Expr.eval, hx, hy, arith_eq_binary]
  | ldelem type array position =>
    obtain ⟨x, y, rfl, hx, hy⟩ := eval_two_operands hvs
    exact ⟨I.index x y, rfl, by simp [Expr.eval, hx, hy]⟩
  | callStatic method es hop hstatic hlen =>
    exact eval_call hop (by simp [hstatic]) hlen hvs
  | callInstance method receiver es hop hstatic hlen =>
    exact eval_call hop (by simp [hstatic]) hlen hvs
  | newobj ctor es hlen =>
    refine ⟨I.construct ctor vs, rfl, ?_⟩
    simp [Expr.eval, evalAll_passed hlen hvs]

end Builds

/-! ## Simulation -/

/-- Each expression that the machine holds has the value that the frame holds
    in its place. -/
structure Represents (m : Machine) (s : Frame D) : Prop where
  stack : m.stack.items.map (Expr.eval I env) = s.stack.map some
  locals : m.locals.map (Option.map (Expr.eval I env)) = s.locals.map (Option.map some)
  arguments : m.argumentValues.map (Expr.eval I env) = s.arguments.map some

namespace Represents

variable {I} {env} {m m' : Machine} {s : Frame D} {op : Operation}

theorem withItems (h : Represents I env m s) {items : List Expr} {stack : List D}
    (hstack : items.map (Expr.eval I env) = stack.map some) :
    Represents I env (m.withItems items) { s with stack } :=
  ⟨hstack, h.locals, h.arguments⟩

/-- Putting an expression on one stack is putting its value on the other. -/
theorem push (h : Represents I env m s) {e : Expr} {v : D} (he : e.eval I env = some v)
    (hput : m.Replaces [] e m') : Represents I env m' { s with stack := v :: s.stack } := by
  obtain ⟨rest, hitems, -, rfl⟩ := hput
  -- Nothing is taken from the stack.
  have hrest : rest = m.stack.items := hitems.symm
  apply h.withItems
  rw [List.map_cons, List.map_cons, he, hrest, h.stack]

/-- The values below the top of the stack. -/
theorem stack_eq_cons (h : Represents I env m s) {e : Expr} {rest : List Expr}
    (hitems : m.stack.items = e :: rest) :
    ∃ v vs, s.stack = v :: vs ∧ e.eval I env = some v ∧
      rest.map (Expr.eval I env) = vs.map some := by
  have hstack := h.stack
  rw [hitems, List.map_cons, eq_comm] at hstack
  obtain ⟨v, vs, hs, hv, hvs⟩ := List.map_eq_cons_iff.mp hstack
  exact ⟨v, vs, hs, hv.symm, hvs.symm⟩

theorem argument (h : Represents I env m s) {index : Nat} {e : Expr}
    (he : m.argumentValues[index]? = some e) :
    ∃ v, s.arguments[index]? = some v ∧ e.eval I env = some v := by
  have hindex : (m.argumentValues.map (Expr.eval I env))[index]? = some (e.eval I env) := by
    rw [List.getElem?_map, he]
    rfl
  rw [h.arguments, List.getElem?_map, Option.map_eq_some_iff] at hindex
  obtain ⟨v, hs, hv⟩ := hindex
  exact ⟨v, hs, hv.symm⟩

theorem localVariable (h : Represents I env m s) {index : Nat} {e : Expr}
    (he : m.locals[index]? = some (some e)) :
    ∃ v, s.locals[index]? = some (some v) ∧ e.eval I env = some v := by
  have hindex : (m.locals.map (Option.map (Expr.eval I env)))[index]? =
      some (some (e.eval I env)) := by
    rw [List.getElem?_map, he]
    rfl
  rw [h.locals, List.getElem?_map, Option.map_eq_some_iff] at hindex
  obtain ⟨value, hs, hvalue⟩ := hindex
  obtain ⟨v, rfl, hv⟩ := Option.map_eq_some_iff.mp hvalue
  exact ⟨v, hs, hv.symm⟩

/-- A loading operation puts an expression on the stack of the machine and its
    value on the stack of the frame. -/
theorem step_load (h : Represents I env m s) {e : Expr} (hloaded : m.loaded? op = some e) :
    ∃ v, s.step I op = some { s with stack := v :: s.stack } ∧ e.eval I env = some v := by
  cases op with
  | ldarg index | ldarga index =>
    obtain ⟨v, hs, hv⟩ := h.argument hloaded
    refine ⟨v, ?_, hv⟩
    simp only [Frame.step, Frame.push, hs, Option.map_some]
  | ldloc index | ldloca index =>
    obtain ⟨v, hs, hv⟩ := h.localVariable (Option.join_eq_some_iff.mp hloaded)
    refine ⟨v, ?_, hv⟩
    simp only [Frame.step, Frame.push, hs, Option.join_some, Option.map_some]
  | _ => cases hloaded

/-- An operation that builds a node takes its operands from both stacks and
    puts the node on one and its value on the other. -/
theorem step_build (h : Represents I env m s) {operands : List Expr} {node : Expr}
    (hbuilds : op.Builds operands node) (hput : m.Replaces operands node m') :
    ∃ s', s.step I op = some s' ∧ Represents I env m' s' := by
  have hstep : s.step I op =
      if op.arity ≤ s.stack.length then
        Frame.push { s with stack := s.stack.drop op.arity }
          (I.compute op (s.stack.take op.arity).reverse)
      else none := by
    cases hbuilds with
    | staticField f hop | field f e hop | callStatic method es hop
    | callInstance method receiver es hop => rcases hop with rfl | rfl <;> rfl
    | _ => rfl
  obtain ⟨rest, hitems, -, rfl⟩ := hput
  -- The values on top are those of the operands, the last one first.
  have hstack := h.stack
  rw [hitems, List.map_append, eq_comm] at hstack
  obtain ⟨top, below, hs, htop, hbelow⟩ := List.map_eq_append_iff.mp hstack
  have hlen : op.arity = top.length := by
    have hmap := congrArg List.length htop
    rw [List.length_map, List.length_map, List.length_reverse] at hmap
    rw [hbuilds.effect.1, hmap]
  have hvs : operands.map (Expr.eval I env) = top.reverse.map some := by
    rw [List.map_reverse, htop, List.map_reverse, List.reverse_reverse]
  obtain ⟨v, hcompute, hv⟩ := hbuilds.eval_eq hvs
  refine ⟨{ s with stack := v :: below }, ?_, h.withItems ?_⟩
  · rw [hstep, hs, hlen, if_pos (by simp), List.take_left, List.drop_left, hcompute]
    rfl
  · rw [List.map_cons, List.map_cons, hv, hbelow]

/-- The frame can follow every step of the machine but the last. -/
theorem step (h : Represents I env m s) (hop : op ≠ .ret) (hstep : m.Step op m') :
    ∃ s', s.step I op = some s' ∧ Represents I env m' s' := by
  cases hstep with
  | nop => exact ⟨s, rfl, h⟩
  | dup e rest hitems hput =>
    obtain ⟨v, vs, hs, hv, -⟩ := h.stack_eq_cons hitems
    refine ⟨{ s with stack := v :: s.stack }, ?_, h.push hv hput⟩
    simp only [Frame.step, Frame.push, hs, List.head?_cons, Option.map_some]
  | pop e rest hitems =>
    obtain ⟨v, vs, hs, -, hvs⟩ := h.stack_eq_cons hitems
    refine ⟨{ s with stack := vs }, ?_, h.withItems hvs⟩
    simp [Frame.step, hs]
  | ret => exact absurd rfl hop
  | load e hloaded hput =>
    obtain ⟨v, hs, hv⟩ := h.step_load hloaded
    exact ⟨_, hs, h.push hv hput⟩
  | @storeArgument _ _ index e rest hitems hset =>
    obtain ⟨v, vs, hs, hv, hvs⟩ := h.stack_eq_cons hitems
    obtain ⟨hlt, harguments, receiver, arguments, rfl⟩ := Machine.setArgument_ok hset
    have hlen := congrArg List.length h.arguments
    rw [List.length_map, List.length_map] at hlen
    have hindex : index.toNat < s.arguments.length := hlen ▸ hlt
    refine ⟨{ s with stack := vs, arguments := s.arguments.set index.toNat v }, ?_,
      hvs, h.locals, ?_⟩
    · simp only [Frame.step, hs, if_pos hindex]
    · rw [harguments, Machine.withItems_argumentValues, List.map_set, h.arguments, hv,
        List.map_set]
  | @storeLocal _ _ index e rest hitems hset =>
    obtain ⟨v, vs, hs, hv, hvs⟩ := h.stack_eq_cons hitems
    obtain ⟨hlt, rfl⟩ := Machine.setLocalVariable_ok_iff.mp hset
    have hlen := congrArg List.length h.locals
    rw [List.length_map, List.length_map] at hlen
    have hindex : index.toNat < s.locals.length := hlen ▸ hlt
    refine ⟨{ s with stack := vs, locals := s.locals.set index.toNat (some v) }, ?_,
      hvs, ?_, h.arguments⟩
    · simp only [Frame.step, hs, if_pos hindex]
    · rw [Machine.withItems_locals, List.map_set, h.locals, Option.map_some, hv, List.map_set,
        Option.map_some]
  | build hbuilds hput => exact h.step_build hbuilds hput

end Represents

/-- Executing the operations in the frame leads to one that the machine
    represents. -/
def Follows (s : Frame D) (done : List Operation) (m : Machine) : Prop :=
  ∃ s', Represents I env m s' ∧ ∀ rest, s.run I (done ++ rest) = s'.run I rest

namespace Follows

variable {I} {env} {m m' : Machine} {s : Frame D} {op : Operation}

theorem step {done : List Operation} (hop : op ≠ .ret) (h : Follows I env s done m)
    (hstep : m.Step op m') : Follows I env s (done ++ [op]) m' := by
  obtain ⟨t, hrep, hrun⟩ := h
  obtain ⟨t', ht, hrep'⟩ := hrep.step hop hstep
  refine ⟨t', hrep', ?_⟩
  intro rest
  have hcons : t.run I (op :: rest) = (t.step I op).bind (Frame.run I rest) := by
    cases op with
    | ret => exact absurd rfl hop
    | _ => rfl
  rw [List.append_assoc, hrun, List.singleton_append, hcons, ht]
  rfl

/-- The frame can follow every run of the machine up to its last step. -/
theorem run {ops : List Operation} (hrep : Represents I env m s) (hops : .ret ∉ ops)
    (hrun : m.Run ops m') : Follows I env s ops m' := by
  have hstart : Follows I env s [] m := ⟨s, hrep, fun _ => rfl⟩
  have hsteps : ∀ done op m m', op ≠ .ret → Follows I env s done m → Machine.Step op m m' →
      Follows I env s (done ++ [op]) m' := fun _ _ _ _ => step
  have hallowed : ∀ op ∈ ops, op ≠ .ret := by
    intro op hmem hop
    exact hops (hop ▸ hmem)
  exact hrun.invariant hsteps hallowed hstart

end Follows

/-! ## Lifting -/

/-- Distinct names find the values that they stand beside. -/
theorem map_lookup_zip {names : List String} {values : List D} (hnames : names.Nodup)
    (hlen : values.length = names.length) :
    names.map (fun name => (names.zip values).lookup name) = values.map some := by
  induction names generalizing values with
  | nil =>
    rw [List.length_eq_zero_iff.mp hlen]
    rfl
  | cons name names ih =>
    cases values with
    | nil => cases hlen
    | cons value values =>
      obtain ⟨hfresh, hnames⟩ := List.nodup_cons.mp hnames
      have hrest := ih hnames (Nat.succ.inj hlen)
      rw [List.zip_cons_cons, List.map_cons, List.map_cons, List.lookup_cons_self, ← hrest]
      -- The other names do not stop at the first one.
      congr 1
      apply List.map_congr_left
      intro other hmem
      have hne : (other == name) = false := by
        rw [beq_eq_false_iff_ne]
        intro heq
        exact hfresh (heq ▸ hmem)
      rw [List.lookup_cons, hne]

/-- The inputs have the values given to them. -/
theorem eval_inputs {d : Delegate} {values : List D} (hnames : (d.inputs.map (·.name)).Nodup)
    (hlen : values.length = d.inputs.length) :
    (d.inputs.map Expr.parameter).map (Expr.eval I (d.environment values)) =
      values.map some := by
  have hlookup := map_lookup_zip hnames (by rw [hlen, List.length_map])
  rw [← hlookup, List.map_map, List.map_map]
  apply List.map_congr_left
  intro p _
  simp only [Function.comp_apply, Expr.eval, Delegate.environment]

/-- Before anything is executed, the machine represents the frame of the same
    arguments. -/
theorem represents_initial {d : Delegate} {values : List D}
    (hnames : (d.inputs.map (·.name)).Nodup) (hlen : values.length = d.inputs.length) :
    Represents I (d.environment values) (.initial d) (.initial I d values) := by
  refine ⟨rfl, ?_, ?_⟩
  · unfold Machine.initial Frame.initial
    rw [List.map_map, List.map_map]
    apply List.map_congr_left
    intro type _
    unfold Method.initialLocal
    by_cases hinit : d.method.initLocals
    · simp [hinit, Expr.eval]
    · simp [hinit]
  · have hinputs := eval_inputs I hnames hlen
    rw [Machine.initial_argumentValues]
    unfold Delegate.argumentNodes Delegate.receiver Frame.initial Delegate.bound?
    unfold Delegate.inputs at hinputs
    by_cases hstatic : d.method.isStatic
    · simpa [hstatic] using hinputs
    · cases htarget : d.target with
      | none => simpa [hstatic, htarget] using hinputs
      | some target => simpa [hstatic, htarget, Expr.eval] using hinputs

/-- Where a method is lifted, executing it on any values of its inputs returns
    the value that the body of the lifted function has under these values. -/
theorem lift_preserves_meaning {r : Resolver} {d : Delegate} {ps : List Param} {body : Expr}
    {type : Ty} (hlift : d.lift r = .ok (.lambda ps body type))
    (hnames : (d.inputs.map (·.name)).Nodup) (values : List D)
    (hlen : values.length = d.inputs.length) :
    ∃ v, d.result I r values = some v ∧ body.eval I (d.environment values) = some v := by
  obtain ⟨ops, m, body', -, hops, hret, hrun, hitems, hlambda⟩ := lift_ok_iff.mp hlift
  obtain ⟨-, rfl, -⟩ := Expr.lambda.inj hlambda
  obtain ⟨s, hrep, hvalues⟩ := Follows.run (represents_initial I hnames hlen) hret hrun
  obtain ⟨v, vs, hs, hv, hrest⟩ := hrep.stack_eq_cons hitems
  refine ⟨v, ?_, hv⟩
  -- The frame has come to `ret` with the body's value alone on its stack.
  rw [Delegate.result, hops, hvalues]
  rw [List.map_eq_nil_iff.mp hrest.symm] at hs
  simp only [Frame.run, hs]

/-! ### A method that rebinds its parameter -/

namespace RangeOffset

def start : FieldRef where
  declaringType := "Range"
  name := "Start"
  type := .prim .int32
  attributes := ⟨0⟩

def resolver : Resolver :=
  (SymbolTable.ofList [(⟨0x04000001⟩, .field start)]).resolver

/-- The parameter is squared in place, added to the field, and the sum goes
    through a local variable. -/
def code : List Instruction :=
  [⟨.ldargS, (1 : UInt8)⟩, ⟨.dup, ()⟩, ⟨.arith .mul, ()⟩, ⟨.stargS, (1 : UInt8)⟩,
    ⟨.ldargS, (0 : UInt8)⟩, ⟨.ldfld, (⟨0x04000001⟩ : Token)⟩, ⟨.ldargS, (1 : UInt8)⟩,
    ⟨.arith .add, ()⟩, ⟨.stlocS, (0 : UInt8)⟩, ⟨.ldlocS, (0 : UInt8)⟩, .ret]

def delegate : Delegate where
  type := .prim .object
  method :=
    { declaringType := .prim .object
      parameters := [⟨"x", .prim .int32⟩]
      attributes := ⟨0⟩
      code := Instruction.encodeAll code
      maxStack := 2
      locals := [.prim .int32]
      initLocals := true }
  target := none

def body : Expr :=
  .binary .add (.field (some (.parameter ⟨"this", .prim .object⟩)) start)
    (.binary .multiply (.parameter ⟨"x", .prim .int32⟩) (.parameter ⟨"x", .prim .int32⟩)
      (.prim .int32))
    (.prim .int32)

/-- Integers, with every operator but the two that the method uses left at
    zero. A range is its start. -/
def integers : Interpretation Int where
  constant _ := 0
  staticField _ := 0
  field _ range := range
  binary
    | .add, a, b => a + b
    | .multiply, a, b => a * b
    | _, _, _ => 0
  negate _ := 0
  not _ := 0
  convert _ a := a
  typeAs _ a := a
  arrayLength _ := 0
  call _ _ _ := 0
  construct _ _ := 0
  newArray _ _ := 0
  index _ _ := 0

theorem lift_code :
    delegate.lift resolver = .ok (.lambda [⟨"x", .prim .int32⟩] body (.prim .object)) := by
  have hrun : Machine.Run
      [.ldarg 1, .dup, .arith .mul, .starg 1, .ldarg 0, .ldfld start, .ldarg 1, .arith .add,
        .stloc 0, .ldloc 0] (.initial delegate) _ :=
    .load rfl (by decide) <|
    .cons (.dup _ _ rfl ⟨_, rfl, by decide, rfl⟩) <|
    .build (.arith .mul _ _) rfl (by decide) <|
    .cons (.storeArgument _ _ rfl rfl) <|
    .load rfl (by decide) <|
    .build (.field start _ (.inl rfl)) rfl (by decide) <|
    .load rfl (by decide) <|
    .build (.arith .add _ _) rfl (by decide) <|
    .cons (.storeLocal _ _ rfl rfl) <|
    .load rfl (by decide) <|
    .nil _
  exact lift_of_run rfl rfl rfl hrun rfl

theorem result_delegate :
    delegate.lift resolver = .ok (.lambda [⟨"x", .prim .int32⟩] body (.prim .object)) ∧
      (delegate.inputs.map (·.name)).Nodup ∧
      delegate.result integers resolver [3, 5] = some 28 ∧
      body.eval integers (delegate.environment [3, 5]) = some 28 := by
  have hnames : (delegate.inputs.map (·.name)).Nodup := by decide
  have htrace : Trace.ofCode resolver delegate.method.code = _ :=
    Trace.ofCode_encodeAll resolver code
  have hvalue : delegate.result integers resolver [3, 5] = some 28 := by
    rw [Delegate.result, htrace]
    decide +kernel
  obtain ⟨v, hresult, heval⟩ := lift_preserves_meaning integers lift_code hnames [3, 5] rfl
  rw [hvalue] at hresult
  cases hresult
  exact ⟨lift_code, hnames, hvalue, heval⟩

end RangeOffset

end CilLift
