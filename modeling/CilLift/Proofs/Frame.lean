import CilLift.Proofs.Resumption
import Mathlib.Data.List.Infix
import Mathlib.Data.List.MinMax
import Mathlib.Order.Nat

/-! # Frames of a method

    The frame of a method says how deep its stack may get, which local variables
    it has and whether these start with a value. It has no part in what the
    method computes: a machine with more room makes the steps of one with less
    (`FitsIn.step`).

    With less room a step is the same or the stack overflows. An operation takes
    all its operands before it puts its one result, so a step that makes the
    stack deeper takes nothing, and what overflows there is a single push
    (`Step.run_eq_push`). So the depths between operations are all that matter.

    Main statement: `lift_frame` says that a method which is lifted is lifted to
    the same function in every roomier frame, and that with another bound on its
    stack it overflows exactly when the bound is below the greatest depth that
    the method reaches.
-/

namespace CilLift

namespace Machine

variable {m m' roomy : Machine} {op : Operation} {ops : List Operation}

/-! ## More room -/

/-- The second machine holds the same values and has at least as much room on
    its stack. It may have more local variables, and some that the first has
    never stored may have a value. -/
structure FitsIn (m roomy : Machine) : Prop where
  items : roomy.stack.items = m.stack.items
  capacity : m.stack.capacity ≤ roomy.stack.capacity
  count : m.locals.length ≤ roomy.locals.length
  locals : ∀ (index : Nat) (e : Expr), m.locals[index]? = some (some e) →
    roomy.locals[index]? = some (some e)
  arguments : roomy.arguments = m.arguments
  receiver : roomy.receiver = m.receiver
  parameters : roomy.parameters = m.parameters
  resultType : roomy.resultType = m.resultType

namespace FitsIn

theorem withItems (h : FitsIn m roomy) (items : List Expr) :
    FitsIn (m.withItems items) (roomy.withItems items) :=
  ⟨rfl, h.capacity, h.count, h.locals, h.arguments, h.receiver, h.parameters, h.resultType⟩

theorem replaces (h : FitsIn m roomy) {operands : List Expr} {node : Expr}
    (hput : m.Replaces operands node m') :
    ∃ roomy', roomy.Replaces operands node roomy' ∧ FitsIn m' roomy' := by
  obtain ⟨rest, hitems, hroom, rfl⟩ := hput
  have hcapacity := h.capacity
  exact ⟨_, ⟨rest, h.items.trans hitems, by omega, rfl⟩, h.withItems (node :: rest)⟩

theorem loaded? (h : FitsIn m roomy) {e : Expr} (hloaded : m.loaded? op = some e) :
    roomy.loaded? op = some e := by
  have hvalues : roomy.argumentValues = m.argumentValues := by
    unfold argumentValues
    rw [h.receiver, h.arguments]
  cases op with
  | ldarg index | ldarga index =>
    show roomy.argumentValues[index.toNat]? = some e
    rw [hvalues]
    exact hloaded
  | ldloc index | ldloca index =>
    have hset : m.locals[index.toNat]? = some (some e) := Option.join_eq_some_iff.mp hloaded
    exact Option.join_eq_some_iff.mpr (h.locals index.toNat e hset)
  | _ => cases hloaded

theorem setArgument (h : FitsIn m roomy) {index : Nat} {value : Expr}
    (hset : m.setArgument index value = .ok m') :
    ∃ roomy', roomy.setArgument index value = .ok roomy' ∧ FitsIn m' roomy' := by
  refine ⟨_, setArgument_of_same hset h.receiver h.arguments, ?_⟩
  obtain ⟨-, -, receiver, arguments, rfl⟩ := setArgument_ok hset
  exact ⟨h.items, h.capacity, h.count, h.locals, rfl, rfl, h.parameters, h.resultType⟩

theorem setLocalVariable (h : FitsIn m roomy) {index : Nat} {value : Expr}
    (hset : m.setLocalVariable index value = .ok m') :
    ∃ roomy', roomy.setLocalVariable index value = .ok roomy' ∧ FitsIn m' roomy' := by
  obtain ⟨hlt, rfl⟩ := setLocalVariable_ok_iff.mp hset
  have hlt' : index < roomy.locals.length := Nat.lt_of_lt_of_le hlt h.count
  refine ⟨_, setLocalVariable_ok_iff.mpr ⟨hlt', rfl⟩, ?_⟩
  refine ⟨h.items, h.capacity, ?_, ?_, h.arguments, h.receiver, h.parameters, h.resultType⟩
  · simpa using h.count
  · intro other e hother
    by_cases heq : index = other
    · -- What was just stored is the same on both sides.
      subst heq
      simp only [List.getElem?_set_self hlt] at hother
      simpa only [List.getElem?_set_self hlt'] using hother
    · simp only [List.getElem?_set_ne heq] at hother ⊢
      exact h.locals other e hother

/-- A machine with more room makes every step of one with less. -/
theorem step (h : FitsIn m roomy) (hstep : Step op m m') :
    ∃ roomy', Step op roomy roomy' ∧ FitsIn m' roomy' := by
  cases hstep with
  | nop => exact ⟨roomy, .nop roomy, h⟩
  | dup e rest hitems hput =>
    obtain ⟨roomy', hput', hfits⟩ := h.replaces hput
    exact ⟨roomy', .dup e rest (h.items.trans hitems) hput', hfits⟩
  | pop e rest hitems => exact ⟨_, .pop e rest (h.items.trans hitems), h.withItems rest⟩
  | ret body hitems =>
    refine ⟨_, .ret body (h.items.trans hitems), ?_⟩
    exact ⟨rfl, h.capacity, h.count, h.locals, h.arguments, h.receiver, h.parameters,
      h.resultType⟩
  | load e hloaded hput =>
    obtain ⟨roomy', hput', hfits⟩ := h.replaces hput
    exact ⟨roomy', .load e (h.loaded? hloaded) hput', hfits⟩
  | storeArgument e rest hitems hset =>
    obtain ⟨roomy', hset', hfits⟩ := (h.withItems rest).setArgument hset
    exact ⟨roomy', .storeArgument e rest (h.items.trans hitems) hset', hfits⟩
  | storeLocal e rest hitems hset =>
    obtain ⟨roomy', hset', hfits⟩ := (h.withItems rest).setLocalVariable hset
    exact ⟨roomy', .storeLocal e rest (h.items.trans hitems) hset', hfits⟩
  | build hbuilds hput =>
    obtain ⟨roomy', hput', hfits⟩ := h.replaces hput
    exact ⟨roomy', .build hbuilds hput', hfits⟩

theorem run (h : FitsIn m roomy) (hrun : Run ops m m') :
    ∃ roomy', Run ops roomy roomy' ∧ FitsIn m' roomy' := by
  induction hrun generalizing roomy with
  | nil => exact ⟨roomy, .nil roomy, h⟩
  | cons first rest ih =>
    obtain ⟨next, hfirst, hnext⟩ := h.step first
    obtain ⟨roomy', hrest, hfits⟩ := ih hnext
    exact ⟨roomy', .cons hfirst hrest, hfits⟩

end FitsIn

/-! ## Another bound on the stack -/

/-- The machine with another bound on its stack. -/
def withCapacity (m : Machine) (capacity : Nat) : Machine :=
  { m with stack := ⟨capacity, m.stack.items⟩ }

variable {capacity : Nat}

theorem Replaces.withCapacity {operands : List Expr} {node : Expr}
    (h : m.Replaces operands node m') (hroom : m'.stack.items.length ≤ capacity) :
    (m.withCapacity capacity).Replaces operands node (m'.withCapacity capacity) := by
  obtain ⟨rest, hitems, -, rfl⟩ := h
  exact ⟨rest, hitems, hroom, rfl⟩

/-- A step stays the same under a bound that its result keeps to. -/
theorem Step.withCapacity (h : Step op m m') (hroom : m'.stack.items.length ≤ capacity) :
    Step op (m.withCapacity capacity) (m'.withCapacity capacity) := by
  cases h with
  | nop => exact .nop _
  | dup e rest hitems hput => exact .dup e rest hitems (hput.withCapacity hroom)
  | pop e rest hitems => exact .pop e rest hitems
  | ret body hitems => exact .ret body hitems
  | load e hloaded hput =>
    refine .load e ?_ (hput.withCapacity hroom)
    rw [← hloaded]
    cases op <;> rfl
  | storeArgument e rest hitems hset =>
    refine .storeArgument e rest hitems ?_
    obtain ⟨-, -, receiver, arguments, hm'⟩ := setArgument_ok hset
    rw [setArgument_of_same (n := (m.withCapacity capacity).withItems rest) hset rfl rfl, hm']
    rfl
  | storeLocal e rest hitems hset =>
    obtain ⟨hlt, rfl⟩ := setLocalVariable_ok_iff.mp hset
    exact .storeLocal e rest hitems (setLocalVariable_ok_iff.mpr ⟨hlt, rfl⟩)
  | build hbuilds hput => exact .build hbuilds (hput.withCapacity hroom)

/-! ## Overflow -/

theorem run_takeArguments_nil (m : Machine) : (takeArguments []).run m = .ok [] m := by
  have hpop : (popN 0).run m = .ok [] m := run_popN 0 m
  simp only [takeArguments, List.length_nil, EStateM.run_bind, hpop]
  rfl

/-- An operation that builds a node of no operands only pushes it. -/
theorem run_execute_of_builds_nil {node : Expr} (h : op.Builds [] node) (m : Machine) :
    (execute op).run m = (push node).run m := by
  cases h with
  | ldnull | ldcI4 | ldcI8 | ldcR4 | ldcR8 | ldstr => rfl
  | staticField f hop => rcases hop with rfl | rfl <;> rfl
  | callStatic method es hop hstatic hlen =>
    have hparameters : method.parameters = [] := List.eq_nil_of_length_eq_zero hlen.symm
    have hcall : (callMethod method).run m = (push (.call none method [])).run m := by
      simp only [callMethod, hparameters, hstatic, if_true, EStateM.run_bind,
        run_takeArguments_nil]
    rcases hop with rfl | rfl <;> exact hcall
  | newobj ctor es hlen =>
    have hparameters : ctor.parameters = [] := List.eq_nil_of_length_eq_zero hlen.symm
    show (construct ctor).run m = (push (.new ctor [])).run m
    simp only [construct, hparameters, EStateM.run_bind, run_takeArguments_nil]

/-- An operation that makes the stack deeper pushes one value and does nothing
    else, whatever the bound is. -/
theorem Step.run_eq_push (h : Step op m m')
    (hdeeper : m.stack.items.length < m'.stack.items.length) (capacity : Nat) :
    ∃ e, (execute op).run (m.withCapacity capacity) =
      (push e).run (m.withCapacity capacity) := by
  cases h with
  | nop => omega
  | dup e rest hitems hput =>
    have hpeek : peek.run (m.withCapacity capacity) = .ok e (m.withCapacity capacity) :=
      peek_ok_iff.mpr ⟨⟨rest, hitems⟩, rfl⟩
    refine ⟨e, ?_⟩
    simp only [execute, EStateM.run_bind, hpeek]
  | pop e rest hitems =>
    rw [hitems, List.length_cons, withItems_items] at hdeeper
    omega
  | ret body hitems => exact absurd hdeeper (Nat.not_lt_zero _)
  | load e hloaded hput =>
    refine ⟨e, ?_⟩
    cases op with
    | ldarg index | ldarga index =>
      have hvalue : (m.withCapacity capacity).argument index.toNat = .ok e :=
        argument_ok_iff.mpr hloaded
      simp only [execute, Machine.load, EStateM.run_bind, EStateM.run_get, hvalue]
    | ldloc index | ldloca index =>
      have hvalue : (m.withCapacity capacity).localVariable index.toNat = .ok e :=
        localVariable_ok_iff.mpr (Option.join_eq_some_iff.mp hloaded)
      simp only [execute, Machine.load, EStateM.run_bind, EStateM.run_get, hvalue]
    | _ => cases hloaded
  | storeArgument e rest hitems hset =>
    obtain ⟨-, -, receiver, arguments, rfl⟩ := setArgument_ok hset
    rw [hitems, List.length_cons, withItems_items] at hdeeper
    omega
  | storeLocal e rest hitems hset =>
    obtain ⟨-, rfl⟩ := setLocalVariable_ok_iff.mp hset
    rw [hitems, List.length_cons, withItems_items] at hdeeper
    omega
  | @build _ _ _ operands node hbuilds hput =>
    obtain ⟨rest, hitems, -, rfl⟩ := hput
    -- One operand would have made room for the node.
    have hnone : operands = [] := by
      rw [hitems, withItems_items, List.length_append, List.length_reverse,
        List.length_cons] at hdeeper
      exact List.eq_nil_of_length_eq_zero (by omega)
    subst hnone
    exact ⟨node, run_execute_of_builds_nil hbuilds _⟩

/-- A step that leads beyond a bound overflows under that bound. -/
theorem Step.overflows (h : Step op m m') (hbefore : m.stack.items.length ≤ capacity)
    (hafter : capacity < m'.stack.items.length) :
    (execute op).run (m.withCapacity capacity) =
      .error (.stack m.offset (.overflow capacity)) (m.withCapacity capacity) := by
  have hdeeper : m.stack.items.length < m'.stack.items.length := by omega
  obtain ⟨e, hpush⟩ := h.run_eq_push hdeeper capacity
  have hfull : ¬ (m.withCapacity capacity).stack.items.length <
      (m.withCapacity capacity).stack.capacity := by
    show ¬ m.stack.items.length < capacity
    -- A step adds at most one value.
    have hlength := h.length_items
    have hresults : op.results ≤ op.arity + 1 := by
      cases op <;> simp [Operation.results, Operation.arity]
    omega
  rw [hpush, run_push, if_neg hfull]
  rfl

/-! ## Depths of an execution -/

/-- The depths that the stack has before, between and after some calls. -/
def depths (m : Machine) (calls : List Call) : List Nat :=
  calls.inits.map fun made => (consumer.afterAll m made).stack.depth

theorem depths_cons (m : Machine) (call : Call) (calls : List Call) :
    m.depths (call :: calls) = m.stack.depth :: (consumer.after m call).depths calls := by
  rw [depths, List.inits_cons, List.map_cons, List.map_map]
  rfl

/-- A call that is accepted is accepted in the same way under another bound, or
    it makes the stack deeper than the bound and overflows. -/
theorem call_withCapacity {call : Call} (h : (consumer.call call).run m = .ok () m')
    (hbefore : m.stack.depth ≤ capacity) :
    m'.stack.depth ≤ capacity ∧
        (consumer.call call).run (m.withCapacity capacity) = .ok () (m'.withCapacity capacity) ∨
      capacity < m'.stack.depth ∧
        ∃ offset s, (consumer.call call).run (m.withCapacity capacity) =
          .error (.stack offset (.overflow capacity)) s := by
  cases call with
  | observe offset i =>
    cases h
    exact .inl ⟨hbefore, rfl⟩
  | perform op =>
    have hstep : Step op m m' := execute_ok_iff.mp h
    by_cases hafter : m'.stack.depth ≤ capacity
    · exact .inl ⟨hafter, execute_ok_iff.mpr (hstep.withCapacity hafter)⟩
    · right
      have hbeyond : capacity < m'.stack.depth := Nat.lt_of_not_le hafter
      exact ⟨hbeyond, _, _, hstep.overflows hbefore hbeyond⟩

/-- Calls that are all accepted are so under another bound, or the stack gets
    deeper than the bound somewhere and overflows there. -/
theorem callAll_withCapacity {calls : List Call} (h : (consumer.callAll calls).run m = .ok () m')
    (hbefore : m.stack.depth ≤ capacity) :
    (∀ depth ∈ m.depths calls, depth ≤ capacity) ∧
        (consumer.callAll calls).run (m.withCapacity capacity) =
          .ok () (m'.withCapacity capacity) ∨
      (∃ depth ∈ m.depths calls, capacity < depth) ∧
        ∃ offset s, (consumer.callAll calls).run (m.withCapacity capacity) =
          .error (.stack offset (.overflow capacity)) s := by
  induction calls generalizing m with
  | nil =>
    cases h
    left
    refine ⟨?_, rfl⟩
    intro depth hdepth
    rw [List.mem_singleton.mp hdepth]
    exact hbefore
  | cons call calls ih =>
    obtain ⟨⟨⟩, next, hcall, hrest⟩ := run_bind_ok_iff.mp h
    rw [depths_cons, Consumer.after_of_ok hcall]
    rcases call_withCapacity hcall hbefore with ⟨hnext, hok⟩ | ⟨hbeyond, offset, s, herror⟩
    · rw [Consumer.callAll, EStateM.run_bind, hok]
      rcases ih hrest hnext with ⟨hwithin, hok⟩ | ⟨⟨depth, hdepth, hbeyond⟩, herror⟩
      · exact .inl ⟨List.forall_mem_cons.mpr ⟨hbefore, hwithin⟩, hok⟩
      · exact .inr ⟨⟨depth, List.mem_cons_of_mem _ hdepth, hbeyond⟩, herror⟩
    · right
      refine ⟨⟨next.stack.depth, List.mem_cons_of_mem _ ?_, hbeyond⟩, offset, s, ?_⟩
      · -- The depth after no further call is the first of the rest.
        exact List.mem_map.mpr ⟨[], (List.mem_inits _ _).mpr List.nil_prefix, rfl⟩
      · exact run_bind_error_iff.mpr (.inl herror)

end Machine

/-! ## Frames -/

namespace Delegate

variable {r : Resolver} {d : Delegate}

/-- The delegate with another frame. -/
def withFrame (d : Delegate) (maxStack : Nat) (locals : List Ty) (initLocals : Bool) : Delegate :=
  { d with method := { d.method with maxStack, locals, initLocals } }

/-- The greatest depth that the stack has while the calls of the code are
    made. -/
def greatestDepth (r : Resolver) (d : Delegate) : Nat :=
  ((Machine.initial d).depths (Trace.ofCode r d.method.code).calls).foldr max 0

theorem greatestDepth_le_iff {capacity : Nat} :
    d.greatestDepth r ≤ capacity ↔
      ∀ depth ∈ (Machine.initial d).depths (Trace.ofCode r d.method.code).calls,
        depth ≤ capacity := by
  constructor
  · intro h depth hdepth
    exact (List.le_max_of_le hdepth (le_refl depth)).trans h
  · intro h
    exact List.max_le_of_forall_le _ capacity h

/-- A fault of the calls is the fault of lifting. -/
theorem lift_of_callAll_error {fault : Fault} {s : Machine}
    (h : (Machine.consumer.callAll (Trace.ofCode r d.method.code).calls).run (.initial d) =
      .error fault s) : d.lift r = .error fault := by
  unfold lift
  rw [Consumer.feed_eq_follow, Consumer.follow, EStateM.run_bind, h]

/-- A method starts in a roomier frame as it starts in its own. -/
theorem initial_fitsIn {maxStack : Nat} (hstack : d.method.maxStack ≤ maxStack) (extra : List Ty)
    {initLocals : Bool} (hinit : d.method.initLocals = true → initLocals = true) :
    Machine.FitsIn (.initial d)
      (.initial (d.withFrame maxStack (d.method.locals ++ extra) initLocals)) := by
  refine ⟨rfl, hstack, ?_, ?_, rfl, rfl, rfl, rfl⟩
  · show (d.method.locals.map _).length ≤ ((d.method.locals ++ extra).map _).length
    simp
  · intro index e h
    obtain ⟨type, htype, hvalue⟩ : ∃ type, d.method.locals[index]? = some type ∧
        d.method.initialLocal type = some e := by
      simpa [Machine.initial, List.getElem?_map, Option.map_eq_some_iff] using h
    have hlt : index < d.method.locals.length := (List.getElem?_eq_some_iff.mp htype).1
    have htype' : (d.method.locals ++ extra)[index]? = some type := by
      rw [List.getElem?_append_left hlt, htype]
    -- A variable that had a value had it because all of them start with one.
    have hset : d.method.initLocals = true := by
      by_contra hunset
      simp [Method.initialLocal, hunset] at hvalue
    have hvalue' : (d.withFrame maxStack (d.method.locals ++ extra) initLocals).method.initialLocal
        type = some e := by
      rw [← hvalue]
      simp [Method.initialLocal, withFrame, hset, hinit hset]
    show ((d.method.locals ++ extra).map _)[index]? = some (some e)
    rw [List.getElem?_map, htype', Option.map_some, hvalue']

theorem lift_of_roomier {tree : Expr} (h : d.lift r = .ok tree) {maxStack : Nat}
    (hstack : d.method.maxStack ≤ maxStack) (extra : List Ty) {initLocals : Bool}
    (hinit : d.method.initLocals = true → initLocals = true) :
    (d.withFrame maxStack (d.method.locals ++ extra) initLocals).lift r = .ok tree := by
  obtain ⟨ops, m, body, hfault, hops, hnot, hrun, hitems, htree⟩ := lift_ok_iff.mp h
  obtain ⟨roomy, hrun', hfits⟩ := (initial_fitsIn hstack extra hinit).run hrun
  exact lift_ok_iff.mpr
    ⟨ops, roomy, body, hfault, hops, hnot, hrun', hfits.items.trans hitems, htree⟩

/-- Under another bound on the stack, a method that is lifted is lifted to the
    same function or overflows, depending on the greatest depth. -/
theorem lift_withCapacity {tree : Expr} (h : d.lift r = .ok tree) (capacity : Nat) :
    d.greatestDepth r ≤ capacity ∧
        (d.withFrame capacity d.method.locals d.method.initLocals).lift r = .ok tree ∨
      capacity < d.greatestDepth r ∧
        ∃ offset, (d.withFrame capacity d.method.locals d.method.initLocals).lift r =
          .error (.stack offset (.overflow capacity)) := by
  obtain ⟨hfault, m, hcalls, hresult⟩ := lift_ok_iff_callAll.mp h
  rcases Machine.callAll_withCapacity hcalls (Nat.zero_le capacity) with
    ⟨hwithin, hok⟩ | ⟨⟨depth, hdepth, hbeyond⟩, offset, s, herror⟩
  · left
    exact ⟨greatestDepth_le_iff.mpr hwithin, lift_ok_iff_callAll.mpr ⟨hfault, _, hok, hresult⟩⟩
  · right
    refine ⟨Nat.lt_of_not_le ?_, offset, lift_of_callAll_error herror⟩
    intro hle
    have hwithin := greatestDepth_le_iff.mp hle depth hdepth
    omega

end Delegate

/-- A method that is lifted is lifted to the same function in every roomier
    frame: with a higher bound on its stack, with more local variables, and with
    local variables that start with a value. With any other bound on its stack
    it is lifted to the same function or overflows at that bound, and the former
    exactly when the bound is no less than the greatest depth of its stack. -/
theorem lift_frame {r : Resolver} {d : Delegate} {tree : Expr} (h : d.lift r = .ok tree) :
    (∀ (maxStack : Nat) (extra : List Ty) (initLocals : Bool), d.method.maxStack ≤ maxStack →
      (d.method.initLocals = true → initLocals = true) →
        (d.withFrame maxStack (d.method.locals ++ extra) initLocals).lift r = .ok tree) ∧
    ∀ capacity : Nat,
      ((d.withFrame capacity d.method.locals d.method.initLocals).lift r = .ok tree ∨
        ∃ offset, (d.withFrame capacity d.method.locals d.method.initLocals).lift r =
          .error (.stack offset (.overflow capacity))) ∧
      ((d.withFrame capacity d.method.locals d.method.initLocals).lift r = .ok tree ↔
        d.greatestDepth r ≤ capacity) := by
  refine ⟨fun maxStack extra initLocals hstack hinit =>
    Delegate.lift_of_roomier h hstack extra hinit, ?_⟩
  intro capacity
  rcases Delegate.lift_withCapacity h capacity with ⟨hwithin, hok⟩ | ⟨hbeyond, offset, herror⟩
  · exact ⟨.inl hok, iff_of_true hok hwithin⟩
  · refine ⟨.inr ⟨offset, herror⟩, iff_of_false ?_ (Nat.not_le_of_lt hbeyond)⟩
    rw [herror]
    intro hcontra
    cases hcontra

/-! ### A sum of three numbers -/

namespace Summed

def number (v : Int32) : Expr := .constant (.int32 v) (.prim .int32)

/-- The stack has three values on it before the first addition. -/
def delegate : Delegate where
  type := .prim .object
  method :=
    { declaringType := .prim .object
      parameters := []
      attributes := ⟨0x0010⟩
      code := Instruction.encodeAll
        [⟨.ldcI4, (1 : Int32)⟩, ⟨.stlocS, (0 : UInt8)⟩, ⟨.ldlocS, (0 : UInt8)⟩,
          ⟨.ldcI4, (2 : Int32)⟩, ⟨.ldcI4, (3 : Int32)⟩, ⟨.arith .add, ()⟩, ⟨.arith .add, ()⟩,
          .ret]
      maxStack := 8
      locals := [.prim .int32]
      initLocals := false }
  target := none

def resolver : Resolver := (SymbolTable.ofList []).resolver

def tree : Expr :=
  .lambda [] (.apply .add (number 1) (.apply .add (number 2) (number 3))) (.prim .object)

theorem lift_summed : delegate.lift resolver = .ok tree := by
  have hrun : Machine.Run
      [.ldcI4 1, .stloc 0, .ldloc 0, .ldcI4 2, .ldcI4 3, .arith .add, .arith .add]
      (.initial delegate) _ :=
    .build (.ldcI4 1) rfl (by decide) <|
    .cons (.storeLocal _ _ rfl rfl) <|
    .load rfl (by decide) <|
    .build (.ldcI4 2) rfl (by decide) <|
    .build (.ldcI4 3) rfl (by decide) <|
    .build (.arith .add _ _) rfl (by decide) <|
    .build (.arith .add _ _) rfl (by decide) <|
    .nil _
  exact lift_of_run rfl rfl rfl hrun rfl

theorem greatestDepth_summed : delegate.greatestDepth resolver = 3 := by
  have htrace : Trace.ofCode resolver delegate.method.code = _ :=
    Trace.ofCode_encodeAll resolver _
  rw [Delegate.greatestDepth, htrace]
  decide +kernel

theorem frame_summed :
    delegate.lift resolver = .ok tree ∧
      (delegate.withFrame 9 [.prim .int32, .prim .string] true).lift resolver = .ok tree ∧
      (delegate.withFrame 3 [.prim .int32] false).lift resolver = .ok tree ∧
      ∃ offset, (delegate.withFrame 2 [.prim .int32] false).lift resolver =
        .error (.stack offset (.overflow 2)) := by
  obtain ⟨hroomier, hbound⟩ := lift_frame lift_summed
  refine ⟨lift_summed, hroomier 9 [.prim .string] true (by decide) (fun _ => rfl), ?_, ?_⟩
  · exact (hbound 3).2.mpr greatestDepth_summed.le
  · have hbeyond : ¬ delegate.greatestDepth resolver ≤ 2 := by
      rw [greatestDepth_summed]
      decide
    exact (hbound 2).1.resolve_left (mt (hbound 2).2.mp hbeyond)

end Summed

end CilLift
