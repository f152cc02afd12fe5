import CilLift.Machine

/-! # Steps of a machine

    What executing one operation can do to a machine when it succeeds, said
    once. Each operation of the machine gets a lemma that says exactly when it
    succeeds and what the machine is then. Operations that compute something
    all have one form: they put a node in place of the operands on top of the
    stack (`Replaces`), and `Operation.Builds` says which node.

    Main statement: `execute_ok_iff` says that an operation succeeds exactly
    along a `Step`.
-/

namespace CilLift

/-! ## Results of effects -/

/-- Two effects succeed one after the other when the first leads to a state in
    which the second succeeds. -/
theorem run_bind_ok_iff {ε σ α β : Type} {x : EStateM ε σ α} {f : α → EStateM ε σ β} {s s' : σ}
    {b : β} : (x >>= f).run s = .ok b s' ↔ ∃ a t, x.run s = .ok a t ∧ (f a).run t = .ok b s' := by
  rw [EStateM.run_bind]
  cases x.run s with
  | ok a t =>
    constructor
    · intro h
      exact ⟨a, t, rfl, h⟩
    · intro h
      obtain ⟨_, _, heq, h⟩ := h
      cases heq
      exact h
  | error fault t => simp

namespace Machine

/-! ## Machines with other values on the stack -/

/-- The machine with these values on its stack, the last pushed first. -/
def withItems (m : Machine) (items : List Expr) : Machine :=
  { m with stack := ⟨m.stack.capacity, items⟩ }

section Fields

variable (m : Machine) (items : List Expr)

@[simp] theorem withItems_items : (m.withItems items).stack.items = items := rfl

@[simp] theorem withItems_capacity : (m.withItems items).stack.capacity = m.stack.capacity := rfl

@[simp] theorem withItems_locals : (m.withItems items).locals = m.locals := rfl

@[simp] theorem withItems_parameters : (m.withItems items).parameters = m.parameters := rfl

@[simp] theorem withItems_arguments : (m.withItems items).arguments = m.arguments := rfl

@[simp] theorem withItems_receiver : (m.withItems items).receiver = m.receiver := rfl

@[simp] theorem withItems_resultType : (m.withItems items).resultType = m.resultType := rfl

@[simp] theorem withItems_result : (m.withItems items).result = m.result := rfl

@[simp] theorem withItems_withItems (others : List Expr) :
    (m.withItems items).withItems others = m.withItems others := rfl

@[simp] theorem withItems_self : m.withItems m.stack.items = m := rfl

end Fields

/-! ## The stack -/

theorem run_push (e : Expr) (m : Machine) :
    (push e).run m =
      if m.stack.items.length < m.stack.capacity then .ok () (m.withItems (e :: m.stack.items))
      else .error (.stack m.offset (.overflow m.stack.capacity)) m := by
  by_cases h : m.stack.items.length < m.stack.capacity
  · have hpush : m.stack.push e = .ok ⟨m.stack.capacity, e :: m.stack.items⟩ := if_pos h
    simp only [push, EStateM.run_bind, EStateM.run_get, hpush, if_pos h]
    rfl
  · have hpush : m.stack.push e = .error (.overflow m.stack.capacity) := if_neg h
    simp only [push, EStateM.run_bind, EStateM.run_get, hpush, if_neg h]
    rfl

theorem run_pop (m : Machine) :
    pop.run m =
      match m.stack.items with
      | [] => .error (.stack m.offset (.underflow 1 0)) m
      | e :: rest => .ok e (m.withItems rest) := by
  simp only [pop, EStateM.run_bind, EStateM.run_get, OperandStack.pop]
  cases m.stack.items <;> rfl

theorem run_peek (m : Machine) :
    peek.run m =
      match m.stack.items with
      | [] => .error (.stack m.offset (.underflow 1 0)) m
      | e :: _ => .ok e m := by
  simp only [peek, EStateM.run_bind, EStateM.run_get, OperandStack.peek]
  cases m.stack.items <;> rfl

theorem run_popN (count : Nat) (m : Machine) :
    (popN count).run m =
      if count ≤ m.stack.items.length then
        .ok (m.stack.items.take count).reverse (m.withItems (m.stack.items.drop count))
      else .error (.stack m.offset (.underflow count m.stack.items.length)) m := by
  by_cases h : count ≤ m.stack.items.length
  · have hpop : m.stack.popN count = .ok ((m.stack.items.take count).reverse,
        ⟨m.stack.capacity, m.stack.items.drop count⟩) := if_pos h
    simp only [popN, EStateM.run_bind, EStateM.run_get, hpop, if_pos h]
    rfl
  · have hpop : m.stack.popN count = .error (.underflow count m.stack.items.length) := if_neg h
    simp only [popN, EStateM.run_bind, EStateM.run_get, hpop, if_neg h]
    rfl

variable {m m' : Machine}

/-- The second machine is the first with `node` in place of the operands, the
    first pushed first, on top of its stack. -/
def Replaces (m : Machine) (operands : List Expr) (node : Expr) (m' : Machine) : Prop :=
  ∃ rest, m.stack.items = operands.reverse ++ rest ∧ rest.length < m.stack.capacity ∧
    m' = m.withItems (node :: rest)

theorem push_ok_iff {e : Expr} : (push e).run m = .ok () m' ↔ m.Replaces [] e m' := by
  rw [run_push]
  by_cases h : m.stack.items.length < m.stack.capacity
  · simp [Replaces, h, eq_comm]
  · simp [Replaces, h]

theorem pop_ok_iff {e : Expr} :
    pop.run m = .ok e m' ↔ ∃ rest, m.stack.items = e :: rest ∧ m' = m.withItems rest := by
  rw [run_pop]
  cases m.stack.items with
  | nil => simp
  | cons top rest =>
    constructor
    · intro h
      cases h
      exact ⟨rest, rfl, rfl⟩
    · intro h
      obtain ⟨_, hitems, rfl⟩ := h
      cases hitems
      rfl

theorem peek_ok_iff {e : Expr} :
    peek.run m = .ok e m' ↔ (∃ rest, m.stack.items = e :: rest) ∧ m' = m := by
  rw [run_peek]
  cases m.stack.items with
  | nil => simp
  | cons top rest => simp [eq_comm]

/-- Several values are taken exactly when there are enough, and then they are
    the values on top in the order they were pushed. -/
theorem popN_ok_iff {count : Nat} {es : List Expr} :
    (popN count).run m = .ok es m' ↔
      es.length = count ∧ ∃ rest, m.stack.items = es.reverse ++ rest ∧ m' = m.withItems rest := by
  rw [run_popN]
  constructor
  · intro h
    split at h
    · rename_i hle
      cases h
      refine ⟨by simp [hle], m.stack.items.drop count, ?_, rfl⟩
      rw [List.reverse_reverse, List.take_append_drop]
    · cases h
  · intro h
    obtain ⟨rfl, rest, hitems, rfl⟩ := h
    -- The items are split where the reversed list ends.
    have hlen : es.length = es.reverse.length := List.length_reverse.symm
    rw [hitems, if_pos (by simp), hlen, List.take_left, List.drop_left, List.reverse_reverse]

/-! ## Arguments and local variables -/

/-- The values of all arguments: the receiver's, if there is one, and those of
    the declared parameters. -/
def argumentValues (m : Machine) : List Expr :=
  m.receiver.toList ++ m.arguments

@[simp] theorem withItems_argumentValues (m : Machine) (items : List Expr) :
    (m.withItems items).argumentValues = m.argumentValues := rfl

theorem declared_ok_iff {index slot : Nat} {e : Expr} :
    m.declared index slot = .ok e ↔ m.arguments[slot]? = some e := by
  unfold declared
  cases m.arguments[slot]? with
  | none => simp
  | some a => simp

/-- An argument is the receiver, which has number zero, or a declared parameter.
    A receiver moves the parameters up by one. -/
theorem index_cases (m : Machine) (index : Nat) :
    m.receiver.isSome ∧ index = 0 ∨ ∃ slot, index = m.receiver.toList.length + slot := by
  cases m.receiver with
  | none => exact .inr ⟨index, (Nat.zero_add index).symm⟩
  | some receiver =>
    cases index with
    | zero => exact .inl ⟨rfl, rfl⟩
    | succ slot => exact .inr ⟨slot, Nat.add_comm slot 1⟩

theorem argument_receiver {receiver : Expr} (h : m.receiver = some receiver) :
    m.argument 0 = .ok receiver := by
  unfold argument
  rw [h]

theorem argument_slot (m : Machine) (slot : Nat) :
    m.argument (m.receiver.toList.length + slot) =
      m.declared (m.receiver.toList.length + slot) slot := by
  unfold argument
  cases m.receiver with
  | none => simp
  | some receiver => simp [Nat.add_comm 1 slot]

/-- Arguments are numbered from the receiver on. -/
theorem argument_ok_iff {index : Nat} {e : Expr} :
    m.argument index = .ok e ↔ m.argumentValues[index]? = some e := by
  unfold argumentValues
  rcases m.index_cases index with ⟨hreceiver, rfl⟩ | ⟨slot, rfl⟩
  · obtain ⟨receiver, hr⟩ := Option.isSome_iff_exists.mp hreceiver
    rw [argument_receiver hr, hr]
    simp
  · rw [argument_slot, declared_ok_iff, List.getElem?_append_right (Nat.le_add_right _ slot),
      Nat.add_sub_cancel_left]

theorem setDeclared_ok_iff {index slot : Nat} {value : Expr} :
    m.setDeclared index slot value = .ok m' ↔
      slot < m.arguments.length ∧ m' = { m with arguments := m.arguments.set slot value } := by
  unfold setDeclared
  by_cases h : slot < m.arguments.length
  · simp [h, eq_comm]
  · simp [h]

theorem setArgument_receiver (h : m.receiver.isSome) (value : Expr) :
    m.setArgument 0 value = .ok { m with receiver := some value } := by
  obtain ⟨receiver, hr⟩ := Option.isSome_iff_exists.mp h
  unfold setArgument
  rw [hr]

theorem setArgument_slot (m : Machine) (slot : Nat) (value : Expr) :
    m.setArgument (m.receiver.toList.length + slot) value =
      m.setDeclared (m.receiver.toList.length + slot) slot value := by
  unfold setArgument
  cases m.receiver with
  | none => simp
  | some receiver => simp [Nat.add_comm 1 slot]

/-- A value is stored exactly where there is an argument, as the receiver or in
    the slot of a declared parameter, and nothing else of the machine changes. -/
theorem setArgument_ok_iff {index : Nat} {value : Expr} :
    m.setArgument index value = .ok m' ↔
      m.receiver.isSome ∧ index = 0 ∧ m' = { m with receiver := some value } ∨
      ∃ slot, index = m.receiver.toList.length + slot ∧ slot < m.arguments.length ∧
        m' = { m with arguments := m.arguments.set slot value } := by
  constructor
  · intro h
    rcases m.index_cases index with ⟨hreceiver, rfl⟩ | ⟨slot, rfl⟩
    · rw [setArgument_receiver hreceiver] at h
      cases h
      exact .inl ⟨hreceiver, rfl, rfl⟩
    · rw [setArgument_slot, setDeclared_ok_iff] at h
      exact .inr ⟨slot, rfl, h⟩
  · intro h
    rcases h with ⟨hreceiver, rfl, rfl⟩ | ⟨slot, rfl, h⟩
    · exact setArgument_receiver hreceiver value
    · rw [setArgument_slot]
      exact setDeclared_ok_iff.mpr h

/-- A stored argument replaces the one that had its number. -/
theorem setArgument_ok {index : Nat} {value : Expr} (h : m.setArgument index value = .ok m') :
    index < m.argumentValues.length ∧
      m'.argumentValues = m.argumentValues.set index value ∧
      ∃ receiver arguments, m' = { m with receiver, arguments } := by
  unfold argumentValues
  rcases setArgument_ok_iff.mp h with ⟨hreceiver, rfl, rfl⟩ | ⟨slot, rfl, hlt, rfl⟩
  · obtain ⟨receiver, hr⟩ := Option.isSome_iff_exists.mp hreceiver
    rw [hr]
    exact ⟨by simp, rfl, _, _, rfl⟩
  · refine ⟨?_, ?_, _, _, rfl⟩
    · rw [List.length_append]
      exact Nat.add_lt_add_left hlt _
    · rw [List.set_append_right _ _ (Nat.le_add_right _ slot), Nat.add_sub_cancel_left]

/-- Only the arguments decide what becomes of a stored argument, and only they
    change. -/
theorem setArgument_of_same {index : Nat} {value : Expr} (h : m.setArgument index value = .ok m')
    {n : Machine} (hreceiver : n.receiver = m.receiver) (harguments : n.arguments = m.arguments) :
    n.setArgument index value =
      .ok { n with receiver := m'.receiver, arguments := m'.arguments } := by
  rw [setArgument_ok_iff, hreceiver, harguments]
  rcases setArgument_ok_iff.mp h with ⟨hsome, hzero, rfl⟩ | ⟨slot, hslot, hlt, rfl⟩
  · exact .inl ⟨hsome, hzero, by rw [← harguments]⟩
  · exact .inr ⟨slot, hslot, hlt, by rw [← hreceiver]⟩

theorem localVariable_ok_iff {index : Nat} {e : Expr} :
    m.localVariable index = .ok e ↔ m.locals[index]? = some (some e) := by
  unfold localVariable
  split <;> simp_all

theorem setLocalVariable_ok_iff {index : Nat} {value : Expr} :
    m.setLocalVariable index value = .ok m' ↔
      index < m.locals.length ∧ m' = { m with locals := m.locals.set index (some value) } := by
  unfold setLocalVariable
  by_cases h : index < m.locals.length
  · simp [h, eq_comm]
  · simp [h]

theorem load_ok_iff {value : Machine → Except Fault Expr} :
    (load value).run m = .ok () m' ↔ ∃ e, value m = .ok e ∧ m.Replaces [] e m' := by
  simp only [load, EStateM.run_bind, EStateM.run_get]
  cases value m with
  | error fault => simp
  | ok e => simp [push_ok_iff]

theorem store_ok_iff {place : Machine → Expr → Except Fault Machine} :
    (store place).run m = .ok () m' ↔
      ∃ e rest, m.stack.items = e :: rest ∧ place (m.withItems rest) e = .ok m' := by
  simp only [store, run_bind_ok_iff, pop_ok_iff]
  constructor
  · intro h
    obtain ⟨e, _, ⟨rest, hitems, rfl⟩, _, _, hget, h⟩ := h
    cases hget
    refine ⟨e, rest, hitems, ?_⟩
    cases hplace : place (m.withItems rest) e with
    | error fault =>
      rw [hplace] at h
      cases h
    | ok stored =>
      rw [hplace] at h
      cases h
      rfl
  · intro h
    obtain ⟨e, rest, hitems, h⟩ := h
    refine ⟨e, _, ⟨rest, hitems, rfl⟩, _, _, rfl, ?_⟩
    rw [h]
    rfl

/-! ## Operators and members -/

theorem unary_ok_iff {node : Expr → Expr} :
    (unary node).run m = .ok () m' ↔ ∃ e, m.Replaces [e] (node e) m' := by
  simp only [unary, run_bind_ok_iff, pop_ok_iff, push_ok_iff]
  constructor
  · intro h
    obtain ⟨e, _, ⟨rest, hitems, rfl⟩, _, rfl, hroom, rfl⟩ := h
    exact ⟨e, rest, hitems, hroom, rfl⟩
  · intro h
    obtain ⟨e, rest, hitems, hroom, rfl⟩ := h
    exact ⟨e, _, ⟨rest, hitems, rfl⟩, rest, rfl, hroom, rfl⟩

/-- The right operand is on top of the left one. -/
theorem popTwo_ok_iff {node : Expr → Expr → Expr} :
    (do let right ← pop; let left ← pop; push (node left right) : MachineM Unit).run m =
        .ok () m' ↔
      ∃ left right, m.Replaces [left, right] (node left right) m' := by
  simp only [run_bind_ok_iff, pop_ok_iff, push_ok_iff]
  constructor
  · intro h
    obtain ⟨right, _, hright, left, _, hleft, hpushed⟩ := h
    obtain ⟨_, hitems, rfl⟩ := hright
    obtain ⟨rest, rfl, rfl⟩ := hleft
    obtain ⟨_, rfl, hroom, rfl⟩ := hpushed
    exact ⟨left, right, rest, hitems, hroom, rfl⟩
  · intro h
    obtain ⟨left, right, rest, hitems, hroom, rfl⟩ := h
    exact ⟨right, _, ⟨_, hitems, rfl⟩, left, _, ⟨rest, rfl, rfl⟩, rest, rfl, hroom, rfl⟩

theorem takeArguments_ok_iff {parameters : List Param} {arguments : List Expr} :
    (takeArguments parameters).run m = .ok arguments m' ↔
      ∃ es : List Expr, es.length = parameters.length ∧
        arguments = es.zipWith passed parameters ∧
        ∃ rest, m.stack.items = es.reverse ++ rest ∧ m' = m.withItems rest := by
  simp only [takeArguments, run_bind_ok_iff, popN_ok_iff, EStateM.run_pure]
  constructor
  · intro h
    obtain ⟨es, _, ⟨hlen, rest, hitems, rfl⟩, h⟩ := h
    cases h
    exact ⟨es, hlen, rfl, rest, hitems, rfl⟩
  · intro h
    obtain ⟨es, hlen, rfl, rest, hitems, rfl⟩ := h
    exact ⟨es, _, ⟨hlen, rest, hitems, rfl⟩, rfl⟩

/-- What is the same for an argument and for the argument as it is passed is
    the same for whole lists of them. -/
theorem map_zipWith_passed {β : Type _} {f : Expr → β} (hf : ∀ e p, f (passed e p) = f e)
    {es : List Expr} {ps : List Param} (hlen : es.length = ps.length) :
    (es.zipWith passed ps).map f = es.map f := by
  induction es generalizing ps with
  | nil => rfl
  | cons e es ih =>
    cases ps with
    | nil => cases hlen
    | cons p ps =>
      rw [List.zipWith_cons_cons, List.map_cons, List.map_cons, hf, ih (Nat.succ.inj hlen)]

theorem takeAndPush_ok_iff {parameters : List Param} {node : List Expr → Expr} :
    (do let arguments ← takeArguments parameters; push (node arguments) : MachineM Unit).run m =
        .ok () m' ↔
      ∃ es : List Expr, es.length = parameters.length ∧
        m.Replaces es (node (es.zipWith passed parameters)) m' := by
  simp only [run_bind_ok_iff, takeArguments_ok_iff, push_ok_iff]
  constructor
  · intro h
    obtain ⟨_, _, ⟨es, hlen, rfl, rest, hitems, rfl⟩, _, rfl, hroom, rfl⟩ := h
    exact ⟨es, hlen, rest, hitems, hroom, rfl⟩
  · intro h
    obtain ⟨es, hlen, rest, hitems, hroom, rfl⟩ := h
    exact ⟨_, _, ⟨es, hlen, rfl, rest, hitems, rfl⟩, rest, rfl, hroom, rfl⟩

theorem callMethod_static_ok_iff {method : MethodRef} (hstatic : method.isStatic = true) :
    (callMethod method).run m = .ok () m' ↔
      ∃ es : List Expr, es.length = method.parameters.length ∧
        m.Replaces es (.call none method (es.zipWith passed method.parameters)) m' := by
  simp only [callMethod, hstatic, if_true]
  exact takeAndPush_ok_iff

/-- The receiver lies below the arguments. -/
theorem callMethod_instance_ok_iff {method : MethodRef} (hstatic : method.isStatic = false) :
    (callMethod method).run m = .ok () m' ↔
      ∃ (receiver : Expr) (es : List Expr), es.length = method.parameters.length ∧
        m.Replaces (receiver :: es)
          (.call (some receiver) method (es.zipWith passed method.parameters)) m' := by
  simp only [callMethod, hstatic, Bool.false_eq_true, if_false, run_bind_ok_iff,
    takeArguments_ok_iff, pop_ok_iff, push_ok_iff]
  constructor
  · intro h
    -- Popping goes from the last argument down to the receiver.
    obtain ⟨_, _, htaken, receiver, _, hpopped, hpushed⟩ := h
    obtain ⟨es, hlen, rfl, _, hitems, rfl⟩ := htaken
    obtain ⟨rest, rfl, rfl⟩ := hpopped
    obtain ⟨_, rfl, hroom, rfl⟩ := hpushed
    refine ⟨receiver, es, hlen, rest, ?_, hroom, rfl⟩
    rw [hitems, List.reverse_cons, List.append_assoc]
    rfl
  · intro h
    obtain ⟨receiver, es, hlen, rest, hitems, hroom, rfl⟩ := h
    rw [List.reverse_cons, List.append_assoc] at hitems
    exact ⟨_, _, ⟨es, hlen, rfl, _, hitems, rfl⟩, receiver, _, ⟨rest, rfl, rfl⟩, rest, rfl, hroom,
      rfl⟩

theorem arrayLength_ok_iff :
    arrayLength.run m = .ok () m' ↔
      ∃ array : Expr, array.type.element?.isSome ∧
        m.Replaces [array] (.unary .arrayLength array (.prim .int32)) m' := by
  simp only [arrayLength, run_bind_ok_iff, pop_ok_iff]
  constructor
  · intro h
    obtain ⟨array, _, ⟨rest, hitems, rfl⟩, h⟩ := h
    split at h
    · obtain ⟨_, rfl, hroom, rfl⟩ := push_ok_iff.mp h
      exact ⟨array, ‹_›, rest, hitems, hroom, rfl⟩
    · cases h
  · intro h
    obtain ⟨array, harray, rest, hitems, hroom, rfl⟩ := h
    refine ⟨array, _, ⟨rest, hitems, rfl⟩, ?_⟩
    rw [if_pos harray]
    exact push_ok_iff.mpr ⟨rest, rfl, hroom, rfl⟩

theorem finish_ok_iff :
    finish.run m = .ok () m' ↔
      ∃ body, m.stack.items = [body] ∧
        m' = { m.withItems [] with
          result := some (.lambda m.parameters body m.resultType) } := by
  simp only [finish, run_bind_ok_iff, pop_ok_iff]
  constructor
  · intro h
    obtain ⟨body, _, ⟨rest, hitems, rfl⟩, _, _, hget, h⟩ := h
    cases hget
    cases rest with
    | nil =>
      cases h
      exact ⟨body, hitems, rfl⟩
    | cons other rest => cases h
  · intro h
    obtain ⟨body, hitems, rfl⟩ := h
    exact ⟨body, _, ⟨[], hitems, rfl⟩, _, _, rfl, rfl⟩

end Machine

/-! ## What an operation builds -/

open Machine (passed)

/-- The operation makes the node of these operands, the first pushed first. -/
inductive Operation.Builds : Operation → List Expr → Expr → Prop where
  | ldnull : Builds .ldnull [] .null
  | ldcI4 (v : Int32) : Builds (.ldcI4 v) [] (.constant (.int32 v) (.prim .int32))
  | ldcI8 (v : Int64) : Builds (.ldcI8 v) [] (.constant (.int64 v) (.prim .int64))
  | ldcR4 (bits : UInt32) : Builds (.ldcR4 bits) [] (.constant (.single bits) (.prim .single))
  | ldcR8 (bits : UInt64) : Builds (.ldcR8 bits) [] (.constant (.double bits) (.prim .double))
  | ldstr (text : String) : Builds (.ldstr text) [] (.constant (.string text) (.prim .string))
  | staticField {op : Operation} (f : FieldRef) (hop : op = .ldsfld f ∨ op = .ldsflda f) :
    Builds op [] (.field none f)
  | field {op : Operation} (f : FieldRef) (e : Expr) (hop : op = .ldfld f ∨ op = .ldflda f) :
    Builds op [e] (.field (some e) f)
  | arith (a : Arith) (left right : Expr) :
    Builds (.arith a) [left, right] (.apply a.operator left right)
  | neg (e : Expr) : Builds .neg [e] (.unary .negate e e.type)
  | not (e : Expr) : Builds .not [e] (.unary .not e e.type)
  | conv (c : Conv) (e : Expr) : Builds (.conv c) [e] (.unary .convert e c.type)
  | box (type : Ty) (e : Expr) : Builds (.box type) [e] (.unary .convert e (.prim .object))
  | castclass (type : Ty) (e : Expr) : Builds (.castclass type) [e] (.unary .convert e type)
  | isinst (type : Ty) (e : Expr) : Builds (.isinst type) [e] (.unary .typeAs e type)
  | newarr (element : Ty) (e : Expr) : Builds (.newarr element) [e] (.newArray element e)
  | ldlen (e : Expr) (harray : e.type.element?.isSome) :
    Builds .ldlen [e] (.unary .arrayLength e (.prim .int32))
  | ldelem (type : Ty) (array position : Expr) :
    Builds (.ldelem type) [array, position]
      (.index array position (array.type.element?.getD type))
  | callStatic {op : Operation} (method : MethodRef) (es : List Expr)
    (hop : op = .call method ∨ op = .callvirt method) (hstatic : method.isStatic = true)
    (hlen : es.length = method.parameters.length) :
    Builds op es (.call none method (es.zipWith passed method.parameters))
  | callInstance {op : Operation} (method : MethodRef) (receiver : Expr) (es : List Expr)
    (hop : op = .call method ∨ op = .callvirt method) (hstatic : method.isStatic = false)
    (hlen : es.length = method.parameters.length) :
    Builds op (receiver :: es) (.call (some receiver) method (es.zipWith passed method.parameters))
  | newobj (ctor : ConstructorRef) (es : List Expr) (hlen : es.length = ctor.parameters.length) :
    Builds (.newobj ctor) es (.new ctor (es.zipWith passed ctor.parameters))

/-! ## Steps -/

namespace Machine

variable {m m' : Machine}

/-- What a loading operation puts on the stack, if it finds something. -/
def loaded? (m : Machine) : Operation → Option Expr
  | .ldarg index | .ldarga index => m.argumentValues[index.toNat]?
  | .ldloc index | .ldloca index => m.locals[index.toNat]?.join
  | _ => none

/-- Everything that an operation can do to a machine when it succeeds. -/
inductive Step : Operation → Machine → Machine → Prop where
  | nop (m : Machine) : Step .nop m m
  | dup {m m' : Machine} (e : Expr) (rest : List Expr) (hitems : m.stack.items = e :: rest)
    (hput : m.Replaces [] e m') : Step .dup m m'
  | pop {m : Machine} (e : Expr) (rest : List Expr) (hitems : m.stack.items = e :: rest) :
    Step .pop m (m.withItems rest)
  | ret {m : Machine} (body : Expr) (hitems : m.stack.items = [body]) :
    Step .ret m
      { m.withItems [] with result := some (.lambda m.parameters body m.resultType) }
  | load {m m' : Machine} {op : Operation} (e : Expr) (hloaded : m.loaded? op = some e)
    (hput : m.Replaces [] e m') : Step op m m'
  | storeArgument {m m' : Machine} {index : UInt8} (e : Expr) (rest : List Expr)
    (hitems : m.stack.items = e :: rest)
    (hset : (m.withItems rest).setArgument index.toNat e = .ok m') :
    Step (.starg index) m m'
  | storeLocal {m m' : Machine} {index : UInt8} (e : Expr) (rest : List Expr)
    (hitems : m.stack.items = e :: rest)
    (hset : (m.withItems rest).setLocalVariable index.toNat e = .ok m') :
    Step (.stloc index) m m'
  | build {m m' : Machine} {op : Operation} {operands : List Expr} {node : Expr}
    (hbuilds : op.Builds operands node) (hput : m.Replaces operands node m') : Step op m m'

theorem step_of_unary {op : Operation} {node : Expr → Expr}
    (hbuilds : ∀ e, op.Builds [e] (node e)) (h : (unary node).run m = .ok () m') :
    Step op m m' := by
  obtain ⟨e, hput⟩ := unary_ok_iff.mp h
  exact .build (hbuilds e) hput

theorem step_of_callMethod {op : Operation} {method : MethodRef}
    (hop : op = .call method ∨ op = .callvirt method)
    (h : (callMethod method).run m = .ok () m') : Step op m m' := by
  cases hstatic : method.isStatic with
  | true =>
    obtain ⟨es, hlen, hput⟩ := (callMethod_static_ok_iff hstatic).mp h
    exact .build (.callStatic method es hop hstatic hlen) hput
  | false =>
    obtain ⟨receiver, es, hlen, hput⟩ := (callMethod_instance_ok_iff hstatic).mp h
    exact .build (.callInstance method receiver es hop hstatic hlen) hput

theorem step_of_execute {op : Operation} (h : (execute op).run m = .ok () m') : Step op m m' := by
  -- Each operation is inverted by the lemma about the effect it consists of.
  cases op with
  | nop =>
    cases h
    exact .nop m
  | dup =>
    obtain ⟨e, _, hpeek, hpush⟩ := run_bind_ok_iff.mp h
    obtain ⟨⟨rest, hitems⟩, rfl⟩ := peek_ok_iff.mp hpeek
    exact .dup e rest hitems (push_ok_iff.mp hpush)
  | pop =>
    obtain ⟨e, _, hpop, hpure⟩ := run_bind_ok_iff.mp h
    obtain ⟨rest, hitems, rfl⟩ := pop_ok_iff.mp hpop
    cases hpure
    exact .pop e rest hitems
  | ret =>
    obtain ⟨body, hitems, rfl⟩ := finish_ok_iff.mp h
    exact .ret body hitems
  | ldarg index | ldarga index =>
    obtain ⟨e, hvalue, hput⟩ := load_ok_iff.mp h
    exact .load e (argument_ok_iff.mp hvalue) hput
  | ldloc index | ldloca index =>
    obtain ⟨e, hvalue, hput⟩ := load_ok_iff.mp h
    exact .load e (Option.join_eq_some_iff.mpr (localVariable_ok_iff.mp hvalue)) hput
  | starg index =>
    obtain ⟨e, rest, hitems, hset⟩ := store_ok_iff.mp h
    exact .storeArgument e rest hitems hset
  | stloc index =>
    obtain ⟨e, rest, hitems, hset⟩ := store_ok_iff.mp h
    exact .storeLocal e rest hitems hset
  | ldnull => exact .build .ldnull (push_ok_iff.mp h)
  | ldcI4 v => exact .build (.ldcI4 v) (push_ok_iff.mp h)
  | ldcI8 v => exact .build (.ldcI8 v) (push_ok_iff.mp h)
  | ldcR4 bits => exact .build (.ldcR4 bits) (push_ok_iff.mp h)
  | ldcR8 bits => exact .build (.ldcR8 bits) (push_ok_iff.mp h)
  | ldstr text => exact .build (.ldstr text) (push_ok_iff.mp h)
  | ldsfld f => exact .build (.staticField f (.inl rfl)) (push_ok_iff.mp h)
  | ldsflda f => exact .build (.staticField f (.inr rfl)) (push_ok_iff.mp h)
  | arith a =>
    obtain ⟨left, right, hput⟩ := popTwo_ok_iff.mp h
    exact .build (.arith a left right) hput
  | ldelem type =>
    obtain ⟨array, position, hput⟩ := popTwo_ok_iff.mp h
    exact .build (.ldelem type array position) hput
  | neg => exact step_of_unary .neg h
  | not => exact step_of_unary .not h
  | conv c => exact step_of_unary (.conv c) h
  | box type => exact step_of_unary (.box type) h
  | castclass type => exact step_of_unary (.castclass type) h
  | isinst type => exact step_of_unary (.isinst type) h
  | ldfld f => exact step_of_unary (fun e => .field f e (.inl rfl)) h
  | ldflda f => exact step_of_unary (fun e => .field f e (.inr rfl)) h
  | newarr type => exact step_of_unary (.newarr type) h
  | ldlen =>
    obtain ⟨e, harray, hput⟩ := arrayLength_ok_iff.mp h
    exact .build (.ldlen e harray) hput
  | newobj ctor =>
    obtain ⟨es, hlen, hput⟩ := takeAndPush_ok_iff.mp h
    exact .build (.newobj ctor es hlen) hput
  | call method => exact step_of_callMethod (.inl rfl) h
  | callvirt method => exact step_of_callMethod (.inr rfl) h

theorem execute_of_builds {op : Operation} {operands : List Expr} {node : Expr}
    (hbuilds : op.Builds operands node) (hput : m.Replaces operands node m') :
    (execute op).run m = .ok () m' := by
  cases hbuilds with
  | ldnull | ldcI4 | ldcI8 | ldcR4 | ldcR8 | ldstr => exact push_ok_iff.mpr hput
  | staticField f hop => rcases hop with rfl | rfl <;> exact push_ok_iff.mpr hput
  | field f e hop => rcases hop with rfl | rfl <;> exact unary_ok_iff.mpr ⟨e, hput⟩
  | arith a left right => exact popTwo_ok_iff.mpr ⟨left, right, hput⟩
  | ldelem type array position => exact popTwo_ok_iff.mpr ⟨array, position, hput⟩
  | neg e | not e | conv c e | box type e | castclass type e | isinst type e | newarr type e =>
    exact unary_ok_iff.mpr ⟨e, hput⟩
  | ldlen e harray => exact arrayLength_ok_iff.mpr ⟨e, harray, hput⟩
  | newobj ctor es hlen => exact takeAndPush_ok_iff.mpr ⟨_, hlen, hput⟩
  | callStatic method es hop hstatic hlen =>
    rcases hop with rfl | rfl <;> exact (callMethod_static_ok_iff hstatic).mpr ⟨_, hlen, hput⟩
  | callInstance method receiver es hop hstatic hlen =>
    rcases hop with rfl | rfl <;>
      exact (callMethod_instance_ok_iff hstatic).mpr ⟨receiver, es, hlen, hput⟩

theorem execute_of_loaded {op : Operation} {e : Expr} (hloaded : m.loaded? op = some e)
    (hput : m.Replaces [] e m') : (execute op).run m = .ok () m' := by
  cases op with
  | ldarg index | ldarga index =>
    exact load_ok_iff.mpr ⟨e, argument_ok_iff.mpr hloaded, hput⟩
  | ldloc index | ldloca index =>
    exact load_ok_iff.mpr
      ⟨e, localVariable_ok_iff.mpr (Option.join_eq_some_iff.mp hloaded), hput⟩
  | _ => cases hloaded

/-- An operation succeeds exactly when there is a step for it. -/
theorem execute_ok_iff {op : Operation} :
    (execute op).run m = .ok () m' ↔ Step op m m' := by
  constructor
  · exact step_of_execute
  · intro h
    cases h with
    | nop => rfl
    | dup e rest hitems hput =>
      exact run_bind_ok_iff.mpr
        ⟨e, m, peek_ok_iff.mpr ⟨⟨rest, hitems⟩, rfl⟩, push_ok_iff.mpr hput⟩
    | pop e rest hitems =>
      exact run_bind_ok_iff.mpr ⟨e, _, pop_ok_iff.mpr ⟨rest, hitems, rfl⟩, rfl⟩
    | ret body hitems => exact finish_ok_iff.mpr ⟨body, hitems, rfl⟩
    | load e hloaded hput => exact execute_of_loaded hloaded hput
    | storeArgument e rest hitems hset | storeLocal e rest hitems hset =>
      exact store_ok_iff.mpr ⟨e, rest, hitems, hset⟩
    | build hbuilds hput => exact execute_of_builds hbuilds hput

end Machine

/-! ## Depth of the stack -/

namespace Operation

/-- How many values the operation takes from the stack. -/
def arity : Operation → Nat
  | .call method | .callvirt method =>
    method.parameters.length + if method.isStatic then 0 else 1
  | .newobj ctor => ctor.parameters.length
  | .arith _ | .ldelem _ => 2
  | .dup | .pop | .ret | .starg _ | .stloc _ | .neg | .not | .conv _ | .box _ | .castclass _
  | .isinst _ | .ldfld _ | .ldflda _ | .newarr _ | .ldlen => 1
  | _ => 0

/-- How many values the operation puts on the stack. -/
def results : Operation → Nat
  | .nop | .pop | .ret | .starg _ | .stloc _ => 0
  | .dup => 2
  | _ => 1

/-- An operation that builds a node takes its operands and puts the node. -/
theorem Builds.effect {op : Operation} {operands : List Expr} {node : Expr}
    (h : op.Builds operands node) : op.arity = operands.length ∧ op.results = 1 := by
  cases h with
  | staticField f hop | field f e hop => rcases hop with rfl | rfl <;> exact ⟨rfl, rfl⟩
  | callStatic method es hop hstatic hlen =>
    rcases hop with rfl | rfl <;> simp [arity, results, hstatic, hlen]
  | callInstance method receiver es hop hstatic hlen =>
    rcases hop with rfl | rfl <;> simp [arity, results, hstatic, hlen]
  | newobj ctor es hlen => exact ⟨hlen.symm, rfl⟩
  | _ => exact ⟨rfl, rfl⟩

end Operation

namespace Machine

variable {m m' : Machine}

theorem effect_of_loaded {op : Operation} {e : Expr} (h : m.loaded? op = some e) :
    op.arity = 0 ∧ op.results = 1 := by
  cases op with
  | ldarg | ldarga | ldloc | ldloca => exact ⟨rfl, rfl⟩
  | _ => cases h

/-- A step takes and puts exactly as many values as its operation does. -/
theorem Step.length_items {op : Operation} (h : Step op m m') :
    m'.stack.items.length + op.arity = m.stack.items.length + op.results := by
  cases h with
  | nop => rfl
  | dup e rest hitems hput =>
    obtain ⟨_, heq, -, rfl⟩ := hput
    simp [heq, Operation.arity, Operation.results]
  | pop e rest hitems => simp [hitems, Operation.arity, Operation.results]
  | ret body hitems => simp [hitems, Operation.arity, Operation.results]
  | load e hloaded hput =>
    obtain ⟨_, heq, -, rfl⟩ := hput
    obtain ⟨harity, hresults⟩ := effect_of_loaded hloaded
    simp [heq, harity, hresults]
  | storeArgument e rest hitems hset =>
    obtain ⟨_, _, _, _, rfl⟩ := setArgument_ok hset
    simp [hitems, Operation.arity, Operation.results]
  | storeLocal e rest hitems hset =>
    obtain ⟨_, rfl⟩ := setLocalVariable_ok_iff.mp hset
    simp [hitems, Operation.arity, Operation.results]
  | build hbuilds hput =>
    obtain ⟨rest, hitems, -, rfl⟩ := hput
    obtain ⟨harity, hresults⟩ := hbuilds.effect
    simp [hitems, harity, hresults]
    omega

/-- A step never makes the stack deeper than its capacity. -/
theorem Step.length_items_le {op : Operation} (h : Step op m m')
    (hle : m.stack.items.length ≤ m.stack.capacity) :
    m'.stack.items.length ≤ m'.stack.capacity := by
  cases h with
  | nop => exact hle
  | dup e rest hitems hput | load e hloaded hput | build hbuilds hput =>
    obtain ⟨rest, -, hroom, rfl⟩ := hput
    exact hroom
  | pop e rest hitems =>
    rw [hitems, List.length_cons] at hle
    simp only [withItems_items, withItems_capacity]
    omega
  | ret body hitems => exact Nat.zero_le _
  | storeArgument e rest hitems hset =>
    obtain ⟨_, _, _, _, rfl⟩ := setArgument_ok hset
    rw [hitems, List.length_cons] at hle
    simp only [withItems_items, withItems_capacity]
    omega
  | storeLocal e rest hitems hset =>
    obtain ⟨_, rfl⟩ := setLocalVariable_ok_iff.mp hset
    rw [hitems, List.length_cons] at hle
    simp only [withItems_items, withItems_capacity]
    omega

end Machine

end CilLift
