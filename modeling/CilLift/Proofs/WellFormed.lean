import CilLift.Proofs.Run
import CilLift.Proofs.Tree

/-! # Well-formedness of lifted functions

    The rules that a node has to keep: its type follows from its operands,
    a call has the operands that its member asks for, constants fit the
    parameters they are passed for, and every parameter is one of the method's
    own.

    Main statement: `lift_wellFormed` says that whatever is lifted is a
    function of the method's parameters and of the delegate's type, all of
    whose body keeps these rules.
-/

namespace CilLift

/-! ## Rules -/

/-- A constant that is passed for the parameter has a type that the parameter
    accepts. -/
def Param.Takes (p : Param) (argument : Expr) : Prop :=
  ∀ value type, argument = .constant value type → p.type.accepts type = true

namespace Expr

/-- The rules for one node of a lifted body. -/
def WellBuilt (d : Delegate) : Expr → Prop
  | .constant .. | .field .. | .newArray .. => True
  | .parameter p =>
    p ∈ d.method.parameters ∨
      d.method.isStatic = false ∧ d.target = none ∧ p = ⟨"this", d.method.declaringType⟩
  | .binary op left _ type =>
    op ≠ .notEqual ∧ type = if op.isComparison then .prim .boolean else left.type
  | .unary .convert _ _ | .unary .typeAs _ _ => True
  | .unary .negate operand type | .unary .not operand type => type = operand.type
  | .unary .arrayLength operand type => operand.type.element?.isSome ∧ type = .prim .int32
  | .call receiver method arguments =>
    arguments.length = method.parameters.length ∧ (receiver.isSome ↔ method.isStatic = false) ∧
      List.Forall₂ Param.Takes method.parameters arguments
  | .new ctor arguments =>
    arguments.length = ctor.parameters.length ∧
      List.Forall₂ Param.Takes ctor.parameters arguments
  | .index array _ type => ∀ element, array.type.element? = some element → type = element
  | .lambda .. | .property .. | .indexer .. | .assign .. | .event .. => False

/-- All nodes of the expression keep the rules. -/
def WellFormed (d : Delegate) (e : Expr) : Prop :=
  ∀ node ∈ e.postorder, node.WellBuilt d

variable {d : Delegate}

theorem wellFormed_iff {e : Expr} :
    e.WellFormed d ↔ e.WellBuilt d ∧ ∀ operand ∈ e.operands, operand.WellFormed d :=
  forall_mem_postorder_iff e

theorem wellFormed_of_operands_eq_nil {e : Expr} (he : e.WellBuilt d) (h : e.operands = []) :
    e.WellFormed d := by
  rw [wellFormed_iff, h]
  exact ⟨he, List.forall_mem_nil _⟩

theorem wellFormed_constant (value : Value) (type : Ty) :
    (Expr.constant value type).WellFormed d :=
  wellFormed_of_operands_eq_nil trivial rfl

theorem WellFormed.passed {e : Expr} (h : e.WellFormed d) (p : Param) :
    (Machine.passed e p).WellFormed d := by
  unfold Machine.passed
  split
  · split
    · exact h
    · exact wellFormed_constant _ _
  · exact h

end Expr

/-! ## Arguments -/

/-- An argument as it is passed fits its parameter. -/
theorem takes_passed (e : Expr) (p : Param) : p.Takes (Machine.passed e p) := by
  intro value type h
  unfold Machine.passed at h
  split at h
  · rename_i value' type'
    -- A type that is not accepted gives way to the parameter's own.
    by_cases haccepts : p.type.accepts type'
    · rw [if_pos haccepts] at h
      cases h
      exact haccepts
    · rw [if_neg haccepts] at h
      cases h
      exact p.type.accepts_self
  · rename_i hconstant
    exact absurd h (hconstant value type)

theorem forall₂_takes_zipWith_passed {es : List Expr} {ps : List Param}
    (hlen : es.length = ps.length) :
    List.Forall₂ Param.Takes ps (es.zipWith Machine.passed ps) := by
  induction es generalizing ps with
  | nil =>
    rw [List.length_eq_zero_iff.mp hlen.symm]
    exact .nil
  | cons e es ih =>
    cases ps with
    | nil => cases hlen
    | cons p ps => exact .cons (takes_passed e p) (ih (Nat.succ.inj hlen))

theorem wellFormed_zipWith_passed {d : Delegate} {es : List Expr} (ps : List Param)
    (h : ∀ e ∈ es, e.WellFormed d) :
    ∀ e ∈ es.zipWith Machine.passed ps, e.WellFormed d := by
  intro e he
  obtain ⟨i, hi⟩ := List.mem_iff_getElem?.mp he
  obtain ⟨a, p, ha, -, rfl⟩ := List.getElem?_zipWith_eq_some.mp hi
  exact (h a (List.mem_of_getElem? ha)).passed p

/-! ## Steps -/

/-- An arithmetic instruction never tests for inequality. -/
theorem operator_ne_notEqual (a : Arith) : a.operator ≠ .notEqual := by
  cases a <;> decide

/-- What an operation builds from operands that keep the rules keeps them. -/
theorem Operation.Builds.wellFormed {d : Delegate} {op : Operation} {operands : List Expr}
    {node : Expr} (h : op.Builds operands node) (hoperands : ∀ e ∈ operands, e.WellFormed d) :
    node.WellFormed d := by
  rw [Expr.wellFormed_iff]
  -- The operands of a call are the arguments as they are passed; all other
  -- nodes have the operands that the operation took.
  cases h with
  | arith a left right => exact ⟨⟨operator_ne_notEqual a, rfl⟩, hoperands⟩
  | neg e | not e => exact ⟨rfl, hoperands⟩
  | ldlen e harray => exact ⟨⟨harray, rfl⟩, hoperands⟩
  | ldelem type array position =>
    refine ⟨?_, hoperands⟩
    intro element helement
    rw [helement]
    rfl
  | callStatic method es hop hstatic hlen =>
    refine ⟨⟨by simp [hlen], by simp [hstatic], forall₂_takes_zipWith_passed hlen⟩, ?_⟩
    exact wellFormed_zipWith_passed method.parameters hoperands
  | callInstance method receiver es hop hstatic hlen =>
    obtain ⟨hreceiver, hes⟩ := List.forall_mem_cons.mp hoperands
    refine ⟨⟨by simp [hlen], by simp [hstatic], forall₂_takes_zipWith_passed hlen⟩, ?_⟩
    exact List.forall_mem_cons.mpr
      ⟨hreceiver, wellFormed_zipWith_passed method.parameters hes⟩
  | newobj ctor es hlen =>
    refine ⟨⟨by simp [hlen], forall₂_takes_zipWith_passed hlen⟩, ?_⟩
    exact wellFormed_zipWith_passed ctor.parameters hoperands
  | _ => exact ⟨trivial, hoperands⟩

/-- Every expression that the machine holds keeps the rules. -/
structure Machine.WellFormed (d : Delegate) (m : Machine) : Prop where
  stack : ∀ e ∈ m.stack.items, e.WellFormed d
  locals : ∀ e, some e ∈ m.locals → e.WellFormed d
  arguments : ∀ e ∈ m.argumentValues, e.WellFormed d

namespace Machine.WellFormed

variable {d : Delegate} {m m' : Machine} {op : Operation}

/-- A node that keeps the rules takes the place of its operands. -/
theorem replace (h : m.WellFormed d) {operands : List Expr} {node : Expr}
    (hnode : (∀ e ∈ operands, e.WellFormed d) → node.WellFormed d)
    (hput : m.Replaces operands node m') : m'.WellFormed d := by
  obtain ⟨rest, hitems, -, rfl⟩ := hput
  have hstack := h.stack
  rw [hitems] at hstack
  obtain ⟨hoperands, hrest⟩ := List.forall_mem_append.mp hstack
  refine ⟨?_, h.locals, h.arguments⟩
  rw [withItems_items, List.forall_mem_cons]
  refine ⟨hnode ?_, hrest⟩
  intro e he
  exact hoperands e (List.mem_reverse.mpr he)

/-- The machine with the value on top of the stack taken off. -/
theorem pop (h : m.WellFormed d) {e : Expr} {rest : List Expr}
    (hitems : m.stack.items = e :: rest) : e.WellFormed d ∧ (m.withItems rest).WellFormed d := by
  have hstack := h.stack
  rw [hitems, List.forall_mem_cons] at hstack
  exact ⟨hstack.1, hstack.2, h.locals, h.arguments⟩

theorem load (h : m.WellFormed d) {e : Expr} (hloaded : m.loaded? op = some e) :
    e.WellFormed d := by
  cases op with
  | ldarg index | ldarga index => exact h.arguments e (List.mem_of_getElem? hloaded)
  | ldloc index | ldloca index =>
    exact h.locals e (List.mem_of_getElem? (Option.join_eq_some_iff.mp hloaded))
  | _ => cases hloaded

theorem storeArgument (h : m.WellFormed d) {index : Nat} {e : Expr} (he : e.WellFormed d)
    (hset : m.setArgument index e = .ok m') : m'.WellFormed d := by
  obtain ⟨-, harguments, receiver, arguments, rfl⟩ := setArgument_ok hset
  refine ⟨h.stack, h.locals, ?_⟩
  intro e' hmem
  rw [harguments] at hmem
  -- An argument is the new one or one that was there before.
  rcases List.mem_or_eq_of_mem_set hmem with hold | rfl
  · exact h.arguments e' hold
  · exact he

theorem storeLocal (h : m.WellFormed d) {index : Nat} {e : Expr} (he : e.WellFormed d)
    (hset : m.setLocalVariable index e = .ok m') : m'.WellFormed d := by
  obtain ⟨-, rfl⟩ := setLocalVariable_ok_iff.mp hset
  refine ⟨h.stack, ?_, h.arguments⟩
  intro e' hmem
  rcases List.mem_or_eq_of_mem_set hmem with hold | hnew
  · exact h.locals e' hold
  · cases hnew
    exact he

/-- Every step keeps the rules. -/
theorem step (h : m.WellFormed d) (hstep : Step op m m') : m'.WellFormed d := by
  cases hstep with
  | nop => exact h
  | dup e rest hitems hput => exact h.replace (fun _ => (h.pop hitems).1) hput
  | pop e rest hitems => exact (h.pop hitems).2
  | ret body hitems => exact ⟨List.forall_mem_nil _, h.locals, h.arguments⟩
  | load e hloaded hput => exact h.replace (fun _ => h.load hloaded) hput
  | storeArgument e rest hitems hset =>
    obtain ⟨he, hrest⟩ := h.pop hitems
    exact hrest.storeArgument he hset
  | storeLocal e rest hitems hset =>
    obtain ⟨he, hrest⟩ := h.pop hitems
    exact hrest.storeLocal he hset
  | build hbuilds hput => exact h.replace hbuilds.wellFormed hput

theorem run {ops : List Operation} (h : m.WellFormed d) (hrun : Run ops m m') :
    m'.WellFormed d := by
  induction hrun with
  | nil => exact h
  | cons first rest ih => exact ih (h.step first)

/-- Before anything is executed, the machine holds only parameters and
    constants. -/
theorem initial (d : Delegate) : (Machine.initial d).WellFormed d := by
  refine ⟨List.forall_mem_nil _, ?_, ?_⟩
  · intro e hmem
    obtain ⟨type, -, hinitial⟩ := List.mem_map.mp hmem
    rw [Method.initialLocal_eq_some hinitial]
    exact Expr.wellFormed_constant _ _
  · intro e hmem
    rw [initial_argumentValues] at hmem
    rcases Delegate.argumentNodes_cases hmem with ⟨p, hp, rfl⟩ | ⟨hstatic, htarget, rfl⟩ |
      ⟨value, rfl⟩
    · exact Expr.wellFormed_of_operands_eq_nil (.inl hp) rfl
    · exact Expr.wellFormed_of_operands_eq_nil (.inr ⟨hstatic, htarget, rfl⟩) rfl
    · exact Expr.wellFormed_constant _ _

end Machine.WellFormed

/-! ## Lifting -/

/-- Whatever is lifted is a function of the method's parameters and of the
    delegate's type, and all of its body keeps the rules. -/
theorem lift_wellFormed {r : Resolver} {d : Delegate} {tree : Expr} (h : d.lift r = .ok tree) :
    ∃ body, tree = .lambda d.method.parameters body d.type ∧
      ∀ node ∈ body.postorder, node.WellBuilt d := by
  obtain ⟨ops, m, body, -, -, -, hrun, hitems, rfl⟩ := lift_ok_iff.mp h
  refine ⟨body, rfl, ?_⟩
  have hfinal := (Machine.WellFormed.initial d).run hrun
  exact hfinal.stack body (by simp [hitems])

/-! ### A constructor with a retyped constant -/

namespace Pairing

def pair : ConstructorRef where
  declaringType := .named ⟨"Pair", .reference, [], none⟩
  parameters := [⟨"first", .prim .int64⟩, ⟨"second", .prim .int32⟩]

def resolver : Resolver :=
  (SymbolTable.ofList [(⟨0x0a000001⟩, .ctor pair)]).resolver

def items : Param := ⟨"items", .array (.prim .string)⟩

/-- The literal goes through a local variable before it is passed. -/
def code : List Instruction :=
  [⟨.ldcI4S, (1 : Int8)⟩, ⟨.stlocS, (0 : UInt8)⟩, ⟨.ldlocS, (0 : UInt8)⟩,
    ⟨.ldargS, (0 : UInt8)⟩, ⟨.ldlen, ()⟩, ⟨.newobj, (⟨0x0a000001⟩ : Token)⟩, .ret]

def delegate : Delegate where
  type := .prim .object
  method :=
    { declaringType := .prim .object
      parameters := [items]
      attributes := ⟨0x0010⟩
      code := Instruction.encodeAll code
      maxStack := 2
      locals := [.prim .int32]
      initLocals := false }
  target := none

def body : Expr :=
  .new pair
    [.constant (.int32 1) (.prim .int64), .unary .arrayLength (.parameter items) (.prim .int32)]

theorem lift_code :
    delegate.lift resolver = .ok (.lambda [items] body (.prim .object)) := by
  have hrun : Machine.Run
      [.ldcI4 1, .stloc 0, .ldloc 0, .ldarg 0, .ldlen, .newobj pair] (.initial delegate) _ :=
    .build (.ldcI4 1) rfl (by decide) <|
    .cons (.storeLocal _ _ rfl rfl) <|
    .load rfl (by decide) <|
    .load rfl (by decide) <|
    .build (.ldlen _ rfl) rfl (by decide) <|
    .build (.newobj pair [_, _] rfl) rfl (by decide) <|
    .nil _
  exact lift_of_run rfl rfl rfl hrun rfl

theorem wellBuilt_delegate :
    delegate.lift resolver = .ok (.lambda [items] body (.prim .object)) ∧
      ∀ node ∈ body.postorder, node.WellBuilt delegate := by
  obtain ⟨_, hlambda, hnodes⟩ := lift_wellFormed lift_code
  obtain ⟨-, rfl, -⟩ := Expr.lambda.inj hlambda
  exact ⟨lift_code, hnodes⟩

end Pairing

end CilLift
