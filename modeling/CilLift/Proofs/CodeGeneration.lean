import CilLift.Proofs.Run
import CilLift.Proofs.Tree

/-! # Code of expressions

    An expression of the raw language is one that code can compute node by
    node. Its code lists its nodes in post-order and has one instruction for
    each of them; where a node can be computed by several instructions, any of
    them may be chosen.

    Main statement: `lift_code_iff` says that every raw expression has code,
    and that lifting any of its code gives the expression back exactly when
    the method's stack is as deep as the expression needs.
-/

namespace CilLift

/-! ## The raw language -/

/-- The type that a literal of this value has in code, if there is one. -/
def Value.literalType? : Value → Option Ty
  | .null => some (.prim .object)
  | .int32 _ => some (.prim .int32)
  | .int64 _ => some (.prim .int64)
  | .single _ => some (.prim .single)
  | .double _ => some (.prim .double)
  | .string _ => some (.prim .string)
  | _ => none

namespace Expr

/-- A constant that is no argument has the type of its literal. -/
def LiteralTyped : Expr → Prop
  | .constant value type => value.literalType? = some type
  | _ => True

/-- A constant that is passed for a parameter has the type of its literal if
    the parameter accepts that, and the parameter's type otherwise. -/
def PassedFor (p : Param) : Expr → Prop
  | .constant value type =>
    ∃ literal, value.literalType? = some literal ∧
      type = if p.type.accepts literal then literal else p.type
  | _ => True

/-- The conditions on one node of a raw expression: its members and types have
    tokens, its own type follows from its operands, and a call has one operand
    for each parameter and for a receiver exactly if the method has one. -/
def RawNode (r : Resolver) (d : Delegate) : Expr → Prop
  | .constant value _ =>
    value.literalType?.isSome ∧ ∀ text, value = .string text → ∃ token, r.string token = some text
  | .parameter p => ∃ index < 256, d.argumentNodes[index]? = some (.parameter p)
  | .field receiver f =>
    (∃ token, r.field token = some f) ∧ ∀ e, receiver = some e → e.LiteralTyped
  | .binary op left right type =>
    op ≠ .notEqual ∧ type = (if op.isComparison then .prim .boolean else left.type) ∧
      left.LiteralTyped ∧ right.LiteralTyped
  | .unary .convert operand type =>
    ((∃ token, r.type token = some type) ∨ ∃ c : Conv, c.type = type) ∧ operand.LiteralTyped
  | .unary .typeAs operand type => (∃ token, r.type token = some type) ∧ operand.LiteralTyped
  | .unary .arrayLength operand type =>
    operand.type.element?.isSome ∧ type = .prim .int32 ∧ operand.LiteralTyped
  | .unary .negate operand type | .unary .not operand type =>
    type = operand.type ∧ operand.LiteralTyped
  | .call receiver method arguments =>
    (∃ token, r.method token = some method) ∧ (receiver.isSome ↔ method.isStatic = false) ∧
      (∀ e, receiver = some e → e.LiteralTyped) ∧
      List.Forall₂ PassedFor method.parameters arguments
  | .new ctor arguments =>
    (∃ token, r.ctor token = some ctor) ∧ List.Forall₂ PassedFor ctor.parameters arguments
  | .newArray element length => (∃ token, r.type token = some element) ∧ length.LiteralTyped
  | .index array position type =>
    (match array.type.element? with
      | some element => type = element
      | none => (∃ token, r.type token = some type) ∨ ∃ kind : Elem, kind.type = type) ∧
      array.LiteralTyped ∧ position.LiteralTyped
  | .lambda .. | .property .. | .indexer .. | .assign .. | .event .. => False

/-- The expressions that code can compute node by node. -/
def Raw (r : Resolver) (d : Delegate) (e : Expr) : Prop :=
  e.LiteralTyped ∧ ∀ node ∈ e.postorder, node.RawNode r d

end Expr

/-! ## Code -/

/-- The instruction computes the node once its operands are on the stack. -/
inductive Instruction.Computes (r : Resolver) (d : Delegate) : Instruction → Expr → Prop where
  | ldnull (type : Ty) : Computes r d ⟨.ldnull, ()⟩ (.constant .null type)
  | ldcI4M1 (type : Ty) : Computes r d ⟨.ldcI4M1, ()⟩ (.constant (.int32 (-1)) type)
  | ldcI4Short (n : Fin 9) (type : Ty) :
    Computes r d ⟨.ldcI4Short n, ()⟩ (.constant (.int32 (Int32.ofNat n)) type)
  | ldcI4S (v : Int8) (type : Ty) : Computes r d ⟨.ldcI4S, v⟩ (.constant (.int32 v.toInt32) type)
  | ldcI4 (v : Int32) (type : Ty) : Computes r d ⟨.ldcI4, v⟩ (.constant (.int32 v) type)
  | ldcI8 (v : Int64) (type : Ty) : Computes r d ⟨.ldcI8, v⟩ (.constant (.int64 v) type)
  | ldcR4 (bits : UInt32) (type : Ty) :
    Computes r d ⟨.ldcR4, bits⟩ (.constant (.single bits) type)
  | ldcR8 (bits : UInt64) (type : Ty) :
    Computes r d ⟨.ldcR8, bits⟩ (.constant (.double bits) type)
  | ldstr (token : Token) (text : String) (type : Ty) (htoken : r.string token = some text) :
    Computes r d ⟨.ldstr, token⟩ (.constant (.string text) type)
  | ldarg (n : Fin 4) (p : Param) (hnode : d.argumentNodes[n.val]? = some (.parameter p)) :
    Computes r d ⟨.ldarg n, ()⟩ (.parameter p)
  | ldargS (index : UInt8) (p : Param)
    (hnode : d.argumentNodes[index.toNat]? = some (.parameter p)) :
    Computes r d ⟨.ldargS, index⟩ (.parameter p)
  | ldargaS (index : UInt8) (p : Param)
    (hnode : d.argumentNodes[index.toNat]? = some (.parameter p)) :
    Computes r d ⟨.ldargaS, index⟩ (.parameter p)
  | ldfld (token : Token) (e : Expr) (f : FieldRef) (htoken : r.field token = some f) :
    Computes r d ⟨.ldfld, token⟩ (.field (some e) f)
  | ldflda (token : Token) (e : Expr) (f : FieldRef) (htoken : r.field token = some f) :
    Computes r d ⟨.ldflda, token⟩ (.field (some e) f)
  | ldsfld (token : Token) (f : FieldRef) (htoken : r.field token = some f) :
    Computes r d ⟨.ldsfld, token⟩ (.field none f)
  | ldsflda (token : Token) (f : FieldRef) (htoken : r.field token = some f) :
    Computes r d ⟨.ldsflda, token⟩ (.field none f)
  | arith (a : Arith) (left right : Expr) (type : Ty) :
    Computes r d ⟨.arith a, ()⟩ (.binary a.operator left right type)
  | neg (e : Expr) (type : Ty) : Computes r d ⟨.neg, ()⟩ (.unary .negate e type)
  | not (e : Expr) (type : Ty) : Computes r d ⟨.not, ()⟩ (.unary .not e type)
  | conv (c : Conv) (e : Expr) : Computes r d ⟨.conv c, ()⟩ (.unary .convert e c.type)
  | box (token : Token) (e : Expr) (boxed : Ty) (htoken : r.type token = some boxed) :
    Computes r d ⟨.box, token⟩ (.unary .convert e (.prim .object))
  | castclass (token : Token) (e : Expr) (type : Ty) (htoken : r.type token = some type) :
    Computes r d ⟨.castclass, token⟩ (.unary .convert e type)
  | isinst (token : Token) (e : Expr) (type : Ty) (htoken : r.type token = some type) :
    Computes r d ⟨.isinst, token⟩ (.unary .typeAs e type)
  | ldlen (e : Expr) (type : Ty) : Computes r d ⟨.ldlen, ()⟩ (.unary .arrayLength e type)
  | call (token : Token) (receiver : Option Expr) (method : MethodRef) (arguments : List Expr)
    (htoken : r.method token = some method) :
    Computes r d ⟨.call, token⟩ (.call receiver method arguments)
  | callvirt (token : Token) (receiver : Option Expr) (method : MethodRef)
    (arguments : List Expr) (htoken : r.method token = some method) :
    Computes r d ⟨.callvirt, token⟩ (.call receiver method arguments)
  | newobj (token : Token) (ctor : ConstructorRef) (arguments : List Expr)
    (htoken : r.ctor token = some ctor) : Computes r d ⟨.newobj, token⟩ (.new ctor arguments)
  | newarr (token : Token) (element : Ty) (length : Expr) (htoken : r.type token = some element) :
    Computes r d ⟨.newarr, token⟩ (.newArray element length)
  | ldelem (token : Token) (array position : Expr) (type named : Ty)
    (htoken : r.type token = some named) (htype : array.type.element? = none → named = type) :
    Computes r d ⟨.ldelem, token⟩ (.index array position type)
  | ldelemOf (kind : Elem) (array position : Expr) (type : Ty)
    (htype : array.type.element? = none → kind.type = type) :
    Computes r d ⟨.ldelemOf kind, ()⟩ (.index array position type)

/-- The instructions compute the nodes of the expression in post-order. -/
def Expr.CodeFor (r : Resolver) (d : Delegate) (e : Expr) (code : List Instruction) : Prop :=
  List.Forall₂ (fun node i => Instruction.Computes r d i node) e.postorder code

/-! ### Stack need -/

/-- The depth that computing some values one after the other reaches, given
    the depth that each of them reaches alone. -/
def deepest : List Nat → Nat
  | [] => 0
  | need :: needs => max need (deepest needs + 1)

theorem length_le_deepest (needs : List Nat) : needs.length ≤ deepest needs := by
  induction needs with
  | nil => exact Nat.le_refl 0
  | cons need needs ih =>
    rw [List.length_cons, deepest]
    omega

/-- The depth that computing the expression reaches. -/
def Expr.stackNeed (e : Expr) : Nat :=
  max 1 (deepest (e.operands.attach.map fun ⟨operand, _⟩ => operand.stackNeed))
termination_by sizeOf e
decreasing_by exact Expr.sizeOf_lt_of_mem_operands ‹_›

theorem Expr.stackNeed_eq (e : Expr) :
    e.stackNeed = max 1 (deepest (e.operands.map stackNeed)) := by
  rw [stackNeed]
  simp

/-! ## Every raw expression has code -/

/-- Every argument that has a number in a byte can be loaded. -/
theorem exists_computes_parameter {r : Resolver} {d : Delegate} {p : Param}
    (h : ∃ index < 256, d.argumentNodes[index]? = some (.parameter p)) :
    ∃ i, Instruction.Computes r d i (.parameter p) := by
  obtain ⟨index, hlt, hnode⟩ := h
  have hindex : (UInt8.ofNat index).toNat = index := by
    rw [UInt8.toNat_ofNat']
    omega
  exact ⟨_, .ldargS (UInt8.ofNat index) p (by rw [hindex]; exact hnode)⟩

theorem exists_computes_constant {r : Resolver} {d : Delegate} {value : Value} {type : Ty}
    (h : (Expr.constant value type).RawNode r d) :
    ∃ i, Instruction.Computes r d i (.constant value type) := by
  obtain ⟨hliteral, hstring⟩ := h
  cases value with
  | null => exact ⟨_, .ldnull type⟩
  | int32 v => exact ⟨_, .ldcI4 v type⟩
  | int64 v => exact ⟨_, .ldcI8 v type⟩
  | single bits => exact ⟨_, .ldcR4 bits type⟩
  | double bits => exact ⟨_, .ldcR8 bits type⟩
  | string text =>
    obtain ⟨token, htoken⟩ := hstring text rfl
    exact ⟨_, .ldstr token text type htoken⟩
  | _ => cases hliteral

theorem exists_computes_binary {r : Resolver} {d : Delegate} {op : BinaryOp} (hop : op ≠ .notEqual)
    (left right : Expr) (type : Ty) :
    ∃ i, Instruction.Computes r d i (.binary op left right type) := by
  -- Every other operator is the operator of a signed instruction.
  have harith : ∃ a : Arith, a.operator = op := by
    cases op with
    | add => exact ⟨.add, rfl⟩
    | subtract => exact ⟨.sub, rfl⟩
    | multiply => exact ⟨.mul, rfl⟩
    | divide => exact ⟨.div, rfl⟩
    | modulo => exact ⟨.rem, rfl⟩
    | and => exact ⟨.and, rfl⟩
    | or => exact ⟨.or, rfl⟩
    | exclusiveOr => exact ⟨.xor, rfl⟩
    | leftShift => exact ⟨.shl, rfl⟩
    | rightShift => exact ⟨.shr, rfl⟩
    | equal => exact ⟨.ceq, rfl⟩
    | notEqual => exact absurd rfl hop
    | greaterThan => exact ⟨.cgt, rfl⟩
    | lessThan => exact ⟨.clt, rfl⟩
  obtain ⟨a, rfl⟩ := harith
  exact ⟨_, .arith a left right type⟩

/-- Every node of a raw expression is computed by some instruction. -/
theorem exists_computes {r : Resolver} {d : Delegate} {node : Expr} (h : node.RawNode r d) :
    ∃ i, Instruction.Computes r d i node := by
  cases node with
  | constant value type => exact exists_computes_constant h
  | parameter p => exact exists_computes_parameter h
  | field receiver f =>
    obtain ⟨⟨token, htoken⟩, -⟩ := h
    cases receiver with
    | none => exact ⟨_, .ldsfld token f htoken⟩
    | some e => exact ⟨_, .ldfld token e f htoken⟩
  | binary op left right type => exact exists_computes_binary h.1 left right type
  | unary op operand type =>
    cases op with
    | convert =>
      obtain ⟨⟨token, htoken⟩ | ⟨c, rfl⟩, -⟩ := h
      · exact ⟨_, .castclass token operand type htoken⟩
      · exact ⟨_, .conv c operand⟩
    | negate => exact ⟨_, .neg operand type⟩
    | not => exact ⟨_, .not operand type⟩
    | typeAs =>
      obtain ⟨⟨token, htoken⟩, -⟩ := h
      exact ⟨_, .isinst token operand type htoken⟩
    | arrayLength => exact ⟨_, .ldlen operand type⟩
  | call receiver method arguments =>
    obtain ⟨⟨token, htoken⟩, -⟩ := h
    exact ⟨_, .call token receiver method arguments htoken⟩
  | new ctor arguments =>
    obtain ⟨⟨token, htoken⟩, -⟩ := h
    exact ⟨_, .newobj token ctor arguments htoken⟩
  | newArray element length =>
    obtain ⟨⟨token, htoken⟩, -⟩ := h
    exact ⟨_, .newarr token element length htoken⟩
  | index array position type =>
    obtain ⟨htype, -⟩ := h
    cases helement : array.type.element? with
    | some element =>
      -- The opcode's own type does not matter for an array.
      exact ⟨_, .ldelemOf .ref array position type (by simp [helement])⟩
    | none =>
      rw [helement] at htype
      obtain ⟨token, htoken⟩ | ⟨kind, hkind⟩ := htype
      · exact ⟨_, .ldelem token array position type type htoken (fun _ => rfl)⟩
      · exact ⟨_, .ldelemOf kind array position type (fun _ => hkind)⟩
  | lambda | property | indexer | assign | event => cases h

theorem exists_code {r : Resolver} {d : Delegate} {e : Expr} (h : e.Raw r d) :
    ∃ code, e.CodeFor r d code := by
  -- Instructions are chosen one by one, so any list of nodes will do.
  have hnodes : ∀ nodes : List Expr, (∀ node ∈ nodes, node.RawNode r d) →
      ∃ code, List.Forall₂ (fun node i => Instruction.Computes r d i node) nodes code := by
    intro nodes hraw
    induction nodes with
    | nil => exact ⟨[], .nil⟩
    | cons node nodes ih =>
      obtain ⟨i, hi⟩ := exists_computes (hraw node (by simp))
      obtain ⟨code, hcode⟩ := ih fun n hn => hraw n (List.mem_cons_of_mem _ hn)
      exact ⟨i :: code, .cons hi hcode⟩
  exact hnodes e.postorder h.2

/-! ## What code does -/

namespace Expr

/-- The node as its own instruction leaves it: a constant has the type of its
    literal, whatever it is going to be passed for. -/
def loaded : Expr → Expr
  | .constant value type => .constant value (value.literalType?.getD type)
  | e => e

theorem LiteralTyped.loaded_eq {e : Expr} (h : e.LiteralTyped) : e.loaded = e := by
  cases e with
  | constant value type =>
    have htype : value.literalType? = some type := h
    simp [loaded, htype]
  | _ => rfl

/-- Passing a constant for a parameter gives it the type it has there. -/
theorem PassedFor.passed_loaded {p : Param} {e : Expr} (h : e.PassedFor p) :
    Machine.passed e.loaded p = e := by
  cases e with
  | constant value type =>
    obtain ⟨literal, hliteral, rfl⟩ := h
    by_cases haccepts : p.type.accepts literal
    · simp [loaded, Machine.passed, hliteral, haccepts]
    · simp [loaded, Machine.passed, hliteral, haccepts]
  | _ => rfl

theorem zipWith_passed_loaded {ps : List Param} {es : List Expr}
    (h : List.Forall₂ PassedFor ps es) : (es.map loaded).zipWith Machine.passed ps = es := by
  induction h with
  | nil => rfl
  | cons hfirst hrest ih =>
    rw [List.map_cons, List.zipWith_cons_cons, hfirst.passed_loaded, ih]

end Expr

/-- The operation leaves the node once its operands are on the stack of a
    machine whose arguments are as at the start. -/
def Operation.Leaves (d : Delegate) (op : Operation) (node : Expr) : Prop :=
  op.Builds (node.operands.map Expr.loaded) node.loaded ∨
    (∃ index : UInt8, (op = .ldarg index ∨ op = .ldarga index) ∧
      d.argumentNodes[index.toNat]? = some node) ∧ node.operands = [] ∧ node.loaded = node

section Instructions

variable {r : Resolver} {d : Delegate}

theorem leaves_of_computes_call {receiver : Option Expr} {method : MethodRef}
    {arguments : List Expr} {op : Operation} (hop : op = .call method ∨ op = .callvirt method)
    (h : (Expr.call receiver method arguments).RawNode r d) :
    op.Leaves d (.call receiver method arguments) := by
  obtain ⟨-, hreceiver, htyped, hpassed⟩ := h
  have hlen : (arguments.map Expr.loaded).length = method.parameters.length := by
    rw [List.length_map, hpassed.length_eq]
  have harguments := Expr.zipWith_passed_loaded hpassed
  -- The literals are loaded with their own types and retyped by the call.
  left
  cases receiver with
  | none =>
    have hstatic : method.isStatic = true := by simpa using hreceiver
    have hbuilds := Operation.Builds.callStatic method _ hop hstatic hlen
    rw [harguments] at hbuilds
    exact hbuilds
  | some e =>
    have hstatic : method.isStatic = false := by simpa using hreceiver
    have hbuilds := Operation.Builds.callInstance method e _ hop hstatic hlen
    rw [harguments] at hbuilds
    simp only [Expr.operands, Option.toList_some, List.singleton_append, List.map_cons,
      (htyped e rfl).loaded_eq]
    exact hbuilds

/-- A node with one operand that is no argument. -/
theorem leaves_of_builds_one {op : Operation} {node operand : Expr}
    (hoperand : operand.LiteralTyped) (hoperands : node.operands = [operand])
    (hnode : node.loaded = node) (hbuilds : op.Builds [operand] node) : op.Leaves d node := by
  left
  rw [hoperands, hnode, List.map_singleton, hoperand.loaded_eq]
  exact hbuilds

/-- A node with two operands that are no arguments. -/
theorem leaves_of_builds_two {op : Operation} {node left right : Expr}
    (hleft : left.LiteralTyped) (hright : right.LiteralTyped)
    (hoperands : node.operands = [left, right]) (hnode : node.loaded = node)
    (hbuilds : op.Builds [left, right] node) : op.Leaves d node := by
  left
  rw [hoperands, hnode, List.map_cons, List.map_singleton, hleft.loaded_eq, hright.loaded_eq]
  exact hbuilds

theorem leaves_of_index {op : Operation} {array position : Expr} {type named : Ty}
    (hop : op = .ldelem named) (htype : array.type.element? = none → named = type)
    (h : (Expr.index array position type).RawNode r d) :
    op.Leaves d (.index array position type) := by
  obtain ⟨hraw, harray, hposition⟩ := h
  have hgetD : array.type.element?.getD named = type := by
    cases helement : array.type.element? with
    | none => exact htype helement
    | some element =>
      rw [helement] at hraw
      exact hraw.symm
  -- An array decides the type of its elements, else the instruction does.
  have hbuilds := Operation.Builds.ldelem named array position
  rw [hgetD] at hbuilds
  subst hop
  exact leaves_of_builds_two harray hposition rfl rfl hbuilds

/-- The instruction that computes a node asks for an operation that leaves
    it. -/
theorem leaves_of_computes {i : Instruction} {node : Expr} (hraw : node.RawNode r d)
    (h : i.Computes r d node) : ∃ op, i.operation r 0 = .ok op ∧ op.Leaves d node := by
  cases h with
  | ldnull => exact ⟨_, rfl, .inl .ldnull⟩
  | ldcI4M1 | ldcI4Short | ldcI4S | ldcI4 => exact ⟨_, rfl, .inl (.ldcI4 _)⟩
  | ldcI8 => exact ⟨_, rfl, .inl (.ldcI8 _)⟩
  | ldcR4 => exact ⟨_, rfl, .inl (.ldcR4 _)⟩
  | ldcR8 => exact ⟨_, rfl, .inl (.ldcR8 _)⟩
  | ldstr token text type htoken =>
    exact ⟨_, resolved_ok_iff.mpr ⟨text, htoken, rfl⟩, .inl (.ldstr text)⟩
  | ldarg n p hnode =>
    have hn : (UInt8.ofNat n.val).toNat = n.val := by
      rw [UInt8.toNat_ofNat']
      omega
    exact ⟨_, rfl, .inr ⟨⟨UInt8.ofNat n, .inl rfl, by rw [hn]; exact hnode⟩, rfl, rfl⟩⟩
  | ldargS index p hnode => exact ⟨_, rfl, .inr ⟨⟨index, .inl rfl, hnode⟩, rfl, rfl⟩⟩
  | ldargaS index p hnode => exact ⟨_, rfl, .inr ⟨⟨index, .inr rfl, hnode⟩, rfl, rfl⟩⟩
  | ldfld token e f htoken =>
    exact ⟨_, resolved_ok_iff.mpr ⟨f, htoken, rfl⟩,
      leaves_of_builds_one (hraw.2 e rfl) rfl rfl (.field f e (.inl rfl))⟩
  | ldflda token e f htoken =>
    exact ⟨_, resolved_ok_iff.mpr ⟨f, htoken, rfl⟩,
      leaves_of_builds_one (hraw.2 e rfl) rfl rfl (.field f e (.inr rfl))⟩
  | ldsfld token f htoken =>
    exact ⟨_, resolved_ok_iff.mpr ⟨f, htoken, rfl⟩, .inl (.staticField f (.inl rfl))⟩
  | ldsflda token f htoken =>
    exact ⟨_, resolved_ok_iff.mpr ⟨f, htoken, rfl⟩, .inl (.staticField f (.inr rfl))⟩
  | arith a left right type =>
    obtain ⟨-, rfl, hleft, hright⟩ := hraw
    exact ⟨_, rfl, leaves_of_builds_two hleft hright rfl rfl (.arith a left right)⟩
  | neg e type =>
    obtain ⟨rfl, he⟩ := hraw
    exact ⟨_, rfl, leaves_of_builds_one he rfl rfl (.neg e)⟩
  | not e type =>
    obtain ⟨rfl, he⟩ := hraw
    exact ⟨_, rfl, leaves_of_builds_one he rfl rfl (.not e)⟩
  | conv c e => exact ⟨_, rfl, leaves_of_builds_one hraw.2 rfl rfl (.conv c e)⟩
  | box token e boxed htoken =>
    exact ⟨_, resolved_ok_iff.mpr ⟨boxed, htoken, rfl⟩,
      leaves_of_builds_one hraw.2 rfl rfl (.box boxed e)⟩
  | castclass token e type htoken =>
    exact ⟨_, resolved_ok_iff.mpr ⟨type, htoken, rfl⟩,
      leaves_of_builds_one hraw.2 rfl rfl (.castclass type e)⟩
  | isinst token e type htoken =>
    exact ⟨_, resolved_ok_iff.mpr ⟨type, htoken, rfl⟩,
      leaves_of_builds_one hraw.2 rfl rfl (.isinst type e)⟩
  | ldlen e type =>
    obtain ⟨harray, rfl, he⟩ := hraw
    exact ⟨_, rfl, leaves_of_builds_one he rfl rfl (.ldlen e harray)⟩
  | call token receiver method arguments htoken =>
    exact ⟨_, resolved_ok_iff.mpr ⟨method, htoken, rfl⟩, leaves_of_computes_call (.inl rfl) hraw⟩
  | callvirt token receiver method arguments htoken =>
    exact ⟨_, resolved_ok_iff.mpr ⟨method, htoken, rfl⟩, leaves_of_computes_call (.inr rfl) hraw⟩
  | newobj token ctor arguments htoken =>
    obtain ⟨-, hpassed⟩ := hraw
    have hlen : (arguments.map Expr.loaded).length = ctor.parameters.length := by
      rw [List.length_map, hpassed.length_eq]
    have hbuilds := Operation.Builds.newobj ctor _ hlen
    rw [Expr.zipWith_passed_loaded hpassed] at hbuilds
    exact ⟨_, resolved_ok_iff.mpr ⟨ctor, htoken, rfl⟩, .inl hbuilds⟩
  | newarr token element length htoken =>
    exact ⟨_, resolved_ok_iff.mpr ⟨element, htoken, rfl⟩,
      leaves_of_builds_one hraw.2 rfl rfl (.newarr element length)⟩
  | ldelem token array position type named htoken htype =>
    exact ⟨_, resolved_ok_iff.mpr ⟨named, htoken, rfl⟩, leaves_of_index rfl htype hraw⟩
  | ldelemOf kind array position type htype => exact ⟨_, rfl, leaves_of_index rfl htype hraw⟩

theorem Operation.Leaves.ne_ret {op : Operation} {node : Expr} (h : op.Leaves d node) :
    op ≠ .ret := by
  intro hret
  subst hret
  rcases h with hbuilds | ⟨⟨index, hop, -⟩, -⟩
  · obtain ⟨-, hresults⟩ := hbuilds.effect
    cases hresults
  · rcases hop with hop | hop <;> cases hop

end Instructions

/-! ## Runs of code -/

theorem forall₂_append_left {α β : Type} {p : α → β → Prop} {as bs : List α} {cs : List β}
    (h : List.Forall₂ p (as ++ bs) cs) :
    ∃ cs₁ cs₂, cs = cs₁ ++ cs₂ ∧ List.Forall₂ p as cs₁ ∧ List.Forall₂ p bs cs₂ := by
  induction as generalizing cs with
  | nil => exact ⟨[], cs, rfl, .nil, h⟩
  | cons a as ih =>
    cases h with
    | cons hfirst hrest =>
      obtain ⟨cs₁, cs₂, rfl, has, hbs⟩ := ih hrest
      exact ⟨_ :: cs₁, cs₂, rfl, .cons hfirst has, hbs⟩

namespace Machine

variable {d : Delegate} {m m' : Machine}

/-- An operation that leaves a node puts it in place of its operands, if there
    is room for it. -/
theorem step_leaves_iff (m : Machine) {op : Operation} {node : Expr} {rest : List Expr}
    (h : op.Leaves d node) (harguments : m.argumentValues = d.argumentNodes)
    (hitems : m.stack.items = (node.operands.map Expr.loaded).reverse ++ rest)
    (hle : m.stack.items.length ≤ m.stack.capacity) :
    Step op m m' ↔ rest.length < m.stack.capacity ∧ m' = m.withItems (node.loaded :: rest) := by
  -- Both kinds of operation have the same effect on the depth and one outcome.
  have heffect : op.arity = node.operands.length ∧ op.results = 1 := by
    rcases h with hbuilds | ⟨⟨index, hop, -⟩, hoperands, -⟩
    · simpa using hbuilds.effect
    · rw [hoperands]
      rcases hop with rfl | rfl <;> exact ⟨rfl, rfl⟩
  have hstep : rest.length < m.stack.capacity → Step op m (m.withItems (node.loaded :: rest)) := by
    intro hroom
    rcases h with hbuilds | ⟨⟨index, hop, hnode⟩, hoperands, hloaded⟩
    · exact .build hbuilds ⟨rest, hitems, hroom, rfl⟩
    · rw [hoperands] at hitems
      rw [hloaded]
      refine .load node ?_ ⟨rest, hitems, hroom, rfl⟩
      rw [← harguments] at hnode
      rcases hop with rfl | rfl <;> exact hnode
  constructor
  · intro h'
    have hdepth := h'.length_items
    have hle' := h'.length_items_le hle
    rw [h'.frame.2.2] at hle'
    rw [hitems, heffect.1, heffect.2] at hdepth
    simp only [List.length_append, List.length_reverse, List.length_map] at hdepth
    have hroom : rest.length < m.stack.capacity := by omega
    -- Execution has one outcome, so the step taken is the one above.
    have hexecute := execute_ok_iff.mpr h'
    rw [execute_ok_iff.mpr (hstep hroom)] at hexecute
    cases hexecute
    exact ⟨hroom, rfl⟩
  · intro h
    obtain ⟨hroom, rfl⟩ := h
    exact hstep hroom

/-- What runs of the code of one expression do. -/
def RunsAs (d : Delegate) (e : Expr) : Prop :=
  ∀ (ops : List Operation) (m m' : Machine),
    List.Forall₂ (fun node op => Operation.Leaves d op node) e.postorder ops →
    m.argumentValues = d.argumentNodes → m.stack.items.length ≤ m.stack.capacity →
    (Run ops m m' ↔ m.stack.items.length + e.stackNeed ≤ m.stack.capacity ∧
      m' = m.withItems (e.loaded :: m.stack.items))

theorem run_operands_iff {es : List Expr} (hes : ∀ e ∈ es, RunsAs d e) {ops : List Operation}
    (hops : List.Forall₂ (fun node op => Operation.Leaves d op node)
      (es.flatMap Expr.postorder) ops)
    (harguments : m.argumentValues = d.argumentNodes)
    (hle : m.stack.items.length ≤ m.stack.capacity) :
    Run ops m m' ↔
      m.stack.items.length + deepest (es.map Expr.stackNeed) ≤ m.stack.capacity ∧
        m' = m.withItems ((es.map Expr.loaded).reverse ++ m.stack.items) := by
  -- The machine changes from operand to operand, and so does its depth.
  induction es generalizing ops m with
  | nil =>
    cases hops
    constructor
    · intro h
      cases h
      exact ⟨hle, rfl⟩
    · intro h
      obtain ⟨-, rfl⟩ := h
      exact .nil m
  | cons e es ih =>
    rw [List.flatMap_cons] at hops
    obtain ⟨first, others, rfl, hfirst, hothers⟩ := forall₂_append_left hops
    have hneed : 1 ≤ e.stackNeed := by
      rw [Expr.stackNeed_eq]
      exact Nat.le_max_left _ _
    have hfirst_iff := fun mid => hes e (by simp) first m mid hfirst harguments hle
    -- With the first operand computed, the others run on a deeper stack.
    have hothers_iff : m.stack.items.length + 1 ≤ m.stack.capacity →
        (Run others (m.withItems (e.loaded :: m.stack.items)) m' ↔
          m.stack.items.length + 1 + deepest (es.map Expr.stackNeed) ≤ m.stack.capacity ∧
            m' = m.withItems ((es.map Expr.loaded).reverse ++ e.loaded :: m.stack.items)) :=
      fun hroom => ih (fun e' he' => hes e' (List.mem_cons_of_mem _ he')) hothers harguments hroom
    rw [run_append_iff, List.map_cons, deepest, List.map_cons, List.reverse_cons,
      List.append_assoc, List.singleton_append]
    constructor
    · intro h
      obtain ⟨mid, hmid, hrest⟩ := h
      obtain ⟨hroom, rfl⟩ := (hfirst_iff mid).mp hmid
      obtain ⟨hdeep, rfl⟩ := (hothers_iff (by omega)).mp hrest
      exact ⟨by omega, rfl⟩
    · intro h
      obtain ⟨hdeep, rfl⟩ := h
      refine ⟨_, (hfirst_iff _).mpr ⟨by omega, rfl⟩, (hothers_iff (by omega)).mpr ⟨by omega, rfl⟩⟩

/-- The code of an expression leaves the expression on the stack, and does so
    exactly when the stack may become as deep as the expression needs. -/
theorem runsAs (d : Delegate) (e : Expr) : RunsAs d e := by
  -- The operands run first; then the node's own operation takes their place.
  induction e using Expr.operand_induction with
  | node e ih =>
    intro ops m m' hops harguments hle
    rw [Expr.postorder_eq] at hops
    obtain ⟨operandOps, own, rfl, hoperands, hown⟩ := forall₂_append_left hops
    obtain ⟨op, rfl, hop⟩ : ∃ op, own = [op] ∧ op.Leaves d e := by
      cases hown with
      | cons hop hnil =>
        cases hnil
        exact ⟨_, rfl, hop⟩
    have hlength := length_le_deepest (e.operands.map Expr.stackNeed)
    rw [List.length_map] at hlength
    have hown_iff : m.stack.items.length + deepest (e.operands.map Expr.stackNeed) ≤
        m.stack.capacity →
        (Run [op] (m.withItems ((e.operands.map Expr.loaded).reverse ++ m.stack.items)) m' ↔
          m.stack.items.length < m.stack.capacity ∧
            m' = m.withItems (e.loaded :: m.stack.items)) := by
      intro hdeep
      rw [run_singleton_iff]
      refine step_leaves_iff (m.withItems _) hop harguments rfl ?_
      simp only [withItems_items, withItems_capacity, List.length_append, List.length_reverse,
        List.length_map]
      omega
    rw [run_append_iff, Expr.stackNeed_eq]
    constructor
    · intro h
      obtain ⟨mid, hmid, hlast⟩ := h
      obtain ⟨hdeep, rfl⟩ := (run_operands_iff ih hoperands harguments hle).mp hmid
      obtain ⟨hroom, rfl⟩ := (hown_iff hdeep).mp hlast
      exact ⟨by omega, rfl⟩
    · intro h
      obtain ⟨hneed, rfl⟩ := h
      refine ⟨_, (run_operands_iff ih hoperands harguments hle).mpr ⟨by omega, rfl⟩, ?_⟩
      exact (hown_iff (by omega)).mpr ⟨by omega, rfl⟩

end Machine

/-! ## Lifting code -/

/-- The operations that the code of a raw expression asks for. -/
theorem exists_operations {r : Resolver} {d : Delegate} {nodes : List Expr}
    {code : List Instruction} (hraw : ∀ node ∈ nodes, node.RawNode r d)
    (hcode : List.Forall₂ (fun node i => Instruction.Computes r d i node) nodes code) :
    ∃ ops, List.Forall₂ (fun i op => i.operation r 0 = .ok op) code ops ∧
      List.Forall₂ (fun node op => Operation.Leaves d op node) nodes ops := by
  induction hcode with
  | nil => exact ⟨[], .nil, .nil⟩
  | cons hfirst hrest ih =>
    obtain ⟨op, hasks, hleaves⟩ := leaves_of_computes (hraw _ (by simp)) hfirst
    obtain ⟨ops, hasks', hleaves'⟩ := ih fun node hnode => hraw node (List.mem_cons_of_mem _ hnode)
    exact ⟨op :: ops, .cons hasks hasks', .cons hleaves hleaves'⟩

theorem ret_notMem_of_leaves {d : Delegate} {nodes : List Expr} {ops : List Operation}
    (h : List.Forall₂ (fun node op => Operation.Leaves d op node) nodes ops) : .ret ∉ ops := by
  induction h with
  | nil => exact List.not_mem_nil
  | cons hfirst hrest ih =>
    intro hmem
    rcases List.mem_cons.mp hmem with heq | hmem
    · exact hfirst.ne_ret heq.symm
    · exact ih hmem

/-- Every raw expression has code, and whatever code is chosen for it, a
    method of that code followed by `ret` is lifted to the expression exactly
    when its stack may become as deep as the expression needs. -/
theorem lift_code_iff (r : Resolver) (d : Delegate) (e : Expr) (hraw : e.Raw r d) :
    (∃ code, e.CodeFor r d code) ∧
      ∀ code rest, e.CodeFor r d code →
        d.method.code = Instruction.encodeAll (code ++ [.ret]) ++ rest →
        (d.lift r = .ok (.lambda d.method.parameters e d.type) ↔
          e.stackNeed ≤ d.method.maxStack) := by
  refine ⟨exists_code hraw, ?_⟩
  intro code rest hcode hbytes
  -- Bytes to operations, operations to a run, and the run to the body.
  obtain ⟨ops, hasks, hleaves⟩ := exists_operations hraw.2 hcode
  have hret := ret_notMem_of_leaves hleaves
  obtain ⟨hfault, hoperations⟩ := Trace.ofBytes_encodeAll hasks hret 0 rest
  rw [← hbytes] at hfault hoperations
  -- A run starts on an empty stack, so all of its depth is the expression's.
  have hrun : ∀ m, Machine.Run ops (.initial d) m ↔
      e.stackNeed ≤ d.method.maxStack ∧ m = (Machine.initial d).withItems [e] := by
    intro m
    have hempty : (Machine.initial d).stack.items = [] := rfl
    have hcapacity : (Machine.initial d).stack.capacity = d.method.maxStack := rfl
    have h := Machine.runsAs d e ops (.initial d) m hleaves rfl (Nat.zero_le _)
    rw [hraw.1.loaded_eq, hempty, hcapacity, List.length_nil, Nat.zero_add] at h
    exact h
  rw [lift_ok_iff]
  constructor
  · intro h
    obtain ⟨ops', m, body, -, hoperations', -, hrun', -, -⟩ := h
    have hops : ops' ++ [.ret] = ops ++ [.ret] := hoperations'.symm.trans hoperations
    rw [List.append_cancel_right hops] at hrun'
    exact ((hrun m).mp hrun').1
  · intro hneed
    exact ⟨ops, _, e, hfault, hoperations, hret, (hrun _).mpr ⟨hneed, rfl⟩, rfl, rfl⟩

/-! ### A call with a retyped constant -/

namespace Scaled

/-- A static method whose first parameter is wider than a literal. -/
def scale : MethodRef where
  declaringType := "Units"
  name := "Scale"
  parameters := [⟨"factor", .prim .int64⟩, ⟨"amount", .prim .int32⟩]
  returnType := .prim .int64
  attributes := ⟨0x0010⟩

def resolver : Resolver :=
  (SymbolTable.ofList [(⟨0x0a000001⟩, .method scale)]).resolver

def successor : Expr :=
  .binary .add (.parameter ⟨"x", .prim .int32⟩) (.constant (.int32 1) (.prim .int32))
    (.prim .int32)

/-- The factor has the type it is passed for. -/
def body : Expr :=
  .call none scale [.constant (.int32 2) (.prim .int64), successor]

def code : List Instruction :=
  [⟨.ldcI4, (2 : Int32)⟩, ⟨.ldargS, (0 : UInt8)⟩, ⟨.ldcI4S, (1 : Int8)⟩, ⟨.arith .add, ()⟩,
    ⟨.call, (⟨0x0a000001⟩ : Token)⟩]

def delegate : Delegate where
  type := .prim .object
  method :=
    { declaringType := .prim .object
      parameters := [⟨"x", .prim .int32⟩]
      attributes := ⟨0x0010⟩
      code := Instruction.encodeAll (code ++ [.ret])
      maxStack := 3
      locals := []
      initLocals := true }
  target := none

theorem postorder_body :
    body.postorder =
      [.constant (.int32 2) (.prim .int64), .parameter ⟨"x", .prim .int32⟩,
        .constant (.int32 1) (.prim .int32), successor, body] := by
  simp [body, successor, Expr.postorder_eq, Expr.operands]

theorem raw_body : body.Raw resolver delegate := by
  refine ⟨trivial, ?_⟩
  rw [postorder_body]
  simp only [List.forall_mem_cons, List.not_mem_nil, false_implies, implies_true, and_true]
  refine ⟨⟨rfl, by simp⟩, ⟨0, by decide, rfl⟩, ⟨rfl, by simp⟩, ⟨by decide, rfl, trivial, rfl⟩, ?_⟩
  refine ⟨⟨⟨0x0a000001⟩, rfl⟩, by decide, by simp, ?_⟩
  exact .cons ⟨_, rfl, rfl⟩ (.cons trivial .nil)

theorem codeFor_body : body.CodeFor resolver delegate code := by
  unfold Expr.CodeFor
  rw [postorder_body]
  exact .cons (.ldcI4 2 _) (.cons (.ldargS 0 _ rfl) (.cons (.ldcI4S 1 _)
    (.cons (.arith .add _ _ _) (.cons (.call _ _ _ _ rfl) .nil))))

theorem stackNeed_body : body.stackNeed = 3 := by
  simp [body, successor, Expr.stackNeed_eq, Expr.operands, deepest]

theorem lift_delegate :
    body.Raw resolver delegate ∧
      delegate.lift resolver = .ok (.lambda delegate.method.parameters body delegate.type) := by
  have hcode := (lift_code_iff resolver delegate body raw_body).2 code [] codeFor_body
  exact ⟨raw_body, (hcode (List.append_nil _).symm).mpr (Nat.le_of_eq stackNeed_body)⟩

end Scaled

end CilLift
