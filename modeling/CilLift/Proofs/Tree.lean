import CilLift.Expr.Basic

/-! # Operands and subtrees

    Every node has a list of operands, in the order in which they are
    computed: receiver before arguments, left before right, array before
    position. The post-order of a tree lists all its nodes, each after the
    nodes of its operands, and the pre-order lists each before them.

    Main statements: `operand_induction` proves a property of all expressions
    from operands to nodes, whatever the kind of node, and `postorder_eq` and
    `preorder_eq` say how the orders of a node come from those of its operands.
-/

namespace CilLift.Expr

/-! ## Operands -/

/-- The operands of a node, the first computed first. -/
def operands : Expr → List Expr
  | .constant .. | .parameter _ => []
  | .field receiver _ => receiver.toList
  | .binary _ left right _ => [left, right]
  | .unary _ operand _ => [operand]
  | .call receiver _ arguments => receiver.toList ++ arguments
  | .new _ arguments => arguments
  | .newArray _ length => [length]
  | .index array position _ => [array, position]
  | .lambda _ body _ => [body]
  | .property receiver _ _ _ => receiver.toList
  | .indexer receiver _ _ arguments _ => receiver :: arguments
  | .assign target value => [target, value]
  | .event _ receiver _ handler => [receiver, handler]

theorem sizeOf_lt_of_mem_toList {receiver : Option Expr} {e : Expr}
    (h : e ∈ receiver.toList) : sizeOf e < sizeOf receiver := by
  cases receiver with
  | none => simp at h
  | some a =>
    simp only [Option.toList_some, List.mem_singleton] at h
    subst h
    simp

/-- An operand is smaller than its node. -/
theorem sizeOf_lt_of_mem_operands {e operand : Expr} (h : operand ∈ e.operands) :
    sizeOf operand < sizeOf e := by
  cases e with
  | constant | parameter => simp [operands] at h
  | field receiver f =>
    have := sizeOf_lt_of_mem_toList h
    simp only [field.sizeOf_spec]
    omega
  | property receiver _ _ _ =>
    have := sizeOf_lt_of_mem_toList h
    simp only [property.sizeOf_spec]
    omega
  | new c arguments =>
    have : sizeOf operand < sizeOf arguments := List.sizeOf_lt_of_mem h
    simp only [new.sizeOf_spec]
    omega
  | call receiver m arguments =>
    simp only [call.sizeOf_spec]
    rcases List.mem_append.mp h with hr | ha
    · have := sizeOf_lt_of_mem_toList hr
      omega
    · have := List.sizeOf_lt_of_mem ha
      omega
  | indexer receiver _ _ arguments _ =>
    simp only [indexer.sizeOf_spec]
    rcases List.mem_cons.mp h with rfl | ha
    · omega
    · have := List.sizeOf_lt_of_mem ha
      omega
  | binary | unary | newArray | index | lambda | assign | event =>
    simp only [operands, List.mem_cons, List.not_mem_nil, or_false] at h
    rcases h with rfl | rfl <;> simp <;> omega

/-- A property that a node has when its operands have it is a property of
    every expression. -/
@[elab_as_elim]
theorem operand_induction {motive : Expr → Prop}
    (node : ∀ e : Expr, (∀ operand ∈ e.operands, motive operand) → motive e) (e : Expr) :
    motive e :=
  node e fun operand _ => operand_induction node operand
termination_by sizeOf e
decreasing_by exact sizeOf_lt_of_mem_operands ‹_›

/-! ## Post-order -/

/-- All nodes of the expression, each after the nodes of its operands. -/
def postorder (e : Expr) : List Expr :=
  (e.operands.attach.flatMap fun ⟨operand, _⟩ => operand.postorder) ++ [e]
termination_by sizeOf e
decreasing_by exact sizeOf_lt_of_mem_operands ‹_›

theorem postorder_eq (e : Expr) : e.postorder = e.operands.flatMap postorder ++ [e] := by
  rw [postorder]
  simp

/-- What holds of all nodes of an expression holds of the node on top and of
    all nodes of its operands. -/
theorem forall_mem_postorder_iff {p : Expr → Prop} (e : Expr) :
    (∀ node ∈ e.postorder, p node) ↔
      p e ∧ ∀ operand ∈ e.operands, ∀ node ∈ operand.postorder, p node := by
  rw [postorder_eq]
  constructor
  -- A node of the post-order is the top or lies below exactly one operand.
  · intro h
    refine ⟨h e (by simp), fun operand hop node hnode => h node ?_⟩
    exact List.mem_append_left _ (List.mem_flatMap.mpr ⟨operand, hop, hnode⟩)
  · intro h node hnode
    obtain ⟨he, hops⟩ := h
    rcases List.mem_append.mp hnode with hnode | hnode
    · obtain ⟨operand, hop, hmem⟩ := List.mem_flatMap.mp hnode
      exact hops operand hop node hmem
    · rw [List.mem_singleton.mp hnode]
      exact he

/-- What holds of all nodes of an expression holds of all nodes of every one of
    them. -/
theorem forall_mem_postorder_of_mem {p : Expr → Prop} {e node : Expr} (hmem : node ∈ e.postorder)
    (h : ∀ node ∈ e.postorder, p node) : ∀ below ∈ node.postorder, p below := by
  induction e using operand_induction with
  | node e ih =>
    have hoperands := ((forall_mem_postorder_iff e).mp h).2
    rw [postorder_eq, List.mem_append, List.mem_flatMap, List.mem_singleton] at hmem
    rcases hmem with ⟨operand, hop, hmem⟩ | rfl
    · exact ih operand hop hmem (hoperands operand hop)
    · exact h

/-! ## Pre-order -/

/-- All nodes of the expression, each before the nodes of its operands. -/
def preorder (e : Expr) : List Expr :=
  e :: e.operands.attach.flatMap fun ⟨operand, _⟩ => operand.preorder
termination_by sizeOf e
decreasing_by exact sizeOf_lt_of_mem_operands ‹_›

theorem preorder_eq (e : Expr) : e.preorder = e :: e.operands.flatMap preorder := by
  rw [preorder]
  simp

end CilLift.Expr
