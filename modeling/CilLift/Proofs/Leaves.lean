import CilLift.Proofs.Accessors
import Mathlib.Data.List.Flatten

/-! # Leaves

    The leaves of an expression are its constants and parameters from left to
    right. An accessor that is recognised puts the operands of a call into
    another node, so the leaves should be the same before and after.

    They are, with one exception: a comparison has two operands, and an equality
    operator that is called on a receiver with two arguments leaves the receiver
    out.

    Main statement: `leaves_recogniseAccessors` says that recognition never
    moves or repeats a leaf, and that it keeps all of them exactly when no such
    receiver has a leaf.
-/

namespace CilLift

open List (Sublist)

/-! ## Parts of lists -/

section Parts

variable {α β : Type}

theorem append_eq_append_iff_of_sublist {as as' bs bs' : List α} (ha : Sublist as' as)
    (hb : Sublist bs' bs) : as' ++ bs' = as ++ bs ↔ as' = as ∧ bs' = bs := by
  constructor
  · intro h
    have hlength := congrArg List.length h
    have hle := ha.length_le
    have hle' := hb.length_le
    rw [List.length_append, List.length_append] at hlength
    exact List.append_inj h (by omega)
  · rintro ⟨rfl, rfl⟩
    rfl

/-- Where every part is shortened or kept, the whole is kept exactly when every
    part is. -/
theorem flatMap_eq_flatMap_iff_of_sublist {l : List α} {f g : α → List β}
    (h : ∀ a ∈ l, Sublist (f a) (g a)) : l.flatMap f = l.flatMap g ↔ ∀ a ∈ l, f a = g a := by
  induction l with
  | nil => simp
  | cons a l ih =>
    obtain ⟨ha, hl⟩ := List.forall_mem_cons.mp h
    rw [List.flatMap_cons, List.flatMap_cons, List.forall_mem_cons, ← ih hl]
    exact append_eq_append_iff_of_sublist ha (Sublist.flatMap_right l hl)

end Parts

namespace Expr

/-! ## Leaves of an expression -/

/-- Whether the node is a constant or a parameter. -/
def isLeaf : Expr → Bool
  | .constant .. | .parameter _ => true
  | _ => false

/-- The constants and parameters of the expression from left to right. -/
def leaves (e : Expr) : List Expr :=
  e.postorder.filter isLeaf

theorem leaves_of_isLeaf {e : Expr} (h : e.isLeaf = true) : e.leaves = [e] := by
  cases e with
  | constant | parameter => simp [leaves, postorder_eq, operands, h]
  | _ => cases h

theorem leaves_of_isLeaf_eq_false {e : Expr} (h : e.isLeaf = false) :
    e.leaves = e.operands.flatMap leaves := by
  unfold leaves
  rw [postorder_eq, List.filter_append, List.filter_flatMap, List.filter_singleton, h]
  simp

@[simp] theorem isLeaf_mapOperands (f : Expr → Expr) (e : Expr) :
    (e.mapOperands f).isLeaf = e.isLeaf := by
  cases e <;> rfl

theorem isLeaf_eventOrCall {subscription : Subscription} {receiver handler : Expr} {e : EventRef} :
    (eventOrCall subscription receiver e handler).isLeaf = false :=
  eventOrCall_cases (p := fun node => node.isLeaf = false) (fun _ => rfl) rfl

end Expr

/-! ## Equality operators -/

/-- Whether the method is an operator for equality or inequality. -/
def MethodRef.isEqualityOperator (m : MethodRef) : Bool :=
  m.isSpecialName &&
    ((Accessor.after? "op_Equality" m.name).isSome ||
      (Accessor.after? "op_Inequality" m.name).isSome)

theorem Accessor.exists_role?_eq_comparison_iff (name : String) :
    (∃ op, role? name = some (.comparison op)) ↔
      (after? "op_Equality" name).isSome = true ∨ (after? "op_Inequality" name).isSome = true := by
  unfold role?
  cases (after? "op_Equality" name).isSome with
  | true => simp
  | false =>
    cases (after? "op_Inequality" name).isSome with
    | true => simp
    | false =>
      -- The remaining names are those of properties and events.
      cases after? "get_" name <;> cases after? "set_" name <;> cases after? "add_" name <;>
        cases after? "remove_" name <;> simp

theorem MethodRef.isEqualityOperator_iff {m : MethodRef} :
    m.isEqualityOperator = true ↔
      m.isSpecialName = true ∧ ∃ op, Accessor.role? m.name = some (.comparison op) := by
  rw [Accessor.exists_role?_eq_comparison_iff]
  simp [isEqualityOperator]

namespace Expr

/-- The receiver that a comparison leaves out: that of an equality operator
    called with two arguments. -/
def ignoredReceiver? : Expr → Option Expr
  | .call receiver method arguments =>
    if method.isEqualityOperator ∧ arguments.length = 2 then receiver else none
  | _ => none

/-- All other operands. -/
def keptOperands : Expr → List Expr
  | .call receiver method arguments =>
    if method.isEqualityOperator ∧ arguments.length = 2 then arguments
    else receiver.toList ++ arguments
  | e => e.operands

theorem operands_eq_append (e : Expr) :
    e.operands = e.ignoredReceiver?.toList ++ e.keptOperands := by
  cases e with
  | call receiver method arguments =>
    simp only [operands, ignoredReceiver?, keptOperands]
    split <;> rfl
  | _ => rfl

theorem ignoredReceiver?_eq_some_iff {e receiver : Expr} :
    e.ignoredReceiver? = some receiver ↔
      ∃ method left right, e = .call (some receiver) method [left, right] ∧
        method.isEqualityOperator = true := by
  cases e with
  | call r m arguments =>
    simp only [ignoredReceiver?, Option.ite_none_right_eq_some, List.length_eq_two]
    constructor
    · rintro ⟨⟨hoperator, left, right, rfl⟩, rfl⟩
      exact ⟨m, left, right, rfl, hoperator⟩
    · rintro ⟨method, left, right, hcall, hoperator⟩
      cases hcall
      exact ⟨⟨hoperator, left, right, rfl⟩, rfl⟩
  | _ => simp [ignoredReceiver?]

theorem keptOperands_mapOperands (f : Expr → Expr) (e : Expr) :
    (e.mapOperands f).keptOperands = e.keptOperands.map f := by
  have hoperands := operands_mapOperands f e
  cases e with
  | call receiver method arguments =>
    simp only [mapOperands, keptOperands, List.length_map]
    split
    · rfl
    · exact hoperands
  | _ => exact hoperands

end Expr

/-! ## Recognised calls -/

namespace Accessor

open CilLift.Expr (leaves leaves_of_isLeaf_eq_false)

variable {receiver : Option Expr} {method : MethodRef} {arguments : List Expr} {e : Expr}

theorem leaves_place? {declaringType name : String} {type : Ty}
    (h : place? receiver declaringType name arguments type = some e) :
    e.leaves = (receiver.toList ++ arguments).flatMap leaves := by
  rcases place?_cases h with ⟨rfl, rfl⟩ | ⟨r, rfl, rfl⟩
  · rw [leaves_of_isLeaf_eq_false rfl, Expr.operands, List.append_nil]
  · rw [leaves_of_isLeaf_eq_false rfl]
    rfl

/-- Everything but a comparison has all operands of the call. -/
theorem leaves_recognise? {role : Role} (hrole : ∀ op, role ≠ .comparison op)
    (h : recognise? role receiver method arguments = some e) :
    e.leaves = (receiver.toList ++ arguments).flatMap leaves := by
  cases role with
  | comparison op => exact absurd rfl (hrole op)
  | getter name => exact leaves_place? h
  | setter name =>
    obtain ⟨indices, value, type, place, rfl, hplace, rfl⟩ := recognise?_setter_cases h
    rw [leaves_of_isLeaf_eq_false rfl, Expr.operands, ← List.append_assoc, List.flatMap_append,
      ← leaves_place? hplace]
    simp
  | subscription kind name =>
    obtain ⟨r, handler, event, rfl, rfl, -, rfl, -⟩ := recognise?_subscription_cases h
    rw [leaves_of_isLeaf_eq_false rfl]
    rfl

/-- A call has the leaves of all operands but the receiver of a comparison,
    whether it is recognised or not. -/
theorem leaves_replacement?_getD (receiver : Option Expr) (method : MethodRef)
    (arguments : List Expr) :
    ((replacement? receiver method arguments).getD (.call receiver method arguments)).leaves =
      (Expr.call receiver method arguments).keptOperands.flatMap leaves := by
  by_cases hcomparison : method.isEqualityOperator = true ∧ arguments.length = 2
  · rw [Expr.keptOperands, if_pos hcomparison]
    obtain ⟨hoperator, hlength⟩ := hcomparison
    obtain ⟨hspecial, op, hrole⟩ := MethodRef.isEqualityOperator_iff.mp hoperator
    obtain ⟨left, right, rfl⟩ := List.length_eq_two.mp hlength
    rw [replacement?, if_pos hspecial, hrole]
    exact leaves_of_isLeaf_eq_false rfl
  · rw [Expr.keptOperands, if_neg hcomparison]
    cases hmade : replacement? receiver method arguments with
    | none => exact leaves_of_isLeaf_eq_false rfl
    | some made =>
      obtain ⟨hspecial, role, hrole, hrecognise⟩ := replacement?_cases hmade
      apply leaves_recognise? _ hrecognise
      rintro op rfl
      have hoperator := MethodRef.isEqualityOperator_iff.mpr ⟨hspecial, op, hrole⟩
      obtain ⟨left, right, rfl, -⟩ := recognise?_comparison_cases hrecognise
      exact hcomparison ⟨hoperator, rfl⟩

theorem leaves_rebuild {e : Expr} (h : e.isLeaf = false) :
    (transform.rebuild e).leaves = e.keptOperands.flatMap leaves := by
  cases e with
  | constant | parameter => cases h
  | call receiver method arguments => exact leaves_replacement?_getD receiver method arguments
  | event subscription receiver e handler =>
    show (Expr.eventOrCall subscription receiver e handler).leaves =
      [receiver, handler].flatMap leaves
    rw [leaves_of_isLeaf_eq_false Expr.isLeaf_eventOrCall, Expr.operands_eventOrCall]
  | _ => exact leaves_of_isLeaf_eq_false rfl

end Accessor

/-! ## Whole expressions -/

namespace Expr

theorem recogniseAccessors_of_isLeaf {e : Expr} (h : e.isLeaf = true) :
    e.recogniseAccessors = e := by
  cases e with
  | constant | parameter => rfl
  | _ => cases h

theorem leaves_recogniseAccessors_of_isLeaf_eq_false {e : Expr} (h : e.isLeaf = false) :
    e.recogniseAccessors.leaves =
      e.keptOperands.flatMap fun operand => operand.recogniseAccessors.leaves := by
  unfold recogniseAccessors
  rw [transform_eq_rebuild, Accessor.leaves_rebuild (by rw [isLeaf_mapOperands, h]),
    keptOperands_mapOperands, List.flatMap_map]

/-- Recognition may lose leaves, but does not move, repeat or add any. -/
theorem sublist_leaves_recogniseAccessors (e : Expr) :
    Sublist e.recogniseAccessors.leaves e.leaves := by
  induction e using operand_induction with
  | node e ih =>
    cases hleaf : e.isLeaf with
    | true => rw [recogniseAccessors_of_isLeaf hleaf]
    | false =>
      rw [leaves_recogniseAccessors_of_isLeaf_eq_false hleaf, leaves_of_isLeaf_eq_false hleaf]
      rw [operands_eq_append] at ih ⊢
      rw [List.flatMap_append]
      apply Sublist.trans _ (List.sublist_append_right _ _)
      apply Sublist.flatMap_right
      intro operand hmem
      exact ih operand (List.mem_append_right _ hmem)

/-- The node ignores no receiver, or only one that has no leaves. -/
def IgnoresNoLeaf (e : Expr) : Prop :=
  ∀ receiver, e.ignoredReceiver? = some receiver → receiver.leaves = []

theorem ignoresNoLeaf_iff {e : Expr} :
    e.IgnoresNoLeaf ↔ ∀ receiver ∈ e.ignoredReceiver?.toList, receiver.leaves = [] := by
  simp [IgnoresNoLeaf]

theorem leaves_recogniseAccessors_eq_of_leaves_eq_nil {e : Expr} (h : e.leaves = []) :
    e.recogniseAccessors.leaves = e.leaves := by
  have hsublist := sublist_leaves_recogniseAccessors e
  rw [h] at hsublist ⊢
  exact List.sublist_nil.mp hsublist

/-- A node keeps all leaves exactly when it ignores none and its operands keep
    theirs. -/
theorem leaves_recogniseAccessors_eq_iff_operands (e : Expr) :
    e.recogniseAccessors.leaves = e.leaves ↔
      e.IgnoresNoLeaf ∧
        ∀ operand ∈ e.operands, operand.recogniseAccessors.leaves = operand.leaves := by
  cases hleaf : e.isLeaf with
  | true =>
    cases e with
    | constant | parameter =>
      simp [recogniseAccessors_of_isLeaf hleaf, IgnoresNoLeaf, ignoredReceiver?, operands]
    | _ => cases hleaf
  | false =>
    have hsublist : ∀ operand ∈ e.keptOperands,
        Sublist operand.recogniseAccessors.leaves operand.leaves :=
      fun operand _ => sublist_leaves_recogniseAccessors operand
    rw [leaves_recogniseAccessors_of_isLeaf_eq_false hleaf, leaves_of_isLeaf_eq_false hleaf,
      operands_eq_append, List.flatMap_append, List.forall_mem_append, ignoresNoLeaf_iff,
      ← List.nil_append (List.flatMap _ e.keptOperands),
      append_eq_append_iff_of_sublist (List.nil_sublist _) (Sublist.flatMap_right _ hsublist),
      flatMap_eq_flatMap_iff_of_sublist hsublist, eq_comm, List.flatMap_eq_nil_iff]
    -- What is ignored without loss has no leaves that could get lost inside it.
    apply and_congr_right
    intro hignored
    refine (and_iff_right ?_).symm
    intro receiver hmem
    exact leaves_recogniseAccessors_eq_of_leaves_eq_nil (hignored receiver hmem)

/-- All leaves of an expression are kept exactly when no node of it ignores
    one. -/
theorem leaves_recogniseAccessors_eq_iff (e : Expr) :
    e.recogniseAccessors.leaves = e.leaves ↔ ∀ node ∈ e.postorder, node.IgnoresNoLeaf := by
  induction e using operand_induction with
  | node e ih =>
    rw [leaves_recogniseAccessors_eq_iff_operands, forall_mem_postorder_iff]
    apply and_congr_right
    intro _
    exact forall₂_congr ih

end Expr

/-- Recognition keeps the order of the leaves and adds none, and it keeps all of
    them exactly when no equality operator with two arguments is called on a
    receiver that has leaves. -/
theorem leaves_recogniseAccessors (e : Expr) :
    Sublist e.recogniseAccessors.leaves e.leaves ∧
      (e.recogniseAccessors.leaves = e.leaves ↔
        ∀ receiver method left right,
          Expr.call (some receiver) method [left, right] ∈ e.postorder →
            method.isEqualityOperator = true → receiver.leaves = []) := by
  refine ⟨e.sublist_leaves_recogniseAccessors, ?_⟩
  rw [e.leaves_recogniseAccessors_eq_iff]
  constructor
  · intro h receiver method left right hmem hoperator
    apply h _ hmem receiver
    rw [Expr.ignoredReceiver?_eq_some_iff]
    exact ⟨method, left, right, rfl, hoperator⟩
  · intro h node hmem receiver hignored
    obtain ⟨method, left, right, rfl, hoperator⟩ :=
      Expr.ignoredReceiver?_eq_some_iff.mp hignored
    exact h receiver method left right hmem hoperator

/-! ## A receiver that is left out -/

namespace Comparer

def object (name : String) : Expr := .parameter ⟨name, .prim .object⟩

def equality : MethodRef where
  declaringType := "Comparer"
  name := "op_Equality"
  parameters := [⟨"left", .prim .object⟩, ⟨"right", .prim .object⟩]
  returnType := .prim .boolean
  attributes := ⟨0x0800⟩

def call : Expr :=
  .call (some (object "comparer")) equality [object "left", object "right"]

theorem leaves_object (name : String) : (object name).leaves = [object name] :=
  Expr.leaves_of_isLeaf rfl

/-- The comparison that the call becomes has only two of its three leaves. -/
theorem leaves_recogniseAccessors_call_ne :
    call.leaves = [object "comparer", object "left", object "right"] ∧
      call.recogniseAccessors.leaves = [object "left", object "right"] ∧
      call.recogniseAccessors.leaves ≠ call.leaves := by
  have hrecognised : call.recogniseAccessors = .apply .equal (object "left") (object "right") := rfl
  have hleaves : call.leaves = [object "comparer", object "left", object "right"] := by
    rw [Expr.leaves_of_isLeaf_eq_false rfl]
    simp [call, Expr.operands, leaves_object]
  have hrest : call.recogniseAccessors.leaves = [object "left", object "right"] := by
    rw [hrecognised, Expr.leaves_of_isLeaf_eq_false rfl]
    simp [Expr.apply, Expr.operands, leaves_object]
  refine ⟨hleaves, hrest, ?_⟩
  rw [hleaves, hrest]
  intro h
  exact absurd (congrArg List.length h) (by decide)

end Comparer

end CilLift
