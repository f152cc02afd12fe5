import CilLift.Passes
import CilLift.Proofs.Rewriting
import Mathlib.Data.List.Basic

/-! # What accessors stand for

    Everything that the recognition of accessors can make of a call, said once:
    a comparison of two arguments, a property or an indexer, an assignment to
    one of these, or an event node that fits together.

    A node is settled when it is no call that recognition would replace.

    Main statements: `makes_of_replacement?` inverts the recognition of one
    call, `role?_stem_append` gives the role of the names of event methods,
    `forall_mem_postorder_rebuild` says what the nodes are that recognition
    leaves, and `valid_recogniseAccessors` that all event nodes among them fit
    together.
-/

namespace CilLift

/-- Whether the node calls a method. -/
def Expr.isCall : Expr → Bool
  | .call .. => true
  | _ => false

/-! ## Names -/

/-- What the name of an event's method starts with. -/
def Subscription.stem : Subscription → String
  | .add => "add_"
  | .remove => "remove_"

namespace Accessor

/-- The methods of an event have the names that the convention gives them. -/
theorem role?_stem_append (kind : Subscription) (name : String) :
    role? (kind.stem ++ name) = some (.subscription kind name) := by
  -- The first character tells the two stems from each other and from all others.
  cases kind <;> simp [role?, after?, Subscription.stem, List.isPrefixOf?]

/-! ## Recognised calls -/

/-- The receiver and the arguments of a call are put into a node of their own. -/
inductive Makes : Option Expr → List Expr → Expr → Prop where
  | comparison (receiver : Option Expr) (op : BinaryOp) (left right : Expr) :
    Makes receiver [left, right] (.apply op left right)
  | property (receiver : Option Expr) (declaringType name : String) (type : Ty) :
    Makes receiver [] (.property receiver declaringType name type)
  | indexer (receiver : Expr) (declaringType name : String) (indices : List Expr) (type : Ty) :
    Makes (some receiver) indices (.indexer receiver declaringType name indices type)
  | setProperty (receiver : Option Expr) (declaringType name : String) (value : Expr) (type : Ty) :
    Makes receiver [value] (.assign (.property receiver declaringType name type) value)
  | setIndexer (receiver : Expr) (declaringType name : String) (indices : List Expr)
    (value : Expr) (type : Ty) :
    Makes (some receiver) (indices ++ [value])
      (.assign (.indexer receiver declaringType name indices type) value)
  | event (subscription : Subscription) (receiver : Expr) (e : EventRef) (handler : Expr)
    (hfits : (Expr.event subscription receiver e handler).Fits) :
    Makes (some receiver) [handler] (.event subscription receiver e handler)

theorem place?_cases {receiver : Option Expr} {declaringType name : String} {indices : List Expr}
    {type : Ty} {place : Expr} (h : place? receiver declaringType name indices type = some place) :
    indices = [] ∧ place = .property receiver declaringType name type ∨
      ∃ r, receiver = some r ∧ place = .indexer r declaringType name indices type := by
  unfold place? at h
  split at h
  · left
    exact ⟨rfl, (Option.some.inj h).symm⟩
  · cases h
  · right
    split at h
    · exact ⟨_, rfl, (Option.some.inj h).symm⟩
    · cases h

theorem recognise?_comparison_cases {op : BinaryOp} {receiver : Option Expr} {method : MethodRef}
    {arguments : List Expr} {e : Expr}
    (h : recognise? (.comparison op) receiver method arguments = some e) :
    ∃ left right, arguments = [left, right] ∧ e = .apply op left right := by
  simp only [recognise?] at h
  split at h <;> try contradiction
  exact ⟨_, _, rfl, (Option.some.inj h).symm⟩

/-- The last argument of a setter is what is assigned, and the others say where. -/
theorem recognise?_setter_cases {name : String} {receiver : Option Expr} {method : MethodRef}
    {arguments : List Expr} {e : Expr}
    (h : recognise? (.setter name) receiver method arguments = some e) :
    ∃ indices value type place, arguments = indices ++ [value] ∧
      place? receiver method.declaringType name indices type = some place ∧
      e = .assign place value := by
  simp only [recognise?] at h
  split at h <;> try contradiction
  rename_i value hlast
  obtain ⟨place, hplace, rfl⟩ := Option.map_eq_some_iff.mp h
  obtain ⟨indices, rfl⟩ := List.getLast?_eq_some_iff.mp hlast
  rw [List.dropLast_concat] at hplace
  exact ⟨indices, value, _, place, rfl, hplace, rfl⟩

/-- Only one argument can be a handler, and the event is one that the type of
    the receiver has. -/
theorem recognise?_subscription_cases {kind : Subscription} {name : String}
    {receiver : Option Expr} {method : MethodRef} {arguments : List Expr} {e : Expr}
    (h : recognise? (.subscription kind name) receiver method arguments = some e) :
    ∃ r handler event, receiver = some r ∧ arguments = [handler] ∧
      r.type.info?.bind (·.event? name) = some event ∧
      e = .event kind r event handler ∧ e.Fits := by
  simp only [recognise?] at h
  split at h <;> try contradiction
  rename_i r handler
  split at h <;> try contradiction
  rename_i event hevent
  obtain ⟨he, hfits⟩ := Expr.checkedEvent_cases h
  exact ⟨r, handler, event, rfl, rfl, hevent, he, hfits⟩

theorem makes_of_recognise? {role : Role} {receiver : Option Expr} {method : MethodRef}
    {arguments : List Expr} {e : Expr}
    (h : recognise? role receiver method arguments = some e) : Makes receiver arguments e := by
  cases role with
  | comparison op =>
    obtain ⟨left, right, rfl, rfl⟩ := recognise?_comparison_cases h
    exact .comparison receiver op left right
  | getter name =>
    rcases place?_cases h with ⟨rfl, rfl⟩ | ⟨r, rfl, rfl⟩
    · exact .property ..
    · exact .indexer ..
  | setter name =>
    obtain ⟨indices, value, type, place, rfl, hplace, rfl⟩ := recognise?_setter_cases h
    rcases place?_cases hplace with ⟨rfl, rfl⟩ | ⟨r, rfl, rfl⟩
    · exact .setProperty ..
    · exact .setIndexer ..
  | subscription kind name =>
    obtain ⟨r, handler, event, rfl, rfl, -, rfl, hfits⟩ := recognise?_subscription_cases h
    exact .event kind r event handler hfits

/-- Only special names have a role, and a call of one is replaced according to
    it. -/
theorem replacement?_cases {receiver : Option Expr} {method : MethodRef}
    {arguments : List Expr} {e : Expr} (h : replacement? receiver method arguments = some e) :
    method.isSpecialName = true ∧
      ∃ role, role? method.name = some role ∧
        recognise? role receiver method arguments = some e := by
  unfold replacement? at h
  split at h
  · exact ⟨‹_›, Option.bind_eq_some_iff.mp h⟩
  · cases h

/-- A call is replaced only by a node that its operands are put into. -/
theorem makes_of_replacement? {receiver : Option Expr} {method : MethodRef}
    {arguments : List Expr} {e : Expr} (h : replacement? receiver method arguments = some e) :
    Makes receiver arguments e := by
  obtain ⟨-, role, -, hrecognise⟩ := replacement?_cases h
  exact makes_of_recognise? hrecognise

section Makes

variable {receiver : Option Expr} {arguments : List Expr} {e : Expr}

theorem Makes.isConstant_eq_false (h : Makes receiver arguments e) : e.isConstant = false := by
  cases h <;> rfl

/-- What holds of all nodes of the operands, and of every node that recognition
    can make, holds of all nodes of what is made. -/
theorem Makes.forall_mem_postorder {p : Expr → Prop} (h : Makes receiver arguments e)
    (hmade : ∀ node : Expr, node.isCall = false → node.Fits → node.AssignsToPlace → p node)
    (hoperands : ∀ operand ∈ receiver.toList ++ arguments, ∀ node ∈ operand.postorder, p node) :
    ∀ node ∈ e.postorder, p node := by
  rw [Expr.forall_mem_postorder_iff]
  cases h with
  | comparison op left right =>
    refine ⟨hmade _ rfl trivial trivial, fun operand hmem => hoperands operand ?_⟩
    exact List.mem_append_right _ hmem
  | property declaringType name type =>
    refine ⟨hmade _ rfl trivial trivial, fun operand hmem => hoperands operand ?_⟩
    exact List.mem_append_left _ hmem
  | indexer r declaringType name indices type => exact ⟨hmade _ rfl trivial trivial, hoperands⟩
  -- An assignment has the receiver and the indices below its target.
  | setProperty declaringType name value type =>
    obtain ⟨hreceiver, hvalue⟩ := List.forall_mem_append.mp hoperands
    refine ⟨hmade _ rfl trivial rfl, List.forall_mem_cons.mpr ⟨?_, hvalue⟩⟩
    exact (Expr.forall_mem_postorder_iff _).mpr ⟨hmade _ rfl trivial trivial, hreceiver⟩
  | setIndexer r declaringType name indices value type =>
    rw [← List.append_assoc, List.forall_mem_append] at hoperands
    obtain ⟨hplace, hvalue⟩ := hoperands
    refine ⟨hmade _ rfl trivial rfl, List.forall_mem_cons.mpr ⟨?_, hvalue⟩⟩
    exact (Expr.forall_mem_postorder_iff _).mpr ⟨hmade _ rfl trivial trivial, hplace⟩
  | event subscription r event handler hfits => exact ⟨hmade _ rfl hfits trivial, hoperands⟩

end Makes

end Accessor

/-! ## Settled nodes -/

/-- The node is no call, or a call that stands for nothing else. -/
def Expr.Settled : Expr → Prop
  | .call receiver method arguments => Accessor.replacement? receiver method arguments = none
  | _ => True

theorem Expr.settled_of_isCall_eq_false {e : Expr} (h : e.isCall = false) : e.Settled := by
  cases e with
  | call => cases h
  | _ => trivial

namespace Accessor

/-- A node that is no event stays and is settled, or its operands are put into
    nodes that recognition can make. -/
theorem forall_mem_postorder_rebuild {p : Expr → Prop} {e : Expr} (hevent : e.isEvent = false)
    (hself : e.Settled → p e)
    (hmade : ∀ node : Expr, node.isCall = false → node.Fits → node.AssignsToPlace → p node)
    (hoperands : ∀ operand ∈ e.operands, ∀ node ∈ operand.postorder, p node) :
    ∀ node ∈ (transform.rebuild e).postorder, p node := by
  cases e with
  | call receiver method arguments =>
    show ∀ node ∈ ((replacement? receiver method arguments).getD
      (.call receiver method arguments)).postorder, p node
    cases hreplaced : replacement? receiver method arguments with
    | none => exact (Expr.forall_mem_postorder_iff _).mpr ⟨hself hreplaced, hoperands⟩
    | some made =>
      have hmakes := makes_of_replacement? hreplaced
      exact hmakes.forall_mem_postorder hmade hoperands
  | event => cases hevent
  | _ => exact (Expr.forall_mem_postorder_iff _).mpr ⟨hself trivial, hoperands⟩

theorem keepsRules : transform.KeepsRules := by
  intro rule hrule e hself hoperands
  cases hevent : e.isEvent with
  | true =>
    cases e with
    | event => exact Expr.forall_mem_postorder_eventOrCall hrule hoperands
    | _ => cases hevent
  | false =>
    have hmade := fun (node : Expr) (_ : node.isCall = false) => hrule node
    exact forall_mem_postorder_rebuild hevent (fun _ => hself hevent) hmade hoperands

end Accessor

/-! ## Whole expressions -/

/-- Whatever accessors are recognised, all event nodes that are left fit
    together. -/
theorem Expr.valid_recogniseAccessors (e : Expr) : e.recogniseAccessors.Valid :=
  Accessor.keepsRules.valid_transform e

theorem Expr.recogniseAccessors_call (receiver : Option Expr) (method : MethodRef)
    (arguments : List Expr) :
    (Expr.call receiver method arguments).recogniseAccessors =
      (Accessor.replacement? (receiver.map recogniseAccessors) method
        (arguments.map recogniseAccessors)).getD
          (.call (receiver.map recogniseAccessors) method (arguments.map recogniseAccessors)) :=
  transform_call Accessor.transform receiver method arguments

/-- Only calls and events are not rebuilt as they were. -/
theorem Expr.recogniseAccessors_eq_mapOperands {e : Expr} (hevent : e.isEvent = false)
    (hcall : e.isCall = false) : e.recogniseAccessors = e.mapOperands recogniseAccessors := by
  unfold recogniseAccessors
  rw [transform_eq_rebuild]
  cases e with
  | call => cases hcall
  | event => cases hevent
  | _ => rfl

end CilLift
