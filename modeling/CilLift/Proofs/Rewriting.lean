import CilLift.Expr.Transform
import CilLift.Proofs.Tree

/-! # Transformations node by node

    A transformation without effects works from the leaves up: it transforms
    the operands of a node (`Expr.mapOperands`) and then puts the node together
    again (`Transform.rebuild`).

    An event node fits together when its event is declared on the type of its
    receiver and its handler is a delegate, and an expression is valid when all
    its event nodes fit together.

    Main statements: `transform_eq_rebuild` says that every transformation is
    these two steps, and `forall_mem_postorder_transform` carries what the
    rebuilding of single nodes does to all nodes through a whole
    transformation. `Transform.KeepsRules` names the transforms that keep
    validity and the rule that only properties and indexers are assigned to.
-/

namespace CilLift

namespace Expr

/-! ## Nodes with other operands -/

/-- The node with every operand replaced. -/
def mapOperands (f : Expr → Expr) : Expr → Expr
  | .constant value type => .constant value type
  | .parameter p => .parameter p
  | .field receiver member => .field (receiver.map f) member
  | .binary op left right type => .binary op (f left) (f right) type
  | .unary op operand type => .unary op (f operand) type
  | .call receiver method arguments => .call (receiver.map f) method (arguments.map f)
  | .new ctor arguments => .new ctor (arguments.map f)
  | .newArray element length => .newArray element (f length)
  | .index array position type => .index (f array) (f position) type
  | .lambda parameters body type => .lambda parameters (f body) type
  | .property receiver declaringType name type =>
    .property (receiver.map f) declaringType name type
  | .indexer receiver declaringType name arguments type =>
    .indexer (f receiver) declaringType name (arguments.map f) type
  | .assign target value => .assign (f target) (f value)
  | .event subscription receiver e handler => .event subscription (f receiver) e (f handler)

section Operands

variable (f g : Expr → Expr) (e : Expr)

@[simp] theorem operands_mapOperands : (e.mapOperands f).operands = e.operands.map f := by
  cases e with
  | field receiver | property receiver | call receiver =>
    cases receiver <;> simp [mapOperands, operands]
  | _ => simp [mapOperands, operands]

theorem mapOperands_mapOperands :
    (e.mapOperands f).mapOperands g = e.mapOperands fun operand => g (f operand) := by
  cases e <;> simp [mapOperands, Function.comp_def]

theorem mapOperands_id : e.mapOperands (fun operand => operand) = e := by
  cases e <;> simp [mapOperands]

variable {f g e}

/-- Only what a function does to the operands matters. -/
theorem mapOperands_congr (h : ∀ operand ∈ e.operands, f operand = g operand) :
    e.mapOperands f = e.mapOperands g := by
  have hreceiver : ∀ receiver : Option Expr,
      (∀ operand ∈ receiver.toList, f operand = g operand) → receiver.map f = receiver.map g := by
    intro receiver hsame
    cases receiver with
    | none => rfl
    | some a => exact congrArg some (hsame a (by simp))
  cases e with
  | constant | parameter => rfl
  | field receiver | property receiver => simp only [mapOperands, hreceiver receiver h]
  | call receiver m arguments =>
    obtain ⟨hr, ha⟩ := List.forall_mem_append.mp h
    simp only [mapOperands, hreceiver receiver hr, List.map_congr_left ha]
  | new c arguments =>
    have harguments : arguments.map f = arguments.map g := List.map_congr_left h
    simp only [mapOperands, harguments]
  | indexer receiver _ _ arguments =>
    obtain ⟨hr, ha⟩ := List.forall_mem_cons.mp h
    simp only [mapOperands, hr, List.map_congr_left ha]
  | unary | newArray | lambda | binary | index | assign | event =>
    simp_all [mapOperands, operands]

/-- A node keeps its type when its operands keep theirs. -/
theorem type_mapOperands (h : ∀ operand ∈ e.operands, (f operand).type = operand.type) :
    (e.mapOperands f).type = e.type := by
  cases e with
  -- Only an assignment takes its type from an operand.
  | assign target value => exact h target (by simp [operands])
  | _ => rfl

end Operands

end Expr

/-! ## Rebuilding -/

/-- What a transform makes of a node whose operands are transformed already. -/
def Transform.rebuild (w : Transform Id) : Expr → Expr
  | .constant value type => (w.constant value type).run
  | .parameter p => (w.parameter p).run
  | .field receiver f => (w.field receiver f).run
  | .call receiver method arguments => (w.call receiver method arguments).run
  | .event subscription receiver e handler => (w.event subscription receiver e handler).run
  | e => e

namespace Expr

/-- A transformation rebuilds every node from its transformed operands. -/
theorem transform_eq_rebuild (w : Transform Id) (e : Expr) :
    e.transform w = w.rebuild (e.mapOperands (transform w)) := by
  cases e <;> simp [mapOperands, Transform.rebuild]

/-! ## What is assigned to -/

/-- Whether the node is a property or an indexer. -/
def isPlace : Expr → Bool
  | .property .. | .indexer .. => true
  | _ => false

/-- The node is no assignment, or it assigns to a property or an indexer. -/
def AssignsToPlace : Expr → Prop
  | .assign target _ => target.isPlace = true
  | _ => True

/-- Every assignment of the expression assigns to a property or an indexer. -/
def AssignsToPlaces (e : Expr) : Prop :=
  ∀ node ∈ e.postorder, node.AssignsToPlace

/-! ## Events that fit together -/

/-- Whether the node adds a handler to an event or removes one. -/
def isEvent : Expr → Bool
  | .event .. => true
  | _ => false

@[simp] theorem isEvent_mapOperands (f : Expr → Expr) (e : Expr) :
    (e.mapOperands f).isEvent = e.isEvent := by
  cases e <;> rfl

/-- No node of the expression is an event node. -/
def EventFree (e : Expr) : Prop :=
  ∀ node ∈ e.postorder, node.isEvent = false

theorem eventFree_iff {e : Expr} :
    e.EventFree ↔ e.isEvent = false ∧ ∀ operand ∈ e.operands, operand.EventFree :=
  forall_mem_postorder_iff e

/-- The node is no event, or its event is declared on the type of its receiver
    and its handler is a delegate. -/
def Fits : Expr → Prop
  | .event _ receiver e handler =>
    e.declaringType = receiver.type.name ∧ handler.type.isDelegate = true
  | _ => True

theorem fits_of_isEvent_eq_false {e : Expr} (h : e.isEvent = false) : e.Fits := by
  cases e with
  | event => cases h
  | _ => trivial

/-- All event nodes of the expression fit together. -/
def Valid (e : Expr) : Prop :=
  ∀ node ∈ e.postorder, node.Fits

theorem valid_iff {e : Expr} :
    e.Valid ↔ e.Fits ∧ ∀ operand ∈ e.operands, operand.Valid :=
  forall_mem_postorder_iff e

theorem valid_of_operands {e : Expr} (hevent : e.isEvent = false)
    (hoperands : ∀ operand ∈ e.operands, operand.Valid) : e.Valid :=
  valid_iff.mpr ⟨fits_of_isEvent_eq_false hevent, hoperands⟩

/-- Where there are no events, none fails to fit together. -/
theorem EventFree.valid {e : Expr} (h : e.EventFree) : e.Valid := by
  intro node hmem
  exact fits_of_isEvent_eq_false (h node hmem)

/-- Whether a node fits together shows in the types of its operands. -/
theorem fits_mapOperands_iff {f : Expr → Expr} {e : Expr}
    (h : ∀ operand ∈ e.operands, (f operand).type = operand.type) :
    (e.mapOperands f).Fits ↔ e.Fits := by
  cases e with
  | event subscription receiver event handler =>
    have hreceiver := h receiver (by simp [operands])
    have hhandler := h handler (by simp [operands])
    simp only [mapOperands, Fits, hreceiver, hhandler]
  | _ => simp only [mapOperands, Fits]

section EventOrCall

variable {subscription : Subscription} {receiver handler : Expr} {e : EventRef}

theorem toOption_checkedEvent_of_fits (h : (Expr.event subscription receiver e handler).Fits) :
    (checkedEvent subscription receiver e handler).toOption =
      some (.event subscription receiver e handler) := by
  unfold checkedEvent
  rw [(eventFault?_eq_none_iff receiver e handler).mpr h]
  rfl

theorem toOption_checkedEvent_of_not_fits
    (h : ¬ (Expr.event subscription receiver e handler).Fits) :
    (checkedEvent subscription receiver e handler).toOption = none := by
  unfold checkedEvent
  cases hfault : eventFault? receiver e handler with
  | none => exact absurd ((eventFault?_eq_none_iff receiver e handler).mp hfault) h
  | some fault => rfl

/-- The checked construction yields the event node if anything, and only if it
    fits together. -/
theorem checkedEvent_cases {node : Expr}
    (h : (checkedEvent subscription receiver e handler).toOption = some node) :
    node = .event subscription receiver e handler ∧ node.Fits := by
  by_cases hfits : (Expr.event subscription receiver e handler).Fits
  · rw [toOption_checkedEvent_of_fits hfits] at h
    cases h
    exact ⟨rfl, hfits⟩
  · rw [toOption_checkedEvent_of_not_fits hfits] at h
    cases h

theorem eventOrCall_eq_getD :
    eventOrCall subscription receiver e handler =
      (checkedEvent subscription receiver e handler).toOption.getD
        (accessorCall subscription receiver e handler) := by
  unfold eventOrCall
  cases checkedEvent subscription receiver e handler <;> rfl

/-- Parts that fit together make an event node. -/
theorem eventOrCall_of_fits (h : (Expr.event subscription receiver e handler).Fits) :
    eventOrCall subscription receiver e handler = .event subscription receiver e handler := by
  rw [eventOrCall_eq_getD, toOption_checkedEvent_of_fits h]
  rfl

/-- Parts that do not fit together make a call. -/
theorem eventOrCall_of_not_fits (h : ¬ (Expr.event subscription receiver e handler).Fits) :
    eventOrCall subscription receiver e handler =
      accessorCall subscription receiver e handler := by
  rw [eventOrCall_eq_getD, toOption_checkedEvent_of_not_fits h]
  rfl

/-- What holds of the event if it fits together, and of the call that it stands
    for, holds of what is made of the parts. -/
theorem eventOrCall_cases {p : Expr → Prop}
    (hevent : (Expr.event subscription receiver e handler).Fits →
      p (.event subscription receiver e handler))
    (hcall : p (accessorCall subscription receiver e handler)) :
    p (eventOrCall subscription receiver e handler) := by
  by_cases hfits : (Expr.event subscription receiver e handler).Fits
  · rw [eventOrCall_of_fits hfits]
    exact hevent hfits
  · rw [eventOrCall_of_not_fits hfits]
    exact hcall

@[simp] theorem operands_eventOrCall :
    (eventOrCall subscription receiver e handler).operands = [receiver, handler] :=
  eventOrCall_cases (p := fun node => node.operands = [receiver, handler]) (fun _ => rfl) rfl

theorem isConstant_eventOrCall :
    (eventOrCall subscription receiver e handler).isConstant = false :=
  eventOrCall_cases (p := fun node => node.isConstant = false) (fun _ => rfl) rfl

theorem assignsToPlace_eventOrCall :
    (eventOrCall subscription receiver e handler).AssignsToPlace :=
  eventOrCall_cases (fun _ => trivial) trivial

/-- Whatever the parts are, what is made of them fits together. -/
theorem fits_eventOrCall : (eventOrCall subscription receiver e handler).Fits :=
  eventOrCall_cases (fun hfits => hfits) trivial

/-- What holds of all nodes of the parts, and of every node that fits together
    and assigns to nothing but places, holds of all nodes of what is made. -/
theorem forall_mem_postorder_eventOrCall {p : Expr → Prop}
    (hnode : ∀ node : Expr, node.Fits → node.AssignsToPlace → p node)
    (hparts : ∀ operand ∈ [receiver, handler], ∀ node ∈ operand.postorder, p node) :
    ∀ node ∈ (eventOrCall subscription receiver e handler).postorder, p node := by
  rw [forall_mem_postorder_iff, operands_eventOrCall]
  exact ⟨hnode _ fits_eventOrCall assignsToPlace_eventOrCall, hparts⟩

end EventOrCall

/-! ## Whole transformations -/

/-- What holds of all nodes of an expression becomes, through a transformation,
    what the rebuilding of every single node makes of it. -/
theorem forall_mem_postorder_transform {w : Transform Id} {p q : Expr → Prop}
    (hkept : ∀ e, p e → p (e.mapOperands (transform w)))
    (hrebuild : ∀ e, p e → (∀ operand ∈ e.operands, ∀ node ∈ operand.postorder, q node) →
      ∀ node ∈ (w.rebuild e).postorder, q node)
    {e : Expr} (h : ∀ node ∈ e.postorder, p node) : ∀ node ∈ (e.transform w).postorder, q node := by
  induction e using operand_induction with
  | node e ih =>
    obtain ⟨hnode, hoperands⟩ := (forall_mem_postorder_iff e).mp h
    rw [transform_eq_rebuild]
    apply hrebuild _ (hkept e hnode)
    rw [operands_mapOperands, List.forall_mem_map]
    intro operand hmem
    exact ih operand hmem (hoperands operand hmem)

/-- A transformation whose rebuilt nodes are valid where their operands are
    makes a valid expression. -/
theorem valid_transform {w : Transform Id}
    (hrebuild : ∀ e : Expr, (∀ operand ∈ e.operands, operand.Valid) → (w.rebuild e).Valid)
    (e : Expr) : (e.transform w).Valid :=
  forall_mem_postorder_transform (p := fun _ => True) (fun _ h => h) (fun e _ => hrebuild e)
    fun _ _ => trivial

/-- A transformation goes into a property or an indexer and leaves it one. -/
theorem isPlace_transform (w : Transform Id) {e : Expr} (h : e.isPlace = true) :
    (e.transform w).isPlace = true := by
  cases e with
  | property receiver declaringType name type =>
    rw [transform_property]
    rfl
  | indexer receiver declaringType name arguments type =>
    rw [transform_indexer]
    rfl
  | _ => cases h

theorem assignsToPlace_mapOperands (w : Transform Id) {e : Expr} (h : e.AssignsToPlace) :
    (e.mapOperands (transform w)).AssignsToPlace := by
  cases e with
  | assign target value => exact isPlace_transform w h
  | _ => trivial

end Expr

/-! ## Rules that transformations keep -/

/-- The transform makes only nodes that fit together and assign only to
    properties and indexers, except for nodes other than events that it leaves
    as they were. So it keeps every rule that holds of such nodes. -/
def Transform.KeepsRules (w : Transform Id) : Prop :=
  ∀ (rule : Expr → Prop), (∀ node : Expr, node.Fits → node.AssignsToPlace → rule node) →
    ∀ e : Expr, (e.isEvent = false → rule e) →
      (∀ operand ∈ e.operands, ∀ node ∈ operand.postorder, rule node) →
      ∀ node ∈ (w.rebuild e).postorder, rule node

namespace Transform.KeepsRules

variable {w : Transform Id}

theorem valid_rebuild (hw : w.KeepsRules) (e : Expr)
    (hoperands : ∀ operand ∈ e.operands, operand.Valid) : (w.rebuild e).Valid :=
  hw Expr.Fits (fun _ hfits _ => hfits) e Expr.fits_of_isEvent_eq_false hoperands

theorem valid_transform (hw : w.KeepsRules) (e : Expr) : (e.transform w).Valid :=
  Expr.valid_transform hw.valid_rebuild e

theorem assignsToPlaces_transform (hw : w.KeepsRules) {e : Expr} (h : e.AssignsToPlaces) :
    (e.transform w).AssignsToPlaces := by
  have hkept : ∀ e : Expr, e.AssignsToPlace → (e.mapOperands (Expr.transform w)).AssignsToPlace :=
    fun _ => Expr.assignsToPlace_mapOperands w
  refine Expr.forall_mem_postorder_transform hkept ?_ h
  intro e hself
  exact hw Expr.AssignsToPlace (fun _ _ hplace => hplace) e fun _ => hself

end Transform.KeepsRules

end CilLift
