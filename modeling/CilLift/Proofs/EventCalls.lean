import CilLift.Proofs.Accessors

/-! # Events and the calls they stand for

    Turning events into calls replaces every event node by the call of its
    method and leaves all other nodes as they are, whatever becomes of their
    types on the way.

    Main statement: `reduceEvents_recogniseAccessors` says that turning events
    into calls undoes the recognition of events, if the calls that were
    recognised are those of the methods that the events register.
-/

namespace CilLift

/-! ## Events as calls -/

/-- An event node becomes its call whether or not its operands fit. -/
theorem EventCall.rebuild_event (subscription : Subscription) (receiver : Expr) (e : EventRef)
    (handler : Expr) :
    EventCall.transform.rebuild (.event subscription receiver e handler) =
      .accessorCall subscription receiver e handler := by
  show (let node := Expr.eventOrCall subscription receiver e handler
    node.reduce?.getD node) = _
  by_cases hfits : (Expr.event subscription receiver e handler).Fits
  · rw [Expr.eventOrCall_of_fits hfits]
    rfl
  · rw [Expr.eventOrCall_of_not_fits hfits]
    rfl

theorem EventCall.keepsRules : EventCall.transform.KeepsRules := by
  intro rule hrule e hself hoperands
  cases e with
  | event subscription receiver e handler =>
    rw [rebuild_event]
    have hcall : rule (.accessorCall subscription receiver e handler) := hrule _ trivial trivial
    exact (Expr.forall_mem_postorder_iff _).mpr ⟨hcall, hoperands⟩
  | _ => exact (Expr.forall_mem_postorder_iff _).mpr ⟨hself rfl, hoperands⟩

namespace Expr

theorem reduceEvents_event (subscription : Subscription) (receiver : Expr) (e : EventRef)
    (handler : Expr) :
    (event subscription receiver e handler).reduceEvents =
      accessorCall subscription receiver.reduceEvents e handler.reduceEvents :=
  EventCall.rebuild_event subscription receiver.reduceEvents e handler.reduceEvents

theorem reduceEvents_eq_mapOperands {e : Expr} (h : e.isEvent = false) :
    e.reduceEvents = e.mapOperands reduceEvents := by
  unfold reduceEvents
  rw [transform_eq_rebuild]
  cases e with
  | event => cases h
  | _ => rfl

/-! ## Calls of event methods -/

/-- A call of a method with a special name calls the method of an event by its
    name. Where the type of the receiver has an event of that name, the method
    is the one that the event registers. -/
def CallsEventMethod : Expr → Prop
  | .call receiver method _ =>
    method.isSpecialName = true → ∃ kind name, method.name = Subscription.stem kind ++ name ∧
      ∀ r event, receiver = some r → r.type.info?.bind (·.event? name) = some event →
        method = event.method kind
  | _ => True

/-- All calls of methods with special names call methods of events. -/
def CallsEventMethods (e : Expr) : Prop :=
  ∀ node ∈ e.postorder, node.CallsEventMethod

theorem callsEventMethods_iff {e : Expr} :
    e.CallsEventMethods ↔
      e.CallsEventMethod ∧ ∀ operand ∈ e.operands, operand.CallsEventMethods :=
  forall_mem_postorder_iff e

/-- A recognised call of an event's method is an event node. -/
theorem replacement?_event_cases {receiver : Option Expr} {method : MethodRef}
    {arguments : List Expr} {e : Expr} {kind : Subscription} {name : String}
    (hname : method.name = kind.stem ++ name)
    (h : Accessor.replacement? receiver method arguments = some e) :
    ∃ r handler event, receiver = some r ∧ arguments = [handler] ∧
      r.type.info?.bind (·.event? name) = some event ∧ e = .event kind r event handler := by
  obtain ⟨-, role, hrole, hrecognise⟩ := Accessor.replacement?_cases h
  rw [hname, Accessor.role?_stem_append] at hrole
  cases hrole
  obtain ⟨r, handler, event, hreceiver, harguments, hevent, he, -⟩ :=
    Accessor.recognise?_subscription_cases hrecognise
  exact ⟨r, handler, event, hreceiver, harguments, hevent, he⟩

/-- Recognising events leaves the type of a node as it was or makes it
    `Void`. -/
theorem type_recogniseAccessors {e : Expr} (hfree : e.EventFree) (hcalls : e.CallsEventMethods) :
    e.recogniseAccessors.type = e.type ∨ e.recogniseAccessors.type = .prim .void := by
  induction e using operand_induction with
  | node e ih =>
    obtain ⟨hevent, hfree⟩ := eventFree_iff.mp hfree
    obtain ⟨hcall, hcalls⟩ := callsEventMethods_iff.mp hcalls
    cases e with
    | call receiver method arguments =>
      rw [recogniseAccessors_call]
      cases hmade : Accessor.replacement? (receiver.map recogniseAccessors) method
        (arguments.map recogniseAccessors) with
      | none => exact .inl rfl
      | some node =>
        obtain ⟨kind, name, hname, -⟩ := hcall (Accessor.replacement?_cases hmade).1
        obtain ⟨r, handler, event, -, -, -, rfl⟩ := replacement?_event_cases hname hmade
        exact .inr rfl
    | assign target value =>
      have htarget : target ∈ (assign target value).operands := by simp [operands]
      exact ih target htarget (hfree target htarget) (hcalls target htarget)
    | event => cases hevent
    | _ =>
      left
      rw [recogniseAccessors_eq_mapOperands rfl rfl]
      rfl

/-- A call that is recognised here is the call of its event's own method, as
    its receiver has kept its type. -/
theorem recognised_call_cases {receiver : Option Expr} {method : MethodRef}
    {arguments : List Expr} {node : Expr} (hfree : (call receiver method arguments).EventFree)
    (hcalls : (call receiver method arguments).CallsEventMethods)
    (hmade : Accessor.replacement? (receiver.map recogniseAccessors) method
      (arguments.map recogniseAccessors) = some node) :
    ∃ kind r event handler, receiver = some r ∧ arguments = [handler] ∧
      method = event.method kind ∧
      node = .event kind r.recogniseAccessors event handler.recogniseAccessors := by
  obtain ⟨-, hfree⟩ := eventFree_iff.mp hfree
  obtain ⟨hcall, hcalls⟩ := callsEventMethods_iff.mp hcalls
  obtain ⟨kind, name, hname, hregistered⟩ := hcall (Accessor.replacement?_cases hmade).1
  obtain ⟨r', handler', event, hr, ha, hfound, rfl⟩ := replacement?_event_cases hname hmade
  obtain ⟨r, rfl, rfl⟩ := Option.map_eq_some_iff.mp hr
  obtain ⟨handler, rfl, rfl⟩ := List.map_eq_singleton_iff.mp ha
  refine ⟨kind, r, event, handler, rfl, rfl, ?_, rfl⟩
  have hmem : r ∈ (call (some r) method [handler]).operands := by simp [operands]
  -- A receiver that has become `Void` has no events.
  have htype : r.recogniseAccessors.type = r.type := by
    rcases type_recogniseAccessors (hfree r hmem) (hcalls r hmem) with hsame | hvoid
    · exact hsame
    · rw [hvoid] at hfound
      cases hfound
  rw [htype] at hfound
  exact hregistered r event rfl hfound

/-- Turning events into calls undoes the recognition of events: in an
    expression without event nodes whose calls of special-name methods are
    calls of the methods that events register, every recognised call comes
    back. -/
theorem reduceEvents_recogniseAccessors {e : Expr} (hfree : e.EventFree)
    (hcalls : e.CallsEventMethods) : e.recogniseAccessors.reduceEvents = e := by
  induction e using operand_induction with
  | node e ih =>
    obtain ⟨hevent, hfree'⟩ := eventFree_iff.mp hfree
    obtain ⟨-, hcalls'⟩ := callsEventMethods_iff.mp hcalls
    have hback : ∀ operand ∈ e.operands, operand.recogniseAccessors.reduceEvents = operand :=
      fun operand hmem => ih operand hmem (hfree' operand hmem) (hcalls' operand hmem)
    -- A node that is only rebuilt comes back with its operands.
    have hrebuilt : (e.mapOperands recogniseAccessors).reduceEvents = e := by
      rw [reduceEvents_eq_mapOperands (by simp [hevent]), mapOperands_mapOperands,
        mapOperands_congr hback, mapOperands_id]
    cases hcall : e.isCall with
    | true =>
      cases e with
      | call receiver method arguments =>
        rw [recogniseAccessors_call]
        cases hmade : Accessor.replacement? (receiver.map recogniseAccessors) method
          (arguments.map recogniseAccessors) with
        | none => exact hrebuilt
        | some node =>
          obtain ⟨kind, r, event, handler, rfl, rfl, rfl, rfl⟩ :=
            recognised_call_cases hfree hcalls hmade
          rw [Option.getD_some, reduceEvents_event, hback r (by simp [operands]),
            hback handler (by simp [operands])]
          rfl
      | _ => cases hcall
    | false =>
      rw [recogniseAccessors_eq_mapOperands hevent hcall]
      exact hrebuilt

end Expr

/-! ### Subscriptions to a button -/

namespace Click

def handlerType : Ty := .named ⟨"EventHandler", .delegate, [], none⟩

def event : EventRef := .conventional "Button" "Click" handlerType

def buttonType : Ty := .named ⟨"Button", .reference, [event], none⟩

def button : Expr := .parameter ⟨"button", buttonType⟩

def handler : Expr := .parameter ⟨"handler", handlerType⟩

def both : ConstructorRef where
  declaringType := .prim .object
  parameters := [⟨"first", .prim .void⟩, ⟨"second", .prim .void⟩]

def call (kind : Subscription) : Expr :=
  .call (some button) (event.method kind) [handler]

def calls : Expr := .new both [call .add, call .remove]

theorem callsEventMethod_call (kind : Subscription) : (call kind).CallsEventMethod := by
  intro _
  refine ⟨kind, "Click", by cases kind <;> rfl, ?_⟩
  intro r found hreceiver hfound
  cases hreceiver
  have hevent : some event = some found := hfound
  rw [Option.some.inj hevent]

theorem reduceEvents_calls :
    calls.EventFree ∧ calls.CallsEventMethods ∧
      calls.recogniseAccessors =
        .new both [.event .add button event handler, .event .remove button event handler] ∧
      calls.recogniseAccessors.reduceEvents = calls := by
  have hpostorder : calls.postorder =
      [button, handler, call .add, button, handler, call .remove, calls] := by
    simp [Expr.postorder_eq, Expr.operands, calls, call, button, handler]
  have hfree : calls.EventFree := by
    unfold Expr.EventFree
    rw [hpostorder]
    decide
  have hcalls : calls.CallsEventMethods := by
    unfold Expr.CallsEventMethods
    rw [hpostorder]
    simp only [List.forall_mem_cons]
    exact ⟨trivial, trivial, callsEventMethod_call .add, trivial, trivial,
      callsEventMethod_call .remove, trivial, List.forall_mem_nil _⟩
  exact ⟨hfree, hcalls, rfl, Expr.reduceEvents_recogniseAccessors hfree hcalls⟩

end Click

end CilLift
