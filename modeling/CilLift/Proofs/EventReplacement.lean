import CilLift.Proofs.Validity

/-! # Events replaced one by one

    Turning events into calls rebuilds every event over its transformed
    operands, checks it again and then reduces it; where the operands no longer
    fit together, the rebuilding itself makes the call. The types of operands do
    change on the way: an event is `Void`, its call has the type that the method
    returns. `withoutEvents` knows nothing of checks and types. It replaces the
    events of a tree by plain recursion and writes every other node as it was.

    Main statement: `reduceEvents_structural` says that the two are the same
    function, that no event is left, and that exactly the expressions without
    events stay as they are.
-/

namespace CilLift

namespace Expr

mutual

/-- The expression with every event replaced by a call of the method that adds
    or removes its handler. -/
def withoutEvents : Expr → Expr
  | .constant value type => .constant value type
  | .parameter p => .parameter p
  | .field receiver f => .field (withoutEventsOption receiver) f
  | .binary op left right type => .binary op left.withoutEvents right.withoutEvents type
  | .unary op operand type => .unary op operand.withoutEvents type
  | .call receiver method arguments =>
    .call (withoutEventsOption receiver) method (withoutEventsList arguments)
  | .new ctor arguments => .new ctor (withoutEventsList arguments)
  | .newArray element length => .newArray element length.withoutEvents
  | .index array position type => .index array.withoutEvents position.withoutEvents type
  | .lambda parameters body type => .lambda parameters body.withoutEvents type
  | .property receiver declaringType name type =>
    .property (withoutEventsOption receiver) declaringType name type
  | .indexer receiver declaringType name arguments type =>
    .indexer receiver.withoutEvents declaringType name (withoutEventsList arguments) type
  | .assign target value => .assign target.withoutEvents value.withoutEvents
  | .event .add receiver e handler =>
    .call (some receiver.withoutEvents) e.adder [handler.withoutEvents]
  | .event .remove receiver e handler =>
    .call (some receiver.withoutEvents) e.remover [handler.withoutEvents]

/-- A receiver with its events replaced. -/
def withoutEventsOption : Option Expr → Option Expr
  | none => none
  | some e => some e.withoutEvents

/-- Arguments with their events replaced. -/
def withoutEventsList : List Expr → List Expr
  | [] => []
  | e :: es => e.withoutEvents :: withoutEventsList es

end

theorem withoutEventsOption_eq_map (receiver : Option Expr) :
    withoutEventsOption receiver = receiver.map withoutEvents := by
  cases receiver with
  | none => rw [withoutEventsOption, Option.map_none]
  | some e => rw [withoutEventsOption, Option.map_some]

theorem withoutEventsList_eq_map (es : List Expr) :
    withoutEventsList es = es.map withoutEvents := by
  induction es with
  | nil => rw [withoutEventsList, List.map_nil]
  | cons e es ih => rw [withoutEventsList, ih, List.map_cons]

theorem withoutEvents_event (subscription : Subscription) (receiver : Expr) (e : EventRef)
    (handler : Expr) :
    (event subscription receiver e handler).withoutEvents =
      .call (some receiver.withoutEvents) (e.method subscription) [handler.withoutEvents] := by
  cases subscription <;> rw [withoutEvents] <;> rfl

/-- All other nodes keep everything but their operands. -/
theorem withoutEvents_eq_mapOperands {e : Expr} (h : e.isEvent = false) :
    e.withoutEvents = e.mapOperands withoutEvents := by
  cases e with
  | event => cases h
  | _ =>
    simp only [withoutEvents, mapOperands, withoutEventsOption_eq_map, withoutEventsList_eq_map]

/-- Turning events into calls is the replacement, whether or not the events fit
    together before or after their operands are transformed. -/
theorem reduceEvents_eq_withoutEvents (e : Expr) : e.reduceEvents = e.withoutEvents := by
  induction e using operand_induction with
  | node e ih =>
    cases hevent : e.isEvent with
    | true =>
      cases e with
      | event subscription receiver e handler =>
        have hreceiver := ih receiver (by simp [operands])
        have hhandler := ih handler (by simp [operands])
        rw [reduceEvents_event, withoutEvents_event, hreceiver, hhandler]
        rfl
      | _ => cases hevent
    | false =>
      calc e.reduceEvents
          = e.mapOperands reduceEvents := reduceEvents_eq_mapOperands hevent
        _ = e.mapOperands withoutEvents := mapOperands_congr ih
        _ = e.withoutEvents := (withoutEvents_eq_mapOperands hevent).symm

/-- Where there are no events, there is nothing to do. -/
theorem EventFree.reduceEvents_eq {e : Expr} (h : e.EventFree) : e.reduceEvents = e := by
  induction e using operand_induction with
  | node e ih =>
    obtain ⟨hevent, hoperands⟩ := eventFree_iff.mp h
    rw [reduceEvents_eq_mapOperands hevent,
      mapOperands_congr fun operand hmem => ih operand hmem (hoperands operand hmem)]
    exact mapOperands_id e

end Expr

/-- Turning events into calls replaces every event, at whatever depth, by a call
    of its method, and writes all other nodes as they were. So no event is
    left, and only expressions without events stay the same. -/
theorem reduceEvents_structural (e : Expr) :
    e.reduceEvents = e.withoutEvents ∧
      e.reduceEvents.EventFree ∧
      (e.reduceEvents = e ↔ e.EventFree) := by
  refine ⟨e.reduceEvents_eq_withoutEvents, e.eventFree_reduceEvents, ?_⟩
  constructor
  · intro hsame
    rw [← hsame]
    exact e.eventFree_reduceEvents
  · intro hfree
    exact hfree.reduceEvents_eq

/-! ### An event of what a subscription returns -/

namespace Chained

open Click (button event handler handlerType)

/-- Subscribing to it returns an object, not nothing. -/
def returning : EventRef :=
  { event with adder := { event.adder with returnType := .prim .object } }

/-- An event that is declared on `Void`, the type of event nodes. -/
def done : EventRef := .conventional "Void" "Done" handlerType

def subscription : Expr := .event .add (.event .add button returning handler) done handler

-- The outer event fits together until the inner one has become a call.
example : subscription.Fits ∧
    ¬ (Expr.event .add (Expr.event .add button returning handler).reduceEvents done handler).Fits ∧
    subscription.reduceEvents =
      .call (some (.call (some button) returning.adder [handler])) done.adder [handler] :=
  ⟨⟨rfl, rfl⟩, fun h => absurd h.1 (by decide), rfl⟩

end Chained

end CilLift
