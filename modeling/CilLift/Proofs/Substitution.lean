import CilLift.Proofs.EventReplacement
import CilLift.Proofs.Leaves

/-! # Substitution and events

    Putting an expression in the places of a parameter can break the events
    above these places: an event whose operands no longer fit together becomes
    the call that it stands for, and this changes the type that the next event
    above it sees. So a substitution may leave some events and turn others into
    calls.

    None of this shows once all events are turned into calls. What a transform
    of leaves makes of an event becomes the same call, whether the event was
    rebuilt or had fallen back to its call already (`reduceEvents_eventOrCall`).

    Main statements: `Transform.RebuildsNodes.reduceEvents_transform` exchanges
    a transform that decides only about leaves with turning events into calls,
    and `reduceEvents_substitute` says this of substitutions.
-/

namespace CilLift

namespace Expr

/-- An event that is rebuilt and the call that takes its place otherwise become
    the same call. -/
theorem reduceEvents_eventOrCall (subscription : Subscription) (receiver : Expr) (e : EventRef)
    (handler : Expr) :
    (eventOrCall subscription receiver e handler).reduceEvents =
      accessorCall subscription receiver.reduceEvents e handler.reduceEvents := by
  apply eventOrCall_cases (p := fun node => node.reduceEvents =
    accessorCall subscription receiver.reduceEvents e handler.reduceEvents)
  · intro _
    exact reduceEvents_event subscription receiver e handler
  · exact reduceEvents_eq_mapOperands rfl

/-- A leaf has nothing below it that could be replaced. -/
theorem mapOperands_of_isLeaf (f : Expr → Expr) {e : Expr} (h : e.isLeaf = true) :
    e.mapOperands f = e := by
  cases e with
  | constant | parameter => rfl
  | _ => cases h

theorem isEvent_of_isLeaf {e : Expr} (h : e.isLeaf = true) : e.isEvent = false := by
  cases e with
  | constant | parameter => rfl
  | _ => cases h

end Expr

/-! ## Transforms that decide about leaves -/

/-- The transform puts fields, calls and events together as they were, so that
    it decides only what takes the places of constants and parameters. -/
structure Transform.RebuildsNodes (w : Transform Id) : Prop where
  field : w.field = Transform.identity.field
  call : w.call = Transform.identity.call
  event : w.event = Transform.identity.event

namespace Transform.RebuildsNodes

variable {w w' : Transform Id}

theorem rebuild_eq_self (hw : w.RebuildsNodes) {e : Expr} (hleaf : e.isLeaf = false)
    (hevent : e.isEvent = false) : w.rebuild e = e := by
  cases e with
  | constant | parameter => cases hleaf
  | event => cases hevent
  | field receiver f =>
    show (w.field receiver f).run = _
    rw [hw.field]
    rfl
  | call receiver method arguments =>
    show (w.call receiver method arguments).run = _
    rw [hw.call]
    rfl
  | _ => rfl

theorem rebuild_event (hw : w.RebuildsNodes) (subscription : Subscription) (receiver : Expr)
    (e : EventRef) (handler : Expr) :
    w.rebuild (.event subscription receiver e handler) =
      .eventOrCall subscription receiver e handler := by
  show (w.event subscription receiver e handler).run = _
  rw [hw.event]
  rfl

theorem transform_accessorCall (hw : w.RebuildsNodes) (subscription : Subscription)
    (receiver : Expr) (e : EventRef) (handler : Expr) :
    (Expr.accessorCall subscription receiver e handler).transform w =
      .accessorCall subscription (receiver.transform w) e (handler.transform w) := by
  rw [Expr.transform_eq_rebuild]
  exact hw.rebuild_eq_self rfl rfl

/-- Transforming leaves and then turning events into calls is turning events
    into calls and then transforming leaves, if the second transform puts in the
    place of a leaf what the first one puts there with its events turned into
    calls. -/
theorem reduceEvents_transform (hw : w.RebuildsNodes) (hw' : w'.RebuildsNodes)
    (hleaves : ∀ leaf : Expr, leaf.isLeaf = true →
      (w.rebuild leaf).reduceEvents = w'.rebuild leaf)
    (e : Expr) : (e.transform w).reduceEvents = e.reduceEvents.transform w' := by
  induction e using Expr.operand_induction with
  | node e ih =>
    rw [Expr.transform_eq_rebuild w]
    by_cases hleaf : e.isLeaf = true
    · have hreduced : e.reduceEvents = e := by
        rw [Expr.reduceEvents_eq_mapOperands (Expr.isEvent_of_isLeaf hleaf),
          Expr.mapOperands_of_isLeaf _ hleaf]
      rw [hreduced, Expr.transform_eq_rebuild w', Expr.mapOperands_of_isLeaf _ hleaf,
        Expr.mapOperands_of_isLeaf _ hleaf, hleaves e hleaf]
    have hleaf : e.isLeaf = false := by simpa using hleaf
    by_cases hevent : e.isEvent = true
    · cases e with
      | event subscription receiver event handler =>
        have hreceiver := ih receiver (by simp [Expr.operands])
        have hhandler := ih handler (by simp [Expr.operands])
        -- Only the left side has an event to check; on the right it is a call by now.
        rw [Expr.mapOperands, hw.rebuild_event, Expr.reduceEvents_eventOrCall, hreceiver, hhandler,
          Expr.reduceEvents_event, hw'.transform_accessorCall]
      | _ => cases hevent
    · have hevent : e.isEvent = false := by simpa using hevent
      have hswap : (e.mapOperands (Expr.transform w)).mapOperands Expr.reduceEvents =
          (e.mapOperands Expr.reduceEvents).mapOperands (Expr.transform w') := by
        rw [Expr.mapOperands_mapOperands, Expr.mapOperands_mapOperands]
        exact Expr.mapOperands_congr ih
      calc (w.rebuild (e.mapOperands (Expr.transform w))).reduceEvents
          = (e.mapOperands (Expr.transform w)).reduceEvents := by
            rw [hw.rebuild_eq_self (by simp [hleaf]) (by simp [hevent])]
        _ = (e.mapOperands Expr.reduceEvents).mapOperands (Expr.transform w') := by
            rw [Expr.reduceEvents_eq_mapOperands (by simp [hevent]), hswap]
        _ = e.reduceEvents.transform w' := by
            rw [Expr.reduceEvents_eq_mapOperands hevent, Expr.transform_eq_rebuild w',
              hw'.rebuild_eq_self (by simp [hleaf]) (by simp [hevent])]

end Transform.RebuildsNodes

/-! ## Substitution -/

theorem Transform.rebuildsNodes_substituting (name : String) (replacement : Expr) :
    (substituting name replacement).RebuildsNodes :=
  ⟨rfl, rfl, rfl⟩

theorem Transform.rebuild_substituting_parameter (name : String) (replacement : Expr) (p : Param) :
    (substituting name replacement).rebuild (.parameter p) =
      if p.name = name then replacement else .parameter p := rfl

/-- Substituting for a parameter and then turning events into calls is turning
    events into calls, in the replacement too, and then substituting. It makes
    no difference which events the substitution left and which it had to turn
    into calls itself, at whatever depth they stand. -/
theorem reduceEvents_substitute (e : Expr) (name : String) (replacement : Expr) :
    (e.substitute name replacement).reduceEvents =
      e.reduceEvents.substitute name replacement.reduceEvents := by
  have hleaves : ∀ leaf : Expr, leaf.isLeaf = true →
      ((Transform.substituting name replacement).rebuild leaf).reduceEvents =
        (Transform.substituting name replacement.reduceEvents).rebuild leaf := by
    intro leaf hleaf
    cases leaf with
    | constant value type => rfl
    | parameter p =>
      rw [Transform.rebuild_substituting_parameter, Transform.rebuild_substituting_parameter]
      by_cases hname : p.name = name
      · rw [if_pos hname, if_pos hname]
      · rw [if_neg hname, if_neg hname]
        rfl
    | _ => cases hleaf
  exact (Transform.rebuildsNodes_substituting name replacement).reduceEvents_transform
    (Transform.rebuildsNodes_substituting name replacement.reduceEvents) hleaves e

/-! ### A handler that is no delegate -/

namespace Replaced

open Click (button buttonType handler handlerType)
open Chained (returning done)

def number : Expr := .constant (.int32 5) (.prim .int32)

def later : Expr := .parameter ⟨"later", handlerType⟩

def chain (button handler : Expr) : Expr :=
  .event .add (.event .add button returning handler) done later

-- The inner event falls back to its call. The call is no longer `Void`, so the
-- outer event falls back as well, with operands that were not substituted in.
example : (chain button handler).substitute "handler" number =
    .call (some (.call (some button) returning.adder [number])) done.adder [later] := rfl

-- Another button leaves both events as they were.
example : (chain button handler).substitute "button" (.parameter ⟨"other", buttonType⟩) =
    chain (.parameter ⟨"other", buttonType⟩) handler := rfl

end Replaced

end CilLift
