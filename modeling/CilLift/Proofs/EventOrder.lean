import CilLift.Proofs.NormalForm

/-! # The events of an expression in order

    An event node is checked again when its operands have been rewritten, and
    becomes a call where they no longer fit together. Reading known fields keeps
    all types, so this never happens there: every event stays where it is.

    Main statement: `foldFieldReads_keeps_events` says that the type of a valid
    expression and the sequence of its events are the same before and after the
    known fields are read.
-/

namespace CilLift

open Relation (ReflTransGen)

namespace Expr

/-- The event of the node and what is done to it, if it is an event node. -/
def event? : Expr → Option (Subscription × EventRef)
  | .event subscription _ e _ => some (subscription, e)
  | _ => none

/-- The events of the expression in pre-order, each with what is done to it. -/
def events (e : Expr) : List (Subscription × EventRef) :=
  e.preorder.filterMap event?

theorem events_eq (e : Expr) : e.events = e.event?.toList ++ e.operands.flatMap events := by
  unfold events
  rw [preorder_eq, List.filterMap_cons, List.filterMap_flatMap]
  cases e.event? <;> rfl

theorem event?_withOperands (e : Expr) (es : List Expr) :
    (e.withOperands es).event? = e.event? := by
  fun_cases withOperands e es <;> rfl

/-! ## Contractions -/

variable {e e' : Expr}

/-- A contraction takes place where there are no events, and changes none above
    it. -/
theorem ReadsOne.events_eq (h : ReadsOne e e') : e'.events = e.events := by
  induction h with
  | here hcontracts =>
    -- Neither a read of a constant object nor what it yields has events.
    cases hcontracts
    simp [Expr.events_eq, event?, operands]
  | @inside node operand operand' before after hoperands _ ih =>
    have hlength : (before ++ operand' :: after).length = node.operands.length := by
      simp [hoperands]
    rw [Expr.events_eq, Expr.events_eq node, event?_withOperands, operands_withOperands hlength,
      hoperands]
    simp [ih]

theorem events_eq_of_reads (h : ReflTransGen ReadsOne e e') : e'.events = e.events := by
  refine keeps_of_reads (p := fun reached => reached.events = e.events) ?_ h rfl
  intro e e' hreads hsame
  rw [hreads.events_eq, hsame]

end Expr

/-- Reading known fields in a valid expression keeps its type, and its events
    one by one: no event falls back to the call that it stands for, and none is
    lost. -/
theorem foldFieldReads_keeps_events {e : Expr} (h : e.Valid) :
    e.foldFieldReads.type = e.type ∧
      e.foldFieldReads.events = e.events ∧
      ∀ subscription receiver event handler,
        Expr.event subscription receiver event handler ∈ e.postorder →
          (Expr.event subscription receiver event handler).foldFieldReads =
            .event subscription receiver.foldFieldReads event handler.foldFieldReads := by
  refine ⟨Expr.type_foldFieldReads h, Expr.events_eq_of_reads h.reads_foldFieldReads, ?_⟩
  intro subscription receiver event handler hmem
  have hvalid : (Expr.event subscription receiver event handler).Valid :=
    Expr.forall_mem_postorder_of_mem hmem h
  exact hvalid.foldFieldReads_eq rfl

/-! ### A handler that subscribes anew -/

namespace Resubscription

open Click (event handler handlerType)
open KnownForm (noButton)
open KnownWindow (window form button subscription)

/-- Removes a handler that adds another one when it is called. -/
def exchange : Expr := .event .remove button event (.lambda [] subscription handlerType)

def exchanged : Expr :=
  .event .remove noButton event
    (.lambda [] (.event .add noButton event handler) handlerType)

theorem events_exchange :
    exchange.Valid ∧
      exchange.foldFieldReads = exchanged ∧
      exchanged.type = exchange.type ∧
      exchange.events = [(.remove, event), (.add, event)] ∧
      exchanged.events = [(.remove, event), (.add, event)] ∧
      exchange ∈ exchange.postorder ∧
      exchange.foldFieldReads =
        .event .remove button.foldFieldReads event
          (Expr.lambda [] subscription handlerType).foldFieldReads := by
  have hfits : exchange.Fits := ⟨rfl, rfl⟩
  have hbutton : button.Valid :=
    (Expr.valid_iff.mp KnownWindow.valid_subscription).2 button (by simp [subscription, Expr.operands])
  have hhandler : (Expr.lambda [] subscription handlerType).Valid :=
    Expr.valid_of_operands rfl (List.forall_mem_singleton.mpr KnownWindow.valid_subscription)
  have hvalid : exchange.Valid :=
    Expr.valid_iff.mpr ⟨hfits, List.forall_mem_cons.mpr ⟨hbutton,
      List.forall_mem_singleton.mpr hhandler⟩⟩
  have hread : exchange.foldFieldReads = exchanged := rfl
  have hevents : exchange.events = [(.remove, event), (.add, event)] := by
    simp [Expr.events_eq, Expr.event?, Expr.operands, exchange, subscription, button, form,
      window, handler]
  have hmem : exchange ∈ exchange.postorder := by
    rw [Expr.postorder_eq]
    simp
  obtain ⟨htype, hsame, hkept⟩ := foldFieldReads_keeps_events hvalid
  rw [hread] at htype hsame
  exact ⟨hvalid, hread, htype, hevents, by rw [hsame, hevents], hmem, hkept _ _ _ _ hmem⟩

end Resubscription

end CilLift
