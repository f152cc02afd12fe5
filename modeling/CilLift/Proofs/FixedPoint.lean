import CilLift.Proofs.Validity

/-! # Recognition settles at once

    Recognising an operand can give it another type, and the type of a receiver
    decides which indexers and events are recognised on it. Since operands come
    before their node, that decision is made on the types that stay.

    Main statement: `recognition_settles` says that one run settles every node
    of an expression without events, so that a second run changes nothing, and
    that an expression without special names is not changed at all.
-/

namespace CilLift

/-! ## Single nodes -/

namespace Accessor

theorem replacement?_of_not_isSpecialName {receiver : Option Expr} {method : MethodRef}
    {arguments : List Expr} (h : method.isSpecialName = false) :
    replacement? receiver method arguments = none := by
  unfold replacement?
  rw [h]
  rfl

/-- A node that is put together over settled operands is settled, unless it was
    an event: an event that does not fit together becomes a call that may well
    stand for another event. -/
theorem settled_rebuild {e : Expr} (hevent : e.isEvent = false)
    (hoperands : ∀ operand ∈ e.operands, ∀ node ∈ operand.postorder, node.Settled) :
    ∀ node ∈ (transform.rebuild e).postorder, node.Settled := by
  refine forall_mem_postorder_rebuild hevent (fun hsettled => hsettled) ?_ hoperands
  intro node hcall _ _
  exact Expr.settled_of_isCall_eq_false hcall

/-- A settled node that fits together is put together as it was. -/
theorem rebuild_eq_self {e : Expr} (hsettled : e.Settled) (hfits : e.Fits) :
    transform.rebuild e = e := by
  cases e with
  | call receiver method arguments =>
    show (replacement? receiver method arguments).getD (.call receiver method arguments) = _
    rw [show replacement? receiver method arguments = none from hsettled]
    rfl
  | event => exact Expr.eventOrCall_of_fits hfits
  | _ => rfl

end Accessor

/-! ## Whole expressions -/

namespace Expr

variable {e : Expr}

theorem settled_recogniseAccessors (h : e.EventFree) :
    ∀ node ∈ e.recogniseAccessors.postorder, node.Settled := by
  refine forall_mem_postorder_transform ?_ (fun _ => Accessor.settled_rebuild) h
  intro e hevent
  rw [isEvent_mapOperands]
  exact hevent

/-- Recognition changes nothing where all nodes are settled. -/
theorem recogniseAccessors_eq_self (hvalid : e.Valid)
    (hsettled : ∀ node ∈ e.postorder, node.Settled) : e.recogniseAccessors = e := by
  induction e using operand_induction with
  | node e ih =>
    obtain ⟨hfits, hoperands⟩ := valid_iff.mp hvalid
    obtain ⟨hnode, hbelow⟩ := (forall_mem_postorder_iff e).mp hsettled
    have hsame : e.mapOperands recogniseAccessors = e := by
      rw [mapOperands_congr fun operand hmem => ih operand hmem (hoperands operand hmem)
        (hbelow operand hmem)]
      exact mapOperands_id e
    calc e.recogniseAccessors
        = Accessor.transform.rebuild (e.mapOperands recogniseAccessors) := transform_eq_rebuild _ e
      _ = Accessor.transform.rebuild e := by rw [hsame]
      _ = e := Accessor.rebuild_eq_self hnode hfits

/-- What is recognised is settled, and its events fit together, so a second run
    finds nothing to do. -/
theorem recogniseAccessors_recogniseAccessors (h : e.EventFree) :
    e.recogniseAccessors.recogniseAccessors = e.recogniseAccessors :=
  recogniseAccessors_eq_self (valid_recogniseAccessors e) (settled_recogniseAccessors h)

end Expr

/-- One run of recognition leaves no call that stands for something else, at any
    depth, so a second run changes nothing; and it leaves an expression without
    special names as it is. This is about expressions without events, which all
    lifted expressions are. -/
theorem recognition_settles :
    (∀ e : Expr, e.EventFree →
      (∀ receiver method arguments,
        Expr.call receiver method arguments ∈ e.recogniseAccessors.postorder →
          Accessor.replacement? receiver method arguments = none) ∧
      e.recogniseAccessors.recogniseAccessors = e.recogniseAccessors) ∧
    (∀ e : Expr, e.Valid →
      (∀ receiver method arguments, Expr.call receiver method arguments ∈ e.postorder →
        method.isSpecialName = false) →
      e.recogniseAccessors = e) ∧
    ∀ (r : Resolver) (d : Delegate) (tree : Expr), d.lift r = .ok tree → tree.EventFree := by
  refine ⟨?_, ?_, fun r d tree => eventFree_of_lift⟩
  · intro e hfree
    refine ⟨?_, Expr.recogniseAccessors_recogniseAccessors hfree⟩
    intro receiver method arguments hmem
    exact Expr.settled_recogniseAccessors hfree _ hmem
  · intro e hvalid hplain
    apply Expr.recogniseAccessors_eq_self hvalid
    intro node hmem
    cases node with
    | call receiver method arguments =>
      exact Accessor.replacement?_of_not_isSpecialName (hplain receiver method arguments hmem)
    | _ => trivial

/-! ### An event of a property -/

namespace WindowButton

open Click (buttonType event handler)

def window : Expr := .parameter ⟨"window", .named ⟨"Window", .reference, [], none⟩⟩

def getButton : MethodRef where
  declaringType := "Window"
  name := "get_Button"
  parameters := []
  returnType := buttonType
  attributes := .eventMethod

def log : MethodRef where
  declaringType := "Log"
  name := "Write"
  parameters := [⟨"entry", .prim .void⟩]
  returnType := .prim .void
  attributes := ⟨0x0010⟩

def logged (entry : Expr) : Expr := .call none log [entry]

def button : Expr := .call (some window) getButton []

def subscribing : Expr := .call (some button) event.adder [handler]

def subscription : Expr :=
  .event .add (.property (some window) "Window" "Button" buttonType) event handler

theorem eventFree_subscribing : (logged subscribing).EventFree := by
  have hpostorder : (logged subscribing).postorder =
      [window, button, handler, subscribing, logged subscribing] := by
    simp [Expr.postorder_eq, Expr.operands, logged, subscribing, button, window, handler]
  unfold Expr.EventFree
  rw [hpostorder]
  decide

theorem postorder_subscription : (logged subscription).postorder =
    [window, .property (some window) "Window" "Button" buttonType, handler, subscription,
      logged subscription] := by
  simp [Expr.postorder_eq, Expr.operands, logged, subscription, window, handler]

/-- The getter becomes a property first, and the event is recognised on it; the
    call that is left has no special name. -/
theorem settles_in_one_run :
    (logged subscribing).EventFree ∧
      (logged subscribing).recogniseAccessors = logged subscription ∧
      logged subscription ∈ (logged subscribing).recogniseAccessors.postorder ∧
      Accessor.replacement? none log [subscription] = none ∧
      (logged subscribing).recogniseAccessors.recogniseAccessors = logged subscription ∧
      (logged subscription).Valid ∧
      (logged subscription).recogniseAccessors = logged subscription ∧
      (Labelled.function Labelled.addHandler Labelled.assigning).EventFree := by
  obtain ⟨hsettles, hplain, hlifted⟩ := recognition_settles
  have hrecognised : (logged subscribing).recogniseAccessors = logged subscription := rfl
  have hmem : logged subscription ∈ (logged subscribing).recogniseAccessors.postorder := by
    rw [hrecognised, postorder_subscription]
    simp
  have hvalid : (logged subscription).Valid := by
    rw [← hrecognised]
    exact Expr.valid_recogniseAccessors _
  obtain ⟨hnone, hagain⟩ := hsettles _ eventFree_subscribing
  refine ⟨eventFree_subscribing, hrecognised, hmem, hnone none log [subscription] hmem, hagain,
    hvalid, hplain _ hvalid ?_, hlifted _ _ _ Labelled.lift_labelled⟩
  intro receiver method arguments hcall
  rw [postorder_subscription] at hcall
  simp only [window, handler, subscription, logged, List.mem_cons, List.not_mem_nil, reduceCtorEq,
    false_or, or_false, Expr.call.injEq] at hcall
  obtain ⟨-, rfl, -⟩ := hcall
  rfl

end WindowButton

end CilLift
