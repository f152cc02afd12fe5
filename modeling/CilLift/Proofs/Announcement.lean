import CilLift.Proofs.NormalForm

/-! # What a transformation is told of

    Before it goes into the operands of a call, a read of a field or an event, a
    transformation announces the node. Apart from that it only puts nodes
    together, and it visits every operand exactly once.

    Main statements: `onlyAnnounces` says, for effects of any kind, that a
    transform that puts all nodes together as they were announces the nodes of a
    valid expression in pre-order and returns the expression itself, and
    `recording_visits_preorder` says so of the list of announced nodes.
-/

namespace CilLift

/-! ## Announcing transforms -/

namespace Transform

variable {m : Type → Type} [Monad m] (announce : Expr → m Unit)

@[simp] theorem announcing_announce (e : Expr) : (announcing announce).announce e = announce e :=
  rfl

@[simp] theorem announcing_field (receiver : Option Expr) (f : FieldRef) :
    (announcing announce).field receiver f = pure (.field receiver f) := rfl

@[simp] theorem announcing_call (receiver : Option Expr) (method : MethodRef)
    (arguments : List Expr) :
    (announcing announce).call receiver method arguments =
      pure (.call receiver method arguments) := rfl

@[simp] theorem announcing_event (subscription : Subscription) (receiver : Expr) (e : EventRef)
    (handler : Expr) :
    (announcing announce).event subscription receiver e handler =
      pure (.eventOrCall subscription receiver e handler) := rfl

end Transform

namespace Expr

/-- Whether a transform is told of the node: it is a call, a read of a field or
    an event. -/
def isAnnounced : Expr → Bool
  | .call .. | .field .. | .event .. => true
  | _ => false

/-- The nodes that a transform is told of, each before those inside it. -/
def announcements (e : Expr) : List Expr :=
  e.preorder.filter isAnnounced

theorem announcements_eq (e : Expr) :
    e.announcements =
      (if e.isAnnounced then [e] else []) ++ e.operands.flatMap announcements := by
  unfold announcements
  rw [preorder_eq, List.filter_cons, List.filter_flatMap]
  split <;> rfl

section Announcing

variable {m : Type → Type} [Monad m] (announce : Expr → m Unit)

/-- All that the transformation of the expression does is to announce its nodes
    one after the other, and it returns the expression. -/
def OnlyAnnounces (e : Expr) : Prop :=
  e.transformM (.announcing announce) = do
    e.announcements.forM announce
    return e

variable [LawfulMonad m] {announce}

theorem transformOptionM_announcing {receiver : Option Expr}
    (h : ∀ e ∈ receiver.toList, e.OnlyAnnounces announce) :
    transformOptionM (.announcing announce) receiver = do
      (receiver.toList.flatMap announcements).forM announce
      return receiver := by
  cases receiver with
  | none => simp [transformOptionM]
  | some e =>
    simp only [Option.toList_some, List.forall_mem_singleton, OnlyAnnounces] at h
    simp [transformOptionM, h]

theorem transformListM_announcing {es : List Expr} (h : ∀ e ∈ es, e.OnlyAnnounces announce) :
    transformListM (.announcing announce) es = do
      (es.flatMap announcements).forM announce
      return es := by
  induction es with
  | nil => simp [transformListM]
  | cons e es ih =>
    obtain ⟨hfirst, hrest⟩ := List.forall_mem_cons.mp h
    unfold OnlyAnnounces at hfirst
    simp [transformListM, hfirst, ih hrest]

/-- A transform that puts all nodes together as they were does nothing to a
    valid expression but announce its nodes, in whatever way. -/
theorem onlyAnnounces {e : Expr} (h : e.Valid) : e.OnlyAnnounces announce := by
  induction e using operand_induction with
  | node e ih =>
    obtain ⟨hfits, hoperands⟩ := valid_iff.mp h
    have hdone : ∀ operand ∈ e.operands, operand.OnlyAnnounces announce :=
      fun operand hmem => ih operand hmem (hoperands operand hmem)
    unfold OnlyAnnounces
    rw [announcements_eq]
    cases e with
    | constant | parameter =>
      simp [transformM, Transform.announcing, Transform.identity, operands, isAnnounced]
    | field receiver | property receiver =>
      have hreceiver : ∀ e ∈ receiver.toList, e.OnlyAnnounces announce := hdone
      simp [transformM, transformOptionM_announcing hreceiver, operands, isAnnounced]
    | call receiver method arguments =>
      obtain ⟨hreceiver, harguments⟩ := List.forall_mem_append.mp hdone
      simp [transformM, transformOptionM_announcing hreceiver,
        transformListM_announcing harguments, operands, isAnnounced]
    | new ctor arguments =>
      have harguments : ∀ e ∈ arguments, e.OnlyAnnounces announce := hdone
      simp [transformM, transformListM_announcing harguments, operands, isAnnounced]
    | indexer receiver declaringType name arguments =>
      obtain ⟨hreceiver, harguments⟩ := List.forall_mem_cons.mp hdone
      unfold OnlyAnnounces at hreceiver
      simp [transformM, hreceiver, transformListM_announcing harguments, operands, isAnnounced]
    | event =>
      simp only [operands, List.forall_mem_cons, OnlyAnnounces] at hdone
      simp [transformM, hdone, eventOrCall_of_fits hfits, operands, isAnnounced]
    | binary | unary | newArray | index | lambda | assign =>
      simp only [operands, List.forall_mem_cons, OnlyAnnounces] at hdone
      simp [transformM, hdone, operands, isAnnounced]

end Announcing

end Expr

/-! ## Recording what is announced -/

theorem run_forM_push (nodes : List Expr) (seen : Array Expr) :
    ((nodes.forM fun node => modify (·.push node) : StateM (Array Expr) Unit).run seen).run =
      ((), seen ++ nodes.toArray) := by
  induction nodes generalizing seen with
  | nil => simp
  | cons node nodes ih =>
    simpa using ih (seen.push node)

/-- Recording the announced nodes of a valid expression, behind whatever was
    recorded before, yields its calls, reads of fields and events in pre-order,
    and returns the expression itself. -/
theorem recording_visits_preorder {e : Expr} (h : e.Valid) :
    (∀ seen : Array Expr, ((e.transformM .recording).run seen).run =
      (e, seen ++ (e.preorder.filter Expr.isAnnounced).toArray)) ∧
      e.announced = e.preorder.filter Expr.isAnnounced := by
  have hrun : ∀ seen : Array Expr, ((e.transformM .recording).run seen).run =
      (e, seen ++ e.announcements.toArray) := by
    intro seen
    have honly : e.transformM .recording = _ := Expr.onlyAnnounces h
    have hpush := run_forM_push e.announcements seen
    rw [honly]
    exact congrArg (fun result : Unit × Array Expr => (e, result.2)) hpush
  refine ⟨hrun, ?_⟩
  rw [Expr.announced, hrun, Array.empty_append]
  rfl

/-! ### A handler that is scheduled -/

namespace Scheduled

open Click (handler handlerType)
open KnownWindow (window form button subscription)

def schedule : MethodRef where
  declaringType := "Form"
  name := "Schedule"
  parameters := [⟨"handler", handlerType⟩, ⟨"delay", .prim .int32⟩]
  returnType := .prim .void
  attributes := ⟨0⟩

def delay : Expr := .field none ⟨"Clock", "delay", .prim .int32, ⟨0x0010⟩⟩

/-- The handler subscribes to a button of the form that it is scheduled on. -/
def scheduling : Expr :=
  .call (some form) schedule [.lambda [] subscription handlerType, delay]

theorem visits_scheduling :
    scheduling.Valid ∧
      scheduling.announced = [scheduling, form, subscription, button, form, delay] ∧
      ((scheduling.transformM .recording).run #[delay]).run =
        (scheduling, #[delay, scheduling, form, subscription, button, form, delay]) := by
  have hwindow : window.Valid := Expr.valid_of_operands rfl (List.forall_mem_nil _)
  have hdelay : delay.Valid := Expr.valid_of_operands rfl (List.forall_mem_nil _)
  have hform : form.Valid :=
    Expr.valid_of_operands rfl (List.forall_mem_singleton.mpr hwindow)
  have hhandler : (Expr.lambda [] subscription handlerType).Valid :=
    Expr.valid_of_operands rfl (List.forall_mem_singleton.mpr KnownWindow.valid_subscription)
  have hvalid : scheduling.Valid := by
    apply Expr.valid_of_operands rfl
    exact List.forall_mem_cons.mpr ⟨hform, List.forall_mem_cons.mpr ⟨hhandler,
      List.forall_mem_singleton.mpr hdelay⟩⟩
  have hpreorder : scheduling.preorder =
      [scheduling, form, window, .lambda [] subscription handlerType, subscription, button, form,
        window, handler, delay] := by
    simp [Expr.preorder_eq, Expr.operands, scheduling, subscription, button, form, window, handler,
      delay]
  have hnodes : scheduling.preorder.filter Expr.isAnnounced =
      [scheduling, form, subscription, button, form, delay] := by
    rw [hpreorder]
    rfl
  obtain ⟨hrun, hannounced⟩ := recording_visits_preorder hvalid
  rw [hnodes] at hannounced
  refine ⟨hvalid, hannounced, ?_⟩
  rw [hrun, hnodes]
  rfl

end Scheduled

end CilLift
