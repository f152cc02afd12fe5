import CilLift.Proofs.FieldReads
import CilLift.Proofs.WellFormed

/-! # Validity of what is produced

    Types change on the way of an expression through the passes: a setter turns
    into an assignment of the property's type, an operator into a `Boolean`, a
    subscription into `Void`. Whether an event node fits together depends on
    types, so every pass has to see to it that the events it leaves still do.

    A transform may also be one with a state of its own that puts other
    expressions in place of constants and parameters. Events above them that no
    longer fit become calls.

    Main statement: `events_always_fit` says that no pass and no such
    transform leaves an event node that does not fit together, and that
    whatever is lifted and goes through any of the passes is valid, assigns only
    to properties and indexers, and has no event left if events were to be
    turned into calls.
-/

namespace CilLift

/-! ## Transforms of leaves -/

/-- The transform decides only what takes the place of a constant or of a
    parameter, which is always something valid, and puts everything else
    together as it was. -/
structure Transform.OverridesLeaves {σ : Type} (w : Transform (StateM σ)) : Prop where
  constant (value : Value) (type : Ty) (s : σ) : ((w.constant value type).run s).1.Valid
  parameter (p : Param) (s : σ) : ((w.parameter p).run s).1.Valid
  field : w.field = Transform.identity.field
  call : w.call = Transform.identity.call
  event : w.event = Transform.identity.event

namespace Expr

section Leaves

variable {σ : Type} {w : Transform (StateM σ)}

theorem valid_transformOptionM {receiver : Option Expr}
    (h : ∀ e ∈ receiver.toList, ∀ s, ((e.transformM w).run s).1.Valid) (s : σ) :
    ∀ e ∈ ((transformOptionM w receiver).run s).1.toList, e.Valid := by
  cases receiver with
  | none => exact List.forall_mem_nil _
  | some e =>
    have he := h e (by simp) s
    exact List.forall_mem_singleton.mpr he

/-- Arguments are transformed one after the other, each in the state that the
    one before it leaves. -/
theorem valid_transformListM {es : List Expr}
    (h : ∀ e ∈ es, ∀ s, ((e.transformM w).run s).1.Valid) (s : σ) :
    ∀ e ∈ ((transformListM w es).run s).1, e.Valid := by
  induction es generalizing s with
  | nil => exact List.forall_mem_nil _
  | cons e es ih =>
    obtain ⟨he, hes⟩ := List.forall_mem_cons.mp h
    have hfirst := he s
    have hrest := ih hes ((e.transformM w).run s).2
    exact List.forall_mem_cons.mpr ⟨hfirst, hrest⟩

/-- A transform of leaves makes a valid expression, whatever state it starts
    in. -/
theorem valid_transformM (hw : w.OverridesLeaves) (e : Expr) (s : σ) :
    ((e.transformM w).run s).1.Valid := by
  induction e using operand_induction generalizing s with
  | node e ih =>
    -- The operands are valid in whatever state they are reached; a node that
    -- is put together as it was is no event, or it is checked.
    cases e with
    | constant value type => exact hw.constant value type s
    | parameter p => exact hw.parameter p s
    | field receiver f =>
      have hreceiver := valid_transformOptionM ih
      show ((w.field _ f).run _).1.Valid
      rw [hw.field]
      exact valid_of_operands rfl (hreceiver _)
    | property receiver declaringType name type =>
      exact valid_of_operands rfl (valid_transformOptionM ih s)
    | new ctor arguments => exact valid_of_operands rfl (valid_transformListM ih s)
    | call receiver method arguments =>
      obtain ⟨hreceiver, harguments⟩ := List.forall_mem_append.mp ih
      have hoperands := fun s s' => List.forall_mem_append.mpr
        ⟨valid_transformOptionM hreceiver s, valid_transformListM harguments s'⟩
      show ((w.call _ method _).run _).1.Valid
      rw [hw.call]
      exact valid_of_operands rfl (hoperands _ _)
    | indexer receiver declaringType name arguments type =>
      obtain ⟨hreceiver, harguments⟩ := List.forall_mem_cons.mp ih
      have hoperands := List.forall_mem_cons.mpr
        ⟨hreceiver s, valid_transformListM harguments ((receiver.transformM w).run s).2⟩
      exact valid_of_operands rfl hoperands
    | event subscription receiver e handler =>
      have hoperands := fun s s' => List.forall_mem_cons.mpr
        ⟨ih receiver (by simp [operands]) s,
          List.forall_mem_singleton.mpr (ih handler (by simp [operands]) s')⟩
      show ((w.event subscription _ e _).run _).1.Valid
      rw [hw.event]
      exact forall_mem_postorder_eventOrCall (fun _ hfits _ => hfits) (hoperands _ _)
    | unary op operand type =>
      have hoperand := ih operand (by simp [operands]) s
      exact valid_of_operands rfl (List.forall_mem_singleton.mpr hoperand)
    | newArray element length =>
      have hlength := ih length (by simp [operands]) s
      exact valid_of_operands rfl (List.forall_mem_singleton.mpr hlength)
    | lambda parameters body type =>
      have hbody := ih body (by simp [operands]) s
      exact valid_of_operands rfl (List.forall_mem_singleton.mpr hbody)
    | binary op first second type | index first second type | assign first second =>
      have hfirst := ih first (by simp [operands]) s
      have hsecond := ih second (by simp [operands]) ((first.transformM w).run s).2
      exact valid_of_operands rfl
        (List.forall_mem_cons.mpr ⟨hfirst, List.forall_mem_singleton.mpr hsecond⟩)

end Leaves

end Expr

/-! ## Passes -/

theorem FieldRead.keepsRules : FieldRead.transform.KeepsRules := by
  intro rule hrule e hself hoperands
  cases e with
  | field receiver f =>
    show ∀ node ∈ ((value? receiver f).getD (.field receiver f)).postorder, rule node
    rw [Expr.forall_mem_postorder_iff]
    cases hvalue : value? receiver f with
    | none => exact ⟨hself rfl, hoperands⟩
    | some constant =>
      obtain ⟨value, rfl⟩ := Expr.value?_cases hvalue
      exact ⟨hrule _ trivial trivial, List.forall_mem_nil _⟩
  | event subscription receiver e handler =>
    exact Expr.forall_mem_postorder_eventOrCall hrule hoperands
  | _ => exact (Expr.forall_mem_postorder_iff _).mpr ⟨hself rfl, hoperands⟩

/-- No event is left when events are turned into calls. -/
theorem Expr.eventFree_reduceEvents (e : Expr) : e.reduceEvents.EventFree := by
  induction e using operand_induction with
  | node e ih =>
    rw [eventFree_iff]
    cases hevent : e.isEvent with
    | true =>
      cases e with
      | event subscription receiver e handler =>
        rw [reduceEvents_event]
        have hreceiver := ih receiver (by simp [operands])
        have hhandler := ih handler (by simp [operands])
        exact ⟨rfl, List.forall_mem_cons.mpr ⟨hreceiver, List.forall_mem_singleton.mpr hhandler⟩⟩
      | _ => cases hevent
    | false =>
      rw [reduceEvents_eq_mapOperands hevent, isEvent_mapOperands, operands_mapOperands,
        List.forall_mem_map]
      exact ⟨hevent, ih⟩

namespace Passes

/-- What every pass keeps is kept by any choice of passes. -/
theorem run_keeps {p : Expr → Prop} (haccessors : ∀ e, p e → p e.recogniseAccessors)
    (hfields : ∀ e, p e → p e.foldFieldReads) (hevents : ∀ e, p e → p e.reduceEvents)
    (passes : Passes) {e : Expr} (h : p e) : p (passes.run e) := by
  have hoptional : ∀ (chosen : Bool) (pass : Expr → Expr), (∀ e, p e → p (pass e)) →
      ∀ e, p e → p (if chosen then pass e else e) := by
    intro chosen pass hpass e he
    cases chosen with
    | true => exact hpass e he
    | false => exact he
  have hfirst := hoptional passes.accessors _ haccessors e h
  have hsecond := hoptional passes.fieldReads _ hfields _ hfirst
  exact hoptional passes.eventCalls _ hevents _ hsecond

theorem valid_run (passes : Passes) {e : Expr} (h : e.Valid) : (passes.run e).Valid :=
  passes.run_keeps (fun e _ => Accessor.keepsRules.valid_transform e)
    (fun e _ => FieldRead.keepsRules.valid_transform e)
    (fun e _ => EventCall.keepsRules.valid_transform e) h

theorem assignsToPlaces_run (passes : Passes) {e : Expr} (h : e.AssignsToPlaces) :
    (passes.run e).AssignsToPlaces :=
  passes.run_keeps (p := Expr.AssignsToPlaces)
    (fun _ => Accessor.keepsRules.assignsToPlaces_transform)
    (fun _ => FieldRead.keepsRules.assignsToPlaces_transform)
    (fun _ => EventCall.keepsRules.assignsToPlaces_transform) h

/-- Turning events into calls comes last, so no event is left then. -/
theorem eventFree_run {passes : Passes} (h : passes.eventCalls = true) (e : Expr) :
    (passes.run e).EventFree := by
  unfold run
  rw [if_pos h]
  exact Expr.eventFree_reduceEvents _

end Passes

/-! ## Lifting -/

section Lifting

variable {r : Resolver} {d : Delegate} {tree : Expr}

/-- What holds of functions, and of all nodes that keep the rules for a lifted
    body, holds of all nodes of whatever is lifted. -/
theorem forall_mem_postorder_of_lift {p : Expr → Prop}
    (hlambda : ∀ ps body type, p (.lambda ps body type))
    (hbuilt : ∀ node, node.WellBuilt d → p node)
    (h : d.lift r = .ok tree) : ∀ node ∈ tree.postorder, p node := by
  obtain ⟨ops, m, body, -, -, -, hrun, hitems, rfl⟩ := lift_ok_iff.mp h
  have hfinal := (Machine.WellFormed.initial d).run hrun
  have hbody : body.WellFormed d := hfinal.stack body (by simp [hitems])
  have hnodes : ∀ node ∈ body.postorder, p node := fun node hmem => hbuilt node (hbody node hmem)
  exact (Expr.forall_mem_postorder_iff _).mpr
    ⟨hlambda _ _ _, List.forall_mem_singleton.mpr hnodes⟩

/-- No event is lifted: there are events only where they are recognised. -/
theorem eventFree_of_lift (h : d.lift r = .ok tree) : tree.EventFree := by
  refine forall_mem_postorder_of_lift (fun _ _ _ => rfl) ?_ h
  intro node hbuilt
  cases node with
  | event => exact hbuilt.elim
  | _ => rfl

theorem assignsToPlaces_of_lift (h : d.lift r = .ok tree) : tree.AssignsToPlaces := by
  refine forall_mem_postorder_of_lift (fun _ _ _ => trivial) ?_ h
  intro node hbuilt
  cases node with
  | assign => exact hbuilt.elim
  | _ => trivial

theorem liftWith_ok_iff {passes : Passes} :
    d.liftWith r passes = .ok tree ↔ ∃ raw, d.lift r = .ok raw ∧ tree = passes.run raw := by
  unfold Delegate.liftWith
  cases d.lift r with
  | error fault => simp [Except.map]
  | ok raw => simp [Except.map, eq_comm]

end Lifting

/-- Every event that is left by a pass, or by a transform that puts valid
    expressions in place of leaves, fits together. So all that is lifted is
    valid after any passes; it assigns only to properties and indexers, and has
    no event if events were turned into calls. -/
theorem events_always_fit :
    (∀ e : Expr, e.recogniseAccessors.Valid ∧ e.foldFieldReads.Valid ∧ e.reduceEvents.Valid ∧
      ∀ (σ : Type) (w : Transform (StateM σ)), w.OverridesLeaves →
        ∀ s, ((e.transformM w).run s).1.Valid) ∧
    ∀ (r : Resolver) (passes : Passes) (d : Delegate) (tree : Expr),
      d.liftWith r passes = .ok tree →
        tree.Valid ∧
        (∀ target value, Expr.assign target value ∈ tree.postorder → target.isPlace = true) ∧
        (passes.eventCalls = true → tree.EventFree) := by
  constructor
  · intro e
    refine ⟨Accessor.keepsRules.valid_transform e, FieldRead.keepsRules.valid_transform e,
      EventCall.keepsRules.valid_transform e, ?_⟩
    intro σ w hw s
    exact Expr.valid_transformM hw e s
  · intro r passes d tree h
    obtain ⟨raw, hlift, rfl⟩ := liftWith_ok_iff.mp h
    have hvalid := passes.valid_run (eventFree_of_lift hlift).valid
    have hplaces := passes.assignsToPlaces_run (assignsToPlaces_of_lift hlift)
    refine ⟨hvalid, ?_, fun hevents => Passes.eventFree_run hevents raw⟩
    intro target value hmem
    exact hplaces _ hmem

/-! ### A labelled button -/

namespace Labelled

open Click (buttonType event handlerType both)

def setText : MethodRef where
  declaringType := "Button"
  name := "set_Text"
  parameters := [⟨"value", .prim .string⟩]
  returnType := .prim .void
  attributes := .eventMethod

def resolver : Resolver :=
  (SymbolTable.ofList [(⟨0x0a000001⟩, .method event.adder), (⟨0x0a000002⟩, .method setText),
    (⟨0x0a000003⟩, .ctor both), (⟨0x70000001⟩, .string "OK")]).resolver

def button : Param := ⟨"button", buttonType⟩

def handler : Param := ⟨"handler", handlerType⟩

def code : List Instruction :=
  [⟨.ldargS, (0 : UInt8)⟩, ⟨.ldargS, (1 : UInt8)⟩, ⟨.callvirt, (⟨0x0a000001⟩ : Token)⟩,
    ⟨.ldargS, (0 : UInt8)⟩, ⟨.ldstr, (⟨0x70000001⟩ : Token)⟩,
    ⟨.callvirt, (⟨0x0a000002⟩ : Token)⟩, ⟨.newobj, (⟨0x0a000003⟩ : Token)⟩, .ret]

def delegate : Delegate where
  type := .prim .object
  method :=
    { declaringType := .prim .object
      parameters := [button, handler]
      attributes := ⟨0x0010⟩
      code := Instruction.encodeAll code
      maxStack := 3
      locals := []
      initLocals := false }
  target := none

/-- The function that has these expressions for the subscription and for the
    assignment. -/
def function (subscription assignment : Expr) : Expr :=
  .lambda [button, handler] (.new both [subscription, assignment]) (.prim .object)

def addHandler : Expr :=
  .call (some (.parameter button)) event.adder [.parameter handler]

def text : Expr :=
  .constant (.string "OK") (.prim .string)

def assigning : Expr :=
  .call (some (.parameter button)) setText [text]

def assignment : Expr :=
  .assign (.property (some (.parameter button)) "Button" "Text" (.prim .string)) text

def subscribed : Expr :=
  function (.event .add (.parameter button) event (.parameter handler)) assignment

theorem lift_labelled : delegate.lift resolver = .ok (function addHandler assigning) := by
  have hrun : Machine.Run
      [.ldarg 0, .ldarg 1, .callvirt event.adder, .ldarg 0, .ldstr "OK", .callvirt setText,
        .newobj both] (.initial delegate) _ :=
    .load rfl (by decide) <|
    .load rfl (by decide) <|
    .build (.callInstance event.adder _ [_] (.inr rfl) rfl rfl) rfl (by decide) <|
    .load rfl (by decide) <|
    .build (.ldstr "OK") rfl (by decide) <|
    .build (.callInstance setText _ [_] (.inr rfl) rfl rfl) rfl (by decide) <|
    .build (.newobj both [_, _] rfl) rfl (by decide) <|
    .nil _
  exact lift_of_run rfl rfl rfl hrun rfl

/-- Puts numbers in place of parameters, one after the other. -/
def numbering : Transform (StateM Nat) :=
  { Transform.identity with
    parameter := fun _ => do
      let n ← get
      set (n + 1)
      return .constant (.int32 (.ofNat n)) (.prim .int32) }

theorem overridesLeaves_numbering : numbering.OverridesLeaves where
  constant _ _ _ := Expr.valid_of_operands rfl (List.forall_mem_nil _)
  parameter _ _ := Expr.valid_of_operands rfl (List.forall_mem_nil _)
  field := rfl
  call := rfl
  event := rfl

theorem events_fit_delegate :
    delegate.liftWith resolver {} = .ok subscribed ∧ subscribed.Valid ∧
      assignment ∈ subscribed.postorder ∧
      delegate.liftWith resolver { eventCalls := true } = .ok (function addHandler assignment) ∧
      (function addHandler assignment).EventFree ∧
      ((subscribed.transformM numbering).run 1).1.Valid := by
  have hsubscribed : delegate.liftWith resolver {} = .ok subscribed := by
    rw [Delegate.liftWith, lift_labelled]
    rfl
  have hcalled : delegate.liftWith resolver { eventCalls := true } =
      .ok (function addHandler assignment) := by
    rw [Delegate.liftWith, lift_labelled]
    rfl
  have hassignment : assignment ∈ subscribed.postorder := by
    have hbody : assignment ∈ assignment.postorder := by simp [Expr.postorder_eq assignment]
    rw [subscribed, function, Expr.postorder_eq, Expr.operands, List.flatMap_singleton,
      Expr.postorder_eq, Expr.operands]
    simp [hbody]
  obtain ⟨hvalid, -, -⟩ := events_always_fit.2 resolver {} delegate subscribed hsubscribed
  obtain ⟨-, -, hfree⟩ := events_always_fit.2 resolver _ delegate _ hcalled
  obtain ⟨-, -, -, hleaves⟩ := events_always_fit.1 subscribed
  exact ⟨hsubscribed, hvalid, hassignment, hcalled, hfree rfl,
    hleaves Nat numbering overridesLeaves_numbering 1⟩

end Labelled

end CilLift
