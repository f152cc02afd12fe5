import CilLift.Proofs.EventCalls

/-! # Reads of known fields among the other passes

    Carrying out the reads of known fields changes no type, so every event of a
    valid expression stays an event, and accessors are recognised before and
    after it in the same places. The other passes in turn neither make nor
    remove a constant.

    Main statements: `type_foldFieldReads` says that types are kept,
    `foldFieldReads_transform` names what a transformation must do at single
    nodes to be exchanged with the reads of fields on whole expressions, and
    `foldFieldReads_comm` applies this to the other two passes.
-/

namespace CilLift

namespace Expr

/-! ## What reading fields does to a node -/

/-- Whether the node reads a field. -/
def isField : Expr → Bool
  | .field .. => true
  | _ => false

@[simp] theorem isField_mapOperands (f : Expr → Expr) (e : Expr) :
    (e.mapOperands f).isField = e.isField := by
  cases e <;> rfl

theorem foldFieldReads_eq_rebuild (e : Expr) :
    e.foldFieldReads = FieldRead.transform.rebuild (e.mapOperands foldFieldReads) :=
  transform_eq_rebuild FieldRead.transform e

theorem foldFieldReads_field (receiver : Option Expr) (f : FieldRef) :
    (field receiver f).foldFieldReads =
      (FieldRead.value? (receiver.map foldFieldReads) f).getD
        (.field (receiver.map foldFieldReads) f) :=
  transform_field FieldRead.transform receiver f

/-- A node that reads no field and still fits together is rebuilt as it was. -/
theorem foldFieldReads_eq_mapOperands {e : Expr} (hfield : e.isField = false)
    (hfits : (e.mapOperands foldFieldReads).Fits) :
    e.foldFieldReads = e.mapOperands foldFieldReads := by
  rw [foldFieldReads_eq_rebuild]
  cases e with
  | field => cases hfield
  | event subscription receiver event handler => exact eventOrCall_of_fits hfits
  | _ => rfl

/-- A known field is read as a constant of the field's type. -/
theorem value?_cases {receiver : Option Expr} {f : FieldRef} {e : Expr}
    (h : FieldRead.value? receiver f = some e) : ∃ value, e = .constant value f.type := by
  unfold FieldRead.value? at h
  split at h
  · obtain ⟨value, -, rfl⟩ := Option.map_eq_some_iff.mp h
    exact ⟨value, rfl⟩
  · cases h

/-- Reading known fields keeps the type of every valid expression. -/
theorem type_foldFieldReads {e : Expr} (h : e.Valid) : e.foldFieldReads.type = e.type := by
  induction e using operand_induction with
  | node e ih =>
    obtain ⟨hfits, hoperands⟩ := valid_iff.mp h
    have htypes : ∀ operand ∈ e.operands, operand.foldFieldReads.type = operand.type :=
      fun operand hmem => ih operand hmem (hoperands operand hmem)
    cases hfield : e.isField with
    | true =>
      cases e with
      | field receiver f =>
        rw [foldFieldReads_field]
        cases hvalue : FieldRead.value? (receiver.map foldFieldReads) f with
        | none => rfl
        | some constant =>
          obtain ⟨value, rfl⟩ := value?_cases hvalue
          rfl
      | _ => cases hfield
    | false =>
      have hfits' := (fits_mapOperands_iff htypes).mpr hfits
      rw [foldFieldReads_eq_mapOperands hfield hfits', type_mapOperands htypes]

/-- Where no field is read, reading known fields in a valid expression is
    reading them in the operands. -/
theorem Valid.foldFieldReads_eq {e : Expr} (h : e.Valid) (hfield : e.isField = false) :
    e.foldFieldReads = e.mapOperands foldFieldReads := by
  obtain ⟨hfits, hoperands⟩ := valid_iff.mp h
  apply foldFieldReads_eq_mapOperands hfield
  rw [fits_mapOperands_iff fun operand hmem => type_foldFieldReads (hoperands operand hmem)]
  exact hfits

section Event

variable {subscription : Subscription} {receiver handler : Expr} {e : EventRef}

/-- Reading known fields in the operands changes nothing about whether they
    fit together. -/
theorem fits_event_foldFieldReads_iff (hreceiver : receiver.Valid) (hhandler : handler.Valid) :
    (event subscription receiver.foldFieldReads e handler.foldFieldReads).Fits ↔
      (event subscription receiver e handler).Fits := by
  simp only [Fits, type_foldFieldReads hreceiver, type_foldFieldReads hhandler]

theorem checkedEvent_foldFieldReads (hreceiver : receiver.Valid) (hhandler : handler.Valid) :
    (checkedEvent subscription receiver.foldFieldReads e handler.foldFieldReads).toOption =
      (checkedEvent subscription receiver e handler).toOption.map foldFieldReads := by
  have hsame : (event subscription receiver.foldFieldReads e handler.foldFieldReads).Fits ↔
      (event subscription receiver e handler).Fits :=
    fits_event_foldFieldReads_iff hreceiver hhandler
  by_cases hfits : (event subscription receiver e handler).Fits
  · have hfits' := hsame.mpr hfits
    have hread : (event subscription receiver e handler).foldFieldReads =
        .event subscription receiver.foldFieldReads e handler.foldFieldReads :=
      eventOrCall_of_fits hfits'
    rw [toOption_checkedEvent_of_fits hfits, toOption_checkedEvent_of_fits hfits', Option.map_some,
      hread]
  · rw [toOption_checkedEvent_of_not_fits hfits,
      toOption_checkedEvent_of_not_fits (mt hsame.mp hfits), Option.map_none]

theorem eventOrCall_foldFieldReads (hreceiver : receiver.Valid) (hhandler : handler.Valid) :
    eventOrCall subscription receiver.foldFieldReads e handler.foldFieldReads =
      (eventOrCall subscription receiver e handler).foldFieldReads := by
  rw [eventOrCall_eq_getD, eventOrCall_eq_getD, checkedEvent_foldFieldReads hreceiver hhandler]
  cases (checkedEvent subscription receiver e handler).toOption <;> rfl

end Event

end Expr

/-! ## Exchanging reads with a transformation -/

open CilLift.Expr (foldFieldReads)

/-- What a transform does at single nodes when it does not interfere with reads
    of fields: it leaves them and all constants alone, makes no constants, and
    puts nodes together alike before and after the fields in their operands are
    read. -/
structure Transform.SparesFieldReads (w : Transform Id) : Prop where
  constant (value : Value) (type : Ty) :
    (Expr.constant value type).transform w = .constant value type
  field (receiver : Option Expr) (f : FieldRef) :
    w.rebuild (.field receiver f) = .field receiver f
  isConstant_eq_false {e : Expr} (h : e.isConstant = false) : (w.rebuild e).isConstant = false
  rebuild {e : Expr} (hfield : e.isField = false)
    (hoperands : ∀ operand ∈ e.operands, operand.Valid) :
    (w.rebuild e).foldFieldReads = w.rebuild (e.mapOperands foldFieldReads)
  valid (e : Expr) (hoperands : ∀ operand ∈ e.operands, operand.Valid) : (w.rebuild e).Valid

namespace Transform.SparesFieldReads

variable {w : Transform Id}

/-- The transformation changes nothing about which receivers are known. -/
theorem value?_map (hw : w.SparesFieldReads) (receiver : Option Expr) (f : FieldRef) :
    FieldRead.value? (receiver.map (Expr.transform w)) f = FieldRead.value? receiver f := by
  cases receiver with
  | none => rfl
  | some e =>
    have hunknown : ∀ e : Expr, e.isConstant = false → FieldRead.value? (some e) f = none := by
      intro e he
      cases e with
      | constant => cases he
      | _ => rfl
    cases hconstant : e.isConstant with
    | true =>
      cases e with
      | constant value type => rw [Option.map_some, hw.constant]
      | _ => cases hconstant
    | false =>
      have htransformed : (e.transform w).isConstant = false := by
        rw [Expr.transform_eq_rebuild]
        apply hw.isConstant_eq_false
        cases e with
        | constant => cases hconstant
        | _ => rfl
      rw [Option.map_some, hunknown e hconstant, hunknown _ htransformed]

/-- A transformation that spares the reads of fields can be exchanged with
    carrying them out. -/
theorem foldFieldReads_transform (hw : w.SparesFieldReads) {e : Expr} (h : e.Valid) :
    (e.transform w).foldFieldReads = e.foldFieldReads.transform w := by
  induction e using Expr.operand_induction with
  | node e ih =>
    have hoperands := (Expr.valid_iff.mp h).2
    have hcomm : ∀ operand ∈ e.operands,
        (operand.transform w).foldFieldReads = operand.foldFieldReads.transform w :=
      fun operand hmem => ih operand hmem (hoperands operand hmem)
    have hswap : (e.mapOperands (Expr.transform w)).mapOperands foldFieldReads =
        (e.mapOperands foldFieldReads).mapOperands (Expr.transform w) := by
      rw [Expr.mapOperands_mapOperands, Expr.mapOperands_mapOperands]
      exact Expr.mapOperands_congr hcomm
    cases hfield : e.isField with
    | true =>
      cases e with
      | field receiver f =>
        have hkept : ∀ receiver, (Expr.field receiver f).transform w =
            .field (receiver.map (Expr.transform w)) f := by
          intro receiver
          rw [Expr.transform_eq_rebuild, Expr.mapOperands, hw.field]
        have hreceiver : (receiver.map (Expr.transform w)).map foldFieldReads =
            (receiver.map foldFieldReads).map (Expr.transform w) := (Expr.field.inj hswap).1
        rw [hkept, Expr.foldFieldReads_field, Expr.foldFieldReads_field, hreceiver, hw.value?_map]
        cases hvalue : FieldRead.value? (receiver.map foldFieldReads) f with
        | none => exact (hkept _).symm
        | some constant =>
          obtain ⟨value, rfl⟩ := Expr.value?_cases hvalue
          exact (hw.constant value f.type).symm
      | _ => cases hfield
    | false =>
      have hvalid : ∀ operand ∈ (e.mapOperands (Expr.transform w)).operands, operand.Valid := by
        rw [Expr.operands_mapOperands, List.forall_mem_map]
        exact fun operand _ => Expr.valid_transform hw.valid operand
      calc (e.transform w).foldFieldReads
          = (w.rebuild (e.mapOperands (Expr.transform w))).foldFieldReads := by
            rw [Expr.transform_eq_rebuild]
        _ = w.rebuild ((e.mapOperands foldFieldReads).mapOperands (Expr.transform w)) := by
            rw [hw.rebuild (by simp [hfield]) hvalid, hswap]
        _ = e.foldFieldReads.transform w := by
            rw [h.foldFieldReads_eq hfield, ← Expr.transform_eq_rebuild]

end Transform.SparesFieldReads

/-! ## Accessors -/

section Accessors

open Accessor (place? recognise? replacement?)

variable {receiver : Option Expr} {arguments : List Expr}

theorem place?_map_foldFieldReads {declaringType name : String} {type : Ty}
    (hreceiver : ∀ r ∈ receiver, r.Valid) :
    place? (receiver.map foldFieldReads) declaringType name (arguments.map foldFieldReads) type =
      (place? receiver declaringType name arguments type).map foldFieldReads := by
  cases arguments with
  | nil => exact congrArg some (Expr.transform_property _ receiver declaringType name type).symm
  | cons first rest =>
    cases receiver with
    | none => rfl
    | some r =>
      have hmember : Accessor.isDefaultMember r.foldFieldReads name =
          Accessor.isDefaultMember r name := by
        unfold Accessor.isDefaultMember
        rw [Expr.type_foldFieldReads (hreceiver r rfl)]
      simp only [Option.map_some, List.map_cons, place?, hmember]
      split
      · exact congrArg some
          (Expr.transform_indexer _ r declaringType name (first :: rest) type).symm
      · rfl

theorem recognise?_map_foldFieldReads (role : Accessor.Role) (method : MethodRef)
    (hreceiver : ∀ r ∈ receiver, r.Valid) (harguments : ∀ e ∈ arguments, e.Valid) :
    recognise? role (receiver.map foldFieldReads) method (arguments.map foldFieldReads) =
      (recognise? role receiver method arguments).map foldFieldReads := by
  cases role with
  | comparison op =>
    rcases arguments with _ | ⟨left, _ | ⟨right, _ | ⟨third, rest⟩⟩⟩
    · rfl
    · rfl
    · have htype := Expr.type_foldFieldReads (harguments left (by simp))
      have hnode : (Expr.apply op left right).foldFieldReads =
          .apply op left.foldFieldReads right.foldFieldReads := by
        unfold Expr.apply
        rw [htype]
        rfl
      exact congrArg some hnode.symm
    · rfl
  | getter name => exact place?_map_foldFieldReads hreceiver
  | setter name =>
    simp only [recognise?, List.getLast?_map]
    cases hlast : arguments.getLast? with
    | none => rfl
    | some value =>
      have htype := Expr.type_foldFieldReads (harguments value (List.mem_of_getLast? hlast))
      simp only [Option.map_some, htype, ← List.map_dropLast]
      rw [place?_map_foldFieldReads hreceiver, Option.map_map, Option.map_map]
      rfl
  | subscription kind name =>
    rcases receiver with _ | r
    · rfl
    rcases arguments with _ | ⟨handler, _ | ⟨second, rest⟩⟩
    · rfl
    · have hr := hreceiver r rfl
      have hhandler := harguments handler (by simp)
      simp only [recognise?, Option.map_some, List.map_cons, List.map_nil,
        Expr.type_foldFieldReads hr]
      cases r.type.info?.bind (·.event? name) with
      | none => rfl
      | some event => exact Expr.checkedEvent_foldFieldReads hr hhandler
    · rfl

/-- Accessors are recognised before the fields in their operands are read
    exactly where they are afterwards. -/
theorem replacement?_map_foldFieldReads (method : MethodRef)
    (hreceiver : ∀ r ∈ receiver, r.Valid) (harguments : ∀ e ∈ arguments, e.Valid) :
    replacement? (receiver.map foldFieldReads) method (arguments.map foldFieldReads) =
      (replacement? receiver method arguments).map foldFieldReads := by
  unfold replacement?
  split
  · cases Accessor.role? method.name with
    | none => rfl
    | some role => exact recognise?_map_foldFieldReads role method hreceiver harguments
  · rfl

theorem sparesFieldReads_accessors : Accessor.transform.SparesFieldReads where
  constant _ _ := rfl
  field _ _ := rfl
  isConstant_eq_false {e} h := by
    cases e with
    | call receiver method arguments =>
      show ((replacement? receiver method arguments).getD _).isConstant = false
      cases hmade : replacement? receiver method arguments with
      | none => rfl
      | some node => exact (Accessor.makes_of_replacement? hmade).isConstant_eq_false
    | event subscription receiver event handler => exact Expr.isConstant_eventOrCall
    | _ => exact h
  rebuild {e} hfield hoperands := by
    cases e with
    | call receiver method arguments =>
      obtain ⟨hreceiver, harguments⟩ := List.forall_mem_append.mp hoperands
      have hmap := replacement?_map_foldFieldReads method (by simpa using hreceiver) harguments
      show ((replacement? receiver method arguments).getD _).foldFieldReads =
        (replacement? (receiver.map foldFieldReads) method (arguments.map foldFieldReads)).getD _
      rw [hmap]
      cases replacement? receiver method arguments with
      | none => exact Expr.foldFieldReads_eq_mapOperands rfl trivial
      | some node => rfl
    | event subscription receiver event handler =>
      have hreceiver := hoperands receiver (by simp [Expr.operands])
      have hhandler := hoperands handler (by simp [Expr.operands])
      exact (Expr.eventOrCall_foldFieldReads hreceiver hhandler).symm
    | field => cases hfield
    | _ => exact (Expr.valid_of_operands rfl hoperands).foldFieldReads_eq rfl
  valid := Accessor.keepsRules.valid_rebuild

end Accessors

/-! ## Events as calls -/

theorem sparesFieldReads_eventCalls : EventCall.transform.SparesFieldReads where
  constant _ _ := rfl
  field _ _ := rfl
  isConstant_eq_false {e} h := by
    cases e with
    | event subscription receiver event handler =>
      rw [EventCall.rebuild_event]
      rfl
    | _ => exact h
  rebuild {e} hfield hoperands := by
    cases e with
    | event subscription receiver event handler =>
      have hcall : (Expr.accessorCall subscription receiver event handler).Valid :=
        Expr.valid_of_operands rfl hoperands
      rw [Expr.mapOperands, EventCall.rebuild_event, EventCall.rebuild_event]
      exact hcall.foldFieldReads_eq rfl
    | field => cases hfield
    | _ => exact (Expr.valid_of_operands rfl hoperands).foldFieldReads_eq rfl
  valid := EventCall.keepsRules.valid_rebuild

/-! ## Whole expressions -/

/-- Reads of known fields can be carried out before or after accessors are
    recognised, and before or after events are turned into calls. -/
theorem foldFieldReads_comm {e : Expr} (h : e.Valid) :
    e.recogniseAccessors.foldFieldReads = e.foldFieldReads.recogniseAccessors ∧
      e.reduceEvents.foldFieldReads = e.foldFieldReads.reduceEvents :=
  ⟨sparesFieldReads_accessors.foldFieldReads_transform h,
    sparesFieldReads_eventCalls.foldFieldReads_transform h⟩

/-! ### Subscriptions to a button of a known form -/

namespace KnownForm

open Click (buttonType event handler)

/-- A form whose button is known to be null. -/
def form : Expr :=
  .constant (.ofFields (.prim .object) [("button", .null)]) (.prim .object)

def button : Expr :=
  .field (some form) ⟨"Form", "button", buttonType, ⟨0⟩⟩

def noButton : Expr := .constant .null buttonType

/-- One subscription is still a call. -/
def subscriptions : Expr :=
  .new Click.both
    [.call (some button) event.adder [handler], .event .remove button event handler]

theorem foldFieldReads_subscriptions :
    subscriptions.Valid ∧
      subscriptions.foldFieldReads.recogniseAccessors =
        .new Click.both
          [.event .add noButton event handler, .event .remove noButton event handler] ∧
      subscriptions.recogniseAccessors.foldFieldReads =
        subscriptions.foldFieldReads.recogniseAccessors ∧
      subscriptions.reduceEvents.foldFieldReads = subscriptions.foldFieldReads.reduceEvents := by
  have hvalid : subscriptions.Valid := by
    have hpostorder : subscriptions.postorder =
        [form, button, handler, .call (some button) event.adder [handler],
          form, button, handler, .event .remove button event handler, subscriptions] := by
      simp [Expr.postorder_eq, Expr.operands, subscriptions, button, form, handler]
    unfold Expr.Valid
    rw [hpostorder]
    simp only [List.forall_mem_cons]
    exact ⟨trivial, trivial, trivial, trivial, trivial, trivial, trivial, ⟨rfl, rfl⟩, trivial,
      List.forall_mem_nil _⟩
  exact ⟨hvalid, rfl, foldFieldReads_comm hvalid⟩

end KnownForm

end CilLift
