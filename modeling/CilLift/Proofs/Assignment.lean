import CilLift.Proofs.NormalForm

/-! # What is assigned to

    Something can be assigned to a field, a property, an indexer, an element of
    an array and a parameter, and to nothing else. A transformation goes into
    the target of an assignment as into any other operand, so a pass has to
    leave each of these what it is.

    Recognising accessors and turning events into calls do. Reading known
    fields does not: where the target is itself a field that is known, its
    value takes its place.

    Main statement: `assignment_targets_passes` says that the first two keep
    everything assignable, and that reading known fields does so exactly if the
    value of no target is known.
-/

namespace CilLift

namespace Expr

/-! ## Targets -/

/-- Whether something can be assigned to the node. -/
def isAssignable : Expr → Bool
  | .field .. | .property .. | .indexer .. | .index .. | .parameter _ => true
  | _ => false

/-- The node is no assignment, or something can be assigned to its target. -/
def TargetAssignable : Expr → Prop
  | .assign target _ => target.isAssignable = true
  | _ => True

/-- Something can be assigned to the target of every assignment of the
    expression. -/
def TargetsAssignable (e : Expr) : Prop :=
  ∀ node ∈ e.postorder, node.TargetAssignable

theorem targetsAssignable_iff {e : Expr} :
    e.TargetsAssignable ↔
      e.TargetAssignable ∧ ∀ operand ∈ e.operands, operand.TargetsAssignable :=
  forall_mem_postorder_iff e

theorem targetsAssignable_constant (value : Value) (type : Ty) :
    (constant value type).TargetsAssignable :=
  targetsAssignable_iff.mpr ⟨trivial, List.forall_mem_nil _⟩

theorem isAssignable_of_isPlace {e : Expr} (h : e.isPlace = true) : e.isAssignable = true := by
  cases e with
  | property | indexer => rfl
  | _ => cases h

theorem AssignsToPlace.targetAssignable {e : Expr} (h : e.AssignsToPlace) :
    e.TargetAssignable := by
  cases e with
  | assign => exact isAssignable_of_isPlace h
  | _ => trivial

/-! ## Known values -/

/-- The value of the expression, if it is a constant or a field of an object
    that is known. -/
def knownValue? : Expr → Option Value
  | .constant value _ => some value
  | .field (some receiver) f => receiver.knownValue?.bind (·.field? f.name)
  | _ => none

/-- The value of the node, if it is a constant. -/
def constant? : Expr → Option Value
  | .constant value _ => some value
  | _ => none

theorem value?_some (receiver : Expr) (f : FieldRef) :
    FieldRead.value? (some receiver) f =
      (receiver.constant?.bind (·.field? f.name)).map (.constant · f.type) := by
  cases receiver <;> rfl

/-- Reading known fields makes a constant of an expression exactly if its value
    is known. -/
theorem constant?_foldFieldReads (e : Expr) : e.foldFieldReads.constant? = e.knownValue? := by
  induction e using operand_induction with
  | node e ih =>
    cases e with
    | field receiver f =>
      cases receiver with
      | none => rfl
      | some receiver =>
        have hreceiver := ih receiver (by simp [operands])
        rw [foldFieldReads_field, Option.map_some, value?_some, hreceiver, knownValue?]
        cases receiver.knownValue?.bind (·.field? f.name) <;> rfl
    -- An event becomes an event or a call, and every other node stays of its kind.
    | event =>
      exact eventOrCall_cases (p := fun node => node.constant? = none) (fun _ => rfl) rfl
    | _ => rfl

/-- A target stays assignable when known fields are read, unless its own value
    is known. -/
theorem isAssignable_foldFieldReads_iff {e : Expr} (h : e.isAssignable = true) :
    e.foldFieldReads.isAssignable = true ↔ e.knownValue? = none := by
  cases e with
  | field receiver f =>
    rw [← constant?_foldFieldReads, foldFieldReads_field]
    cases hvalue : FieldRead.value? (receiver.map foldFieldReads) f with
    | none => exact ⟨fun _ => rfl, fun _ => rfl⟩
    | some constant =>
      obtain ⟨value, rfl⟩ := value?_cases hvalue
      exact ⟨nofun, nofun⟩
  | parameter | index | property | indexer => exact ⟨fun _ => rfl, fun _ => rfl⟩
  | _ => cases h

end Expr

/-! ## Passes that leave every target what it is -/

/-- What is assignable stays so where a transform puts reads of fields and
    parameters together as they were. -/
theorem Expr.isAssignable_transform {w : Transform Id}
    (hfield : ∀ receiver f, w.rebuild (.field receiver f) = .field receiver f)
    (hparameter : ∀ p, w.rebuild (.parameter p) = .parameter p) {e : Expr}
    (h : e.isAssignable = true) : (e.transform w).isAssignable = true := by
  rw [transform_eq_rebuild]
  cases e with
  | field receiver f =>
    rw [mapOperands, hfield]
    rfl
  | parameter p =>
    rw [mapOperands, hparameter]
    rfl
  | property | indexer | index => rfl
  | _ => cases h

/-- What keeps the rules for events and assignments, and every assignable node
    assignable, keeps all targets assignable. -/
theorem Transform.KeepsRules.targetsAssignable_transform {w : Transform Id} (hw : w.KeepsRules)
    (hassignable : ∀ e : Expr, e.isAssignable = true → (e.transform w).isAssignable = true)
    {e : Expr} (h : e.TargetsAssignable) : (e.transform w).TargetsAssignable := by
  have hkept : ∀ e : Expr, e.TargetAssignable →
      (e.mapOperands (Expr.transform w)).TargetAssignable := by
    intro e htarget
    cases e with
    | assign target value => exact hassignable target htarget
    | _ => trivial
  refine Expr.forall_mem_postorder_transform hkept ?_ h
  intro e hself
  exact hw Expr.TargetAssignable (fun _ _ hplace => hplace.targetAssignable) e fun _ => hself

/-! ## Reading known fields -/

/-- A node has the same targets below it before and after it is rebuilt: what is
    read of a constant had none. -/
theorem FieldRead.targetsAssignable_rebuild_iff (e : Expr) :
    (transform.rebuild e).TargetsAssignable ↔ e.TargetsAssignable := by
  cases e with
  | field receiver f =>
    show ((value? receiver f).getD (.field receiver f)).TargetsAssignable ↔ _
    cases hvalue : value? receiver f with
    | none => exact Iff.rfl
    | some constant =>
      cases Expr.contracts_field_iff.mpr hvalue with
      | read objectType type fields f value hknown =>
        have hobject := Expr.targetsAssignable_constant (.object objectType fields) type
        have hread := Expr.targetsAssignable_constant value f.type
        exact iff_of_true hread
          (Expr.targetsAssignable_iff.mpr ⟨trivial, List.forall_mem_singleton.mpr hobject⟩)
  | event subscription receiver e handler =>
    show (Expr.eventOrCall subscription receiver e handler).TargetsAssignable ↔ _
    rw [Expr.targetsAssignable_iff, Expr.operands_eventOrCall, Expr.targetsAssignable_iff]
    exact and_congr_left fun _ => ⟨fun _ => trivial,
      fun _ => Expr.assignsToPlace_eventOrCall.targetAssignable⟩
  | _ => exact Iff.rfl

/-- The targets after known fields are read are those before, with known fields
    read in them. -/
theorem Expr.targetsAssignable_foldFieldReads_iff (e : Expr) :
    e.foldFieldReads.TargetsAssignable ↔
      ∀ node ∈ e.postorder, (node.mapOperands foldFieldReads).TargetAssignable := by
  induction e using operand_induction with
  | node e ih =>
    rw [foldFieldReads_eq_rebuild, FieldRead.targetsAssignable_rebuild_iff, targetsAssignable_iff,
      operands_mapOperands, List.forall_mem_map, forall_mem_postorder_iff]
    apply and_congr_right
    intro _
    exact forall₂_congr ih

/-- Recognising accessors and turning events into calls leave every target
    assignable. Reading known fields does so exactly if no target has a known
    value: otherwise that value is put in its place, though it is not read
    there. -/
theorem assignment_targets_passes {e : Expr} (h : e.TargetsAssignable) :
    e.recogniseAccessors.TargetsAssignable ∧
      e.reduceEvents.TargetsAssignable ∧
      (e.foldFieldReads.TargetsAssignable ↔
        ∀ target value, Expr.assign target value ∈ e.postorder → target.knownValue? = none) := by
  have haccessors : ∀ e : Expr, e.isAssignable = true →
      (e.transform Accessor.transform).isAssignable = true :=
    fun _ => Expr.isAssignable_transform sparesFieldReads_accessors.field fun _ => rfl
  have hevents : ∀ e : Expr, e.isAssignable = true →
      (e.transform EventCall.transform).isAssignable = true :=
    fun _ => Expr.isAssignable_transform sparesFieldReads_eventCalls.field fun _ => rfl
  refine ⟨Accessor.keepsRules.targetsAssignable_transform haccessors h,
    EventCall.keepsRules.targetsAssignable_transform hevents h, ?_⟩
  rw [e.targetsAssignable_foldFieldReads_iff]
  constructor
  -- Every target was assignable before, so only its known value matters.
  · intro hread target value hmem
    exact (Expr.isAssignable_foldFieldReads_iff (h _ hmem)).mp (hread _ hmem)
  · intro hunknown node hmem
    cases node with
    | assign target value =>
      exact (Expr.isAssignable_foldFieldReads_iff (h _ hmem)).mpr (hunknown target value hmem)
    | _ => trivial

/-! ### The size of a known widget -/

namespace KnownWidget

/-- A widget whose size is known. -/
def widget : Expr :=
  .constant (.ofFields (.prim .object) [("Size", .int32 7)]) (.prim .object)

def size (receiver : Expr) : Expr :=
  .field (some receiver) ⟨"Widget", "Size", .prim .int32, ⟨0⟩⟩

def int (n : Int32) : Expr := .constant (.int32 n) (.prim .int32)

def other : Expr := .parameter ⟨"other", .prim .object⟩

/-- Assigns the known size of one widget to another one. -/
def resizeOther : Expr := .assign (size other) (size widget)

theorem targets_resizeOther :
    resizeOther.TargetsAssignable ∧
      resizeOther.foldFieldReads = .assign (size other) (int 7) ∧
      resizeOther.recogniseAccessors.TargetsAssignable ∧
      resizeOther.reduceEvents.TargetsAssignable ∧
      resizeOther.foldFieldReads.TargetsAssignable := by
  have hpostorder : resizeOther.postorder =
      [other, size other, widget, size widget, resizeOther] := by
    simp [Expr.postorder_eq, Expr.operands, resizeOther, size, other, widget]
  have htargets : resizeOther.TargetsAssignable := by
    unfold Expr.TargetsAssignable
    rw [hpostorder]
    simp only [List.forall_mem_cons]
    exact ⟨trivial, trivial, trivial, trivial, rfl, List.forall_mem_nil _⟩
  obtain ⟨haccessors, hevents, hreads⟩ := assignment_targets_passes htargets
  refine ⟨htargets, rfl, haccessors, hevents, hreads.mpr ?_⟩
  intro target value hmem
  rw [hpostorder] at hmem
  simp only [other, size, widget, resizeOther, List.mem_cons, List.not_mem_nil, reduceCtorEq,
    false_or, or_false, Expr.assign.injEq] at hmem
  obtain ⟨rfl, -⟩ := hmem
  rfl

/-- Assigns another size to the widget whose size is known. -/
def resize : Expr := .assign (size widget) (int 5)

/-- The size that is to be overwritten is read, and nothing can be assigned to
    what it was. -/
theorem not_targetsAssignable_foldFieldReads_resize :
    resize.TargetsAssignable ∧
      resize.foldFieldReads = .assign (int 7) (int 5) ∧
      ¬ resize.foldFieldReads.TargetsAssignable := by
  have hpostorder : resize.postorder = [widget, size widget, int 5, resize] := by
    simp [Expr.postorder_eq, Expr.operands, resize, size, widget, int]
  have htargets : resize.TargetsAssignable := by
    unfold Expr.TargetsAssignable
    rw [hpostorder]
    simp only [List.forall_mem_cons]
    exact ⟨trivial, trivial, trivial, rfl, List.forall_mem_nil _⟩
  refine ⟨htargets, rfl, ?_⟩
  intro hread
  have htarget : (int 7).isAssignable = true := (Expr.targetsAssignable_iff.mp hread).1
  cases htarget

end KnownWidget

end CilLift
