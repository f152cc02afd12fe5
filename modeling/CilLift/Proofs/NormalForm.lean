import CilLift.Proofs.Validity
import Mathlib.Logic.Relation

/-! # Reads of known fields as a rewriting rule

    A read of a field of a constant object is a redex if the object carries
    the field, and contracts to the constant that the field holds. One
    contraction takes place anywhere in an expression: below calls, functions,
    assignments and events alike. Contractions open further ones, since the
    value of a field may be an object itself.

    Main statement: `foldFieldReads_normalForm` says that carrying out the
    reads of known fields, once from the leaves up, is a sequence of
    contractions after which no redex is left, and that no other expression
    without redexes can be reached.
-/

namespace CilLift

open Relation (ReflTransGen)

namespace Expr

/-! ## Nodes with operands exchanged -/

/-- The node with the operands in the list for its own, if there are as many of
    them. -/
def withOperands : Expr → List Expr → Expr
  | .field (some _) f, [receiver] => .field (some receiver) f
  | .binary op _ _ type, [left, right] => .binary op left right type
  | .unary op _ type, [operand] => .unary op operand type
  | .call none method _, arguments => .call none method arguments
  | .call (some _) method _, receiver :: arguments => .call (some receiver) method arguments
  | .new ctor _, arguments => .new ctor arguments
  | .newArray element _, [length] => .newArray element length
  | .index _ _ type, [array, position] => .index array position type
  | .lambda parameters _ type, [body] => .lambda parameters body type
  | .property (some _) declaringType name type, [receiver] =>
    .property (some receiver) declaringType name type
  | .indexer _ declaringType name _ type, receiver :: arguments =>
    .indexer receiver declaringType name arguments type
  | .assign _ _, [target, value] => .assign target value
  | .event subscription _ e _, [receiver, handler] => .event subscription receiver e handler
  | e, _ => e

theorem withOperands_operands (e : Expr) : e.withOperands e.operands = e := by
  cases e with
  | field receiver | property receiver | call receiver => cases receiver <;> rfl
  | _ => rfl

theorem mapOperands_eq_withOperands (f : Expr → Expr) (e : Expr) :
    e.mapOperands f = e.withOperands (e.operands.map f) := by
  cases e with
  | field receiver | property receiver | call receiver => cases receiver <;> rfl
  | _ => rfl

section Exchange

variable {e : Expr} {es es' : List Expr}

/-- The operands become those of the list, and which ones they were before does
    not matter. -/
theorem withOperands_cases (h : es.length = e.operands.length)
    (h' : es'.length = e.operands.length) :
    (e.withOperands es).operands = es ∧
      (e.withOperands es).withOperands es' = e.withOperands es' := by
  -- The number of operands gives the shape of both lists.
  cases e with
  | constant | parameter => exact ⟨(List.length_eq_zero_iff.mp h).symm, rfl⟩
  | field receiver | property receiver =>
    cases receiver with
    | none => exact ⟨(List.length_eq_zero_iff.mp h).symm, rfl⟩
    | some r =>
      obtain ⟨a, rfl⟩ := List.length_eq_one_iff.mp h
      obtain ⟨b, rfl⟩ := List.length_eq_one_iff.mp h'
      exact ⟨rfl, rfl⟩
  | unary | newArray | lambda =>
    obtain ⟨a, rfl⟩ := List.length_eq_one_iff.mp h
    obtain ⟨b, rfl⟩ := List.length_eq_one_iff.mp h'
    exact ⟨rfl, rfl⟩
  | binary | index | assign | event =>
    obtain ⟨a₁, a₂, rfl⟩ := List.length_eq_two.mp h
    obtain ⟨b₁, b₂, rfl⟩ := List.length_eq_two.mp h'
    exact ⟨rfl, rfl⟩
  | new => exact ⟨rfl, rfl⟩
  | call receiver =>
    cases receiver with
    | none => exact ⟨rfl, rfl⟩
    | some r =>
      obtain ⟨a, as, rfl⟩ := List.exists_cons_of_length_eq_add_one h
      obtain ⟨b, bs, rfl⟩ := List.exists_cons_of_length_eq_add_one h'
      exact ⟨rfl, rfl⟩
  | indexer =>
    obtain ⟨a, as, rfl⟩ := List.exists_cons_of_length_eq_add_one h
    obtain ⟨b, bs, rfl⟩ := List.exists_cons_of_length_eq_add_one h'
    exact ⟨rfl, rfl⟩

theorem operands_withOperands (h : es.length = e.operands.length) :
    (e.withOperands es).operands = es :=
  (withOperands_cases h h).1

theorem mapOperands_withOperands (f : Expr → Expr) (h : es.length = e.operands.length) :
    (e.withOperands es).mapOperands f = e.withOperands (es.map f) := by
  have hlength : (es.map f).length = e.operands.length := by rw [List.length_map, h]
  rw [mapOperands_eq_withOperands, operands_withOperands h]
  exact (withOperands_cases h hlength).2

/-- A constant of the expression's type, in place of the expression. -/
def blank (e : Expr) : Expr := .constant .null e.type

/-- Nodes that differ only in operands of the same types are the same when the
    operands are blanked out. -/
theorem mapOperands_blank_withOperands (h : es.map type = e.operands.map type) :
    (e.withOperands es).mapOperands blank = e.mapOperands blank := by
  have hlength : es.length = e.operands.length := by
    rw [← List.length_map type, h, List.length_map]
  have hblank : es.map blank = e.operands.map blank := by
    have hconstants := congrArg (List.map (Expr.constant .null)) h
    rw [List.map_map, List.map_map] at hconstants
    exact hconstants
  rw [mapOperands_withOperands _ hlength, mapOperands_eq_withOperands, hblank]

/-- A node keeps its type when it gets operands of the same types. -/
theorem type_withOperands (h : es.map type = e.operands.map type) :
    (e.withOperands es).type = e.type := by
  have hblank : ∀ e : Expr, (e.mapOperands blank).type = e.type :=
    fun e => type_mapOperands fun _ _ => rfl
  rw [← hblank, mapOperands_blank_withOperands h, hblank]

/-- Whether a node fits together shows in the types of its operands. -/
theorem fits_withOperands_iff (h : es.map type = e.operands.map type) :
    (e.withOperands es).Fits ↔ e.Fits := by
  have hblank : ∀ e : Expr, (e.mapOperands blank).Fits ↔ e.Fits :=
    fun e => fits_mapOperands_iff fun _ _ => rfl
  rw [← hblank, mapOperands_blank_withOperands h, hblank]

end Exchange

/-! ## Contracting one read -/

/-- The first expression reads a field that a constant object carries. The
    second one is the value of that field, typed as the field. -/
inductive Contracts : Expr → Expr → Prop where
  | read (objectType type : Ty) (fields : List (String × Value)) (f : FieldRef) (value : Value)
    (hknown : fields.lookup f.name = some value) :
    Contracts (.field (some (.constant (.object objectType fields) type)) f)
      (.constant value f.type)

/-- The expression reads a field that a constant object carries. -/
def IsRedex (e : Expr) : Prop := ∃ e', Contracts e e'

/-- No node of the expression is a redex. -/
def Normal (e : Expr) : Prop := ∀ node ∈ e.postorder, ¬ node.IsRedex

theorem normal_iff {e : Expr} :
    e.Normal ↔ ¬ e.IsRedex ∧ ∀ operand ∈ e.operands, operand.Normal :=
  forall_mem_postorder_iff e

/-- One redex is contracted, at whatever depth. -/
inductive ReadsOne : Expr → Expr → Prop where
  | here {e e' : Expr} (h : Contracts e e') : ReadsOne e e'
  | inside {node operand operand' : Expr} {before after : List Expr}
    (hoperands : node.operands = before ++ operand :: after) (h : ReadsOne operand operand') :
    ReadsOne node (node.withOperands (before ++ operand' :: after))

theorem contracts_field_iff {receiver : Option Expr} {f : FieldRef} {e : Expr} :
    Contracts (.field receiver f) e ↔ FieldRead.value? receiver f = some e := by
  constructor
  · intro h
    cases h with
    | read objectType type fields f value hknown =>
      show (fields.lookup f.name).map _ = _
      rw [hknown]
      rfl
  · intro h
    unfold FieldRead.value? at h
    split at h
    · rename_i object type
      obtain ⟨value, hvalue, rfl⟩ := Option.map_eq_some_iff.mp h
      cases object with
      | object objectType fields => exact .read objectType type fields f value hvalue
      | _ => cases hvalue
    · cases h

theorem Contracts.exists_eq_constant {e e' : Expr} (h : Contracts e e') :
    ∃ value type, e' = .constant value type := by
  cases h with
  | read objectType type fields f value hknown => exact ⟨value, f.type, rfl⟩

theorem not_isRedex_of_isField_eq_false {e : Expr} (h : e.isField = false) : ¬ e.IsRedex := by
  rintro ⟨e', hcontracts⟩
  cases hcontracts
  cases h

/-- A node that fits together is contracted when it is rebuilt, if it is a
    redex, and otherwise stays as it is. -/
theorem rebuild_fieldRead_cases {e : Expr} (hfits : e.Fits) :
    Contracts e (FieldRead.transform.rebuild e) ∨
      ¬ e.IsRedex ∧ FieldRead.transform.rebuild e = e := by
  cases e with
  | field receiver f =>
    show Contracts _ ((FieldRead.value? receiver f).getD _) ∨
      _ ∧ (FieldRead.value? receiver f).getD _ = _
    cases hvalue : FieldRead.value? receiver f with
    | some constant => exact .inl (contracts_field_iff.mpr hvalue)
    | none =>
      refine .inr ⟨?_, rfl⟩
      rintro ⟨e', hcontracts⟩
      rw [contracts_field_iff, hvalue] at hcontracts
      cases hcontracts
  | event => exact .inr ⟨not_isRedex_of_isField_eq_false rfl, eventOrCall_of_fits hfits⟩
  | _ => exact .inr ⟨not_isRedex_of_isField_eq_false rfl, rfl⟩

/-! ## What a contraction keeps -/

section Contraction

variable {e e' : Expr}

theorem ReadsOne.not_normal (h : ReadsOne e e') : ¬ e.Normal := by
  induction h with
  | here hcontracts =>
    intro hnormal
    exact (normal_iff.mp hnormal).1 ⟨_, hcontracts⟩
  | inside hoperands _ ih =>
    intro hnormal
    apply ih
    apply (normal_iff.mp hnormal).2
    simp [hoperands]

theorem ReadsOne.type_eq (h : ReadsOne e e') : e'.type = e.type := by
  induction h with
  | here hcontracts =>
    cases hcontracts
    rfl
  | inside hoperands _ ih =>
    apply type_withOperands
    simp [hoperands, ih]

/-- Since types are kept, events go on fitting together. -/
theorem ReadsOne.valid (h : ReadsOne e e') (hvalid : e.Valid) : e'.Valid := by
  induction h with
  | here hcontracts =>
    cases hcontracts
    exact valid_of_operands rfl (List.forall_mem_nil _)
  | @inside node operand operand' before after hoperands hreads ih =>
    obtain ⟨hfits, hvalid⟩ := valid_iff.mp hvalid
    have htypes : (before ++ operand' :: after).map type = node.operands.map type := by
      simp [hoperands, hreads.type_eq]
    have hlength : (before ++ operand' :: after).length = node.operands.length := by
      simp [hoperands]
    rw [valid_iff, fits_withOperands_iff htypes, operands_withOperands hlength]
    refine ⟨hfits, ?_⟩
    rw [hoperands] at hvalid
    simp only [List.forall_mem_append, List.forall_mem_cons] at hvalid ⊢
    exact ⟨hvalid.1, ih hvalid.2.1, hvalid.2.2⟩

/-- Reading all known fields gives the same before and after one of them is
    read. -/
theorem ReadsOne.foldFieldReads_eq (h : ReadsOne e e') : e'.foldFieldReads = e.foldFieldReads := by
  induction h with
  | here hcontracts =>
    cases hcontracts with
    | read objectType type fields f value hknown =>
      have hvalue : FieldRead.value? (some (.constant (.object objectType fields) type)) f =
          some (.constant value f.type) :=
        contracts_field_iff.mp (.read objectType type fields f value hknown)
      rw [foldFieldReads_field]
      show _ = (FieldRead.value? (some (.constant (.object objectType fields) type)) f).getD _
      rw [hvalue]
      rfl
  | @inside node operand operand' before after hoperands _ ih =>
    have hlength : (before ++ operand' :: after).length = node.operands.length := by
      simp [hoperands]
    -- With the fields in its operands read, the node is the same as before.
    have hmap : (node.withOperands (before ++ operand' :: after)).mapOperands foldFieldReads =
        node.mapOperands foldFieldReads := by
      rw [mapOperands_withOperands _ hlength, mapOperands_eq_withOperands, hoperands]
      simp [ih]
    rw [foldFieldReads_eq_rebuild, hmap, ← foldFieldReads_eq_rebuild]

end Contraction

/-! ## Sequences of contractions -/

section Sequences

variable {e e' : Expr}

/-- What every single contraction keeps, any number of them keeps. -/
theorem keeps_of_reads {p : Expr → Prop} (hstep : ∀ e e', ReadsOne e e' → p e → p e')
    (h : ReflTransGen ReadsOne e e') (hp : p e) : p e' := by
  induction h with
  | refl => exact hp
  | tail _ hreads ih => exact hstep _ _ hreads ih

theorem valid_of_reads (h : ReflTransGen ReadsOne e e') (hvalid : e.Valid) : e'.Valid :=
  keeps_of_reads (fun _ _ hreads => hreads.valid) h hvalid

theorem foldFieldReads_eq_of_reads (h : ReflTransGen ReadsOne e e') :
    e'.foldFieldReads = e.foldFieldReads := by
  refine keeps_of_reads (p := fun reached => reached.foldFieldReads = e.foldFieldReads) ?_ h rfl
  intro e e' hreads hsame
  rw [hreads.foldFieldReads_eq, hsame]

theorem eq_of_reads_of_normal (h : ReflTransGen ReadsOne e e') (hnormal : e.Normal) : e' = e := by
  rcases h.cases_head with rfl | ⟨next, hreads, -⟩
  · rfl
  · exact absurd hnormal hreads.not_normal

/-- Contractions of one operand are contractions of the node. -/
theorem reads_operand {node : Expr} {before after : List Expr} {operand operand' : Expr}
    (hlength : (before ++ operand :: after).length = node.operands.length)
    (h : ReflTransGen ReadsOne operand operand') :
    ReflTransGen ReadsOne (node.withOperands (before ++ operand :: after))
      (node.withOperands (before ++ operand' :: after)) := by
  refine h.lift (fun operand => node.withOperands (before ++ operand :: after)) ?_
  intro a b hreads
  -- The node to which `inside` applies has been given its operands already.
  have ha : (before ++ a :: after).length = node.operands.length := by simpa using hlength
  have hb : (before ++ b :: after).length = node.operands.length := by simpa using hlength
  have hstep := ReadsOne.inside (operands_withOperands ha) hreads
  rwa [(withOperands_cases ha hb).2] at hstep

/-- Contractions of all operands are contractions of the node. The operands
    before those in `rest` are contracted already. -/
theorem reads_operands {node : Expr} {f : Expr → Expr} (rest : List Expr) :
    ∀ before : List Expr, (before ++ rest).length = node.operands.length →
      (∀ operand ∈ rest, ReflTransGen ReadsOne operand (f operand)) →
      ReflTransGen ReadsOne (node.withOperands (before ++ rest))
        (node.withOperands (before ++ rest.map f)) := by
  induction rest with
  | nil =>
    intro before _ _
    exact .refl
  | cons operand rest ih =>
    intro before hlength hreads
    obtain ⟨hfirst, hrest⟩ := List.forall_mem_cons.mp hreads
    have hfirst := reads_operand hlength hfirst
    have hrest := ih (before ++ [f operand]) (by simpa using hlength) hrest
    rw [List.append_assoc, List.append_assoc] at hrest
    exact hfirst.trans hrest

theorem reads_mapOperands {f : Expr → Expr}
    (h : ∀ operand ∈ e.operands, ReflTransGen ReadsOne operand (f operand)) :
    ReflTransGen ReadsOne e (e.mapOperands f) := by
  have hreads := reads_operands e.operands [] rfl h
  rw [List.nil_append, List.nil_append, withOperands_operands,
    ← mapOperands_eq_withOperands] at hreads
  exact hreads

end Sequences

/-! ## The normal form -/

namespace Valid

variable {e : Expr}

/-- The last step from the leaves up is at the node, over the normal forms of
    its operands. -/
theorem foldFieldReads_cases (h : e.Valid) :
    Contracts (e.mapOperands foldFieldReads) e.foldFieldReads ∨
      ¬ (e.mapOperands foldFieldReads).IsRedex ∧
        e.foldFieldReads = e.mapOperands foldFieldReads := by
  obtain ⟨hfits, hoperands⟩ := valid_iff.mp h
  have htypes : ∀ operand ∈ e.operands, operand.foldFieldReads.type = operand.type :=
    fun operand hmem => type_foldFieldReads (hoperands operand hmem)
  rw [foldFieldReads_eq_rebuild]
  exact rebuild_fieldRead_cases ((fits_mapOperands_iff htypes).mpr hfits)

theorem reads_foldFieldReads (h : e.Valid) : ReflTransGen ReadsOne e e.foldFieldReads := by
  induction e using operand_induction with
  | node e ih =>
    have hoperands := (valid_iff.mp h).2
    have hbelow : ReflTransGen ReadsOne e (e.mapOperands foldFieldReads) :=
      reads_mapOperands fun operand hmem => ih operand hmem (hoperands operand hmem)
    rcases h.foldFieldReads_cases with hcontracts | ⟨-, hsame⟩
    · exact hbelow.tail (.here hcontracts)
    · rw [hsame]
      exact hbelow

theorem normal_foldFieldReads (h : e.Valid) : e.foldFieldReads.Normal := by
  induction e using operand_induction with
  | node e ih =>
    have hoperands := (valid_iff.mp h).2
    rcases h.foldFieldReads_cases with hcontracts | ⟨hredex, hsame⟩
    · obtain ⟨value, type, hconstant⟩ := hcontracts.exists_eq_constant
      rw [hconstant, normal_iff]
      exact ⟨not_isRedex_of_isField_eq_false rfl, List.forall_mem_nil _⟩
    · rw [hsame, normal_iff, operands_mapOperands, List.forall_mem_map]
      exact ⟨hredex, fun operand hmem => ih operand hmem (hoperands operand hmem)⟩

/-- Whatever order the contractions are made in, they can end only there. -/
theorem eq_foldFieldReads_of_normal {e' : Expr} (h : e.Valid)
    (hreads : ReflTransGen ReadsOne e e') (hnormal : e'.Normal) : e' = e.foldFieldReads := by
  have hvalid := valid_of_reads hreads h
  calc e'
      = e'.foldFieldReads := (eq_of_reads_of_normal hvalid.reads_foldFieldReads hnormal).symm
    _ = e.foldFieldReads := foldFieldReads_eq_of_reads hreads

theorem foldFieldReads_eq_self_iff (h : e.Valid) : e.foldFieldReads = e ↔ e.Normal := by
  constructor
  · intro hsame
    rw [← hsame]
    exact h.normal_foldFieldReads
  · exact eq_of_reads_of_normal h.reads_foldFieldReads

end Valid

theorem isField_eq_false_of_isPlace {e : Expr} (h : e.isPlace = true) : e.isField = false := by
  cases e with
  | field => cases h
  | _ => rfl

end Expr

/-- Carrying out the reads of known fields computes the one normal form of a
    valid expression: contractions of single redexes lead there, no redex is
    left, and whatever else they lead to still has a redex. So exactly the
    expressions without redexes stay as they are, and a second run changes
    nothing. Everything that is lifted is valid after any passes, and assigns
    to no field. -/
theorem foldFieldReads_normalForm :
    (∀ e : Expr, e.Valid →
      ReflTransGen Expr.ReadsOne e e.foldFieldReads ∧
      e.foldFieldReads.Normal ∧
      (∀ e', ReflTransGen Expr.ReadsOne e e' → e'.Normal → e' = e.foldFieldReads) ∧
      (e.foldFieldReads = e ↔ e.Normal) ∧
      e.foldFieldReads.foldFieldReads = e.foldFieldReads) ∧
    ∀ (r : Resolver) (passes : Passes) (d : Delegate) (tree : Expr),
      d.liftWith r passes = .ok tree →
        tree.Valid ∧
        ∀ target value, Expr.assign target value ∈ tree.postorder → target.isField = false := by
  constructor
  · intro e h
    have hreads := h.reads_foldFieldReads
    exact ⟨hreads, h.normal_foldFieldReads, fun _ => h.eq_foldFieldReads_of_normal,
      h.foldFieldReads_eq_self_iff, Expr.foldFieldReads_eq_of_reads hreads⟩
  · intro r passes d tree h
    obtain ⟨raw, hlift, rfl⟩ := liftWith_ok_iff.mp h
    refine ⟨passes.valid_run (eventFree_of_lift hlift).valid, ?_⟩
    intro target value hmem
    have hplaces := passes.assignsToPlaces_run (assignsToPlaces_of_lift hlift)
    exact Expr.isField_eq_false_of_isPlace (hplaces _ hmem)

/-! ### A subscription to a button of a known form in a known window -/

namespace KnownWindow

open Click (buttonType event handler)
open KnownForm (noButton)

/-- A window whose form is known, down to its button. -/
def window : Expr :=
  .constant (.ofFields (.prim .object)
    [("form", .ofFields (.prim .object) [("button", .null)])]) (.prim .object)

def form : Expr := .field (some window) ⟨"Window", "form", .prim .object, ⟨0⟩⟩

def button : Expr := .field (some form) ⟨"Form", "button", buttonType, ⟨0⟩⟩

def subscription : Expr := .event .add button event handler

theorem valid_subscription : subscription.Valid := by
  have hpostorder : subscription.postorder = [window, form, button, handler, subscription] := by
    simp [Expr.postorder_eq, Expr.operands, subscription, button, form, window, handler]
  unfold Expr.Valid
  rw [hpostorder]
  simp only [List.forall_mem_cons]
  exact ⟨trivial, trivial, trivial, trivial, ⟨rfl, rfl⟩, List.forall_mem_nil _⟩

/-- The form is read first, and only then the button can be. -/
theorem normalForm_subscription :
    subscription.Valid ∧
      subscription.foldFieldReads = .event .add noButton event handler ∧
      ReflTransGen Expr.ReadsOne subscription (.event .add noButton event handler) ∧
      (Expr.event .add noButton event handler).Normal ∧
      ¬ subscription.Normal ∧
      (Expr.event .add noButton event handler).foldFieldReads =
        .event .add noButton event handler ∧
      Labelled.subscribed.Valid := by
  have hread : subscription.foldFieldReads = .event .add noButton event handler := rfl
  have hlifted : Labelled.delegate.liftWith Labelled.resolver {} = .ok Labelled.subscribed := by
    rw [Delegate.liftWith, Labelled.lift_labelled]
    rfl
  obtain ⟨hvalid, hpasses⟩ := foldFieldReads_normalForm
  obtain ⟨hreads, hnormal, -, hsame, hagain⟩ := hvalid subscription valid_subscription
  obtain ⟨hsubscribed, -⟩ := hpasses _ _ _ _ hlifted
  rw [hread] at hreads hnormal hsame hagain
  refine ⟨valid_subscription, hread, hreads, hnormal, ?_, hagain, hsubscribed⟩
  rw [← hsame]
  intro hequal
  cases hequal

end KnownWindow

end CilLift
