import CilLift.Expr.Same
import CilLift.Proofs.Assignment

/-! # Passes on expressions that are the same

    Expressions that are the same can differ: their types agree in name but not
    in what they carry, and their numbers agree as numbers but not as bit
    patterns. The passes look into both. A read takes a value out of an object,
    and an event is checked against types and turned into a call of one of the
    methods that it registers.

    Main statement: `same_passes` says that of valid expressions that are the
    same, reading known fields and turning events into calls make expressions
    that are the same.
-/

namespace CilLift

/-! ## Values and members -/

namespace Value

theorem lookup_of_sameFields {fs gs : List (String × Value)} (h : sameFields fs gs = true)
    (name : String) :
    Option.Rel (fun v w => v.same w = true) (fs.lookup name) (gs.lookup name) := by
  induction fs generalizing gs with
  | nil =>
    cases gs with
    | nil => exact .none
    | cons => cases h
  | cons f fs ih =>
    cases gs with
    | nil => cases h
    | cons g gs =>
      obtain ⟨m, v⟩ := f
      obtain ⟨n, w⟩ := g
      simp only [sameFields, Bool.and_eq_true, beq_iff_eq] at h
      obtain ⟨⟨rfl, hvalue⟩, hrest⟩ := h
      rw [List.lookup_cons, List.lookup_cons]
      cases name == m with
      | true => exact .some hvalue
      | false => exact ih hrest

/-- Objects that are the same know the same fields, and the values of these are
    the same. -/
theorem field?_of_same {v w : Value} (h : v.same w = true) (name : String) :
    Option.Rel (fun v w => v.same w = true) (v.field? name) (w.field? name) := by
  fun_cases same v w with
  -- Two objects; two other values of one kind; two values of different kinds.
  | case15 s fs t gs =>
    simp only [same, Bool.and_eq_true] at h
    exact lookup_of_sameFields h.2 name
  | case16 => simp only [same, Bool.false_eq_true] at h
  | _ => exact .none

end Value

theorem EventRef.method_of_same {e f : EventRef} (h : e.same f = true)
    (subscription : Subscription) :
    (e.method subscription).same (f.method subscription) = true := by
  simp only [EventRef.same, Bool.and_eq_true] at h
  cases subscription with
  | add => exact h.1.2
  | remove => exact h.2

/-! ## Nodes -/

namespace Expr

variable {a b : Expr} {f : Expr → Expr}

theorem sameOption_map {r s : Option Expr} (h : sameOption r s = true)
    (hf : ∀ x ∈ r.toList, ∀ y ∈ s.toList, x.same y = true → (f x).same (f y) = true) :
    sameOption (r.map f) (s.map f) = true := by
  cases r with
  | none =>
    cases s with
    | none => rfl
    | some => cases h
  | some x =>
    cases s with
    | none => cases h
    | some y => exact hf x (by simp) y (by simp) h

theorem sameList_map {as bs : List Expr} (h : sameList as bs = true)
    (hf : ∀ x ∈ as, ∀ y ∈ bs, x.same y = true → (f x).same (f y) = true) :
    sameList (as.map f) (bs.map f) = true := by
  induction as generalizing bs with
  | nil =>
    cases bs with
    | nil => rfl
    | cons => cases h
  | cons x as ih =>
    cases bs with
    | nil => cases h
    | cons y bs =>
      simp only [sameList, Bool.and_eq_true] at h
      obtain ⟨hfirst, hrest⟩ := h
      have hfirst' := hf x (by simp) y (by simp) hfirst
      have hrest' := ih hrest fun x hx y hy => hf x (by simp [hx]) y (by simp [hy])
      simp only [List.map_cons, sameList, hfirst', hrest', Bool.and_self]

/-- Nodes that are the same stay so when operands that are the same are replaced
    by operands that are the same. -/
theorem same_mapOperands (h : a.same b = true)
    (hf : ∀ x ∈ a.operands, ∀ y ∈ b.operands, x.same y = true → (f x).same (f y) = true) :
    (a.mapOperands f).same (b.mapOperands f) = true := by
  fun_cases same a b with
  -- Leaves
  | case1 | case2 => exact h
  -- Fields and properties
  | case3 | case11 =>
    simp only [same, Bool.and_eq_true] at h
    simp only [mapOperands, same, Bool.and_eq_true]
    simp only [sameOption_map (by simp only [h]) hf, h, and_self]
  -- Calls
  | case6 r m as s n bs =>
    simp only [same, Bool.and_eq_true] at h
    obtain ⟨⟨hreceiver, hmethod⟩, harguments⟩ := h
    simp only [operands, List.forall_mem_append] at hf
    simp only [mapOperands, same, Bool.and_eq_true]
    refine ⟨⟨sameOption_map hreceiver ?_, hmethod⟩, sameList_map harguments ?_⟩
    · exact fun x hx => (hf.1 x hx).1
    · exact fun x hx => (hf.2 x hx).2
  -- New objects
  | case7 c as d bs =>
    simp only [same, Bool.and_eq_true] at h
    simp only [mapOperands, same, Bool.and_eq_true]
    exact ⟨h.1, sameList_map h.2 hf⟩
  -- Indexers
  | case12 r c m as s r' d n bs t =>
    simp only [same, Bool.and_eq_true] at h
    simp only [operands, List.forall_mem_cons] at hf
    simp only [mapOperands, same, Bool.and_eq_true]
    have harguments := sameList_map h.1.2 fun x hx => (hf.2 x hx).2
    exact ⟨⟨⟨⟨hf.1.1 h.1.1.1.1, h.1.1.1.2⟩, h.1.1.2⟩, harguments⟩, h.2⟩
  -- Nodes of different kinds
  | case15 => simp only [same, Bool.false_eq_true] at h
  -- All others have one or two operands, which are the same one by one.
  | _ =>
    simp only [same, Bool.and_eq_true] at h
    simp only [operands, List.forall_mem_cons] at hf
    simp only [mapOperands, same, Bool.and_eq_true]
    tauto

/-- Nodes that are the same are of one kind. -/
theorem kind_of_same (h : a.same b = true) :
    a.isField = b.isField ∧ a.isEvent = b.isEvent := by
  fun_cases same a b with
  | case15 => simp only [same, Bool.false_eq_true] at h
  | _ => exact ⟨rfl, rfl⟩

theorem constant?_of_same (h : a.same b = true) :
    Option.Rel (fun v w => v.same w = true) a.constant? b.constant? := by
  fun_cases same a b with
  | case1 v s w t =>
    simp only [same, Bool.and_eq_true] at h
    exact .some h.1
  | case15 => simp only [same, Bool.false_eq_true] at h
  | _ => exact .none

/-! ## Reads and calls -/

/-- The value that a read yields, if it is known, is the same for receivers and
    fields that are the same. -/
theorem value?_of_same {r s : Option Expr} {f g : FieldRef} (hreceiver : sameOption r s = true)
    (hfield : f.same g = true) :
    Option.Rel (fun a b => a.same b = true) (FieldRead.value? r f) (FieldRead.value? s g) := by
  simp only [FieldRef.same, Bool.and_eq_true, beq_iff_eq] at hfield
  obtain ⟨⟨⟨hname, -⟩, htype⟩, -⟩ := hfield
  cases r with
  | none =>
    cases s with
    | none => exact .none
    | some => cases hreceiver
  | some a =>
    cases s with
    | none => cases hreceiver
    | some b =>
      have hobject := constant?_of_same hreceiver
      rw [value?_some, value?_some, ← hname]
      generalize a.constant? = v?, b.constant? = w? at hobject ⊢
      cases hobject with
      | none => exact .none
      | @some v w hobject =>
        have hvalue := Value.field?_of_same hobject f.name
        rw [Option.bind_some, Option.bind_some]
        generalize v.field? f.name = v?, w.field? f.name = w? at hvalue ⊢
        cases hvalue with
        | none => exact .none
        | some hvalue => exact .some (by simp only [same, hvalue, htype, Bool.and_self])

theorem same_read {r s : Option Expr} {f g : FieldRef}
    (h : (field r f).same (field s g) = true) :
    ((FieldRead.value? r f).getD (.field r f)).same
      ((FieldRead.value? s g).getD (.field s g)) = true := by
  have hparts := h
  simp only [same, Bool.and_eq_true] at hparts
  have hvalue := value?_of_same hparts.1 hparts.2
  generalize FieldRead.value? r f = v?, FieldRead.value? s g = w? at hvalue ⊢
  cases hvalue with
  | none => exact h
  | some hvalue => exact hvalue

theorem same_accessorCall {k l : Subscription} {r s : Expr} {e f : EventRef} {x y : Expr}
    (h : (event k r e x).same (event l s f y) = true) :
    (accessorCall k r e x).same (accessorCall l s f y) = true := by
  simp only [same, Bool.and_eq_true, beq_iff_eq] at h
  obtain ⟨⟨⟨rfl, hreceiver⟩, hevent⟩, hhandler⟩ := h
  simp only [accessorCall, same, sameOption, sameList, hreceiver, hhandler,
    EventRef.method_of_same hevent, Bool.and_self]

/-! ## Whole expressions -/

/-- A function of expressions that keeps sameness at every node once its
    operands are done keeps it throughout. -/
theorem same_of_operands {p : Expr → Prop} (hp : ∀ e, p e → ∀ x ∈ e.operands, p x)
    (hnode : ∀ a b, p a → p b → a.same b = true →
      (a.mapOperands f).same (b.mapOperands f) = true → (f a).same (f b) = true)
    (ha : p a) (hb : p b) (h : a.same b = true) : (f a).same (f b) = true := by
  induction a using operand_induction generalizing b with
  | node a ih =>
    apply hnode a b ha hb h
    exact same_mapOperands h fun x hx y hy => ih x hx (hp a ha x hx) (hp b hb y hy)

/-- Types that are the same need not both be delegates, so that an event fits
    together on one side says nothing about the other: both have to be valid. -/
theorem same_foldFieldReads (ha : a.Valid) (hb : b.Valid) (h : a.same b = true) :
    a.foldFieldReads.same b.foldFieldReads = true := by
  refine same_of_operands (fun e he => (valid_iff.mp he).2) ?_ ha hb h
  intro a b ha hb h hoperands
  have hkind := (kind_of_same h).1
  cases hfield : a.isField with
  | true =>
    rw [hfield] at hkind
    cases a with
    | field r f =>
      cases b with
      | field s g =>
        rw [foldFieldReads_field, foldFieldReads_field]
        exact same_read hoperands
      | _ => cases hkind
    | _ => cases hfield
  | false =>
    rw [ha.foldFieldReads_eq hfield, hb.foldFieldReads_eq (hkind.symm.trans hfield)]
    exact hoperands

theorem same_reduceEvents (h : a.same b = true) :
    a.reduceEvents.same b.reduceEvents = true := by
  refine same_of_operands (p := fun _ => True) (fun _ _ _ _ => trivial) ?_ trivial trivial h
  intro a b _ _ h hoperands
  have hkind := (kind_of_same h).2
  cases hevent : a.isEvent with
  | true =>
    rw [hevent] at hkind
    cases a with
    | event k r e x =>
      cases b with
      | event l s f y =>
        rw [reduceEvents_event, reduceEvents_event]
        exact same_accessorCall hoperands
      | _ => cases hkind
    | _ => cases hevent
  | false =>
    rw [reduceEvents_eq_mapOperands hevent,
      reduceEvents_eq_mapOperands (hkind.symm.trans hevent)]
    exact hoperands

end Expr

/-- Reading known fields, and turning events into calls, makes of valid
    expressions that are the same expressions that are the same. -/
theorem same_passes {a b : Expr} (ha : a.Valid) (hb : b.Valid) (h : a.same b = true) :
    a.foldFieldReads.same b.foldFieldReads = true ∧ a.reduceEvents.same b.reduceEvents = true :=
  ⟨Expr.same_foldFieldReads ha hb h, Expr.same_reduceEvents h⟩

/-! ### A form described twice -/

namespace TwiceDescribed

open Click (buttonType handlerType)

/-- A form whose button is null and whose scale is zero, by whichever pattern. -/
def form (zero : UInt64) : Expr :=
  .constant (.ofFields (.prim .object) [("button", .null), ("scale", .double zero)])
    (.prim .object)

def subscription (receiver : Expr) (handler : Ty) : Expr :=
  .event .add receiver (.conventional "Button" "Click" handler) (.parameter ⟨"handler", handler⟩)

/-- A subscription to the form's button, and its scale. -/
def reads (button handler : Ty) (zero : UInt64) : Expr :=
  .new Click.both
    [subscription (.field (some (form zero)) ⟨"Form", "button", button, ⟨0⟩⟩) handler,
      .field (some (form zero)) ⟨"Form", "scale", .prim .double, ⟨0⟩⟩]

def known (button handler : Ty) (zero : UInt64) : Expr :=
  .new Click.both
    [subscription (.constant .null button) handler, .constant (.double zero) (.prim .double)]

/-- A button of another category, without the event. -/
def otherButton : Ty := .named ⟨"Button", .interface, [], some "Item"⟩

def otherHandler : Ty := .named ⟨"EventHandler", .delegate, [Click.event], none⟩

/-- Nothing but the sign bit. -/
def minusZero : UInt64 := 0x8000000000000000

theorem valid_reads {button handler : Ty} (hbutton : button.name = "Button")
    (hhandler : handler.isDelegate = true) (zero : UInt64) : (reads button handler zero).Valid := by
  have hform : (form zero).Valid := Expr.valid_of_operands rfl (List.forall_mem_nil _)
  have hread : ∀ f, (Expr.field (some (form zero)) f).Valid := by
    intro f
    exact Expr.valid_of_operands rfl (List.forall_mem_singleton.mpr hform)
  have hparameter : (Expr.parameter ⟨"handler", handler⟩).Valid :=
    Expr.valid_of_operands rfl (List.forall_mem_nil _)
  have hsubscription : ∀ receiver : Expr, receiver.Valid → receiver.type.name = "Button" →
      (subscription receiver handler).Valid := by
    intro receiver hreceiver hname
    refine Expr.valid_iff.mpr ⟨⟨hname.symm, hhandler⟩, List.forall_mem_cons.mpr ⟨hreceiver, ?_⟩⟩
    exact List.forall_mem_singleton.mpr hparameter
  refine Expr.valid_of_operands rfl (List.forall_mem_cons.mpr ⟨?_, ?_⟩)
  · exact hsubscription _ (hread _) hbutton
  · exact List.forall_mem_singleton.mpr (hread _)

/-- Both zeros are read, and both subscriptions stay. -/
theorem same_passes_reads :
    (reads buttonType handlerType 0).Valid ∧
      (reads otherButton otherHandler minusZero).Valid ∧
      (reads buttonType handlerType 0).same (reads otherButton otherHandler minusZero) = true ∧
      (reads buttonType handlerType 0).foldFieldReads = known buttonType handlerType 0 ∧
      (reads otherButton otherHandler minusZero).foldFieldReads =
        known otherButton otherHandler minusZero ∧
      (known buttonType handlerType 0).same (known otherButton otherHandler minusZero) = true ∧
      (reads buttonType handlerType 0).reduceEvents.same
        (reads otherButton otherHandler minusZero).reduceEvents = true := by
  have hvalid : (reads buttonType handlerType 0).Valid := valid_reads rfl rfl 0
  have hvalid' : (reads otherButton otherHandler minusZero).Valid := valid_reads rfl rfl minusZero
  have hsame : (reads buttonType handlerType 0).same
      (reads otherButton otherHandler minusZero) = true := rfl
  have hread : (reads buttonType handlerType 0).foldFieldReads =
      known buttonType handlerType 0 := rfl
  have hread' : (reads otherButton otherHandler minusZero).foldFieldReads =
      known otherButton otherHandler minusZero := rfl
  obtain ⟨hfolded, hreduced⟩ := same_passes hvalid hvalid' hsame
  rw [hread, hread'] at hfolded
  exact ⟨hvalid, hvalid', hsame, hread, hread', hfolded, hreduced⟩

end TwiceDescribed

end CilLift
