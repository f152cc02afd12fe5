import CilLift.Proofs.ExplicitReceiver
import CilLift.Proofs.Tree
import CilLift.Proofs.Typing

/-! # Bound receivers

    Binding a delegate to a receiver puts a constant in the places of the
    parameter `this`. A constant that is passed to a parameter which does not
    accept its type takes the parameter's type, so what stands in a place of
    `this` depends on whether the place is an argument (`Expr.bound`).

    The function that binds commutes with everything that operations build, so
    it carries the run of the unbound method over to the bound one
    (`Run.mapValues`). Both fail alike, as types decide about faults and the
    bound value shows in no type.

    Main statement: `lift_target` compares what the bound and the unbound
    method are lifted to.
-/

namespace CilLift

/-! ## Binding a parameter -/

namespace Expr

section Bound

open Classical

variable (this : Param) (value : Value)

mutual

/-- The expression with the value, typed as the parameter, in every place of
    the parameter. -/
noncomputable def bound : Expr → Expr
  | .constant v type => .constant v type
  | .parameter p => if p = this then .constant value this.type else .parameter p
  | .field receiver f => .field (boundOption receiver) f
  | .binary op left right type => .binary op left.bound right.bound type
  | .unary op operand type => .unary op operand.bound type
  | .call receiver method arguments =>
    .call (boundOption receiver) method (boundArguments method.parameters arguments)
  | .new ctor arguments => .new ctor (boundArguments ctor.parameters arguments)
  | .newArray element length => .newArray element length.bound
  | .index array position type => .index array.bound position.bound type
  | .lambda parameters body type => .lambda parameters body.bound type
  | .property receiver declaringType name type =>
    .property (boundOption receiver) declaringType name type
  | .indexer receiver declaringType name arguments type =>
    .indexer receiver.bound declaringType name (boundArguments [] arguments) type
  | .assign target assigned => .assign target.bound assigned.bound
  | .event subscription receiver e handler => .event subscription receiver.bound e handler.bound

noncomputable def boundOption : Option Expr → Option Expr
  | none => none
  | some e => some e.bound

/-- Arguments that are passed for parameters. Where the parameter itself is
    passed and its type is not accepted, the value takes the type that is asked
    for. -/
noncomputable def boundArguments : List Param → List Expr → List Expr
  | _, [] => []
  | [], e :: es => e.bound :: boundArguments [] es
  | p :: ps, e :: es =>
    (if e = .parameter this ∧ p.type.accepts this.type = false then .constant value p.type
      else e.bound) :: boundArguments ps es

end

end Bound

end Expr

namespace Expr

variable {this : Param} {value : Value}

theorem type_bound (e : Expr) : (e.bound this value).type = e.type := by
  induction e using operand_induction with
  | node e ih =>
    cases e with
    | parameter p =>
      by_cases hp : p = this
      · rw [hp, bound, if_pos rfl]
        rfl
      · rw [bound, if_neg hp]
    | assign target assigned => exact ih target (by simp [operands])
    | _ => rfl

/-- Binding an argument that is passed is passing the bound argument. -/
theorem boundArguments_passed_cons (e : Expr) (p : Param) (es : List Expr) (ps : List Param) :
    boundArguments this value (p :: ps) (Machine.passed e p :: es) =
      Machine.passed (e.bound this value) p :: boundArguments this value ps es := by
  have hother : ∀ a : Expr, a ≠ .parameter this →
      boundArguments this value (p :: ps) (a :: es) =
        a.bound this value :: boundArguments this value ps es := by
    intro a ha
    rw [boundArguments, if_neg (fun h => ha h.1)]
  cases e with
  | constant v type =>
    by_cases haccepts : p.type.accepts type
    · simp [Machine.passed, haccepts, bound, hother]
    · simp [Machine.passed, haccepts, bound, hother]
  | parameter q =>
    by_cases hq : q = this
    · subst hq
      by_cases haccepts : p.type.accepts q.type
      · simp [Machine.passed, haccepts, bound, boundArguments]
      · simp [Machine.passed, haccepts, bound, boundArguments]
    · simp [Machine.passed, hq, bound, hother]
  | _ => exact hother _ (by simp [Machine.passed])

theorem boundArguments_zipWith_passed {es : List Expr} {ps : List Param}
    (hlen : es.length = ps.length) :
    boundArguments this value ps (es.zipWith Machine.passed ps) =
      (es.map (bound this value)).zipWith Machine.passed ps := by
  induction es generalizing ps with
  | nil => simp [boundArguments]
  | cons e es ih =>
    cases ps with
    | nil => cases hlen
    | cons p ps =>
      rw [List.zipWith_cons_cons, boundArguments_passed_cons, ih (Nat.succ.inj hlen)]
      rfl

end Expr

/-! ## Runs on other values -/

/-- Operations build from replaced operands what replaces the node. -/
def CommutesWithBuilding (f : Expr → Expr) : Prop :=
  ∀ (op : Operation) (operands : List Expr) (node : Expr),
    op.Builds operands node → op.Builds (operands.map f) (f node)

theorem commutesWithBuilding_bound (this : Param) (value : Value) :
    CommutesWithBuilding (Expr.bound this value) := by
  intro op operands node h
  cases h with
  | ldnull => exact .ldnull
  | ldcI4 v => exact .ldcI4 v
  | ldcI8 v => exact .ldcI8 v
  | ldcR4 bits => exact .ldcR4 bits
  | ldcR8 bits => exact .ldcR8 bits
  | ldstr text => exact .ldstr text
  | staticField f hop => exact .staticField f hop
  | field f e hop => exact .field f _ hop
  | conv c e => exact .conv c _
  | box type e => exact .box type _
  | castclass type e => exact .castclass type _
  | isinst type e => exact .isinst type _
  | newarr element e => exact .newarr element _
  -- These nodes take their types from operands, which keep theirs.
  | arith a left right =>
    simpa only [List.map_cons, List.map_nil, Expr.apply, Expr.bound, Expr.type_bound] using
      Operation.Builds.arith a (left.bound this value) (right.bound this value)
  | neg e =>
    simpa only [List.map_cons, List.map_nil, Expr.bound, Expr.type_bound] using
      Operation.Builds.neg (e.bound this value)
  | not e =>
    simpa only [List.map_cons, List.map_nil, Expr.bound, Expr.type_bound] using
      Operation.Builds.not (e.bound this value)
  | ldlen e harray => exact .ldlen _ (by rw [Expr.type_bound]; exact harray)
  | ldelem type array position =>
    simpa only [List.map_cons, List.map_nil, Expr.bound, Expr.type_bound] using
      Operation.Builds.ldelem type (array.bound this value) (position.bound this value)
  -- Calls pass their arguments once more.
  | callStatic method es hop hstatic hlen =>
    rw [Expr.bound, Expr.boundArguments_zipWith_passed hlen]
    exact .callStatic method _ hop hstatic (by rw [List.length_map, hlen])
  | callInstance method receiver es hop hstatic hlen =>
    rw [Expr.bound, Expr.boundArguments_zipWith_passed hlen]
    exact .callInstance method _ _ hop hstatic (by rw [List.length_map, hlen])
  | newobj ctor es hlen =>
    rw [Expr.bound, Expr.boundArguments_zipWith_passed hlen]
    exact .newobj ctor _ (by rw [List.length_map, hlen])

namespace Machine

/-- The machine with every value replaced. -/
def mapValues (f : Expr → Expr) (m : Machine) : Machine :=
  { m with
    stack := m.stack.map f
    locals := m.locals.map (Option.map f)
    arguments := m.arguments.map f
    receiver := m.receiver.map f }

variable {f : Expr → Expr} {m m' : Machine} {op : Operation} {ops : List Operation}

@[simp] theorem mapValues_items (f : Expr → Expr) (m : Machine) :
    (m.mapValues f).stack.items = m.stack.items.map f := rfl

@[simp] theorem mapValues_argumentValues (f : Expr → Expr) (m : Machine) :
    (m.mapValues f).argumentValues = m.argumentValues.map f := by
  unfold argumentValues mapValues
  cases m.receiver <;> simp

theorem Replaces.mapValues {operands : List Expr} {node : Expr}
    (h : m.Replaces operands node m') :
    (m.mapValues f).Replaces (operands.map f) (f node) (m'.mapValues f) := by
  obtain ⟨rest, hitems, hroom, rfl⟩ := h
  refine ⟨rest.map f, ?_, ?_, rfl⟩
  · rw [mapValues_items, hitems, List.map_append, List.map_reverse]
  · rw [List.length_map]
    exact hroom

theorem loaded?_mapValues (f : Expr → Expr) (m : Machine) (op : Operation) :
    (m.mapValues f).loaded? op = (m.loaded? op).map f := by
  cases op with
  | ldarg index | ldarga index =>
    simp only [loaded?, mapValues_argumentValues, List.getElem?_map]
  | ldloc index | ldloca index =>
    simp only [loaded?, mapValues, List.getElem?_map]
    rcases m.locals[index.toNat]? with _ | _ | e <;> rfl
  | _ => rfl

theorem setArgument_mapValues {index : Nat} {value : Expr}
    (h : m.setArgument index value = .ok m') :
    (m.mapValues f).setArgument index (f value) = .ok (m'.mapValues f) := by
  have hreceiver : (m.mapValues f).receiver = m.receiver.map f := rfl
  have harguments : (m.mapValues f).arguments = m.arguments.map f := rfl
  rw [setArgument_ok_iff, hreceiver, harguments, Option.isSome_map, List.length_map]
  rcases setArgument_ok_iff.mp h with ⟨hsome, hzero, rfl⟩ | ⟨slot, hslot, hlt, rfl⟩
  · exact .inl ⟨hsome, hzero, rfl⟩
  · refine .inr ⟨slot, ?_, hlt, ?_⟩
    · rw [Option.toList_map, List.length_map]
      exact hslot
    · simp [Machine.mapValues]

/-- A function that commutes with everything that operations build carries the
    steps of a machine over to the machine with other values. -/
theorem Step.mapValues (hf : CommutesWithBuilding f) (hret : op ≠ .ret) (h : Step op m m') :
    Step op (m.mapValues f) (m'.mapValues f) := by
  cases h with
  | nop => exact .nop _
  | dup e rest hitems hput =>
    exact .dup (f e) (rest.map f) (by simp [hitems]) hput.mapValues
  | pop e rest hitems => exact .pop (f e) (rest.map f) (by simp [hitems])
  | ret => exact absurd rfl hret
  | load e hloaded hput =>
    refine .load (f e) ?_ hput.mapValues
    rw [loaded?_mapValues, hloaded]
    rfl
  | storeArgument e rest hitems hset =>
    exact .storeArgument (f e) (rest.map f) (by simp [hitems]) (setArgument_mapValues hset)
  | storeLocal e rest hitems hset =>
    refine .storeLocal (f e) (rest.map f) (by simp [hitems]) ?_
    obtain ⟨hlt, rfl⟩ := setLocalVariable_ok_iff.mp hset
    refine setLocalVariable_ok_iff.mpr ⟨?_, ?_⟩
    · simpa [Machine.mapValues] using hlt
    · simp [Machine.mapValues, withItems, OperandStack.map]
  | build hbuilds hput => exact .build (hf _ _ _ hbuilds) hput.mapValues

theorem Run.mapValues (hf : CommutesWithBuilding f) (h : Run ops m m') (hret : .ret ∉ ops) :
    Run ops (m.mapValues f) (m'.mapValues f) := by
  induction h with
  | nil => exact .nil _
  | cons first rest ih =>
    obtain ⟨hne, hret⟩ := not_or.mp (mt List.mem_cons.mpr hret)
    exact .cons (first.mapValues hf (Ne.symm hne)) (ih hret)

end Machine

/-! ## Lifting -/

namespace Delegate

/-- The delegate without a bound receiver. -/
def unbound (d : Delegate) : Delegate :=
  { d with target := none }

/-- The delegate bound to a receiver. -/
def boundTo (d : Delegate) (value : Value) : Delegate :=
  { d with target := some value }

end Delegate

variable {d : Delegate} {r : Resolver}

theorem initial_boundTo (value : Value) (hstatic : d.method.isStatic = false)
    (hthis : ∀ p ∈ d.method.parameters, p.name ≠ "this") :
    (Machine.initial d.unbound).mapValues (Expr.bound d.method.this value) =
      Machine.initial (d.boundTo value) := by
  have hlocals : (Machine.initial d.unbound).locals.map
      (Option.map (Expr.bound d.method.this value)) =
        (Machine.initial (d.boundTo value)).locals := by
    simp only [Machine.initial, Delegate.unbound, Delegate.boundTo, List.map_map]
    apply List.map_congr_left
    intro type _
    cases hlocal : d.method.initialLocal type with
    | none => simp [hlocal]
    | some e =>
      have he := Method.initialLocal_eq_some hlocal
      subst he
      simp [hlocal, Expr.bound]
  have harguments : (Machine.initial d.unbound).arguments.map (Expr.bound d.method.this value) =
      (Machine.initial (d.boundTo value)).arguments := by
    simp only [Machine.initial, Delegate.unbound, Delegate.boundTo, List.map_map]
    apply List.map_congr_left
    intro p hp
    have hne : p ≠ d.method.this := by
      rintro rfl
      exact hthis _ hp rfl
    simp [Expr.bound, hne]
  have hreceiver : (Machine.initial d.unbound).receiver.map (Expr.bound d.method.this value) =
      (Machine.initial (d.boundTo value)).receiver := by
    simp [Machine.initial, Delegate.receiver, Delegate.unbound, Delegate.boundTo, hstatic,
      Method.this, Expr.bound]
  unfold Machine.mapValues
  rw [hlocals, harguments, hreceiver]
  rfl

/-- A method that is lifted without a receiver is lifted with one, to the
    function in which the value is bound. -/
theorem lift_boundTo (value : Value) (hstatic : d.method.isStatic = false)
    (hthis : ∀ p ∈ d.method.parameters, p.name ≠ "this") {tree : Expr}
    (h : d.unbound.lift r = .ok tree) :
    (d.boundTo value).lift r = .ok (tree.bound d.method.this value) := by
  obtain ⟨ops, m, body, hfault, hops, hret, hrun, hitems, rfl⟩ := lift_ok_iff.mp h
  have hbound := hrun.mapValues (commutesWithBuilding_bound d.method.this value) hret
  rw [initial_boundTo value hstatic hthis] at hbound
  have hitems' : (m.mapValues (Expr.bound d.method.this value)).stack.items =
      [body.bound d.method.this value] := by
    rw [Machine.mapValues_items, hitems]
    rfl
  exact lift_ok_iff.mpr ⟨ops, _, _, hfault, hops, hret, hbound, hitems', rfl⟩

/-- Types decide with which fault a method fails to be lifted. -/
theorem lift_error_iff_typeOf {fault : Fault} :
    d.lift r = .error fault ↔ d.typeOf r = .error fault := by
  rcases lift_typeOf_cases r d with ⟨_, hlift, htype⟩ | ⟨m, hlift, htype⟩
  · rw [hlift, htype]
    simp
  · cases hresult : m.result with
    | none =>
      rw [hlift, htype, types_outcome_of_none hresult]
      simp [Machine.outcome, hresult]
    | some tree =>
      have htree : d.lift r = .ok tree := by simp [hlift, Machine.outcome, hresult]
      -- Whatever is lifted is a function, so a type is left at `ret`.
      obtain ⟨_, _, body, -, -, -, -, -, rfl⟩ := lift_ok_iff.mp htree
      rw [htree, htype, types_outcome_of_lambda hresult]
      simp

/-- A static method is lifted alike whatever it is bound to. An instance method
    fails to be lifted with the same faults bound and unbound, for what it is
    bound to shows in no type; otherwise it is lifted to the function in which
    the value stands in the places of `this`. -/
theorem lift_target (r : Resolver) (d : Delegate) (value : Value) :
    (d.method.isStatic = true → (d.boundTo value).lift r = d.unbound.lift r) ∧
    (d.method.isStatic = false → (∀ p ∈ d.method.parameters, p.name ≠ "this") →
      (∀ fault, (d.boundTo value).lift r = .error fault ↔ d.unbound.lift r = .error fault) ∧
      ∀ tree, d.unbound.lift r = .ok tree →
        (d.boundTo value).lift r = .ok (tree.bound ⟨"this", d.method.declaringType⟩ value)) := by
  refine ⟨?_, ?_⟩
  · intro hstatic
    have hinitial : Machine.initial (d.boundTo value) = Machine.initial d.unbound := by
      simp [Machine.initial, Delegate.receiver, Delegate.boundTo, Delegate.unbound, hstatic]
    unfold Delegate.lift
    rw [hinitial]
    rfl
  · intro hstatic hthis
    have htypes : (d.boundTo value).typeOf r = d.unbound.typeOf r := rfl
    refine ⟨?_, fun tree => lift_boundTo value hstatic hthis⟩
    intro fault
    rw [lift_error_iff_typeOf, lift_error_iff_typeOf, htypes]

/-! ### The counter bound to a value -/

namespace Counter

def zero : Value := .ofFields counterType [("count", .int32 0)]

def boundBody : Expr :=
  .binary .add
    (.call (some (.constant zero counterType)) meet
      [.constant zero counterType, .constant zero (.prim .string)])
    (.parameter step) (.prim .int32)

theorem lift_delegate_bound :
    delegate.unbound.lift resolver = .ok (.lambda [step] body (.prim .object)) ∧
      (delegate.boundTo zero).lift resolver =
        .ok (.lambda [step] boundBody (.prim .object)) := by
  have hlift : delegate.unbound.lift resolver = .ok (.lambda [step] body (.prim .object)) :=
    lift_code
  have hobject : (Ty.prim .object).accepts counterType = true := rfl
  have hstring : (Ty.prim .string).accepts counterType = false := rfl
  have hbody : body.bound ⟨"this", counterType⟩ zero = boundBody := by
    simp [body, this, step, meet, Expr.bound, Expr.boundOption, Expr.boundArguments, hobject,
      hstring, boundBody]
  have hthis : ∀ p ∈ delegate.method.parameters, p.name ≠ "this" := by decide
  refine ⟨hlift, ?_⟩
  rw [((lift_target resolver delegate zero).2 rfl hthis).2 _ hlift]
  show Except.ok (Expr.lambda [step] (body.bound ⟨"this", counterType⟩ zero) (.prim .object)) = _
  rw [hbody]

end Counter

end CilLift
