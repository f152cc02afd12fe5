import CilLift.Proofs.Run
import CilLift.Proofs.Tree

/-! # Order of evaluation

    A label says what one node of an expression or one operation of a method
    computes, apart from its operands. Code that neither copies, drops nor
    stores values computes each node of its expression once.

    Main statement: `lift_labels` says that the labels of such code, in the
    order in which it is executed, are the labels of the lifted body in
    post-order. Nothing is lost, done twice or moved.
-/

namespace CilLift

/-! ## Labels -/

/-- What a node or an operation computes, apart from its operands. -/
inductive Label where
  | value (v : Value)
  | parameter (p : Param)
  | staticField (f : FieldRef)
  | field (f : FieldRef)
  | binary (op : BinaryOp)
  | negate | not
  | convert (target : Ty)
  | typeAs (target : Ty)
  | arrayLength
  | call (method : MethodRef)
  | new (ctor : ConstructorRef)
  | newArray (element : Ty)
  | index

namespace Expr

/-- The label of the node, if it is one that code can compute. -/
def label? : Expr → Option Label
  | .constant value _ => some (.value value)
  | .parameter p => some (.parameter p)
  | .field none f => some (.staticField f)
  | .field (some _) f => some (.field f)
  | .binary op _ _ _ => some (.binary op)
  | .unary .negate _ _ => some .negate
  | .unary .not _ _ => some .not
  | .unary .convert _ type => some (.convert type)
  | .unary .typeAs _ type => some (.typeAs type)
  | .unary .arrayLength _ _ => some .arrayLength
  | .call _ method _ => some (.call method)
  | .new ctor _ => some (.new ctor)
  | .newArray element _ => some (.newArray element)
  | .index .. => some .index
  | .lambda .. | .property .. | .indexer .. | .assign .. | .event .. => none

/-- The labels of all nodes in post-order. -/
def labels (e : Expr) : List (Option Label) :=
  e.postorder.map label?

theorem labels_eq (e : Expr) : e.labels = e.operands.flatMap labels ++ [e.label?] := by
  unfold labels
  rw [postorder_eq, List.map_append, List.map_flatMap]
  rfl

theorem labels_of_operands_eq_nil {e : Expr} (h : e.operands = []) : e.labels = [e.label?] := by
  rw [labels_eq, h]
  rfl

end Expr

namespace Operation

/-- The label of an operation in the method of a delegate, if it computes
    something there. A local variable has the default value of its type. -/
def label? (d : Delegate) : Operation → Option Label
  | .ldnull => some (.value .null)
  | .ldcI4 v => some (.value (.int32 v))
  | .ldcI8 v => some (.value (.int64 v))
  | .ldcR4 bits => some (.value (.single bits))
  | .ldcR8 bits => some (.value (.double bits))
  | .ldstr text => some (.value (.string text))
  | .ldarg index | .ldarga index => d.argumentNodes[index.toNat]?.bind Expr.label?
  | .ldloc index | .ldloca index =>
    d.method.locals[index.toNat]?.map fun type => .value (.default type)
  | .ldsfld f | .ldsflda f => some (.staticField f)
  | .ldfld f | .ldflda f => some (.field f)
  | .arith a => some (.binary a.operator)
  | .neg => some .negate
  | .not => some .not
  | .conv c => some (.convert c.type)
  | .box _ => some (.convert (.prim .object))
  | .castclass type => some (.convert type)
  | .isinst type => some (.typeAs type)
  | .ldlen => some .arrayLength
  | .call method | .callvirt method => some (.call method)
  | .newobj ctor => some (.new ctor)
  | .newarr element => some (.newArray element)
  | .ldelem _ => some .index
  | .nop | .dup | .pop | .ret | .starg _ | .stloc _ => none

/-- Whether the operation leaves every value where it is: it does not copy,
    drop or store one. -/
def isStraight : Operation → Bool
  | .dup | .pop | .starg _ | .stloc _ => false
  | _ => true

/-- Whether the operation neither computes nor moves anything. -/
def isSilent : Operation → Bool
  | .nop | .ret => true
  | _ => false

end Operation

/-! ## Steps -/

/-- The type that a constant is given for a parameter is no part of its
    label. -/
theorem labels_passed (e : Expr) (p : Param) : (Machine.passed e p).labels = e.labels := by
  unfold Machine.passed
  split
  · split
    · rfl
    · rw [Expr.labels_eq, Expr.labels_eq]
      rfl
  · rfl

theorem flatMap_labels_zipWith_passed {es : List Expr} {ps : List Param}
    (hlen : es.length = ps.length) :
    (es.zipWith Machine.passed ps).flatMap Expr.labels = es.flatMap Expr.labels := by
  rw [List.flatMap_def, Machine.map_zipWith_passed labels_passed hlen, ← List.flatMap_def]

/-- The labels of a node that an operation builds are those of the operands
    and then the label of the operation. -/
theorem Operation.Builds.labels_eq {op : Operation} {operands : List Expr} {node : Expr}
    (h : op.Builds operands node) (d : Delegate) :
    ∃ label, op.label? d = some label ∧
      node.labels = operands.flatMap Expr.labels ++ [some label] := by
  cases h with
  | staticField f hop =>
    refine ⟨.staticField f, ?_, Expr.labels_eq _⟩
    rcases hop with rfl | rfl <;> rfl
  | field f e hop =>
    refine ⟨.field f, ?_, Expr.labels_eq _⟩
    rcases hop with rfl | rfl <;> rfl
  | callStatic method es hop hstatic hlen =>
    refine ⟨.call method, ?_, ?_⟩
    · rcases hop with rfl | rfl <;> rfl
    · rw [Expr.labels_eq, ← flatMap_labels_zipWith_passed hlen]
      rfl
  | callInstance method receiver es hop hstatic hlen =>
    refine ⟨.call method, ?_, ?_⟩
    · rcases hop with rfl | rfl <;> rfl
    · rw [Expr.labels_eq, List.flatMap_cons, ← flatMap_labels_zipWith_passed hlen]
      rfl
  | newobj ctor es hlen =>
    refine ⟨.new ctor, rfl, ?_⟩
    rw [Expr.labels_eq, ← flatMap_labels_zipWith_passed hlen]
    rfl
  | _ => exact ⟨_, rfl, Expr.labels_eq _⟩

/-- Arguments are leaves that have labels. -/
theorem labels_argumentNodes {d : Delegate} {e : Expr} (h : e ∈ d.argumentNodes) :
    ∃ label, e.label? = some label ∧ e.labels = [some label] := by
  rcases Delegate.argumentNodes_cases h with ⟨p, -, rfl⟩ | ⟨-, -, rfl⟩ | ⟨value, rfl⟩
  · exact ⟨.parameter p, rfl, Expr.labels_of_operands_eq_nil rfl⟩
  · exact ⟨.parameter _, rfl, Expr.labels_of_operands_eq_nil rfl⟩
  · exact ⟨.value value, rfl, Expr.labels_of_operands_eq_nil rfl⟩

/-! ## Histories -/

/-- The labels of operations in the order in which they are executed, those
    that compute nothing left out. -/
def operationLabels (d : Delegate) (ops : List Operation) : List (Option Label) :=
  (ops.filter fun op => !op.isSilent).map (Operation.label? d)

theorem operationLabels_append (d : Delegate) (ops others : List Operation) :
    operationLabels d (ops ++ others) = operationLabels d ops ++ operationLabels d others := by
  unfold operationLabels
  rw [List.filter_append, List.map_append]

/-- An operation with a label is not silent. -/
theorem operationLabels_singleton {d : Delegate} {op : Operation} {label : Label}
    (h : op.label? d = some label) : operationLabels d [op] = [some label] := by
  have hsilent : op.isSilent = false := by
    cases op with
    | nop | ret => cases h
    | _ => rfl
  simp [operationLabels, hsilent, h]

/-- Nothing was stored, and what lies on the stack has all labels of the
    operations executed so far and no other, the first executed first. -/
structure History (d : Delegate) (done : List Operation) (m : Machine) : Prop where
  arguments : m.argumentValues = d.argumentNodes
  locals : m.locals = d.method.locals.map d.method.initialLocal
  labels : ∃ labels : List Label, operationLabels d done = labels.map some ∧
    m.stack.items.reverse.flatMap Expr.labels = labels.map some

namespace History

variable {d : Delegate} {done : List Operation} {m m' : Machine} {op : Operation}

/-- A node takes the place of its operands and adds the label of its
    operation. -/
theorem replace (h : History d done m) {operands : List Expr} {node : Expr} {label : Label}
    (hop : op.label? d = some label)
    (hnode : node.labels = operands.flatMap Expr.labels ++ [some label])
    (hput : m.Replaces operands node m') : History d (done ++ [op]) m' := by
  obtain ⟨rest, hitems, -, rfl⟩ := hput
  obtain ⟨labels, hdone, hstack⟩ := h.labels
  -- The operands are the last on the stack, so their labels are the latest.
  rw [hitems, List.reverse_append, List.reverse_reverse, List.flatMap_append] at hstack
  refine ⟨h.arguments, h.locals, labels ++ [label], ?_, ?_⟩
  · rw [operationLabels_append, operationLabels_singleton hop, hdone, List.map_append]
    rfl
  · rw [Machine.withItems_items, List.reverse_cons, List.flatMap_append, List.flatMap_singleton,
      hnode, ← List.append_assoc, hstack, List.map_append]
    rfl

/-- What is loaded is an argument or the default value of a local variable. -/
theorem load (h : History d done m) {e : Expr} (hloaded : m.loaded? op = some e) :
    ∃ label, op.label? d = some label ∧ e.labels = [some label] := by
  cases op with
  | ldarg index | ldarga index =>
    have he : d.argumentNodes[index.toNat]? = some e := h.arguments ▸ hloaded
    obtain ⟨label, hlabel, hlabels⟩ := labels_argumentNodes (List.mem_of_getElem? he)
    refine ⟨label, ?_, hlabels⟩
    show d.argumentNodes[index.toNat]?.bind Expr.label? = some label
    rw [he]
    exact hlabel
  | ldloc index | ldloca index =>
    -- Nothing was stored, so the variable is as it was at the start.
    have he : m.locals[index.toNat]? = some (some e) := Option.join_eq_some_iff.mp hloaded
    rw [h.locals, List.getElem?_map, Option.map_eq_some_iff] at he
    obtain ⟨type, htype, hinitial⟩ := he
    rw [Method.initialLocal_eq_some hinitial]
    refine ⟨.value (.default type), ?_, Expr.labels_of_operands_eq_nil rfl⟩
    show Option.map (fun type => Label.value (.default type)) d.method.locals[index.toNat]? = _
    rw [htype]
    rfl
  | _ => cases hloaded

theorem step (hop : op.isStraight = true ∧ op ≠ .ret) (h : History d done m)
    (hstep : m.Step op m') : History d (done ++ [op]) m' := by
  cases hstep with
  | nop =>
    refine ⟨h.arguments, h.locals, ?_⟩
    rw [operationLabels_append]
    simpa [operationLabels, Operation.isSilent] using h.labels
  | ret => exact absurd rfl hop.2
  | dup | pop | storeArgument | storeLocal => cases hop.1
  | load e hloaded hput =>
    obtain ⟨label, hlabel, he⟩ := h.load hloaded
    exact h.replace hlabel he hput
  | build hbuilds hput =>
    obtain ⟨label, hlabel, hnode⟩ := hbuilds.labels_eq d
    exact h.replace hlabel hnode hput

theorem initial (d : Delegate) : History d [] (.initial d) :=
  ⟨rfl, rfl, [], rfl, rfl⟩

end History

/-! ## Lifting -/

/-- Where code that copies, drops and stores nothing is lifted, the labels of
    its operations in the order of execution are the labels of the lifted body
    in post-order, and all of them are there. -/
theorem lift_labels {r : Resolver} {d : Delegate} {ps : List Param} {body : Expr} {type : Ty}
    (hlift : d.lift r = .ok (.lambda ps body type))
    (hstraight : ∀ op ∈ (Trace.ofCode r d.method.code).operations, op.isStraight = true) :
    ∃ labels : List Label,
      operationLabels d (Trace.ofCode r d.method.code).operations = labels.map some ∧
        body.postorder.map Expr.label? = labels.map some := by
  obtain ⟨ops, m, body', -, hops, hret, hrun, hitems, hlambda⟩ := lift_ok_iff.mp hlift
  obtain ⟨-, rfl, -⟩ := Expr.lambda.inj hlambda
  rw [hops] at hstraight ⊢
  have hallowed : ∀ op ∈ ops, op.isStraight = true ∧ op ≠ .ret := by
    intro op hmem
    refine ⟨hstraight op (List.mem_append_left _ hmem), ?_⟩
    intro hop
    exact hret (hop ▸ hmem)
  have hsteps : ∀ done op m m', op.isStraight = true ∧ op ≠ .ret → History d done m →
      Machine.Step op m m' → History d (done ++ [op]) m' := fun _ _ _ _ => History.step
  obtain ⟨-, -, labels, hdone, hstack⟩ := hrun.invariant hsteps hallowed (History.initial d)
  refine ⟨labels, ?_, ?_⟩
  -- The last operation is `ret`, and the stack holds only the body.
  · rw [operationLabels_append]
    simpa [operationLabels, Operation.isSilent] using hdone
  · simpa [hitems, Expr.labels] using hstack

/-! ### A call on a bound receiver -/

namespace Cut

def substring : MethodRef where
  declaringType := "String"
  name := "Substring"
  parameters := [⟨"start", .prim .int32⟩, ⟨"length", .prim .int32⟩]
  returnType := .prim .string
  attributes := ⟨0⟩

def resolver : Resolver :=
  (SymbolTable.ofList [(⟨0x0a000001⟩, .method substring)]).resolver

def code : List Instruction :=
  [⟨.ldargS, (0 : UInt8)⟩, ⟨.ldlocS, (0 : UInt8)⟩, ⟨.nop, ()⟩, ⟨.ldcI4S, (2 : Int8)⟩,
    ⟨.ldargS, (1 : UInt8)⟩, ⟨.arith .sub, ()⟩, ⟨.callvirt, (⟨0x0a000001⟩ : Token)⟩, .ret]

def delegate : Delegate where
  type := .prim .object
  method :=
    { declaringType := .prim .string
      parameters := [⟨"x", .prim .int32⟩]
      attributes := ⟨0⟩
      code := Instruction.encodeAll code
      maxStack := 4
      locals := [.prim .int32]
      initLocals := true }
  target := some (.string "abc")

def body : Expr :=
  .call (some (.constant (.string "abc") (.prim .string))) substring
    [.constant (.int32 0) (.prim .int32),
      .binary .subtract (.constant (.int32 2) (.prim .int32)) (.parameter ⟨"x", .prim .int32⟩)
        (.prim .int32)]

theorem operations_code :
    (Trace.ofCode resolver delegate.method.code).operations =
      [.ldarg 0, .ldloc 0, .nop, .ldcI4 2, .ldarg 1, .arith .sub, .callvirt substring, .ret] := by
  have htrace : Trace.ofCode resolver delegate.method.code = _ :=
    Trace.ofCode_encodeAll resolver code
  rw [htrace]
  rfl

theorem lift_code :
    delegate.lift resolver = .ok (.lambda [⟨"x", .prim .int32⟩] body (.prim .object)) := by
  have hrun : Machine.Run
      [.ldarg 0, .ldloc 0, .nop, .ldcI4 2, .ldarg 1, .arith .sub, .callvirt substring]
      (.initial delegate) _ :=
    .load rfl (by decide) <|
    .load rfl (by decide) <|
    .cons (.nop _) <|
    .build (.ldcI4 2) rfl (by decide) <|
    .load rfl (by decide) <|
    .build (.arith .sub _ _) rfl (by decide) <|
    .build (.callInstance substring _ [_, _] (.inr rfl) rfl rfl) rfl (by decide) <|
    .nil _
  exact lift_of_run rfl rfl rfl hrun rfl

theorem labels_delegate :
    delegate.lift resolver = .ok (.lambda [⟨"x", .prim .int32⟩] body (.prim .object)) ∧
      (∀ op ∈ (Trace.ofCode resolver delegate.method.code).operations, op.isStraight = true) ∧
      body.postorder.map Expr.label? =
        [.value (.string "abc"), .value (.int32 0), .value (.int32 2),
          .parameter ⟨"x", .prim .int32⟩, .binary .subtract, .call substring].map some := by
  have hstraight : ∀ op ∈ (Trace.ofCode resolver delegate.method.code).operations,
      op.isStraight = true := by
    rw [operations_code]
    simp [Operation.isStraight]
  obtain ⟨labels, hoperations, hbody⟩ := lift_labels lift_code hstraight
  refine ⟨lift_code, hstraight, ?_⟩
  rw [hbody, ← hoperations, operations_code]
  rfl

end Cut

end CilLift
