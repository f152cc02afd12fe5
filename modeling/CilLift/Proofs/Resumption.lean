import CilLift.Proofs.Refusal
import CilLift.Proofs.Run
import Mathlib.Data.List.Induction

/-! # Executions that go on after faults

    A machine can be called again after it has refused a call and after it has
    returned. Such an execution reaches states that lifting never reaches, for
    instance one in which operands are gone that a refused operation had
    already taken.

    `after_cases` says once what a single call can do: it moves to another
    instruction, makes a step, or is refused and takes operands. What no call
    takes away from a machine is collected in `Keeps`.

    Main statement: `machineAfter_invariants` says that after any calls the
    stack is within its bound, the frame of the method is still there, and the
    outcome is the function of the last `ret` that succeeded.
-/

namespace CilLift

/-! ## Calls that are made in any case -/

namespace Consumer

variable {σ : Type}

/-- The state after a call, whether it is accepted or refused. -/
def after (c : Consumer σ) (s : σ) (call : Call) : σ :=
  match (c.call call).run s with
  | .ok _ s' => s'
  | .error _ s' => s'

/-- The state after some calls, each of them made whatever became of those
    before it. -/
def afterAll (c : Consumer σ) (s : σ) (calls : List Call) : σ :=
  calls.foldl c.after s

variable {c : Consumer σ} {s s' : σ} {call : Call}

theorem after_of_ok (h : (c.call call).run s = .ok () s') : c.after s call = s' := by
  unfold after
  rw [h]

theorem after_of_error {fault : Fault} (h : (c.call call).run s = .error fault s') :
    c.after s call = s' := by
  unfold after
  rw [h]

theorem afterAll_append (c : Consumer σ) (s : σ) (first second : List Call) :
    c.afterAll s (first ++ second) = c.afterAll (c.afterAll s first) second :=
  List.foldl_append

end Consumer

namespace Machine

variable {m m' m'' : Machine} {op : Operation}

/-- Everything that one call can do to a machine. -/
theorem after_cases (m : Machine) (call : Call) :
    (∃ offset i, call = .observe offset i ∧ consumer.after m call = m.atOffset offset) ∨
      (∃ op, call = .perform op ∧ Step op m (consumer.after m call)) ∨
      ∃ op taken, call = .perform op ∧ (∀ m', ¬ Step op m m') ∧
        consumer.after m call = m.dropItems taken := by
  cases call with
  | observe offset i => exact .inl ⟨offset, i, rfl, rfl⟩
  | perform op =>
    right
    cases hrun : (consumer.call (.perform op)).run m with
    | ok _ next =>
      left
      refine ⟨op, rfl, ?_⟩
      rw [Consumer.after_of_ok hrun]
      exact execute_ok_iff.mp hrun
    | error fault next =>
      right
      obtain ⟨taken, -, rfl⟩ := execute_losesAtMost op m fault next hrun
      refine ⟨op, taken, rfl, ?_, Consumer.after_of_error hrun⟩
      intro m' hstep
      have hok : (consumer.call (.perform op)).run m = .ok () m' := execute_ok_iff.mpr hstep
      rw [hrun] at hok
      cases hok

/-! ## What no call takes away -/

/-- The second machine has the frame of the first, has kept within the bound of
    its stack if the first did, and every local variable that the first had set
    is set. -/
structure Keeps (m m' : Machine) : Prop where
  capacity : m'.stack.capacity = m.stack.capacity
  depth : m.stack.items.length ≤ m.stack.capacity → m'.stack.items.length ≤ m'.stack.capacity
  locals : m'.locals.length = m.locals.length
  isSet : ∀ (index : Nat) (e : Expr), m.locals[index]? = some (some e) →
    ∃ e', m'.locals[index]? = some (some e')
  arguments : m'.arguments.length = m.arguments.length
  receiver : m'.receiver.isSome = m.receiver.isSome
  parameters : m'.parameters = m.parameters
  resultType : m'.resultType = m.resultType

namespace Keeps

theorem refl (m : Machine) : Keeps m m :=
  ⟨rfl, fun h => h, rfl, fun _ e h => ⟨e, h⟩, rfl, rfl, rfl, rfl⟩

theorem trans (h : Keeps m m') (h' : Keeps m' m'') : Keeps m m'' where
  capacity := h'.capacity.trans h.capacity
  depth hle := h'.depth (h.depth hle)
  locals := h'.locals.trans h.locals
  isSet index e hset := by
    obtain ⟨e', hset'⟩ := h.isSet index e hset
    exact h'.isSet index e' hset'
  arguments := h'.arguments.trans h.arguments
  receiver := h'.receiver.trans h.receiver
  parameters := h'.parameters.trans h.parameters
  resultType := h'.resultType.trans h.resultType

/-- A machine that differs only in the values on its stack keeps what there
    was, if they are not too many. -/
theorem withItems {items : List Expr}
    (h : m.stack.items.length ≤ m.stack.capacity → items.length ≤ m.stack.capacity) :
    Keeps m (m.withItems items) :=
  ⟨rfl, h, rfl, fun _ e hset => ⟨e, hset⟩, rfl, rfl, rfl, rfl⟩

theorem dropItems (m : Machine) (count : Nat) : Keeps m (m.dropItems count) := by
  apply Keeps.withItems
  intro hle
  rw [List.length_drop]
  omega

theorem replace {operands : List Expr} {node : Expr} (h : m.Replaces operands node m') :
    Keeps m m' := by
  obtain ⟨rest, -, hroom, rfl⟩ := h
  apply Keeps.withItems
  intro _
  exact hroom

/-- Storing an argument puts a value where there was one. -/
theorem setArgument {index : Nat} {value : Expr} (h : m.setArgument index value = .ok m') :
    Keeps m m' := by
  rcases setArgument_ok_iff.mp h with ⟨hreceiver, -, rfl⟩ | ⟨slot, -, -, rfl⟩
  · exact ⟨rfl, fun h => h, rfl, fun _ e h => ⟨e, h⟩, rfl, hreceiver.symm, rfl, rfl⟩
  · exact ⟨rfl, fun h => h, rfl, fun _ e h => ⟨e, h⟩, List.length_set, rfl, rfl, rfl⟩

/-- Storing a local variable sets it and unsets no other. -/
theorem setLocalVariable {index : Nat} {value : Expr}
    (h : m.setLocalVariable index value = .ok m') : Keeps m m' := by
  obtain ⟨hlt, rfl⟩ := setLocalVariable_ok_iff.mp h
  refine ⟨rfl, fun h => h, List.length_set, ?_, rfl, rfl, rfl, rfl⟩
  intro other e hset
  by_cases heq : index = other
  · subst heq
    exact ⟨value, by simp [hlt]⟩
  · exact ⟨e, by simpa [List.getElem?_set_ne heq] using hset⟩

theorem step (h : Step op m m') : Keeps m m' := by
  cases h with
  | nop => exact .refl m
  | dup e rest hitems hput => exact .replace hput
  | pop e rest hitems =>
    rw [← dropItems_one hitems]
    exact .dropItems m 1
  | ret body hitems =>
    have hempty : Keeps m (m.withItems []) := .withItems fun _ => Nat.zero_le _
    -- The result is no part of what is kept.
    exact ⟨hempty.capacity, hempty.depth, rfl, hempty.isSet, rfl, rfl, rfl, rfl⟩
  | load e hloaded hput => exact .replace hput
  | storeArgument e rest hitems hset =>
    rw [← dropItems_one hitems] at hset
    exact (Keeps.dropItems m 1).trans (.setArgument hset)
  | storeLocal e rest hitems hset =>
    rw [← dropItems_one hitems] at hset
    exact (Keeps.dropItems m 1).trans (.setLocalVariable hset)
  | build hbuilds hput => exact .replace hput

theorem after (m : Machine) (call : Call) : Keeps m (consumer.after m call) := by
  rcases after_cases m call with ⟨offset, i, -, heq⟩ | ⟨op, -, hstep⟩ | ⟨op, taken, -, -, heq⟩
  · rw [heq]
    exact ⟨rfl, fun h => h, rfl, fun _ e h => ⟨e, h⟩, rfl, rfl, rfl, rfl⟩
  · exact .step hstep
  · rw [heq]
    exact .dropItems m taken

theorem afterAll (m : Machine) (calls : List Call) : Keeps m (consumer.afterAll m calls) := by
  induction calls generalizing m with
  | nil => exact .refl m
  | cons call calls ih => exact (Keeps.after m call).trans (ih (consumer.after m call))

end Keeps

/-! ## Returning -/

/-- Executing `ret` succeeds and takes `body` from the stack. -/
def Returns (m : Machine) (body : Expr) : Prop :=
  (∃ m', Machine.pop.run m = .ok body m') ∧ ∃ m', (execute .ret).run m = .ok () m'

theorem returns_iff {body : Expr} : m.Returns body ↔ m.stack.items = [body] := by
  unfold Returns
  simp only [pop_ok_iff, execute_ok_iff, step_ret_iff]
  constructor
  · intro h
    obtain ⟨⟨_, rest, hpopped, -⟩, _, value, hitems, -⟩ := h
    rw [hitems] at hpopped
    cases hpopped
    exact hitems
  · intro h
    exact ⟨⟨_, [], h, rfl⟩, _, body, h, rfl⟩

/-- A step leaves the offset as it was, and the result too unless it is that of
    `ret`. -/
theorem Step.offset_result (h : Step op m m') :
    m'.offset = m.offset ∧ (op ≠ .ret → m'.result = m.result) := by
  cases h with
  | nop | pop => exact ⟨rfl, fun _ => rfl⟩
  | ret => exact ⟨rfl, fun hop => absurd rfl hop⟩
  | dup e rest hitems hput | load e hloaded hput | build hbuilds hput =>
    obtain ⟨_, -, -, rfl⟩ := hput
    exact ⟨rfl, fun _ => rfl⟩
  | storeArgument e rest hitems hset =>
    obtain ⟨-, -, _, _, rfl⟩ := setArgument_ok hset
    exact ⟨rfl, fun _ => rfl⟩
  | storeLocal e rest hitems hset =>
    obtain ⟨-, rfl⟩ := setLocalVariable_ok_iff.mp hset
    exact ⟨rfl, fun _ => rfl⟩

theorem result_after_ret {body : Expr} (h : m.Returns body) :
    (consumer.after m (.perform .ret)).result =
      some (.lambda m.parameters body m.resultType) := by
  have hstep := step_ret_iff.mpr ⟨body, returns_iff.mp h, rfl⟩
  have hok : (consumer.call (.perform .ret)).run m = .ok () _ := execute_ok_iff.mpr hstep
  rw [Consumer.after_of_ok hok]

/-- A call that does not return successfully leaves the result as it was. -/
theorem result_after {call : Call} (h : ∀ body, call = .perform .ret → ¬ m.Returns body) :
    (consumer.after m call).result = m.result := by
  rcases after_cases m call with ⟨offset, i, -, heq⟩ | ⟨op, rfl, hstep⟩ | ⟨op, taken, -, -, heq⟩
  · rw [heq]
    rfl
  · apply hstep.offset_result.2
    rintro rfl
    obtain ⟨body, hitems, -⟩ := step_ret_iff.mp hstep
    exact h body rfl (returns_iff.mpr hitems)
  · rw [heq]
    rfl

end Machine

/-- Where the instruction stands that the call announces, if it announces
    one. -/
def Call.offset? : Call → Option Nat
  | .observe offset _ => some offset
  | .perform _ => none

/-- Where the instruction stands that the calls announced last, or zero. -/
def lastOffset (calls : List Call) : Nat :=
  (calls.filterMap Call.offset?).getLast?.getD 0

theorem lastOffset_concat (calls : List Call) (call : Call) :
    lastOffset (calls ++ [call]) = call.offset?.getD (lastOffset calls) := by
  unfold lastOffset
  rw [List.filterMap_append]
  cases hoffset : call.offset? with
  | none => simp [hoffset]
  | some offset => simp [hoffset]

theorem Machine.offset_after (m : Machine) (call : Call) :
    (consumer.after m call).offset = call.offset?.getD m.offset := by
  rcases after_cases m call with ⟨offset, i, rfl, heq⟩ | ⟨op, rfl, hstep⟩ |
    ⟨op, taken, rfl, -, heq⟩
  · rw [heq]
    rfl
  · exact hstep.offset_result.1
  · rw [heq]
    rfl

/-! ## Whole executions -/

namespace Delegate

variable {d : Delegate} {calls : List Call} {call : Call} {n : Nat} {body : Expr}

/-- The machine of the delegate after some calls, each of them made whatever
    became of those before it. -/
def machineAfter (d : Delegate) (calls : List Call) : Machine :=
  Machine.consumer.afterAll (.initial d) calls

/-- At call number `n`, `ret` is executed with success and returns `body`. -/
def ReturnsAt (d : Delegate) (calls : List Call) (n : Nat) (body : Expr) : Prop :=
  calls[n]? = some (.perform .ret) ∧ (d.machineAfter (calls.take n)).Returns body

theorem machineAfter_concat (d : Delegate) (calls : List Call) (call : Call) :
    d.machineAfter (calls ++ [call]) = Machine.consumer.after (d.machineAfter calls) call :=
  Machine.consumer.afterAll_append _ calls [call]

theorem ReturnsAt.lt_length (h : d.ReturnsAt calls n body) : n < calls.length :=
  (List.getElem?_eq_some_iff.mp h.1).1

/-- A return among some calls and one more is among the former or is the
    latter. -/
theorem returnsAt_concat_iff :
    d.ReturnsAt (calls ++ [call]) n body ↔
      d.ReturnsAt calls n body ∨
        n = calls.length ∧ call = .perform .ret ∧ (d.machineAfter calls).Returns body := by
  unfold ReturnsAt
  rcases Nat.lt_trichotomy n calls.length with hlt | rfl | hgt
  · rw [List.getElem?_append_left hlt, List.take_append_of_le_length (by omega)]
    have hne : n ≠ calls.length := by omega
    simp [hne]
  · simp
  · have hend : (calls ++ [call])[n]? = none := by simp; omega
    have hend' : calls[n]? = none := by simp; omega
    have hne : n ≠ calls.length := by omega
    simp [hend, hend', hne]

/-- The offset of the machine is that of the instruction announced last. -/
theorem offset_machineAfter (d : Delegate) (calls : List Call) :
    (d.machineAfter calls).offset = lastOffset calls := by
  induction calls using List.reverseRecOn with
  | nil => rfl
  | append_singleton calls call ih =>
    rw [machineAfter_concat, Machine.offset_after, lastOffset_concat, ih]

/-- The result is the function of the last `ret` that succeeded, and there is
    none if no `ret` did. -/
theorem result_machineAfter (d : Delegate) (calls : List Call) :
    (∃ n body, d.ReturnsAt calls n body ∧ (∀ k other, d.ReturnsAt calls k other → k ≤ n) ∧
        (d.machineAfter calls).result = some (.lambda d.method.parameters body d.type)) ∨
      (∀ n body, ¬ d.ReturnsAt calls n body) ∧ (d.machineAfter calls).result = none := by
  -- The calls are taken from the front, so that the last one decides.
  induction calls using List.reverseRecOn with
  | nil =>
    right
    refine ⟨?_, rfl⟩
    intro n body h
    exact absurd h.lt_length (Nat.not_lt_zero n)
  | append_singleton calls call ih =>
    rw [machineAfter_concat]
    have hkeeps := Machine.Keeps.afterAll (.initial d) calls
    by_cases hret : ∃ body, call = .perform .ret ∧ (d.machineAfter calls).Returns body
    · obtain ⟨body, rfl, hreturns⟩ := hret
      left
      refine ⟨calls.length, body, returnsAt_concat_iff.mpr (.inr ⟨rfl, rfl, hreturns⟩), ?_, ?_⟩
      · intro k other hk
        have hlt := hk.lt_length
        rw [List.length_append, List.length_singleton] at hlt
        omega
      · rw [Machine.result_after_ret hreturns]
        exact congrArg₂ (fun ps type => some (Expr.lambda ps body type))
          hkeeps.parameters hkeeps.resultType
    · -- The returns are those that were there before.
      have hsame : ∀ n body, d.ReturnsAt (calls ++ [call]) n body ↔ d.ReturnsAt calls n body := by
        intro n body
        rw [returnsAt_concat_iff]
        constructor
        · rintro (h | ⟨-, hcall, hreturns⟩)
          · exact h
          · exact absurd ⟨body, hcall, hreturns⟩ hret
        · exact .inl
      have hresult : (Machine.consumer.after (d.machineAfter calls) call).result =
          (d.machineAfter calls).result :=
        Machine.result_after fun body hcall hreturns => hret ⟨body, hcall, hreturns⟩
      simp only [hsame, hresult]
      exact ih

end Delegate

/-- Whatever calls are made, and whether or not they are refused, the stack
    stays within its bound; arguments, local variables and the receiver stay as
    many as they were, and what was set stays set; the signature does not
    change. The outcome is the function of the last `ret` that succeeded, and
    if none did it is the fault of a missing return at the instruction
    announced last. -/
theorem machineAfter_invariants (d : Delegate) (calls : List Call) :
    (d.machineAfter calls).stack.depth ≤ d.method.maxStack ∧
    (d.machineAfter calls).locals.length = d.method.locals.length ∧
    (d.machineAfter calls).arguments.length = d.method.parameters.length ∧
    ((d.machineAfter calls).receiver.isSome = true ↔ d.method.isStatic = false) ∧
    (∀ (n index : Nat) (e : Expr),
      (d.machineAfter (calls.take n)).locals[index]? = some (some e) →
        ∃ e', (d.machineAfter calls).locals[index]? = some (some e')) ∧
    (d.machineAfter calls).parameters = d.method.parameters ∧
    (d.machineAfter calls).resultType = d.type ∧
    ((∃ n body, d.ReturnsAt calls n body ∧ (∀ k other, d.ReturnsAt calls k other → k ≤ n) ∧
        (d.machineAfter calls).outcome = .ok (.lambda d.method.parameters body d.type)) ∨
      (∀ n body, ¬ d.ReturnsAt calls n body) ∧
        (d.machineAfter calls).outcome = .error (.missingReturn (lastOffset calls))) := by
  have hkeeps : Machine.Keeps (.initial d) (d.machineAfter calls) := .afterAll _ calls
  have hdepth := hkeeps.depth (Nat.zero_le _)
  rw [hkeeps.capacity] at hdepth
  refine ⟨hdepth, ?_, ?_, ?_, ?_, hkeeps.parameters, hkeeps.resultType, ?_⟩
  · rw [hkeeps.locals]
    exact List.length_map _
  · rw [hkeeps.arguments]
    exact List.length_map _
  · rw [hkeeps.receiver]
    show d.receiver.isSome = true ↔ _
    unfold Delegate.receiver
    cases d.method.isStatic <;> simp
  · intro n index e hset
    have hrest : d.machineAfter calls =
        Machine.consumer.afterAll (d.machineAfter (calls.take n)) (calls.drop n) := by
      rw [Delegate.machineAfter, Delegate.machineAfter, ← Consumer.afterAll_append,
        List.take_append_drop]
    rw [hrest]
    exact (Machine.Keeps.afterAll _ _).isSet index e hset
  · unfold Machine.outcome
    rw [d.offset_machineAfter calls]
    rcases d.result_machineAfter calls with ⟨n, body, hat, hlast, hresult⟩ | ⟨hnone, hresult⟩
    · left
      rw [hresult]
      exact ⟨n, body, hat, hlast, rfl⟩
    · right
      rw [hresult]
      exact ⟨hnone, rfl⟩

/-! ### A return that is tried three times -/

namespace Retried

def delegate : Delegate where
  type := .prim .object
  method :=
    { declaringType := .prim .object
      parameters := []
      attributes := ⟨0x0010⟩
      code := []
      maxStack := 2
      locals := []
      initLocals := false }
  target := none

def number (v : Int32) : Expr := .constant (.int32 v) (.prim .int32)

/-- The first `ret` finds no value, the second finds two and takes one. -/
def calls : List Call :=
  [.observe 7 .ret, .perform .ret, .perform (.ldcI4 1), .perform (.ldcI4 2), .perform .ret,
    .perform .ret]

theorem returnsAt_calls : delegate.ReturnsAt calls 5 (number 1) :=
  ⟨rfl, Machine.returns_iff.mpr rfl⟩

theorem invariants_calls :
    (delegate.machineAfter calls).stack.depth ≤ 2 ∧
      (delegate.machineAfter calls).outcome = .ok (.lambda [] (number 1) (.prim .object)) := by
  obtain ⟨hdepth, -, -, -, -, -, -, houtcome⟩ := machineAfter_invariants delegate calls
  refine ⟨hdepth, ?_⟩
  rcases houtcome with ⟨n, body, hat, hlast, houtcome⟩ | ⟨hnone, -⟩
  · have hle : 5 ≤ n := hlast 5 (number 1) returnsAt_calls
    have hlt : n < 6 := hat.lt_length
    have hn : n = 5 := by omega
    subst hn
    have hitems := Machine.returns_iff.mp hat.2
    rw [Machine.returns_iff.mp returnsAt_calls.2] at hitems
    cases hitems
    exact houtcome
  · exact absurd returnsAt_calls (hnone 5 (number 1))

end Retried

end CilLift
