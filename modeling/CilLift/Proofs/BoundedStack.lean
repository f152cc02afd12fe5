import CilLift.Proofs.Step

/-! # Operand stacks as bounded lists

    An operand stack is asked for things one after the other, also after it has
    refused something. Beside it stands the plain list of the values that were
    pushed and not taken again, the first pushed first, together with a bound on
    its length.

    `Holds` relates the two. `Holds.serve` says that one request gets the same
    answer from both and leaves them related, and `Holds.serveAll` says so of
    any number of requests.

    Main statement: `stack_refines_list` says that a stack answers like the
    list, that it refuses exactly what exceeds its capacity or its depth and is
    not changed by that, and that taking several values at once is taking them
    one by one, which pushing them again undoes. `Machine.run_ask` says that the
    stack of a machine is such a stack, used in place.
-/

namespace CilLift.OperandStack

variable {α σ : Type}

/-! ## Requests -/

/-- What can be asked of a stack. -/
inductive Request (α : Type) where
  | push (value : α)
  | pop
  | peek
  | popN (count : Nat)

/-- The values that are handed out, the first pushed first, or why the request
    is refused. -/
abbrev Answer (α : Type) := Except StackFault (List α)

/-- The values that a request hands out and the stack that it leaves. -/
def carryOut (s : OperandStack α) : Request α → Except StackFault (List α × OperandStack α)
  | .push value => (s.push value).map fun s' => ([], s')
  | .pop => s.pop.map fun taken => ([taken.1], taken.2)
  | .peek => s.peek.map fun value => ([value], s)
  | .popN count => s.popN count

/-- The answer to a request and the stack after it. -/
def serve (s : OperandStack α) (request : Request α) : Answer α × OperandStack α :=
  match s.carryOut request with
  | .ok (values, s') => (.ok values, s')
  | .error fault => (.error fault, s)

/-- The answers to some requests, each of them made whatever became of those
    before it, and the state after them. -/
def serveAll (serve : σ → Request α → Answer α × σ) : σ → List (Request α) → List (Answer α) × σ
  | s, [] => ([], s)
  | s, request :: requests =>
    let (answer, s') := serve s request
    let (answers, s'') := serveAll serve s' requests
    (answer :: answers, s'')

section Equations

variable (capacity : Nat) (items : List α)

theorem serve_push (value : α) :
    (OperandStack.mk capacity items).serve (.push value) =
      if items.length < capacity then (.ok [], ⟨capacity, value :: items⟩)
      else (.error (.overflow capacity), ⟨capacity, items⟩) := by
  by_cases h : items.length < capacity
  · simp [serve, carryOut, push, h, Except.map]
  · simp [serve, carryOut, push, h, Except.map]

@[simp] theorem serve_pop_cons (value : α) :
    (OperandStack.mk capacity (value :: items)).serve .pop = (.ok [value], ⟨capacity, items⟩) :=
  rfl

@[simp] theorem serve_peek_cons (value : α) :
    (OperandStack.mk capacity (value :: items)).serve .peek =
      (.ok [value], ⟨capacity, value :: items⟩) := rfl

theorem serve_popN (count : Nat) :
    (OperandStack.mk capacity items).serve (.popN count) =
      if count ≤ items.length then
        (.ok (items.take count).reverse, ⟨capacity, items.drop count⟩)
      else (.error (.underflow count items.length), ⟨capacity, items⟩) := by
  by_cases h : count ≤ items.length
  · simp [serve, carryOut, popN, h]
  · simp [serve, carryOut, popN, h]

end Equations

/-! ## Bounded lists -/

/-- What a list of at most `capacity` values answers and what becomes of it. The
    last value is the one that was pushed last. -/
def serveList (capacity : Nat) (values : List α) : Request α → Answer α × List α
  | .push value =>
    if values.length < capacity then (.ok [], values ++ [value])
    else (.error (.overflow capacity), values)
  | .pop =>
    match values.getLast? with
    | some value => (.ok [value], values.dropLast)
    | none => (.error (.underflow 1 0), values)
  | .peek =>
    match values.getLast? with
    | some value => (.ok [value], values)
    | none => (.error (.underflow 1 0), values)
  | .popN count =>
    let kept := values.length - count
    if count ≤ values.length then (.ok (values.drop kept), values.take kept)
    else (.error (.underflow count values.length), values)

/-- The values on the stack, the first pushed first. -/
def contents (s : OperandStack α) : List α :=
  s.items.reverse

/-- The stack holds the values of the list and has its bound. -/
structure Holds (capacity : Nat) (s : OperandStack α) (values : List α) : Prop where
  eq : s = ⟨capacity, values.reverse⟩
  length_le : values.length ≤ capacity

variable {capacity : Nat} {s : OperandStack α} {values : List α}

theorem holds_empty (capacity : Nat) : Holds capacity (empty capacity : OperandStack α) [] :=
  ⟨rfl, Nat.zero_le capacity⟩

theorem Holds.contents_eq (h : Holds capacity s values) : s.contents = values := by
  rw [h.eq]
  exact List.reverse_reverse values

theorem Holds.depth_le (h : Holds capacity s values) : s.depth ≤ s.capacity := by
  rw [h.eq, depth_mk, List.length_reverse]
  exact h.length_le

theorem Holds.capacity_eq (h : Holds capacity s values) : s.capacity = capacity :=
  congrArg OperandStack.capacity h.eq

/-- A stack and a list that hold the same answer alike, and then still hold the
    same. -/
theorem Holds.serve (h : Holds capacity s values) (request : Request α) :
    (s.serve request).1 = (serveList capacity values request).1 ∧
      Holds capacity (s.serve request).2 (serveList capacity values request).2 := by
  obtain ⟨rfl, hle⟩ := h
  cases request with
  | push value =>
    rw [serve_push, serveList, List.length_reverse]
    split
    · refine ⟨rfl, by simp, ?_⟩
      rw [List.length_append, List.length_singleton]
      omega
    · exact ⟨rfl, rfl, hle⟩
  | pop =>
    rcases List.eq_nil_or_concat values with rfl | ⟨below, last, rfl⟩
    · exact ⟨rfl, rfl, hle⟩
    · rw [List.concat_eq_append, List.length_append] at hle
      simp only [serveList, List.concat_eq_append, List.reverse_append, List.reverse_singleton,
        List.singleton_append, serve_pop_cons, List.getLast?_append, List.getLast?_singleton,
        Option.some_or, List.dropLast_concat, true_and]
      exact ⟨rfl, by omega⟩
  | peek =>
    rcases List.eq_nil_or_concat values with rfl | ⟨below, last, rfl⟩
    · exact ⟨rfl, rfl, hle⟩
    · rw [List.concat_eq_append] at hle ⊢
      simp only [serveList, List.reverse_append, List.reverse_singleton, List.singleton_append,
        serve_peek_cons, List.getLast?_append, List.getLast?_singleton, Option.some_or, true_and]
      exact ⟨by simp, hle⟩
  | popN count =>
    rw [serve_popN, serveList, List.length_reverse]
    split
    · refine ⟨by simp [List.take_reverse], by simp [List.drop_reverse], ?_⟩
      rw [List.length_take]
      omega
    · exact ⟨rfl, rfl, hle⟩

/-- So they do after any requests. -/
theorem Holds.serveAll (h : Holds capacity s values) (requests : List (Request α)) :
    (serveAll OperandStack.serve s requests).1 =
        (serveAll (serveList capacity) values requests).1 ∧
      Holds capacity (serveAll OperandStack.serve s requests).2
        (serveAll (serveList capacity) values requests).2 := by
  induction requests generalizing s values with
  | nil => exact ⟨rfl, h⟩
  | cons request requests ih =>
    obtain ⟨hanswer, hholds⟩ := h.serve request
    obtain ⟨hanswers, hholds'⟩ := ih hholds
    refine ⟨?_, hholds'⟩
    simp only [OperandStack.serveAll, hanswer, hanswers]

/-! ## Refusals -/

section Refusals

variable {fault : StackFault}

theorem push_error_iff {value : α} :
    s.push value = .error fault ↔ s.capacity ≤ s.depth ∧ fault = .overflow s.capacity := by
  unfold push
  split
  case isTrue hroom => exact ⟨nofun, fun h => absurd hroom (Nat.not_lt.mpr h.1)⟩
  case isFalse hroom => simp [Nat.not_lt.mp hroom, eq_comm]

theorem pop_error_iff : s.pop = .error fault ↔ s.depth = 0 ∧ fault = .underflow 1 0 := by
  obtain ⟨capacity, items⟩ := s
  cases items <;> simp [pop, eq_comm]

theorem peek_error_iff : s.peek = .error fault ↔ s.depth = 0 ∧ fault = .underflow 1 0 := by
  obtain ⟨capacity, items⟩ := s
  cases items <;> simp [peek, eq_comm]

theorem popN_error_iff {count : Nat} :
    s.popN count = .error fault ↔ s.depth < count ∧ fault = .underflow count s.depth := by
  unfold popN
  split
  case isTrue hle => exact ⟨nofun, fun h => absurd hle (Nat.not_le.mpr h.1)⟩
  case isFalse hle => simp [Nat.not_le.mp hle, eq_comm]

/-- A refused request leaves the stack as it was. -/
theorem serve_of_refused {request : Request α} (h : (s.serve request).1 = .error fault) :
    (s.serve request).2 = s := by
  unfold serve at h ⊢
  cases hdone : s.carryOut request with
  | ok done =>
    rw [hdone] at h
    cases h
  | error => rfl

end Refusals

/-! ## Several values at once -/

theorem popN_ok {count : Nat} {rest : OperandStack α} (h : s.popN count = .ok (values, rest)) :
    values.length = count ∧ s = ⟨rest.capacity, values.reverse ++ rest.items⟩ := by
  unfold popN at h
  split at h
  case isTrue hle =>
    cases h
    refine ⟨?_, by simp⟩
    rw [List.length_reverse, List.length_take]
    exact Nat.min_eq_left hle
  case isFalse => cases h

/-- Single pops hand out the values from the top downwards. -/
theorem serveAll_pops (capacity : Nat) (taken items : List α) :
    serveAll serve ⟨capacity, taken ++ items⟩ (List.replicate taken.length .pop) =
      (taken.map fun value => .ok [value], ⟨capacity, items⟩) := by
  induction taken with
  | nil => rfl
  | cons value taken ih => simp [List.replicate_succ, serveAll, ih]

theorem serveAll_pushes {items : List α} (h : values.length + items.length ≤ capacity) :
    serveAll serve ⟨capacity, items⟩ (values.map .push) =
      (values.map fun _ => .ok [], ⟨capacity, values.reverse ++ items⟩) := by
  induction values generalizing items with
  | nil => rfl
  | cons value values ih =>
    rw [List.length_cons] at h
    have hroom : items.length < capacity := by omega
    have hfits : values.length + (value :: items).length ≤ capacity := by
      rw [List.length_cons]
      omega
    simp [serveAll, serve_push, hroom, ih hfits]

/-- Within its bound, a stack that hands out several values is left as by single
    pops, and takes the values back. -/
theorem serveAll_of_popN {count : Nat} {rest : OperandStack α} (hbound : s.depth ≤ s.capacity)
    (h : s.popN count = .ok (values, rest)) :
    serveAll serve s (List.replicate count .pop) =
        (values.reverse.map fun value => .ok [value], rest) ∧
      serveAll serve rest (values.map .push) = (values.map fun _ => .ok [], s) := by
  obtain ⟨rfl, rfl⟩ := popN_ok h
  constructor
  · rw [← List.length_reverse]
    exact serveAll_pops rest.capacity values.reverse rest.items
  · rw [depth_mk, List.length_append, List.length_reverse] at hbound
    exact serveAll_pushes hbound

/-! ## Any requests -/

/-- After any requests, refused ones among them, a stack has answered like a
    bounded list and holds its values. It refuses a push exactly at full depth,
    and a pop or a peek exactly where there is too little, and is not changed by
    what it refuses. Taking several values is taking them one by one in the
    opposite order, and pushing them again restores the stack. -/
theorem stack_refines_list (capacity : Nat) (requests : List (Request α)) :
    let s := (serveAll serve (empty capacity) requests).2
    (serveAll serve (empty capacity) requests).1 =
        (serveAll (serveList capacity) [] requests).1 ∧
      s.contents = (serveAll (serveList capacity) [] requests).2 ∧
      s.depth ≤ capacity ∧
      (∀ value fault, s.push value = .error fault ↔
        s.depth = capacity ∧ fault = .overflow capacity) ∧
      (∀ fault, s.pop = .error fault ↔ s.depth = 0 ∧ fault = .underflow 1 0) ∧
      (∀ fault, s.peek = .error fault ↔ s.depth = 0 ∧ fault = .underflow 1 0) ∧
      (∀ count fault, s.popN count = .error fault ↔
        s.depth < count ∧ fault = .underflow count s.depth) ∧
      (∀ request fault, (s.serve request).1 = .error fault → (s.serve request).2 = s) ∧
      ∀ count values rest, s.popN count = .ok (values, rest) →
        serveAll serve s (List.replicate count .pop) =
            (values.reverse.map fun value => .ok [value], rest) ∧
          serveAll serve rest (values.map .push) = (values.map fun _ => .ok [], s) := by
  intro s
  have hempty : Holds capacity (empty capacity : OperandStack α) [] := holds_empty capacity
  obtain ⟨hanswers, hholds⟩ := hempty.serveAll requests
  have hbound : s.depth ≤ s.capacity := hholds.depth_le
  have hcapacity : s.capacity = capacity := hholds.capacity_eq
  refine ⟨hanswers, hholds.contents_eq, hcapacity ▸ hbound, ?_, fun _ => pop_error_iff,
    fun _ => peek_error_iff, fun _ _ => popN_error_iff, fun _ _ => serve_of_refused,
    fun _ _ _ => serveAll_of_popN hbound⟩
  intro value fault
  rw [push_error_iff, hcapacity]
  constructor
  · rintro ⟨hle, rfl⟩
    exact ⟨by omega, rfl⟩
  · rintro ⟨heq, rfl⟩
    exact ⟨Nat.le_of_eq heq.symm, rfl⟩

/-! ### A stack that is filled up -/

namespace Filled

/-- More is asked for than there is, and more is pushed than there is room for. -/
def requests : List (Request Nat) :=
  [.pop, .push 1, .push 2, .peek, .push 3, .push 4, .popN 4]

def filled : OperandStack Nat := ⟨3, [3, 2, 1]⟩

def lowest : OperandStack Nat := ⟨3, [1]⟩

theorem refines_requests :
    serveAll serve (empty 3) requests =
        ([.error (.underflow 1 0), .ok [], .ok [], .ok [2], .ok [], .error (.overflow 3),
          .error (.underflow 4 3)], filled) ∧
      filled.contents = (serveAll (serveList 3) [] requests).2 ∧
      (filled.serve (.push 4)).2 = filled ∧
      filled.popN 2 = .ok ([2, 3], lowest) ∧
      serveAll serve filled [.pop, .pop] = ([.ok [3], .ok [2]], lowest) ∧
      serveAll serve lowest [.push 2, .push 3] = ([.ok [], .ok []], filled) := by
  have hserved : serveAll serve (empty 3) requests =
      ([.error (.underflow 1 0), .ok [], .ok [], .ok [2], .ok [], .error (.overflow 3),
        .error (.underflow 4 3)], filled) := rfl
  have hpopN : filled.popN 2 = .ok ([2, 3], lowest) := rfl
  obtain ⟨-, hcontents, -, -, -, -, -, hrefused, htaken⟩ := stack_refines_list 3 requests
  obtain ⟨hpops, hpushes⟩ := htaken 2 [2, 3] lowest hpopN
  exact ⟨hserved, hcontents, hrefused (.push 4) (.overflow 3) rfl, hpopN, hpops, hpushes⟩

end Filled

end CilLift.OperandStack

/-! ## The stack of a machine -/

namespace CilLift.Machine

open OperandStack (Request)

/-- Asks the stack of the machine. -/
def ask : Request Expr → MachineM (List Expr)
  | .push e => do
    push e
    return []
  | .pop => return [← pop]
  | .peek => return [← peek]
  | .popN count => popN count

/-- A machine uses its stack in place: it gets the answers of the stack and is
    left with the stack that they leave. -/
theorem run_ask (request : Request Expr) (m : Machine) :
    (ask request).run m =
      match m.stack.serve request with
      | (.ok values, stack) => .ok values { m with stack }
      | (.error cause, stack) => .error (.stack m.offset cause) { m with stack } := by
  obtain ⟨⟨capacity, items⟩, locals, parameters, arguments, receiver, type, offset, result⟩ := m
  cases request with
  | push e =>
    rw [OperandStack.serve_push, ask, EStateM.run_bind, run_push]
    by_cases hroom : items.length < capacity
    · rw [if_pos hroom, if_pos hroom]
      rfl
    · rw [if_neg hroom, if_neg hroom]
  | pop => cases items <;> rfl
  | peek => cases items <;> rfl
  | popN count =>
    rw [OperandStack.serve_popN, ask, run_popN]
    by_cases hle : count ≤ items.length
    · rw [if_pos hle, if_pos hle]
      rfl
    · rw [if_neg hle, if_neg hle]

end CilLift.Machine
