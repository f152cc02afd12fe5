import CilLift.Proofs.Trace

/-! # Views of effects

    A view forgets part of a state. An effect mirrors another through a view
    when it does to the view of every state what the other does to the state
    itself: it succeeds with the view of the same outcome, or stops with the
    same fault in the view of the same state.

    Main statements: mirroring goes through sequences of effects
    (`Mirrors.bind`), and a consumer that mirrors another call by call mirrors
    it on all code (`Consumer.Mirrors.feed`).
-/

namespace CilLift

variable {ε σ τ α β γ δ : Type}

/-! ## Results -/

/-- A result whose value and state are seen through functions. -/
def mapResult (value : α → β) (view : σ → τ) : EStateM.Result ε σ α → EStateM.Result ε τ β
  | .ok a s => .ok (value a) (view s)
  | .error fault s => .error fault (view s)

@[simp] theorem mapResult_ok (value : α → β) (view : σ → τ) (a : α) (s : σ) :
    mapResult value view (.ok a s : EStateM.Result ε σ α) = .ok (value a) (view s) := rfl

@[simp] theorem mapResult_error (value : α → β) (view : σ → τ) (fault : ε) (s : σ) :
    mapResult value view (.error fault s : EStateM.Result ε σ α) = .error fault (view s) := rfl

/-! ## Effects -/

/-- The effect `y` does to the view of a state what `x` does to the state. -/
def Mirrors (view : σ → τ) (value : α → β) (x : EStateM ε σ α) (y : EStateM ε τ β) : Prop :=
  ∀ s, y.run (view s) = mapResult value view (x.run s)

namespace Mirrors

variable {view : σ → τ} {value : α → β}

theorem pure (a : α) :
    Mirrors view value (Pure.pure a : EStateM ε σ α) (Pure.pure (value a)) := by
  intro s
  rfl

theorem throw (fault : ε) :
    Mirrors view value (MonadExcept.throw fault : EStateM ε σ α) (MonadExcept.throw fault) := by
  intro s
  rfl

theorem get : Mirrors view view (MonadState.get : EStateM ε σ σ) MonadState.get := by
  intro s
  rfl

/-- A mirrored effect may be followed by effects that mirror each other on
    every value it can have. -/
theorem bind {x : EStateM ε σ α} {y : EStateM ε τ β} {f : α → EStateM ε σ γ}
    {g : β → EStateM ε τ δ} {value' : γ → δ} (hx : Mirrors view value x y)
    (hf : ∀ a, Mirrors view value' (f a) (g (value a))) :
    Mirrors view value' (x >>= f) (y >>= g) := by
  intro s
  rw [EStateM.run_bind, EStateM.run_bind, hx s]
  cases x.run s with
  | ok a t => exact hf a t
  | error fault t => rfl

end Mirrors

/-! ## Consumers -/

/-- The second consumer answers every call as the first one does, as far as
    the view goes. -/
def Consumer.Mirrors (view : σ → τ) (c : Consumer σ) (c' : Consumer τ) : Prop :=
  ∀ call, CilLift.Mirrors view id (c.call call) (c'.call call)

namespace Consumer.Mirrors

variable {view : σ → τ} {c : Consumer σ} {c' : Consumer τ}

theorem callAll (h : c.Mirrors view c') (calls : List Call) :
    CilLift.Mirrors view id (c.callAll calls) (c'.callAll calls) := by
  induction calls with
  | nil => exact .pure ()
  | cons call calls ih => exact .bind (h call) fun _ => ih

theorem follow (h : c.Mirrors view c') (t : Trace) :
    CilLift.Mirrors view id (c.follow t) (c'.follow t) := by
  refine .bind (h.callAll t.calls) fun _ => ?_
  cases t.fault with
  | none => exact .pure ()
  | some fault => exact .throw fault

/-- Consumers that mirror each other call by call do so on all code. -/
theorem feed (h : c.Mirrors view c') (r : Resolver) (code : List UInt8) :
    CilLift.Mirrors view id (c.feed r code) (c'.feed r code) := by
  rw [c.feed_eq_follow, c'.feed_eq_follow]
  exact h.follow (.ofCode r code)

end Consumer.Mirrors

end CilLift
