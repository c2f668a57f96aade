import Mathlib.Logic.Basic

/-!
# Unwinding

Two runs of a component that differ in operations an observer should not notice. What the observer
sees is a view of the state. If hidden operations leave the view alone, and the view decides what
the other operations do to it, runs with the same observed operations end with the same view.
-/

namespace TigerMixer.Calls

universe u v w

variable {σ : Type u} {Op : Type v} {ν : Type w}

structure Unwinding (step : σ → Op → σ) (valid : σ → Prop) (view : σ → ν) (observed : Op → Bool)
    (harmless : Op → Prop) : Prop where
  valid_step : ∀ state op, valid state → valid (step state op)
  hidden : ∀ state op, valid state → observed op = false → harmless op →
    view (step state op) = view state
  consistent : ∀ state state' op, valid state → valid state' → view state = view state' →
    observed op = true → view (step state op) = view (step state' op)

namespace Unwinding

variable {step : σ → Op → σ} {valid : σ → Prop} {view : σ → ν} {observed : Op → Bool}
  {harmless : Op → Prop} (unwinding : Unwinding step valid view observed harmless)

include unwinding

theorem view_foldl_filter {ops : List Op} {state state' : σ} (holds : valid state)
    (holds' : valid state') (same : view state = view state')
    (hidden : ∀ op ∈ ops, observed op = false → harmless op) :
    view (ops.foldl step state) = view ((ops.filter observed).foldl step state') := by
  induction ops generalizing state state' with
  | nil => exact same
  | cons op ops ih =>
    have rest : ∀ op ∈ ops, observed op = false → harmless op :=
      fun other member => hidden other (List.mem_cons_of_mem op member)
    rw [List.foldl_cons]
    cases seen : observed op with
    | true =>
      rw [List.filter_cons_of_pos seen, List.foldl_cons]
      exact ih (unwinding.valid_step _ _ holds)
        (unwinding.valid_step _ _ holds') (unwinding.consistent _ _ _ holds holds' same seen)
        rest
    | false =>
      rw [List.filter_cons_of_neg (by simp [seen])]
      apply ih (unwinding.valid_step _ _ holds) holds' _ rest
      rw [unwinding.hidden _ _ holds seen (hidden op List.mem_cons_self seen), same]

theorem view_foldl_eq {ops ops' : List Op} {state state' : σ} (holds : valid state)
    (holds' : valid state') (same : view state = view state')
    (observedSame : ops.filter observed = ops'.filter observed)
    (hidden : ∀ op ∈ ops, observed op = false → harmless op)
    (hidden' : ∀ op ∈ ops', observed op = false → harmless op) :
    view (ops.foldl step state) = view (ops'.foldl step state') := by
  rw [unwinding.view_foldl_filter holds holds' same hidden, observedSame,
    ← unwinding.view_foldl_filter holds' holds' rfl hidden']

theorem valid_foldl {ops : List Op} {state : σ} (holds : valid state) :
    valid (ops.foldl step state) := by
  induction ops generalizing state with
  | nil => exact holds
  | cons op ops ih =>
    exact ih (unwinding.valid_step _ _ holds)

end Unwinding

end TigerMixer.Calls
