import Mathlib.Data.Nat.Cast.Order.Field
import Mathlib.Data.Rat.Floor
import Mathlib.Tactic.LinearCombination

/-!
# Decaying sums in integer arithmetic

A value that is multiplied by a fraction below one, rounded down, before each gain is added. It
stays below a fixed point of the largest gain, it is monotone in the start and in the gains, and
the start is forgotten at a geometric rate, up to what the rounding can add.
-/

namespace TigerMixer.Decay

def decay (numerator denominator : ℕ) (value : ℕ) (gains : List ℕ) : ℕ :=
  gains.foldl (fun value gain => numerator * value / denominator + gain) value

section Order

variable {numerator denominator value value' limit : ℕ} {gains gains' : List ℕ}

theorem decay_le (start : value ≤ limit)
    (gained : ∀ gain ∈ gains, numerator * limit / denominator + gain ≤ limit) :
    decay numerator denominator value gains ≤ limit := by
  induction gains generalizing value with
  | nil => exact start
  | cons gain gains ih =>
    rw [List.forall_mem_cons] at gained
    apply ih _ gained.2
    have decayed : numerator * value / denominator ≤ numerator * limit / denominator := by gcongr
    dsimp only
    omega

theorem decay_mono (start : value ≤ value') (gained : List.Forall₂ (· ≤ ·) gains gains') :
    decay numerator denominator value gains ≤ decay numerator denominator value' gains' := by
  induction gained generalizing value value' with
  | nil => exact start
  | cons gain _ ih =>
    apply ih
    dsimp only
    gcongr

end Order

section Forgetting

variable {numerator denominator : ℕ}

theorem abs_div_sub_div_le (positive : 0 < denominator) (left right : ℕ) :
    |((left / denominator : ℕ) : ℚ) - ((right / denominator : ℕ) : ℚ)| ≤
      |(left : ℚ) - right| / denominator + 1 := by
  have positive' : (0 : ℚ) < denominator := by exact_mod_cast positive
  have bounds (value : ℕ) : ((value / denominator : ℕ) : ℚ) ≤ (value : ℚ) / denominator ∧
      (value : ℚ) / denominator < ((value / denominator : ℕ) : ℚ) + 1 := by
    refine ⟨Nat.cast_div_le, ?_⟩
    rw [div_lt_iff₀ positive']
    have bound := Nat.lt_mul_div_succ value positive
    rw [Nat.mul_comm] at bound
    exact_mod_cast bound
  have difference : |(left : ℚ) / denominator - right / denominator| =
      |(left : ℚ) - right| / denominator := by
    rw [← sub_div, abs_div, abs_of_pos positive']
  rcases bounds left with ⟨leftLow, leftHigh⟩
  rcases bounds right with ⟨rightLow, rightHigh⟩
  rcases abs_le.mp (le_of_eq difference) with ⟨low, high⟩
  rw [abs_le]
  constructor <;> linarith

theorem abs_decay_sub_decay_le (smaller : numerator < denominator) (value value' : ℕ)
    (gains : List ℕ) :
    |(decay numerator denominator value gains : ℚ) - decay numerator denominator value' gains| ≤
      ((numerator : ℚ) / denominator) ^ gains.length * |(value : ℚ) - value'| +
        (1 - ((numerator : ℚ) / denominator) ^ gains.length) *
          (denominator / (denominator - numerator)) := by
  have positive : (0 : ℚ) < denominator := by exact_mod_cast Nat.zero_lt_of_lt smaller
  have gap : (0 : ℚ) < denominator - numerator := by
    rw [sub_pos]
    exact_mod_cast smaller
  induction gains generalizing value value' with
  | nil => simp [decay]
  | cons gain gains ih =>
    have rest := ih (numerator * value / denominator + gain)
      (numerator * value' / denominator + gain)
    have step := abs_div_sub_div_le (Nat.zero_lt_of_lt smaller) (numerator * value)
      (numerator * value')
    have scaled : |((numerator * value : ℕ) : ℚ) - ((numerator * value' : ℕ) : ℚ)| /
        denominator = (numerator : ℚ) / denominator * |(value : ℚ) - value'| := by
      push_cast
      rw [← mul_sub, abs_mul, Nat.abs_cast]
      ring
    have difference : |((numerator * value / denominator + gain : ℕ) : ℚ) -
        ((numerator * value' / denominator + gain : ℕ) : ℚ)| ≤
          (numerator : ℚ) / denominator * |(value : ℚ) - value'| + 1 := by
      rw [Nat.cast_add, Nat.cast_add, add_sub_add_right_eq_sub, ← scaled]
      exact step
    have power : (0 : ℚ) ≤ ((numerator : ℚ) / denominator) ^ gains.length := by positivity
    -- The limit `denominator / (denominator - numerator)` absorbs one rounding per step.
    have absorbed :
        1 + (numerator : ℚ) / denominator * (denominator / (denominator - numerator)) =
          denominator / (denominator - numerator) := by
      field_simp
      ring
    calc |(decay numerator denominator value (gain :: gains) : ℚ) -
            decay numerator denominator value' (gain :: gains)|
        ≤ _ := rest
      _ ≤ ((numerator : ℚ) / denominator) ^ gains.length *
            ((numerator : ℚ) / denominator * |(value : ℚ) - value'| + 1) +
          (1 - ((numerator : ℚ) / denominator) ^ gains.length) *
            (denominator / (denominator - numerator)) := by gcongr
      _ = ((numerator : ℚ) / denominator) ^ (gain :: gains).length * |(value : ℚ) - value'| +
          (1 - ((numerator : ℚ) / denominator) ^ (gain :: gains).length) *
            (denominator / (denominator - numerator)) := by
        rw [List.length_cons, pow_succ]
        linear_combination (((numerator : ℚ) / denominator) ^ gains.length) * absorbed

end Forgetting

end TigerMixer.Decay
