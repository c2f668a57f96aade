import Mathlib.Algebra.Field.Rat
import Mathlib.Algebra.Order.BigOperators.Group.List
import Mathlib.Algebra.Order.Ring.Rat
import Mathlib.Data.List.Perm.Subperm

/-!
# Weighted choices by cumulated weights

A draw between zero and one is scaled by the sum of the weights and searched for among their running
sums by bisection. Without replacement, the elements that have been chosen are taken out of the
pool; as long as the weights are positive and the pool is large enough, this succeeds.
-/

namespace TigerMixer.Sampling

variable {α : Type*}

/-- The index behind all values up to `wanted`, searched for between `low` and `high` in a
non-decreasing list. -/
def bisect (values : List ℚ) (wanted : ℚ) (low high : ℕ) : ℕ :=
  if low < high then
    let middle := (low + high) / 2
    if wanted < values.getD middle 0 then bisect values wanted low middle
    else bisect values wanted (middle + 1) high
  else low
termination_by high - low
decreasing_by all_goals omega

def cumulated (weight : α → ℚ) (pool : List α) : List ℚ :=
  ((pool.map weight).scanl (· + ·) 0).tail

def choice (weight : α → ℚ) (pool : List α) (draw : ℚ) : Option α :=
  (cumulated weight pool).getLast?.bind fun total =>
    if total ≤ 0 then none
    else pool[bisect (cumulated weight pool) (draw * total) 0 (pool.length - 1)]?

def choose [DecidableEq α] (weight : α → ℚ) : ℕ → List α → (ℕ → ℚ) → Option (List α)
  | 0, _, _ => some []
  | count + 1, pool, draws => do
      let chosen ← choice weight pool (draws 0)
      let others ← choose weight count (pool.erase chosen) fun index => draws (index + 1)
      return chosen :: others

theorem bisect_le {values : List ℚ} {wanted : ℚ} {low high : ℕ} (ordered : low ≤ high) :
    bisect values wanted low high ≤ high := by
  fun_induction bisect values wanted low high with
  | case1 low high below middle left ih =>
    have := ih (by omega)
    omega
  | case2 low high below middle right ih => exact ih (by omega)
  | case3 low high => exact ordered

theorem getLast?_scanl (start : ℚ) (weights : List ℚ) :
    (weights.scanl (· + ·) start).getLast? = some (start + weights.sum) := by
  induction weights generalizing start with
  | nil => simp
  | cons weight weights ih =>
    rw [List.scanl_cons, List.getLast?_cons, ih]
    simp [add_assoc]

variable {weight : α → ℚ} {pool : List α}

theorem getLast?_cumulated (nonempty : pool ≠ []) :
    (cumulated weight pool).getLast? = some (pool.map weight).sum := by
  cases pool with
  | nil => exact absurd rfl nonempty
  | cons first pool =>
    rw [cumulated, List.map_cons, List.scanl_cons, List.tail_cons, getLast?_scanl]
    simp

theorem exists_choice (nonempty : pool ≠ []) (positive : ∀ element ∈ pool, 0 < weight element)
    (draw : ℚ) :
    ∃ chosen ∈ pool, choice weight pool draw = some chosen := by
  have total : 0 < (pool.map weight).sum := by
    apply List.sum_pos
    · simpa using positive
    · simpa using nonempty
  have inside : bisect (cumulated weight pool) (draw * (pool.map weight).sum) 0
      (pool.length - 1) < pool.length := by
    have atMost := @bisect_le (cumulated weight pool) (draw * (pool.map weight).sum) 0
      (pool.length - 1) (Nat.zero_le _)
    have := List.length_pos_iff.mpr nonempty
    omega
  refine ⟨pool.get ⟨_, inside⟩, List.get_mem _ _, ?_⟩
  simp only [choice, getLast?_cumulated nonempty, Option.bind_some, if_neg (not_le.mpr total)]
  exact List.getElem?_eq_getElem inside

theorem exists_choose [DecidableEq α] {count : ℕ} (positive : ∀ element ∈ pool, 0 < weight element)
    (enough : count ≤ pool.length) (draws : ℕ → ℚ) :
    ∃ chosen, choose weight count pool draws = some chosen ∧ chosen.length = count ∧
      chosen.Subperm pool := by
  induction count generalizing pool draws with
  | zero => exact ⟨[], rfl, rfl, List.nil_subperm⟩
  | succ count ih =>
    have nonempty : pool ≠ [] := by
      rintro rfl
      simp at enough
    rcases exists_choice nonempty positive (draws 0) with ⟨first, member, isFirst⟩
    have left : ∀ element ∈ pool.erase first, 0 < weight element := fun element elementMember =>
      positive element (List.mem_of_mem_erase elementMember)
    have enoughLeft : count ≤ (pool.erase first).length := by
      rw [List.length_erase_of_mem member]
      omega
    rcases ih left enoughLeft (fun index => draws (index + 1)) with ⟨others, are, length, among⟩
    refine ⟨first :: others, ?_, by simp [length], ?_⟩
    · simp [choose, isFirst, are]
    · exact ((List.subperm_cons first).mpr among).trans
        (List.perm_cons_erase member).symm.subperm

end TigerMixer.Sampling
