import Mathlib.Algebra.BigOperators.Finprod

/-!
# Totals of holdings

Amounts held by the elements of a type, all but finitely many of them zero, and their total. The
second part divides an amount in proportion to weights, rounding every share down: less than one
unit is lost for each of them.
-/

namespace TigerMixer.Holdings

open Finset

universe u

variable {α : Type u}

section Total

variable [DecidableEq α] {holding : α → ℕ}

theorem finite_support_update (finite : holding.support.Finite) (holder : α) (amount : ℕ) :
    (Function.update holding holder amount).support.Finite := by
  apply (finite.insert holder).subset
  intro other nonzero
  by_cases same : other = holder
  · exact Or.inl same
  · right
    rwa [Function.mem_support, Function.update_of_ne same] at nonzero

theorem sum_update {holders : Finset α} {holder : α} (member : holder ∈ holders) (amount : ℕ) :
    ∑ other ∈ holders, Function.update holding holder amount other + holding holder =
      ∑ other ∈ holders, holding other + amount := by
  rw [sum_update_of_mem member, ← add_sum_erase _ _ member, sdiff_singleton_eq_erase]
  omega

theorem finsum_update (finite : holding.support.Finite) (holder : α) (amount : ℕ) :
    ∑ᶠ other, Function.update holding holder amount other + holding holder =
      ∑ᶠ other, holding other + amount := by
  have within : holding.support ⊆ ↑(insert holder finite.toFinset) := by
    intro other nonzero
    simp [Function.mem_support.mp nonzero]
  have updatedWithin :
      (Function.update holding holder amount).support ⊆ ↑(insert holder finite.toFinset) := by
    intro other nonzero
    by_cases same : other = holder
    · simp [same]
    · rw [Function.mem_support, Function.update_of_ne same] at nonzero
      simp [nonzero]
  rw [finsum_eq_sum_of_support_subset _ within, finsum_eq_sum_of_support_subset _ updatedWithin]
  exact sum_update (mem_insert_self _ _) amount

omit [DecidableEq α] in
theorem le_finsum (finite : holding.support.Finite) (holder : α) :
    holding holder ≤ ∑ᶠ other, holding other := by
  by_cases zero : holding holder = 0
  · omega
  · rw [finsum_eq_sum_of_support_subset _ (finite.coe_toFinset.ge)]
    apply single_le_sum (f := holding) (by simp)
    simpa using zero

omit [DecidableEq α] in
theorem sum_le_finsum (finite : holding.support.Finite) (holders : Finset α) :
    ∑ holder ∈ holders, holding holder ≤ ∑ᶠ other, holding other := by
  classical
  have within : holding.support ⊆ ↑(holders ∪ finite.toFinset) := by
    intro other nonzero
    simp [Function.mem_support.mp nonzero]
  rw [finsum_eq_sum_of_support_subset _ within]
  exact sum_le_sum_of_subset subset_union_left

end Total

section Shares

variable {weight : α → ℕ} {amount total : ℕ} {holders : Finset α}

theorem sum_share_le (amount : ℕ) (weights : ∑ holder ∈ holders, weight holder ≤ total) :
    ∑ holder ∈ holders, amount * weight holder / total ≤ amount := by
  by_cases positive : 0 < total
  · apply Nat.le_of_mul_le_mul_left _ positive
    calc total * ∑ holder ∈ holders, amount * weight holder / total
        = ∑ holder ∈ holders, total * (amount * weight holder / total) := mul_sum ..
      _ ≤ ∑ holder ∈ holders, amount * weight holder := by
          apply sum_le_sum
          intro holder _
          exact Nat.mul_div_le _ _
      _ = amount * ∑ holder ∈ holders, weight holder := (mul_sum ..).symm
      _ ≤ total * amount := by
          rw [Nat.mul_comm total]
          gcongr
  · simp [show total = 0 by omega]

theorem finsum_share_le {share : α → ℕ} (finite : weight.support.Finite)
    (weights : ∑ᶠ holder, weight holder = total)
    (shares : ∀ holder, share holder ≤ amount * weight holder / total) :
    share.support.Finite ∧ ∑ᶠ holder, share holder ≤ amount := by
  have support : share.support ⊆ weight.support := by
    intro holder nonzero zero
    have none := shares holder
    rw [zero, Nat.mul_zero, Nat.zero_div] at none
    exact nonzero (by omega)
  refine ⟨finite.subset support, ?_⟩
  rw [finsum_eq_sum_of_support_subset _ finite.coe_toFinset.ge] at weights
  rw [finsum_eq_sum_of_support_subset share (support.trans finite.coe_toFinset.ge)]
  exact (sum_le_sum fun holder _ => shares holder).trans (sum_share_le amount weights.le)

theorem lt_sum_share_add_card (amount : ℕ) (weights : ∑ holder ∈ holders, weight holder = total)
    (positive : 0 < total) :
    amount < ∑ holder ∈ holders, amount * weight holder / total + holders.card := by
  have nonempty : holders.Nonempty := by
    by_contra empty
    rw [not_nonempty_iff_eq_empty] at empty
    subst empty
    simp at weights
    omega
  apply Nat.lt_of_mul_lt_mul_left (a := total)
  calc total * amount = ∑ holder ∈ holders, amount * weight holder := by
        rw [← mul_sum, weights, Nat.mul_comm]
    _ < ∑ holder ∈ holders, total * (amount * weight holder / total + 1) := by
        apply sum_lt_sum_of_nonempty nonempty
        intro holder _
        exact Nat.lt_mul_div_succ _ positive
    _ = total * (∑ holder ∈ holders, amount * weight holder / total + holders.card) := by
        rw [← mul_sum, sum_add_distrib, sum_const, smul_eq_mul, Nat.mul_one]

end Shares

end TigerMixer.Holdings
