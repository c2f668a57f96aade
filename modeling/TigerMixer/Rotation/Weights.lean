import TigerMixer.Rotation.Committee

/-!
# Reputation and weights

`calculateWeights` stretches the scores of a shortlist over the range of weights. Raising one score
moves the lowest or the highest score as well, so the weights before and after are compared through
the extremes: both can only go up, and an extreme that another candidate attains stays.
-/

namespace TigerMixer.Rotation

open Function

theorem div_le_div_of_mul_le_mul {dividend divisor dividend' divisor' : ℕ} (positive : 0 < divisor)
    (positive' : 0 < divisor') (cross : dividend * divisor' ≤ dividend' * divisor) :
    dividend / divisor ≤ dividend' / divisor' := by
  rw [Nat.le_div_iff_mul_le positive']
  apply Nat.le_of_mul_le_mul_left _ positive
  calc divisor * (dividend / divisor * divisor') = divisor * (dividend / divisor) * divisor' := by
        rw [Nat.mul_assoc]
    _ ≤ dividend * divisor' := Nat.mul_le_mul_right _ (Nat.mul_div_le dividend divisor)
    _ ≤ divisor * dividend' := by rwa [Nat.mul_comm divisor]

section WeightOf

variable {lowest highest score : ℕ}

theorem weightOf_lowest : weightOf lowest highest lowest = baseWeight := by
  simp [weightOf]

theorem weightOf_highest (spread : lowest < highest) :
    weightOf lowest highest highest = maxWeight := by
  rw [weightOf, if_neg spread.ne', Nat.mul_div_cancel_left _ (by omega)]
  decide

theorem weightOf_mono {score' : ℕ} (le : score ≤ score') :
    weightOf lowest highest score ≤ weightOf lowest highest score' := by
  unfold weightOf
  split_ifs
  · exact le_rfl
  · apply Nat.add_le_add_left
    apply Nat.div_le_div_right
    apply Nat.mul_le_mul_right
    omega

theorem weightOf_anti {lowest' highest' : ℕ} (lower : lowest ≤ lowest') (low : lowest' ≤ score)
    (high : score ≤ highest) (higher : highest ≤ highest') :
    weightOf lowest' highest' score ≤ weightOf lowest highest score := by
  by_cases flat' : highest' = lowest'
  · rw [weightOf, if_pos flat']
    exact (weightOf_bounds (lower.trans low) high).1
  · by_cases flat : highest = lowest
    · rw [show score = lowest' by omega, weightOf_lowest]
      exact (weightOf_bounds lower (by omega)).1
    · rw [weightOf, weightOf, if_neg flat', if_neg flat]
      apply Nat.add_le_add_left
      apply div_le_div_of_mul_le_mul (by omega) (by omega)
      rw [Nat.mul_right_comm, Nat.mul_right_comm (score - lowest)]
      apply Nat.mul_le_mul_right
      -- the distance from the lowest score shrinks by at least the proportion of the range
      zify [low, high, lower.trans low, show lowest ≤ highest by omega,
        show lowest' ≤ highest' by omega]
      nlinarith

end WeightOf

section Raise

variable {score : ℕ → ℕ} {count lowest highest lowest' highest' i raised : ℕ}

theorem le_update (le : score i ≤ raised) (j : ℕ) : score j ≤ update score i raised j := by
  by_cases same : j = i
  · rwa [same, update_self]
  · rw [update_of_ne same]

variable (extremes : Extremes score count lowest highest)
  (extremes' : Extremes (update score i raised) count lowest' highest')

include extremes extremes'

theorem Extremes.le_of_raise (le : score i ≤ raised) : lowest ≤ lowest' ∧ highest ≤ highest' := by
  rcases extremes'.lowest_attained with ⟨low, lowInside, rfl⟩
  rcases extremes.highest_attained with ⟨high, highInside, rfl⟩
  constructor
  · exact (extremes.bounds low lowInside).1.trans (le_update le low)
  · exact (le_update le high).trans (extremes'.bounds high highInside).2

theorem weightOf_raise (inside : i < count) (le : score i ≤ raised) :
    weightOf lowest highest (score i) ≤ weightOf lowest' highest' raised := by
  have bounds := extremes.bounds i inside
  have bounds' := extremes'.bounds i inside
  rw [update_self] at bounds'
  rcases extremes.le_of_raise extremes' le with ⟨lower, higher⟩
  by_cases atLowest : score i = lowest
  · rw [atLowest, weightOf_lowest]
    exact (weightOf_bounds bounds'.1 bounds'.2).1
  · -- another candidate has the lowest score, and keeps it
    have lowestKept : lowest' = lowest := by
      rcases extremes.lowest_attained with ⟨low, lowInside, rfl⟩
      have other : low ≠ i := fun same => atLowest (same ▸ rfl)
      have kept := (extremes'.bounds low lowInside).1
      rw [update_of_ne other] at kept
      omega
    by_cases atHighest : raised = highest'
    · rw [atHighest, weightOf_highest (by omega)]
      exact (weightOf_bounds bounds.1 bounds.2).2
    · have highestKept : highest' = highest := by
        rcases extremes'.highest_attained with ⟨high, highInside, attained⟩
        have other : high ≠ i := by
          rintro rfl
          rw [update_self] at attained
          exact atHighest attained
        rw [update_of_ne other] at attained
        have kept := (extremes.bounds high highInside).2
        omega
      rw [lowestKept, highestKept]
      exact weightOf_mono le

end Raise

theorem exists_weights {score : ℕ → ℕ} {count : ℕ} (positive : 0 < count)
    (small : ∀ j < count, score j ≤ maxReputation) :
    ∃ lowest highest weight, Extremes score count lowest highest ∧
      calculateWeights .wrapping ⟨count, score⟩ count baseWeight maxWeight =
        some ⟨count, weight⟩ ∧
      ∀ j < count, weight j = weightOf lowest highest (score j) := by
  rcases @scoreExtremes_spec score count positive with ⟨lowest, highest, returned, extremes⟩
  rcases calculateWeights_spec Arithmetic.wrapping_exact positive returned extremes small with
    ⟨weight, calculated, values⟩
  exact ⟨lowest, highest, weight, extremes, calculated, values⟩

/-- The weights of a shortlist of scores follow the scores, and raising a score never works against
its owner. -/
theorem weights_follow_scores {score : ℕ → ℕ} {count : ℕ} (positive : 0 < count)
    (small : ∀ j < count, score j ≤ maxReputation) :
    ∃ weight, calculateWeights .wrapping ⟨count, score⟩ count baseWeight maxWeight =
        some ⟨count, weight⟩ ∧
      (∀ j < count, baseWeight ≤ weight j ∧ weight j ≤ maxWeight) ∧
      (∀ j < count, ∀ k < count, score j = score k → weight j = weight k) ∧
      (∀ j < count, ∀ k < count, score j < score k → weight j ≤ weight k) ∧
      ((∃ j < count, ∃ k < count, score j ≠ score k) → ∀ j < count,
        ((∀ k < count, score j ≤ score k) → weight j = baseWeight) ∧
          ((∀ k < count, score k ≤ score j) → weight j = maxWeight)) ∧
      ∀ i < count, ∀ raised, score i ≤ raised → raised ≤ maxReputation →
        ∃ weight', calculateWeights .wrapping ⟨count, update score i raised⟩ count
            baseWeight maxWeight = some ⟨count, weight'⟩ ∧
          weight i ≤ weight' i ∧ ∀ j < count, j ≠ i → weight' j ≤ weight j := by
  rcases exists_weights positive small with ⟨lowest, highest, weight, extremes, calculated, values⟩
  refine ⟨weight, calculated, ?_, ?_, ?_, ?_, ?_⟩
  · intro j inside
    rw [values j inside]
    exact weightOf_bounds (extremes.bounds j inside).1 (extremes.bounds j inside).2
  · intro j inside k inside' same
    rw [values j inside, values k inside', same]
  · intro j inside k inside' less
    rw [values j inside, values k inside']
    exact weightOf_mono less.le
  · rintro ⟨k, kInside, k', kInside', different⟩ j inside
    have bounds := extremes.bounds k kInside
    have bounds' := extremes.bounds k' kInside'
    rw [values j inside]
    constructor
    · intro least
      rcases extremes.lowest_attained with ⟨low, lowInside, rfl⟩
      rw [le_antisymm (least low lowInside) (extremes.bounds j inside).1, weightOf_lowest]
    · intro greatest
      rcases extremes.highest_attained with ⟨high, highInside, rfl⟩
      rw [le_antisymm (extremes.bounds j inside).2 (greatest high highInside)]
      exact weightOf_highest (by omega)
  · intro i inside raised le raisedSmall
    have small' : ∀ j < count, update score i raised j ≤ maxReputation := by
      intro j jInside
      by_cases same : j = i
      · rwa [same, update_self]
      · rw [update_of_ne same]
        exact small j jInside
    rcases exists_weights positive small' with
      ⟨lowest', highest', weight', extremes', calculated', values'⟩
    refine ⟨weight', calculated', ?_, ?_⟩
    · rw [values i inside, values' i inside, update_self]
      exact weightOf_raise extremes extremes' inside le
    · intro j jInside other
      have bounds' := extremes'.bounds j jInside
      rw [update_of_ne other] at bounds'
      rcases extremes.le_of_raise extremes' le with ⟨lower, higher⟩
      rw [values j jInside, values' j jInside, update_of_ne other]
      exact weightOf_anti lower bounds'.1 (extremes.bounds j jInside).2 higher

theorem weights_follow_scores_overtaken :
    ∃ weight weight', calculateWeights .wrapping ⟨2, fun j => [60, 100].getD j 0⟩ 2 baseWeight
        maxWeight = some ⟨2, weight⟩ ∧
      calculateWeights .wrapping ⟨2, update (fun j => [60, 100].getD j 0) 0 120⟩ 2
        baseWeight maxWeight = some ⟨2, weight'⟩ ∧
      weight 0 ≤ weight' 0 ∧ weight' 1 ≤ weight 1 := by
  have small : ∀ j < 2, [60, 100].getD j 0 ≤ maxReputation := by decide
  rcases weights_follow_scores (by decide) small with ⟨weight, calculated, -, -, -, -, raise⟩
  rcases raise 0 (by decide) 120 (by decide) (by decide) with
    ⟨weight', calculated', own, others⟩
  exact ⟨weight, weight', calculated, calculated', own, others 1 (by decide) (by decide)⟩

end TigerMixer.Rotation
