import Mathlib.Algebra.BigOperators.Intervals
import Mathlib.Algebra.Order.BigOperators.Group.Finset

/-!
# Weighted sampling without replacement

A roulette over the indices below `size`: each index occupies as many slots as its weight says, an
index that has been picked occupies none, and a value picks the index in whose slots it falls. The
tables are prefix sums over the weights that are left.
-/

namespace TigerMixer.Sampling

open Finset

/-- The sum of the weights below `bound` that are left after `picked`. -/
def prefixSum (weight : ℕ → ℕ) (picked : List ℕ) (bound : ℕ) : ℕ :=
  ∑ index ∈ range bound, if index ∈ picked then 0 else weight index

def roulette (size : ℕ) (weight : ℕ → ℕ) (picked : List ℕ) (value : ℕ) : Option ℕ :=
  (List.range size).find? fun index =>
    index ∉ picked ∧ value < prefixSum weight picked (index + 1)

/-- One pick for each value, reduced modulo the weights left, none of them twice. -/
def sample (size : ℕ) (weight : ℕ → ℕ) (values : List ℕ) : Option (List ℕ) :=
  values.foldlM
    (fun picked value => do
      let index ← roulette size weight picked (value % prefixSum weight picked size)
      return picked ++ [index])
    []

section PrefixSum

variable {weight : ℕ → ℕ} {picked : List ℕ} {bound index : ℕ}

@[simp]
theorem prefixSum_zero : prefixSum weight picked 0 = 0 := rfl

theorem prefixSum_succ : prefixSum weight picked (bound + 1) =
    prefixSum weight picked bound + if bound ∈ picked then 0 else weight bound :=
  sum_range_succ _ _

theorem prefixSum_mono : Monotone (prefixSum weight picked) := by
  apply monotone_nat_of_le_succ
  intro bound
  rw [prefixSum_succ]
  exact Nat.le_add_right _ _

theorem prefixSum_append_of_lt (left : index ∉ picked) (below : index < bound) :
    prefixSum weight (picked ++ [index]) bound + weight index = prefixSum weight picked bound := by
  induction bound with
  | zero => omega
  | succ bound ih =>
    rw [prefixSum_succ, prefixSum_succ]
    by_cases last : index = bound
    · subst last
      have unchanged : prefixSum weight (picked ++ [index]) index =
          prefixSum weight picked index := by
        apply sum_congr rfl
        intro other member
        have different : other ≠ index := by
          rw [mem_range] at member
          omega
        simp [different]
      simp [unchanged, left]
    · have sum := ih (by omega)
      simp only [List.mem_append, List.mem_singleton, Ne.symm last, or_false]
      omega

theorem prefixSum_append_of_le (beyond : bound ≤ index) :
    prefixSum weight (picked ++ [index]) bound = prefixSum weight picked bound := by
  apply sum_congr rfl
  intro other member
  have different : other ≠ index := by
    rw [mem_range] at member
    omega
  simp [different]

theorem weight_le_prefixSum (left : index ∉ picked) (below : index < bound) :
    weight index ≤ prefixSum weight picked bound := by
  rw [← prefixSum_append_of_lt left below]
  exact Nat.le_add_left _ _

theorem prefixSum_le {limit : ℕ} (limited : ∀ index < bound, weight index ≤ limit) :
    prefixSum weight picked bound ≤ bound * limit := by
  have each : ∀ index ∈ range bound, (if index ∈ picked then 0 else weight index) ≤ limit := by
    intro index member
    split_ifs
    · exact Nat.zero_le _
    · exact limited index (mem_range.mp member)
  have bounded := sum_le_card_nsmul (range bound) _ limit each
  rwa [card_range, nsmul_eq_mul] at bounded

theorem prefixSum_pos {size : ℕ} (positive : ∀ index < size, 0 < weight index)
    (few : picked.length < size) : 0 < prefixSum weight picked size := by
  have exists_left : ∃ index < size, index ∉ picked := by
    by_contra all
    push Not at all
    have subset : List.range size ⊆ picked := by
      intro index member
      exact all index (List.mem_range.mp member)
    have length := (List.nodup_range.subperm subset).length_le
    rw [List.length_range] at length
    omega
  rcases exists_left with ⟨index, below, left⟩
  exact (positive index below).trans_le (weight_le_prefixSum left below)

end PrefixSum

section Roulette

variable {size value index : ℕ} {weight : ℕ → ℕ} {picked : List ℕ}

theorem roulette_eq_some_iff : roulette size weight picked value = some index ↔
    index < size ∧ index ∉ picked ∧ value < prefixSum weight picked (index + 1) ∧
      ∀ earlier < index, earlier ∉ picked → prefixSum weight picked (earlier + 1) ≤ value := by
  rw [roulette, List.find?_eq_some_iff_getElem]
  constructor
  · rintro ⟨found, position, inRange, rfl, earlier⟩
    simp only [List.getElem_range, decide_eq_true_eq] at found earlier ⊢
    rw [List.length_range] at inRange
    refine ⟨inRange, found.1, found.2, ?_⟩
    intro other below left
    have notFound := earlier other below
    simpa [left] using notFound
  · rintro ⟨inRange, left, found, earlier⟩
    refine ⟨by simp [left, found], index, by simpa using inRange, by simp, ?_⟩
    intro other below
    by_cases otherLeft : other ∈ picked
    · simp [otherLeft]
    · simp [otherLeft, earlier other below otherLeft]

theorem exists_roulette_eq_some (below : value < prefixSum weight picked size) :
    ∃ index, roulette size weight picked value = some index := by
  have reached : ∃ bound, value < prefixSum weight picked bound := ⟨size, below⟩
  -- The least such bound is positive, and the index before it is left.
  obtain ⟨index, next⟩ : ∃ index, Nat.find reached = index + 1 := by
    apply Nat.exists_eq_succ_of_ne_zero
    intro zero
    have spec := Nat.find_spec reached
    simp [zero] at spec
  have found := Nat.find_spec reached
  rw [next] at found
  have before : prefixSum weight picked index ≤ value := by
    have minimal := Nat.find_min reached (show index < Nat.find reached by omega)
    omega
  refine ⟨index, roulette_eq_some_iff.mpr ⟨?_, ?_, found, ?_⟩⟩
  · have least := Nat.find_min' reached below
    omega
  · intro member
    rw [prefixSum_succ, if_pos member] at found
    omega
  · intro earlier earlierBelow _
    exact (prefixSum_mono (show earlier + 1 ≤ index by omega)).trans before

theorem sample_append (values : List ℕ) :
    sample size weight (values ++ [value]) = do
      let picked ← sample size weight values
      let index ← roulette size weight picked (value % prefixSum weight picked size)
      return picked ++ [index] := by
  simp [sample, List.foldlM_append]

theorem roulette_prefixSum (inside : index < size) (left : index ∉ picked)
    (positive : 0 < weight index) :
    roulette size weight picked (prefixSum weight picked index % prefixSum weight picked size) =
      some index := by
  have next : prefixSum weight picked (index + 1) =
      prefixSum weight picked index + weight index := by
    rw [prefixSum_succ, if_neg left]
  have total : prefixSum weight picked (index + 1) ≤ prefixSum weight picked size :=
    prefixSum_mono (by omega)
  rw [Nat.mod_eq_of_lt (by omega), roulette_eq_some_iff]
  refine ⟨inside, left, by omega, ?_⟩
  intro earlier below _
  exact prefixSum_mono (show earlier + 1 ≤ index by omega)

theorem mem_of_sample_cons {values picked : List ℕ}
    (first : roulette size weight [] (value % prefixSum weight [] size) = some index)
    (sampled : sample size weight (value :: values) = some picked) : index ∈ picked := by
  induction values using List.reverseRecOn generalizing picked with
  | nil =>
    have only : picked = [index] := by
      simpa [sample, first, eq_comm] using sampled
    simp [only]
  | append_singleton values last ih =>
    rw [← List.cons_append, sample_append] at sampled
    simp only [Option.bind_eq_bind, Option.bind_eq_some_iff, Option.pure_def,
      Option.some.injEq] at sampled
    rcases sampled with ⟨before, sampledBefore, latest, -, rfl⟩
    exact List.mem_append_left _ (ih sampledBefore)

end Roulette

end TigerMixer.Sampling
