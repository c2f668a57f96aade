import TigerMixer.Rotation.Randomness
import TigerMixer.Rotation.Shortlist
import TigerMixer.Sampling.Roulette

/-!
# Committees are sampled without replacement

The draws of `selectNewCommittee` refine the reference roulette: the patched table of cumulative
weights always holds the prefix sums of the weights that are left. Since reputations are small,
nothing overflows and every draw finds a candidate.
-/

namespace TigerMixer.Rotation

open Calls Sampling MemArray Function List

def maxReputation : ℕ := 2000

def weightOf (lowest highest score : ℕ) : ℕ :=
  if highest = lowest then baseWeight
  else baseWeight + (score - lowest) * (maxWeight - baseWeight) / (highest - lowest)

theorem normalized_le {lowest highest score : ℕ} (low : lowest ≤ score) (high : score ≤ highest) :
    (score - lowest) * (maxWeight - baseWeight) / (highest - lowest) ≤ maxWeight - baseWeight := by
  apply Nat.div_le_of_le_mul
  exact Nat.mul_le_mul_right _ (by omega)

theorem weightOf_bounds {lowest highest score : ℕ} (low : lowest ≤ score) (high : score ≤ highest) :
    baseWeight ≤ weightOf lowest highest score ∧ weightOf lowest highest score ≤ maxWeight := by
  unfold weightOf
  split_ifs with flat
  · decide
  · have order : baseWeight ≤ maxWeight := by decide
    have ratio := normalized_le low high
    exact ⟨Nat.le_add_right _ _, (Nat.add_le_add_left ratio _).trans_eq (by omega)⟩

structure Extremes (score : ℕ → ℕ) (count lowest highest : ℕ) : Prop where
  bounds : ∀ i < count, lowest ≤ score i ∧ score i ≤ highest
  lowest_attained : ∃ i < count, score i = lowest
  highest_attained : ∃ i < count, score i = highest

variable {count lowest highest : ℕ} {topK : ℕ} {reputation : Address → ℕ} {pool : List Address}
  {random : ℕ} {picked : List ℕ}

theorem Extremes.succ {score : ℕ → ℕ} (extremes : Extremes score count lowest highest) :
    Extremes score (count + 1) (if score count < lowest then score count else lowest)
      (if score count > highest then score count else highest) where
  bounds := by
    intro i below
    by_cases last : i = count
    · subst last
      constructor
      · split_ifs <;> omega
      · split_ifs <;> omega
    · have earlier := extremes.bounds i (by omega)
      constructor
      · split_ifs <;> omega
      · split_ifs <;> omega
  lowest_attained := by
    rcases extremes.lowest_attained with ⟨i, below, attained⟩
    split_ifs
    · exact ⟨count, by omega, rfl⟩
    · exact ⟨i, by omega, attained⟩
  highest_attained := by
    rcases extremes.highest_attained with ⟨i, below, attained⟩
    split_ifs
    · exact ⟨count, by omega, rfl⟩
    · exact ⟨i, by omega, attained⟩

theorem scoreExtremes_spec {score : ℕ → ℕ} {count : ℕ} (positive : 0 < count) :
    ∃ lowest highest, scoreExtremes ⟨count, score⟩ count = some (lowest, highest) ∧
      Extremes score count lowest highest := by
  have scanned : ∃ extremes, scoreExtremes ⟨count, score⟩ count = some extremes ∧
      Extremes score (1 + (count - 1)) extremes.1 extremes.2 := by
    simp only [scoreExtremes, get_mk positive, Option.bind_eq_bind, Option.bind_some]
    apply Loop.run_next fun (bound : ℕ) (extremes : ℕ × ℕ) =>
      Extremes score bound extremes.1 extremes.2
    · intro bound extremes low high before
      have inside : bound < count := by omega
      simp only [get_mk inside, Option.bind_some, Option.pure_def]
      exact ⟨_, rfl, before.succ⟩
    · refine ⟨?_, ⟨0, by omega, rfl⟩, ⟨0, by omega, rfl⟩⟩
      intro i below
      rw [show i = 0 by omega]
      exact ⟨le_rfl, le_rfl⟩
  rcases scanned with ⟨⟨lowest, highest⟩, returned, extremes⟩
  refine ⟨lowest, highest, returned, ?_⟩
  rwa [show 1 + (count - 1) = count by omega] at extremes

theorem calculateWeights_spec {arithmetic : Arithmetic} (exact : arithmetic.Exact) {score : ℕ → ℕ}
    (positive : 0 < count) (returned : scoreExtremes ⟨count, score⟩ count = some (lowest, highest))
    (extremes : Extremes score count lowest highest)
    (small : ∀ i < count, score i ≤ maxReputation) :
    ∃ cell, calculateWeights arithmetic ⟨count, score⟩ count baseWeight maxWeight =
        some ⟨count, cell⟩ ∧
      ∀ i < count, cell i = weightOf lowest highest (score i) := by
  simp only [calculateWeights, positive.ne', if_false, returned, Option.bind_eq_bind,
    Option.bind_some]
  split_ifs with flat
  · refine Loop.run_fill 0 _ ?_
    intro i cell inside
    simp [set_mk inside, weightOf, flat]
  · have order : baseWeight ≤ maxWeight := by decide
    have spread : lowest ≤ highest :=
      (extremes.bounds 0 positive).1.trans (extremes.bounds 0 positive).2
    have highestSmall : highest ≤ maxReputation := by
      rcases extremes.highest_attained with ⟨i, inside, rfl⟩
      exact small i inside
    have maxSmall : maxReputation < 2 ^ 64 := by decide
    rw [exact.sub_eq (lt_wordSize (by omega)) spread,
      exact.sub_eq (lt_wordSize (by decide)) order, Option.bind_some, Option.bind_some]
    refine Loop.run_fill 0 _ ?_
    intro i cell inside
    rcases extremes.bounds i inside with ⟨low, high⟩
    have scoreFits : score i < wordSize := lt_wordSize (by omega)
    have productFits : (score i - lowest) * (maxWeight - baseWeight) < wordSize := by
      apply lt_wordSize
      calc (score i - lowest) * (maxWeight - baseWeight)
          ≤ maxReputation * (maxWeight - baseWeight) := Nat.mul_le_mul_right _ (by omega)
        _ < 2 ^ 64 := by decide
    have sumFits : baseWeight +
        (score i - lowest) * (maxWeight - baseWeight) / (highest - lowest) < wordSize := by
      apply lt_wordSize
      calc baseWeight + (score i - lowest) * (maxWeight - baseWeight) / (highest - lowest)
          ≤ baseWeight + (maxWeight - baseWeight) := Nat.add_le_add_left (normalized_le low high) _
        _ < 2 ^ 64 := by decide
    simp only [get_mk inside, Option.bind_some, exact.sub_eq scoreFits low,
      exact.mul_eq productFits, divide, show highest - lowest ≠ 0 by omega,
      exact.add_eq sumFits, set_mk inside, Option.pure_def, weightOf, flat, if_false]

structure Weights (topK : ℕ) (weight : ℕ → ℕ) : Prop where
  size_pos : 0 < topK
  size_le : topK ≤ topKSize
  pos : ∀ i < topK, 0 < weight i
  le : ∀ i < topK, weight i ≤ maxWeight

theorem Weights.prefixSum_lt {weight : ℕ → ℕ} (weights : Weights topK weight) (picked : List ℕ)
    {bound : ℕ} (inside : bound ≤ topK) :
    prefixSum weight picked bound < wordSize := by
  apply lt_wordSize
  calc prefixSum weight picked bound
      ≤ bound * maxWeight := prefixSum_le fun i below => weights.le i (by omega)
    _ ≤ topKSize * maxWeight := Nat.mul_le_mul_right _ (inside.trans weights.size_le)
    _ < 2 ^ 64 := by decide

section Draws

variable {mode : Mode} {topK : ℕ} {weight weightCell : ℕ → ℕ} {candidate : ℕ → Address}

theorem accumulate_spec (exact : mode.arithmetic.Exact) (weights : Weights topK weight)
    (agree : ∀ i < topK, weightCell i = weight i) :
    ∃ cell, accumulate mode.arithmetic ⟨topK, weightCell⟩ topK = some ⟨topK, cell⟩ ∧
      ∀ i < topK, cell i = prefixSum weight [] (i + 1) := by
  have positive := weights.size_pos
  have first : prefixSum weight [] 1 = weight 0 := by simp [prefixSum]
  have filled : ∃ array, accumulate mode.arithmetic ⟨topK, weightCell⟩ topK = some array ∧
      ∃ cell, array = ⟨topK, cell⟩ ∧
        ∀ i < 1 + (topK - 1), cell i = prefixSum weight [] (i + 1) := by
    simp only [accumulate, get_mk positive, create, set_mk positive,
      Option.bind_eq_bind, Option.bind_some]
    apply Loop.run_next fun (bound : ℕ) (array : MemArray ℕ) =>
      ∃ cell, array = ⟨topK, cell⟩ ∧ ∀ i < bound, cell i = prefixSum weight [] (i + 1)
    · rintro bound - low high ⟨cell, rfl, before⟩
      have inside : bound < topK := by omega
      have sum : prefixSum weight [] (bound + 1) = cell (bound - 1) + weightCell bound := by
        rw [prefixSum_succ, before (bound - 1) (by omega), agree bound inside,
          Nat.sub_add_cancel low]
        simp
      have fits : cell (bound - 1) + weightCell bound < wordSize := by
        rw [← sum]
        exact weights.prefixSum_lt [] (by omega)
      simp only [get_mk (show bound - 1 < topK by omega), get_mk inside,
        Option.bind_some, exact.add_eq fits, set_mk inside, Option.pure_def]
      refine ⟨_, rfl, _, rfl, ?_⟩
      intro i below
      by_cases last : i = bound
      · subst last
        rw [update_self, sum]
      · rw [update_of_ne last]
        exact before i (by omega)
    · refine ⟨_, rfl, ?_⟩
      intro i below
      rw [show i = 0 by omega, update_self, agree 0 positive, first]
  rcases filled with ⟨-, returned, cell, rfl, values⟩
  refine ⟨cell, returned, ?_⟩
  rwa [show 1 + (topK - 1) = topK by omega] at values

structure DrawInv (weight : ℕ → ℕ) (candidate : ℕ → Address) (topK : ℕ) (picked : List ℕ)
    (drawing : Drawing) : Prop where
  nodup : picked.Nodup
  inside : ∀ i ∈ picked, i < topK
  selected : ∃ cell, drawing.selected = ⟨maxCommitteeSize, cell⟩ ∧
    (List.range picked.length).map cell = picked.map candidate
  selectedFlags : ∃ cell, drawing.selectedFlags = ⟨topK, cell⟩ ∧
    ∀ i < topK, cell i = decide (i ∈ picked)
  cumulativeWeights : ∃ cell, drawing.cumulativeWeights = ⟨topK, cell⟩ ∧
    ∀ i < topK, cell i = prefixSum weight picked (i + 1)
  totalWeight : drawing.totalWeight = prefixSum weight picked topK

variable {picked : List ℕ} {drawing : Drawing} {index : ℕ} {sum : ℕ → ℕ}
  {candidateCell : ℕ → Address}

theorem findSelected_spec {value index : ℕ} (inv : DrawInv weight candidate topK picked drawing)
    (drawn : roulette topK weight picked value = some index) :
    findSelected drawing value topK = some index := by
  rcases inv.selectedFlags with ⟨flag, flags, flagEq⟩
  rcases inv.cumulativeWeights with ⟨sum, sums, sumEq⟩
  rcases roulette_eq_some_iff.mp drawn with ⟨inside, left, found, earlier⟩
  have searched : ∃ selectedIdx, findSelected drawing value topK = some selectedIdx ∧
      selectedIdx = index := by
    unfold findSelected
    rw [flags, sums]
    apply Loop.run_spec (fun (i : ℕ) (_ : ℕ) => i ≤ index) (fun selectedIdx => selectedIdx = index)
    · intro i selectedIdx _ high before
      have iInside : i < topK := by omega
      simp only [get_mk iInside, Option.bind_eq_bind, Option.bind_some, flagEq i iInside,
        sumEq i iInside, decide_eq_false_iff_not]
      by_cases isIndex : i = index
      · subst isIndex
        right
        exact ⟨i, by simp [left, found], rfl⟩
      · left
        have miss : ¬(i ∉ picked ∧ value < prefixSum weight picked (i + 1)) := by
          rintro ⟨iLeft, iFound⟩
          have bound := earlier i (by omega) iLeft
          omega
        rw [if_neg miss]
        exact ⟨selectedIdx, rfl, by omega⟩
    · intro selectedIdx atEnd
      omega
    · exact Nat.zero_le index
  rcases searched with ⟨_, returned, rfl⟩
  exact returned

theorem removeWeight_spec (exact : mode.arithmetic.Exact) (weights : Weights topK weight)
    (left : index ∉ picked) (inside : index < topK)
    (sumEq : ∀ i < topK, sum i = prefixSum weight picked (i + 1)) :
    ∃ cell, removeWeight mode.arithmetic ⟨topK, sum⟩ index (weight index) topK = some ⟨topK, cell⟩ ∧
      ∀ i < topK, cell i = prefixSum weight (picked ++ [index]) (i + 1) := by
  have removed : ∃ array, removeWeight mode.arithmetic ⟨topK, sum⟩ index (weight index) topK =
      some array ∧ ∃ cell, array = ⟨topK, cell⟩ ∧
        (∀ i < index + (topK - index), i < topK →
          cell i = prefixSum weight (picked ++ [index]) (i + 1)) ∧
        ∀ i, index + (topK - index) ≤ i → i < topK → cell i = prefixSum weight picked (i + 1) := by
    -- The entries before `bound` are updated, the others still as before.
    apply Loop.run_next fun (bound : ℕ) (array : MemArray ℕ) => ∃ cell, array = ⟨topK, cell⟩ ∧
      (∀ i < bound, i < topK → cell i = prefixSum weight (picked ++ [index]) (i + 1)) ∧
      ∀ i, bound ≤ i → i < topK → cell i = prefixSum weight picked (i + 1)
    · rintro bound - low high ⟨cell, rfl, before, after⟩
      have boundInside : bound < topK := by omega
      have old := after bound le_rfl boundInside
      have patched : prefixSum weight (picked ++ [index]) (bound + 1) + weight index =
          prefixSum weight picked (bound + 1) :=
        prefixSum_append_of_lt left (by omega)
      have enough : weight index ≤ cell bound := by omega
      have fits : cell bound < wordSize := by
        rw [old]
        exact weights.prefixSum_lt picked (by omega)
      simp only [get_mk boundInside, Option.bind_eq_bind, Option.bind_some, ge_iff_le,
        enough, if_true, exact.sub_eq fits enough, set_mk boundInside, Option.pure_def]
      refine ⟨_, rfl, _, rfl, ?_, ?_⟩
      · intro i below iInside
        by_cases last : i = bound
        · subst last
          rw [update_self]
          omega
        · rw [update_of_ne last]
          exact before i (by omega) iInside
      · intro i beyond iInside
        rw [update_of_ne (by omega)]
        exact after i (by omega) iInside
    · refine ⟨sum, rfl, ?_, fun i _ iInside => sumEq i iInside⟩
      intro i below iInside
      rw [sumEq i iInside, prefixSum_append_of_le (by omega)]
  rcases removed with ⟨-, returned, cell, rfl, updated, -⟩
  refine ⟨cell, returned, ?_⟩
  intro i iInside
  exact updated i (by omega) iInside

theorem DrawInv.append (inv : DrawInv weight candidate topK picked drawing) (left : index ∉ picked)
    (inside : index < topK) {chosen : ℕ → Address} {flag : ℕ → Bool}
    (chosenEq : (List.range picked.length).map chosen = picked.map candidate)
    (flagEq : ∀ i < topK, flag i = decide (i ∈ picked))
    (sumEq : ∀ i < topK, sum i = prefixSum weight (picked ++ [index]) (i + 1)) :
    DrawInv weight candidate topK (picked ++ [index])
      ⟨⟨maxCommitteeSize, update chosen picked.length (candidate index)⟩,
        ⟨topK, update flag index true⟩, ⟨topK, sum⟩,
        prefixSum weight picked topK - weight index⟩ where
  nodup := by
    rw [← concat_eq_append]
    exact inv.nodup.concat left
  inside := by
    intro i member
    rw [mem_append, mem_singleton] at member
    rcases member with member | rfl
    · exact inv.inside i member
    · exact inside
  selected := by
    refine ⟨_, rfl, ?_⟩
    rw [length_append, length_singleton, range_succ, map_append, map_append, ← chosenEq]
    congr 1
    · apply map_congr_left
      intro i member
      rw [mem_range] at member
      rw [update_of_ne (by omega)]
    · simp
  selectedFlags := by
    refine ⟨_, rfl, ?_⟩
    intro i iInside
    by_cases isIndex : i = index
    · subst isIndex
      simp
    · rw [update_of_ne isIndex, flagEq i iInside]
      simp [isIndex]
  cumulativeWeights := ⟨sum, rfl, sumEq⟩
  totalWeight := by
    have patched : prefixSum weight (picked ++ [index]) topK + weight index =
        prefixSum weight picked topK :=
      prefixSum_append_of_lt left inside
    dsimp only
    omega

section DrawLoop

variable (exact : mode.arithmetic.Exact) (weights : Weights topK weight)
  (agree : ∀ i < topK, weightCell i = weight i)
  (candidatesAgree : ∀ i < topK, candidateCell i = candidate i) (enough : maxCommitteeSize ≤ topK)

include exact weights agree candidatesAgree enough

theorem drawStep_spec (few : picked.length < maxCommitteeSize)
    (inv : DrawInv weight candidate topK picked drawing) (random : ℕ) :
    ∃ drawing' index,
      drawStep mode random topK ⟨topK, candidateCell⟩ ⟨topK, weightCell⟩ picked.length drawing =
          some (.next drawing') ∧
        roulette topK weight picked
            (slice random picked.length % prefixSum weight picked topK) = some index ∧
          DrawInv weight candidate topK (picked ++ [index]) drawing' := by
  have positive : 0 < prefixSum weight picked topK :=
    prefixSum_pos weights.pos (few.trans_le enough)
  obtain ⟨index, drawn⟩ : ∃ index, roulette topK weight picked
      (slice random picked.length % prefixSum weight picked topK) = some index :=
    exists_roulette_eq_some (Nat.mod_lt _ positive)
  rcases roulette_eq_some_iff.mp drawn with ⟨inside, left, -⟩
  have found := findSelected_spec inv drawn
  have total := inv.totalWeight
  rcases inv.selected with ⟨chosen, selected, chosenEq⟩
  rcases inv.selectedFlags with ⟨flag, flags, flagEq⟩
  rcases inv.cumulativeWeights with ⟨sum, sums, sumEq⟩
  rcases removeWeight_spec exact weights left inside sumEq with ⟨sum', removed, sumEq'⟩
  have totalFits : prefixSum weight picked topK < wordSize := weights.prefixSum_lt picked le_rfl
  have sizeFits : topK < wordSize := lt_wordSize (weights.size_le.trans_lt (by decide))
  refine ⟨⟨⟨maxCommitteeSize, update chosen picked.length (candidate index)⟩,
    ⟨topK, update flag index true⟩, ⟨topK, sum'⟩,
    prefixSum weight picked topK - weight index⟩, index, ?_, drawn, ?_⟩
  · have notDone : topK - picked.length ≠ 0 := by omega
    simp only [drawStep, exact.sub_eq sizeFits (show picked.length ≤ topK by omega), notDone,
      if_false, total, remainder, positive.ne', found, Option.bind_eq_bind,
      Option.bind_some, ge_iff_le, Nat.not_le.mpr inside, inside, if_true, selected, flags, sums,
      get_mk inside, set_mk few, set_mk inside, agree index inside, candidatesAgree index inside,
      removed, exact.sub_eq totalFits (weight_le_prefixSum left inside), Option.pure_def]
  · exact inv.append left inside chosenEq flagEq sumEq'

theorem draws_spec (random : ℕ) (inv : DrawInv weight candidate topK [] drawing) :
    ∃ drawing', Loop.run (drawStep mode random topK ⟨topK, candidateCell⟩ ⟨topK, weightCell⟩) 0
        maxCommitteeSize drawing = some drawing' ∧
      ∃ picked, picked.length = maxCommitteeSize ∧
        sample topK weight ((List.range maxCommitteeSize).map (slice random)) = some picked ∧
          DrawInv weight candidate topK picked drawing' := by
  have drawn : ∃ drawing', Loop.run (drawStep mode random topK ⟨topK, candidateCell⟩
      ⟨topK, weightCell⟩) 0 maxCommitteeSize drawing = some drawing' ∧
        ∃ picked, picked.length = 0 + maxCommitteeSize ∧
          sample topK weight ((List.range (0 + maxCommitteeSize)).map (slice random)) =
            some picked ∧ DrawInv weight candidate topK picked drawing' := by
    apply Loop.run_next fun (count : ℕ) (drawing : Drawing) => ∃ picked, picked.length = count ∧
      sample topK weight ((List.range count).map (slice random)) = some picked ∧
        DrawInv weight candidate topK picked drawing
    · rintro count drawing - high ⟨picked, rfl, sampled, inv⟩
      rcases drawStep_spec exact weights agree candidatesAgree enough (by omega) inv random with
        ⟨drawing', index, stepped, drawn, inv'⟩
      refine ⟨drawing', stepped, picked ++ [index], by simp, ?_, inv'⟩
      rw [range_succ, map_append, map_singleton, sample_append, sampled]
      simp [drawn]
    · exact ⟨[], rfl, rfl, inv⟩
  simpa only [Nat.zero_add] using drawn

end DrawLoop

end Draws

section Pool

structure PoolInv (state : State) : Prop where
  nodup : state.candidatePool.Nodup
  nonzero : 0 ∉ state.candidatePool

theorem removeAt_append (front : List Address) (last : Address) (index : ℕ) :
    removeAt (front ++ [last]) index =
      if index < front.length then front.set index last else front := by
  unfold removeAt
  rw [getLastD_concat]
  split_ifs with inside
  · rw [set_append_left _ _ inside, dropLast_concat]
  · rw [set_append_right _ _ (by omega)]
    cases beyond : index - front.length with
    | zero => simp
    | succ distance => simp

theorem removeAt_spec {pool : List Address} (unique : pool.Nodup) (index : ℕ) :
    (removeAt pool index).Nodup ∧ removeAt pool index ⊆ pool := by
  rcases eq_nil_or_concat pool with rfl | ⟨front, last, rfl⟩
  · simp [removeAt]
  · rw [concat_eq_append] at unique ⊢
    rw [nodup_append] at unique
    rcases unique with ⟨frontUnique, -, apart⟩
    have lastFresh : last ∉ front := by
      intro member
      exact apart last member last (mem_singleton_self last) rfl
    rw [removeAt_append]
    split_ifs
    · refine ⟨frontUnique.set lastFresh, ?_⟩
      intro member inPool
      rw [mem_append, mem_singleton]
      exact mem_or_eq_of_mem_set inPool
    · exact ⟨frontUnique, subset_append_left front [last]⟩

theorem poolInv_update {primitives : VrfPrimitives} {request : Request} {state state' : State}
    (update : Update primitives request state state') (inv : PoolInv state) : PoolInv state' := by
  cases update with
  | added candidate _ nonzero fresh =>
    refine ⟨?_, ?_⟩
    · simp only [State.emit]
      rw [nodup_append]
      refine ⟨inv.nodup, nodup_singleton candidate, ?_⟩
      intro member inPool other isCandidate
      rw [mem_singleton] at isCandidate
      rintro rfl
      exact fresh (isCandidate ▸ inPool)
    · simp [State.emit, inv.nonzero, nonzero.symm]
  | removed candidate index _ found =>
    rcases removeAt_spec inv.nodup index with ⟨unique, subset⟩
    exact ⟨unique, fun zero => inv.nonzero (subset zero)⟩
  | rewardPool | vrfGenerator | submitted | verified | rotated => exact ⟨inv.nodup, inv.nonzero⟩

theorem poolInv_create (self : Address) (initialCommittee : List Address)
    (vrfGenerator rewardPool : Address) (timestamp : ℕ) :
    PoolInv (State.create self initialCommittee vrfGenerator rewardPool timestamp) :=
  ⟨nodup_nil, not_mem_nil⟩

end Pool

theorem slice_eq (random k : ℕ) : slice random k = random / 2 ^ (32 * k) % 2 ^ 32 := by
  rw [slice, Nat.shiftRight_eq_div_pow, Nat.mul_comm k 32]
  exact Nat.and_two_pow_sub_one_eq_mod _ 32

theorem Extremes.congr {score score' : ℕ → ℕ} (same : ∀ i < count, score i = score' i)
    (extremes : Extremes score count lowest highest) :
    Extremes score' count lowest highest where
  bounds i inside := by
    rw [← same i inside]
    exact extremes.bounds i inside
  lowest_attained := by
    rcases extremes.lowest_attained with ⟨i, inside, attained⟩
    exact ⟨i, inside, (same i inside).symm.trans attained⟩
  highest_attained := by
    rcases extremes.highest_attained with ⟨i, inside, attained⟩
    exact ⟨i, inside, (same i inside).symm.trans attained⟩

theorem DrawInv.start {weight sum : ℕ → ℕ} (candidate : ℕ → Address) (positive : 0 < topK)
    (sumEq : ∀ i < topK, sum i = prefixSum weight [] (i + 1)) :
    DrawInv weight candidate topK []
      ⟨.create maxCommitteeSize 0, .create topK false, ⟨topK, sum⟩, sum (topK - 1)⟩ where
  nodup := nodup_nil
  inside := by simp
  selected := ⟨_, rfl, rfl⟩
  selectedFlags := ⟨_, rfl, by simp⟩
  cumulativeWeights := ⟨sum, rfl, sumEq⟩
  totalWeight := by
    dsimp only
    rw [sumEq (topK - 1) (by omega), Nat.sub_add_cancel positive]

theorem selectNewCommittee_of_sorted {mode : Mode} (exact : mode.arithmetic.Exact)
    {topK lowest highest : ℕ} {sorting : Sorting} {candidateCell candidate : ℕ → Address}
    {scoreCell score : ℕ → ℕ}
    (topKEq : (if pool.length < topKSize then pool.length else topKSize) = topK)
    (enough : maxCommitteeSize ≤ topK) (limited : topK ≤ topKSize)
    (sorted : Loop.run topKStep 0 topK (.start reputation pool topK) = some sorting)
    (candidatesEq : sorting.topKCandidates = ⟨topK, candidateCell⟩)
    (scoresEq : sorting.topKScores = ⟨topK, scoreCell⟩)
    (candidatesAgree : ∀ i < topK, candidateCell i = candidate i)
    (scoresAgree : ∀ i < topK, scoreCell i = score i)
    (returned : scoreExtremes ⟨topK, scoreCell⟩ topK = some (lowest, highest))
    (extremes : Extremes score topK lowest highest) (small : ∀ i < topK, score i ≤ maxReputation)
    (random : ℕ) :
    ∃ picked, picked.length = maxCommitteeSize ∧ picked.Nodup ∧ (∀ i ∈ picked, i < topK) ∧
      sample topK (fun i => weightOf lowest highest (score i))
        ((List.range maxCommitteeSize).map (slice random)) = some picked ∧
      selectNewCommittee mode reputation pool random = some (picked.map candidate) := by
  have positive : 0 < topK := lt_of_lt_of_le (by decide) enough
  have cellExtremes : Extremes scoreCell topK lowest highest :=
    extremes.congr fun i inside => (scoresAgree i inside).symm
  have cellSmall : ∀ i < topK, scoreCell i ≤ maxReputation := by
    intro i inside
    rw [scoresAgree i inside]
    exact small i inside
  rcases calculateWeights_spec exact positive returned cellExtremes cellSmall with
    ⟨weightCell, weighed, weightEq⟩
  have agree : ∀ i < topK, weightCell i = weightOf lowest highest (score i) := by
    intro i inside
    rw [weightEq i inside, scoresAgree i inside]
  have weights : Weights topK fun i => weightOf lowest highest (score i) :=
    { size_pos := positive
      size_le := limited
      pos := by
        intro i inside
        rcases extremes.bounds i inside with ⟨low, high⟩
        exact lt_of_lt_of_le (by decide) (weightOf_bounds low high).1
      le := by
        intro i inside
        rcases extremes.bounds i inside with ⟨low, high⟩
        exact (weightOf_bounds low high).2 }
  rcases accumulate_spec exact weights agree with ⟨sum, accumulated, sumEq⟩
  rcases draws_spec exact weights agree candidatesAgree enough random
      (DrawInv.start candidate positive sumEq) with
    ⟨drawing, drawn, picked, length, sampled, inv⟩
  rcases inv.selected with ⟨chosen, selected, chosenEq⟩
  refine ⟨picked, length, inv.nodup, inv.inside, sampled, ?_⟩
  rw [length] at chosenEq
  simp only [selectNewCommittee, topKEq, sorted, candidatesEq, scoresEq, weighed, accumulated,
    get_mk (show topK - 1 < topK by omega), drawn, Option.bind_eq_bind, Option.bind_some,
    selected, toList, chosenEq, Option.pure_def]

/-- What it means that a committee is drawn from the pool by the slices of a random value. -/
structure Drawn (reputation : Address → ℕ) (pool : List Address) (random : ℕ)
    (shortlist : List Address) (picked : List ℕ) : Prop where
  shortlist_length : shortlist.length = min pool.length topKSize
  isShortlist : IsShortlist reputation pool shortlist
  sampled : ∃ lowest highest,
    Extremes (fun i => reputation (shortlist.getD i 0)) shortlist.length lowest highest ∧
      sample shortlist.length
        (fun i => weightOf lowest highest (reputation (shortlist.getD i 0)))
        ((List.range maxCommitteeSize).map fun k => random / 2 ^ (32 * k) % 2 ^ 32) = some picked
  picked_length : picked.length = maxCommitteeSize
  picked_nodup : picked.Nodup
  picked_lt : ∀ i ∈ picked, i < shortlist.length

theorem selectNewCommittee_topKCandidates (unique : pool.Nodup)
    (enough : maxCommitteeSize ≤ pool.length)
    (small : ∀ candidate ∈ pool, reputation candidate ≤ maxReputation) (random : ℕ) :
    ∃ picked, Drawn reputation pool random (topKCandidates reputation pool) picked ∧
      ∀ mode : Mode, mode.arithmetic.Exact →
        selectNewCommittee mode reputation pool random =
          some (picked.map fun i => (topKCandidates reputation pool).getD i 0) := by
  obtain ⟨topK, topKMin⟩ : ∃ topK, topK = min pool.length topKSize := ⟨_, rfl⟩
  have topKEq : (if pool.length < topKSize then pool.length else topKSize) = topK := by
    rw [topKMin]
    split_ifs <;> omega
  have constants : maxCommitteeSize ≤ topKSize := by decide
  have sizes : maxCommitteeSize ≤ topK ∧ topK ≤ pool.length ∧ topK ≤ topKSize := by omega
  have positive : 0 < topK := lt_of_lt_of_le (by decide) sizes.1
  rcases sort_isShortlist reputation sizes.2.1 unique with
    ⟨shortlist, candidateCell, scoreCell, sorting, length, isShortlist, sorted, candidatesEq,
      scoresEq, candidatesAgree, scoresAgree⟩
  rw [topKCandidates_eq topKEq sorted candidatesEq length candidatesAgree]
  have scoreSmall : ∀ i < topK, reputation (shortlist.getD i 0) ≤ maxReputation := by
    intro i inside
    apply small
    apply isShortlist.subset
    rw [getD_eq_getElem?_getD, getElem?_eq_getElem (by omega), Option.getD_some]
    exact getElem_mem _
  obtain ⟨lowest, highest, returned, cellExtremes⟩ :
      ∃ lowest highest, scoreExtremes ⟨topK, scoreCell⟩ topK = some (lowest, highest) ∧
        Extremes scoreCell topK lowest highest :=
    scoreExtremes_spec positive
  have extremes := cellExtremes.congr scoresAgree
  have result (mode : Mode) (exact : mode.arithmetic.Exact) :=
    selectNewCommittee_of_sorted exact topKEq sizes.1 sizes.2.2 sorted candidatesEq scoresEq
      candidatesAgree scoresAgree returned extremes scoreSmall random
  rcases result .source Arithmetic.wrapping_exact with
    ⟨picked, pickedLength, pickedNodup, pickedInside, sampled, -⟩
  have slices : (fun k => random / 2 ^ (32 * k) % 2 ^ 32) = slice random :=
    funext fun k => (slice_eq random k).symm
  refine ⟨picked, ?_, ?_⟩
  · rw [← length] at extremes sampled pickedInside
    exact
      { shortlist_length := length.trans topKMin
        isShortlist
        sampled := ⟨lowest, highest, extremes, by rwa [slices]⟩
        picked_length := pickedLength
        picked_nodup := pickedNodup
        picked_lt := pickedInside }
  · intro mode exact
    rcases result mode exact with ⟨picked', -, -, -, sampled', selected⟩
    rw [sampled, Option.some.injEq] at sampled'
    rw [selected, sampled']

theorem Drawn.getD_mem {pool shortlist : List Address}
    (drawn : Drawn reputation pool random shortlist picked) {i : ℕ} (member : i ∈ picked) :
    shortlist.getD i 0 ∈ shortlist := by
  have inside := drawn.picked_lt i member
  rw [getD_eq_getElem?_getD, getElem?_eq_getElem inside, Option.getD_some]
  exact getElem_mem inside

theorem Drawn.nodup {pool shortlist : List Address}
    (drawn : Drawn reputation pool random shortlist picked) :
    (picked.map fun i => shortlist.getD i 0).Nodup := by
  apply List.Nodup.map_on _ drawn.picked_nodup
  intro i iMember j jMember same
  have iInside := drawn.picked_lt i iMember
  have jInside := drawn.picked_lt j jMember
  simp only [getD_eq_getElem?_getD, getElem?_eq_getElem iInside,
    getElem?_eq_getElem jInside, Option.getD_some] at same
  exact (drawn.isShortlist.nodup.getElem_inj_iff).mp same

/-- The committee is drawn from the pool as specified; the strict mode has the same result, so
nothing wraps. -/
theorem committee_drawn (primitives : VrfPrimitives) (self : Address)
    (initialCommittee : List Address) (vrfGenerator rewardPool : Address) (timestamp : ℕ)
    (script : Script Call) {state : State} (reached : state ∈ (script.run (execute primitives)
      (State.create self initialCommittee vrfGenerator rewardPool timestamp)).seen)
    (enough : maxCommitteeSize ≤ state.candidatePool.length) {reputation : Address → ℕ}
    (small : ∀ candidate ∈ state.candidatePool, reputation candidate ≤ maxReputation) (random : ℕ) :
    ∃ committee shortlist picked,
      selectNewCommittee .source reputation state.candidatePool random = some committee ∧
      selectNewCommittee .strict reputation state.candidatePool random = some committee ∧
      committee.length = maxCommitteeSize ∧ committee.Nodup ∧
      (∀ member ∈ committee, member ≠ 0 ∧ member ∈ state.candidatePool ∧ member ∈ shortlist) ∧
      Drawn reputation state.candidatePool random shortlist picked ∧
      committee = picked.map fun i => shortlist.getD i 0 := by
  have inv : PoolInv state :=
    invariant_of_mem_seen (fun _ _ _ update => poolInv_update update)
      (poolInv_create self initialCommittee vrfGenerator rewardPool timestamp) script reached
  rcases selectNewCommittee_topKCandidates inv.nodup enough small random with
    ⟨picked, drawn, selected⟩
  refine ⟨_, _, picked, selected .source Arithmetic.wrapping_exact,
    selected .strict Arithmetic.checked_exact, ?_, drawn.nodup, ?_, drawn, rfl⟩
  · rw [length_map, drawn.picked_length]
  · intro member inCommittee
    rw [mem_map] at inCommittee
    rcases inCommittee with ⟨i, iMember, rfl⟩
    have listed := drawn.getD_mem iMember
    have inPool := drawn.isShortlist.subset listed
    refine ⟨?_, inPool, listed⟩
    intro zero
    exact inv.nonzero (zero ▸ inPool)

theorem committee_drawn_three_candidates :
    ∃ committee shortlist picked,
      selectNewCommittee .source (fun candidate => candidate * 100) verifiedState.candidatePool
        sampleOutput = some committee ∧
      Drawn (fun candidate => candidate * 100) verifiedState.candidatePool sampleOutput shortlist
        picked ∧
      committee = picked.map fun i => shortlist.getD i 0 := by
  have pool : verifiedState.candidatePool = [11, 12, 13] := by decide +kernel
  have small : ∀ candidate ∈ verifiedState.candidatePool, candidate * 100 ≤ maxReputation := by
    rw [pool]
    decide
  rcases committee_drawn sampleVrf 0xc0 [21, 22, 23] 7 0 0 verifiedScript verifiedState_mem_seen
      (by rw [pool]; decide) small sampleOutput with
    ⟨committee, shortlist, picked, selected, -, -, -, -, drawn, committeeEq⟩
  exact ⟨committee, shortlist, picked, selected, drawn, committeeEq⟩

end TigerMixer.Rotation
