import Mathlib.Data.Finset.Range
import TigerMixer.Rotation.Selection

/-!
# The shortlist

The partial selection sort of `selectNewCommittee`. The score array always holds the reputations of
the candidate array, and the arrays stay a rearrangement of the pool. After `i` iterations position
`a < i` holds a candidate that scores at least as much as everyone from `a` on.
-/

namespace TigerMixer.Rotation

open Function Equiv List

section Swap

variable {α : Type*}

theorem update_update_eq_swap (cell : ℕ → α) (i m : ℕ) :
    update (update cell i (cell m)) m (cell i) = cell ∘ swap i m := by
  funext j
  by_cases atM : j = m
  · subst atM
    simp
  · by_cases atI : j = i
    · subst atI
      simp [atM]
    · simp [atM, atI, swap_apply_of_ne_of_ne atI atM]

theorem map_swap_perm (cell : ℕ → α) {i m n : ℕ} (iInside : i < n) (mInside : m < n) :
    ((List.range n).map (cell ∘ swap i m)).Perm ((List.range n).map cell) := by
  rw [← map_map]
  apply List.Perm.map
  rw [perm_ext_iff_of_nodup ((nodup_range).map (swap i m).injective)
    nodup_range]
  have closed (j : ℕ) (inside : j < n) : swap i m j < n := by
    rw [swap_apply_def]
    split_ifs
    · exact mInside
    · exact iInside
    · exact inside
  intro j
  simp only [mem_map, mem_range]
  refine ⟨?_, ?_⟩
  · rintro ⟨k, inside, rfl⟩
    exact closed k inside
  · intro inside
    exact ⟨swap i m j, closed j inside, swap_apply_self i m j⟩

end Swap

theorem maxIndex_spec {score : ℕ → ℕ} {n i : ℕ} (inside : i < n) :
    ∃ m, maxIndex ⟨n, score⟩ i = some m ∧ i ≤ m ∧ m < n ∧
      ∀ j, i ≤ j → j < n → score j ≤ score m := by
  have count : i + 1 + (n - (i + 1)) = n := by omega
  have scanned : ∃ m, maxIndex ⟨n, score⟩ i = some m ∧ i ≤ m ∧ m < n ∧
      ∀ j, i ≤ j → j < i + 1 + (n - (i + 1)) → score j ≤ score m := by
    -- The invariant: `m` is the best index before `j`.
    apply Loop.run_next fun j m => i ≤ m ∧ m < n ∧ ∀ l, i ≤ l → l < j → score l ≤ score m
    · rintro j m low high ⟨mLow, mHigh, best⟩
      have jInside : j < n := by
        dsimp only at high
        omega
      simp only [MemArray.get_mk jInside, MemArray.get_mk mHigh, Option.bind_eq_bind,
        Option.bind_some]
      split_ifs with better
      · refine ⟨j, rfl, by omega, jInside, ?_⟩
        intro l lLow lHigh
        by_cases last : l = j
        · rw [last]
        · have bound := best l lLow (by omega)
          omega
      · refine ⟨m, rfl, mLow, mHigh, ?_⟩
        intro l lLow lHigh
        by_cases last : l = j
        · subst last
          omega
        · exact best l lLow (by omega)
    · refine ⟨le_rfl, inside, ?_⟩
      intro l low high
      rw [show l = i by omega]
  rwa [count] at scanned

structure SortInv (reputation : Address → ℕ) (pool : List Address) (topK i : ℕ)
    (sorting : Sorting) (candidate : ℕ → Address) : Prop where
  candidates : sorting.candidates = ⟨pool.length, candidate⟩
  scores : sorting.scores = ⟨pool.length, reputation ∘ candidate⟩
  perm : ((List.range pool.length).map candidate).Perm pool
  sorted : ∀ a < i, ∀ b, a ≤ b → b < pool.length →
    reputation (candidate b) ≤ reputation (candidate a)
  topKCandidates : ∃ cell, sorting.topKCandidates = ⟨topK, cell⟩ ∧ ∀ a < i, cell a = candidate a
  topKScores : ∃ cell, sorting.topKScores = ⟨topK, cell⟩ ∧
    ∀ a < i, cell a = reputation (candidate a)

section Iteration

variable {reputation : Address → ℕ} {pool : List Address} {topK : ℕ}

theorem sortInv_start : SortInv reputation pool topK 0 (.start reputation pool topK)
    fun i => pool.getD i 0 where
  candidates := rfl
  scores := rfl
  perm := by
    have same : (List.range pool.length).map (fun i => pool.getD i 0) = pool := by
      apply ext_getElem
      · simp
      · intro i low high
        simp [high]
    rw [same]
  sorted := by simp
  topKCandidates := ⟨_, rfl, by simp⟩
  topKScores := ⟨_, rfl, by simp⟩

theorem update_agrees {α : Type} {cell target : ℕ → α} {i : ℕ}
    (agrees : ∀ a < i, cell a = target a) {a : ℕ} (below : a < i + 1) :
    update cell i (target i) a = target a := by
  by_cases last : a = i
  · rw [last, update_self]
  · rw [update_of_ne last, agrees a (by omega)]

theorem topKStep_spec {i : ℕ} {sorting : Sorting} {candidate : ℕ → Address} (inTopK : i < topK)
    (fits : topK ≤ pool.length) (inv : SortInv reputation pool topK i sorting candidate) :
    ∃ sorting', topKStep i sorting = some (.next sorting') ∧
      ∃ candidate', SortInv reputation pool topK (i + 1) sorting' candidate' := by
  rcases sorting with ⟨scores, candidates, topKScores, topKCandidates⟩
  obtain ⟨rfl, rfl⟩ : candidates = ⟨pool.length, candidate⟩ ∧
      scores = ⟨pool.length, reputation ∘ candidate⟩ := ⟨inv.candidates, inv.scores⟩
  rcases inv.topKCandidates with ⟨topCandidate, candidatesEq, copied⟩
  rcases inv.topKScores with ⟨topScore, scoresEq, scoresCopied⟩
  dsimp only at candidatesEq scoresEq
  subst candidatesEq scoresEq
  have inside : i < pool.length := by omega
  obtain ⟨m, found, low, high, best⟩ :
      ∃ m, maxIndex ⟨pool.length, reputation ∘ candidate⟩ i = some m ∧ i ≤ m ∧ m < pool.length ∧
        ∀ j, i ≤ j → j < pool.length → reputation (candidate j) ≤ reputation (candidate m) :=
    maxIndex_spec inside
  have swapped : update (update (reputation ∘ candidate) i
      (reputation (candidate m))) m (reputation (candidate i)) =
        reputation ∘ candidate ∘ swap i m :=
    update_update_eq_swap (reputation ∘ candidate) i m
  have atI : (candidate ∘ swap i m) i = candidate m := by simp
  have unmoved {a : ℕ} (before : a < i) : (candidate ∘ swap i m) a = candidate a := by
    rw [comp_apply, swap_apply_of_ne_of_ne (by omega) (by omega)]
  have step : topKStep i ⟨⟨pool.length, reputation ∘ candidate⟩, ⟨pool.length, candidate⟩,
      ⟨topK, topScore⟩, ⟨topK, topCandidate⟩⟩ =
        some (.next ⟨⟨pool.length, reputation ∘ candidate ∘ swap i m⟩,
          ⟨pool.length, candidate ∘ swap i m⟩,
          ⟨topK, update topScore i (reputation (candidate m))⟩,
          ⟨topK, update topCandidate i (candidate m)⟩⟩) := by
    simp only [topKStep, found, MemArray.get_mk inside, MemArray.get_mk high,
      MemArray.set_mk inside, MemArray.set_mk high, MemArray.set_mk inTopK, Option.bind_eq_bind,
      Option.bind_some, comp_apply, swapped, update_update_eq_swap,
      swap_apply_left, Option.pure_def]
  refine ⟨_, step, candidate ∘ swap i m, ?_⟩
  exact
    { candidates := rfl
      scores := rfl
      perm := (map_swap_perm candidate inside high).trans inv.perm
      sorted := by
        intro a aBelow b aLe bInside
        by_cases last : a = i
        · subst last
          rw [atI, comp_apply, swap_apply_def]
          split_ifs
          · exact le_rfl
          · exact best a le_rfl inside
          · exact best b aLe bInside
        · have aBefore : a < i := by omega
          rw [unmoved aBefore, comp_apply, swap_apply_def]
          split_ifs
          · exact inv.sorted a aBefore m (by omega) high
          · exact inv.sorted a aBefore i (by omega) inside
          · exact inv.sorted a aBefore b aLe bInside
      topKCandidates := by
        refine ⟨_, rfl, fun a => ?_⟩
        rw [← atI]
        exact update_agrees fun a before => (copied a before).trans (by rw [unmoved before])
      topKScores := by
        refine ⟨_, rfl, fun a => ?_⟩
        rw [← atI]
        exact @update_agrees ℕ topScore (reputation ∘ candidate ∘ swap i m) i
          (fun a before => (scoresCopied a before).trans (by
            rw [comp_apply, unmoved before])) a }

theorem sort_spec (reputation : Address → ℕ) (fits : topK ≤ pool.length) :
    ∃ sorting, Loop.run topKStep 0 topK (.start reputation pool topK) = some sorting ∧
      ∃ candidate, SortInv reputation pool topK topK sorting candidate := by
  have sorted : ∃ sorting, Loop.run topKStep 0 topK (.start reputation pool topK) = some sorting ∧
      ∃ candidate, SortInv reputation pool topK (0 + topK) sorting candidate := by
    apply Loop.run_next fun i sorting =>
      ∃ candidate, SortInv reputation pool topK i sorting candidate
    · rintro i sorting - high ⟨candidate, inv⟩
      exact topKStep_spec (by omega) fits inv
    · exact ⟨_, sortInv_start⟩
  rwa [Nat.zero_add] at sorted

end Iteration

/-- The shortlist holds different members of the pool, in order of their scores, and nobody outside
it scores more than anyone inside. -/
structure IsShortlist (reputation : Address → ℕ) (pool shortlist : List Address) : Prop where
  nodup : shortlist.Nodup
  subset : shortlist ⊆ pool
  sorted : shortlist.Pairwise fun first second => reputation second ≤ reputation first
  dominates : ∀ inside ∈ shortlist, ∀ outside ∈ pool, outside ∉ shortlist →
    reputation outside ≤ reputation inside

variable {reputation : Address → ℕ} {pool : List Address} {topK : ℕ}

theorem SortInv.isShortlist {sorting : Sorting} {candidate : ℕ → Address}
    (fits : topK ≤ pool.length) (unique : pool.Nodup)
    (inv : SortInv reputation pool topK topK sorting candidate) :
    IsShortlist reputation pool ((List.range topK).map candidate) := by
  have sublist : ((List.range topK).map candidate).Sublist
      ((List.range pool.length).map candidate) := by
    apply List.Sublist.map
    exact range_sublist.mpr fits
  exact
    { nodup := sublist.nodup (inv.perm.nodup_iff.mpr unique)
      subset := List.Subset.trans sublist.subset inv.perm.subset
      sorted := by
        rw [pairwise_map]
        apply pairwise_lt_range.imp_of_mem
        intro a b aMember bMember below
        rw [mem_range] at aMember bMember
        exact inv.sorted a aMember b below.le (by omega)
      dominates := by
        intro inside insideMember outside outsideMember notListed
        rw [mem_map] at insideMember
        rcases insideMember with ⟨a, aMember, rfl⟩
        rw [← inv.perm.mem_iff, mem_map] at outsideMember
        rcases outsideMember with ⟨b, bMember, rfl⟩
        rw [mem_range] at aMember bMember
        have beyond : topK ≤ b := by
          by_contra below
          exact notListed (mem_map_of_mem (mem_range.mpr (by omega)))
        exact inv.sorted a aMember b (by omega) bMember }

theorem sort_isShortlist (reputation : Address → ℕ) (fits : topK ≤ pool.length)
    (unique : pool.Nodup) :
    ∃ (shortlist : List Address) (candidateCell : ℕ → Address) (scoreCell : ℕ → ℕ)
      (sorting : Sorting),
      shortlist.length = topK ∧ IsShortlist reputation pool shortlist ∧
      Loop.run topKStep 0 topK (.start reputation pool topK) = some sorting ∧
      sorting.topKCandidates = ⟨topK, candidateCell⟩ ∧
      sorting.topKScores = ⟨topK, scoreCell⟩ ∧
      (∀ i < topK, candidateCell i = shortlist.getD i 0) ∧
      ∀ i < topK, scoreCell i = reputation (shortlist.getD i 0) := by
  rcases sort_spec reputation fits with ⟨sorting, sorted, candidate, inv⟩
  rcases inv.topKCandidates with ⟨candidateCell, candidatesEq, candidatesAgree⟩
  rcases inv.topKScores with ⟨scoreCell, scoresEq, scoresAgree⟩
  have listed {i : ℕ} (inside : i < topK) :
      ((List.range topK).map candidate).getD i 0 = candidate i := by
    simp [inside]
  refine ⟨(List.range topK).map candidate, candidateCell, scoreCell, sorting, by simp,
    inv.isShortlist fits unique, sorted, candidatesEq, scoresEq, ?_, ?_⟩
  · intro i inside
    rw [candidatesAgree i inside, listed inside]
  · intro i inside
    rw [scoresAgree i inside, listed inside]

def topKCandidates (reputation : Address → ℕ) (pool : List Address) : List Address :=
  let topK := if pool.length < topKSize then pool.length else topKSize
  match Loop.run topKStep 0 topK (.start reputation pool topK) with
  | none => []
  | some sorting => sorting.topKCandidates.toList

theorem topKCandidates_eq {pool shortlist : List Address} {sorting : Sorting}
    {candidateCell : ℕ → Address}
    (topKEq : (if pool.length < topKSize then pool.length else topKSize) = topK)
    (sorted : Loop.run topKStep 0 topK (.start reputation pool topK) = some sorting)
    (candidatesEq : sorting.topKCandidates = ⟨topK, candidateCell⟩)
    (length : shortlist.length = topK) (agree : ∀ i < topK, candidateCell i = shortlist.getD i 0) :
    topKCandidates reputation pool = shortlist := by
  simp only [topKCandidates, topKEq, sorted, candidatesEq, MemArray.toList]
  apply ext_getElem
  · simp [length]
  · intro i inList inShortlist
    rw [getElem_map, getElem_range, agree i (by omega), getD_eq_getElem?_getD,
      getElem?_eq_getElem inShortlist, Option.getD_some]

end TigerMixer.Rotation
