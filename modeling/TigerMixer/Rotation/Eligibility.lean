import TigerMixer.Reputation.Recurrence
import TigerMixer.Rotation.Committee
import TigerMixer.Staking.Contract

/-!
# Eligibility of the committee

Neither joining the pool nor the selection asks for eligibility, so whether a rotation can bring an
ineligible member into the committee depends on the shortlist alone. Every candidate on it is the
first pick for some random value, since weights are positive and their sum fits into the four bytes
of a slice.
-/

namespace TigerMixer.Rotation

open Calls Sampling

def isEligibleForCommittee (staking : Staking.State) (reputation : Reputation.State)
    (candidate : Address) : Bool :=
  let stakeInfo := staking.getStakeInfo candidate
  if stakeInfo.amount = 0 ∨ ¬stakeInfo.isActive then false
  else if reputation.calculateReputation candidate = 0 then false
  else true

section Draw

variable {reputation : Address → ℕ} {pool : List Address}

theorem Extremes.unique {score : ℕ → ℕ} {count lowest highest lowest' highest' : ℕ}
    (extremes : Extremes score count lowest highest)
    (extremes' : Extremes score count lowest' highest') :
    lowest = lowest' ∧ highest = highest' := by
  rcases extremes.lowest_attained with ⟨low, lowInside, rfl⟩
  rcases extremes.highest_attained with ⟨high, highInside, rfl⟩
  rcases extremes'.lowest_attained with ⟨low', lowInside', rfl⟩
  rcases extremes'.highest_attained with ⟨high', highInside', rfl⟩
  constructor
  · apply le_antisymm
    · exact (extremes.bounds low' lowInside').1
    · exact (extremes'.bounds low lowInside).1
  · apply le_antisymm
    · exact (extremes'.bounds high highInside).2
    · exact (extremes.bounds high' highInside').2

theorem exists_random_of_mem_topKCandidates (unique : pool.Nodup)
    (enough : maxCommitteeSize ≤ pool.length)
    (small : ∀ candidate ∈ pool, reputation candidate ≤ maxReputation) {candidate : Address}
    (listed : candidate ∈ topKCandidates reputation pool) :
    ∃ random < wordSize, random ≠ 0 ∧ ∀ picked,
      Drawn reputation pool random (topKCandidates reputation pool) picked →
        candidate ∈ picked.map fun i => (topKCandidates reputation pool).getD i 0 := by
  rcases List.getElem_of_mem listed with ⟨index, inside, rfl⟩
  rcases selectNewCommittee_topKCandidates unique enough small 1 with ⟨first, drawn, -⟩
  rcases drawn.sampled with ⟨lowest, highest, extremes, -⟩
  have size : (topKCandidates reputation pool).length ≤ topKSize := by
    rw [drawn.shortlist_length]
    exact min_le_right _ _
  generalize topKCandidates reputation pool = shortlist at *
  have bounds (i : ℕ) (inside : i < shortlist.length) :=
    weightOf_bounds (extremes.bounds i inside).1 (extremes.bounds i inside).2
  have sum : prefixSum (fun i => weightOf lowest highest (reputation (shortlist.getD i 0))) []
      index < 2 ^ 32 := by
    calc _ ≤ index * maxWeight := prefixSum_le fun i below => (bounds i (by omega)).2
      _ ≤ topKSize * maxWeight := Nat.mul_le_mul_right _ (by omega)
      _ < 2 ^ 32 := by decide
  have picks := @roulette_prefixSum shortlist.length index
    (fun i => weightOf lowest highest (reputation (shortlist.getD i 0))) [] inside
    List.not_mem_nil (lt_of_lt_of_le (by decide) (bounds index inside).1)
  generalize prefixSum (fun i => weightOf lowest highest (reputation (shortlist.getD i 0))) []
    index = value at *
  -- The bit above the first slice keeps the random value from being zero.
  refine ⟨value + 2 ^ 32, lt_wordSize (by omega), by omega, ?_⟩
  intro picked drawn'
  rcases drawn'.sampled with ⟨lowest', highest', extremes', sampled⟩
  rcases extremes.unique extremes' with ⟨rfl, rfl⟩
  have slice : (value + 2 ^ 32) / 2 ^ (32 * 0) % 2 ^ 32 = value := by omega
  simp only [maxCommitteeSize, List.range_succ_eq_map, List.map_cons, slice] at sampled
  refine List.mem_map.mpr ⟨index, mem_of_sample_cons picks sampled, ?_⟩
  rw [List.getD_eq_getElem?_getD, List.getElem?_eq_getElem inside, Option.getD_some]

end Draw

variable {state : State} {msg : Msg} {reputation : Address → ℕ}

theorem rotateCommittee_undisturbed {newCommittee : List Address}
    (due : state.canRotate msg.timestamp) (enough : maxCommitteeSize ≤ state.candidatePool.length)
    (set : state.currentVRFRandom ≠ 0) (unused : state.currentVRFUsed = false)
    (pool : state.rewardPool = 0 ∨ state.rewardPool ≠ state.self)
    (selected : selectNewCommittee .source reputation state.candidatePool
      state.currentVRFRandom = some newCommittee) :
    ((rotateCommittee msg ⟨reputation, some 1⟩ state).interp ([] : Callbacks)).final =
      some (state.rotated msg.timestamp newCommittee) := by
  have first : ¬0 < Word.sub 1 1 := by
    rw [Word.sub_of_le (lt_wordSize (by decide)) le_rfl]
    decide
  by_cases none : state.rewardPool = 0
  · simp [rotateCommittee, Prog.require, due, enough, set, unused, selected, none, Prog.interp]
  · have other : state.rewardPool ≠ state.self := pool.resolve_left none
    simp [rotateCommittee, Prog.require, due, enough, set, unused, selected, none, other,
      Prog.interp, distributeRewards, first]

section Rotated

variable {state state' : State} {msg : Msg} {views : Views} {callbacks : Callbacks}

theorem pools_of_rotated
    (returned : ((rotateCommittee msg views state).interp callbacks).final = some state') :
    maxCommitteeSize ≤ state.candidatePool.length ∧
      (state.rewardPool = 0 ∨ state.rewardPool ≠ state.self) := by
  have ends : (rotateCommittee msg views state).Ends fun _ =>
      maxCommitteeSize ≤ state.candidatePool.length ∧
        (state.rewardPool = 0 ∨ state.rewardPool ≠ state.self) :=
    (rotateCommittee_updates msg views state).ends fun _ _ rotates =>
      ⟨rotates.enough, rotates.pool⟩
  exact ends.of_final returned

theorem drawn_of_rotated (unique : state.candidatePool.Nodup)
    (small : ∀ candidate, views.reputation candidate ≤ maxReputation)
    (returned : ((rotateCommittee msg views state).interp callbacks).final = some state') :
    ∃ picked, Drawn views.reputation state.candidatePool state.currentVRFRandom
        (topKCandidates views.reputation state.candidatePool) picked ∧
      state'.currentCommittee =
        picked.map fun i => (topKCandidates views.reputation state.candidatePool).getD i 0 := by
  rcases selectNewCommittee_topKCandidates unique (pools_of_rotated returned).1
    (fun candidate _ => small candidate) state.currentVRFRandom with ⟨picked, drawn, selected⟩
  have committee := (rotateCommittee_ends msg views state).of_final returned
  rw [selected .source Arithmetic.wrapping_exact, Option.some.injEq] at committee
  exact ⟨picked, drawn, committee.symm⟩

end Rotated

theorem exists_rotation_of_mem_topKCandidates (inv : PoolInv state)
    (small : ∀ candidate, reputation candidate ≤ maxReputation)
    (enough : maxCommitteeSize ≤ state.candidatePool.length)
    (pool : state.rewardPool = 0 ∨ state.rewardPool ≠ state.self) {candidate : Address}
    (listed : candidate ∈ topKCandidates reputation state.candidatePool) :
    ∃ (submission msg : Msg) (random : ℕ) (proof publicKey message : Bytes) (epoch : Option ℕ)
        (callbacks : Callbacks) (ready state' : State), random < wordSize ∧
      submitVRFRandomWithProof submission random proof publicKey message state = .done ready ∧
      ((rotateCommittee msg ⟨reputation, epoch⟩ ready).interp callbacks).final = some state' ∧
      candidate ∈ state'.currentCommittee := by
  rcases exists_random_of_mem_topKCandidates inv.nodup enough (fun other _ => small other) listed
    with ⟨random, fits, nonzero, draws⟩
  rcases selectNewCommittee_topKCandidates inv.nodup enough (fun other _ => small other) random
    with ⟨picked, drawn, selected⟩
  have submitted : submitVRFRandomWithProof ⟨state.vrfGenerator, 0, 0⟩ random
      (List.replicate 81 0) (List.replicate 33 0) [] state =
        .done (state.submitted 0 random (List.replicate 81 0) (List.replicate 33 0) []) := by
    simp [submitVRFRandomWithProof, Prog.require, State.Authorized]
  have returned := @rotateCommittee_undisturbed
    (state.submitted 0 random (List.replicate 81 0) (List.replicate 33 0) [])
    ⟨0, 0, Word.add state.lastRotationTime 20⟩ reputation _
    (by simp [State.canRotate, State.submitted, State.emit]) enough nonzero rfl pool
    (selected .source Arithmetic.wrapping_exact)
  exact ⟨_, _, random, _, _, _, _, _, _, _, fits, submitted, returned, draws picked drawn⟩

/-- Rotations bring only eligible members into the committee exactly if the shortlist is eligible or
no rotation is possible. -/
theorem committee_eligible_iff (primitives : VrfPrimitives) (self : Address)
    (initialCommittee : List Address) (vrfGenerator rewardPool : Address) (timestamp : ℕ)
    (script : Script Call) {state : State} (reached : state ∈ (script.run (execute primitives)
      (State.create self initialCommittee vrfGenerator rewardPool timestamp)).seen)
    (members : List Address) (created : ℕ) (reports : List Reputation.Call)
    (staking : Staking.State) :
    let reputation := (Reputation.State.create members created).run reports
    let shortlist := topKCandidates reputation.calculateReputation state.candidatePool
    ((∀ (submission msg : Msg) (random : ℕ) (proof publicKey message : Bytes) (epoch : Option ℕ)
        (callbacks : Callbacks) (ready state' : State), random < wordSize →
      submitVRFRandomWithProof submission random proof publicKey message state = .done ready →
      ((rotateCommittee msg ⟨reputation.calculateReputation, epoch⟩ ready).interp
        callbacks).final = some state' →
      ∀ member ∈ state'.currentCommittee, isEligibleForCommittee staking reputation member) ↔
      state.candidatePool.length < maxCommitteeSize ∨
        (state.rewardPool ≠ 0 ∧ state.rewardPool = state.self) ∨
        ∀ candidate ∈ shortlist, isEligibleForCommittee staking reputation candidate) ∧
    ∀ (msg : Msg) (epoch : Option ℕ) (callbacks : Callbacks) (state' : State),
      ((rotateCommittee msg ⟨reputation.calculateReputation, epoch⟩ state).interp
        callbacks).final = some state' →
      ∃ picked, Drawn reputation.calculateReputation state.candidatePool state.currentVRFRandom
          shortlist picked ∧
        ((∀ member ∈ state'.currentCommittee, isEligibleForCommittee staking reputation member) ↔
          ∀ i ∈ picked, isEligibleForCommittee staking reputation (shortlist.getD i 0)) := by
  intro reputation shortlist
  have inv : PoolInv state :=
    invariant_of_mem_seen (fun _ _ _ update => poolInv_update update)
      (poolInv_create self initialCommittee vrfGenerator rewardPool timestamp) script reached
  have small (candidate : Address) : reputation.calculateReputation candidate ≤ maxReputation :=
    Reputation.State.calculateReputation_le
      (Reputation.Bounded.run (Reputation.bounded_create members created) reports candidate)
  refine ⟨⟨?_, ?_⟩, ?_⟩
  · intro eligible
    by_contra refuted
    push Not at refuted
    rcases refuted with ⟨enough, pool, candidate, listed, ineligible⟩
    have undisturbed : state.rewardPool = 0 ∨ state.rewardPool ≠ state.self := by
      by_cases none : state.rewardPool = 0
      · exact Or.inl none
      · exact Or.inr (pool none)
    rcases exists_rotation_of_mem_topKCandidates inv small enough undisturbed listed with
      ⟨submission, msg, random, proof, publicKey, message, epoch, callbacks, ready, state', fits,
        submitted, returned, elected⟩
    exact ineligible (eligible submission msg random proof publicKey message epoch callbacks ready
      state' fits submitted returned candidate elected)
  · rintro condition submission msg random proof publicKey message epoch callbacks ready state' -
      submitted returned member inCommittee
    simp only [submitVRFRandomWithProof, Prog.require] at submitted
    split_ifs at submitted
    cases submitted
    rcases pools_of_rotated returned with ⟨enough, pool⟩
    rcases condition with few | ⟨set, same⟩ | eligible
    · exact absurd enough (by simpa [State.submitted, State.emit] using few)
    · rcases pool with none | other
      · exact absurd none set
      · exact absurd same other
    · have unique : (state.submitted submission.timestamp random proof publicKey
        message).candidatePool.Nodup := inv.nodup
      rcases drawn_of_rotated unique small returned with ⟨picked, drawn, committee⟩
      rw [committee, List.mem_map] at inCommittee
      rcases inCommittee with ⟨i, picks, rfl⟩
      exact eligible _ (drawn.getD_mem picks)
  · intro msg epoch callbacks state' returned
    rcases drawn_of_rotated inv.nodup small returned with ⟨picked, drawn, committee⟩
    refine ⟨picked, drawn, ?_⟩
    rw [committee, List.forall_mem_map]

section Sample

def candidatesStake : Script Staking.Call :=
  .call ⟨⟨11, Staking.requiredStake, 5⟩, .stake⟩ [] <|
  .call ⟨⟨12, Staking.requiredStake, 6⟩, .stake⟩ [] <|
  .call ⟨⟨13, Staking.requiredStake, 7⟩, .stake⟩ [] <|
  .stop true

def candidatesStaked : Staking.State :=
  ((candidatesStake.run Staking.execute (.create 1 2 0)).final).get (by decide +kernel)

def candidatesReputation : Reputation.State := .create [11, 12, 13] 0

def candidatesRotated : State :=
  (((rotateCommittee ⟨9, 0, 30⟩ ⟨candidatesReputation.calculateReputation, none⟩
    verifiedState).interp ([] : Callbacks)).final).get (by decide +kernel)

theorem candidatesRotated_spec :
    ((rotateCommittee ⟨9, 0, 30⟩ ⟨candidatesReputation.calculateReputation, none⟩
      verifiedState).interp ([] : Callbacks)).final = some candidatesRotated := by
  rw [candidatesRotated, Option.some_get]

end Sample

theorem committee_eligible_staked :
    candidatesRotated.currentCommittee.length = 3 ∧
      ∀ member ∈ candidatesRotated.currentCommittee,
        isEligibleForCommittee candidatesStaked candidatesReputation member := by
  refine ⟨by decide +kernel, ?_⟩
  have spec := committee_eligible_iff sampleVrf 0xc0 [21, 22, 23] 7 0 0 verifiedScript
    verifiedState_mem_seen [11, 12, 13] 0 [] candidatesStaked
  rcases spec.2 ⟨9, 0, 30⟩ none [] candidatesRotated candidatesRotated_spec with
    ⟨picked, drawn, eligible⟩
  apply eligible.mpr
  intro i picks
  have all : ∀ candidate ∈ topKCandidates candidatesReputation.calculateReputation
      verifiedState.candidatePool,
      isEligibleForCommittee candidatesStaked candidatesReputation candidate := by
    decide +kernel
  exact all _ (drawn.getD_mem picks)

/-- Three accounts that never staked become the committee. -/
theorem committee_of_unstaked :
    verifiedState ∈ (verifiedScript.run (execute sampleVrf) sampleCreated).seen ∧
      ((rotateCommittee ⟨9, 0, 30⟩ ⟨candidatesReputation.calculateReputation, none⟩
        verifiedState).interp ([] : Callbacks)).final = some candidatesRotated ∧
      candidatesRotated.currentCommittee.length = 3 ∧
      ∀ member ∈ candidatesRotated.currentCommittee,
        ¬isEligibleForCommittee (.create 1 2 0) candidatesReputation member := by
  refine ⟨verifiedState_mem_seen, candidatesRotated_spec, by decide +kernel, ?_⟩
  intro member _
  simp [isEligibleForCommittee, Staking.State.getStakeInfo, Staking.State.create,
    Staking.StakeInfo.blank]

end TigerMixer.Rotation
