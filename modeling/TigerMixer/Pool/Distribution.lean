import Mathlib.Data.Set.Card
import TigerMixer.Pool.Solvency

/-!
# The rewards of an epoch

An epoch is paid out completely if every account with transactions in it is entitled to its share.
Then less than one unit is lost for each account. Once the rewards of a past epoch are distributed
its entitlements can only shrink, so an account that was left out has lost its share for good.
-/

namespace TigerMixer.Pool

open Calls

def EpochReward.share (record : EpochReward) (member : Address) : ℕ :=
  record.totalReward * record.memberTransactions member / record.totalTransactions

theorem memberShares_eq_share {record : EpochReward}
    (unset : ∀ member, record.memberRewards member = 0)
    (exact : ∀ member, record.totalReward * record.memberTransactions member < wordSize)
    (members : List Address) (member : Address) :
    memberShares record members member = if member ∈ members then record.share member else 0 := by
  rw [memberShares_apply, unset, Word.mul_of_lt (exact member)]
  by_cases listed : member ∈ members
  · by_cases credited : 0 < record.memberTransactions member
    · simp [listed, credited, EpochReward.share]
    · simp [listed, EpochReward.share, Nat.eq_zero_of_not_pos credited]
  · simp [listed]

/-- Every account with transactions in an epoch is entitled to its share, and is paid when it claims
it. A share of zero is not claimed. -/
def State.Complete (state : State) (epoch : ℕ) : Prop :=
  ∀ member, 0 < (state.epochs epoch).memberTransactions member →
    (state.epochs epoch).memberRewards member = (state.epochs epoch).share member ∧
      (0 < (state.epochs epoch).share member → ∀ timestamp,
        execute ⟨⟨member, 0, timestamp⟩, .claimReward epoch⟩ state =
          .call (state.claimed epoch member) .done)

section Complete

variable {state : State} {epoch : ℕ}

theorem complete_iff (inv : Inv state) (past : epoch < state.currentEpoch) :
    state.Complete epoch ↔ ∀ member, 0 < (state.epochs epoch).memberTransactions member →
      (state.epochs epoch).memberRewards member = (state.epochs epoch).share member := by
  refine ⟨fun complete member credited => (complete member credited).1, ?_⟩
  intro entitled member credited
  refine ⟨entitled member credited, ?_⟩
  intro positive timestamp
  rw [← entitled member credited] at positive
  apply execute_claimReward inv rfl past _ positive
  by_contra undistributed
  have none := ((inv.record epoch).undistributed (by simpa using undistributed)).1 member
  omega

theorem Complete.claimable_bounds (inv : Inv state) (complete : state.Complete epoch)
    (used : 0 < (state.epochs epoch).totalTransactions) :
    state.claimable epoch ≤ (state.epochs epoch).totalReward ∧
      (state.epochs epoch).totalReward < state.claimable epoch +
        (state.epochs epoch).memberTransactions.support.ncard := by
  have recordInv := inv.record epoch
  refine ⟨le_of_add_le_right recordInv.entitled, ?_⟩
  have transactions := recordInv.transactions
  rw [finsum_eq_sum_of_support_subset _ recordInv.transactions_finite.coe_toFinset.ge]
    at transactions
  have loss := Holdings.lt_sum_share_add_card (state.epochs epoch).totalReward transactions used
  rw [Set.ncard_eq_toFinset_card _ recordInv.transactions_finite]
  apply loss.trans_le
  apply Nat.add_le_add_right
  calc _ = ∑ member ∈ recordInv.transactions_finite.toFinset,
          (state.epochs epoch).memberRewards member := by
        apply Finset.sum_congr rfl
        intro member credited
        rw [Set.Finite.mem_toFinset, Function.mem_support] at credited
        exact (complete member (by omega)).1.symm
    _ ≤ state.claimable epoch := Holdings.sum_le_finsum recordInv.rewards_finite _

end Complete

/-- Nothing is added to the rewards of past epochs once they are distributed. -/
structure NoNewRewards (state state' : State) : Prop where
  epochs : state.currentEpoch ≤ state'.currentEpoch
  distributed : ∀ epoch < state.currentEpoch, (state.epochs epoch).distributed →
    (state'.epochs epoch).distributed
  rewards : ∀ epoch < state.currentEpoch, (state.epochs epoch).distributed → ∀ member,
    (state'.epochs epoch).memberRewards member ≤ (state.epochs epoch).memberRewards member

namespace NoNewRewards

variable {state state' state'' : State}

theorem refl (state : State) : NoNewRewards state state :=
  ⟨le_rfl, fun _ _ distributed => distributed, fun _ _ _ _ => le_rfl⟩

theorem trans (before : NoNewRewards state state') (after : NoNewRewards state' state'') :
    NoNewRewards state state'' where
  epochs := before.epochs.trans after.epochs
  distributed epoch past distributed :=
    after.distributed epoch (past.trans_le before.epochs)
      (before.distributed epoch past distributed)
  rewards epoch past distributed member :=
    (after.rewards epoch (past.trans_le before.epochs) (before.distributed epoch past distributed)
      member).trans (before.rewards epoch past distributed member)

theorem of_update {epoch : ℕ} {record : EpochReward}
    (current : state.currentEpoch ≤ state'.currentEpoch)
    (epochs : state'.epochs = Function.update state.epochs epoch record)
    (kept : epoch < state.currentEpoch → (state.epochs epoch).distributed → record.distributed ∧
      ∀ member, record.memberRewards member ≤ (state.epochs epoch).memberRewards member) :
    NoNewRewards state state' where
  epochs := current
  distributed := by
    intro other past distributed
    rw [epochs]
    by_cases same : other = epoch
    · subst same
      rw [Function.update_self]
      exact (kept past distributed).1
    · rwa [Function.update_of_ne same]
  rewards := by
    intro other past distributed member
    rw [epochs]
    by_cases same : other = epoch
    · subst same
      rw [Function.update_self]
      exact (kept past distributed).2 member
    · rw [Function.update_of_ne same]

theorem update {msg : Msg} (counters : state.CountersFit) (update : Update msg state state') :
    NoNewRewards state state' := by
  cases update with
  | unchanged => exact refl state
  | settings => exact ⟨le_rfl, fun _ _ distributed => distributed, fun _ _ _ _ => le_rfl⟩
  | recorded member =>
    refine of_update le_rfl rfl ?_
    exact fun past => absurd past (lt_irrefl _)
  | epochEnded =>
    have small := counters.epochs
    have next : Word.add state.currentEpoch 1 = state.currentEpoch + 1 := by
      apply Word.add_of_lt
      unfold wordSize
      omega
    refine of_update ?_ rfl ?_
    · simp only [State.epochEnded, State.setEpoch, next]
      omega
    · intro past
      omega
  | distributedTo epoch members started undistributed =>
    refine of_update le_rfl rfl ?_
    exact fun _ distributed => absurd distributed undistributed
  | claimed epoch past distributed positive =>
    refine of_update le_rfl rfl ?_
    intro _ _
    refine ⟨distributed, ?_⟩
    intro member
    by_cases same : member = msg.sender
    · simp [same]
    · simp [same]
  | received =>
    refine of_update le_rfl rfl ?_
    exact fun past => absurd past (lt_irrefl _)

end NoNewRewards

theorem noNewRewards_of_mem_seen {script : Script Call} {state : State}
    (counters : CallsFit (script.run execute state).calls) {state' : State}
    (seen : state' ∈ (script.run execute state).seen) : NoNewRewards state state' := by
  have within : (Discipline.relating NoNewRewards .refl .trans).Within state
      (script.run execute state) := by
    apply Discipline.run_within_of_calls
    intro call made
    apply keeps_of_update
    intro state' update
    exact .update (counters call made) update
  exact within.seen state' seen

end TigerMixer.Pool
