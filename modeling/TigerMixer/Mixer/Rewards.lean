import TigerMixer.Escrow.Authorisation
import TigerMixer.Mixer.Contracts
import TigerMixer.Pool.Distribution
import TigerMixer.Rotation.Randomness

/-!
# Who is credited and who is paid

The escrow credits the account that the confirming party names, whereas a rotation distributes the
rewards of the epoch it ends to the outgoing committee. The two agree only if every credited account
with a positive share sits on the outgoing committee.
-/

namespace TigerMixer.Mixer

open Calls

section Answers

variable {pool pool' : Pool.State} {msg : Msg}

theorem answer_endEpoch_eq_some (answered : answer ⟨msg, .endEpoch⟩ pool = some pool') :
    pool.Rotator msg ∧ pool' = pool.epochEnded := by
  rcases Prog.interp_require_iff.1 answered with ⟨-, answered⟩
  rcases Prog.interp_require_iff.1 answered with ⟨-, answered⟩
  rcases Prog.interp_require_iff.1 answered with ⟨rotator, answered⟩
  exact ⟨rotator, (Option.some.inj answered).symm⟩

theorem answer_distribute {epoch : ℕ} {members : List Address} (noValue : msg.value = 0)
    (fits : pool.balance < wordSize) (started : epoch ≤ pool.currentEpoch)
    (rewarded : 0 < (pool.epochs epoch).totalReward)
    (used : 0 < (pool.epochs epoch).totalTransactions) (rotator : pool.Rotator msg) :
    answer ⟨msg, .distributeRewardsToMembers epoch members⟩ pool =
      if (pool.epochs epoch).distributed then none
      else some (pool.distributedTo epoch members) := by
  by_cases distributed : (pool.epochs epoch).distributed
  · simp [answer, Pool.execute, Pool.distributeRewardsToMembers, Prog.require, noValue, fits,
      started, distributed, Prog.interp]
  · simp [answer, Pool.execute, Pool.distributeRewardsToMembers, Prog.require, noValue, fits,
      started, distributed, rewarded, used, rotator, Prog.interp]

end Answers

section Rotation

variable {state state' : State} {msg : Msg} {reputation : Address → ℕ}

theorem pool_rotateCommittee (inv : Pool.Inv state.pool) (counters : state.pool.CountersFit)
    (rotated : state.rotateCommittee msg reputation = some state')
    (rewarded : 0 < (state.pool.epochs state.pool.currentEpoch).totalReward)
    (used : 0 < (state.pool.epochs state.pool.currentEpoch).totalTransactions) :
    state'.pool =
      if state.rotation.currentCommittee.filter (· ≠ 0) ≠ [] ∧
          ¬(state.pool.epochs state.pool.currentEpoch).distributed then
        state.pool.epochEnded.distributedTo state.pool.currentEpoch
          (state.rotation.currentCommittee.filter (· ≠ 0))
      else state.pool.epochEnded := by
  simp only [State.rotateCommittee, Option.bind_eq_bind, Option.bind_eq_some_iff, Option.pure_def,
    Option.some.injEq] at rotated
  rcases rotated with ⟨-, -, ended, answered, rotation, -, rfl⟩
  rcases answer_endEpoch_eq_some answered with ⟨rotator, rfl⟩
  have ended := Pool.epochEnded_eq inv counters
  have small := counters.epochs
  have positive := inv.positive
  have current : state.pool.epochEnded.currentEpoch = state.pool.currentEpoch + 1 := by rw [ended]
  have previousEpoch : Word.sub state.pool.epochEnded.currentEpoch 1 = state.pool.currentEpoch := by
    rw [current, Word.sub_of_le (by unfold wordSize; omega) (by omega)]
    exact Nat.add_sub_cancel _ _
  have distribution := @answer_distribute state.pool.epochEnded
    ⟨state.rotation.self, 0, msg.timestamp⟩ state.pool.currentEpoch
    (state.rotation.currentCommittee.filter (· ≠ 0)) rfl
    (by rw [ended]; exact inv.balance_lt) (by rw [ended]; exact Nat.le_succ _)
    (by rw [ended]; exact rewarded) (by rw [ended]; exact used) (by rw [ended]; exact rotator)
  have record : state.pool.epochEnded.epochs = state.pool.epochs := by rw [ended]
  rw [record] at distribution
  dsimp only
  rw [previousEpoch, distribution]
  by_cases distributed : (state.pool.epochs state.pool.currentEpoch).distributed
  · simp [distributed]
  · simp [distributed, positive, List.length_pos_iff]

structure EpochClosed (members : List Address) (record record' : Pool.EpochReward) : Prop where
  totalReward : record'.totalReward = record.totalReward
  totalTransactions : record'.totalTransactions = record.totalTransactions
  memberTransactions : record'.memberTransactions = record.memberTransactions
  shares : ¬record.distributed → ∀ member, record'.memberRewards member =
    if member ∈ members then record.share member else 0
  distributed : ¬record.distributed → members ≠ [] → record'.distributed
  kept : record.distributed → record'.memberRewards = record.memberRewards

theorem EpochClosed.share {members : List Address} {record record' : Pool.EpochReward}
    (closed : EpochClosed members record record') : record'.share = record.share := by
  funext member
  rw [Pool.EpochReward.share, Pool.EpochReward.share, closed.totalReward, closed.totalTransactions,
    closed.memberTransactions]

variable (inv : Pool.Inv state.pool) (counters : state.pool.CountersFit)
  (ether : state.pool.balance < 2 ^ 128)

include inv counters ether

theorem exact_products (member : Address) :
    (state.pool.epochs state.pool.currentEpoch).totalReward *
      (state.pool.epochs state.pool.currentEpoch).memberTransactions member < wordSize := by
  have recordInv := inv.record state.pool.currentEpoch
  have backed := inv.claimable_add_le
  have covered := inv.covered
  have transactions := Holdings.le_finsum recordInv.transactions_finite member
  rw [recordInv.transactions] at transactions
  have small := counters.transactions
  unfold wordSize
  calc _ < 2 ^ 128 * 2 ^ 128 := Nat.mul_lt_mul'' (by omega) (by omega)
    _ = 2 ^ 256 := by norm_num

theorem epochClosed_of_rotated
    (rewarded : 0 < (state.pool.epochs state.pool.currentEpoch).totalReward)
    (used : 0 < (state.pool.epochs state.pool.currentEpoch).totalTransactions)
    (rotated : state.rotateCommittee msg reputation = some state') :
    Pool.Inv state'.pool ∧ state.pool.currentEpoch < state'.pool.currentEpoch ∧
      EpochClosed (state.rotation.currentCommittee.filter (· ≠ 0))
        (state.pool.epochs state.pool.currentEpoch)
        (state'.pool.epochs state.pool.currentEpoch) := by
  have pool := pool_rotateCommittee inv counters rotated rewarded used
  have endedInv := Pool.inv_epochEnded inv counters
  have ended := Pool.epochEnded_eq inv counters
  have epochs : state.pool.epochEnded.epochs = state.pool.epochs := by rw [ended]
  have current : state.pool.currentEpoch < state.pool.epochEnded.currentEpoch := by
    rw [ended]
    exact Nat.lt_succ_self _
  have unset (undistributed : ¬(state.pool.epochs state.pool.currentEpoch).distributed) :=
    ((inv.record state.pool.currentEpoch).undistributed (by simpa using undistributed)).1
  generalize state.rotation.currentCommittee.filter (· ≠ 0) = members at *
  split_ifs at pool with condition
  · rcases condition with ⟨nonempty, undistributed⟩
    have record : state'.pool.epochs state.pool.currentEpoch =
        { state.pool.epochs state.pool.currentEpoch with
          memberRewards := Pool.memberShares (state.pool.epochs state.pool.currentEpoch) members
          distributed := true } := by
      rw [pool, Pool.State.distributedTo, epochs]
      exact Function.update_self _ _ _
    rw [record]
    refine ⟨?_, ?_, rfl, rfl, rfl, ?_, fun _ _ => rfl, fun distributed =>
      absurd distributed undistributed⟩
    · rw [pool]
      apply Pool.inv_distributedTo endedInv current.le
      rwa [epochs]
    · rwa [pool]
    · intro _
      exact Pool.memberShares_eq_share (unset undistributed)
        (exact_products inv counters ether) members
  · rw [pool, epochs]
    refine ⟨endedInv, current, rfl, rfl, rfl, ?_, ?_, fun _ => rfl⟩
    · intro undistributed member
      have none : members = [] := by
        by_contra nonempty
        exact condition ⟨nonempty, undistributed⟩
      simp [none, unset undistributed]
    · intro undistributed nonempty
      exact absurd ⟨nonempty, undistributed⟩ condition

end Rotation

/-- An epoch that a rotation ends is paid out completely exactly if the outgoing committee contains
every account with a positive share, or the rewards were distributed before with the final shares.
-/
theorem rewards_complete_iff {owner : Address} {balance : ℕ} (fits : balance < wordSize)
    {script : Script Pool.Call}
    (counters : Pool.CallsFit (script.run Pool.execute (.create owner balance)).calls)
    {state state' : State} {msg : Msg} {reputation : Address → ℕ}
    (reached : state.pool ∈ (script.run Pool.execute (.create owner balance)).seen)
    (counted : state.pool.CountersFit) (ether : state.pool.balance < 2 ^ 128)
    (rewarded : 0 < (state.pool.epochs state.pool.currentEpoch).totalReward)
    (used : 0 < (state.pool.epochs state.pool.currentEpoch).totalTransactions)
    (rotated : state.rotateCommittee msg reputation = some state') :
    let epoch := state.pool.currentEpoch
    let record := state.pool.epochs epoch
    let members := state.rotation.currentCommittee.filter (· ≠ 0)
    (state'.pool.Complete epoch ↔
      (¬record.distributed ∧ ∀ member, 0 < record.share member → member ∈ members) ∨
        (record.distributed ∧ ∀ member, 0 < record.memberTransactions member →
          record.memberRewards member = record.share member)) ∧
    (state'.pool.Complete epoch →
      state'.pool.claimable epoch ≤ record.totalReward ∧
        record.totalReward <
          state'.pool.claimable epoch + record.memberTransactions.support.ncard) ∧
    (¬record.distributed → members ≠ [] → ∀ member ∉ members, ∀ (later : Script Pool.Call),
      Pool.CallsFit (later.run Pool.execute state'.pool).calls →
        ∀ pool ∈ (later.run Pool.execute state'.pool).seen,
          (pool.epochs epoch).memberRewards member = 0) := by
  intro epoch record members
  have inv := Pool.inv_of_mem_seen fits counters reached
  rcases epochClosed_of_rotated inv counted ether rewarded used rotated with
    ⟨inv', past, closed⟩
  refine ⟨?_, ?_, ?_⟩
  · rw [Pool.complete_iff inv' past, closed.memberTransactions, closed.share]
    by_cases distributed : record.distributed
    · simp only [closed.kept distributed, distributed, not_true_eq_false, false_and, true_and,
        false_or]
      rfl
    · simp only [closed.shares distributed, distributed, Bool.false_eq_true, not_false_eq_true,
        true_and, false_and, or_false]
      constructor
      · intro entitled member positive
        by_contra missing
        have credited : 0 < record.memberTransactions member := by
          by_contra zero
          simp [record, Pool.EpochReward.share, Nat.eq_zero_of_not_pos zero] at positive
        have none := entitled member credited
        rw [if_neg missing] at none
        exact positive.ne none
      · intro covered member _
        split_ifs with listed
        · rfl
        · by_contra lost
          exact listed (covered member (Nat.pos_of_ne_zero (Ne.symm lost)))
  · intro complete
    have bounds := Pool.Complete.claimable_bounds inv' complete
      (by rw [closed.totalTransactions]; exact used)
    rwa [closed.totalReward, closed.memberTransactions] at bounds
  · intro undistributed nonempty member missing later laterCounters pool seen
    have shrinks := (Pool.noNewRewards_of_mem_seen laterCounters seen).rewards epoch past
      (closed.distributed undistributed nonempty) member
    rw [closed.shares undistributed, if_neg missing] at shrinks
    omega

section Sample

def escrowReady : Escrow.State :=
  (((Script.call ⟨⟨3, 0, 10⟩, .setRewardPool 0xa0⟩ [] Escrow.openedScript).run
    (Escrow.execute Escrow.samplePrimitives) Escrow.sampleInitial).final).get (by decide +kernel)

def poolReady : Script Pool.Call :=
  .call ⟨⟨2, 0, 1⟩, .setFixedMixerEscrow 0xe5c⟩ [] <|
  .call ⟨⟨2, 0, 2⟩, .setCommitteeRotation 0xc0⟩ [] <|
  .stop true

def rotationReady : Rotation.State :=
  (((Script.call ⟨⟨7, 0, 1⟩, .setRewardPool 0xa0⟩ [] Rotation.verifiedScript).run
    (Rotation.execute Rotation.sampleVrf) Rotation.sampleCreated).final).get (by decide +kernel)

def ready : State where
  escrow := escrowReady
  pool := ((poolReady.run Pool.execute (.create 2 0)).final).get (by decide +kernel)
  rotation := rotationReady
  poolAddress := 0xa0

def confirmed : State :=
  (ready.confirm Escrow.samplePrimitives ⟨Escrow.address2, 0, 14⟩ Escrow.sampleConfirmation).get
    (by decide +kernel)

def creditMember : Script Pool.Call :=
  .call ⟨⟨2, 0, 2⟩, .setCommitteeRotation 0xc0⟩ [] <|
  .call ⟨⟨5, 10, 3⟩, .receive⟩ [] <|
  .call ⟨⟨2, 0, 4⟩, .recordTransaction 21⟩ [] <|
  .stop true

def credited : State :=
  { ready with pool :=
      ({ Pool.State.create 2 0 with committeeRotation := 0xc0 }.received 10).recorded 21 }

theorem credited_pool_final :
    (creditMember.run Pool.execute (.create 2 0)).final = some credited.pool := by
  have fits {value : ℕ} (small : value ≤ 10) : value < wordSize := lt_wordSize (by omega)
  simp [creditMember, Script.run, Script.runAll, Pool.execute, Pool.setCommitteeRotation,
    Pool.setAddress, Pool.receive, Pool.recordTransaction, Prog.require, Prog.interp, fits,
    credited, Pool.State.create, Pool.State.received, Pool.State.recorded, Pool.State.setEpoch,
    Pool.State.Authorized]

def creditedRotated : State :=
  (credited.rotateCommittee ⟨9, 0, 30⟩ fun _ => 0).get (by decide +kernel)

def rotatedAway : State :=
  (confirmed.rotateCommittee ⟨9, 0, 30⟩ fun _ => 0).get (by decide +kernel)

end Sample

theorem rewards_complete_credited :
    (credited.rotateCommittee ⟨9, 0, 30⟩ fun _ => 0) = some creditedRotated ∧
      (credited.pool.epochs 1).totalReward = 10 ∧ creditedRotated.pool.Complete 1 := by
  have rotated : (credited.rotateCommittee ⟨9, 0, 30⟩ fun _ => 0) = some creditedRotated := by
    rw [creditedRotated, Option.some_get]
  have counters : Pool.CallsFit (creditMember.run Pool.execute (.create 2 0)).calls := by
    decide +kernel
  refine ⟨rotated, by decide +kernel, ?_⟩
  apply (rewards_complete_iff (lt_wordSize (by decide)) counters
    (Script.mem_seen_of_final credited_pool_final) (by decide +kernel) (by decide +kernel)
    (by decide +kernel) (by decide +kernel) rotated).1.mpr
  left
  refine ⟨by decide +kernel, ?_⟩
  intro member positive
  by_cases same : member = 21
  · subst same
    decide +kernel
  · simp [credited, Pool.EpochReward.share, Pool.State.recorded, Pool.State.received,
      Pool.State.setEpoch, Pool.State.create, Pool.EpochReward.blank, same] at positive

/-- Both parties confirm an escrow, `party2` is credited, and a rotation strands the whole fee. -/
theorem fee_stranded_by_rotation :
    ready.confirm Escrow.samplePrimitives ⟨Escrow.address2, 0, 14⟩ Escrow.sampleConfirmation =
        some confirmed ∧
      confirmed.escrow.payouts 1 = [⟨1, .serviceFee, 0xa0, 200, 14⟩,
        ⟨1, .finalAmount, Escrow.address2, 800, 14⟩] ∧
      (confirmed.pool.epochs 1).totalReward = 200 ∧
      (confirmed.pool.epochs 1).totalTransactions = 1 ∧
      (confirmed.pool.epochs 1).share Escrow.address2 = 200 ∧
      (confirmed.rotateCommittee ⟨9, 0, 30⟩ fun _ => 0) = some rotatedAway ∧
      (rotatedAway.pool.epochs 1).distributed ∧
      (rotatedAway.pool.epochs 1).memberRewards Escrow.address2 = 0 ∧
      ¬rotatedAway.pool.Complete 1 := by
  have share : (rotatedAway.pool.epochs 1).share Escrow.address2 = 200 := by decide +kernel
  have reward : (rotatedAway.pool.epochs 1).memberRewards Escrow.address2 = 0 := by
    decide +kernel
  have credited : 0 < (rotatedAway.pool.epochs 1).memberTransactions Escrow.address2 := by
    decide +kernel
  refine ⟨by rw [confirmed, Option.some_get], by decide +kernel, by decide +kernel,
    by decide +kernel, by decide +kernel, by rw [rotatedAway, Option.some_get], by decide +kernel,
    reward, ?_⟩
  intro complete
  have entitled := (complete Escrow.address2 credited).1
  rw [reward, share] at entitled
  omega

end TigerMixer.Mixer
