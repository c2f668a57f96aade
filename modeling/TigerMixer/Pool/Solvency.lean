import TigerMixer.Algebra.Holdings
import TigerMixer.Pool.Contract

/-!
# Solvency of the reward pool

The invariant of every state in which external code has control. What was paid for an epoch and what
can still be claimed never exceed what the epoch took in; the pool balance is the rest of what all
epochs took in. The current epoch has paid nothing, so the balance covers it in full.
-/

namespace TigerMixer.Pool

open Calls Function Finset

namespace State

variable (state : State) (epoch : ℕ)

noncomputable def claimable : ℕ := ∑ᶠ member, (state.epochs epoch).memberRewards member

def paid : ℕ :=
  (state.payouts.map fun payout => if payout.epoch = epoch then payout.amount else 0).sum

/-- The transactions recorded in an epoch and the epochs are few enough to be counted. -/
structure CountersFit : Prop where
  transactions : (state.epochs state.currentEpoch).totalTransactions < 2 ^ 128
  epochs : state.currentEpoch < 2 ^ 128

instance : Decidable state.CountersFit :=
  decidable_of_iff ((state.epochs state.currentEpoch).totalTransactions < 2 ^ 128 ∧
    state.currentEpoch < 2 ^ 128) ⟨fun fits => ⟨fits.1, fits.2⟩, fun fits => ⟨fits.1, fits.2⟩⟩

end State

structure EpochInv (record : EpochReward) (paid : ℕ) : Prop where
  transactions_finite : record.memberTransactions.support.Finite
  transactions : ∑ᶠ member, record.memberTransactions member = record.totalTransactions
  rewards_finite : record.memberRewards.support.Finite
  undistributed : record.distributed = false → (∀ member, record.memberRewards member = 0) ∧
    paid = 0
  entitled : paid + ∑ᶠ member, record.memberRewards member ≤ record.totalReward

structure Inv (state : State) : Prop where
  positive : 0 < state.currentEpoch
  unstarted : ∀ epoch, state.currentEpoch < epoch → state.epochs epoch = .blank
  record : ∀ epoch, EpochInv (state.epochs epoch) (state.paid epoch)
  current : state.paid state.currentEpoch = 0
  backed : state.totalPoolBalance + ∑ epoch ∈ range (state.currentEpoch + 1),
    state.paid epoch = ∑ epoch ∈ range (state.currentEpoch + 1), (state.epochs epoch).totalReward
  covered : state.totalPoolBalance ≤ state.balance
  balance_lt : state.balance < wordSize
  settled : ∀ payout ∈ state.payouts, (state.epochs payout.epoch).distributed ∧
    (state.epochs payout.epoch).memberRewards payout.member = 0
  once : (state.payouts.map fun payout => (payout.epoch, payout.member)).Nodup

theorem epochInv_blank : EpochInv .blank 0 where
  transactions_finite := by simp [EpochReward.blank, support]
  transactions := by simp [EpochReward.blank]
  rewards_finite := by simp [EpochReward.blank, support]
  undistributed := by simp [EpochReward.blank]
  entitled := by simp [EpochReward.blank]

theorem inv_create (owner : Address) {balance : ℕ} (fits : balance < wordSize) :
    Inv (.create owner balance) where
  positive := Nat.one_pos
  unstarted _ _ := rfl
  record _ := epochInv_blank
  current := rfl
  backed := by simp [State.create, State.paid, EpochReward.blank]
  covered := Nat.zero_le _
  balance_lt := fits
  settled := by simp [State.create]
  once := by simp [State.create]

namespace Inv

variable {state : State}

variable (inv : Inv state)

include inv

theorem claimable_of_lt {epoch : ℕ} (future : state.currentEpoch < epoch) :
    state.claimable epoch = 0 := by
  simp [State.claimable, inv.unstarted epoch future, EpochReward.blank]

theorem paid_of_lt {epoch : ℕ} (future : state.currentEpoch < epoch) :
    state.paid epoch = 0 := by
  apply ((inv.record epoch).undistributed _).2
  rw [inv.unstarted epoch future]
  rfl

theorem claimable_add_le :
    ∑ epoch ∈ range state.currentEpoch, state.claimable epoch +
      (state.epochs state.currentEpoch).totalReward ≤ state.totalPoolBalance := by
  have entitled : ∑ epoch ∈ range state.currentEpoch,
      (state.paid epoch + state.claimable epoch) ≤
        ∑ epoch ∈ range state.currentEpoch, (state.epochs epoch).totalReward := by
    apply sum_le_sum
    intro epoch _
    exact (inv.record epoch).entitled
  have backed := inv.backed
  rw [sum_range_succ, sum_range_succ, inv.current] at backed
  rw [sum_add_distrib] at entitled
  omega

theorem sum_claimable_le :
    ∑ epoch ∈ range (state.currentEpoch + 1), state.claimable epoch ≤
      state.totalPoolBalance := by
  have before := inv.claimable_add_le
  have entitled : state.paid state.currentEpoch + state.claimable state.currentEpoch ≤ _ :=
    (inv.record state.currentEpoch).entitled
  rw [sum_range_succ]
  omega

theorem support_claimable :
    state.claimable.support ⊆ ↑(range (state.currentEpoch + 1)) := by
  intro epoch nonzero
  rw [mem_coe, mem_range]
  by_contra future
  exact nonzero (inv.claimable_of_lt (by omega))

theorem memberRewards_le (epoch : ℕ) (member : Address) :
    (state.epochs epoch).memberRewards member ≤ state.totalPoolBalance := by
  have one : (state.epochs epoch).memberRewards member ≤ state.claimable epoch :=
    Holdings.le_finsum (inv.record epoch).rewards_finite member
  by_cases future : state.currentEpoch < epoch
  · rw [inv.claimable_of_lt future] at one
    omega
  · have all := single_le_sum (f := state.claimable) (fun _ _ => Nat.zero_le _)
      (mem_range.mpr (show epoch < state.currentEpoch + 1 by omega))
    have le := inv.sum_claimable_le
    omega

theorem change {state' : State} {epoch paid : ℕ} {record : EpochReward}
    (started : epoch ≤ state.currentEpoch) (current : state'.currentEpoch = state.currentEpoch)
    (epochs : state'.epochs = update state.epochs epoch record)
    (payouts : state'.paid = update state.paid epoch paid)
    (recordInv : EpochInv record paid) (unpaid : epoch = state.currentEpoch → paid = 0)
    (pool : state'.totalPoolBalance + paid + (state.epochs epoch).totalReward =
      state.totalPoolBalance + state.paid epoch + record.totalReward)
    (covered : state'.totalPoolBalance ≤ state'.balance) (fits : state'.balance < wordSize)
    (settled : ∀ payout ∈ state'.payouts,
      (update state.epochs epoch record payout.epoch).distributed ∧
        (update state.epochs epoch record payout.epoch).memberRewards payout.member = 0)
    (once : (state'.payouts.map fun payout => (payout.epoch, payout.member)).Nodup) :
    Inv state' where
  positive := by
    rw [current]
    exact inv.positive
  unstarted := by
    intro future later
    rw [current] at later
    rw [epochs, update_of_ne (by omega)]
    exact inv.unstarted future later
  record := by
    intro other
    rw [epochs, payouts]
    by_cases same : other = epoch
    · subst same
      rwa [update_self, update_self]
    · rw [update_of_ne same, update_of_ne same]
      exact inv.record other
  current := by
    rw [current, payouts]
    by_cases same : epoch = state.currentEpoch
    · rw [← same, update_self]
      exact unpaid same
    · rw [update_of_ne (Ne.symm same)]
      exact inv.current
  backed := by
    have member : epoch ∈ range (state.currentEpoch + 1) := by
      rw [mem_range]
      omega
    have totals (other : ℕ) : (update state.epochs epoch record other).totalReward =
        update (fun other => (state.epochs other).totalReward) epoch
          record.totalReward other :=
      apply_update (fun _ => EpochReward.totalReward) _ _ _ other
    have income := @Holdings.sum_update _ _ (fun other => (state.epochs other).totalReward) _ _
      member record.totalReward
    have spent := @Holdings.sum_update _ _ state.paid _ _ member paid
    have backed := inv.backed
    simp only [current, epochs, payouts, totals]
    omega
  covered := covered
  balance_lt := fits
  settled := by
    rw [epochs]
    exact settled
  once := once

theorem settled_update {epoch : ℕ} {record : EpochReward} (kept : (state.epochs epoch).distributed →
      record.distributed ∧ ∀ member, (state.epochs epoch).memberRewards member = 0 →
        record.memberRewards member = 0) {payout : Payout} (member : payout ∈ state.payouts) :
    (update state.epochs epoch record payout.epoch).distributed ∧
      (update state.epochs epoch record payout.epoch).memberRewards payout.member = 0 := by
  rcases inv.settled payout member with ⟨distributed, settled⟩
  by_cases same : payout.epoch = epoch
  · rw [same] at distributed settled
    rw [same, update_self]
    exact ⟨(kept distributed).1, (kept distributed).2 _ settled⟩
  · rw [update_of_ne same]
    exact ⟨distributed, settled⟩

end Inv

section Operations

variable {state : State}

theorem inv_recorded (inv : Inv state) (counters : state.CountersFit) (member : Address) :
    Inv (state.recorded member) := by
  have recordInv := inv.record state.currentEpoch
  have transactions := recordInv.transactions
  have small := counters.transactions
  have large : (2 : ℕ) ^ 128 + 1 < wordSize := by
    unfold wordSize
    omega
  have le := Holdings.le_finsum recordInv.transactions_finite member
  have sum := Holdings.finsum_update recordInv.transactions_finite member
    ((state.epochs state.currentEpoch).memberTransactions member + 1)
  have count : Word.add ((state.epochs state.currentEpoch).memberTransactions member) 1 =
      (state.epochs state.currentEpoch).memberTransactions member + 1 := Word.add_of_lt (by omega)
  have total : Word.add (state.epochs state.currentEpoch).totalTransactions 1 =
      (state.epochs state.currentEpoch).totalTransactions + 1 := Word.add_of_lt (by omega)
  have paid : (state.recorded member).paid = update state.paid state.currentEpoch
      (state.paid state.currentEpoch) := (update_eq_self _ _).symm
  refine inv.change le_rfl rfl rfl paid ?_ ?_ ?_ ?_ ?_ ?_ ?_
  · refine ⟨?_, ?_, recordInv.rewards_finite, recordInv.undistributed, recordInv.entitled⟩
    · exact Holdings.finite_support_update recordInv.transactions_finite _ _
    · dsimp only
      rw [count, total]
      omega
  · exact fun _ => inv.current
  · rfl
  · exact inv.covered
  · exact inv.balance_lt
  · intro payout paid
    apply inv.settled_update _ paid
    exact fun distributed => ⟨distributed, fun _ zero => zero⟩
  · exact inv.once

theorem inv_received (inv : Inv state) {value : ℕ} (fits : state.balance + value < wordSize) :
    Inv (state.received value) := by
  have recordInv := inv.record state.currentEpoch
  have covered := inv.covered
  have current := inv.claimable_add_le
  have reward : Word.add (state.epochs state.currentEpoch).totalReward value =
      (state.epochs state.currentEpoch).totalReward + value := Word.add_of_lt (by omega)
  have pool : (state.received value).totalPoolBalance = state.totalPoolBalance + value :=
    Word.add_of_lt (by omega)
  have paid : (state.received value).paid = update state.paid state.currentEpoch
      (state.paid state.currentEpoch) := (update_eq_self _ _).symm
  refine inv.change le_rfl rfl rfl paid ?_ ?_ ?_ ?_ ?_ ?_ ?_
  · refine ⟨recordInv.transactions_finite, recordInv.transactions, recordInv.rewards_finite,
      recordInv.undistributed, ?_⟩
    rw [reward]
    exact recordInv.entitled.trans (Nat.le_add_right _ _)
  · exact fun _ => inv.current
  · dsimp only
    rw [pool, reward]
    omega
  · rw [pool]
    exact Nat.add_le_add_right covered value
  · exact fits
  · intro payout paid
    apply inv.settled_update _ paid
    exact fun distributed => ⟨distributed, fun _ zero => zero⟩
  · exact inv.once

theorem epochEnded_eq (inv : Inv state) (counters : state.CountersFit) :
    state.epochEnded = { state with currentEpoch := state.currentEpoch + 1 } := by
  have small := counters.epochs
  have next : Word.add state.currentEpoch 1 = state.currentEpoch + 1 := by
    apply Word.add_of_lt
    unfold wordSize
    omega
  have blank := inv.unstarted (state.currentEpoch + 1) (Nat.lt_succ_self _)
  have epochs : update state.epochs (state.currentEpoch + 1)
      { state.epochs (state.currentEpoch + 1) with
        totalReward := 0, totalTransactions := 0, distributed := false } = state.epochs := by
    apply update_eq_self_iff.mpr
    rw [blank]
    rfl
  simp only [State.epochEnded, State.setEpoch, next, epochs]

theorem inv_epochEnded (inv : Inv state) (counters : state.CountersFit) :
    Inv state.epochEnded := by
  have unpaid : state.paid (state.currentEpoch + 1) = 0 := inv.paid_of_lt (Nat.lt_succ_self _)
  have blank := inv.unstarted (state.currentEpoch + 1) (Nat.lt_succ_self _)
  rw [epochEnded_eq inv counters]
  refine ⟨Nat.succ_pos _, ?_, inv.record, unpaid, ?_, inv.covered, inv.balance_lt, inv.settled,
    inv.once⟩
  · intro future later
    exact inv.unstarted future ((Nat.lt_succ_self _).trans later)
  · have backed := inv.backed
    simp only [sum_range_succ _ (state.currentEpoch + 1), blank]
    change _ + (_ + state.paid _) = _ + 0
    rw [unpaid]
    exact backed

theorem memberShares_apply (record : EpochReward) (members : List Address) (member : Address) :
    memberShares record members member =
      if member ∈ members ∧ 0 < record.memberTransactions member then
        Word.mul record.totalReward (record.memberTransactions member) / record.totalTransactions
      else record.memberRewards member := by
  unfold memberShares
  induction members using List.reverseRecOn with
  | nil => simp
  | append_singleton members last ih =>
    rw [List.foldl_append, List.foldl_cons, List.foldl_nil]
    dsimp only
    by_cases same : member = last
    · subst same
      by_cases positive : 0 < record.memberTransactions member
      · simp [positive]
      · rw [if_neg positive, ih]
        simp [positive]
    · have listed : member ∈ members ++ [last] ↔ member ∈ members := by simp [same]
      simp only [listed]
      rw [← ih]
      split_ifs with positive
      · rw [update_of_ne same]
      · rfl

theorem inv_distributedTo (inv : Inv state) {epoch : ℕ} (started : epoch ≤ state.currentEpoch)
    (undistributed : ¬(state.epochs epoch).distributed) (members : List Address) :
    Inv (state.distributedTo epoch members) := by
  have recordInv := inv.record epoch
  rcases recordInv.undistributed (by simpa using undistributed) with ⟨unset, unpaid⟩
  have shares (member : Address) : memberShares (state.epochs epoch) members member ≤
      (state.epochs epoch).totalReward * (state.epochs epoch).memberTransactions member /
        (state.epochs epoch).totalTransactions := by
    rw [memberShares_apply, unset]
    split_ifs
    · exact Nat.div_le_div_right (Word.mul_le _ _)
    · exact Nat.zero_le _
  rcases Holdings.finsum_share_le recordInv.transactions_finite recordInv.transactions shares
    with ⟨finite, le⟩
  have paid : (state.distributedTo epoch members).paid =
      update state.paid epoch (state.paid epoch) := (update_eq_self _ _).symm
  refine inv.change started rfl rfl paid ?_ ?_ ?_ ?_ ?_ ?_ ?_
  · refine ⟨recordInv.transactions_finite, recordInv.transactions, finite, by simp, ?_⟩
    rwa [unpaid, Nat.zero_add]
  · exact fun _ => unpaid
  · rfl
  · exact inv.covered
  · exact inv.balance_lt
  · intro payout paid
    apply inv.settled_update _ paid
    exact fun distributed => absurd distributed undistributed
  · exact inv.once

theorem paid_claimed (epoch : ℕ) (member : Address) : (state.claimed epoch member).paid =
    update state.paid epoch
      (state.paid epoch + (state.epochs epoch).memberRewards member) := by
  funext other
  by_cases same : other = epoch
  · subst same
    simp [State.paid, State.claimed, State.setEpoch]
  · simp [State.paid, State.claimed, State.setEpoch, same, Ne.symm same]

theorem inv_claimed (inv : Inv state) {epoch : ℕ} {member : Address}
    (past : epoch < state.currentEpoch) (distributed : (state.epochs epoch).distributed)
    (positive : 0 < (state.epochs epoch).memberRewards member) :
    Inv (state.claimed epoch member) := by
  have recordInv := inv.record epoch
  have le := inv.memberRewards_le epoch member
  have covered := inv.covered
  have fits := inv.balance_lt
  have entitled := recordInv.entitled
  have sum := Holdings.finsum_update recordInv.rewards_finite member 0
  have pool : (state.claimed epoch member).totalPoolBalance =
      state.totalPoolBalance - (state.epochs epoch).memberRewards member :=
    Word.sub_of_le (by omega) le
  have balance : (state.claimed epoch member).balance =
      state.balance - (state.epochs epoch).memberRewards member := rfl
  refine inv.change past.le rfl rfl (paid_claimed epoch member) ?_ ?_ ?_ ?_ ?_ ?_ ?_
  · refine ⟨recordInv.transactions_finite, recordInv.transactions, ?_, ?_, ?_⟩
    · exact Holdings.finite_support_update recordInv.rewards_finite _ _
    · simp [distributed]
    · dsimp only
      omega
  · exact fun same => absurd same past.ne
  · dsimp only
    omega
  · omega
  · omega
  · intro payout paid
    have payouts : payout ∈ state.payouts ∨
        payout = ⟨epoch, member, (state.epochs epoch).memberRewards member⟩ := by
      simpa [State.claimed, State.setEpoch] using paid
    rcases payouts with before | rfl
    · apply inv.settled_update _ before
      intro _
      refine ⟨distributed, ?_⟩
      intro other zero
      by_cases same : other = member
      · simp [same]
      · simpa [same] using zero
    · simp [distributed]
  · have fresh : (epoch, member) ∉ state.payouts.map fun payout =>
        (payout.epoch, payout.member) := by
      intro repeated
      rcases List.mem_map.mp repeated with ⟨payout, paid, same⟩
      have settled := (inv.settled payout paid).2
      rw [(Prod.mk.inj same).1, (Prod.mk.inj same).2] at settled
      omega
    simpa [State.claimed, State.setEpoch, List.nodup_append] using
      ⟨inv.once, fun payout paid sameEpoch sameMember => fresh
        (List.mem_map.mpr ⟨payout, paid, Prod.ext sameEpoch sameMember⟩)⟩

theorem inv_settings (inv : Inv state)
    (committeeRotation signatureEscrow fixedMixerEscrow : Address) :
    Inv { state with committeeRotation, signatureEscrow, fixedMixerEscrow } :=
  { inv with }

end Operations

theorem inv_update {msg : Msg} {state state' : State} (counters : state.CountersFit)
    (update : Update msg state state') (inv : Inv state) : Inv state' := by
  cases update with
  | unchanged => exact inv
  | settings committeeRotation signatureEscrow fixedMixerEscrow => exact inv_settings inv _ _ _
  | recorded member => exact inv_recorded inv counters member
  | epochEnded => exact inv_epochEnded inv counters
  | distributedTo epoch members started undistributed =>
    exact inv_distributedTo inv started undistributed members
  | claimed epoch past distributed positive => exact inv_claimed inv past distributed positive
  | received fits => exact inv_received inv fits

def CallsFit (calls : List (Call × State)) : Prop :=
  ∀ call ∈ calls, call.2.CountersFit

instance (calls : List (Call × State)) : Decidable (CallsFit calls) :=
  inferInstanceAs (Decidable (∀ call ∈ calls, call.2.CountersFit))

theorem inv_of_mem_seen {owner : Address} {balance : ℕ} (fits : balance < wordSize)
    {script : Script Call} (counters : CallsFit (script.run execute (.create owner balance)).calls)
    {state : State} (seen : state ∈ (script.run execute (.create owner balance)).seen) :
    Inv state := by
  have within : (Discipline.preserving Inv).Within (.create owner balance)
      (script.run execute (.create owner balance)) := by
    apply Discipline.run_within_of_calls
    intro call made
    apply keeps_of_update
    intro state' update
    exact inv_update (counters call made) update
  exact within.seen state seen (inv_create owner fits)

theorem execute_claimReward {state : State} (inv : Inv state) {msg : Msg} {epoch : ℕ}
    (noValue : msg.value = 0) (past : epoch < state.currentEpoch)
    (distributed : (state.epochs epoch).distributed)
    (positive : 0 < (state.epochs epoch).memberRewards msg.sender) :
    execute ⟨msg, .claimReward epoch⟩ state = .call (state.claimed epoch msg.sender) .done := by
  have le := inv.memberRewards_le epoch msg.sender
  have affordable := le.trans inv.covered
  have fits := inv.balance_lt
  simp [execute, claimReward, Prog.require, noValue, fits, past, distributed, positive, affordable]

/-- Whoever deposits, records, distributes and claims in whatever order, every entitlement is
covered and is paid once. -/
theorem rewards_solvent (owner : Address) {balance : ℕ} (fits : balance < wordSize)
    (script : Script Call) (counters : CallsFit (script.run execute (.create owner balance)).calls)
    (state : State) (seen : state ∈ (script.run execute (.create owner balance)).seen) :
    (state.claimable.support.Finite ∧
      (∀ epoch, (state.epochs epoch).memberRewards.support.Finite) ∧
      ∑ᶠ epoch, ∑ᶠ member, (state.epochs epoch).memberRewards member ≤ state.totalPoolBalance ∧
      state.totalPoolBalance ≤ state.balance) ∧
    (∀ epoch, state.paid epoch + ∑ᶠ member, (state.epochs epoch).memberRewards member ≤
      (state.epochs epoch).totalReward) ∧
    (∀ epoch, (state.epochs epoch).memberTransactions.support.Finite ∧
      ∑ᶠ member, (state.epochs epoch).memberTransactions member =
        (state.epochs epoch).totalTransactions) ∧
    (∀ (msg : Msg) (epoch : ℕ), msg.value = 0 → epoch < state.currentEpoch →
      (state.epochs epoch).distributed → 0 < (state.epochs epoch).memberRewards msg.sender →
        execute ⟨msg, .claimReward epoch⟩ state = .call (state.claimed epoch msg.sender) .done ∧
        (state.claimed epoch msg.sender).totalPoolBalance +
          (state.epochs epoch).memberRewards msg.sender = state.totalPoolBalance ∧
        (state.claimed epoch msg.sender).balance +
          (state.epochs epoch).memberRewards msg.sender = state.balance) ∧
    (state.payouts.map fun payout => (payout.epoch, payout.member)).Nodup ∧
    ∀ payout ∈ state.payouts, (state.epochs payout.epoch).distributed ∧
      (state.epochs payout.epoch).memberRewards payout.member = 0 := by
  have inv := inv_of_mem_seen fits counters seen
  have total : ∑ᶠ epoch, state.claimable epoch ≤ state.totalPoolBalance := by
    rw [finsum_eq_sum_of_support_subset _ inv.support_claimable]
    exact inv.sum_claimable_le
  refine ⟨⟨?_, ?_, total, inv.covered⟩, ?_, ?_, ?_, inv.once, inv.settled⟩
  · exact (finite_toSet _).subset inv.support_claimable
  · exact fun epoch => (inv.record epoch).rewards_finite
  · exact fun epoch => (inv.record epoch).entitled
  · exact fun epoch => ⟨(inv.record epoch).transactions_finite, (inv.record epoch).transactions⟩
  · intro msg epoch noValue past distributed positive
    have le := inv.memberRewards_le epoch msg.sender
    have covered := inv.covered
    have balanceFits := inv.balance_lt
    refine ⟨execute_claimReward inv noValue past distributed positive, ?_, ?_⟩
    · change Word.sub state.totalPoolBalance _ + _ = _
      rw [Word.sub_of_le (by omega) le]
      exact Nat.sub_add_cancel le
    · exact Nat.sub_add_cancel (le.trans covered)

def earlyDistribution : Script Call :=
  .call ⟨⟨2, 10, 100⟩, .receive⟩ [] <|
  .call ⟨⟨2, 0, 101⟩, .recordTransaction 7⟩ [] <|
  .call ⟨⟨2, 0, 102⟩, .recordTransaction 7⟩ [] <|
  .call ⟨⟨2, 0, 103⟩, .recordTransaction 8⟩ [] <|
  .call ⟨⟨2, 0, 104⟩, .distributeRewardsToMembers 1 [7, 8, 7]⟩ [] <|
  .call ⟨⟨2, 5, 105⟩, .receive⟩ [] <|
  .call ⟨⟨2, 0, 106⟩, .endEpoch⟩ [] <|
  .stop true

def earlyDistributionState : State :=
  ((earlyDistribution.run execute (.create 2 0)).final).get (by decide +kernel)

theorem rewards_solvent_earlyDistribution :
    (earlyDistributionState.epochs 1).memberRewards 7 = 6 ∧
      execute ⟨⟨7, 0, 107⟩, .claimReward 1⟩ earlyDistributionState =
        .call (earlyDistributionState.claimed 1 7) .done ∧
      (earlyDistributionState.claimed 1 7).balance + 6 = earlyDistributionState.balance := by
  have final : (earlyDistribution.run execute (.create 2 0)).final =
      some earlyDistributionState := by
    rw [earlyDistributionState, Option.some_get]
  have counters : CallsFit (earlyDistribution.run execute (.create 2 0)).calls := by
    decide +kernel
  have reward : (earlyDistributionState.epochs 1).memberRewards 7 = 6 := by decide +kernel
  have solvent := rewards_solvent 2 (lt_wordSize (by decide)) earlyDistribution counters
    earlyDistributionState (Script.mem_seen_of_final final)
  have claim := solvent.2.2.2.1 ⟨7, 0, 107⟩ 1 rfl (by decide +kernel) (by decide +kernel)
    (by decide +kernel)
  rw [reward] at claim
  exact ⟨reward, claim.1, claim.2.2⟩

end TigerMixer.Pool
