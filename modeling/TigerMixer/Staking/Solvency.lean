import TigerMixer.Algebra.Holdings
import TigerMixer.Staking.Contract

/-!
# Solvency of the staking contract

The invariant of every state in which external code has control. The stake pool is the sum of the
active stakes and the balance covers it together with the penalties that were kept. An active stake
is what is left of the last deposit of its owner, and nothing that an account ever staked is lost.
-/

namespace TigerMixer.Staking

open Calls Discipline Function

namespace Movement

variable (account : Address)

def lastDeposit (deposit : ℕ) : Movement → ℕ
  | .staked user amount => if user = account then amount else deposit
  | _ => deposit

/-- The penalties taken from an account since its last deposit, given those before the
movement. -/
def penalties (taken : ℕ) : Movement → ℕ
  | .staked user _ => if user = account then 0 else taken
  | .returned _ _ => taken
  | .sentToPool member _ amount => if member = account then taken + amount else taken
  | .retained member amount => if member = account then taken + amount else taken

def stakedBy : Movement → ℕ
  | .staked user amount => if user = account then amount else 0
  | _ => 0

def returnedTo : Movement → ℕ
  | .returned user amount => if user = account then amount else 0
  | _ => 0

def sentToPoolFrom : Movement → ℕ
  | .sentToPool member _ amount => if member = account then amount else 0
  | _ => 0

def retainedFrom : Movement → ℕ
  | .retained member amount => if member = account then amount else 0
  | _ => 0

def kept : Movement → ℕ
  | .retained _ amount => amount
  | _ => 0

def holder : Movement → Address
  | .staked user _ => user
  | .returned user _ => user
  | .sentToPool member _ _ => member
  | .retained member _ => member

variable {account} {movement : Movement}

theorem deposit_of_other (other : movement.holder ≠ account) (deposit taken : ℕ) :
    movement.lastDeposit account deposit = deposit ∧ movement.penalties account taken = taken := by
  cases movement with
  | staked => exact ⟨if_neg other, if_neg other⟩
  | returned => exact ⟨rfl, rfl⟩
  | sentToPool => exact ⟨rfl, if_neg other⟩
  | retained => exact ⟨rfl, if_neg other⟩

theorem amounts_of_other (other : movement.holder ≠ account) :
    movement.stakedBy account = 0 ∧ movement.returnedTo account = 0 ∧
      movement.sentToPoolFrom account = 0 ∧ movement.retainedFrom account = 0 := by
  cases movement with
  | staked => exact ⟨if_neg other, rfl, rfl, rfl⟩
  | returned => exact ⟨rfl, if_neg other, rfl, rfl⟩
  | sentToPool => exact ⟨rfl, rfl, if_neg other, rfl⟩
  | retained => exact ⟨rfl, rfl, rfl, if_neg other⟩

end Movement

namespace State

variable (state : State) (account : Address)

/-- The amount of the stake of an account, which counts only while it is active. -/
def activeAmount : ℕ :=
  if (state.stakes account).isActive then (state.stakes account).amount else 0

def lastDeposit : ℕ := state.movements.foldl (Movement.lastDeposit account) 0

def penaltiesSinceDeposit : ℕ := state.movements.foldl (Movement.penalties account) 0

def total (amount : Movement → ℕ) : ℕ := (state.movements.map amount).sum

end State

structure Inv (state : State) : Prop where
  finite : state.activeAmount.support.Finite
  pool : state.totalStakePool = ∑ᶠ account, state.activeAmount account
  covered : state.totalStakePool + state.total Movement.kept ≤ state.balance
  balance_lt : state.balance < wordSize
  active : ∀ account, (state.stakes account).isActive →
    0 < (state.stakes account).amount ∧ state.lastDeposit account = requiredStake ∧
      (state.stakes account).amount + state.penaltiesSinceDeposit account =
        state.lastDeposit account
  accounted : ∀ account, state.total (Movement.stakedBy account) =
    state.activeAmount account + state.total (Movement.returnedTo account) +
      state.total (Movement.sentToPoolFrom account) + state.total (Movement.retainedFrom account)

theorem inv_create (self owner : Address) {balance : ℕ} (fits : balance < wordSize) :
    Inv (.create self owner balance) where
  finite := by simp [State.activeAmount, State.create, StakeInfo.blank, support]
  pool := by simp [State.activeAmount, State.create, StakeInfo.blank]
  covered := by simp [State.total, State.create]
  balance_lt := fits
  active := by simp [State.create, StakeInfo.blank]
  accounted := by simp [State.total, State.activeAmount, State.create, StakeInfo.blank]

section Ledger

variable {state state' : State} {movement : Movement}

variable (appended : state'.movements = state.movements ++ [movement])

include appended

theorem total_append (amount : Movement → ℕ) :
    state'.total amount = state.total amount + amount movement := by
  simp [State.total, appended]

theorem lastDeposit_append (account : Address) : state'.lastDeposit account =
      movement.lastDeposit account (state.lastDeposit account) := by
  simp [State.lastDeposit, appended]

theorem penaltiesSinceDeposit_append (account : Address) :
    state'.penaltiesSinceDeposit account =
      movement.penalties account (state.penaltiesSinceDeposit account) := by
  simp [State.penaltiesSinceDeposit, appended]

end Ledger

namespace Inv

variable {state : State}

theorem activeAmount_le (inv : Inv state) (account : Address) :
    state.activeAmount account ≤ state.totalStakePool := by
  rw [inv.pool]
  exact Holdings.le_finsum inv.finite account

theorem amount_le (inv : Inv state) {account : Address} (active : (state.stakes account).isActive) :
    (state.stakes account).amount ≤ state.totalStakePool := by
  have le := inv.activeAmount_le account
  rwa [State.activeAmount, if_pos active] at le

theorem totalStakePool_lt (inv : Inv state) : state.totalStakePool < wordSize := by
  have covered := inv.covered
  have lt := inv.balance_lt
  omega

theorem pool_update (inv : Inv state) {state' : State} {account : Address} {amount : ℕ}
    (changed : state'.activeAmount = update state.activeAmount account amount)
    (pool : state'.totalStakePool + state.activeAmount account = state.totalStakePool + amount) :
    state'.activeAmount.support.Finite ∧
      state'.totalStakePool = ∑ᶠ account, state'.activeAmount account := by
  have sum := Holdings.finsum_update inv.finite account amount
  rw [changed]
  refine ⟨Holdings.finite_support_update inv.finite account amount, ?_⟩
  have before := inv.pool
  omega

theorem moved (inv : Inv state) {state' : State} {movement : Movement} {amount : ℕ}
    (appended : state'.movements = state.movements ++ [movement])
    (changed : state'.activeAmount = update state.activeAmount movement.holder amount)
    (others : ∀ account ≠ movement.holder, state'.stakes account = state.stakes account)
    (pool : state'.totalStakePool + state.activeAmount movement.holder =
      state.totalStakePool + amount)
    (covered : state'.totalStakePool + (state.total Movement.kept + movement.kept) ≤
      state'.balance) (fits : state'.balance < wordSize)
    (active : (state'.stakes movement.holder).isActive →
      0 < (state'.stakes movement.holder).amount ∧
      state'.lastDeposit movement.holder = requiredStake ∧
      (state'.stakes movement.holder).amount + state'.penaltiesSinceDeposit movement.holder =
        state'.lastDeposit movement.holder)
    (accounted : movement.stakedBy movement.holder + state.activeAmount movement.holder =
      amount + movement.returnedTo movement.holder + movement.sentToPoolFrom movement.holder +
        movement.retainedFrom movement.holder) : Inv state' := by
  rcases inv.pool_update changed pool with ⟨finite, sum⟩
  refine ⟨finite, sum, ?_, fits, ?_, ?_⟩
  · rw [total_append appended]
    exact covered
  · intro account
    by_cases same : movement.holder = account
    · exact same ▸ active
    · rcases Movement.deposit_of_other same (state.lastDeposit account)
        (state.penaltiesSinceDeposit account) with ⟨deposit, taken⟩
      rw [lastDeposit_append appended, penaltiesSinceDeposit_append appended,
        others account (Ne.symm same), deposit, taken]
      exact inv.active account
  · intro account
    have before := inv.accounted account
    simp only [total_append appended, changed]
    by_cases same : movement.holder = account
    · subst same
      rw [update_self]
      omega
    · rcases Movement.amounts_of_other same with ⟨staked, returned, sent, retained⟩
      rw [update_of_ne (Ne.symm same), staked, returned, sent, retained]
      exact before

end Inv

section Operations

variable {state : State}

theorem activeAmount_staked (msg : Msg) : (state.staked msg).activeAmount =
    update state.activeAmount msg.sender msg.value := by
  funext account
  by_cases same : account = msg.sender
  · simp [State.activeAmount, State.staked, same]
  · simp [State.activeAmount, State.staked, same]

theorem activeAmount_unstaked (user : Address) :
    (state.unstaked user).activeAmount = update state.activeAmount user 0 := by
  funext account
  by_cases same : account = user
  · simp [State.activeAmount, State.unstaked, same]
  · simp [State.activeAmount, State.unstaked, same]

theorem activeAmount_slashed {member : Address} {penaltyAmount : ℕ}
    (active : (state.stakes member).isActive) :
    (state.slashed member penaltyAmount).activeAmount = update state.activeAmount member
      (Word.sub (state.stakes member).amount penaltyAmount) := by
  funext account
  by_cases same : account = member
  · by_cases empty : Word.sub (state.stakes member).amount penaltyAmount = 0
    · simp [State.activeAmount, State.slashed, same, empty]
    · simp [State.activeAmount, State.slashed, same, empty, active]
  · simp [State.activeAmount, State.slashed, same]

theorem inv_staked (inv : Inv state) {msg : Msg} (exact : msg.value = requiredStake)
    (inactive : ¬(state.stakes msg.sender).isActive) (fits : state.balance + msg.value < wordSize) :
    Inv (state.staked msg) := by
  have nothing : state.activeAmount msg.sender = 0 := if_neg inactive
  have covered := inv.covered
  have pool : (state.staked msg).totalStakePool = state.totalStakePool + msg.value :=
    Word.add_of_lt (by omega)
  have appended : (state.staked msg).movements =
      state.movements ++ [.staked msg.sender msg.value] := rfl
  apply inv.moved appended (activeAmount_staked msg)
  · intro account other
    exact update_of_ne other _ _
  · simp only [pool, Movement.holder]
    omega
  · rw [pool]
    simp only [State.staked, Movement.kept]
    omega
  · exact fits
  · rw [lastDeposit_append appended, penaltiesSinceDeposit_append appended]
    simp [State.staked, Movement.lastDeposit, Movement.penalties, Movement.holder, exact,
      requiredStake]
  · simp [Movement.stakedBy, Movement.returnedTo, Movement.sentToPoolFrom, Movement.retainedFrom,
      Movement.holder, nothing]

theorem inv_unstaked (inv : Inv state) {user : Address} (active : (state.stakes user).isActive) :
    Inv (state.unstaked user) := by
  have amount : state.activeAmount user = (state.stakes user).amount := if_pos active
  have le := inv.amount_le active
  have covered := inv.covered
  have fits := inv.balance_lt
  have pool : (state.unstaked user).totalStakePool =
      state.totalStakePool - (state.stakes user).amount :=
    Word.sub_of_le inv.totalStakePool_lt le
  have appended : (state.unstaked user).movements =
      state.movements ++ [.returned user (state.stakes user).amount] := rfl
  apply inv.moved appended (activeAmount_unstaked user)
  · intro account other
    exact update_of_ne other _ _
  · simp only [pool, Movement.holder]
    omega
  · rw [pool]
    simp only [State.unstaked, Movement.kept]
    omega
  · simp only [State.unstaked]
    omega
  · simp [State.unstaked, Movement.holder]
  · simp [Movement.stakedBy, Movement.returnedTo, Movement.sentToPoolFrom, Movement.retainedFrom,
      Movement.holder, amount]

theorem inv_slashed (inv : Inv state) {member : Address} {penaltyAmount : ℕ}
    (active : (state.stakes member).isActive)
    (le : penaltyAmount ≤ (state.stakes member).amount) {state' : State} {movement : Movement}
    (stakes : state'.stakes = (state.slashed member penaltyAmount).stakes)
    (pool : state'.totalStakePool = (state.slashed member penaltyAmount).totalStakePool)
    (appended : state'.movements = state.movements ++ [movement])
    (penalty : movement = .retained member penaltyAmount ∨
      ∃ pool, movement = .sentToPool member pool penaltyAmount)
    (balance : state'.balance + penaltyAmount = state.balance + movement.kept) : Inv state' := by
  have amount : state.activeAmount member = (state.stakes member).amount := if_pos active
  have amountLe := inv.amount_le active
  have covered := inv.covered
  have fits := inv.balance_lt
  have left : Word.sub (state.stakes member).amount penaltyAmount =
      (state.stakes member).amount - penaltyAmount := Word.sub_of_le (by omega) le
  have poolLeft : state'.totalStakePool = state.totalStakePool - penaltyAmount := by
    rw [pool]
    exact Word.sub_of_le inv.totalStakePool_lt (by omega)
  have changed : state'.activeAmount = update state.activeAmount member
      ((state.stakes member).amount - penaltyAmount) := by
    rw [← left, ← activeAmount_slashed active]
    funext account
    rw [State.activeAmount, State.activeAmount, stakes]
  -- both kinds of penalty have the same holder and take the same amount from the stake
  have holder : movement.holder = member := by
    rcases penalty with rfl | ⟨pool, rfl⟩
    · rfl
    · rfl
  have taken : movement.lastDeposit member (state.lastDeposit member) = state.lastDeposit member ∧
      movement.penalties member (state.penaltiesSinceDeposit member) =
        state.penaltiesSinceDeposit member + penaltyAmount ∧ movement.kept ≤ penaltyAmount := by
    rcases penalty with rfl | ⟨pool, rfl⟩
    · simp [Movement.lastDeposit, Movement.penalties, Movement.kept]
    · simp [Movement.lastDeposit, Movement.penalties, Movement.kept]
  have moved : movement.stakedBy member = 0 ∧ movement.returnedTo member = 0 ∧
      movement.sentToPoolFrom member + movement.retainedFrom member = penaltyAmount := by
    rcases penalty with rfl | ⟨pool, rfl⟩
    · simp [Movement.stakedBy, Movement.returnedTo, Movement.sentToPoolFrom, Movement.retainedFrom]
    · simp [Movement.stakedBy, Movement.returnedTo, Movement.sentToPoolFrom, Movement.retainedFrom]
  subst holder
  apply inv.moved appended changed
  · intro account other
    rw [stakes]
    exact update_of_ne other _ _
  · omega
  · omega
  · omega
  · rw [lastDeposit_append appended, penaltiesSinceDeposit_append appended, stakes, taken.1,
      taken.2.1]
    simp only [State.slashed, update_self, left]
    intro active'
    have positive : (state.stakes movement.holder).amount - penaltyAmount ≠ 0 := by
      intro empty
      simp [empty] at active'
    have before := inv.active movement.holder active
    omega
  · omega

theorem inv_settings (inv : Inv state) (committeeRotation rewardPool : Address) :
    Inv { state with committeeRotation, rewardPool } :=
  { inv with }

theorem inv_received (inv : Inv state) {value : ℕ} (fits : state.balance + value < wordSize) :
    Inv { state with balance := state.balance + value } :=
  ⟨inv.finite, inv.pool, inv.covered.trans (Nat.le_add_right _ _), fits, inv.active, inv.accounted⟩

end Operations

section Keeps

variable {state : State} {msg : Msg}

theorem keeps_stake (fits : state.balance + msg.value < wordSize) :
    (preserving Inv).Keeps state (stake msg state) := by
  simp only [stake, keeps_require_iff]
  intro exact inactive inv
  exact inv_staked inv exact inactive fits

theorem keeps_unstake : (preserving Inv).Keeps state (unstake msg state) := by
  simp only [unstake, keeps_require_iff]
  intro _ active _
  apply keeps_call_done
  intro inv
  exact inv_unstaked inv active

theorem keeps_slash (maliciousMember : Address) (penaltyAmount : ℕ) :
    (preserving Inv).Keeps state (slash msg maliciousMember penaltyAmount state) := by
  simp only [slash, keeps_require_iff]
  intro _ _ _ active _ le
  split_ifs with noPool
  · intro inv
    exact inv_slashed inv active le rfl rfl rfl (Or.inl rfl) rfl
  · simp only [keeps_require_iff]
    intro afford
    have sent : Inv state → Inv ((state.slashed maliciousMember penaltyAmount).sentToPool
        maliciousMember penaltyAmount) := by
      intro inv
      exact inv_slashed inv active le rfl rfl rfl (Or.inr ⟨_, rfl⟩)
        (Nat.sub_add_cancel afford.1)
    apply keeps_call sent
    intro state' rely
    apply keeps_call_done
    intro inv
    exact rely (sent inv)

theorem keeps_setRewardPool (pool : Address) :
    (preserving Inv).Keeps state (setRewardPool msg pool state) := by
  simp only [setRewardPool, keeps_require_iff]
  intro _ _ _ inv
  exact inv_settings inv _ _

theorem keeps_setCommitteeRotation (rotation : Address) :
    (preserving Inv).Keeps state (setCommitteeRotation msg rotation state) := by
  simp only [setCommitteeRotation, keeps_require_iff]
  intro _ _ _ inv
  exact inv_settings inv _ _

theorem keeps_execute (call : Call) (state : State) :
    (preserving Inv).Keeps state (execute call state) := by
  simp only [execute, keeps_require_iff]
  intro fits
  cases call.request with
  | stake => exact keeps_stake fits
  | unstake => exact keeps_unstake
  | slash maliciousMember penaltyAmount => exact keeps_slash maliciousMember penaltyAmount
  | setRewardPool pool => exact keeps_setRewardPool pool
  | setCommitteeRotation rotation => exact keeps_setCommitteeRotation rotation
  | receive => exact fun inv => inv_received inv fits

end Keeps

theorem inv_of_mem_seen {self owner : Address} {balance : ℕ} (fits : balance < wordSize)
    (script : Script Call) {state : State}
    (seen : state ∈ (script.run execute (.create self owner balance)).seen) : Inv state :=
  (run_within keeps_execute script _).seen state seen (inv_create self owner fits)

theorem execute_unstake {state : State} (inv : Inv state) {msg : Msg} (noValue : msg.value = 0)
    (active : (state.stakes msg.sender).isActive) :
    execute ⟨msg, .unstake⟩ state = .call (state.unstaked msg.sender) .done := by
  have amountLe := inv.amount_le active
  have covered := inv.covered
  have fits := inv.balance_lt
  have affordable : (state.stakes msg.sender).amount ≤ state.balance := by omega
  simp [execute, unstake, Prog.require, noValue, active, affordable, fits]

/-- Whatever anybody does, the contract is solvent and loses nothing. -/
theorem stakes_solvent (self owner : Address) {balance : ℕ} (fits : balance < wordSize)
    (script : Script Call) (state : State)
    (seen : state ∈ (script.run execute (.create self owner balance)).seen) :
    (state.activeAmount.support.Finite ∧
      state.totalStakePool = ∑ᶠ account, state.activeAmount account ∧
      state.totalStakePool ≤ state.balance) ∧
    (∀ account, (state.stakes account).isActive →
      0 < (state.stakes account).amount ∧ (state.stakes account).amount ≤ requiredStake) ∧
    (∀ account, (state.stakes account).isActive →
      ∀ amount ≤ (state.stakes account).amount,
        Word.sub (state.stakes account).amount amount = (state.stakes account).amount - amount ∧
        amount ≤ state.totalStakePool ∧
        Word.sub state.totalStakePool amount = state.totalStakePool - amount ∧
        amount ≤ state.balance) ∧
    (∀ msg : Msg, msg.value = 0 → (state.stakes msg.sender).isActive →
      execute ⟨msg, .unstake⟩ state = .call (state.unstaked msg.sender) .done ∧
      (state.unstaked msg.sender).balance +
        (state.lastDeposit msg.sender - state.penaltiesSinceDeposit msg.sender) = state.balance ∧
      (state.unstaked msg.sender).movements = state.movements ++ [.returned msg.sender
        (state.lastDeposit msg.sender - state.penaltiesSinceDeposit msg.sender)] ∧
      state.lastDeposit msg.sender = requiredStake) ∧
    ∀ account, state.total (Movement.stakedBy account) =
      state.activeAmount account + state.total (Movement.returnedTo account) +
        state.total (Movement.sentToPoolFrom account) +
          state.total (Movement.retainedFrom account) := by
  have inv := inv_of_mem_seen fits script seen
  have covered := inv.covered
  have balanceFits := inv.balance_lt
  refine ⟨⟨inv.finite, inv.pool, by omega⟩, ?_, ?_, ?_, inv.accounted⟩
  · intro account active
    rcases inv.active account active with ⟨positive, deposit, sum⟩
    exact ⟨positive, by omega⟩
  · intro account active amount le
    have amountLe := inv.amount_le active
    exact ⟨Word.sub_of_le (by omega) le, by omega, Word.sub_of_le (by omega) (by omega), by omega⟩
  · intro msg noValue active
    rcases inv.active msg.sender active with ⟨positive, deposit, sum⟩
    have amountLe := inv.amount_le active
    have left : state.lastDeposit msg.sender - state.penaltiesSinceDeposit msg.sender =
        (state.stakes msg.sender).amount := by omega
    rw [left]
    refine ⟨execute_unstake inv noValue active, ?_, rfl, deposit⟩
    exact Nat.sub_add_cancel (by omega)

def twicePenalised : Script Call :=
  .call ⟨⟨7, requiredStake, 100⟩, .stake⟩ [] <|
  .call ⟨⟨2, 0, 101⟩, .slash 7 250000000000000000⟩ [] <|
  .call ⟨⟨2, 0, 102⟩, .setRewardPool 9⟩ [] <|
  .call ⟨⟨2, 0, 103⟩, .slash 7 250000000000000000⟩
    [.call ⟨⟨9, 5, 103⟩, .receive⟩ [] (.stop true)] <|
  .stop true

def twicePenalisedState : State :=
  ((twicePenalised.run execute (.create 1 2 0)).final).get (by decide +kernel)

theorem stakes_solvent_twicePenalised :
    (twicePenalisedState.stakes 7).isActive ∧
      execute ⟨⟨7, 0, 104⟩, .unstake⟩ twicePenalisedState =
        .call (twicePenalisedState.unstaked 7) .done ∧
      (twicePenalisedState.unstaked 7).balance + 500000000000000000 =
        twicePenalisedState.balance := by
  have final : (twicePenalised.run execute (.create 1 2 0)).final = some twicePenalisedState := by
    rw [twicePenalisedState, Option.some_get]
  have active : (twicePenalisedState.stakes 7).isActive := by decide +kernel
  have payout : twicePenalisedState.lastDeposit 7 - twicePenalisedState.penaltiesSinceDeposit 7 =
      500000000000000000 := by
    decide +kernel
  have solvent := stakes_solvent 1 2 (lt_wordSize (by decide)) twicePenalised twicePenalisedState
    (Script.mem_seen_of_final final)
  rcases solvent.2.2.2.1 ⟨7, 0, 104⟩ rfl active with ⟨pays, balance, -⟩
  rw [payout] at balance
  exact ⟨active, pays, balance⟩

end TigerMixer.Staking
