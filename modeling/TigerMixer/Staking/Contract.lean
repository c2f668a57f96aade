import TigerMixer.Calls.Reentrancy
import TigerMixer.Solidity.Basic

/-!
# The staking contract

`StakingManager`: an account stakes exactly one ether and takes back what is left of it at any time.
The owner and the rotation contract can slash an active stake; the penalty goes to the reward pool,
or stays in the contract while no pool is set. The state also holds the balance, which is a word,
and a ledger of the amounts that were moved.
-/

namespace TigerMixer.Staking

open Calls

def requiredStake : ℕ := 1000000000000000000

structure StakeInfo where
  amount : ℕ
  stakeTime : ℕ
  isActive : Bool
deriving DecidableEq

def StakeInfo.blank : StakeInfo :=
  { amount := 0, stakeTime := 0, isActive := false }

/-- An amount that was staked, given back, sent to a pool, or kept because there was none. -/
inductive Movement
  | staked (user : Address) (amount : ℕ)
  | returned (user : Address) (amount : ℕ)
  | sentToPool (member pool : Address) (amount : ℕ)
  | retained (member : Address) (amount : ℕ)
deriving DecidableEq

structure State where
  self : Address
  owner : Address
  committeeRotation : Address
  rewardPool : Address
  stakes : Address → StakeInfo
  totalStakePool : ℕ
  slashedAmounts : Address → ℕ
  balance : ℕ
  movements : List Movement

def State.create (self owner : Address) (balance : ℕ) : State :=
  { self, owner, committeeRotation := 0, rewardPool := 0, stakes := fun _ => .blank,
    totalStakePool := 0, slashedAmounts := fun _ => 0, balance, movements := [] }

inductive Request
  | stake
  | unstake
  | slash (maliciousMember : Address) (penaltyAmount : ℕ)
  | setRewardPool (pool : Address)
  | setCommitteeRotation (rotation : Address)
  | receive

structure Call where
  msg : Msg
  request : Request

namespace State

def staked (state : State) (msg : Msg) : State :=
  { state with
    stakes := Function.update state.stakes msg.sender
      { amount := msg.value, stakeTime := msg.timestamp, isActive := true }
    totalStakePool := Word.add state.totalStakePool msg.value
    balance := state.balance + msg.value
    movements := state.movements ++ [.staked msg.sender msg.value] }

def unstaked (state : State) (user : Address) : State :=
  let stakeInfo := state.stakes user
  { state with
    stakes := Function.update state.stakes user { stakeInfo with isActive := false }
    totalStakePool := Word.sub state.totalStakePool stakeInfo.amount
    balance := state.balance - stakeInfo.amount
    movements := state.movements ++ [.returned user stakeInfo.amount] }

variable (state : State) (member : Address) (penaltyAmount : ℕ)

def slashed : State :=
  let stakeInfo := state.stakes member
  let amount := Word.sub stakeInfo.amount penaltyAmount
  { state with
    stakes := Function.update state.stakes member
      { stakeInfo with amount, isActive := if amount = 0 then false else stakeInfo.isActive }
    totalStakePool := Word.sub state.totalStakePool penaltyAmount
    slashedAmounts := Function.update state.slashedAmounts member
      (Word.add (state.slashedAmounts member) penaltyAmount) }

def sentToPool : State :=
  { state with
    balance := state.balance - penaltyAmount
    movements := state.movements ++ [.sentToPool member state.rewardPool penaltyAmount] }

def retained : State :=
  { state with movements := state.movements ++ [.retained member penaltyAmount] }

def getStakeInfo (user : Address) : StakeInfo :=
  state.stakes user

end State

def stake (msg : Msg) (state : State) : Prog State :=
  .require (msg.value = requiredStake) <|
  .require (¬(state.stakes msg.sender).isActive) <|
    .done (state.staked msg)

def unstake (msg : Msg) (state : State) : Prog State :=
  .require (msg.value = 0) <|
  .require ((state.stakes msg.sender).isActive) <|
  .require ((state.stakes msg.sender).amount ≤ state.balance) <|
    .call (state.unstaked msg.sender) .done

def slash (msg : Msg) (maliciousMember : Address) (penaltyAmount : ℕ) (state : State) :
    Prog State :=
  .require (msg.value = 0) <|
  .require (msg.sender = state.owner ∨ msg.sender = state.committeeRotation) <|
  .require (maliciousMember ≠ 0) <|
  .require ((state.stakes maliciousMember).isActive) <|
  .require (0 < penaltyAmount) <|
  .require (penaltyAmount ≤ (state.stakes maliciousMember).amount) <|
    let state := state.slashed maliciousMember penaltyAmount
    if state.rewardPool = 0 then
      .done (state.retained maliciousMember penaltyAmount)
    else
      -- The contract itself takes the ether back but has no `depositSlashedFunds`.
      .require (penaltyAmount ≤ state.balance ∧ state.rewardPool ≠ state.self) <|
        .call (state.sentToPool maliciousMember penaltyAmount) fun state =>
          .call state .done

def setRewardPool (msg : Msg) (pool : Address) (state : State) : Prog State :=
  .require (msg.value = 0) <| .require (msg.sender = state.owner) <| .require (pool ≠ 0) <|
    .done { state with rewardPool := pool }

def setCommitteeRotation (msg : Msg) (rotation : Address) (state : State) : Prog State :=
  .require (msg.value = 0) <| .require (msg.sender = state.owner) <| .require (rotation ≠ 0) <|
    .done { state with committeeRotation := rotation }

def receive (msg : Msg) (state : State) : Prog State :=
  .done { state with balance := state.balance + msg.value }

def execute (call : Call) (state : State) : Prog State :=
  .require (state.balance + call.msg.value < wordSize) <|
    match call.request with
    | .stake => stake call.msg state
    | .unstake => unstake call.msg state
    | .slash maliciousMember penaltyAmount => slash call.msg maliciousMember penaltyAmount state
    | .setRewardPool pool => setRewardPool call.msg pool state
    | .setCommitteeRotation rotation => setCommitteeRotation call.msg rotation state
    | .receive => receive call.msg state

end TigerMixer.Staking
