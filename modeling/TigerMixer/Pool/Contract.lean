import TigerMixer.Calls.Reentrancy
import TigerMixer.Solidity.Basic

/-!
# The reward pool

`RewardPool`: service fees and penalties belong to the epoch in which they arrive. Authorized
contracts record who took part in a transaction. When the rewards of an epoch are distributed, every
listed member is entitled to a share in proportion to its transactions. The state also holds the
balance and a ledger of the rewards paid. Events are left out.
-/

namespace TigerMixer.Pool

open Calls

structure EpochReward where
  totalReward : ℕ
  totalTransactions : ℕ
  distributed : Bool
  memberTransactions : Address → ℕ
  memberRewards : Address → ℕ

def EpochReward.blank : EpochReward :=
  { totalReward := 0, totalTransactions := 0, distributed := false,
    memberTransactions := fun _ => 0, memberRewards := fun _ => 0 }

structure Payout where
  epoch : ℕ
  member : Address
  amount : ℕ
deriving DecidableEq

structure State where
  owner : Address
  committeeRotation : Address
  signatureEscrow : Address
  fixedMixerEscrow : Address
  currentEpoch : ℕ
  epochs : ℕ → EpochReward
  totalPoolBalance : ℕ
  balance : ℕ
  payouts : List Payout

def State.create (owner : Address) (balance : ℕ) : State :=
  { owner, committeeRotation := 0, signatureEscrow := 0, fixedMixerEscrow := 0, currentEpoch := 1,
    epochs := fun _ => .blank, totalPoolBalance := 0, balance, payouts := [] }

inductive Request
  | setCommitteeRotation (rotation : Address)
  | setSignatureEscrow (escrow : Address)
  | setFixedMixerEscrow (escrow : Address)
  | depositSlashedFunds (slashedMember : Address) (amount : ℕ)
  | recordTransaction (member : Address)
  | endEpoch
  | distributeRewardsToMembers (epoch : ℕ) (members : List Address)
  | claimReward (epoch : ℕ)
  | receive

structure Call where
  msg : Msg
  request : Request

def memberShares (record : EpochReward) (members : List Address) : Address → ℕ :=
  members.foldl
    (fun memberRewards member =>
      let memberTxCount := record.memberTransactions member
      if 0 < memberTxCount then
        Function.update memberRewards member
          (Word.mul record.totalReward memberTxCount / record.totalTransactions)
      else memberRewards)
    record.memberRewards

namespace State

def setEpoch (state : State) (epoch : ℕ) (record : EpochReward) : State :=
  { state with epochs := Function.update state.epochs epoch record }

def Authorized (state : State) (msg : Msg) : Prop :=
  msg.sender = state.owner ∨ msg.sender = state.committeeRotation ∨
    msg.sender = state.signatureEscrow ∨ msg.sender = state.fixedMixerEscrow

instance (state : State) (msg : Msg) : Decidable (state.Authorized msg) :=
  inferInstanceAs (Decidable (_ ∨ _))

def Rotator (state : State) (msg : Msg) : Prop :=
  msg.sender = state.committeeRotation ∨ msg.sender = state.owner

instance (state : State) (msg : Msg) : Decidable (state.Rotator msg) :=
  inferInstanceAs (Decidable (_ ∨ _))

def recorded (state : State) (member : Address) : State :=
  let record := state.epochs state.currentEpoch
  state.setEpoch state.currentEpoch
    { record with
      memberTransactions := Function.update record.memberTransactions member
        (Word.add (record.memberTransactions member) 1)
      totalTransactions := Word.add record.totalTransactions 1 }

def epochEnded (state : State) : State :=
  let epoch := Word.add state.currentEpoch 1
  State.setEpoch { state with currentEpoch := epoch } epoch
    { state.epochs epoch with totalReward := 0, totalTransactions := 0, distributed := false }

def distributedTo (state : State) (epoch : ℕ) (members : List Address) : State :=
  let record := state.epochs epoch
  state.setEpoch epoch
    { record with memberRewards := memberShares record members, distributed := true }

def claimed (state : State) (epoch : ℕ) (member : Address) : State :=
  let record := state.epochs epoch
  let reward := record.memberRewards member
  State.setEpoch
    { state with
      totalPoolBalance := Word.sub state.totalPoolBalance reward
      balance := state.balance - reward
      payouts := state.payouts ++ [⟨epoch, member, reward⟩] }
    epoch { record with memberRewards := Function.update record.memberRewards member 0 }

def received (state : State) (value : ℕ) : State :=
  let record := state.epochs state.currentEpoch
  State.setEpoch
    { state with
      totalPoolBalance := Word.add state.totalPoolBalance value
      balance := state.balance + value }
    state.currentEpoch { record with totalReward := Word.add record.totalReward value }

end State

def setAddress (msg : Msg) (state state' : State) : Prog State :=
  .require (msg.value = 0) <| .require (msg.sender = state.owner) <| .done state'

def setCommitteeRotation (msg : Msg) (rotation : Address) (state : State) : Prog State :=
  setAddress msg state { state with committeeRotation := rotation }

def setSignatureEscrow (msg : Msg) (escrow : Address) (state : State) : Prog State :=
  setAddress msg state { state with signatureEscrow := escrow }

def setFixedMixerEscrow (msg : Msg) (escrow : Address) (state : State) : Prog State :=
  setAddress msg state { state with fixedMixerEscrow := escrow }

def depositSlashedFunds (msg : Msg) (amount : ℕ) (state : State) : Prog State :=
  .require (msg.value = 0) <| .require (0 < amount) <| .done state

def recordTransaction (msg : Msg) (member : Address) (state : State) : Prog State :=
  .require (msg.value = 0) <| .require (state.Authorized msg) <| .require (member ≠ 0) <|
    .done (state.recorded member)

def endEpoch (msg : Msg) (state : State) : Prog State :=
  .require (msg.value = 0) <| .require (state.Rotator msg) <| .done state.epochEnded

def distributeRewardsToMembers (msg : Msg) (epoch : ℕ) (members : List Address) (state : State) :
    Prog State :=
  .require (msg.value = 0) <|
  .require (epoch ≤ state.currentEpoch) <|
  .require (¬(state.epochs epoch).distributed) <|
  .require (0 < (state.epochs epoch).totalReward) <|
  .require (0 < (state.epochs epoch).totalTransactions) <|
  .require (state.Rotator msg) <|
    .done (state.distributedTo epoch members)

def claimReward (msg : Msg) (epoch : ℕ) (state : State) : Prog State :=
  .require (msg.value = 0) <|
  .require (epoch < state.currentEpoch) <|
  .require ((state.epochs epoch).distributed) <|
  .require (0 < (state.epochs epoch).memberRewards msg.sender) <|
  .require ((state.epochs epoch).memberRewards msg.sender ≤ state.balance) <|
    .call (state.claimed epoch msg.sender) .done

def receive (msg : Msg) (state : State) : Prog State :=
  .require (0 < msg.value) <| .done (state.received msg.value)

def execute (call : Call) (state : State) : Prog State :=
  .require (state.balance + call.msg.value < wordSize) <|
    match call.request with
    | .setCommitteeRotation rotation => setCommitteeRotation call.msg rotation state
    | .setSignatureEscrow escrow => setSignatureEscrow call.msg escrow state
    | .setFixedMixerEscrow escrow => setFixedMixerEscrow call.msg escrow state
    | .depositSlashedFunds _ amount => depositSlashedFunds call.msg amount state
    | .recordTransaction member => recordTransaction call.msg member state
    | .endEpoch => endEpoch call.msg state
    | .distributeRewardsToMembers epoch members =>
      distributeRewardsToMembers call.msg epoch members state
    | .claimReward epoch => claimReward call.msg epoch state
    | .receive => receive call.msg state

/-- What a call that goes through can have done by the time external code has control. -/
inductive Update (msg : Msg) (state : State) : State → Prop
  | unchanged : Update msg state state
  | settings (committeeRotation signatureEscrow fixedMixerEscrow : Address) :
      Update msg state { state with committeeRotation, signatureEscrow, fixedMixerEscrow }
  | recorded (member : Address) (authorized : state.Authorized msg) (nonzero : member ≠ 0) :
      Update msg state (state.recorded member)
  | epochEnded (rotator : state.Rotator msg) : Update msg state state.epochEnded
  | distributedTo (epoch : ℕ) (members : List Address) (started : epoch ≤ state.currentEpoch)
      (undistributed : ¬(state.epochs epoch).distributed) (rotator : state.Rotator msg) :
      Update msg state (state.distributedTo epoch members)
  | claimed (epoch : ℕ) (past : epoch < state.currentEpoch)
      (distributed : (state.epochs epoch).distributed)
      (positive : 0 < (state.epochs epoch).memberRewards msg.sender) :
      Update msg state (state.claimed epoch msg.sender)
  | received (fits : state.balance + msg.value < wordSize) :
      Update msg state (state.received msg.value)

theorem keeps_setAddress {discipline : Discipline State} {msg : Msg} {state state' : State}
    (rely : discipline.rely state state') :
    discipline.Keeps state (setAddress msg state state') := by
  simp only [setAddress, Discipline.keeps_require_iff]
  intro _ _
  exact rely

theorem keeps_of_update {discipline : Discipline State} {call : Call} {state : State}
    (step : ∀ state', Update call.msg state state' → discipline.rely state state') :
    discipline.Keeps state (execute call state) := by
  simp only [execute, Discipline.keeps_require_iff]
  intro fits
  cases call.request with
  | setCommitteeRotation rotation => exact keeps_setAddress (step _ (.settings rotation _ _))
  | setSignatureEscrow escrow => exact keeps_setAddress (step _ (.settings _ escrow _))
  | setFixedMixerEscrow escrow => exact keeps_setAddress (step _ (.settings _ _ escrow))
  | depositSlashedFunds member amount =>
    simp only [depositSlashedFunds, Discipline.keeps_require_iff]
    intro _ _
    exact step _ .unchanged
  | recordTransaction member =>
    simp only [recordTransaction, Discipline.keeps_require_iff]
    intro _ authorized nonzero
    exact step _ (.recorded member authorized nonzero)
  | endEpoch =>
    simp only [endEpoch, Discipline.keeps_require_iff]
    intro _ rotator
    exact step _ (.epochEnded rotator)
  | distributeRewardsToMembers epoch members =>
    simp only [distributeRewardsToMembers, Discipline.keeps_require_iff]
    intro _ started undistributed _ _ rotator
    exact step _ (.distributedTo epoch members started undistributed rotator)
  | claimReward epoch =>
    simp only [claimReward, Discipline.keeps_require_iff]
    intro _ past distributed positive _
    apply Discipline.keeps_call_done
    exact step _ (.claimed epoch past distributed positive)
  | receive =>
    simp only [receive, Discipline.keeps_require_iff]
    intro _
    exact step _ (.received fits)

end TigerMixer.Pool
