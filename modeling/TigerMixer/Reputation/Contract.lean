import TigerMixer.Solidity.Basic

/-!
# The reputation contract

`ReputationManager`: every account reports its own participation and consistency, and its reputation
is the weighted sum of the two plus the decayed reputation before the report. Nobody else can report
for it.
-/

namespace TigerMixer.Reputation

structure MemberReputation where
  participationRate : ℕ
  consistency : ℕ
  lastUpdateTime : ℕ
  totalDecisions : ℕ
  correctDecisions : ℕ
  previousReputation : ℕ
deriving DecidableEq

def MemberReputation.blank : MemberReputation :=
  { participationRate := 0, consistency := 0, lastUpdateTime := 0, totalDecisions := 0,
    correctDecisions := 0, previousReputation := 0 }

structure State where
  committeeMembers : List Address
  memberReputations : Address → MemberReputation

def omegaConsistency : ℕ := 600000000000000000

def omegaParticipation : ℕ := 400000000000000000

def precision : ℕ := 1000000000000000000

def lambda : ℕ := 950000000000000000

def MemberReputation.initial (timestamp : ℕ) : MemberReputation :=
  { participationRate := 50, consistency := 50, lastUpdateTime := timestamp, totalDecisions := 0,
    correctDecisions := 0, previousReputation := 0 }

def State.create (members : List Address) (timestamp : ℕ) : State :=
  { committeeMembers := members
    memberReputations := members.foldl
      (fun records member => Function.update records member (.initial timestamp))
      fun _ => .blank }

namespace State

def calculateDeltaReputation (state : State) (member : Address) : ℕ :=
  let rep := state.memberReputations member
  let weightedConsistency := Word.mul rep.consistency omegaConsistency / precision
  let weightedParticipation := Word.mul rep.participationRate omegaParticipation / precision
  Word.add weightedConsistency weightedParticipation

def calculateReputation (state : State) (member : Address) : ℕ :=
  let rep := state.memberReputations member
  let deltaReputation := state.calculateDeltaReputation member
  if rep.previousReputation = 0 then
    deltaReputation
  else
    let decayedPreviousRep := Word.mul rep.previousReputation lambda / precision
    Word.add decayedPreviousRep deltaReputation

def updateReputation (state : State) (msg : Msg) (participation consistency : ℕ) :
    Option State := do
  guard (msg.value = 0)
  guard (participation ≤ 100 ∧ consistency ≤ 100)
  let currentReputation := state.calculateReputation msg.sender
  let rep := state.memberReputations msg.sender
  return { state with
    memberReputations := Function.update state.memberReputations msg.sender
      { participationRate := participation
        consistency
        lastUpdateTime := msg.timestamp
        totalDecisions := rep.totalDecisions
        correctDecisions := rep.correctDecisions
        previousReputation := currentReputation } }

end State

structure Call where
  msg : Msg
  participation : ℕ
  consistency : ℕ

def State.step (state : State) (call : Call) : State :=
  (state.updateReputation call.msg call.participation call.consistency).getD state

def State.run (state : State) (calls : List Call) : State :=
  calls.foldl State.step state

end TigerMixer.Reputation
