import TigerMixer.Calls.Reentrancy
import TigerMixer.Rotation.Selection
import TigerMixer.Rotation.Vrf

/-!
# The rotation contract

`CommitteeRotation`: a pool of candidates, a random value with a proof, and a committee that is
replaced at intervals. `rotateCommittee` hands control to the reward pool twice before it updates
its storage. The values it reads from other contracts are arguments of the call.
-/

namespace TigerMixer.Rotation

open Calls

inductive Event
  | committeeRotated (newCommittee : List Address) (timestamp : ℕ)
  | candidateAdded (candidate : Address)
  | candidateRemoved (candidate : Address)
  | vrfRandomSubmitted (random timestamp : ℕ)
  | vrfRandomVerified (isValid : Bool) (random : ℕ)
  | vrfRandomUsed (rotationRound random : ℕ)
deriving DecidableEq

structure State where
  self : Address
  currentCommittee : List Address
  lastRotationTime : ℕ
  rotationCount : ℕ
  candidatePool : List Address
  currentVRFRandom : ℕ
  currentVRFProof : Bytes
  currentVRFPublicKey : Bytes
  currentVRFMessage : Bytes
  currentVRFVerified : Bool
  currentVRFUsed : Bool
  vrfGenerator : Address
  rotationRandom : ℕ → ℕ
  randomUsed : ℕ → Bool
  rewardPool : Address
  events : List Event

def State.create (self : Address) (initialCommittee : List Address)
    (vrfGenerator rewardPool : Address) (timestamp : ℕ) : State :=
  { self, currentCommittee := initialCommittee, lastRotationTime := timestamp, rotationCount := 0,
    candidatePool := [], currentVRFRandom := 0, currentVRFProof := [], currentVRFPublicKey := [],
    currentVRFMessage := [], currentVRFVerified := false, currentVRFUsed := false, vrfGenerator,
    rotationRandom := fun _ => 0, randomUsed := fun _ => false, rewardPool, events := [] }

/-- What `rotateCommittee` reads from other contracts: the reputations, and the epoch of the reward
pool once the last one has ended. -/
structure Views where
  reputation : Address → ℕ
  currentEpoch : Option ℕ

inductive Request
  | setRewardPool (pool : Address)
  | setVRFGenerator (generator : Address)
  | submitVRFRandomWithProof (random : ℕ) (proof publicKey message : Bytes)
  | verifyVRFProof
  | addCandidate (candidate : Address)
  | removeCandidate (candidate : Address)
  | rotateCommittee (views : Views)

structure Call where
  msg : Msg
  request : Request

abbrev Callbacks := List (Environment State Call)

def State.emit (state : State) (event : Event) : State :=
  { state with events := state.events ++ [event] }

def State.Authorized (state : State) (msg : Msg) : Prop :=
  msg.sender = state.vrfGenerator ∨ state.vrfGenerator = 0

instance (state : State) (msg : Msg) : Decidable (state.Authorized msg) :=
  inferInstanceAs (Decidable (_ ∨ _))

def setRewardPool (msg : Msg) (pool : Address) (state : State) : Prog State :=
  .require (state.Authorized msg) <| .require (pool ≠ 0) <|
    .done { state with rewardPool := pool }

def setVRFGenerator (msg : Msg) (generator : Address) (state : State) : Prog State :=
  .require (state.Authorized msg) <|
    .done { state with vrfGenerator := generator }

def State.submitted (state : State) (timestamp random : ℕ) (proof publicKey message : Bytes) :
    State :=
  State.emit
    { state with
      currentVRFRandom := random
      currentVRFProof := proof
      currentVRFPublicKey := publicKey
      currentVRFMessage := message
      currentVRFVerified := false
      currentVRFUsed := false
      rotationRandom := Function.update state.rotationRandom state.rotationCount random }
    (.vrfRandomSubmitted random timestamp)

def submitVRFRandomWithProof (msg : Msg) (random : ℕ) (proof publicKey message : Bytes)
    (state : State) : Prog State :=
  .require (state.Authorized msg) <|
  .require (proof.length = 81) <|
  .require (publicKey.length = 33) <|
    .done (state.submitted msg.timestamp random proof publicKey message)

def State.verified (state : State) (isValid : Bool) : State :=
  State.emit { state with currentVRFVerified := isValid }
    (.vrfRandomVerified isValid (if isValid then state.currentVRFRandom else 0))

def verifyVRFProof (primitives : VrfPrimitives) (state : State) : Prog State :=
  .require (state.currentVRFProof.length = 81) <|
  .require (state.currentVRFPublicKey.length = 33) <|
  .require (state.currentVRFRandom ≠ 0) <|
    match Vrf.proofAccepted primitives state.currentVRFPublicKey state.currentVRFProof
      state.currentVRFMessage with
    | none => .revert
    | some isValid => .done (state.verified isValid)

def addCandidate (candidate : Address) (state : State) : Prog State :=
  .require (candidate ≠ 0) <|
  .require (candidate ∉ state.candidatePool) <|
    .done (State.emit { state with candidatePool := state.candidatePool ++ [candidate] }
      (.candidateAdded candidate))

def removeAt (candidatePool : List Address) (index : ℕ) : List Address :=
  (candidatePool.set index (candidatePool.getLastD 0)).dropLast

def removeCandidate (candidate : Address) (state : State) : Prog State :=
  match state.candidatePool.idxOf? candidate with
  | none => .revert
  | some index =>
    .done (State.emit { state with candidatePool := removeAt state.candidatePool index }
      (.candidateRemoved candidate))

def State.canRotate (state : State) (timestamp : ℕ) : Bool :=
  Word.add state.lastRotationTime 20 ≤ timestamp

/-- The end of `rotateCommittee`, in the state that the calls to the reward pool left behind. -/
def State.rotated (state : State) (timestamp : ℕ) (newCommittee : List Address) : State :=
  { state with
    currentCommittee := newCommittee
    lastRotationTime := timestamp
    currentVRFUsed := true
    randomUsed := Function.update state.randomUsed state.rotationCount true
    rotationCount := Word.add state.rotationCount 1
    events := state.events ++
      [.vrfRandomUsed (Word.sub (Word.add state.rotationCount 1) 1) state.currentVRFRandom,
       .committeeRotated newCommittee timestamp] }

def distributeRewards (epoch : ℕ) (previousCommittee : List Address) (state : State)
    (next : State → Prog State) : Prog State :=
  -- `previousEpoch` is positive and some member of the last committee is set.
  if 0 < Word.sub epoch 1 ∧ 0 < (previousCommittee.filter (· ≠ 0)).length then
    .invoke state fun result => next (result.getD state)
  else
    next state

def rotateCommittee (msg : Msg) (views : Views) (state : State) : Prog State :=
  .require (state.canRotate msg.timestamp) <|
  .require (maxCommitteeSize ≤ state.candidatePool.length) <|
  .require (state.currentVRFRandom ≠ 0) <|
  .require (¬state.currentVRFUsed) <|
    let previousCommittee := state.currentCommittee
    match selectNewCommittee .source views.reputation state.candidatePool state.currentVRFRandom
      with
    | none => .revert
    | some newCommittee =>
      if state.rewardPool = 0 then
        .done (state.rotated msg.timestamp newCommittee)
      else
        -- `endEpoch`; the contract itself has no such function.
        .require (state.rewardPool ≠ state.self) <|
        .invoke state fun
          | none => .revert
          | some state =>
            .require (state.rewardPool ≠ state.self) <|
            match views.currentEpoch with
            | none => .revert
            | some epoch =>
              distributeRewards epoch previousCommittee state fun state =>
                .done (state.rotated msg.timestamp newCommittee)

def execute (primitives : VrfPrimitives) (call : Call) (state : State) : Prog State :=
  .require (call.msg.value = 0) <|
    match call.request with
    | .setRewardPool pool => setRewardPool call.msg pool state
    | .setVRFGenerator generator => setVRFGenerator call.msg generator state
    | .submitVRFRandomWithProof random proof publicKey message =>
      submitVRFRandomWithProof call.msg random proof publicKey message state
    | .verifyVRFProof => verifyVRFProof primitives state
    | .addCandidate candidate => addCandidate candidate state
    | .removeCandidate candidate => removeCandidate candidate state
    | .rotateCommittee views => rotateCommittee call.msg views state

end TigerMixer.Rotation
