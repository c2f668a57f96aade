import TigerMixer.Calls.Reentrancy
import TigerMixer.Data.ByteString
import TigerMixer.Escrow.MerkleTree
import TigerMixer.Solidity.Basic

/-!
# The escrow contract

`FixedMixerEscrow` with the signature verifier `A2LECDSAVerifier`. Addresses, 32-byte words and
amounts are naturals. Each external function is a `Prog`: it ends, reverts, or hands control to an
address that may call the contract again. The state also holds the balance, the events, and a ledger
of the payments.
-/

namespace TigerMixer.Escrow

open Calls

structure Primitives where
  hasher : Hasher
  sha256 : Bytes → ℕ
  /-- `ecrecover` on a digest, `v`, `r` and `s`; zero if no key fits. -/
  ecrecover : ℕ → ℕ → ℕ → ℕ → Address

structure Signature where
  r : ℕ
  s : ℕ
  v : ℕ
deriving DecidableEq

def maxS : ℕ := 0x7FFFFFFFFFFFFFFFFFFFFFFFFFFFFFFF5D576E7357A4501DDFE92F46681B20A0

def verifySignature (primitives : Primitives) (messageHash : ℕ) (signature : Signature)
    (expectedSigner : Address) : Option Bool := do
  guard (expectedSigner ≠ 0)
  guard (signature.v = 27 ∨ signature.v = 28)
  guard (signature.r ≠ 0)
  guard (signature.s ≠ 0)
  guard (signature.s ≤ maxS)
  let signer := primitives.ecrecover messageHash signature.v signature.r signature.s
  guard (signer ≠ 0)
  return decide (signer = expectedSigner)

theorem verifySignature_eq_true_iff {primitives : Primitives} {messageHash : ℕ}
    {signature : Signature} {signer : Address} :
    verifySignature primitives messageHash signature signer = some true ↔
      signer ≠ 0 ∧ (signature.v = 27 ∨ signature.v = 28) ∧ signature.r ≠ 0 ∧ signature.s ≠ 0 ∧
        signature.s ≤ maxS ∧
        primitives.ecrecover messageHash signature.v signature.r signature.s = signer := by
  simp only [verifySignature, Option.bind_eq_bind, Option.bind_eq_some_iff, Option.guard_eq_some',
    Option.pure_def, Option.some.injEq, decide_eq_true_eq, exists_const]
  constructor
  · rintro ⟨nonzero, v, r, s, low, -, recovers⟩
    exact ⟨nonzero, v, r, s, low, recovers⟩
  · rintro ⟨nonzero, v, r, s, low, rfl⟩
    exact ⟨nonzero, v, r, s, low, nonzero, rfl⟩

def verifyAliceSignature (primitives : Primitives) (transactionData : Bytes)
    (signature : Signature) (aliceAddress : Address) : Option Bool :=
  verifySignature primitives (primitives.sha256 transactionData) signature aliceAddress

@[ext]
structure EscrowRecord where
  party1 : Address
  party2 : Address
  amount : ℕ
  deadline : ℕ
  released : Bool
  metaHash : ℕ
  party1Key : Bytes
  party2Key : Bytes
  escrowIdCopy : ℕ
  dataHash : ℕ

def EscrowRecord.blank : EscrowRecord :=
  { party1 := 0, party2 := 0, amount := 0, deadline := 0, released := false, metaHash := 0,
    party1Key := [], party2Key := [], escrowIdCopy := 0, dataHash := 0 }

def EscrowRecord.markReleased (record : EscrowRecord) : EscrowRecord :=
  { record with released := true, amount := 0 }

inductive Event
  | opened (escrowId party1 party2 amount deadline metaHash : ℕ)
  | confirmed (escrowId confirmer : ℕ)
  | released (escrowId recipient amount : ℕ)
  | refunded (escrowId recipient amount : ℕ)
  | serviceFeeCollected (escrowId serviceFee finalAmount : ℕ)
  | deposit (commitment leafIndex timestamp : ℕ)
deriving DecidableEq

inductive Purpose
  | serviceFee
  | finalAmount
  | refund
deriving DecidableEq

structure Payment where
  escrowId : ℕ
  purpose : Purpose
  recipient : Address
  amount : ℕ
  timestamp : ℕ
deriving DecidableEq

structure State where
  self : Address
  denomination : ℕ
  tree : MerkleTree
  /-- The re-entrancy guard: 1 is not entered, 2 is entered. -/
  status : ℕ
  rewardPool : Address
  escrows : ℕ → EscrowRecord
  commitments : ℕ → Bool
  balance : ℕ
  events : List Event
  payments : List Payment

/-- The constructor, at an address that may already hold a balance. The denomination is a 256-bit
word. -/
def State.create (self denomination verifierAddress levels hasherAddress balance : ℕ) :
    Option State := do
  let tree ← MerkleTree.create levels
  guard (0 < denomination ∧ denomination < wordSize)
  guard (verifierAddress ≠ 0)
  guard (hasherAddress ≠ 0)
  return { self, denomination, tree, status := 1, rewardPool := 0,
           escrows := fun _ => .blank, commitments := fun _ => false, balance,
           events := [], payments := [] }

structure OpenArgs where
  escrowId : ℕ
  party1 : Address
  party2 : Address
  deadline : ℕ
  metaHash : ℕ
  party1Key : Bytes
  party2Key : Bytes
  commitment : ℕ

structure ConfirmArgs where
  escrowId : ℕ
  signature1 : Signature
  signature2 : Signature
  party1Address : Address
  party2Address : Address

inductive Request
  | setRewardPool (pool : Address)
  | openEscrow (args : OpenArgs)
  | confirm (args : ConfirmArgs)
  | refund (escrowId : ℕ)
  | setDataHash (escrowId newDataHash : ℕ)

structure Call where
  msg : Msg
  request : Request

abbrev Callbacks := List (Environment State Call)

namespace State

def emit (state : State) (event : Event) : State :=
  { state with events := state.events ++ [event] }

def setEscrow (state : State) (escrowId : ℕ) (record : EscrowRecord) : State :=
  { state with escrows := Function.update state.escrows escrowId record }

def pay (state : State) (payment : Payment) : State :=
  { state with
    balance := state.balance - payment.amount
    payments := state.payments ++ [payment] }

end State

/-- `recipient.call{value: amount}("")` followed by `require(ok)`. -/
def sendValue (state : State) (payment : Payment) (next : State → Prog State) : Prog State :=
  Prog.require (payment.amount ≤ state.balance ∧ payment.recipient ≠ state.self) <|
    if payment.recipient = 0 then
      next (state.pay payment)
    else
      .invoke (state.pay payment) fun
        | none => .revert
        | some state => next state

def recordTransaction (state : State) (next : State → Prog State) : Prog State :=
  Prog.require (state.rewardPool ≠ state.self) <|
    .invoke state fun
      | none => .revert
      | some state => next state

/-- A fifth of the amount: `amount * 0.2e18 / 1e18` in wrapping arithmetic. -/
def serviceFee (amount : ℕ) : ℕ :=
  Word.mul amount 200000000000000000 / 1000000000000000000

def processPayment (state : State) (timestamp escrowId amount : ℕ) (recipient : Address)
    (next : State → Prog State) : Prog State :=
  let payFinal (state : State) (finalAmount : ℕ) : Prog State :=
    sendValue state
      { escrowId, purpose := .finalAmount, recipient, amount := finalAmount, timestamp }
      fun state => next (state.emit (.released escrowId recipient finalAmount))
  if state.rewardPool = 0 then
    payFinal state amount
  else
    let fee := serviceFee amount
    let finalAmount := Word.sub amount fee
    sendValue state
      { escrowId, purpose := .serviceFee, recipient := state.rewardPool, amount := fee, timestamp }
      fun state => recordTransaction state fun state =>
        payFinal (state.emit (.serviceFeeCollected escrowId fee finalAmount)) finalAmount

def setRewardPool (msg : Msg) (pool : Address) (state : State) : Prog State :=
  .require (msg.value = 0) <| .require (pool ≠ 0) <|
    .done { state with rewardPool := pool }

def OpenArgs.record (args : OpenArgs) (value : ℕ) : EscrowRecord :=
  { party1 := args.party1, party2 := args.party2, amount := value, deadline := args.deadline,
    released := false, metaHash := args.metaHash, party1Key := args.party1Key,
    party2Key := args.party2Key, escrowIdCopy := args.escrowId, dataHash := 0 }

def State.opened (state : State) (msg : Msg) (args : OpenArgs) (tree : MerkleTree)
    (insertedIndex : ℕ) : State :=
  { state with
    tree
    commitments := Function.update state.commitments args.commitment true
    escrows := Function.update state.escrows args.escrowId (args.record msg.value)
    balance := state.balance + msg.value
    status := 1
    events := state.events ++
      [.opened args.escrowId args.party1 args.party2 msg.value args.deadline args.metaHash,
       .deposit args.commitment insertedIndex msg.timestamp] }

def openEscrow (primitives : Primitives) (msg : Msg) (args : OpenArgs) (state : State) :
    Prog State :=
  .require (state.status ≠ 2) <|
  .require (¬state.commitments args.commitment) <|
    match state.tree.insert primitives.hasher args.commitment with
    | none => .revert
    | some (tree, insertedIndex) =>
      .require ((state.escrows args.escrowId).party1 = 0) <|
      .require (msg.value = state.denomination) <|
      .require (args.party1 ≠ 0 ∧ args.party2 ≠ 0 ∧ args.party1 ≠ args.party2) <|
      .require (msg.timestamp < args.deadline) <|
        .done (state.opened msg args tree insertedIndex)

/-- The message that both parties sign: `abi.encodePacked(escrowIdCopy, dataHash)`. -/
def signedMessage (escrowIdCopy dataHash : ℕ) : Bytes :=
  Bytes.writeBe 32 escrowIdCopy ++ Bytes.writeBe 32 dataHash

def confirm (primitives : Primitives) (msg : Msg) (args : ConfirmArgs) (state : State) :
    Prog State :=
  let record := state.escrows args.escrowId
  let message := signedMessage record.escrowIdCopy record.dataHash
  .require (msg.value = 0) <|
  .require (msg.sender = record.party1 ∨ msg.sender = record.party2) <|
  .require (¬record.released) <|
  .require (record.dataHash ≠ 0) <|
  .require (verifyAliceSignature primitives message args.signature1 args.party1Address =
    some true) <|
  .require (verifyAliceSignature primitives message args.signature2 args.party2Address =
    some true) <|
    processPayment (state.setEscrow args.escrowId record.markReleased)
      msg.timestamp args.escrowId record.amount record.party2
      fun state => .done (state.emit (.confirmed args.escrowId msg.sender))

def refund (msg : Msg) (escrowId : ℕ) (state : State) : Prog State :=
  let record := state.escrows escrowId
  .require (msg.value = 0) <|
  .require (record.deadline ≤ msg.timestamp) <|
  .require (¬record.released) <|
    sendValue (state.setEscrow escrowId record.markReleased)
      { escrowId, purpose := .refund, recipient := record.party1, amount := record.amount,
        timestamp := msg.timestamp }
      fun state => .done (state.emit (.refunded escrowId record.party1 record.amount))

def setDataHash (msg : Msg) (escrowId newDataHash : ℕ) (state : State) : Prog State :=
  let record := state.escrows escrowId
  .require (msg.value = 0) <|
  .require (msg.sender = record.party1 ∨ msg.sender = record.party2) <|
  .require (record.party1 ≠ 0) <|
  .require (¬record.released) <|
  .require (record.dataHash = 0) <|
    .done (state.setEscrow escrowId { record with dataHash := newDataHash })

def execute (primitives : Primitives) (call : Call) : State → Prog State :=
  match call.request with
  | .setRewardPool pool => setRewardPool call.msg pool
  | .openEscrow args => openEscrow primitives call.msg args
  | .confirm args => confirm primitives call.msg args
  | .refund escrowId => refund call.msg escrowId
  | .setDataHash escrowId newDataHash => setDataHash call.msg escrowId newDataHash

end TigerMixer.Escrow
