import TigerMixer.Escrow.Isolation
import TigerMixer.Mixer.Contracts

/-!
# Release of an escrow through the reward pool

A confirmation pays a fifth of the denomination, rounded down, into the reward pool, which does not
take an empty payment. So the pool refuses the service fee of a denomination below 5, and with it
the confirmation; from 5 on nothing is left that can fail.
-/

namespace TigerMixer.Mixer

open Calls Escrow

def feePaid (timestamp amount : ℕ) (escrow : Escrow.State) (pool : Pool.State) :
    Option Pool.State :=
  answer ⟨⟨escrow.self, serviceFee amount, timestamp⟩, .receive⟩ pool

def feeRecorded (timestamp amount : ℕ) (member : Address) (escrow : Escrow.State)
    (pool : Pool.State) : Option Pool.State :=
  (feePaid timestamp amount escrow pool).bind
    (answer ⟨⟨escrow.self, 0, timestamp⟩, .recordTransaction member⟩)

/-- `confirm` while `pool` is the reward pool of the escrow contract. What `party2` does with the
final amount is left open. -/
def confirmWith (primitives : Primitives) (msg : Msg) (args : ConfirmArgs)
    (recipient : Environment Escrow.State Call) (escrow : Escrow.State) (pool : Pool.State) :
    Option Escrow.State :=
  let amount := (escrow.escrows args.escrowId).amount
  ((confirm primitives msg args escrow).interp
    [.returning (feePaid msg.timestamp amount escrow pool).isSome,
     .returning (feeRecorded msg.timestamp amount args.party2Address escrow pool).isSome,
     recipient]).final

/-- A call of `confirm` by a party with accepted signatures, on an opened and unreleased escrow with
a data hash. -/
structure Confirmable (primitives : Primitives) (msg : Msg) (args : ConfirmArgs)
    (record : EscrowRecord) : Prop where
  noValue : msg.value = 0
  opened : record.party1 ≠ 0
  party : msg.sender = record.party1 ∨ msg.sender = record.party2
  unreleased : record.released = false
  dataHash : record.dataHash ≠ 0
  signature1 : verifyAliceSignature primitives
    (signedMessage record.escrowIdCopy record.dataHash) args.signature1
      args.party1Address = some true
  signature2 : verifyAliceSignature primitives
    (signedMessage record.escrowIdCopy record.dataHash) args.signature2
      args.party2Address = some true

/-- The reward pool that is set is `pool`, at an address of its own, and `pool` has authorized the
escrow contract. All ether together is a word. -/
structure PoolSet (escrow : Escrow.State) (pool : Pool.State) : Prop where
  nonzero : escrow.rewardPool ≠ 0
  other : escrow.rewardPool ≠ escrow.self
  authorized : ∀ value timestamp, pool.Authorized ⟨escrow.self, value, timestamp⟩
  supply : escrow.balance + pool.balance < wordSize

/-- `party2` accepts ether, whatever else it does. The escrow contract itself does not. -/
structure AcceptsEther (party2 : Address) (recipient : Environment Escrow.State Call)
    (escrow : Escrow.State) : Prop where
  other : party2 ≠ escrow.self
  returns : ∀ state, (recipient state).final.isSome

theorem serviceFee_eq {amount : ℕ} (fits : amount * 200000000000000000 < wordSize) :
    serviceFee amount = amount / 5 := by
  rw [serviceFee, Word.mul_of_lt fits]
  omega

section Pool

variable {pool : Pool.State} {sender : Address} {value timestamp : ℕ}

theorem isSome_answer_receive (fits : pool.balance + value < wordSize) :
    (answer ⟨⟨sender, value, timestamp⟩, .receive⟩ pool).isSome ↔ 0 < value := by
  simp only [answer, Pool.execute, Pool.receive, Prog.isSome_interp_require, fits, true_and]
  simp [Prog.interp]

theorem answer_receive_eq_some {pool' : Pool.State}
    (answered : answer ⟨⟨sender, value, timestamp⟩, .receive⟩ pool = some pool') :
    pool' = pool.received value := by
  rcases Prog.interp_require_iff.1 answered with ⟨-, answered⟩
  rcases Prog.interp_require_iff.1 answered with ⟨-, answered⟩
  exact (Option.some.inj answered).symm

theorem isSome_answer_recordTransaction {member : Address} (fits : pool.balance < wordSize)
    (authorized : pool.Authorized ⟨sender, 0, timestamp⟩) (nonzero : member ≠ 0) :
    (answer ⟨⟨sender, 0, timestamp⟩, .recordTransaction member⟩ pool).isSome := by
  simp [answer, Pool.execute, Pool.recordTransaction, Prog.require, fits, authorized, nonzero,
    Prog.interp]

end Pool

section Payments

variable {escrow : Escrow.State} {pool : Pool.State}

theorem isSome_feeRecorded {timestamp amount : ℕ} {member : Address} (set : PoolSet escrow pool)
    (covered : serviceFee amount ≤ escrow.balance) (nonzero : member ≠ 0)
    (paid : (feePaid timestamp amount escrow pool).isSome) :
    (feeRecorded timestamp amount member escrow pool).isSome := by
  rcases Option.isSome_iff_exists.mp paid with ⟨pool', paid⟩
  have supply := set.supply
  have fits : (pool.received (serviceFee amount)).balance < wordSize := by
    simp only [Pool.State.received, Pool.State.setEpoch]
    omega
  have authorized : (pool.received (serviceFee amount)).Authorized
      ⟨escrow.self, 0, timestamp⟩ :=
    set.authorized 0 timestamp
  rw [feeRecorded, paid, Option.bind_some, answer_receive_eq_some paid]
  exact isSome_answer_recordTransaction fits authorized nonzero

variable {payment : Payment} {environments : Callbacks}

theorem isSome_interp_sendValue {next : Escrow.State → Prog Escrow.State} {accepts : Bool}
    (covered : payment.amount ≤ escrow.balance) (nonzero : payment.recipient ≠ 0)
    (other : payment.recipient ≠ escrow.self) :
    ((sendValue escrow payment next).interp
      (.returning accepts :: environments)).final.isSome ↔
        accepts ∧ ((next (escrow.pay payment)).interp environments).final.isSome := by
  rw [sendValue, Prog.isSome_interp_require, if_neg nonzero]
  cases accepts with
  | true => simp [covered, other, Prog.interp, Environment.returning]
  | false => simp [Prog.interp, Environment.returning]

theorem isSome_interp_recordTransaction {next : Escrow.State → Prog Escrow.State} {records : Bool}
    (other : escrow.rewardPool ≠ escrow.self) :
    ((recordTransaction escrow next).interp
      (.returning records :: environments)).final.isSome ↔
        records ∧ ((next escrow).interp environments).final.isSome := by
  rw [recordTransaction, Prog.isSome_interp_require]
  cases records with
  | true => simp [other, Prog.interp, Environment.returning]
  | false => simp [Prog.interp, Environment.returning]

theorem isSome_interp_lastPayment {next : Escrow.State → Escrow.State}
    {recipient : Environment Escrow.State Call} (covered : payment.amount ≤ escrow.balance)
    (accepts : AcceptsEther payment.recipient recipient escrow) :
    ((sendValue escrow payment fun state => .done (next state)).interp
      [recipient]).final.isSome := by
  rw [sendValue, Prog.isSome_interp_require]
  refine ⟨⟨covered, accepts.other⟩, ?_⟩
  split_ifs
  · simp [Prog.interp]
  · rcases Option.isSome_iff_exists.mp (accepts.returns (escrow.pay payment)) with ⟨after, returned⟩
    simp [Prog.interp, returned]

theorem isSome_interp_bothPayments {timestamp escrowId fee finalAmount : ℕ} {party2 : Address}
    {next : Escrow.State → Escrow.State} {paid recorded : Bool}
    {recipient : Environment Escrow.State Call} (nonzero : escrow.rewardPool ≠ 0)
    (other : escrow.rewardPool ≠ escrow.self) (affordable : fee + finalAmount ≤ escrow.balance)
    (accepts : AcceptsEther party2 recipient escrow) :
    ((sendValue escrow ⟨escrowId, .serviceFee, escrow.rewardPool, fee, timestamp⟩
      fun state => recordTransaction state fun state =>
        sendValue (state.emit (.serviceFeeCollected escrowId fee finalAmount))
          ⟨escrowId, .finalAmount, party2, finalAmount, timestamp⟩ fun state =>
            .done (next state)).interp
      [.returning paid, .returning recorded, recipient]).final.isSome ↔ paid ∧ recorded := by
  have feeCovered : fee ≤ escrow.balance := by omega
  have finalCovered : finalAmount ≤ escrow.balance - fee := by omega
  have last := @isSome_interp_lastPayment
    ((escrow.pay ⟨escrowId, .serviceFee, escrow.rewardPool, fee, timestamp⟩).emit
      (.serviceFeeCollected escrowId fee finalAmount))
    ⟨escrowId, .finalAmount, party2, finalAmount, timestamp⟩ next recipient finalCovered
    ⟨accepts.other, accepts.returns⟩
  rw [isSome_interp_sendValue feeCovered nonzero other, isSome_interp_recordTransaction]
  · simp [last]
  · exact other

end Payments

/-- From every reachable state, a confirmation with accepted signatures goes through the reward pool
exactly if the denomination is at least five. -/
theorem release_live_iff {self denomination verifierAddress levels hasherAddress balance : ℕ}
    {initial : Escrow.State} (primitives : Primitives) (script : Script Call)
    (created : Escrow.State.create self denomination verifierAddress levels hasherAddress balance =
      some initial) (fits : denomination * 200000000000000000 < wordSize) {escrow : Escrow.State}
    {pool : Pool.State} (reached : escrow ∈ (script.run (execute primitives) initial).seen)
    (set : PoolSet escrow pool) {msg : Msg} {args : ConfirmArgs}
    {recipient : Environment Escrow.State Call}
    (confirmable : Confirmable primitives msg args (escrow.escrows args.escrowId))
    (accepts : AcceptsEther (escrow.escrows args.escrowId).party2 recipient escrow) :
    (confirmWith primitives msg args recipient escrow pool).isSome ↔ 5 ≤ denomination := by
  rcases inv_of_mem_seen primitives script created reached with ⟨inv, same, solvent⟩
  have amount : (escrow.escrows args.escrowId).amount = denomination :=
    ((inv.record args.escrowId).owing confirmable.opened confirmable.unreleased).1.trans same
  have covered := denomination_le_balance inv solvent confirmable.opened
    confirmable.unreleased
  rw [same] at covered
  have positive : 0 < denomination := same ▸ inv.denomination_pos
  have small : denomination < wordSize := same ▸ inv.denomination_lt
  have fee := serviceFee_lt positive
  have supply := set.supply
  have paid : (feePaid msg.timestamp denomination escrow pool).isSome ↔ 5 ≤ denomination := by
    rw [feePaid, isSome_answer_receive (by omega), serviceFee_eq fits]
    omega
  have program : confirm primitives msg args escrow =
      processPayment
        (escrow.setEscrow args.escrowId (escrow.escrows args.escrowId).markReleased) msg.timestamp
        args.escrowId denomination (escrow.escrows args.escrowId).party2
        fun state => .done (state.emit (.confirmed args.escrowId msg.sender)) := by
    simp [confirm, Prog.require, confirmable.noValue, confirmable.party, confirmable.unreleased,
      confirmable.dataHash, confirmable.signature1, confirmable.signature2, amount]
  have affordable : serviceFee denomination +
      Word.sub denomination (serviceFee denomination) ≤ escrow.balance := by
    rw [Word.sub_of_le small fee.le]
    omega
  have payments := @isSome_interp_bothPayments
    (escrow.setEscrow args.escrowId (escrow.escrows args.escrowId).markReleased) msg.timestamp
    args.escrowId _ _ (escrow.escrows args.escrowId).party2
    (fun state => (state.emit (.released args.escrowId (escrow.escrows args.escrowId).party2
      (Word.sub denomination (serviceFee denomination)))).emit
        (.confirmed args.escrowId msg.sender))
    (feePaid msg.timestamp denomination escrow pool).isSome
    (feeRecorded msg.timestamp denomination args.party2Address escrow pool).isSome recipient
    set.nonzero set.other affordable ⟨accepts.other, accepts.returns⟩
  have nonzero : (escrow.setEscrow args.escrowId
      (escrow.escrows args.escrowId).markReleased).rewardPool ≠ 0 := set.nonzero
  simp only [confirmWith, amount, program, processPayment, if_neg nonzero]
  rw [payments, ← paid]
  constructor
  · exact fun both => both.1
  · intro feePaid
    have signed := verifyAliceSignature_eq_true_iff.mp confirmable.signature2
    exact ⟨feePaid, isSome_feeRecorded set (by omega) signed.signer_ne_zero feePaid⟩

section Sample

def openedScript (denomination : ℕ) : Script Call :=
  .call ⟨⟨address1, 0, 10⟩, .setRewardPool 0xabc⟩ [] <|
  .call ⟨⟨address1, denomination, 12⟩, .openEscrow sampleOpening⟩ [] <|
  .call ⟨⟨address2, 0, 13⟩, .setDataHash 1 7⟩ [] <|
  .stop true

def initialOf (denomination : ℕ) : Option Escrow.State :=
  Escrow.State.create 0xe5c denomination 0xfe 1 0xfd 0

def openedOf (denomination : ℕ) : Option Escrow.State :=
  (initialOf denomination).bind fun initial =>
    ((openedScript denomination).run (execute samplePrimitives) initial).final

def samplePool : Pool.State := { Pool.State.create 0x0e 0 with fixedMixerEscrow := 0xe5c }

def readyIn (escrow : Escrow.State) : Bool :=
  let record := escrow.escrows 1
  escrow.self = 0xe5c ∧ escrow.rewardPool = 0xabc ∧ escrow.balance ≤ 1000 ∧
    record.party1 = address1 ∧ record.party2 = address2 ∧ record.released = false ∧
    record.escrowIdCopy = 1 ∧ record.dataHash = 7

theorem hypotheses_of_readyIn {escrow : Escrow.State} (ready : readyIn escrow = true) :
    PoolSet escrow samplePool ∧
      Confirmable samplePrimitives ⟨address2, 0, 2000⟩ sampleConfirmation
        (escrow.escrows sampleConfirmation.escrowId) ∧
      AcceptsEther (escrow.escrows sampleConfirmation.escrowId).party2 (.returning true)
        escrow := by
  simp only [readyIn, decide_eq_true_eq] at ready
  rcases ready with ⟨self, pool, balance, party1, party2, released, copy, dataHash⟩
  have supply : escrow.balance + samplePool.balance < wordSize := by
    apply lt_wordSize
    simp only [samplePool, Pool.State.create]
    omega
  refine ⟨⟨?_, ?_, ?_, supply⟩, ⟨rfl, ?_, Or.inr ?_, released, ?_, ?_, ?_⟩, ?_, fun _ => rfl⟩
  · rw [pool]
    decide
  · rw [pool, self]
    decide
  · intro value timestamp
    rw [self]
    exact Or.inr (Or.inr (Or.inr rfl))
  · exact party1.trans_ne (by decide)
  · exact party2.symm
  · exact dataHash.trans_ne (by decide)
  · rw [show (escrow.escrows sampleConfirmation.escrowId).escrowIdCopy = 1 from copy,
      show (escrow.escrows sampleConfirmation.escrowId).dataHash = 7 from dataHash]
    decide +kernel
  · rw [show (escrow.escrows sampleConfirmation.escrowId).escrowIdCopy = 1 from copy,
      show (escrow.escrows sampleConfirmation.escrowId).dataHash = 7 from dataHash]
    decide +kernel
  · rw [self]
    exact party2.trans_ne (by decide)

end Sample

theorem release_live_thousand :
    ∃ escrow, openedOf 1000 = some escrow ∧
      (confirmWith samplePrimitives ⟨address2, 0, 2000⟩ sampleConfirmation
        (.returning true) escrow samplePool).isSome := by
  have opens : (openedOf 1000).isSome := by decide +kernel
  have readyAll : (openedOf 1000).all readyIn := by decide +kernel
  rcases Option.isSome_iff_exists.mp opens with ⟨escrow, opened⟩
  rw [opened, Option.all_some] at readyAll
  rcases hypotheses_of_readyIn readyAll with ⟨set, confirmable, accepts⟩
  rcases Option.bind_eq_some_iff.mp opened with ⟨initial, created, final⟩
  refine ⟨escrow, opened, ?_⟩
  apply (release_live_iff samplePrimitives (openedScript 1000) created _
    (Script.mem_seen_of_final final) set confirmable accepts).mpr (by decide)
  unfold wordSize
  norm_num

/-- The fee of four wei is rounded to zero, which the pool does not take. -/
theorem release_of_four_reverts :
    ∃ initial escrow, Escrow.State.create 0xe5c 4 0xfe 1 0xfd 0 = some initial ∧
      escrow ∈ ((openedScript 4).run (execute samplePrimitives) initial).seen ∧
      PoolSet escrow samplePool ∧
      Confirmable samplePrimitives ⟨address2, 0, 2000⟩ sampleConfirmation
        (escrow.escrows sampleConfirmation.escrowId) ∧
      AcceptsEther (escrow.escrows sampleConfirmation.escrowId).party2 (.returning true)
        escrow ∧
      confirmWith samplePrimitives ⟨address2, 0, 2000⟩ sampleConfirmation
        (.returning true) escrow samplePool = none := by
  have opens : (openedOf 4).isSome := by decide +kernel
  have readyAll : (openedOf 4).all readyIn := by decide +kernel
  have refused : (openedOf 4).all fun escrow =>
      (confirmWith samplePrimitives ⟨address2, 0, 2000⟩ sampleConfirmation
        (.returning true) escrow samplePool).isNone := by
    decide +kernel
  rcases Option.isSome_iff_exists.mp opens with ⟨escrow, opened⟩
  rw [opened, Option.all_some] at readyAll refused
  rcases hypotheses_of_readyIn readyAll with ⟨set, confirmable, accepts⟩
  rcases Option.bind_eq_some_iff.mp opened with ⟨initial, created, final⟩
  exact ⟨initial, escrow, created, Script.mem_seen_of_final final, set, confirmable, accepts,
    Option.isNone_iff_eq_none.mp refused⟩

end TigerMixer.Mixer
