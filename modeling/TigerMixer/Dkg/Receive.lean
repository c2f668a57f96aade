import TigerMixer.Dkg.Protocol
import TigerMixer.Text.CString

/-!
# Receiving commitments and shares

`dkg_receive_commitments_and_shares` polls a socket until it has processed a message for every other
participant, or until nothing has come for 300 polls in a row. A message is skipped if it is of
another type or names a sender that is not another initialised participant. `none` is a read behind
the received bytes, a null pointer that is followed, or an error of PARI.
-/

namespace TigerMixer.Dkg

open Bytes

def secretShares : ℕ := 3

/-- `THRESHOLD`, the largest number of commitments that is read from a message. -/
def dkgThreshold : ℕ := 2

def maxTimeout : ℕ := 300

def msgBufSize : ℕ := 65536

/-! ### Reading a message -/

def readAt (data : Bytes) (offset length : ℕ) : Option Bytes :=
  if offset + length ≤ data.length then some ((data.drop offset).take length) else none

def readUnsigned (data : Bytes) (offset : ℕ) : Option ℕ :=
  (readAt data offset 4).map readLe

def readInt (data : Bytes) (offset : ℕ) : Option ℤ :=
  (readUnsigned data offset).map fun value => if value < 2 ^ 31 then value else value - 2 ^ 32

def readSize (data : Bytes) (offset : ℕ) : Option ℕ :=
  (readAt data offset 8).map readLe

structure Message where
  type : Bytes
  data : Bytes

def deserializeMessage (serialized : Bytes) : Option Message := do
  let typeLength ← readUnsigned serialized 0
  let dataLength ← readUnsigned serialized (4 + typeLength)
  let type ← readAt serialized 4 typeLength
  let data ← readAt serialized (8 + typeLength) dataLength
  some { type, data }

/-- Whether `strcmp` finds a text equal to a literal, whose final zero byte is written out. -/
def strcmpEqual : Bytes → Bytes → Option Bool
  | [], _ => some true
  | _ :: _, [] => none
  | expected :: literal, byte :: text =>
    if byte = expected then strcmpEqual literal text else some false

structure Platform (G : Type) where
  malloc : ℕ → Bool
  gpReadStr : Bytes → Option G

/-- A message that is processed: the commitments that are read from it, and the shares that are
addressed to the reader. -/
structure Delivery (G : Type) where
  senderId : ℕ
  commitments : List G
  shares : List ℕ

section Parse

variable {G : Type}

/-- The loop over the commitments, with the offset behind them. It ends early if memory is short. -/
def readCommitments (platform : Platform G) (data : Bytes) : ℕ → ℕ → Option (List G × ℕ)
  | 0, offset => some ([], offset)
  | count + 1, offset => do
      let length ← readSize data offset
      let offset := (offset + 8) % 2 ^ 64
      if platform.malloc ((length + 1) % 2 ^ 64) then do
        let text ← readAt data offset length
        let commitment ← platform.gpReadStr (Text.cString text)
        let (commitments, offset) ←
          readCommitments platform data count ((offset + length) % 2 ^ 64)
        some (commitment :: commitments, offset)
      else some ([], offset)

/-- The loop over the shares. A negative length moves the offset back and is out of range for a
share. -/
def readShares (participantId : ℕ) (data : Bytes) : ℕ → ℕ → Option (List ℕ)
  | 0, _ => some []
  | count + 1, offset => do
      let receiverId ← readInt data offset
      let shareLength ← readInt data ((offset + 4) % 2 ^ 64)
      let offset := (offset + 8) % 2 ^ 64
      let next := ((offset + shareLength) % 2 ^ 64).toNat
      if receiverId = participantId then do
        let share ← if shareLength < 0 then none else readAt data offset shareLength.toNat
        let shares ← readShares participantId data count next
        some (readBe share :: shares)
      else readShares participantId data count next

/-- The data of a message; the inner `none` is a sender that is not accepted. -/
def readDelivery (platform : Platform G) (participantId : ℕ) (initialized : ℕ → Bool)
    (data : Bytes) : Option (Option (Delivery G)) := do
  let senderId ← readInt data 0
  let nCommitments ← readInt data 4
  let nShares ← readInt data 8
  if senderId < 1 ∨ (secretShares : ℤ) < senderId ∨ senderId = participantId then some none
  else if ¬initialized senderId.toNat then some none
  else do
    let (commitments, offset) ←
      readCommitments platform data (min nCommitments.toNat dkgThreshold) 12
    let shares ← readShares participantId data nShares.toNat offset
    some (some { senderId := senderId.toNat, commitments, shares })

def readPoll (platform : Platform G) (participantId : ℕ) (initialized : ℕ → Bool) (poll : Bytes) :
    Option (Option (Delivery G)) := do
  let message ← deserializeMessage (poll.take msgBufSize)
  let isDkgData ← strcmpEqual (ascii "DKG_DATA".toList ++ [0]) message.type
  if isDkgData then readDelivery platform participantId initialized message.data else some none

end Parse

/-! ### Processing it -/

structure Receipt where
  senderId : ℕ
  share : ℕ
  verified : Bool
deriving DecidableEq

namespace Protocol

variable {G : Type} (protocol : Protocol G) (participantId : ℕ)

def initialized : Bool :=
  (protocol.participants (participantId - 1)).any Participant.isInitialized

def secretShare : Option ℕ :=
  (protocol.participants (participantId - 1)).map Participant.secretShare

def modify (change : Participant G → Participant G) : Protocol G :=
  { protocol with
    participants := Function.update protocol.participants (participantId - 1)
      ((protocol.participants (participantId - 1)).map change) }

/-- The share with which a participant starts, as `dkg_broadcast_commitments_and_shares` sets
it. -/
def startShare (computedShares : ℕ → ℕ) : Protocol G :=
  protocol.modify participantId fun participant =>
    { participant with secretShare := (0 + computedShares participantId) % protocol.order }

def addToShare (share : ℕ) : Protocol G :=
  protocol.modify participantId fun participant =>
    { participant with secretShare := (participant.secretShare + share) % protocol.order }

def storeCommitments (senderId : ℕ) (commitments : List G) : Protocol G :=
  protocol.modify senderId fun sender =>
    { sender with commitments := fun k => commitments[k]?.or (sender.commitments k) }

end Protocol

section Loop

variable {G : Type} [CommGroup G] [DecidableEq G]

def addShare (participantId senderId : ℕ) (state : Protocol G × List Receipt) (share : ℕ) :
    Protocol G × List Receipt :=
  if dkgVerifyShare state.1 participantId senderId share then
    (state.1.addToShare participantId share, state.2 ++ [⟨senderId, share, true⟩])
  else
    (state.1.addToShare participantId share, state.2 ++ [⟨senderId, share, false⟩])

def deliver (participantId : ℕ) (state : Protocol G × List Receipt) (delivery : Delivery G) :
    Protocol G × List Receipt :=
  delivery.shares.foldl (addShare participantId delivery.senderId)
    (state.1.storeCommitments delivery.senderId delivery.commitments, state.2)

/-- The loop, with the numbers of processed messages and of empty polls in a row. -/
def receiveLoop (platform : Platform G) (participantId : ℕ) :
    List Bytes → ℕ → ℕ → Protocol G × List Receipt → Option (Protocol G × List Receipt)
  | [], _, _, state => some state
  | poll :: polls, received, timeouts, state =>
    if received < secretShares - 1 ∧ timeouts < maxTimeout then
      if poll = [] then receiveLoop platform participantId polls received (timeouts + 1) state
      else
        match readPoll platform participantId state.1.initialized poll with
        | none => none
        | some none => receiveLoop platform participantId polls received timeouts state
        | some (some delivery) =>
          receiveLoop platform participantId polls (received + 1) 0
            (deliver participantId state delivery)
    else some state

def dkgReceiveCommitmentsAndShares (platform : Platform G) (participantId : ℕ)
    (polls : List Bytes) (protocol : Protocol G) : Option (Protocol G × List Receipt) :=
  if (protocol.participants (participantId - 1)).isNone then none
  else receiveLoop platform participantId polls 0 0 (protocol, [])

end Loop

end TigerMixer.Dkg
