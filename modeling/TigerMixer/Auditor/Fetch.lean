import TigerMixer.SecretShare.Commitment

/-!
# Fetching the shares of a message

The auditor asks every receiver in turn, verifies every share against the stored commitments and
hands the whole list to the reconstruction. The result `none` stands for an access outside the
memory that may be used and for an exception of RELIC, which `main` catches to end the auditor.
-/

namespace TigerMixer.Auditor

open Bytes SecretShare

universe u

def noAuditNeeded : Bytes :=
  ascii "NO_AUDIT_NEEDED".toList

def errorTexts : List Bytes :=
  [ascii "NOT_FOUND".toList,
    ascii "INSUFFICIENT".toList,
    ascii "MEMORY_ERROR".toList]

/-- `strncmp` with a text of its full length; it reads on behind a reply that ends inside the text.
-/
def startsWith (text reply : Bytes) : Option Bool :=
  if text.isPrefixOf reply then some true
  else if reply.isPrefixOf text then none
  else some false

def startsWithAny (reply : Bytes) : List Bytes → Option Bool
  | [] => some false
  | text :: texts => do
      if ← startsWith text reply then some true else startsWithAny reply texts

def readInt (bytes : Bytes) : ℤ :=
  if readLe bytes < 2 ^ 31 then readLe bytes else readLe bytes - 2 ^ 32

/-- A `size_t` assembled from four bytes as an `int`, with the sign extended. -/
def readSize (bytes : Bytes) : ℕ :=
  if readLe bytes < 2 ^ 31 then readLe bytes else readLe bytes + (2 ^ 64 - 2 ^ 32)

def slice (reply : Bytes) (offset length : ℕ) : Bytes :=
  (reply.drop offset).take length

/-- `sizeof(secret_share_t)`: the fields of a share and the three that only receivers use. -/
def recordSize : ℕ := 100112

structure Collected where
  /-- The first `share_count` records; one that a reallocation has dropped is `none`. -/
  records : List (Option Share)
  /-- `shares_capacity`. -/
  capacity : ℕ
  /-- The size in bytes of the block that `shares` points to, unless it is null. -/
  block : Option ℕ
  deriving DecidableEq, Repr

def Collected.empty : Collected where
  records := []
  capacity := 0
  block := none

def Collected.shares (collected : Collected) : List Share :=
  collected.records.reduceOption

def Collected.hasRoom (collected : Collected) : Bool :=
  match collected.block with
  | none => false
  | some bytes => (collected.records.length + 1) * recordSize ≤ bytes

/-- `realloc` to a new capacity; `heap` is the largest block there is. The product wraps around, so
the block may be smaller than before. A block of zero bytes is freed. -/
def Collected.realloc (heap capacity : ℕ) (collected : Collected) : Collected :=
  let bytes := capacity * recordSize % 2 ^ 64
  let block := if heap < bytes ∨ (bytes = 0 ∧ collected.block ≠ none) then none else some bytes
  { records := collected.records.mapIdx fun index record =>
      if (index + 1) * recordSize ≤ block.getD 0 then record else none
    capacity := capacity
    block := block }

def Collected.reserve (heap needed capacity : ℕ) (collected : Collected)
    (fill : Collected → Option Collected) : Option Collected :=
  if collected.capacity < needed then
    let resized := collected.realloc heap capacity
    if resized.block = none then some resized else fill resized
  else fill collected

/-- The loop over the records of a packed reply. A record is cleared before its size is looked at,
and the offset wraps around. -/
def parseBlocks (reply : Bytes) (participantId : ℤ) : ℕ → ℕ → Collected → Option Collected
  | 0, _, collected => some collected
  | remaining + 1, offset, collected =>
    if reply.length ≤ offset then some collected
    else if reply.length < offset + 28 then some collected
    else if collected.hasRoom = false then none
    else
      let shareDataSize := readSize (slice reply (offset + 24) 4)
      let next := (offset + 28 + shareDataSize) % 2 ^ 64
      if reply.length < next then some collected
      else if shareSize < (shareDataSize + 4) % 2 ^ 64 then some collected
      else
        let share : Share :=
          { x := participantId
            blockIndex := readLe (slice reply offset 8)
            blockSize := readLe (slice reply (offset + 8) 8)
            dataLength := readLe (slice reply (offset + 16) 8)
            y := slice reply (offset + 24) ((shareDataSize + 4) % 2 ^ 64) }
        parseBlocks reply participantId remaining next
          { collected with records := collected.records ++ [some share] }

def parseReply (heap : ℕ) (reply : Bytes) (collected : Collected) : Option Collected :=
  if reply = [] then some collected
  else do
    let count := collected.records.length
    if ← startsWithAny reply (noAuditNeeded :: errorTexts) then some collected
    else if 12 ≤ reply.length then
      let participantId := readInt (slice reply 0 4)
      let numBlocks := readLe (slice reply 4 8)
      collected.reserve heap ((count + numBlocks) % 2 ^ 64) ((count + numBlocks + 100) % 2 ^ 64)
        (parseBlocks reply participantId numBlocks 12)
    else
      -- the format of an earlier version, whose header does not fit into the reply either
      collected.reserve heap (count + 1) (count + 10) fun _ => none

def collectShares (heap : ℕ) : List (Option Bytes) → Collected → Option Collected
  | [], collected => some collected
  | none :: replies, collected => collectShares heap replies collected
  | some reply :: replies, collected => do
      let extended ← parseReply heap reply collected
      collectShares heap replies extended

inductive Fetched where
  | error
  | nothing
  | message (buffer : Bytes) (length : ℕ)
  deriving DecidableEq, Repr

section Fetch

variable (scheme : Scheme) {E : Type u} [AddCommGroup E] [DecidableEq E]
  [Module (ZMod scheme.order) E] (group : PrimeOrderGroup scheme.order E) (codec : PointCodec E)

/-- `verify_share_with_stored_commitment`, with what loading the file of the message gives. -/
def verifyShareWithStoredCommitment (stored : Option VssCommitment) (share : Share) : Bool :=
  match stored with
  | none => false
  | some commitment => verifyShareWithCommitment scheme group codec share commitment

def verifyShares (stored : Option VssCommitment) : List (Option Share) → Option Bool
  | [] => some true
  | none :: _ => none
  | some share :: records =>
    if stored.any (verificationThrows scheme share) then none
    else if verifyShareWithStoredCommitment scheme group codec stored share then
      verifyShares stored records
    else some false

def fetchSharesByMsgid (heap : ℕ) (tag : ℤ) (stored : Option VssCommitment)
    (replies : List (Option Bytes)) : Option Fetched :=
  if tag ≠ 0 ∧ tag ≠ 1 then some .error
  else do
    let collected ← collectShares heap replies .empty
    if scheme.threshold ≤ collected.records.length then
      if ← verifyShares scheme group codec stored collected.records then
        match reconstructSecretFromShares scheme collected.shares with
        | .ok (buffer, length) => some (.message buffer length)
        | .error .failed => some .error
        | .error _ => none
      else some .error
    else if collected.records.length = 0 then some .nothing
    else some .error

end Fetch

def packShare (share : Share) : Bytes :=
  writeLe 8 share.blockIndex ++ writeLe 8 share.blockSize ++ writeLe 8 share.dataLength ++
    share.y.takeD (4 + share.storedSize) 0

def packShares (participantId : ℤ) (shares : List Share) : Bytes :=
  writeLe 4 (participantId % 2 ^ 32).toNat ++ writeLe 8 shares.length ++ shares.flatMap packShare

end TigerMixer.Auditor
