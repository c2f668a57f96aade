import TigerMixer.Auditor.Replies
import TigerMixer.Auditor.ReplySafety
import TigerMixer.Data.Padding

/-!
# Share messages

`send_shares_to_receivers` packs the shares of a participant into one message. The receiver is
compiled with a smaller `SHARE_SIZE` than everything else, so a message is read back exactly if its
values keep to that size.
-/

namespace TigerMixer

open Bytes SecretShare Auditor Padding List

/-- A share as it is sent: of the array for the value, the length field and the bytes it counts. -/
def SecretShare.Share.sent (share : Share) : Share :=
  { share with y := share.y.takeD (4 + share.storedSize) 0 }

/-- The fields fit their types, and the value fits the array of the share. -/
structure SecretShare.Share.Sendable (share : Share) : Prop where
  blockIndex : share.blockIndex < 2 ^ 64
  blockSize : share.blockSize < 2 ^ 64
  dataLength : share.dataLength < 2 ^ 64
  value : share.storedSize ≤ shareSize - 4

section Sent

theorem length_y_sent (share : Share) : share.sent.y.length = 4 + share.storedSize :=
  takeD_length _ _ _

@[simp]
theorem storedSize_sent (share : Share) : share.sent.storedSize = share.storedSize := by
  have same : (share.y.takeD (4 + share.storedSize) 0).takeD 4 0 = share.y.takeD 4 0 :=
    takeD_takeD (Nat.le_add_right _ _)
  exact congrArg readLe same

theorem packShare_sent (share : Share) : packShare share.sent = packShare share := by
  rw [packShare, storedSize_sent, packShare]
  simp only [Share.sent, takeD_takeD le_rfl]

theorem flatMap_packShare_sent (shares : List Share) :
    (shares.map Share.sent).flatMap packShare = shares.flatMap packShare := by
  rw [flatMap_map]
  exact congrArg (shares.flatMap ·) (funext packShare_sent)

theorem packShares_sent (participantId : ℤ) (shares : List Share) :
    packShares participantId (shares.map Share.sent) = packShares participantId shares := by
  rw [packShares, packShares, flatMap_packShare_sent, length_map]

theorem SecretShare.Share.Sendable.packable {share : Share} {participantId : ℤ}
    (sendable : share.Sendable) (own : share.x = participantId) :
    Packable participantId share.sent := by
  have length : share.sent.y.length = 4 + share.sent.storedSize := by
    rw [length_y_sent, storedSize_sent]
  have fits : share.sent.y.length ≤ shareSize := by
    have value := sendable.value
    rw [length_y_sent]
    simp only [shareSize] at value ⊢
    omega
  rw [Share.sent] at length fits ⊢
  exact ⟨own, sendable.blockIndex, sendable.blockSize, sendable.dataLength, length, fits⟩

end Sent

namespace Receiver

/-! ### Sending -/

def sharesOf (participant : ℤ) (shares : List Share) : List Share :=
  shares.filter fun share => share.x = participant

/-- The data of the message that `send_shares_to_receivers` sends to a participant who has shares.
At most a thousand shares of one participant are counted on the stack. -/
def shareMessage (participant : ℤ) (shares : List Share) : Option Bytes :=
  if sharesOf participant shares = [] then none
  else some (packShares participant (sharesOf participant shares))

/-! ### Receiving -/

def receiverShareSize : ℕ := 17000

def ack : Bytes :=
  ascii ['A', 'C', 'K']

def saveError : Bytes :=
  ascii "SAVE_ERROR".toList

def parseError : Bytes :=
  ascii "PARSE_ERROR".toList

structure Progress (σ : Type) where
  store : σ
  allSaved : Bool
  savedCount : ℕ

def Progress.interrupt {σ : Type} (progress : Progress σ) : Progress σ :=
  { progress with allSaved := false }

section Receive

variable {σ : Type} (save : σ → Share → σ × Bool)

def Progress.record (progress : Progress σ) (share : Share) : Progress σ :=
  match save progress.store share with
  | (store, true) => { progress with store, savedCount := progress.savedCount + 1 }
  | (store, false) => { progress with store, allSaved := false }

def blockAt (data : Bytes) (participantId : ℤ) (offset shareDataSize : ℕ) : Share where
  x := participantId
  blockIndex := readLe (slice data offset 8)
  blockSize := readLe (slice data (offset + 8) 8)
  dataLength := readLe (slice data (offset + 16) 8)
  y := slice data (offset + 24) ((shareDataSize + 4) % 2 ^ 64)

def receiveBlocks (data : Bytes) (participantId : ℤ) : ℕ → ℕ → Progress σ → Progress σ
  | 0, _, progress => progress
  | remaining + 1, offset, progress =>
    if data.length < offset + 28 then progress.interrupt
    else
      let shareDataSize := readSize (slice data (offset + 24) 4)
      let next := (offset + 28 + shareDataSize) % 2 ^ 64
      if data.length < next then progress.interrupt
      else if receiverShareSize < (shareDataSize + 4) % 2 ^ 64 then progress.interrupt
      else
        receiveBlocks data participantId remaining next
          (progress.record save (blockAt data participantId offset shareDataSize))

def receiveShares (data : Bytes) (store : σ) : σ × Bytes :=
  if data.length < 12 then (store, parseError)
  else
    let numBlocks := readLe (slice data 4 8)
    let progress := receiveBlocks save data (readInt (slice data 0 4)) numBlocks 12 ⟨store, true, 0⟩
    (progress.store, if progress.allSaved ∧ progress.savedCount = numBlocks then ack else saveError)

/-- The loop with every access checked: the reads against the end of the message, the copy of the
value against the array of the share. -/
def checkedReceiveBlocks (data : Bytes) (participantId : ℤ) :
    ℕ → ℕ → Progress σ → Option (Progress σ)
  | 0, _, progress => some progress
  | remaining + 1, offset, progress =>
    if data.length < offset + 28 then some progress.interrupt
    else do
      let blockIndex ← inReply data offset 8
      let blockSize ← inReply data (offset + 8) 8
      let dataLength ← inReply data (offset + 16) 8
      let sizeField ← inReply data (offset + 24) 4
      let shareDataSize := readSize sizeField
      let next := (offset + 28 + shareDataSize) % 2 ^ 64
      if data.length < next then some progress.interrupt
      else if receiverShareSize < (shareDataSize + 4) % 2 ^ 64 then some progress.interrupt
      else do
        let y ← inReply data (offset + 24) ((shareDataSize + 4) % 2 ^ 64)
        if shareSize < y.length then none
        else
          checkedReceiveBlocks data participantId remaining next
            (progress.record save
              { x := participantId
                blockIndex := readLe blockIndex
                blockSize := readLe blockSize
                dataLength := readLe dataLength
                y := y })

variable {data : Bytes} {participantId : ℤ}

theorem checkedReceiveBlocks_eq (machine : data.length < 2 ^ 63) (remaining offset : ℕ)
    (progress : Progress σ) :
    checkedReceiveBlocks save data participantId remaining offset progress =
      some (receiveBlocks save data participantId remaining offset progress) := by
  induction remaining generalizing offset progress with
  | zero => rfl
  | succ remaining ih =>
    rw [checkedReceiveBlocks, receiveBlocks]
    split_ifs with short
    · rfl
    · rw [inReply_eq_some (by omega), inReply_eq_some (by omega), inReply_eq_some (by omega),
        inReply_eq_some (by omega)]
      simp only [Option.bind_eq_bind, Option.bind_some]
      split_ifs with beyond large
      · rfl
      · rfl
      · have small : (readSize (slice data (offset + 24) 4) + 4) % 2 ^ 64 ≤ shareSize := by
          simp only [receiverShareSize] at large
          simp only [shareSize]
          omega
        rw [checked_value machine (by omega) (not_lt.mp beyond) small, ih]
        rfl

def findBlocks (data : Bytes) (participantId : ℤ) : ℕ → ℕ → List Share × Bool
  | 0, _ => ([], true)
  | remaining + 1, offset =>
    if data.length < offset + 28 then ([], false)
    else
      let shareDataSize := readSize (slice data (offset + 24) 4)
      let next := (offset + 28 + shareDataSize) % 2 ^ 64
      if data.length < next then ([], false)
      else if receiverShareSize < (shareDataSize + 4) % 2 ^ 64 then ([], false)
      else
        let later := findBlocks data participantId remaining next
        (blockAt data participantId offset shareDataSize :: later.1, later.2)

def Progress.saveFound (found : List Share × Bool) (progress : Progress σ) : Progress σ :=
  if found.2 then found.1.foldl (Progress.record save) progress
  else (found.1.foldl (Progress.record save) progress).interrupt

theorem receiveBlocks_eq (remaining offset : ℕ) (progress : Progress σ) :
    receiveBlocks save data participantId remaining offset progress =
      progress.saveFound save (findBlocks data participantId remaining offset) := by
  induction remaining generalizing offset progress with
  | zero => rfl
  | succ remaining ih =>
    by_cases short : data.length < offset + 28
    · rw [receiveBlocks, findBlocks, if_pos short, if_pos short]
      rfl
    by_cases beyond : data.length <
        (offset + 28 + readSize (slice data (offset + 24) 4)) % 2 ^ 64
    · simp only [receiveBlocks, findBlocks, if_neg short, if_pos beyond]
      rfl
    by_cases large : receiverShareSize < (readSize (slice data (offset + 24) 4) + 4) % 2 ^ 64
    · simp only [receiveBlocks, findBlocks, if_neg short, if_neg beyond, if_pos large]
      rfl
    simp only [receiveBlocks, findBlocks, if_neg short, if_neg beyond, if_neg large]
    rw [ih]
    rfl

def saveAll : List Share → σ → σ × Bool
  | [], store => (store, true)
  | share :: shares, store =>
    let first := save store share
    let later := saveAll shares first.1
    (later.1, first.2 && later.2)

/-- What becomes of shares that have arrived: they are saved and acknowledged. -/
def deliver (shares : List Share) (store : σ) : σ × Bytes :=
  ((saveAll save shares store).1, if (saveAll save shares store).2 then ack else saveError)

theorem saveAll_of_saves {save : σ → Share → σ × Bool}
    (saves : ∀ store share, (save store share).2 = true) (shares : List Share) (store : σ) :
    (saveAll save shares store).2 = true := by
  induction shares generalizing store with
  | nil => rfl
  | cons share shares ih => simp [saveAll, saves, ih]

theorem foldl_record (shares : List Share) (progress : Progress σ) :
    let saved := shares.foldl (Progress.record save) progress
    saved.store = (saveAll save shares progress.store).1 ∧
      saved.allSaved = (progress.allSaved && (saveAll save shares progress.store).2) ∧
      ((saveAll save shares progress.store).2 →
        saved.savedCount = progress.savedCount + shares.length) := by
  induction shares generalizing progress with
  | nil => simp [saveAll]
  | cons share shares ih =>
    have later := ih (progress.record save share)
    rw [foldl_cons]
    rcases outcome : save progress.store share with ⟨store, _ | _⟩
    · simp only [Progress.record, outcome] at later ⊢
      simp [later, saveAll, outcome]
    · simp only [Progress.record, outcome] at later ⊢
      refine ⟨by simp [later, saveAll, outcome], by simp [later, saveAll, outcome], ?_⟩
      intro all
      simp only [saveAll, outcome, Bool.true_and] at all
      rw [later.2.2 all, length_cons]
      omega

theorem length_findBlocks {remaining offset : ℕ}
    (complete : (findBlocks data participantId remaining offset).2 = true) :
    (findBlocks data participantId remaining offset).1.length = remaining := by
  induction remaining generalizing offset with
  | zero => rfl
  | succ remaining ih =>
    simp only [findBlocks] at complete ⊢
    split_ifs at complete ⊢
    rw [length_cons, ih complete]

theorem receiveShares_eq (header : 12 ≤ data.length) (store : σ) :
    receiveShares save data store =
      let found := findBlocks data (readInt (slice data 0 4)) (readLe (slice data 4 8)) 12
      ((saveAll save found.1 store).1,
        if found.2 then (deliver save found.1 store).2 else saveError) := by
  rw [receiveShares, if_neg (not_lt.mpr header)]
  simp only [receiveBlocks_eq, Progress.saveFound]
  generalize found :
    findBlocks data (readInt (slice data 0 4)) (readLe (slice data 4 8)) 12 = blocks
  rcases foldl_record save blocks.1 ⟨store, true, 0⟩ with ⟨sameStore, all, count⟩
  cases complete : blocks.2 with
  | false =>
    simp only [Bool.false_eq_true, if_false, Progress.interrupt, false_and]
    rw [sameStore]
  | true =>
    have length := @length_findBlocks data (readInt (slice data 0 4)) (readLe (slice data 4 8)) 12
      (by rw [found, complete])
    rw [found] at length
    simp only [if_true, deliver, all, Bool.true_and]
    rw [sameStore]
    cases saved : (saveAll save blocks.1 store).2 with
    | false => simp
    | true => simp [count saved, length]

end Receive

/-! ### The round trip -/

section RoundTrip

variable {participantId : ℤ} {data : Bytes} {offset : ℕ}

theorem findBlocks_cons {share : Share} {after : Bytes} {remaining : ℕ}
    (packable : Packable participantId share) (split : data.drop offset = packShare share ++ after)
    (machine : data.length < 2 ^ 64) :
    findBlocks data participantId (remaining + 1) offset =
      if receiverShareSize < 4 + share.storedSize then ([], false)
      else
        let later := findBlocks data participantId remaining (offset + (packShare share).length)
        (share :: later.1, later.2) := by
  have packed := packable.packedAt split
  have length := packable.length_packShare
  have inside := packed.inside
  have next : (offset + 28 + share.storedSize) % 2 ^ 64 = offset + (packShare share).length := by
    rw [Nat.mod_eq_of_lt (by omega)]
    omega
  have width : (share.storedSize + 4) % 2 ^ 64 = share.storedSize + 4 := Nat.mod_eq_of_lt (by omega)
  have block : blockAt data participantId offset share.storedSize = share := by
    rw [blockAt, packed.blockIndex, packed.blockSize, packed.dataLength, width, packed.y,
      ← packable.x]
  rw [findBlocks, if_neg (by omega)]
  simp only [packed.size, next, width, block]
  rw [if_neg (by omega), Nat.add_comm share.storedSize 4]

theorem findBlocks_flatMap {shares : List Share}
    (packable : ∀ share ∈ shares, Packable participantId share)
    (split : data.drop offset = shares.flatMap packShare) (machine : data.length < 2 ^ 64) :
    ((findBlocks data participantId shares.length offset).2 ↔
        ∀ share ∈ shares, 4 + share.storedSize ≤ receiverShareSize) ∧
      ((findBlocks data participantId shares.length offset).2 →
        (findBlocks data participantId shares.length offset).1 = shares) := by
  induction shares generalizing offset with
  | nil => simp [findBlocks]
  | cons share shares ih =>
    rw [forall_mem_cons] at packable
    have later : data.drop (offset + (packShare share).length) = shares.flatMap packShare := by
      rw [← drop_drop, split, flatMap_cons, drop_left]
    rcases ih packable.2 later with ⟨complete, found⟩
    rw [length_cons, findBlocks_cons packable.1 split machine, forall_mem_cons]
    split_ifs with large
    · simp [not_le.mpr large]
    · simp only [not_lt.mp large, true_and]
      exact ⟨complete, fun end_ => by rw [found end_]⟩

def ReadByReceiver (message : Bytes) (shares : List Share) : Prop :=
  ∀ (σ : Type) (save : σ → Share → σ × Bool) (store : σ),
    receiveShares save message store = deliver save (shares.map Share.sent) store

/-- The auditor takes the reply with these shares for them, in their order, if there is memory. -/
def ReadByAuditor (participantId : ℤ) (loaded : List Share) : Prop :=
  ∀ heap collected earlier, Intact collected earlier → earlier.length + loaded.length < 2 ^ 31 →
    (earlier.length + loaded.length + 100) * recordSize ≤ heap →
      ∃ extended, parseReply heap (Reply.packed participantId loaded).bytes collected =
        some extended ∧ Intact extended (earlier ++ loaded.map Share.sent)

def LoopInside (data : Bytes) : Prop :=
  ∀ (σ : Type) (save : σ → Share → σ × Bool) (participantId : ℤ) (remaining offset : ℕ)
    (progress : Progress σ),
      (checkedReceiveBlocks save data participantId remaining offset progress).isSome

theorem packable_sent {shares : List Share} (own : ∀ share ∈ shares, share.x = participantId)
    (sendable : ∀ share ∈ shares, share.Sendable) :
    ∀ share ∈ shares.map Share.sent, Packable participantId share := by
  rw [forall_mem_map]
  intro share member
  exact (sendable share member).packable (own share member)

variable {shares : List Share}

theorem receiveShares_packShares (lower : -2 ^ 31 ≤ participantId) (upper : participantId < 2 ^ 31)
    (few : shares.length ≤ 1000) {σ : Type} (save : σ → Share → σ × Bool) (store : σ) :
    receiveShares save (packShares participantId shares) store =
      let found := findBlocks (packShares participantId shares) participantId
        (shares.map Share.sent).length 12
      ((saveAll save found.1 store).1,
        if found.2 then (deliver save found.1 store).2 else saveError) := by
  have header : 12 ≤ (packShares participantId shares).length := by
    rw [length_packShares]
    omega
  rw [receiveShares_eq save header, readInt_packShares lower upper, readLe_packShares (by omega),
    length_map]

section Sendable

variable (lower : -2 ^ 31 ≤ participantId) (upper : participantId < 2 ^ 31)
  (own : ∀ share ∈ shares, share.x = participantId) (sendable : ∀ share ∈ shares, share.Sendable)

include lower upper own sendable

theorem readByReceiver_packShares_iff (few : shares.length ≤ 1000) :
    ReadByReceiver (packShares participantId shares) shares ↔
      ∀ share ∈ shares, 4 + share.storedSize ≤ receiverShareSize := by
  have packable := packable_sent own sendable
  have machine : (packShares participantId shares).length < 2 ^ 64 := by
    have bound := length_flatMap_packShare packable
    rw [length_map] at bound
    rw [← packShares_sent, length_packShares]
    simp only [shareSize] at bound
    omega
  have split : (packShares participantId shares).drop 12 =
      (shares.map Share.sent).flatMap packShare := by
    rw [drop_packShares, flatMap_packShare_sent]
  rcases findBlocks_flatMap packable split machine with ⟨complete, found⟩
  rw [forall_mem_map] at complete
  simp only [storedSize_sent] at complete
  rw [← complete, ReadByReceiver]
  constructor
  · -- If the loop is interrupted, even a store that takes everything is not acknowledged.
    intro delivered
    have answer := congrArg Prod.snd (delivered Unit (fun store _ => (store, true)) ())
    rw [receiveShares_packShares lower upper few] at answer
    have all := @saveAll_of_saves Unit (fun store _ => (store, true)) (fun _ _ => rfl)
    by_contra interrupted
    simp only [if_neg interrupted, deliver, all, if_true] at answer
    exact absurd answer (by decide)
  · intro all σ save store
    rw [receiveShares_packShares lower upper few]
    simp only [if_pos all, found all]
    rfl

theorem readByAuditor_packed : ReadByAuditor participantId shares := by
  intro heap collected earlier intact bound memory
  have packable := packable_sent own sendable
  rw [Reply.bytes, ← packShares_sent]
  apply parseReply_packShares lower upper packable intact
  · rwa [length_map]
  · rwa [length_map]

end Sendable

theorem loopInside (machine : data.length < 2 ^ 32) : LoopInside data := by
  intro σ save participantId remaining offset progress
  rw [checkedReceiveBlocks_eq save (machine.trans (by decide))]
  rfl

end RoundTrip

theorem x_of_mem_sharesOf {participant : ℤ} {shares : List Share} :
    ∀ share ∈ sharesOf participant shares, share.x = participant := by
  intro share member
  simpa using (mem_filter.mp member).2

/-- The transport of the shares of a participant is faithful, and safe, exactly if their values are
at most 16996 bytes long. -/
theorem share_transport_iff (participant : ℤ) (shares : List Share) (message : Bytes)
    (recipient : 1 ≤ participant ∧ participant ≤ secretShares)
    (few : (sharesOf participant shares).length ≤ 1000)
    (sendable : ∀ share ∈ sharesOf participant shares, share.Sendable)
    (packed : shareMessage participant shares = some message) :
    (ReadByReceiver message (sharesOf participant shares) ∧
        (∀ participantId loaded, -2 ^ 31 ≤ participantId → participantId < 2 ^ 31 →
          (∀ share ∈ loaded, share.x = participantId) → (∀ share ∈ loaded, share.Sendable) →
            ReadByAuditor participantId loaded) ∧
        ∀ data : Bytes, data.length < 2 ^ 32 → LoopInside data) ↔
      ∀ share ∈ sharesOf participant shares, share.storedSize ≤ receiverShareSize - 4 := by
  have lower : -2 ^ 31 ≤ participant := by omega
  have upper : participant < 2 ^ 31 := by
    have last := recipient.2
    simp only [secretShares] at last
    omega
  rw [shareMessage] at packed
  split_ifs at packed
  rw [and_iff_left ⟨fun _ _ => readByAuditor_packed, fun _ => loopInside⟩, ← Option.some.inj packed,
    readByReceiver_packShares_iff lower upper x_of_mem_sharesOf sendable few]
  refine forall₂_congr fun share _ => ?_
  simp only [receiverShareSize]
  omega

def smallShares : List Share :=
  [⟨1, 0, encodeValue 7, 40, 30⟩, ⟨2, 0, encodeValue 9, 40, 30⟩, ⟨1, 1, encodeValue 300, 40, 10⟩]

theorem share_transport_small :
    ∃ message, shareMessage 1 smallShares = some message ∧
      receiveShares (fun store share => (store ++ [share], true)) message [] =
        ([⟨1, 0, encodeValue 7, 40, 30⟩, ⟨1, 1, encodeValue 300, 40, 10⟩], ack) := by
  have delivered := (share_transport_iff 1 smallShares _ (by decide) (by decide)
    (by
      intro share member
      have among := mem_of_mem_filter member
      simp only [smallShares, mem_cons, not_mem_nil, or_false] at among
      rcases among with rfl | rfl | rfl <;> exact ⟨by decide, by decide, by decide, by decide⟩)
    rfl).mpr (by decide)
  exact ⟨_, rfl, delivered.1 (List Share) _ []⟩

def largeShare : Share where
  x := 1
  blockIndex := 0
  y := writeLe 4 16997 ++ List.replicate 16997 1
  dataLength := 30
  blockSize := 30

theorem storedSize_largeShare : largeShare.storedSize = 16997 := by
  rw [Share.storedSize, largeShare, takeD_left' (length_writeLe 4 _),
    readLe_writeLe_of_lt (by decide)]

theorem sendable_largeShare : largeShare.Sendable where
  blockIndex := by decide
  blockSize := by decide
  dataLength := by decide
  value := by
    rw [storedSize_largeShare]
    decide

/-- A stored value of 17001 bytes is sent, but not taken. -/
theorem large_share_refused :
    largeShare.Sendable ∧ shareMessage 1 [largeShare] = some (packShares 1 [largeShare]) ∧
      receiveShares (fun store share => (store ++ [share], true)) (packShares 1 [largeShare]) [] =
        ([], saveError) := by
  refine ⟨sendable_largeShare, rfl, ?_⟩
  have packable : Packable 1 largeShare.sent := sendable_largeShare.packable rfl
  have split : (packShares 1 [largeShare]).drop 12 = packShare largeShare.sent ++ [] := by
    rw [drop_packShares, packShare_sent]
    rfl
  have machine : (packShares 1 [largeShare]).length < 2 ^ 64 := by
    have length := packable.length_packShare
    rw [packShare_sent, storedSize_sent, storedSize_largeShare] at length
    rw [length_packShares, flatMap_singleton, length]
    decide
  have found := @findBlocks_cons 1 (packShares 1 [largeShare]) 12 largeShare.sent [] 0 packable
    split machine
  rw [storedSize_sent, storedSize_largeShare, if_pos (by decide)] at found
  rw [receiveShares_packShares (by decide) (by decide) (by decide)]
  simp only [map_cons, map_nil, length_singleton]
  rw [found]
  rfl

end Receiver

end TigerMixer
