import TigerMixer.Auditor.Fetch

/-!
# What well-formed replies carry

A well-formed reply is missing, empty, one of the status texts, or a packed list of shares of one
participant. `Carries` relates it to the shares it carries, which the auditor reads back as long as
there is memory. The invariant of the loop is `Intact`: the array holds the shares so far, and its
block is as large as its capacity says.
-/

namespace TigerMixer.Auditor

open Bytes SecretShare List

structure Packable (participantId : ℤ) (share : Share) : Prop where
  x : share.x = participantId
  blockIndex : share.blockIndex < 2 ^ 64
  blockSize : share.blockSize < 2 ^ 64
  dataLength : share.dataLength < 2 ^ 64
  length_y : share.y.length = 4 + share.storedSize
  fits : share.y.length ≤ shareSize

inductive Carries : Option Bytes → List Share → Prop
  | absent : Carries none []
  | empty : Carries (some []) []
  | status {text : Bytes} (known : text ∈ noAuditNeeded :: errorTexts) : Carries (some text) []
  | packed {participantId : ℤ} {shares : List Share} (lower : -2 ^ 31 ≤ participantId)
      (upper : participantId < 2 ^ 31) (packable : ∀ share ∈ shares, Packable participantId share) :
      Carries (some (packShares participantId shares)) shares

structure Intact (collected : Collected) (shares : List Share) : Prop where
  records : collected.records = shares.map some
  enough : shares.length ≤ collected.capacity
  block : collected.capacity ≠ 0 → collected.block = some (collected.capacity * recordSize)

theorem intact_empty : Intact .empty [] :=
  ⟨rfl, le_rfl, fun nonzero => absurd rfl nonzero⟩

section Array

variable {heap : ℕ} {collected : Collected} {shares : List Share}

variable (intact : Intact collected shares)

include intact

theorem Intact.length_records :
    collected.records.length = shares.length := by
  simp [intact.records]

theorem Intact.shares_eq : collected.shares = shares := by
  rw [Collected.shares, intact.records]
  change (shares.map some).filterMap id = shares
  simp [filterMap_map]

theorem Intact.hasRoom (room : shares.length < collected.capacity) :
    collected.hasRoom = true := by
  simp only [Collected.hasRoom, intact.block (by omega), intact.length_records, decide_eq_true_eq]
  exact Nat.mul_le_mul_right recordSize room

theorem Intact.append (share : Share) (room : shares.length < collected.capacity) :
    Intact { collected with records := collected.records ++ [some share] } (shares ++ [share]) := by
  refine ⟨?_, ?_, intact.block⟩
  · simp [intact.records]
  · simpa using room

theorem Intact.realloc {capacity : ℕ} (positive : 0 < capacity) (larger : shares.length ≤ capacity)
    (noWrap : capacity * recordSize < 2 ^ 64) (memory : capacity * recordSize ≤ heap) :
    Intact (collected.realloc heap capacity) shares ∧
      (collected.realloc heap capacity).block = some (capacity * recordSize) := by
  have nonzero : capacity * recordSize ≠ 0 := by
    simp only [recordSize]
    omega
  have block : (collected.realloc heap capacity).block = some (capacity * recordSize) := by
    simp only [Collected.realloc, Nat.mod_eq_of_lt noWrap]
    rw [if_neg (by omega)]
  have records : (collected.realloc heap capacity).records = shares.map some := by
    have kept : (collected.realloc heap capacity).records = collected.records.mapIdx
        fun index record => if (index + 1) * recordSize ≤
          (collected.realloc heap capacity).block.getD 0 then record else none := rfl
    rw [kept, block, intact.records]
    apply ext_getElem (by simp)
    intro index bound _
    have inside : index + 1 ≤ capacity := by
      simp only [length_mapIdx, length_map] at bound
      omega
    simp [Nat.mul_le_mul_right recordSize inside]
  exact ⟨⟨records, larger, fun _ => block⟩, block⟩

end Array

section Records

variable {participantId : ℤ} {reply : Bytes} {offset : ℕ}

theorem slice_add {before part after : Bytes} {skipped width : ℕ} (skip : before.length = skipped)
    (length : part.length = width) (split : reply.drop offset = before ++ (part ++ after)) :
    slice reply (offset + skipped) width = part := by
  rw [slice, ← drop_drop, split, drop_left' skip, take_left' length]

theorem readLe_slice {before after : Bytes} {skipped width value : ℕ}
    (skip : before.length = skipped) (bound : value < 256 ^ width)
    (split : reply.drop offset = before ++ (writeLe width value ++ after)) :
    readLe (slice reply (offset + skipped) width) = value := by
  rw [slice_add skip (length_writeLe width value) split, readLe_writeLe_of_lt bound]

variable {share : Share} {after : Bytes} {collected : Collected}

theorem Packable.packShare_eq (packable : Packable participantId share) :
    packShare share = writeLe 8 share.blockIndex ++ (writeLe 8 share.blockSize ++
      (writeLe 8 share.dataLength ++ share.y)) := by
  simp [packShare, takeD_eq_take _ packable.length_y.ge, packable.length_y.le]

theorem Packable.length_packShare (packable : Packable participantId share) :
    (packShare share).length = 28 + share.storedSize := by
  simp only [packable.packShare_eq, length_append, length_writeLe, packable.length_y]
  omega

theorem Packable.readSize_eq (packable : Packable participantId share) :
    readSize (share.y.take 4) = share.storedSize := by
  have fits := packable.fits
  have length := packable.length_y
  have size : readLe (share.y.take 4) = share.storedSize := by
    rw [Share.storedSize, takeD_eq_take _ (by omega)]
  simp only [shareSize] at fits
  rw [readSize, size, if_pos (by omega)]

structure PackedAt (reply : Bytes) (offset : ℕ) (share : Share) : Prop where
  blockIndex : readLe (slice reply offset 8) = share.blockIndex
  blockSize : readLe (slice reply (offset + 8) 8) = share.blockSize
  dataLength : readLe (slice reply (offset + 16) 8) = share.dataLength
  size : readSize (slice reply (offset + 24) 4) = share.storedSize
  y : slice reply (offset + 24) (share.storedSize + 4) = share.y
  inside : offset + (packShare share).length ≤ reply.length

theorem Packable.packedAt (packable : Packable participantId share)
    (split : reply.drop offset = packShare share ++ after) : PackedAt reply offset share := by
  have length := packable.length_packShare
  have lengthY := packable.length_y
  have total : reply.length - offset = (packShare share).length + after.length := by
    rw [← length_drop, split, length_append]
  -- the record as its three numbers, its length field and its value
  have fields : reply.drop offset = writeLe 8 share.blockIndex ++ (writeLe 8 share.blockSize ++
      (writeLe 8 share.dataLength ++ (share.y ++ after))) := by
    simp only [split, packable.packShare_eq, append_assoc]
  have blockIndex : readLe (slice reply offset 8) = share.blockIndex :=
    readLe_slice length_nil packable.blockIndex fields
  have blockSize : readLe (slice reply (offset + 8) 8) = share.blockSize :=
    readLe_slice (length_writeLe 8 _) packable.blockSize fields
  rw [← append_assoc] at fields
  have dataLength : readLe (slice reply (offset + 16) 8) = share.dataLength :=
    readLe_slice (by simp) packable.dataLength fields
  rw [← append_assoc] at fields
  have y : slice reply (offset + 24) (share.storedSize + 4) = share.y :=
    slice_add (by simp) (by omega) fields
  have lengthField : slice reply (offset + 24) 4 = share.y.take 4 := by
    rw [← y, slice, slice, take_take, Nat.min_eq_left (by omega)]
  refine ⟨blockIndex, blockSize, dataLength, ?_, y, by omega⟩
  rw [lengthField, packable.readSize_eq]

theorem parseBlocks_cons {remaining : ℕ} (packable : Packable participantId share)
    (split : reply.drop offset = packShare share ++ after) (machine : reply.length < 2 ^ 64)
    (room : collected.hasRoom = true) :
    parseBlocks reply participantId (remaining + 1) offset collected =
      parseBlocks reply participantId remaining (offset + (packShare share).length)
        { collected with records := collected.records ++ [some share] } := by
  have packed := packable.packedAt split
  have length := packable.length_packShare
  have lengthY := packable.length_y
  have fits := packable.fits
  have inReply := packed.inside
  simp only [shareSize] at fits
  have next : (offset + 28 + share.storedSize) % 2 ^ 64 = offset + (packShare share).length := by
    rw [Nat.mod_eq_of_lt (by omega)]
    omega
  have width : (share.storedSize + 4) % 2 ^ 64 = share.storedSize + 4 := Nat.mod_eq_of_lt (by omega)
  have sameShare : { share with x := participantId } = share := by
    rw [← packable.x]
  rw [parseBlocks, if_neg (by omega), if_neg (by omega), if_neg (by simp [room])]
  simp only [packed.size, next, width, packed.blockIndex, packed.blockSize, packed.dataLength,
    packed.y, sameShare]
  rw [if_neg (by omega), if_neg (by simp only [shareSize]; omega)]

theorem parseBlocks_flatMap {shares rest : List Share}
    (packable : ∀ share ∈ rest, Packable participantId share)
    (split : reply.drop offset = rest.flatMap packShare) (machine : reply.length < 2 ^ 64)
    (intact : Intact collected shares) (room : shares.length + rest.length ≤ collected.capacity) :
    ∃ extended, parseBlocks reply participantId rest.length offset collected = some extended ∧
      Intact extended (shares ++ rest) ∧ extended.capacity = collected.capacity := by
  induction rest generalizing offset shares collected with
  | nil => exact ⟨collected, rfl, by simpa using intact, rfl⟩
  | cons share rest ih =>
    rw [forall_mem_cons] at packable
    rw [length_cons] at room
    have later : reply.drop (offset + (packShare share).length) = rest.flatMap packShare := by
      rw [← drop_drop, split, flatMap_cons, drop_left]
    obtain ⟨extended, parsed, extendedIntact, capacity⟩ := ih packable.2 later
      (intact.append share (by omega)) (by simpa [Nat.add_assoc, Nat.add_comm 1] using room)
    refine ⟨extended, ?_, by simpa using extendedIntact, capacity⟩
    rw [length_cons, parseBlocks_cons packable.1 split machine (intact.hasRoom (by omega)), parsed]

end Records

section Replies

variable {heap : ℕ} {participantId : ℤ} {collected : Collected} {shares sent : List Share}

theorem startsWith_eq_false {text reply : Bytes} {index : ℕ} {expected found : UInt8}
    (inText : text[index]? = some expected) (inReply : reply[index]? = some found)
    (different : expected ≠ found) : startsWith text reply = some false := by
  have disagree {left right : Bytes} (leads : left <+: right) {byte : UInt8}
      (present : left[index]? = some byte) : right[index]? = some byte := by
    obtain ⟨rest, rfl⟩ := leads
    rw [List.getElem?_append_left (List.getElem?_eq_some_iff.mp present).1, present]
  have first : ¬text <+: reply := fun leads =>
    different (Option.some.inj ((disagree leads inText).symm.trans inReply))
  have second : ¬reply <+: text := fun leads =>
    different (Option.some.inj (inText.symm.trans (disagree leads inReply)))
  rw [startsWith, if_neg (by simpa using first), if_neg (by simpa using second)]

theorem startsWithAny_eq_false {reply : Bytes} {texts : List Bytes}
    (none : ∀ text ∈ texts, startsWith text reply = some false) :
    startsWithAny reply texts = some false := by
  induction texts with
  | nil => rfl
  | cons text texts ih =>
    rw [forall_mem_cons] at none
    simp [startsWithAny, none.1, ih none.2]

theorem startsWithAny_status {text : Bytes} (known : text ∈ noAuditNeeded :: errorTexts) :
    startsWithAny text (noAuditNeeded :: errorTexts) = some true := by
  revert text
  decide

theorem startsWithAny_packShares (few : sent.length < 2 ^ 31) :
    startsWithAny (packShares participantId sent) (noAuditNeeded :: errorTexts) = some false := by
  have ninth : (packShares participantId sent)[8]? = some 0 := by
    have high : sent.length / 256 / 256 / 256 / 256 = 0 := by omega
    simp [packShares, writeLe, high]
  apply startsWithAny_eq_false
  intro text known
  have letter : ∃ byte, text[8]? = some byte ∧ byte ≠ 0 := by
    revert text
    decide
  obtain ⟨byte, found, nonzero⟩ := letter
  exact startsWith_eq_false found ninth nonzero

theorem length_flatMap_packShare (packable : ∀ share ∈ sent, Packable participantId share) :
    (sent.flatMap packShare).length ≤ sent.length * (24 + shareSize) := by
  induction sent with
  | nil => simp
  | cons share sent ih =>
    rw [forall_mem_cons] at packable
    have first := packable.1.length_packShare
    have lengthY := packable.1.length_y
    have fits := packable.1.fits
    have later := ih packable.2
    rw [flatMap_cons, length_append, length_cons, Nat.add_mul]
    omega

theorem packShares_eq (participantId : ℤ) (sent : List Share) :
    (packShares participantId sent).drop 0 =
      writeLe 4 (participantId % 2 ^ 32).toNat ++ (writeLe 8 sent.length ++
        sent.flatMap packShare) := by
  simp [packShares]

theorem length_packShares (participantId : ℤ) (sent : List Share) :
    (packShares participantId sent).length = 12 + (sent.flatMap packShare).length := by
  simp [packShares]
  omega

theorem drop_packShares (participantId : ℤ) (sent : List Share) :
    (packShares participantId sent).drop 12 = sent.flatMap packShare :=
  drop_left' (by simp)

theorem readInt_packShares (lower : -2 ^ 31 ≤ participantId) (upper : participantId < 2 ^ 31) :
    readInt (slice (packShares participantId sent) 0 4) = participantId := by
  rw [slice, packShares_eq, take_left' (length_writeLe 4 _), readInt,
    readLe_writeLe_of_lt (by omega)]
  split_ifs <;> omega

theorem readLe_packShares (few : sent.length < 2 ^ 64) :
    readLe (slice (packShares participantId sent) 4 8) = sent.length := by
  have number := readLe_slice (length_writeLe 4 _) (show sent.length < 256 ^ 8 by omega)
    (packShares_eq participantId sent)
  rwa [Nat.zero_add] at number

theorem parseReply_packShares (lower : -2 ^ 31 ≤ participantId) (upper : participantId < 2 ^ 31)
    (packable : ∀ share ∈ sent, Packable participantId share) (intact : Intact collected shares)
    (few : shares.length + sent.length < 2 ^ 31)
    (memory : (shares.length + sent.length + 100) * recordSize ≤ heap) :
    ∃ extended, parseReply heap (packShares participantId sent) collected = some extended ∧
      Intact extended (shares ++ sent) := by
  have identity := @readInt_packShares participantId sent lower upper
  have count := @readLe_packShares participantId sent (by omega)
  have length := length_packShares participantId sent
  have body := drop_packShares participantId sent
  have machine : (packShares participantId sent).length < 2 ^ 64 := by
    have bound := length_flatMap_packShare packable
    simp only [shareSize] at bound
    omega
  have nonempty : packShares participantId sent ≠ [] := by
    intro empty
    rw [empty, length_nil] at length
    omega
  have fill {target : Collected} (targetIntact : Intact target shares)
      (room : shares.length + sent.length ≤ target.capacity) :
      ∃ extended, parseBlocks (packShares participantId sent) participantId sent.length 12 target =
        some extended ∧ Intact extended (shares ++ sent) := by
    obtain ⟨extended, parsed, extendedIntact, -⟩ :=
      parseBlocks_flatMap packable body machine targetIntact room
    exact ⟨extended, parsed, extendedIntact⟩
  have fewSent : sent.length < 2 ^ 31 := by omega
  have noWrap : (shares.length + sent.length + 100) * recordSize < 2 ^ 64 := by
    simp only [recordSize]
    omega
  simp only [parseReply, if_neg nonempty, startsWithAny_packShares fewSent, intact.length_records,
    identity, count, Option.bind_eq_bind, Option.bind_some, Collected.reserve]
  rw [if_neg Bool.false_ne_true, if_pos (by omega), Nat.mod_eq_of_lt (by omega),
    Nat.mod_eq_of_lt (by omega)]
  by_cases full : collected.capacity < shares.length + sent.length
  · obtain ⟨resized, block⟩ := intact.realloc (by omega) (by omega) noWrap memory
    rw [if_pos full, block, if_neg (Option.some_ne_none _)]
    apply fill resized
    simp only [Collected.realloc]
    omega
  · rw [if_neg full]
    exact fill intact (by omega)

theorem parseReply_of_carries {reply : Bytes} (carries : Carries (some reply) sent)
    (intact : Intact collected shares) (few : shares.length + sent.length < 2 ^ 31)
    (memory : (shares.length + sent.length + 100) * recordSize ≤ heap) :
    ∃ extended, parseReply heap reply collected = some extended ∧
      Intact extended (shares ++ sent) := by
  cases carries with
  | empty => exact ⟨collected, by simp [parseReply], by simpa using intact⟩
  | status known =>
    refine ⟨collected, ?_, by simpa using intact⟩
    simp [parseReply, startsWithAny_status known]
  | packed lower upper packable =>
    exact parseReply_packShares lower upper packable intact few memory

theorem collectShares_of_carries {replies : List (Option Bytes)} {carried : List (List Share)}
    (carries : List.Forall₂ Carries replies carried) (intact : Intact collected shares)
    (few : shares.length + carried.flatten.length < 2 ^ 31)
    (memory : (shares.length + carried.flatten.length + 100) * recordSize ≤ heap) :
    ∃ all, collectShares heap replies collected = some all ∧
      Intact all (shares ++ carried.flatten) := by
  induction carries generalizing collected shares with
  | nil => exact ⟨collected, rfl, by simpa using intact⟩
  | @cons reply sent replies carried head _ ih =>
    rw [flatten_cons, length_append] at few memory
    cases reply with
    | none =>
      cases head
      rw [length_nil, Nat.zero_add] at few memory
      exact ih intact few memory
    | some reply =>
      obtain ⟨extended, parsed, extendedIntact⟩ := parseReply_of_carries head intact (by omega)
        ((Nat.mul_le_mul_right recordSize (by omega)).trans memory)
      obtain ⟨all, collects, allIntact⟩ := ih extendedIntact
        (by simpa [Nat.add_assoc] using few) (by simpa [Nat.add_assoc] using memory)
      refine ⟨all, ?_, by simpa using allIntact⟩
      rw [collectShares, parsed, Option.bind_eq_bind, Option.bind_some, collects]

end Replies

end TigerMixer.Auditor
