import TigerMixer.Receiver.ShareFile

/-!
# Saving shares and loading them again

Of a value as many bytes are written as the whole message has, so short messages lose the end of it.
-/

namespace TigerMixer

open Bytes Text SecretShare Padding List

def SecretShare.Share.stored (share : Share) : Share :=
  { share with y := share.y.takeD (min share.dataLength Receiver.receiverShareSize) 0 }

namespace Receiver

structure Entry where
  others : Bytes
  share : Share
  stamp : Stamp
  complete : CompleteLines others

def Entry.text (msgId : MsgId) (entry : Entry) : Bytes :=
  entry.others ++ shareLine msgId entry.share entry.stamp

def fileText (msgId : MsgId) (entries : List Entry) (last : Bytes) : Bytes :=
  entries.flatMap (Entry.text msgId) ++ last

def otherTexts (entries : List Entry) (last : Bytes) : List Bytes :=
  entries.map Entry.others ++ [last]

section File

variable {msgId : MsgId} {entries : List Entry} {last : Bytes}

theorem Entry.completeLines_text (entry : Entry) : CompleteLines (entry.text msgId) := by
  rw [Entry.text, shareLine]
  exact completeLines_append _ _

theorem loadFile_fileText_cons (entry : Entry) :
    loadFile (fileText msgId (entry :: entries) last) =
      loadFile entry.others ++ (loadFile (shareLine msgId entry.share entry.stamp) ++
        loadFile (fileText msgId entries last)) := by
  rw [fileText, flatMap_cons, append_assoc, loadFile_append entry.completeLines_text,
    Entry.text, loadFile_append entry.complete, append_assoc]
  rfl

theorem share_storedShare (share : Share) (foundCount : ℕ) :
    (storedShare msgId share).share foundCount = share.stored := by
  have short : (share.y.takeD (min share.dataLength receiverShareSize) 0).length ≤ 17000 := by
    rw [takeD_length, receiverShareSize]
    omega
  simp only [StoredShare.share, storedShare, Share.stored, Option.map_some, Option.getD_some,
    take_of_length_le short]

theorem allShares_storedShare {x : ℤ} {foundCount : ℕ} {shares : List Share}
    (matching : ∀ share ∈ shares, (storedShare msgId share).Matches msgId.bytes x) :
    allShares msgId.bytes x foundCount (shares.map (storedShare msgId)) =
      shares.map Share.stored := by
  induction shares generalizing foundCount with
  | nil => rfl
  | cons share shares ih =>
    rw [forall_mem_cons] at matching
    rw [map_cons, allShares, if_pos matching.1, share_storedShare, ih matching.2, map_cons]

end File

/-! ### Shares of the dealer -/

section Dealer

variable {random : ℕ → ℕ → Fin deployed.order} {secret : Bytes} {saved : SavedCoeffs}
  {shares : List Share}

structure Genuine (secret : Bytes) (share : Share) : Prop where
  inRange : share.InRange
  dataLength : share.dataLength = secret.length
  length_y : share.y.length = 4 + share.storedSize
  short : share.y.length ≤ 36

theorem genuine_of_created
    (created : (createSecretShares deployed saved random secret).2 = some shares) :
    0 < secret.length ∧ ∀ share ∈ shares, Genuine secret share := by
  have dealt := dealt_of_created created
  have lengthBound := length_le_of_numBlocks_le dealt.few_blocks
  refine ⟨dealt.length_pos, ?_⟩
  intro share member
  rw [dealt.shares_eq, mem_dealing] at member
  rcases member with ⟨blockIdx, inside, participant, isParticipant, rfl⟩
  have few := dealt.few_blocks
  have valueBound := shareValue_lt deployed (blockCoeffs deployed random secret blockIdx)
    (participant + 1)
  have order : deployed.order ≤ 256 ^ 32 := by
    change secp256k1Order ≤ 256 ^ 32
    norm_num [secp256k1Order]
  have size := sizeBytes_le_iff.mpr (valueBound.trans_le order)
  have storedSize := (@storedSize_encodeValue
    (dealtShare deployed random secret blockIdx participant) _ rfl
    (valueBound.trans deployed.order_lt)).1
  have length : (dealtShare deployed random secret blockIdx participant).y.length =
      4 + (dealtShare deployed random secret blockIdx participant).storedSize := by
    rw [storedSize, dealtShare, encodeValue, length_append, length_writeLe, length_writeBe]
  refine ⟨?_, rfl, length, by omega⟩
  have blockBound : sizeOfBlock secret.length (numBlocks secret.length) blockIdx ≤ 30 := by
    rw [sizeOfBlock_eq (by omega) inside]
    exact Nat.min_le_left _ _
  change participant < 3 at isParticipant
  simp only [maxBlocks] at few
  constructor <;> simp only [dealtShare] <;> omega

theorem Genuine.sent_stored_iff {share : Share} (genuine : Genuine secret share) :
    share.stored.sent = share ↔ ∀ byte ∈ share.y.drop secret.length, byte = 0 := by
  have length := genuine.dataLength
  have short := genuine.short
  have cut : share.y.drop (min share.dataLength receiverShareSize) =
      share.y.drop secret.length := by
    rw [length, receiverShareSize]
    rcases Nat.le_total secret.length 17000 with below | above
    · rw [Nat.min_eq_left below]
    · rw [Nat.min_eq_right above, drop_eq_nil_of_le (by omega), drop_eq_nil_of_le (by omega)]
  rw [← cut]
  constructor
  · intro same byte member
    have value := congrArg Share.y same
    rw [← value] at member
    have kept := @takeD_length UInt8 (min share.dataLength receiverShareSize) share.y 0
    apply @eq_default_of_mem_drop UInt8 (share.y.takeD (min share.dataLength receiverShareSize) 0) 0
    rw [kept]
    exact member
  · intro zeros
    have read := takeD_takeD_of_default zeros
    have size : share.stored.storedSize = share.storedSize := congrArg readLe (read 4)
    have value : share.stored.sent.y = share.y := by
      rw [Share.sent, size]
      change (share.y.takeD _ 0).takeD _ 0 = share.y
      rw [read, ← genuine.length_y, takeD_eq_take _ le_rfl, take_length]
    have onlyValue : share.stored.sent = { share with y := share.stored.sent.y } := rfl
    rw [onlyValue, value]

end Dealer

/-! ### The round trip -/

section RoundTrip

variable {msgId : MsgId} {x : ℤ} {entries : List Entry} {last : Bytes} {secret : Bytes}

def Silent (msgId : MsgId) (x : ℤ) (text : Bytes) : Prop :=
  ∀ stored ∈ loadFile text, ¬stored.Matches msgId.bytes x

variable {text : Bytes} {entry : Entry} {maxShares : ℕ}

theorem filter_eq_nil_of_silent (silent : Silent msgId x text) :
    ((loadFile text).filter fun stored => stored.Matches msgId.bytes x) = [] := by
  rw [filter_eq_nil_iff]
  simpa [Silent] using silent

theorem countP_eq_zero_iff_silent :
    (loadFile text).countP (fun stored => stored.Matches msgId.bytes x) = 0 ↔
      Silent msgId x text := by
  rw [countP_eq_zero]
  simp [Silent]

structure Saved (msgId : MsgId) (x : ℤ) (entries : List Entry) : Prop where
  noQuote : quote ∉ msgId.bytes
  own : ∀ entry ∈ entries, entry.share.x = x
  inRange : ∀ entry ∈ entries, entry.share.InRange
  nonempty : ∀ entry ∈ entries, entry.share.dataLength ≠ 0

theorem matches_storedShare {share : Share} (own : share.x = x) (nonempty : share.dataLength ≠ 0) :
    (storedShare msgId share).Matches msgId.bytes x := by
  refine ⟨rfl, own, ?_⟩
  apply ne_nil_of_length_pos
  rw [storedShare, takeD_length, receiverShareSize]
  omega

theorem Saved.tail (saved : Saved msgId x (entry :: entries)) :
    Saved msgId x entries where
  noQuote := saved.noQuote
  own := (forall_mem_cons.mp saved.own).2
  inRange := (forall_mem_cons.mp saved.inRange).2
  nonempty := (forall_mem_cons.mp saved.nonempty).2

theorem Saved.loadFile_shareLine (saved : Saved msgId x (entry :: entries))
    (loadable : Loadable msgId) :
    loadFile (shareLine msgId entry.share entry.stamp) = [storedShare msgId entry.share] := by
  rw [Receiver.loadFile_shareLine saved.noQuote (saved.inRange entry mem_cons_self),
    if_pos ⟨loadable, saved.nonempty entry mem_cons_self⟩]

theorem Saved.matches_head (saved : Saved msgId x (entry :: entries)) :
    (storedShare msgId entry.share).Matches msgId.bytes x :=
  matches_storedShare (saved.own entry mem_cons_self) (saved.nonempty entry mem_cons_self)

theorem countP_fileText (saved : Saved msgId x entries) (loadable : Loadable msgId) :
    (loadFile (fileText msgId entries last)).countP
        (fun stored => stored.Matches msgId.bytes x) =
      entries.length + ((otherTexts entries last).map fun text =>
        (loadFile text).countP fun stored => stored.Matches msgId.bytes x).sum := by
  induction entries with
  | nil => simp [fileText, otherTexts]
  | cons entry entries ih =>
    rw [loadFile_fileText_cons, countP_append, countP_append,
      ih saved.tail, saved.loadFile_shareLine loadable,
      countP_cons_of_pos (by simpa using saved.matches_head), countP_nil]
    simp only [otherTexts, map_cons, cons_append, sum_cons, length_cons]
    omega

theorem filter_fileText (saved : Saved msgId x entries) (loadable : Loadable msgId)
    (silent : ∀ text ∈ otherTexts entries last, Silent msgId x text) :
    ((loadFile (fileText msgId entries last)).filter
        fun stored => stored.Matches msgId.bytes x) =
      (entries.map Entry.share).map (storedShare msgId) := by
  induction entries with
  | nil => exact filter_eq_nil_of_silent (silent last (by simp [otherTexts]))
  | cons entry entries ih =>
    rw [otherTexts, map_cons, cons_append, forall_mem_cons] at silent
    rw [loadFile_fileText_cons, filter_append, filter_append, filter_eq_nil_of_silent silent.1,
      ih saved.tail silent.2, saved.loadFile_shareLine loadable,
      filter_cons_of_pos (by simpa using saved.matches_head)]
    rfl

theorem loadAllSharesFromJson_some {lines : List StoredShare} :
    loadAllSharesFromJson (some lines) msgId.bytes x maxShares =
      if loadShares msgId.bytes x maxShares 0 lines = [] then none
      else some (loadShares msgId.bytes x maxShares 0 lines) := by
  rw [loadAllSharesFromJson]
  cases loadShares msgId.bytes x maxShares 0 lines <;> simp

theorem loaded_fileText_iff (saved : Saved msgId x entries) (present : entries ≠ [])
    (room : (loadFile (fileText msgId entries last)).countP
      (fun stored => stored.Matches msgId.bytes x) ≤ maxShares) :
    (loadAllSharesFromJson (some (loadFile (fileText msgId entries last))) msgId.bytes x
        maxShares).map (List.map Share.sent) = some (entries.map Entry.share) ↔
      Loadable msgId ∧ (∀ share ∈ entries.map Entry.share, share.stored.sent = share) ∧
        ∀ text ∈ otherTexts entries last, Silent msgId x text := by
  have count := @length_allShares msgId.bytes x 0 (loadFile (fileText msgId entries last))
  rw [loadAllSharesFromJson_some, loadShares_eq_take, take_of_length_le (by rwa [count])]
  by_cases loadable : Loadable msgId
  swap
  · have silent : Silent msgId x (fileText msgId entries last) := fun stored member found =>
      loadable (msgId_of_mem_loadFile member found.1)
    have nothing := filter_eq_nil_of_silent silent
    rw [← allShares_filter, nothing]
    simp [allShares, loadable]
  have total := @countP_fileText msgId x entries last saved loadable
  have positive := length_pos_iff.mpr present
  have loadedSome : allShares msgId.bytes x 0 (loadFile (fileText msgId entries last)) ≠ [] := by
    apply ne_nil_of_length_pos
    omega
  rw [if_neg loadedSome, Option.map_some, Option.some.injEq, and_iff_right loadable]
  have exactly (silent : ∀ text ∈ otherTexts entries last, Silent msgId x text) :
      (allShares msgId.bytes x 0 (loadFile (fileText msgId entries last))).map Share.sent =
        (entries.map Entry.share).map fun share => share.stored.sent := by
    have matching : ∀ share ∈ entries.map Entry.share,
        (storedShare msgId share).Matches msgId.bytes x := by
      rw [forall_mem_map]
      intro entry member
      exact matches_storedShare (saved.own entry member) (saved.nonempty entry member)
    rw [← allShares_filter, filter_fileText saved loadable silent,
      allShares_storedShare matching, map_map]
    rfl
  constructor
  · intro same
    -- A further line that matches would be a further share.
    have lengths := congrArg List.length same
    rw [length_map, length_map, count, total] at lengths
    have silent : ∀ text ∈ otherTexts entries last, Silent msgId x text := by
      intro text member
      rw [← countP_eq_zero_iff_silent]
      have none : ((otherTexts entries last).map fun text =>
          (loadFile text).countP fun stored => stored.Matches msgId.bytes x).sum = 0 := by omega
      exact sum_eq_zero_iff.mp none _ (mem_map_of_mem member)
    refine ⟨?_, silent⟩
    rw [exactly silent] at same
    simpa using same
  · rintro ⟨kept, silent⟩
    rw [exactly silent]
    simpa using kept

end RoundTrip

theorem sharesOf_ne_nil {random : ℕ → ℕ → Fin deployed.order} {secret : Bytes}
    {saved : SavedCoeffs} {shares : List Share} {participant : ℤ}
    (created : (createSecretShares deployed saved random secret).2 = some shares)
    (recipient : 1 ≤ participant ∧ participant ≤ secretShares) :
    sharesOf participant shares ≠ [] := by
  have dealt := dealt_of_created created
  have firstBlock : 0 < numBlocks secret.length := lt_numBlocks_iff.mpr (by
    have positive := dealt.length_pos
    omega)
  have last : participant ≤ 3 := recipient.2
  apply ne_nil_of_mem
  apply mem_filter.mpr
  refine ⟨dealt.shares_eq ▸ mem_dealing.mpr ⟨0, firstBlock, (participant - 1).toNat, ?_, rfl⟩, ?_⟩
  · have index : ((participant - 1).toNat : ℤ) + 1 = participant := by omega
    exact decide_eq_true index
  · change (participant - 1).toNat < 3
    omega

/-- A participant loads back the shares it saved exactly if the id can be scanned, the values do not
go on behind as many bytes as the message has, and no other text in the file is read as one of its
shares. -/
theorem share_storage_iff (saved : SavedCoeffs) (random : ℕ → ℕ → Fin deployed.order)
    (secret : Bytes) (shares : List Share)
    (created : (createSecretShares deployed saved random secret).2 = some shares)
    (participant : ℤ) (recipient : 1 ≤ participant ∧ participant ≤ secretShares) (msgId : MsgId)
    (noQuote : quote ∉ msgId.bytes) (entries : List Entry)
    (same : entries.map Entry.share = sharesOf participant shares) (last : Bytes) (maxShares : ℕ)
    (room : (loadFile (fileText msgId entries last)).countP
      (fun stored => stored.Matches msgId.bytes participant) ≤ maxShares) :
    (loadAllSharesFromJson (some (loadFile (fileText msgId entries last))) msgId.bytes participant
        maxShares).map (List.map Share.sent) = some (sharesOf participant shares) ↔
      Loadable msgId ∧
        (∀ share ∈ sharesOf participant shares, ∀ byte ∈ share.y.drop secret.length, byte = 0) ∧
        ∀ text ∈ otherTexts entries last, Silent msgId participant text := by
  rcases genuine_of_created created with ⟨positive, genuine⟩
  have own := @x_of_mem_sharesOf participant shares
  have dealt : ∀ share ∈ sharesOf participant shares, Genuine secret share := by
    intro share member
    exact genuine share (mem_of_mem_filter member)
  have nonempty : entries ≠ [] := by
    intro empty
    rw [empty] at same
    exact sharesOf_ne_nil created recipient same.symm
  rw [← same, forall_mem_map] at own dealt
  have entriesSaved : Saved msgId participant entries := by
    refine ⟨noQuote, own, fun entry member => (dealt entry member).inRange, ?_⟩
    intro entry member
    rw [(dealt entry member).dataLength]
    omega
  rw [← same, loaded_fileText_iff entriesSaved nonempty room, forall_mem_map, forall_mem_map]
  refine and_congr_right fun _ => and_congr_left fun _ => ?_
  exact forall₂_congr fun entry member => (dealt entry member).sent_stored_iff

def sampleId : MsgId where
  bytes := ascii ['a']
  noZero := by decide
  short := by decide

def sampleStamp : Stamp where
  address := ascii ['0', 'x']
  now := 0
  noZero := by decide
  oneLine := by decide
  short := by decide
  lower := by decide
  upper := by decide

def sampleEntries (shares : List Share) : List Entry :=
  shares.map fun share => ⟨[], share, sampleStamp, .inl rfl⟩

theorem share_storage_sample :
    let shares := dealing deployed (constantRandom 5) (List.replicate 40 1) 2
    (loadAllSharesFromJson (some (loadFile
      (fileText sampleId (sampleEntries (sharesOf 1 shares)) []))) sampleId.bytes 1 1000).map
        (List.map Share.sent) = some (sharesOf 1 shares) := by
  intro shares
  have created : (createSecretShares deployed neverSaved (constantRandom 5)
      (List.replicate 40 1)).2 = some shares :=
    created_of_order_le secp256k1Order_le_pow neverSaved (by decide) (by decide)
  have same : (sampleEntries (sharesOf 1 shares)).map Entry.share = sharesOf 1 shares := by
    simp [sampleEntries, Function.comp_def]
  apply (share_storage_iff neverSaved (constantRandom 5) (List.replicate 40 1) shares created 1
    (by decide) sampleId (by decide) _ same [] 1000 (by decide +kernel)).mpr
  refine ⟨by decide, by decide +kernel, ?_⟩
  intro text member
  have empty : text = [] := by
    simp only [otherTexts, sampleEntries, map_map, mem_append, mem_map, mem_singleton] at member
    rcases member with ⟨_, -, rfl⟩ | rfl <;> rfl
  rw [empty]
  intro stored found
  cases found

def longId : MsgId where
  bytes := List.replicate 124 97
  noZero member := absurd (eq_of_mem_replicate member) (by decide)
  short := by
    rw [length_replicate]
    decide

/-- Of the first share of the byte one, a byte of the length comes back. Under the long id no share
comes back. -/
theorem short_message_lost :
    (createSecretShares deployed neverSaved (constantRandom 0) [1]).2 =
        some (dealing deployed (constantRandom 0) [1] 1) ∧
      sharesOf 1 (dealing deployed (constantRandom 0) [1] 1) = [⟨1, 0, encodeValue 1, 1, 1⟩] ∧
      loadAllSharesFromJson (some (loadFile
        (fileText sampleId (sampleEntries [⟨1, 0, encodeValue 1, 1, 1⟩]) [])))
          sampleId.bytes 1 1000 = some [⟨1, 0, [1], 1, 1⟩] ∧
      loadAllSharesFromJson (some (loadFile
        (fileText longId (sampleEntries [⟨1, 0, encodeValue 1, 30, 30⟩]) [])))
          longId.bytes 1 1000 = none := by
  refine ⟨created_of_order_le secp256k1Order_le_pow neverSaved (by decide) (by decide), ?_, ?_, ?_⟩
  · decide +kernel
  · decide +kernel
  · decide +kernel

end Receiver

end TigerMixer
