import TigerMixer.Dkg.Receive

/-!
# What the receiver reads of a message

Neither `deserialize_message` nor the loops over the commitments and shares compare a length with
the number of bytes that were received. The reads stay inside exactly if the lengths in the message
frame it. Messages of the protocol are read back.
-/

namespace TigerMixer.Dkg

open Bytes List

inductive Stop where
  /-- A read outside the bytes that were received. -/
  | outside
  | unreadable
deriving DecidableEq

variable {α β G : Type}

def inside : Option α → Except Stop α
  | none => .error .outside
  | some value => .ok value

def readable : Option α → Except Stop α
  | none => .error .unreadable
  | some value => .ok value

/-! ### The parser, with the reasons for stopping -/

def checkedMessage (serialized : Bytes) : Except Stop Message := do
  let typeLength ← inside (readUnsigned serialized 0)
  let dataLength ← inside (readUnsigned serialized (4 + typeLength))
  let type ← inside (readAt serialized 4 typeLength)
  let data ← inside (readAt serialized (8 + typeLength) dataLength)
  .ok { type, data }

def checkedCommitments (platform : Platform G) (data : Bytes) :
    ℕ → ℕ → Except Stop (List G × ℕ)
  | 0, offset => .ok ([], offset)
  | count + 1, offset => do
      let length ← inside (readSize data offset)
      let offset := (offset + 8) % 2 ^ 64
      if platform.malloc ((length + 1) % 2 ^ 64) then do
        let text ← inside (readAt data offset length)
        let commitment ← readable (platform.gpReadStr (Text.cString text))
        let (commitments, offset) ←
          checkedCommitments platform data count ((offset + length) % 2 ^ 64)
        .ok (commitment :: commitments, offset)
      else .ok ([], offset)

def ownShare (data : Bytes) (offset : ℕ) (shareLength : ℤ) : Option Bytes :=
  if shareLength < 0 then none else readAt data offset shareLength.toNat

def checkedShares (participantId : ℕ) (data : Bytes) : ℕ → ℕ → Except Stop (List ℕ)
  | 0, _ => .ok []
  | count + 1, offset => do
      let receiverId ← inside (readInt data offset)
      let shareLength ← inside (readInt data ((offset + 4) % 2 ^ 64))
      let offset := (offset + 8) % 2 ^ 64
      let next := ((offset + shareLength) % 2 ^ 64).toNat
      if receiverId = participantId then do
        let share ← inside (ownShare data offset shareLength)
        let shares ← checkedShares participantId data count next
        .ok (readBe share :: shares)
      else checkedShares participantId data count next

def checkedDelivery (platform : Platform G) (participantId : ℕ) (initialized : ℕ → Bool)
    (data : Bytes) : Except Stop (Option (Delivery G)) := do
  let senderId ← inside (readInt data 0)
  let nCommitments ← inside (readInt data 4)
  let nShares ← inside (readInt data 8)
  if senderId < 1 ∨ (secretShares : ℤ) < senderId ∨ senderId = participantId then .ok none
  else if ¬initialized senderId.toNat then .ok none
  else do
    let (commitments, offset) ←
      checkedCommitments platform data (min nCommitments.toNat dkgThreshold) 12
    let shares ← checkedShares participantId data nShares.toNat offset
    .ok (some { senderId := senderId.toNat, commitments, shares })

def checkedPoll (platform : Platform G) (participantId : ℕ) (initialized : ℕ → Bool)
    (poll : Bytes) : Except Stop (Option (Delivery G)) := do
  let message ← checkedMessage (poll.take msgBufSize)
  let isDkgData ← inside (strcmpEqual (ascii "DKG_DATA".toList ++ [0]) message.type)
  if isDkgData then checkedDelivery platform participantId initialized message.data else .ok none

/-! It is the parser of the receive loop. -/

section Refinement

@[simp]
theorem toOption_inside (option : Option α) : (inside option).toOption = option := by
  cases option <;> rfl

@[simp]
theorem toOption_readable (option : Option α) : (readable option).toOption = option := by
  cases option <;> rfl

@[simp]
theorem toOption_ok (value : α) : (Except.ok value : Except Stop α).toOption = some value :=
  rfl

theorem toOption_bind (first : Except Stop α) (next : α → Except Stop β) :
    (first >>= next).toOption = first.toOption.bind fun value => (next value).toOption := by
  cases first <;> rfl

theorem toOption_ite (condition : Prop) [Decidable condition] (left right : Except Stop α) :
    (if condition then left else right).toOption =
      if condition then left.toOption else right.toOption := by
  split_ifs <;> rfl

theorem toOption_checkedCommitments (platform : Platform G) (data : Bytes) (count offset : ℕ) :
    (checkedCommitments platform data count offset).toOption =
      readCommitments platform data count offset := by
  induction count generalizing offset with
  | zero => rfl
  | succ count ih =>
    simp only [checkedCommitments, readCommitments, toOption_bind, toOption_ite, toOption_inside,
      toOption_readable, toOption_ok, ih, Option.bind_eq_bind]

theorem toOption_checkedShares (participantId : ℕ) (data : Bytes) (count offset : ℕ) :
    (checkedShares participantId data count offset).toOption =
      readShares participantId data count offset := by
  induction count generalizing offset with
  | zero => rfl
  | succ count ih =>
    simp only [checkedShares, readShares, toOption_bind, toOption_ite, toOption_inside,
      toOption_ok, ih, Option.bind_eq_bind]
    congr
    funext receiverId
    congr
    funext shareLength
    rw [ownShare]
    split_ifs <;> rfl

theorem toOption_checkedPoll (platform : Platform G) (participantId : ℕ)
    (initialized : ℕ → Bool) (poll : Bytes) :
    (checkedPoll platform participantId initialized poll).toOption =
      readPoll platform participantId initialized poll := by
  simp only [checkedPoll, readPoll, checkedMessage, deserializeMessage, checkedDelivery,
    readDelivery, toOption_bind, toOption_ite, toOption_inside, toOption_ok,
    toOption_checkedCommitments, toOption_checkedShares, Option.bind_eq_bind]

end Refinement

/-! ### Framed messages -/

def sizeAt (data : Bytes) (offset : ℕ) : ℕ :=
  readLe ((data.drop offset).take 8)

def unsignedAt (data : Bytes) (offset : ℕ) : ℕ :=
  readLe ((data.drop offset).take 4)

def intAt (data : Bytes) (offset : ℕ) : ℤ :=
  if unsignedAt data offset < 2 ^ 31 then unsignedAt data offset
  else unsignedAt data offset - 2 ^ 32

/-- Every commitment that is read ends inside the data. The loop ends early if memory is short or
PARI refuses a text. -/
def CommitmentsFramed (platform : Platform G) (data : Bytes) : ℕ → ℕ → Prop
  | 0, _ => True
  | count + 1, offset =>
    offset + 8 ≤ data.length ∧
      (platform.malloc ((sizeAt data offset + 1) % 2 ^ 64) →
        offset + 8 + sizeAt data offset ≤ data.length ∧
          ((platform.gpReadStr
              (Text.cString ((data.drop (offset + 8)).take (sizeAt data offset)))).isSome →
            CommitmentsFramed platform data count (offset + 8 + sizeAt data offset)))

def SharesFramed (participantId : ℕ) (data : Bytes) : ℕ → ℕ → Prop
  | 0, _ => True
  | count + 1, offset =>
    offset + 8 ≤ data.length ∧
      (intAt data offset = participantId →
        0 ≤ intAt data (offset + 4) ∧ offset + 8 + intAt data (offset + 4) ≤ data.length) ∧
      SharesFramed participantId data count
        ((offset + 8 + intAt data (offset + 4)) % 2 ^ 64).toNat

structure DataFramed (platform : Platform G) (participantId : ℕ) (initialized : ℕ → Bool)
    (data : Bytes) : Prop where
  header : 12 ≤ data.length
  commitments : ¬(intAt data 0 < 1 ∨ (secretShares : ℤ) < intAt data 0 ∨
      intAt data 0 = participantId) → initialized (intAt data 0).toNat →
    CommitmentsFramed platform data (min (intAt data 4).toNat dkgThreshold) 12
  shares : ¬(intAt data 0 < 1 ∨ (secretShares : ℤ) < intAt data 0 ∨
      intAt data 0 = participantId) → initialized (intAt data 0).toNat →
    ∀ commitments offset,
      readCommitments platform data (min (intAt data 4).toNat dkgThreshold) 12 =
        some (commitments, offset) →
      SharesFramed participantId data (intAt data 8).toNat offset

/-- The type and the data of a message end inside the received bytes, the type is told apart from
`DKG_DATA` inside itself, and the data is framed. -/
structure Framed (platform : Platform G) (participantId : ℕ) (initialized : ℕ → Bool)
    (received : Bytes) : Prop where
  lengths : 8 + unsignedAt received 0 ≤ received.length
  data_le : 8 + unsignedAt received 0 + unsignedAt received (4 + unsignedAt received 0) ≤
    received.length
  type : (strcmpEqual (ascii "DKG_DATA".toList ++ [0])
    ((received.drop 4).take (unsignedAt received 0))).isSome
  data : strcmpEqual (ascii "DKG_DATA".toList ++ [0])
      ((received.drop 4).take (unsignedAt received 0)) = some true →
    DataFramed platform participantId initialized ((received.drop (8 + unsignedAt received 0)).take
      (unsignedAt received (4 + unsignedAt received 0)))

/-! ### Reads stay inside framed messages -/

section Exact

def Safe (result : Except Stop α) : Prop :=
  result ≠ .error .outside

@[simp]
theorem safe_ok (value : α) : Safe (.ok value : Except Stop α) := by
  simp [Safe]

variable {next : α → Except Stop β} {option : Option α} {value : Bytes} {platform : Platform G}
  {participantId : ℕ} {initialized : ℕ → Bool}

theorem safe_ok_bind {value : α} :
    Safe (.ok value >>= next) ↔ Safe (next value) :=
  Iff.rfl

theorem safe_inside_bind :
    Safe (inside option >>= next) ↔ ∃ value, option = some value ∧ Safe (next value) := by
  cases option with
  | none =>
    simp only [reduceCtorEq, false_and, exists_false, iff_false, Safe, not_not]
    rfl
  | some value =>
    simp only [Option.some.injEq, exists_eq_left']
    rfl

theorem safe_readable_bind :
    Safe (readable option >>= next) ↔ ∀ value, option = some value → Safe (next value) := by
  cases option with
  | none =>
    simp only [reduceCtorEq, false_imp_iff, implies_true, iff_true]
    exact nofun
  | some value =>
    simp only [Option.some.injEq, forall_eq']
    rfl

theorem safe_bind {first : Except Stop α} :
    Safe (first >>= next) ↔
      Safe first ∧ ∀ value, first.toOption = some value → Safe (next value) := by
  cases first with
  | error stop =>
    cases stop with
    | outside =>
      simp only [Safe, ne_eq, not_true_eq_false, false_and, iff_false, not_not]
      rfl
    | unreadable =>
      refine iff_of_true nofun ⟨nofun, nofun⟩
  | ok value =>
    simp only [safe_ok, true_and, toOption_ok, Option.some.injEq, forall_eq']
    rfl

variable {data : Bytes} {offset length : ℕ}

theorem readAt_eq_some_iff :
    readAt data offset length = some value ↔
      offset + length ≤ data.length ∧ value = (data.drop offset).take length := by
  rw [readAt]
  split_ifs with bound
  · simp [bound, eq_comm]
  · simp [bound]

theorem readSize_eq_some_iff {value : ℕ} :
    readSize data offset = some value ↔ offset + 8 ≤ data.length ∧ value = sizeAt data offset := by
  rw [readSize, readAt]
  split_ifs with bound
  · simp [bound, sizeAt, eq_comm]
  · simp [bound]

theorem readUnsigned_eq_some_iff {value : ℕ} :
    readUnsigned data offset = some value ↔
      offset + 4 ≤ data.length ∧ value = unsignedAt data offset := by
  rw [readUnsigned, readAt]
  split_ifs with bound
  · simp [bound, unsignedAt, eq_comm]
  · simp [bound]

theorem readInt_eq_map : readInt data offset =
    (readUnsigned data offset).map fun _ => intAt data offset := by
  rw [readInt, readUnsigned, readAt]
  split_ifs with bound
  · have folded : readLe ((data.drop offset).take 4) = unsignedAt data offset := rfl
    simp only [Option.map_some, Option.bind_eq_bind, Option.bind_some, Option.pure_def,
      Option.some.injEq, intAt, folded]
    by_cases positive : unsignedAt data offset < 2 ^ 31
    · rw [if_pos positive, if_pos (by exact_mod_cast positive)]
    · rw [if_neg positive, if_neg (by exact_mod_cast positive)]
  · rfl

theorem readInt_eq_some_iff {value : ℤ} :
    readInt data offset = some value ↔ offset + 4 ≤ data.length ∧ value = intAt data offset := by
  rw [readInt_eq_map, Option.map_eq_some_iff]
  simp only [readUnsigned_eq_some_iff, and_assoc, exists_and_left, exists_eq_left]
  exact and_congr_right fun _ => eq_comm

theorem safe_checkedCommitments_iff {count : ℕ} (small : data.length < 2 ^ 64) :
    Safe (checkedCommitments platform data count offset) ↔
      CommitmentsFramed platform data count offset := by
  induction count generalizing offset with
  | zero => simp [checkedCommitments, CommitmentsFramed]
  | succ count ih =>
    simp only [checkedCommitments, CommitmentsFramed, safe_inside_bind, readSize_eq_some_iff,
      and_assoc, exists_and_left, exists_eq_left]
    apply and_congr_right
    intro bound
    rw [Nat.mod_eq_of_lt (show offset + 8 < 2 ^ 64 by omega)]
    split_ifs with allocated
    · simp only [allocated, true_imp_iff, safe_inside_bind, readAt_eq_some_iff, and_assoc,
        exists_and_left, exists_eq_left, safe_readable_bind]
      apply and_congr_right
      intro textBound
      rw [Nat.mod_eq_of_lt (show offset + 8 + sizeAt data offset < 2 ^ 64 by omega)]
      rw [← ih, Option.isSome_iff_exists, forall_exists_index]
      apply forall₂_congr
      intro commitment _
      rw [safe_bind]
      exact and_iff_left fun _ _ => safe_ok _
    · exact iff_of_true (safe_ok _) fun enough => absurd enough allocated

theorem ownShare_eq_some_iff {shareLength : ℤ} :
    ownShare data offset shareLength = some value ↔
      (0 ≤ shareLength ∧ offset + shareLength ≤ data.length) ∧
        value = (data.drop offset).take shareLength.toNat := by
  rw [ownShare]
  split_ifs with negative
  · simp [not_le.mpr negative]
  · rw [readAt_eq_some_iff]
    apply and_congr_left'
    omega

theorem safe_checkedShares_iff {participantId count : ℕ} (small : data.length < 2 ^ 64) :
    Safe (checkedShares participantId data count offset) ↔
      SharesFramed participantId data count offset := by
  induction count generalizing offset with
  | zero => simp [checkedShares, SharesFramed]
  | succ count ih =>
    simp only [checkedShares, SharesFramed, safe_inside_bind, readInt_eq_some_iff, and_assoc,
      exists_and_left, exists_eq_left]
    have shift : (((offset + 8 : ℕ) : ℤ) + intAt data (offset + 4)) =
        offset + 8 + intAt data (offset + 4) := by
      push_cast
      rfl
    by_cases bound : offset + 8 ≤ data.length
    · rw [Nat.mod_eq_of_lt (show offset + 4 < 2 ^ 64 by omega),
        Nat.mod_eq_of_lt (show offset + 8 < 2 ^ 64 by omega), shift]
      have first : offset + 4 ≤ data.length := by omega
      have second : offset + 4 + 4 ≤ data.length := bound
      simp only [first, second, true_and]
      by_cases mine : intAt data offset = participantId
      · rw [if_pos mine, safe_inside_bind, forall_prop_of_true mine]
        simp only [ownShare_eq_some_iff, Nat.cast_add, Nat.cast_ofNat, and_assoc,
          exists_and_left, exists_eq_left]
        apply and_congr_right
        intro _
        apply and_congr_right
        intro _
        rw [safe_bind, ih]
        exact and_iff_left fun _ _ => safe_ok _
      · simp only [mine, if_false, false_imp_iff, true_and, ih]
    · refine iff_of_false ?_ fun framed => bound framed.1
      rintro ⟨first, second, -⟩
      rw [Nat.mod_eq_of_lt (show offset + 4 < 2 ^ 64 by omega)] at second
      exact bound second

theorem safe_checkedDelivery_iff (small : data.length < 2 ^ 64) :
    Safe (checkedDelivery platform participantId initialized data) ↔
      DataFramed platform participantId initialized data := by
  simp only [checkedDelivery, safe_inside_bind, readInt_eq_some_iff, and_assoc, exists_and_left,
    exists_eq_left]
  constructor
  · rintro ⟨-, -, bound, safe⟩
    by_cases refused : intAt data 0 < 1 ∨ (secretShares : ℤ) < intAt data 0 ∨
        intAt data 0 = participantId
    · exact ⟨bound, fun accepted => absurd refused accepted,
        fun accepted => absurd refused accepted⟩
    by_cases known : initialized (intAt data 0).toNat = true
    · rw [if_neg refused, if_neg (not_not.mpr known), safe_bind,
        safe_checkedCommitments_iff small, toOption_checkedCommitments] at safe
      refine ⟨bound, fun _ _ => safe.1, ?_⟩
      intro _ _ commitments offset read
      have next := safe.2 (commitments, offset) read
      rw [safe_bind] at next
      exact (safe_checkedShares_iff small).mp next.1
    · exact ⟨bound, fun _ isKnown => absurd isKnown known, fun _ isKnown => absurd isKnown known⟩
  · rintro ⟨bound, commitmentsFramed, sharesFramed⟩
    refine ⟨by omega, by omega, bound, ?_⟩
    split_ifs with refused known
    · exact safe_ok _
    · rw [safe_bind, safe_checkedCommitments_iff small, toOption_checkedCommitments]
      refine ⟨commitmentsFramed refused known, ?_⟩
      rintro ⟨commitments, offset⟩ read
      rw [safe_bind]
      exact ⟨(safe_checkedShares_iff small).mpr
        (sharesFramed refused known commitments offset read), fun _ _ => safe_ok _⟩
    · exact safe_ok _

theorem safe_checkedPoll_iff (poll : Bytes) :
    Safe (checkedPoll platform participantId initialized poll) ↔
      Framed platform participantId initialized (poll.take msgBufSize) := by
  have short : (poll.take msgBufSize).length ≤ 65536 := length_take_le _ _
  rw [checkedPoll]
  generalize poll.take msgBufSize = received at short ⊢
  have small (offset length : ℕ) : ((received.drop offset).take length).length < 2 ^ 64 := by
    simp only [length_take, length_drop]
    omega
  simp only [checkedMessage, bind_assoc, safe_inside_bind, safe_ok_bind, readUnsigned_eq_some_iff,
    readAt_eq_some_iff, and_assoc, exists_and_left, exists_eq_left]
  constructor
  · rintro ⟨-, lengths, -, dataBound, isDkgData, compared, safe⟩
    refine ⟨by omega, dataBound, Option.isSome_iff_exists.mpr ⟨_, compared⟩, ?_⟩
    intro isData
    obtain rfl : isDkgData = true := Option.some.inj (compared.symm.trans isData)
    exact (safe_checkedDelivery_iff (small _ _)).mp safe
  · rintro ⟨lengths, dataBound, type, framed⟩
    rcases Option.isSome_iff_exists.mp type with ⟨isDkgData, compared⟩
    refine ⟨by omega, by omega, by omega, dataBound, isDkgData, compared, ?_⟩
    split_ifs with isData
    · subst isData
      exact (safe_checkedDelivery_iff (small _ _)).mpr (framed compared)
    · exact safe_ok _

def checkedReceive (platform : Platform G) (participantId : ℕ) (initialized : ℕ → Bool)
    (poll : Bytes) : Except Stop (Option (Delivery G)) :=
  if poll = [] then .ok none else checkedPoll platform participantId initialized poll

/-- No byte outside a message is read exactly if there is none or its lengths frame it. -/
theorem readsInside_iff (platform : Platform G) (participantId : ℕ) (initialized : ℕ → Bool)
    (poll : Bytes) :
    checkedReceive platform participantId initialized poll ≠ .error .outside ↔
      poll = [] ∨ Framed platform participantId initialized (poll.take msgBufSize) := by
  by_cases empty : poll = []
  · simp [checkedReceive, empty]
  · rw [checkedReceive, if_neg empty, or_iff_right empty]
    exact safe_checkedPoll_iff poll

end Exact

/-! ### The messages of the protocol -/

section Packed

def packCommitment (text : Bytes) : Bytes :=
  writeLe 8 text.length ++ text

def packDealtShare (share : ℕ × Bytes) : Bytes :=
  writeLe 4 share.1 ++ (writeLe 4 share.2.length ++ share.2)

def packDkgData (senderId : ℕ) (texts : List Bytes) (shares : List (ℕ × Bytes)) : Bytes :=
  writeLe 4 senderId ++ (writeLe 4 texts.length ++ (writeLe 4 shares.length ++
    (texts.flatMap packCommitment ++ shares.flatMap packDealtShare)))

def serializeMessage (message : Message) : Bytes :=
  writeLe 4 message.type.length ++ (message.type ++ (writeLe 4 message.data.length ++ message.data))

def dkgMessage (senderId : ℕ) (texts : List Bytes) (shares : List (ℕ × Bytes)) : Bytes :=
  serializeMessage
    { type := ascii "DKG_DATA".toList ++ [0], data := packDkgData senderId texts shares }

section At

/-- From this offset on, the data are these bytes. -/
def EndsAt (data : Bytes) (offset : ℕ) (rest : Bytes) : Prop :=
  ∃ front, data = front ++ rest ∧ front.length = offset

variable {data field rest : Bytes} {offset value : ℕ}

theorem EndsAt.length (ends : EndsAt data offset rest) : data.length = offset + rest.length := by
  rcases ends with ⟨front, rfl, rfl⟩
  exact length_append

theorem EndsAt.skip (ends : EndsAt data offset (field ++ rest)) {length : ℕ}
    (size : field.length = length) : EndsAt data (offset + length) rest := by
  rcases ends with ⟨front, packed, rfl⟩
  exact ⟨front ++ field, by rw [packed, append_assoc], by rw [length_append, size]⟩

theorem EndsAt.readAt (ends : EndsAt data offset rest) (first : field <+: rest) :
    readAt data offset field.length = some field := by
  rcases ends with ⟨front, rfl, rfl⟩
  rcases first with ⟨behind, rfl⟩
  rw [Dkg.readAt, if_pos (by simp), drop_left, take_left]

theorem EndsAt.readUnsigned (ends : EndsAt data offset (writeLe 4 value ++ rest))
    (small : value < 2 ^ 32) : readUnsigned data offset = some value := by
  have read := ends.readAt (prefix_append ..)
  rw [length_writeLe] at read
  rw [Dkg.readUnsigned, read, Option.map_some, readLe_writeLe_of_lt small]

theorem EndsAt.readInt (ends : EndsAt data offset (writeLe 4 value ++ rest))
    (small : value < 2 ^ 31) : readInt data offset = some (value : ℤ) := by
  rw [Dkg.readInt, ends.readUnsigned (by omega)]
  simpa using small

theorem EndsAt.readSize (ends : EndsAt data offset (writeLe 8 value ++ rest))
    (small : value < 2 ^ 64) : readSize data offset = some value := by
  have read := ends.readAt (prefix_append ..)
  rw [length_writeLe] at read
  rw [Dkg.readSize, read, Option.map_some, readLe_writeLe_of_lt small]

end At

theorem length_serializeMessage (message : Message) :
    (serializeMessage message).length = 8 + message.type.length + message.data.length := by
  simp only [serializeMessage, length_append, length_writeLe]
  omega

theorem deserializeMessage_take {message : Message}
    (fits : (serializeMessage message).length ≤ msgBufSize) :
    deserializeMessage ((serializeMessage message).take msgBufSize) = some message := by
  have size : msgBufSize = 65536 := rfl
  rw [take_of_length_le fits]
  rw [length_serializeMessage] at fits
  generalize packed : serializeMessage message = serialized
  rw [serializeMessage] at packed
  have typeLength : EndsAt serialized 0 _ := ⟨[], packed.symm, rfl⟩
  have typeText : EndsAt _ 4 _ := typeLength.skip (length_writeLe 4 _)
  have dataLength := typeText.skip rfl
  have dataText := dataLength.skip (length_writeLe ..)
  rw [Nat.add_right_comm] at dataText
  simp only [deserializeMessage, typeLength.readUnsigned (by omega),
    typeText.readAt (prefix_append ..), dataLength.readUnsigned (by omega),
    dataText.readAt prefix_rfl, Option.bind_eq_bind, Option.bind_some]

variable {platform : Platform G} {participantId : ℕ}

variable {data rest : Bytes} {offset senderId : ℕ} {shares : List (ℕ × Bytes)}
  {toStr : G → Bytes} {values : List G}

theorem readCommitments_pack (memory : ∀ size, platform.malloc size = true)
    (readable : ∀ value, platform.gpReadStr (Text.cString (toStr value)) = some value)
    (small : data.length < 2 ^ 64) (values : List G)
    (ends : EndsAt data offset ((values.map toStr).flatMap packCommitment ++ rest)) :
    ∃ behind, readCommitments platform data values.length offset = some (values, behind) ∧
      EndsAt data behind rest := by
  induction values generalizing offset with
  | nil => exact ⟨offset, rfl, ends⟩
  | cons value values ih =>
    rw [map_cons, flatMap_cons, packCommitment, append_assoc, append_assoc] at ends
    have text := ends.skip (length_writeLe ..)
    have next := text.skip rfl
    have total := next.length
    rcases ih next with ⟨behind, read, last⟩
    refine ⟨behind, ?_, last⟩
    rw [length_cons, readCommitments, ends.readSize (by omega), Option.bind_eq_bind,
      Option.bind_some, if_pos (memory _), Nat.mod_eq_of_lt (by omega),
      text.readAt (prefix_append ..), Option.bind_eq_bind, Option.bind_some, readable,
      Option.bind_eq_bind, Option.bind_some, Nat.mod_eq_of_lt (by omega), read]
    rfl

theorem readShares_pack (small : data.length < 2 ^ 31) (shares : List (ℕ × Bytes))
    (receivers : ∀ share ∈ shares, share.1 < 2 ^ 31)
    (ends : EndsAt data offset (shares.flatMap packDealtShare)) :
    readShares participantId data shares.length offset =
      some ((shares.filter fun share => share.1 = participantId).map fun share =>
        readBe share.2) := by
  induction shares generalizing offset with
  | nil => rfl
  | cons share shares ih =>
    rw [forall_mem_cons] at receivers
    rw [flatMap_cons, packDealtShare, append_assoc, append_assoc] at ends
    have length := ends.skip (length_writeLe ..)
    have bytes := length.skip (length_writeLe ..)
    have next := bytes.skip rfl
    have total := next.length
    have behind : (((offset + 8 : ℕ) + (share.2.length : ℤ)) % 2 ^ 64).toNat =
        offset + 4 + 4 + share.2.length := by
      rw [Int.emod_eq_of_lt (by omega) (by omega)]
      omega
    rw [length_cons, readShares, ends.readInt receivers.1, Option.bind_eq_bind, Option.bind_some,
      Nat.mod_eq_of_lt (by omega), length.readInt (by omega), Option.bind_eq_bind,
      Option.bind_some, Nat.mod_eq_of_lt (by omega)]
    dsimp only
    rw [behind, ih receivers.2 next]
    by_cases mine : share.1 = participantId
    · rw [if_pos (by exact_mod_cast mine), if_neg (by omega), Int.toNat_natCast,
        bytes.readAt (prefix_append ..)]
      simp [mine]
    · rw [if_neg (by exact_mod_cast mine)]
      simp [mine]

theorem length_le_length_pack (shares : List (ℕ × Bytes)) :
    shares.length ≤ (shares.flatMap packDealtShare).length := by
  induction shares with
  | nil => exact le_rfl
  | cons share shares ih =>
    simp only [flatMap_cons, length_append, length_cons, packDealtShare, length_writeLe]
    omega

section Delivered

variable {initialized : ℕ → Bool} (memory : ∀ size, platform.malloc size = true)
  (readable : ∀ value, platform.gpReadStr (Text.cString (toStr value)) = some value)
  (few : values.length ≤ dkgThreshold) (sender : 1 ≤ senderId ∧ senderId ≤ secretShares)
  (other : senderId ≠ participantId) (known : initialized senderId = true)
  (receivers : ∀ share ∈ shares, share.1 < 2 ^ 31)

include memory readable few sender other known receivers

theorem readDelivery_packDkgData (small : data.length < 2 ^ 31)
    (packed : data = packDkgData senderId (values.map toStr) shares) :
    readDelivery platform participantId initialized data =
      some (some ⟨senderId, values, (shares.filter fun share => share.1 = participantId).map
        fun share => readBe share.2⟩) := by
  have three : secretShares = 3 := rfl
  have two : dkgThreshold = 2 := rfl
  have enough := length_le_length_pack shares
  rw [packDkgData, length_map] at packed
  have first : EndsAt data 0 _ := ⟨[], packed, rfl⟩
  have second : EndsAt data 4 _ := first.skip (length_writeLe 4 _)
  have third : EndsAt data 8 _ := second.skip (length_writeLe 4 _)
  rcases readCommitments_pack memory readable (by omega) values
    (third.skip (length_writeLe ..)) with ⟨behind, commitments, last⟩
  have total := last.length
  simp only [readDelivery, first.readInt (by omega), second.readInt (by omega),
    third.readInt (by omega), Option.bind_eq_bind, Option.bind_some]
  rw [if_neg (by omega), if_neg (by simp [known]), Int.toNat_natCast, Int.toNat_natCast,
    Nat.min_eq_left few, commitments]
  simp only [Option.bind_some, readShares_pack small shares receivers last, Int.toNat_natCast]

/-- What another initialised participant finds in a message of the protocol. -/
theorem readPoll_dkgMessage
    (fits : (dkgMessage senderId (values.map toStr) shares).length ≤ msgBufSize) :
    readPoll platform participantId initialized (dkgMessage senderId (values.map toStr) shares) =
      some (some ⟨senderId, values, (shares.filter fun share => share.1 = participantId).map
        fun share => readBe share.2⟩) := by
  have size : msgBufSize = 65536 := rfl
  have same : strcmpEqual (ascii "DKG_DATA".toList ++ [0]) (ascii "DKG_DATA".toList ++ [0]) =
      some true := by
    decide
  rw [dkgMessage] at fits ⊢
  rw [readPoll, deserializeMessage_take fits, Option.bind_eq_bind, Option.bind_some]
  rw [length_serializeMessage] at fits
  dsimp only at fits ⊢
  rw [same, Option.bind_eq_bind, Option.bind_some, if_pos rfl]
  exact readDelivery_packDkgData memory readable few sender other known receivers (by omega) rfl

end Delivered

end Packed

deriving instance DecidableEq for Delivery

def permissivePlatform : Platform Unit where
  malloc _ := true
  gpReadStr _ := some ()

/-- Of a message of one byte, four are read. The stated length of the text of a commitment is used
unchecked. -/
theorem short_messages_read_outside :
    checkedReceive permissivePlatform 1 (fun _ => true) [0] = .error .outside ∧
      checkedReceive permissivePlatform 1 (fun _ => true) (serializeMessage
        { type := ascii "DKG_DATA".toList ++ [0]
          data := writeLe 4 2 ++ writeLe 4 1 ++ writeLe 4 0 ++ writeLe 8 100 }) =
        .error .outside := by
  constructor <;> decide +kernel

end TigerMixer.Dkg
