import TigerMixer.Receiver.Storage

/-!
# What remains of a message that is refused

The receiver saves every block of a share message as soon as it is parsed. A message that is refused
leaves the blocks that were saved in the file. To whom loads shares, the file is a log of what was
saved under each id.
-/

namespace TigerMixer.Receiver

open Bytes Text SecretShare Auditor List

/-! ### Saving to the file -/

/-- Which calls of `save_share_to_json_with_address` succeed, and what their lines say besides the
share. -/
structure Disk where
  saves : ℕ → Bool
  stamps : ℕ → Stamp

structure Store where
  file : Bytes
  calls : ℕ

def saveShare (disk : Disk) (msgId : MsgId) (store : Store) (share : Share) : Store × Bool :=
  if disk.saves store.calls then
    (⟨store.file ++ shareLine msgId share (disk.stamps store.calls), store.calls + 1⟩, true)
  else (⟨store.file, store.calls + 1⟩, false)

def msgIdOf (type : Bytes) : MsgId where
  bytes := (cString type).take 127
  noZero member := zero_notMem_cString type (mem_of_mem_take member)
  short := Nat.lt_succ_of_le (length_take_le _ _)

def receiveMessage (disk : Disk) (type data file : Bytes) : Bytes × Bytes :=
  let received := receiveShares (saveShare disk (msgIdOf type)) data ⟨file, 0⟩
  (received.1.file, received.2)

def messageBlocks (data : Bytes) : List Share × Bool :=
  if data.length < 12 then ([], false)
  else findBlocks data (readInt (slice data 0 4)) (readLe (slice data 4 8)) 12

def savedShares (disk : Disk) : ℕ → List Share → List (Share × Stamp)
  | _, [] => []
  | call, share :: shares =>
    if disk.saves call then (share, disk.stamps call) :: savedShares disk (call + 1) shares
    else savedShares disk (call + 1) shares

def savedText (msgId : MsgId) (saved : List (Share × Stamp)) : Bytes :=
  saved.flatMap fun entry => shareLine msgId entry.1 entry.2

section Save

variable {disk : Disk} {msgId : MsgId} {shares : List Share} {type data file : Bytes}

theorem saveAll_saveShare (store : Store) :
    (saveAll (saveShare disk msgId) shares store).1.file =
        store.file ++ savedText msgId (savedShares disk store.calls shares) ∧
      ((saveAll (saveShare disk msgId) shares store).2 →
        (savedShares disk store.calls shares).map Prod.fst = shares) := by
  induction shares generalizing store with
  | nil => simp [saveAll, savedShares, savedText]
  | cons share shares ih =>
    rcases ih (saveShare disk msgId store share).1 with ⟨file, all⟩
    rw [saveAll, savedShares]
    cases saves : disk.saves store.calls with
    | true =>
      simp only [saveShare, saves, if_true] at file all ⊢
      refine ⟨?_, fun allSaved => ?_⟩
      · rw [file, savedText, savedText, flatMap_cons, append_assoc]
      · rw [map_cons, all (by simpa using allSaved)]
    | false =>
      simp only [saveShare, saves, Bool.false_eq_true, if_false] at file all ⊢
      exact ⟨file, fun allSaved => by simp at allSaved⟩

theorem receiveMessage_file :
    (receiveMessage disk type data file).1 =
      file ++ savedText (msgIdOf type) (savedShares disk 0 (messageBlocks data).1) := by
  rw [receiveMessage, messageBlocks]
  split_ifs with short
  · rw [receiveShares, if_pos short]
    simp [savedShares, savedText]
  · rw [receiveShares_eq _ (not_lt.mp short)]
    exact (saveAll_saveShare _).1

theorem map_savedShares_of_ack (acknowledged : (receiveMessage disk type data file).2 = ack) :
    (savedShares disk 0 (messageBlocks data).1).map Prod.fst = (messageBlocks data).1 := by
  rw [receiveMessage] at acknowledged
  rw [messageBlocks]
  split_ifs with short
  · rfl
  · rw [receiveShares_eq _ (not_lt.mp short)] at acknowledged
    simp only [deliver] at acknowledged
    apply (@saveAll_saveShare disk (msgIdOf type) _ ⟨file, 0⟩).2
    by_contra failed
    simp only [if_neg failed, ite_self] at acknowledged
    exact absurd acknowledged (by decide)

theorem fst_mem_of_mem_savedShares {call : ℕ} {entry : Share × Stamp}
    (member : entry ∈ savedShares disk call shares) : entry.1 ∈ shares := by
  induction shares generalizing call with
  | nil => simp [savedShares] at member
  | cons share shares ih =>
    rw [savedShares] at member
    split_ifs at member
    · rcases mem_cons.mp member with rfl | later
      · exact mem_cons_self
      · exact mem_cons_of_mem _ (ih later)
    · exact mem_cons_of_mem _ (ih member)

end Save

/-! ### The shares that are loaded -/

def loaded (msgId : Bytes) (x : ℤ) (maxShares : ℕ) (file : Bytes) : List Share :=
  (loadAllSharesFromJson (some (loadFile file)) msgId x maxShares).getD []

def SameShares (before after : Bytes) : Prop :=
  ∀ msgId x maxShares share,
    share ∈ loaded msgId x maxShares before ↔ share ∈ loaded msgId x maxShares after

def sharesIn (msgId : Bytes) (x : ℤ) (file : Bytes) : List Share :=
  allShares msgId x 0 (loadFile file)

def Known (file text : Bytes) : Prop :=
  ∀ msgId x, ∀ share ∈ allShares msgId x (sharesIn msgId x file).length (loadFile text),
    share ∈ sharesIn msgId x file

section Loaded

variable {msgId : Bytes} {x : ℤ} {maxShares : ℕ} {file text : Bytes}

theorem loaded_eq : loaded msgId x maxShares file = (sharesIn msgId x file).take maxShares := by
  have bounded : loadShares msgId x maxShares 0 (loadFile file) =
      (sharesIn msgId x file).take maxShares := loadShares_eq_take
  rw [loaded, loadAllSharesFromJson, ← bounded]
  cases loadShares msgId x maxShares 0 (loadFile file) <;> rfl

theorem sharesIn_append (complete : CompleteLines file) :
    sharesIn msgId x (file ++ text) =
      sharesIn msgId x file ++
        allShares msgId x (sharesIn msgId x file).length (loadFile text) := by
  rw [sharesIn, loadFile_append complete, allShares_append, Nat.zero_add]
  rfl

theorem sameShares_append_iff (complete : CompleteLines file) :
    SameShares file (file ++ text) ↔ Known file text := by
  constructor
  · intro same msgId x share shown
    have total :
        share ∈ loaded msgId x (sharesIn msgId x (file ++ text)).length (file ++ text) := by
      rw [loaded_eq, take_length, sharesIn_append complete]
      exact mem_append_right _ shown
    rw [← same, loaded_eq] at total
    exact mem_of_mem_take total
  · intro known msgId x maxShares share
    rw [loaded_eq, loaded_eq, sharesIn_append complete, take_append, mem_append]
    refine ⟨.inl, ?_⟩
    rintro (before | shown)
    · exact before
    · -- There is room behind the shares in the file, so all of them are loaded.
      have room : (sharesIn msgId x file).length ≤ maxShares := by
        by_contra full
        rw [Nat.sub_eq_zero_of_le (by omega), take_zero] at shown
        cases shown
      rw [take_of_length_le room]
      exact known msgId x share (mem_of_mem_take shown)

end Loaded

/-! ### Ids without a double quote -/

section Plain

variable {disk : Disk} {msgId : MsgId} {saved : List (Share × Stamp)} {file text between : Bytes}

theorem completeLines_savedText : CompleteLines (savedText msgId saved) := by
  induction saved with
  | nil => exact .inl rfl
  | cons entry saved ih =>
    rw [savedText, flatMap_cons]
    exact completeLines_shareLine.append ih

theorem loadFile_savedText (noQuote : quote ∉ msgId.bytes)
    (inRange : ∀ entry ∈ saved, entry.1.InRange) :
    loadFile (savedText msgId saved) =
      if Loadable msgId then
        ((saved.map Prod.fst).filter fun share => share.dataLength ≠ 0).map (storedShare msgId)
      else [] := by
  induction saved with
  | nil => simp [savedText, loadFile, readLines, readLinesFrom]
  | cons entry saved ih =>
    rw [forall_mem_cons] at inRange
    rw [savedText, flatMap_cons, loadFile_append completeLines_shareLine,
      loadFile_shareLine noQuote inRange.1]
    change _ ++ loadFile (savedText msgId saved) = _
    rw [ih inRange.2]
    by_cases loadable : Loadable msgId
    · by_cases empty : entry.1.dataLength = 0 <;> simp [loadable, empty]
    · simp [loadable]

theorem mem_allShares_storedShare {shares : List Share} {share : Share} {id : Bytes} {x : ℤ}
    {foundCount : ℕ} :
    share ∈ allShares id x foundCount (shares.map (storedShare msgId)) ↔
      ∃ own ∈ shares, (storedShare msgId own).Matches id x ∧ own.stored = share := by
  induction shares generalizing foundCount with
  | nil => simp [allShares]
  | cons own shares ih =>
    rw [map_cons, allShares]
    split_ifs with found
    · simp [ih, found, share_storedShare, eq_comm]
    · simp [ih, found]

theorem known_savedText_iff (noQuote : quote ∉ msgId.bytes)
    (inRange : ∀ entry ∈ saved, entry.1.InRange) :
    Known file (savedText msgId saved) ↔
      (Loadable msgId → ∀ entry ∈ saved, entry.1.dataLength ≠ 0 →
        entry.1.stored ∈ sharesIn msgId.bytes entry.1.x file) := by
  rw [Known, loadFile_savedText noQuote inRange]
  split_ifs with loadable
  · simp only [mem_allShares_storedShare, loadable, forall_const]
    constructor
    · intro known entry member nonempty
      apply known msgId.bytes entry.1.x
      refine ⟨entry.1, ?_, matches_storedShare rfl nonempty, rfl⟩
      rw [mem_filter]
      exact ⟨mem_map_of_mem member, by simpa using nonempty⟩
    · rintro known id x share ⟨own, member, ⟨rfl, rfl, -⟩, rfl⟩
      rw [mem_filter, mem_map] at member
      rcases member with ⟨⟨entry, inSaved, rfl⟩, nonempty⟩
      exact known entry inSaved (by simpa using nonempty)
  · simp [allShares, loadable]

end Plain

/-! ### Reception -/

section Reception

variable {type data file between : Bytes} {disk again : Disk}

theorem inRange_findBlocks {participantId : ℤ} (lower : -2 ^ 31 ≤ participantId)
    (upper : participantId < 2 ^ 31) (remaining offset : ℕ) :
    ∀ share ∈ (findBlocks data participantId remaining offset).1, share.InRange := by
  induction remaining generalizing offset with
  | zero => simp [findBlocks]
  | succ remaining ih =>
    have size (start : ℕ) : readLe (slice data start 8) < 2 ^ 64 :=
      readLe_lt_of_length (length_take_le _ _)
    simp only [findBlocks]
    split_ifs
    · simp
    · simp
    · simp
    · rw [forall_mem_cons]
      exact ⟨⟨lower, upper, size _, size _, size _⟩, ih _⟩

theorem inRange_messageBlocks : ∀ share ∈ (messageBlocks data).1, share.InRange := by
  rw [messageBlocks]
  split_ifs
  · simp
  · have bound : readLe (slice data 0 4) < 2 ^ 32 := readLe_lt_of_length (length_take_le _ _)
    apply inRange_findBlocks
    · rw [readInt]
      split_ifs <;> omega
    · rw [readInt]
      split_ifs <;> omega

theorem inRange_savedShares :
    ∀ entry ∈ savedShares disk 0 (messageBlocks data).1, entry.1.InRange := by
  intro entry member
  exact inRange_messageBlocks entry.1 (fst_mem_of_mem_savedShares member)

/-- A message that is refused leaves the shares that are loaded alone, and so does a second
delivery, also behind other lines. -/
def Atomic (disk again : Disk) (type data file between : Bytes) : Prop :=
  let first := receiveMessage disk type data file
  let second := receiveMessage again type data (first.1 ++ between)
  (first.2 ≠ ack → SameShares file first.1) ∧
    (first.2 = ack → SameShares (first.1 ++ between) second.1)

theorem known_of_ack (complete : CompleteLines file) (noQuote : quote ∉ (msgIdOf type).bytes)
    (acknowledged : (receiveMessage disk type data file).2 = ack) :
    Known ((receiveMessage disk type data file).1 ++ between)
      (savedText (msgIdOf type) (savedShares again 0 (messageBlocks data).1)) := by
  rw [known_savedText_iff noQuote inRange_savedShares]
  intro loadable entry member nonempty
  have arrived : entry.1 ∈ (savedShares disk 0 (messageBlocks data).1).map Prod.fst := by
    rw [map_savedShares_of_ack acknowledged]
    exact fst_mem_of_mem_savedShares member
  rw [receiveMessage_file, append_assoc, sharesIn_append complete,
    loadFile_append completeLines_savedText, allShares_append,
    loadFile_savedText noQuote inRange_savedShares, if_pos loadable]
  apply mem_append_right
  apply mem_append_left
  rw [mem_allShares_storedShare]
  refine ⟨entry.1, ?_, matches_storedShare rfl nonempty, rfl⟩
  rw [mem_filter]
  exact ⟨arrived, by simpa using nonempty⟩

end Reception

/-- Reception is atomic exactly if the blocks of a refused message show nothing new, and neither do
those of a second delivery. -/
theorem reception_atomic_iff (disk again : Disk) (type data file between : Bytes)
    (complete : CompleteLines file) (completeBetween : CompleteLines between) :
    (Atomic disk again type data file between ↔
        ((receiveMessage disk type data file).2 ≠ ack →
          Known file (savedText (msgIdOf type) (savedShares disk 0 (messageBlocks data).1))) ∧
        ((receiveMessage disk type data file).2 = ack →
          Known ((receiveMessage disk type data file).1 ++ between)
            (savedText (msgIdOf type) (savedShares again 0 (messageBlocks data).1)))) ∧
      (quote ∉ (msgIdOf type).bytes →
        (Atomic disk again type data file between ↔
          ((receiveMessage disk type data file).2 ≠ ack → Loadable (msgIdOf type) →
            ∀ entry ∈ savedShares disk 0 (messageBlocks data).1, entry.1.dataLength ≠ 0 →
              entry.1.stored ∈ sharesIn (msgIdOf type).bytes entry.1.x file))) := by
  have completeLater : CompleteLines ((receiveMessage disk type data file).1 ++ between) := by
    rw [receiveMessage_file]
    exact (complete.append completeLines_savedText).append completeBetween
  have general : Atomic disk again type data file between ↔
      ((receiveMessage disk type data file).2 ≠ ack →
        Known file (savedText (msgIdOf type) (savedShares disk 0 (messageBlocks data).1))) ∧
      ((receiveMessage disk type data file).2 = ack →
        Known ((receiveMessage disk type data file).1 ++ between)
          (savedText (msgIdOf type) (savedShares again 0 (messageBlocks data).1))) := by
    rw [Atomic]
    simp only [← sameShares_append_iff complete, ← sameShares_append_iff completeLater,
      ← receiveMessage_file]
  refine ⟨general, ?_⟩
  intro noQuote
  rw [general, and_iff_left (known_of_ack complete noQuote),
    known_savedText_iff noQuote inRange_savedShares]

def sampleDisk : Disk where
  saves _ := true
  stamps _ := sampleStamp

def sampleShare : Share where
  x := 1
  blockIndex := 0
  y := encodeValue 7
  dataLength := 5
  blockSize := 5

theorem reception_atomic_sample :
    Atomic sampleDisk sampleDisk (ascii ['a']) (packShares 1 [sampleShare]) [] [] := by
  apply ((reception_atomic_iff sampleDisk sampleDisk (ascii ['a']) (packShares 1 [sampleShare])
    [] [] (.inl rfl) (.inl rfl)).2 (by decide)).mpr
  intro refused
  exact absurd (by decide +kernel) refused

def truncatedMessage : Bytes :=
  writeLe 4 1 ++ (writeLe 8 2 ++ packShare sampleShare)

def injectingType : Bytes :=
  ascii "a\n\x7b\"msg_id\":\"b\",\"x\":1,\"data_length\":2,\"y\":\"00".toList

/-- The first block of a truncated message stays, and a line that an id brings in is numbered anew.
-/
theorem reception_not_atomic :
    ¬Atomic sampleDisk sampleDisk (ascii ['a']) truncatedMessage [] [] ∧
      ¬Atomic sampleDisk sampleDisk injectingType (packShares 1 [sampleShare]) [] [] := by
  constructor
  · intro atomic
    have same := atomic.1 (by decide +kernel) (ascii ['a']) 1 1000 sampleShare
    exact absurd (same.mpr (by decide +kernel)) (by decide +kernel)
  · intro atomic
    have same := atomic.2 (by decide +kernel) (ascii ['b']) 1 1000 ⟨1, 1, [0], 2, 2⟩
    exact absurd (same.mpr (by decide +kernel)) (by decide +kernel)

/-! ### The file as a log -/

structure Received where
  disk : Disk
  type : Bytes
  data : Bytes

def receive (file : Bytes) (message : Received) : Bytes :=
  (receiveMessage message.disk message.type message.data file).1

/-- The shares for a participant that were saved from a message, if it has this id. -/
def Received.logged (id : Bytes) (x : ℤ) (message : Received) : List Share :=
  if Loadable (msgIdOf message.type) then
    (((savedShares message.disk 0 (messageBlocks message.data).1).map Prod.fst).filter fun share =>
      ((msgIdOf message.type).bytes = id ∧ share.x = x) ∧ share.dataLength ≠ 0).map Share.stored
  else []

section Log

variable {id file : Bytes} {x : ℤ} {msgId : MsgId}

theorem allShares_map_storedShare {shares : List Share}
    (nonempty : ∀ share ∈ shares, share.dataLength ≠ 0) (foundCount : ℕ) :
    allShares id x foundCount (shares.map (storedShare msgId)) =
      (shares.filter fun share => msgId.bytes = id ∧ share.x = x).map Share.stored := by
  induction shares generalizing foundCount with
  | nil => rfl
  | cons share shares ih =>
    rw [forall_mem_cons] at nonempty
    rw [map_cons, allShares]
    by_cases own : msgId.bytes = id ∧ share.x = x
    · rcases own with ⟨rfl, own⟩
      rw [if_pos (matches_storedShare own nonempty.1), share_storedShare, ih nonempty.2,
        filter_cons_of_pos (by simpa using own), map_cons]
    · rw [if_neg fun found => own ⟨found.1, found.2.1⟩, ih nonempty.2,
        filter_cons_of_neg (by simpa using own)]

theorem sharesIn_receive (complete : CompleteLines file) {message : Received}
    (noQuote : quote ∉ (msgIdOf message.type).bytes) :
    sharesIn id x (receive file message) = sharesIn id x file ++ message.logged id x := by
  rw [receive, receiveMessage_file, sharesIn_append complete,
    loadFile_savedText noQuote inRange_savedShares, Received.logged]
  split_ifs
  · rw [allShares_map_storedShare (by simp), filter_filter]
    simp
  · rfl

theorem sharesIn_foldl_receive {traffic : List Received} (complete : CompleteLines file)
    (noQuote : ∀ message ∈ traffic, quote ∉ (msgIdOf message.type).bytes) :
    sharesIn id x (traffic.foldl receive file) =
      sharesIn id x file ++ traffic.flatMap (Received.logged id x) := by
  induction traffic generalizing file with
  | nil => simp
  | cons message traffic ih =>
    rw [forall_mem_cons] at noQuote
    have next : CompleteLines (receive file message) := by
      rw [receive, receiveMessage_file]
      exact complete.append completeLines_savedText
    rw [foldl_cons, ih next noQuote.2, sharesIn_receive complete noQuote.1, flatMap_cons,
      append_assoc]

end Log

end TigerMixer.Receiver
