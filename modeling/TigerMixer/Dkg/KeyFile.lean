import TigerMixer.Dkg.KeyCorrectness

/-!
# The key file of a committee member

`dkg_save_keys_to_files` writes a header and the share of the secret key, `dkg_load_keys_from_files`
sets the committee up again from them. A part of a file is not read back. The file is emptied before
the share is looked at, and the public key is written after it, so an error at either of these
places comes too late for the earlier key.
-/

namespace TigerMixer.Dkg

open Bytes List

universe u

structure CommitteeState (G : Type u) where
  protocol : Protocol G
  participantId : ℕ
  nParticipants : ℕ
  threshold : ℕ
  isInitialized : Bool

/-! ### Saving -/

/-- What can be opened, how many bytes of the secret key are written, and whether the public key can
be converted to text. -/
structure FileOutcomes where
  directory : Bool
  keyFile : Bool
  written : ℕ
  publicKeyFile : Bool
  publicKeyText : Bool

def maxParticipants : ℕ := 32

/-- How `dkg_save_keys_to_files` ends; `crash` is a null pointer that is followed or an access
beyond an array. -/
inductive SaveResult where
  | crash
  | rlcErr
  | rlcOk
  deriving DecidableEq

def keyText (participantId nParticipants threshold secretShare : ℕ) : Bytes :=
  writeBe 4 participantId ++ (writeBe 4 nParticipants ++ (writeBe 4 threshold ++
    (writeBe 4 (sizeBytes secretShare) ++ writeBe (sizeBytes secretShare) secretShare)))

section Model

variable {G : Type u} (bnSize : ℕ)

def savePublicKey (outcomes : FileOutcomes) (state : CommitteeState G) : SaveResult :=
  if state.participantId = 1 then
    if outcomes.publicKeyFile = false then .rlcErr
    else if (state.protocol.participants (state.participantId - 1)).isNone then .crash
    else if outcomes.publicKeyText = false then .rlcErr
    else .rlcOk
  else .rlcOk

def dkgSaveKeysToFiles (outcomes : FileOutcomes) (state : CommitteeState G) (file : Option Bytes) :
    SaveResult × Option Bytes :=
  if state.isInitialized = false then (.rlcErr, file)
  else if outcomes.directory = false then (.rlcErr, file)
  else if outcomes.keyFile = false then (.rlcErr, file)
  else if state.participantId < 1 ∨ maxParticipants < state.participantId then (.crash, some [])
  else
    match state.protocol.participants (state.participantId - 1) with
    | none => (savePublicKey outcomes state, some [])
    | some participant =>
      if participant.isInitialized = false then (savePublicKey outcomes state, some [])
      else if participant.secretShare = 0 then (.rlcErr, some [])
      else if bnSize < sizeBytes participant.secretShare then (.crash, some [])
      else
        (savePublicKey outcomes state,
          some ((keyText state.participantId state.nParticipants state.threshold
            participant.secretShare).take outcomes.written))

/-! ### Loading -/

/-- How `dkg_load_keys_from_files` ends; `overrun` is an access beyond the buffer for the share or
the array of participants. -/
inductive LoadKeys (G : Type u) where
  | overrun
  | rlcErr
  | rlcOk (state : CommitteeState G)

def ntohl (bytes : Bytes) : ℤ :=
  if readBe bytes < 2 ^ 31 then readBe bytes else (readBe bytes : ℤ) - 2 ^ 32

def toSizeT (value : ℤ) : ℕ :=
  if value < 0 then (2 ^ 64 + value).toNat else value.toNat

variable (generator : G) (order : ℕ)

/-- `dkg_committee_init` without shared parameters, for the generator that is drawn; `none` is
`RLC_ERR`. -/
def dkgCommitteeInit (participantId nParticipants threshold : ℕ) : Option (CommitteeState G) :=
  ((dkgProtocolInitWithClParams nParticipants threshold generator order).bind
    (addAll · nParticipants)).map fun protocol =>
      { protocol, participantId, nParticipants, threshold, isInitialized := true }

def restoreKeys (participantId nParticipants threshold : ℤ) (share : Bytes) : LoadKeys G :=
  if nParticipants < 2 ∨ threshold < 2 then .rlcErr
  else if (maxParticipants : ℤ) < nParticipants ∧ threshold ≤ nParticipants then .overrun
  else
    match dkgCommitteeInit generator order participantId.toNat nParticipants.toNat
        threshold.toNat with
    | none => .rlcErr
    | some state =>
      if participantId < 1 ∨ (maxParticipants : ℤ) < participantId then .overrun
      else
        match state.protocol.participants (participantId.toNat - 1) with
        | none => .rlcOk state
        | some participant =>
          if participant.isInitialized = false then .rlcOk state
          else
            .rlcOk { state with
              protocol := state.protocol.setParticipant (participantId.toNat - 1)
                { participant with secretShare := readBe share } }

def dkgLoadKeysFromFiles : Option Bytes → LoadKeys G
  | none => .rlcErr
  | some text =>
    if text.length < 16 then .rlcErr
    else
      let length := toSizeT (ntohl ((text.drop 12).take 4))
      let share := (text.drop 16).take length
      if bnSize < share.length then .overrun
      else if share.length ≠ length then .rlcErr
      else
        restoreKeys generator order (ntohl (text.take 4)) (ntohl ((text.drop 4).take 4))
          (ntohl ((text.drop 8).take 4)) share

end Model

/-! ### What is loaded -/

/-- What a key file holds: the numbers of a committee, one of its members and the share of this
member. -/
@[ext]
structure Keys (bnSize : ℕ) where
  participantId : ℕ
  nParticipants : ℕ
  threshold : ℕ
  secretShare : ℕ
  two : 2 ≤ threshold
  enough : threshold ≤ nParticipants
  few : nParticipants ≤ maxParticipants
  first : 1 ≤ participantId
  member : participantId ≤ nParticipants
  positive : 0 < secretShare
  fits : sizeBytes secretShare ≤ bnSize

def Keys.text {bnSize : ℕ} (keys : Keys bnSize) : Bytes :=
  keyText keys.participantId keys.nParticipants keys.threshold keys.secretShare

section Load

variable {G : Type u} {bnSize : ℕ} {generator : G} {order : ℕ}

structure Holds (state : CommitteeState G) (keys : Keys bnSize) : Prop where
  participantId : state.participantId = keys.participantId
  nParticipants : state.nParticipants = keys.nParticipants
  threshold : state.threshold = keys.threshold
  secretShare : ∃ participant, state.protocol.participants (keys.participantId - 1) =
    some participant ∧ participant.isInitialized = true ∧ participant.secretShare = keys.secretShare

variable (bnSize generator order) in
def Restores (file : Option Bytes) (keys : Keys bnSize) : Prop :=
  ∃ state, dkgLoadKeysFromFiles bnSize generator order file = .rlcOk state ∧ Holds state keys

theorem ntohl_writeBe {value : ℕ} (small : value < 2 ^ 31) : ntohl (writeBe 4 value) = value := by
  rw [ntohl, readBe_writeBe_of_lt (by omega), if_pos small]

theorem Holds.unique {state : CommitteeState G} {keys keys' : Keys bnSize}
    (holds : Holds state keys) (holds' : Holds state keys') : keys = keys' := by
  have sameId : keys.participantId = keys'.participantId :=
    holds.participantId.symm.trans holds'.participantId
  rcases holds.secretShare with ⟨participant, found, -, share⟩
  rcases holds'.secretShare with ⟨participant', found', -, share'⟩
  rw [sameId, found', Option.some.injEq] at found
  apply Keys.ext sameId
  · exact holds.nParticipants.symm.trans holds'.nParticipants
  · exact holds.threshold.symm.trans holds'.threshold
  · rw [← share, ← share', found]

theorem length_text (keys : Keys bnSize) :
    keys.text.length = 16 + sizeBytes keys.secretShare := by
  simp only [Keys.text, keyText, length_append, length_writeBe]
  omega

theorem load_header {participantId nParticipants threshold length : ℕ}
    (smallId : participantId < 2 ^ 31) (smallCount : nParticipants < 2 ^ 31)
    (smallThreshold : threshold < 2 ^ 31) (smallLength : length < 2 ^ 31) (rest : Bytes) :
    dkgLoadKeysFromFiles bnSize generator order (some (writeBe 4 participantId ++
        (writeBe 4 nParticipants ++ (writeBe 4 threshold ++ (writeBe 4 length ++ rest))))) =
      if bnSize < (rest.take length).length then .overrun
      else if (rest.take length).length ≠ length then .rlcErr
      else restoreKeys generator order participantId nParticipants threshold
        (rest.take length) := by
  have first (value : ℕ) (rest : Bytes) : (writeBe 4 value ++ rest).take 4 = writeBe 4 value :=
    take_left' (length_writeBe 4 value)
  have next (value count : ℕ) (rest : Bytes) :
      (writeBe 4 value ++ rest).drop (4 + count) = rest.drop count := by
    rw [← drop_drop, drop_left' (length_writeBe 4 value)]
  have complete : ¬(writeBe 4 participantId ++ (writeBe 4 nParticipants ++ (writeBe 4 threshold ++
      (writeBe 4 length ++ rest)))).length < 16 := by
    simp only [length_append, length_writeBe]
    omega
  have size : toSizeT (length : ℤ) = length := by
    rw [toSizeT, if_neg (by omega), Int.toNat_natCast]
  rw [dkgLoadKeysFromFiles, if_neg complete, first, next _ 0, next _ 4, next _ 0, next _ 8,
    next _ 4, next _ 0, next _ 12, next _ 8, next _ 4, next _ 0]
  simp only [drop_zero, first, ntohl_writeBe smallId, ntohl_writeBe smallCount,
    ntohl_writeBe smallThreshold, ntohl_writeBe smallLength, size]

theorem restoreKeys_holds (keys : Keys bnSize) :
    ∃ state, restoreKeys generator order keys.participantId keys.nParticipants keys.threshold
      (writeBe (sizeBytes keys.secretShare) keys.secretShare) = .rlcOk state ∧
        Holds state keys := by
  have two := keys.two
  have enough := keys.enough
  have few := keys.few
  have member := keys.member
  have firstId := keys.first
  rcases exists_ready generator order two enough with ⟨protocol, initialised, ready, -, -⟩
  have state : dkgCommitteeInit generator order keys.participantId keys.nParticipants
      keys.threshold = some
        { protocol, participantId := keys.participantId, nParticipants := keys.nParticipants,
          threshold := keys.threshold, isInitialized := true } := by
    rw [dkgCommitteeInit, initialised, Option.map_some]
  rcases ready.participant (keys.participantId - 1) (by omega) with
    ⟨participant, found, isInitialized, -⟩
  have value : readBe (writeBe (sizeBytes keys.secretShare) keys.secretShare) = keys.secretShare :=
    readBe_writeBe_of_lt (lt_pow_sizeBytes _)
  rw [restoreKeys, if_neg (by omega), if_neg (by omega), Int.toNat_natCast, Int.toNat_natCast,
    Int.toNat_natCast, state]
  simp only [found, isInitialized]
  rw [if_neg (by omega), if_neg (by simp)]
  refine ⟨_, rfl, rfl, rfl, rfl, _, Function.update_self .., rfl, value⟩

theorem load_take (machine : bnSize < 2 ^ 31) (keys : Keys bnSize) (written : ℕ) :
    (keys.text.length ≤ written →
        Restores bnSize generator order (some (keys.text.take written)) keys) ∧
      (written < keys.text.length →
        dkgLoadKeysFromFiles bnSize generator order (some (keys.text.take written)) = .rlcErr) := by
  have few := keys.few
  have member := keys.member
  have enough := keys.enough
  have fits := keys.fits
  have small : maxParticipants < 2 ^ 31 := by decide
  have header (rest : Bytes) := @load_header G bnSize generator order keys.participantId
    keys.nParticipants keys.threshold (sizeBytes keys.secretShare) (by omega) (by omega)
    (by omega) (by omega) rest
  rw [length_text]
  constructor
  · intro complete
    rcases @restoreKeys_holds G bnSize generator order keys with ⟨state, restored, holds⟩
    refine ⟨state, ?_, holds⟩
    rw [take_of_length_le (by rw [length_text]; exact complete), Keys.text, keyText, header,
      take_of_length_le (by rw [length_writeBe]), length_writeBe, if_neg (by omega),
      if_neg (by simp), restored]
  · intro incomplete
    by_cases headerless : written < 16
    · have length : (keys.text.take written).length < 16 := by
        rw [length_take]
        omega
      rw [dkgLoadKeysFromFiles, if_pos length]
    · -- The header is there, and the share is shorter than it says.
      obtain ⟨part, rfl⟩ : ∃ part, written = 4 + (4 + (4 + (4 + part))) := ⟨written - 16, by omega⟩
      have kept (value count : ℕ) (rest : Bytes) :
          (writeBe 4 value ++ rest).take (4 + count) = writeBe 4 value ++ rest.take count := by
        have length := length_writeBe 4 value
        rw [take_append, take_of_length_le (by omega), length, Nat.add_sub_cancel_left]
      have length : (((writeBe (sizeBytes keys.secretShare) keys.secretShare).take part).take
          (sizeBytes keys.secretShare)).length = part := by
        rw [length_take, length_take, length_writeBe]
        omega
      rw [Keys.text, keyText, kept, kept, kept, kept, header, length, if_neg (by omega),
        if_pos (by omega)]

theorem restores_take_iff (machine : bnSize < 2 ^ 31) (keys keys' : Keys bnSize) (written : ℕ) :
    Restores bnSize generator order (some (keys.text.take written)) keys' ↔
      keys.text.length ≤ written ∧ keys = keys' := by
  rcases load_take machine keys written with ⟨complete, incomplete⟩
  constructor
  · rintro ⟨state, loaded, holds⟩
    by_cases enough : keys.text.length ≤ written
    · rcases complete enough with ⟨state', loaded', holds'⟩
      rw [loaded, LoadKeys.rlcOk.injEq] at loaded'
      subst loaded'
      exact ⟨enough, holds'.unique holds⟩
    · rw [incomplete (by omega)] at loaded
      cases loaded
  · rintro ⟨enough, rfl⟩
    exact complete enough

theorem not_restores_nil (keys : Keys bnSize) :
    ¬Restores bnSize generator order (some []) keys := by
  rintro ⟨state, loaded, -⟩
  cases loaded

end Load

/-! ### What a save leaves -/

section Save

variable {G : Type u} {bnSize : ℕ} {generator : G} {order : ℕ} {outcomes : FileOutcomes}
  {state : CommitteeState G}

/-- The state as `dkg_committee_init` sets it up, with shares that fit the buffer for them. -/
structure Committee (bnSize : ℕ) (state : CommitteeState G) : Prop where
  two : 2 ≤ state.threshold
  enough : state.threshold ≤ state.nParticipants
  few : state.nParticipants ≤ maxParticipants
  first : 1 ≤ state.participantId
  inside : state.participantId ≤ maxParticipants
  participant : ∀ i < state.nParticipants, ∃ participant,
    state.protocol.participants i = some participant ∧ participant.isInitialized = true ∧
      sizeBytes participant.secretShare ≤ bnSize
  unset : ∀ i, state.nParticipants ≤ i → state.protocol.participants i = none

structure Opened (outcomes : FileOutcomes) (state : CommitteeState G) : Prop where
  initialized : state.isInitialized = true
  directory : outcomes.directory = true
  keyFile : outcomes.keyFile = true

variable (bnSize generator order) in
/-- After an error the earlier keys can be loaded, after a success those that were saved. -/
structure KeysKept (outcomes : FileOutcomes) (state : CommitteeState G) (old : Keys bnSize) :
    Prop where
  afterError : (dkgSaveKeysToFiles bnSize outcomes state (some old.text)).1 = .rlcErr →
    Restores bnSize generator order
      (dkgSaveKeysToFiles bnSize outcomes state (some old.text)).2 old
  afterSuccess : (dkgSaveKeysToFiles bnSize outcomes state (some old.text)).1 = .rlcOk →
    ∃ keys : Keys bnSize, Holds state keys ∧ Restores bnSize generator order
      (dkgSaveKeysToFiles bnSize outcomes state (some old.text)).2 keys

theorem save_of_not_opened (unopened : ¬Opened outcomes state) (file : Option Bytes) :
    dkgSaveKeysToFiles bnSize outcomes state file = (.rlcErr, file) := by
  rw [dkgSaveKeysToFiles]
  by_cases uninitialized : state.isInitialized = false
  · rw [if_pos uninitialized]
  by_cases noDirectory : outcomes.directory = false
  · rw [if_neg uninitialized, if_pos noDirectory]
  by_cases noFile : outcomes.keyFile = false
  · rw [if_neg uninitialized, if_neg noDirectory, if_pos noFile]
  · exact absurd ⟨by simpa using uninitialized, by simpa using noDirectory, by simpa using noFile⟩
      unopened

theorem save_of_opened (opened : Opened outcomes state) (first : 1 ≤ state.participantId)
    (inside : state.participantId ≤ maxParticipants) (file : Option Bytes) :
    dkgSaveKeysToFiles bnSize outcomes state file =
      match state.protocol.participants (state.participantId - 1) with
      | none => (savePublicKey outcomes state, some [])
      | some participant =>
        if participant.isInitialized = false then (savePublicKey outcomes state, some [])
        else if participant.secretShare = 0 then (.rlcErr, some [])
        else if bnSize < sizeBytes participant.secretShare then (.crash, some [])
        else
          (savePublicKey outcomes state,
            some ((keyText state.participantId state.nParticipants state.threshold
              participant.secretShare).take outcomes.written)) := by
  rw [dkgSaveKeysToFiles, if_neg (by simp [opened.initialized]),
    if_neg (by simp [opened.directory]), if_neg (by simp [opened.keyFile]), if_neg (by omega)]

theorem save_of_holds (opened : Opened outcomes state) {keys : Keys bnSize}
    (holds : Holds state keys) (file : Option Bytes) :
    dkgSaveKeysToFiles bnSize outcomes state file =
      (savePublicKey outcomes state, some (keys.text.take outcomes.written)) := by
  rcases holds.secretShare with ⟨participant, found, initialized, share⟩
  have positive := keys.positive
  have fits := keys.fits
  have first := keys.first
  have member := keys.member
  have few := keys.few
  have sameId := holds.participantId
  rw [save_of_opened opened (by omega) (by omega), holds.participantId, found]
  simp only [initialized, share]
  rw [if_neg (by simp), if_neg (by omega), if_neg (by omega), Keys.text, holds.nParticipants,
    holds.threshold]

theorem savePublicKey_eq
    (found : (state.protocol.participants (state.participantId - 1)).isSome = true) :
    savePublicKey outcomes state =
      if state.participantId = 1 ∧ ¬(outcomes.publicKeyFile = true ∧ outcomes.publicKeyText = true)
      then .rlcErr else .rlcOk := by
  have there : (state.protocol.participants (state.participantId - 1)).isNone = false := by
    simpa using found
  rw [savePublicKey]
  cases outcomes.publicKeyFile <;> cases outcomes.publicKeyText <;> simp [there]

/-- A save reports success exactly if the files can be opened, the share is not zero, and the first
member can write the public key. -/
theorem save_eq_rlcOk_iff (ready : state.isInitialized = true) (first : 1 ≤ state.participantId)
    (inside : state.participantId ≤ maxParticipants) {participant : Participant G}
    (found : state.protocol.participants (state.participantId - 1) = some participant)
    (initialized : participant.isInitialized = true)
    (fits : sizeBytes participant.secretShare ≤ bnSize) (file : Option Bytes) :
    (dkgSaveKeysToFiles bnSize outcomes state file).1 = .rlcOk ↔
      participant.secretShare ≠ 0 ∧ outcomes.directory = true ∧ outcomes.keyFile = true ∧
        (state.participantId = 1 →
          outcomes.publicKeyFile = true ∧ outcomes.publicKeyText = true) := by
  by_cases opened : Opened outcomes state
  · rw [save_of_opened opened first inside, found]
    simp only [initialized, Bool.true_eq_false, if_false, opened.directory, opened.keyFile,
      true_and]
    by_cases zero : participant.secretShare = 0
    · simp [zero]
    · rw [if_neg zero, if_neg (by omega), savePublicKey_eq (by simp [found])]
      simp [zero]
  · rw [save_of_not_opened opened]
    refine iff_of_false (by simp) ?_
    rintro ⟨-, directory, keyFile, -⟩
    exact opened ⟨ready, directory, keyFile⟩

theorem Committee.exists_holds (committee : Committee bnSize state) {participant : Participant G}
    (member : state.participantId ≤ state.nParticipants)
    (found : state.protocol.participants (state.participantId - 1) = some participant)
    (initialized : participant.isInitialized = true) (positive : 0 < participant.secretShare)
    (fits : sizeBytes participant.secretShare ≤ bnSize) :
    ∃ keys : Keys bnSize, Holds state keys :=
  ⟨⟨state.participantId, state.nParticipants, state.threshold, participant.secretShare,
    committee.two, committee.enough, committee.few, committee.first, member, positive, fits⟩,
    rfl, rfl, rfl, participant, found, initialized, rfl⟩

theorem restores_text (machine : bnSize < 2 ^ 31) (keys : Keys bnSize) :
    Restores bnSize generator order (some keys.text) keys := by
  have complete := (@load_take G bnSize generator order machine keys keys.text.length).1 le_rfl
  rwa [take_length] at complete

theorem not_kept_of_nothing (committee : Committee bnSize state) (opened : Opened outcomes state)
    (nothing : ¬∃ keys : Keys bnSize, Holds state keys) (old : Keys bnSize) :
    ¬KeysKept bnSize generator order outcomes state old := by
  intro kept
  have twoMembers := committee.two
  have enough := committee.enough
  have first := committee.first
  by_cases member : state.participantId ≤ state.nParticipants
  · rcases committee.participant (state.participantId - 1) (by omega) with
      ⟨participant, found, initialized, fits⟩
    by_cases zero : participant.secretShare = 0
    · have saved := @save_of_opened _ bnSize _ _ opened first committee.inside (some old.text)
      simp only [found, initialized, zero, Bool.true_eq_false, if_false, if_true] at saved
      have restored := kept.afterError (by rw [saved])
      rw [saved] at restored
      exact not_restores_nil old restored
    · exact nothing
        (committee.exists_holds member found initialized (Nat.pos_of_ne_zero zero) fits)
  · have missing := committee.unset (state.participantId - 1) (by omega)
    have other : state.participantId ≠ 1 := by omega
    have saved := @save_of_opened _ bnSize _ _ opened first committee.inside (some old.text)
    rw [missing, savePublicKey, if_neg other] at saved
    rcases kept.afterSuccess (by rw [saved]) with ⟨keys, holds, -⟩
    exact nothing ⟨keys, holds⟩

/-- Keys are kept exactly if, once the file is opened, there is a positive share to save, all of it
is written, and the first member writes the public key as well or has saved the earlier keys itself.
-/
theorem dkg_keys_kept_iff (machine : bnSize < 2 ^ 31)
    (committee : state.isInitialized = true → Committee bnSize state) (old : Keys bnSize) :
    KeysKept bnSize generator order outcomes state old ↔
      (Opened outcomes state → ∃ keys : Keys bnSize, Holds state keys ∧
        keys.text.length ≤ outcomes.written ∧
        (state.participantId = 1 →
          outcomes.publicKeyFile = true ∧ outcomes.publicKeyText = true ∨ keys = old)) := by
  by_cases opened : Opened outcomes state
  swap
  · have saved := @save_of_not_opened G bnSize outcomes state opened (some old.text)
    refine iff_of_true ⟨fun _ => ?_, fun success => ?_⟩ fun isOpened => absurd isOpened opened
    · rw [saved]
      exact restores_text machine old
    · rw [saved] at success
      cases success
  by_cases something : ∃ keys : Keys bnSize, Holds state keys
  swap
  · refine iff_of_false (not_kept_of_nothing (committee opened.initialized) opened something old) ?_
    intro condition
    rcases condition opened with ⟨keys, holds, -⟩
    exact something ⟨keys, holds⟩
  rcases something with ⟨keys, holds⟩
  have saved := save_of_holds opened holds (some old.text)
  have present : (state.protocol.participants (state.participantId - 1)).isSome = true := by
    rcases holds.secretShare with ⟨participant, found, -⟩
    rw [holds.participantId, found]
    rfl
  rw [savePublicKey_eq present] at saved
  by_cases late : state.participantId = 1 ∧
      ¬(outcomes.publicKeyFile = true ∧ outcomes.publicKeyText = true)
  · rw [if_pos late] at saved
    constructor
    · intro kept _
      have restored := kept.afterError (by rw [saved])
      rw [saved, restores_take_iff machine] at restored
      exact ⟨keys, holds, restored.1, fun _ => .inr restored.2⟩
    · intro condition
      rcases condition opened with ⟨keys', holds', complete, publicKey⟩
      rcases publicKey late.1 with both | same
      · exact absurd both late.2
      · refine ⟨fun _ => ?_, fun success => ?_⟩
        · rw [saved, restores_take_iff machine, ← same, holds.unique holds']
          exact ⟨complete, rfl⟩
        · rw [saved] at success
          cases success
  · rw [if_neg late] at saved
    constructor
    · intro kept _
      rcases kept.afterSuccess (by rw [saved]) with ⟨keys', -, restored⟩
      rw [saved, restores_take_iff machine] at restored
      exact ⟨keys, holds, restored.1, fun one => .inl (not_not.mp fun fails => late ⟨one, fails⟩)⟩
    · intro condition
      rcases condition opened with ⟨keys', holds', complete, -⟩
      refine ⟨fun error => ?_, fun _ => ⟨keys, holds, ?_⟩⟩
      · rw [saved] at error
        cases error
      · rw [saved, restores_take_iff machine, holds.unique holds']
        exact ⟨complete, rfl⟩

end Save

/-! ### An example -/

def sampleCommittee (participantId secretShare : ℕ) : CommitteeState Unit where
  protocol :=
    { participants := fun i =>
        if i < 3 then
          some { threshold := 2, secretShare, secretPolyCoeffs := fun _ => 0,
                 commitments := fun _ => none, publicKey := none, isInitialized := true }
        else none
      nParticipants := 3, threshold := 2, generator := (), order := 7, isInitialized := true }
  participantId
  nParticipants := 3
  threshold := 2
  isInitialized := true

theorem committee_sample {participantId secretShare : ℕ} (first : 1 ≤ participantId)
    (member : participantId ≤ 3) (fits : sizeBytes secretShare ≤ 34) :
    Committee 34 (sampleCommittee participantId secretShare) where
  two := le_rfl
  enough := Nat.le_succ 2
  few := Nat.le_of_ble_eq_true rfl
  first := first
  inside := member.trans (by decide)
  participant := by
    intro i below
    exact ⟨_, if_pos below, rfl, fits⟩
  unset := by
    intro i beyond
    exact if_neg (not_lt.mpr beyond)

def sampleKeys (participantId secretShare : ℕ) (first : 1 ≤ participantId)
    (member : participantId ≤ 3) (positive : 0 < secretShare) (fits : sizeBytes secretShare ≤ 34) :
    Keys 34 :=
  ⟨participantId, 3, 2, secretShare, le_rfl, by decide, by decide, first, member, positive, fits⟩

theorem dkg_keys_kept_sample :
    KeysKept 34 () 7 ⟨true, true, 17, true, true⟩ (sampleCommittee 2 5)
      (sampleKeys 2 6 (by decide) (by decide) (by decide) (by decide)) := by
  apply (dkg_keys_kept_iff (by decide)
    (fun _ => committee_sample (by decide) (by decide) (by decide)) _).mpr
  intro _
  refine ⟨sampleKeys 2 5 (by decide) (by decide) (by decide) (by decide),
    ⟨rfl, rfl, rfl, _, rfl, rfl, rfl⟩, by decide, fun one => absurd one (by decide)⟩

/-- A share of zero is refused when the file is already empty; the first member returns an error
when its new share is written but not the public key; and a success is reported when nothing could
be written. -/
theorem dkg_keys_lost :
    ¬KeysKept 34 () 7 ⟨true, true, 17, true, true⟩ (sampleCommittee 2 0)
        (sampleKeys 2 6 (by decide) (by decide) (by decide) (by decide)) ∧
      ¬KeysKept 34 () 7 ⟨true, true, 17, false, true⟩ (sampleCommittee 1 5)
        (sampleKeys 1 6 (by decide) (by decide) (by decide) (by decide)) ∧
      ¬KeysKept 34 () 7 ⟨true, true, 0, true, true⟩ (sampleCommittee 2 5)
        (sampleKeys 2 6 (by decide) (by decide) (by decide) (by decide)) := by
  refine ⟨?_, ?_, ?_⟩
  · intro kept
    exact not_restores_nil _ (kept.afterError rfl)
  · intro kept
    rcases (restores_take_iff (by decide) (sampleKeys 1 5 (by decide) (by decide) (by decide)
      (by decide)) _ 17).mp (kept.afterError rfl) with ⟨-, same⟩
    exact absurd (congrArg Keys.secretShare same) (by decide)
  · intro kept
    rcases kept.afterSuccess rfl with ⟨keys, -, restored⟩
    exact not_restores_nil keys restored

end TigerMixer.Dkg
