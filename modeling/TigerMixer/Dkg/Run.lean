import TigerMixer.Dkg.Integrity
import TigerMixer.Dkg.KeyFile
import TigerMixer.Dkg.ReadSafety

/-!
# A run of the key generation

`dkg_unified_mode`: the first participant sends the parameters of the class group. The others wait
for them, or use those that they generate, which are the same constants. Then everyone sends
commitments and shares, and adds up what arrives. Messages may be lost, repeated and reordered. What
arrives before the parameters is dropped, and a repeated message is counted for a missing one.
-/

namespace TigerMixer.Dkg

open Bytes List Protocol

variable {G : Type}

/-! ### The program of a participant -/

/-- The parameters that are sent; the receivers set the other ones to zero. -/
structure SharedParams (G : Type) where
  deltaK : ℤ
  gq : G
  q : ℤ

/-- `gp_read_str` and `GENtostr`, for forms and for integers. -/
structure Pari (G : Type) extends Platform G where
  toStr : G → Bytes
  readInteger : Bytes → Option ℤ
  integerToStr : ℤ → Bytes

def packClParams (pari : Pari G) (params : SharedParams G) : Bytes :=
  let deltaK := pari.integerToStr params.deltaK
  let gq := pari.toStr params.gq
  let q := pari.integerToStr params.q
  writeLe 8 deltaK.length ++ (writeLe 8 gq.length ++ (writeLe 8 q.length ++ (deltaK ++ (gq ++ q))))

def clParamsMessage (pari : Pari G) (params : SharedParams G) : Bytes :=
  serializeMessage { type := ascii "CL_PARAMS".toList ++ [0], data := packClParams pari params }

/-- A text is copied into memory without asking whether there is any. -/
def copyText (platform : Platform G) (data : Bytes) (offset length : ℕ) : Option Bytes :=
  if platform.malloc ((length + 1) % 2 ^ 64) then (readAt data offset length).map Text.cString
  else none

def readClParams (pari : Pari G) (data : Bytes) : Option (SharedParams G) := do
  let deltaLength ← readSize data 0
  let gqLength ← readSize data 8
  let qLength ← readSize data 16
  let gqOffset := (24 + deltaLength) % 2 ^ 64
  let deltaText ← copyText pari.toPlatform data 24 deltaLength
  let gqText ← copyText pari.toPlatform data gqOffset gqLength
  let qText ← copyText pari.toPlatform data ((gqOffset + gqLength) % 2 ^ 64) qLength
  let deltaK ← pari.readInteger deltaText
  let gq ← pari.gpReadStr gqText
  let q ← pari.readInteger qText
  some { deltaK, gq, q }

/-- The loop that waits for the parameters, with the number of empty polls so far. It returns the
parameters, if they have come, and the polls that are left. -/
def awaitClParams (pari : Pari G) : List Bytes → ℕ → Option (Option (SharedParams G) × List Bytes)
  | [], _ => some (none, [])
  | poll :: polls, timeouts =>
    if timeouts < maxTimeout then
      if poll = [] then awaitClParams pari polls (timeouts + 1)
      else do
        let message ← deserializeMessage (poll.take msgBufSize)
        let isClParams ← strcmpEqual (ascii "CL_PARAMS".toList ++ [0]) message.type
        if isClParams then do
          let params ← readClParams pari message.data
          some (some params, polls)
        else awaitClParams pari polls timeouts
    else some (none, poll :: polls)

def dkgNegotiateClParams (pari : Pari G) (generated : SharedParams G) (participantId : ℕ)
    (polls : List Bytes) : Option (SharedParams G × List Bytes) :=
  if participantId = 1 then some (generated, polls)
  else (awaitClParams pari polls 0).map fun (params, rest) => (params.getD generated, rest)

/-- `dkg_broadcast_commitments_and_shares`, with the message that it sends. -/
def dkgBroadcastCommitmentsAndShares (pari : Pari G) (protocol : Protocol G) (participantId : ℕ)
    (computedShares : ℕ → ℕ) : Option (Protocol G × Bytes) := do
  let participant ← protocol.participants (participantId - 1)
  if ¬participant.isInitialized then none
  else do
    let commitments ← (List.range participant.threshold).mapM participant.commitments
    let receivers := (List.range' 1 protocol.nParticipants).filter (· != participantId)
    some (protocol.startShare participantId computedShares,
      dkgMessage participantId (commitments.map pari.toStr) (receivers.map fun j =>
        (j, writeBe (sizeBytes (computedShares j)) (computedShares j))))

section Program

variable [CommGroup G] [DecidableEq G]

/-- `dkg_generation_phase`, with the message that is sent. -/
def dkgGenerationPhase (pari : Pari G) (participantId : ℕ) (drawn : ℕ → ℕ) (polls : List Bytes)
    (protocol : Protocol G) : Option (Bytes × Protocol G) := do
  let (protocol, computedShares) ←
    dkgGeneratePolynomialCommitmentsAndShares protocol participantId drawn
  let (protocol, message) ←
    dkgBroadcastCommitmentsAndShares pari protocol participantId computedShares
  let (protocol, _) ← dkgReceiveCommitmentsAndShares pari.toPlatform participantId polls protocol
  some (message, protocol)

/-- `dkg_unified_mode` up to the key files. -/
def dkgReachKeys (pari : Pari G) (generated : SharedParams G) (participantId : ℕ)
    (drawn : ℕ → ℕ) (polls : List Bytes) : Option (Bytes × Protocol G) := do
  let (params, polls) ← dkgNegotiateClParams pari generated participantId polls
  let state ←
    dkgCommitteeInit params.gq secp256k1Order participantId secretShares dkgThreshold
  let (message, protocol) ← dkgGenerationPhase pari participantId drawn polls state.protocol
  let protocol ← dkgGeneratePublicKey protocol
  some (message, protocol)

/-- `dkg_unified_mode`: how the keys are saved and what the key file then holds, or nothing if it
does not come to that. -/
def dkgUnifiedMode (pari : Pari G) (generated : SharedParams G) (participantId : ℕ)
    (drawn : ℕ → ℕ) (polls : List Bytes) (outcomes : FileOutcomes) (file : Option Bytes) :
    Option (SaveResult × Option Bytes) := do
  let (_, protocol) ← dkgReachKeys pari generated participantId drawn polls
  let state : CommitteeState G :=
    { protocol, participantId, nParticipants := secretShares, threshold := dkgThreshold,
      isInitialized := true }
  some (dkgSaveKeysToFiles SecretShare.bnSize outcomes state file)

end Program

/-! ### The network -/

/-- What happens at the socket of a participant in one poll. -/
inductive Event where
  | quiet
  | params
  | data (senderId : ℕ)
deriving DecidableEq

def Event.sender : Event → Option ℕ
  | .data senderId => some senderId
  | _ => none

/-- The messages in a sequence of events are those of other participants. -/
def FromOthers (participantId : ℕ) (events : List Event) : Prop :=
  ∀ senderId ∈ events.filterMap Event.sender, senderId ∈ others participantId

structure Setup (G : Type) where
  pari : Pari G
  generated : SharedParams G
  /-- The coefficients that each participant draws. -/
  drawn : ℕ → ℕ → ℕ

section Network

variable [CommGroup G] (setup : Setup G)

def Setup.dealt (senderId receiverId : ℕ) : ℕ :=
  computeShare secp256k1Order dkgThreshold (setup.drawn senderId) receiverId

def Setup.commitments (senderId : ℕ) : List G :=
  (List.range dkgThreshold).map fun k => setup.generated.gq ^ setup.drawn senderId k

def Setup.dataMessage (senderId : ℕ) : Bytes :=
  dkgMessage senderId ((setup.commitments senderId).map setup.pari.toStr)
    ((others senderId).map fun j =>
      (j, writeBe (sizeBytes (setup.dealt senderId j)) (setup.dealt senderId j)))

def Event.bytes : Event → Bytes
  | .quiet => []
  | .params => clParamsMessage setup.pari setup.generated
  | .data senderId => setup.dataMessage senderId

/-- There is memory, texts are read back, and the messages fit into the buffer. -/
structure Setup.Works : Prop where
  memory : ∀ size, setup.pari.malloc size = true
  reads : ∀ value, setup.pari.gpReadStr (Text.cString (setup.pari.toStr value)) = some value
  readsInteger : ∀ value ∈ [setup.generated.deltaK, setup.generated.q],
    setup.pari.readInteger (Text.cString (setup.pari.integerToStr value)) = some value
  params : (clParamsMessage setup.pari setup.generated).length ≤ msgBufSize
  data : ∀ senderId ∈ List.range' 1 secretShares,
    (setup.dataMessage senderId).length ≤ msgBufSize

/-- The message that a participant sends, and what it holds in the end. -/
def Setup.run [DecidableEq G] (participantId : ℕ) (events : List Event) :
    Option (Bytes × Protocol G) :=
  dkgReachKeys setup.pari setup.generated participantId (setup.drawn participantId)
    (events.map (Event.bytes setup))

def Setup.finish [DecidableEq G] (participantId : ℕ) (events : List Event)
    (outcomes : FileOutcomes) (file : Option Bytes) : Option (SaveResult × Option Bytes) :=
  dkgUnifiedMode setup.pari setup.generated participantId (setup.drawn participantId)
    (events.map (Event.bytes setup)) outcomes file

def Setup.secret : ℕ :=
  ∑ j ∈ Finset.range secretShares, setup.drawn (j + 1) 0

end Network

theorem FromOthers.of_suffix {participantId : ℕ} {events rest : List Event}
    (fromOthers : FromOthers participantId events) (suffix : rest <:+ events) :
    FromOthers participantId rest :=
  fun senderId member => fromOthers senderId ((suffix.sublist.filterMap _).subset member)

/-- The events behind the parameters, for which the first participant does not wait. -/
def behindParams (participantId : ℕ) (events : List Event) : List Event :=
  if participantId = 1 then events else (events.dropWhile (· ≠ .params)).tail

def heard (participantId : ℕ) (events : List Event) : List ℕ :=
  (behindParams participantId events).filterMap Event.sender

/-- As long as fewer messages have come than are wanted, no stretch of polls without a message has
as many empty ones as the timeout. -/
def InTime (wanted : ℕ) (events : List Event) : Prop :=
  ∀ front stretch back, events = front ++ (stretch ++ back) →
    (front.filterMap Event.sender).length < wanted → stretch.filterMap Event.sender = [] →
      stretch.count .quiet < maxTimeout

theorem InTime.behind {wanted senderId : ℕ} {before events : List Event}
    (silent : before.filterMap Event.sender = [])
    (inTime : InTime wanted (before ++ .data senderId :: events)) : InTime (wanted - 1) events := by
  intro front stretch back split few quiet
  refine inTime (before ++ .data senderId :: front) stretch back (by simp [split]) ?_ quiet
  have counted : (before ++ .data senderId :: front).filterMap Event.sender =
      senderId :: front.filterMap Event.sender := by
    rw [filterMap_append, silent]
    rfl
  rw [counted, length_cons]
  omega

theorem inTime_of_count {events : List Event} (few : events.count .quiet < maxTimeout)
    (wanted : ℕ) : InTime wanted events := by
  rintro front stretch back rfl - -
  rw [count_append, count_append] at few
  omega

/-- Neither the loop that waits for the parameters nor the one that waits for messages runs into its
timeout. -/
structure Patient (participantId : ℕ) (events : List Event) : Prop where
  params : participantId ≠ 1 → (events.takeWhile (· ≠ .params)).count .quiet < maxTimeout
  data : InTime (secretShares - 1) (behindParams participantId events)

/-! ### What a participant takes from the network -/

section Refinement

variable [CommGroup G] {setup : Setup G} (works : setup.Works)

include works

theorem readClParams_pack :
    readClParams setup.pari (packClParams setup.pari setup.generated) = some setup.generated := by
  have size : msgBufSize = 65536 := rfl
  have fits := works.params
  have integers := works.readsInteger
  rw [clParamsMessage, length_serializeMessage] at fits
  dsimp only at fits
  generalize setup.generated = params at fits integers ⊢
  rcases params with ⟨deltaK, gq, q⟩
  have readsDelta := integers deltaK (by simp)
  have readsGq := works.reads gq
  have readsQ := integers q (by simp)
  generalize packed : packClParams setup.pari ⟨deltaK, gq, q⟩ = data at fits
  rw [packClParams] at packed
  generalize setup.pari.integerToStr deltaK = first at *
  generalize setup.pari.toStr gq = second at *
  generalize setup.pari.integerToStr q = third at *
  have firstSize : EndsAt data 0 _ := ⟨[], packed.symm, rfl⟩
  have secondSize : EndsAt data 8 _ := firstSize.skip (length_writeLe 8 _)
  have thirdSize : EndsAt data 16 _ := secondSize.skip (length_writeLe 8 _)
  have firstText : EndsAt data 24 _ := thirdSize.skip (length_writeLe 8 _)
  have secondText := firstText.skip rfl
  have thirdText := secondText.skip rfl
  have total := thirdText.length
  rw [readClParams, firstSize.readSize (by omega)]
  simp only [secondSize.readSize (show second.length < 2 ^ 64 by omega),
    thirdSize.readSize (show third.length < 2 ^ 64 by omega), Option.bind_eq_bind,
    Option.bind_some, copyText, works.memory, if_true,
    Nat.mod_eq_of_lt (show 24 + first.length < 2 ^ 64 by omega),
    Nat.mod_eq_of_lt (show 24 + first.length + second.length < 2 ^ 64 by omega),
    firstText.readAt (prefix_append ..), secondText.readAt (prefix_append ..),
    thirdText.readAt prefix_rfl, Option.map_some, readsDelta, readsGq, readsQ]

omit works in
theorem eq_quiet {event : Event} (empty : event.bytes setup = []) : event = .quiet := by
  have nonempty (message : Message) : serializeMessage message ≠ [] := by
    refine ne_nil_of_length_pos ?_
    rw [length_serializeMessage]
    omega
  cases event with
  | quiet => rfl
  | params => exact absurd empty (nonempty _)
  | data senderId => exact absurd empty (nonempty _)

variable {participantId : ℕ} {events : List Event}

theorem awaitClParams_bytes (fromOthers : FromOthers participantId events) (timeouts : ℕ) :
    ∃ params rest, awaitClParams setup.pari (events.map (Event.bytes setup)) timeouts =
        some (params, rest.map (Event.bytes setup)) ∧
      params.getD setup.generated = setup.generated ∧ rest <:+ events ∧
      (timeouts + (events.takeWhile (· ≠ .params)).count .quiet < maxTimeout →
        rest = (events.dropWhile (· ≠ .params)).tail) := by
  induction events generalizing timeouts with
  | nil => exact ⟨none, [], rfl, rfl, suffix_rfl, fun _ => rfl⟩
  | cons event events ih =>
    have later := ih (fromOthers.of_suffix (suffix_cons ..))
    rw [map_cons, awaitClParams]
    split_ifs with waits empty
    · rcases later (timeouts + 1) with ⟨params, rest, awaited, same, suffix, exact⟩
      refine ⟨params, rest, awaited, same, suffix.trans (suffix_cons ..), ?_⟩
      intro patient
      rw [eq_quiet empty, takeWhile_cons_of_pos rfl, count_cons_self] at patient
      rw [exact (by omega), eq_quiet empty, dropWhile_cons_of_pos rfl]
    · cases event with
      | quiet => exact absurd rfl empty
      | params =>
        have same : strcmpEqual (ascii "CL_PARAMS".toList ++ [0])
            (ascii "CL_PARAMS".toList ++ [0]) = some true := by
          decide
        refine ⟨some setup.generated, events, ?_, rfl, suffix_cons .., fun _ => rfl⟩
        rw [Event.bytes, clParamsMessage, deserializeMessage_take works.params,
          Option.bind_eq_bind, Option.bind_some]
        rw [same, Option.bind_eq_bind, Option.bind_some, if_pos rfl, readClParams_pack works]
        rfl
      | data senderId =>
        have member := mem_of_mem_erase (fromOthers senderId mem_cons_self)
        rw [Event.bytes, Setup.dataMessage, dkgMessage,
          deserializeMessage_take (works.data senderId member), Option.bind_eq_bind,
          Option.bind_some]
        -- The loop drops what is not the parameters.
        rcases later timeouts with ⟨params, rest, awaited, same, suffix, exact⟩
        refine ⟨params, rest, awaited, same, suffix.trans (suffix_cons ..), ?_⟩
        exact exact
    · exact ⟨none, event :: events, rfl, rfl, suffix_rfl, fun patient => by omega⟩

def Setup.delivery (setup : Setup G) (participantId senderId : ℕ) : Delivery G :=
  ⟨senderId, setup.commitments senderId, [setup.dealt senderId participantId]⟩

theorem readPoll_data {senderId : ℕ} (member : 1 ≤ participantId ∧ participantId ≤ secretShares)
    (other : senderId ∈ others participantId) {initialized : ℕ → Bool}
    (known : initialized senderId = true) :
    readPoll setup.pari.toPlatform participantId initialized (setup.dataMessage senderId) =
      some (some (setup.delivery participantId senderId)) := by
  have three : secretShares = 3 := rfl
  rcases (nodup_range' ..).mem_erase_iff.mp other with ⟨different, sender⟩
  have bounds := mem_range'_1.mp sender
  have receivers : ∀ share ∈ (others senderId).map fun j =>
      (j, writeBe (sizeBytes (setup.dealt senderId j)) (setup.dealt senderId j)),
      share.1 < 2 ^ 31 := by
    intro share present
    rcases mem_map.mp present with ⟨j, receiver, rfl⟩
    have inside := mem_range'_1.mp (mem_of_mem_erase receiver)
    omega
  have here : participantId ∈ others senderId := by
    rw [others, (nodup_range' ..).mem_erase_iff, mem_range'_1]
    omega
  have count := count_eq_one_of_mem (nodup_others senderId) here
  refine (readPoll_dkgMessage works.memory works.reads (by simp [Setup.commitments]) (by omega)
    different known receivers (works.data senderId sender)).trans ?_
  rw [filter_map, map_map, Function.comp_def, Function.comp_def]
  simp only [filter_eq, count, replicate_one, map_cons, map_nil,
    readBe_writeBe_of_lt (lt_pow_sizeBytes _)]
  rfl

theorem deliveries_bytes (member : 1 ≤ participantId ∧ participantId ≤ secretShares)
    {initialized : ℕ → Bool}
    (known : ∀ senderId ∈ others participantId, initialized senderId = true)
    (fromOthers : FromOthers participantId events) (received : ℕ) {before : List Event}
    (silent : before.filterMap Event.sender = []) :
    ∃ senders, deliveries setup.pari.toPlatform participantId initialized
        (events.map (Event.bytes setup)) received (before.count .quiet) =
          some (senders.map (setup.delivery participantId)) ∧
      senders.length ≤ secretShares - 1 - received ∧ senders ⊆ others participantId ∧
      (InTime (secretShares - 1 - received) (before ++ events) → senders =
        (events.filterMap Event.sender).take (secretShares - 1 - received)) := by
  -- the polls since the last message are those before, so their empty ones are the counter
  induction events generalizing received before with
  | nil => exact ⟨[], rfl, by simp, by simp, by simp⟩
  | cons event events ih =>
    have later := ih (fromOthers.of_suffix (suffix_cons ..))
    have stillSilent (skipped : event.sender = none) :
        (before ++ [event]).filterMap Event.sender = [] := by
      simp [silent, skipped]
    rw [map_cons, deliveries, append_cons]
    split_ifs with goesOn empty
    · obtain rfl := eq_quiet empty
      have continued := later received (stillSilent rfl)
      rw [count_append, count_singleton_self] at continued
      exact continued
    · cases event with
      | quiet => exact absurd rfl empty
      | params =>
        have differs : strcmpEqual (ascii "DKG_DATA".toList ++ [0])
            (ascii "CL_PARAMS".toList ++ [0]) = some false := by
          decide
        have skipped : readPoll setup.pari.toPlatform participantId initialized
            (Event.params.bytes setup) = some none := by
          rw [Event.bytes, readPoll, clParamsMessage, deserializeMessage_take works.params,
            Option.bind_eq_bind, Option.bind_some]
          rw [differs, Option.bind_eq_bind, Option.bind_some, if_neg (by simp)]
        have continued := later received (stillSilent rfl)
        rw [count_append, count_singleton, if_neg (by simp), Nat.add_zero] at continued
        rw [skipped]
        exact continued
      | data senderId =>
        -- A repeated message is counted like a new one.
        have other := fromOthers senderId mem_cons_self
        rcases @later (received + 1) [] rfl with ⟨senders, read, few, others, exact⟩
        rw [count_nil] at read
        rw [Event.bytes, readPoll_data works member other (known _ other), read]
        refine ⟨senderId :: senders, rfl, ?_, cons_subset.mpr ⟨other, others⟩, ?_⟩
        · rw [length_cons]
          omega
        · intro inTime
          rw [← append_cons] at inTime
          rw [exact (inTime.behind silent),
            show secretShares - 1 - received = secretShares - 1 - (received + 1) + 1 by omega]
          rfl
    · refine ⟨[], rfl, by simp, by simp, ?_⟩
      intro inTime
      by_cases full : secretShares - 1 ≤ received
      · rw [Nat.sub_eq_zero_of_le full, take_zero]
      · have waited := inTime [] before (event :: events) (by simp) (by simp; omega) silent
        omega

end Refinement

/-! ### What a participant holds -/

section Keys

variable [CommGroup G] {setup : Setup G} {participantId senderId total : ℕ}
  {senders : List ℕ} {protocol : Protocol G}

theorem foldlM_eq_none {α β : Type} {step : β → α → Option β} {steps : List α} {bad : α}
    (member : bad ∈ steps) (fails : ∀ state, step state bad = none) (state : β) :
    steps.foldlM step state = none := by
  rcases append_of_mem member with ⟨front, back, rfl⟩
  rw [foldlM_append]
  cases front.foldlM step state with
  | none => rfl
  | some next => simp [fails]

/-- The messages of these senders have been processed, and the shares so far have this sum. -/
structure Holding (setup : Setup G) (participantId : ℕ) (senders : List ℕ) (total : ℕ)
    (protocol : Protocol G) : Prop where
  initialized : protocol.isInitialized = true
  size : protocol.nParticipants = secretShares
  generator : protocol.generator = setup.generated.gq
  order : protocol.order = secp256k1Order
  participant : ∀ j < secretShares, ∃ participant, protocol.participants j = some participant ∧
    participant.isInitialized = true ∧ participant.commitments 0 =
      if j + 1 = participantId ∨ j + 1 ∈ senders then
        some (setup.generated.gq ^ setup.drawn (j + 1) 0)
      else none
  share : protocol.secretShare participantId = some (total % secp256k1Order)

namespace Holding

section Step

variable (holding : Holding setup participantId senders total protocol)

include holding

theorem storeCommitments (sender : 1 ≤ senderId) :
    Holding setup participantId (senders ++ [senderId]) total
      (protocol.storeCommitments senderId (setup.commitments senderId)) where
  __ := holding
  participant := by
    intro j inside
    rcases holding.participant j inside with ⟨participant, added, initialized, commitment⟩
    by_cases here : j = senderId - 1
    · subst here
      have index : senderId - 1 + 1 = senderId := by omega
      refine ⟨_, (participants_modify_self ..).trans (congrArg _ added), initialized, ?_⟩
      simp [index, Setup.commitments, dkgThreshold]
    · have other : j + 1 ≠ senderId := by omega
      refine ⟨participant, (participants_modify_of_ne _ here).trans added, initialized, ?_⟩
      simp [commitment, other]
  share := by
    rw [← holding.share]
    exact secretShare_modify fun _ => rfl

theorem addToShare (share : ℕ) : Holding setup participantId senders (total + share)
    (protocol.addToShare participantId share) where
  __ := holding
  participant := by
    intro j inside
    rcases holding.participant j inside with ⟨participant, added, initialized, commitment⟩
    by_cases here : j = participantId - 1
    · subst here
      exact ⟨_, (participants_modify_self ..).trans (congrArg _ added), initialized, commitment⟩
    · exact ⟨participant, (participants_modify_of_ne _ here).trans added, initialized, commitment⟩
  share := by
    rw [secretShare_addToShare, holding.share, holding.order, Option.map_some, Nat.mod_add_mod]

theorem known (senderId : ℕ) (other : senderId ∈ others participantId) :
    protocol.initialized senderId = true := by
  have bounds := mem_range'_1.mp (mem_of_mem_erase other)
  rcases holding.participant (senderId - 1) (by omega) with ⟨participant, added, initialized, -⟩
  rw [Protocol.initialized, added]
  exact initialized

theorem complete (generated : (dkgGeneratePublicKey protocol).isSome) :
    ∀ senderId ∈ others participantId, senderId ∈ senders := by
  intro senderId other
  by_contra missing
  rcases (nodup_range' ..).mem_erase_iff.mp other with ⟨different, member⟩
  have bounds := mem_range'_1.mp member
  have index : senderId - 1 + 1 = senderId := by omega
  rcases holding.participant (senderId - 1) (by omega) with
    ⟨participant, added, initialized, commitment⟩
  rw [index, if_neg (by simp [different, missing])] at commitment
  have fails (key : Option G) : accumulatePublicKey protocol key (senderId - 1) = none := by
    simp [accumulatePublicKey, added, initialized, commitment]
  rw [dkgGeneratePublicKey, if_neg (by simp [holding.initialized]), holding.size,
    foldlM_eq_none (mem_range.mpr (by omega)) fails] at generated
  simp at generated

variable [DecidableEq G]

theorem publicKey (complete : ∀ senderId ∈ others participantId, senderId ∈ senders) :
    ∃ final, dkgGeneratePublicKey protocol = some final ∧
      final.secretShare participantId = some (total % secp256k1Order) ∧
      ∀ j < secretShares, final.initialized (j + 1) = true ∧
        (final.participants j).bind Participant.publicKey =
          some (setup.generated.gq ^ setup.secret) := by
  have committed : ∀ j < secretShares, ∃ participant, protocol.participants j = some participant ∧
      participant.isInitialized = true ∧
        participant.commitments 0 = some (protocol.generator ^ setup.drawn (j + 1) 0) := by
    intro j inside
    rcases holding.participant j inside with ⟨participant, added, initialized, commitment⟩
    refine ⟨participant, added, initialized, ?_⟩
    rw [commitment, holding.generator, if_pos]
    by_cases own : j + 1 = participantId
    · exact .inl own
    · refine .inr (complete _ ?_)
      rw [others, (nodup_range' ..).mem_erase_iff, mem_range'_1]
      omega
  have key := @foldlM_accumulatePublicKey _ _ _ _ (fun j => setup.drawn (j + 1)) _ (by decide)
    committed
  rw [dkgGeneratePublicKey, if_neg (by simp [holding.initialized]), holding.size, key]
  refine ⟨_, rfl, ?_, ?_⟩
  · rw [← holding.share, secretShare, secretShare, Protocol.setPublicKey]
    dsimp only
    split_ifs
    · rw [Option.map_map]
      rfl
    · rfl
  · intro j inside
    rcases committed j inside with ⟨participant, added, initialized, -⟩
    simp [Protocol.setPublicKey, Protocol.initialized, holding.size, inside, added, initialized,
      holding.generator, Setup.secret]

end Step

section Deliver

variable [DecidableEq G] {state : Protocol G × List Receipt}

variable (holding : Holding setup participantId senders total state.1)

include holding

theorem deliver (sender : 1 ≤ senderId) :
    Holding setup participantId (senders ++ [senderId])
      (total + setup.dealt senderId participantId)
      (Dkg.deliver participantId state (setup.delivery participantId senderId)).1 := by
  rw [Dkg.deliver, Setup.delivery, foldl_cons, foldl_nil, addShare_eq]
  exact (holding.storeCommitments sender).addToShare _

theorem deliverAll {processed : List ℕ} (low : ∀ senderId ∈ processed, 1 ≤ senderId) :
    Holding setup participantId (senders ++ processed)
      (total + (processed.map (setup.dealt · participantId)).sum)
      ((processed.map (setup.delivery participantId)).foldl (Dkg.deliver participantId)
        state).1 := by
  induction processed generalizing senders total state with
  | nil => simpa using holding
  | cons senderId processed ih =>
    rw [forall_mem_cons] at low
    have next := ih (holding.deliver low.1) low.2
    rw [append_assoc, Nat.add_assoc] at next
    exact next

end Deliver

end Holding

section Group

variable [DecidableEq G]

variable (G) in
/-- A participant as `dkg_add_participant` leaves it. -/
def freshParticipant : Participant G :=
  { threshold := dkgThreshold, secretShare := 0, secretPolyCoeffs := fun _ => 0,
    commitments := fun _ => none, publicKey := none, isInitialized := true }

omit [CommGroup G] [DecidableEq G] in
theorem dkgCommitteeInit_eq (generator : G) (participantId : ℕ) :
    ∃ state, dkgCommitteeInit generator secp256k1Order participantId secretShares dkgThreshold =
        some state ∧ state.protocol.isInitialized = true ∧
      state.protocol.nParticipants = secretShares ∧ state.protocol.generator = generator ∧
      state.protocol.order = secp256k1Order ∧
      ∀ j < secretShares, state.protocol.participants j = some (freshParticipant G) := by
  refine ⟨_, rfl, rfl, rfl, rfl, rfl, ?_⟩
  rintro (_ | _ | _ | j) inside
  · rfl
  · rfl
  · rfl
  · exact absurd inside (by simp [secretShares])

theorem exists_holding (setup : Setup G)
    (member : 1 ≤ participantId ∧ participantId ≤ secretShares) :
    ∃ state protocol computedShares start,
      dkgCommitteeInit setup.generated.gq secp256k1Order participantId secretShares dkgThreshold =
          some state ∧
        dkgGeneratePolynomialCommitmentsAndShares state.protocol participantId
          (setup.drawn participantId) = some (protocol, computedShares) ∧
        dkgBroadcastCommitmentsAndShares setup.pari protocol participantId computedShares =
          some (start, setup.dataMessage participantId) ∧
        Holding setup participantId [] (setup.dealt participantId participantId) start := by
  rcases dkgCommitteeInit_eq setup.generated.gq participantId with
    ⟨state, committee, initialized, size, generator, order, fresh⟩
  generalize dealer : (freshParticipant G).withPolynomial state.protocol.generator
    (setup.drawn participantId) = participant
  have positive : 0 < (freshParticipant G).threshold := Nat.zero_lt_two
  have shares : computeShare state.protocol.order (freshParticipant G).threshold
      participant.secretPolyCoeffs = setup.dealt participantId := by
    funext x
    rw [order, Setup.dealt]
    apply computeShare_congr positive
    intro k below
    rw [← dealer]
    exact if_pos below
  have commitments : (List.range participant.threshold).mapM participant.commitments =
      some (setup.commitments participantId) := by
    rw [← dealer, generator]
    rfl
  have receivers : (List.range' 1 state.protocol.nParticipants).filter (· != participantId) =
      others participantId := by
    rw [size]
    exact ((nodup_range' ..).erase_eq_filter _).symm
  have generated := generate_eq_some (setup.drawn participantId) member.1 (by omega)
    (fresh (participantId - 1) (by omega)) rfl positive
  rw [dealer, shares] at generated
  have stored := Function.update_self (participantId - 1) (some participant)
    state.protocol.participants
  refine ⟨state, _, _, (state.protocol.setParticipant (participantId - 1) participant).startShare
    participantId (setup.dealt participantId), committee, generated, ?_, initialized, size,
    generator, order, ?_, ?_⟩
  · rw [dkgBroadcastCommitmentsAndShares, Protocol.setParticipant]
    dsimp only
    rw [stored, Option.bind_eq_bind, Option.bind_some, if_neg (by simp [← dealer]; rfl),
      commitments, Option.bind_eq_bind, Option.bind_some, receivers]
    rfl
  · intro j inside
    by_cases own : j = participantId - 1
    · subst own
      have index : participantId - 1 + 1 = participantId := by omega
      refine ⟨_, (participants_modify_self ..).trans (congrArg _ stored), ?_, ?_⟩
      · rw [← dealer]
        rfl
      · rw [if_pos (.inl index), index, ← dealer, ← generator]
        rfl
    · refine ⟨freshParticipant G, ?_, rfl, ?_⟩
      · exact (participants_modify_of_ne _ own).trans
          ((Function.update_of_ne own ..).trans (fresh j inside))
      · rw [if_neg (by simp; omega)]
        rfl
  · rw [secretShare, startShare, participants_modify_self, Protocol.setParticipant]
    dsimp only
    rw [stored, Option.map_some, Option.map_some, order, Nat.zero_add]

/-- The run up to the public key, and the senders of the messages that are processed. -/
theorem exists_run (works : setup.Works)
    (member : 1 ≤ participantId ∧ participantId ≤ secretShares) {events : List Event}
    (fromOthers : FromOthers participantId events) :
    ∃ senders protocol, Holding setup participantId senders
        (setup.dealt participantId participantId +
          (senders.map (setup.dealt · participantId)).sum) protocol ∧
      setup.run participantId events = (dkgGeneratePublicKey protocol).map (fun final =>
        (setup.dataMessage participantId, final)) ∧
      senders.length ≤ secretShares - 1 ∧
      (Patient participantId events →
        senders = (heard participantId events).take (secretShares - 1)) := by
  have negotiated : ∃ rest, dkgNegotiateClParams setup.pari setup.generated participantId
      (events.map (Event.bytes setup)) =
        some (setup.generated, rest.map (Event.bytes setup)) ∧ rest <:+ events ∧
      (Patient participantId events → rest = behindParams participantId events) := by
    rw [dkgNegotiateClParams, behindParams]
    split_ifs with first
    · exact ⟨events, rfl, suffix_rfl, fun _ => rfl⟩
    · rcases awaitClParams_bytes works fromOthers 0 with
        ⟨params, rest, awaited, same, suffix, exact⟩
      refine ⟨rest, ?_, suffix, fun patient => exact ((Nat.zero_add _).trans_lt
        (patient.params first))⟩
      rw [awaited, Option.map_some]
      dsimp only
      rw [same]
  rcases negotiated with ⟨rest, negotiated, suffix, behind⟩
  rcases exists_holding setup member with
    ⟨state, dealt, computedShares, start, committee, generated, sent, holding⟩
  rcases @deliveries_bytes _ _ _ works participantId rest member start.initialized
    holding.known (fromOthers.of_suffix suffix) 0 [] rfl with
    ⟨senders, delivered, few, others, exact⟩
  rw [count_nil] at delivered
  have present : ¬(start.participants (participantId - 1)).isNone := by
    rcases holding.participant (participantId - 1) (by omega) with ⟨participant, added, -⟩
    simp [added]
  have low : ∀ senderId ∈ senders, 1 ≤ senderId := fun senderId processed =>
    (mem_range'_1.mp (mem_of_mem_erase (others processed))).1
  refine ⟨senders, _, @Holding.deliverAll _ _ _ _ _ _ _ (start, []) holding _ low, ?_, few, ?_⟩
  · rw [Setup.run, dkgReachKeys, negotiated, Option.bind_eq_bind, Option.bind_some]
    dsimp only
    rw [committee, Option.bind_eq_bind, Option.bind_some, dkgGenerationPhase, generated]
    simp only [Option.bind_eq_bind, Option.bind_some, sent, dkgReceiveCommitmentsAndShares, present,
      Bool.false_eq_true, if_false, receiveLoop_eq, delivered, Option.map_eq_bind,
      Function.comp_def]
  · intro patient
    rw [behind patient] at exact
    exact exact patient.data

omit [CommGroup G] [DecidableEq G] in
theorem sum_dealt (setup : Setup G) (member : 1 ≤ participantId ∧ participantId ≤ secretShares)
    (few : senders.length ≤ secretShares - 1)
    (complete : ∀ senderId ∈ others participantId, senderId ∈ senders) :
    setup.dealt participantId participantId + (senders.map (setup.dealt · participantId)).sum =
      ∑ j ∈ Finset.range secretShares, setup.dealt (j + 1) participantId := by
  rw [← length_others member] at few
  -- There are no more messages than other participants, so each of them is heard once.
  have perm := (subperm_of_subset (nodup_others participantId) complete).perm_of_length_le few
  have all := perm_cons_erase (show participantId ∈ List.range' 1 secretShares by
    rw [mem_range'_1]
    omega)
  have total := (((perm.symm.cons participantId).trans all.symm).map
    (setup.dealt · participantId)).sum_eq
  rw [map_cons, sum_cons] at total
  rw [total]
  simp [secretShares, range'_succ, Finset.sum_range_succ, Nat.add_assoc]

/-- Whatever is lost, repeated and reordered, participants that finish have sent the messages that
the others received, agree on the public key, and any two of them can compute the secret key. -/
theorem dkg_agreement (setup : Setup G) (works : setup.Works) (events : ℕ → List Event)
    (fromOthers : ∀ participantId, FromOthers participantId (events participantId))
    (participantIds : ℕ → ℕ) {count : ℕ} (enough : dkgThreshold ≤ count)
    (members : ∀ k < count, 1 ≤ participantIds k ∧ participantIds k ≤ secretShares)
    (distinct : ∀ k < count, ∀ l < count, participantIds k = participantIds l → k = l)
    {results : ℕ → Bytes × Protocol G} (finished : ∀ k < count,
      setup.run (participantIds k) (events (participantIds k)) = some (results k)) :
    (∀ k < count, (results k).1 = setup.dataMessage (participantIds k) ∧
      ∀ j < secretShares, ((results k).2.participants j).bind Participant.publicKey =
        some (setup.generated.gq ^ setup.secret)) ∧
    ∃ shares : ℕ → ℕ,
      (∀ k < count, (results k).2.secretShare (participantIds k) = some (shares k)) ∧
      dkgReconstructSecretFromShares (fun k => participantIds k) shares count secp256k1Order =
        some (setup.secret % secp256k1Order) := by
  have outcome : ∀ k < count, (results k).1 = setup.dataMessage (participantIds k) ∧
      (results k).2.secretShare (participantIds k) = some ((∑ j ∈ Finset.range secretShares,
        setup.dealt (j + 1) (participantIds k)) % secp256k1Order) ∧
      ∀ j < secretShares, ((results k).2.participants j).bind Participant.publicKey =
        some (setup.generated.gq ^ setup.secret) := by
    intro k inside
    have member := members k inside
    rcases exists_run works member (fromOthers _) with ⟨senders, protocol, holding, run, few, -⟩
    rw [finished k inside] at run
    -- There is no public key unless all the others are heard.
    have complete := holding.complete (by simpa using congrArg Option.isSome run.symm)
    rcases holding.publicKey complete with ⟨final, generated, share, key⟩
    rw [generated, Option.map_some, Option.some.injEq] at run
    rw [run, ← sum_dealt setup member few complete]
    exact ⟨rfl, share, fun j below => (key j below).2⟩
  refine ⟨fun k inside => ⟨(outcome k inside).1, (outcome k inside).2.2⟩, _,
    fun k inside => (outcome k inside).2.1, ?_⟩
  have small : secretShares < secp256k1Order := by decide +kernel
  have nodes : Distinct secp256k1Order count fun k => participantIds k := by
    refine ⟨?_, ?_, ?_⟩
    · intro k inside
      exact_mod_cast (members k inside).1
    · intro k inside
      exact_mod_cast (members k inside).2.trans_lt small
    · intro k insideK l insideL same
      exact distinct k insideK l insideL (by exact_mod_cast same)
  -- The shares lie on the sum of the polynomials of all participants.
  have values : ∀ k < count, (((∑ j ∈ Finset.range secretShares,
      setup.dealt (j + 1) (participantIds k)) % secp256k1Order : ℕ) : ZMod secp256k1Order) =
        Interpolation.evaluate dkgThreshold (fun index => ∑ j ∈ Finset.range secretShares,
          (setup.drawn (j + 1) index : ZMod secp256k1Order)) ((participantIds k : ℤ) : ZMod _) := by
    intro k inside
    rw [ZMod.natCast_mod, Nat.cast_sum, Int.cast_natCast, Interpolation.evaluate_sum]
    exact Finset.sum_congr rfl fun j _ => natCast_computeShare Nat.zero_lt_two _
  exact reconstruct_eq_some nodes Nat.zero_lt_two enough enough values (Nat.cast_sum _ _)

/-- A participant that does not run into a timeout finishes exactly if, of the messages behind the
parameters, the first two are of different participants, its share is not zero, and its files can be
written. -/
theorem dkg_finishes_iff (setup : Setup G) (works : setup.Works)
    (member : 1 ≤ participantId ∧ participantId ≤ secretShares) {events : List Event}
    (fromOthers : FromOthers participantId events) (patient : Patient participantId events)
    (outcomes : FileOutcomes) (file : Option Bytes) :
    (∃ saved, setup.finish participantId events outcomes file = some (.rlcOk, saved)) ↔
      (∀ senderId ∈ others participantId,
        senderId ∈ (heard participantId events).take (secretShares - 1)) ∧
      (∑ j ∈ Finset.range secretShares, setup.dealt (j + 1) participantId) % secp256k1Order ≠ 0 ∧
      outcomes.directory = true ∧ outcomes.keyFile = true ∧
      (participantId = 1 → outcomes.publicKeyFile = true ∧ outcomes.publicKeyText = true) := by
  rcases exists_run works member fromOthers with ⟨senders, protocol, holding, run, few, exact⟩
  have finish : setup.finish participantId events outcomes file =
      (setup.run participantId events).map fun result => dkgSaveKeysToFiles SecretShare.bnSize
        outcomes ⟨result.2, participantId, secretShares, dkgThreshold, true⟩ file := by
    rw [Setup.run, Option.map_eq_bind]
    rfl
  rw [← exact patient, finish, run]
  by_cases complete : ∀ senderId ∈ others participantId, senderId ∈ senders
  · rcases holding.publicKey complete with ⟨final, generated, share, keys⟩
    rw [sum_dealt setup member few complete] at share
    rcases Option.map_eq_some_iff.mp share with ⟨participant, found, value⟩
    have initialized := (keys (participantId - 1) (by omega)).1
    rw [Nat.sub_add_cancel member.1, Protocol.initialized, found, Option.any_some] at initialized
    have fits : sizeBytes participant.secretShare ≤ SecretShare.bnSize := by
      rw [value, sizeBytes_le_iff]
      exact (Nat.mod_lt _ (by decide +kernel)).trans (by decide +kernel)
    have inside : participantId ≤ maxParticipants := member.2.trans (by decide)
    rw [generated, Option.map_some, Option.map_some, ← value]
    simp only [iff_true_intro complete, true_and, Option.some.injEq, Prod.ext_iff]
    rw [← @save_eq_rlcOk_iff _ SecretShare.bnSize outcomes
      ⟨final, participantId, secretShares, dkgThreshold, true⟩ rfl member.1 inside _ found
      initialized fits file]
    simp
  · refine iff_of_false ?_ fun all => complete all.1
    rintro ⟨saved, finished⟩
    apply complete
    apply holding.complete
    rw [← Option.isSome_map, ← Option.isSome_map, finished]
    rfl

end Group

end Keys

section Sample

def sampleSetup : Setup (Multiplicative (ZMod 2)) where
  pari :=
    { samplePlatform with
      toStr := fun form => ascii [if form = Multiplicative.ofAdd 1 then '1' else '0']
      readInteger := fun text => some (if text = ascii ['7'] then 7 else -23)
      integerToStr := fun value => ascii (if value = 7 then ['7'] else ['-', '2', '3']) }
  generated := { deltaK := -23, gq := Multiplicative.ofAdd 1, q := 7 }
  drawn i k := i + k

theorem sampleSetup_works : sampleSetup.Works where
  memory _ := rfl
  reads := by decide +kernel
  readsInteger := by decide +kernel
  params := by decide +kernel
  data := by decide +kernel

def sampleEvents : ℕ → List Event
  | 1 => [.data 3, .quiet, .data 2]
  | 3 => [.data 2, .quiet, .params, .data 1, .data 2]
  | _ => []

end Sample

theorem dkg_agreement_first_third :
    ∃ results : ℕ → Bytes × Protocol (Multiplicative (ZMod 2)), ∃ shares,
      (∀ k < 2, sampleSetup.run (2 * k + 1) (sampleEvents (2 * k + 1)) = some (results k)) ∧
      (∀ k < 2, ((results k).2.participants 0).bind Participant.publicKey =
        some (Multiplicative.ofAdd 1 ^ 6)) ∧
      dkgReconstructSecretFromShares (fun k => (2 * k + 1 : ℕ)) shares 2 secp256k1Order =
        some 6 := by
  have finishes : ∀ k < 2, ∃ result,
      sampleSetup.run (2 * k + 1) (sampleEvents (2 * k + 1)) = some result := by
    intro k inside
    rw [← Option.isSome_iff_exists]
    revert k
    decide +kernel
  have : Nonempty (Bytes × Protocol (Multiplicative (ZMod 2))) := ⟨[], sampleProtocol⟩
  choose! results finished using finishes
  have fromOthers (participantId : ℕ) : FromOthers participantId (sampleEvents participantId) := by
    match participantId with
    | 1 => exact (by decide : ∀ senderId ∈ [3, 2], senderId ∈ others 1)
    | 3 => exact (by decide : ∀ senderId ∈ [2, 1, 2], senderId ∈ others 3)
    | 0 | 2 | _ + 4 => simp [FromOthers, sampleEvents]
  rcases dkg_agreement sampleSetup sampleSetup_works sampleEvents fromOthers (2 * · + 1) le_rfl
    (by decide) (by omega) finished with ⟨keys, shares, -, key⟩
  refine ⟨results, shares, finished, fun k inside => (keys k inside).2 0 (by decide), ?_⟩
  exact key.trans (by decide +kernel)

def slowEvents : List Event :=
  List.replicate 250 .quiet ++ .params :: (List.replicate 250 .quiet ++ [.data 1, .data 3])

/-- Each loop has its own timeout. A message that arrives before the parameters is lost. -/
theorem dkg_finishes_second :
    (∃ saved, sampleSetup.finish 2 slowEvents ⟨true, true, 100, true, true⟩ none =
      some (.rlcOk, saved)) ∧
    ¬∃ saved, sampleSetup.finish 2 [.data 3, .params, .data 1] ⟨true, true, 100, true, true⟩
      none = some (.rlcOk, saved) := by
  have slow : FromOthers 2 slowEvents :=
    (by decide +kernel : ∀ senderId ∈ slowEvents.filterMap Event.sender, senderId ∈ others 2)
  have lost : FromOthers 2 [.data 3, .params, .data 1] :=
    (by decide : ∀ senderId ∈ [3, 1], senderId ∈ others 2)
  rw [dkg_finishes_iff sampleSetup sampleSetup_works (by decide) slow
      ⟨fun _ => by decide +kernel, inTime_of_count (by decide +kernel) _⟩,
    dkg_finishes_iff sampleSetup sampleSetup_works (by decide) lost
      ⟨fun _ => by decide, inTime_of_count (by decide) _⟩]
  decide +kernel

end TigerMixer.Dkg
