import TigerMixer.Auditor.Replies

/-!
# When the auditor recovers the message of the dealer

The verification accepts only values of the dealt polynomials, whoever sends them. But the
reconstruction takes the first `THRESHOLD` shares of a block even if they are one share sent twice,
and it ends at the largest block that anybody has sent.
-/

namespace TigerMixer.Auditor

open Bytes SecretShare PrimeOrderGroup List

universe u

variable {scheme : Scheme} {E : Type u} [AddCommGroup E] [DecidableEq E]
  [Module (ZMod scheme.order) E] {group : PrimeOrderGroup scheme.order E} {codec : PointCodec E}

section Fetch

variable {heap : ℕ} {tag : ℤ} {commitment : VssCommitment} {replies : List (Option Bytes)}
  {carried : List (List Share)}

theorem verifyShares_eq_true_iff {shares : List Share} :
    verifyShares scheme group codec (some commitment) (shares.map some) = some true ↔
      ∀ share ∈ shares, verifyShareWithCommitment scheme group codec share commitment = true := by
  induction shares with
  | nil => simp [verifyShares]
  | cons share shares ih =>
    rw [map_cons, verifyShares, forall_mem_cons, ← ih, Option.any_some,
      verifyShareWithStoredCommitment]
    by_cases verified : verifyShareWithCommitment scheme group codec share commitment = true
    · simp [verified, verificationThrows_eq_false verified]
    · simp [verified]

section Carried

variable (known : tag = 0 ∨ tag = 1) (carries : List.Forall₂ Carries replies carried)
  (few : carried.flatten.length < 2 ^ 31)
  (memory : (carried.flatten.length + 100) * recordSize ≤ heap)

include known carries few memory

omit known in
theorem collectShares_empty_of_carries : ∃ all, collectShares heap replies .empty = some all ∧
    all.records = carried.flatten.map some ∧ all.shares = carried.flatten := by
  obtain ⟨all, collects, intact⟩ := collectShares_of_carries carries intact_empty
    (by simpa using few) (by simpa using memory)
  rw [nil_append] at intact
  exact ⟨all, collects, intact.records, intact.shares_eq⟩

/-- On well-formed replies the auditor hands out a message exactly if all their shares verify and
are reconstructed to it. -/
theorem fetchSharesByMsgid_eq_message_iff {buffer : Bytes} {length : ℕ} :
    fetchSharesByMsgid scheme group codec heap tag (some commitment) replies =
        some (.message buffer length) ↔
      (∀ share ∈ carried.flatten,
        verifyShareWithCommitment scheme group codec share commitment = true) ∧
      reconstructSecretFromShares scheme carried.flatten = .ok (buffer, length) := by
  obtain ⟨all, collects, records, shares⟩ := collectShares_empty_of_carries carries few memory
  have valid : ¬(tag ≠ 0 ∧ tag ≠ 1) := by omega
  simp only [fetchSharesByMsgid, if_neg valid, collects, Option.bind_eq_bind, Option.bind_some,
    shares, records, length_map, ← verifyShares_eq_true_iff]
  by_cases enough : scheme.threshold ≤ carried.flatten.length
  · rw [if_pos enough]
    rcases verifyShares scheme group codec (some commitment) (carried.flatten.map some) with
      _ | _ | _
    · simp
    · simp
    · rcases reconstructSecretFromShares scheme carried.flatten with (_ | _ | _) | ⟨data, size⟩ <;>
        simp
  · -- fewer shares than the threshold are not reconstructed
    rw [if_neg enough, reconstructSecretFromShares, if_pos (not_le.mp enough)]
    split_ifs <;> simp

end Carried

end Fetch

section Genuine

variable {random : ℕ → ℕ → Fin scheme.order} {secret : Bytes} {saved : SavedCoeffs}
  {shares : List Share} {commitment : VssCommitment}

theorem accepted_of_dealt (dealt : Dealt scheme random secret saved shares)
    (created : createVssCommitments scheme group codec saved secret = some commitment)
    {share : Share}
    (verified : verifyShareWithCommitment scheme group codec share commitment = true) :
    Accepted scheme group codec share commitment fun index =>
      (blockCoeffs scheme random secret share.blockIndex index : ZMod scheme.order) := by
  have inside : share.blockIndex < numBlocks secret.length := by
    obtain ⟨logs, accepted⟩ := accepted_of_verify verified
    rw [← (createVssCommitments_header created).2]
    exact accepted.blockIndex
  apply (verify_iff_accepted _).mp verified
  intro index coefficient
  rw [commitments_created created inside coefficient, dealt.savedCoeffs _ inside index coefficient]

end Genuine

section Integrity

variable {random : ℕ → ℕ → Fin scheme.order} {secret : Bytes} {shares : List Share}
  {saved : SavedCoeffs} {commitment : VssCommitment}

theorem eq_of_digit_eq (large : 2 ^ 240 < scheme.order) {left right : ℤ}
    (leftBounds : -2 ^ 31 ≤ left ∧ left < 2 ^ 31) (rightBounds : -2 ^ 31 ≤ right ∧ right < 2 ^ 31)
    (equal : (digit left : ZMod scheme.order) = digit right) : left = right := by
  have bound {x : ℤ} (bounds : -2 ^ 31 ≤ x ∧ x < 2 ^ 31) : digit x < 2 ^ 64 := by
    unfold digit
    split_ifs <;> omega
  have same := eq_of_natCast_eq ((bound leftBounds).trans (by omega))
    ((bound rightBounds).trans (by omega)) equal
  unfold digit at same
  split_ifs at same <;> omega

theorem Carries.x_bounds {reply : Option Bytes} {sent : List Share} (carries : Carries reply sent)
    {share : Share} (member : share ∈ sent) : -2 ^ 31 ≤ share.x ∧ share.x < 2 ^ 31 := by
  cases carries with
  | absent => simp at member
  | empty => simp at member
  | status known => simp at member
  | packed lower upper packable =>
    rw [(packable share member).x]
    exact ⟨lower, upper⟩

theorem x_bounds_of_carries {replies : List (Option Bytes)} {carried : List (List Share)}
    (carries : List.Forall₂ Carries replies carried) :
    ∀ share ∈ carried.flatten, -2 ^ 31 ≤ share.x ∧ share.x < 2 ^ 31 := by
  induction carries with
  | nil => simp
  | cons head _ ih =>
    rw [List.flatten_cons, List.forall_mem_append]
    exact ⟨fun share member => head.x_bounds member, ih⟩

theorem determined_of_accepted (large : 2 ^ 240 < scheme.order)
    (accepted : ∀ share ∈ shares, Accepted scheme group codec share commitment fun index =>
      (blockCoeffs scheme random secret share.blockIndex index : ZMod scheme.order))
    (bounds : ∀ share ∈ shares, -2 ^ 31 ≤ share.x ∧ share.x < 2 ^ 31) {blockIdx : ℕ}
    (enough : (selected scheme.threshold blockIdx shares).length = scheme.threshold)
    (multipliable : Multipliable scheme shares blockIdx)
    (distinct : ((selected scheme.threshold blockIdx shares).map Share.x).Nodup) :
    Determined scheme shares blockIdx fun index =>
      (blockCoeffs scheme random secret blockIdx index : ZMod scheme.order) := by
  refine ⟨enough, ?_, ?_, multipliable, ?_⟩
  · apply List.Nodup.map_on _ (List.Nodup.of_map Share.x distinct)
    intro left leftMember right rightMember equal
    apply List.inj_on_of_nodup_map distinct leftMember rightMember
    exact eq_of_digit_eq large (bounds left (mem_of_mem_selected leftMember).1)
      (bounds right (mem_of_mem_selected rightMember).1) equal
  · exact fun share member => (accepted share (mem_of_mem_selected member).1).readable
  · intro share member
    obtain ⟨original, rfl⟩ := mem_of_mem_selected member
    exact (accepted share original).value

theorem stated_of_accepted
    (created : createVssCommitments scheme group codec saved secret = some commitment)
    (accepted : ∀ share ∈ shares, Accepted scheme group codec share commitment fun index =>
      (blockCoeffs scheme random secret share.blockIndex index : ZMod scheme.order)) :
    ∀ share ∈ shares,
      share.dataLength = secret.length ∧ share.blockIndex < numBlocks secret.length := by
  have header := createVssCommitments_header created
  intro share member
  have checked := accepted share member
  exact ⟨checked.dataLength.trans header.1, header.2 ▸ checked.blockIndex⟩

end Integrity

/-- The number that two accepted shares of a block are combined to: the dealt one, or twice the
value of the first one if they are at the same coordinate. -/
def combinedValue (secret : Bytes) (shares : List Share) (blockIdx : ℕ) : ℕ :=
  match selected deployed.threshold blockIdx shares with
  | [first, second] =>
    if first.x = second.x then 2 * first.value % deployed.order
    else readBe (blockBytes secret blockIdx)
  | _ => 0

/-- A block has as many shares as the threshold, RELIC can combine them, and their number fits the
bytes that it is written to. -/
structure Combinable (secret : Bytes) (shares : List Share) (blockIdx : ℕ) : Prop where
  enough : (selected deployed.threshold blockIdx shares).length = deployed.threshold
  multipliable : Multipliable deployed shares blockIdx
  fits : combinedValue secret shares blockIdx <
    256 ^ sizeOfBlock secret.length (maxBlockIndex shares + 1) blockIdx

section Deployed

variable {E : Type u} [AddCommGroup E] [DecidableEq E] [Module (ZMod deployed.order) E]
  {group : PrimeOrderGroup deployed.order E} {codec : PointCodec E}
  {random : ℕ → ℕ → Fin deployed.order} {secret : Bytes} {saved : SavedCoeffs}
  {dealtShares shares : List Share} {commitment : VssCommitment} {blockIdx : ℕ}

theorem interpolateBlock_pair (order : ℕ) (x : ℤ) (first second : ℕ) :
    interpolateBlock order [(x, first), (x, second)] = (first + second) % order := by
  simp [interpolateBlock, contribute, lagrangeCoefficientEc, lagrangeStep]

section Accepted

variable (dealt : Dealt deployed random secret saved dealtShares)
  (accepted : ∀ share ∈ shares, Accepted deployed group codec share commitment fun index =>
    (blockCoeffs deployed random secret share.blockIndex index : ZMod deployed.order))
  (bounds : ∀ share ∈ shares, -2 ^ 31 ≤ share.x ∧ share.x < 2 ^ 31)

include dealt accepted bounds

theorem yields_combinedValue (inside : blockIdx < numBlocks secret.length)
    (enough : (selected deployed.threshold blockIdx shares).length = deployed.threshold)
    (multipliable : Multipliable deployed shares blockIdx) :
    Yields deployed shares blockIdx (combinedValue secret shares blockIdx) := by
  have large : 2 ^ 240 < deployed.order := two_pow_240_lt_secp256k1Order
  obtain ⟨first, second, pair⟩ := length_eq_two.mp enough
  have original (share : Share) (member : share ∈ [first, second]) :
      share ∈ shares ∧ share.blockIndex = blockIdx := by
    rw [← pair] at member
    exact mem_of_mem_selected member
  simp only [combinedValue, pair]
  split_ifs with same
  · obtain ⟨firstMember, firstBlock⟩ := original first (by simp)
    obtain ⟨secondMember, secondBlock⟩ := original second (by simp)
    have congruent : (first.value : ZMod deployed.order) = second.value := by
      rw [(accepted first firstMember).value, (accepted second secondMember).value, same,
        firstBlock, secondBlock]
    refine ⟨enough, ?_, multipliable, ?_⟩
    · exact fun share member => (accepted share (mem_of_mem_selected member).1).readable
    · rw [pair, map_cons, map_singleton, ← same, interpolateBlock_pair, two_mul,
        mod_eq_mod_iff_natCast_eq]
      push_cast
      rw [congruent]
  · have distinct : ((selected deployed.threshold blockIdx shares).map Share.x).Nodup := by
      simpa [pair] using same
    exact dealt.yields large inside
      (determined_of_accepted large accepted bounds enough multipliable distinct)

/-- Accepted shares are reconstructed exactly if every block up to the largest one that is sent can
be combined, and then the numbers of the blocks are written one after the other. -/
theorem reconstruct_accepted_iff {buffer : Bytes} {length : ℕ}
    (stated : ∀ share ∈ shares,
      share.dataLength = secret.length ∧ share.blockIndex < numBlocks secret.length) :
    reconstructSecretFromShares deployed shares = .ok (buffer, length) ↔
      (∀ blockIdx ≤ maxBlockIndex shares, Combinable secret shares blockIdx) ∧
      (List.range (maxBlockIndex shares + 1)).flatMap (fun blockIdx =>
        writeBe (sizeOfBlock secret.length (maxBlockIndex shares + 1) blockIdx)
          (combinedValue secret shares blockIdx)) = buffer ∧ secret.length = length := by
  have small := dealt.length_le
  have positive := dealt.length_pos
  have readable (share : Share) (member : share ∈ shares) := (accepted share member).readable
  rcases eq_or_ne shares [] with rfl | nonempty
  · refine iff_of_false (by simp [reconstructSecretFromShares, deployed]) ?_
    rintro ⟨combinable, -⟩
    have impossible := (combinable 0 (Nat.zero_le _)).enough
    simp [selected, deployed] at impossible
  obtain ⟨below, top, topMember, topLast⟩ := maxBlockIndex_spec nonempty
  have inside : maxBlockIndex shares < numBlocks secret.length := topLast ▸ (stated top topMember).2
  have start := lt_numBlocks_iff.mp inside
  have last : maxBlockIndex shares + 1 < 2 ^ 64 := by
    simp only [blockSize] at start
    omega
  have written (combinable : ∀ blockIdx ≤ maxBlockIndex shares,
      Combinable secret shares blockIdx) := reconstruct_of_yields start (by omega)
    (fun blockIdx upTo => (combinable blockIdx upTo).fits)
    (by simp only [maxMessageSize]; omega)
    ((combinable 0 (Nat.zero_le _)).enough.ge.trans
      ((length_take_le' _ _).trans (length_filter_le _ _)))
    (fun share member => (stated share member).1) below ⟨top, topMember, topLast⟩
    (fun blockIdx upTo => yields_combinedValue dealt accepted bounds (by omega)
      (combinable blockIdx upTo).enough (combinable blockIdx upTo).multipliable)
  constructor
  · intro recovered
    have combinable : ∀ blockIdx ≤ maxBlockIndex shares, Combinable secret shares blockIdx := by
      intro blockIdx upTo
      obtain ⟨value, yields, fits⟩ :=
        (yields_of_reconstruct readable rfl last recovered).2 blockIdx upTo
      have combined := yields_combinedValue dealt accepted bounds (by omega) yields.enough
        yields.multipliable
      refine ⟨yields.enough, yields.multipliable, ?_⟩
      rwa [← combined.interpolated, yields.interpolated,
        ← statedLength_eq nonempty (fun share member => (stated share member).1) positive]
    rw [written combinable, Except.ok.injEq, Prod.mk.injEq] at recovered
    exact ⟨combinable, recovered⟩
  · rintro ⟨combinable, rfl, rfl⟩
    exact written combinable

end Accepted

end Deployed

/-- For all well-formed replies, of dishonest receivers too: a message that is handed out is that of
the dealer exactly if none is handed out, or every number is that of the bytes it is written to.
These are the dealt block, except that the largest block sent takes all the rest of the message. -/
theorem audit_integrity_iff {E : Type u} [AddCommGroup E] [DecidableEq E]
    [Module (ZMod deployed.order) E] (group : PrimeOrderGroup deployed.order E)
    (codec : PointCodec E) (heap : ℕ) (tag : ℤ) (known : tag = 0 ∨ tag = 1) (saved : SavedCoeffs)
    (random : ℕ → ℕ → Fin deployed.order) (secret : Bytes) (dealtShares : List Share)
    (commitment : VssCommitment)
    (created : (createSecretShares deployed saved random secret).2 = some dealtShares)
    (committed : createVssCommitments deployed group codec
      (createSecretShares deployed saved random secret).1 secret = some commitment)
    (replies : List (Option Bytes)) (carried : List (List Share))
    (carries : List.Forall₂ Carries replies carried) (few : carried.flatten.length < 2 ^ 31)
    (memory : (carried.flatten.length + 100) * recordSize ≤ heap) :
    (∀ (buffer : Bytes) (size : ℕ),
      fetchSharesByMsgid deployed group codec heap tag (some commitment) replies =
        some (.message buffer size) → buffer = secret ∧ size = secret.length) ↔
    (∃ share ∈ carried.flatten,
      verifyShareWithCommitment deployed group codec share commitment = false) ∨
    (∃ blockIdx ≤ maxBlockIndex carried.flatten, ¬Combinable secret carried.flatten blockIdx) ∨
    ∀ blockIdx ≤ maxBlockIndex carried.flatten, combinedValue secret carried.flatten blockIdx =
      readBe (partOf secret (maxBlockIndex carried.flatten + 1) blockIdx) := by
  have dealt := dealt_of_created created
  have small := dealt.length_le
  simp only [fetchSharesByMsgid_eq_message_iff known carries few memory]
  by_cases verified : ∀ share ∈ carried.flatten,
      verifyShareWithCommitment deployed group codec share commitment = true
  swap
  · push Not at verified
    simp only [Bool.not_eq_true] at verified
    refine iff_of_true ?_ (.inl verified)
    rintro buffer size ⟨all, -⟩
    obtain ⟨share, member, rejected⟩ := verified
    simp [all share member] at rejected
  have accepted (share : Share) (member : share ∈ carried.flatten) :=
    accepted_of_dealt dealt committed (verified share member)
  have stated := stated_of_accepted committed accepted
  simp only [reconstruct_accepted_iff dealt accepted (x_bounds_of_carries carries) stated]
  by_cases combinable : ∀ blockIdx ≤ maxBlockIndex carried.flatten,
      Combinable secret carried.flatten blockIdx
  swap
  · refine iff_of_true (fun buffer size message => absurd message.2.1 combinable) ?_
    push Not at combinable
    exact .inr (.inl combinable)
  have start : maxBlockIndex carried.flatten * blockSize < secret.length := by
    rw [← lt_numBlocks_iff]
    have nonempty : carried.flatten ≠ [] := by
      intro empty
      have impossible := (combinable 0 (Nat.zero_le _)).enough
      simp [selected, empty, deployed] at impossible
    obtain ⟨-, top, topMember, topLast⟩ := maxBlockIndex_spec nonempty
    exact topLast ▸ (stated top topMember).2
  rw [← flatMap_writeBe_eq_iff start (by omega)
    fun blockIdx upTo => (combinable blockIdx upTo).fits]
  constructor
  · intro right
    exact .inr (.inr (right _ _ ⟨verified, combinable, rfl, rfl⟩).1)
  · rintro (⟨share, member, rejected⟩ | ⟨blockIdx, upTo, missing⟩ | right) buffer size
      ⟨-, -, rfl, rfl⟩
    · simp [verified share member] at rejected
    · exact absurd (combinable blockIdx upTo) missing
    · exact ⟨right, rfl⟩

section Samples

/-- The shares of some blocks that a participant holds when all coefficients drawn are two. -/
def sharesOf (secret : Bytes) (participant : ℕ) (blocks : List ℕ) : List Share :=
  blocks.map fun blockIdx => dealtShare deployed (constantRandom 2) secret blockIdx participant

def replyOf (secret : Bytes) (participant : ℕ) (blocks : List ℕ) : Option Bytes :=
  some (packShares (participant + 1) (sharesOf secret participant blocks))

def sampleCommitment (secret : Bytes) : Option VssCommitment :=
  createVssCommitments deployed (residues deployed.order) tableCodec
    (createSecretShares deployed neverSaved (constantRandom 2) secret).1 secret

def sampleFetch (commitment : VssCommitment) (replies : List (Option Bytes)) : Option Fetched :=
  fetchSharesByMsgid deployed (residues deployed.order) tableCodec (2 ^ 30) 0 (some commitment)
    replies

section Dealt

variable {secret : Bytes} {dealtShares : List Share} {commitment : VssCommitment}
  (dealt : Dealt deployed (constantRandom 2) secret
    (createSecretShares deployed neverSaved (constantRandom 2) secret).1 dealtShares)

include dealt

theorem exists_sampleCommitment : ∃ commitment, sampleCommitment secret = some commitment :=
  dealt.exists_commitment (residues deployed.order) tableCodec dealt.coeffsSaved

theorem carries_replyOf {participant : ℕ} {blocks : List ℕ}
    (isParticipant : participant < deployed.secretShares)
    (inside : ∀ blockIdx ∈ blocks, blockIdx < numBlocks secret.length) :
    Carries (replyOf secret participant blocks) (sharesOf secret participant blocks) := by
  have participants : participant < 3 := isParticipant
  have few := dealt.few_blocks
  have length := dealt.length_le
  simp only [maxBlocks] at few
  refine .packed (by omega) (by omega) ?_
  intro share member
  obtain ⟨blockIdx, block, rfl⟩ := mem_map.mp member
  have before := inside blockIdx block
  obtain ⟨size, short⟩ := @storedSize_encodeValue
    (dealtShare deployed (constantRandom 2) secret blockIdx participant) _ rfl
    ((shareValue_lt _ _ _).trans deployed.order_lt)
  have lengthY : (dealtShare deployed (constantRandom 2) secret blockIdx participant).y.length =
      4 + sizeBytes (shareValue deployed (blockCoeffs deployed (constantRandom 2) secret blockIdx)
        (participant + 1)) := by
    simp [dealtShare, encodeValue]
  refine ⟨rfl, before.trans (by omega), ?_, length.trans_lt (by norm_num), by rw [lengthY, size],
    ?_⟩
  · change sizeOfBlock secret.length (numBlocks secret.length) blockIdx < 2 ^ 64
    rw [sizeOfBlock_eq (by omega) before]
    omega
  · rw [lengthY]
    simp only [shareSize]
    omega

variable (committed : sampleCommitment secret = some commitment)

include committed

theorem verify_dealt {share : Share} (member : share ∈ dealtShares)
    (nonzero : share.value % deployed.order ≠ 0) :
    verifyShareWithCommitment deployed (residues deployed.order) tableCodec share commitment =
      true := by
  apply dealt.verify member nonzero committed
  intro blockIdx _ index _ _
  exact (by decide +kernel : 2 % deployed.order ≠ 0)

theorem sampleFetch_dealt {replies : List (Option Bytes)} {carried : List (List Share)}
    (carries : List.Forall₂ Carries replies carried) (few : carried.flatten.length ≤ 100)
    (genuine : ∀ share ∈ carried.flatten,
      share ∈ dealtShares ∧ share.value % deployed.order ≠ 0) {buffer : Bytes} {length : ℕ}
    (recovered : reconstructSecretFromShares deployed carried.flatten = .ok (buffer, length)) :
    sampleFetch commitment replies = some (.message buffer length) := by
  rw [sampleFetch, fetchSharesByMsgid_eq_message_iff (.inl rfl) carries (by omega)
    (by simp only [recordSize]; omega)]
  refine ⟨?_, recovered⟩
  intro share member
  exact verify_dealt dealt committed (genuine share member).1 (genuine share member).2

end Dealt

def fifthByteOne : Bytes := [0, 0, 0, 0, 1]

theorem created_fifthByteOne :
    (createSecretShares deployed neverSaved (constantRandom 2) fifthByteOne).2 =
      some (dealing deployed (constantRandom 2) fifthByteOne 1) := by
  decide +kernel

theorem audit_integrity_first_and_third :
    ∃ commitment, sampleCommitment fifthByteOne = some commitment ∧
      sampleFetch commitment [replyOf fifthByteOne 0 [0], none, replyOf fifthByteOne 2 [0]] =
        some (.message fifthByteOne 5) ∧
      ∀ buffer size, sampleFetch commitment
        [replyOf fifthByteOne 0 [0], none, replyOf fifthByteOne 2 [0]] =
          some (.message buffer size) → buffer = fifthByteOne ∧ size = 5 := by
  have dealt := dealt_of_created created_fifthByteOne
  obtain ⟨commitment, committed⟩ := exists_sampleCommitment dealt
  have carries : List.Forall₂ Carries
      [replyOf fifthByteOne 0 [0], none, replyOf fifthByteOne 2 [0]]
      [sharesOf fifthByteOne 0 [0], [], sharesOf fifthByteOne 2 [0]] :=
    .cons (carries_replyOf dealt (by decide) (by decide)) (.cons .absent
      (.cons (carries_replyOf dealt (by decide) (by decide)) .nil))
  refine ⟨commitment, committed, ?_, ?_⟩
  · exact sampleFetch_dealt dealt committed carries (by decide) (by decide +kernel)
      (by decide +kernel)
  · exact (audit_integrity_iff (residues deployed.order) tableCodec (2 ^ 30) 0 (.inl rfl)
      neverSaved (constantRandom 2) fifthByteOne _ commitment created_fifthByteOne committed _ _
      carries (by decide) (by decide)).mpr (.inr (.inr (by decide +kernel)))

/-- One comes back as six when a share is stored twice, and the first of two blocks at the end when
only its shares are sent. -/
theorem audit_returns_wrong_message :
    (∃ commitment, sampleCommitment fifthByteOne = some commitment ∧
      sampleFetch commitment
        [replyOf fifthByteOne 0 [0, 0], replyOf fifthByteOne 1 [0], replyOf fifthByteOne 2 [0]] =
          some (.message [0, 0, 0, 0, 6] 5)) ∧
    let secret := List.replicate 29 0 ++ [1, 1]
    ∃ commitment, sampleCommitment secret = some commitment ∧
      sampleFetch commitment [replyOf secret 0 [0], replyOf secret 1 [0], none] =
        some (.message (List.replicate 30 0 ++ [1]) 31) := by
  constructor
  · have dealt := dealt_of_created created_fifthByteOne
    obtain ⟨commitment, committed⟩ := exists_sampleCommitment dealt
    exact ⟨commitment, committed, sampleFetch_dealt dealt committed
      (.cons (carries_replyOf dealt (by decide) (by decide))
        (.cons (carries_replyOf dealt (by decide) (by decide))
          (.cons (carries_replyOf dealt (by decide) (by decide)) .nil)))
      (by decide) (by decide +kernel) (by decide +kernel)⟩
  · intro secret
    have created : (createSecretShares deployed neverSaved (constantRandom 2) secret).2 =
        some (dealing deployed (constantRandom 2) secret 2) := by decide +kernel
    have dealt := dealt_of_created created
    obtain ⟨commitment, committed⟩ := exists_sampleCommitment dealt
    exact ⟨commitment, committed, sampleFetch_dealt dealt committed
      (.cons (carries_replyOf dealt (by decide) (by decide))
        (.cons (carries_replyOf dealt (by decide) (by decide)) (.cons .absent .nil)))
      (by decide) (by decide +kernel) (by decide +kernel)⟩

end Samples

end TigerMixer.Auditor
