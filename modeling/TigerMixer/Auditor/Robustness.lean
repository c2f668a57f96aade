import TigerMixer.Auditor.Integrity

/-!
# What one faulty receiver can do to an audit

One share that does not verify ends the audit, and a genuine share of another participant, sent
first, is taken in place of one that the interpolation needs.
-/

namespace TigerMixer.Auditor

open Bytes SecretShare PrimeOrderGroup List

universe u

def Honest (random : ℕ → ℕ → Fin deployed.order) (secret : Bytes) (participant : ℕ)
    (sent : List Share) : Prop :=
  ∀ share, share ∈ sent ↔ ∃ blockIdx < numBlocks secret.length,
    dealtShare deployed random secret blockIdx participant = share

/-- Of the receivers, which all have answered or failed to answer, at least as many as the
threshold are honest. -/
structure Supported (random : ℕ → ℕ → Fin deployed.order) (secret : Bytes)
    (carried : List (List Share)) : Prop where
  receivers : carried.length = deployed.secretShares
  honest : ∃ honest : Finset ℕ, deployed.threshold ≤ honest.card ∧
    ∀ participant ∈ honest, ∃ sent, carried[participant]? = some sent ∧
      Honest random secret participant sent

/-- The two shares that are taken for a block are at different coordinates, or twice the value of
the first one is the block. -/
def Uncontested (secret : Bytes) (shares : List Share) (blockIdx : ℕ) : Prop :=
  ∀ first second, selected deployed.threshold blockIdx shares = [first, second] →
    first.x ≠ second.x ∨ 2 * first.value % deployed.order = readBe (blockBytes secret blockIdx)

section Support

variable {random : ℕ → ℕ → Fin deployed.order} {secret : Bytes} {carried : List (List Share)}

theorem Supported.length_selected (supported : Supported random secret carried) {blockIdx : ℕ}
    (inside : blockIdx < numBlocks secret.length) :
    (selected deployed.threshold blockIdx carried.flatten).length = deployed.threshold := by
  obtain ⟨honest, enough, genuine⟩ := supported.honest
  let share (participant : ℕ) : Share := dealtShare deployed random secret blockIdx participant
  have sent : honest.image share ⊆
      (carried.flatten.filter fun share => share.blockIndex = blockIdx).toFinset := by
    intro genuineShare member
    obtain ⟨participant, isHonest, rfl⟩ := Finset.mem_image.mp member
    obtain ⟨sent, present, exact⟩ := genuine participant isHonest
    rw [mem_toFinset, mem_filter]
    refine ⟨mem_flatten.mpr ⟨sent, mem_of_getElem? present, ?_⟩, decide_eq_true rfl⟩
    exact (exact _).mpr ⟨blockIdx, inside, rfl⟩
  have injective : Function.Injective share := by
    intro left right equal
    simpa [share, dealtShare] using congrArg Share.x equal
  have count : deployed.threshold ≤
      (carried.flatten.filter fun share => share.blockIndex = blockIdx).length :=
    calc deployed.threshold ≤ honest.card := enough
      _ = (honest.image share).card := (Finset.card_image_of_injective honest injective).symm
      _ ≤ _ := Finset.card_le_card sent
      _ ≤ _ := toFinset_card_le _
  simpa [selected] using count

end Support

theorem combinedValue_eq_iff {secret : Bytes} {shares : List Share} {blockIdx : ℕ}
    (enough : (selected deployed.threshold blockIdx shares).length = deployed.threshold) :
    combinedValue secret shares blockIdx = readBe (blockBytes secret blockIdx) ↔
      Uncontested secret shares blockIdx := by
  obtain ⟨first, second, pair⟩ := length_eq_two.mp enough
  have only : Uncontested secret shares blockIdx ↔ first.x ≠ second.x ∨
      2 * first.value % deployed.order = readBe (blockBytes secret blockIdx) := by
    simp [Uncontested, pair]
  simp only [combinedValue, pair, only]
  split_ifs with same <;> simp [same]

/-- With enough honest receivers, the secret is handed out exactly if every share that anybody sends
verifies, those taken for a block can be combined, and they are of different participants. -/
theorem audit_robust_iff {E : Type u} [AddCommGroup E] [DecidableEq E]
    [Module (ZMod deployed.order) E] (group : PrimeOrderGroup deployed.order E)
    (codec : PointCodec E) (heap : ℕ) (tag : ℤ) (known : tag = 0 ∨ tag = 1) (saved : SavedCoeffs)
    (random : ℕ → ℕ → Fin deployed.order) (secret : Bytes) (dealtShares : List Share)
    (commitment : VssCommitment)
    (created : (createSecretShares deployed saved random secret).2 = some dealtShares)
    (committed : createVssCommitments deployed group codec
      (createSecretShares deployed saved random secret).1 secret = some commitment)
    (replies : List (Option Bytes)) (carried : List (List Share))
    (carries : List.Forall₂ Carries replies carried) (few : carried.flatten.length < 2 ^ 31)
    (memory : (carried.flatten.length + 100) * recordSize ≤ heap)
    (supported : Supported random secret carried) :
    fetchSharesByMsgid deployed group codec heap tag (some commitment) replies =
        some (.message secret secret.length) ↔
      (∀ share ∈ carried.flatten,
        verifyShareWithCommitment deployed group codec share commitment = true) ∧
      ∀ blockIdx < numBlocks secret.length, Multipliable deployed carried.flatten blockIdx ∧
        Uncontested secret carried.flatten blockIdx := by
  have dealt := dealt_of_created created
  have length := dealt.length_le
  have positive := dealt.length_pos
  have blocks : 0 < numBlocks secret.length := lt_numBlocks_iff.mpr (by omega)
  rw [fetchSharesByMsgid_eq_message_iff known carries few memory]
  refine and_congr_right fun verified => ?_
  have accepted (share : Share) (member : share ∈ carried.flatten) :=
    accepted_of_dealt dealt committed (verified share member)
  have stated := stated_of_accepted committed accepted
  -- the honest receivers send all blocks, so the largest one is the last of the message
  have largest : maxBlockIndex carried.flatten = numBlocks secret.length - 1 := by
    apply maxBlockIndex_eq fun share member => Nat.le_sub_one_of_lt (stated share member).2
    have last := supported.length_selected (show numBlocks secret.length - 1 < _ by omega)
    obtain ⟨share, member⟩ := exists_mem_of_length_pos (last ▸ deployed.threshold_pos)
    exact ⟨share, mem_of_mem_selected member⟩
  have whole : maxBlockIndex carried.flatten + 1 = numBlocks secret.length := by omega
  have start := lt_numBlocks_iff.mp
    (show maxBlockIndex carried.flatten < numBlocks secret.length by omega)
  rw [reconstruct_accepted_iff dealt accepted (x_bounds_of_carries carries) stated]
  constructor
  · rintro ⟨combinable, written, -⟩ blockIdx inside
    have fits (blockIdx : ℕ) (upTo : blockIdx ≤ maxBlockIndex carried.flatten) :=
      (combinable blockIdx upTo).fits
    have right := (flatMap_writeBe_eq_iff start (by omega) fits).mp written blockIdx (by omega)
    rw [whole] at right
    exact ⟨(combinable blockIdx (by omega)).multipliable,
      (combinedValue_eq_iff (supported.length_selected inside)).mp right⟩
  · intro combined
    have right : ∀ blockIdx ≤ maxBlockIndex carried.flatten,
        combinedValue secret carried.flatten blockIdx =
          readBe (partOf secret (maxBlockIndex carried.flatten + 1) blockIdx) := by
      intro blockIdx upTo
      rw [whole]
      exact (combinedValue_eq_iff (supported.length_selected (by omega))).mpr
        (combined blockIdx (by omega)).2
    have combinable : ∀ blockIdx ≤ maxBlockIndex carried.flatten,
        Combinable secret carried.flatten blockIdx := by
      intro blockIdx upTo
      refine ⟨supported.length_selected (by omega), (combined blockIdx (by omega)).1, ?_⟩
      rw [right blockIdx upTo]
      exact readBe_partOf_lt start (by omega) upTo
    exact ⟨combinable, (flatMap_writeBe_eq_iff start (by omega)
      fun blockIdx upTo => (combinable blockIdx upTo).fits).mpr right, rfl⟩

section Samples

def forgedShare : Share :=
  { dealtShare deployed (constantRandom 2) fifthByteOne 0 0 with y := encodeValue 9 }

theorem honest_sharesOf (participant : ℕ) :
    Honest (constantRandom 2) fifthByteOne participant (sharesOf fifthByteOne participant [0]) := by
  intro share
  have single : numBlocks fifthByteOne.length = 1 := rfl
  simp [single, sharesOf, eq_comm]

theorem supported_sharesOf (sent : List Share) :
    Supported (constantRandom 2) fifthByteOne
      [sent, sharesOf fifthByteOne 1 [0], sharesOf fifthByteOne 2 [0]] := by
  refine ⟨rfl, {1, 2}, by decide, ?_⟩
  simp only [Finset.mem_insert, Finset.mem_singleton, forall_eq_or_imp, forall_eq]
  exact ⟨⟨_, rfl, honest_sharesOf 1⟩, ⟨_, rfl, honest_sharesOf 2⟩⟩

theorem audit_robust_first_silent :
    ∃ commitment, sampleCommitment fifthByteOne = some commitment ∧
      sampleFetch commitment [none, replyOf fifthByteOne 1 [0], replyOf fifthByteOne 2 [0]] =
        some (.message fifthByteOne 5) := by
  have dealt := dealt_of_created created_fifthByteOne
  obtain ⟨commitment, committed⟩ := exists_sampleCommitment dealt
  refine ⟨commitment, committed, ?_⟩
  apply (audit_robust_iff (residues deployed.order) tableCodec (2 ^ 30) 0 (.inl rfl)
    neverSaved (constantRandom 2) fifthByteOne _ commitment created_fifthByteOne committed _ _
    (.cons .absent (.cons (carries_replyOf dealt (by decide) (by decide))
      (.cons (carries_replyOf dealt (by decide) (by decide)) .nil)))
    (by decide) (by decide) (supported_sharesOf [])).mpr
  have genuine : ∀ share ∈ [[], sharesOf fifthByteOne 1 [0], sharesOf fifthByteOne 2 [0]].flatten,
      share ∈ dealing deployed (constantRandom 2) fifthByteOne 1 ∧
        share.value % deployed.order ≠ 0 := by decide +kernel
  refine ⟨fun share member => verify_dealt dealt committed (genuine share member).1
    (genuine share member).2, ?_⟩
  intro blockIdx inside
  obtain rfl : blockIdx = 0 := Nat.lt_one_iff.mp inside
  refine ⟨fun share member => contributionThrows_of_lt _ (dealt.value_lt
    (genuine share (mem_of_mem_selected member).1).1), ?_⟩
  exact (combinedValue_eq_iff (by decide +kernel)).mp (by decide +kernel)

/-- A made-up value ends the audit with an error. The share of another participant is taken twice
and gives ten in place of one. -/
theorem audit_spoiled_by_first :
    ∃ commitment, sampleCommitment fifthByteOne = some commitment ∧
      (∀ share ∈ dealing deployed (constantRandom 2) fifthByteOne 1,
        share.value % deployed.order ≠ 0) ∧
      (List.Forall₂ Carries [some (packShares 1 [forgedShare]), replyOf fifthByteOne 1 [0],
          replyOf fifthByteOne 2 [0]]
        [[forgedShare], sharesOf fifthByteOne 1 [0], sharesOf fifthByteOne 2 [0]] ∧
      Supported (constantRandom 2) fifthByteOne
        [[forgedShare], sharesOf fifthByteOne 1 [0], sharesOf fifthByteOne 2 [0]] ∧
      sampleFetch commitment [some (packShares 1 [forgedShare]), replyOf fifthByteOne 1 [0],
        replyOf fifthByteOne 2 [0]] = some .error) ∧
      Supported (constantRandom 2) fifthByteOne [sharesOf fifthByteOne 1 [0],
        sharesOf fifthByteOne 1 [0], sharesOf fifthByteOne 2 [0]] ∧
      sampleFetch commitment [replyOf fifthByteOne 1 [0], replyOf fifthByteOne 1 [0],
        replyOf fifthByteOne 2 [0]] = some (.message [0, 0, 0, 0, 10] 5) := by
  have dealt := dealt_of_created created_fifthByteOne
  obtain ⟨commitment, committed⟩ := exists_sampleCommitment dealt
  have packable : Packable 1 forgedShare :=
    ⟨by decide, by decide, by decide, by decide, by decide +kernel, by decide +kernel⟩
  have second : Carries (replyOf fifthByteOne 1 [0]) (sharesOf fifthByteOne 1 [0]) :=
    carries_replyOf dealt (by decide) (by decide)
  have third : Carries (replyOf fifthByteOne 2 [0]) (sharesOf fifthByteOne 2 [0]) :=
    carries_replyOf dealt (by decide) (by decide)
  have carries : List.Forall₂ Carries [some (packShares 1 [forgedShare]), _, _]
      [[forgedShare], _, _] :=
    .cons (.packed (by decide) (by decide) (by simpa using packable))
      (.cons second (.cons third .nil))
  refine ⟨commitment, committed, by decide +kernel, ⟨carries, supported_sharesOf _, ?_⟩,
    supported_sharesOf _, ?_⟩
  · have rejected : verifyShareWithCommitment deployed (residues deployed.order) tableCodec
        forgedShare commitment = false := by
      by_contra accepted
      have value := (accepted_of_dealt dealt committed (Bool.of_not_eq_false accepted)).value
      have genuine := dealt.value_eq (show dealtShare deployed (constantRandom 2) fifthByteOne 0 0 ∈
        dealing deployed (constantRandom 2) fifthByteOne 1 by decide +kernel)
      have same := mod_eq_mod_iff_natCast_eq.mpr (value.trans genuine.symm)
      exact absurd same (by decide +kernel)
    have settled : verificationThrows deployed forgedShare commitment = false := by
      obtain ⟨length, blocks⟩ := createVssCommitments_header committed
      rw [verificationThrows, length, blocks]
      decide +kernel
    obtain ⟨all, collects, records, -⟩ :=
      @collectShares_empty_of_carries (2 ^ 30) _ _ carries (by decide) (by decide)
    have enough : deployed.threshold ≤ all.records.length := by
      rw [records]
      decide
    simp only [sampleFetch, fetchSharesByMsgid, collects, Option.bind_eq_bind, Option.bind_some,
      if_pos enough]
    simp [records, verifyShares, settled, verifyShareWithStoredCommitment, rejected]
  · exact sampleFetch_dealt dealt committed (.cons second (.cons second (.cons third .nil)))
      (by decide) (by decide +kernel) (by decide +kernel)

end Samples

end TigerMixer.Auditor
