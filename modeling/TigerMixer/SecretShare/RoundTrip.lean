import TigerMixer.SecretShare.Reconstruction

/-!
# Shares that determine a message give it back

What a reconstruction needs of its input is stated block by block: it finds enough shares, at
different scalars, and their values lie on one polynomial, wherever the shares come from.
-/

namespace TigerMixer.SecretShare

open Bytes List

/-- RELIC does not throw while the shares selected for a block are combined. -/
def Multipliable (scheme : Scheme) (shares : List Share) (blockIdx : ℕ) : Prop :=
  ∀ share ∈ selected scheme.threshold blockIdx shares, contributionThrows scheme.order
    ((selected scheme.threshold blockIdx shares).map Share.x) (share.x, share.value) = false

/-- The shares selected for a block are readable values of one polynomial at different scalars. -/
structure Determined (scheme : Scheme) (shares : List Share) (blockIdx : ℕ)
    (coeffs : ℕ → ZMod scheme.order) : Prop where
  enough : (selected scheme.threshold blockIdx shares).length = scheme.threshold
  distinct : ((selected scheme.threshold blockIdx shares).map fun share =>
    (digit share.x : ZMod scheme.order)).Nodup
  readable : ∀ share ∈ selected scheme.threshold blockIdx shares, share.readValue = .ok share.value
  multipliable : Multipliable scheme shares blockIdx
  values : ∀ share ∈ selected scheme.threshold blockIdx shares,
    (share.value : ZMod scheme.order) =
      Interpolation.evaluate scheme.threshold coeffs (digit share.x)

structure Yields (scheme : Scheme) (shares : List Share) (blockIdx value : ℕ) : Prop where
  enough : (selected scheme.threshold blockIdx shares).length = scheme.threshold
  readable : ∀ share ∈ selected scheme.threshold blockIdx shares, share.readValue = .ok share.value
  multipliable : Multipliable scheme shares blockIdx
  interpolated : interpolateBlock scheme.order
    ((selected scheme.threshold blockIdx shares).map fun share => (share.x, share.value)) = value

section Yields

variable {scheme : Scheme} {shares : List Share} {secretLen blocks : ℕ}

theorem any_contributionThrows {blockIdx : ℕ} :
    ((selected scheme.threshold blockIdx shares).map fun share => (share.x, share.value)).any
        (contributionThrows scheme.order
          (((selected scheme.threshold blockIdx shares).map fun share =>
            (share.x, share.value)).map Prod.fst)) = false ↔
      Multipliable scheme shares blockIdx := by
  rw [map_map, any_map, any_eq_false]
  simp only [Bool.not_eq_true]
  rfl

theorem Yields.reconstructBlock_eq {blockIdx value offset : ℕ}
    (yields : Yields scheme shares blockIdx value)
    (fits : value < 256 ^ sizeOfBlock secretLen blocks blockIdx)
    (room : offset + sizeOfBlock secretLen blocks blockIdx ≤ maxMessageSize) :
    reconstructBlock scheme shares secretLen blocks blockIdx offset =
      .ok (writeBe (sizeOfBlock secretLen blocks blockIdx) value) := by
  have short := sizeBytes_le_iff.mpr fits
  simp only [reconstructBlock, collectBlock_of_readable yields.readable, length_map,
    yields.enough, yields.interpolated, any_contributionThrows.mpr yields.multipliable]
  rw [if_neg (by omega), if_neg (by simp), if_neg (by omega), if_neg (by omega),
    writeBe_of_sizeBytes_le short]

theorem reconstructBlocks_of_yields {values : ℕ → ℕ} {count : ℕ}
    (yields : ∀ blockIdx < count, Yields scheme shares blockIdx (values blockIdx))
    (fits : ∀ blockIdx < count, values blockIdx < 256 ^ sizeOfBlock secretLen blocks blockIdx)
    (room : ((List.range count).map (sizeOfBlock secretLen blocks)).sum ≤ maxMessageSize) :
    reconstructBlocks scheme shares secretLen blocks count =
      .ok ((List.range count).flatMap fun blockIdx =>
        writeBe (sizeOfBlock secretLen blocks blockIdx) (values blockIdx)) := by
  induction count with
  | zero => rfl
  | succ count ih =>
    rw [range_succ, map_append, sum_append, map_singleton, sum_singleton] at room
    have earlier := ih (fun blockIdx before => yields blockIdx (by omega))
      (fun blockIdx before => fits blockIdx (by omega)) (by omega)
    have written : ((List.range count).flatMap fun blockIdx => writeBe
        (sizeOfBlock secretLen blocks blockIdx) (values blockIdx)).length =
        ((List.range count).map (sizeOfBlock secretLen blocks)).sum := by
      simp [length_flatMap]
    have current := (yields count (by omega)).reconstructBlock_eq (fits count (by omega))
      (written ▸ room)
    simp only [reconstructBlocks, earlier, current, bind, Except.bind, range_succ,
      flatMap_append, flatMap_singleton]

end Yields

section Enough

variable {scheme : Scheme} {shares : List Share} {secretLen blocks blockIdx : ℕ}

theorem written_of_reconstructBlocks {count : ℕ} {data : Bytes}
    (written : reconstructBlocks scheme shares secretLen blocks count = .ok data)
    (inside : blockIdx < count) :
    ∃ offset block,
      reconstructBlock scheme shares secretLen blocks blockIdx offset = .ok block := by
  induction count generalizing data with
  | zero => omega
  | succ count ih =>
    rw [reconstructBlocks] at written
    cases earlier : reconstructBlocks scheme shares secretLen blocks count with
    | error fault => simp [earlier, bind, Except.bind] at written
    | ok before =>
      cases current : reconstructBlock scheme shares secretLen blocks count before.length with
      | error fault => simp [earlier, current, bind, Except.bind] at written
      | ok block =>
        rcases Nat.lt_succ_iff_lt_or_eq.mp inside with earlierBlock | rfl
        · exact ih earlier earlierBlock
        · exact ⟨before.length, block, current⟩

theorem yields_of_reconstructBlock {offset : ℕ} {data : Bytes}
    (readable : ∀ share ∈ shares, share.readValue = .ok share.value)
    (written : reconstructBlock scheme shares secretLen blocks blockIdx offset = .ok data) :
    ∃ value, Yields scheme shares blockIdx value ∧
      value < 256 ^ sizeOfBlock secretLen blocks blockIdx := by
  have selectedReadable (share : Share)
      (member : share ∈ selected scheme.threshold blockIdx shares) :=
    readable share (mem_of_mem_selected member).1
  simp only [reconstructBlock, collectBlock_of_readable selectedReadable, length_map] at written
  have atMost : (selected scheme.threshold blockIdx shares).length ≤ scheme.threshold :=
    length_take_le _ _
  split_ifs at written with few throws long
  exact ⟨_, ⟨by omega, selectedReadable, any_contributionThrows.mp (Bool.eq_false_of_not_eq_true
    throws), rfl⟩, sizeBytes_le_iff.mp (by omega)⟩

theorem yields_of_reconstruct {result : Bytes × ℕ} {last : ℕ}
    (readable : ∀ share ∈ shares, share.readValue = .ok share.value)
    (largest : maxBlockIndex shares = last) (machine : last + 1 < 2 ^ 64)
    (recovered : reconstructSecretFromShares scheme shares = .ok result) :
    scheme.threshold ≤ shares.length ∧ ∀ blockIdx ≤ last,
      ∃ value, Yields scheme shares blockIdx value ∧
        value < 256 ^ sizeOfBlock (statedLength shares) (last + 1) blockIdx := by
  unfold reconstructSecretFromShares at recovered
  split_ifs at recovered with few empty
  refine ⟨not_lt.mp few, ?_⟩
  rw [largest, Nat.mod_eq_of_lt machine] at recovered
  cases written : reconstructBlocks scheme shares (statedLength shares) (last + 1) (last + 1) with
  | error fault => simp [written, bind, Except.bind] at recovered
  | ok data =>
    intro blockIdx inside
    obtain ⟨offset, block, current⟩ :=
      written_of_reconstructBlocks written (show blockIdx < last + 1 by omega)
    exact yields_of_reconstructBlock readable current

end Enough

section Determined

variable {scheme : Scheme} {shares : List Share} {blockIdx : ℕ}

theorem Determined.yields {coeffs : ℕ → ZMod scheme.order}
    (determined : Determined scheme shares blockIdx coeffs) {value : ℕ}
    (constant : coeffs 0 = value) (bound : value < scheme.order) :
    Yields scheme shares blockIdx value := by
  refine ⟨determined.enough, determined.readable, determined.multipliable, ?_⟩
  apply eq_of_natCast_eq (interpolateBlock_lt _) bound
  rw [← constant]
  apply natCast_interpolateBlock_of_evaluate
  · rw [length_map, determined.enough]
  · rw [map_map, map_map]
    exact determined.distinct
  · intro point member
    obtain ⟨share, shareMember, rfl⟩ := mem_map.mp member
    exact determined.values share shareMember

theorem reconstruct_of_last {length last : ℕ} (positive : 0 < length)
    (enough : scheme.threshold ≤ shares.length)
    (stated : ∀ share ∈ shares, share.dataLength = length)
    (bound : ∀ share ∈ shares, share.blockIndex ≤ last)
    (attained : ∃ share ∈ shares, share.blockIndex = last) (machine : last + 1 < 2 ^ 64) :
    reconstructSecretFromShares scheme shares =
      (reconstructBlocks scheme shares length (last + 1) (last + 1)).map
        fun data => (data, length) := by
  have nonempty : shares ≠ [] := by
    rcases attained with ⟨share, member, -⟩
    exact ne_nil_of_mem member
  rw [reconstructSecretFromShares, if_neg (by omega), statedLength_eq nonempty stated positive,
    if_neg (by omega), maxBlockIndex_eq bound attained, Nat.mod_eq_of_lt machine]
  dsimp only
  cases reconstructBlocks scheme shares length (last + 1) (last + 1) <;> rfl

theorem reconstructBlocks_failed {secretLen blocks : ℕ}
    {data : Bytes} (earlier : reconstructBlocks scheme shares secretLen blocks blockIdx = .ok data)
    (uncollected : collectBlock blockIdx scheme.threshold shares = .error .failed) :
    reconstructBlocks scheme shares secretLen blocks (blockIdx + 1) = .error .failed := by
  simp only [reconstructBlocks, earlier, reconstructBlock, uncollected, bind, Except.bind]

end Determined

/-! ### Messages of which only the first blocks are sent -/

/-- The bytes of a message that the value of a block is written to if there are `blocks` of them. -/
def partOf (secret : Bytes) (blocks blockIdx : ℕ) : Bytes :=
  (secret.drop (blockIdx * blockSize)).take (sizeOfBlock secret.length blocks blockIdx)

section Parts

theorem flatMap_take_drop (bytes : Bytes) (size count : ℕ) :
    (List.range count).flatMap (fun index => (bytes.drop (index * size)).take size) =
      bytes.take (count * size) := by
  induction count with
  | zero => simp
  | succ count ih =>
    rw [range_succ, flatMap_append, ih, flatMap_singleton, Nat.succ_mul, take_add]

variable {secret : Bytes} {last blockIdx : ℕ} (start : last * blockSize < secret.length)
  (machine : secret.length < 2 ^ 64)

include start machine

theorem length_partOf (inside : blockIdx ≤ last) :
    (partOf secret (last + 1) blockIdx).length =
      sizeOfBlock secret.length (last + 1) blockIdx := by
  rw [partOf, length_take, length_drop, Nat.min_eq_left]
  rcases inside.lt_or_eq with before | rfl
  · rw [sizeOfBlock, if_neg (by omega)]
    simp only [blockSize] at start ⊢
    omega
  · rw [sizeOfBlock, if_pos rfl, sizeSub_of_le start.le machine]

theorem readBe_partOf_lt (inside : blockIdx ≤ last) :
    readBe (partOf secret (last + 1) blockIdx) <
      256 ^ sizeOfBlock secret.length (last + 1) blockIdx := by
  rw [← length_partOf start machine inside]
  exact readBe_lt _

theorem flatMap_partOf : (List.range (last + 1)).flatMap (partOf secret (last + 1)) = secret := by
  have earlier : (List.range last).flatMap (partOf secret (last + 1)) =
      secret.take (last * blockSize) := by
    rw [← flatMap_take_drop]
    apply flatMap_congr
    intro blockIdx member
    have before := mem_range.mp member
    rw [partOf, sizeOfBlock, if_neg (by omega)]
  have rest : partOf secret (last + 1) last = secret.drop (last * blockSize) := by
    rw [partOf, sizeOfBlock, if_pos rfl, sizeSub_of_le start.le machine, ← length_drop, take_length]
  rw [range_succ, flatMap_append, flatMap_singleton, earlier, rest, take_append_drop]

theorem sum_sizeOfBlock_le {count : ℕ} (inside : count ≤ last + 1) :
    ((List.range count).map (sizeOfBlock secret.length (last + 1))).sum ≤ secret.length := by
  have whole : ((List.range (last + 1)).map (sizeOfBlock secret.length (last + 1))).sum =
      secret.length := by
    conv_rhs => rw [← flatMap_partOf start machine, length_flatMap]
    congr 1
    apply map_congr_left
    intro blockIdx member
    exact (length_partOf start machine (Nat.lt_succ_iff.mp (mem_range.mp member))).symm
  conv_rhs => rw [← whole]
  exact ((range_sublist.mpr inside).map _).sum_le_sum fun _ _ => Nat.zero_le _

variable {scheme : Scheme} {shares : List Share} {values : ℕ → ℕ}
  (fits : ∀ blockIdx ≤ last, values blockIdx < 256 ^ sizeOfBlock secret.length (last + 1) blockIdx)

include fits

theorem reconstruct_of_yields (bound : secret.length ≤ maxMessageSize)
    (enough : scheme.threshold ≤ shares.length)
    (stated : ∀ share ∈ shares, share.dataLength = secret.length)
    (below : ∀ share ∈ shares, share.blockIndex ≤ last)
    (attained : ∃ share ∈ shares, share.blockIndex = last)
    (yields : ∀ blockIdx ≤ last, Yields scheme shares blockIdx (values blockIdx)) :
    reconstructSecretFromShares scheme shares = .ok ((List.range (last + 1)).flatMap
      fun blockIdx => writeBe (sizeOfBlock secret.length (last + 1) blockIdx) (values blockIdx),
      secret.length) := by
  have room := (sum_sizeOfBlock_le start machine le_rfl).trans bound
  simp only [blockSize] at start
  rw [reconstruct_of_last (by omega) enough stated below attained (by omega),
    reconstructBlocks_of_yields (fun blockIdx before => yields blockIdx (by omega))
      (fun blockIdx before => fits blockIdx (by omega)) room, Except.map]

theorem flatMap_writeBe_eq_iff :
    (List.range (last + 1)).flatMap (fun blockIdx =>
        writeBe (sizeOfBlock secret.length (last + 1) blockIdx) (values blockIdx)) = secret ↔
      ∀ blockIdx ≤ last, values blockIdx = readBe (partOf secret (last + 1) blockIdx) := by
  have whole := flatMap_partOf start machine
  constructor
  · intro written blockIdx inside
    have same := eq_of_flatMap_range_eq (fun index before => by
      rw [length_writeBe, length_partOf start machine (by omega)]) (written.trans whole.symm)
      blockIdx (by omega)
    rw [← same, readBe_writeBe_of_lt (fits blockIdx inside)]
  · intro same
    conv_rhs => rw [← whole]
    apply flatMap_congr
    intro blockIdx member
    have inside := Nat.lt_succ_iff.mp (mem_range.mp member)
    rw [same blockIdx inside, ← length_partOf start machine inside, writeBe_readBe]

end Parts

section Dealt

variable {scheme : Scheme} {random : ℕ → ℕ → Fin scheme.order} {secret : Bytes}
  {saved : SavedCoeffs} {shares collected : List Share}

@[simp]
theorem digit_natCast_add_one (participant : ℕ) :
    digit ((participant : ℤ) + 1) = participant + 1 := by
  rw [digit, if_pos (by omega)]
  omega

theorem readValue_dealtShare (blockIdx participant : ℕ) :
    let share := dealtShare scheme random secret blockIdx participant
    share.value = shareValue scheme (blockCoeffs scheme random secret blockIdx) (participant + 1) ∧
      share.readValue = if share.value = 0 then .error .failed else .ok share.value := by
  intro share
  have stored : share.y = encodeValue (shareValue scheme
    (blockCoeffs scheme random secret blockIdx) (participant + 1)) := rfl
  obtain ⟨value, read⟩ := readValue_encodeValue stored
    ((shareValue_lt _ _ _).trans scheme.order_lt)
  exact ⟨value, by rw [read, value]⟩

variable (dealt : Dealt scheme random secret saved shares)

include dealt

theorem Dealt.value_lt {share : Share} (member : share ∈ shares) : share.value < scheme.order := by
  rw [dealt.shares_eq] at member
  obtain ⟨blockIdx, inside, participant, isParticipant, rfl⟩ := mem_dealing.mp member
  rw [(readValue_dealtShare blockIdx participant).1]
  exact shareValue_lt _ _ _

theorem Dealt.readValue_eq {share : Share} (member : share ∈ shares) :
    share.readValue =
      if share.value % scheme.order = 0 then .error .failed else .ok share.value := by
  rw [Nat.mod_eq_of_lt (dealt.value_lt member)]
  rw [dealt.shares_eq] at member
  obtain ⟨blockIdx, inside, participant, isParticipant, rfl⟩ := mem_dealing.mp member
  exact (readValue_dealtShare blockIdx participant).2

theorem Dealt.value_eq {share : Share} (member : share ∈ shares) :
    (share.value : ZMod scheme.order) = Interpolation.evaluate scheme.threshold
      (fun index => (blockCoeffs scheme random secret share.blockIndex index : ZMod scheme.order))
      (digit share.x) := by
  rw [dealt.shares_eq] at member
  obtain ⟨blockIdx, inside, participant, isParticipant, rfl⟩ := mem_dealing.mp member
  rw [(readValue_dealtShare blockIdx participant).1, natCast_shareValue]
  simp [dealtShare]

theorem Dealt.digit_injective {left right : Share} (leftMember : left ∈ shares)
    (rightMember : right ∈ shares) (equal : (digit left.x : ZMod scheme.order) = digit right.x) :
    left.x = right.x := by
  rw [dealt.shares_eq] at leftMember rightMember
  obtain ⟨_, _, leftParticipant, leftBound, rfl⟩ := mem_dealing.mp leftMember
  obtain ⟨_, _, rightParticipant, rightBound, rfl⟩ := mem_dealing.mp rightMember
  have few := scheme.secretShares_lt
  simp only [dealtShare, digit_natCast_add_one] at equal ⊢
  have same := eq_of_natCast_eq (by omega) (by omega) equal
  omega

theorem Dealt.determined
    (genuine : ∀ share ∈ collected, share ∈ shares) {blockIdx : ℕ} (enough : scheme.threshold ≤
      (collected.filter fun share => share.blockIndex = blockIdx).length)
    (distinct : ((selected scheme.threshold blockIdx collected).map Share.x).Nodup)
    (nonzero : ∀ share ∈ selected scheme.threshold blockIdx collected,
      share.value % scheme.order ≠ 0) :
    Determined scheme collected blockIdx fun index =>
      (blockCoeffs scheme random secret blockIdx index : ZMod scheme.order) := by
  have dealtMember (share : Share) (member : share ∈ selected scheme.threshold blockIdx collected) :
      share ∈ shares := genuine share (mem_of_mem_selected member).1
  refine ⟨?_, ?_, ?_, ?_, ?_⟩
  · simpa [selected] using enough
  · apply List.Nodup.map_on _ (List.Nodup.of_map Share.x distinct)
    intro left leftMember right rightMember equal
    have coordinate := dealt.digit_injective (dealtMember left leftMember)
      (dealtMember right rightMember) equal
    exact inj_on_of_nodup_map distinct leftMember rightMember coordinate
  · intro share member
    rw [dealt.readValue_eq (dealtMember share member), if_neg (nonzero share member)]
  · exact fun share member =>
      contributionThrows_of_lt _ (dealt.value_lt (dealtMember share member))
  · intro share member
    rw [dealt.value_eq (dealtMember share member), (mem_of_mem_selected member).2]

theorem Dealt.length_le :
    secret.length ≤ 30000 :=
  length_le_of_numBlocks_le dealt.few_blocks

theorem Dealt.yields (large : 2 ^ 240 < scheme.order) {blockIdx : ℕ}
    (inside : blockIdx < numBlocks secret.length)
    (determined : Determined scheme collected blockIdx fun index =>
      (blockCoeffs scheme random secret blockIdx index : ZMod scheme.order)) :
    Yields scheme collected blockIdx (readBe (blockBytes secret blockIdx)) := by
  have length := dealt.length_le
  have small := (readBe_blockBytes_lt (by omega) inside).trans large
  refine determined.yields ?_ small
  rw [blockCoeffs, if_pos rfl, Nat.mod_eq_of_lt small]

theorem Dealt.stated {share : Share} (member : share ∈ shares) :
    share.dataLength = secret.length ∧ share.blockIndex < numBlocks secret.length := by
  rw [dealt.shares_eq] at member
  obtain ⟨blockIdx, inside, participant, isParticipant, rfl⟩ := mem_dealing.mp member
  exact ⟨rfl, inside⟩

theorem Dealt.reconstructBlocks_failed
    (large : 2 ^ 240 < scheme.order) (genuine : ∀ share ∈ collected, share ∈ shares)
    (enough : ∀ blockIdx < numBlocks secret.length, scheme.threshold ≤
      (collected.filter fun share => share.blockIndex = blockIdx).length)
    (distinct : ∀ blockIdx < numBlocks secret.length,
      ((selected scheme.threshold blockIdx collected).map Share.x).Nodup)
    {last count : ℕ} (blocks : numBlocks secret.length = last + 1) (inside : count ≤ last + 1)
    (zero : ∃ blockIdx < count, ∃ share ∈ selected scheme.threshold blockIdx collected,
      share.value % scheme.order = 0) :
    reconstructBlocks scheme collected secret.length (last + 1) count = .error .failed := by
  have length := dealt.length_le
  have start := lt_numBlocks_iff.mp (show last < numBlocks secret.length by omega)
  induction count with
  | zero => omega
  | succ count ih =>
    by_cases before : ∃ blockIdx < count,
        ∃ share ∈ selected scheme.threshold blockIdx collected, share.value % scheme.order = 0
    · simp only [reconstructBlocks, ih (by omega) before, bind, Except.bind]
    · push Not at before
      obtain ⟨blockIdx, found, share, member, vanishes⟩ := zero
      obtain rfl : blockIdx = count := by
        by_contra different
        exact before blockIdx (by omega) share member vanishes
      have earlier := reconstructBlocks_of_yields
        (fun earlier bound => dealt.yields large (by omega) (dealt.determined genuine
          (enough earlier (by omega)) (distinct earlier (by omega)) (before earlier bound)))
        (fun earlier bound => blocks ▸ readBe_partOf_lt start (by omega)
          (show earlier ≤ last by omega))
        ((sum_sizeOfBlock_le start (by omega) (show blockIdx ≤ last + 1 by omega)).trans
          (length.trans (by decide)))
      apply SecretShare.reconstructBlocks_failed earlier
      refine collectBlock_of_unreadable member ?_ fun share collected => ?_
      · rw [dealt.readValue_eq (genuine share (mem_of_mem_selected member).1), if_pos vanishes]
      · rw [dealt.readValue_eq (genuine share collected)]
        exact (ite_eq_or_eq _ _ _)

end Dealt

/-- The shares may be in any order, if those that are selected for a block are of different
participants. The round trip fails exactly if a selected value is zero. -/
theorem reconstruct_created (scheme : Scheme) (large : 2 ^ 240 < scheme.order) (saved : SavedCoeffs)
    (random : ℕ → ℕ → Fin scheme.order) (secret : Bytes) (shares : List Share)
    (created : (createSecretShares scheme saved random secret).2 = some shares)
    (collected : List Share) (genuine : ∀ share ∈ collected, share ∈ shares)
    (enough : ∀ blockIdx < numBlocks secret.length, scheme.threshold ≤
      (collected.filter fun share => share.blockIndex = blockIdx).length)
    (distinct : ∀ blockIdx < numBlocks secret.length,
      ((selected scheme.threshold blockIdx collected).map Share.x).Nodup) :
    (reconstructSecretFromShares scheme collected = .error .failed ↔
      ∃ blockIdx < numBlocks secret.length,
        ∃ share ∈ selected scheme.threshold blockIdx collected, share.value % scheme.order = 0) ∧
    (reconstructSecretFromShares scheme collected = .ok (secret, secret.length) ↔
      ∀ blockIdx < numBlocks secret.length,
        ∀ share ∈ selected scheme.threshold blockIdx collected,
          share.value % scheme.order ≠ 0) := by
  have dealt := dealt_of_created created
  have length := dealt.length_le
  have positive := dealt.length_pos
  obtain ⟨last, blocks⟩ : ∃ last, numBlocks secret.length = last + 1 :=
    Nat.exists_eq_add_one.mpr (lt_numBlocks_iff.mpr (by omega))
  have start := lt_numBlocks_iff.mp (show last < numBlocks secret.length by omega)
  have stated (share : Share) (member : share ∈ collected) :=
    (dealt.stated (genuine share member)).1
  have below (share : Share) (member : share ∈ collected) : share.blockIndex ≤ last := by
    have inside := (dealt.stated (genuine share member)).2
    omega
  have lastEnough := enough last (by omega)
  have attained : ∃ share ∈ collected, share.blockIndex = last := by
    have present := exists_mem_of_length_pos (scheme.threshold_pos.trans_le lastEnough)
    simpa using present
  have many : scheme.threshold ≤ collected.length := lastEnough.trans (length_filter_le _ _)
  by_cases zero : ∃ blockIdx < numBlocks secret.length,
      ∃ share ∈ selected scheme.threshold blockIdx collected, share.value % scheme.order = 0
  · have failed : reconstructSecretFromShares scheme collected = .error .failed := by
      rw [reconstruct_of_last positive many stated below attained
        (by simp only [blockSize] at start; omega),
        dealt.reconstructBlocks_failed large genuine enough distinct blocks le_rfl (blocks ▸ zero),
        Except.map]
    refine ⟨iff_of_true failed zero, iff_of_false ?_ ?_⟩
    · simp [failed]
    · push Not
      exact zero
  · push Not at zero
    have fits (blockIdx : ℕ) (inside : blockIdx ≤ last) :=
      @readBe_partOf_lt secret last blockIdx start (by omega) inside
    have recovered : reconstructSecretFromShares scheme collected =
        .ok (secret, secret.length) := by
      rw [reconstruct_of_yields start (by omega) fits (length.trans (by decide)) many stated below
        attained, (flatMap_writeBe_eq_iff start (by omega) fits).mpr fun _ _ => rfl]
      intro blockIdx inside
      rw [← blocks]
      exact dealt.yields large (by omega) (dealt.determined genuine (enough blockIdx (by omega))
        (distinct blockIdx (by omega)) (zero blockIdx (by omega)))
    refine ⟨iff_of_false ?_ ?_, iff_of_true recovered zero⟩
    · simp [recovered]
    · push Not
      exact zero

theorem reconstruct_created_leading_zero :
    (createSecretShares deployed neverSaved (constantRandom 5) [0, 7]).2 =
        some (dealing deployed (constantRandom 5) [0, 7] 1) ∧
      reconstructSecretFromShares deployed
        [dealtShare deployed (constantRandom 5) [0, 7] 0 2,
          dealtShare deployed (constantRandom 5) [0, 7] 0 0] = .ok ([0, 7], 2) := by
  have created : (createSecretShares deployed neverSaved (constantRandom 5) [0, 7]).2 =
      some (dealing deployed (constantRandom 5) [0, 7] 1) := by decide +kernel
  refine ⟨created, ?_⟩
  exact (reconstruct_created deployed two_pow_240_lt_secp256k1Order neverSaved (constantRandom 5)
    [0, 7] _ created _ (by decide +kernel) (by decide +kernel) (by decide +kernel)).2.mpr
      (by decide +kernel)

end TigerMixer.SecretShare
