import TigerMixer.SecretShare.RoundTrip

/-!
# Commitments to the coefficients

`create_vss_commitments` publishes `g^a` for every coefficient `a` of every block, and
`verify_share_with_commitment` compares `g^y` with the combination of these points. It accepts the
neutral element as the commitment of a block of zeros only. A record of any origin is a polynomial,
whose nonzero values are accepted.
-/

namespace TigerMixer.SecretShare

open Bytes List

universe u

def isAllZero (compressed : Bytes) : Bool :=
  compressed.all fun byte => byte == 0

/-- `ec_write_bin` and `ec_read_bin` on compressed points. The neutral element is all zeros, every
other point starts with a nonzero byte and is read back. -/
structure PointCodec (E : Type u) [Zero E] where
  ecWriteBin : E → Bytes
  ecReadBin : Bytes → Option E
  isAllZero_ecWriteBin : ∀ point, isAllZero (ecWriteBin point) = true ↔ point = 0
  ecReadBin_ecWriteBin : ∀ point, point ≠ 0 → ecReadBin (ecWriteBin point) = some point

structure VssCommitment where
  commitments : ℕ → ℕ → Bytes
  numBlocks : ℕ
  secretLen : ℕ

section Model

variable (scheme : Scheme) {E : Type u} [AddCommGroup E] [Module (ZMod scheme.order) E]
  (group : PrimeOrderGroup scheme.order E) (codec : PointCodec E)

def createVssCommitments (saved : SavedCoeffs) (secret : Bytes) : Option VssCommitment :=
  if shareSize < secret.length then none
  else if maxBlocks < numBlocks secret.length then none
  else if saved.coeffsSaved = false then none
  else some
    { commitments := fun blockIdx index =>
        if blockIdx < numBlocks secret.length ∧ index < scheme.threshold then
          codec.ecWriteBin ((saved.savedCoeffs blockIdx index % scheme.order) • group.gen)
        else List.replicate 33 0
      numBlocks := numBlocks secret.length
      secretLen := secret.length }

def decodeCommitment {E : Type u} [AddCommGroup E] [DecidableEq E] (codec : PointCodec E)
    (index : ℕ) (compressed : Bytes) : Option E :=
  if isAllZero compressed then (if index = 0 then some 0 else none)
  else
    match codec.ecReadBin compressed with
    | none => none
    | some point => if point = 0 ∧ index ≠ 0 then none else some point

def combineStep {E : Type u} [AddCommGroup E] (order x : ℕ) (state : E × ℕ) (point : E) : E × ℕ :=
  (state.1 + state.2 • point, state.2 * x % order)

/-- `verify_share_with_commitment`; `true` stands for the return value `0`, `false` for `-1` and for
the exceptions of `verificationThrows`. -/
def verifyShareWithCommitment [DecidableEq E] (share : Share) (commitment : VssCommitment) : Bool :=
  if share.dataLength ≠ commitment.secretLen then false
  else if commitment.numBlocks ≤ share.blockIndex then false
  else
    match share.readValue with
    | .error _ => false
    | .ok value =>
      if modThrows value scheme.order then false
      else
        match (List.range scheme.threshold).mapM fun index =>
            decodeCommitment codec index (commitment.commitments share.blockIndex index) with
        | none => false
        | some points =>
          let combined := (points.foldl (combineStep scheme.order (digit share.x)) (0, 1)).1
          if combined = 0 then false else combined = (value % scheme.order) • group.gen

/-- RELIC throws when the value of a share that passes the comparisons is read or reduced. -/
def verificationThrows (share : Share) (commitment : VssCommitment) : Bool :=
  share.dataLength = commitment.secretLen && share.blockIndex < commitment.numBlocks &&
    match share.readValue with
    | .error fault => fault == .thrown
    | .ok value => modThrows value scheme.order

end Model

variable {scheme : Scheme} {E : Type u} [AddCommGroup E] [Module (ZMod scheme.order) E]
  {group : PrimeOrderGroup scheme.order E}

section Verification

theorem natCast_mod_smul_gen (value : ℕ) :
    (value % scheme.order) • group.gen = (value : ZMod scheme.order) • group.gen := by
  rw [← Nat.cast_smul_eq_nsmul (ZMod scheme.order), ZMod.natCast_mod]

theorem combine_smul_gen (x : ℕ) (logs : List (ZMod scheme.order)) (sum : E) (power : ℕ) :
    ((logs.map fun log => log • group.gen).foldl (combineStep scheme.order x) (sum, power)).1 =
      sum + ((power : ZMod scheme.order) *
        logs.foldr (fun log value : ZMod scheme.order => value * x + log) 0) • group.gen := by
  induction logs generalizing sum power with
  | nil => simp
  | cons log logs ih =>
    rw [map_cons, foldl_cons, combineStep, ih, ← Nat.cast_smul_eq_nsmul (ZMod scheme.order),
      ← mul_smul, add_assoc, ← add_smul, foldr_cons, ZMod.natCast_mod, Nat.cast_mul]
    congr 2
    ring

theorem combine_eq_evaluate (x : ℕ) (logs : ℕ → ZMod scheme.order) :
    (((List.range scheme.threshold).map fun index => logs index • group.gen).foldl
      (combineStep scheme.order x) (0, 1)).1 =
      Interpolation.evaluate scheme.threshold logs x • group.gen := by
  have split : ((List.range scheme.threshold).map fun index => logs index • group.gen) =
      ((List.range scheme.threshold).map logs).map fun log => log • group.gen := by
    rw [map_map]
    rfl
  rw [split, combine_smul_gen, foldr_map, Interpolation.foldr_range_horner]
  simp

variable [DecidableEq E] {codec : PointCodec E}

/-- What an accepted share has passed: it is a nonzero value of the committed polynomial. -/
structure Accepted (scheme : Scheme) {E : Type u} [AddCommGroup E] [DecidableEq E]
    [Module (ZMod scheme.order) E] (group : PrimeOrderGroup scheme.order E) (codec : PointCodec E)
    (share : Share) (commitment : VssCommitment) (logs : ℕ → ZMod scheme.order) : Prop where
  dataLength : share.dataLength = commitment.secretLen
  blockIndex : share.blockIndex < commitment.numBlocks
  readable : share.readValue = .ok share.value
  reducible : modThrows share.value scheme.order = false
  decoded : ∀ index < scheme.threshold, decodeCommitment codec index
    (commitment.commitments share.blockIndex index) = some (logs index • group.gen)
  value : (share.value : ZMod scheme.order) =
    Interpolation.evaluate scheme.threshold logs (digit share.x)
  nonzero : (share.value : ZMod scheme.order) ≠ 0

theorem Accepted.verify {share : Share} {commitment : VssCommitment} {logs : ℕ → ZMod scheme.order}
    (accepted : Accepted scheme group codec share commitment logs) :
    verifyShareWithCommitment scheme group codec share commitment = true := by
  have traversed : ((List.range scheme.threshold).mapM fun index => decodeCommitment codec index
      (commitment.commitments share.blockIndex index)) =
        some ((List.range scheme.threshold).map fun index => logs index • group.gen) := by
    rw [mapM_eq_some_iff, map_map]
    apply map_congr_left
    intro index member
    exact accepted.decoded index (mem_range.mp member)
  have inRange : ¬commitment.numBlocks ≤ share.blockIndex := by
    have := accepted.blockIndex
    omega
  simp only [verifyShareWithCommitment, accepted.dataLength, inRange, accepted.readable,
    accepted.reducible, traversed, combine_eq_evaluate, ← accepted.value, natCast_mod_smul_gen,
    group.smul_gen_eq_zero_iff, accepted.nonzero]
  simp

theorem accepted_of_verify {share : Share} {commitment : VssCommitment}
    (verified : verifyShareWithCommitment scheme group codec share commitment = true) :
    ∃ logs, Accepted scheme group codec share commitment logs := by
  unfold verifyShareWithCommitment at verified
  split_ifs at verified with length index
  split at verified
  · simp at verified
  · rename_i value read
    split_ifs at verified with throws
    split at verified
    · simp at verified
    · rename_i points traversed
      rw [mapM_eq_some_iff] at traversed
      choose log logEq using group.smul_gen_bijective.surjective
      let decode (index : ℕ) : Option E :=
        decodeCommitment codec index (commitment.commitments share.blockIndex index)
      let logs (index : ℕ) : ZMod scheme.order := log ((decode index).getD 0)
      have decoded : ∀ index < scheme.threshold, decode index = some (logs index • group.gen) := by
        intro index inside
        have member : decode index ∈ points.map some := by
          rw [← traversed]
          exact mem_map_of_mem (mem_range.mpr inside)
        obtain ⟨point, -, equal⟩ := mem_map.mp member
        simp only [logs, logEq, ← equal, Option.getD_some]
      have pointsEq : points =
          (List.range scheme.threshold).map fun index => logs index • group.gen := by
        apply map_injective_iff.mpr (Option.some_injective E)
        rw [← traversed, map_map]
        apply map_congr_left
        intro index member
        exact decoded index (mem_range.mp member)
      have sameValue := Share.eq_value_of_readValue read
      subst sameValue
      rw [pointsEq] at verified
      simp only [combine_eq_evaluate, natCast_mod_smul_gen, group.smul_gen_eq_zero_iff,
        group.smul_gen_inj] at verified
      split_ifs at verified with zero
      have value := (of_decide_eq_true verified).symm
      exact ⟨logs, not_not.mp length, by omega, read, Bool.eq_false_of_not_eq_true throws, decoded,
        value, by rwa [value]⟩

theorem verificationThrows_eq_false {share : Share} {commitment : VssCommitment}
    (verified : verifyShareWithCommitment scheme group codec share commitment = true) :
    verificationThrows scheme share commitment = false := by
  obtain ⟨logs, accepted⟩ := accepted_of_verify verified
  simp [verificationThrows, accepted.readable, accepted.reducible]

theorem decodeCommitment_ecWriteBin_iff {index : ℕ} {point decoded : E} :
    decodeCommitment codec index (codec.ecWriteBin point) = some decoded ↔
      (index = 0 ∨ point ≠ 0) ∧ point = decoded := by
  unfold decodeCommitment
  by_cases zero : point = 0
  · rw [if_pos ((codec.isAllZero_ecWriteBin point).mpr zero)]
    by_cases first : index = 0 <;> simp [first, zero]
  · rw [if_neg (mt (codec.isAllZero_ecWriteBin point).mp zero),
      codec.ecReadBin_ecWriteBin point zero]
    simp [zero]

theorem verify_iff_accepted {share : Share} {commitment : VssCommitment}
    {logs : ℕ → ZMod scheme.order} (written : ∀ index < scheme.threshold,
      commitment.commitments share.blockIndex index = codec.ecWriteBin (logs index • group.gen)) :
    verifyShareWithCommitment scheme group codec share commitment = true ↔
      Accepted scheme group codec share commitment logs := by
  refine ⟨?_, Accepted.verify⟩
  intro verified
  obtain ⟨found, accepted⟩ := accepted_of_verify verified
  have same : ∀ index < scheme.threshold, found index = logs index := by
    intro index coefficient
    have decoded := accepted.decoded index coefficient
    rw [written index coefficient, decodeCommitment_ecWriteBin_iff] at decoded
    exact (group.smul_gen_inj.mp decoded.2).symm
  refine { accepted with decoded := ?_, value := ?_ }
  · intro index coefficient
    rw [accepted.decoded index coefficient, same index coefficient]
  · rw [accepted.value]
    exact Interpolation.evaluate_congr _ same

end Verification

section Completeness

variable {codec : PointCodec E} {random : ℕ → ℕ → Fin scheme.order} {secret : Bytes}
  {saved : SavedCoeffs} {shares : List Share}

theorem Dealt.exists_commitment (group : PrimeOrderGroup scheme.order E) (codec : PointCodec E)
    (dealt : Dealt scheme random secret saved shares) {current : SavedCoeffs}
    (coeffsSaved : current.coeffsSaved = true) :
    ∃ commitment, createVssCommitments scheme group codec current secret = some commitment := by
  have length := dealt.length_le
  have few := dealt.few_blocks
  have size : shareSize = 100000 := rfl
  unfold createVssCommitments
  rw [if_neg (by omega), if_neg (by omega), if_neg (by simp [coeffsSaved])]
  exact ⟨_, rfl⟩

variable {commitment : VssCommitment} {blockIdx index : ℕ}

theorem createVssCommitments_header
    (created : createVssCommitments scheme group codec saved secret = some commitment) :
    commitment.secretLen = secret.length ∧ commitment.numBlocks = numBlocks secret.length := by
  unfold createVssCommitments at created
  split_ifs at created
  obtain rfl := Option.some.inj created
  exact ⟨rfl, rfl⟩

theorem commitments_created
    (created : createVssCommitments scheme group codec saved secret = some commitment)
    (inside : blockIdx < numBlocks secret.length) (coefficient : index < scheme.threshold) :
    commitment.commitments blockIdx index =
      codec.ecWriteBin ((saved.savedCoeffs blockIdx index : ZMod scheme.order) • group.gen) := by
  unfold createVssCommitments at created
  split_ifs at created
  obtain rfl := Option.some.inj created
  simp only [inside, coefficient, and_self, if_true, natCast_mod_smul_gen]

theorem natCast_blockCoeffs_ne_zero_iff (positive : 0 < index) :
    (blockCoeffs scheme random secret blockIdx index : ZMod scheme.order) ≠ 0 ↔
      (random blockIdx index : ℕ) ≠ 0 := by
  rw [blockCoeffs, if_neg positive.ne', natCast_ne_zero_iff,
    Nat.mod_eq_of_lt (random blockIdx index).isLt]

variable [DecidableEq E]

section Dealt

variable (dealt : Dealt scheme random secret saved shares) {share : Share} (member : share ∈ shares)
  (nonzero : share.value % scheme.order ≠ 0)

include dealt member nonzero

/-- A dealt share against commitments that may have been made after later dealings. -/
theorem Dealt.verify_iff {current : SavedCoeffs}
    (created : createVssCommitments scheme group codec current secret = some commitment)
    {coeffs : ℕ → ℕ} (stored : ∀ index < scheme.threshold,
      current.savedCoeffs share.blockIndex index = coeffs index) :
    verifyShareWithCommitment scheme group codec share commitment = true ↔
      (∀ index < scheme.threshold, 0 < index → (coeffs index : ZMod scheme.order) ≠ 0) ∧
        (share.value : ZMod scheme.order) = Interpolation.evaluate scheme.threshold
          (fun index => (coeffs index : ZMod scheme.order)) (digit share.x) := by
  obtain ⟨stated, inside⟩ := dealt.stated member
  have header := createVssCommitments_header created
  have written (index : ℕ) (coefficient : index < scheme.threshold) :
      commitment.commitments share.blockIndex index =
        codec.ecWriteBin ((coeffs index : ZMod scheme.order) • group.gen) := by
    rw [commitments_created created inside coefficient, stored index coefficient]
  rw [verify_iff_accepted written]
  constructor
  · intro accepted
    refine ⟨?_, accepted.value⟩
    intro index coefficient positive zero
    have decoded := accepted.decoded index coefficient
    rw [written index coefficient, decodeCommitment_ecWriteBin_iff, zero, zero_smul] at decoded
    exact decoded.1.elim positive.ne' (absurd rfl)
  · rintro ⟨later, value⟩
    refine ⟨?_, ?_, ?_, modThrows_of_lt (dealt.value_lt member), ?_, value,
      natCast_ne_zero_iff.mpr nonzero⟩
    · rw [stated, header.1]
    · rwa [header.2]
    · rw [dealt.readValue_eq member, if_neg nonzero]
    · intro index coefficient
      rw [written index coefficient, decodeCommitment_ecWriteBin_iff]
      refine ⟨?_, rfl⟩
      rcases Nat.eq_zero_or_pos index with first | positive
      · exact .inl first
      · exact .inr (mt group.smul_gen_eq_zero_iff.mp (later index coefficient positive))

theorem Dealt.verify
    (created : createVssCommitments scheme group codec saved secret = some commitment)
    (drawn : ∀ blockIdx < numBlocks secret.length, ∀ index < scheme.threshold, 0 < index →
      (random blockIdx index : ℕ) ≠ 0) :
    verifyShareWithCommitment scheme group codec share commitment = true := by
  have inside := (dealt.stated member).2
  apply (dealt.verify_iff member nonzero created (dealt.savedCoeffs _ inside)).mpr
  refine ⟨?_, dealt.value_eq member⟩
  intro index coefficient positive
  exact (natCast_blockCoeffs_ne_zero_iff positive).mpr
    (drawn _ inside index coefficient positive)

end Dealt

end Completeness

section Binding

variable [DecidableEq E] {codec : PointCodec E} {commitment : VssCommitment}

/-- The value at zero of some shares of a block, with the weights of `lagrange_coefficient_ec`. -/
def interpolateShares (scheme : Scheme) (shares : List Share) : ℕ :=
  interpolateBlock scheme.order (shares.map fun share => (share.x, share.value))

theorem Accepted.evaluate_eq {blockIdx : ℕ} {first share : Share}
    {firstLogs logs : ℕ → ZMod scheme.order} (firstBlock : first.blockIndex = blockIdx)
    (block : share.blockIndex = blockIdx)
    (firstAccepted : Accepted scheme group codec first commitment firstLogs)
    (accepted : Accepted scheme group codec share commitment logs) :
    (share.value : ZMod scheme.order) =
      Interpolation.evaluate scheme.threshold firstLogs (digit share.x) := by
  rw [accepted.value]
  apply Interpolation.evaluate_congr
  intro index coefficient
  have decoded := accepted.decoded index coefficient
  rw [block, ← firstBlock, firstAccepted.decoded index coefficient] at decoded
  exact (group.smul_gen_inj.mp (Option.some.inj decoded)).symm

structure AcceptedSet (scheme : Scheme) {E : Type u} [AddCommGroup E] [DecidableEq E]
    [Module (ZMod scheme.order) E] (group : PrimeOrderGroup scheme.order E) (codec : PointCodec E)
    (commitment : VssCommitment) (blockIdx : ℕ) (shares : List Share) : Prop where
  enough : shares.length = scheme.threshold
  block : ∀ share ∈ shares, share.blockIndex = blockIdx
  distinct : (shares.map fun share => digit share.x % scheme.order).Nodup
  verified : ∀ share ∈ shares, verifyShareWithCommitment scheme group codec share commitment = true

theorem AcceptedSet.decodeCommitment_eq {blockIdx : ℕ} {shares : List Share}
    (accepted : AcceptedSet scheme group codec commitment blockIdx shares) :
    decodeCommitment codec 0 (commitment.commitments blockIdx 0) =
      some (interpolateShares scheme shares • group.gen) := by
  obtain ⟨enough, block, distinct, verified⟩ := accepted
  obtain ⟨first, firstMember⟩ : ∃ share, share ∈ shares := by
    apply exists_mem_of_length_pos
    rw [enough]
    exact scheme.threshold_pos
  obtain ⟨logs, firstAccepted⟩ := accepted_of_verify (verified first firstMember)
  have interpolated : (interpolateShares scheme shares : ZMod scheme.order) = logs 0 := by
    apply natCast_interpolateBlock_of_evaluate
    · rw [length_map, enough]
    · rw [map_map, map_map]
      apply List.Nodup.map_on _ (List.Nodup.of_map _ distinct)
      intro left leftMember right rightMember equal
      have residues : digit left.x % scheme.order = digit right.x % scheme.order :=
        mod_eq_mod_iff_natCast_eq.mpr equal
      exact inj_on_of_nodup_map distinct leftMember rightMember residues
    · intro point member
      obtain ⟨share, shareMember, rfl⟩ := mem_map.mp member
      obtain ⟨shareLogs, accepted⟩ := accepted_of_verify (verified share shareMember)
      exact Accepted.evaluate_eq (block first firstMember) (block share shareMember) firstAccepted
        accepted
  have decoded := firstAccepted.decoded 0 scheme.threshold_pos
  rw [block first firstMember] at decoded
  rw [decoded, ← interpolated, Nat.cast_smul_eq_nsmul]

end Binding

/-- Every nonzero share is accepted against its commitments, and the shares that any record accepts
for a block interpolate to the scalar that its first point commits to. -/
theorem verification_complete_and_binding (scheme : Scheme) {E : Type u} [AddCommGroup E]
    [DecidableEq E] [Module (ZMod scheme.order) E] (group : PrimeOrderGroup scheme.order E)
    (codec : PointCodec E) :
    (∀ (saved : SavedCoeffs) (random : ℕ → ℕ → Fin scheme.order) (secret : Bytes)
        (shares : List Share), (createSecretShares scheme saved random secret).2 = some shares →
      (∀ blockIdx < numBlocks secret.length, ∀ index < scheme.threshold, 0 < index →
        (random blockIdx index : ℕ) ≠ 0) →
      ∃ commitment, createVssCommitments scheme group codec
          (createSecretShares scheme saved random secret).1 secret = some commitment ∧
        ∀ share ∈ shares, share.value % scheme.order ≠ 0 →
          verifyShareWithCommitment scheme group codec share commitment = true) ∧
    (∀ (commitment : VssCommitment) (blockIdx : ℕ) (left right : List Share),
      AcceptedSet scheme group codec commitment blockIdx left →
      AcceptedSet scheme group codec commitment blockIdx right →
      interpolateShares scheme left = interpolateShares scheme right ∧
        decodeCommitment codec 0 (commitment.commitments blockIdx 0) =
          some (interpolateShares scheme left • group.gen)) := by
  constructor
  · intro saved random secret shares created nonzero
    have dealt := dealt_of_created created
    obtain ⟨commitment, committed⟩ := dealt.exists_commitment group codec dealt.coeffsSaved
    refine ⟨commitment, committed, ?_⟩
    intro share member value
    exact dealt.verify member value committed nonzero
  · intro commitment blockIdx left right leftAccepted rightAccepted
    have leftDecoded := leftAccepted.decodeCommitment_eq
    have same := rightAccepted.decodeCommitment_eq
    rw [leftDecoded, Option.some.injEq, ← Nat.cast_smul_eq_nsmul (ZMod scheme.order),
      ← Nat.cast_smul_eq_nsmul (ZMod scheme.order), group.smul_gen_inj] at same
    exact ⟨eq_of_natCast_eq (interpolateBlock_lt _) (interpolateBlock_lt _) same, leftDecoded⟩

section Sample

def compressedGen : Bytes :=
  2 :: writeBe 32 0x79BE667EF9DCBBAC55A06295CE870B07029BFCDB2DCE28D959F2815B16F81798

def compressedDouble : Bytes :=
  2 :: writeBe 32 0xC6047F9441ED7D6D3045406E95C07CD85C778E4B8CEF3CA7ABAC09B95C709EE5

def tableCodec : PointCodec (ZMod deployed.order) where
  ecWriteBin point :=
    if point = 0 then List.replicate 33 0
    else if point = 1 then compressedGen
    else if point = 2 then compressedDouble
    else 4 :: writeBe 32 point.val
  ecReadBin compressed :=
    if compressed = compressedGen then some 1
    else if compressed = compressedDouble then some 2
    else
      match compressed with
      | 4 :: rest => some (readBe rest : ZMod deployed.order)
      | _ => none
  isAllZero_ecWriteBin point := by
    have genNonzero : isAllZero compressedGen = false := by decide +kernel
    have doubleNonzero : isAllZero compressedDouble = false := by decide +kernel
    split_ifs with zero one two
    · simp [zero, isAllZero]
    · simp [zero, genNonzero]
    · simp [zero, doubleNonzero]
    · simp [zero, isAllZero]
  ecReadBin_ecWriteBin point nonzero := by
    have different : compressedDouble ≠ compressedGen := by decide +kernel
    by_cases one : point = 1
    · rw [if_neg nonzero, if_pos one, if_pos rfl, one]
    · by_cases two : point = 2
      · rw [if_neg nonzero, if_neg one, if_pos two, if_neg different, if_pos rfl, two]
      · have notGen : 4 :: writeBe 32 point.val ≠ compressedGen := fun equal =>
          absurd (List.cons.inj equal).1 (by decide)
        have notDouble : 4 :: writeBe 32 point.val ≠ compressedDouble := fun equal =>
          absurd (List.cons.inj equal).1 (by decide)
        have fits : point.val < 256 ^ 32 := (ZMod.val_lt point).trans (by decide +kernel)
        rw [if_neg nonzero, if_neg one, if_neg two, if_neg notGen, if_neg notDouble]
        simp only [readBe_writeBe_of_lt fits, ZMod.natCast_zmod_val]

theorem verification_complete_and_binding_one :
    ∃ commitment, createVssCommitments deployed (PrimeOrderGroup.residues deployed.order) tableCodec
        (createSecretShares deployed neverSaved (constantRandom 2) [1]).1 [1] = some commitment ∧
      decodeCommitment tableCodec 0 (commitment.commitments 0 0) =
        some (interpolateShares deployed [dealtShare deployed (constantRandom 2) [1] 0 0,
          dealtShare deployed (constantRandom 2) [1] 0 2] •
            (PrimeOrderGroup.residues deployed.order).gen) ∧
      interpolateShares deployed [dealtShare deployed (constantRandom 2) [1] 0 0,
        dealtShare deployed (constantRandom 2) [1] 0 2] = 1 := by
  obtain ⟨complete, binding⟩ := verification_complete_and_binding deployed
    (PrimeOrderGroup.residues deployed.order) tableCodec
  have created : (createSecretShares deployed neverSaved (constantRandom 2) [1]).2 =
      some (dealing deployed (constantRandom 2) [1] 1) := by decide +kernel
  obtain ⟨commitment, committed, verified⟩ := complete neverSaved (constantRandom 2) [1] _ created
    (fun _ _ _ _ _ => (by decide +kernel : 2 % deployed.order ≠ 0))
  have accepted : AcceptedSet deployed (PrimeOrderGroup.residues deployed.order) tableCodec
      commitment 0 [dealtShare deployed (constantRandom 2) [1] 0 0,
        dealtShare deployed (constantRandom 2) [1] 0 2] := by
    refine ⟨rfl, by decide +kernel, by decide +kernel, ?_⟩
    simp only [forall_mem_cons]
    exact ⟨verified _ (by decide +kernel) (by decide +kernel),
      verified _ (by decide +kernel) (by decide +kernel), by simp⟩
  exact ⟨commitment, committed, (binding commitment 0 _ _ accepted accepted).2, by decide +kernel⟩

end Sample

end TigerMixer.SecretShare
