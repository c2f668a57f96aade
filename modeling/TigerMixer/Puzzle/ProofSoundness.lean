import TigerMixer.Puzzle.Correctness

/-!
# How far the puzzle proofs bind their statement

The proof that a ciphertext encrypts the discrete logarithm of a point binds the point only through
the challenge. A verifier with a given challenge accepts at most one point unless the challenge
vanishes, and a second part counts the digests for which it does.
-/

namespace TigerMixer

open Bytes Finset

universe u v

namespace Cldl

/-- The challenge that `zk_cldl_prove` and `zk_cldl_verify` take from a digest of `mdLen` bytes. -/
def challengeAt (mdLen : ℕ) (hash : Bytes) : ℕ :=
  let soundness := 2 ^ 40
  let k :=
    if Nat.size soundness < 8 * mdLen then
      readBe (hash.take ((Nat.size soundness + 7) / 8)) >>> (8 * mdLen - Nat.size soundness)
    else readBe (hash.take mdLen)
  k % soundness

theorem challengeAt_of_le {mdLen : ℕ} (short : mdLen ≤ 5) (hash : Bytes) :
    challengeAt mdLen hash = readBe (hash.take mdLen) % 2 ^ 40 := by
  have bits : Nat.size (2 ^ 40) = 41 := Nat.size_pow
  rw [challengeAt, bits, if_neg (by omega)]

theorem challengeAt_of_lt {mdLen : ℕ} (long : 5 < mdLen) (hash : Bytes) :
    challengeAt mdLen hash = readBe (hash.take 6) / 2 ^ (8 * mdLen - 41) % 2 ^ 40 := by
  have bits : Nat.size (2 ^ 40) = 41 := Nat.size_pow
  rw [challengeAt, bits, if_pos (by omega), Nat.shiftRight_eq_div_pow]

theorem challengeAt_eq_zero {mdLen : ℕ} (long : 12 ≤ mdLen) (hash : Bytes) :
    challengeAt mdLen hash = 0 := by
  rw [challengeAt_of_lt (by omega), Nat.div_eq_of_lt, Nat.zero_mod]
  calc readBe (hash.take 6) < 256 ^ (hash.take 6).length := readBe_lt _
    _ ≤ 256 ^ 6 := Nat.pow_le_pow_right (by norm_num) (List.length_take_le 6 hash)
    _ = 2 ^ 48 := by norm_num
    _ ≤ 2 ^ (8 * mdLen - 41) := Nat.pow_le_pow_right (by norm_num) (by omega)

section Counting

def zeroDigests (mdLen : ℕ) : Finset Bytes :=
  (ofLength mdLen).filter fun hash => challengeAt mdLen hash = 0

/-- At most one digest in `2 ^ 40` has a challenge that vanishes. -/
def RareZero (mdLen : ℕ) : Prop :=
  2 ^ 40 * (zeroDigests mdLen).card ≤ 256 ^ mdLen

theorem card_zeroDigests (mdLen : ℕ) :
    (zeroDigests mdLen).card =
      ((range (256 ^ mdLen)).filter fun value =>
        challengeAt mdLen (writeBe mdLen value) = 0).card :=
  card_filter_ofLength mdLen _

theorem rareZero_five : RareZero 5 := by
  have single : ((range (256 ^ 5)).filter fun value =>
      challengeAt 5 (writeBe 5 value) = 0) ⊆ {0} := by
    intro value member
    rw [mem_filter, mem_range, challengeAt_of_le le_rfl] at member
    rcases member with ⟨fits, vanishes⟩
    rw [List.take_of_length_le (length_writeBe 5 value).le, readBe_writeBe_of_lt fits,
      Nat.mod_eq_of_lt (fits.trans_eq (by norm_num))] at vanishes
    exact mem_singleton.mpr vanishes
  have count := card_le_card single
  rw [RareZero, card_zeroDigests]
  rw [card_singleton] at count
  omega

theorem rareZero_six : RareZero 6 := by
  have halves : ((range (256 ^ 6)).filter fun value =>
      challengeAt 6 (writeBe 6 value) = 0) ⊆
        range 128 ∪ Ico (2 ^ 47) (2 ^ 47 + 128) := by
    intro value member
    rw [mem_filter, mem_range, challengeAt_of_lt (by decide)] at member
    rcases member with ⟨fits, vanishes⟩
    rw [List.take_of_length_le (length_writeBe 6 value).le, readBe_writeBe_of_lt fits] at vanishes
    rw [mem_union, mem_range, mem_Ico]
    omega
  have count := (card_le_card halves).trans (card_union_le _ _)
  rw [card_range, Nat.card_Ico] at count
  rw [RareZero, card_zeroDigests]
  omega

theorem not_rareZero_of_lt {mdLen : ℕ} (short : mdLen < 5) : ¬RareZero mdLen := by
  have zero : 0 ∈ (range (256 ^ mdLen)).filter fun value =>
      challengeAt mdLen (writeBe mdLen value) = 0 := by
    rw [mem_filter, mem_range, challengeAt_of_le (by omega),
      List.take_of_length_le (length_writeBe mdLen 0).le, readBe_writeBe_of_lt (by positivity)]
    exact ⟨by positivity, rfl⟩
  have count := card_pos.mpr ⟨0, zero⟩
  have few : 256 ^ mdLen ≤ 256 ^ 4 := Nat.pow_le_pow_right (by norm_num) (by omega)
  rw [RareZero, card_zeroDigests]
  omega

theorem not_rareZero_of_gt {mdLen : ℕ} (long : 6 < mdLen) : ¬RareZero mdLen := by
  rcases Nat.exists_eq_add_of_lt long with ⟨extra, rfl⟩
  have zeros : range (2 * 256 ^ (extra + 2)) ⊆
      (range (256 ^ (6 + extra + 1))).filter fun value =>
        challengeAt (6 + extra + 1) (writeBe (6 + extra + 1) value) = 0 := by
    intro value member
    rw [mem_range] at member
    have fits : value < 256 ^ (6 + (extra + 1)) := by
      apply member.trans_le
      calc 2 * 256 ^ (extra + 2) ≤ 256 * 256 ^ (extra + 2) := by omega
        _ = 256 ^ (extra + 3) := by ring
        _ ≤ 256 ^ (6 + (extra + 1)) := Nat.pow_le_pow_right (by norm_num) (by omega)
    have small : value / 256 ^ (extra + 1) < 2 ^ (8 * (6 + (extra + 1)) - 41) := by
      calc value / 256 ^ (extra + 1) < 2 ^ 9 := by
            rw [Nat.div_lt_iff_lt_mul (by positivity)]
            exact member.trans_eq (by ring)
        _ ≤ 2 ^ (8 * (6 + (extra + 1)) - 41) := Nat.pow_le_pow_right (by norm_num) (by omega)
    rw [mem_filter, mem_range, Nat.add_assoc, challengeAt_of_lt (by omega),
      readBe_take_writeBe fits, Nat.div_eq_of_lt small]
    exact ⟨fits, rfl⟩
  have count := card_le_card zeros
  rw [card_range] at count
  rw [RareZero, card_zeroDigests, not_le]
  calc 256 ^ (6 + extra + 1) < 2 ^ 40 * (2 * 256 ^ (extra + 2)) := by
        have positive : 0 < 256 ^ (extra + 2) := by positivity
        have split : 256 ^ (6 + extra + 1) = 2 ^ 40 * 256 ^ (extra + 2) := by ring
        omega
    _ ≤ _ := Nat.mul_le_mul_left _ count

theorem rareZero_iff {mdLen : ℕ} : RareZero mdLen ↔ mdLen = 5 ∨ mdLen = 6 := by
  constructor
  · intro rare
    by_contra others
    rcases Nat.lt_or_ge mdLen 5 with short | long
    · exact not_rareZero_of_lt short rare
    · exact not_rareZero_of_gt (by omega) rare
  · rintro (rfl | rfl)
    · exact rareZero_five
    · exact rareZero_six

open scoped Classical in
/-- At most one digest in `2 ^ 40` lets a verifier, given the challenge, accept two different
points. -/
def BindsPoint {E : Type u} (mdLen : ℕ) (accepts : ℕ → E → Bool) : Prop :=
  2 ^ 40 * ((ofLength mdLen).filter fun hash => ∃ Q Q', Q ≠ Q' ∧
    accepts (challengeAt mdLen hash) Q ∧ accepts (challengeAt mdLen hash) Q').card ≤ 256 ^ mdLen

open scoped Classical in
theorem bindsPoint_of_unique {E : Type u} {q mdLen : ℕ} {accepts : ℕ → E → Bool}
    (large : 2 ^ 40 < q) (rare : RareZero mdLen)
    (unique : ∀ k : ℕ, (k : ZMod q) ≠ 0 → ∀ Q Q', accepts k Q → accepts k Q' → Q = Q') :
    BindsPoint mdLen accepts := by
  refine le_trans (Nat.mul_le_mul_left _ (card_le_card fun hash member => ?_)) rare
  rw [mem_filter] at member
  rcases member with ⟨length, Q, Q', different, accepted, accepted'⟩
  refine mem_filter.mpr ⟨length, ?_⟩
  by_contra nonzero
  have bounded : challengeAt mdLen hash < q := (Nat.mod_lt _ (by positivity)).trans large
  exact different (unique _ (natCast_ne_zero_of_lt nonzero bounded) Q Q' accepted accepted')

end Counting

section Verifiers

variable {q : ℕ} {E : Type u} [AddCommGroup E] [Module (ZMod q) E] {C : Type v}

theorem challenge_eq_challengeAt (curve : Curve q E) (params : ClParams C) (t1 : C) (t2 : E)
    (t3 : C) :
    challenge curve params t1 t2 t3 =
      challengeAt mdLen
        (curve.mdMap (params.toStr t1 ++ curve.writeBin t2 ++ params.toStr t3)) := by
  have bits : Nat.size (2 ^ 40) < 8 * mdLen := by
    rw [Nat.size_pow]
    decide
  simp only [challenge, challengeAt, if_pos bits]

variable [CommGroup C] [DecidableEq C]

def acceptsCond1Only (k : ℕ) (params : ClParams C) (proof : CldlProof E C)
    (ciphertext : ClCiphertext C) (pk : C) : Bool :=
  match params.formOf proof.u2 with
  | none => false
  | some fu2 => decide (proof.t1 * ciphertext.c2 ^ k = pk ^ proof.u1 * fu2)

variable [DecidableEq E]

def accepts (k : ℕ) (curve : Curve q E) (params : ClParams C) (proof : CldlProof E C) (Q : E)
    (ciphertext : ClCiphertext C) (pk : C) : Bool :=
  acceptsCond1Only k params proof ciphertext pk &&
    decide (proof.u2 • curve.gen = proof.t2 + k • Q) &&
      decide (proof.t3 * ciphertext.c1 ^ k = params.gq ^ proof.u1)

theorem verify_eq (curve : Curve q E) (params : ClParams C) (proof : CldlProof E C) (Q : E)
    (ciphertext : ClCiphertext C) (pk : C) :
    verify curve params proof Q ciphertext pk =
      accepts (challenge curve params proof.t1 proof.t2 proof.t3) curve params proof Q ciphertext
        pk :=
  rfl

theorem point_unique [Fact q.Prime] {k : ℕ} (nonzero : (k : ZMod q) ≠ 0) {curve : Curve q E}
    {params : ClParams C} {proof : CldlProof E C} {Q Q' : E}
    {ciphertext ciphertext' : ClCiphertext C}
    {pk : C} (accepted : accepts k curve params proof Q ciphertext pk)
    (accepted' : accepts k curve params proof Q' ciphertext' pk) : Q = Q' := by
  simp only [accepts, Bool.and_eq_true, decide_eq_true_eq] at accepted accepted'
  have same : k • Q = k • Q' := add_left_cancel (accepted.1.2.symm.trans accepted'.1.2)
  rw [← Nat.cast_smul_eq_nsmul (ZMod q), ← Nat.cast_smul_eq_nsmul (ZMod q)] at same
  exact (IsUnit.mk0 _ nonzero).smul_left_cancel.mp same

end Verifiers

end Cldl

namespace A2L

variable {q : ℕ} {E : Type} [AddCommGroup E] [Module (ZMod q) E] {C : Type} [CommGroup C]
  [DecidableEq E] [DecidableEq C]

def comprehensiveAccepts (setup : Setup q E C) (kAlpha kR0 : ℕ) (proof : ComprehensiveProof E C)
    (puzzle : Puzzle E C) : Bool :=
  Cldl.accepts kAlpha setup.curve setup.params proof.alphaEncProof puzzle.point puzzle.ctx
      setup.tumblerClPk &&
    Cldl.acceptsCond1Only kR0 setup.params proof.r0EncProof puzzle.auditorCtx setup.auditorClPk

def relationAccepts (setup : Setup q E C) (kTumbler kAuditor : ℕ) (proof : RelationProof E C)
    (original randomized : Puzzle E C) : Bool :=
  let gBeta := randomized.point - original.point
  Cldl.accepts kTumbler setup.curve setup.params proof.tumblerProof gBeta
      (randomized.ctx.div original.ctx) setup.tumblerClPk &&
    Cldl.accepts kAuditor setup.curve setup.params proof.auditorProof gBeta
      (randomized.auditorCtx.div original.auditorCtx) setup.auditorClPk

def challengeOf (setup : Setup q E C) (proof : CldlProof E C) : ℕ :=
  Cldl.challenge setup.curve setup.params proof.t1 proof.t2 proof.t3

theorem comprehensiveVerify_eq (setup : Setup q E C) (proof : ComprehensiveProof E C)
    (puzzle : Puzzle E C) :
    comprehensiveVerify setup proof puzzle =
      comprehensiveAccepts setup (challengeOf setup proof.alphaEncProof)
        (challengeOf setup proof.r0EncProof) proof puzzle :=
  rfl

theorem relationVerify_eq (setup : Setup q E C) (proof : RelationProof E C)
    (original randomized : Puzzle E C) :
    relationVerify setup proof original randomized =
      relationAccepts setup (challengeOf setup proof.tumblerProof)
        (challengeOf setup proof.auditorProof) proof original randomized :=
  rfl

section Binding

structure PuzzleProofsSound (setup : Setup q E C) (mdLen : ℕ) : Prop where
  rare : Cldl.RareZero mdLen
  unique : ∀ (k : ℕ) (proof : CldlProof E C) (ciphertext : ClCiphertext C) (pk : C),
    (k : ZMod q) ≠ 0 → ∀ Q Q', Cldl.accepts k setup.curve setup.params proof Q ciphertext pk →
      Cldl.accepts k setup.curve setup.params proof Q' ciphertext pk → Q = Q'
  comprehensive : ∀ (proof : ComprehensiveProof E C) (ctx auditorCtx : ClCiphertext C) (kR0 : ℕ),
    Cldl.BindsPoint mdLen fun k Q => comprehensiveAccepts setup k kR0 proof ⟨Q, ctx, auditorCtx⟩
  relation : ∀ (proof : RelationProof E C) (original : Puzzle E C) (ctx auditorCtx : ClCiphertext C)
    (kAuditor : ℕ),
    Cldl.BindsPoint mdLen fun k Q => relationAccepts setup k kAuditor proof original
      ⟨Q, ctx, auditorCtx⟩

variable [Fact q.Prime]

/-- The puzzle proofs are sound exactly for digests of five or six bytes, which are not shifted or
not shifted too far. -/
theorem puzzleProofsSound_iff (setup : Setup q E C) (large : 2 ^ 40 < q) (mdLen : ℕ) :
    PuzzleProofsSound setup mdLen ↔ mdLen = 5 ∨ mdLen = 6 := by
  constructor
  · intro sound
    exact Cldl.rareZero_iff.mp sound.rare
  · intro length
    have rare := Cldl.rareZero_iff.mpr length
    refine ⟨rare, fun k proof ciphertext pk nonzero Q Q' => Cldl.point_unique nonzero, ?_, ?_⟩
    · intro proof ctx auditorCtx kR0
      refine Cldl.bindsPoint_of_unique large rare fun k nonzero Q Q' accepted accepted' => ?_
      simp only [comprehensiveAccepts, Bool.and_eq_true] at accepted accepted'
      exact Cldl.point_unique nonzero accepted.1 accepted'.1
    · intro proof original ctx auditorCtx kAuditor
      refine Cldl.bindsPoint_of_unique large rare fun k nonzero Q Q' accepted accepted' => ?_
      simp only [relationAccepts, Bool.and_eq_true] at accepted accepted'
      exact sub_left_injective (Cldl.point_unique nonzero accepted.1 accepted'.1)

end Binding

theorem puzzleProofsSound_six :
    2 ^ 40 < secp256k1Order ∧ PuzzleProofsSound sampleSetup 6 :=
  have large : 2 ^ 40 < secp256k1Order := by norm_num [secp256k1Order]
  ⟨large, (puzzleProofsSound_iff sampleSetup large 6).mpr (.inr rfl)⟩

/-- With digests of twenty bytes or more every challenge vanishes, and one proof is accepted for
every point and all ciphertexts. -/
theorem puzzle_proof_accepted_for_every_point :
    (∀ mdLen ≥ 20, (∀ hash, Cldl.challengeAt mdLen hash = 0) ∧
      ¬PuzzleProofsSound sampleSetup mdLen) ∧
      ∃ proof auditorProof : CldlProof (ZMod secp256k1Order)
          (Multiplicative (ZMod secp256k1Order × ℤ)),
        (∀ puzzle, comprehensiveVerify sampleSetup ⟨proof, auditorProof⟩ puzzle = true) ∧
          ∀ original randomized,
            relationVerify sampleSetup ⟨proof, auditorProof⟩ original randomized = true := by
  rcases cldl_read_and_accepted sampleSetup 1 1 sampleSetup.tumblerClPk
    ⟨1, 1, one_lt_secp256k1Order⟩ one_ne_zero with ⟨proof, _, _, accepted⟩
  rcases cldl_read_and_accepted sampleSetup 1 1 sampleSetup.auditorClPk
    ⟨1, 1, one_lt_secp256k1Order⟩ one_ne_zero with ⟨auditorProof, _, _, auditorAccepted⟩
  refine ⟨fun mdLen long => ⟨Cldl.challengeAt_eq_zero (by omega), fun sound => ?_⟩, proof,
    auditorProof, fun puzzle => ?_, fun original randomized => ?_⟩
  · exact Cldl.not_rareZero_of_gt (by omega) sound.rare
  · have both := auditorAccepted 0 puzzle.auditorCtx
    simp only [Cldl.verify, Bool.and_eq_true] at both
    rw [comprehensiveVerify, accepted, both.1.1, Bool.and_self]
  · rw [relationVerify, accepted, auditorAccepted, Bool.and_self]

end A2L

end TigerMixer
