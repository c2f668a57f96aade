import TigerMixer.Puzzle.Correctness

/-!
# From a pre-signature to a signature

What an honest signer outputs is accepted, can be completed with the secret behind `Y`, and gives
the secret away. What a receiver accepts from anybody can be completed too, but the first component
is only compared in the digits that both numbers use: one that is cut off is accepted and belongs to
no signature.
-/

namespace TigerMixer

open Bytes

universe u

namespace Curve

variable {q : ℕ} {E : Type u} [AddCommGroup E] [Module (ZMod q) E]

/-- A first iteration of `adaptor_ecdsa_sign` with components other than zero gives a pre-signature
that is accepted, completed by `y`, and gives `y` back. -/
theorem adaptor_signature_correct [Fact q.Prime] [DecidableEq E] (curve : Curve q E)
    (message : Bytes) (sk y k proofNonce : ℕ) (nonces : List ℕ) (secret : y % q ≠ 0) (drawn : k < q)
    (coordinate : curve.getX (k • y • curve.gen) % q ≠ 0)
    (component : signatureScalar q k (curve.getX (k • y • curve.gen) % q)
      (curve.digestToScalar (curve.mdMap message)) sk ≠ 0) :
    ∃ signature, curve.adaptorEcdsaSign message (y • curve.gen) sk (k :: nonces) proofNonce =
        some signature ∧
      curve.adaptorEcdsaPreverify signature message (y • curve.gen) (sk • curve.gen) = true ∧
      curve.ecdsaVer signature.r (signature.s * modInv y q % q) message (sk • curve.gen) = true ∧
      signature.s * modInv (signature.s * modInv y q % q) q % q = y % q := by
  have secretNonzero : (y : ZMod q) ≠ 0 := natCast_ne_zero_iff.mpr secret
  have baseNonzero : y • curve.gen ≠ 0 := curve.nsmul_gen_ne_zero secret
  have nonce : (k : ZMod q) ≠ 0 := by
    refine natCast_ne_zero_of_lt ?_ drawn
    rintro rfl
    simp [signatureScalar, modInv] at component
  have loop := curve.adaptorLoop_cons nonces coordinate component
  refine ⟨_, by rw [adaptorEcdsaSign, loop, Option.map_some], ?_, ?_, ?_⟩
  · exact curve.adaptorEcdsaPreverify_of_first proofNonce nonce baseNonzero coordinate component
  · -- the nonces behind the first one are not looked at
    have single := curve.adaptorLoop_cons [] coordinate component
    have signs := curve.signsMessage_of_first [] nonce baseNonzero coordinate component
    exact (curve.ecdsaVer_completed_iff secretNonzero (by simpa using nonce) single).mpr signs
  · have scalar := natCast_ne_zero_of_lt component (signatureScalar_lt k _ _ sk)
    rw [mod_eq_mod_iff_natCast_eq, ← A2L.natCast_extracted scalar secretNonzero, mul_comm,
      ZMod.natCast_mod]

open A2L in
theorem adaptor_signature_three :
    ∃ signature, sampleCurve.adaptorEcdsaSign (List.replicate 64 0) (3 • sampleCurve.gen) 1 [1] 1 =
        some signature ∧
      sampleCurve.adaptorEcdsaPreverify signature (List.replicate 64 0) (3 • sampleCurve.gen)
        (1 • sampleCurve.gen) = true ∧
      sampleCurve.ecdsaVer signature.r
        (signature.s * modInv 3 secp256k1Order % secp256k1Order) (List.replicate 64 0)
        (1 • sampleCurve.gen) = true ∧
      signature.s * modInv (signature.s * modInv 3 secp256k1Order % secp256k1Order)
        secp256k1Order % secp256k1Order = 3 % secp256k1Order := by
  have coordinate : sampleCurve.getX (3 • sampleCurve.gen) =
      0xf9308a019258c31049344f85f89d5229b531c845836f99b08601f113bce036f9 := by
    have three : 3 • sampleCurve.gen = (3 : ZMod secp256k1Order) := by
      simp [sampleCurve, PrimeOrderGroup.residues]
    have threeNeOne : (3 : ZMod secp256k1Order) ≠ 1 := by decide
    rw [three]
    simp only [sampleCurve, if_neg threeNeOne, if_true]
  have accepts : AcceptsFirst sampleCurve (3 • sampleCurve.gen) 1 (List.replicate 64 0)
      sampleSigning := by
    apply sample_acceptsFirst coordinate sampleCurve_mdMap_tumbler
    all_goals norm_num [secp256k1Order]
  rcases accepts with ⟨k, rest, nonces, nonzero, component⟩
  obtain ⟨rfl, rfl⟩ : 1 = k ∧ [] = rest := by simpa [sampleSigning] using nonces
  exact adaptor_signature_correct sampleCurve (List.replicate 64 0) 1 3 1 1 [] (by decide)
    one_lt_secp256k1Order nonzero component

def withHash (curve : Curve q E) (hash : Bytes → Bytes) : Curve q E :=
  { curve with mdMap := hash }

def recoveredPoint (curve : Curve q E) (r s : ℕ) (message : Bytes) (pk : E) : E :=
  (curve.digestToScalar (curve.mdMap message) * modInv s q % q) • curve.gen +
    (r * modInv s q % q) • pk

section Checks

variable [DecidableEq E]

structure PassesChecks (curve : Curve q E) (signature : AdaptorSignature E) (message : Bytes)
    (Y pk : E) : Prop where
  r_range : signature.r ≠ 0 ∧ signature.r < q
  s_range : signature.s ≠ 0 ∧ signature.s < q
  recovered : curve.recoveredPoint signature.r signature.s message pk ≠ 0
  finite : signature.R ≠ 0
  proof : curve.zkDhtupleVerify signature.pi Y
    (curve.recoveredPoint signature.r signature.s message pk) signature.R = true

theorem adaptorEcdsaPreverify_iff {curve : Curve q E} {signature : AdaptorSignature E}
    {message : Bytes} {Y pk : E} :
    curve.adaptorEcdsaPreverify signature message Y pk = true ↔
      curve.PassesChecks signature message Y pk ∧
        equalOnUsedDigits (curve.getX signature.R % q) signature.r = true := by
  unfold adaptorEcdsaPreverify
  split_ifs with range
  · simp only [Bool.and_eq_true, Bool.not_eq_true', Bool.or_eq_false_iff, decide_eq_false_iff_not]
    constructor
    · rintro ⟨⟨agrees, recovered, finite⟩, proof⟩
      exact ⟨⟨⟨range.1, range.2.2.1⟩, ⟨range.2.1, range.2.2.2⟩, recovered, finite, proof⟩, agrees⟩
    · rintro ⟨⟨_, _, recovered, finite, proof⟩, agrees⟩
      exact ⟨⟨agrees, recovered, finite⟩, proof⟩
  · simp only [false_iff]
    rintro ⟨⟨r_range, s_range, _⟩, _⟩
    exact range ⟨r_range.1, s_range.1, r_range.2, s_range.2⟩

theorem ecdsaVer_adapted_iff [Fact q.Prime] {curve : Curve q E} {r s y : ℕ} {message : Bytes}
    {pk : E}
    (secret : y % q ≠ 0) (rNonzero : r ≠ 0) (rLt : r < q) (sNonzero : s ≠ 0) (sLt : s < q) :
    curve.ecdsaVer r (s * modInv y q % q) message pk = true ↔
      curve.getX (y • curve.recoveredPoint r s message pk) % q = r ∧
        y • curve.recoveredPoint r s message pk ≠ 0 := by
  have secretNonzero : (y : ZMod q) ≠ 0 := natCast_ne_zero_iff.mpr secret
  have scalar : (s : ZMod q) ≠ 0 := natCast_ne_zero_of_lt sNonzero sLt
  set adapted := s * modInv y q % q with adapted_eq
  have residue : (adapted : ZMod q) = s * (y : ZMod q)⁻¹ := by
    rw [adapted_eq, ZMod.natCast_mod, Nat.cast_mul, natCast_modInv secretNonzero]
  have residueNonzero : (adapted : ZMod q) ≠ 0 := by
    rw [residue]
    exact mul_ne_zero scalar (inv_ne_zero secretNonzero)
  have adaptedNonzero : adapted ≠ 0 := fun vanishes => residueNonzero (by simp [vanishes])
  have adaptedLt : adapted < q := Nat.mod_lt _ (modulus_pos q)
  have scaled (factor : ℕ) (base : E) :
      (factor * modInv adapted q % q) • base = y • (factor * modInv s q % q) • base := by
    simp only [← Nat.cast_smul_eq_nsmul (ZMod q), smul_smul]
    simp only [ZMod.natCast_mod, Nat.cast_mul, natCast_modInv residueNonzero, natCast_modInv scalar]
    rw [residue]
    field_simp
  simp [ecdsaVer, recoveredPoint, rNonzero, rLt, adaptedNonzero, adaptedLt, scaled, ← smul_add]

/-- A pre-signature under `y • gen`, if it is accepted, has the coordinate of its point as its first
component and is completed by `y`. -/
def Adaptable (curve : Curve q E) (signature : AdaptorSignature E) (message : Bytes) (y : ℕ)
    (pk : E) : Prop :=
  curve.adaptorEcdsaPreverify signature message (y • curve.gen) pk = true →
    signature.r = curve.getX signature.R % q ∧
      curve.ecdsaVer signature.r (signature.s * modInv y q % q) message pk = true

/-- If the other checks pass, the coordinate of the point and the first component use the same
number of digits, or they differ in one that both use. -/
def ComparedInFull (curve : Curve q E) (signature : AdaptorSignature E) (message : Bytes) (y : ℕ)
    (pk : E) : Prop :=
  curve.PassesChecks signature message (y • curve.gen) pk →
    let coordinate := curve.getX signature.R % q
    let digits := min (usedDigits coordinate) (usedDigits signature.r)
    usedDigits coordinate = usedDigits signature.r ∨
      coordinate % 2 ^ (64 * digits) ≠ signature.r % 2 ^ (64 * digits)

end Checks

/-! ### A hash function without false statements -/

section StrictHash

variable [Fact q.Prime]

theorem eq_mul_of_challenge {α β μ ν e z y : ZMod q} (nonzero : μ ≠ 0)
    (challenge : e = if ν * α = μ * β then if α = 0 then 1 else 0 else -α / μ)
    (onGenerator : z = α + e * μ) (onBase : z * y = β + e * ν) : ν = y * μ := by
  by_cases fits : ν * α = μ * β
  · have response : z ≠ 0 := by
      rw [if_pos fits] at challenge
      by_cases first : α = 0
      · rw [onGenerator, challenge, if_pos first, first, zero_add, one_mul]
        exact nonzero
      · rw [onGenerator, challenge, if_neg first, zero_mul, add_zero]
        exact first
    apply mul_left_cancel₀ response
    linear_combination ν * onGenerator - μ * onBase + fits
  · rw [if_neg fits] at challenge
    have vanishes : z = 0 := by
      rw [onGenerator, challenge, div_mul_cancel₀ _ nonzero, add_neg_cancel]
    rw [vanishes, zero_mul, challenge] at onBase
    field_simp at onBase
    exact absurd (by linear_combination onBase) fits

/-- A challenge under which only true statements are accepted: unless the commitments fit the
statement, the response has to vanish. -/
noncomputable def strictChallenge (curve : Curve q E) (a b u v : E) : ZMod q :=
  if curve.log v * curve.log a = curve.log u * curve.log b then
    if curve.log a = 0 then 1 else 0
  else -curve.log a / curve.log u

theorem eq_smul_of_strictChallenge {curve : Curve q E} {a b u v : E} {z y : ℕ} (nonzero : u ≠ 0)
    (onGenerator : z • curve.gen = a + curve.strictChallenge a b u v • u)
    (onBase : z • y • curve.gen = b + curve.strictChallenge a b u v • v) : v = y • u := by
  set e := curve.strictChallenge a b u v with e_eq
  set μ := curve.log u with μ_eq
  rw [← curve.log_smul_gen a, ← curve.log_smul_gen u, ← Nat.cast_smul_eq_nsmul (ZMod q), smul_smul,
    ← add_smul, curve.smul_gen_inj] at onGenerator
  rw [← curve.log_smul_gen b, ← curve.log_smul_gen v, ← Nat.cast_smul_eq_nsmul (ZMod q),
    ← Nat.cast_smul_eq_nsmul (ZMod q), smul_smul, smul_smul, ← add_smul,
    curve.smul_gen_inj] at onBase
  have logNonzero : μ ≠ 0 := by
    intro vanishes
    apply nonzero
    rw [← curve.log_smul_gen u, ← μ_eq, vanishes, zero_smul]
  rw [← curve.log_smul_gen v, ← curve.log_smul_gen u, ← Nat.cast_smul_eq_nsmul (ZMod q), smul_smul,
    curve.smul_gen_inj]
  exact eq_mul_of_challenge logNonzero e_eq onGenerator onBase

structure EncodesPoints (curve : Curve q E) : Prop where
  injective : Function.Injective curve.writeBin
  length : ∀ point, (curve.writeBin point).length = 33

def tupleBytes (curve : Curve q E) (points : E × E × E × E) : Bytes :=
  curve.writeBin points.1 ++ curve.writeBin points.2.1 ++ curve.writeBin points.2.2.1 ++
    curve.writeBin points.2.2.2

omit [Fact q.Prime] in
theorem tupleBytes_injective {curve : Curve q E} (encodes : curve.EncodesPoints) :
    Function.Injective curve.tupleBytes := by
  rintro ⟨a, b, u, v⟩ ⟨a', b', u', v'⟩ same
  have lengths := encodes.length
  rcases List.append_inj same (by simp [lengths]) with ⟨front, last⟩
  rcases List.append_inj front (by simp [lengths]) with ⟨front, third⟩
  rcases List.append_inj front (by simp [lengths]) with ⟨first, second⟩
  exact Prod.ext (encodes.injective first) (Prod.ext (encodes.injective second)
    (Prod.ext (encodes.injective third) (encodes.injective last)))

open scoped Classical in
noncomputable def strictHash (curve : Curve q E) (input : Bytes) : Bytes :=
  if encoded : ∃ points, curve.tupleBytes points = input then
    writeBe 32 (curve.strictChallenge encoded.choose.1 encoded.choose.2.1 encoded.choose.2.2.1
      encoded.choose.2.2.2).val
  else []

theorem strictHash_tupleBytes {curve : Curve q E} (encodes : curve.EncodesPoints) (a b u v : E) :
    curve.strictHash (curve.tupleBytes (a, b, u, v)) =
      writeBe 32 (curve.strictChallenge a b u v).val := by
  have encoded : ∃ points, curve.tupleBytes points = curve.tupleBytes (a, b, u, v) := ⟨_, rfl⟩
  have chosen : encoded.choose = (a, b, u, v) := tupleBytes_injective encodes encoded.choose_spec
  rw [strictHash, dif_pos encoded, chosen]

end StrictHash

section Secp256k1

variable {E : Type u} [AddCommGroup E] [Module (ZMod secp256k1Order) E]

theorem dhTupleChallenge_strictHash {curve : Curve secp256k1Order E}
    (encodes : curve.EncodesPoints) (a b u v : E) :
    (curve.withHash curve.strictHash).dhTupleChallenge a b u v =
      (curve.strictChallenge a b u v).val := by
  have reduced : (curve.strictChallenge a b u v).val < secp256k1Order := ZMod.val_lt _
  have fits : (curve.strictChallenge a b u v).val < 256 ^ 32 :=
    reduced.trans (by norm_num [secp256k1Order])
  have hashed : curve.strictHash (curve.writeBin a ++ curve.writeBin b ++ curve.writeBin u ++
      curve.writeBin v) = writeBe 32 (curve.strictChallenge a b u v).val :=
    strictHash_tupleBytes encodes a b u v
  simp only [dhTupleChallenge, withHash, if_neg A2L.not_size_secp256k1Order_lt, hashed]
  rw [List.take_of_length_le (by simp [mdLen]), readBe_writeBe_of_lt fits, Nat.mod_eq_of_lt reduced]

variable [DecidableEq E]

theorem eq_smul_of_verify {curve : Curve secp256k1Order E} (encodes : curve.EncodesPoints)
    {proof : DhTupleProof E} {u v : E} {y : ℕ} (nonzero : u ≠ 0) (verified :
      (curve.withHash curve.strictHash).zkDhtupleVerify proof (y • curve.gen) u v = true) :
    v = y • u := by
  simp only [zkDhtupleVerify, Bool.and_eq_true, decide_eq_true_eq,
    dhTupleChallenge_strictHash encodes] at verified
  rcases verified with ⟨onGenerator, onBase⟩
  have scalar (base : E) : (curve.strictChallenge proof.a proof.b u v).val • base =
      curve.strictChallenge proof.a proof.b u v • base := by
    rw [← Nat.cast_smul_eq_nsmul (ZMod secp256k1Order), ZMod.natCast_zmod_val]
  rw [scalar] at onGenerator onBase
  exact eq_smul_of_strictChallenge nonzero onGenerator onBase

/-- There is a hash function under which exactly this comparison decides whether what is accepted
can be completed. -/
theorem preverify_adaptable_iff (curve : Curve secp256k1Order E) (encodes : curve.EncodesPoints) :
    ∃ hash, ∀ (pk : E) (message : Bytes) (y : ℕ) (signature : AdaptorSignature E),
      y % secp256k1Order ≠ 0 →
        ((curve.withHash hash).Adaptable signature message y pk ↔
          (curve.withHash hash).ComparedInFull signature message y pk) := by
  refine ⟨curve.strictHash, fun pk message y signature secret => ⟨?_, ?_⟩⟩
  · intro adaptable checks
    by_cases agrees :
        equalOnUsedDigits (curve.getX signature.R % secp256k1Order) signature.r = true
    · have equal := (adaptable (adaptorEcdsaPreverify_iff.mpr ⟨checks, agrees⟩)).1
      exact .inl (congrArg usedDigits equal.symm)
    · exact .inr (mt beq_iff_eq.mpr agrees)
  · intro compared accepted
    rcases adaptorEcdsaPreverify_iff.mp accepted with ⟨checks, agrees⟩
    have coordinate : curve.getX signature.R % secp256k1Order = signature.r :=
      eq_of_equalOnUsedDigits ((compared checks).resolve_right (not_not.mpr (beq_iff_eq.mp agrees)))
        agrees
    have statement := eq_smul_of_verify encodes checks.recovered checks.proof
    refine ⟨coordinate.symm, (ecdsaVer_adapted_iff secret checks.r_range.1 checks.r_range.2
      checks.s_range.1 checks.s_range.2).mpr ?_⟩
    rw [← statement]
    exact ⟨coordinate, checks.finite⟩

end Secp256k1

section Samples

open A2L

def encodedCurve : Curve secp256k1Order (ZMod secp256k1Order) :=
  { sampleCurve with writeBin := fun point => 2 :: writeBe 32 point.val }

theorem encodesPoints_encodedCurve : encodedCurve.EncodesPoints where
  injective := by
    intro left right same
    have fits (point : ZMod secp256k1Order) : point.val < 256 ^ 32 :=
      (ZMod.val_lt point).trans (by norm_num [secp256k1Order])
    have written := (List.cons.inj same).2
    apply ZMod.val_injective
    rw [← readBe_writeBe_of_lt (fits left), written, readBe_writeBe_of_lt (fits right)]
  length point := by simp [encodedCurve]

theorem preverify_adaptable_encodedCurve :
    encodedCurve.EncodesPoints ∧
      ∃ hash, ∀ (pk : ZMod secp256k1Order) (message : Bytes)
        (signature : AdaptorSignature (ZMod secp256k1Order)),
        (encodedCurve.withHash hash).Adaptable signature message 1 pk ↔
          (encodedCurve.withHash hash).ComparedInFull signature message 1 pk := by
  rcases preverify_adaptable_iff encodedCurve encodesPoints_encodedCurve with ⟨hash, decides⟩
  exact ⟨encodesPoints_encodedCurve, hash, fun pk message signature =>
    decides pk message 1 signature (by decide)⟩

theorem equalOnUsedDigits_last {value digit : ℕ} (short : digit < 2 ^ 64)
    (last : value % 2 ^ 64 = digit) : equalOnUsedDigits value digit = true := by
  have one : usedDigits digit = 1 :=
    le_antisymm ((usedDigits_le_iff one_pos).mpr (by omega)) (Nat.succ_pos _)
  have used : min (usedDigits value) (usedDigits digit) = 1 :=
    one ▸ min_eq_right (one ▸ Nat.succ_pos _)
  simp only [equalOnUsedDigits, used, mul_one, last, Nat.mod_eq_of_lt short, beq_self_eq_true]

theorem exists_signatureScalar_ne_zero {q : ℕ} [Fact q.Prime] {r : ℕ} (nonzero : (r : ZMod q) ≠ 0)
    (e : ℕ) : ∃ sk, signatureScalar q 1 r e sk ≠ 0 := by
  by_contra none
  have sum (sk : ℕ) : (sk * r + e : ZMod q) = 0 := by
    have vanishes := congrArg (Nat.cast : ℕ → ZMod q) (not_not.mp (not_exists.mp none sk))
    rw [natCast_signatureScalar (by simp)] at vanishes
    simpa using vanishes
  have first := sum 1
  have second := sum 0
  exact nonzero (by linear_combination first - second)

def lastDigit : ℕ := 0x59f2815b16f81798

theorem exists_not_adaptable (hash : Bytes → Bytes) :
    ∃ (pk : ZMod secp256k1Order) (message : Bytes) (y : ℕ)
      (signature : AdaptorSignature (ZMod secp256k1Order)), y % secp256k1Order ≠ 0 ∧
        ¬(encodedCurve.withHash hash).Adaptable signature message y pk := by
  set curve := encodedCurve.withHash hash
  have coordinate : curve.getX (1 • 1 • curve.gen) =
      0x79be667ef9dcbbac55a06295ce870b07029bfcdb2dce28d959f2815b16f81798 := by
    simp [curve, withHash, encodedCurve, sampleCurve, PrimeOrderGroup.residues]
  have agrees : equalOnUsedDigits (curve.getX (1 • 1 • curve.gen) % secp256k1Order) lastDigit := by
    rw [coordinate]
    apply equalOnUsedDigits_last <;> norm_num [lastDigit, secp256k1Order]
  have one : ((1 : ℕ) : ZMod secp256k1Order) ≠ 0 := by simp
  have digitNonzero : (lastDigit : ZMod secp256k1Order) ≠ 0 :=
    natCast_ne_zero_of_lt (by decide) (by norm_num [lastDigit, secp256k1Order])
  rcases exists_signatureScalar_ne_zero digitNonzero (curve.digestToScalar (curve.mdMap [])) with
    ⟨sk, component⟩
  have accepted := curve.adaptorEcdsaPreverify_of_nonce 1 one (by simpa using curve.gen_ne_zero)
    agrees (by decide) (by norm_num [lastDigit, secp256k1Order]) component
  have unequal : lastDigit ≠ curve.getX (1 • 1 • curve.gen) % secp256k1Order := by
    rw [coordinate]
    norm_num [lastDigit, secp256k1Order]
  exact ⟨_, [], 1, _, by decide, fun adaptable => unequal (adaptable accepted).1⟩

/-- No hash function makes everything that is accepted adaptable. -/
theorem preverify_accepts_last_digit :
    ¬∃ hash : Bytes → Bytes, ∀ (pk : ZMod secp256k1Order) (message : Bytes) (y : ℕ)
      (signature : AdaptorSignature (ZMod secp256k1Order)), y % secp256k1Order ≠ 0 →
        (encodedCurve.withHash hash).Adaptable signature message y pk := by
  rintro ⟨hash, adaptable⟩
  rcases exists_not_adaptable hash with ⟨pk, message, y, signature, secret, fails⟩
  exact fails (adaptable pk message y signature secret)

end Samples

end Curve

end TigerMixer
