import TigerMixer.Algebra.Secp256k1
import TigerMixer.Puzzle.Parties

/-!
# What an undisturbed run computes

Randomisation adds scalars to the puzzle's secret, de-randomisation divides by them. So Bob ends
with `(alpha + beta + tau) / (beta * tau)`, which is `alpha` for exactly those scalars whose sum is
their product.
-/

namespace TigerMixer.A2L

variable {q : ℕ} {E : Type} [AddCommGroup E] [Module (ZMod q) E] {C : Type}

section Inversion

variable [DecidableEq E]

theorem readPuzzle_eq_some_iff {puzzle received : Puzzle E C} :
    readPuzzle puzzle = some received ↔ puzzle.point ≠ 0 ∧ puzzle = received := by
  by_cases infinity : puzzle.point = 0 <;> simp [readPuzzle, readPoint, infinity]

theorem readSignature_eq_some_iff {signature received : AdaptorSignature E} :
    readSignature signature = some received ↔
      (signature.R ≠ 0 ∧ signature.pi.a ≠ 0 ∧ signature.pi.b ≠ 0) ∧ signature = received := by
  by_cases nonce : signature.R = 0 <;> by_cases first : signature.pi.a = 0 <;>
    by_cases second : signature.pi.b = 0 <;>
      simp [readSignature, readPoint, nonce, first, second]

theorem readCldl_eq_some_iff {proof received : CldlProof E C} :
    readCldl proof = some received ↔ proof.t2 ≠ 0 ∧ proof = received := by
  by_cases infinity : proof.t2 = 0 <;> simp [readCldl, readPoint, infinity]

end Inversion

section FirstNonce

def AcceptsFirst (curve : Curve q E) (Y : E) (sk : ℕ) (message : Bytes) (coins : SigningCoins q) :
    Prop :=
  ∃ k rest, coins.nonces = k :: rest ∧ curve.getX (k • Y) % q ≠ 0 ∧
    Curve.signatureScalar q k (curve.getX (k • Y) % q)
      (curve.digestToScalar (curve.mdMap message)) sk ≠ 0

variable [Fact q.Prime] {curve : Curve q E} {Y : E} {sk : ℕ} {message : Bytes}
  {coins : SigningCoins q} (finite : Y ≠ 0) (accepts : AcceptsFirst curve Y sk message coins)

include finite accepts

theorem acceptsFirst_signed [DecidableEq E] :
    ∃ signature, curve.adaptorEcdsaSign message Y sk coins.nonces coins.proofNonce =
        some signature ∧
      readSignature signature = some signature ∧
      curve.adaptorEcdsaPreverify signature message Y (sk • curve.gen) = true := by
  rcases accepts with ⟨k, rest, nonces, coordinate, component⟩
  have range := coins.nonces_range k (nonces ▸ List.mem_cons_self)
  have nonce : (k : ZMod q) ≠ 0 := natCast_ne_zero_of_lt range.1.ne' range.2
  have proofNonce : (coins.proofNonce : ZMod q) ≠ 0 :=
    natCast_ne_zero_of_lt coins.proofNonce_range.1.ne' coins.proofNonce_range.2
  have loop := curve.adaptorLoop_cons rest coordinate component
  refine ⟨_, by rw [nonces, Curve.adaptorEcdsaSign, loop, Option.map_some], ?_, ?_⟩
  · rw [readSignature_eq_some_iff]
    exact ⟨⟨nsmul_ne_zero_of_natCast nonce finite,
      nsmul_ne_zero_of_natCast proofNonce curve.gen_ne_zero,
      nsmul_ne_zero_of_natCast proofNonce finite⟩, rfl⟩
  · exact curve.adaptorEcdsaPreverify_of_first coins.proofNonce nonce finite coordinate
      component

theorem AcceptsFirst.signsMessage : curve.SignsMessage Y sk message coins.nonces := by
  rcases accepts with ⟨k, rest, nonces, coordinate, component⟩
  have range := coins.nonces_range k (nonces ▸ List.mem_cons_self)
  have nonce : (k : ZMod q) ≠ 0 := natCast_ne_zero_of_lt range.1.ne' range.2
  rw [nonces]
  exact curve.signsMessage_of_first rest nonce finite coordinate component

end FirstNonce

variable [CommGroup C]

/-- The point has the logarithm `secret`, which the first ciphertext encrypts towards the Tumbler;
the second one encrypts `mask` towards the auditor. -/
structure Puzzle.Hides (setup : Setup q E C) (puzzle : Puzzle E C) (secret mask : ℕ) : Prop where
  point : puzzle.point = secret • setup.curve.gen
  ctx : setup.params.Encrypts setup.tumblerClPk puzzle.ctx secret
  auditorCtx : setup.params.Encrypts setup.auditorClPk puzzle.auditorCtx mask

theorem Puzzle.Hides.randomize {setup : Setup q E C} {puzzle : Puzzle E C} {secret mask : ℕ}
    (hides : puzzle.Hides setup secret mask) {coins : RandomizerCoins q} {share : PuzzleShare E C}
    (randomized : A2L.randomize setup puzzle coins = some share) :
    share.randomized.Hides setup (secret + coins.scalar % q) (mask + coins.scalar % q) := by
  simp only [A2L.randomize, Option.bind_eq_bind, Option.pure_def, Option.bind_eq_some_iff,
    Option.some.injEq] at randomized
  rcases randomized with ⟨enc, encrypted, encAuditor, encryptedAuditor, proof, -, rfl⟩
  constructor
  · simp only [hides.point, add_smul]
  · exact .mul hides.ctx (.enc encrypted)
  · exact .mul hides.auditorCtx (.enc encryptedAuditor)

theorem Setup.clDec_randomized (setup : Setup q E C) {sk first second third : ℕ} {pk : C}
    {ciphertext : ClCiphertext C} (homomorphic : setup.params.Homomorphic sk)
    (key : pk = setup.params.gq ^ sk)
    (encrypts : setup.params.Encrypts pk ciphertext (first + second % q + third % q))
    (nonzero : (first + second + third) % q ≠ 0) :
    setup.params.clDec ciphertext sk = some ((first + second + third) % q) := by
  have residue : (first + second % q + third % q) % setup.params.q =
      (first + second + third) % q := by
    rw [setup.modulus]
    simp [Nat.add_mod]
  rw [key] at encrypts
  rw [homomorphic _ _ encrypts (by rwa [residue]), residue]

section Run

variable [DecidableEq E] [DecidableEq C]

variable {setup : Setup q E C} {bob : BobState E C}

theorem checkShare_eq_some {share : PuzzleShare E C} {checked : Puzzle E C}
    (accepted : checkShare setup share = some checked) :
    checked = share.randomized := by
  simp only [checkShare, Option.bind_eq_bind, Option.pure_def, Option.bind_eq_some_iff,
    Option.some.injEq, readPuzzle_eq_some_iff] at accepted
  rcases accepted with ⟨randomized, ⟨-, rfl⟩, _, -, _, -, _, -, _, -, rfl⟩
  rfl

theorem promise_eq_some {ecSk : ℕ} {message : Bytes} {coins : TumblerCoins q}
    {promise : PromiseDone E C}
    (promised : Tumbler.promiseInitHandler setup ecSk message coins = some promise)
    (accepted : Bob.promiseDoneHandler setup message promise = some bob) :
    bob.puzzle.Hides setup coins.alpha coins.r0 ∧
    ∃ k e, setup.curve.adaptorLoop (coins.alpha • setup.curve.gen) ecSk message
      coins.signing.nonces = some (k, bob.sigmaT.r, e, bob.sigmaT.s) := by
  simp only [Tumbler.promiseInitHandler, Option.bind_eq_bind, Option.pure_def,
    Option.bind_eq_some_iff, Option.some.injEq] at promised
  rcases promised with
    ⟨ctx, encrypted, auditorCtx, encryptedR0, proof, -, sigmaT, signed, rfl⟩
  simp only [Bob.promiseDoneHandler, Option.bind_eq_bind, Option.pure_def, Option.bind_eq_some_iff,
    Option.some.injEq, readPuzzle_eq_some_iff, readSignature_eq_some_iff] at accepted
  rcases accepted with ⟨_, ⟨-, rfl⟩, _, ⟨-, rfl⟩, _, -, _, -, _, -, _, -, rfl⟩
  refine ⟨⟨rfl, .enc encrypted, .enc encryptedR0⟩, ?_⟩
  simp only [Curve.adaptorEcdsaSign, Option.map_eq_some_iff] at signed
  rcases signed with ⟨⟨k, r, e, s⟩, loop, rfl⟩
  exact ⟨k, e, loop⟩

structure RunAssumptions (setup : Setup q E C) (inputs : RunInputs q) : Prop where
  tumblerEcPk : setup.tumblerEcPk = inputs.tumblerEcSk • setup.curve.gen
  tumblerClPk : setup.tumblerClPk = setup.params.gq ^ inputs.tumblerClSk
  homomorphic : setup.params.Homomorphic inputs.tumblerClSk
  beta_ne_zero : inputs.bob.scalar % q ≠ 0
  tau_ne_zero : inputs.alice.scalar % q ≠ 0
  shared_ne_zero : (inputs.tumbler.alpha + inputs.bob.scalar) % q ≠ 0
  solution_ne_zero : (inputs.tumbler.alpha + inputs.bob.scalar + inputs.alice.scalar) % q ≠ 0

variable [Fact q.Prime]

omit [DecidableEq E] [DecidableEq C] in
theorem RunAssumptions.scalars_ne_zero {setup : Setup q E C} {inputs : RunInputs q}
    (assumptions : RunAssumptions setup inputs) :
    (inputs.bob.scalar : ZMod q) ≠ 0 ∧ (inputs.alice.scalar : ZMod q) ≠ 0 :=
  ⟨natCast_ne_zero_iff.mpr assumptions.beta_ne_zero,
    natCast_ne_zero_iff.mpr assumptions.tau_ne_zero⟩

theorem natCast_extracted {s gamma : ℕ} (component : (s : ZMod q) ≠ 0)
    (solution : (gamma : ZMod q) ≠ 0) :
    ((modInv (s * modInv gamma q % q) q * s % q : ℕ) : ZMod q) = gamma := by
  have completed : ((s * modInv gamma q % q : ℕ) : ZMod q) = s * (gamma : ZMod q)⁻¹ := by
    simp [ZMod.natCast_mod, natCast_modInv solution]
  have completedNonzero : ((s * modInv gamma q % q : ℕ) : ZMod q) ≠ 0 := by
    rw [completed]
    exact mul_ne_zero component (inv_ne_zero solution)
  rw [ZMod.natCast_mod, Nat.cast_mul, natCast_modInv completedNonzero, completed]
  field_simp

/-- Bob's signature is the Tumbler's pre-signature completed with the sum of the three secrets
divided by the two blinding factors. -/
theorem honestRun_eq_some {inputs : RunInputs q} (assumptions : RunAssumptions setup inputs)
    (run : honestRun setup inputs = some bob) :
    (bob.alpha : ZMod q) =
        (inputs.tumbler.alpha + inputs.bob.scalar + inputs.alice.scalar) *
          (inputs.alice.scalar : ZMod q)⁻¹ * (inputs.bob.scalar : ZMod q)⁻¹ ∧
      bob.alpha < q ∧
      ∃ k e s, setup.curve.adaptorLoop (inputs.tumbler.alpha • setup.curve.gen)
          inputs.tumblerEcSk inputs.tumblerMessage inputs.tumbler.signing.nonces =
            some (k, bob.sigmaT.r, e, s) ∧
        bob.sigmaT.s = s * modInv bob.alpha q % q := by
  simp only [honestRun, Bob.puzzleShare, Alice.puzzleShareHandler, Alice.paymentInit,
    Tumbler.paymentInitHandler, Option.bind_eq_bind, Option.pure_def, Option.bind_eq_some_iff,
    Option.some.injEq, readSignature_eq_some_iff, Prod.exists, Prod.mk.injEq] at run
  rcases run with ⟨promise, promised, bob₀, accepted, bob₁, share, ⟨_, shared, rfl, rfl⟩,
    alicePuzzle, checked, alice, init, ⟨aliceShare, aliceShared, sigmaHatS, signed, rfl, rfl⟩,
    done, ⟨_, ⟨-, rfl⟩, gamma, decrypted, _, -, rfl⟩, rfl⟩
  rcases promise_eq_some promised accepted with ⟨hides, k, e, loop⟩
  have aliceHides := checkShare_eq_some checked ▸ hides.randomize shared
  rcases assumptions.scalars_ne_zero with ⟨betaNonzero, tauNonzero⟩
  -- the Tumbler decrypts the sum of the three scalars
  have decryption := setup.clDec_randomized assumptions.homomorphic assumptions.tumblerClPk
    (aliceHides.randomize aliceShared).ctx assumptions.solution_ne_zero
  rw [decrypted, Option.some.injEq] at decryption
  have gammaResidue : (gamma : ZMod q) =
      inputs.tumbler.alpha + inputs.bob.scalar + inputs.alice.scalar := by
    rw [decryption, ZMod.natCast_mod, Nat.cast_add, Nat.cast_add]
  have gammaNonzero : (gamma : ZMod q) ≠ 0 := by
    rw [decryption, ZMod.natCast_mod]
    exact natCast_ne_zero_iff.mpr assumptions.solution_ne_zero
  -- Alice's own pre-signature has a non-zero second component
  have componentNonzero := setup.curve.adaptorEcdsaSign_s_ne_zero signed
  refine ⟨?_, Nat.mod_lt _ (modulus_pos q), k, e, bob₀.sigmaT.s, loop, rfl⟩
  simp only [Bob.puzzleSolutionShareHandler, Alice.paymentDoneHandler]
  have tauReduced : ((inputs.alice.scalar % q : ℕ) : ZMod q) = inputs.alice.scalar :=
    ZMod.natCast_mod _ _
  have betaReduced : ((inputs.bob.scalar % q : ℕ) : ZMod q) = inputs.bob.scalar :=
    ZMod.natCast_mod _ _
  rw [ZMod.natCast_mod, Nat.cast_mul, natCast_modInv (by rwa [betaReduced]), betaReduced,
    ZMod.natCast_mod, Nat.cast_mul, natCast_modInv (by rwa [tauReduced]), tauReduced,
    natCast_extracted componentNonzero gammaNonzero, gammaResidue]

/-- The choices with which no party throws: every proof commitment is non-zero and both signing
loops stop at once. -/
structure Unobstructed (setup : Setup q E C) (inputs : RunInputs q) : Prop where
  alphaProof : inputs.tumbler.alphaProof.r2 ≠ 0
  r0Proof : inputs.tumbler.r0Proof.r2 ≠ 0
  bobTumblerProof : inputs.bob.tumblerProof.r2 ≠ 0
  bobAuditorProof : inputs.bob.auditorProof.r2 ≠ 0
  aliceTumblerProof : inputs.alice.tumblerProof.r2 ≠ 0
  aliceAuditorProof : inputs.alice.auditorProof.r2 ≠ 0
  tumblerSigning : AcceptsFirst setup.curve (inputs.tumbler.alpha • setup.curve.gen)
    inputs.tumblerEcSk inputs.tumblerMessage inputs.tumbler.signing
  aliceSigning : AcceptsFirst setup.curve
    (inputs.tumbler.alpha • setup.curve.gen + (inputs.bob.scalar % q) • setup.curve.gen +
      (inputs.alice.scalar % q) • setup.curve.gen)
    inputs.aliceEcSk inputs.aliceMessage inputs.aliceSigning

section Completion

variable {setup : Setup q E C}

theorem cldl_read_and_accepted (setup : Setup q E C) (x r : ℕ) (pk : C) (coins : CldlCoins q)
    (nonzero : coins.r2 ≠ 0) :
    ∃ proof, Cldl.prove setup.curve setup.params x r pk coins.r1 coins.r2 = some proof ∧
      readCldl proof = some proof ∧
      ∀ Q ciphertext, Cldl.verify setup.curve setup.params proof Q ciphertext pk = true := by
  have reduced : coins.r2 < setup.params.q := by
    rw [setup.modulus]
    exact coins.r2_lt
  have commitment : coins.r2 % setup.params.q ≠ 0 := by
    rwa [Nat.mod_eq_of_lt reduced]
  obtain ⟨proof, proved⟩ : ∃ proof, Cldl.prove setup.curve setup.params x r pk coins.r1 coins.r2 =
      some proof := by
    rcases ClParams.formOf_isSome commitment with ⟨fm, form⟩
    simp [Cldl.prove, form]
  refine ⟨proof, proved, ?_, Cldl.verify_prove setup.curve setup.params reduced proved⟩
  simp only [Cldl.prove, Option.map_eq_some_iff] at proved
  rcases proved with ⟨fr2, -, rfl⟩
  rw [readCldl_eq_some_iff]
  exact ⟨nsmul_ne_zero_of_natCast (natCast_ne_zero_of_lt nonzero coins.r2_lt)
    setup.curve.gen_ne_zero, rfl⟩

theorem checkShare_randomize {puzzle : Puzzle E C} {coins : RandomizerCoins q}
    (finite : puzzle.point ≠ 0)
    (randomizedFinite : puzzle.point + (coins.scalar % q) • setup.curve.gen ≠ 0)
    (scalar : coins.scalar % q ≠ 0) (tumblerProof : coins.tumblerProof.r2 ≠ 0)
    (auditorProof : coins.auditorProof.r2 ≠ 0) :
    ∃ share, randomize setup puzzle coins = some share ∧
      share.randomized.point = puzzle.point + (coins.scalar % q) • setup.curve.gen ∧
      checkShare setup share = some share.randomized := by
  have plaintext : coins.scalar % q % setup.params.q ≠ 0 := by
    rwa [setup.modulus, Nat.mod_mod]
  rcases ClParams.clEnc_isSome plaintext setup.tumblerClPk coins.encTumbler with ⟨enc, encrypted⟩
  rcases ClParams.clEnc_isSome plaintext setup.auditorClPk coins.encAuditor with
    ⟨encAuditor, encryptedAuditor⟩
  rcases cldl_read_and_accepted setup (coins.scalar % q) coins.encTumbler
    setup.tumblerClPk coins.tumblerProof tumblerProof with ⟨first, proved, read, accepted⟩
  rcases cldl_read_and_accepted setup (coins.scalar % q) coins.encAuditor
    setup.auditorClPk coins.auditorProof auditorProof with ⟨second, proved', read', accepted'⟩
  refine ⟨{
    randomized :=
      { point := puzzle.point + (coins.scalar % q) • setup.curve.gen
        ctx := puzzle.ctx.mul enc
        auditorCtx := puzzle.auditorCtx.mul encAuditor }
    original := puzzle
    proof := { tumblerProof := first, auditorProof := second } }, ?_, rfl, ?_⟩
  · simp [randomize, relationProve, encrypted, encryptedAuditor, proved, proved']
  · simp [checkShare, readPuzzle, readPoint, finite, randomizedFinite, read, read',
      relationVerify, accepted, accepted', guard]

theorem promise_isSome {ecSk : ℕ} {message : Bytes} {coins : TumblerCoins q}
    (key : setup.tumblerEcPk = ecSk • setup.curve.gen)
    (alphaProof : coins.alphaProof.r2 ≠ 0) (r0Proof : coins.r0Proof.r2 ≠ 0)
    (signing : AcceptsFirst setup.curve (coins.alpha • setup.curve.gen) ecSk message
      coins.signing) :
    ∃ promise bob, Tumbler.promiseInitHandler setup ecSk message coins = some promise ∧
      Bob.promiseDoneHandler setup message promise = some bob ∧
      bob.puzzle.point = coins.alpha • setup.curve.gen := by
  have alphaReduced : coins.alpha % q ≠ 0 := by
    rw [Nat.mod_eq_of_lt coins.alpha_range.2]
    exact coins.alpha_range.1.ne'
  have r0Reduced : coins.r0 % setup.params.q ≠ 0 := by
    rw [setup.modulus, Nat.mod_eq_of_lt coins.r0_range.2]
    exact coins.r0_range.1.ne'
  have finite : coins.alpha • setup.curve.gen ≠ 0 := setup.curve.nsmul_gen_ne_zero alphaReduced
  have plaintext : coins.alpha % setup.params.q ≠ 0 := by
    rwa [setup.modulus]
  rcases ClParams.clEnc_isSome plaintext setup.tumblerClPk coins.encAlpha with ⟨ctx, encrypted⟩
  rcases ClParams.clEnc_isSome r0Reduced setup.auditorClPk coins.encR0 with
    ⟨auditorCtx, encryptedR0⟩
  rcases cldl_read_and_accepted setup coins.alpha coins.encAlpha setup.tumblerClPk
    coins.alphaProof alphaProof with ⟨first, proved, read, accepted⟩
  rcases cldl_read_and_accepted setup coins.r0 coins.encR0 setup.auditorClPk
    coins.r0Proof r0Proof with ⟨second, proved', read', accepted'⟩
  have accepted₂ := accepted' 0 auditorCtx
  simp only [Cldl.verify, Bool.and_eq_true] at accepted₂
  rcases acceptsFirst_signed finite signing with ⟨signature, signed, readSigned, preverified⟩
  refine ⟨{ puzzle := { point := coins.alpha • setup.curve.gen, ctx, auditorCtx }
            sigmaT := signature
            proof := { alphaEncProof := first, r0EncProof := second } },
          { puzzle := { point := coins.alpha • setup.curve.gen, ctx, auditorCtx }
            sigmaT := signature
            beta := 0
            alpha := 0 }, ?_, ?_, rfl⟩
  · simp [Tumbler.promiseInitHandler, encrypted, encryptedR0, comprehensiveProve, proved, proved',
      signed]
  · simp [Bob.promiseDoneHandler, readPuzzle, readPoint, finite, readSigned, read, read',
      comprehensiveVerify, accepted, accepted₂.1.1, key, preverified, guard]

theorem honestRun_isSome {inputs : RunInputs q} (assumptions : RunAssumptions setup inputs)
    (unobstructed : Unobstructed setup inputs) : ∃ bob, honestRun setup inputs = some bob := by
  rcases promise_isSome assumptions.tumblerEcPk unobstructed.alphaProof unobstructed.r0Proof
    unobstructed.tumblerSigning with ⟨promise, bob, promised, accepted, bobPoint⟩
  have alphaFinite : bob.puzzle.point ≠ 0 := by
    rw [bobPoint]
    apply setup.curve.nsmul_gen_ne_zero
    rw [Nat.mod_eq_of_lt inputs.tumbler.alpha_range.2]
    exact inputs.tumbler.alpha_range.1.ne'
  have sharedFinite : bob.puzzle.point + (inputs.bob.scalar % q) • setup.curve.gen ≠ 0 := by
    rw [bobPoint, ← add_smul]
    apply setup.curve.nsmul_gen_ne_zero
    simpa [Nat.add_mod] using assumptions.shared_ne_zero
  rcases checkShare_randomize alphaFinite sharedFinite assumptions.beta_ne_zero
    unobstructed.bobTumblerProof unobstructed.bobAuditorProof with
    ⟨share, shared, sharePoint, checked⟩
  have solutionFinite :
      share.randomized.point + (inputs.alice.scalar % q) • setup.curve.gen ≠ 0 := by
    rw [sharePoint, bobPoint, ← add_smul, ← add_smul]
    apply setup.curve.nsmul_gen_ne_zero
    simpa [Nat.add_mod] using assumptions.solution_ne_zero
  rw [← sharePoint] at sharedFinite
  rcases checkShare_randomize sharedFinite solutionFinite assumptions.tau_ne_zero
    unobstructed.aliceTumblerProof unobstructed.aliceAuditorProof with
    ⟨aliceShare, aliceShared, alicePoint, aliceChecked⟩
  have aliceAccepts := unobstructed.aliceSigning
  rw [← bobPoint, ← sharePoint, ← alicePoint] at aliceAccepts
  rw [← alicePoint] at solutionFinite
  rcases acceptsFirst_signed solutionFinite aliceAccepts with
    ⟨signature, signed, readSigned, -⟩
  have decryption := setup.clDec_randomized assumptions.homomorphic assumptions.tumblerClPk
    (((promise_eq_some promised accepted).1.randomize shared).randomize aliceShared).ctx
    assumptions.solution_ne_zero
  rw [← Option.isSome_iff_exists]
  simp only [honestRun, promised, accepted, Bob.puzzleShare, shared, Alice.puzzleShareHandler,
    checked, Alice.paymentInit, aliceShared, signed, Tumbler.paymentInitHandler, readSigned,
    decryption, aliceChecked, Option.bind_eq_bind, Option.bind_some, Option.pure_def,
    Option.isSome_some]

/-- Bob obtains `alpha` and a valid signature in exactly the runs whose three scalars have their sum
equal to their product, if the signing loop signed the message itself. -/
theorem bob_solves_puzzle_iff {inputs : RunInputs q} {bob : BobState E C}
    (assumptions : RunAssumptions setup inputs) (run : honestRun setup inputs = some bob) :
    (bob.alpha = inputs.tumbler.alpha ∧
        setup.curve.ecdsaVer bob.sigmaT.r bob.sigmaT.s inputs.tumblerMessage
          setup.tumblerEcPk = true) ↔
      (inputs.tumbler.alpha + inputs.bob.scalar + inputs.alice.scalar) % q =
          inputs.tumbler.alpha * inputs.bob.scalar * inputs.alice.scalar % q ∧
        setup.curve.SignsMessage (inputs.tumbler.alpha • setup.curve.gen) inputs.tumblerEcSk
          inputs.tumblerMessage inputs.tumbler.signing.nonces := by
  rcases honestRun_eq_some assumptions run with ⟨residue, reduced, k, e, s, loop, completed⟩
  rcases assumptions.scalars_ne_zero with ⟨betaNonzero, tauNonzero⟩
  have alphaNonzero : (inputs.tumbler.alpha : ZMod q) ≠ 0 :=
    natCast_ne_zero_of_lt inputs.tumbler.alpha_range.1.ne' inputs.tumbler.alpha_range.2
  have scalars : bob.alpha = inputs.tumbler.alpha ↔
      (inputs.tumbler.alpha + inputs.bob.scalar + inputs.alice.scalar) % q =
        inputs.tumbler.alpha * inputs.bob.scalar * inputs.alice.scalar % q := by
    rw [mod_eq_mod_iff_natCast_eq]
    push_cast
    constructor
    · intro same
      rw [same] at residue
      calc (inputs.tumbler.alpha + inputs.bob.scalar + inputs.alice.scalar : ZMod q)
          = (inputs.tumbler.alpha + inputs.bob.scalar + inputs.alice.scalar) *
              (inputs.alice.scalar : ZMod q)⁻¹ * (inputs.bob.scalar : ZMod q)⁻¹ *
                inputs.bob.scalar * inputs.alice.scalar := by field_simp
        _ = inputs.tumbler.alpha * inputs.bob.scalar * inputs.alice.scalar := by rw [← residue]
    · intro balanced
      apply eq_of_natCast_eq reduced inputs.tumbler.alpha_range.2
      rw [residue, balanced]
      field_simp
  rw [← scalars]
  apply and_congr_right
  intro same
  rw [completed, same, assumptions.tumblerEcPk]
  apply setup.curve.ecdsaVer_completed_iff alphaNonzero _ loop
  intro nonce member
  have range := inputs.tumbler.signing.nonces_range nonce member
  exact natCast_ne_zero_of_lt range.1.ne' range.2

end Completion

end Run

section Secp256k1

/-- The group of secp256k1 with points named by their discrete logarithms. Coordinates, encodings
and digests are those of the curve and of SHA-256. -/
def sampleCurve : Curve secp256k1Order (ZMod secp256k1Order) where
  toPrimeOrderGroup := PrimeOrderGroup.residues secp256k1Order
  getX point :=
    if point = 1 then 0x79be667ef9dcbbac55a06295ce870b07029bfcdb2dce28d959f2815b16f81798
    else if point = 3 then 0xf9308a019258c31049344f85f89d5229b531c845836f99b08601f113bce036f9
    else if point = 6 then 0xfff97bd5755eeea420453a14355235d382f6472f8568a18b2f057a1460297556
    else 0
  writeBin point :=
    if point = 1 then
      Bytes.writeBe 33 0x0279be667ef9dcbbac55a06295ce870b07029bfcdb2dce28d959f2815b16f81798
    else if point = 3 then
      Bytes.writeBe 33 0x02f9308a019258c31049344f85f89d5229b531c845836f99b08601f113bce036f9
    else if point = 6 then
      Bytes.writeBe 33 0x03fff97bd5755eeea420453a14355235d382f6472f8568a18b2f057a1460297556
    else List.replicate 33 0
  mdMap bytes :=
    let g := Bytes.writeBe 33 0x0279be667ef9dcbbac55a06295ce870b07029bfcdb2dce28d959f2815b16f81798
    let g3 := Bytes.writeBe 33 0x02f9308a019258c31049344f85f89d5229b531c845836f99b08601f113bce036f9
    let g6 := Bytes.writeBe 33 0x03fff97bd5755eeea420453a14355235d382f6472f8568a18b2f057a1460297556
    if bytes = List.replicate 64 0 then
      Bytes.writeBe 32 0xf5a5fd42d16a20302798ef6ed309979b43003d2320d9f0e8ea9831a92759fb4b
    else if bytes = List.replicate 64 1 then
      Bytes.writeBe 32 0x7c8975e1e60a5c8337f28edf8c33c3b180360b7279644a9bc1af3c51e6220bf5
    else if bytes = g ++ g ++ g ++ g then
      Bytes.writeBe 32 0x933d7b6b029612b309ca6418001283198b95f9c88deafe9df6ab810c9859b727
    else if bytes = g ++ g3 ++ g ++ g3 then
      Bytes.writeBe 32 0xeae16fc1784180b93f7de9920535fa64c66388faffd76b1a5bbcbc93040453db
    else if bytes = g ++ g6 ++ g ++ g6 then
      Bytes.writeBe 32 0xdf8614aa4c80b1cdeacc58673b6fc2f06abb91f241dca089571527a0d32df539
    else List.replicate 32 0

def sampleSetup :
    Setup secp256k1Order (ZMod secp256k1Order) (Multiplicative (ZMod secp256k1Order × ℤ)) where
  curve := sampleCurve
  params := ClParams.ideal secp256k1Order
  modulus := rfl
  tumblerEcPk := 1 • sampleCurve.gen
  tumblerClPk := (ClParams.ideal secp256k1Order).gq ^ 1
  auditorClPk := (ClParams.ideal secp256k1Order).gq ^ 2

theorem one_lt_secp256k1Order : 1 < secp256k1Order :=
  prime_secp256k1Order.one_lt

def sampleRandomizer (scalar : ℕ) : RandomizerCoins secp256k1Order where
  scalar := scalar
  encTumbler := 1
  encAuditor := 1
  tumblerProof := ⟨1, 1, one_lt_secp256k1Order⟩
  auditorProof := ⟨1, 1, one_lt_secp256k1Order⟩

def sampleSigning : SigningCoins secp256k1Order where
  nonces := [1]
  proofNonce := 1
  nonces_range := by simp [one_lt_secp256k1Order]
  proofNonce_range := ⟨one_pos, one_lt_secp256k1Order⟩

def sampleInputs (beta tau : ℕ) : RunInputs secp256k1Order where
  tumblerEcSk := 1
  tumblerClSk := 1
  aliceEcSk := 1
  tumblerMessage := List.replicate 64 0
  aliceMessage := List.replicate 64 1
  tumbler :=
    { alpha := 1
      alpha_range := ⟨one_pos, one_lt_secp256k1Order⟩
      r0 := 1
      r0_range := ⟨one_pos, one_lt_secp256k1Order⟩
      encAlpha := 1
      encR0 := 1
      alphaProof := ⟨1, 1, one_lt_secp256k1Order⟩
      r0Proof := ⟨1, 1, one_lt_secp256k1Order⟩
      signing := sampleSigning }
  bob := sampleRandomizer beta
  alice := sampleRandomizer tau
  aliceSigning := sampleSigning

theorem not_size_secp256k1Order_lt : ¬Nat.size secp256k1Order < 8 * mdLen := by
  have size : 255 < Nat.size secp256k1Order := Nat.lt_size.mpr (by norm_num [secp256k1Order])
  rw [mdLen]
  omega

theorem sampleCurve_digestToScalar {value : ℕ} (fits : value < 256 ^ 32) :
    sampleCurve.digestToScalar (Bytes.writeBe 32 value) = value := by
  rw [Curve.digestToScalar, if_neg not_size_secp256k1Order_lt, mdLen,
    List.take_of_length_le (by simp), Bytes.readBe_writeBe_of_lt fits]

theorem sampleCurve_mdMap_tumbler : sampleCurve.mdMap (List.replicate 64 0) =
    Bytes.writeBe 32 0xf5a5fd42d16a20302798ef6ed309979b43003d2320d9f0e8ea9831a92759fb4b := by
  simp only [sampleCurve, if_true]

theorem sampleCurve_mdMap_alice : sampleCurve.mdMap (List.replicate 64 1) =
    Bytes.writeBe 32 0x7c8975e1e60a5c8337f28edf8c33c3b180360b7279644a9bc1af3c51e6220bf5 := by
  have different : List.replicate 64 (1 : UInt8) ≠ List.replicate 64 0 := by decide
  simp only [sampleCurve, if_neg different, if_true]

theorem sample_acceptsFirst {message : Bytes} {Y : ZMod secp256k1Order} {x digest : ℕ}
    (coordinate : sampleCurve.getX Y = x)
    (hash : sampleCurve.mdMap message = Bytes.writeBe 32 digest) (fits : digest < 256 ^ 32)
    (coordinateNonzero : x % secp256k1Order ≠ 0) (sumNonzero : (x + digest) % secp256k1Order ≠ 0) :
    AcceptsFirst sampleCurve Y 1 message sampleSigning := by
  refine ⟨1, [], rfl, ?_, ?_⟩
  · rwa [one_smul, coordinate]
  · rw [one_smul, coordinate, hash, sampleCurve_digestToScalar fits]
    intro vanishes
    have residue := natCast_ne_zero_iff.mpr sumNonzero
    have scalar := congrArg (Nat.cast : ℕ → ZMod secp256k1Order) vanishes
    rw [Curve.natCast_signatureScalar (by simp)] at scalar
    apply residue
    simpa [ZMod.natCast_mod] using scalar

theorem sample_assumptions {beta tau : ℕ} (betaNonzero : beta % secp256k1Order ≠ 0)
    (tauNonzero : tau % secp256k1Order ≠ 0) (sharedNonzero : (1 + beta) % secp256k1Order ≠ 0)
    (solutionNonzero : (1 + beta + tau) % secp256k1Order ≠ 0) :
    RunAssumptions sampleSetup (sampleInputs beta tau) where
  tumblerEcPk := rfl
  tumblerClPk := rfl
  homomorphic := ClParams.ideal_homomorphic secp256k1Order 1
  beta_ne_zero := betaNonzero
  tau_ne_zero := tauNonzero
  shared_ne_zero := sharedNonzero
  solution_ne_zero := solutionNonzero

theorem sample_unobstructed {beta tau x : ℕ} (coordinate :
      sampleCurve.getX (1 + (beta % secp256k1Order : ℕ) + (tau % secp256k1Order : ℕ)) = x)
    (coordinateNonzero : x % secp256k1Order ≠ 0)
    (sumNonzero : (x + 0x7c8975e1e60a5c8337f28edf8c33c3b180360b7279644a9bc1af3c51e6220bf5) %
      secp256k1Order ≠ 0) :
    Unobstructed sampleSetup (sampleInputs beta tau) where
  alphaProof := one_ne_zero
  r0Proof := one_ne_zero
  bobTumblerProof := one_ne_zero
  bobAuditorProof := one_ne_zero
  aliceTumblerProof := one_ne_zero
  aliceAuditorProof := one_ne_zero
  tumblerSigning := by
    have coordinate : sampleCurve.getX (1 • (1 : ZMod secp256k1Order)) =
        0x79be667ef9dcbbac55a06295ce870b07029bfcdb2dce28d959f2815b16f81798 := by
      simp [sampleCurve]
    apply sample_acceptsFirst coordinate sampleCurve_mdMap_tumbler
    all_goals norm_num [secp256k1Order]
  aliceSigning := by
    have point : (sampleInputs beta tau).tumbler.alpha • sampleSetup.curve.gen +
        ((sampleInputs beta tau).bob.scalar % secp256k1Order) • sampleSetup.curve.gen +
          ((sampleInputs beta tau).alice.scalar % secp256k1Order) • sampleSetup.curve.gen =
        1 + (beta % secp256k1Order : ℕ) + (tau % secp256k1Order : ℕ) := by
      simp [sampleInputs, sampleSetup, sampleCurve, PrimeOrderGroup.residues, sampleRandomizer]
    rw [point]
    exact sample_acceptsFirst coordinate sampleCurve_mdMap_alice (by norm_num) coordinateNonzero
      sumNonzero

theorem sample_assumptions_two_three : RunAssumptions sampleSetup (sampleInputs 2 3) := by
  apply sample_assumptions <;> norm_num [secp256k1Order]

theorem sample_unobstructed_two_three : Unobstructed sampleSetup (sampleInputs 2 3) := by
  have point : (1 + (2 % secp256k1Order : ℕ) + (3 % secp256k1Order : ℕ) :
      ZMod secp256k1Order) = 6 := by
    norm_num [secp256k1Order]
  have coordinate : sampleCurve.getX 6 =
      0xfff97bd5755eeea420453a14355235d382f6472f8568a18b2f057a1460297556 := by
    have sixNeOne : (6 : ZMod secp256k1Order) ≠ 1 := by decide
    have sixNeThree : (6 : ZMod secp256k1Order) ≠ 3 := by decide
    simp only [sampleCurve, if_neg sixNeOne, if_neg sixNeThree, if_true]
  apply sample_unobstructed (point ▸ coordinate) <;> norm_num [secp256k1Order]

theorem bob_solves_puzzle_one_two_three :
    ∃ bob, honestRun sampleSetup (sampleInputs 2 3) = some bob ∧ bob.alpha = 1 ∧
      sampleSetup.curve.ecdsaVer bob.sigmaT.r bob.sigmaT.s (List.replicate 64 0)
        sampleSetup.tumblerEcPk = true := by
  have assumptions := sample_assumptions_two_three
  have unobstructed := sample_unobstructed_two_three
  rcases honestRun_isSome assumptions unobstructed with ⟨bob, run⟩
  refine ⟨bob, run, (bob_solves_puzzle_iff assumptions run).mpr ⟨rfl, ?_⟩⟩
  apply unobstructed.tumblerSigning.signsMessage
  exact sampleSetup.curve.nsmul_gen_ne_zero (by norm_num [sampleInputs, secp256k1Order])

/-- With all three scalars one, Bob computes three. -/
theorem bob_misses_alpha_one_one_one :
    RunAssumptions sampleSetup (sampleInputs 1 1) ∧
      ∃ bob, honestRun sampleSetup (sampleInputs 1 1) = some bob ∧ bob.alpha = 3 ∧
        bob.alpha ≠ (sampleInputs 1 1).tumbler.alpha := by
  have assumptions : RunAssumptions sampleSetup (sampleInputs 1 1) := by
    apply sample_assumptions <;> norm_num [secp256k1Order]
  have unobstructed : Unobstructed sampleSetup (sampleInputs 1 1) := by
    have point : (1 + (1 % secp256k1Order : ℕ) + (1 % secp256k1Order : ℕ) :
        ZMod secp256k1Order) = 3 := by
      norm_num [secp256k1Order]
    have coordinate : sampleCurve.getX 3 =
        0xf9308a019258c31049344f85f89d5229b531c845836f99b08601f113bce036f9 := by
      have threeNeOne : (3 : ZMod secp256k1Order) ≠ 1 := by decide
      simp only [sampleCurve, if_neg threeNeOne, if_true]
    apply sample_unobstructed (point ▸ coordinate) <;> norm_num [secp256k1Order]
  rcases honestRun_isSome assumptions unobstructed with ⟨bob, run⟩
  rcases honestRun_eq_some assumptions run with ⟨residue, reduced, -⟩
  have three : bob.alpha = 3 := by
    apply eq_of_natCast_eq reduced (by norm_num [secp256k1Order])
    rw [residue]
    norm_num [sampleInputs, sampleRandomizer]
  refine ⟨assumptions, bob, run, three, ?_⟩
  rw [three]
  decide

end Secp256k1

end TigerMixer.A2L
