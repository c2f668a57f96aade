import TigerMixer.Puzzle.Encryption

/-!
# The parties of a puzzle-promise and puzzle-solver run

The cryptographic steps of `tumbler.c`, `bob.c` and `alice.c`, one function for each handler, in the
order in which an undisturbed run executes them:

1. the Tumbler makes the puzzle and pre-signs, 2. Bob checks both and randomises the puzzle, 3.
Alice checks this, randomises again and pre-signs, 4. the Tumbler solves the puzzle and completes
Alice's signature, 5. Alice extracts and de-randomises the solution, 6. Bob de-randomises it and
completes the signature.

A handler that throws returns `none`. Of the encodings of points in messages only one effect is
kept: decoding rejects the point at infinity.
-/

namespace TigerMixer.A2L

structure Setup (q : ℕ) (E : Type) [AddCommGroup E] [Module (ZMod q) E] (C : Type) where
  curve : Curve q E
  params : ClParams C
  /-- Plaintexts are scalars of the curve. -/
  modulus : params.q = q
  tumblerEcPk : E
  tumblerClPk : C
  auditorClPk : C

structure CldlCoins (q : ℕ) where
  r1 : ℕ
  r2 : ℕ
  r2_lt : r2 < q

structure SigningCoins (q : ℕ) where
  nonces : List ℕ
  proofNonce : ℕ
  nonces_range : ∀ k ∈ nonces, 0 < k ∧ k < q
  proofNonce_range : 0 < proofNonce ∧ proofNonce < q

structure TumblerCoins (q : ℕ) where
  alpha : ℕ
  alpha_range : 0 < alpha ∧ alpha < q
  r0 : ℕ
  r0_range : 0 < r0 ∧ r0 < q
  encAlpha : ℕ
  encR0 : ℕ
  alphaProof : CldlCoins q
  r0Proof : CldlCoins q
  signing : SigningCoins q

/-- The scalar before its reduction, the encryption randomness and the choices of the two proofs. -/
structure RandomizerCoins (q : ℕ) where
  scalar : ℕ
  encTumbler : ℕ
  encAuditor : ℕ
  tumblerProof : CldlCoins q
  auditorProof : CldlCoins q

structure Puzzle (E : Type) (C : Type) where
  point : E
  ctx : ClCiphertext C
  auditorCtx : ClCiphertext C

structure ComprehensiveProof (E : Type) (C : Type) where
  alphaEncProof : CldlProof E C
  r0EncProof : CldlProof E C

structure RelationProof (E : Type) (C : Type) where
  tumblerProof : CldlProof E C
  auditorProof : CldlProof E C

structure PromiseDone (E : Type) (C : Type) where
  puzzle : Puzzle E C
  sigmaT : AdaptorSignature E
  proof : ComprehensiveProof E C

/-- The message `puzzle_share`: the randomised puzzle, the one it came from, and the proof that
relates them. -/
structure PuzzleShare (E : Type) (C : Type) where
  randomized : Puzzle E C
  original : Puzzle E C
  proof : RelationProof E C

structure PaymentInit (E : Type) (C : Type) where
  sigmaHatS : AdaptorSignature E
  share : PuzzleShare E C

structure PaymentDone where
  r : ℕ
  s : ℕ

structure BobState (E : Type) (C : Type) where
  puzzle : Puzzle E C
  sigmaT : AdaptorSignature E
  beta : ℕ
  alpha : ℕ

structure AliceState (E : Type) (C : Type) where
  puzzle : Puzzle E C
  tau : ℕ
  sigmaHatS : AdaptorSignature E
  alphaHat : ℕ

variable {q : ℕ} {E : Type} [AddCommGroup E] [Module (ZMod q) E] {C : Type} [CommGroup C]

section Transport

variable [DecidableEq E]

def readPoint (point : E) : Option E :=
  if point = 0 then none else some point

def readPuzzle (puzzle : Puzzle E C) : Option (Puzzle E C) :=
  (readPoint puzzle.point).map fun point => { puzzle with point }

def readSignature (signature : AdaptorSignature E) : Option (AdaptorSignature E) := do
  let R ← readPoint signature.R
  let a ← readPoint signature.pi.a
  let b ← readPoint signature.pi.b
  return { signature with R, pi := { signature.pi with a, b } }

def readCldl (proof : CldlProof E C) : Option (CldlProof E C) :=
  (readPoint proof.t2).map fun t2 => { proof with t2 }

end Transport

section Proofs

def comprehensiveProve (setup : Setup q E C) (coins : TumblerCoins q) :
    Option (ComprehensiveProof E C) := do
  let alphaEncProof ← Cldl.prove setup.curve setup.params coins.alpha coins.encAlpha
    setup.tumblerClPk coins.alphaProof.r1 coins.alphaProof.r2
  let r0EncProof ← Cldl.prove setup.curve setup.params coins.r0 coins.encR0
    setup.auditorClPk coins.r0Proof.r1 coins.r0Proof.r2
  return { alphaEncProof, r0EncProof }

def relationProve (setup : Setup q E C) (beta : ℕ) (coins : RandomizerCoins q) :
    Option (RelationProof E C) := do
  let tumblerProof ← Cldl.prove setup.curve setup.params beta coins.encTumbler
    setup.tumblerClPk coins.tumblerProof.r1 coins.tumblerProof.r2
  let auditorProof ← Cldl.prove setup.curve setup.params beta coins.encAuditor
    setup.auditorClPk coins.auditorProof.r1 coins.auditorProof.r2
  return { tumblerProof, auditorProof }

variable [DecidableEq E] [DecidableEq C]

/-- `zk_comprehensive_puzzle_verify`; only the first ciphertext is tied to the point. -/
def comprehensiveVerify (setup : Setup q E C) (proof : ComprehensiveProof E C)
    (puzzle : Puzzle E C) : Bool :=
  Cldl.verify setup.curve setup.params proof.alphaEncProof puzzle.point puzzle.ctx
      setup.tumblerClPk &&
    Cldl.verifyCond1Only setup.curve setup.params proof.r0EncProof puzzle.auditorCtx
      setup.auditorClPk

def relationVerify (setup : Setup q E C) (proof : RelationProof E C)
    (original randomized : Puzzle E C) : Bool :=
  let gBeta := randomized.point - original.point
  Cldl.verify setup.curve setup.params proof.tumblerProof gBeta
      (randomized.ctx.div original.ctx) setup.tumblerClPk &&
    Cldl.verify setup.curve setup.params proof.auditorProof gBeta
      (randomized.auditorCtx.div original.auditorCtx) setup.auditorClPk

end Proofs

/-- The randomisation of `puzzle_share` and `payment_init`: add `scalar` in the exponent and in both
ciphertexts, and prove the relation. -/
def randomize (setup : Setup q E C) (puzzle : Puzzle E C) (coins : RandomizerCoins q) :
    Option (PuzzleShare E C) := do
  let scalar := coins.scalar % q
  let enc ← setup.params.clEnc scalar setup.tumblerClPk coins.encTumbler
  let encAuditor ← setup.params.clEnc scalar setup.auditorClPk coins.encAuditor
  let proof ← relationProve setup scalar coins
  let randomized :=
    { point := puzzle.point + scalar • setup.curve.gen
      ctx := puzzle.ctx.mul enc
      auditorCtx := puzzle.auditorCtx.mul encAuditor }
  return { randomized, original := puzzle, proof }

def Tumbler.promiseInitHandler (setup : Setup q E C) (ecSk : ℕ) (message : Bytes)
    (coins : TumblerCoins q) : Option (PromiseDone E C) := do
  let point := coins.alpha • setup.curve.gen
  let ctx ← setup.params.clEnc coins.alpha setup.tumblerClPk coins.encAlpha
  let auditorCtx ← setup.params.clEnc coins.r0 setup.auditorClPk coins.encR0
  let proof ← comprehensiveProve setup coins
  let sigmaT ← setup.curve.adaptorEcdsaSign message point ecSk coins.signing.nonces
    coins.signing.proofNonce
  return { puzzle := { point, ctx, auditorCtx }, sigmaT, proof }

def Alice.paymentInit (setup : Setup q E C) (ecSk : ℕ) (message : Bytes) (puzzle : Puzzle E C)
    (coins : RandomizerCoins q) (signing : SigningCoins q) :
    Option (AliceState E C × PaymentInit E C) := do
  let share ← randomize setup puzzle coins
  let sigmaHatS ← setup.curve.adaptorEcdsaSign message share.randomized.point ecSk signing.nonces
    signing.proofNonce
  return ({ puzzle := share.randomized, tau := coins.scalar % q, sigmaHatS, alphaHat := 0 },
    { sigmaHatS, share })

/-- `payment_done_handler` of Alice. A failed comparison with the puzzle point is only reported, so
it has no effect here. -/
def Alice.paymentDoneHandler (q : ℕ) (state : AliceState E C) (done : PaymentDone) :
    AliceState E C :=
  let gamma := modInv done.s q * state.sigmaHatS.s % q
  { state with alphaHat := gamma * modInv state.tau q % q }

def Bob.puzzleSolutionShareHandler (q : ℕ) (state : BobState E C) (alphaHat : ℕ) :
    BobState E C :=
  let alpha := alphaHat * modInv state.beta q % q
  let s := state.sigmaT.s * modInv alpha q % q
  { state with alpha, sigmaT := { state.sigmaT with s } }

section Checks

variable [DecidableEq E] [DecidableEq C]

def Bob.promiseDoneHandler (setup : Setup q E C) (message : Bytes) (received : PromiseDone E C) :
    Option (BobState E C) := do
  let puzzle ← readPuzzle received.puzzle
  let sigmaT ← readSignature received.sigmaT
  let alphaEncProof ← readCldl received.proof.alphaEncProof
  let r0EncProof ← readCldl received.proof.r0EncProof
  guard (comprehensiveVerify setup { alphaEncProof, r0EncProof } puzzle)
  guard (setup.curve.adaptorEcdsaPreverify sigmaT message puzzle.point setup.tumblerEcPk)
  return { puzzle, sigmaT, beta := 0, alpha := 0 }

def Bob.puzzleShare (setup : Setup q E C) (state : BobState E C) (coins : RandomizerCoins q) :
    Option (BobState E C × PuzzleShare E C) := do
  let share ← randomize setup state.puzzle coins
  return ({ state with beta := coins.scalar % q }, share)

/-- The reading and checking of a randomised puzzle that `puzzle_share_handler` and
`payment_init_handler` share. -/
def checkShare (setup : Setup q E C) (share : PuzzleShare E C) : Option (Puzzle E C) := do
  let randomized ← readPuzzle share.randomized
  let original ← readPuzzle share.original
  let tumblerProof ← readCldl share.proof.tumblerProof
  let auditorProof ← readCldl share.proof.auditorProof
  guard (relationVerify setup { tumblerProof, auditorProof } original randomized)
  return randomized

def Alice.puzzleShareHandler (setup : Setup q E C) (share : PuzzleShare E C) :
    Option (Puzzle E C) :=
  checkShare setup share

/-- `payment_init_handler` of the Tumbler: decrypt the solution and complete the signature. -/
def Tumbler.paymentInitHandler (setup : Setup q E C) (clSk : ℕ) (received : PaymentInit E C) :
    Option PaymentDone := do
  let sigmaS ← readSignature received.sigmaHatS
  let gamma ← setup.params.clDec received.share.randomized.ctx clSk
  let s := sigmaS.s * modInv gamma q % q
  let _ ← checkShare setup received.share
  return { r := sigmaS.r, s }

structure RunInputs (q : ℕ) where
  tumblerEcSk : ℕ
  tumblerClSk : ℕ
  aliceEcSk : ℕ
  /-- The escrow id and transaction hash that the Tumbler signs. -/
  tumblerMessage : Bytes
  /-- The escrow id and transaction hash that Alice signs. -/
  aliceMessage : Bytes
  tumbler : TumblerCoins q
  bob : RandomizerCoins q
  alice : RandomizerCoins q
  aliceSigning : SigningCoins q

/-- A run in which all three parties follow the code, ending with Bob's state. -/
def honestRun (setup : Setup q E C) (inputs : RunInputs q) : Option (BobState E C) := do
  let promise ← Tumbler.promiseInitHandler setup inputs.tumblerEcSk inputs.tumblerMessage
    inputs.tumbler
  let bob ← Bob.promiseDoneHandler setup inputs.tumblerMessage promise
  let (bob, share) ← Bob.puzzleShare setup bob inputs.bob
  let alicePuzzle ← Alice.puzzleShareHandler setup share
  let (alice, init) ← Alice.paymentInit setup inputs.aliceEcSk inputs.aliceMessage alicePuzzle
    inputs.alice inputs.aliceSigning
  let done ← Tumbler.paymentInitHandler setup inputs.tumblerClSk init
  let alice := Alice.paymentDoneHandler q alice done
  return Bob.puzzleSolutionShareHandler q bob alice.alphaHat

end Checks

end TigerMixer.A2L
