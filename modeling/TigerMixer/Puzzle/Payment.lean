import TigerMixer.Puzzle.Adaptability
import TigerMixer.Puzzle.Linkability
import TigerMixer.Text.CString

/-!
# A payment with somebody who does not follow the protocol

The Tumbler's handler for `payment_init` and Alice's for `payment_done`, on any message at all. Each
prints the outcome of its check and goes on. Failing allocations and transports are left out, and so
is the Tumbler's own signature, which `payment_init_handler` derives on the way.
-/

namespace TigerMixer.A2L

open Bytes

inductive Status
  | ok
  | err
deriving DecidableEq

variable {q : ℕ} {E : Type} [AddCommGroup E] [Module (ZMod q) E] {C : Type}

/-! ### Alice and the reply -/

section Alice

structure AliceProcess (E : Type) (C : Type) where
  state : AliceState E C
  /-- `sigma_s`, the signature in the reply. -/
  sigmaS : PaymentDone
  puzzleSolved : Bool
  /-- How often a failed comparison has been printed. -/
  warnings : ℕ

def AliceProcess.waiting (state : AliceState E C) : AliceProcess E C where
  state := state
  sigmaS := ⟨0, 0⟩
  puzzleSolved := false
  warnings := 0

def AliceState.extracted (q : ℕ) (state : AliceState E C) (done : PaymentDone) : ℕ :=
  modInv done.s q * state.sigmaHatS.s % q

def AliceState.IsSolution (curve : Curve q E) (state : AliceState E C) (gamma : ℕ) : Prop :=
  gamma • curve.gen = state.puzzle.point

instance [DecidableEq E] (curve : Curve q E) (state : AliceState E C) (gamma : ℕ) :
    Decidable (state.IsSolution curve gamma) :=
  inferInstanceAs (Decidable (_ = _))

theorem AliceState.isSolution_extracted_iff [Fact q.Prime] {curve : Curve q E}
    {state : AliceState E C} {done : PaymentDone} (invertible : done.s % q ≠ 0) :
    state.IsSolution curve (state.extracted q done) ↔
      done.s • state.puzzle.point = state.sigmaHatS.s • curve.gen := by
  have nonzero : (done.s : ZMod q) ≠ 0 := natCast_ne_zero_iff.mpr invertible
  rw [IsSolution, extracted, ← curve.log_smul_gen state.puzzle.point]
  simp only [← Nat.cast_smul_eq_nsmul (ZMod q), smul_smul, curve.smul_gen_inj, ZMod.natCast_mod,
    Nat.cast_mul, natCast_modInv nonzero]
  constructor
  · intro opens
    rw [← opens, mul_inv_cancel_left₀ nonzero]
  · intro undone
    rw [← undone, inv_mul_cancel_left₀ nonzero]

variable [DecidableEq E]

def Alice.handlePaymentDone (curve : Curve q E) (process : AliceProcess E C) (done : PaymentDone) :
    Status × AliceProcess E C :=
  let gamma := process.state.extracted q done
  -- the comparison decides about a warning and about a copy that nothing reads
  let warnings := if process.state.IsSolution curve gamma then process.warnings
    else process.warnings + 1
  (.ok,
    { state := Alice.paymentDoneHandler q process.state done
      sigmaS := done
      puzzleSolved := true
      warnings })

/-- The loop of `main` that receives messages until the puzzle is solved; `none` while it is still
polling. -/
def Alice.awaitSolution (curve : Curve q E) (process : AliceProcess E C) :
    List (Option PaymentDone) → Option (Status × AliceProcess E C)
  | [] => if process.puzzleSolved then some (.ok, process) else none
  | poll :: polls =>
    if process.puzzleSolved then some (.ok, process)
    else
      match poll with
      | none => awaitSolution curve process polls
      | some done =>
        match Alice.handlePaymentDone curve process done with
        | (.err, process) => some (.err, process)
        | (.ok, process) => awaitSolution curve process polls

def Alice.solutionForBob (curve : Curve q E) (process : AliceProcess E C)
    (polls : List (Option PaymentDone)) : Option ℕ :=
  match Alice.awaitSolution curve process polls with
  | some (.ok, process) => some process.state.alphaHat
  | _ => none

theorem Alice.awaitSolution_reply (curve : Curve q E) (state : AliceState E C)
    (done : PaymentDone) (idle : ℕ) (later : List (Option PaymentDone)) :
    Alice.awaitSolution curve (.waiting state) (List.replicate idle none ++ some done :: later) =
      some (Alice.handlePaymentDone curve (.waiting state) done) := by
  induction idle with
  | zero => cases later <;> simp [awaitSolution, handlePaymentDone, AliceProcess.waiting]
  | succ idle ih =>
    exact ih

theorem Alice.solutionForBob_reply (curve : Curve q E) (state : AliceState E C)
    (done : PaymentDone) (idle : ℕ) (later : List (Option PaymentDone)) :
    Alice.solutionForBob curve (.waiting state)
        (List.replicate idle none ++ some done :: later) =
      some (state.extracted q done * modInv state.tau q % q) := by
  rw [solutionForBob, awaitSolution_reply]
  rfl

/-- A reply is taken for a solution only if it is one, and otherwise the handler fails and Bob gets
nothing. -/
structure BelievesOnlySolutions (curve : Curve q E) (state : AliceState E C) (done : PaymentDone)
    (polls : List (Option PaymentDone)) : Prop where
  believed : (Alice.handlePaymentDone curve (.waiting state) done).1 = .ok →
    (Alice.handlePaymentDone curve (.waiting state) done).2.puzzleSolved = true →
      state.IsSolution curve (state.extracted q done)
  refused : ¬state.IsSolution curve (state.extracted q done) →
    (Alice.handlePaymentDone curve (.waiting state) done).1 = .err ∧
      Alice.solutionForBob curve (.waiting state) polls = none

end Alice

/-! ### The Tumbler and the payment -/

section Tumbler

structure TumblerState (E : Type) where
  tumblerClSk : ℕ
  aliceEcPk : E
  aliceEscrowId : Bytes
  aliceEscrowTxHash : Bytes

def readBytes32 (text : Bytes) : Option Bytes :=
  if text.length < 2 ∨ ¬(ascii ['0', 'x']).isPrefixOf text then none
  else if (text.drop 2).length ≠ 64 then none
  else some (Text.hexPairs (text.drop 2))

/-- The transaction that Alice signs: her escrow id and the hash of the transaction that opened
the escrow. -/
def TumblerState.transaction (state : TumblerState E) : Option Bytes := do
  let escrowId ← readBytes32 state.aliceEscrowId
  let txHash ← readBytes32 state.aliceEscrowTxHash
  return escrowId ++ txHash

def TumblerState.ValidSignature [DecidableEq E] (curve : Curve q E) (state : TumblerState E)
    (signature : PaymentDone) : Prop :=
  ∃ message, state.transaction = some message ∧
    curve.ecdsaVer signature.r signature.s message state.aliceEcPk = true

inductive Verdict
  /-- The length of the transaction is out of range. -/
  | bypassed
  /-- A text of the state has another form. -/
  | malformed
  | passed
  | failed
deriving DecidableEq

inductive PaymentAction (E : Type) (C : Type)
  | report (verdict : Verdict)
  /-- Run the script that confirms the escrow, with Alice's signature. -/
  | confirmEscrow (escrowId : Bytes) (signature : PaymentDone)
  | reportRelease (rc : ℤ)
  /-- Send the shares of a message to the receivers. -/
  | fileShares (msgid : Bytes) (message : FirstMessage E C)
  | sendPaymentDone (done : PaymentDone)

/-- The actions with which the Tumbler pays, or lets others rely on the payment. -/
def PaymentAction.Pays : PaymentAction E C → Prop
  | .report _ | .reportRelease _ => False
  | .confirmEscrow _ _ | .fileShares _ _ | .sendPaymentDone _ => True

structure Handled (E : Type) (C : Type) where
  status : Status
  actions : List (PaymentAction E C)

def Handled.Proceeds (handled : Handled E C) : Prop :=
  ∃ action ∈ handled.actions, action.Pays

structure PaymentReplies where
  confirmRc : ℤ
  /-- `create_secret_shares` succeeds. -/
  sharesCreated : Bool

structure PaymentMessage (E : Type) (C : Type) extends PaymentInit E C where
  txLen : ℤ

def TumblerState.verify [DecidableEq E] (curve : Curve q E) (state : TumblerState E)
    (txLen : ℤ) (signature : PaymentDone) : Verdict :=
  if 0 < txLen ∧ txLen ≤ 1024 then
    match state.transaction with
    | none => .malformed
    | some message =>
      if curve.ecdsaVer signature.r signature.s message state.aliceEcPk then .passed
      else .failed
  else .bypassed

/-- `release_escrow_for_alice`, with its actions and what it returns. It throws if a component does
not fit into thirty-two bytes. -/
def TumblerState.releaseEscrowForAlice (replies : PaymentReplies) (state : TumblerState E)
    (signature : PaymentDone) : Option (List (PaymentAction E C) × ℤ) :=
  match state.transaction with
  | none => some ([], -1)
  | some _ =>
    if signature.r = 0 ∨ signature.s = 0 then some ([], -1)
    else if 256 ^ 32 ≤ signature.r ∨ 256 ^ 32 ≤ signature.s then none
    else some ([.confirmEscrow state.aliceEscrowId signature], replies.confirmRc)

def TumblerState.Releases (state : TumblerState E) (signature : PaymentDone) : Prop :=
  state.transaction = none ∨ signature.r = 0 ∨ signature.s = 0 ∨
    signature.r < 256 ^ 32 ∧ signature.s < 256 ^ 32

omit [AddCommGroup E] in
theorem TumblerState.releaseEscrowForAlice_eq_none_iff {replies : PaymentReplies}
    {state : TumblerState E} {signature : PaymentDone} :
    state.releaseEscrowForAlice (C := C) replies signature = none ↔ ¬state.Releases signature := by
  unfold releaseEscrowForAlice Releases
  cases state.transaction with
  | none => simp
  | some message =>
    by_cases vanishes : signature.r = 0 ∨ signature.s = 0
    · simp [vanishes]
      tauto
    · simp [vanishes]
      omega

def TumblerState.settle (replies : PaymentReplies) (state : TumblerState E) (verdict : Verdict)
    (message : FirstMessage E C) : Handled E C :=
  match state.releaseEscrowForAlice replies message.signature with
  | none => ⟨.err, [.report verdict]⟩
  | some (released, rc) =>
    let filed := if replies.sharesCreated then [.fileShares state.aliceEscrowTxHash message]
      else []
    ⟨.ok, [.report verdict] ++ released ++ [.reportRelease rc] ++ filed ++
      [.sendPaymentDone message.signature]⟩

omit [AddCommGroup E] in
theorem TumblerState.mem_actions_settle {replies : PaymentReplies} {state : TumblerState E}
    {verdict : Verdict} {message : FirstMessage E C} (releases : state.Releases message.signature) :
    .sendPaymentDone message.signature ∈ (state.settle replies verdict message).actions ∧
      (replies.sharesCreated = true →
        .fileShares state.aliceEscrowTxHash message ∈
          (state.settle replies verdict message).actions) := by
  unfold settle
  cases release : state.releaseEscrowForAlice (C := C) replies message.signature with
  | none => exact absurd releases (releaseEscrowForAlice_eq_none_iff.mp release)
  | some result =>
    constructor
    · simp
    · intro created
      simp [created]

omit [AddCommGroup E] in
theorem TumblerState.proceeds_settle_iff {replies : PaymentReplies} {state : TumblerState E}
    {verdict : Verdict} {message : FirstMessage E C} :
    (state.settle replies verdict message).Proceeds ↔ state.Releases message.signature := by
  constructor
  · rintro ⟨action, member, pays⟩
    by_contra throws
    rw [settle, releaseEscrowForAlice_eq_none_iff.mpr throws, List.mem_singleton] at member
    subst member
    exact pays
  · intro releases
    exact ⟨_, (mem_actions_settle releases).1, trivial⟩

variable {state : TumblerState E} {setup : Setup q E C}

theorem TumblerState.ValidSignature.releases [DecidableEq E] {curve : Curve q E}
    {signature : PaymentDone} (valid : state.ValidSignature curve signature)
    (small : q ≤ 256 ^ 32) :
    state.Releases signature := by
  rcases valid with ⟨message, -, verified⟩
  rw [Curve.ecdsaVer] at verified
  split_ifs at verified with range
  exact Or.inr (Or.inr (Or.inr ⟨range.2.2.1.trans_le small, range.2.2.2.trans_le small⟩))

variable [CommGroup C] [DecidableEq E] [DecidableEq C]

def Tumbler.handlePaymentInit (setup : Setup q E C) (replies : PaymentReplies)
    (state : TumblerState E) (received : PaymentMessage E C) : Handled E C :=
  match readSignature received.sigmaHatS, readPoint received.share.randomized.point,
    setup.params.clDec received.share.randomized.ctx state.tumblerClSk with
  | some presignature, some _, some gamma =>
    let signature : PaymentDone := ⟨presignature.r, presignature.s * modInv gamma q % q⟩
    let verdict := state.verify setup.curve received.txLen signature
    match checkShare setup received.share with
    | none => ⟨.err, [.report verdict]⟩
    | some _ =>
      state.settle replies verdict { share := received.share, presignature, signature }
  | _, _, _ => ⟨.err, []⟩

def Tumbler.adaptSignature (setup : Setup q E C) (clSk : ℕ) (received : PaymentInit E C) :
    Option PaymentDone := do
  let presignature ← readSignature received.sigmaHatS
  let gamma ← setup.params.clDec received.share.randomized.ctx clSk
  return ⟨presignature.r, presignature.s * modInv gamma q % q⟩

theorem Tumbler.paymentInitHandler_eq_some_iff {clSk : ℕ} {received : PaymentInit E C}
    {done : PaymentDone} :
    Tumbler.paymentInitHandler setup clSk received = some done ↔
      Tumbler.adaptSignature setup clSk received = some done ∧
        (checkShare setup received.share).isSome := by
  simp only [paymentInitHandler, adaptSignature, Option.bind_eq_bind, Option.pure_def,
    Option.bind_eq_some_iff, Option.some.injEq, Option.isSome_iff_exists]
  tauto

def PaymentInit.adapted (received : PaymentInit E C) (q gamma : ℕ) : PaymentDone :=
  ⟨received.sigmaHatS.r, received.sigmaHatS.s * modInv gamma q % q⟩

/-- The checks of the handler other than the verification of the signature. -/
structure Tumbler.Passes (setup : Setup q E C) (state : TumblerState E)
    (received : PaymentInit E C) (gamma : ℕ) : Prop where
  readable : (readSignature received.sigmaHatS).isSome
  decrypted : setup.params.clDec received.share.randomized.ctx state.tumblerClSk = some gamma
  accepted : (checkShare setup received.share).isSome
  releases : state.Releases (received.adapted q gamma)

theorem Tumbler.Passes.answered {received : PaymentInit E C} {gamma : ℕ}
    (passes : Tumbler.Passes setup state received gamma) :
    Tumbler.paymentInitHandler setup state.tumblerClSk received =
      some (received.adapted q gamma) := by
  rcases Option.isSome_iff_exists.mp passes.readable with ⟨signature, read⟩
  have unchanged := (readSignature_eq_some_iff.mp read).2
  rw [paymentInitHandler_eq_some_iff, adaptSignature, read, passes.decrypted, ← unchanged]
  exact ⟨rfl, passes.accepted⟩

theorem Tumbler.exists_passes {received : PaymentInit E C} {done : PaymentDone}
    (answered : Tumbler.paymentInitHandler setup state.tumblerClSk received = some done)
    (releases : state.Releases done) :
    ∃ gamma, Tumbler.Passes setup state received gamma ∧ received.adapted q gamma = done := by
  rcases paymentInitHandler_eq_some_iff.mp answered with ⟨adapted, accepted⟩
  simp only [adaptSignature, Option.bind_eq_bind, Option.pure_def, Option.bind_eq_some_iff,
    readSignature_eq_some_iff, Option.some.injEq] at adapted
  rcases adapted with ⟨_, ⟨finite, rfl⟩, gamma, decrypted, rfl⟩
  have readable := readSignature_eq_some_iff.mpr ⟨finite, rfl⟩
  exact ⟨gamma, ⟨by rw [readable]; rfl, decrypted, accepted, releases⟩, rfl⟩

theorem point_ne_zero_of_checkShare {share : PuzzleShare E C}
    (accepted : (checkShare setup share).isSome) : share.randomized.point ≠ 0 := by
  rcases Option.isSome_iff_exists.mp accepted with ⟨checked, accepted⟩
  simp only [checkShare, Option.bind_eq_bind, Option.bind_eq_some_iff,
    readPuzzle_eq_some_iff] at accepted
  rcases accepted with ⟨_, ⟨finite, -⟩, -⟩
  exact finite

/-- The handler settles exactly the messages that it can read and whose puzzle it accepts. The
verdict on the signature is not among the conditions. -/
theorem Tumbler.handlePaymentInit_cases (setup : Setup q E C) (replies : PaymentReplies)
    (state : TumblerState E) (received : PaymentMessage E C) :
    (∃ message verdict, Tumbler.handlePaymentInit setup replies state received =
        state.settle replies verdict message ∧
      Tumbler.packFirstMessage setup state.tumblerClSk received.toPaymentInit = some message) ∨
    (¬(Tumbler.handlePaymentInit setup replies state received).Proceeds ∧
      Tumbler.packFirstMessage setup state.tumblerClSk received.toPaymentInit = none) := by
  unfold handlePaymentInit packFirstMessage paymentInitHandler
  cases signature : readSignature received.sigmaHatS with
  | none => simp [Handled.Proceeds]
  | some presignature =>
    cases decrypted : setup.params.clDec received.share.randomized.ctx state.tumblerClSk with
    | none => simp [Handled.Proceeds]
    | some gamma =>
      cases checked : checkShare setup received.share with
      | none =>
        right
        cases point : readPoint received.share.randomized.point <;>
          simp [Handled.Proceeds, PaymentAction.Pays]
      | some randomized =>
        left
        have finite := point_ne_zero_of_checkShare (by rw [checked]; rfl)
        have unchanged := (readSignature_eq_some_iff.mp signature).2
        exact ⟨_, _, by simp [readPoint, finite, unchanged]; rfl, rfl⟩

theorem Tumbler.proceeds_handlePaymentInit_iff {replies : PaymentReplies}
    {received : PaymentMessage E C} :
    (Tumbler.handlePaymentInit setup replies state received).Proceeds ↔
      ∃ done, Tumbler.paymentInitHandler setup state.tumblerClSk received.toPaymentInit =
        some done ∧ state.Releases done := by
  rcases handlePaymentInit_cases setup replies state received with
    ⟨message, verdict, handled, packed⟩ | ⟨stops, packed⟩
  · simp only [packFirstMessage, Option.bind_eq_bind, Option.pure_def, Option.bind_eq_some_iff,
      Option.some.injEq] at packed
    rcases packed with ⟨done, answered, rfl⟩
    rw [handled, TumblerState.proceeds_settle_iff]
    simp [answered]
  · simp only [packFirstMessage, Option.bind_eq_bind, Option.pure_def, Option.bind_eq_none_iff,
      reduceCtorEq, imp_false] at packed
    simp [stops, packed]

/-- The handler pays for a message only if the signature that it obtains is one by Alice on the
transaction. -/
def Tumbler.PaysOnlyValid (setup : Setup q E C) (replies : PaymentReplies)
    (state : TumblerState E) (received : PaymentMessage E C) : Prop :=
  (Tumbler.handlePaymentInit setup replies state received).Proceeds →
    ∃ done, Tumbler.adaptSignature setup state.tumblerClSk received.toPaymentInit = some done ∧
      state.ValidSignature setup.curve done

end Tumbler

/-! ### Undisturbed runs -/

section Honest

variable [CommGroup C] [DecidableEq E] [DecidableEq C] {setup : Setup q E C}
  {inputs : RunInputs q} {message : FirstMessage E C}

theorem paymentInit_of_filedMessage (filed : filedMessage setup inputs = some message) :
    ∃ puzzle state, Alice.paymentInit setup inputs.aliceEcSk inputs.aliceMessage puzzle
        inputs.alice inputs.aliceSigning =
          some (state, { sigmaHatS := message.presignature, share := message.share }) ∧
      Tumbler.paymentInitHandler setup inputs.tumblerClSk
        { sigmaHatS := message.presignature, share := message.share } = some message.signature := by
  simp only [filedMessage, Tumbler.packFirstMessage, Option.bind_eq_bind, Option.pure_def,
    Option.bind_eq_some_iff, Option.some.injEq, Prod.exists] at filed
  rcases filed with ⟨_, -, _, -, _, _, -, puzzle, -, state, init, initiated, done, answered, rfl⟩
  exact ⟨puzzle, state, initiated, answered⟩

omit [DecidableEq E] [DecidableEq C] in
theorem paymentInit_eq_some {ecSk : ℕ} {text : Bytes} {puzzle : Puzzle E C}
    {coins : RandomizerCoins q} {signing : SigningCoins q} {state : AliceState E C}
    {init : PaymentInit E C}
    (initiated : Alice.paymentInit setup ecSk text puzzle coins signing = some (state, init)) :
    state.puzzle = init.share.randomized ∧ state.tau = coins.scalar % q ∧
      state.sigmaHatS = init.sigmaHatS ∧
      setup.curve.adaptorEcdsaSign text init.share.randomized.point ecSk signing.nonces
        signing.proofNonce = some init.sigmaHatS := by
  simp only [Alice.paymentInit, Option.bind_eq_bind, Option.pure_def, Option.bind_eq_some_iff,
    Option.some.injEq, Prod.mk.injEq] at initiated
  rcases initiated with ⟨share, -, sigmaHatS, signed, rfl, rfl⟩
  exact ⟨rfl, rfl, rfl, signed⟩

theorem clDec_ctx (assumptions : RunAssumptions setup inputs)
    (filed : filedMessage setup inputs = some message) :
    setup.params.clDec message.share.randomized.ctx inputs.tumblerClSk =
      some ((inputs.tumbler.alpha + inputs.bob.scalar + inputs.alice.scalar) % q) :=
  setup.clDec_randomized assumptions.homomorphic assumptions.tumblerClPk
    (filedMessage_eq_some filed).1.ctx assumptions.solution_ne_zero

theorem solution_smul_gen (filed : filedMessage setup inputs = some message) :
    ((inputs.tumbler.alpha + inputs.bob.scalar + inputs.alice.scalar) % q) • setup.curve.gen =
      message.share.randomized.point := by
  rw [(filedMessage_eq_some filed).1.point]
  simp only [← Nat.cast_smul_eq_nsmul (ZMod q), ZMod.natCast_mod, Nat.cast_add]

theorem signature_of_filedMessage (assumptions : RunAssumptions setup inputs)
    (filed : filedMessage setup inputs = some message) :
    message.signature =
      ⟨message.presignature.r, message.presignature.s *
        modInv ((inputs.tumbler.alpha + inputs.bob.scalar + inputs.alice.scalar) % q) q % q⟩ := by
  rcases paymentInit_of_filedMessage filed with ⟨_, _, -, answered⟩
  have adapted := (Tumbler.paymentInitHandler_eq_some_iff.mp answered).1
  simp only [Tumbler.adaptSignature, Option.bind_eq_bind, Option.pure_def, Option.bind_eq_some_iff,
    Option.some.injEq, readSignature_eq_some_iff, clDec_ctx assumptions filed] at adapted
  rcases adapted with ⟨_, ⟨-, rfl⟩, gamma, rfl, completed⟩
  exact completed.symm

variable [Fact q.Prime]

theorem ecdsaVer_of_filedMessage (assumptions : RunAssumptions setup inputs)
    (filed : filedMessage setup inputs = some message)
    (signs : setup.curve.SignsMessage message.share.randomized.point inputs.aliceEcSk
      inputs.aliceMessage inputs.aliceSigning.nonces) :
    setup.curve.ecdsaVer message.signature.r message.signature.s inputs.aliceMessage
      (inputs.aliceEcSk • setup.curve.gen) = true := by
  rcases paymentInit_of_filedMessage filed with ⟨puzzle, state, initiated, -⟩
  have signed := (paymentInit_eq_some initiated).2.2.2
  have point := solution_smul_gen filed
  have gammaNonzero := natCast_ne_zero_iff.mpr assumptions.solution_ne_zero
  rw [← ZMod.natCast_mod] at gammaNonzero
  simp only [Curve.adaptorEcdsaSign, Option.map_eq_some_iff] at signed
  rcases signed with ⟨⟨k, r, e, s⟩, loop, presignature⟩
  rw [← point] at loop signs
  rw [signature_of_filedMessage assumptions filed, ← presignature]
  apply (setup.curve.ecdsaVer_completed_iff gammaNonzero _ loop).mpr signs
  intro nonce member
  have range := inputs.aliceSigning.nonces_range nonce member
  exact natCast_ne_zero_of_lt range.1.ne' range.2

theorem signsMessage_of_filedMessage (unobstructed : Unobstructed setup inputs)
    (filed : filedMessage setup inputs = some message) :
    setup.curve.SignsMessage message.share.randomized.point inputs.aliceEcSk inputs.aliceMessage
      inputs.aliceSigning.nonces := by
  rcases filedMessage_eq_some filed with ⟨hides, checked⟩
  have finite := point_ne_zero_of_checkShare (Option.isSome_iff_exists.mpr ⟨_, checked⟩)
  have accepts := unobstructed.aliceSigning
  rw [← add_smul, ← add_smul, ← hides.point] at accepts
  exact accepts.signsMessage finite

theorem isSolution_of_filedMessage {state : AliceState E C}
    (assumptions : RunAssumptions setup inputs) (filed : filedMessage setup inputs = some message)
    (puzzle : state.puzzle = message.share.randomized)
    (presignature : state.sigmaHatS = message.presignature) :
    state.IsSolution setup.curve (state.extracted q message.signature) := by
  rcases paymentInit_of_filedMessage filed with ⟨_, _, initiated, -⟩
  have component := setup.curve.adaptorEcdsaSign_s_ne_zero (paymentInit_eq_some initiated).2.2.2
  have gammaNonzero := natCast_ne_zero_iff.mpr assumptions.solution_ne_zero
  rw [← ZMod.natCast_mod] at gammaNonzero
  rw [AliceState.IsSolution, AliceState.extracted, puzzle, presignature,
    signature_of_filedMessage assumptions filed, ← solution_smul_gen filed,
    ← Nat.cast_smul_eq_nsmul (ZMod q), natCast_extracted component gammaNonzero,
    Nat.cast_smul_eq_nsmul]

end Honest

/-! ### Samples -/

section Samples

theorem sample_filedMessage :
    ∃ message, filedMessage sampleSetup (sampleInputs 2 3) = some message := by
  rcases honestRun_isSome sample_assumptions_two_three sample_unobstructed_two_three with
    ⟨bob, run⟩
  exact filedMessage_of_honestRun run

theorem sample_solution : ((sampleInputs 2 3).tumbler.alpha + (sampleInputs 2 3).bob.scalar +
    (sampleInputs 2 3).alice.scalar) % secp256k1Order = 6 :=
  Nat.mod_eq_of_lt (by norm_num [secp256k1Order] : 6 < secp256k1Order)

theorem sample_point {message : FirstMessage (ZMod secp256k1Order)
      (Multiplicative (ZMod secp256k1Order × ℤ))}
    (filed : filedMessage sampleSetup (sampleInputs 2 3) = some message) :
    message.share.randomized.point = 6 := by
  have point := solution_smul_gen filed
  rw [sample_solution] at point
  simpa [sampleSetup, sampleCurve, PrimeOrderGroup.residues] using point.symm

def sampleText : Bytes :=
  ascii ['0', 'x'] ++ (List.replicate 32 (ascii ['0', '1'])).flatten

def sampleTumbler : TumblerState (ZMod secp256k1Order) where
  tumblerClSk := 1
  aliceEcPk := 1 • sampleCurve.gen
  aliceEscrowId := sampleText
  aliceEscrowTxHash := sampleText

theorem sampleTumbler_transaction : sampleTumbler.transaction = some (List.replicate 64 1) := by
  decide +kernel

theorem sampleTumbler_release : sampleTumbler.releaseEscrowForAlice
      (C := Multiplicative (ZMod secp256k1Order × ℤ)) ⟨0, true⟩ ⟨1, modInv 6 secp256k1Order⟩ =
    some ([.confirmEscrow sampleText ⟨1, modInv 6 secp256k1Order⟩], 0) := by
  have bound : modInv 6 secp256k1Order < secp256k1Order := modInv_lt (modulus_pos _) 6
  have small : secp256k1Order < 256 ^ 32 := by norm_num [secp256k1Order]
  have sixNonzero : ((6 : ℕ) : ZMod secp256k1Order) ≠ 0 := by decide
  have nonzero : modInv 6 secp256k1Order ≠ 0 := by
    intro vanishes
    have inverse := natCast_modInv sixNonzero
    rw [vanishes, Nat.cast_zero] at inverse
    exact inv_ne_zero sixNonzero inverse.symm
  simp only [TumblerState.releaseEscrowForAlice, sampleTumbler_transaction]
  rw [if_neg (by simp [nonzero]), if_neg (by
    simp only [not_or, not_le]
    exact ⟨by norm_num, bound.trans small⟩)]
  rfl

theorem sampleCurve_getX_mod_ne_one (point : ZMod secp256k1Order) :
    sampleCurve.getX point % secp256k1Order ≠ 1 := by
  simp only [sampleCurve]
  split_ifs <;> norm_num [secp256k1Order]

def forgedSignature : AdaptorSignature (ZMod secp256k1Order) where
  r := 1
  s := 1
  R := 1
  pi := { a := 1, b := 1, z := 0 }

theorem ecdsaVer_forged (s : ℕ) (text : Bytes) (pk : ZMod secp256k1Order) :
    sampleCurve.ecdsaVer 1 s text pk = false := by
  simp only [Curve.ecdsaVer, sampleCurve_getX_mod_ne_one, decide_false, Bool.false_and, ite_self]

end Samples

/-! ### What the handlers check -/

section Results

variable [DecidableEq E]

/-- Alice's handler succeeds on any reply. So she believes only solutions exactly if the extracted
scalar is one. -/
theorem alice_believes_only_solutions_iff [Fact q.Prime] (curve : Curve q E)
    (state : AliceState E C) (done : PaymentDone) (idle : ℕ) (later : List (Option PaymentDone)) :
    (BelievesOnlySolutions curve state done (List.replicate idle none ++ some done :: later) ↔
        state.IsSolution curve (state.extracted q done)) ∧
      (Alice.handlePaymentDone curve (.waiting state) done).1 = .ok ∧
      Alice.solutionForBob curve (.waiting state)
          (List.replicate idle none ++ some done :: later) =
        some (state.extracted q done * modInv state.tau q % q) ∧
      (done.s % q ≠ 0 → (state.IsSolution curve (state.extracted q done) ↔
        done.s • state.puzzle.point = state.sigmaHatS.s • curve.gen)) := by
  refine ⟨⟨fun believes => believes.believed rfl rfl, fun solution => ?_⟩, rfl,
    Alice.solutionForBob_reply curve state done idle later, AliceState.isSolution_extracted_iff⟩
  exact ⟨fun _ _ => solution, fun wrong => absurd solution wrong⟩

theorem alice_believes_reply :
    ∃ message puzzle state init,
      Alice.paymentInit sampleSetup 1 (List.replicate 64 1) puzzle (sampleRandomizer 3)
          sampleSigning = some (state, init) ∧
        Tumbler.paymentInitHandler sampleSetup 1 init = some message ∧
        BelievesOnlySolutions sampleCurve state message [none, some message] := by
  rcases sample_filedMessage with ⟨message, filed⟩
  rcases paymentInit_of_filedMessage filed with ⟨puzzle, state, initiated, answered⟩
  rcases paymentInit_eq_some initiated with ⟨paidFor, -, presignature, -⟩
  refine ⟨message.signature, puzzle, state, _, initiated, answered, ?_⟩
  have solution := isSolution_of_filedMessage sample_assumptions_two_three filed paidFor
    presignature
  exact (alice_believes_only_solutions_iff sampleCurve state message.signature 1 []).1.mpr solution

/-- The Tumbler sends her pre-signature back to Alice. -/
theorem alice_believes_own_presignature :
    ∃ puzzle state init,
      Alice.paymentInit sampleSetup 1 (List.replicate 64 1) puzzle (sampleRandomizer 3)
          sampleSigning = some (state, init) ∧
        let done : PaymentDone := ⟨init.sigmaHatS.r, init.sigmaHatS.s⟩
        (Alice.handlePaymentDone sampleCurve (.waiting state) done).1 = .ok ∧
        (Alice.handlePaymentDone sampleCurve (.waiting state) done).2.puzzleSolved = true ∧
        ¬state.IsSolution sampleCurve (state.extracted secp256k1Order done) ∧
        Alice.solutionForBob sampleCurve (.waiting state) [some done] =
          some (modInv 3 secp256k1Order) := by
  rcases sample_filedMessage with ⟨message, filed⟩
  rcases paymentInit_of_filedMessage filed with ⟨puzzle, state, initiated, -⟩
  rcases paymentInit_eq_some initiated with ⟨paidFor, tau, presignature, signed⟩
  have component : (message.presignature.s : ZMod secp256k1Order) ≠ 0 :=
    sampleCurve.adaptorEcdsaSign_s_ne_zero signed
  have extracted : state.extracted secp256k1Order
      ⟨message.presignature.r, message.presignature.s⟩ = 1 := by
    apply eq_of_natCast_eq (Nat.mod_lt _ (modulus_pos _)) one_lt_secp256k1Order
    rw [presignature, ZMod.natCast_mod, Nat.cast_mul, natCast_modInv component,
      inv_mul_cancel₀ component, Nat.cast_one]
  refine ⟨puzzle, state, _, initiated, rfl, rfl, ?_, ?_⟩
  · rw [extracted, AliceState.IsSolution, paidFor, sample_point filed]
    decide
  · have handed := Alice.solutionForBob_reply sampleCurve state
      ⟨message.presignature.r, message.presignature.s⟩ 0 []
    have three : state.tau = 3 := by
      rw [tau]
      exact Nat.mod_eq_of_lt (by norm_num [secp256k1Order] : 3 < secp256k1Order)
    rw [extracted, three, one_mul, Nat.mod_eq_of_lt (modInv_lt (modulus_pos _) 3)] at handed
    exact handed

variable [CommGroup C] [DecidableEq C]

/-- The Tumbler pays only for valid signatures exactly if every message that passes the other checks
happens to contain one. -/
theorem tumbler_pays_only_valid_iff (setup : Setup q E C) (replies : PaymentReplies)
    (state : TumblerState E) (received : PaymentMessage E C) :
    (Tumbler.PaysOnlyValid setup replies state received ↔
      ∀ gamma, Tumbler.Passes setup state received.toPaymentInit gamma →
        state.ValidSignature setup.curve (received.adapted q gamma)) ∧
    ∀ gamma, Tumbler.Passes setup state received.toPaymentInit gamma →
      let done := received.adapted q gamma
      let actions := (Tumbler.handlePaymentInit setup replies state received).actions
      .sendPaymentDone done ∈ actions ∧
        (replies.sharesCreated = true →
          .fileShares state.aliceEscrowTxHash
            { share := received.share, presignature := received.sigmaHatS, signature := done } ∈
              actions) := by
  refine ⟨⟨?_, ?_⟩, ?_⟩
  · intro onlyValid gamma passes
    rcases onlyValid (Tumbler.proceeds_handlePaymentInit_iff.mpr
      ⟨_, passes.answered, passes.releases⟩) with ⟨adapted, adaptation, valid⟩
    have same := (Tumbler.paymentInitHandler_eq_some_iff.mp passes.answered).1
    rw [adaptation, Option.some.injEq] at same
    rwa [← same]
  · intro happens proceeds
    rcases Tumbler.proceeds_handlePaymentInit_iff.mp proceeds with ⟨done, answered, releases⟩
    rcases Tumbler.exists_passes answered releases with ⟨gamma, passes, rfl⟩
    exact ⟨_, (Tumbler.paymentInitHandler_eq_some_iff.mp answered).1, happens gamma passes⟩
  · intro gamma passes
    rcases Tumbler.handlePaymentInit_cases setup replies state received with
      ⟨message, verdict, handled, packed⟩ | ⟨-, packed⟩
    · simp only [Tumbler.packFirstMessage, passes.answered, Option.bind_eq_bind, Option.bind_some,
        Option.pure_def, Option.some.injEq] at packed
      subst packed
      rw [handled]
      exact TumblerState.mem_actions_settle passes.releases
    · simp [Tumbler.packFirstMessage, passes.answered] at packed

theorem tumbler_pays_sample :
    ∃ message : FirstMessage (ZMod secp256k1Order) (Multiplicative (ZMod secp256k1Order × ℤ)),
      let received : PaymentMessage _ _ :=
        { sigmaHatS := message.presignature, share := message.share, txLen := 1 }
      (Tumbler.handlePaymentInit sampleSetup ⟨0, true⟩ sampleTumbler received).Proceeds ∧
        Tumbler.PaysOnlyValid sampleSetup ⟨0, true⟩ sampleTumbler received := by
  rcases sample_filedMessage with ⟨message, filed⟩
  rcases paymentInit_of_filedMessage filed with ⟨_, _, -, answered⟩
  have signs := signsMessage_of_filedMessage sample_unobstructed_two_three filed
  have verified := ecdsaVer_of_filedMessage sample_assumptions_two_three filed signs
  have valid : sampleTumbler.ValidSignature sampleCurve message.signature := by
    refine ⟨List.replicate 64 1, sampleTumbler_transaction, ?_⟩
    exact verified
  have releases := valid.releases (by norm_num [secp256k1Order])
  refine ⟨message, Tumbler.proceeds_handlePaymentInit_iff.mpr ⟨_, answered, releases⟩, ?_⟩
  apply (tumbler_pays_only_valid_iff sampleSetup ⟨0, true⟩ sampleTumbler _).1.mpr
  intro gamma passes
  have same := answered.symm.trans passes.answered
  rw [Option.some.injEq] at same
  exact same ▸ valid

/-- The pre-signature is made up, everything else is from an honest run. -/
theorem tumbler_pays_forged :
    ∃ message, filedMessage sampleSetup (sampleInputs 2 3) = some message ∧
      let done : PaymentDone := ⟨1, modInv 6 secp256k1Order⟩
      let received : PaymentMessage _ _ :=
        { sigmaHatS := forgedSignature, share := message.share, txLen := 1 }
      Tumbler.adaptSignature sampleSetup 1 received.toPaymentInit = some done ∧
        ¬sampleTumbler.ValidSignature sampleCurve done ∧
        Tumbler.handlePaymentInit sampleSetup ⟨0, true⟩ sampleTumbler received =
          ⟨.ok, [.report .failed, .confirmEscrow sampleText done, .reportRelease 0,
            .fileShares sampleText
              { share := message.share, presignature := forgedSignature, signature := done },
            .sendPaymentDone done]⟩ := by
  rcases sample_filedMessage with ⟨message, filed⟩
  have decrypted : sampleSetup.params.clDec message.share.randomized.ctx 1 = some 6 := by
    have decryption := clDec_ctx sample_assumptions_two_three filed
    exact decryption
  have checked := (filedMessage_eq_some filed).2
  have signature : readSignature forgedSignature = some forgedSignature :=
    readSignature_eq_some_iff.mpr ⟨by decide, rfl⟩
  have components : forgedSignature.r = 1 ∧ forgedSignature.s = 1 := ⟨rfl, rfl⟩
  have reduced : modInv 6 secp256k1Order % secp256k1Order = modInv 6 secp256k1Order :=
    Nat.mod_eq_of_lt (modInv_lt (modulus_pos _) 6)
  refine ⟨message, filed, ?_, ?_, ?_⟩
  · simp only [Tumbler.adaptSignature, signature, decrypted, Option.bind_eq_bind,
      Option.bind_some, Option.pure_def, components, one_mul, reduced]
  · rintro ⟨text, -, verified⟩
    rw [ecdsaVer_forged] at verified
    cases verified
  · have point : readPoint message.share.randomized.point = some 6 := by
      rw [sample_point filed]
      exact if_neg (by decide)
    have verdict : sampleTumbler.verify sampleSetup.curve 1 ⟨1, modInv 6 secp256k1Order⟩ =
        .failed := by
      have failed := ecdsaVer_forged (modInv 6 secp256k1Order) (List.replicate 64 1)
        sampleTumbler.aliceEcPk
      simp only [TumblerState.verify, sampleTumbler_transaction, sampleSetup, failed]
      rfl
    have handled : Tumbler.handlePaymentInit sampleSetup ⟨0, true⟩ sampleTumbler
          { sigmaHatS := forgedSignature, share := message.share, txLen := 1 } =
        sampleTumbler.settle ⟨0, true⟩ .failed
          { share := message.share, presignature := forgedSignature
            signature := ⟨1, modInv 6 secp256k1Order⟩ } := by
      have key : sampleTumbler.tumblerClSk = 1 := rfl
      simp only [Tumbler.handlePaymentInit, signature, point, key, decrypted, checked, components,
        one_mul, reduced, verdict]
    rw [handled, TumblerState.settle, sampleTumbler_release]
    rfl

end Results

end TigerMixer.A2L
