import TigerMixer.Puzzle.Correctness

/-!
# Linking the two legs of a payment

The Tumbler files a message with Alice's randomised puzzle under the hash of the escrow transaction,
and a second one under an id that is computed from `alpha` and `r0`. The auditor ciphertext decrypts
to `r0 + beta + tau`, which leaves `alpha - r0` of the puzzle point.
-/

namespace TigerMixer.A2L

open Bytes

def hexByte (byte : UInt8) : Bytes :=
  ascii [Nat.digitChar (byte.toNat / 16), Nat.digitChar (byte.toNat % 16)]

theorem hexByte_injective : Function.Injective hexByte := by
  have digits : ∀ left < 16, ∀ right < 16,
      UInt8.ofNat (Nat.digitChar left).toNat = UInt8.ofNat (Nat.digitChar right).toNat →
        left = right := by
    decide
  intro left right same
  simp only [hexByte, ascii, List.map_cons, List.map_nil, List.cons.injEq, and_true] at same
  have high := digits _ (by have := left.toNat_lt; omega) _ (by have := right.toNat_lt; omega)
    same.1
  have low := digits _ (Nat.mod_lt _ (by decide)) _ (Nat.mod_lt _ (by decide)) same.2
  apply UInt8.toNat.inj
  omega

theorem flatMap_hexByte_injective : Function.Injective (List.flatMap hexByte) := by
  intro left right same
  induction left generalizing right with
  | nil => cases right with
    | nil => rfl
    | cons byte rest => simp [hexByte, ascii] at same
  | cons byte rest ih => cases right with
    | nil => simp [hexByte, ascii] at same
    | cons other others =>
      have parts := List.append_inj same (by simp [hexByte, ascii])
      rw [hexByte_injective parts.1, ih parts.2]

/-- Alice's randomised puzzle with the one it came from, the pre-signature and the completed
signature. -/
structure FirstMessage (E : Type) (C : Type) where
  share : PuzzleShare E C
  presignature : AdaptorSignature E
  signature : PaymentDone

/-- What the auditor keeps of the first message. The scalar `savedR0BetaTau` outlives an audit. -/
structure AuditorState (E : Type) where
  aliceGAbt : Option E
  savedR0BetaTau : Option ℕ
  alicePresig : Option (AdaptorSignature E)
  aliceFinal : Option PaymentDone
  secondMsgid : Option Bytes

def AuditorState.fresh {E : Type} : AuditorState E where
  aliceGAbt := none
  savedR0BetaTau := none
  alicePresig := none
  aliceFinal := none
  secondMsgid := none

variable {q : ℕ} {E : Type} [AddCommGroup E] [Module (ZMod q) E] {C : Type}

def pointMsgid (curve : Curve q E) (point : E) : Bytes :=
  ascii ['0', 'x'] ++ (curve.writeBin point).flatMap hexByte

theorem pointMsgid_inj {curve : Curve q E} (encodes : Function.Injective curve.writeBin)
    {left right : E} : pointMsgid curve left = pointMsgid curve right ↔ left = right := by
  simp only [pointMsgid, List.append_cancel_left_eq]
  exact (flatMap_hexByte_injective.comp encodes).eq_iff

/-- The id under which `bob_confirm_done_handler` files the second message. -/
def Tumbler.bobConfirmMsgid (setup : Setup q E C) (alpha r0 : ℕ) : Bytes :=
  let gAlpha := (alpha % q) • setup.curve.gen
  let gR0 := (r0 % q) • setup.curve.gen
  pointMsgid setup.curve (gAlpha + -gR0)

theorem bobConfirmMsgid_eq (setup : Setup q E C) (alpha r0 : ℕ) :
    Tumbler.bobConfirmMsgid setup alpha r0 =
      pointMsgid setup.curve ((alpha - r0 : ZMod q) • setup.curve.gen) := by
  simp only [Tumbler.bobConfirmMsgid, ← Nat.cast_smul_eq_nsmul (ZMod q), ZMod.natCast_mod,
    ← neg_smul, ← add_smul, sub_eq_add_neg]

variable [CommGroup C] [DecidableEq E] [DecidableEq C]

def Tumbler.packFirstMessage (setup : Setup q E C) (clSk : ℕ) (received : PaymentInit E C) :
    Option (FirstMessage E C) := do
  let signature ← Tumbler.paymentInitHandler setup clSk received
  return { share := received.share, presignature := received.sigmaHatS, signature }

/-- `parse_tumbler_share`. The scalar is decrypted and kept before the proof of the randomisation is
checked; the id needs the proof. -/
def Auditor.parseTumblerShare (setup : Setup q E C) (clSk : ℕ) (state : AuditorState E)
    (message : FirstMessage E C) : AuditorState E :=
  let parsed :=
    { state with
      aliceGAbt := some message.share.randomized.point
      savedR0BetaTau := state.savedR0BetaTau.or
        (setup.params.clDec message.share.randomized.auditorCtx clSk)
      alicePresig := some message.presignature
      aliceFinal := some message.signature }
  match checkShare setup message.share, parsed.savedR0BetaTau with
  | some randomized, some r0BetaTau =>
    let gR0BetaTau := (r0BetaTau % q) • setup.curve.gen
    { parsed with secondMsgid := some (pointMsgid setup.curve (randomized.point + -gR0BetaTau)) }
  | _, _ => parsed

def filedMessage (setup : Setup q E C) (inputs : RunInputs q) : Option (FirstMessage E C) := do
  let promise ← Tumbler.promiseInitHandler setup inputs.tumblerEcSk inputs.tumblerMessage
    inputs.tumbler
  let bob ← Bob.promiseDoneHandler setup inputs.tumblerMessage promise
  let (_, share) ← Bob.puzzleShare setup bob inputs.bob
  let alicePuzzle ← Alice.puzzleShareHandler setup share
  let (_, init) ← Alice.paymentInit setup inputs.aliceEcSk inputs.aliceMessage alicePuzzle
    inputs.alice inputs.aliceSigning
  Tumbler.packFirstMessage setup inputs.tumblerClSk init

structure AuditAssumptions (setup : Setup q E C) (inputs : RunInputs q) (auditorClSk : ℕ) :
    Prop where
  auditorClPk : setup.auditorClPk = setup.params.gq ^ auditorClSk
  homomorphic : setup.params.Homomorphic auditorClSk
  masked_ne_zero : (inputs.tumbler.r0 + inputs.bob.scalar + inputs.alice.scalar) % q ≠ 0

section Audit

variable {setup : Setup q E C} {inputs : RunInputs q} {message : FirstMessage E C}

theorem filedMessage_eq_some (filed : filedMessage setup inputs = some message) :
    message.share.randomized.Hides setup
        (inputs.tumbler.alpha + inputs.bob.scalar % q + inputs.alice.scalar % q)
        (inputs.tumbler.r0 + inputs.bob.scalar % q + inputs.alice.scalar % q) ∧
      checkShare setup message.share = some message.share.randomized := by
  simp only [filedMessage, Bob.puzzleShare, Alice.puzzleShareHandler, Alice.paymentInit,
    Tumbler.packFirstMessage, Tumbler.paymentInitHandler, Option.bind_eq_bind, Option.pure_def,
    Option.bind_eq_some_iff, Option.some.injEq, readSignature_eq_some_iff, Prod.exists,
    Prod.mk.injEq] at filed
  rcases filed with ⟨promise, promised, bob, accepted, _, share, ⟨_, shared, -, rfl⟩,
    alicePuzzle, checked, _, init, ⟨aliceShare, aliceShared, sigmaHatS, -, -, rfl⟩,
    done, ⟨_, -, gamma, -, _, aliceChecked, -⟩, rfl⟩
  have hides := (promise_eq_some promised accepted).1
  have aliceHides := checkShare_eq_some checked ▸ hides.randomize shared
  refine ⟨aliceHides.randomize aliceShared, ?_⟩
  rw [aliceChecked, checkShare_eq_some aliceChecked]

theorem filedMessage_of_honestRun {bob : BobState E C} (run : honestRun setup inputs = some bob) :
    ∃ message, filedMessage setup inputs = some message := by
  simp only [honestRun, Option.bind_eq_bind, Option.pure_def, Option.bind_eq_some_iff,
    Option.some.injEq, Prod.exists] at run
  rcases run with ⟨promise, promised, bob, accepted, _, share, shared, alicePuzzle, checked, _,
    init, initiated, done, completed, -⟩
  simp [filedMessage, promised, accepted, shared, checked, initiated, Tumbler.packFirstMessage,
    completed]

@[simp]
theorem savedR0BetaTau_parseTumblerShare (clSk : ℕ) (state : AuditorState E) :
    (Auditor.parseTumblerShare setup clSk state message).savedR0BetaTau =
      state.savedR0BetaTau.or
        (setup.params.clDec message.share.randomized.auditorCtx clSk) := by
  unfold Auditor.parseTumblerShare
  dsimp only
  split <;> rfl

theorem secondMsgid_parseTumblerShare {clSk scalar : ℕ} {state : AuditorState E}
    (filed : filedMessage setup inputs = some message)
    (held : (Auditor.parseTumblerShare setup clSk state message).savedR0BetaTau = some scalar) :
    (Auditor.parseTumblerShare setup clSk state message).secondMsgid =
      some (pointMsgid setup.curve
        ((inputs.tumbler.alpha + inputs.bob.scalar + inputs.alice.scalar - scalar : ZMod q) •
          setup.curve.gen)) := by
  rcases filedMessage_eq_some filed with ⟨hides, checked⟩
  rw [savedR0BetaTau_parseTumblerShare] at held
  simp only [Auditor.parseTumblerShare, checked, held, hides.point,
    ← Nat.cast_smul_eq_nsmul (ZMod q), Nat.cast_add, ZMod.natCast_mod, ← neg_smul, ← add_smul,
    sub_eq_add_neg]

variable {auditorClSk : ℕ}

theorem clDec_auditorCtx (assumptions : AuditAssumptions setup inputs auditorClSk)
    (filed : filedMessage setup inputs = some message) :
    setup.params.clDec message.share.randomized.auditorCtx auditorClSk =
      some ((inputs.tumbler.r0 + inputs.bob.scalar + inputs.alice.scalar) % q) :=
  setup.clDec_randomized assumptions.homomorphic assumptions.auditorClPk
    (filedMessage_eq_some filed).1.auditorCtx assumptions.masked_ne_zero

variable [Fact q.Prime]

/-- From the first message of any run, a fresh auditor computes the id under which the second one is
filed. Runs in which no party throws file the first one. -/
theorem second_msgid_linked (assumptions : AuditAssumptions setup inputs auditorClSk) :
    (∀ message, filedMessage setup inputs = some message →
      (Auditor.parseTumblerShare setup auditorClSk .fresh message).secondMsgid =
          some (Tumbler.bobConfirmMsgid setup inputs.tumbler.alpha inputs.tumbler.r0) ∧
        Tumbler.bobConfirmMsgid setup inputs.tumbler.alpha inputs.tumbler.r0 =
          pointMsgid setup.curve
            ((inputs.tumbler.alpha - inputs.tumbler.r0 : ZMod q) • setup.curve.gen)) ∧
    (RunAssumptions setup inputs → Unobstructed setup inputs →
      ∃ message, filedMessage setup inputs = some message) := by
  refine ⟨fun message filed => ⟨?_, bobConfirmMsgid_eq _ _ _⟩, fun runs unobstructed => ?_⟩
  · have decrypted := clDec_auditorCtx assumptions filed
    rw [secondMsgid_parseTumblerShare filed (by
      rw [savedR0BetaTau_parseTumblerShare, decrypted]
      rfl), bobConfirmMsgid_eq]
    -- the blinding scalars cancel
    congr 3
    push_cast [ZMod.natCast_mod]
    ring
  · rcases honestRun_isSome runs unobstructed with ⟨bob, run⟩
    exact filedMessage_of_honestRun run

end Audit

section Secp256k1

def linkedInputs : RunInputs secp256k1Order :=
  { sampleInputs 2 3 with
    tumbler :=
      { (sampleInputs 2 3).tumbler with
        r0 := secp256k1Order - 2
        r0_range := by decide } }

theorem second_msgid_linked_three :
    ∃ message, filedMessage sampleSetup linkedInputs = some message ∧
      (Auditor.parseTumblerShare sampleSetup 2 .fresh message).secondMsgid =
        some (pointMsgid sampleCurve 3) := by
  have assumptions : AuditAssumptions sampleSetup linkedInputs 2 :=
    { auditorClPk := rfl
      homomorphic := ClParams.ideal_homomorphic secp256k1Order 2
      masked_ne_zero := by decide }
  have linked := second_msgid_linked assumptions
  rcases linked.2 { sample_assumptions_two_three with } { sample_unobstructed_two_three with } with
    ⟨message, filed⟩
  refine ⟨message, filed, ?_⟩
  have difference : ((linkedInputs.tumbler.alpha : ZMod secp256k1Order) -
      (linkedInputs.tumbler.r0 : ZMod secp256k1Order)) • sampleCurve.gen = 3 := by
    decide
  rw [(linked.1 message filed).1, (linked.1 message filed).2]
  exact congrArg (some ∘ pointMsgid sampleCurve) difference

end Secp256k1

end TigerMixer.A2L
