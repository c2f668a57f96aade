import TigerMixer.Escrow.Settlement

/-!
# Authorisation of releases

`confirm` takes the two signer addresses from its caller and never compares them with the recorded
parties or their keys. The signatures are the parties' own exactly if the caller passed the parties'
addresses, or those of their recorded keys.
-/

namespace TigerMixer.Escrow

open Calls

structure SignedBy (primitives : Primitives) (message : Bytes) (signature : Signature)
    (signer : Address) : Prop where
  signer_ne_zero : signer ≠ 0
  v_eq : signature.v = 27 ∨ signature.v = 28
  r_ne_zero : signature.r ≠ 0
  s_ne_zero : signature.s ≠ 0
  s_le : signature.s ≤ maxS
  recovers : primitives.ecrecover (primitives.sha256 message) signature.v signature.r signature.s =
    signer

section Verifier

variable {primitives : Primitives} {message : Bytes} {signature : Signature}
  {signer signer' : Address}

theorem verifyAliceSignature_eq_true_iff :
    verifyAliceSignature primitives message signature signer = some true ↔
      SignedBy primitives message signature signer := by
  rw [verifyAliceSignature, verifySignature_eq_true_iff]
  constructor
  · rintro ⟨nonzero, v, r, s, low, recovers⟩
    exact ⟨nonzero, v, r, s, low, recovers⟩
  · rintro ⟨nonzero, v, r, s, low, recovers⟩
    exact ⟨nonzero, v, r, s, low, recovers⟩

theorem SignedBy.signer_unique (signed : SignedBy primitives message signature signer)
    (signed' : SignedBy primitives message signature signer') : signer = signer' :=
  signed.recovers.symm.trans signed'.recovers

end Verifier

def ConfirmArgs.CarriesSignatures (primitives : Primitives) (args : ConfirmArgs) (message : Bytes)
    (signer signer' : Address) : Prop :=
  (∃ signature ∈ [args.signature1, args.signature2], SignedBy primitives message signature signer) ∧
    ∃ signature ∈ [args.signature1, args.signature2], SignedBy primitives message signature signer'

/-- Both parties, or the holders of both recorded keys, signed the escrow id and its data hash.
`keyOwner` is the address of a public key. -/
def Authorised (primitives : Primitives) (keyOwner : Bytes → Address) (args : ConfirmArgs)
    (record : EscrowRecord) : Prop :=
  let message := signedMessage args.escrowId record.dataHash
  args.CarriesSignatures primitives message record.party1 record.party2 ∨
    args.CarriesSignatures primitives message (keyOwner record.party1Key)
      (keyOwner record.party2Key)

def ConfirmArgs.Names (args : ConfirmArgs) (address address' : Address) : Prop :=
  address ∈ [args.party1Address, args.party2Address] ∧
    address' ∈ [args.party1Address, args.party2Address]

section Confirm

variable {primitives : Primitives} {msg : Msg} {args : ConfirmArgs} {state state' : State}
  {environments : Callbacks}

theorem confirm_eq_some
    (returned : ((confirm primitives msg args state).interp environments).final = some state') :
    (state.escrows args.escrowId).dataHash ≠ 0 ∧
      SignedBy primitives (signedMessage (state.escrows args.escrowId).escrowIdCopy
        (state.escrows args.escrowId).dataHash) args.signature1 args.party1Address ∧
      SignedBy primitives (signedMessage (state.escrows args.escrowId).escrowIdCopy
        (state.escrows args.escrowId).dataHash) args.signature2 args.party2Address := by
  simp only [confirm, Prog.interp_require_iff] at returned
  rcases returned with ⟨-, -, -, dataHash, verified1, verified2, -⟩
  exact ⟨dataHash, verifyAliceSignature_eq_true_iff.mp verified1,
    verifyAliceSignature_eq_true_iff.mp verified2⟩

theorem confirm_signed (inv : Inv state)
    (returned : ((confirm primitives msg args state).interp environments).final = some state') :
    let message := signedMessage args.escrowId (state.escrows args.escrowId).dataHash
    SignedBy primitives message args.signature1 args.party1Address ∧
      SignedBy primitives message args.signature2 args.party2Address := by
  rcases confirm_eq_some returned with ⟨dataHash, signed⟩
  have before := inv.record args.escrowId
  have opened : (state.escrows args.escrowId).party1 ≠ 0 := by
    intro unopened
    exact dataHash (before.unopened unopened).2.1
  rwa [before.copy opened] at signed

theorem exists_signedBy_iff {message : Bytes} {signer : Address}
    (signed1 : SignedBy primitives message args.signature1 args.party1Address)
    (signed2 : SignedBy primitives message args.signature2 args.party2Address) :
    (∃ signature ∈ [args.signature1, args.signature2],
        SignedBy primitives message signature signer) ↔
      signer ∈ [args.party1Address, args.party2Address] := by
  simp only [List.mem_cons, List.not_mem_nil, or_false, exists_eq_or_imp, exists_eq_left]
  refine ⟨?_, ?_⟩
  · rintro (signed | signed)
    · exact Or.inl (signed.signer_unique signed1)
    · exact Or.inr (signed.signer_unique signed2)
  · rintro (rfl | rfl)
    · exact Or.inl signed1
    · exact Or.inr signed2

theorem authorised_iff (keyOwner : Bytes → Address) (inv : Inv state)
    (returned : ((confirm primitives msg args state).interp environments).final = some state') :
    Authorised primitives keyOwner args (state.escrows args.escrowId) ↔
      args.Names (state.escrows args.escrowId).party1 (state.escrows args.escrowId).party2 ∨
        args.Names (keyOwner (state.escrows args.escrowId).party1Key)
          (keyOwner (state.escrows args.escrowId).party2Key) := by
  rcases confirm_signed inv returned with ⟨signed1, signed2⟩
  simp only [Authorised, ConfirmArgs.CarriesSignatures, ConfirmArgs.Names,
    exists_signedBy_iff signed1 signed2]

theorem Authorised.mem_own {keyOwner : Bytes → Address} {record : EscrowRecord}
    (authorised : Authorised primitives keyOwner args record) {own : Set Address}
    (signs : ∀ signature ∈ [args.signature1, args.signature2],
      primitives.ecrecover (primitives.sha256 (signedMessage args.escrowId record.dataHash))
        signature.v signature.r signature.s ∈ own) :
    (record.party1 ∈ own ∧ record.party2 ∈ own) ∨
      (keyOwner record.party1Key ∈ own ∧ keyOwner record.party2Key ∈ own) := by
  have held {signer : Address} (carries : ∃ signature ∈ [args.signature1, args.signature2],
      SignedBy primitives (signedMessage args.escrowId record.dataHash) signature signer) :
      signer ∈ own := by
    rcases carries with ⟨signature, member, signed⟩
    have signerOwn := signs signature member
    rwa [signed.recovers] at signerOwn
  rcases authorised with ⟨carries1, carries2⟩ | ⟨carries1, carries2⟩
  · exact Or.inl ⟨held carries1, held carries2⟩
  · exact Or.inr ⟨held carries1, held carries2⟩

end Confirm

/-- A confirmation is authorised exactly if the caller named the recorded parties or the holders of
the recorded keys. Only then does a caller who signs alone have to hold the keys of both. -/
theorem confirm_authorised_iff (primitives : Primitives) (keyOwner : Bytes → Address)
    {self denomination verifierAddress levels hasherAddress balance : ℕ} {initial : State}
    (created : State.create self denomination verifierAddress levels hasherAddress balance =
      some initial) (script : Script Call) {state : State}
    (reached : state ∈ (script.run (execute primitives) initial).seen) {msg : Msg}
    {args : ConfirmArgs} {environments : Callbacks} {state' : State}
    (returned : ((confirm primitives msg args state).interp environments).final = some state') :
    (Authorised primitives keyOwner args (state.escrows args.escrowId) ↔
      args.Names (state.escrows args.escrowId).party1 (state.escrows args.escrowId).party2 ∨
        args.Names (keyOwner (state.escrows args.escrowId).party1Key)
          (keyOwner (state.escrows args.escrowId).party2Key)) ∧
    ∀ own : Set Address,
      (∀ signature ∈ [args.signature1, args.signature2],
        primitives.ecrecover (primitives.sha256 (signedMessage args.escrowId
          (state.escrows args.escrowId).dataHash)) signature.v signature.r signature.s ∈ own) →
      (args.Names (state.escrows args.escrowId).party1 (state.escrows args.escrowId).party2 ∨
        args.Names (keyOwner (state.escrows args.escrowId).party1Key)
          (keyOwner (state.escrows args.escrowId).party2Key)) →
      ((state.escrows args.escrowId).party1 ∈ own ∧ (state.escrows args.escrowId).party2 ∈ own) ∨
        (keyOwner (state.escrows args.escrowId).party1Key ∈ own ∧
          keyOwner (state.escrows args.escrowId).party2Key ∈ own) := by
  rcases inv_of_mem_seen primitives script created reached with ⟨inv, -, -⟩
  have characterised := authorised_iff keyOwner inv returned
  refine ⟨characterised, ?_⟩
  intro own signs named
  exact (characterised.mpr named).mem_own signs

section Sample

def sampleKeyOwner (key : Bytes) : Address :=
  if key = publicKey1 then address1 else if key = publicKey2 then address2 else 0

def openedScript : Script Call :=
  .call ⟨⟨address1, 1000, 12⟩, .openEscrow sampleOpening⟩ [] <|
  .call ⟨⟨address2, 0, 13⟩, .setDataHash 1 7⟩ [] <|
  .stop true

def openedState : State :=
  ((openedScript.run (execute samplePrimitives) sampleInitial).final).get (by decide +kernel)

theorem openedState_mem_seen :
    openedState ∈ (openedScript.run (execute samplePrimitives) sampleInitial).seen := by
  simp [openedScript, openedState, Script.run]

def soloConfirmation : ConfirmArgs :=
  { escrowId := 1, signature1 := signatureOf2, signature2 := signatureOf2,
    party1Address := address2, party2Address := address2 }

end Sample

theorem confirm_authorised_both_parties :
    ((confirm samplePrimitives ⟨address2, 0, 14⟩ sampleConfirmation openedState).interp
        ([] : Callbacks)).final.isSome ∧
      Authorised samplePrimitives sampleKeyOwner sampleConfirmation (openedState.escrows 1) := by
  have created : State.create 0xe5c 1000 0xfe 1 0xfd 0 = some sampleInitial := by
    rw [sampleInitial, Option.some_get]
  have returns : ((confirm samplePrimitives ⟨address2, 0, 14⟩ sampleConfirmation
      openedState).interp ([] : Callbacks)).final.isSome := by
    decide +kernel
  refine ⟨returns, ?_⟩
  rcases Option.isSome_iff_exists.mp returns with ⟨state', returned⟩
  apply (confirm_authorised_iff samplePrimitives sampleKeyOwner created openedScript
    openedState_mem_seen returned).1.mpr
  left
  have parties : (openedState.escrows 1).party1 = address1 ∧
      (openedState.escrows 1).party2 = address2 := by
    decide +kernel
  change sampleConfirmation.Names (openedState.escrows 1).party1 (openedState.escrows 1).party2
  rw [parties.1, parties.2]
  simp [ConfirmArgs.Names, sampleConfirmation]

/-- The second party passes its own address and signature twice. -/
theorem party2_confirms_alone :
    openedState ∈ (openedScript.run (execute samplePrimitives) sampleInitial).seen ∧
      (((confirm samplePrimitives ⟨address2, 0, 14⟩ soloConfirmation openedState).interp
        ([] : Callbacks)).final.map fun state => state.payouts 1) =
          some [⟨1, .finalAmount, address2, 1000, 14⟩] ∧
      ¬Authorised samplePrimitives sampleKeyOwner soloConfirmation (openedState.escrows 1) := by
  have record : (openedState.escrows 1).party1 = address1 ∧
      (openedState.escrows 1).party1Key = publicKey1 := by
    decide +kernel
  have owner : sampleKeyOwner publicKey1 = address1 := by
    simp [sampleKeyOwner]
  -- Both signatures recover to `address2`.
  have recovered (message : Bytes) : samplePrimitives.ecrecover (samplePrimitives.sha256 message)
      signatureOf2.v signatureOf2.r signatureOf2.s ≠ address1 := by
    simp [samplePrimitives, signatureOf1, signatureOf2, address1, address2, sampleDigest]
    split_ifs <;> decide
  have unsigned (message : Bytes) : ¬∃ signature ∈ [signatureOf2, signatureOf2],
      SignedBy samplePrimitives message signature address1 := by
    rintro ⟨signature, member, signed⟩
    simp only [List.mem_cons, List.not_mem_nil, or_false, or_self] at member
    subst member
    exact recovered message signed.recovers
  refine ⟨openedState_mem_seen, by decide +kernel, ?_⟩
  rintro (⟨carries, -⟩ | ⟨carries, -⟩)
  · rw [record.1] at carries
    exact unsigned _ carries
  · rw [record.2, owner] at carries
    exact unsigned _ carries

end TigerMixer.Escrow
