import TigerMixer.SecretShare.Reconstruction

/-!
# The distributed key generation

`pedersen_dkg.c`: every participant deals the values of a polynomial to all of them and commits to
its coefficients in the class group, which is an arbitrary commutative group here. `none` as a
commitment is a null pointer, or the integer zero that marks an unset one; `none` as a result is
`RLC_ERR`, or a null pointer that is followed.
-/

namespace TigerMixer.Dkg

universe u

structure Participant (G : Type u) where
  threshold : ℕ
  secretShare : ℕ
  secretPolyCoeffs : ℕ → ℕ
  commitments : ℕ → Option G
  publicKey : Option G
  isInitialized : Bool

/-- `dkg_protocol_st`; the participants are numbered from zero. -/
structure Protocol (G : Type u) where
  participants : ℕ → Option (Participant G)
  nParticipants : ℕ
  threshold : ℕ
  generator : G
  order : ℕ
  isInitialized : Bool

variable {G : Type u}

def Protocol.setParticipant (protocol : Protocol G) (index : ℕ) (participant : Participant G) :
    Protocol G :=
  { protocol with participants := Function.update protocol.participants index (some participant) }

def dkgProtocolInitWithClParams (nParticipants threshold : ℕ) (generator : G) (order : ℕ) :
    Option (Protocol G) :=
  if nParticipants < 2 ∨ threshold < 2 ∨ nParticipants < threshold then none
  else some { participants := fun _ => none, nParticipants, threshold, generator, order,
              isInitialized := true }

def dkgAddParticipant (protocol : Protocol G) (participantId : ℕ) : Option (Protocol G) :=
  if ¬protocol.isInitialized ∨ participantId < 1 ∨ protocol.nParticipants < participantId then none
  else if (protocol.participants (participantId - 1)).isSome then some protocol
  else
    some <| protocol.setParticipant (participantId - 1)
      { threshold := protocol.threshold, secretShare := 0, secretPolyCoeffs := fun _ => 0,
        commitments := fun _ => none, publicKey := none, isInitialized := true }

/-- Horner's rule for the value at `x`, reducing after every step. -/
def computeShare (order threshold : ℕ) (coeffs : ℕ → ℕ) (x : ℕ) : ℕ :=
  (List.range (threshold - 1)).foldr (fun k share => (share * x + coeffs k) % order)
    (coeffs (threshold - 1))

def dkgSelfVerifyShare (participant : Participant G) (verifierId computedShare order : ℕ) : Bool :=
  participant.isInitialized ∧ computedShare =
    computeShare order participant.threshold participant.secretPolyCoeffs verifierId

section Group

variable [CommGroup G] [DecidableEq G]

def Participant.withPolynomial (participant : Participant G) (generator : G) (drawn : ℕ → ℕ) :
    Participant G :=
  { participant with
    secretPolyCoeffs := fun k =>
      if k < participant.threshold then drawn k else participant.secretPolyCoeffs k
    commitments := fun k =>
      if k < participant.threshold then some (generator ^ drawn k) else participant.commitments k }

/-- `dkg_generate_polynomial_commitments_and_shares` with the coefficients that it draws, which are
from 1 to 10. -/
def dkgGeneratePolynomialCommitmentsAndShares (protocol : Protocol G) (participantId : ℕ)
    (drawn : ℕ → ℕ) : Option (Protocol G × (ℕ → ℕ)) :=
  if participantId < 1 ∨ protocol.nParticipants < participantId then none
  else do
    let participant ← protocol.participants (participantId - 1)
    if ¬participant.isInitialized then none
    else
      let participant := participant.withPolynomial protocol.generator drawn
      let computedShares :=
        computeShare protocol.order participant.threshold participant.secretPolyCoeffs
      if participant.commitments 0 ≠
          some (protocol.generator ^ participant.secretPolyCoeffs 0) then none
      else if ∀ j ∈ List.range' 1 protocol.nParticipants,
          dkgSelfVerifyShare participant j (computedShares j) protocol.order then
        some (protocol.setParticipant (participantId - 1) participant, computedShares)
      else none

/-- The product of the first commitments, each to the power `verifierId ^ k` modulo the order. -/
def rightSide (order verifierId : ℕ) (commitments : ℕ → Option G) : ℕ → Option G
  | 0 => some 1
  | k + 1 => do
      let right ← rightSide order verifierId commitments k
      let commitment ← commitments k
      return right * commitment ^ (verifierId ^ k % order)

def dkgVerifyShare (protocol : Protocol G) (verifierId senderId receivedShare : ℕ) : Bool :=
  if verifierId < 1 ∨ protocol.nParticipants < verifierId ∨ senderId < 1 ∨
      protocol.nParticipants < senderId then false
  else
    match protocol.participants (senderId - 1) with
    | none => false
    | some sender =>
      if ¬sender.isInitialized then false
      else
        match rightSide protocol.order verifierId sender.commitments sender.threshold with
        | none => false
        | some right => decide (protocol.generator ^ receivedShare = right)

def accumulatePublicKey (protocol : Protocol G) (key : Option G) (i : ℕ) : Option (Option G) :=
  match protocol.participants i with
  | none => some key
  | some participant =>
    if participant.isInitialized then do
      let commitment ← participant.commitments 0
      match key with
      | none => some (some commitment)
      | some key => some (some (key * commitment))
    else some key

def Protocol.setPublicKey (protocol : Protocol G) (publicKey : G) : Protocol G :=
  { protocol with
    participants := fun i =>
      if i < protocol.nParticipants then
        (protocol.participants i).map fun participant =>
          { participant with publicKey := some publicKey }
      else protocol.participants i }

def dkgGeneratePublicKey (protocol : Protocol G) : Option (Protocol G) :=
  if ¬protocol.isInitialized then none
  else do
    let key ← (List.range protocol.nParticipants).foldlM (accumulatePublicKey protocol) none
    let publicKey ← key
    some (protocol.setPublicKey publicKey)

end Group

section Reconstruct

open SecretShare

def lagrangeFactor (order : ℕ) (xi xj : ℤ) : ℕ :=
  let negXj : ℤ := order - digit xj
  let denominator : ℤ := if xj < xi then digit (xi - xj) else order - digit (xj - xi)
  (negXj * modInv (denominator % order).toNat order % order).toNat

def lagrangeCoeff (order : ℕ) (participantIds : ℕ → ℤ) (numParticipants i : ℕ) : ℕ :=
  (List.range numParticipants).foldl (fun coeff j =>
    if i = j then coeff
    else coeff * lagrangeFactor order (participantIds i) (participantIds j) % order) 1

def dkgReconstructSecretFromShares (participantIds : ℕ → ℤ) (shares : ℕ → ℕ)
    (numParticipants order : ℕ) : Option ℕ :=
  if numParticipants < 2 then none
  else some ((List.range numParticipants).foldl (fun key i =>
    (key + shares i * lagrangeCoeff order participantIds numParticipants i % order) % order) 0)

end Reconstruct

end TigerMixer.Dkg
