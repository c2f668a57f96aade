import TigerMixer.Dkg.Protocol

/-!
# When a dealt share passes the verification

A dealer reduces the share modulo the order of the curve; the verifier compares powers in the class
group. An honest share passes if and only if the order of the generator divides the multiple that
the reduction has dropped. Small coefficients are never reduced and always pass.
-/

namespace TigerMixer.Dkg

open Finset

universe u

section Horner

variable {order threshold : ℕ} {coeffs coeffs' : ℕ → ℕ}

/-- The value of the polynomial with every power of the node reduced, as the verifier computes its
exponents. -/
def unreducedShare (order threshold : ℕ) (coeffs : ℕ → ℕ) (x : ℕ) : ℕ :=
  ∑ k ∈ range threshold, coeffs k * (x ^ k % order)

theorem computeShare_congr (positive : 0 < threshold) (x : ℕ)
    (agree : ∀ k < threshold, coeffs k = coeffs' k) :
    computeShare order threshold coeffs x = computeShare order threshold coeffs' x := by
  rw [computeShare, computeShare, agree (threshold - 1) (by omega)]
  apply List.foldr_ext
  intro k member share
  rw [List.mem_range] at member
  rw [agree k (by omega)]

theorem natCast_computeShare (positive : 0 < threshold) (x : ℕ) :
    (computeShare order threshold coeffs x : ZMod order) =
      Interpolation.evaluate threshold (fun k => (coeffs k : ZMod order)) x := by
  rcases Nat.exists_eq_add_of_lt positive with ⟨degree, rfl⟩
  rw [Nat.zero_add, ← Interpolation.foldr_range_horner, List.range_succ, List.foldr_append]
  rw [computeShare, Nat.add_sub_cancel]
  generalize List.range degree = indices
  induction indices with
  | nil => simp
  | cons k rest ih =>
    rw [List.foldr_cons, List.foldr_cons, ← ih]
    simp

theorem computeShare_lt (positive : 0 < threshold) (bounded : ∀ k < threshold, coeffs k < order)
    (x : ℕ) : computeShare order threshold coeffs x < order := by
  have last := bounded (threshold - 1) (by omega)
  rw [computeShare]
  cases List.range (threshold - 1) with
  | nil => exact last
  | cons k rest =>
    rw [List.foldr_cons]
    exact Nat.mod_lt _ (by omega)

theorem computeShare_eq_mod (positive : 0 < threshold)
    (bounded : ∀ k < threshold, coeffs k < order) (x : ℕ) :
    computeShare order threshold coeffs x = unreducedShare order threshold coeffs x % order := by
  have lt := computeShare_lt positive bounded x
  apply eq_of_natCast_eq lt (Nat.mod_lt _ (by omega))
  rw [ZMod.natCast_mod, natCast_computeShare positive]
  simp [unreducedShare, Interpolation.evaluate]

end Horner

section Group

variable {G : Type u} [CommGroup G] [DecidableEq G] {protocol : Protocol G}
  {participant : Participant G}

theorem generate_eq_some (drawn : ℕ → ℕ) {participantId : ℕ} (low : 1 ≤ participantId)
    (high : participantId ≤ protocol.nParticipants)
    (added : protocol.participants (participantId - 1) = some participant)
    (initialized : participant.isInitialized = true) (positive : 0 < participant.threshold) :
    dkgGeneratePolynomialCommitmentsAndShares protocol participantId drawn =
      some (protocol.setParticipant (participantId - 1)
          (participant.withPolynomial protocol.generator drawn),
        computeShare protocol.order participant.threshold
          (participant.withPolynomial protocol.generator drawn).secretPolyCoeffs) := by
  have outside : ¬(participantId < 1 ∨ protocol.nParticipants < participantId) := by omega
  rw [dkgGeneratePolynomialCommitmentsAndShares, if_neg outside, added]
  simp [initialized, positive, dkgSelfVerifyShare, Participant.withPolynomial]

omit [DecidableEq G] in
theorem rightSide_eq {order x : ℕ} {generator : G} {commitments : ℕ → Option G} {coeffs : ℕ → ℕ}
    {count : ℕ} (committed : ∀ k < count, commitments k = some (generator ^ coeffs k)) :
    rightSide order x commitments count =
      some (generator ^ unreducedShare order count coeffs x) := by
  induction count with
  | zero => simp [rightSide, unreducedShare]
  | succ count ih =>
    have earlier := ih fun k bound => committed k (by omega)
    simp [rightSide, earlier, committed count, unreducedShare, sum_range_succ, pow_add, pow_mul]

theorem dkgVerifyShare_eq_true_iff {verifierId senderId share : ℕ} {coeffs : ℕ → ℕ}
    (verifier : 1 ≤ verifierId ∧ verifierId ≤ protocol.nParticipants)
    (sender : 1 ≤ senderId ∧ senderId ≤ protocol.nParticipants)
    (added : protocol.participants (senderId - 1) = some participant)
    (initialized : participant.isInitialized = true) (committed : ∀ k < participant.threshold,
      participant.commitments k = some (protocol.generator ^ coeffs k)) :
    dkgVerifyShare protocol verifierId senderId share = true ↔
      protocol.generator ^ share = protocol.generator ^
        unreducedShare protocol.order participant.threshold coeffs verifierId := by
  have inside : ¬(verifierId < 1 ∨ protocol.nParticipants < verifierId ∨ senderId < 1 ∨
      protocol.nParticipants < senderId) := by omega
  rw [dkgVerifyShare, if_neg inside, added]
  simp [initialized, rightSide_eq committed]

omit [DecidableEq G] in
theorem pow_mod_eq_iff {generator : G} {order value : ℕ} :
    generator ^ (value % order) = generator ^ value ↔
      orderOf generator ∣ order * (value / order) := by
  rw [pow_eq_pow_iff_modEq, Nat.modEq_iff_dvd' (Nat.mod_le _ _)]
  have split := Nat.mod_add_div value order
  rw [show value - value % order = order * (value / order) by omega]

theorem verify_generated_iff {drawn : ℕ → ℕ} {senderId verifierId : ℕ}
    (sender : 1 ≤ senderId ∧ senderId ≤ protocol.nParticipants)
    (added : protocol.participants (senderId - 1) = some participant)
    (initialized : participant.isInitialized = true) (positive : 0 < participant.threshold)
    (bounded : ∀ k < participant.threshold, drawn k < protocol.order) {protocol' : Protocol G}
    {shares : ℕ → ℕ}
    (generated : dkgGeneratePolynomialCommitmentsAndShares protocol senderId drawn =
      some (protocol', shares)) (verifier : 1 ≤ verifierId ∧ verifierId ≤ protocol.nParticipants) :
    dkgVerifyShare protocol' verifierId senderId (shares verifierId) = true ↔
      orderOf protocol.generator ∣ protocol.order *
        (unreducedShare protocol.order participant.threshold drawn verifierId /
          protocol.order) := by
  rw [generate_eq_some drawn sender.1 sender.2 added initialized positive, Option.some.injEq,
    Prod.mk.injEq] at generated
  rcases generated with ⟨rfl, rfl⟩
  have share : computeShare protocol.order participant.threshold
      (participant.withPolynomial protocol.generator drawn).secretPolyCoeffs verifierId =
        unreducedShare protocol.order participant.threshold drawn verifierId %
          protocol.order := by
    rw [← computeShare_eq_mod positive bounded]
    apply computeShare_congr positive
    intro k bound
    simp [Participant.withPolynomial, bound]
  have stored : (protocol.setParticipant (senderId - 1)
      (participant.withPolynomial protocol.generator drawn)).participants (senderId - 1) =
        some (participant.withPolynomial protocol.generator drawn) := by
    simp [Protocol.setParticipant]
  have committed : ∀ k < participant.threshold,
      (participant.withPolynomial protocol.generator drawn).commitments k =
        some (protocol.generator ^ drawn k) :=
    fun k bound => if_pos bound
  rw [share, ← pow_mod_eq_iff]
  exact Iff.trans (dkgVerifyShare_eq_true_iff verifier sender stored initialized committed) Iff.rfl

/-- The share that an honest dealer computes for a participant is accepted exactly if what the
reduction has dropped is a multiple of the order of the generator. -/
theorem verification_complete_iff (protocol : Protocol G) {participant : Participant G}
    {senderId : ℕ} (sender : 1 ≤ senderId ∧ senderId ≤ protocol.nParticipants)
    (added : protocol.participants (senderId - 1) = some participant)
    (initialized : participant.isInitialized = true) (positive : 0 < participant.threshold)
    (drawn : ℕ → ℕ) (bounded : ∀ k < participant.threshold, drawn k < protocol.order) :
    ∃ protocol' shares,
      dkgGeneratePolynomialCommitmentsAndShares protocol senderId drawn = some (protocol', shares) ∧
      ∀ verifierId, 1 ≤ verifierId → verifierId ≤ protocol.nParticipants →
        (dkgVerifyShare protocol' verifierId senderId (shares verifierId) = true ↔
          orderOf protocol.generator ∣ protocol.order *
            (unreducedShare protocol.order participant.threshold drawn verifierId /
              protocol.order)) := by
  have generated := generate_eq_some drawn sender.1 sender.2 added initialized positive
  refine ⟨_, _, generated, ?_⟩
  intro verifierId low high
  exact verify_generated_iff sender added initialized positive bounded generated ⟨low, high⟩

end Group

section Sample

def sampleParticipant : Participant (Multiplicative (ZMod 2)) :=
  { threshold := 2, secretShare := 0, secretPolyCoeffs := fun _ => 0, commitments := fun _ => none,
    publicKey := none, isInitialized := true }

def sampleProtocol : Protocol (Multiplicative (ZMod 2)) :=
  { participants := fun _ => some sampleParticipant, nParticipants := 3, threshold := 2,
    generator := Multiplicative.ofAdd 1, order := secp256k1Order, isInitialized := true }

end Sample

theorem verification_complete_small :
    ∃ protocol' shares,
      dkgGeneratePolynomialCommitmentsAndShares sampleProtocol 1 (fun _ => 3) =
        some (protocol', shares) ∧ dkgVerifyShare protocol' 2 1 (shares 2) = true := by
  have added : sampleProtocol.participants (1 - 1) = some sampleParticipant := rfl
  have bounded : ∀ k < sampleParticipant.threshold, 3 < sampleProtocol.order := by
    decide +kernel
  rcases verification_complete_iff sampleProtocol (by decide) added rfl (by decide) (fun _ => 3)
    bounded with ⟨protocol', shares, generated, accepted⟩
  refine ⟨protocol', shares, generated, (accepted 2 (by decide) (by decide)).mpr ?_⟩
  have unreduced : unreducedShare sampleProtocol.order sampleParticipant.threshold (fun _ => 3) 2 /
      sampleProtocol.order = 0 := by
    decide +kernel
  rw [unreduced]
  exact dvd_zero _

/-- With the largest coefficient the second share is reduced once, and the verifier rejects it. -/
theorem reduced_share_rejected :
    ∃ protocol' shares,
      dkgGeneratePolynomialCommitmentsAndShares sampleProtocol 1
          (fun k => if k = 0 then 1 else secp256k1Order - 1) = some (protocol', shares) ∧
        dkgVerifyShare protocol' 2 1 (shares 2) = false := by
  have added : sampleProtocol.participants (1 - 1) = some sampleParticipant := rfl
  have bounded : ∀ k < sampleParticipant.threshold,
      (if k = 0 then 1 else secp256k1Order - 1) < sampleProtocol.order := by
    decide +kernel
  have generated := generate_eq_some (fun k => if k = 0 then 1 else secp256k1Order - 1)
    (by decide) (by decide) added rfl (by decide)
  refine ⟨_, _, generated, ?_⟩
  rw [Bool.eq_false_iff, Ne, verify_generated_iff (by decide) added rfl (by decide) bounded
    generated (by decide)]
  have once : unreducedShare sampleProtocol.order sampleParticipant.threshold
      (fun k => if k = 0 then 1 else secp256k1Order - 1) 2 / sampleProtocol.order = 1 := by
    decide +kernel
  rw [once, sampleProtocol, orderOf_ofAdd_eq_addOrderOf, ZMod.addOrderOf_one]
  decide +kernel

end TigerMixer.Dkg
