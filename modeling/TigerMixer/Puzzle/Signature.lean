import TigerMixer.Algebra.PrimeOrder
import TigerMixer.Data.ByteString
import Mathlib.Data.Nat.Size
import Mathlib.Tactic.LinearCombination

/-!
# Adaptor signatures

The ECDSA adaptor signatures of `util.c`. Big numbers are naturals reduced as the code reduces them;
the curve is a group of prime order `q` with the coordinate map, point encoding and hash function as
parameters. `adaptor_ecdsa_sign` draws nonces until one gives `r ≠ 0` and `s ≠ 0`, so it takes the
list of nonces it will draw.
-/

namespace TigerMixer

open Bytes

universe u

structure Curve (q : ℕ) (E : Type u) [AddCommGroup E] [Module (ZMod q) E] extends
    PrimeOrderGroup q E where
  /-- The affine first coordinate (`ec_get_x`). -/
  getX : E → ℕ
  /-- The compressed encoding of a point (`ec_write_bin`). -/
  writeBin : E → Bytes
  /-- The 32-byte hash function (`md_map`). -/
  mdMap : Bytes → Bytes

def mdLen : ℕ := 32

/-- Comparison of the low digits that both numbers use (`dv_cmp_sec` on 64-bit digits). -/
def equalOnUsedDigits (left right : ℕ) : Bool :=
  let digits := min (usedDigits left) (usedDigits right)
  left % 2 ^ (64 * digits) == right % 2 ^ (64 * digits)

@[simp]
theorem equalOnUsedDigits_self (value : ℕ) : equalOnUsedDigits value value = true := by
  simp [equalOnUsedDigits]

theorem eq_of_equalOnUsedDigits {left right : ℕ} (same : usedDigits left = usedDigits right)
    (agrees : equalOnUsedDigits left right = true) : left = right := by
  rw [equalOnUsedDigits, same, min_self, beq_iff_eq, Nat.mod_eq_of_lt (lt_pow_usedDigits right),
    Nat.mod_eq_of_lt (same ▸ lt_pow_usedDigits left)] at agrees
  exact agrees

structure DhTupleProof (E : Type u) where
  /-- Commitment to the base `g`. -/
  a : E
  /-- Commitment to the base `h`. -/
  b : E
  z : ℕ

structure AdaptorSignature (E : Type u) where
  /-- First component, the reduced coordinate of `R`. -/
  r : ℕ
  s : ℕ
  /-- The nonce point on the base `Y`. -/
  R : E
  /-- Proof that `R` and the nonce point on the generator share the nonce. -/
  pi : DhTupleProof E

namespace Curve

variable {q : ℕ} {E : Type u} [AddCommGroup E] [Module (ZMod q) E]

/-- The integer an ECDSA digest stands for: its leftmost bits, at most as many as `q` has. -/
def digestToScalar (_curve : Curve q E) (digest : Bytes) : ℕ :=
  if Nat.size q < 8 * mdLen then
    let len := (Nat.size q + 7) / 8
    readBe (digest.take len) >>> (8 * len - Nat.size q)
  else
    readBe (digest.take mdLen)

/-- The challenge of the Chaum–Pedersen proof. Unlike `digestToScalar` it shifts by the distance
from the full digest length. -/
def dhTupleChallenge (curve : Curve q E) (a b u v : E) : ℕ :=
  let hash := curve.mdMap
    (curve.writeBin a ++ curve.writeBin b ++ curve.writeBin u ++ curve.writeBin v)
  let e := if Nat.size q < 8 * mdLen then
      readBe (hash.take ((Nat.size q + 7) / 8)) >>> (8 * mdLen - Nat.size q)
    else
      readBe (hash.take mdLen)
  e % q

/-- `zk_dhtuple_prove`: `u = w • g` and `v = w • h`, with commitment scalar `r`. -/
def zkDhtupleProve (curve : Curve q E) (h u v : E) (w r : ℕ) : DhTupleProof E :=
  let a := r • curve.gen
  let b := r • h
  let e := curve.dhTupleChallenge a b u v
  { a, b, z := (e * w % q + r) % q }

def zkDhtupleVerify [DecidableEq E] (curve : Curve q E) (proof : DhTupleProof E) (h u v : E) :
    Bool :=
  let e := curve.dhTupleChallenge proof.a proof.b u v
  decide (proof.z • curve.gen = proof.a + e • u) && decide (proof.z • h = proof.b + e • v)

def signatureScalar (q k r e sk : ℕ) : ℕ :=
  (sk * r % q + e) % q * modInv k q % q

/-- The nonce, first component, signed digest scalar and second component on which the loops of
`adaptor_ecdsa_sign` stop; `none` if the nonces do not suffice. -/
def adaptorLoop (curve : Curve q E) (Y : E) (sk : ℕ) :
    Bytes → List ℕ → Option (ℕ × ℕ × ℕ × ℕ)
  | _, [] => none
  | message, k :: nonces =>
    let r := curve.getX (k • Y) % q
    if r = 0 then
      adaptorLoop curve Y sk message nonces
    else
      let digest := curve.mdMap message
      let e := curve.digestToScalar digest
      let s := signatureScalar q k r e sk
      -- `msg = h` has already been executed when the outer loop repeats
      if s = 0 then adaptorLoop curve Y sk digest nonces else some (k, r, e, s)

def adaptorEcdsaSign (curve : Curve q E) (message : Bytes) (Y : E) (sk : ℕ)
    (nonces : List ℕ) (proofNonce : ℕ) : Option (AdaptorSignature E) :=
  (curve.adaptorLoop Y sk message nonces).map fun (k, r, _, s) =>
    { r, s, R := k • Y, pi := curve.zkDhtupleProve Y (k • curve.gen) (k • Y) k proofNonce }

def adaptorEcdsaPreverify [DecidableEq E] (curve : Curve q E) (signature : AdaptorSignature E)
    (message : Bytes) (Y pk : E) : Bool :=
  if signature.r ≠ 0 ∧ signature.s ≠ 0 ∧ signature.r < q ∧ signature.s < q then
    let sInverse := modInv signature.s q
    let e := curve.digestToScalar (curve.mdMap message)
    let u := e * sInverse % q
    let v := signature.r * sInverse % q
    let RTilde := u • curve.gen + v • pk
    equalOnUsedDigits (curve.getX signature.R % q) signature.r &&
      !(decide (RTilde = 0) || decide (signature.R = 0)) &&
        curve.zkDhtupleVerify signature.pi Y RTilde signature.R
  else
    false

def ecdsaVer [DecidableEq E] (curve : Curve q E) (r s : ℕ) (message : Bytes) (pk : E) : Bool :=
  if r ≠ 0 ∧ s ≠ 0 ∧ r < q ∧ s < q then
    let sInverse := modInv s q
    let e := curve.digestToScalar (curve.mdMap message) * sInverse % q
    let v := r * sInverse % q
    let point := e • curve.gen + v • pk
    decide (curve.getX point % q = r) && !decide (point = 0)
  else
    false

section Laws

variable (curve : Curve q E)

theorem zkDhtupleVerify_zkDhtupleProve [DecidableEq E] (h : E) (w r : ℕ) :
    curve.zkDhtupleVerify (curve.zkDhtupleProve h (w • curve.gen) (w • h) w r) h
      (w • curve.gen) (w • h) = true := by
  set e := curve.dhTupleChallenge (r • curve.gen) (r • h) (w • curve.gen) (w • h) with challenge
  have response (base : E) :
      ((e * w % q + r) % q) • base = r • base + e • w • base := by
    simp only [← Nat.cast_smul_eq_nsmul (ZMod q), smul_smul, ← add_smul]
    congr 1
    push_cast [ZMod.natCast_mod]
    ring
  simp only [zkDhtupleVerify, zkDhtupleProve, ← challenge, response, decide_true, Bool.and_self]

variable {Y : E} {sk : ℕ}

variable {message : Bytes} {nonces : List ℕ} {k : ℕ}

theorem adaptorLoop_spec {k r e s : ℕ}
    (loop : curve.adaptorLoop Y sk message nonces = some (k, r, e, s)) :
    k ∈ nonces ∧ r = curve.getX (k • Y) % q ∧ r ≠ 0 ∧
      s = signatureScalar q k r e sk ∧ s ≠ 0 ∧
        ∃ retries, e = curve.digestToScalar (curve.mdMap^[retries + 1] message) := by
  induction nonces generalizing message with
  | nil => simp [adaptorLoop] at loop
  | cons nonce nonces ih =>
    simp only [adaptorLoop] at loop
    split_ifs at loop with coordinate component
    · obtain ⟨member, rest⟩ := ih loop
      exact ⟨List.mem_cons_of_mem _ member, rest⟩
    · obtain ⟨member, first, firstNonzero, second, secondNonzero, retries, digest⟩ := ih loop
      exact ⟨List.mem_cons_of_mem _ member, first, firstNonzero, second, secondNonzero,
        retries + 1, by simpa using digest⟩
    · simp only [Option.some.injEq, Prod.mk.injEq] at loop
      obtain ⟨rfl, rfl, rfl, rfl⟩ := loop
      exact ⟨List.mem_cons_self, rfl, coordinate, rfl, component, 0, rfl⟩

theorem adaptorLoop_cons (nonces : List ℕ) (coordinate : curve.getX (k • Y) % q ≠ 0)
    (component : signatureScalar q k (curve.getX (k • Y) % q)
      (curve.digestToScalar (curve.mdMap message)) sk ≠ 0) :
    curve.adaptorLoop Y sk message (k :: nonces) =
      some (k, curve.getX (k • Y) % q, curve.digestToScalar (curve.mdMap message),
        signatureScalar q k (curve.getX (k • Y) % q)
          (curve.digestToScalar (curve.mdMap message)) sk) := by
  simp [adaptorLoop, coordinate, component]

variable [Fact q.Prime]

theorem signatureScalar_lt (k r e sk : ℕ) : signatureScalar q k r e sk < q :=
  Nat.mod_lt _ (modulus_pos q)

theorem natCast_signatureScalar (nonce : (k : ZMod q) ≠ 0) (r e sk : ℕ) :
    (signatureScalar q k r e sk : ZMod q) = (sk * r + e) * (k : ZMod q)⁻¹ := by
  simp [signatureScalar, ZMod.natCast_mod, natCast_modInv nonce]

theorem adaptorEcdsaSign_s_ne_zero {proofNonce : ℕ} {signature : AdaptorSignature E}
    (signed : curve.adaptorEcdsaSign message Y sk nonces proofNonce = some signature) :
    (signature.s : ZMod q) ≠ 0 := by
  simp only [adaptorEcdsaSign, Option.map_eq_some_iff] at signed
  rcases signed with ⟨⟨k, r, e, s⟩, loop, rfl⟩
  rcases curve.adaptorLoop_spec loop with ⟨-, -, -, rfl, nonzero, -⟩
  exact natCast_ne_zero_of_lt nonzero (signatureScalar_lt _ _ _ _)

/-- The point a verifier of the digest scalar `digest` recomputes from a signature on `signed`: the
nonce point if the two agree. -/
def recomputedPoint (digest signed r sk : ℕ) (noncePoint : E) : E :=
  ((digest + sk * r : ZMod q) * (signed + sk * r : ZMod q)⁻¹) • noncePoint

/-- A verifier of the message accepts what the signing loop signed. After a retry the signed digest
is an iterated one. -/
def SignsMessage (Y : E) (sk : ℕ) (message : Bytes) (nonces : List ℕ) : Prop :=
  ∀ k r e s, curve.adaptorLoop Y sk message nonces = some (k, r, e, s) →
    let point := recomputedPoint (q := q) (curve.digestToScalar (curve.mdMap message)) e r sk
      (k • Y)
    curve.getX point % q = r ∧ point ≠ 0

theorem signed_sum_ne_zero {k r e : ℕ} (nonce : (k : ZMod q) ≠ 0)
    (component : signatureScalar q k r e sk ≠ 0) : (e + sk * r : ZMod q) ≠ 0 := by
  have residue := natCast_ne_zero_of_lt component (signatureScalar_lt k r e sk)
  rw [natCast_signatureScalar nonce] at residue
  rw [add_comm]
  exact left_ne_zero_of_mul residue

theorem signsMessage_of_first (nonces : List ℕ) (nonce : (k : ZMod q) ≠ 0) (pointNonzero : Y ≠ 0)
    (coordinate : curve.getX (k • Y) % q ≠ 0)
    (component : signatureScalar q k (curve.getX (k • Y) % q)
      (curve.digestToScalar (curve.mdMap message)) sk ≠ 0) :
    curve.SignsMessage Y sk message (k :: nonces) := by
  intro k' r e s loop
  rw [curve.adaptorLoop_cons nonces coordinate component, Option.some.injEq, Prod.mk.injEq,
    Prod.mk.injEq, Prod.mk.injEq] at loop
  obtain ⟨rfl, rfl, rfl, rfl⟩ := loop
  have sumNonzero := signed_sum_ne_zero nonce component
  simp only [recomputedPoint, mul_inv_cancel₀ sumNonzero, one_smul, true_and]
  exact nsmul_ne_zero_of_natCast nonce pointNonzero

theorem ecdsaVer_completed_iff [DecidableEq E] {alpha k r e s : ℕ}
    (alphaNonzero : (alpha : ZMod q) ≠ 0) (nonceNonzero : ∀ nonce ∈ nonces, (nonce : ZMod q) ≠ 0)
    (loop : curve.adaptorLoop (alpha • curve.gen) sk message nonces = some (k, r, e, s)) :
    curve.ecdsaVer r (s * modInv alpha q % q) message (sk • curve.gen) = true ↔
      curve.SignsMessage (alpha • curve.gen) sk message nonces := by
  obtain ⟨member, coordinate, rNonzero, rfl, sNonzero, -⟩ := curve.adaptorLoop_spec loop
  have nonce := nonceNonzero k member
  have sumNonzero := signed_sum_ne_zero nonce sNonzero
  have rLt : r < q := coordinate ▸ Nat.mod_lt _ (modulus_pos q)
  set completed := signatureScalar q k r e sk * modInv alpha q % q with completed_eq
  have residue : (completed : ZMod q) = (e + sk * r) * (k : ZMod q)⁻¹ * (alpha : ZMod q)⁻¹ := by
    rw [completed_eq, ZMod.natCast_mod, Nat.cast_mul, natCast_signatureScalar nonce,
      natCast_modInv alphaNonzero, add_comm (e : ZMod q)]
  have residueNonzero : (completed : ZMod q) ≠ 0 := by
    rw [residue]
    exact mul_ne_zero (mul_ne_zero sumNonzero (inv_ne_zero nonce)) (inv_ne_zero alphaNonzero)
  have completedNonzero : completed ≠ 0 := fun vanishes => residueNonzero (by simp [vanishes])
  have completedLt : completed < q := Nat.mod_lt _ (modulus_pos q)
  set digest := curve.digestToScalar (curve.mdMap message) with digest_eq
  -- both sides speak of the same point
  have point :
      (digest * modInv completed q % q) • curve.gen +
          (r * modInv completed q % q) • sk • curve.gen =
        recomputedPoint (q := q) digest e r sk (k • alpha • curve.gen) := by
    simp only [recomputedPoint, ← Nat.cast_smul_eq_nsmul (ZMod q), smul_smul, ← add_smul]
    congr 1
    simp only [ZMod.natCast_mod, Nat.cast_mul, natCast_modInv residueNonzero]
    rw [residue]
    field_simp
  have unique : curve.SignsMessage (alpha • curve.gen) sk message nonces ↔
      curve.getX (recomputedPoint (q := q) digest e r sk (k • alpha • curve.gen)) % q = r ∧
        recomputedPoint (q := q) digest e r sk (k • alpha • curve.gen) ≠ 0 := by
    constructor
    · intro signs
      exact signs k r e _ loop
    · intro agrees k' r' e' s' loop'
      rw [loop, Option.some.injEq, Prod.mk.injEq, Prod.mk.injEq, Prod.mk.injEq] at loop'
      obtain ⟨rfl, rfl, rfl, rfl⟩ := loop'
      exact agrees
  rw [unique]
  simp [ecdsaVer, rNonzero, completedNonzero, rLt, completedLt, ← digest_eq, point]

/-- A pre-signature with the nonce `k` is accepted for every first component that agrees with the
coordinate of its point on the digits that both use. -/
theorem adaptorEcdsaPreverify_of_nonce [DecidableEq E] {k r : ℕ} (proofNonce : ℕ)
    (nonce : (k : ZMod q) ≠ 0) (pointNonzero : Y ≠ 0)
    (agrees : equalOnUsedDigits (curve.getX (k • Y) % q) r) (rNonzero : r ≠ 0) (rLt : r < q)
    (component : signatureScalar q k r (curve.digestToScalar (curve.mdMap message)) sk ≠ 0) :
    curve.adaptorEcdsaPreverify
      { r := r
        s := signatureScalar q k r (curve.digestToScalar (curve.mdMap message)) sk
        R := k • Y
        pi := curve.zkDhtupleProve Y (k • curve.gen) (k • Y) k proofNonce }
      message Y (sk • curve.gen) = true := by
  set e := curve.digestToScalar (curve.mdMap message) with e_eq
  set s := signatureScalar q k r e sk
  have sLt : s < q := signatureScalar_lt k r e sk
  have sResidue : (s : ZMod q) ≠ 0 := natCast_ne_zero_of_lt component sLt
  have nonceRecovered :
      (e * modInv s q % q) • curve.gen + (r * modInv s q % q) • sk • curve.gen = k • curve.gen := by
    simp only [← Nat.cast_smul_eq_nsmul (ZMod q), smul_smul, ← add_smul]
    congr 1
    have sum : (s : ZMod q) * k = sk * r + e := by
      rw [natCast_signatureScalar nonce, mul_assoc, inv_mul_cancel₀ nonce, mul_one]
    simp only [ZMod.natCast_mod, Nat.cast_mul, natCast_modInv sResidue]
    field_simp
    linear_combination -sum
  have onGenerator : k • curve.gen ≠ 0 := nsmul_ne_zero_of_natCast nonce curve.gen_ne_zero
  have onBase : k • Y ≠ 0 := nsmul_ne_zero_of_natCast nonce pointNonzero
  simp [adaptorEcdsaPreverify, agrees, rNonzero, component, rLt, sLt, ← e_eq, nonceRecovered,
    onGenerator, onBase, curve.zkDhtupleVerify_zkDhtupleProve Y k proofNonce]

theorem adaptorEcdsaPreverify_of_first [DecidableEq E] (proofNonce : ℕ) (nonce : (k : ZMod q) ≠ 0)
    (pointNonzero : Y ≠ 0) (coordinate : curve.getX (k • Y) % q ≠ 0)
    (component : signatureScalar q k (curve.getX (k • Y) % q)
      (curve.digestToScalar (curve.mdMap message)) sk ≠ 0) :
    curve.adaptorEcdsaPreverify
      { r := curve.getX (k • Y) % q
        s := signatureScalar q k (curve.getX (k • Y) % q)
          (curve.digestToScalar (curve.mdMap message)) sk
        R := k • Y
        pi := curve.zkDhtupleProve Y (k • curve.gen) (k • Y) k proofNonce }
      message Y (sk • curve.gen) = true :=
  curve.adaptorEcdsaPreverify_of_nonce proofNonce nonce pointNonzero (equalOnUsedDigits_self _)
    coordinate (Nat.mod_lt _ (modulus_pos q)) component

end Laws

end Curve

end TigerMixer
