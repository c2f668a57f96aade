import TigerMixer.Algebra.PrimeOrder
import Mathlib.Algebra.Algebra.Bilinear
import Mathlib.Tactic.LinearCombination

/-!
# Blind signatures

The Pointcheval–Sanders signatures of `util.c` on a committed message. The groups and the pairing
are parameters. Unblinding adds the multiple of the first component by the inverse of `r` modulo the
order, where the term to be removed is its multiple by `r`.
-/

namespace TigerMixer

universe u v w

/-- Two groups of prime order with a pairing (`pc_map`) that is bilinear and not degenerate. -/
structure PairingGroups (q : ℕ) (G1 : Type u) (G2 : Type v) (GT : Type w) [AddCommGroup G1]
    [AddCommGroup G2] [AddCommGroup GT] [Module (ZMod q) G1] [Module (ZMod q) G2]
    [Module (ZMod q) GT] where
  g1 : PrimeOrderGroup q G1
  g2 : PrimeOrderGroup q G2
  pcMap : G1 →ₗ[ZMod q] G2 →ₗ[ZMod q] GT
  nondegenerate : pcMap g1.gen g2.gen ≠ 0

structure PsSecretKey (G1 : Type u) where
  X1 : G1

structure PsPublicKey (G1 : Type u) (G2 : Type v) where
  Y1 : G1
  X2 : G2
  Y2 : G2

structure PsSignature (G1 : Type u) where
  sigma1 : G1
  sigma2 : G1

structure PedersenDecom where
  r : ℕ
  m : ℕ

namespace PairingGroups

variable {q : ℕ} {G1 : Type u} {G2 : Type v} {GT : Type w} [AddCommGroup G1] [AddCommGroup G2]
  [AddCommGroup GT] [Module (ZMod q) G1] [Module (ZMod q) G2] [Module (ZMod q) GT]

def secretKey (groups : PairingGroups q G1 G2 GT) (x : ℕ) : PsSecretKey G1 :=
  { X1 := x • groups.g1.gen }

def publicKey (groups : PairingGroups q G1 G2 GT) (x y : ℕ) : PsPublicKey G1 G2 :=
  { Y1 := y • groups.g1.gen, X2 := x • groups.g2.gen, Y2 := y • groups.g2.gen }

def pedersenCommit (groups : PairingGroups q G1 G2 GT) (h : G1) (x r : ℕ) : G1 × PedersenDecom :=
  (r • groups.g1.gen + x • h, { r := r, m := x })

def psBlindSign (groups : PairingGroups q G1 G2 GT) (com : G1) (secretKey : PsSecretKey G1)
    (u : ℕ) : PsSignature G1 :=
  { sigma1 := u • groups.g1.gen, sigma2 := u • (secretKey.X1 + com) }

def psUnblind (q : ℕ) (signature : PsSignature G1) (decom : PedersenDecom) : PsSignature G1 :=
  let rInverse := modInv decom.r q
  { signature with sigma2 := signature.sigma2 + rInverse • signature.sigma1 }

def psVerify [DecidableEq GT] (groups : PairingGroups q G1 G2 GT) (signature : PsSignature G1)
    (message : ℕ) (publicKey : PsPublicKey G1 G2) : Bool :=
  let pairing1 := groups.pcMap signature.sigma1 (publicKey.X2 + message • publicKey.Y2)
  let pairing2 := groups.pcMap signature.sigma2 groups.g2.gen
  decide (pairing1 = pairing2)

def blindSignature (groups : PairingGroups q G1 G2 GT) (x y message r u : ℕ) : PsSignature G1 :=
  let (com, decom) := groups.pedersenCommit (groups.publicKey x y).Y1 message r
  psUnblind q (groups.psBlindSign com (groups.secretKey x) u) decom

variable [Fact q.Prime]

theorem psVerify_iff [DecidableEq GT] (groups : PairingGroups q G1 G2 GT) {x y message : ℕ}
    {first second : ZMod q} {signature : PsSignature G1}
    (sigma1 : signature.sigma1 = first • groups.g1.gen)
    (sigma2 : signature.sigma2 = second • groups.g1.gen) :
    groups.psVerify signature message (groups.publicKey x y) = true ↔
      first * (x + message * y) = second := by
  have left : groups.pcMap signature.sigma1
      ((groups.publicKey x y).X2 + message • (groups.publicKey x y).Y2) =
        (first * (x + message * y)) • groups.pcMap groups.g1.gen groups.g2.gen := by
    simp only [sigma1, publicKey, ← Nat.cast_smul_eq_nsmul (ZMod q), map_smul,
      LinearMap.smul_apply, smul_smul, ← add_smul]
    congr 1
    ring
  have right : groups.pcMap signature.sigma2 groups.g2.gen =
      second • groups.pcMap groups.g1.gen groups.g2.gen := by
    rw [sigma2, map_smul, LinearMap.smul_apply]
  rw [psVerify, decide_eq_true_eq, left, right]
  constructor
  · intro same
    by_contra different
    apply groups.nondegenerate
    rw [← (IsUnit.mk0 _ (sub_ne_zero.mpr different)).smul_eq_zero, sub_smul, same, sub_self]
  · intro same
    rw [same]

/-- The unblinded signature is accepted exactly when the blinding scalar is a square root of minus
one. -/
theorem blindSignature_verifies_iff [DecidableEq GT] (groups : PairingGroups q G1 G2 GT)
    (x y message : ℕ) {r u : ℕ} (blinded : r % q ≠ 0) (signed : u % q ≠ 0) :
    groups.psVerify (groups.blindSignature x y message r u) message (groups.publicKey x y) = true ↔
      (r * r + 1) % q = 0 := by
  have scalar : (u : ZMod q) ≠ 0 := natCast_ne_zero_iff.mpr signed
  have blinding : (r : ZMod q) ≠ 0 := natCast_ne_zero_iff.mpr blinded
  have first : (groups.blindSignature x y message r u).sigma1 = (u : ZMod q) • groups.g1.gen := by
    simp [blindSignature, pedersenCommit, psBlindSign, psUnblind, Nat.cast_smul_eq_nsmul]
  have second : (groups.blindSignature x y message r u).sigma2 =
      ((u : ZMod q) * (x + (r + message * y)) + (r : ZMod q)⁻¹ * u) • groups.g1.gen := by
    simp only [blindSignature, pedersenCommit, psBlindSign, psUnblind, publicKey, secretKey,
      ← Nat.cast_smul_eq_nsmul (ZMod q), natCast_modInv blinding, smul_smul, ← add_smul]
  have residue : (r * r + 1) % q = 0 ↔ (r * r + 1 : ZMod q) = 0 := by
    rw [← Nat.dvd_iff_mod_eq_zero, ← ZMod.natCast_eq_zero_iff]
    push_cast
    rfl
  rw [groups.psVerify_iff first second, residue]
  constructor
  · intro agrees
    field_simp at agrees
    linear_combination -agrees
  · intro root
    field_simp
    linear_combination -root

def residues (q : ℕ) [Fact q.Prime] : PairingGroups q (ZMod q) (ZMod q) (ZMod q) where
  g1 := PrimeOrderGroup.residues q
  g2 := PrimeOrderGroup.residues q
  pcMap := LinearMap.mul (ZMod q) (ZMod q)
  nondegenerate := by simp [PrimeOrderGroup.residues]

instance : Fact (Nat.Prime 5) := ⟨Nat.prime_five⟩

theorem blindSignature_verifies_two :
    (residues 5).psVerify ((residues 5).blindSignature 1 1 1 2 1) 1
      ((residues 5).publicKey 1 1) = true :=
  ((residues 5).blindSignature_verifies_iff 1 1 1 (by decide) (by decide)).mpr (by decide)

theorem blindSignature_rejected_one :
    (residues 5).psVerify ((residues 5).blindSignature 1 1 1 1 1) 1
      ((residues 5).publicKey 1 1) = false := by
  decide +kernel

end PairingGroups

end TigerMixer
