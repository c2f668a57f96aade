import Mathlib.Algebra.Field.ZMod
import Mathlib.Algebra.Module.ZMod

/-!
# Scalars and groups of prime order

Scalars are naturals reduced modulo a prime `q`. The lemmas here carry equalities of reduced
naturals to `ZMod q` and back. A group of prime order is a module over `ZMod q` with a generator
whose multiples enumerate the group exactly once.
-/

namespace TigerMixer

universe u

/-- The inverse of `value` modulo `modulus`, in the range `[0, modulus)`. -/
def modInv (value modulus : ℕ) : ℕ :=
  (Nat.gcdA value modulus % modulus).toNat

section Scalars

variable {q : ℕ}

theorem modInv_lt (positive : 0 < q) (value : ℕ) : modInv value q < q := by
  have nonneg := Int.emod_nonneg (Nat.gcdA value q) (by omega : (q : ℤ) ≠ 0)
  have bound := Int.emod_lt_of_pos (Nat.gcdA value q) (by omega : (0 : ℤ) < q)
  unfold modInv
  omega

theorem mod_eq_mod_iff_natCast_eq {left right : ℕ} :
    left % q = right % q ↔ (left : ZMod q) = (right : ZMod q) :=
  (ZMod.natCast_eq_natCast_iff' left right q).symm

theorem eq_of_natCast_eq {left right : ℕ} (leftLt : left < q) (rightLt : right < q)
    (residues : (left : ZMod q) = (right : ZMod q)) : left = right := by
  have reduced := mod_eq_mod_iff_natCast_eq.mpr residues
  rwa [Nat.mod_eq_of_lt leftLt, Nat.mod_eq_of_lt rightLt] at reduced

theorem natCast_ne_zero_iff {value : ℕ} : (value : ZMod q) ≠ 0 ↔ value % q ≠ 0 := by
  rw [Ne, ZMod.natCast_eq_zero_iff, Nat.dvd_iff_mod_eq_zero]

theorem natCast_ne_zero_of_lt {value : ℕ} (positive : value ≠ 0) (bound : value < q) :
    (value : ZMod q) ≠ 0 := by
  rw [natCast_ne_zero_iff, Nat.mod_eq_of_lt bound]
  exact positive

variable [Fact q.Prime]

theorem modulus_pos (q : ℕ) [Fact q.Prime] : 0 < q :=
  (Fact.out : q.Prime).pos

theorem natCast_toNat_emod (value : ℤ) : ((value % q).toNat : ZMod q) = value := by
  have nonneg := Int.emod_nonneg value (by
    have := modulus_pos q
    omega : (q : ℤ) ≠ 0)
  rw [← Int.cast_natCast, Int.toNat_of_nonneg nonneg, ZMod.intCast_mod]

theorem natCast_modInv {value : ℕ} (nonzero : (value : ZMod q) ≠ 0) :
    (modInv value q : ZMod q) = (value : ZMod q)⁻¹ := by
  have coprime : Nat.gcd value q = 1 := by
    rw [Nat.gcd_comm, ← Nat.coprime_iff_gcd_eq_one, Nat.Prime.coprime_iff_not_dvd Fact.out]
    rwa [Ne, ZMod.natCast_eq_zero_iff] at nonzero
  have bezout := congrArg (Int.cast : ℤ → ZMod q) (Nat.gcd_eq_gcd_ab value q)
  rw [coprime] at bezout
  rw [modInv, natCast_toNat_emod]
  apply eq_inv_of_mul_eq_one_right
  simpa using bezout.symm

end Scalars

theorem nsmul_ne_zero_of_natCast {q : ℕ} [Fact q.Prime] {E : Type u} [AddCommGroup E]
    [Module (ZMod q) E] {scalar : ℕ} {point : E} (scalarNonzero : (scalar : ZMod q) ≠ 0)
    (pointNonzero : point ≠ 0) : scalar • point ≠ 0 := by
  rw [← Nat.cast_smul_eq_nsmul (ZMod q), Ne, (IsUnit.mk0 _ scalarNonzero).smul_eq_zero]
  exact pointNonzero

/-- A group of prime order `q`: every element is `scalar • gen` for exactly one residue. -/
structure PrimeOrderGroup (q : ℕ) (E : Type u) [AddCommGroup E] [Module (ZMod q) E] where
  gen : E
  smul_gen_bijective : Function.Bijective fun scalar : ZMod q => scalar • gen

namespace PrimeOrderGroup

variable {q : ℕ} {E : Type u} [AddCommGroup E] [Module (ZMod q) E]

theorem smul_gen_inj (group : PrimeOrderGroup q E) {left right : ZMod q} :
    left • group.gen = right • group.gen ↔ left = right :=
  group.smul_gen_bijective.injective.eq_iff

@[simp]
theorem smul_gen_eq_zero_iff (group : PrimeOrderGroup q E) {scalar : ZMod q} :
    scalar • group.gen = 0 ↔ scalar = 0 := by
  rw [← zero_smul (ZMod q) group.gen, group.smul_gen_inj]

theorem gen_ne_zero (group : PrimeOrderGroup q E) [Fact q.Prime] : group.gen ≠ 0 := by
  intro vanishes
  have trivial := group.smul_gen_eq_zero_iff.mp ((one_smul (ZMod q) group.gen).trans vanishes)
  exact one_ne_zero trivial

theorem nsmul_gen_ne_zero [Fact q.Prime] (group : PrimeOrderGroup q E) {scalar : ℕ}
    (nonzero : scalar % q ≠ 0) : scalar • group.gen ≠ 0 :=
  nsmul_ne_zero_of_natCast (natCast_ne_zero_iff.mpr nonzero) group.gen_ne_zero

noncomputable def log (group : PrimeOrderGroup q E) (point : E) : ZMod q :=
  (Equiv.ofBijective _ group.smul_gen_bijective).symm point

theorem log_smul_gen (group : PrimeOrderGroup q E) (point : E) :
    group.log point • group.gen = point :=
  (Equiv.ofBijective _ group.smul_gen_bijective).apply_symm_apply point

def residues (q : ℕ) : PrimeOrderGroup q (ZMod q) where
  gen := 1
  smul_gen_bijective := by
    simp only [smul_eq_mul, mul_one]
    exact Function.bijective_id

end PrimeOrderGroup

end TigerMixer
