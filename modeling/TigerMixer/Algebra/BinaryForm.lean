import Mathlib.RingTheory.Int.Basic

/-!
# Binary quadratic forms

Forms `a x² + b x y + c y²` with integer coefficients. A positive definite form is properly
equivalent to exactly one reduced form, so a class of forms is computed with by its reduced
representative.
-/

namespace TigerMixer

@[ext]
structure BinaryForm where
  a : ℤ
  b : ℤ
  c : ℤ
deriving DecidableEq, Repr

namespace BinaryForm

def discriminant (form : BinaryForm) : ℤ :=
  form.b ^ 2 - 4 * form.a * form.c

def IsPrimitive (form : BinaryForm) : Prop :=
  Int.gcd form.a (Int.gcd form.b form.c) = 1

instance : DecidablePred IsPrimitive :=
  fun form => inferInstanceAs (Decidable (Int.gcd form.a (Int.gcd form.b form.c) = 1))

/-- The conditions that single out one form in each class of positive definite forms. -/
@[mk_iff]
structure IsReduced (form : BinaryForm) : Prop where
  neg_lt_middle : -form.a < form.b
  middle_le : form.b ≤ form.a
  first_le : form.a ≤ form.c
  middle_nonneg : form.a = form.c → 0 ≤ form.b

instance : DecidablePred IsReduced :=
  fun form => decidable_of_iff _ (isReduced_iff form).symm

theorem IsReduced.first_pos {form : BinaryForm} (reduced : form.IsReduced) : 0 < form.a := by
  have lower := reduced.neg_lt_middle
  have upper := reduced.middle_le
  omega

theorem IsReduced.three_mul_sq_le {form : BinaryForm} (reduced : form.IsReduced) :
    3 * form.a ^ 2 ≤ -form.discriminant := by
  have middle : form.b ^ 2 ≤ form.a ^ 2 := sq_le_sq' reduced.neg_lt_middle.le reduced.middle_le
  have outer : form.a * form.a ≤ form.a * form.c :=
    mul_le_mul_of_nonneg_left reduced.first_le reduced.first_pos.le
  simp only [discriminant]
  linarith

theorem last_eq_of_discriminant {form : BinaryForm} {discriminant : ℤ} (first : form.a ≠ 0)
    (discriminant_eq : form.discriminant = discriminant) :
    form.c = (form.b ^ 2 - discriminant) / (4 * form.a) := by
  have split : form.b ^ 2 - discriminant = 4 * form.a * form.c := by
    rw [← discriminant_eq, BinaryForm.discriminant, sub_sub_cancel]
  rw [split, Int.mul_ediv_cancel_left _ (by omega)]

theorem isPrimitive_of_prime_pow {prime exponent : ℕ} (isPrime : prime.Prime) {middle last : ℤ}
    (undivided : ¬ (prime : ℤ) ∣ last) :
    IsPrimitive { a := (prime : ℤ) ^ exponent, b := middle, c := last } := by
  have coprime : Nat.Coprime (prime ^ exponent) last.natAbs := by
    apply Nat.Coprime.pow_left
    rwa [isPrime.coprime_iff_not_dvd, ← Int.natCast_dvd]
  simp only [IsPrimitive, Int.gcd_def, Int.natAbs_pow, Int.natAbs_natCast]
  exact coprime.coprime_dvd_right (Nat.gcd_dvd_right _ _)

end BinaryForm

end TigerMixer
