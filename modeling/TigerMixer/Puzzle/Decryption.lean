import TigerMixer.Algebra.BinaryForm
import TigerMixer.Puzzle.Encryption
import Mathlib.Data.Int.Interval

/-!
# Correctness of decryption

`cl_enc` writes the inverse of a plaintext modulo `q` into the middle coefficient of a quadratic
form, and `cl_dec` reads it back from the form that is left when the mask has been divided out,
because this form is already reduced.
-/

namespace TigerMixer

universe v

theorem oddRepresentative_odd {q : ℕ} (residue : ℕ) (odd : q % 2 = 1) :
    oddRepresentative q residue % 2 = 1 := by
  unfold oddRepresentative
  split_ifs <;> omega

namespace ClParams

variable {C : Type v}

def plaintextForm (params : ClParams C) (plaintext : ℕ) : BinaryForm :=
  let L := oddRepresentative params.q (modInv plaintext params.q)
  { a := params.q ^ 2, b := L * params.q, c := (L ^ 2 - params.deltaK).tdiv 4 }

/-- The elements of the group are classes of forms, each held by its reduced form. -/
structure FormClasses (params : ClParams C) where
  /-- The forms that the classes consist of. -/
  Member : BinaryForm → Prop
  /-- The reduced form in a class. -/
  representative : C → BinaryForm
  middle_eq : ∀ element, params.middle element = (representative element).b
  /-- No two reduced forms belong to the same class. -/
  representative_qfb0 : ∀ form, Member form →
    form.discriminant = params.q ^ 2 * params.deltaK → form.IsReduced →
      representative (params.qfb0 form.a form.b form.c) = form

structure Discriminants (params : ClParams C) : Prop where
  prime : params.q.Prime
  odd : params.q % 2 = 1
  negative : params.deltaK < 0
  residue : params.deltaK % 4 = 1
  large : 4 * params.q ^ 2 < |params.deltaK|

theorem Discriminants.oddRepresentative_bounds {params : ClParams C}
    (discriminants : params.Discriminants) {plaintext : ℕ} (nonzero : plaintext % params.q ≠ 0) :
    -(params.q : ℤ) < oddRepresentative params.q (modInv plaintext params.q) ∧
      oddRepresentative params.q (modInv plaintext params.q) < params.q := by
  have prime : Fact params.q.Prime := ⟨discriminants.prime⟩
  have bound := modInv_lt discriminants.prime.pos plaintext
  have inverseNonzero : modInv plaintext params.q ≠ 0 := by
    intro vanishes
    have inverse := natCast_modInv (natCast_ne_zero_iff.mpr nonzero)
    rw [vanishes, Nat.cast_zero, eq_comm, inv_eq_zero] at inverse
    exact natCast_ne_zero_iff.mpr nonzero inverse
  unfold oddRepresentative
  split_ifs <;> omega

section Form

variable {params : ClParams C}

theorem plaintextForm_last (discriminants : params.Discriminants) (plaintext : ℕ) :
    4 * (params.plaintextForm plaintext).c =
      oddRepresentative params.q (modInv plaintext params.q) ^ 2 - params.deltaK := by
  have residue := discriminants.residue
  have odd := oddRepresentative_odd (modInv plaintext params.q) discriminants.odd
  have square : oddRepresentative params.q (modInv plaintext params.q) ^ 2 % 4 = 1 := by
    have cases : oddRepresentative params.q (modInv plaintext params.q) % 4 = 1 ∨
        oddRepresentative params.q (modInv plaintext params.q) % 4 = 3 := by
      omega
    rcases cases with remainder | remainder <;> simp [pow_two, Int.mul_emod, remainder]
  apply Int.mul_tdiv_cancel'
  omega

theorem plaintextForm_discriminant (discriminants : params.Discriminants) (plaintext : ℕ) :
    (params.plaintextForm plaintext).discriminant = params.q ^ 2 * params.deltaK := by
  have last := plaintextForm_last discriminants plaintext
  have expanded : (params.plaintextForm plaintext).discriminant =
      (oddRepresentative params.q (modInv plaintext params.q) * params.q) ^ 2 -
        params.q ^ 2 * (4 * (params.plaintextForm plaintext).c) := by
    simp only [BinaryForm.discriminant, plaintextForm]
    ring
  rw [expanded, last]
  ring

variable {plaintext : ℕ}

theorem plaintextForm_isReduced (discriminants : params.Discriminants)
    (nonzero : plaintext % params.q ≠ 0) : (params.plaintextForm plaintext).IsReduced := by
  have last := plaintextForm_last discriminants plaintext
  have negative := discriminants.negative
  have large := discriminants.large
  have positive : 0 < (params.q : ℤ) := by exact_mod_cast discriminants.prime.pos
  have bounds := discriminants.oddRepresentative_bounds nonzero
  rw [abs_of_neg negative] at large
  -- the last coefficient exceeds the first because the discriminant is large enough
  have outer : (params.plaintextForm plaintext).a < (params.plaintextForm plaintext).c := by
    have square := sq_nonneg (oddRepresentative params.q (modInv plaintext params.q))
    have first : (params.plaintextForm plaintext).a = params.q ^ 2 := rfl
    omega
  constructor
  · simp only [plaintextForm]
    nlinarith [mul_pos (neg_lt_iff_pos_add.mp bounds.1) positive]
  · simp only [plaintextForm]
    nlinarith [mul_pos (sub_pos.mpr bounds.2) positive]
  · exact outer.le
  · intro same
    exact absurd same outer.ne

theorem plaintextForm_inj (discriminants : params.Discriminants) {other : ℕ}
    (nonzero : plaintext % params.q ≠ 0) (otherNonzero : other % params.q ≠ 0) :
    params.plaintextForm plaintext = params.plaintextForm other ↔
      plaintext % params.q = other % params.q := by
  have prime : Fact params.q.Prime := ⟨discriminants.prime⟩
  have positive : (params.q : ℤ) ≠ 0 := by exact_mod_cast discriminants.prime.ne_zero
  have inverse := natCast_modInv (natCast_ne_zero_iff.mpr nonzero)
  have otherInverse := natCast_modInv (natCast_ne_zero_iff.mpr otherNonzero)
  constructor
  · intro same
    have middle := mul_right_cancel₀ positive (congrArg BinaryForm.b same)
    have residues := congrArg (Int.cast : ℤ → ZMod params.q) middle
    rw [intCast_oddRepresentative, intCast_oddRepresentative, inverse, otherInverse,
      inv_inj] at residues
    exact mod_eq_mod_iff_natCast_eq.mpr residues
  · intro congruent
    have residues := mod_eq_mod_iff_natCast_eq.mp congruent
    have same : modInv plaintext params.q = modInv other params.q := by
      apply eq_of_natCast_eq (modInv_lt (modulus_pos _) _) (modInv_lt (modulus_pos _) _)
      rw [inverse, otherInverse, residues]
    rw [plaintextForm, same, plaintextForm]

theorem plaintextForm_isPrimitive (discriminants : params.Discriminants)
    (ramified : (params.q : ℤ) ∣ params.deltaK) (nonzero : plaintext % params.q ≠ 0) :
    (params.plaintextForm plaintext).IsPrimitive := by
  have prime : Fact params.q.Prime := ⟨discriminants.prime⟩
  have last := plaintextForm_last discriminants plaintext
  apply BinaryForm.isPrimitive_of_prime_pow discriminants.prime
  intro divides
  -- otherwise the prime divides the square of the representative and so the representative
  have square : (params.q : ℤ) ∣ oddRepresentative params.q (modInv plaintext params.q) ^ 2 := by
    rw [← sub_add_cancel (_ ^ 2) params.deltaK, ← last]
    exact dvd_add (Dvd.dvd.mul_left divides 4) ramified
  have vanishes := (ZMod.intCast_zmod_eq_zero_iff_dvd _ _).mpr square
  rw [Int.cast_pow, intCast_oddRepresentative,
    natCast_modInv (natCast_ne_zero_iff.mpr nonzero)] at vanishes
  exact natCast_ne_zero_iff.mpr nonzero (by simpa using vanishes)

end Form

variable [CommGroup C] {params : ClParams C}

theorem clDec_eq {plaintext sk r : ℕ} {fm : C} {ciphertext : ClCiphertext C}
    (formed : params.formOf plaintext = some fm)
    (encrypted : params.clEnc plaintext (params.gq ^ sk) r = some ciphertext) :
    params.clDec ciphertext sk = params.fpInv (params.middle fm / params.q % params.q).toNat := by
  simp only [clEnc, formed, Option.map_some, Option.some.injEq] at encrypted
  subst encrypted
  have unmasked : (params.gq ^ sk) ^ r * fm * ((params.gq ^ r) ^ sk)⁻¹ = fm := by
    rw [← pow_mul, ← pow_mul, mul_comm r sk, mul_inv_cancel_comm]
  simp only [clDec, unmasked]

/-- The form of a plaintext is integral, reduced and of discriminant `q² Δ_K`. A ciphertext decrypts
to the plaintext modulo `q`. -/
theorem clDec_clEnc (discriminants : params.Discriminants) (classes : params.FormClasses)
    (covered : ∀ message, message % params.q ≠ 0 → classes.Member (params.plaintextForm message))
    {plaintext : ℕ} (nonzero : plaintext % params.q ≠ 0) (sk r : ℕ) :
    let form := params.plaintextForm plaintext
    let L := oddRepresentative params.q (modInv plaintext params.q)
    (params.formOf plaintext = some (params.qfb0 form.a form.b form.c) ∧
      form.a = params.q ^ 2 ∧ form.b = L * params.q ∧ 4 * form.c = L ^ 2 - params.deltaK ∧
      form.discriminant = params.q ^ 2 * params.deltaK ∧ form.IsReduced) ∧
    (∃ ciphertext, params.clEnc plaintext (params.gq ^ sk) r = some ciphertext ∧
      params.clDec ciphertext sk = some (plaintext % params.q)) ∧
    ∀ other, other % params.q ≠ 0 →
      (form = params.plaintextForm other ↔ plaintext % params.q = other % params.q) := by
  have discriminant := plaintextForm_discriminant discriminants plaintext
  have reduced := plaintextForm_isReduced discriminants nonzero
  have formed : params.formOf plaintext = some (params.qfb0 (params.plaintextForm plaintext).a
      (params.plaintextForm plaintext).b (params.plaintextForm plaintext).c) := by
    simp [formOf, fpInv, nonzero, plaintextForm]
  refine ⟨⟨formed, rfl, rfl, plaintextForm_last discriminants plaintext, discriminant, reduced⟩,
    ?_, fun other otherNonzero => plaintextForm_inj discriminants nonzero otherNonzero⟩
  rcases clEnc_isSome nonzero (params.gq ^ sk) r with ⟨ciphertext, encrypted⟩
  refine ⟨ciphertext, encrypted, ?_⟩
  have middle : params.middle (params.qfb0 (params.plaintextForm plaintext).a
      (params.plaintextForm plaintext).b (params.plaintextForm plaintext).c) =
        oddRepresentative params.q (modInv plaintext params.q) * params.q := by
    rw [classes.middle_eq,
      classes.representative_qfb0 _ (covered plaintext nonzero) discriminant reduced]
    rfl
  have positive : (params.q : ℤ) ≠ 0 := by exact_mod_cast discriminants.prime.ne_zero
  rw [clDec_eq formed encrypted, middle, Int.mul_ediv_cancel _ positive,
    params.fpInv_oddRepresentative discriminants.prime nonzero]

section Sample

def sampleForm : ZMod 6 → BinaryForm
  | (0 : Fin 6) => { a := 1, b := 1, c := 115 }
  | (1 : Fin 6) => { a := 5, b := 1, c := 23 }
  | (2 : Fin 6) => { a := 9, b := -3, c := 13 }
  | (3 : Fin 6) => { a := 11, b := 5, c := 11 }
  | (4 : Fin 6) => { a := 9, b := 3, c := 13 }
  | (5 : Fin 6) => { a := 5, b := -1, c := 23 }

def sampleClass (form : BinaryForm) : Multiplicative (ZMod 6) :=
  Multiplicative.ofAdd
    (((List.finRange 6).find? fun exponent => sampleForm exponent = form).getD 0)

def sampleParams : ClParams (Multiplicative (ZMod 6)) where
  q := 3
  deltaK := -51
  gq := sampleClass { a := 11, b := 5, c := 11 }
  qfb0 a b c := sampleClass { a, b, c }
  middle element := (sampleForm (Multiplicative.toAdd element)).b
  toStr _ := []

theorem sampleParams_discriminants : sampleParams.Discriminants where
  prime := Nat.prime_three
  odd := rfl
  negative := by decide
  residue := by decide
  large := by decide

theorem sampleForm_qfb0 {form : BinaryForm} (primitive : form.IsPrimitive)
    (discriminant : form.discriminant = -459) (reduced : form.IsReduced) :
    sampleForm (Multiplicative.toAdd (sampleParams.qfb0 form.a form.b form.c)) = form := by
  have table : ∀ first ∈ Finset.Icc (1 : ℤ) 12, ∀ middle ∈ Finset.Icc (-12 : ℤ) 12,
      let candidate : BinaryForm :=
        { a := first, b := middle, c := (middle ^ 2 - -459) / (4 * first) }
      candidate.IsPrimitive → candidate.discriminant = -459 → candidate.IsReduced →
        sampleForm (Multiplicative.toAdd
          (sampleParams.qfb0 candidate.a candidate.b candidate.c)) = candidate := by
    decide +kernel
  have positive := reduced.first_pos
  have bound : form.a ≤ 12 := by
    have square := reduced.three_mul_sq_le
    nlinarith
  have lower := reduced.neg_lt_middle
  have upper := reduced.middle_le
  have last := BinaryForm.last_eq_of_discriminant positive.ne' discriminant
  have candidate := table form.a (Finset.mem_Icc.mpr ⟨positive, bound⟩) form.b
    (Finset.mem_Icc.mpr ⟨by omega, by omega⟩)
  rw [← last] at candidate
  exact candidate primitive discriminant reduced

def sampleClasses : sampleParams.FormClasses where
  Member := BinaryForm.IsPrimitive
  representative element := sampleForm (Multiplicative.toAdd element)
  middle_eq _ := rfl
  representative_qfb0 _ primitive discriminant reduced :=
    sampleForm_qfb0 primitive discriminant reduced

theorem clDec_clEnc_two :
    ∃ ciphertext, sampleParams.clEnc 2 (sampleParams.gq ^ 1) 1 = some ciphertext ∧
      sampleParams.clDec ciphertext 1 = some 2 :=
  (clDec_clEnc sampleParams_discriminants sampleClasses
    (fun _ nonzero => plaintextForm_isPrimitive sampleParams_discriminants (by decide) nonzero)
    (by decide : 2 % sampleParams.q ≠ 0) 1 1).2.1

end Sample

end ClParams

end TigerMixer
