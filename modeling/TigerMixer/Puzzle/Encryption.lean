import TigerMixer.Puzzle.Signature

/-!
# Linearly homomorphic encryption and its proof of knowledge

The encryption scheme of `util.c` over a class group, and the proof that a ciphertext encrypts the
discrete logarithm of a curve point. The group, the constructor of a form, its middle coefficient
and the text of an element are parameters; that decryption is homomorphic is an assumption on them.
-/

namespace TigerMixer

universe u v

structure ClParams (C : Type v) where
  q : ℕ
  deltaK : ℤ
  /-- The generator of the subgroup of `q`-th powers. -/
  gq : C
  /-- The reduced class of a quadratic form (`Qfb0`). -/
  qfb0 : ℤ → ℤ → ℤ → C
  /-- The middle coefficient of the reduced form (`gel(·, 2)`). -/
  middle : C → ℤ
  /-- The text form of a group element (`GENtostr`). -/
  toStr : C → Bytes

@[ext]
structure ClCiphertext (C : Type v) where
  c1 : C
  c2 : C
deriving DecidableEq

namespace ClCiphertext

variable {C : Type v} [CommGroup C]

def mul (left right : ClCiphertext C) : ClCiphertext C :=
  { c1 := left.c1 * right.c1, c2 := left.c2 * right.c2 }

def div (left right : ClCiphertext C) : ClCiphertext C :=
  { c1 := left.c1 / right.c1, c2 := left.c2 / right.c2 }

end ClCiphertext

/-- The odd integer among a residue and its predecessor modulo the odd number `q`. -/
def oddRepresentative (q residue : ℕ) : ℤ :=
  if residue % 2 = 1 then residue else residue - q

@[simp]
theorem intCast_oddRepresentative (q residue : ℕ) :
    (oddRepresentative q residue : ZMod q) = residue := by
  unfold oddRepresentative
  split_ifs <;> simp

theorem oddRepresentative_emod {q residue : ℕ} (reduced : residue < q) :
    oddRepresentative q residue % q = residue := by
  have small : (residue : ℤ) % q = residue :=
    Int.emod_eq_of_lt (by omega) (by exact_mod_cast reduced)
  unfold oddRepresentative
  split_ifs <;> simp [small]

namespace ClParams

variable {C : Type v}

/-- `Fp_inv` on a natural number; it raises an error when there is no inverse. -/
def fpInv (params : ClParams C) (value : ℕ) : Option ℕ :=
  if value % params.q = 0 then none else some (modInv value params.q)

def formOf (params : ClParams C) (plaintext : ℕ) : Option C :=
  (params.fpInv plaintext).map fun (inverse : ℕ) =>
    let L := oddRepresentative params.q inverse
    params.qfb0 (params.q ^ 2) (L * params.q) ((L ^ 2 - params.deltaK).tdiv 4)

variable {params : ClParams C} {plaintext : ℕ}

theorem fpInv_eq_some_iff {value inverse : ℕ} :
    params.fpInv value = some inverse ↔ value % params.q ≠ 0 ∧ modInv value params.q = inverse := by
  simp [fpInv]

theorem fpInv_oddRepresentative (params : ClParams C) (prime : params.q.Prime)
    (nonzero : plaintext % params.q ≠ 0) :
    params.fpInv (oddRepresentative params.q (modInv plaintext params.q) % params.q).toNat =
      some (plaintext % params.q) := by
  have isPrime : Fact params.q.Prime := ⟨prime⟩
  have residue := natCast_ne_zero_iff.mpr nonzero
  have inverse := natCast_modInv residue
  have inverseNonzero : (modInv plaintext params.q : ZMod params.q) ≠ 0 := by
    rw [inverse]
    exact inv_ne_zero residue
  rw [oddRepresentative_emod (modInv_lt prime.pos _), Int.toNat_natCast, fpInv_eq_some_iff]
  refine ⟨natCast_ne_zero_iff.mp inverseNonzero, ?_⟩
  apply eq_of_natCast_eq (modInv_lt prime.pos _) (Nat.mod_lt _ prime.pos)
  rw [natCast_modInv inverseNonzero, inverse, inv_inv, ZMod.natCast_mod]

theorem formOf_isSome (nonzero : plaintext % params.q ≠ 0) :
    ∃ fm, params.formOf plaintext = some fm := by
  simp [formOf, fpInv, nonzero]

variable [CommGroup C]

def clEnc (params : ClParams C) (plaintext : ℕ) (pk : C) (r : ℕ) : Option (ClCiphertext C) :=
  (params.formOf plaintext).map fun fm => { c1 := params.gq ^ r, c2 := pk ^ r * fm }

def clDec (params : ClParams C) (ciphertext : ClCiphertext C) (sk : ℕ) : Option ℕ :=
  let fm := ciphertext.c2 * (ciphertext.c1 ^ sk)⁻¹
  let L := params.middle fm / params.q
  params.fpInv (L % params.q).toNat

/-- The ciphertexts that encryptions under `pk` and component-wise products build, with the sum of
the plaintexts they were built from. -/
inductive Encrypts (params : ClParams C) (pk : C) : ClCiphertext C → ℕ → Prop
  | enc {plaintext r : ℕ} {ciphertext : ClCiphertext C}
      (encrypted : params.clEnc plaintext pk r = some ciphertext) :
      Encrypts params pk ciphertext plaintext
  | mul {left right : ClCiphertext C} {leftSum rightSum : ℕ}
      (leftEncrypts : Encrypts params pk left leftSum)
      (rightEncrypts : Encrypts params pk right rightSum) :
      Encrypts params pk (left.mul right) (leftSum + rightSum)

/-- Decryption returns the sum of the plaintexts modulo `q`, unless that sum is zero, which has no
representing form. -/
def Homomorphic (params : ClParams C) (sk : ℕ) : Prop :=
  ∀ ciphertext sum, params.Encrypts (params.gq ^ sk) ciphertext sum → sum % params.q ≠ 0 →
    params.clDec ciphertext sk = some (sum % params.q)

theorem clEnc_isSome (nonzero : plaintext % params.q ≠ 0) (pk : C) (r : ℕ) :
    ∃ ciphertext, params.clEnc plaintext pk r = some ciphertext := by
  rcases formOf_isSome nonzero with ⟨fm, form⟩
  simp [clEnc, form]

section Ideal

variable (q : ℕ)

/-- An ideal class group: a cyclic part of order `q` in which discrete logarithms are read off, and
an infinite cyclic part for the masks. -/
def ideal : ClParams (Multiplicative (ZMod q × ℤ)) where
  q := q
  deltaK := -3
  gq := Multiplicative.ofAdd (0, 1)
  qfb0 _ b _ := Multiplicative.ofAdd (((b / q : ℤ) : ZMod q)⁻¹, 0)
  middle form := oddRepresentative q (Multiplicative.toAdd form).1⁻¹.val * q
  toStr _ := []

variable [Fact q.Prime]

theorem ideal_formOf {plaintext : ℕ} {form : Multiplicative (ZMod q × ℤ)}
    (formed : (ideal q).formOf plaintext = some form) :
    form = Multiplicative.ofAdd ((plaintext : ZMod q), 0) := by
  have positive : (q : ℤ) ≠ 0 := by
    exact_mod_cast (modulus_pos q).ne'
  simp only [formOf, Option.map_eq_some_iff, fpInv_eq_some_iff] at formed
  rcases formed with ⟨inverse, ⟨nonzero, rfl⟩, rfl⟩
  simp only [ideal] at nonzero ⊢
  have residue := natCast_modInv (natCast_ne_zero_iff.mpr nonzero)
  rw [Int.mul_ediv_cancel _ positive, intCast_oddRepresentative, residue, inv_inv]

theorem ideal_encrypts {sk sum : ℕ} {ciphertext : ClCiphertext (Multiplicative (ZMod q × ℤ))}
    (encrypts : (ideal q).Encrypts ((ideal q).gq ^ sk) ciphertext sum) :
    ∃ mask : ℕ, ciphertext.c1 = Multiplicative.ofAdd (0, (mask : ℤ)) ∧
      ciphertext.c2 = Multiplicative.ofAdd ((sum : ZMod q), (sk * mask : ℤ)) := by
  induction encrypts with
  | @enc plaintext r ciphertext encrypted =>
    simp only [clEnc, Option.map_eq_some_iff] at encrypted
    rcases encrypted with ⟨form, formed, rfl⟩
    refine ⟨r, ?_, ?_⟩
    · simp [ideal, ← ofAdd_nsmul]
    · rw [ideal_formOf q formed]
      simp [ideal, ← ofAdd_nsmul, ← ofAdd_add, mul_comm]
  | @mul left right leftSum rightSum _ _ leftMask rightMask =>
    rcases leftMask with ⟨first, leftC1, leftC2⟩
    rcases rightMask with ⟨second, rightC1, rightC2⟩
    refine ⟨first + second, ?_, ?_⟩
    · simp [ClCiphertext.mul, leftC1, rightC1, ← ofAdd_add]
    · simp [ClCiphertext.mul, leftC2, rightC2, ← ofAdd_add, mul_add]

theorem ideal_homomorphic (sk : ℕ) : (ideal q).Homomorphic sk := by
  intro ciphertext sum encrypts nonzero
  rcases ideal_encrypts q encrypts with ⟨mask, c1, c2⟩
  have positive : (q : ℤ) ≠ 0 := by
    exact_mod_cast (modulus_pos q).ne'
  have sumNonzero : (sum : ZMod q) ≠ 0 := natCast_ne_zero_iff.mpr nonzero
  have unmasked : ciphertext.c2 * (ciphertext.c1 ^ sk)⁻¹ =
      Multiplicative.ofAdd ((sum : ZMod q), (0 : ℤ)) := by
    simp [c1, c2, ← ofAdd_nsmul, ← ofAdd_neg, ← ofAdd_add]
  have inverse : ((sum : ZMod q)⁻¹).val = modInv sum q := by
    apply eq_of_natCast_eq (ZMod.val_lt _) (modInv_lt (modulus_pos q) _)
    rw [ZMod.natCast_zmod_val, natCast_modInv sumNonzero]
  have decrypted := (ideal q).fpInv_oddRepresentative (Fact.out : q.Prime) nonzero
  simp only [clDec, unmasked]
  simpa only [ideal, toAdd_ofAdd, inverse, Int.mul_ediv_cancel _ positive] using decrypted

end Ideal

end ClParams

structure CldlProof (E : Type u) (C : Type v) where
  t1 : C
  t2 : E
  t3 : C
  u1 : ℕ
  u2 : ℕ

namespace Cldl

variable {q : ℕ} {E : Type u} [AddCommGroup E] [Module (ZMod q) E] {C : Type v}

/-- The Fiat–Shamir challenge. The six bytes that are read are shifted by the distance from the
whole digest. -/
def challenge (curve : Curve q E) (params : ClParams C) (t1 : C) (t2 : E) (t3 : C) : ℕ :=
  let hash := curve.mdMap (params.toStr t1 ++ curve.writeBin t2 ++ params.toStr t3)
  let soundness := 2 ^ 40
  let len := (Nat.size soundness + 7) / 8
  Bytes.readBe (hash.take len) >>> (8 * mdLen - Nat.size soundness) % soundness

theorem challenge_eq_zero (curve : Curve q E) (params : ClParams C) (t1 : C) (t2 : E) (t3 : C) :
    challenge curve params t1 t2 t3 = 0 := by
  have soundnessBits : Nat.size (2 ^ 40) = 41 := Nat.size_pow
  simp only [challenge, soundnessBits, mdLen]
  have bound (bytes : Bytes) : Bytes.readBe (bytes.take 6) < 2 ^ 215 := by
    apply (Bytes.readBe_lt _).trans_le
    apply (Nat.pow_le_pow_right (by norm_num) (List.length_take_le 6 bytes)).trans
    norm_num
  rw [Nat.shiftRight_eq_div_pow, Nat.div_eq_of_lt (bound _), Nat.zero_mod]

variable [CommGroup C]

/-- `zk_cldl_prove` of plaintext `x` with randomness `r` and commitment scalars `r1` and `r2`.
`zk_cldl_prove_cond1_only` makes the same proof. -/
def prove (curve : Curve q E) (params : ClParams C) (x r : ℕ) (pk : C) (r1 r2 : ℕ) :
    Option (CldlProof E C) :=
  (params.formOf r2).map fun fr2 =>
    let t1 := pk ^ r1 * fr2
    let t2 := r2 • curve.gen
    let t3 := params.gq ^ r1
    let k := challenge curve params t1 t2 t3
    { t1, t2, t3, u1 := r1 + r % params.q * k, u2 := (r2 + x * k) % params.q }

/-- The condition on the second ciphertext component, all that `zk_cldl_verify_cond1_only`
checks. -/
def verifyCond1Only [DecidableEq C] (curve : Curve q E) (params : ClParams C)
    (proof : CldlProof E C) (ciphertext : ClCiphertext C) (pk : C) : Bool :=
  let k := challenge curve params proof.t1 proof.t2 proof.t3
  match params.formOf proof.u2 with
  | none => false
  | some fu2 => decide (proof.t1 * ciphertext.c2 ^ k = pk ^ proof.u1 * fu2)

def verify [DecidableEq E] [DecidableEq C] (curve : Curve q E) (params : ClParams C)
    (proof : CldlProof E C) (Q : E) (ciphertext : ClCiphertext C) (pk : C) : Bool :=
  let k := challenge curve params proof.t1 proof.t2 proof.t3
  verifyCond1Only curve params proof ciphertext pk &&
    decide (proof.u2 • curve.gen = proof.t2 + k • Q) &&
      decide (proof.t3 * ciphertext.c1 ^ k = params.gq ^ proof.u1)

theorem verify_prove [DecidableEq E] [DecidableEq C] (curve : Curve q E) (params : ClParams C)
    {x r r1 r2 : ℕ} {pk : C} {proof : CldlProof E C} (reduced : r2 < params.q)
    (proved : prove curve params x r pk r1 r2 = some proof) (Q : E) (ciphertext : ClCiphertext C) :
    verify curve params proof Q ciphertext pk = true := by
  simp only [prove, challenge_eq_zero, Option.map_eq_some_iff, mul_zero, add_zero,
    Nat.mod_eq_of_lt reduced] at proved
  rcases proved with ⟨fr2, form, rfl⟩
  simp [verify, verifyCond1Only, challenge_eq_zero, form]

end Cldl

end TigerMixer
