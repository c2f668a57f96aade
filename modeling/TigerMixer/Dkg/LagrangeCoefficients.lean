import TigerMixer.Dkg.KeyCorrectness

/-!
# Three ways to compute a Lagrange coefficient

`lagrange_coefficient_ec` and the reconstruction of the key always agree.
`dkg_compute_lagrange_coefficient` makes a number near `2 ^ 64` of a negative difference. It agrees
with the others exactly if its denominators have the right product.
-/

namespace TigerMixer.Dkg

open Finset SecretShare Interpolation

/-- One iteration of the loop in `dkg_compute_lagrange_coefficient`. Without an inverse,
`bn_mod_inv` throws. -/
def dkgLagrangeStep (order : ℕ) (targetId : ℤ) (coeff : ℕ) (otherId : ℤ) : Option ℕ :=
  if otherId = targetId then some coeff
  else
    let denominator := digit (otherId - targetId)
    if Nat.gcd denominator order = 1 then
      some (coeff * (digit otherId * modInv denominator order % order) % order)
    else none

def dkgLagrangeLoop (participantIds : ℕ → ℤ) (targetId : ℤ) (order iterations : ℕ) : Option ℕ :=
  (List.range iterations).foldlM
    (fun coeff j => dkgLagrangeStep order targetId coeff (participantIds j)) 1

def dkgComputeLagrangeCoefficient (participantIds : ℕ → ℤ) (numParticipants : ℕ) (targetId : ℤ)
    (order : ℕ) : Option ℕ :=
  if numParticipants < 2 then none
  else dkgLagrangeLoop participantIds targetId order numParticipants

section Coefficients

variable {order : ℕ} [Fact order.Prime] {participantIds : ℕ → ℤ} {count i j : ℕ}

def coefficient (order : ℕ) [Fact order.Prime] (participantIds : ℕ → ℤ) (i count : ℕ) :
    ZMod order :=
  weight ((List.range count).map fun j => (participantIds j : ZMod order))
    (participantIds i)

def denominators (order : ℕ) (participantIds : ℕ → ℤ) (i count : ℕ) : ZMod order :=
  ∏ j ∈ range count with j ≠ i, (digit (participantIds j - participantIds i) : ZMod order)

def differences (order : ℕ) (participantIds : ℕ → ℤ) (i count : ℕ) : ZMod order :=
  ∏ j ∈ range count with j ≠ i, (participantIds j - participantIds i : ZMod order)

theorem gcd_eq_one_iff {value : ℕ} : Nat.gcd value order = 1 ↔ (value : ZMod order) ≠ 0 := by
  rw [Ne, ZMod.natCast_eq_zero_iff, Nat.gcd_comm, ← Nat.coprime_iff_gcd_eq_one,
    Nat.Prime.coprime_iff_not_dvd Fact.out]

theorem exists_dkgLagrangeStep {xi xj : ℤ} (nonneg : 0 ≤ xj)
    (apart : (xi : ZMod order) ≠ (xj : ZMod order)) (coeff : ℕ)
    (nonzero : (digit (xj - xi) : ZMod order) ≠ 0) :
    ∃ next, dkgLagrangeStep order xi coeff xj = some next ∧
      (next : ZMod order) * digit (xj - xi) = coeff * factor (xi : ZMod order) xj * (xj - xi) := by
  refine ⟨coeff * (digit xj * modInv (digit (xj - xi)) order % order) % order, ?_, ?_⟩
  · rw [dkgLagrangeStep, if_neg fun same => apart (by rw [same])]
    exact if_pos (gcd_eq_one_iff.2 nonzero)
  · have numerator : (digit xj : ZMod order) = xj := by
      rw [← Int.cast_natCast, digit_of_nonneg nonneg]
    have difference : (xi : ZMod order) - xj ≠ 0 := sub_ne_zero.2 apart
    rw [ZMod.natCast_mod, Nat.cast_mul, ZMod.natCast_mod, Nat.cast_mul, natCast_modInv nonzero,
      numerator, factor]
    field_simp
    ring

theorem denominators_succ : denominators order participantIds i (j + 1) =
    denominators order participantIds i j *
      if j = i then 1 else (digit (participantIds j - participantIds i) : ZMod order) := by
  simp only [denominators, prod_filter, prod_range_succ, ne_eq, ite_not]

theorem differences_succ : differences order participantIds i (j + 1) =
    differences order participantIds i j *
      if j = i then 1 else (participantIds j - participantIds i : ZMod order) := by
  simp only [differences, prod_filter, prod_range_succ, ne_eq, ite_not]

variable (distinct : Distinct order count participantIds) (iLt : i < count)

include distinct iLt

theorem coefficient_succ (jLt : j < count) : coefficient order participantIds i (j + 1) =
    coefficient order participantIds i j * if j = i then 1
      else factor (participantIds i : ZMod order) (participantIds j) := by
  have same : (participantIds j : ZMod order) = participantIds i ↔ j = i :=
    ⟨distinct.eq_of_intCast_eq jLt iLt, fun same => by rw [same]⟩
  simp [coefficient, weight, List.range_succ, same]

theorem differences_ne_zero : differences order participantIds i count ≠ 0 := by
  rw [differences, prod_ne_zero_iff]
  intro j member
  rw [mem_filter, mem_range] at member
  exact sub_ne_zero.2 fun same => member.2 (distinct.eq_of_intCast_eq member.1 iLt same)

theorem coefficient_ne_zero {n : ℕ} (inside : n ≤ count) :
    coefficient order participantIds i n ≠ 0 := by
  induction n with
  | zero => simp [coefficient, weight]
  | succ j ih =>
    rw [coefficient_succ distinct iLt inside]
    refine mul_ne_zero (ih (Nat.le_of_succ_le inside)) ?_
    split_ifs with same
    · exact one_ne_zero
    · have low := distinct.low j inside
      have high := distinct.high j inside
      refine mul_ne_zero (neg_ne_zero.2 fun zero => ?_) (inv_ne_zero (sub_ne_zero.2 ?_))
      · rw [ZMod.intCast_zmod_eq_zero_iff_dvd] at zero
        have := Int.le_of_dvd (by omega) zero
        omega
      · exact fun equal => same (distinct.eq_of_intCast_eq iLt inside equal).symm

omit [Fact order.Prime] distinct iLt in
theorem dkgLagrangeLoop_succ (xi : ℤ) : dkgLagrangeLoop participantIds xi order (j + 1) =
    (dkgLagrangeLoop participantIds xi order j).bind fun coeff =>
      dkgLagrangeStep order xi coeff (participantIds j) := by
  simp [dkgLagrangeLoop, List.range_succ]

theorem dkgLagrangeLoop_spec {n : ℕ} (inside : n ≤ count) :
    (denominators order participantIds i n = 0 →
      dkgLagrangeLoop participantIds (participantIds i) order n = none) ∧
    (denominators order participantIds i n ≠ 0 → ∃ coeff,
      dkgLagrangeLoop participantIds (participantIds i) order n = some coeff ∧
      (coeff : ZMod order) * denominators order participantIds i n =
        coefficient order participantIds i n * differences order participantIds i n) := by
  induction n with
  | zero => simp [denominators, differences, coefficient, Interpolation.weight, dkgLagrangeLoop]
  | succ j ih =>
    specialize ih (Nat.le_of_succ_le inside)
    rw [dkgLagrangeLoop_succ, denominators_succ, differences_succ,
      coefficient_succ distinct iLt inside]
    by_cases same : j = i
    · subst same
      simpa [dkgLagrangeStep] using ih
    · have apart : participantIds j ≠ participantIds i :=
        fun equal => same (distinct.inj j inside i iLt equal)
      have low := distinct.low j inside
      simp only [if_neg same, mul_eq_zero, mul_ne_zero_iff]
      by_cases before : denominators order participantIds i j = 0
      · simp [before, ih.1]
      · rcases ih.2 before with ⟨coeff, found, product⟩
        simp only [before, found, Option.bind_some, false_or, ne_eq, not_false_eq_true, true_and]
        refine ⟨fun zero => ?_, fun nonzero => ?_⟩
        · rw [dkgLagrangeStep, if_neg apart]
          exact if_neg fun coprime => gcd_eq_one_iff.1 coprime zero
        rcases exists_dkgLagrangeStep (by omega)
          (fun equal => same (distinct.eq_of_intCast_eq iLt inside equal).symm) coeff nonzero with
          ⟨next, stepped, factor⟩
        refine ⟨next, stepped, ?_⟩
        calc (next : ZMod order) * (denominators order participantIds i j * _)
            = denominators order participantIds i j * (next * _) := mul_left_comm ..
          _ = Interpolation.factor (participantIds i : ZMod order) (participantIds j) *
                (participantIds j - participantIds i) *
                (coeff * denominators order participantIds i j) := by
            rw [factor]
            ring
          _ = _ := by
            rw [product]
            ring

theorem natCast_lagrangeCoefficientEc_eq :
    (lagrangeCoefficientEc order (participantIds i) ((List.range count).map participantIds) :
      ZMod order) = coefficient order participantIds i count := by
  have cast : ∀ j < count, (digit (participantIds j) : ZMod order) = participantIds j := by
    intro j jLt
    rw [← Int.cast_natCast, digit_of_nonneg (by have := distinct.low j jLt; omega)]
  rw [natCast_lagrangeCoefficientEc, cast i iLt, List.map_map, coefficient]
  · congr 1
    exact List.map_congr_left fun j member => cast j (List.mem_range.1 member)
  · simp only [List.mem_map, List.mem_range]
    rintro _ ⟨j, jLt, rfl⟩ same
    rw [cast j jLt, cast i iLt] at same
    rw [distinct.eq_of_intCast_eq jLt iLt same]

end Coefficients

/-- The two other ways agree, and `dkg_compute_lagrange_coefficient` with them exactly if there are
at least two participants and its denominators have the right product. -/
theorem lagrange_agree_iff {order : ℕ} [Fact order.Prime] {participantIds : ℕ → ℤ} {count i : ℕ}
    (distinct : Distinct order count participantIds) (inside : i < count) :
    let ec := lagrangeCoefficientEc order (participantIds i) ((List.range count).map participantIds)
    lagrangeCoeff order participantIds count i ≡ ec [MOD order] ∧
    ((∃ coeff, dkgComputeLagrangeCoefficient participantIds count (participantIds i) order =
        some coeff ∧ coeff ≡ ec [MOD order]) ↔
      2 ≤ count ∧ ∏ j ∈ range count with j ≠ i, (digit (participantIds j - participantIds i) : ℤ) ≡
        ∏ j ∈ range count with j ≠ i, (participantIds j - participantIds i) [ZMOD order]) := by
  simp only [← ZMod.natCast_eq_natCast_iff, ← ZMod.intCast_eq_intCast_iff,
    natCast_lagrangeCoefficientEc_eq distinct inside]
  refine ⟨(natCast_lagrangeCoeff distinct.apart inside).trans (distinct.prod_eq_weight inside), ?_⟩
  have nonzero := differences_ne_zero distinct inside
  have weight := coefficient_ne_zero distinct inside le_rfl
  rcases dkgLagrangeLoop_spec distinct inside le_rfl with ⟨fails, succeeds⟩
  push_cast
  change _ ↔ _ ∧ denominators order participantIds i count =
    differences order participantIds i count
  rw [dkgComputeLagrangeCoefficient]
  split_ifs with few
  · simp [not_le.2 few]
  · constructor
    · rintro ⟨coeff, found, right⟩
      refine ⟨not_lt.1 few, mul_left_cancel₀ weight ?_⟩
      by_cases zero : denominators order participantIds i count = 0
      · rw [fails zero] at found
        cases found
      · rcases succeeds zero with ⟨_, returned, product⟩
        rw [found, Option.some.injEq] at returned
        rwa [← returned, right] at product
    · rintro ⟨-, same⟩
      rcases succeeds (same ▸ nonzero) with ⟨coeff, found, product⟩
      refine ⟨coeff, found, mul_right_cancel₀ nonzero ?_⟩
      rwa [same] at product

theorem lagrange_agree_first :
    ∃ coeff, dkgComputeLagrangeCoefficient (fun j => j + 1) 3 1 secp256k1Order = some coeff ∧
      coeff ≡ lagrangeCoefficientEc secp256k1Order 1 [1, 2, 3] [MOD secp256k1Order] :=
  ((@lagrange_agree_iff secp256k1Order ⟨prime_secp256k1Order⟩ (fun j => j + 1) 3 0
    ⟨by decide, by decide +kernel, by decide⟩ (by decide)).2).2 ⟨by decide, by decide +kernel⟩

theorem lagrange_differ :
    lagrangeCoefficientEc secp256k1Order 2 [1, 2] = secp256k1Order - 1 ∧
    ∃ coeff, dkgComputeLagrangeCoefficient (fun j => j + 1) 2 2 secp256k1Order = some coeff ∧
      ¬coeff ≡ secp256k1Order - 1 [MOD secp256k1Order] := by
  refine ⟨by decide +kernel, ?_⟩
  rcases Option.isSome_iff_exists.1 (by decide +kernel : (dkgComputeLagrangeCoefficient
    (fun j => j + 1) 2 2 secp256k1Order).isSome) with ⟨coeff, found⟩
  refine ⟨coeff, found, ?_⟩
  exact (by decide +kernel : ∀ coeff, dkgComputeLagrangeCoefficient (fun j => j + 1) 2 2
    secp256k1Order = some coeff → ¬coeff ≡ secp256k1Order - 1 [MOD secp256k1Order]) coeff found

end TigerMixer.Dkg
