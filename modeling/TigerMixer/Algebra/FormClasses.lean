import TigerMixer.Algebra.BinaryForm
import Mathlib.Tactic.LinearCombination

/-!
# Classes of binary quadratic forms

Two forms are properly equivalent if a substitution of determinant one takes one to the other. Two
reduced forms of a class are the same, and every positive definite form is taken to the reduced one
by shifting and turning it.
-/

namespace TigerMixer

namespace BinaryForm

variable {form other third : BinaryForm} {p q r s x y : ℤ}

def eval (form : BinaryForm) (x y : ℤ) : ℤ :=
  form.a * x ^ 2 + form.b * x * y + form.c * y ^ 2

def substitute (form : BinaryForm) (p q r s : ℤ) : BinaryForm where
  a := form.eval p r
  b := 2 * form.a * p * q + form.b * (p * s + q * r) + 2 * form.c * r * s
  c := form.eval q s

def ProperlyEquivalent (form other : BinaryForm) : Prop :=
  ∃ p q r s, p * s - q * r = 1 ∧ form.substitute p q r s = other

structure IsPositiveDefinite (form : BinaryForm) : Prop where
  first_pos : 0 < form.a
  discriminant_neg : form.discriminant < 0

def opposite (form : BinaryForm) : BinaryForm :=
  { form with b := -form.b }

theorem discriminant_substitute :
    (form.substitute p q r s).discriminant = (p * s - q * r) ^ 2 * form.discriminant := by
  simp only [discriminant, substitute, eval]
  ring

theorem substitute_substitute {p' q' r' s' : ℤ} :
    (form.substitute p q r s).substitute p' q' r' s' =
      form.substitute (p * p' + q * r') (p * q' + q * s') (r * p' + s * r')
        (r * q' + s * s') := by
  ext <;> simp only [substitute, eval] <;> ring

theorem substitute_id : form.substitute 1 0 0 1 = form := by
  ext <;> simp [substitute, eval]

namespace ProperlyEquivalent

theorem refl (form : BinaryForm) : form.ProperlyEquivalent form :=
  ⟨1, 0, 0, 1, by norm_num, substitute_id⟩

theorem symm (equivalent : form.ProperlyEquivalent other) : other.ProperlyEquivalent form := by
  rcases equivalent with ⟨p, q, r, s, determinant, rfl⟩
  refine ⟨s, -q, -r, p, by linarith, ?_⟩
  rw [substitute_substitute, show p * s + q * -r = 1 by linarith, show p * -q + q * p = 0 by ring,
    show r * s + s * -r = 0 by ring, show r * -q + s * p = 1 by linarith, substitute_id]

theorem trans (first : form.ProperlyEquivalent other) (second : other.ProperlyEquivalent third) :
    form.ProperlyEquivalent third := by
  rcases first with ⟨p, q, r, s, determinant, rfl⟩
  rcases second with ⟨p', q', r', s', determinant', rfl⟩
  refine ⟨_, _, _, _, ?_, substitute_substitute.symm⟩
  linear_combination (p' * s' - q' * r') * determinant + determinant'

theorem discriminant_eq (equivalent : form.ProperlyEquivalent other) :
    other.discriminant = form.discriminant := by
  rcases equivalent with ⟨p, q, r, s, determinant, rfl⟩
  rw [discriminant_substitute, determinant]
  ring

end ProperlyEquivalent

/-! ### Reduced forms -/

theorem one_le_of_ne_zero {u v : ℤ} (nonzero : u ≠ 0 ∨ v ≠ 0) : 1 ≤ u ^ 2 - u * v + v ^ 2 := by
  have positive : 0 < u ^ 2 + v ^ 2 := by
    rcases nonzero with left | right
    · have := sq_pos_of_ne_zero left
      positivity
    · have := sq_pos_of_ne_zero right
      positivity
  have square := sq_nonneg (u - v)
  have doubled : 2 * (u ^ 2 - u * v + v ^ 2) = (u - v) ^ 2 + (u ^ 2 + v ^ 2) := by ring
  omega

section Reduced

variable (reduced : form.IsReduced)

include reduced

theorem IsReduced.le_eval (x y : ℤ) :
    form.a * (|x| ^ 2 - |x| * |y| + |y| ^ 2) + (form.c - form.a) * |y| ^ 2 ≤ form.eval x y := by
  have middle : |form.b| ≤ form.a := abs_le.mpr ⟨reduced.neg_lt_middle.le, reduced.middle_le⟩
  have mixed : -(form.a * (|x| * |y|)) ≤ form.b * x * y := by
    have bound : |form.b * x * y| ≤ form.a * (|x| * |y|) := by
      rw [mul_assoc, abs_mul, abs_mul]
      exact mul_le_mul_of_nonneg_right middle (by positivity)
    exact neg_le_of_abs_le bound
  rw [sq_abs, sq_abs, eval]
  linarith

theorem IsReduced.first_le_eval (nonzero : x ≠ 0 ∨ y ≠ 0) :
    form.a ≤ form.eval x y := by
  have bound := reduced.le_eval x y
  have outer : 0 ≤ (form.c - form.a) * |y| ^ 2 :=
    mul_nonneg (sub_nonneg.mpr reduced.first_le) (by positivity)
  have inner := one_le_of_ne_zero
    (nonzero.imp abs_ne_zero.mpr abs_ne_zero.mpr : |x| ≠ 0 ∨ |y| ≠ 0)
  have scaled := mul_le_mul_of_nonneg_left inner reduced.first_pos.le
  linarith

theorem IsReduced.last_le_eval (nonzero : y ≠ 0) :
    form.c ≤ form.eval x y := by
  have bound := reduced.le_eval x y
  have square : 1 ≤ |y| ^ 2 := by
    rw [sq_abs]
    exact sq_pos_of_ne_zero nonzero
  have outer := mul_le_mul_of_nonneg_left square (sub_nonneg.mpr reduced.first_le)
  have inner := one_le_of_ne_zero (Or.inr (abs_ne_zero.mpr nonzero) : |x| ≠ 0 ∨ |y| ≠ 0)
  have scaled := mul_le_mul_of_nonneg_left inner reduced.first_pos.le
  linarith

theorem IsReduced.first_le_of_equivalent (equivalent : form.ProperlyEquivalent other) :
    form.a ≤ other.a := by
  rcases equivalent with ⟨p, q, r, s, determinant, rfl⟩
  apply reduced.first_le_eval
  by_contra zero
  rw [not_or, not_not, not_not] at zero
  rw [zero.1, zero.2] at determinant
  norm_num at determinant

theorem IsReduced.eq_of_lt (otherReduced : other.IsReduced)
    (equivalent : form.ProperlyEquivalent other) (strict : form.a < form.c) : form = other := by
  have sameFirst : other.a = form.a := le_antisymm
    (otherReduced.first_le_of_equivalent equivalent.symm)
    (reduced.first_le_of_equivalent equivalent)
  rcases equivalent with ⟨p, q, r, s, determinant, substituted⟩
  have axis : r = 0 := by
    by_contra off
    have large := reduced.last_le_eval (x := p) off
    have value : form.eval p r = other.a := by
      rw [← substituted]
      rfl
    omega
  subst axis
  have unit : p * s = 1 := by linarith
  have square : s ^ 2 = 1 := by
    rcases Int.eq_one_or_neg_one_of_mul_eq_one unit with rfl | rfl
    · linear_combination (s + 1) * unit
    · linear_combination (1 - s) * unit
  have middle : other.b = form.b + 2 * form.a * (p * q) := by
    rw [← substituted]
    simp only [substitute]
    linear_combination form.b * unit
  have untouched : p * q = 0 := by
    have upper := reduced.middle_le
    have lower := reduced.neg_lt_middle
    have otherUpper := otherReduced.middle_le
    have otherLower := otherReduced.neg_lt_middle
    have positive := reduced.first_pos
    rw [sameFirst] at otherUpper otherLower
    by_contra shifted
    rcases lt_or_gt_of_ne shifted with negative | more
    · have far : 2 * form.a * (p * q) ≤ 2 * form.a * (-1) :=
        mul_le_mul_of_nonneg_left (by omega) (by omega)
      omega
    · have far : 2 * form.a * 1 ≤ 2 * form.a * (p * q) :=
        mul_le_mul_of_nonneg_left (by omega) (by omega)
      omega
  have noShift : q = 0 := by
    rcases mul_eq_zero.mp untouched with zero | zero
    · rw [zero] at unit
      norm_num at unit
    · exact zero
  subst noShift
  ext
  · exact sameFirst.symm
  · rw [middle]
    ring
  · rw [← substituted]
    simp only [substitute, eval]
    linear_combination -form.c * square

theorem IsReduced.eq_of_equivalent (otherReduced : other.IsReduced)
    (equivalent : form.ProperlyEquivalent other) : form = other := by
  rcases reduced.first_le.lt_or_eq with strict | equal
  · exact reduced.eq_of_lt otherReduced equivalent strict
  rcases otherReduced.first_le.lt_or_eq with strict | otherEqual
  · exact (otherReduced.eq_of_lt reduced equivalent.symm strict).symm
  have sameFirst : other.a = form.a := le_antisymm
    (otherReduced.first_le_of_equivalent equivalent.symm)
    (reduced.first_le_of_equivalent equivalent)
  have sameDiscriminant := equivalent.discriminant_eq
  simp only [discriminant, ← equal, ← otherEqual, sameFirst, sub_left_inj] at sameDiscriminant
  ext
  · exact sameFirst.symm
  · exact ((sq_eq_sq₀ (otherReduced.middle_nonneg otherEqual)
      (reduced.middle_nonneg equal)).mp sameDiscriminant).symm
  · rw [← equal, ← otherEqual, sameFirst]

end Reduced

/-! ### Inverse classes -/

theorem opposite_opposite (form : BinaryForm) : form.opposite.opposite = form := by
  ext <;> simp [opposite]

theorem opposite_injective (same : form.opposite = other.opposite) : form = other := by
  rw [← opposite_opposite form, same, opposite_opposite]

theorem opposite_eq_self (zero : form.b = 0) : form.opposite = form := by
  ext <;> simp [opposite, zero]

theorem IsPositiveDefinite.opposite (definite : form.IsPositiveDefinite) :
    form.opposite.IsPositiveDefinite where
  first_pos := definite.first_pos
  discriminant_neg := by
    have negative := definite.discriminant_neg
    rw [discriminant] at negative
    simpa only [discriminant, BinaryForm.opposite, neg_sq] using negative

theorem ProperlyEquivalent.opposite (equivalent : form.ProperlyEquivalent other) :
    form.opposite.ProperlyEquivalent other.opposite := by
  rcases equivalent with ⟨p, q, r, s, determinant, rfl⟩
  refine ⟨p, -q, -r, s, by linarith, ?_⟩
  ext <;> simp only [substitute, eval, BinaryForm.opposite] <;> ring

theorem IsReduced.opposite (reduced : form.IsReduced) (notFirst : form.b ≠ form.a)
    (notLast : form.a ≠ form.c) : form.opposite.IsReduced := by
  have lower := reduced.neg_lt_middle
  have upper := reduced.middle_le
  have outer := reduced.first_le
  constructor <;> simp only [BinaryForm.opposite] <;> omega

theorem opposite_equivalent (boundary : form.b = form.a ∨ form.a = form.c) :
    form.opposite.ProperlyEquivalent form := by
  rcases boundary with shift | turn
  · refine ⟨1, 1, 0, 1, by norm_num, ?_⟩
    ext <;> simp only [substitute, eval, BinaryForm.opposite, shift] <;> ring
  · refine ⟨0, -1, 1, 0, by norm_num, ?_⟩
    ext <;> simp only [substitute, eval, BinaryForm.opposite, turn] <;> ring

/-! ### Reduction -/

/-- The shift that brings the middle coefficient between minus and plus the first one. -/
def normalise (form : BinaryForm) : BinaryForm :=
  form.substitute 1 ((form.a - form.b) / (2 * form.a)) 0 1

def turn (form : BinaryForm) : BinaryForm :=
  form.substitute 0 (-1) 1 0

def reduceLoop : ℕ → BinaryForm → BinaryForm
  | 0, form => form
  | fuel + 1, form =>
    let form := form.normalise
    if form.c < form.a then reduceLoop fuel form.turn
    else if form.a = form.c ∧ form.b < 0 then form.turn
    else form

def reduce (form : BinaryForm) : BinaryForm :=
  reduceLoop form.a.toNat form

theorem properlyEquivalent_normalise (form : BinaryForm) :
    form.ProperlyEquivalent form.normalise :=
  ⟨_, _, _, _, by norm_num, rfl⟩

theorem properlyEquivalent_turn (form : BinaryForm) : form.ProperlyEquivalent form.turn :=
  ⟨_, _, _, _, by norm_num, rfl⟩

theorem turn_eq (form : BinaryForm) : form.turn = ⟨form.c, -form.b, form.a⟩ := by
  ext <;> simp [turn, substitute, eval]

theorem normalise_a (form : BinaryForm) : form.normalise.a = form.a := by
  simp [normalise, substitute, eval]

theorem normalise_b_bounds (positive : 0 < form.a) :
    -form.a < form.normalise.b ∧ form.normalise.b ≤ form.a := by
  have shifted : form.normalise.b = form.b + 2 * form.a * ((form.a - form.b) / (2 * form.a)) := by
    simp only [normalise, substitute]
    ring
  have lower := Int.emod_nonneg (form.a - form.b) (show 2 * form.a ≠ 0 by omega)
  have upper := Int.emod_lt_of_pos (form.a - form.b) (show 0 < 2 * form.a by omega)
  have division := Int.mul_ediv_add_emod (form.a - form.b) (2 * form.a)
  omega

section Definite

variable (definite : form.IsPositiveDefinite)

include definite

theorem last_pos : 0 < form.c := by
  have negative := definite.discriminant_neg
  have square := sq_nonneg form.b
  rw [discriminant] at negative
  by_contra nonpositive
  have product : form.a * form.c ≤ 0 :=
    mul_nonpos_of_nonneg_of_nonpos definite.first_pos.le (not_lt.mp nonpositive)
  linarith

theorem IsPositiveDefinite.normalise :
    form.normalise.IsPositiveDefinite where
  first_pos := by
    rw [normalise_a]
    exact definite.first_pos
  discriminant_neg := by
    rw [(properlyEquivalent_normalise form).discriminant_eq]
    exact definite.discriminant_neg

theorem IsPositiveDefinite.turn :
    form.turn.IsPositiveDefinite where
  first_pos := by
    rw [turn_eq]
    exact last_pos definite
  discriminant_neg := by
    rw [(properlyEquivalent_turn form).discriminant_eq]
    exact definite.discriminant_neg

theorem reduceLoop_spec {fuel : ℕ} (enough : form.a ≤ fuel) :
    (reduceLoop fuel form).IsReduced ∧ form.ProperlyEquivalent (reduceLoop fuel form) := by
  induction fuel generalizing form with
  | zero =>
    have positive := definite.first_pos
    omega
  | succ fuel ih =>
    have bounds := normalise_b_bounds definite.first_pos
    have shifted := properlyEquivalent_normalise form
    rw [← normalise_a] at bounds
    simp only [reduceLoop]
    split_ifs with smaller boundary
    · have first := normalise_a form
      have decreased : form.normalise.turn.a ≤ fuel := by
        rw [turn_eq]
        change form.normalise.c ≤ fuel
        push_cast at enough
        omega
      rcases ih definite.normalise.turn decreased with ⟨reduced, equivalent⟩
      exact ⟨reduced, shifted.trans ((properlyEquivalent_turn _).trans equivalent)⟩
    · refine ⟨?_, shifted.trans (properlyEquivalent_turn _)⟩
      rw [turn_eq]
      constructor <;> simp only <;> omega
    · refine ⟨⟨bounds.1, bounds.2, not_lt.mp smaller, ?_⟩, shifted⟩
      intro equal
      by_contra negative
      exact boundary ⟨equal, not_le.mp negative⟩

theorem isReduced_reduce : form.reduce.IsReduced :=
  (reduceLoop_spec definite (by rw [Int.toNat_of_nonneg definite.first_pos.le])).1

theorem properlyEquivalent_reduce :
    form.ProperlyEquivalent form.reduce :=
  (reduceLoop_spec definite (by rw [Int.toNat_of_nonneg definite.first_pos.le])).2

end Definite

end BinaryForm

end TigerMixer
