import TigerMixer.Algebra.FormClasses

/-!
# Canonical forms

A form is reduced by PARI's `qfbred`, a negative middle coefficient is made positive and the result
is reduced again. The change of sign is a step to the inverse class, so canonical forms decide
equivalence exactly if neither reduced form has a negative middle coefficient. What the comparison
decides is equivalence up to inversion.
-/

namespace TigerMixer.Puzzle

open BinaryForm

/-- What the functions are called with: no pointer, the constant `gen_0`, or a form. -/
inductive FormPointer where
  | null
  | genZero
  | qfb (form : BinaryForm)
deriving DecidableEq, Repr

def canonicalSigns (reduced : BinaryForm) : BinaryForm :=
  if reduced.b < 0 then { reduced with b := -reduced.b }
  else if reduced.b = 0 ∧ reduced.a < 0 then { reduced with a := -reduced.a, c := -reduced.c }
  else reduced

def qfbCanonical (qfbred : BinaryForm → BinaryForm) : FormPointer → FormPointer
  | .null => .null
  | .genZero => .null
  | .qfb form => .qfb (qfbred (canonicalSigns (qfbred form)))

/-- The comparison; `none` if `gequal` or `gunclone` is given no pointer. -/
def qfbIsEquivalent (qfbred : BinaryForm → BinaryForm) (qfb1 qfb2 : FormPointer) : Option Bool :=
  if qfb1 = .null ∨ qfb2 = .null then some false
  else
    match qfbCanonical qfbred qfb1, qfbCanonical qfbred qfb2 with
    | .qfb canon1, .qfb canon2 => some (canon1 = canon2)
    | _, _ => none

/-- On positive definite forms, `qfbred` returns the reduced form of the proper class. -/
structure Reduces (qfbred : BinaryForm → BinaryForm) : Prop where
  isReduced : ∀ form : BinaryForm, form.IsPositiveDefinite → (qfbred form).IsReduced
  equivalent : ∀ form : BinaryForm, form.IsPositiveDefinite → form.ProperlyEquivalent (qfbred form)

theorem reduces_reduce : Reduces reduce where
  isReduced _ definite := isReduced_reduce definite
  equivalent _ definite := properlyEquivalent_reduce definite

variable {qfbred : BinaryForm → BinaryForm} {form other : BinaryForm}

namespace Reduces

variable (reduces : Reduces qfbred) (definite : form.IsPositiveDefinite)

include reduces definite

theorem isPositiveDefinite :
    (qfbred form).IsPositiveDefinite where
  first_pos := (reduces.isReduced form definite).first_pos
  discriminant_neg := by
    rw [(reduces.equivalent form definite).discriminant_eq]
    exact definite.discriminant_neg

theorem eq_of_isReduced (reduced : form.IsReduced) : qfbred form = form :=
  (reduced.eq_of_equivalent (reduces.isReduced form definite)
    (reduces.equivalent form definite)).symm

theorem eq_iff (otherDefinite : other.IsPositiveDefinite) :
    qfbred form = qfbred other ↔ form.ProperlyEquivalent other := by
  have forward := reduces.equivalent form definite
  have backward := (reduces.equivalent other otherDefinite).symm
  constructor
  · intro same
    rw [← same] at backward
    exact forward.trans backward
  · intro equivalent
    exact (reduces.isReduced form definite).eq_of_equivalent
      (reduces.isReduced other otherDefinite)
      (forward.symm.trans (equivalent.trans backward.symm))

end Reduces

/-! ### The change of sign -/

theorem canonicalSigns_of_nonneg (positive : 0 < form.a) (nonneg : 0 ≤ form.b) :
    canonicalSigns form = form := by
  rw [canonicalSigns, if_neg (by omega), if_neg (by omega)]

theorem canonicalSigns_of_neg (negative : form.b < 0) : canonicalSigns form = form.opposite := by
  rw [canonicalSigns, if_pos negative]
  rfl

theorem canonicalSigns_b_nonneg (form : BinaryForm) : 0 ≤ (canonicalSigns form).b := by
  rw [canonicalSigns]
  split_ifs with negative boundary
  · simp only [Left.nonneg_neg_iff]
    omega
  · exact boundary.1.ge
  · omega

theorem isReduced_canonicalSigns (reduced : form.IsReduced) : (canonicalSigns form).IsReduced := by
  rcases lt_or_ge form.b 0 with negative | nonneg
  · have lower := reduced.neg_lt_middle
    rw [canonicalSigns_of_neg negative]
    refine ⟨?_, ?_, reduced.first_le, ?_⟩ <;> simp only [opposite] <;> omega
  · rwa [canonicalSigns_of_nonneg reduced.first_pos nonneg]

theorem isPositiveDefinite_canonicalSigns (definite : form.IsPositiveDefinite) :
    (canonicalSigns form).IsPositiveDefinite := by
  rcases lt_or_ge form.b 0 with negative | nonneg
  · rw [canonicalSigns_of_neg negative]
    exact definite.opposite
  · rwa [canonicalSigns_of_nonneg definite.first_pos nonneg]

theorem canonicalSigns_eq_iff (reduced : form.IsReduced) (otherReduced : other.IsReduced) :
    canonicalSigns form = canonicalSigns other ↔
      form.ProperlyEquivalent other ∨ form.ProperlyEquivalent other.opposite := by
  constructor
  · intro same
    rcases lt_or_ge form.b 0 with negative | nonneg
    · rw [canonicalSigns_of_neg negative] at same
      rcases lt_or_ge other.b 0 with otherNegative | otherNonneg
      · rw [canonicalSigns_of_neg otherNegative] at same
        rw [opposite_injective same]
        exact .inl (.refl other)
      · rw [canonicalSigns_of_nonneg otherReduced.first_pos otherNonneg] at same
        rw [← same, opposite_opposite]
        exact .inr (.refl form)
    · rw [canonicalSigns_of_nonneg reduced.first_pos nonneg] at same
      rw [same]
      rcases lt_or_ge other.b 0 with otherNegative | otherNonneg
      · rw [canonicalSigns_of_neg otherNegative]
        exact .inr (.refl _)
      · rw [canonicalSigns_of_nonneg otherReduced.first_pos otherNonneg]
        exact .inl (.refl other)
  · rintro (equivalent | inverse)
    · rw [reduced.eq_of_equivalent otherReduced equivalent]
    · -- on the boundary the inverse class is the class itself
      by_cases ambiguous : other.b = other.a ∨ other.a = other.c
      · have equivalent := inverse.trans (opposite_equivalent ambiguous)
        rw [reduced.eq_of_equivalent otherReduced equivalent]
      · rw [not_or] at ambiguous
        have opposite := otherReduced.opposite ambiguous.1 ambiguous.2
        rw [reduced.eq_of_equivalent opposite inverse]
        rcases lt_trichotomy other.b 0 with negative | zero | positive
        · rw [canonicalSigns_of_neg negative]
          apply canonicalSigns_of_nonneg opposite.first_pos
          simp only [BinaryForm.opposite]
          omega
        · rw [opposite_eq_self zero]
        · rw [canonicalSigns_of_nonneg otherReduced.first_pos positive.le,
            canonicalSigns_of_neg (by simp only [BinaryForm.opposite]; omega),
            opposite_opposite]

/-! ### The comparison -/

section Definite

variable (reduces : Reduces qfbred) (definite : form.IsPositiveDefinite)

include reduces definite

theorem qfbCanonical_qfb :
    qfbCanonical qfbred (.qfb form) = .qfb (canonicalSigns (qfbred form)) := by
  rw [qfbCanonical, reduces.eq_of_isReduced
    (isPositiveDefinite_canonicalSigns (reduces.isPositiveDefinite definite))
    (isReduced_canonicalSigns (reduces.isReduced form definite))]

theorem qfbIsEquivalent_qfb (otherDefinite : other.IsPositiveDefinite) :
    qfbIsEquivalent qfbred (.qfb form) (.qfb other) =
      some (decide (canonicalSigns (qfbred form) = canonicalSigns (qfbred other))) := by
  rw [qfbIsEquivalent, if_neg (by simp), qfbCanonical_qfb reduces definite,
    qfbCanonical_qfb reduces otherDefinite]

/-- The comparison does not tell a class from its inverse. -/
theorem qfbIsEquivalent_eq_some_true_iff (otherDefinite : other.IsPositiveDefinite) :
    qfbIsEquivalent qfbred (.qfb form) (.qfb other) = some true ↔
      form.ProperlyEquivalent other ∨ form.ProperlyEquivalent other.opposite := by
  have same := reduces.equivalent form definite
  have otherSame := reduces.equivalent other otherDefinite
  rw [qfbIsEquivalent_qfb reduces definite otherDefinite, Option.some_inj, decide_eq_true_iff,
    canonicalSigns_eq_iff (reduces.isReduced form definite)
      (reduces.isReduced other otherDefinite)]
  constructor
  · exact Or.imp (fun equivalent => same.trans (equivalent.trans otherSame.symm))
      (fun inverse => same.trans (inverse.trans otherSame.opposite.symm))
  · exact Or.imp (fun equivalent => same.symm.trans (equivalent.trans otherSame))
      (fun inverse => same.symm.trans (inverse.trans otherSame.opposite))

end Definite

theorem qfbIsEquivalent_two_one_three :
    ProperlyEquivalent ⟨2, 1, 3⟩ ⟨3, -5, 4⟩ ∨ ProperlyEquivalent ⟨2, 1, 3⟩ ⟨3, 5, 4⟩ :=
  (qfbIsEquivalent_eq_some_true_iff reduces_reduce ⟨by decide, by decide⟩
    ⟨by decide, by decide⟩).mp (by decide)

def Faithful (qfbred : BinaryForm → BinaryForm) (form : BinaryForm) : Prop :=
  ∃ canonical, qfbCanonical qfbred (.qfb form) = .qfb canonical ∧ form.ProperlyEquivalent canonical

theorem faithful_iff (reduces : Reduces qfbred) (definite : form.IsPositiveDefinite) :
    Faithful qfbred form ↔ 0 ≤ (qfbred form).b := by
  have reduced := reduces.isReduced form definite
  have same := reduces.equivalent form definite
  constructor
  · rintro ⟨canonical, computed, equivalent⟩
    rw [qfbCanonical_qfb reduces definite, FormPointer.qfb.injEq] at computed
    subst computed
    rw [reduced.eq_of_equivalent (isReduced_canonicalSigns reduced) (same.symm.trans equivalent)]
    exact canonicalSigns_b_nonneg _
  · intro nonneg
    refine ⟨_, qfbCanonical_qfb reduces definite, ?_⟩
    rwa [canonicalSigns_of_nonneg reduced.first_pos nonneg]

/-- The canonical forms stay in their classes, and comparing them decides equivalence, exactly if
neither reduced form has a negative middle coefficient. -/
theorem qfbCanonical_faithful_iff (reduces : Reduces qfbred) (definite : form.IsPositiveDefinite)
    (otherDefinite : other.IsPositiveDefinite) :
    (Faithful qfbred form ∧ Faithful qfbred other ∧
        (qfbIsEquivalent qfbred (.qfb form) (.qfb other) = some true ↔
          form.ProperlyEquivalent other)) ↔
      0 ≤ (qfbred form).b ∧ 0 ≤ (qfbred other).b := by
  rw [faithful_iff reduces definite, faithful_iff reduces otherDefinite]
  constructor
  · rintro ⟨nonneg, otherNonneg, _⟩
    exact ⟨nonneg, otherNonneg⟩
  · rintro ⟨nonneg, otherNonneg⟩
    refine ⟨nonneg, otherNonneg, ?_⟩
    rw [qfbIsEquivalent_qfb reduces definite otherDefinite, Option.some_inj, decide_eq_true_iff,
      canonicalSigns_of_nonneg (reduces.isReduced form definite).first_pos nonneg,
      canonicalSigns_of_nonneg (reduces.isReduced other otherDefinite).first_pos otherNonneg]
    exact reduces.eq_iff definite otherDefinite

theorem qfbCanonical_faithful_example :
    Faithful reduce ⟨2, 1, 3⟩ ∧ Faithful reduce ⟨3, 5, 4⟩ ∧
      (qfbIsEquivalent reduce (.qfb ⟨2, 1, 3⟩) (.qfb ⟨3, 5, 4⟩) = some true ↔
        ProperlyEquivalent ⟨2, 1, 3⟩ ⟨3, 5, 4⟩) :=
  (qfbCanonical_faithful_iff reduces_reduce ⟨by decide, by decide⟩ ⟨by decide, by decide⟩).mpr
    ⟨by decide, by decide⟩

/-- Two inverse forms of discriminant `-23` and order three are reported to be equivalent. -/
theorem qfbIsEquivalent_inverse_classes :
    IsPrimitive ⟨2, 1, 3⟩ ∧ IsPositiveDefinite ⟨2, 1, 3⟩ ∧
      IsPrimitive ⟨2, -1, 3⟩ ∧ IsPositiveDefinite ⟨2, -1, 3⟩ ∧
      discriminant ⟨2, 1, 3⟩ = -23 ∧ discriminant ⟨2, -1, 3⟩ = -23 ∧
      ¬ ProperlyEquivalent ⟨2, 1, 3⟩ ⟨2, -1, 3⟩ ∧
      qfbIsEquivalent reduce (.qfb ⟨2, 1, 3⟩) (.qfb ⟨2, -1, 3⟩) = some true ∧
      ¬ Faithful reduce ⟨2, -1, 3⟩ := by
  have inverse : IsPositiveDefinite ⟨2, -1, 3⟩ := ⟨by decide, by decide⟩
  refine ⟨by decide, ⟨by decide, by decide⟩, by decide, inverse, by decide, by decide, ?_,
    by decide, ?_⟩
  · intro equivalent
    have reduced : IsReduced ⟨2, 1, 3⟩ := by decide
    have otherReduced : IsReduced ⟨2, -1, 3⟩ := by decide
    exact absurd (reduced.eq_of_equivalent otherReduced equivalent) (by decide)
  · rw [faithful_iff reduces_reduce inverse]
    decide

end TigerMixer.Puzzle
