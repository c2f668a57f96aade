import TigerMixer.Algebra.PrimeOrder

/-!
# Recovery of a public key from a signature

An ECDSA signature `(r, s)` with the parity of the nonce point `R` determines the public key, `r⁻¹ •
(s • R - e • G)`. For a given digest, `r` and key there are exactly two candidates for `s`, which
sum up to the group order.
-/

namespace TigerMixer

universe u

/-- Affine coordinates of the points other than zero, which are determined by the first one and the
parity of the second one. -/
structure Coordinates (E : Type u) [AddCommGroup E] where
  x : E → ℕ
  y : E → ℕ
  eq_or_eq_neg : ∀ {left right : E}, left ≠ 0 → right ≠ 0 → x left = x right →
    left = right ∨ left = -right
  parity_neg : ∀ {point : E}, point ≠ 0 → y (-point) % 2 ≠ y point % 2

namespace PrimeOrderGroup

variable {q : ℕ} {E : Type u} [AddCommGroup E] [Module (ZMod q) E]

def Recovered (group : PrimeOrderGroup q E) (coordinates : Coordinates E)
    (digest parity r s : ℕ) (key : E) : Prop :=
  (0 < r ∧ r < q) ∧ (0 < s ∧ s < q) ∧ ∃ nonce : E, nonce ≠ 0 ∧ coordinates.x nonce = r ∧
    coordinates.y nonce % 2 = parity ∧
    key = (r : ZMod q)⁻¹ • ((s : ZMod q) • nonce - (digest : ZMod q) • group.gen)

section Unique

variable {group : PrimeOrderGroup q E} {coordinates : Coordinates E}
  {digest parity parity' r s s' : ℕ} {key key' : E}

theorem Recovered.unique (recovered : group.Recovered coordinates digest parity r s key)
    (recovered' : group.Recovered coordinates digest parity r s key') : key = key' := by
  rcases recovered with ⟨-, -, nonce, nonzero, x, y, rfl⟩
  rcases recovered' with ⟨-, -, nonce', nonzero', x', y', rfl⟩
  rcases coordinates.eq_or_eq_neg nonzero nonzero' (x.trans x'.symm) with rfl | rfl
  · rfl
  · exact absurd (y.trans y'.symm) (coordinates.parity_neg nonzero')

variable [Fact q.Prime]

theorem eq_zero_of_smul_eq_zero {scalar : ZMod q} {point : E} (nonzero : point ≠ 0)
    (vanishes : scalar • point = 0) : scalar = 0 := by
  by_contra scalarNonzero
  exact nonzero ((IsUnit.mk0 _ scalarNonzero).smul_eq_zero.mp vanishes)

theorem Recovered.eq_or_add_eq (recovered : group.Recovered coordinates digest parity r s key)
    (recovered' : group.Recovered coordinates digest parity' r s' key) :
    s = s' ∧ parity = parity' ∨ s + s' = q := by
  rcases recovered with ⟨⟨rPos, rLt⟩, ⟨sPos, sLt⟩, nonce, nonzero, x, y, rfl⟩
  rcases recovered' with ⟨-, ⟨sPos', sLt'⟩, nonce', nonzero', x', y', same⟩
  have unit : IsUnit (r : ZMod q)⁻¹ := (IsUnit.mk0 _ (natCast_ne_zero_of_lt rPos.ne' rLt)).inv
  have multiples : (s : ZMod q) • nonce = (s' : ZMod q) • nonce' :=
    sub_left_inj.mp (unit.smul_left_cancel.mp same)
  rcases coordinates.eq_or_eq_neg nonzero nonzero' (x.trans x'.symm) with rfl | rfl
  · left
    refine ⟨?_, y.symm.trans y'⟩
    have difference : ((s : ZMod q) - s') • nonce = 0 := by
      rw [sub_smul, multiples, sub_self]
    have equal := eq_zero_of_smul_eq_zero nonzero difference
    exact eq_of_natCast_eq sLt sLt' (sub_eq_zero.mp equal)
  · right
    have sum : ((s + s' : ℕ) : ZMod q) • nonce' = 0 := by
      rw [Nat.cast_add, add_smul, ← multiples, smul_neg, add_neg_cancel]
    have vanishes := eq_zero_of_smul_eq_zero nonzero' sum
    rcases (ZMod.natCast_eq_zero_iff _ _).mp vanishes with ⟨factor, product⟩
    have one : factor = 1 := by
      have below : factor < 2 := by nlinarith
      have above : 0 < factor := by
        rcases Nat.eq_zero_or_pos factor with rfl | positive
        · omega
        · exact positive
      omega
    rw [product, one, mul_one]

end Unique

end PrimeOrderGroup

end TigerMixer
