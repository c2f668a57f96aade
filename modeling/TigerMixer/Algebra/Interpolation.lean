import Mathlib.LinearAlgebra.Lagrange

/-!
# Interpolation at zero

A dealer hides a field element as the value at zero of a polynomial of bounded degree and hands out
its values at other nodes. As many values as there are coefficients determine the value at zero;
fewer values determine nothing.
-/

namespace TigerMixer.Interpolation

open Polynomial Finset

universe u v

variable {F : Type u}

section Evaluation

variable [CommRing F]

def evaluate (count : ℕ) (coeffs : ℕ → F) (node : F) : F :=
  ∑ index ∈ range count, coeffs index * node ^ index

theorem foldr_range_horner (count : ℕ) (coeffs : ℕ → F) (node : F) :
    (List.range count).foldr (fun index value => value * node + coeffs index) 0 =
      evaluate count coeffs node := by
  induction count generalizing coeffs with
  | zero => simp [evaluate]
  | succ count ih =>
    -- the lowest coefficient is added last; the others are the same polynomial shifted
    have shifted := ih fun index => coeffs (index + 1)
    simp only [List.range_succ_eq_map, List.foldr_cons, List.foldr_map] at shifted ⊢
    rw [shifted, evaluate, evaluate, sum_range_succ', sum_mul]
    simp [pow_succ, mul_assoc]

@[simp]
theorem evaluate_zero (count : ℕ) (coeffs : ℕ → F) :
    evaluate (count + 1) coeffs 0 = coeffs 0 := by
  simp [evaluate, sum_range_succ']

theorem evaluate_sum {ι : Type v} (dealers : Finset ι) (count : ℕ) (coeffs : ι → ℕ → F) (node : F) :
    evaluate count (fun index => ∑ dealer ∈ dealers, coeffs dealer index) node =
      ∑ dealer ∈ dealers, evaluate count (coeffs dealer) node := by
  simp only [evaluate, sum_mul]
  exact sum_comm

theorem evaluate_congr {count : ℕ} {left right : ℕ → F} (node : F)
    (agree : ∀ index < count, left index = right index) :
    evaluate count left node = evaluate count right node := by
  apply sum_congr rfl
  intro index member
  rw [agree index (mem_range.mp member)]

noncomputable def polynomial (count : ℕ) (coeffs : ℕ → F) : F[X] :=
  ∑ index ∈ range count, C (coeffs index) * X ^ index

theorem eval_polynomial (count : ℕ) (coeffs : ℕ → F) (node : F) :
    (polynomial count coeffs).eval node = evaluate count coeffs node := by
  simp [polynomial, evaluate, eval_finsetSum]

theorem degree_polynomial_lt (count : ℕ) (coeffs : ℕ → F) :
    (polynomial count coeffs).degree < count := by
  apply mem_degreeLT.mp
  apply Submodule.sum_mem
  intro index member
  apply mem_degreeLT.mpr
  apply lt_of_le_of_lt (degree_C_mul_X_pow_le index _)
  exact_mod_cast mem_range.mp member

end Evaluation

section Recovery

variable [Field F]

/-- The factor that node `other` contributes to the weight of `node`. -/
def factor (node other : F) : F :=
  -other * (node - other)⁻¹

theorem eval_zero_basisDivisor (node other : F) :
    (Lagrange.basisDivisor node other).eval 0 = factor node other := by
  simp only [Lagrange.basisDivisor, factor, eval_mul, eval_C, eval_sub, eval_X]
  ring

variable [DecidableEq F]

/-- The weight at zero of the value at `node`; repetitions of `node` contribute nothing. -/
def weight (nodes : List F) (node : F) : F :=
  (nodes.map fun other => if other = node then 1 else factor node other).prod

def atZero (points : List (F × F)) : F :=
  (points.map fun point => point.2 * weight (points.map Prod.fst) point.1).sum

theorem weight_eq_eval_basis {nodes : List F} (distinct : nodes.Nodup) {node : F}
    (member : node ∈ nodes) :
    weight nodes node = (Lagrange.basis nodes.toFinset id node).eval 0 := by
  have memberFinset : node ∈ nodes.toFinset := List.mem_toFinset.mpr member
  rw [Lagrange.basis, eval_prod, weight, ← List.prod_toFinset _ distinct,
    ← mul_prod_erase _ _ memberFinset, if_pos rfl, one_mul]
  apply prod_congr rfl
  intro other otherMember
  rw [if_neg (ne_of_mem_erase otherMember), id, id, eval_zero_basisDivisor]

theorem atZero_eq_of_eval {points : List (F × F)} (distinct : (points.map Prod.fst).Nodup)
    {dealt : F[X]} (degree : dealt.degree < points.length)
    (values : ∀ point ∈ points, point.2 = dealt.eval point.1) :
    atZero points = dealt.eval 0 := by
  have card : (points.map Prod.fst).toFinset.card = points.length := by
    rw [List.toFinset_card_of_nodup distinct, List.length_map]
  have interpolated := Lagrange.eq_interpolate (s := (points.map Prod.fst).toFinset) (v := id)
    (f := dealt) (Set.injOn_id _) (by rwa [card])
  have weighted : atZero points = ((points.map Prod.fst).map fun node =>
      dealt.eval node * weight (points.map Prod.fst) node).sum := by
    rw [atZero, List.map_map]
    congr 1
    apply List.map_congr_left
    intro point member
    simp only [Function.comp_apply, values point member]
  have expanded := congrArg (eval 0) interpolated
  rw [Lagrange.interpolate_apply, eval_finsetSum] at expanded
  rw [weighted, ← List.sum_toFinset _ distinct, expanded]
  apply sum_congr rfl
  intro node member
  rw [eval_mul, eval_C, id, weight_eq_eval_basis distinct (List.mem_toFinset.mp member)]

theorem atZero_eq_of_evaluate {points : List (F × F)} (distinct : (points.map Prod.fst).Nodup)
    {coeffs : ℕ → F} (nonempty : 0 < points.length)
    (values : ∀ point ∈ points, point.2 = evaluate points.length coeffs point.1) :
    atZero points = coeffs 0 := by
  have recovered := atZero_eq_of_eval distinct (degree_polynomial_lt points.length coeffs) (by
    intro point member
    rw [values point member, eval_polynomial])
  rw [recovered, eval_polynomial]
  obtain ⟨count, length⟩ : ∃ count, points.length = count + 1 := ⟨points.length - 1, by omega⟩
  rw [length, evaluate_zero]

end Recovery

section Secrecy

variable [Field F]

theorem exists_mask {observed : Finset F} (nonzero : 0 ∉ observed) {count : ℕ}
    (few : observed.card < count) (value : F) :
    ∃ mask : ℕ → F, mask 0 = value ∧ ∀ node ∈ observed, evaluate count mask node = 0 := by
  let nodal : F[X] := Lagrange.nodal observed id
  have nodalZero : nodal.eval 0 ≠ 0 :=
    Lagrange.eval_nodal_not_at_node fun node member equal => nonzero (equal ▸ member)
  let mask : F[X] := C (value * (nodal.eval 0)⁻¹) * nodal
  have degree : mask.natDegree < count := by
    apply lt_of_le_of_lt (natDegree_C_mul_le _ _)
    rwa [Lagrange.natDegree_nodal]
  refine ⟨mask.coeff, ?_, ?_⟩
  · rw [coeff_zero_eq_eval_zero, eval_mul, eval_C, mul_assoc, inv_mul_cancel₀ nodalZero, mul_one]
  · intro node member
    have vanishes : nodal.eval (id node) = 0 := Lagrange.eval_nodal_at_node member
    rw [id] at vanishes
    rw [evaluate, ← eval_eq_sum_range' degree, eval_mul, vanishes, mul_zero]

end Secrecy

end TigerMixer.Interpolation
