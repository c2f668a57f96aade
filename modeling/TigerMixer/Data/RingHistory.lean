import Mathlib.Data.List.GetD
import Mathlib.Logic.Function.Basic

/-!
# A ring of recent values

A ring of `size` cells with the index of the cell that was written last. The cell that was written
`age` writes ago lies `age` cells before it, so walking backwards from the index visits the values
from the newest to the oldest, and after `size` steps it is back at the index.
-/

namespace TigerMixer.Ring

universe u

def back (size index age : ℕ) : ℕ :=
  (index + (size - age)) % size

variable {size index : ℕ}

theorem back_zero (inside : index < size) : back size index 0 = index := by
  simp [back, Nat.mod_eq_of_lt inside]

theorem back_succ (inside : index < size) {age : ℕ} (young : age < size) :
    back size index (age + 1) =
      (if back size index age = 0 then size else back size index age) - 1 := by
  unfold back
  by_cases before : age ≤ index
  · have wrapped : index + (size - age) = index - age + size := by omega
    rw [wrapped, Nat.add_mod_right, Nat.mod_eq_of_lt (by omega : index - age < size)]
    by_cases first : index - age = 0
    · rw [if_pos first, Nat.mod_eq_of_lt (by omega)]
      omega
    · rw [if_neg first, show index + (size - (age + 1)) = index - age - 1 + size by omega,
        Nat.add_mod_right, Nat.mod_eq_of_lt (by omega)]
  · rw [Nat.mod_eq_of_lt (by omega : index + (size - age) < size), if_neg (by omega),
      Nat.mod_eq_of_lt (by omega)]
    omega

theorem back_eq_index_iff (inside : index < size) {age : ℕ} (positive : 0 < age)
    (young : age ≤ size) : back size index age = index ↔ age = size := by
  unfold back
  by_cases before : age ≤ index
  · rw [show index + (size - age) = index - age + size by omega, Nat.add_mod_right,
      Nat.mod_eq_of_lt (by omega)]
    omega
  · rw [Nat.mod_eq_of_lt (by omega)]
    omega

theorem back_next (inside : index < size) {age : ℕ} (young : age < size) :
    back size ((index + 1) % size) (age + 1) = back size index age := by
  unfold back
  by_cases last : index + 1 = size
  · rw [last, Nat.mod_self, Nat.zero_add, show index + (size - age) = size - (age + 1) + size by
      omega, Nat.add_mod_right]
  · rw [Nat.mod_eq_of_lt (by omega : index + 1 < size)]
    congr 1
    omega

/-- The cells hold a history, newest value first. Cells that were never written hold `blank`. -/
structure Holds {α : Type u} (size : ℕ) (blank : α) (cells : ℕ → α) (index : ℕ) (history : List α) :
    Prop where
  inside : index < size
  recent : ∀ age < size, cells (back size index age) = history.getD age blank

section Holds

variable {α : Type u} {blank : α} {cells : ℕ → α} {history : List α}

theorem Holds.push (holds : Holds size blank cells index history) (value : α) :
    Holds size blank (Function.update cells ((index + 1) % size) value) ((index + 1) % size)
      (value :: history) where
  inside := Nat.mod_lt _ (Nat.zero_lt_of_lt holds.inside)
  recent := by
    have inside : (index + 1) % size < size := Nat.mod_lt _ (Nat.zero_lt_of_lt holds.inside)
    intro age young
    cases age with
    | zero => rw [back_zero inside, Function.update_self, List.getD_cons_zero]
    | succ age =>
      have different : back size ((index + 1) % size) (age + 1) ≠ (index + 1) % size := by
        rw [Ne, back_eq_index_iff inside (Nat.succ_pos age) (Nat.le_of_lt young)]
        omega
      rw [Function.update_of_ne different, back_next holds.inside (by omega), List.getD_cons_succ]
      exact holds.recent age (by omega)

theorem Holds.exists_iff (holds : Holds size blank cells index history) {value : α}
    (written : value ≠ blank) :
    (∃ age < size, value = cells (back size index age)) ↔ value ∈ history.take size := by
  rw [List.mem_take_iff_getElem]
  constructor
  · rintro ⟨age, young, rfl⟩
    rw [holds.recent age young] at written ⊢
    by_cases known : age < history.length
    · exact ⟨age, by omega, by rw [List.getD_eq_getElem history blank known]⟩
    · exact absurd (List.getD_eq_default history blank (by omega)) written
  · rintro ⟨age, young, rfl⟩
    refine ⟨age, by omega, ?_⟩
    rw [holds.recent age (by omega), List.getD_eq_getElem history blank (by omega)]

end Holds

end TigerMixer.Ring
