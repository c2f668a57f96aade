import Mathlib.Data.List.TakeDrop

/-!
# Arrays by their leading items

An array that is filled with a default behind its leading items is given by these items alone.
Cutting such an array off and padding it again is the same as reading it, as long as only defaults
are cut off.
-/

namespace TigerMixer.Padding

open List

universe u

variable {α : Type u} {items : List α} {default : α}

theorem takeD_takeD {short long : ℕ} (le : short ≤ long) :
    (items.takeD long default).takeD short default = items.takeD short default := by
  induction short generalizing items long with
  | zero => rfl
  | succ short ih =>
    cases long with
    | zero => omega
    | succ long => simp [ih (Nat.le_of_succ_le_succ le)]

theorem takeD_of_default (all : ∀ item ∈ items, item = default) (count : ℕ) :
    items.takeD count default = List.replicate count default := by
  induction count generalizing items with
  | zero => rfl
  | succ count ih =>
    cases items with
    | nil => rw [takeD_nil]
    | cons first items =>
      rw [forall_mem_cons] at all
      simp [replicate_succ, all.1, ih all.2]

theorem takeD_takeD_of_default {length : ℕ} (beyond : ∀ item ∈ items.drop length, item = default)
    (count : ℕ) :
    (items.takeD length default).takeD count default = items.takeD count default := by
  induction length generalizing items count with
  | zero =>
    rw [takeD_zero, takeD_nil, takeD_of_default]
    simpa using beyond
  | succ length ih =>
    cases count with
    | zero => rfl
    | succ count =>
      simp only [takeD_succ, head?_cons, Option.getD_some, tail_cons]
      rw [ih]
      rwa [drop_tail]

theorem eq_default_of_mem_drop {count : ℕ} {item : α}
    (member : item ∈ (items.takeD count default).drop items.length) : item = default := by
  induction items generalizing count with
  | nil =>
    rw [takeD_nil] at member
    exact eq_of_mem_replicate (mem_of_mem_drop member)
  | cons first items ih =>
    cases count with
    | zero => simp at member
    | succ count =>
      rw [takeD_succ, length_cons, drop_succ_cons] at member
      exact ih member

end TigerMixer.Padding
