import Mathlib.Tactic.Linarith
import Mathlib.Tactic.Ring

/-!
# Hash trees and their frontiers

A full binary tree over a function of leaves, and the data with which its root is kept while leaves
are appended from the left: for every level on which the number of leaves has an odd quotient, the
last complete subtree of that level.
-/

namespace TigerMixer.HashTree

universe u

variable {α : Type u}

def node (hash : α → α → α) (leaf : ℕ → α) : ℕ → ℕ → α
  | 0, index => leaf index
  | level + 1, index =>
    hash (node hash leaf level (2 * index)) (node hash leaf level (2 * index + 1))

def root (hash : α → α → α) (zero : α) (height : ℕ) (leaves : List α) : α :=
  node hash (fun index => leaves.getD index zero) height 0

def empty (hash : α → α → α) (zero : α) : ℕ → α
  | 0 => zero
  | level + 1 => hash (empty hash zero level) (empty hash zero level)

section Node

variable {hash : α → α → α} {leaf leaf' : ℕ → α} {zero : α} {level index count : ℕ}

theorem node_congr
    (agree : ∀ i, index * 2 ^ level ≤ i → i < (index + 1) * 2 ^ level → leaf i = leaf' i) :
    node hash leaf level index = node hash leaf' level index := by
  induction level generalizing index with
  | zero => exact agree index (by simp) (by simp)
  | succ level ih =>
    have low : index * 2 ^ (level + 1) = 2 * index * 2 ^ level := by ring
    have high : (index + 1) * 2 ^ (level + 1) = (2 * index + 1 + 1) * 2 ^ level := by ring
    have left : 2 * index * 2 ^ level ≤ (2 * index + 1) * 2 ^ level := by gcongr; omega
    have right : (2 * index + 1) * 2 ^ level ≤ (2 * index + 1 + 1) * 2 ^ level := by
      gcongr
      omega
    rw [low, high] at agree
    simp only [node]
    congr 1
    · apply ih
      intro i lower upper
      exact agree i lower (upper.trans_le right)
    · apply ih
      intro i lower upper
      exact agree i (left.trans lower) upper

theorem node_const : node hash (fun _ => zero) level index = empty hash zero level := by
  induction level generalizing index with
  | zero => rfl
  | succ level ih => simp [node, empty, ih]

theorem node_induction {holds : α → Prop} (leaves : ∀ i, holds (leaf i))
    (closed : ∀ left right, holds left → holds right → holds (hash left right)) :
    holds (node hash leaf level index) := by
  induction level generalizing index with
  | zero => exact leaves index
  | succ level ih =>
    exact closed _ _ ih ih

theorem lt_succ_div_mul (count level : ℕ) : count < (count / 2 ^ level + 1) * 2 ^ level := by
  have bound := Nat.lt_mul_div_succ count (show 0 < 2 ^ level by positivity)
  rwa [Nat.mul_comm] at bound

theorem div_pow_succ (count level : ℕ) : count / 2 ^ (level + 1) = count / 2 ^ level / 2 := by
  rw [pow_succ, Nat.div_div_eq_div_mul]

theorem hash_node_empty (beyond : ∀ i, count < i → leaf i = zero)
    (even : count / 2 ^ level % 2 = 0) :
    hash (node hash leaf level (count / 2 ^ level)) (empty hash zero level) =
      node hash leaf (level + 1) (count / 2 ^ (level + 1)) := by
  have left : 2 * (count / 2 ^ level / 2) = count / 2 ^ level := by omega
  have right : node hash leaf level (count / 2 ^ level + 1) = empty hash zero level := by
    rw [← node_const]
    apply node_congr
    intro i lower _
    exact beyond i ((lt_succ_div_mul count level).trans_le lower)
  rw [div_pow_succ, node, left, right]

theorem hash_node_pred (odd : count / 2 ^ level % 2 = 1) :
    hash (node hash leaf level (count / 2 ^ level - 1))
        (node hash leaf level (count / 2 ^ level)) =
      node hash leaf (level + 1) (count / 2 ^ (level + 1)) := by
  have left : 2 * (count / 2 ^ level / 2) = count / 2 ^ level - 1 := by omega
  have right : count / 2 ^ level - 1 + 1 = count / 2 ^ level := by omega
  rw [div_pow_succ, node, left, right]

theorem node_update_of_lt (value : α) (before : index < count / 2 ^ level) :
    node hash (Function.update leaf count value) level index = node hash leaf level index := by
  apply node_congr
  intro i _ upper
  have bound : (index + 1) * 2 ^ level ≤ count / 2 ^ level * 2 ^ level := by gcongr; omega
  have below := Nat.div_mul_le_self count (2 ^ level)
  rw [Function.update_of_ne (by omega)]

end Node

def Frontier (hash : α → α → α) (leaf : ℕ → α) (height count : ℕ) (filled : ℕ → α) : Prop :=
  ∀ level < height, count / 2 ^ level % 2 = 1 →
    filled level = node hash leaf level (count / 2 ^ level - 1)

section Frontier

variable {hash : α → α → α} {leaf : ℕ → α} {height count : ℕ} {filled filled' : ℕ → α}

theorem frontier_zero : Frontier hash leaf height 0 filled := by
  simp [Frontier]

theorem Frontier.update (frontier : Frontier hash leaf height count filled) (value : α) :
    Frontier hash (Function.update leaf count value) height count filled := by
  intro level below odd
  rw [frontier level below odd, node_update_of_lt]
  generalize count / 2 ^ level = quotient at odd
  omega

theorem Frontier.append (frontier : Frontier hash leaf height count filled)
    (stored : ∀ level < height, filled' level =
      if count / 2 ^ level % 2 = 0 then node hash leaf level (count / 2 ^ level)
      else filled level) :
    Frontier hash leaf height (count + 1) filled' := by
  intro level below odd
  rw [stored level below]
  rw [Nat.succ_div] at odd ⊢
  split_ifs at odd ⊢ with carry even even
  · rfl
  · omega
  · omega
  · exact frontier level below odd

end Frontier

end TigerMixer.HashTree
