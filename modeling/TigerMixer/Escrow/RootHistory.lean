import TigerMixer.Data.RingHistory
import TigerMixer.Escrow.IncrementalTree

/-!
# The window of known roots

`_insert` writes every new root into a ring of thirty cells, and `isKnownRoot` walks backwards
through the ring until it is back at the current root. Cells that were never written hold zero,
which `isKnownRoot` does not look for.
-/

namespace TigerMixer.Escrow.MerkleTree

/-- The values that the current root takes, from before the first insertion to after the last. -/
def rootsTaken (hasher : Hasher) : MerkleTree → List ℕ → List ℕ
  | tree, [] => [tree.getLastRoot]
  | tree, leaf :: leaves =>
    tree.getLastRoot ::
      match tree.insert hasher leaf with
      | none => []
      | some (tree, _) => rootsTaken hasher tree leaves

abbrev HoldsRoots (tree : MerkleTree) (history : List ℕ) : Prop :=
  Ring.Holds rootHistorySize 0 tree.roots tree.currentRootIndex history

section Insert

variable {hasher : Hasher} {tree tree' : MerkleTree} {older : List ℕ}

theorem HoldsRoots.insert {leaf index : ℕ} (holds : tree.HoldsRoots older)
    (inserted : tree.insert hasher leaf = some (tree', index)) :
    tree'.HoldsRoots (tree'.getLastRoot :: older) := by
  unfold MerkleTree.insert at inserted
  split_ifs at inserted
  simp only [Option.bind_eq_bind, Option.bind_eq_some_iff, Option.pure_def, Option.some.injEq,
    Prod.mk.injEq, Prod.exists] at inserted
  rcases inserted with ⟨filledSubtrees, root, -, rfl, -⟩
  simpa [getLastRoot] using holds.push root

theorem HoldsRoots.insertAll {leaves indices : List ℕ}
    (holds : tree.HoldsRoots (tree.getLastRoot :: older))
    (inserted : tree.insertAll hasher leaves = some (tree', indices)) :
    tree'.HoldsRoots ((rootsTaken hasher tree leaves).reverse ++ older) := by
  induction leaves generalizing tree older indices with
  | nil =>
    simp only [MerkleTree.insertAll, Option.some.injEq, Prod.mk.injEq] at inserted
    rcases inserted with ⟨rfl, -⟩
    exact holds
  | cons leaf leaves ih =>
    simp only [MerkleTree.insertAll, Option.bind_eq_bind, Option.bind_eq_some_iff,
      Option.pure_def, Option.some.injEq, Prod.mk.injEq, Prod.exists] at inserted
    rcases inserted with ⟨next, index, first, last, others, rest, rfl, -⟩
    have later := ih (holds.insert first) rest
    simpa [rootsTaken, first] using later

end Insert

theorem length_rootsTaken {hasher : Hasher} {tree tree' : MerkleTree} {leaves indices : List ℕ}
    (inserted : tree.insertAll hasher leaves = some (tree', indices)) :
    (rootsTaken hasher tree leaves).length = leaves.length + 1 := by
  induction leaves generalizing tree indices with
  | nil => rfl
  | cons leaf leaves ih =>
    simp only [MerkleTree.insertAll, Option.bind_eq_bind, Option.bind_eq_some_iff,
      Option.pure_def, Option.some.injEq, Prod.mk.injEq, Prod.exists] at inserted
    rcases inserted with ⟨next, index, first, last, others, rest, rfl, -⟩
    simp [rootsTaken, first, ih rest]

theorem holdsRoots_create {levels : ℕ} {tree : MerkleTree} (created : create levels = some tree) :
    tree.HoldsRoots [tree.getLastRoot] := by
  unfold create at created
  split_ifs at created
  simp only [Option.some.injEq] at created
  subst created
  refine ⟨Nat.zero_lt_succ 29, ?_⟩
  intro age young
  cases age with
  | zero => simp [getLastRoot, Ring.back_zero young]
  | succ age =>
    have unwritten : Ring.back rootHistorySize 0 (age + 1) ≠ 0 := by
      rw [Ne, Ring.back_eq_index_iff (by decide) (Nat.succ_pos age) (Nat.le_of_lt young)]
      omega
    simp [unwritten]

theorem isKnownRootLoop_eq (roots : ℕ → ℕ) {current : ℕ} (inside : current < rootHistorySize)
    (root : ℕ) {age : ℕ} (young : age < rootHistorySize) {fuel : ℕ}
    (enough : rootHistorySize ≤ age + fuel) :
    isKnownRootLoop roots root current fuel (Ring.back rootHistorySize current age) =
      some (decide (∃ older < rootHistorySize, age ≤ older ∧
        root = roots (Ring.back rootHistorySize current older))) := by
  induction fuel generalizing age with
  | zero => omega
  | succ fuel ih =>
    rw [isKnownRootLoop]
    by_cases found : root = roots (Ring.back rootHistorySize current age)
    · rw [if_pos found, decide_eq_true ⟨age, young, le_rfl, found⟩]
    · rw [if_neg found, ← Ring.back_succ inside young]
      have later (older : ℕ) : (age ≤ older ∧
          root = roots (Ring.back rootHistorySize current older)) ↔
        (age + 1 ≤ older ∧ root = roots (Ring.back rootHistorySize current older)) := by
        refine and_congr_left fun here => ⟨fun before => ?_, Nat.le_of_succ_le⟩
        exact Nat.lt_of_le_of_ne before fun same => found (same ▸ here)
      simp only [later, Ring.back_eq_index_iff inside (Nat.succ_pos age) young]
      split_ifs with last
      · simp only [Option.some.injEq, Bool.false_eq, decide_eq_false_iff_not]
        rintro ⟨older, before, after, -⟩
        omega
      · exact ih (by omega) (by omega)

/-- `isKnownRoot` ends within one round through the ring, and accepts exactly the non-zero values
among the last ones of the current root. -/
theorem isKnownRoot_eq_recent {hasher : Hasher} {levels : ℕ} {tree tree' : MerkleTree}
    {leaves indices : List ℕ} (created : create levels = some tree)
    (inserted : tree.insertAll hasher leaves = some (tree', indices)) (root : ℕ) {fuel : ℕ}
    (enough : rootHistorySize ≤ fuel) :
    tree'.isKnownRoot fuel root = some (decide (root ≠ 0 ∧ root ∈
      (rootsTaken hasher tree leaves).reverse.take (min (leaves.length + 1) rootHistorySize))) := by
  have holds := (holdsRoots_create created).insertAll inserted
  rw [List.append_nil] at holds
  have window : (rootsTaken hasher tree leaves).reverse.take
      (min (leaves.length + 1) rootHistorySize) =
        (rootsTaken hasher tree leaves).reverse.take rootHistorySize := by
    rw [← length_rootsTaken inserted, ← List.length_reverse, min_comm, ← List.take_take,
      List.take_length]
  rw [window, isKnownRoot]
  by_cases zero : root = 0
  · simp [zero]
  · have start := Ring.back_zero holds.inside
    have walked := isKnownRootLoop_eq tree'.roots holds.inside root
      (by decide : 0 < rootHistorySize) (show rootHistorySize ≤ 0 + fuel by omega)
    rw [start] at walked
    rw [if_neg zero, walked]
    simp only [Nat.zero_le, true_and, holds.exists_iff zero, ne_eq, zero, not_false_eq_true]

theorem isKnownRoot_initial_after_one :
    ∃ tree tree', create 1 = some tree ∧ tree.insertAll sampleHasher [7] = some (tree', [0]) ∧
      tree'.isKnownRoot 30 tree.getLastRoot = some true := by
  rcases exists_create (show 1 ≤ 1 by decide) (by decide) sampleHasher with
    ⟨tree, created, levels, represents⟩
  have small : ∀ leaf ∈ [] ++ [7], leaf < fieldSize := by decide
  rcases represents.insertAll sampleHasher_suitable (by simp [levels]) small with
    ⟨tree', inserted, -, -⟩
  have initial : tree.getLastRoot ≠ 0 := by
    unfold create at created
    simp only [Nat.lt_one_iff, Nat.one_lt_ofNat, and_self, dite_true, Option.some.injEq,
      zero_lt_one] at created
    subst created
    decide
  refine ⟨tree, tree', created, inserted, ?_⟩
  have enough : rootHistorySize ≤ 30 := le_rfl
  rw [isKnownRoot_eq_recent created inserted tree.getLastRoot enough, Option.some.injEq,
    decide_eq_true_eq]
  refine ⟨initial, ?_⟩
  rw [List.take_of_length_le]
  · simp [rootsTaken]
  · simp [length_rootsTaken inserted, rootHistorySize]

end TigerMixer.Escrow.MerkleTree
