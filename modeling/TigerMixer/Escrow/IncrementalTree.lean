import TigerMixer.Data.HashTree
import TigerMixer.Escrow.MerkleTree

/-!
# The root of the commitment tree

`Represents` says which leaves a stored tree stands for: the remembered subtrees are the frontier of
the full tree over them, and the last root is its root. An insertion appends a leaf, as long as
there is room. The last root of a tree without leaves is not the root of an empty tree: the
constructor takes the empty subtree one level too low.
-/

namespace TigerMixer.Escrow

open HashTree List

/-- The hasher returns field elements, and the table of empty subtrees is the one it computes. -/
structure SuitableHasher (hasher : Hasher) : Prop where
  returns : ∀ left right, ∃ R C, hasher left right = some (R, C) ∧ R < fieldSize
  zeros_succ : ∀ level value, level < 31 → zeros level = some value →
    hashLeftRight hasher value value = zeros (level + 1)

def zeroLeaf : ℕ := 0x2fe54c60d3acabf3343a35b6eba15db4821b340f76e741e2249685ed4899af6c

def treeHash (hasher : Hasher) (left right : ℕ) : ℕ :=
  (hashLeftRight hasher left right).getD 0

section Hasher

variable {hasher : Hasher}

theorem hashLeftRight_eq_some (suitable : SuitableHasher hasher) {left right : ℕ}
    (leftSmall : left < fieldSize) (rightSmall : right < fieldSize) :
    hashLeftRight hasher left right = some (treeHash hasher left right) ∧
      treeHash hasher left right < fieldSize := by
  rcases suitable.returns left 0 with ⟨R, C, first, -⟩
  rcases suitable.returns ((R + right) % fieldSize) C with ⟨R', C', second, small⟩
  have result : hashLeftRight hasher left right = some R' := by
    simp [hashLeftRight, leftSmall, rightSmall, first, second]
  simp [treeHash, result, small]

theorem zeroTable_lt {value : ℕ} (member : value ∈ zeroTable) : value < fieldSize := by
  have all : ∀ value ∈ zeroTable, value < fieldSize := by decide +kernel
  exact all value member

theorem zeros_eq_empty (suitable : SuitableHasher hasher) {level : ℕ} (inside : level < 32) :
    zeros level = some (empty (treeHash hasher) zeroLeaf level) := by
  induction level with
  | zero => rfl
  | succ level ih =>
    have known := ih (by omega)
    have small := zeroTable_lt (mem_of_getElem? known)
    rw [← suitable.zeros_succ level _ (by omega) known,
      (hashLeftRight_eq_some suitable small small).1, empty]

end Hasher

section Path

variable {hasher : Hasher} {leaf : ℕ → ℕ} {height count : ℕ}

theorem insertLoop_eq_some (suitable : SuitableHasher hasher) (bounded : height < 32)
    (small : ∀ i, leaf i < fieldSize) (beyond : ∀ i, count < i → leaf i = zeroLeaf)
    (remaining : ℕ) {level : ℕ} (levels : level + remaining = height) {filled : ℕ → ℕ}
    (frontier : Frontier (treeHash hasher) leaf height count filled) :
    ∃ filled', insertLoop hasher level filled (count / 2 ^ level)
        (node (treeHash hasher) leaf level (count / 2 ^ level)) remaining =
          some (filled', node (treeHash hasher) leaf height (count / 2 ^ height)) ∧
      ∀ l, filled' l = if level ≤ l ∧ l < height ∧ count / 2 ^ l % 2 = 0 then
        node (treeHash hasher) leaf l (count / 2 ^ l) else filled l := by
  have nodeSmall (l index : ℕ) : node (treeHash hasher) leaf l index < fieldSize := by
    apply @node_induction _ _ _ _ _ (· < fieldSize) small
    intro left right leftSmall rightSmall
    exact (hashLeftRight_eq_some suitable leftSmall rightSmall).2
  induction remaining generalizing level filled with
  | zero =>
    simp only [Nat.add_zero] at levels
    subst levels
    refine ⟨filled, rfl, ?_⟩
    intro l
    rw [if_neg (by omega)]
  | succ remaining ih =>
    have emptyRoot := zeros_eq_empty suitable (show level < 32 by omega)
    have emptySmall := zeroTable_lt (mem_of_getElem? emptyRoot)
    rw [insertLoop]
    split_ifs with even
    · -- a left child: the node is stored and the sibling is empty
      have stored : Frontier (treeHash hasher) leaf height count
          (Function.update filled level
            (node (treeHash hasher) leaf level (count / 2 ^ level))) := by
        intro l below odd
        have different : l ≠ level := by
          rintro rfl
          omega
        rw [Function.update_of_ne different]
        exact frontier l below odd
      rcases ih (show level + 1 + remaining = height by omega) stored with
        ⟨filled', climbed, values⟩
      refine ⟨filled', ?_, ?_⟩
      · simp only [emptyRoot, Option.bind_eq_bind, Option.bind_some,
          (hashLeftRight_eq_some suitable (nodeSmall _ _) emptySmall).1,
          hash_node_empty beyond even, ← div_pow_succ]
        exact climbed
      · intro l
        rw [values l]
        by_cases here : l = level
        · subst here
          simp [even, show l < height by omega]
        · simp only [Function.update_of_ne here]
          congr 1
          simp only [eq_iff_iff, and_congr_left_iff]
          omega
    · -- a right child: the sibling is the subtree stored on this level
      have odd : count / 2 ^ level % 2 = 1 := by omega
      have sibling := frontier level (by omega) odd
      rcases ih (show level + 1 + remaining = height by omega) frontier with
        ⟨filled', climbed, values⟩
      refine ⟨filled', ?_, ?_⟩
      · simp only [sibling, Option.bind_eq_bind,
          (hashLeftRight_eq_some suitable (nodeSmall _ _) (nodeSmall _ _)).1, Option.bind_some,
          hash_node_pred odd, ← div_pow_succ]
        exact climbed
      · intro l
        rw [values l]
        congr 1
        simp only [eq_iff_iff]
        by_cases here : l = level
        · subst here
          omega
        · omega

end Path

namespace MerkleTree

structure Represents (hasher : Hasher) (tree : MerkleTree) (leaves : List ℕ) : Prop where
  nextIndex : tree.nextIndex = leaves.length
  frontier : Frontier (treeHash hasher) (fun i => leaves.getD i zeroLeaf) tree.levels
    leaves.length tree.filledSubtrees
  lastRoot : leaves ≠ [] → tree.getLastRoot = root (treeHash hasher) zeroLeaf tree.levels leaves

theorem getD_append_singleton (leaves : List ℕ) (leaf : ℕ) :
    (fun i => (leaves ++ [leaf]).getD i zeroLeaf) =
      Function.update (fun i => leaves.getD i zeroLeaf) leaves.length leaf := by
  funext i
  by_cases last : i = leaves.length
  · simp [last]
  · rw [Function.update_of_ne last]
    by_cases inside : i < leaves.length
    · simp [getElem?_append_left inside]
    · simp [getElem?_eq_none (show leaves.length ≤ i by omega),
        getElem?_eq_none (show (leaves ++ [leaf]).length ≤ i by simp; omega)]

section Insert

variable {hasher : Hasher} {tree : MerkleTree} {leaves : List ℕ}

theorem Represents.insert (represents : tree.Represents hasher leaves)
    (suitable : SuitableHasher hasher) (room : leaves.length < 2 ^ tree.levels)
    (small : ∀ leaf ∈ leaves, leaf < fieldSize) {leaf : ℕ} (leafSmall : leaf < fieldSize) :
    ∃ tree', tree.insert hasher leaf = some (tree', leaves.length) ∧
      tree'.levels = tree.levels ∧ tree'.Represents hasher (leaves ++ [leaf]) := by
  have padded := getD_append_singleton leaves leaf
  have paddedSmall (i : ℕ) : (leaves ++ [leaf]).getD i zeroLeaf < fieldSize := by
    rw [getD_eq_getElem?_getD]
    cases found : (leaves ++ [leaf])[i]? with
    | none => exact zeroTable_lt (by decide +kernel)
    | some value =>
      have member := mem_of_getElem? found
      simp only [mem_append, mem_singleton] at member
      rcases member with member | rfl
      · exact small value member
      · exact leafSmall
  have beyond (i : ℕ) (after : leaves.length < i) :
      (leaves ++ [leaf]).getD i zeroLeaf = zeroLeaf := by
    simp [getElem?_eq_none (show (leaves ++ [leaf]).length ≤ i by simp; omega)]
  have frontier := represents.frontier.update leaf
  rw [← padded] at frontier
  rcases insertLoop_eq_some suitable tree.levels_lt paddedSmall beyond tree.levels
      (Nat.zero_add _) frontier with ⟨filled, climbed, stored⟩
  have start : node (treeHash hasher) (fun i => (leaves ++ [leaf]).getD i zeroLeaf) 0
      (leaves.length / 2 ^ 0) = leaf := by
    simp [node]
  have top : leaves.length / 2 ^ tree.levels = 0 := Nat.div_eq_of_lt room
  have notFull : leaves.length ≠ 2 ^ tree.levels := by omega
  rw [start, top, pow_zero, Nat.div_one] at climbed
  have inserted : ∃ tree', tree.insert hasher leaf = some (tree', leaves.length) ∧
      tree'.filledSubtrees = filled ∧
      tree'.getLastRoot = root (treeHash hasher) zeroLeaf tree.levels (leaves ++ [leaf]) := by
    simp [MerkleTree.insert, notFull, represents.nextIndex, climbed, getLastRoot, root]
  rcases inserted with ⟨tree', inserted, filledEq, lastRoot⟩
  rcases insert_eq_some inserted with ⟨-, nextIndex, levels⟩
  refine ⟨tree', inserted, levels, ?_, ?_, ?_⟩
  · simp [nextIndex, represents.nextIndex]
  · rw [filledEq, levels, length_append, length_singleton]
    apply frontier.append
    intro level below
    simp [stored, below]
  · intro _
    rw [lastRoot, levels]

end Insert

def insertAll (hasher : Hasher) : MerkleTree → List ℕ → Option (MerkleTree × List ℕ)
  | tree, [] => some (tree, [])
  | tree, leaf :: leaves => do
      let (tree, index) ← tree.insert hasher leaf
      let (tree, indices) ← insertAll hasher tree leaves
      return (tree, index :: indices)

theorem Represents.insertAll {hasher : Hasher} (suitable : SuitableHasher hasher)
    {tree : MerkleTree} {earlier leaves : List ℕ} (represents : tree.Represents hasher earlier)
    (room : (earlier ++ leaves).length ≤ 2 ^ tree.levels)
    (small : ∀ leaf ∈ earlier ++ leaves, leaf < fieldSize) :
    ∃ tree', MerkleTree.insertAll hasher tree leaves =
        some (tree', List.range' earlier.length leaves.length) ∧
      tree'.levels = tree.levels ∧ tree'.Represents hasher (earlier ++ leaves) := by
  induction leaves generalizing tree earlier with
  | nil => exact ⟨tree, by simp [MerkleTree.insertAll], rfl, by simpa using represents⟩
  | cons leaf leaves ih =>
    simp only [length_append, length_cons] at room
    rcases represents.insert suitable (by omega)
        (fun other member => small other (by simp [member])) (small leaf (by simp)) with
      ⟨tree', inserted, levels, represents'⟩
    rcases ih represents' (by simp [levels]; omega) (by simpa using small) with
      ⟨tree'', others, levels', represents''⟩
    refine ⟨tree'', ?_, levels'.trans levels, by simpa using represents''⟩
    simp [MerkleTree.insertAll, inserted, others, List.range'_succ]

theorem exists_create {levels : ℕ} (low : 1 ≤ levels) (high : levels ≤ 31) (hasher : Hasher) :
    ∃ tree, create levels = some tree ∧ tree.levels = levels ∧ tree.Represents hasher [] := by
  have bounds : 0 < levels ∧ levels < 32 := by omega
  simp only [create, bounds, and_self, dite_true, Option.some.injEq, exists_eq_left', true_and]
  refine ⟨rfl, frontier_zero, ?_⟩
  simp

/-- The root is that of the full tree, every insertion returns the position of its leaf, and a full
tree takes no further one. -/
theorem getLastRoot_eq_root {hasher : Hasher} (suitable : SuitableHasher hasher) {levels : ℕ}
    (low : 1 ≤ levels) (high : levels ≤ 31) {leaves : List ℕ} (nonempty : leaves ≠ [])
    (room : leaves.length ≤ 2 ^ levels) (small : ∀ leaf ∈ leaves, leaf < fieldSize) :
    ∃ tree tree', create levels = some tree ∧
      insertAll hasher tree leaves = some (tree', List.range leaves.length) ∧
      tree'.getLastRoot = root (treeHash hasher) zeroLeaf levels leaves ∧
      (leaves.length = 2 ^ levels → ∀ leaf, tree'.insert hasher leaf = none) := by
  rcases exists_create low high hasher with ⟨tree, created, levelsEq, represents⟩
  subst levelsEq
  rcases represents.insertAll suitable (by simpa using room) (by simpa using small) with
    ⟨tree', inserted, levels', represents'⟩
  simp only [nil_append] at represents'
  refine ⟨tree, tree', created, ?_, ?_, ?_⟩
  · simpa [range_eq_range'] using inserted
  · rw [represents'.lastRoot nonempty, levels']
  · intro full leaf
    simp [MerkleTree.insert, represents'.nextIndex, full, levels']

def sampleHasher : Hasher := fun R C =>
  if C = 0 then some (R % fieldSize, 1)
  else
    match zeroTable.findIdx? fun value => (value + value) % fieldSize = R with
    | none => some (R % fieldSize, 0)
    | some level => some (zeroTable.getD (level + 1) 0 % fieldSize, 0)

theorem sampleHasher_suitable : SuitableHasher sampleHasher where
  returns left right := by
    have small (value : ℕ) : value % fieldSize < fieldSize := Nat.mod_lt _ (by decide)
    rw [sampleHasher]
    split_ifs
    · exact ⟨_, _, rfl, small _⟩
    · split
      · exact ⟨_, _, rfl, small _⟩
      · exact ⟨_, _, rfl, small _⟩
  zeros_succ level value inside known := by
    have table : ∀ level < 31, hashLeftRight sampleHasher (zeroTable.getD level 0)
        (zeroTable.getD level 0) = zeros (level + 1) := by decide +kernel
    have entry : zeroTable.getD level 0 = value := by
      rw [getD_eq_getElem?_getD, ← zeros, known, Option.getD_some]
    have computed := table level inside
    rwa [entry] at computed

theorem getLastRoot_eq_root_three :
    ∃ tree tree', create 2 = some tree ∧
      insertAll sampleHasher tree [7, 8, 9] = some (tree', [0, 1, 2]) ∧
      tree'.getLastRoot = root (treeHash sampleHasher) zeroLeaf 2 [7, 8, 9] := by
  have small : ∀ leaf ∈ [7, 8, 9], leaf < fieldSize := by decide
  rcases getLastRoot_eq_root sampleHasher_suitable (show 1 ≤ 2 by decide) (by decide) (by simp)
      (by simp) small with ⟨tree, tree', created, inserted, lastRoot, -⟩
  exact ⟨tree, tree', created, inserted, lastRoot⟩

end MerkleTree

end TigerMixer.Escrow
