import Mathlib.Tactic.Linarith

/-!
# The commitment tree

`MerkleTreeWithHistory`: an append-only tree of commitments with a ring of recent roots. The
sponge permutation is a separate contract and is a parameter; a call to it may fail.

The bounds that the constructor establishes and that `_insert` keeps are fields of the tree, so no
caller has to carry them.
-/

namespace TigerMixer.Escrow

abbrev Hasher := ℕ → ℕ → Option (ℕ × ℕ)

def fieldSize : ℕ :=
  21888242871839275222246405745257275088548364400416034343698204186575808495617

def rootHistorySize : ℕ := 30

def zeroTable : List ℕ :=
  [0x2fe54c60d3acabf3343a35b6eba15db4821b340f76e741e2249685ed4899af6c,
   0x256a6135777eee2fd26f54b8b7037a25439d5235caee224154186d2b8a52e31d,
   0x1151949895e82ab19924de92c40a3d6f7bcb60d92b00504b8199613683f0c200,
   0x20121ee811489ff8d61f09fb89e313f14959a0f28bb428a20dba6b0b068b3bdb,
   0x0a89ca6ffa14cc462cfedb842c30ed221a50a3d6bf022a6a57dc82ab24c157c9,
   0x24ca05c2b5cd42e890d6be94c68d0689f4f21c9cec9c0f13fe41d566dfb54959,
   0x1ccb97c932565a92c60156bdba2d08f3bf1377464e025cee765679e604a7315c,
   0x19156fbd7d1a8bf5cba8909367de1b624534ebab4f0f79e003bccdd1b182bdb4,
   0x261af8c1f0912e465744641409f622d466c3920ac6e5ff37e36604cb11dfff80,
   0x0058459724ff6ca5a1652fcbc3e82b93895cf08e975b19beab3f54c217d1c007,
   0x1f04ef20dee48d39984d8eabe768a70eafa6310ad20849d4573c3c40c2ad1e30,
   0x1bea3dec5dab51567ce7e200a30f7ba6d4276aeaa53e2686f962a46c66d511e5,
   0x0ee0f941e2da4b9e31c3ca97a40d8fa9ce68d97c084177071b3cb46cd3372f0f,
   0x1ca9503e8935884501bbaf20be14eb4c46b89772c97b96e3b2ebf3a36a948bbd,
   0x133a80e30697cd55d8f7d4b0965b7be24057ba5dc3da898ee2187232446cb108,
   0x13e6d8fc88839ed76e182c2a779af5b2c0da9dd18c90427a644f7e148a6253b6,
   0x1eb16b057a477f4bc8f572ea6bee39561098f78f15bfb3699dcbb7bd8db61854,
   0x0da2cb16a1ceaabf1c16b838f7a9e3f2a3a3088d9e0a6debaa748114620696ea,
   0x24a3b3d822420b14b5d8cb6c28a574f01e98ea9e940551d2ebd75cee12649f9d,
   0x198622acbd783d1b0d9064105b1fc8e4d8889de95c4c519b3f635809fe6afc05,
   0x29d7ed391256ccc3ea596c86e933b89ff339d25ea8ddced975ae2fe30b5296d4,
   0x19be59f2f0413ce78c0c3703a3a5451b1d7f39629fa33abd11548a76065b2967,
   0x1ff3f61797e538b70e619310d33f2a063e7eb59104e112e95738da1254dc3453,
   0x10c16ae9959cf8358980d9dd9616e48228737310a10e2b6b731c1a548f036c48,
   0x0ba433a63174a90ac20992e75e3095496812b652685b5e1a2eae0b1bf4e8fcd1,
   0x019ddb9df2bc98d987d0dfeca9d2b643deafab8f7036562e627c3667266a044c,
   0x2d3c88b23175c5a5565db928414c66d1912b11acf974b2e644caaac04739ce99,
   0x2eab55f6ae4e66e32c5189eed5c470840863445760f5ed7e7b69b2a62600f354,
   0x002df37a2642621802383cf952bf4dd1f32e05433beeb1fd41031fb7eace979d,
   0x104aeb41435db66c3e62feccc1d6f5d98d0a0ed75d1374db457cf462e3a1f427,
   0x1f3c6fd858e9a7d4b0d1f38e256a09d81d5a5e3c963987e2d4b814cfab7c6ebb,
   0x2c7a07d20dff79d01fecedc1134284a8d08436606c93693b67e333f671bf69cc]

def zeros (level : ℕ) : Option ℕ :=
  zeroTable[level]?

def hashLeftRight (hasher : Hasher) (left right : ℕ) : Option ℕ := do
  guard (left < fieldSize)
  guard (right < fieldSize)
  let (R, C) ← hasher left 0
  let (R, _) ← hasher ((R + right) % fieldSize) C
  return R

structure MerkleTree where
  levels : ℕ
  filledSubtrees : ℕ → ℕ
  roots : ℕ → ℕ
  currentRootIndex : ℕ
  nextIndex : ℕ
  levels_pos : 0 < levels
  levels_lt : levels < 32
  nextIndex_le : nextIndex ≤ 2 ^ levels

def MerkleTree.create (levels : ℕ) : Option MerkleTree :=
  if bounds : 0 < levels ∧ levels < 32 then
    some
      { levels
        filledSubtrees := fun level => if level < levels then (zeros level).getD 0 else 0
        roots := fun index => if index = 0 then (zeros (levels - 1)).getD 0 else 0
        currentRootIndex := 0
        nextIndex := 0
        levels_pos := bounds.1
        levels_lt := bounds.2
        nextIndex_le := Nat.zero_le _ }
  else
    none

/-- The loop of `_insert` over the `remaining` levels from `level` on, with the updated subtrees and
the new root. -/
def insertLoop (hasher : Hasher) (level : ℕ) (filledSubtrees : ℕ → ℕ) (currentIndex : ℕ)
    (currentLevelHash : ℕ) : ℕ → Option ((ℕ → ℕ) × ℕ)
  | 0 => some (filledSubtrees, currentLevelHash)
  | remaining + 1 => do
      if currentIndex % 2 = 0 then
        let hash ← hashLeftRight hasher currentLevelHash (← zeros level)
        insertLoop hasher (level + 1) (Function.update filledSubtrees level currentLevelHash)
          (currentIndex / 2) hash remaining
      else
        let hash ← hashLeftRight hasher (filledSubtrees level) currentLevelHash
        insertLoop hasher (level + 1) filledSubtrees (currentIndex / 2) hash remaining

namespace MerkleTree

theorem nextIndex_succ_le {tree : MerkleTree} (notFull : tree.nextIndex ≠ 2 ^ tree.levels) :
    (tree.nextIndex + 1) % 2 ^ 32 ≤ 2 ^ tree.levels :=
  (Nat.mod_le _ _).trans (Nat.lt_of_le_of_ne tree.nextIndex_le notFull)

def insert (hasher : Hasher) (tree : MerkleTree) (leaf : ℕ) : Option (MerkleTree × ℕ) :=
  if notFull : tree.nextIndex ≠ 2 ^ tree.levels then do
    let (filledSubtrees, root) ← insertLoop hasher 0 tree.filledSubtrees tree.nextIndex leaf
      tree.levels
    let newRootIndex := (tree.currentRootIndex + 1) % rootHistorySize
    return ({ tree with
      filledSubtrees
      currentRootIndex := newRootIndex
      roots := Function.update tree.roots newRootIndex root
      nextIndex := (tree.nextIndex + 1) % 2 ^ 32
      nextIndex_le := nextIndex_succ_le notFull }, tree.nextIndex)
  else
    none

def getLastRoot (tree : MerkleTree) : ℕ :=
  tree.roots tree.currentRootIndex

/-- The loop of `isKnownRoot` from index `i` on; `none` if it takes more than `fuel` iterations. -/
def isKnownRootLoop (roots : ℕ → ℕ) (root currentRootIndex : ℕ) : ℕ → ℕ → Option Bool
  | 0, _ => none
  | fuel + 1, i =>
    if root = roots i then
      some true
    else
      let i := (if i = 0 then rootHistorySize else i) - 1
      if i = currentRootIndex then some false
      else isKnownRootLoop roots root currentRootIndex fuel i

def isKnownRoot (tree : MerkleTree) (fuel root : ℕ) : Option Bool :=
  if root = 0 then some false
  else isKnownRootLoop tree.roots root tree.currentRootIndex fuel tree.currentRootIndex

theorem insert_eq_some {hasher : Hasher} {tree tree' : MerkleTree} {leaf index : ℕ}
    (inserted : tree.insert hasher leaf = some (tree', index)) :
    index = tree.nextIndex ∧ tree'.nextIndex = tree.nextIndex + 1 ∧ tree'.levels = tree.levels := by
  unfold insert at inserted
  split_ifs at inserted with notFull
  simp only [Option.bind_eq_bind, Option.bind_eq_some_iff, Option.pure_def, Option.some.injEq,
    Prod.mk.injEq, Prod.exists] at inserted
  rcases inserted with ⟨filledSubtrees, root, -, rfl, rfl⟩
  refine ⟨rfl, ?_, rfl⟩
  apply Nat.mod_eq_of_lt
  have capacity : 2 ^ tree.levels < 2 ^ 32 := Nat.pow_lt_pow_right (by norm_num) tree.levels_lt
  have room := Nat.lt_of_le_of_ne tree.nextIndex_le notFull
  omega

end MerkleTree

end TigerMixer.Escrow
