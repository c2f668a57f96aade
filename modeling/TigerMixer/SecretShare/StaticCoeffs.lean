import TigerMixer.SecretShare.Commitment

/-!
# Commitments after several dealings

`create_vss_commitments` takes the coefficients from static variables, which every call of
`create_secret_shares` overwrites as far as its own message reaches. After several dealings the
coefficients of a block are those of the last dealing that had such a block.
-/

namespace TigerMixer.SecretShare

open Bytes

universe u

structure Dealing (scheme : Scheme) where
  random : ℕ → ℕ → Fin scheme.order
  secret : Bytes

namespace Dealing

variable {scheme : Scheme}

def Covers (dealing : Dealing scheme) (blockIdx : ℕ) : Prop :=
  blockIdx < numBlocks dealing.secret.length ∧ numBlocks dealing.secret.length ≤ maxBlocks

instance (dealing : Dealing scheme) (blockIdx : ℕ) : Decidable (dealing.Covers blockIdx) :=
  inferInstanceAs (Decidable (_ ∧ _))

def coeffs (dealing : Dealing scheme) (blockIdx index : ℕ) : ℕ :=
  blockCoeffs scheme dealing.random dealing.secret blockIdx index

def lastCovering (dealing : Dealing scheme) (later : List (Dealing scheme)) (blockIdx : ℕ) :
    Dealing scheme :=
  later.foldl (fun current next => if next.Covers blockIdx then next else current) dealing

end Dealing

def afterDealings (scheme : Scheme) (saved : SavedCoeffs) (dealings : List (Dealing scheme)) :
    SavedCoeffs :=
  dealings.foldl (fun saved dealing =>
    (createSecretShares scheme saved dealing.random dealing.secret).1) saved

/-- The share lies on the polynomials of a dealing, whose random coefficients are nonzero. -/
structure LiesOn {scheme : Scheme} (dealing : Dealing scheme) (share : Share) : Prop where
  nonzero : ∀ index < scheme.threshold, 0 < index → (dealing.random share.blockIndex index : ℕ) ≠ 0
  value : share.value % scheme.order =
    shareValue scheme (dealing.coeffs share.blockIndex) (digit share.x)

section Static

variable {scheme : Scheme} {random : ℕ → ℕ → Fin scheme.order} {secret : Bytes}
  {saved : SavedCoeffs} {blockIdx index : ℕ}

theorem savedCoeffs_createBlocks_of_le {count : ℕ} (outside : count ≤ blockIdx) :
    (createBlocks scheme random secret saved count).1.savedCoeffs blockIdx index =
      saved.savedCoeffs blockIdx index := by
  induction count with
  | zero => rfl
  | succ count ih =>
    have earlier := ih (by omega)
    simp only [createBlocks]
    split
    · rename_i later equal
      rwa [equal] at earlier
    · rename_i later shares equal
      rw [equal] at earlier
      simp only [SavedCoeffs.save]
      rwa [if_neg (by omega)]

section Small

variable (small : scheme.order ≤ 256 ^ (shareSize - 4))

include small

theorem savedCoeffs_createSecretShares
    (dealing : Dealing scheme) (coefficient : index < scheme.threshold) :
    (createSecretShares scheme saved dealing.random dealing.secret).1.savedCoeffs blockIdx index =
      if dealing.Covers blockIdx then dealing.coeffs blockIdx index
      else saved.savedCoeffs blockIdx index := by
  by_cases refused :
      dealing.secret.length = 0 ∨ maxBlocks < numBlocks dealing.secret.length
  · have uncovered : ¬dealing.Covers blockIdx := by
      rintro ⟨inside, few⟩
      rcases refused with empty | many
      · rw [empty] at inside
        exact Nat.not_lt_zero _ inside
      · omega
    rw [if_neg uncovered, createSecretShares]
    split_ifs with empty many
    · rfl
    · rfl
    · exact absurd refused (not_or.mpr ⟨empty, many⟩)
  · rw [not_or, not_lt] at refused
    have created : (createSecretShares scheme saved dealing.random dealing.secret).2 = some _ :=
      created_of_order_le small saved (Nat.pos_of_ne_zero refused.1) refused.2
    by_cases inside : blockIdx < numBlocks dealing.secret.length
    · rw [if_pos ⟨inside, refused.2⟩]
      exact (dealt_of_created created).savedCoeffs blockIdx inside index coefficient
    · rw [if_neg fun covered => inside covered.1, createSecretShares, if_neg refused.1,
        if_neg (by omega)]
      have kept := @savedCoeffs_createBlocks_of_le scheme dealing.random dealing.secret
        { saved with coeffsSaved := false } blockIdx index _ (not_lt.mp inside)
      split <;> rename_i equal <;> rw [equal] at kept <;> exact kept

theorem coeffsSaved_createSecretShares
    (dealing : Dealing scheme) (before : saved.coeffsSaved = true) :
    (createSecretShares scheme saved dealing.random dealing.secret).1.coeffsSaved = true := by
  by_cases empty : dealing.secret.length = 0
  · rwa [createSecretShares, if_pos empty]
  · by_cases many : maxBlocks < numBlocks dealing.secret.length
    · rwa [createSecretShares, if_neg empty, if_pos many]
    · exact (dealt_of_created (created_of_order_le small saved (Nat.pos_of_ne_zero empty)
        (not_lt.mp many))).coeffsSaved

theorem coeffsSaved_afterDealings
    (later : List (Dealing scheme)) (before : saved.coeffsSaved = true) :
    (afterDealings scheme saved later).coeffsSaved = true := by
  induction later generalizing saved with
  | nil => exact before
  | cons next later ih =>
    exact ih (coeffsSaved_createSecretShares small next before)

theorem savedCoeffs_afterDealings {dealing : Dealing scheme} (later : List (Dealing scheme))
    (coefficient : index < scheme.threshold)
    (before : saved.savedCoeffs blockIdx index = dealing.coeffs blockIdx index) :
    (afterDealings scheme saved later).savedCoeffs blockIdx index =
      (dealing.lastCovering later blockIdx).coeffs blockIdx index := by
  -- the dealing that owns the block changes with the state along the calls
  induction later generalizing saved dealing with
  | nil => exact before
  | cons next later ih =>
    have step := @savedCoeffs_createSecretShares _ saved blockIdx _ small next coefficient
    by_cases covered : next.Covers blockIdx
    · rw [if_pos covered] at step
      have owner : dealing.lastCovering (next :: later) blockIdx =
          next.lastCovering later blockIdx := by
        rw [Dealing.lastCovering, List.foldl_cons, if_pos covered, Dealing.lastCovering]
      rw [owner]
      exact ih step
    · rw [if_neg covered] at step
      have owner : dealing.lastCovering (next :: later) blockIdx =
          dealing.lastCovering later blockIdx := by
        rw [Dealing.lastCovering, List.foldl_cons, if_neg covered, Dealing.lastCovering]
      rw [owner]
      exact ih (step.trans before)

end Small

end Static

section Interleaving

variable {scheme : Scheme} {E : Type u} [AddCommGroup E]
  [Module (ZMod scheme.order) E] {group : PrimeOrderGroup scheme.order E} {codec : PointCodec E}
  {saved : SavedCoeffs} {dealing : Dealing scheme} {shares : List Share}

theorem liesOn_iff (owner : Dealing scheme) (share : Share) :
    LiesOn owner share ↔
      (∀ index < scheme.threshold, 0 < index →
        (owner.coeffs share.blockIndex index : ZMod scheme.order) ≠ 0) ∧
      (share.value : ZMod scheme.order) = Interpolation.evaluate scheme.threshold
        (fun index => (owner.coeffs share.blockIndex index : ZMod scheme.order))
        (digit share.x) := by
  rw [← natCast_shareValue, ← mod_eq_mod_iff_natCast_eq, Nat.mod_eq_of_lt (shareValue_lt _ _ _)]
  constructor
  · rintro ⟨nonzero, value⟩
    refine ⟨?_, value⟩
    intro index inside positive
    exact (natCast_blockCoeffs_ne_zero_iff positive).mpr (nonzero index inside positive)
  · rintro ⟨nonzero, value⟩
    refine ⟨?_, value⟩
    intro index inside positive
    exact (natCast_blockCoeffs_ne_zero_iff positive).mp (nonzero index inside positive)

variable [DecidableEq E]

theorem verify_afterDealings_iff (small : scheme.order ≤ 256 ^ (shareSize - 4))
    (dealt : Dealt scheme dealing.random dealing.secret saved shares)
    (later : List (Dealing scheme)) {commitment : VssCommitment}
    (created : createVssCommitments scheme group codec (afterDealings scheme saved later)
      dealing.secret = some commitment)
    {share : Share} (member : share ∈ shares) (nonzero : share.value % scheme.order ≠ 0) :
    verifyShareWithCommitment scheme group codec share commitment = true ↔
      LiesOn (dealing.lastCovering later share.blockIndex) share := by
  have inside := (dealt.stated member).2
  rw [liesOn_iff]
  exact dealt.verify_iff member nonzero created fun index coefficient =>
    savedCoeffs_afterDealings small later coefficient (dealt.savedCoeffs _ inside index coefficient)

/-- The record made after any dealings accepts all nonzero shares of a message exactly if they lie
on the polynomials that were last used for their blocks. -/
theorem commitment_accepts_iff (small : scheme.order ≤ 256 ^ (shareSize - 4))
    (group : PrimeOrderGroup scheme.order E) (codec : PointCodec E)
    (earlier : List (Dealing scheme)) (dealing : Dealing scheme) (later : List (Dealing scheme))
    (shares : List Share)
    (created : (createSecretShares scheme (afterDealings scheme neverSaved earlier) dealing.random
      dealing.secret).2 = some shares) :
    (∃ commitment, createVssCommitments scheme group codec
        (afterDealings scheme neverSaved (earlier ++ dealing :: later)) dealing.secret =
          some commitment ∧
      ∀ share ∈ shares, share.value % scheme.order ≠ 0 →
        verifyShareWithCommitment scheme group codec share commitment = true) ↔
    ∀ share ∈ shares, share.value % scheme.order ≠ 0 →
      LiesOn (dealing.lastCovering later share.blockIndex) share := by
  have dealt := dealt_of_created created
  have split : afterDealings scheme neverSaved (earlier ++ dealing :: later) =
      afterDealings scheme (createSecretShares scheme (afterDealings scheme neverSaved earlier)
        dealing.random dealing.secret).1 later := by
    rw [afterDealings, List.foldl_append, List.foldl_cons]
    rfl
  rw [split]
  constructor
  · rintro ⟨commitment, committed, accepted⟩ share member nonzero
    exact (verify_afterDealings_iff small dealt later committed member nonzero).mp
      (accepted share member nonzero)
  · intro onLast
    rcases dealt.exists_commitment group codec
      (coeffsSaved_afterDealings small later dealt.coeffsSaved) with ⟨commitment, committed⟩
    refine ⟨commitment, committed, ?_⟩
    intro share member nonzero
    exact (verify_afterDealings_iff small dealt later committed member nonzero).mpr
      (onLast share member nonzero)

end Interleaving

section Sample

def byteDealing (byte : UInt8) : Dealing deployed where
  random := constantRandom 2
  secret := [byte]

theorem created_byteDealing (saved : SavedCoeffs) (byte : UInt8) :
    (createSecretShares deployed saved (byteDealing byte).random (byteDealing byte).secret).2 =
      some (dealing deployed (constantRandom 2) [byte] 1) := by
  have blocks : numBlocks (byteDealing byte).secret.length = 1 := by
    change numBlocks 1 = 1
    decide
  have created : (createSecretShares deployed saved (byteDealing byte).random
      (byteDealing byte).secret).2 = some _ :=
    created_of_order_le secp256k1Order_le_pow saved Nat.one_pos (by rw [blocks]; decide)
  rw [blocks] at created
  exact created

theorem commitment_accepts_last :
    ∃ commitment, createVssCommitments deployed (PrimeOrderGroup.residues deployed.order) tableCodec
        (afterDealings deployed neverSaved [byteDealing 5, byteDealing 1]) [1] = some commitment ∧
      ∀ share ∈ dealing deployed (constantRandom 2) [1] 1, share.value % deployed.order ≠ 0 →
        verifyShareWithCommitment deployed (PrimeOrderGroup.residues deployed.order) tableCodec
          share commitment = true := by
  apply (commitment_accepts_iff secp256k1Order_le_pow _ tableCodec [byteDealing 5] (byteDealing 1)
    [] _ (created_byteDealing _ 1)).mpr
  intro share member nonzero
  refine ⟨fun _ _ _ => (by decide +kernel : 2 % deployed.order ≠ 0), ?_⟩
  obtain ⟨blockIdx, inside, participant, isParticipant, rfl⟩ := mem_dealing.mp member
  interval_cases blockIdx
  change participant < 3 at isParticipant
  interval_cases participant <;> decide +kernel

/-- A second message is dealt before the first is committed to. -/
theorem commitment_refuses_after_dealing :
    (createSecretShares deployed neverSaved (constantRandom 2) [1]).2 =
        some (dealing deployed (constantRandom 2) [1] 1) ∧
      dealtShare deployed (constantRandom 2) [1] 0 0 ∈ dealing deployed (constantRandom 2) [1] 1 ∧
      (dealtShare deployed (constantRandom 2) [1] 0 0).value % deployed.order = 3 ∧
      ∃ commitment, createVssCommitments deployed (PrimeOrderGroup.residues deployed.order)
          tableCodec (afterDealings deployed neverSaved [byteDealing 1, byteDealing 5]) [1] =
            some commitment ∧
        verifyShareWithCommitment deployed (PrimeOrderGroup.residues deployed.order) tableCodec
          (dealtShare deployed (constantRandom 2) [1] 0 0) commitment = false := by
  have created := created_byteDealing neverSaved 1
  have dealt := dealt_of_created created
  have member : dealtShare deployed (constantRandom 2) [1] 0 0 ∈
      dealing deployed (constantRandom 2) [1] 1 :=
    mem_dealing.mpr ⟨0, by decide, 0, by decide, rfl⟩
  have value : (dealtShare deployed (constantRandom 2) [1] 0 0).value % deployed.order = 3 := by
    decide +kernel
  rcases dealt.exists_commitment (PrimeOrderGroup.residues deployed.order) tableCodec
    (coeffsSaved_afterDealings secp256k1Order_le_pow [byteDealing 5] dealt.coeffsSaved) with
    ⟨commitment, committed⟩
  refine ⟨created, member, value, commitment, committed, ?_⟩
  rw [Bool.eq_false_iff, Ne, verify_afterDealings_iff secp256k1Order_le_pow dealt [byteDealing 5]
    committed member (by rw [value]; decide)]
  intro liesOn
  -- at one, the polynomial of the byte five has the value seven
  have last : shareValue deployed ((byteDealing 5).coeffs 0) 1 = 7 := by decide +kernel
  have same : 3 = shareValue deployed ((byteDealing 5).coeffs 0) 1 := value ▸ liesOn.value
  rw [last] at same
  exact absurd same (by decide)

end Sample

end TigerMixer.SecretShare
