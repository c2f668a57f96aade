import TigerMixer.Algebra.Interpolation
import TigerMixer.Algebra.PrimeOrder
import TigerMixer.Algebra.Secp256k1
import TigerMixer.Data.ByteString

/-!
# Dealing the shares of a message

`create_secret_shares` cuts a message into blocks of thirty bytes, hides each block as the constant
term of a polynomial, and gives participant `i` the value of every polynomial at `i + 1`. The
coefficients stay behind in static variables, from which the commitments are made later.
-/

namespace TigerMixer.SecretShare

open Bytes List

universe u v

theorem mapM_eq_some_iff {α : Type u} {β : Type v} {f : α → Option β} {inputs : List α}
    {outputs : List β} :
    inputs.mapM f = some outputs ↔ inputs.map f = outputs.map some := by
  induction inputs generalizing outputs with
  | nil => cases outputs <;> simp
  | cons input inputs ih =>
    cases result : f input with
    | none => cases outputs <;> simp [mapM_cons, result]
    | some output =>
      cases outputs with
      | nil => simp [mapM_cons, result, Option.bind_eq_some_iff]
      | cons first rest =>
        simp only [mapM_cons, result, Option.bind_eq_bind, Option.bind_some,
          Option.bind_eq_some_iff, ih, map_cons, List.cons.injEq,
          Option.some.injEq, Option.pure_def]
        constructor
        · rintro ⟨later, traversed, rfl, rfl⟩
          exact ⟨rfl, traversed⟩
        · rintro ⟨rfl, traversed⟩
          exact ⟨rest, traversed, rfl, rfl⟩

/-- The macros `THRESHOLD` and `SECRET_SHARES` together with the order of the curve. -/
structure Scheme where
  threshold : ℕ
  secretShares : ℕ
  /-- What `ec_curve_get_ord` returns. -/
  order : ℕ
  threshold_pos : 0 < threshold
  secretShares_lt : secretShares < order
  prime : order.Prime
  /-- The order has at most the 1024 bits of `BN_PRECI`. -/
  order_lt : order < 256 ^ 128

instance (scheme : Scheme) : Fact scheme.order.Prime :=
  ⟨scheme.prime⟩

theorem Scheme.order_pos (scheme : Scheme) : 0 < scheme.order :=
  scheme.prime.pos

def deployed : Scheme where
  threshold := 2
  secretShares := 3
  order := secp256k1Order
  threshold_pos := by decide
  secretShares_lt := by decide
  prime := prime_secp256k1Order
  order_lt := by norm_num [secp256k1Order]

/-- `RLC_BN_SIZE`, the digits that a number of RELIC has room for. -/
def bnSize : ℕ := 34

def shareSize : ℕ := 100000

def blockSize : ℕ := 30

def maxBlocks : ℕ := 1000

/-- `secret_share_t`. The value array is given by its leading bytes; the others are zero. -/
structure Share where
  x : ℤ
  blockIndex : ℕ
  y : Bytes
  dataLength : ℕ
  blockSize : ℕ
  deriving DecidableEq, Repr

def sizeSub (left right : ℕ) : ℕ :=
  (left + (2 ^ 64 - right % 2 ^ 64)) % 2 ^ 64

theorem sizeSub_of_le {left right : ℕ} (le : right ≤ left) (bound : left < 2 ^ 64) :
    sizeSub left right = left - right := by
  unfold sizeSub
  omega

def numBlocks (secretLen : ℕ) : ℕ :=
  (secretLen + blockSize - 1) / blockSize

def sizeOfBlock (secretLen blocks blockIdx : ℕ) : ℕ :=
  if blockIdx + 1 = blocks then sizeSub secretLen (blockIdx * blockSize) else blockSize

def blockBytes (secret : Bytes) (blockIdx : ℕ) : Bytes :=
  (secret.drop (blockIdx * blockSize)).take
    (sizeOfBlock secret.length (numBlocks secret.length) blockIdx)

section Model

variable (scheme : Scheme) (random : ℕ → ℕ → Fin scheme.order) (secret : Bytes)

def blockCoeffs (blockIdx index : ℕ) : ℕ :=
  if index = 0 then readBe (blockBytes secret blockIdx) % scheme.order
  else random blockIdx index

/-- The value of a share, by Horner's rule with a reduction after each operation. -/
def shareValue (coeffs : ℕ → ℕ) (x : ℕ) : ℕ :=
  (List.range scheme.threshold).foldr
    (fun k value => (value * x % scheme.order + coeffs k) % scheme.order) 0

def encodeValue (value : ℕ) : Bytes :=
  writeLe 4 (sizeBytes value) ++ writeBe (sizeBytes value) value

/-- The size that a reader finds in a value array. A top bit makes it larger than every bound it is
compared with. -/
def Share.storedSize (share : Share) : ℕ :=
  readLe (share.y.takeD 4 0)

def Share.value (share : Share) : ℕ :=
  readBe ((share.y.drop 4).takeD share.storedSize 0)

inductive Fault where
  | failed
  | overrun
  /-- An exception of RELIC, which leaves all functions up to `main`. -/
  | thrown
  deriving DecidableEq, Repr

/-- The sizes that are checked, and the exception of `bn_read_bin` on a number that is too long. -/
def Share.readValue (share : Share) : Except Fault ℕ :=
  if share.storedSize = 0 ∨ shareSize - 4 < share.storedSize then .error .failed
  else if 8 * bnSize < share.storedSize then .error .thrown
  else .ok share.value

/-- `bn_mod` throws if a number that is to be reduced leaves no digit free. -/
def modThrows (value order : ℕ) : Bool :=
  order ≤ value && bnSize ≤ usedDigits value

def dealtShare (blockIdx participant : ℕ) : Share where
  x := participant + 1
  blockIndex := blockIdx
  y := encodeValue (shareValue scheme (blockCoeffs scheme random secret blockIdx) (participant + 1))
  dataLength := secret.length
  blockSize := sizeOfBlock secret.length (numBlocks secret.length) blockIdx

/-- One iteration over the participants; it fails when the value does not fit the array. -/
def createShare (blockIdx participant : ℕ) : Option Share :=
  let value := shareValue scheme (blockCoeffs scheme random secret blockIdx) (participant + 1)
  if sizeBytes value + 4 ≤ shareSize then
    some (dealtShare scheme random secret blockIdx participant)
  else none

structure SavedCoeffs where
  savedCoeffs : ℕ → ℕ → ℕ
  coeffsSaved : Bool

def neverSaved : SavedCoeffs where
  savedCoeffs _ _ := 0
  coeffsSaved := false

def SavedCoeffs.save (saved : SavedCoeffs) (threshold blockIdx : ℕ) (coeffs : ℕ → ℕ) :
    SavedCoeffs where
  savedCoeffs block index :=
    if block = blockIdx ∧ index < threshold then coeffs index else saved.savedCoeffs block index
  coeffsSaved := saved.coeffsSaved

/-- The loop over the first `blocks` blocks. Coefficients are saved before the shares are computed,
so a failure leaves them behind. -/
def createBlocks (saved : SavedCoeffs) : ℕ → SavedCoeffs × Option (List Share)
  | 0 => (saved, some [])
  | blockIdx + 1 =>
    match createBlocks saved blockIdx with
    | (saved, none) => (saved, none)
    | (saved, some shares) =>
      (saved.save scheme.threshold blockIdx (blockCoeffs scheme random secret blockIdx),
        ((List.range scheme.secretShares).mapM (createShare scheme random secret blockIdx)).map
          (shares ++ ·))

end Model

def createSecretShares (scheme : Scheme) (saved : SavedCoeffs)
    (random : ℕ → ℕ → Fin scheme.order) (secret : Bytes) : SavedCoeffs × Option (List Share) :=
  if secret.length = 0 then (saved, none)
  else if maxBlocks < numBlocks secret.length then (saved, none)
  else
    match createBlocks scheme random secret { saved with coeffsSaved := false }
        (numBlocks secret.length) with
    | (saved, none) => (saved, none)
    | (saved, some shares) => ({ saved with coeffsSaved := true }, some shares)

def constantRandom {scheme : Scheme} (scalar : ℕ) : ℕ → ℕ → Fin scheme.order :=
  fun _ _ => ⟨scalar % scheme.order, Nat.mod_lt _ scheme.order_pos⟩

section Blocks

variable {secretLen blockIdx : ℕ}

theorem lt_numBlocks_iff : blockIdx < numBlocks secretLen ↔ blockIdx * blockSize < secretLen := by
  simp only [numBlocks, blockSize]
  omega

theorem length_le_of_numBlocks_le (few : numBlocks secretLen ≤ maxBlocks) : secretLen ≤ 30000 := by
  simp only [numBlocks, blockSize, maxBlocks] at few
  omega

theorem sizeOfBlock_eq (bound : secretLen < 2 ^ 64) (inside : blockIdx < numBlocks secretLen) :
    sizeOfBlock secretLen (numBlocks secretLen) blockIdx =
      min blockSize (secretLen - blockIdx * blockSize) := by
  have start := lt_numBlocks_iff.mp inside
  rw [sizeOfBlock, sizeSub_of_le start.le bound]
  by_cases last : blockIdx + 1 = numBlocks secretLen
  · rw [if_pos last]
    simp only [numBlocks, blockSize] at last ⊢
    omega
  · rw [if_neg last]
    simp only [numBlocks, blockSize] at inside last ⊢
    omega

theorem readBe_blockBytes_lt {secret : Bytes} (bound : secret.length < 2 ^ 64)
    (inside : blockIdx < numBlocks secret.length) :
    readBe (blockBytes secret blockIdx) < 2 ^ 240 := by
  have short : (blockBytes secret blockIdx).length ≤ 30 := by
    refine (length_take_le _ _).trans ?_
    rw [sizeOfBlock_eq bound inside]
    exact Nat.min_le_left _ _
  calc readBe (blockBytes secret blockIdx)
      < 256 ^ (blockBytes secret blockIdx).length := readBe_lt _
    _ ≤ 256 ^ 30 := Nat.pow_le_pow_right (by norm_num) short
    _ = 2 ^ 240 := by norm_num

end Blocks

section Values

variable (scheme : Scheme) (coeffs : ℕ → ℕ) (x : ℕ)

theorem shareValue_lt : shareValue scheme coeffs x < scheme.order := by
  unfold shareValue
  cases List.range scheme.threshold with
  | nil => exact scheme.order_pos
  | cons index rest => exact Nat.mod_lt _ scheme.order_pos

theorem natCast_shareValue :
    (shareValue scheme coeffs x : ZMod scheme.order) =
      Interpolation.evaluate scheme.threshold (fun index => (coeffs index : ZMod scheme.order))
        x := by
  rw [← Interpolation.foldr_range_horner, shareValue]
  induction List.range scheme.threshold with
  | nil => simp
  | cons index rest ih =>
    simp only [foldr_cons, ZMod.natCast_mod, Nat.cast_add, Nat.cast_mul, ih]

variable {share : Share} {value : ℕ} (stored : share.y = encodeValue value)
  (short : value < 256 ^ 128)

include stored short

theorem storedSize_encodeValue : share.storedSize = sizeBytes value ∧ sizeBytes value ≤ 128 := by
  have size : sizeBytes value ≤ 128 := sizeBytes_le_iff.mpr short
  rw [Share.storedSize, stored, encodeValue, takeD_left' (length_writeLe _ _),
    readLe_writeLe_of_lt (by omega)]
  exact ⟨rfl, size⟩

theorem readValue_encodeValue :
    share.value = value ∧ share.readValue = if value = 0 then .error .failed else .ok value := by
  obtain ⟨size, small⟩ := storedSize_encodeValue stored short
  have same : share.value = value := by
    rw [Share.value, size, stored, encodeValue, drop_left' (length_writeLe _ _)]
    rw [← append_nil (writeBe _ _), takeD_left' (length_writeBe _ _),
      readBe_writeBe_of_lt (lt_pow_sizeBytes value)]
  refine ⟨same, ?_⟩
  have inBounds : ¬shareSize - 4 < sizeBytes value := by
    simp only [shareSize]
    omega
  have readable : ¬8 * bnSize < sizeBytes value := by
    simp only [bnSize]
    omega
  simp only [Share.readValue, size, same, sizeBytes_eq_zero_iff, inBounds, or_false, readable,
    if_false]

end Values

theorem modThrows_of_lt {value order : ℕ} (reduced : value < order) :
    modThrows value order = false := by
  simp [modThrows, reduced]

section Creation

variable (scheme : Scheme) (random : ℕ → ℕ → Fin scheme.order) (secret : Bytes)

abbrev Fits (blockIdx participant : ℕ) : Prop :=
  sizeBytes (shareValue scheme (blockCoeffs scheme random secret blockIdx) (participant + 1)) + 4 ≤
    shareSize

def dealing (count : ℕ) : List Share :=
  (List.range count).flatMap fun blockIdx =>
    (List.range scheme.secretShares).map (dealtShare scheme random secret blockIdx)

variable {scheme random secret}

variable {count : ℕ} {shares : List Share} {saved : SavedCoeffs}

theorem mem_dealing {share : Share} :
    share ∈ dealing scheme random secret count ↔
      ∃ blockIdx < count, ∃ participant < scheme.secretShares,
        dealtShare scheme random secret blockIdx participant = share := by
  simp [dealing]

theorem fits_of_order_le (small : scheme.order ≤ 256 ^ (shareSize - 4)) (blockIdx participant : ℕ) :
    Fits scheme random secret blockIdx participant := by
  have bound := shareValue_lt scheme (blockCoeffs scheme random secret blockIdx) (participant + 1)
  have size := sizeBytes_le_iff.mpr (bound.trans_le small)
  have room : 4 ≤ shareSize := by decide
  omega

theorem mapM_createShare {blockIdx : ℕ} {participants : List ℕ} :
    participants.mapM (createShare scheme random secret blockIdx) = some shares ↔
      (∀ participant ∈ participants, Fits scheme random secret blockIdx participant) ∧
        shares = participants.map (dealtShare scheme random secret blockIdx) := by
  have created (participant : ℕ) : createShare scheme random secret blockIdx participant =
      if Fits scheme random secret blockIdx participant then
        some (dealtShare scheme random secret blockIdx participant) else none := rfl
  rw [mapM_eq_some_iff]
  induction participants generalizing shares with
  | nil => cases shares <;> simp
  | cons participant rest ih =>
    cases shares with
    | nil => simp
    | cons share shares =>
      by_cases fits : Fits scheme random secret blockIdx participant
      · simp only [map_cons, List.cons.injEq, ih, forall_mem_cons]
        rw [created participant, if_pos fits, Option.some.injEq]
        constructor
        · rintro ⟨rfl, restFits, rfl⟩
          exact ⟨⟨fits, restFits⟩, rfl, rfl⟩
        · rintro ⟨⟨-, restFits⟩, rfl, rfl⟩
          exact ⟨rfl, restFits, rfl⟩
      · simp [created, fits]

theorem createBlocks_eq_some :
    (createBlocks scheme random secret saved count).2 = some shares ↔
      (∀ blockIdx < count, ∀ participant < scheme.secretShares,
        Fits scheme random secret blockIdx participant) ∧
      shares = dealing scheme random secret count := by
  induction count generalizing shares with
  | zero => simp [createBlocks, dealing, eq_comm]
  | succ count ih =>
    simp only [createBlocks]
    split
    · rename_i later equal
      simp only [equal, reduceCtorEq, false_iff, not_and] at ih ⊢
      intro fits
      have failed := @ih (dealing scheme random secret count)
      exact absurd rfl (failed fun blockIdx inside => fits blockIdx (by omega))
    · rename_i later earlier equal
      simp only [equal, Option.some.injEq] at ih
      have earlierDealt := ih.mp rfl
      simp only [Option.map_eq_some_iff, mapM_createShare, mem_range]
      rw [Nat.forall_lt_succ_right, dealing, range_succ, flatMap_append,
        flatMap_singleton, ← dealing, ← earlierDealt.2]
      constructor
      · rintro ⟨current, ⟨fits, rfl⟩, rfl⟩
        exact ⟨⟨earlierDealt.1, fits⟩, rfl⟩
      · rintro ⟨⟨-, fits⟩, rfl⟩
        exact ⟨_, ⟨fits, rfl⟩, rfl⟩

theorem savedCoeffs_createBlocks
    (created : (createBlocks scheme random secret saved count).2 = some shares) (blockIdx : ℕ)
    (inside : blockIdx < count) (index : ℕ) (coefficient : index < scheme.threshold) :
    (createBlocks scheme random secret saved count).1.savedCoeffs blockIdx index =
      blockCoeffs scheme random secret blockIdx index := by
  induction count generalizing shares with
  | zero => omega
  | succ count ih =>
    simp only [createBlocks] at created ⊢
    split at created
    · simp at created
    · rename_i later earlier equal
      simp only [SavedCoeffs.save]
      by_cases last : blockIdx = count
      · subst last
        simp [coefficient]
      · rw [if_neg (by simp [last])]
        simp only [equal] at ih
        exact ih rfl (by omega)

structure Dealt (scheme : Scheme) (random : ℕ → ℕ → Fin scheme.order) (secret : Bytes)
    (saved : SavedCoeffs) (shares : List Share) : Prop where
  length_pos : 0 < secret.length
  few_blocks : numBlocks secret.length ≤ maxBlocks
  fits : ∀ blockIdx < numBlocks secret.length, ∀ participant < scheme.secretShares,
    Fits scheme random secret blockIdx participant
  shares_eq : shares = dealing scheme random secret (numBlocks secret.length)
  coeffsSaved : saved.coeffsSaved = true
  savedCoeffs : ∀ blockIdx < numBlocks secret.length, ∀ index < scheme.threshold,
    saved.savedCoeffs blockIdx index = blockCoeffs scheme random secret blockIdx index

theorem dealt_of_created
    (created : (createSecretShares scheme saved random secret).2 = some shares) :
    Dealt scheme random secret (createSecretShares scheme saved random secret).1 shares := by
  unfold createSecretShares at created ⊢
  split_ifs at created ⊢ with empty many
  split at created
  · simp at created
  · rename_i later earlier equal
    have succeeded : (createBlocks scheme random secret { saved with coeffsSaved := false }
        (numBlocks secret.length)).2 = some shares := by
      rw [equal]
      exact created
    obtain ⟨fits, sharesEq⟩ := createBlocks_eq_some.mp succeeded
    have coeffs := savedCoeffs_createBlocks succeeded
    simp only [equal] at coeffs ⊢
    exact ⟨by omega, by omega, fits, sharesEq, rfl, coeffs⟩

theorem created_of_order_le (small : scheme.order ≤ 256 ^ (shareSize - 4)) (saved : SavedCoeffs)
    (positive : 0 < secret.length) (few : numBlocks secret.length ≤ maxBlocks) :
    (createSecretShares scheme saved random secret).2 =
      some (dealing scheme random secret (numBlocks secret.length)) := by
  have succeeded : (createBlocks scheme random secret { saved with coeffsSaved := false }
      (numBlocks secret.length)).2 =
        some (dealing scheme random secret (numBlocks secret.length)) :=
    createBlocks_eq_some.mpr ⟨fun blockIdx _ participant _ => fits_of_order_le small _ _, rfl⟩
  rw [createSecretShares, if_neg (by omega), if_neg (by omega)]
  split
  · rename_i later equal
    simp [equal] at succeeded
  · rename_i later shares equal
    simpa only [equal] using succeeded

theorem secp256k1Order_le_pow : secp256k1Order ≤ 256 ^ (shareSize - 4) :=
  calc secp256k1Order ≤ 256 ^ 32 := by norm_num [secp256k1Order]
    _ ≤ 256 ^ (shareSize - 4) := Nat.pow_le_pow_right (by norm_num) (by decide)

end Creation

end TigerMixer.SecretShare
