import TigerMixer.SecretShare.Dealer

/-!
# Reconstructing a message from shares

`reconstruct_secret_from_shares` takes the length of the message and the number of its blocks from
the shares. For every block it interpolates the first `THRESHOLD` shares at zero and writes the
result right-aligned. A write behind the caller's buffer and an exception of RELIC are kept apart
from the return value `-1`.
-/

namespace TigerMixer.SecretShare

open Bytes Interpolation List

def maxMessageSize : ℕ := 100000

/-- What `bn_set_dig` makes of an `int`: a negative number becomes an unsigned digit. -/
def digit (x : ℤ) : ℕ :=
  if 0 ≤ x then x.toNat else (2 ^ 64 + x).toNat

def lagrangeStep (order : ℕ) (xi : ℤ) (result : ℕ) (xj : ℤ) : ℕ :=
  if xj = xi then result
  else
    let numerator := (-(digit xj : ℤ) % order).toNat
    let denominator := (((digit xi : ℤ) - digit xj) % order).toNat
    if denominator = 0 then result
    else result * (numerator * modInv denominator order % order) % order

def lagrangeCoefficientEc (order : ℕ) (xi : ℤ) (xCoords : List ℤ) : ℕ :=
  xCoords.foldl (lagrangeStep order xi) 1

def contribute (order : ℕ) (xCoords : List ℤ) (block : ℕ) (point : ℤ × ℕ) : ℕ :=
  (block + point.2 * lagrangeCoefficientEc order point.1 xCoords % order) % order

def interpolateBlock (order : ℕ) (points : List (ℤ × ℕ)) : ℕ :=
  points.foldl (contribute order (points.map Prod.fst)) 0

/-- `bn_mul` throws if its factors together have more digits than a number, and then `bn_mod` if the
product leaves none free. -/
def contributionThrows (order : ℕ) (xCoords : List ℤ) (point : ℤ × ℕ) : Bool :=
  let coefficient := lagrangeCoefficientEc order point.1 xCoords
  bnSize < usedDigits point.2 + usedDigits coefficient || modThrows (point.2 * coefficient) order

def collectBlock (blockIdx : ℕ) : ℕ → List Share → Except Fault (List (ℤ × ℕ))
  | 0, _ => .ok []
  | _ + 1, [] => .ok []
  | wanted + 1, share :: rest =>
    if share.blockIndex = blockIdx then do
      let value ← share.readValue
      let points ← collectBlock blockIdx wanted rest
      .ok ((share.x, value) :: points)
    else collectBlock blockIdx (wanted + 1) rest

def reconstructBlock (scheme : Scheme) (shares : List Share)
    (secretLen blocks blockIdx offset : ℕ) :
    Except Fault Bytes :=
  match collectBlock blockIdx scheme.threshold shares with
  | .error fault => .error fault
  | .ok points =>
    if points.length < scheme.threshold then .error .failed
    else if points.any (contributionThrows scheme.order (points.map Prod.fst)) then .error .thrown
    else
      let block := interpolateBlock scheme.order points
      let size := sizeOfBlock secretLen blocks blockIdx
      if size < sizeBytes block then .error .failed
      else if maxMessageSize < offset + size then .error .overrun
      else .ok (List.replicate (size - sizeBytes block) 0 ++ writeBe (sizeBytes block) block)

def reconstructBlocks (scheme : Scheme) (shares : List Share) (secretLen blocks : ℕ) :
    ℕ → Except Fault Bytes
  | 0 => .ok []
  | blockIdx + 1 => do
      let data ← reconstructBlocks scheme shares secretLen blocks blockIdx
      let block ← reconstructBlock scheme shares secretLen blocks blockIdx data.length
      .ok (data ++ block)

def statedLength (shares : List Share) : ℕ :=
  shares.foldl (fun len share => if 0 < share.dataLength then share.dataLength else len) 0

def maxBlockIndex (shares : List Share) : ℕ :=
  shares.foldl (fun largest share =>
    if largest < share.blockIndex then share.blockIndex else largest) 0

/-- `reconstruct_secret_from_shares`: the bytes written and the length returned with them. -/
def reconstructSecretFromShares (scheme : Scheme) (shares : List Share) :
    Except Fault (Bytes × ℕ) :=
  if shares.length < scheme.threshold then .error .failed
  else if statedLength shares = 0 then .error .failed
  else do
    let blocks := (maxBlockIndex shares + 1) % 2 ^ 64
    let data ← reconstructBlocks scheme shares (statedLength shares) blocks blocks
    .ok (data, statedLength shares)

def selected (threshold blockIdx : ℕ) (shares : List Share) : List Share :=
  (shares.filter fun share => share.blockIndex = blockIdx).take threshold

section Interpolation

variable {order : ℕ} [Fact order.Prime]

theorem natCast_lagrangeStep {xi xj : ℤ} (result : ℕ)
    (separated : (digit xj : ZMod order) = digit xi → xj = xi) :
    (lagrangeStep order xi result xj : ZMod order) = result *
      if (digit xj : ZMod order) = digit xi then 1
      else factor (digit xi : ZMod order) (digit xj) := by
  unfold lagrangeStep
  by_cases same : xj = xi
  · simp [same]
  · have apart : (digit xj : ZMod order) ≠ digit xi := fun equal => same (separated equal)
    have denominator : ((((digit xi : ℤ) - digit xj) % order).toNat : ZMod order) =
        digit xi - digit xj := by
      rw [natCast_toNat_emod]
      push_cast
      rfl
    have nonzero :
        ((((digit xi : ℤ) - digit xj) % order).toNat : ZMod order) ≠ 0 := by
      rw [denominator]
      exact sub_ne_zero.mpr apart.symm
    have denominatorNonzero : (((digit xi : ℤ) - digit xj) % order).toNat ≠ 0 := by
      intro zero
      rw [zero] at nonzero
      exact nonzero Nat.cast_zero
    rw [if_neg same, if_neg apart]
    simp only [if_neg denominatorNonzero, ZMod.natCast_mod, Nat.cast_mul, natCast_modInv nonzero,
      denominator, natCast_toNat_emod, factor]
    push_cast
    rfl

theorem natCast_lagrangeCoefficientEc {xi : ℤ} {xCoords : List ℤ}
    (separated : ∀ xj ∈ xCoords, (digit xj : ZMod order) = digit xi → xj = xi) :
    (lagrangeCoefficientEc order xi xCoords : ZMod order) =
      weight (xCoords.map fun xj => (digit xj : ZMod order)) (digit xi) := by
  suffices loop : ∀ result : ℕ,
      ((xCoords.foldl (lagrangeStep order xi) result : ℕ) : ZMod order) = result *
        weight (xCoords.map fun xj => (digit xj : ZMod order)) (digit xi) by
    simpa [lagrangeCoefficientEc] using loop 1
  induction xCoords with
  | nil => simp [weight]
  | cons xj rest ih =>
    intro result
    simp only [forall_mem_cons] at separated
    rw [foldl_cons, ih separated.2, natCast_lagrangeStep result separated.1]
    simp only [weight, map_cons, prod_cons, mul_assoc]

variable {scheme : Scheme}

def scalars (scheme : Scheme) (point : ℤ × ℕ) : ZMod scheme.order × ZMod scheme.order :=
  (digit point.1, point.2)

theorem lagrangeCoefficientEc_lt (xi : ℤ) (xCoords : List ℤ) :
    lagrangeCoefficientEc order xi xCoords < order := by
  have prime : order.Prime := Fact.out
  suffices loop : ∀ result < order, xCoords.foldl (lagrangeStep order xi) result < order from
    loop 1 prime.one_lt
  induction xCoords with
  | nil => exact fun result bound => bound
  | cons xj rest ih =>
    intro result bound
    apply ih
    unfold lagrangeStep
    dsimp only
    split_ifs
    · exact bound
    · exact bound
    · exact Nat.mod_lt _ prime.pos

theorem contributionThrows_of_lt (xCoords : List ℤ) {point : ℤ × ℕ}
    (reduced : point.2 < scheme.order) :
    contributionThrows scheme.order xCoords point = false := by
  set weight := lagrangeCoefficientEc scheme.order point.1 xCoords with weight_eq
  have coefficient : weight < scheme.order := lagrangeCoefficientEc_lt point.1 xCoords
  have digits {value : ℕ} (bound : value < scheme.order) : usedDigits value ≤ 16 := by
    rw [usedDigits_le_iff (by norm_num)]
    exact (bound.trans scheme.order_lt).trans_eq (by decide +kernel)
  have product : usedDigits (point.2 * weight) ≤ 32 := by
    rw [usedDigits_le_iff (by norm_num)]
    calc point.2 * weight < 256 ^ 128 * 256 ^ 128 :=
          Nat.mul_lt_mul'' (reduced.trans scheme.order_lt) (coefficient.trans scheme.order_lt)
      _ = 2 ^ (64 * 32) := by decide +kernel
  have left := digits reduced
  have right := digits coefficient
  simp only [contributionThrows, modThrows, ← weight_eq, bnSize]
  simp
  omega

theorem interpolateBlock_lt (points : List (ℤ × ℕ)) :
    interpolateBlock scheme.order points < scheme.order := by
  suffices loop : ∀ (rest : List (ℤ × ℕ)) (block : ℕ), block < scheme.order →
      rest.foldl (contribute scheme.order (points.map Prod.fst)) block < scheme.order from
    loop points 0 scheme.order_pos
  intro rest
  induction rest with
  | nil => exact fun block bound => bound
  | cons point rest ih =>
    exact fun block _ => ih _ (Nat.mod_lt _ scheme.order_pos)

theorem natCast_interpolateBlock {points : List (ℤ × ℕ)}
    (distinct : ((points.map (scalars scheme)).map Prod.fst).Nodup) :
    (interpolateBlock scheme.order points : ZMod scheme.order) =
      atZero (points.map (scalars scheme)) := by
  rw [map_map] at distinct
  have coefficient (point : ℤ × ℕ) (member : point ∈ points) :
      (lagrangeCoefficientEc scheme.order point.1 (points.map Prod.fst) : ZMod scheme.order) =
        weight ((points.map (scalars scheme)).map Prod.fst) (digit point.1) := by
    rw [natCast_lagrangeCoefficientEc, map_map, map_map]
    · rfl
    · intro xj xjMember equal
      obtain ⟨other, otherMember, rfl⟩ := mem_map.mp xjMember
      rw [inj_on_of_nodup_map distinct otherMember member equal]
  -- the accumulator of the loop is the sum over the points before it
  suffices loop : ∀ rest ⊆ points, ∀ block : ℕ,
      ((rest.foldl (contribute scheme.order (points.map Prod.fst)) block : ℕ) :
        ZMod scheme.order) = block + ((rest.map (scalars scheme)).map fun point => point.2 *
        weight ((points.map (scalars scheme)).map Prod.fst) point.1).sum by
    simpa [interpolateBlock, atZero] using loop points (List.Subset.refl points) 0
  intro rest
  induction rest with
  | nil => simp
  | cons point rest ih =>
    intro subset block
    obtain ⟨member, restSubset⟩ := cons_subset.mp subset
    rw [foldl_cons, ih restSubset]
    simp only [contribute, ZMod.natCast_mod, Nat.cast_add, Nat.cast_mul,
      coefficient point member, map_cons, sum_cons, scalars, add_assoc]

theorem natCast_interpolateBlock_of_evaluate {points : List (ℤ × ℕ)}
    {coeffs : ℕ → ZMod scheme.order} (enough : points.length = scheme.threshold)
    (distinct : ((points.map (scalars scheme)).map Prod.fst).Nodup)
    (values : ∀ point ∈ points, (point.2 : ZMod scheme.order) =
      evaluate scheme.threshold coeffs (digit point.1)) :
    (interpolateBlock scheme.order points : ZMod scheme.order) = coeffs 0 := by
  have length : (points.map (scalars scheme)).length = scheme.threshold := by
    rw [length_map, enough]
  rw [natCast_interpolateBlock distinct]
  apply atZero_eq_of_evaluate distinct
  · rw [length]
    exact scheme.threshold_pos
  · intro point member
    obtain ⟨source, sourceMember, rfl⟩ := mem_map.mp member
    rw [length]
    exact values source sourceMember

end Interpolation

section Collection

variable {blockIdx : ℕ}

variable {share : Share} {wanted : ℕ} {shares : List Share}

theorem Share.eq_value_of_readValue {value : ℕ} (read : share.readValue = .ok value) :
    share.value = value := by
  unfold Share.readValue at read
  split_ifs at read
  exact Except.ok.inj read

theorem selected_cons (wanted : ℕ) (share : Share) (rest : List Share) :
    selected (wanted + 1) blockIdx (share :: rest) =
      if share.blockIndex = blockIdx then share :: selected wanted blockIdx rest
      else selected (wanted + 1) blockIdx rest := by
  by_cases here : share.blockIndex = blockIdx <;> simp [selected, here]

theorem mem_of_mem_selected (member : share ∈ selected wanted blockIdx shares) :
    share ∈ shares ∧ share.blockIndex = blockIdx := by
  simpa using mem_filter.mp (mem_of_mem_take member)

theorem collectBlock_of_readable
    (readable : ∀ share ∈ selected wanted blockIdx shares, share.readValue = .ok share.value) :
    collectBlock blockIdx wanted shares =
      .ok ((selected wanted blockIdx shares).map fun share => (share.x, share.value)) := by
  induction shares generalizing wanted with
  | nil => cases wanted <;> simp [collectBlock, selected]
  | cons share rest ih =>
    cases wanted with
    | zero => simp [collectBlock, selected]
    | succ wanted =>
      rw [selected_cons] at readable ⊢
      simp only [collectBlock]
      split_ifs at readable ⊢ with here
      · rw [forall_mem_cons] at readable
        simp [readable.1, ih readable.2, bind, Except.bind]
      · exact ih readable

theorem collectBlock_of_unreadable (member : share ∈ selected wanted blockIdx shares)
    (unreadable : share.readValue = .error .failed)
    (others : ∀ share ∈ shares,
      share.readValue = .error .failed ∨ share.readValue = .ok share.value) :
    collectBlock blockIdx wanted shares = .error .failed := by
  induction shares generalizing wanted with
  | nil => simp [selected] at member
  | cons first rest ih =>
    rw [forall_mem_cons] at others
    cases wanted with
    | zero => simp [selected] at member
    | succ wanted =>
      rw [selected_cons] at member
      simp only [collectBlock]
      split_ifs at member ⊢ with here
      · rcases others.1 with failed | read
        · simp [failed, bind, Except.bind]
        · rcases mem_cons.mp member with rfl | later
          · simp [unreadable] at read
          · simp [read, ih later others.2, bind, Except.bind]
      · exact ih member others.2

theorem statedLength_eq {secretLen : ℕ} (nonempty : shares ≠ [])
    (stated : ∀ share ∈ shares, share.dataLength = secretLen) (positive : 0 < secretLen) :
    statedLength shares = secretLen := by
  suffices loop : ∀ (rest : List Share) (len : ℕ), rest ≠ [] →
      (∀ share ∈ rest, share.dataLength = secretLen) →
      rest.foldl (fun len share => if 0 < share.dataLength then share.dataLength else len) len =
        secretLen from loop shares 0 nonempty stated
  intro rest
  induction rest with
  | nil => exact fun _ empty => absurd rfl empty
  | cons share rest ih =>
    intro len _ stated
    rw [forall_mem_cons] at stated
    rw [foldl_cons, stated.1, if_pos positive]
    cases rest with
    | nil => rfl
    | cons next rest => exact ih secretLen (by simp) stated.2

theorem foldl_largest (shares : List Share) (largest : ℕ) :
    shares.foldl (fun largest share =>
      if largest < share.blockIndex then share.blockIndex else largest) largest =
      shares.foldl (fun largest share => max largest share.blockIndex) largest := by
  congr 1
  funext largest share
  split_ifs <;> omega

theorem maxBlockIndex_eq {last : ℕ} (bound : ∀ share ∈ shares, share.blockIndex ≤ last)
    (attained : ∃ share ∈ shares, share.blockIndex = last) : maxBlockIndex shares = last := by
  rw [maxBlockIndex, foldl_largest]
  suffices loop : ∀ (rest : List Share) (largest : ℕ), (∀ share ∈ rest, share.blockIndex ≤ last) →
      largest ≤ last → (largest = last ∨ ∃ share ∈ rest, share.blockIndex = last) →
      rest.foldl (fun largest share => max largest share.blockIndex) largest = last from
    loop shares 0 bound (Nat.zero_le last) (.inr attained)
  intro rest
  induction rest with
  | nil => simp
  | cons share rest ih =>
    intro largest bound below attained
    rw [forall_mem_cons] at bound
    apply ih _ bound.2 (max_le below bound.1)
    rcases attained with here | ⟨found, member, equal⟩
    · exact .inl (by omega)
    · rcases mem_cons.mp member with rfl | later
      · exact .inl (by omega)
      · exact .inr ⟨found, later, equal⟩

theorem maxBlockIndex_spec (nonempty : shares ≠ []) :
    (∀ share ∈ shares, share.blockIndex ≤ maxBlockIndex shares) ∧
      ∃ share ∈ shares, share.blockIndex = maxBlockIndex shares := by
  obtain ⟨share, member, bound⟩ := shares.toFinset.exists_max_image Share.blockIndex
    (toFinset_nonempty_iff shares |>.mpr nonempty)
  simp only [mem_toFinset] at member bound
  rw [maxBlockIndex_eq bound ⟨share, member, rfl⟩]
  exact ⟨bound, share, member, rfl⟩

end Collection

end TigerMixer.SecretShare
