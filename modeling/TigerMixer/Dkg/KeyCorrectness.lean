import TigerMixer.Dkg.Verification

/-!
# The key that the shares stand for

The shares of each participant add up to a value of the sum of the dealt polynomials. As many of
them as the threshold says interpolate to the sum of the constant terms, and the public key is the
generator to the power of this sum.
-/

namespace TigerMixer.Dkg

open Finset SecretShare Interpolation Function

universe u

section Interpolation

variable {order : ℕ} [Fact order.Prime]

theorem digit_of_nonneg {x : ℤ} (nonneg : 0 ≤ x) : (digit x : ℤ) = x := by
  rw [digit, if_pos nonneg, Int.toNat_of_nonneg nonneg]

theorem natCast_lagrangeFactor {xi xj : ℤ} (apart : (xi : ZMod order) ≠ (xj : ZMod order)) :
    (lagrangeFactor order xi xj : ZMod order) =
      -(digit xj : ZMod order) * (xi - xj : ZMod order)⁻¹ := by
  have denominator : (((if xj < xi then (digit (xi - xj) : ℤ)
      else order - digit (xj - xi) : ℤ) % order).toNat : ZMod order) = xi - xj := by
    rw [natCast_toNat_emod]
    split_ifs with less
    · rw [digit_of_nonneg (by omega)]
      push_cast
      rfl
    · rw [digit_of_nonneg (by omega)]
      simp
  have nonzero : (xi : ZMod order) - xj ≠ 0 := sub_ne_zero.mpr apart
  rw [← denominator] at nonzero
  rw [lagrangeFactor, natCast_toNat_emod]
  push_cast
  rw [natCast_modInv nonzero, denominator]
  simp

/-- The sum of the shares with their weights at zero. The numerators are digits, so a negative
identifier counts as the one it is converted to. -/
def interpolatedKey (order : ℕ) (participantIds : ℕ → ℤ) (shares : ℕ → ℕ) (count : ℕ) :
    ZMod order :=
  ∑ i ∈ range count, shares i * ∏ j ∈ range count with j ≠ i,
    -(digit (participantIds j) : ZMod order) *
      (participantIds i - participantIds j : ZMod order)⁻¹

section Apart

variable {participantIds : ℕ → ℤ} {shares : ℕ → ℕ} {count : ℕ}
  (apart : ∀ i < count, ∀ j < count, i ≠ j →
    (participantIds i : ZMod order) ≠ (participantIds j : ZMod order))

include apart

theorem natCast_lagrangeCoeff {i : ℕ} (inside : i < count) :
    (lagrangeCoeff order participantIds count i : ZMod order) =
      ∏ j ∈ range count with j ≠ i, -(digit (participantIds j) : ZMod order) *
        (participantIds i - participantIds j : ZMod order)⁻¹ := by
  rw [lagrangeCoeff, prod_filter]
  suffices loop : ∀ done ≤ count, (((List.range done).foldl (fun coeff j => if i = j then coeff
      else coeff * lagrangeFactor order (participantIds i) (participantIds j) % order) 1 : ℕ) :
        ZMod order) = ∏ j ∈ range done, if j ≠ i then
          -(digit (participantIds j) : ZMod order) *
            (participantIds i - participantIds j : ZMod order)⁻¹ else 1 from loop count le_rfl
  intro done bound
  induction done with
  | zero => simp
  | succ done ih =>
    rw [List.range_succ, List.foldl_concat, prod_range_succ, ← ih (by omega)]
    by_cases same : i = done
    · simp [same]
    · rw [if_neg same, if_pos (Ne.symm same), ZMod.natCast_mod, Nat.cast_mul,
        natCast_lagrangeFactor (apart i inside done (by omega) same)]

theorem reconstruct_eq_interpolatedKey (two : 2 ≤ count) :
    dkgReconstructSecretFromShares participantIds shares count order =
      some (interpolatedKey order participantIds shares count).val := by
  have orderPos := modulus_pos order
  rw [dkgReconstructSecretFromShares, if_neg (by omega), Option.some.injEq]
  suffices loop : ∀ done ≤ count, (((List.range done).foldl (fun key i => (key + shares i *
      lagrangeCoeff order participantIds count i % order) % order) 0 : ℕ) : ZMod order) =
        ∑ i ∈ range done, shares i * ∏ j ∈ range count with j ≠ i,
          -(digit (participantIds j) : ZMod order) *
            (participantIds i - participantIds j : ZMod order)⁻¹ by
    have reduced : (List.range count).foldl (fun key i => (key + shares i *
        lagrangeCoeff order participantIds count i % order) % order) 0 < order := by
      rcases Nat.exists_eq_add_of_lt (show 0 < count by omega) with ⟨last, rfl⟩
      rw [Nat.zero_add, List.range_succ, List.foldl_append]
      exact Nat.mod_lt _ orderPos
    rw [interpolatedKey, ← loop count le_rfl, ZMod.val_natCast, Nat.mod_eq_of_lt reduced]
  intro done bound
  induction done with
  | zero => simp
  | succ done ih =>
    rw [List.range_succ, List.foldl_concat, sum_range_succ, ← ih (by omega),
      ← natCast_lagrangeCoeff apart (show done < count by omega)]
    simp only [ZMod.natCast_mod, Nat.cast_add, Nat.cast_mul]

end Apart

theorem intCast_inj_of_lt {x y : ℤ} (xLow : 1 ≤ x) (yLow : 1 ≤ y) (xHigh : x < order)
    (yHigh : y < order) (same : (x : ZMod order) = (y : ZMod order)) : x = y := by
  rw [ZMod.intCast_eq_intCast_iff, Int.ModEq, Int.emod_eq_of_lt (by omega) xHigh,
    Int.emod_eq_of_lt (by omega) yHigh] at same
  exact same

structure Distinct (order count : ℕ) (participantIds : ℕ → ℤ) : Prop where
  low : ∀ i < count, 1 ≤ participantIds i
  high : ∀ i < count, participantIds i < order
  inj : ∀ i < count, ∀ j < count, participantIds i = participantIds j → i = j

variable {participantIds : ℕ → ℤ} {count : ℕ} (distinct : Distinct order count participantIds)

include distinct

theorem Distinct.eq_of_intCast_eq {i j : ℕ} (iLt : i < count) (jLt : j < count)
    (same : (participantIds i : ZMod order) = (participantIds j : ZMod order)) : i = j := by
  apply distinct.inj i iLt j jLt
  exact intCast_inj_of_lt (distinct.low i iLt) (distinct.low j jLt) (distinct.high i iLt)
    (distinct.high j jLt) same

theorem Distinct.nodup :
    ((List.range count).map fun i => (participantIds i : ZMod order)).Nodup := by
  apply List.Nodup.map_on _ List.nodup_range
  intro i iMember j jMember same
  exact distinct.eq_of_intCast_eq (List.mem_range.mp iMember) (List.mem_range.mp jMember) same

theorem Distinct.apart : ∀ i < count, ∀ j < count, i ≠ j →
    (participantIds i : ZMod order) ≠ (participantIds j : ZMod order) :=
  fun _ iLt _ jLt different same => different (distinct.eq_of_intCast_eq iLt jLt same)

theorem Distinct.prod_eq_weight {i : ℕ} (inside : i < count) :
    ∏ j ∈ range count with j ≠ i, -(digit (participantIds j) : ZMod order) *
        (participantIds i - participantIds j : ZMod order)⁻¹ =
      weight ((List.range count).map fun j => (participantIds j : ZMod order))
        (participantIds i) := by
  rw [weight, List.map_map, prod_filter]
  apply prod_congr rfl
  intro j member
  have otherInside := mem_range.mp member
  have low := distinct.low j otherInside
  by_cases same : j = i
  · simp [same]
  · have apart := distinct.apart j otherInside i inside same
    simp only [ne_eq, same, not_false_eq_true, if_true, comp_apply, apart, if_false, factor]
    rw [← Int.cast_natCast (digit _), digit_of_nonneg (by omega)]

theorem interpolatedKey_eq_atZero {shares : ℕ → ℕ} :
    interpolatedKey order participantIds shares count = atZero ((List.range count).map fun i =>
      ((participantIds i : ZMod order), (shares i : ZMod order))) := by
  rw [atZero, List.map_map, List.map_map]
  apply sum_congr rfl
  intro i member
  rw [distinct.prod_eq_weight (mem_range.mp member)]
  rfl

theorem reconstruct_eq_some {threshold : ℕ} {coeffs : ℕ → ZMod order} {shares : ℕ → ℕ}
    {secret : ℕ} (positive : 0 < threshold) (two : 2 ≤ count) (enough : threshold ≤ count)
    (values : ∀ i < count, (shares i : ZMod order) =
      evaluate threshold coeffs (participantIds i : ZMod order))
    (constant : (secret : ZMod order) = coeffs 0) :
    dkgReconstructSecretFromShares participantIds shares count order = some (secret % order) := by
  rw [reconstruct_eq_interpolatedKey distinct.apart two, interpolatedKey_eq_atZero distinct,
    ← ZMod.val_natCast, constant]
  have interpolated : atZero ((List.range count).map fun i =>
      ((participantIds i : ZMod order), (shares i : ZMod order))) =
        (polynomial threshold coeffs).eval 0 := by
    apply atZero_eq_of_eval
    · simpa [comp_def] using distinct.nodup
    · rw [List.length_map, List.length_range]
      apply (degree_polynomial_lt threshold coeffs).trans_le
      exact_mod_cast enough
    · intro point member
      rcases List.mem_map.mp member with ⟨i, inside, rfl⟩
      rw [eval_polynomial]
      exact values i (List.mem_range.mp inside)
  rcases Nat.exists_eq_add_of_lt positive with ⟨degree, rfl⟩
  rw [interpolated, eval_polynomial, Nat.zero_add, evaluate_zero]

end Interpolation

structure Ready {G : Type u} (protocol : Protocol G) (n threshold : ℕ) : Prop where
  initialized : protocol.isInitialized = true
  size : protocol.nParticipants = n
  participant : ∀ i < n, ∃ participant, protocol.participants i = some participant ∧
    participant.isInitialized = true ∧ participant.threshold = threshold

section Initialisation

variable {G : Type u} {n threshold : ℕ} {generator : G} {order : ℕ}

def addAll (protocol : Protocol G) : ℕ → Option (Protocol G)
  | 0 => some protocol
  | i + 1 => do
      let protocol ← addAll protocol i
      dkgAddParticipant protocol (i + 1)

structure Added (n threshold : ℕ) (generator : G) (order count : ℕ) (protocol : Protocol G) :
    Prop where
  initialized : protocol.isInitialized = true
  size : protocol.nParticipants = n
  threshold_eq : protocol.threshold = threshold
  generator_eq : protocol.generator = generator
  order_eq : protocol.order = order
  participant : ∀ i < count, ∃ participant, protocol.participants i = some participant ∧
    participant.isInitialized = true ∧ participant.threshold = threshold
  unset : ∀ i, count ≤ i → protocol.participants i = none

theorem Added.step {count : ℕ} {protocol : Protocol G}
    (added : Added n threshold generator order count protocol) (inside : count < n) :
    ∃ next, dkgAddParticipant protocol (count + 1) = some next ∧
      Added n threshold generator order (count + 1) next := by
  have size := added.size
  rw [dkgAddParticipant, if_neg (by simp [added.initialized]; omega),
    if_neg (by simp [added.unset])]
  refine ⟨_, rfl, added.initialized, size, added.threshold_eq, added.generator_eq, added.order_eq,
    ?_, ?_⟩
  · intro i bound
    by_cases same : i = count
    · subst same
      exact ⟨_, update_self .., rfl, added.threshold_eq⟩
    · rcases added.participant i (by omega) with ⟨participant, earlier, fields⟩
      exact ⟨participant, (update_of_ne same ..).trans earlier, fields⟩
  · intro i bound
    exact (update_of_ne (by omega) ..).trans (added.unset i (by omega))

theorem exists_added {protocol : Protocol G} (none : Added n threshold generator order 0 protocol)
    {count : ℕ} (bound : count ≤ n) :
    ∃ final, addAll protocol count = some final ∧
      Added n threshold generator order count final := by
  induction count with
  | zero => exact ⟨protocol, rfl, none⟩
  | succ count ih =>
    rcases ih (by omega) with ⟨before, earlier, added⟩
    rcases added.step (by omega) with ⟨next, returned, addedNext⟩
    refine ⟨next, ?_, addedNext⟩
    rw [addAll, earlier]
    exact returned

variable (generator order) in
theorem exists_ready (two : 2 ≤ threshold) (enough : threshold ≤ n) :
    ∃ protocol, (dkgProtocolInitWithClParams n threshold generator order).bind (addAll · n) =
        some protocol ∧
      Ready protocol n threshold ∧ protocol.generator = generator ∧ protocol.order = order := by
  rw [dkgProtocolInitWithClParams, if_neg (by omega), Option.bind_some]
  have none : Added n threshold generator order 0
      { participants := fun _ => none, nParticipants := n, threshold, generator, order,
        isInitialized := true } :=
    ⟨rfl, rfl, rfl, rfl, rfl, by simp, by simp⟩
  rcases exists_added none le_rfl with ⟨protocol, returned, added⟩
  exact ⟨protocol, returned, ⟨added.initialized, added.size, added.participant⟩,
    added.generator_eq, added.order_eq⟩

end Initialisation

section Generation

variable {G : Type u} [CommGroup G] [DecidableEq G]

/-- The first participants deal in turn; `drawn i` are the coefficients of the one with the number
`i + 1`. -/
def generateAll (protocol : Protocol G) (drawn : ℕ → ℕ → ℕ) :
    ℕ → Option (Protocol G × (ℕ → ℕ → ℕ))
  | 0 => some (protocol, fun _ _ => 0)
  | i + 1 => do
      let (protocol, shares) ← generateAll protocol drawn i
      let (protocol, dealt) ← dkgGeneratePolynomialCommitmentsAndShares protocol (i + 1) (drawn i)
      some (protocol, update shares i dealt)

/-- What the first participants have dealt, and that everything else is as before. -/
structure Generated (protocol protocol' : Protocol G) (threshold : ℕ) (drawn shares : ℕ → ℕ → ℕ)
    (count : ℕ) : Prop where
  ready : Ready protocol' protocol.nParticipants threshold
  generator : protocol'.generator = protocol.generator
  order : protocol'.order = protocol.order
  committed : ∀ i < count, ∃ participant, protocol'.participants i = some participant ∧
    participant.isInitialized = true ∧
      participant.commitments 0 = some (protocol.generator ^ drawn i 0)
  shares : ∀ i < count, ∀ x, (shares i x : ZMod protocol.order) =
    evaluate threshold (fun k => (drawn i k : ZMod protocol.order)) x

omit [DecidableEq G] in
theorem Generated.step {protocol before : Protocol G} {participant : Participant G}
    {drawn shares : ℕ → ℕ → ℕ} {i : ℕ}
    (generated : Generated protocol before participant.threshold drawn shares i)
    (added : before.participants i = some participant)
    (initialized : participant.isInitialized = true) (positive : 0 < participant.threshold) :
    Generated protocol
      (before.setParticipant i (participant.withPolynomial before.generator (drawn i)))
      participant.threshold drawn
      (update shares i (computeShare before.order participant.threshold
        (participant.withPolynomial before.generator (drawn i)).secretPolyCoeffs)) (i + 1) where
  ready := by
    refine ⟨generated.ready.initialized, generated.ready.size, ?_⟩
    intro j inside
    by_cases same : j = i
    · subst same
      exact ⟨_, update_self .., initialized, rfl⟩
    · rcases generated.ready.participant j inside with ⟨other, otherAdded, fields⟩
      exact ⟨other, (update_of_ne same ..).trans otherAdded, fields⟩
  generator := generated.generator
  order := generated.order
  committed := by
    intro j inside
    by_cases same : j = i
    · subst same
      refine ⟨_, update_self .., initialized, ?_⟩
      rw [← generated.generator]
      exact if_pos positive
    · rcases generated.committed j (by omega) with ⟨other, otherAdded, fields⟩
      exact ⟨other, (update_of_ne same ..).trans otherAdded, fields⟩
  shares := by
    intro j inside x
    by_cases same : j = i
    · subst same
      rw [update_self, generated.order, natCast_computeShare positive]
      apply evaluate_congr
      intro k bound
      simp [Participant.withPolynomial, bound]
    · rw [update_of_ne same]
      exact generated.shares j (by omega) x

theorem exists_generated {protocol : Protocol G} {n threshold : ℕ}
    (ready : Ready protocol n threshold) (positive : 0 < threshold) (drawn : ℕ → ℕ → ℕ) {count : ℕ}
    (bound : count ≤ n) :
    ∃ protocol' shares, generateAll protocol drawn count = some (protocol', shares) ∧
      Generated protocol protocol' threshold drawn shares count := by
  rcases ready with ⟨initialized, rfl, participants⟩
  induction count with
  | zero =>
    exact ⟨protocol, _, rfl, ⟨initialized, rfl, participants⟩, rfl, rfl, by simp, by simp⟩
  | succ i ih =>
    rcases ih (by omega) with ⟨before, shares, earlier, generated⟩
    rcases generated.ready.participant i (by omega) with
      ⟨participant, added, participantInitialized, rfl⟩
    have size := generated.ready.size
    have dealt := generate_eq_some (drawn i) (show 1 ≤ i + 1 by omega)
      (show i + 1 ≤ before.nParticipants by omega) added participantInitialized positive
    refine ⟨_, _, ?_, generated.step added participantInitialized positive⟩
    rw [generateAll, earlier]
    simp only [Option.bind_eq_bind, Option.bind_some, dealt]
    rfl

theorem foldlM_accumulatePublicKey {protocol : Protocol G} {drawn : ℕ → ℕ → ℕ} {count : ℕ}
    (positive : 0 < count)
    (committed : ∀ i < count, ∃ participant, protocol.participants i = some participant ∧
      participant.isInitialized = true ∧
        participant.commitments 0 = some (protocol.generator ^ drawn i 0)) :
    (List.range count).foldlM (accumulatePublicKey protocol) none =
      some (some (protocol.generator ^ ∑ i ∈ range count, drawn i 0)) := by
  induction count with
  | zero => omega
  | succ count ih =>
    rcases committed count (by omega) with ⟨participant, added, initialized, commitment⟩
    rw [List.range_succ, List.foldlM_append]
    by_cases first : count = 0
    · subst first
      simp [accumulatePublicKey, added, initialized, commitment]
    · rw [ih (by omega) fun i bound => committed i (by omega)]
      simp [accumulatePublicKey, added, initialized, commitment, sum_range_succ, pow_add]

theorem Generated.publicKey {protocol protocol' : Protocol G} {threshold : ℕ}
    {drawn shares : ℕ → ℕ → ℕ}
    (generated : Generated protocol protocol' threshold drawn shares protocol.nParticipants)
    (positive : 0 < protocol.nParticipants) :
    ∃ final, dkgGeneratePublicKey protocol' = some final ∧ ∀ i < protocol.nParticipants,
      (final.participants i).bind Participant.publicKey =
        some (protocol.generator ^ ∑ i ∈ range protocol.nParticipants, drawn i 0) := by
  have committed := generated.committed
  rw [← generated.generator] at committed
  have size := generated.ready.size
  refine ⟨protocol'.setPublicKey
    (protocol'.generator ^ ∑ i ∈ range protocol.nParticipants, drawn i 0), ?_, ?_⟩
  · rw [dkgGeneratePublicKey, if_neg (by simp [generated.ready.initialized]), size,
      foldlM_accumulatePublicKey positive committed]
    rfl
  · intro i inside
    rcases committed i inside with ⟨participant, added, -⟩
    simp [Protocol.setPublicKey, size, inside, added, generated.generator]

/-- Two shares or more, and not fewer than the threshold, give back the sum of the secrets. The
public key belongs to it if the sum is not reduced. -/
theorem key_correct (protocol : Protocol G) {n threshold : ℕ} (ready : Ready protocol n threshold)
    (prime : protocol.order.Prime) (positive : 0 < threshold) (participants : threshold ≤ n)
    (below : n < protocol.order) (drawn : ℕ → ℕ → ℕ) :
    ∃ protocol' shares, generateAll protocol drawn n = some (protocol', shares) ∧
      (∀ (participantIds : ℕ → ℤ) (finalShares : ℕ → ℕ) (count : ℕ), max 2 threshold ≤ count →
        (∀ i < count, 1 ≤ participantIds i ∧ participantIds i ≤ n) →
        (∀ i < count, ∀ j < count, participantIds i = participantIds j → i = j) →
        (∀ i < count, finalShares i =
          (∑ sender ∈ range n, shares sender (participantIds i).toNat) % protocol.order) →
        dkgReconstructSecretFromShares participantIds finalShares count protocol.order =
          some ((∑ sender ∈ range n, drawn sender 0) % protocol.order)) ∧
      (∑ sender ∈ range n, drawn sender 0 < protocol.order →
        ∃ final, dkgGeneratePublicKey protocol' = some final ∧ ∀ i < n,
          (final.participants i).bind Participant.publicKey =
            some (protocol.generator ^
              ((∑ sender ∈ range n, drawn sender 0) % protocol.order))) := by
  have : Fact protocol.order.Prime := ⟨prime⟩
  rcases exists_generated ready positive drawn le_rfl with ⟨protocol', shares, all, generated⟩
  refine ⟨protocol', shares, all, ?_, ?_⟩
  · intro participantIds finalShares count enough bounds inj sums
    have distinct : Distinct protocol.order count participantIds := by
      refine ⟨fun i inside => (bounds i inside).1, ?_, inj⟩
      intro i inside
      have high := (bounds i inside).2
      omega
    have values : ∀ i < count, (finalShares i : ZMod protocol.order) =
        evaluate threshold
          (fun k => ∑ sender ∈ range n, (drawn sender k : ZMod protocol.order))
          (participantIds i) := by
      intro i inside
      have low := (bounds i inside).1
      rw [sums i inside, ZMod.natCast_mod, Nat.cast_sum, evaluate_sum]
      apply sum_congr rfl
      intro sender member
      rw [generated.shares sender (mem_range.mp member), ← Int.cast_natCast,
        Int.toNat_of_nonneg (by omega)]
    exact reconstruct_eq_some distinct positive (by omega) (by omega) values (Nat.cast_sum _ _)
  · intro small
    rw [Nat.mod_eq_of_lt small]
    rcases ready.size with rfl
    exact generated.publicKey (by omega)

end Generation

theorem key_correct_thirdAndFirst :
    ∃ protocol' shares, generateAll sampleProtocol (fun i k => i + k + 1) 3 =
        some (protocol', shares) ∧
      dkgReconstructSecretFromShares (fun i => if i = 0 then 3 else 1)
        (fun i => (∑ sender ∈ range 3, shares sender (if i = 0 then 3 else 1 : ℤ).toNat) %
          sampleProtocol.order) 2 sampleProtocol.order = some 6 ∧
      ∃ final, dkgGeneratePublicKey protocol' = some final ∧
        (final.participants 0).bind Participant.publicKey =
          some (sampleProtocol.generator ^ 6) := by
  have ready : Ready sampleProtocol 3 2 := by
    refine ⟨rfl, rfl, ?_⟩
    intro i _
    exact ⟨sampleParticipant, rfl, rfl, rfl⟩
  rcases key_correct sampleProtocol ready prime_secp256k1Order (by decide) (by decide)
    (by decide +kernel) (fun i k => i + k + 1) with ⟨protocol', shares, all, secret, publicKey⟩
  refine ⟨protocol', shares, all, ?_, ?_⟩
  · refine secret _ _ 2 (by decide) ?_ ?_ fun _ _ => rfl
    · decide
    · decide
  · rcases publicKey (by decide +kernel) with ⟨final, returned, keys⟩
    exact ⟨final, returned, keys 0 (by decide)⟩

end TigerMixer.Dkg
