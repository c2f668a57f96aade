import TigerMixer.SecretShare.RoundTrip

/-!
# Fewer participants than the threshold learn nothing

Two messages of one length are compared by counting the choices of coefficients behind each possible
view. The counts agree because of a translation of the choices: for every block, add a polynomial
that vanishes at all the observed coordinates and whose constant term is the difference of the two
blocks.
-/

namespace TigerMixer.SecretShare

open Bytes Interpolation

/-- One scalar for each block and each degree from one to `THRESHOLD - 1`. -/
abbrev Choice (scheme : Scheme) (blocks : ℕ) : Type :=
  Fin blocks → Fin (scheme.threshold - 1) → Fin scheme.order

def Choice.random {scheme : Scheme} {blocks : ℕ} (choice : Choice scheme blocks)
    (blockIdx index : ℕ) : Fin scheme.order :=
  if bounds : blockIdx < blocks ∧ index - 1 < scheme.threshold - 1 then
    choice ⟨blockIdx, bounds.1⟩ ⟨index - 1, bounds.2⟩
  else ⟨0, scheme.order_pos⟩

def view (scheme : Scheme) (saved : SavedCoeffs) (participants : Finset ℤ)
    (random : ℕ → ℕ → Fin scheme.order) (secret : Bytes) : Option (List Share) :=
  (createSecretShares scheme saved random secret).2.map fun shares =>
    shares.filter fun share => share.x ∈ participants

section Translation

variable {scheme : Scheme}

def translate (scheme : Scheme) (amount : ZMod scheme.order) :
    Fin scheme.order ≃ Fin scheme.order where
  toFun scalar := ⟨((scalar : ZMod scheme.order) + amount).val, ZMod.val_lt _⟩
  invFun scalar := ⟨((scalar : ZMod scheme.order) - amount).val, ZMod.val_lt _⟩
  left_inv scalar := by simp [ZMod.val_cast_of_lt scalar.isLt]
  right_inv scalar := by simp [ZMod.val_cast_of_lt scalar.isLt]

@[simp]
theorem natCast_translate (amount : ZMod scheme.order) (scalar : Fin scheme.order) :
    ((translate scheme amount scalar : ℕ) : ZMod scheme.order) = scalar + amount := by
  simp [translate]

def translateChoice {blocks : ℕ} (mask : ℕ → ℕ → ZMod scheme.order) :
    Choice scheme blocks ≃ Choice scheme blocks :=
  Equiv.piCongrRight fun blockIdx => Equiv.piCongrRight fun index =>
    translate scheme (mask blockIdx (index + 1))

theorem natCast_random_translateChoice {blocks : ℕ} (mask : ℕ → ℕ → ZMod scheme.order)
    (choice : Choice scheme blocks) {blockIdx index : ℕ} (inside : blockIdx < blocks)
    (positive : 0 < index) (coefficient : index < scheme.threshold) :
    (((translateChoice mask choice).random blockIdx index : ℕ) : ZMod scheme.order) =
      (choice.random blockIdx index : ℕ) + mask blockIdx index := by
  have bounds : blockIdx < blocks ∧ index - 1 < scheme.threshold - 1 := ⟨inside, by omega⟩
  simp only [Choice.random, dif_pos bounds, translateChoice, Equiv.piCongrRight_apply, Pi.map_apply,
    natCast_translate, Nat.sub_add_cancel positive]

end Translation

section Views

variable {scheme : Scheme} {left right : Bytes} {mask : ℕ → ℕ → ZMod scheme.order}
  {choice : Choice scheme (numBlocks left.length)} {blockIdx : ℕ}

theorem shareValue_translateChoice (inside : blockIdx < numBlocks left.length)
    (constant : mask blockIdx 0 =
      (readBe (blockBytes right blockIdx) : ZMod scheme.order) -
        (readBe (blockBytes left blockIdx) : ZMod scheme.order)) {x : ℕ} (vanishes :
      evaluate scheme.threshold (mask blockIdx) (x : ZMod scheme.order) = 0) :
    shareValue scheme (blockCoeffs scheme (translateChoice mask choice).random right blockIdx) x =
      shareValue scheme (blockCoeffs scheme choice.random left blockIdx) x := by
  apply eq_of_natCast_eq (shareValue_lt _ _ _) (shareValue_lt _ _ _)
  rw [natCast_shareValue, natCast_shareValue]
  calc evaluate scheme.threshold (fun index => (blockCoeffs scheme
          (translateChoice mask choice).random right blockIdx index : ZMod scheme.order)) x
      = evaluate scheme.threshold (fun index =>
          (blockCoeffs scheme choice.random left blockIdx index : ZMod scheme.order) +
            mask blockIdx index) x := by
        apply evaluate_congr
        intro index coefficient
        cases index with
        | zero => simp [blockCoeffs, constant]
        | succ index =>
          simp only [blockCoeffs, Nat.succ_ne_zero, if_false]
          exact natCast_random_translateChoice mask choice inside (Nat.succ_pos index) coefficient
    _ = evaluate scheme.threshold (fun index =>
          (blockCoeffs scheme choice.random left blockIdx index : ZMod scheme.order)) x := by
        rw [evaluate] at vanishes
        simp [evaluate, add_mul, Finset.sum_add_distrib, vanishes]

theorem createSecretShares_refused {saved : SavedCoeffs} {random : ℕ → ℕ → Fin scheme.order}
    {secret : Bytes} (refused : ¬(0 < secret.length ∧ numBlocks secret.length ≤ maxBlocks)) :
    (createSecretShares scheme saved random secret).2 = none := by
  unfold createSecretShares
  split_ifs with empty many
  · rfl
  · rfl
  · omega

theorem view_translateChoice (small : scheme.order ≤ 256 ^ (shareSize - 4))
    (leftSaved rightSaved : SavedCoeffs) {participants : Finset ℤ}
    (same : right.length = left.length) (constant : ∀ blockIdx, mask blockIdx 0 =
      (readBe (blockBytes right blockIdx) : ZMod scheme.order) -
        (readBe (blockBytes left blockIdx) : ZMod scheme.order))
    (vanishes : ∀ blockIdx, ∀ participant < scheme.secretShares,
      (participant : ℤ) + 1 ∈ participants → evaluate scheme.threshold (mask blockIdx)
        ((participant + 1 : ℕ) : ZMod scheme.order) = 0) :
    view scheme rightSaved participants (translateChoice mask choice).random right =
      view scheme leftSaved participants choice.random left := by
  unfold view
  by_cases accepted : 0 < left.length ∧ numBlocks left.length ≤ maxBlocks
  · rw [created_of_order_le small _ (by omega) (by rw [same]; exact accepted.2),
      created_of_order_le small _ accepted.1 accepted.2, same]
    simp only [Option.map_some, dealing, List.filter_flatMap, List.filter_map]
    congr 1
    apply List.flatMap_congr
    intro blockIdx inside
    apply List.map_congr_left
    intro participant member
    obtain ⟨isParticipant, observed⟩ := List.mem_filter.mp member
    have hidden := vanishes blockIdx participant (List.mem_range.mp isParticipant)
      (of_decide_eq_true observed)
    simp only [dealtShare, same,
      shareValue_translateChoice (List.mem_range.mp inside) (constant blockIdx) hidden]
  · rw [createSecretShares_refused accepted, createSecretShares_refused (by rwa [same])]

end Views

def observedScalars (scheme : Scheme) (participants : Finset ℤ) : Finset (ZMod scheme.order) :=
  (participants.filter fun x : ℤ => 0 < x ∧ x ≤ scheme.secretShares).image fun x =>
    (digit x : ZMod scheme.order)

theorem zero_notMem_observedScalars (scheme : Scheme) (participants : Finset ℤ) :
    0 ∉ observedScalars scheme participants := by
  intro member
  obtain ⟨x, xMember, zero⟩ := Finset.mem_image.mp member
  obtain ⟨-, positive, bound⟩ := Finset.mem_filter.mp xMember
  have few := scheme.secretShares_lt
  rw [digit, if_pos positive.le] at zero
  exact natCast_ne_zero_of_lt (by omega) (by omega) zero

theorem mem_observedScalars {scheme : Scheme} {participants : Finset ℤ} {participant : ℕ}
    (isParticipant : participant < scheme.secretShares)
    (observed : (participant : ℤ) + 1 ∈ participants) :
    ((participant + 1 : ℕ) : ZMod scheme.order) ∈ observedScalars scheme participants := by
  apply Finset.mem_image.mpr
  refine ⟨(participant : ℤ) + 1, Finset.mem_filter.mpr ⟨observed, by omega, by omega⟩, ?_⟩
  rw [digit_natCast_add_one]

/-- Perfect secrecy: the same number of coefficient choices leads to the view of fewer participants
than the threshold for every message of one length. -/
theorem view_equally_likely (scheme : Scheme) (small : scheme.order ≤ 256 ^ (shareSize - 4))
    (leftSaved rightSaved : SavedCoeffs) (participants : Finset ℤ)
    (few : participants.card ≤ scheme.threshold - 1) (secretLen : ℕ) (left right : Bytes)
    (leftLength : left.length = secretLen) (rightLength : right.length = secretLen)
    (seen : Option (List Share)) :
    (Finset.univ.filter fun choice : Choice scheme (numBlocks secretLen) =>
        view scheme leftSaved participants choice.random left = seen).card =
      (Finset.univ.filter fun choice : Choice scheme (numBlocks secretLen) =>
        view scheme rightSaved participants choice.random right = seen).card := by
  subst leftLength
  have fewScalars : (observedScalars scheme participants).card < scheme.threshold := by
    have card : (observedScalars scheme participants).card ≤ participants.card :=
      Finset.card_image_le.trans (Finset.card_filter_le participants _)
    have positive := scheme.threshold_pos
    omega
  choose mask constant vanishes using fun blockIdx =>
    exists_mask (zero_notMem_observedScalars scheme participants) fewScalars
      ((readBe (blockBytes right blockIdx) : ZMod scheme.order) -
        (readBe (blockBytes left blockIdx) : ZMod scheme.order))
  apply Finset.card_equiv (translateChoice mask)
  intro choice
  simp only [Finset.mem_filter, Finset.mem_univ, true_and]
  rw [view_translateChoice small leftSaved rightSaved rightLength constant]
  intro blockIdx participant isParticipant observed
  exact vanishes blockIdx _ (mem_observedScalars isParticipant observed)

theorem view_equally_likely_value_nine :
    (Finset.univ.filter fun choice : Choice deployed 1 =>
        view deployed neverSaved {1} choice.random [7] =
          some [⟨1, 0, [1, 0, 0, 0, 9], 1, 1⟩]).card =
      (Finset.univ.filter fun choice : Choice deployed 1 =>
        view deployed neverSaved {1} choice.random [8] =
          some [⟨1, 0, [1, 0, 0, 0, 9], 1, 1⟩]).card :=
  view_equally_likely deployed secp256k1Order_le_pow neverSaved neverSaved {1} (by decide) 1 [7] [8]
    rfl rfl _

end TigerMixer.SecretShare
