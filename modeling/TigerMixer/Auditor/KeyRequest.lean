import TigerMixer.Auditor.Fetch
import TigerMixer.Dkg.KeyCorrectness
import TigerMixer.Dkg.Receive

/-!
# The auditor's secret key

`request_dkg_shares_and_reconstruct` interpolates the auditor's key from the usable replies of the
committee and compares nothing with the public key. An inverse that does not exist is an exception;
a read outside the reply, a write outside the buffer of a share and a difference that overflows are
faults.
-/

namespace TigerMixer.Auditor

open Bytes SecretShare Dkg List

/-- The size of `secret_share_buf`: `RLC_BN_SIZE`, a number of digits that is used as one of bytes.
-/
def shareBufSize : ℕ := 34

def dkgTag : Bytes :=
  ascii ['D', 'K', 'G', '_']

def packKeyShare (participantId : ℕ) (share : Bytes) : Bytes :=
  writeLe 4 participantId ++ writeLe 4 share.length ++ share

/-- The participant and the share of a reply, or nothing if the reply is not used. -/
def readKeyShare (reply : Bytes) : Option (Option (ℤ × ℕ)) := do
  let isError ← if 0 < reply.length then startsWith dkgTag reply else some false
  if isError then some none
  else if reply.length < 8 then some none
  else
    let participantId := readInt (slice reply 0 4)
    let secretShareLen := readSize (slice reply 4 4)
    if (8 + secretShareLen) % 2 ^ 64 ≤ reply.length then
      if secretShareLen ≤ shareBufSize ∧ 8 + secretShareLen ≤ reply.length then
        some (some (participantId, readBe (slice reply 8 secretShareLen)))
      else none
    else some none

def receiveKeyShare (shares : List (ℤ × ℕ)) : Option Bytes → Option (List (ℤ × ℕ))
  | none => some shares
  | some reply => (readKeyShare reply).map fun share => shares ++ share.toList

def collectKeyShares (replies : Fin secretShares → Option Bytes) : Option (List (ℤ × ℕ)) :=
  (List.ofFn replies).foldlM receiveKeyShare []

inductive KeyOutcome where
  | fault
  | thrown
  | rlcErr
  | rlcOk (sk : ℕ)
deriving DecidableEq, Repr

def participantIds (shares : List (ℤ × ℕ)) (i : ℕ) : ℤ :=
  (shares.getD i (0, 0)).1

def shareValues (shares : List (ℤ × ℕ)) (i : ℕ) : ℕ :=
  (shares.getD i (0, 0)).2

def factorFailure (xi xj : ℤ) : Option KeyOutcome :=
  if xi = xj then some .thrown
  else if 2 ^ 31 ≤ |xi - xj| then some .fault
  else none

def interpolationFailure (shares : List (ℤ × ℕ)) : Option KeyOutcome :=
  (List.range shares.length).findSome? fun i => (List.range shares.length).findSome? fun j =>
    if i = j then none else factorFailure (participantIds shares i) (participantIds shares j)

def keyOf (shares : List (ℤ × ℕ)) : Option ℕ :=
  dkgReconstructSecretFromShares (participantIds shares) (shareValues shares) shares.length
    secp256k1Order

/-- `request_dkg_shares_and_reconstruct`, with the secret key that the state holds before. -/
def requestDkgSharesAndReconstruct (sk : ℕ) (replies : Fin secretShares → Option Bytes) :
    KeyOutcome :=
  match collectKeyShares replies with
  | none => .fault
  | some shares =>
    if shares.length < dkgThreshold then .rlcErr
    else
      match interpolationFailure shares with
      | some failure => failure
      | none =>
        match keyOf shares with
        | some key => .rlcOk key
        | none => .rlcOk sk

/-! ### The usable replies -/

def usableShare : Option Bytes → Option (ℤ × ℕ)
  | none => none
  | some reply => (readKeyShare reply).join

def usableShares (replies : Fin secretShares → Option Bytes) : List (ℤ × ℕ) :=
  (List.ofFn replies).filterMap usableShare

def Readable (replies : Fin secretShares → Option Bytes) : Prop :=
  ∀ i reply, replies i = some reply → (readKeyShare reply).isSome

theorem foldlM_receiveKeyShare {replies : List (Option Bytes)} (shares : List (ℤ × ℕ))
    (readable : ∀ reply, some reply ∈ replies → (readKeyShare reply).isSome) :
    replies.foldlM receiveKeyShare shares = some (shares ++ replies.filterMap usableShare) := by
  induction replies generalizing shares with
  | nil => simp
  | cons reply replies ih =>
    have later := fun bytes member => readable bytes (mem_cons_of_mem reply member)
    rw [foldlM_cons]
    cases reply with
    | none =>
      exact ih shares later
    | some bytes =>
      rcases Option.isSome_iff_exists.mp (readable bytes mem_cons_self) with ⟨share, read⟩
      have step : receiveKeyShare shares (some bytes) = some (shares ++ share.toList) := by
        rw [receiveKeyShare, read, Option.map_some]
      have usable : usableShare (some bytes) = share := by
        rw [usableShare, read, Option.join_some]
      rw [step, Option.bind_eq_bind, Option.bind_some, ih _ later, append_assoc]
      cases share with
      | none => rw [filterMap_cons_none usable, Option.toList_none, nil_append]
      | some share => rw [filterMap_cons_some usable, Option.toList_some, singleton_append]

theorem foldlM_receiveKeyShare_eq_none {replies : List (Option Bytes)} {reply : Bytes}
    (member : some reply ∈ replies) (fault : readKeyShare reply = none)
    (shares : List (ℤ × ℕ)) : replies.foldlM receiveKeyShare shares = none := by
  induction replies generalizing shares with
  | nil => simp at member
  | cons first replies ih =>
    rw [foldlM_cons]
    rcases mem_cons.mp member with rfl | later
    · rw [receiveKeyShare, fault]
      rfl
    · cases receiveKeyShare shares first with
      | none => rfl
      | some extended => exact ih later extended

theorem collectKeyShares_eq_some_iff {replies : Fin secretShares → Option Bytes}
    {shares : List (ℤ × ℕ)} :
    collectKeyShares replies = some shares ↔ Readable replies ∧ usableShares replies = shares := by
  by_cases readable : Readable replies
  · have collected := foldlM_receiveKeyShare [] fun reply member => by
      obtain ⟨i, arrived⟩ := mem_ofFn.mp member
      exact readable i reply arrived
    rw [collectKeyShares, collected, nil_append, Option.some_inj]
    exact ⟨fun same => ⟨readable, same⟩, And.right⟩
  · refine iff_of_false ?_ fun both => readable both.1
    simp only [Readable, not_forall, Option.not_isSome_iff_eq_none] at readable
    obtain ⟨i, reply, arrived, fault⟩ := readable
    rw [collectKeyShares, foldlM_receiveKeyShare_eq_none (mem_ofFn.mpr ⟨i, arrived⟩) fault]
    simp

section Success

variable {sk key : ℕ} {replies : Fin secretShares → Option Bytes} {shares : List (ℤ × ℕ)}

def IdsApart (shares : List (ℤ × ℕ)) : Prop :=
  ∀ i < shares.length, ∀ j < shares.length, i ≠ j →
    participantIds shares i ≠ participantIds shares j ∧
      |participantIds shares i - participantIds shares j| < 2 ^ 31

/-- The key that the shares stand for by the formula of Lagrange. -/
def lagrangeKey (shares : List (ℤ × ℕ)) : ℕ :=
  (interpolatedKey secp256k1Order (participantIds shares) (shareValues shares) shares.length).val

theorem keyOf_eq_lagrangeKey (enough : dkgThreshold ≤ shares.length) (apart : IdsApart shares) :
    keyOf shares = some (lagrangeKey shares) := by
  refine reconstruct_eq_interpolatedKey ?_ enough
  intro i iInside j jInside different same
  obtain ⟨unequal, near⟩ := apart i iInside j jInside different
  have multiple := (ZMod.intCast_zmod_eq_zero_iff_dvd _ _).mp
    (show ((participantIds shares i - participantIds shares j : ℤ) : ZMod secp256k1Order) = 0 by
      rw [Int.cast_sub, same, sub_self])
  have large : (2 : ℤ) ^ 31 < secp256k1Order := by decide +kernel
  exact unequal (sub_eq_zero.mp (Int.eq_zero_of_abs_lt_dvd multiple (near.trans large)))

theorem factorFailure_eq_none_iff {xi xj : ℤ} :
    factorFailure xi xj = none ↔ xi ≠ xj ∧ |xi - xj| < 2 ^ 31 := by
  rw [factorFailure]
  split_ifs with same overflow
  · simp [same]
  · simp only [false_iff, not_and, not_lt]
    exact fun _ => overflow
  · simp only [true_iff]
    exact ⟨same, not_le.mp overflow⟩

theorem interpolationFailure_eq_none_iff :
    interpolationFailure shares = none ↔ IdsApart shares := by
  simp only [interpolationFailure, findSome?_eq_none_iff, mem_range, IdsApart]
  apply forall₂_congr
  intro i _
  apply forall₂_congr
  intro j _
  by_cases same : i = j
  · simp [same]
  · rw [if_neg same, factorFailure_eq_none_iff]
    simp [same]

theorem interpolationFailure_ne_rlcOk : interpolationFailure shares ≠ some (.rlcOk key) := by
  intro succeeded
  rcases exists_of_findSome?_eq_some succeeded with ⟨i, -, inner⟩
  rcases exists_of_findSome?_eq_some inner with ⟨j, -, factor⟩
  split_ifs at factor
  rw [factorFailure] at factor
  split_ifs at factor
  · cases factor
  · cases factor

theorem request_eq_rlcOk_iff :
    requestDkgSharesAndReconstruct sk replies = .rlcOk key ↔
      Readable replies ∧ dkgThreshold ≤ (usableShares replies).length ∧
        IdsApart (usableShares replies) ∧ lagrangeKey (usableShares replies) = key := by
  rw [requestDkgSharesAndReconstruct]
  cases collected : collectKeyShares replies with
  | none =>
    simp only [reduceCtorEq, false_iff]
    rintro ⟨readable, -⟩
    simp [collectKeyShares_eq_some_iff.mpr ⟨readable, rfl⟩] at collected
  | some shares =>
    obtain ⟨readable, rfl⟩ := collectKeyShares_eq_some_iff.mp collected
    by_cases few : (usableShares replies).length < dkgThreshold
    · simp only [if_pos few, reduceCtorEq, false_iff]
      omega
    · simp only [if_neg few, readable, not_lt.mp few, true_and, ← interpolationFailure_eq_none_iff]
      cases failure : interpolationFailure (usableShares replies) with
      | none =>
        have apart := interpolationFailure_eq_none_iff.mp failure
        simp [keyOf_eq_lagrangeKey (not_lt.mp few) apart]
      | some outcome =>
        simp only [reduceCtorEq, false_and, iff_false]
        rintro rfl
        exact interpolationFailure_ne_rlcOk failure

end Success

/-! ### Genuine replies -/

section Genuine

theorem startsWith_eq_false_of_take {text reply : Bytes} (long : text.length ≤ reply.length)
    (different : reply.take text.length ≠ text) : startsWith text reply = some false := by
  rw [startsWith, if_neg, if_neg]
  · intro before
    have leading := isPrefixOf_iff_prefix.mp before
    have same := leading.eq_of_length_le long
    rw [same, take_length] at different
    exact different rfl
  · intro before
    have leading := isPrefixOf_iff_prefix.mp before
    exact different (prefix_iff_eq_take.mp leading).symm

theorem readKeyShare_packKeyShare {participantId : ℕ} {share : Bytes}
    (member : participantId < 2 ^ 8) (fits : share.length ≤ shareBufSize) :
    readKeyShare (packKeyShare participantId share) =
      some (some ((participantId : ℤ), readBe share)) := by
  have size : shareBufSize = 34 := rfl
  have length : (packKeyShare participantId share).length = 8 + share.length := by
    simp only [packKeyShare, length_append, length_writeLe]
  have first : slice (packKeyShare participantId share) 0 4 = writeLe 4 participantId := by
    rw [packKeyShare, slice, drop_zero, append_assoc, take_left' (length_writeLe _ _)]
  have second : slice (packKeyShare participantId share) 4 4 = writeLe 4 share.length := by
    rw [packKeyShare, slice, append_assoc, drop_left' (length_writeLe _ _),
      take_left' (length_writeLe _ _)]
  have third : slice (packKeyShare participantId share) 8 share.length = share := by
    rw [packKeyShare, slice, drop_left' (by simp), take_length]
  have small : readLe (writeLe 4 participantId) = participantId := readLe_writeLe_of_lt (by omega)
  have untagged : (packKeyShare participantId share).take dkgTag.length ≠ dkgTag := by
    intro tagged
    have front : slice (packKeyShare participantId share) 0 4 = dkgTag := tagged
    rw [first] at front
    rw [front] at small
    have tag : readLe dkgTag = 0x5f474b44 := by decide
    omega
  have long : dkgTag.length ≤ (packKeyShare participantId share).length := by
    rw [length]
    exact (by decide : dkgTag.length ≤ 8).trans (Nat.le_add_right _ _)
  have stated : readSize (writeLe 4 share.length) = share.length := by
    rw [readSize, readLe_writeLe_of_lt (by omega), if_pos (by omega)]
  have identified : readInt (writeLe 4 participantId) = participantId := by
    rw [readInt, small, if_pos (by omega)]
  rw [readKeyShare, if_pos (by omega), startsWith_eq_false_of_take long untagged]
  simp only [Option.bind_eq_bind, Option.bind_some, Bool.false_eq_true, if_false, length, first,
    second, stated, third, identified]
  rw [if_neg (by omega), if_pos (by omega), if_pos (by omega)]

variable {replies : Fin secretShares → Option Bytes} {coeffs : ℕ → ZMod secp256k1Order}

/-- The replies that have come are those of the participants that were asked, with values of a
polynomial. -/
def Genuine (coeffs : ℕ → ZMod secp256k1Order) (replies : Fin secretShares → Option Bytes) :
    Prop :=
  ∀ i reply, replies i = some reply → ∃ share : Bytes, reply = packKeyShare (i + 1) share ∧
    share.length ≤ shareBufSize ∧ (readBe share : ZMod secp256k1Order) =
      Interpolation.evaluate dkgThreshold coeffs ((i + 1 : ℕ) : ZMod secp256k1Order)

section Collected

variable (genuine : Genuine coeffs replies)

include genuine

theorem Genuine.readKeyShare {i : Fin secretShares}
    {reply : Bytes} (arrived : replies i = some reply) :
    ∃ value : ℕ, Auditor.readKeyShare reply = some (some (((i + 1 : ℕ) : ℤ), value)) ∧
      (value : ZMod secp256k1Order) =
        Interpolation.evaluate dkgThreshold coeffs ((i + 1 : ℕ) : ZMod secp256k1Order) := by
  rcases genuine i reply arrived with ⟨share, rfl, fits, value⟩
  have bound : (i : ℕ) < 3 := i.isLt
  exact ⟨readBe share, readKeyShare_packKeyShare (by omega) fits, value⟩

theorem Genuine.usableShare {i : Fin secretShares}
    {share : ℤ × ℕ} (usable : Auditor.usableShare (replies i) = some share) :
    share.1 = ((i + 1 : ℕ) : ℤ) ∧ (share.2 : ZMod secp256k1Order) =
      Interpolation.evaluate dkgThreshold coeffs ((i + 1 : ℕ) : ZMod secp256k1Order) := by
  cases arrived : replies i with
  | none =>
    rw [arrived] at usable
    cases usable
  | some reply =>
    rcases genuine.readKeyShare arrived with ⟨value, read, correct⟩
    rw [arrived, Auditor.usableShare, read, Option.join_some, Option.some_inj] at usable
    subst usable
    exact ⟨rfl, correct⟩

theorem Genuine.readable : Readable replies := by
  intro i reply arrived
  rcases genuine.readKeyShare arrived with ⟨value, read, -⟩
  rw [read, Option.isSome_some]

theorem Genuine.pairwise :
    (usableShares replies).Pairwise fun left right => left.1 < right.1 := by
  rw [usableShares, ofFn_eq_map, filterMap_map, pairwise_filterMap]
  apply (pairwise_lt_finRange secretShares).imp
  intro i j less left leftUsable right rightUsable
  rw [(genuine.usableShare leftUsable).1, (genuine.usableShare rightUsable).1]
  omega

theorem Genuine.mem {share : ℤ × ℕ} (member : share ∈ usableShares replies) :
    1 ≤ share.1 ∧ share.1 ≤ 3 ∧ (share.2 : ZMod secp256k1Order) =
      Interpolation.evaluate dkgThreshold coeffs (share.1 : ZMod secp256k1Order) := by
  rcases mem_filterMap.mp member with ⟨reply, arrived, usable⟩
  rcases mem_ofFn.mp arrived with ⟨i, rfl⟩
  rcases genuine.usableShare usable with ⟨participant, value⟩
  have bound : (i : ℕ) < 3 := i.isLt
  refine ⟨by omega, by omega, ?_⟩
  rw [value, participant, Int.cast_natCast]

end Collected

variable {shares : List (ℤ × ℕ)} {i j : ℕ}

theorem participantIds_eq (inside : i < shares.length) :
    participantIds shares i = shares[i].1 := by
  rw [participantIds, getD_eq_getElem?_getD, getElem?_eq_getElem inside, Option.getD_some]

theorem shareValues_eq (inside : i < shares.length) : shareValues shares i = shares[i].2 := by
  rw [shareValues, getD_eq_getElem?_getD, getElem?_eq_getElem inside, Option.getD_some]

variable (genuine : Genuine coeffs replies)

include genuine

theorem Genuine.participantIds_bounds (inside : i < (usableShares replies).length) :
    1 ≤ participantIds (usableShares replies) i ∧ participantIds (usableShares replies) i ≤ 3 := by
  rw [participantIds_eq inside]
  have member := genuine.mem (getElem_mem inside)
  exact ⟨member.1, member.2.1⟩

theorem Genuine.participantIds_ne (iInside : i < (usableShares replies).length)
    (jInside : j < (usableShares replies).length) (apart : i ≠ j) :
    participantIds (usableShares replies) i ≠ participantIds (usableShares replies) j := by
  have ordered := pairwise_iff_getElem.mp genuine.pairwise
  rw [participantIds_eq iInside, participantIds_eq jInside]
  rcases lt_or_gt_of_ne apart with less | more
  · exact (ordered i j iInside jInside less).ne
  · exact (ordered j i jInside iInside more).ne'

theorem Genuine.apart : IdsApart (usableShares replies) := by
  intro i iInside j jInside apart
  refine ⟨genuine.participantIds_ne iInside jInside apart, ?_⟩
  have iBounds := genuine.participantIds_bounds iInside
  have jBounds := genuine.participantIds_bounds jInside
  rw [abs_lt]
  omega

theorem Genuine.distinct :
    Distinct secp256k1Order (usableShares replies).length
      (participantIds (usableShares replies)) where
  low i inside := (genuine.participantIds_bounds inside).1
  high i inside := by
    have large : (3 : ℤ) < secp256k1Order := by decide +kernel
    exact (genuine.participantIds_bounds inside).2.trans_lt large
  inj i iInside j jInside same := by
    by_contra apart
    exact genuine.participantIds_ne iInside jInside apart same

theorem request_of_genuine {secret : ℕ} (constant : (secret : ZMod secp256k1Order) = coeffs 0)
    (enough : dkgThreshold ≤ (usableShares replies).length) (sk : ℕ) :
    requestDkgSharesAndReconstruct sk replies = .rlcOk (secret % secp256k1Order) := by
  rw [request_eq_rlcOk_iff]
  refine ⟨genuine.readable, enough, genuine.apart, ?_⟩
  apply Option.some.inj
  rw [← keyOf_eq_lagrangeKey enough genuine.apart]
  apply reconstruct_eq_some genuine.distinct (by decide) enough enough _ constant
  intro i inside
  rw [shareValues_eq inside, participantIds_eq inside]
  exact (genuine.mem (getElem_mem inside)).2.2

end Genuine

section Sample

def twoReplies (first second : UInt8) (participant : Fin secretShares) : Option Bytes :=
  if participant.val = 0 then some (packKeyShare 1 [first])
  else if participant.val = 1 then some (packKeyShare 2 [second])
  else none

theorem usableShare_singleton {participantId : ℕ} (member : participantId < 2 ^ 8) (share : UInt8) :
    usableShare (some (packKeyShare participantId [share])) =
      some ((participantId : ℤ), readBe [share]) := by
  have short : [share].length ≤ shareBufSize := (by decide : 1 ≤ shareBufSize)
  rw [usableShare, readKeyShare_packKeyShare member short, Option.join_some]

theorem usableShares_twoReplies (first second : UInt8) :
    usableShares (twoReplies first second) =
      [(((1 : ℕ) : ℤ), readBe [first]), (((2 : ℕ) : ℤ), readBe [second])] := by
  have listed : List.ofFn (twoReplies first second) =
      [some (packKeyShare 1 [first]), some (packKeyShare 2 [second]), none] := rfl
  rw [usableShares, listed, filterMap_cons_some (usableShare_singleton (by decide) first),
    filterMap_cons_some (usableShare_singleton (by decide) second),
    filterMap_cons_none rfl, filterMap_nil]

theorem genuine_twoReplies {constant slope : ℕ} {first second : UInt8}
    (firstValue : readBe [first] = constant + slope)
    (secondValue : readBe [second] = constant + slope * 2) :
    Genuine (fun k => if k = 0 then (constant : ZMod secp256k1Order) else slope)
      (twoReplies first second) := by
  intro participant reply arrived
  rw [twoReplies] at arrived
  split_ifs at arrived with isFirst isSecond
  · refine ⟨[first], ?_, (by decide : 1 ≤ shareBufSize), ?_⟩
    · rw [isFirst]
      exact (Option.some.inj arrived).symm
    · rw [firstValue, isFirst]
      simp [Interpolation.evaluate, dkgThreshold, Finset.sum_range_succ]
  · refine ⟨[second], ?_, (by decide : 1 ≤ shareBufSize), ?_⟩
    · rw [isSecond]
      exact (Option.some.inj arrived).symm
    · rw [secondValue, isSecond]
      simp [Interpolation.evaluate, dkgThreshold, Finset.sum_range_succ]

end Sample

end TigerMixer.Auditor
