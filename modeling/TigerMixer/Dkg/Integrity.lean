import TigerMixer.Dkg.Receive
import TigerMixer.Dkg.Verification

/-!
# What a participant adds up

The receive loop adds every share that is addressed to the participant, verified or not. So the
result is a share of the key only if there is one message from each other participant, each with one
share, which its commitments confirm.
-/

namespace TigerMixer.Dkg

open Protocol List

variable {G : Type}

/-! ### The deliveries of a run -/

def deliveries (platform : Platform G) (participantId : ℕ) (initialized : ℕ → Bool) :
    List Bytes → ℕ → ℕ → Option (List (Delivery G))
  | [], _, _ => some []
  | poll :: polls, received, timeouts =>
    if received < secretShares - 1 ∧ timeouts < maxTimeout then
      if poll = [] then
        deliveries platform participantId initialized polls received (timeouts + 1)
      else
        match readPoll platform participantId initialized poll with
        | none => none
        | some none => deliveries platform participantId initialized polls received timeouts
        | some (some delivery) =>
          (deliveries platform participantId initialized polls (received + 1) 0).map
            (delivery :: ·)
    else some []

variable {platform : Platform G} {participantId : ℕ} {initialized : ℕ → Bool}
  {processed : List (Delivery G)} {delivery : Delivery G}

theorem deliveries_spec {polls : List Bytes} {received timeouts : ℕ}
    (read : deliveries platform participantId initialized polls received timeouts =
      some processed) :
    processed.length ≤ secretShares - 1 - received ∧
      ∀ delivery ∈ processed, ∃ poll ∈ polls,
        readPoll platform participantId initialized poll = some (some delivery) := by
  induction polls generalizing received timeouts processed with
  | nil =>
    simp only [deliveries, Option.some.injEq] at read
    simp [← read]
  | cons poll polls ih =>
    have later {received timeouts : ℕ} {processed : List (Delivery G)}
        (read : deliveries platform participantId initialized polls received timeouts =
          some processed) :
        processed.length ≤ secretShares - 1 - received ∧
          ∀ delivery ∈ processed, ∃ poll' ∈ poll :: polls,
            readPoll platform participantId initialized poll' = some (some delivery) := by
      rcases ih read with ⟨few, polled⟩
      refine ⟨few, ?_⟩
      intro delivery member
      rcases polled delivery member with ⟨poll', earlier, readPoll'⟩
      exact ⟨poll', mem_cons_of_mem poll earlier, readPoll'⟩
    rw [deliveries] at read
    split_ifs at read with goesOn empty
    · exact later read
    · split at read
      · simp at read
      · exact later read
      · rename_i delivery here
        rcases Option.map_eq_some_iff.mp read with ⟨rest, readRest, rfl⟩
        rcases later readRest with ⟨few, polled⟩
        rw [length_cons, forall_mem_cons]
        exact ⟨by omega, ⟨poll, mem_cons_self, here⟩, polled⟩
    · simp only [Option.some.injEq] at read
      simp [← read]

theorem sender_of_readDelivery {data : Bytes}
    (read : readDelivery platform participantId initialized data = some (some delivery)) :
    1 ≤ delivery.senderId ∧ delivery.senderId ≤ secretShares ∧
      delivery.senderId ≠ participantId := by
  simp only [readDelivery, Option.bind_eq_bind, Option.bind_eq_some_iff] at read
  rcases read with ⟨senderId, -, nCommitments, -, nShares, -, read⟩
  by_cases invalid : senderId < 1 ∨ (secretShares : ℤ) < senderId ∨ senderId = participantId
  · simp [invalid] at read
  · rw [if_neg invalid] at read
    cases known : initialized senderId.toNat with
    | false => simp [known] at read
    | true =>
      simp only [known, not_true_eq_false, if_false, Option.bind_eq_some_iff,
        Option.some.injEq] at read
      rcases read with ⟨commitments, -, shares, -, rfl⟩
      dsimp only
      omega

theorem sender_of_readPoll {poll : Bytes}
    (read : readPoll platform participantId initialized poll = some (some delivery)) :
    1 ≤ delivery.senderId ∧ delivery.senderId ≤ secretShares ∧
      delivery.senderId ≠ participantId := by
  simp only [readPoll, Option.bind_eq_bind, Option.bind_eq_some_iff] at read
  rcases read with ⟨message, -, isDkgData, -, read⟩
  split_ifs at read with dkgData
  · exact sender_of_readDelivery read
  · simp at read

/-! ### What a delivery changes -/

namespace Protocol

variable {protocol : Protocol G}

theorem participants_modify_self (participantId : ℕ) (change : Participant G → Participant G) :
    (protocol.modify participantId change).participants (participantId - 1) =
      (protocol.participants (participantId - 1)).map change :=
  Function.update_self ..

theorem participants_modify_of_ne {participantId index : ℕ} (change : Participant G → Participant G)
    (different : index ≠ participantId - 1) :
    (protocol.modify participantId change).participants index = protocol.participants index :=
  Function.update_of_ne different ..

theorem initialized_modify {participantId : ℕ} {change : Participant G → Participant G}
    (keeps : ∀ participant, (change participant).isInitialized = participant.isInitialized) :
    (protocol.modify participantId change).initialized = protocol.initialized := by
  funext other
  by_cases same : other - 1 = participantId - 1
  · rw [initialized, initialized, same, participants_modify_self]
    cases protocol.participants (participantId - 1) with
    | none => rfl
    | some participant => exact keeps participant
  · rw [initialized, initialized, participants_modify_of_ne _ same]

theorem secretShare_modify {participantId other : ℕ} {change : Participant G → Participant G}
    (keeps : ∀ participant, (change participant).secretShare = participant.secretShare) :
    (protocol.modify other change).secretShare participantId =
      protocol.secretShare participantId := by
  by_cases same : participantId - 1 = other - 1
  · rw [secretShare, secretShare, same, participants_modify_self, Option.map_map]
    congr 1
    funext participant
    exact keeps participant
  · rw [secretShare, secretShare, participants_modify_of_ne _ same]

theorem secretShare_addToShare (participantId share : ℕ) :
    (protocol.addToShare participantId share).secretShare participantId =
      (protocol.secretShare participantId).map fun total => (total + share) % protocol.order := by
  rw [secretShare, secretShare, addToShare, participants_modify_self, Option.map_map,
    Option.map_map]
  rfl

end Protocol

/-- The protocols agree in what the verification of a share of this sender reads. -/
structure SameDealing (senderId : ℕ) (protocol protocol' : Protocol G) : Prop where
  nParticipants : protocol'.nParticipants = protocol.nParticipants
  generator : protocol'.generator = protocol.generator
  order : protocol'.order = protocol.order
  sender : (protocol'.participants (senderId - 1)).map
      (fun sender => (sender.threshold, sender.commitments, sender.isInitialized)) =
    (protocol.participants (senderId - 1)).map
      fun sender => (sender.threshold, sender.commitments, sender.isInitialized)

namespace SameDealing

variable {senderId : ℕ} {protocol protocol' protocol'' : Protocol G}

theorem refl (senderId : ℕ) (protocol : Protocol G) : SameDealing senderId protocol protocol :=
  ⟨rfl, rfl, rfl, rfl⟩

theorem trans (first : SameDealing senderId protocol protocol')
    (second : SameDealing senderId protocol' protocol'') :
    SameDealing senderId protocol protocol'' :=
  ⟨second.nParticipants.trans first.nParticipants, second.generator.trans first.generator,
    second.order.trans first.order, second.sender.trans first.sender⟩

theorem modify_of_ne {other : ℕ} (change : Participant G → Participant G)
    (different : senderId - 1 ≠ other - 1) :
    SameDealing senderId protocol (protocol.modify other change) := by
  refine ⟨rfl, rfl, rfl, ?_⟩
  rw [participants_modify_of_ne _ different]

theorem modify_share (other : ℕ) (total : Participant G → ℕ) :
    SameDealing senderId protocol (protocol.modify other fun participant =>
      { participant with secretShare := total participant }) := by
  by_cases same : senderId - 1 = other - 1
  · refine ⟨rfl, rfl, rfl, ?_⟩
    rw [same, participants_modify_self, Option.map_map]
    rfl
  · exact modify_of_ne _ same

theorem storeCommitments (dealing : SameDealing senderId protocol protocol')
    (commitments : List G) :
    SameDealing senderId (protocol.storeCommitments senderId commitments)
      (protocol'.storeCommitments senderId commitments) := by
  refine ⟨dealing.nParticipants, dealing.generator, dealing.order, ?_⟩
  have sender := dealing.sender
  rw [Protocol.storeCommitments, Protocol.storeCommitments, Protocol.participants_modify_self,
    participants_modify_self, Option.map_map, Option.map_map]
  cases before : protocol.participants (senderId - 1) with
  | none => simpa [before] using sender
  | some participant =>
    cases after : protocol'.participants (senderId - 1) with
    | none => simp [before, after] at sender
    | some participant' =>
      simp only [before, after, Option.map_some, Option.some.injEq, Prod.mk.injEq] at sender
      simp [sender]

theorem verify [CommGroup G] [DecidableEq G] (dealing : SameDealing senderId protocol protocol')
    (verifierId share : ℕ) :
    dkgVerifyShare protocol' verifierId senderId share =
      dkgVerifyShare protocol verifierId senderId share := by
  have sender := dealing.sender
  rw [dkgVerifyShare, dkgVerifyShare, dealing.nParticipants, dealing.generator, dealing.order]
  cases before : protocol.participants (senderId - 1) with
  | none =>
    have none' : protocol'.participants (senderId - 1) = none := by
      simpa [before] using sender
    rw [none']
  | some participant =>
    cases after : protocol'.participants (senderId - 1) with
    | none => simp [before, after] at sender
    | some participant' =>
      simp only [before, after, Option.map_some, Option.some.injEq, Prod.mk.injEq] at sender
      rcases sender with ⟨threshold, commitments, initialized⟩
      simp only [threshold, commitments, initialized]

end SameDealing

section Deliver

variable [CommGroup G] [DecidableEq G] {participantId : ℕ}

def Delivery.receipts (participantId : ℕ) (protocol : Protocol G) (delivery : Delivery G) :
    List Receipt :=
  delivery.shares.map fun share =>
    { senderId := delivery.senderId, share,
      verified := dkgVerifyShare
        (protocol.storeCommitments delivery.senderId delivery.commitments) participantId
          delivery.senderId share }

theorem addShare_eq (senderId : ℕ) (state : Protocol G × List Receipt) (share : ℕ) :
    addShare participantId senderId state share =
      (state.1.addToShare participantId share,
        state.2 ++ [⟨senderId, share, dkgVerifyShare state.1 participantId senderId share⟩]) := by
  rw [addShare]
  split_ifs with verified
  · rw [verified]
  · rw [Bool.eq_false_iff.mpr verified]

variable {shares : List ℕ} {base : Protocol G} {state : Protocol G × List Receipt}
  {delivery : Delivery G} {processed : List (Delivery G)}

theorem receipts_foldl_addShare {senderId : ℕ} (dealing : SameDealing senderId base state.1) :
    (shares.foldl (addShare participantId senderId) state).2 = state.2 ++ shares.map fun share =>
      ⟨senderId, share, dkgVerifyShare base participantId senderId share⟩ := by
  induction shares generalizing state with
  | nil => simp
  | cons share shares ih =>
    rw [foldl_cons, addShare_eq, ih]
    · simp [dealing.verify]
    · exact dealing.trans (SameDealing.modify_share ..)

theorem receipts_deliver (state : Protocol G × List Receipt) (delivery : Delivery G) :
    (deliver participantId state delivery).2 = state.2 ++ delivery.receipts participantId state.1 :=
  receipts_foldl_addShare (SameDealing.refl ..)

theorem receipts_congr {protocol protocol' : Protocol G}
    (dealing : SameDealing delivery.senderId protocol protocol') :
    delivery.receipts participantId protocol' = delivery.receipts participantId protocol := by
  simp only [Delivery.receipts, (dealing.storeCommitments delivery.commitments).verify]

theorem sameDealing_foldl_addShare {senderId other : ℕ} (dealing : SameDealing other base state.1) :
    SameDealing other base (shares.foldl (addShare participantId senderId) state).1 := by
  refine List.foldlRecOn
    (motive := fun state : Protocol G × List Receipt => SameDealing other base state.1)
    shares _ dealing ?_
  intro state dealing share _
  rw [addShare_eq]
  exact dealing.trans (SameDealing.modify_share ..)

theorem initialized_deliver (state : Protocol G × List Receipt) (delivery : Delivery G) :
    (deliver participantId state delivery).1.initialized = state.1.initialized := by
  refine List.foldlRecOn
    (motive := fun state' : Protocol G × List Receipt =>
      state'.1.initialized = state.1.initialized)
    delivery.shares _ ?_ ?_
  · exact initialized_modify fun _ => rfl
  · intro state' kept share _
    rw [addShare_eq, ← kept]
    exact initialized_modify fun _ => rfl

theorem receiveLoop_eq {platform : Platform G} {polls : List Bytes} {received timeouts : ℕ} :
    receiveLoop platform participantId polls received timeouts state =
      (deliveries platform participantId state.1.initialized polls received timeouts).map
        fun processed => processed.foldl (deliver participantId) state := by
  induction polls generalizing received timeouts state with
  | nil => rfl
  | cons poll polls ih =>
    rw [receiveLoop, deliveries]
    split_ifs with goesOn empty
    · exact ih
    · cases read : readPoll platform participantId state.1.initialized poll with
      | none => rfl
      | some outcome =>
        cases outcome with
        | none => exact ih
        | some delivery =>
          dsimp only
          rw [ih, initialized_deliver, Option.map_map]
          rfl
    · rfl

theorem receipts_foldl_deliver
    (dealing : ∀ delivery ∈ processed, SameDealing delivery.senderId base state.1)
    (nodup : (processed.map fun delivery => delivery.senderId - 1).Nodup) :
    (processed.foldl (deliver participantId) state).2 =
      state.2 ++ processed.flatMap (Delivery.receipts participantId base) := by
  induction processed generalizing state with
  | nil => simp
  | cons delivery processed ih =>
    rw [forall_mem_cons] at dealing
    rw [map_cons, nodup_cons] at nodup
    rw [foldl_cons, ih _ nodup.2, receipts_deliver, flatMap_cons,
      append_assoc, receipts_congr dealing.1]
    intro other member
    have different : other.senderId - 1 ≠ delivery.senderId - 1 := fun same =>
      nodup.1 (mem_map.mpr ⟨other, member, same⟩)
    exact sameDealing_foldl_addShare ((dealing.2 other member).trans (.modify_of_ne _ different))

theorem senders_foldl_deliver :
    (processed.foldl (deliver participantId) state).2.map Receipt.senderId =
      state.2.map Receipt.senderId ++ processed.flatMap fun delivery =>
        List.replicate delivery.shares.length delivery.senderId := by
  induction processed generalizing state with
  | nil => simp
  | cons delivery processed ih =>
    rw [foldl_cons, ih, receipts_deliver, map_append, flatMap_cons, append_assoc]
    simp [Delivery.receipts, Function.comp_def, map_const']

/-- The share of the participant is what it started with and all the shares in the receipts. -/
structure Balanced (participantId own order : ℕ) (state : Protocol G × List Receipt) : Prop where
  order_eq : state.1.order = order
  share : state.1.secretShare participantId = some ((own + (state.2.map Receipt.share).sum) % order)

theorem Balanced.addShare {own order senderId share : ℕ}
    (balanced : Balanced participantId own order state) :
    Balanced participantId own order (addShare participantId senderId state share) := by
  rw [addShare_eq]
  refine ⟨balanced.order_eq, ?_⟩
  rw [secretShare_addToShare, balanced.share, balanced.order_eq, Option.map_some, Nat.mod_add_mod]
  simp [add_assoc]

theorem Balanced.deliver {own order : ℕ} (balanced : Balanced participantId own order state)
    (delivery : Delivery G) :
    Balanced participantId own order (deliver participantId state delivery) := by
  apply List.foldlRecOn delivery.shares
  · refine ⟨balanced.order_eq, ?_⟩
    rw [← balanced.share]
    exact secretShare_modify fun _ => rfl
  · exact fun _ before _ _ => before.addShare

end Deliver

/-! ### Integrity -/

def others (participantId : ℕ) : List ℕ :=
  (List.range' 1 secretShares).erase participantId

/-- The shares that were added are one from each other participant, and all of them verified. -/
structure Intact (participantId : ℕ) (receipts : List Receipt) : Prop where
  senders : (receipts.map Receipt.senderId).Perm (others participantId)
  verified : ∀ receipt ∈ receipts, receipt.verified = true

theorem nodup_others (participantId : ℕ) : (others participantId).Nodup :=
  (nodup_range' ..).erase participantId

theorem length_others (member : 1 ≤ participantId ∧ participantId ≤ secretShares) :
    (others participantId).length = secretShares - 1 := by
  rw [others, length_erase_of_mem, length_range']
  rw [mem_range'_1]
  omega

theorem length_shares_eq_one
    (total : processed.length ≤ (processed.map fun delivery => delivery.shares.length).sum)
    (single : ∀ delivery ∈ processed, delivery.shares.length ≤ 1) :
    ∀ delivery ∈ processed, delivery.shares.length = 1 := by
  induction processed with
  | nil => simp
  | cons delivery processed ih =>
    rw [forall_mem_cons] at single ⊢
    rw [map_cons, sum_cons, length_cons] at total
    have bound := sum_le_card_nsmul (processed.map fun delivery => delivery.shares.length) 1
      (by simpa using single.2)
    rw [length_map, smul_eq_mul, Nat.mul_one] at bound
    have here := single.1
    exact ⟨by omega, ih (by omega) single.2⟩

theorem senders_eq_of_single (single : ∀ delivery ∈ processed, delivery.shares.length = 1) :
    (processed.flatMap fun delivery =>
      List.replicate delivery.shares.length delivery.senderId) =
        processed.map Delivery.senderId := by
  induction processed with
  | nil => rfl
  | cons delivery processed ih =>
    rw [forall_mem_cons] at single
    rw [flatMap_cons, ih single.2, single.1]
    rfl

section Run

variable [CommGroup G] [DecidableEq G] {participantId : ℕ} {protocol : Protocol G}
  {processed : List (Delivery G)}

structure Proper (participantId : ℕ) (protocol : Protocol G) (processed : List (Delivery G)) :
    Prop where
  senders : (processed.map Delivery.senderId).Perm (others participantId)
  shares : ∀ delivery ∈ processed, ∃ share, delivery.shares = [share] ∧
    dkgVerifyShare (protocol.storeCommitments delivery.senderId delivery.commitments)
      participantId delivery.senderId share = true

theorem receipts_eq_flatMap (low : ∀ delivery ∈ processed, 1 ≤ delivery.senderId)
    (nodup : (processed.map Delivery.senderId).Nodup) :
    (processed.foldl (deliver participantId) (protocol, [])).2 =
      processed.flatMap (Delivery.receipts participantId protocol) := by
  refine receipts_foldl_deliver (fun delivery _ => SameDealing.refl ..) ?_
  apply List.Nodup.map_on _ (List.Nodup.of_map _ nodup)
  intro delivery member delivery' member' same
  apply inj_on_of_nodup_map nodup member member'
  have positive := low delivery member
  have positive' := low delivery' member'
  omega

theorem intact_iff (member : 1 ≤ participantId ∧ participantId ≤ secretShares)
    (few : processed.length ≤ secretShares - 1)
    (low : ∀ delivery ∈ processed, 1 ≤ delivery.senderId) :
    Intact participantId (processed.foldl (deliver participantId) (protocol, [])).2 ↔
      Proper participantId protocol processed := by
  have senders := @senders_foldl_deliver _ _ _ participantId (protocol, []) processed
  rw [map_nil, nil_append] at senders
  constructor
  · rintro ⟨perm, verified⟩
    rw [senders] at perm
    have single : ∀ delivery ∈ processed, delivery.shares.length = 1 := by
      have nodup := perm.nodup_iff.mpr (nodup_others participantId)
      apply length_shares_eq_one
      · have length := perm.length_eq
        rw [length_others member, length_flatMap] at length
        simp only [length_replicate] at length
        omega
      · intro delivery present
        exact nodup_replicate.mp ((nodup_flatMap.mp nodup).1 delivery present)
    rw [senders_eq_of_single single] at perm
    have nodup := perm.nodup_iff.mpr (nodup_others participantId)
    rw [receipts_eq_flatMap low nodup] at verified
    refine ⟨perm, ?_⟩
    intro delivery present
    rcases length_eq_one_iff.mp (single delivery present) with ⟨share, shares⟩
    have received : (⟨delivery.senderId, share, dkgVerifyShare
        (protocol.storeCommitments delivery.senderId delivery.commitments) participantId
          delivery.senderId share⟩ : Receipt) ∈
        processed.flatMap (Delivery.receipts participantId protocol) := by
      apply mem_flatMap.mpr
      refine ⟨delivery, present, ?_⟩
      rw [Delivery.receipts, shares]
      exact mem_singleton_self _
    exact ⟨share, shares, verified _ received⟩
  · rintro ⟨perm, shares⟩
    have nodup := perm.nodup_iff.mpr (nodup_others participantId)
    refine ⟨?_, ?_⟩
    · rw [senders, senders_eq_of_single]
      · exact perm
      · intro delivery present
        rcases shares delivery present with ⟨share, single, -⟩
        rw [single, length_singleton]
    · rw [receipts_eq_flatMap low nodup]
      intro receipt present
      rcases mem_flatMap.mp present with ⟨delivery, delivered, received⟩
      rcases shares delivery delivered with ⟨share, single, verified⟩
      simp only [Delivery.receipts, single, map_cons, map_nil, mem_singleton] at received
      rw [received]
      exact verified

theorem proper_startShare {computedShares : ℕ → ℕ} :
    Proper participantId (protocol.startShare participantId computedShares) processed ↔
      Proper participantId protocol processed := by
  have verify (delivery : Delivery G) (share : ℕ) :
      dkgVerifyShare ((protocol.startShare participantId computedShares).storeCommitments
          delivery.senderId delivery.commitments) participantId delivery.senderId share =
        dkgVerifyShare (protocol.storeCommitments delivery.senderId delivery.commitments)
          participantId delivery.senderId share :=
    ((SameDealing.modify_share ..).storeCommitments delivery.commitments).verify ..
  constructor
  · rintro ⟨senders, shares⟩
    exact ⟨senders, by simpa only [verify] using shares⟩
  · rintro ⟨senders, shares⟩
    exact ⟨senders, by simpa only [verify] using shares⟩

omit [CommGroup G] [DecidableEq G] in
theorem balanced_startShare {computedShares : ℕ → ℕ}
    (present : (protocol.startShare participantId computedShares).participants
      (participantId - 1) ≠ none) :
    Balanced participantId (computedShares participantId) protocol.order
      (protocol.startShare participantId computedShares, []) := by
  refine ⟨rfl, ?_⟩
  rw [startShare, participants_modify_self] at present
  rw [secretShare, startShare, participants_modify_self]
  cases added : protocol.participants (participantId - 1) with
  | none => simp [added] at present
  | some participant => simp

/-- After a run that returns, the share of the participant is the sum of its own and of all those in
the receipts. These are one verified share from each other participant exactly if the processed
messages are as they should be. -/
theorem shares_intact_iff (platform : Platform G) (protocol : Protocol G)
    (member : 1 ≤ participantId ∧ participantId ≤ secretShares) (computedShares : ℕ → ℕ)
    (polls : List Bytes) {protocol' : Protocol G} {receipts : List Receipt}
    (returned : dkgReceiveCommitmentsAndShares platform participantId polls
      (protocol.startShare participantId computedShares) = some (protocol', receipts)) :
    protocol'.secretShare participantId = some ((computedShares participantId +
        (receipts.map Receipt.share).sum) % protocol.order) ∧
      ∃ processed, deliveries platform participantId protocol.initialized polls 0 0 =
          some processed ∧
        (Intact participantId receipts ↔ Proper participantId protocol processed) := by
  rw [dkgReceiveCommitmentsAndShares] at returned
  split_ifs at returned with missing
  rw [receiveLoop_eq] at returned
  rcases Option.map_eq_some_iff.mp returned with ⟨processed, read, final⟩
  have balanced : Balanced participantId (computedShares participantId) protocol.order
      (protocol', receipts) := by
    rw [← final]
    apply List.foldlRecOn processed
    · exact balanced_startShare (by simpa using missing)
    · exact fun _ before delivery _ => before.deliver delivery
  have initialized : (protocol.startShare participantId computedShares).initialized =
      protocol.initialized := initialized_modify fun _ => rfl
  refine ⟨balanced.share, processed, ?_, ?_⟩
  · rw [← initialized]
    exact read
  · have log : receipts = (processed.foldl (deliver participantId)
        (protocol.startShare participantId computedShares, [])).2 := by
      rw [final]
    rcases deliveries_spec read with ⟨few, polled⟩
    have low : ∀ delivery ∈ processed, 1 ≤ delivery.senderId := by
      intro delivery present
      rcases polled delivery present with ⟨poll, -, readPoll⟩
      exact (sender_of_readPoll readPoll).1
    rw [log, intact_iff member few low, proper_startShare]

end Run

section Sample

open Bytes

def samplePlatform : Platform (Multiplicative (ZMod 2)) where
  malloc _ := true
  gpReadStr text := some (if text = ascii ['1'] then Multiplicative.ofAdd 1 else 1)

def sampleMessage (senderId : ℕ) (commitments : List Char) (share : UInt8) : Bytes :=
  let data := writeLe 4 senderId ++ writeLe 4 commitments.length ++ writeLe 4 1 ++
    commitments.flatMap (fun text => writeLe 8 1 ++ ascii [text]) ++ writeLe 4 1 ++ writeLe 4 1 ++
    [share]
  writeLe 4 9 ++ ascii "DKG_DATA".toList ++ [0] ++ writeLe 4 data.length ++ data

def sampleRun (polls : List Bytes) :
    Option (Protocol (Multiplicative (ZMod 2)) × List Receipt) :=
  dkgReceiveCommitmentsAndShares samplePlatform 1 polls (sampleProtocol.startShare 1 fun _ => 7)

end Sample

theorem shares_intact_honest :
    ∃ protocol' receipts,
      sampleRun [sampleMessage 2 ['1', '1'] 2, [], sampleMessage 3 ['1', '0'] 3] =
        some (protocol', receipts) ∧
      protocol'.secretShare 1 = some 12 ∧ Intact 1 receipts := by
  have log : (sampleRun [sampleMessage 2 ['1', '1'] 2, [], sampleMessage 3 ['1', '0'] 3]).map
      Prod.snd = some [⟨2, 2, true⟩, ⟨3, 3, true⟩] := by
    decide +kernel
  rcases Option.map_eq_some_iff.mp log with ⟨⟨protocol', receipts⟩, returned, rfl⟩
  have share := (shares_intact_iff samplePlatform sampleProtocol (by decide) _ _ returned).1
  refine ⟨protocol', _, returned, ?_, by decide, by simp⟩
  rw [share]
  decide +kernel

/-- A message without commitments comes twice: its share is added twice although it does not verify.
-/
theorem unverified_share_added_twice :
    (sampleRun [sampleMessage 2 [] 5, sampleMessage 2 [] 5]).map
        (fun result => (result.1.secretShare 1, result.2)) =
      some (some 17, [⟨2, 5, false⟩, ⟨2, 5, false⟩]) ∧
    ¬Intact 1 [⟨2, 5, false⟩, ⟨2, 5, false⟩] := by
  refine ⟨by decide +kernel, ?_⟩
  rintro ⟨-, verified⟩
  simp at verified

end TigerMixer.Dkg
