import TigerMixer.Escrow.Contract

/-!
# The escrow invariant

What holds of the contract whenever external code has control: the opened escrows are those recorded
in `Opened` events, each with a distinct commitment; an escrow that is not released still owes its
denomination; a released one has started or finished paying it out, once.
-/

namespace TigerMixer.Escrow

open Calls

namespace State

def openedIds (state : State) : List ℕ :=
  state.events.filterMap fun
    | .opened escrowId _ _ _ _ _ => some escrowId
    | _ => none

def deposited (state : State) : List ℕ :=
  state.events.filterMap fun
    | .deposit commitment _ _ => some commitment
    | _ => none

def outstanding (state : State) : ℕ :=
  state.openedIds.countP fun escrowId => !(state.escrows escrowId).released

def payouts (state : State) (escrowId : ℕ) : List Payment :=
  state.payments.filter fun payment => payment.escrowId = escrowId ∧ payment.amount ≠ 0

def excess (state : State) : ℤ :=
  state.balance - state.denomination * state.outstanding

end State

section Payouts

variable (denomination escrowId : ℕ) (record : EscrowRecord) (payouts : List Payment)

/-- The denomination, split into service fee and final amount for `party2`, or given back to
`party1` at or after the deadline. -/
def FullyPaid : Prop :=
  (∃ timestamp, payouts = [⟨escrowId, .finalAmount, record.party2, denomination, timestamp⟩]) ∨
  (∃ pool finalAmount timestamp, serviceFee denomination + finalAmount = denomination ∧
    payouts = [⟨escrowId, .serviceFee, pool, serviceFee denomination, timestamp⟩,
      ⟨escrowId, .finalAmount, record.party2, finalAmount, timestamp⟩]) ∨
  (∃ timestamp, record.deadline ≤ timestamp ∧
    payouts = [⟨escrowId, .refund, record.party1, denomination, timestamp⟩])

/-- The payouts of a released escrow: nothing yet, only the service fee, or everything. -/
def PayingOut : Prop :=
  payouts = [] ∨
  (∃ pool timestamp,
    payouts = [⟨escrowId, .serviceFee, pool, serviceFee denomination, timestamp⟩]) ∨
  FullyPaid denomination escrowId record payouts

structure RecordInv : Prop where
  unopened : record.party1 = 0 → record.amount = 0 ∧ record.dataHash = 0 ∧ payouts = []
  copy : record.party1 ≠ 0 → record.escrowIdCopy = escrowId
  owing : record.party1 ≠ 0 → record.released = false → record.amount = denomination ∧ payouts = []
  paying : record.party1 ≠ 0 → record.released = true →
    record.amount = 0 ∧ PayingOut denomination escrowId record payouts

end Payouts

structure Inv (state : State) : Prop where
  denomination_pos : 0 < state.denomination
  denomination_lt : state.denomination < wordSize
  mem_openedIds : ∀ escrowId, escrowId ∈ state.openedIds ↔ (state.escrows escrowId).party1 ≠ 0
  openedIds_nodup : state.openedIds.Nodup
  mem_deposited : ∀ commitment, commitment ∈ state.deposited ↔ state.commitments commitment = true
  deposited_nodup : state.deposited.Nodup
  nextIndex_eq : state.tree.nextIndex = state.openedIds.length
  deposited_length : state.deposited.length = state.openedIds.length
  record : ∀ escrowId,
    RecordInv state.denomination escrowId (state.escrows escrowId) (state.payouts escrowId)
  status_eq : state.status = 1

def SameTerms (record record' : EscrowRecord) : Prop :=
  record'.party1 = record.party1 ∧ record'.party2 = record.party2 ∧
    record'.deadline = record.deadline

/-- How calls that pay out no escrows other than the exempt ones change the state. -/
structure Evolution (exempt : ℕ → Prop) (state state' : State) : Prop where
  inv : Inv state'
  denomination : state'.denomination = state.denomination
  terms : ∀ escrowId, (state.escrows escrowId).party1 ≠ 0 →
    SameTerms (state.escrows escrowId) (state'.escrows escrowId)
  settled : ∀ escrowId, ¬exempt escrowId → (state.escrows escrowId).party1 ≠ 0 →
    (state.escrows escrowId).released = true →
      (state'.escrows escrowId).released = true ∧ state'.payouts escrowId = state.payouts escrowId
  newlySettled : ∀ escrowId, ¬exempt escrowId → (state'.escrows escrowId).party1 ≠ 0 →
    (state'.escrows escrowId).released = true →
      FullyPaid state'.denomination escrowId (state'.escrows escrowId) (state'.payouts escrowId) ∨
        ((state.escrows escrowId).party1 ≠ 0 ∧ (state.escrows escrowId).released = true)

theorem FullyPaid.of_sameTerms {denomination escrowId : ℕ} {record record' : EscrowRecord}
    {payouts : List Payment} (terms : SameTerms record record')
    (paid : FullyPaid denomination escrowId record payouts) :
    FullyPaid denomination escrowId record' payouts := by
  rcases terms with ⟨party1, party2, deadline⟩
  rwa [FullyPaid, party1, party2, deadline]

namespace Evolution

variable {exempt : ℕ → Prop} {first second third : State}

theorem of_unchanged (inv : Inv second) (denomination : second.denomination = first.denomination)
    (others : ∀ id, (first.escrows id).party1 ≠ 0 →
      second.escrows id = first.escrows id ∧ second.payouts id = first.payouts id)
    (fresh : ∀ id, (first.escrows id).party1 = 0 → (second.escrows id).party1 ≠ 0 →
      (second.escrows id).released = false) :
    Evolution exempt first second where
  inv := inv
  denomination := denomination
  terms := by
    intro id opened
    rw [(others id opened).1]
    exact ⟨rfl, rfl, rfl⟩
  settled := by
    intro id _ opened released
    rw [(others id opened).1, (others id opened).2]
    exact ⟨released, rfl⟩
  newlySettled := by
    intro id _ opened released
    by_cases before : (first.escrows id).party1 = 0
    · simp [fresh id before opened] at released
    · rw [(others id before).1] at released
      exact Or.inr ⟨before, released⟩

theorem refl (inv : Inv first) : Evolution exempt first first :=
  of_unchanged inv rfl (fun _ _ => ⟨rfl, rfl⟩) fun _ before opened => absurd before opened

theorem mono {weaker : ℕ → Prop} (implies : ∀ escrowId, exempt escrowId → weaker escrowId)
    (evolution : Evolution exempt first second) : Evolution weaker first second :=
  { evolution with
    settled := fun escrowId notExempt =>
      evolution.settled escrowId fun isExempt => notExempt (implies escrowId isExempt)
    newlySettled := fun escrowId notExempt =>
      evolution.newlySettled escrowId fun isExempt => notExempt (implies escrowId isExempt) }

theorem trans (before : Evolution exempt first second) (after : Evolution exempt second third) :
    Evolution exempt first third where
  inv := after.inv
  denomination := after.denomination.trans before.denomination
  terms escrowId opened := by
    rcases before.terms escrowId opened with ⟨party1, party2, deadline⟩
    rcases after.terms escrowId (by rwa [party1]) with ⟨party1', party2', deadline'⟩
    exact ⟨party1'.trans party1, party2'.trans party2, deadline'.trans deadline⟩
  settled escrowId notExempt opened released := by
    rcases before.settled escrowId notExempt opened released with ⟨released', payouts⟩
    have opened' : (second.escrows escrowId).party1 ≠ 0 := by
      rwa [(before.terms escrowId opened).1]
    rcases after.settled escrowId notExempt opened' released' with ⟨released'', payouts'⟩
    exact ⟨released'', payouts'.trans payouts⟩
  newlySettled escrowId notExempt opened released := by
    rcases after.newlySettled escrowId notExempt opened released with paid | ⟨opened', released'⟩
    · exact Or.inl paid
    · rcases before.newlySettled escrowId notExempt opened' released' with paid | earlier
      · left
        rw [after.denomination, (after.settled escrowId notExempt opened' released').2]
        exact paid.of_sameTerms (after.terms escrowId opened')
      · exact Or.inr earlier

end Evolution

/-- A complete call evolves the state without exemption and without lowering the excess; while it
waits, its own escrow may be paid out in part. -/
def discipline : Discipline State where
  rely state state' :=
    Inv state → Evolution (fun _ => False) state state' ∧ state.excess ≤ state'.excess
  visible state state' :=
    Inv state → Inv state' ∧ state'.denomination = state.denomination ∧ state.excess ≤ state'.excess
  rely_refl state := fun inv => ⟨.refl inv, le_rfl⟩
  rely_trans := by
    intro first second third before after inv
    rcases before inv with ⟨evolution, excess⟩
    rcases after evolution.inv with ⟨evolution', excess'⟩
    exact ⟨evolution.trans evolution', excess.trans excess'⟩
  visible_trans := by
    intro first second third before after inv
    rcases before inv with ⟨inv', denomination, excess⟩
    rcases after inv' with ⟨inv'', denomination', excess'⟩
    exact ⟨inv'', denomination'.trans denomination, excess.trans excess'⟩
  visible_of_rely := by
    intro first second rely inv
    rcases rely inv with ⟨evolution, excess⟩
    exact ⟨evolution.inv, evolution.denomination, excess⟩

end TigerMixer.Escrow
