import TigerMixer.Escrow.Invariant

/-!
# Conservation under re-entrancy

Every external function keeps the discipline of `TigerMixer.Escrow.discipline`. The delicate ones
are `confirm` and `refund`: they are not guarded, and they hand control to untrusted recipients
while their own escrow is partly paid out. `InFlight` is the assertion that holds at those points.
-/

namespace TigerMixer.Escrow

open Calls List

namespace State

variable (state : State) (escrowId : ℕ)

@[simp]
theorem openedIds_setEscrow (record : EscrowRecord) :
    (state.setEscrow escrowId record).openedIds = state.openedIds := rfl

@[simp]
theorem escrows_setEscrow_self (record : EscrowRecord) :
    (state.setEscrow escrowId record).escrows escrowId = record := by
  simp [setEscrow]

@[simp]
theorem escrows_setEscrow_of_ne {id : ℕ} (record : EscrowRecord) (different : escrowId ≠ id) :
    (state.setEscrow id record).escrows escrowId = state.escrows escrowId := by
  simp [setEscrow, different]

@[simp]
theorem openedIds_pay (payment : Payment) : (state.pay payment).openedIds = state.openedIds := rfl

@[simp]
theorem denomination_setEscrow (record : EscrowRecord) :
    (state.setEscrow escrowId record).denomination = state.denomination := rfl

@[simp]
theorem payouts_setEscrow (id : ℕ) (record : EscrowRecord) :
    (state.setEscrow id record).payouts escrowId = state.payouts escrowId := rfl

@[simp]
theorem payouts_emit (event : Event) : (state.emit event).payouts escrowId =
    state.payouts escrowId := rfl

theorem payouts_pay (payment : Payment) :
    (state.pay payment).payouts escrowId = state.payouts escrowId ++
      if payment.escrowId = escrowId ∧ payment.amount ≠ 0 then [payment] else [] := by
  by_cases counted : payment.escrowId = escrowId ∧ payment.amount ≠ 0
  · simp [payouts, pay, filter_append, counted]
  · rw [if_neg counted, append_nil, payouts, pay, filter_append]
    simp only [filter_cons, filter_nil]
    rw [if_neg (by simpa using counted), append_nil, payouts]

end State

theorem countP_eq_succ {entries : List ℕ} {entry : ℕ} {before after : ℕ → Bool}
    (nodup : entries.Nodup) (member : entry ∈ entries) (on : before entry = true)
    (off : after entry = false) (others : ∀ other, other ≠ entry → before other = after other) :
    entries.countP before = entries.countP after + 1 := by
  induction entries with
  | nil => simp at member
  | cons head tail ih =>
    rw [nodup_cons] at nodup
    rw [countP_cons, countP_cons]
    by_cases same : head = entry
    · subst same
      have rest : tail.countP before = tail.countP after := by
        apply countP_congr
        intro other otherMember
        rw [others other fun equal => nodup.1 (equal ▸ otherMember)]
      simp [on, off, rest]
    · have tailMember : entry ∈ tail := by
        rcases mem_cons.mp member with equal | tailMember
        · exact absurd equal.symm same
        · exact tailMember
      rw [ih nodup.2 tailMember, others head same]
      omega

def Event.Neutral : Event → Prop
  | .opened _ _ _ _ _ _ => False
  | .deposit _ _ _ => False
  | _ => True

section Emit

variable {state : State} {event : Event}

theorem openedIds_emit (neutral : event.Neutral) :
    (state.emit event).openedIds = state.openedIds := by
  cases event <;> first | exact neutral.elim | simp [State.openedIds, State.emit]

theorem deposited_emit (neutral : event.Neutral) :
    (state.emit event).deposited = state.deposited := by
  cases event <;> first | exact neutral.elim | simp [State.deposited, State.emit]

theorem excess_emit (neutral : event.Neutral) : (state.emit event).excess = state.excess := by
  simp only [State.excess, State.outstanding, openedIds_emit neutral]
  rfl

theorem inv_emit (neutral : event.Neutral) (inv : Inv state) : Inv (state.emit event) := by
  have opened := @openedIds_emit state event neutral
  have deposited := @deposited_emit state event neutral
  exact
    { inv with
      mem_openedIds := opened ▸ inv.mem_openedIds
      openedIds_nodup := opened ▸ inv.openedIds_nodup
      mem_deposited := deposited ▸ inv.mem_deposited
      deposited_nodup := deposited ▸ inv.deposited_nodup
      nextIndex_eq := opened ▸ inv.nextIndex_eq
      deposited_length := by simpa only [opened, deposited] using inv.deposited_length }

end Emit

section Update

variable {state : State} {escrowId : ℕ}

variable {record : EscrowRecord} {payment : Payment}

theorem inv_setEscrow (inv : Inv state) (party1 : record.party1 = (state.escrows escrowId).party1)
    (recordInv : RecordInv state.denomination escrowId record (state.payouts escrowId)) :
    Inv (state.setEscrow escrowId record) :=
  { inv with
    mem_openedIds := by
      intro id
      rw [State.openedIds_setEscrow, inv.mem_openedIds]
      by_cases same : id = escrowId
      · subst same
        simp [party1]
      · simp [same]
    record := by
      intro id
      by_cases same : id = escrowId
      · subst same
        rwa [State.escrows_setEscrow_self, State.payouts_setEscrow]
      · rw [State.escrows_setEscrow_of_ne _ _ _ same, State.payouts_setEscrow]
        exact inv.record id }

theorem evolution_setEscrow (inv : Inv (state.setEscrow escrowId record))
    (terms : SameTerms (state.escrows escrowId) record) :
    Evolution (· = escrowId) state (state.setEscrow escrowId record) where
  inv := inv
  denomination := rfl
  terms := by
    intro id _
    by_cases same : id = escrowId
    · subst same
      rwa [State.escrows_setEscrow_self]
    · simp [same, SameTerms]
  settled := by
    intro id different _ released
    rw [State.escrows_setEscrow_of_ne _ _ _ different]
    exact ⟨released, rfl⟩
  newlySettled := by
    intro id different opened released
    rw [State.escrows_setEscrow_of_ne _ _ _ different] at opened released
    exact Or.inr ⟨opened, released⟩

theorem inv_pay (inv : Inv state) (opened : (state.escrows payment.escrowId).party1 ≠ 0)
    (released : (state.escrows payment.escrowId).released = true)
    (paying : PayingOut state.denomination payment.escrowId (state.escrows payment.escrowId)
      ((state.pay payment).payouts payment.escrowId)) :
    Inv (state.pay payment) :=
  { inv with
    record := by
      intro id
      by_cases same : payment.escrowId = id
      · subst same
        have before := inv.record payment.escrowId
        exact
          { unopened := fun unopened => absurd unopened opened
            copy := before.copy
            owing := by
              intro _ unreleased
              exact absurd (released.symm.trans unreleased) (by simp)
            paying := fun _ _ => ⟨(before.paying opened released).1, paying⟩ }
      · rw [State.payouts_pay, if_neg (fun counted => same counted.1), append_nil]
        exact inv.record id }

theorem evolution_pay (inv : Inv (state.pay payment)) :
    Evolution (· = payment.escrowId) state (state.pay payment) where
  inv := inv
  denomination := rfl
  terms := fun _ _ => ⟨rfl, rfl, rfl⟩
  settled := by
    intro id different _ released
    refine ⟨released, ?_⟩
    rw [State.payouts_pay, if_neg (fun counted => different counted.1.symm), append_nil]
  newlySettled := fun _ _ opened released => Or.inr ⟨opened, released⟩

theorem excess_pay (covered : payment.amount ≤ state.balance) :
    (state.pay payment).excess + payment.amount = state.excess := by
  simp only [State.excess, State.outstanding, State.openedIds_pay]
  simp only [State.pay]
  omega

theorem excess_release (inv : Inv state) (opened : (state.escrows escrowId).party1 ≠ 0)
    (unreleased : (state.escrows escrowId).released = false) (released : record.released = true) :
    (state.setEscrow escrowId record).excess = state.excess + state.denomination := by
  have count : state.outstanding = (state.setEscrow escrowId record).outstanding + 1 := by
    apply countP_eq_succ inv.openedIds_nodup ((inv.mem_openedIds escrowId).mpr opened)
    · simp [unreleased]
    · simp [released]
    · intro other different
      simp [different]
  simp only [State.excess, count, Nat.cast_add, Nat.cast_one, mul_add, mul_one]
  simp only [State.setEscrow]
  omega

end Update

/-- The assertion while the escrow `escrowId` of `start` is being paid out. -/
structure InFlight (start : State) (escrowId : ℕ) (paid : List Payment) (reserve : ℕ)
    (state : State) : Prop where
  evolution : Evolution (· = escrowId) start state
  released : (state.escrows escrowId).released = true
  payouts : state.payouts escrowId = paid
  excess : start.excess + reserve ≤ state.excess

namespace InFlight

variable {start state state' : State} {escrowId reserve : ℕ} {paid : List Payment}

section Paying

variable (inFlight : InFlight start escrowId paid reserve state)

include inFlight

theorem visible :
    discipline.visible start state := by
  intro _
  refine ⟨inFlight.evolution.inv, inFlight.evolution.denomination, ?_⟩
  have excess := inFlight.excess
  omega

theorem rely
    (opened : (start.escrows escrowId).party1 ≠ 0) (external : discipline.rely state state') :
    InFlight start escrowId paid reserve state' := by
  rcases external inFlight.evolution.inv with ⟨evolution, excess⟩
  have opened' : (state.escrows escrowId).party1 ≠ 0 := by
    rwa [(inFlight.evolution.terms escrowId opened).1]
  rcases evolution.settled escrowId id opened' inFlight.released with ⟨released, payouts⟩
  exact
    { evolution := inFlight.evolution.trans (evolution.mono fun _ impossible => impossible.elim)
      released
      payouts := payouts.trans inFlight.payouts
      excess := inFlight.excess.trans excess }

theorem emit (event : Event) (neutral : event.Neutral) :
    InFlight start escrowId paid reserve (state.emit event) where
  evolution := { inFlight.evolution with inv := inv_emit neutral inFlight.evolution.inv }
  released := inFlight.released
  payouts := inFlight.payouts
  excess := by
    rw [excess_emit neutral]
    exact inFlight.excess

theorem finish (unreleased : (start.escrows escrowId).released = false)
    (complete : FullyPaid state.denomination escrowId (state.escrows escrowId) paid) :
    discipline.rely start state := by
  intro _
  have excess := inFlight.excess
  refine ⟨?_, by omega⟩
  exact
    { inFlight.evolution with
      settled := by
        intro id _ opened released
        apply inFlight.evolution.settled id _ opened released
        rintro rfl
        simp [unreleased] at released
      newlySettled := by
        intro id _ opened released
        by_cases same : id = escrowId
        · subst same
          left
          rw [inFlight.payouts]
          exact complete
        · exact inFlight.evolution.newlySettled id same opened released }

end Paying

theorem mark (inv : Inv start) (opened : (start.escrows escrowId).party1 ≠ 0)
    (unreleased : (start.escrows escrowId).released = false) :
    InFlight start escrowId [] start.denomination
      (start.setEscrow escrowId (start.escrows escrowId).markReleased) := by
  have before := inv.record escrowId
  rcases before.owing opened unreleased with ⟨-, noPayouts⟩
  have inv' : Inv (start.setEscrow escrowId (start.escrows escrowId).markReleased) := by
    refine inv_setEscrow inv rfl ?_
    exact
      { unopened := fun unopened => absurd unopened opened
        copy := before.copy
        owing := by simp [EscrowRecord.markReleased]
        paying := fun _ _ => ⟨rfl, Or.inl noPayouts⟩ }
  exact
    { evolution := evolution_setEscrow inv' ⟨rfl, rfl, rfl⟩
      released := by simp [EscrowRecord.markReleased]
      payouts := noPayouts
      excess := (excess_release inv opened unreleased rfl).ge }

theorem pay {payment : Payment} (inFlight : InFlight start payment.escrowId paid reserve state)
    (opened : (start.escrows payment.escrowId).party1 ≠ 0)
    (covered : payment.amount ≤ state.balance) (reserved : payment.amount ≤ reserve)
    (paying : PayingOut state.denomination payment.escrowId (state.escrows payment.escrowId)
      (paid ++ if payment.amount ≠ 0 then [payment] else [])) :
    InFlight start payment.escrowId (paid ++ if payment.amount ≠ 0 then [payment] else [])
      (reserve - payment.amount) (state.pay payment) := by
  have opened' : (state.escrows payment.escrowId).party1 ≠ 0 := by
    rwa [(inFlight.evolution.terms _ opened).1]
  have payouts : (state.pay payment).payouts payment.escrowId =
      paid ++ if payment.amount ≠ 0 then [payment] else [] := by
    rw [State.payouts_pay, inFlight.payouts]
    simp
  have inv' : Inv (state.pay payment) := by
    apply inv_pay inFlight.evolution.inv opened' inFlight.released
    rwa [payouts]
  exact
    { evolution := inFlight.evolution.trans (evolution_pay inv')
      released := inFlight.released
      payouts
      excess := by
        have before := inFlight.excess
        have after := excess_pay covered
        omega }

end InFlight

theorem serviceFee_lt {amount : ℕ} (positive : 0 < amount) : serviceFee amount < amount := by
  have product := Word.mul_le amount 200000000000000000
  rw [serviceFee, Nat.div_lt_iff_lt_mul (by norm_num)]
  omega

section Functions

variable {start : State}

theorem keeps_of_not_inv (broken : ¬Inv start) (program : Prog State) :
    discipline.Keeps start program := by
  induction program with
  | revert => exact trivial
  | done state => exact fun inv => absurd inv broken
  | invoke state resume ih =>
    exact ⟨fun inv => absurd inv broken, ih none, fun state' _ => ih (some state')⟩

variable {state : State} {next : State → Prog State} {paid : List Payment} {reserve : ℕ}
  {escrowId : ℕ} {msg : Msg}

theorem keeps_sendValue {payment : Payment} (opened : (start.escrows payment.escrowId).party1 ≠ 0)
    (paidOut : payment.amount ≤ state.balance →
      InFlight start payment.escrowId paid reserve (state.pay payment))
    (resume : ∀ state', InFlight start payment.escrowId paid reserve state' →
      discipline.Keeps start (next state')) :
    discipline.Keeps start (sendValue state payment next) := by
  simp only [sendValue, Discipline.keeps_require_iff]
  rintro ⟨covered, -⟩
  have inFlight := paidOut covered
  split_ifs
  · exact resume _ inFlight
  · exact ⟨inFlight.visible, trivial, fun state' external =>
      resume state' (inFlight.rely opened external)⟩

theorem keeps_recordTransaction (opened : (start.escrows escrowId).party1 ≠ 0)
    (inFlight : InFlight start escrowId paid reserve state)
    (resume : ∀ state', InFlight start escrowId paid reserve state' →
      discipline.Keeps start (next state')) :
    discipline.Keeps start (recordTransaction state next) := by
  simp only [recordTransaction, Discipline.keeps_require_iff]
  intro _
  exact ⟨inFlight.visible, trivial, fun state' external =>
    resume state' (inFlight.rely opened external)⟩

theorem keeps_payFinal {timestamp escrowId finalAmount : ℕ} {recipient sender : Address}
    (opened : (start.escrows escrowId).party1 ≠ 0)
    (unreleased : (start.escrows escrowId).released = false)
    (inFlight : InFlight start escrowId paid finalAmount state) (positive : finalAmount ≠ 0)
    (complete : FullyPaid start.denomination escrowId (start.escrows escrowId)
      (paid ++ [⟨escrowId, .finalAmount, recipient, finalAmount, timestamp⟩])) :
    discipline.Keeps start
      (sendValue state ⟨escrowId, .finalAmount, recipient, finalAmount, timestamp⟩ fun state =>
        .done ((state.emit (.released escrowId recipient finalAmount)).emit
          (.confirmed escrowId sender))) := by
  have denomination := inFlight.evolution.denomination
  have terms := inFlight.evolution.terms escrowId opened
  apply keeps_sendValue opened
  · intro covered
    apply inFlight.pay opened covered le_rfl
    right
    right
    rw [denomination]
    simpa only [ne_eq, positive, not_false_eq_true, if_true] using complete.of_sameTerms terms
  · intro state' inFlight'
    have emitted := (inFlight'.emit (.released escrowId recipient finalAmount) trivial).emit
      (.confirmed escrowId sender) trivial
    apply emitted.finish unreleased
    have complete' := complete.of_sameTerms (emitted.evolution.terms escrowId opened)
    rw [emitted.evolution.denomination]
    simpa only [ne_eq, positive, not_false_eq_true, if_true] using complete'

theorem keeps_confirm (primitives : Primitives) (msg : Msg) (args : ConfirmArgs) (inv : Inv start) :
    discipline.Keeps start (confirm primitives msg args start) := by
  simp only [confirm, Discipline.keeps_require_iff]
  intro _ _ notReleased dataHash _ _
  have before := inv.record args.escrowId
  have opened : (start.escrows args.escrowId).party1 ≠ 0 := by
    intro unopened
    exact dataHash (before.unopened unopened).2.1
  have unreleased : (start.escrows args.escrowId).released = false := by
    simpa using notReleased
  rw [(before.owing opened unreleased).1]
  have marked := InFlight.mark inv opened unreleased
  rw [processPayment]
  split_ifs with noPool
  · exact keeps_payFinal opened unreleased marked inv.denomination_pos.ne'
      (Or.inl ⟨msg.timestamp, rfl⟩)
  · have feeLt := serviceFee_lt inv.denomination_pos
    simp only [Word.sub_of_le inv.denomination_lt feeLt.le]
    apply keeps_sendValue opened
    · intro covered
      apply marked.pay opened covered feeLt.le
      by_cases noFee : serviceFee start.denomination = 0
      · left
        simp [noFee]
      · right
        left
        exact ⟨start.rewardPool, msg.timestamp, by simp [noFee, State.setEscrow]⟩
    · intro afterFee inFlight
      apply keeps_recordTransaction opened inFlight
      intro recorded inFlight'
      have finalPositive : start.denomination - serviceFee start.denomination ≠ 0 := by omega
      have emitted := inFlight'.emit (.serviceFeeCollected args.escrowId
        (serviceFee start.denomination) (start.denomination - serviceFee start.denomination))
        trivial
      apply keeps_payFinal opened unreleased emitted finalPositive
      by_cases noFee : serviceFee start.denomination = 0
      · left
        exact ⟨msg.timestamp, by simp [noFee]⟩
      · right
        left
        exact ⟨start.rewardPool, start.denomination - serviceFee start.denomination,
          msg.timestamp, by omega, by simp [noFee, State.setEscrow]⟩

theorem keeps_refund_opened (inv : Inv start) (opened : (start.escrows escrowId).party1 ≠ 0) :
    discipline.Keeps start (refund msg escrowId start) := by
  simp only [refund, Discipline.keeps_require_iff]
  intro _ expired notReleased
  have before := inv.record escrowId
  have unreleased : (start.escrows escrowId).released = false := by
    simpa using notReleased
  have positive := inv.denomination_pos.ne'
  have marked := InFlight.mark inv opened unreleased
  have complete : FullyPaid start.denomination escrowId (start.escrows escrowId)
      [⟨escrowId, .refund, (start.escrows escrowId).party1, start.denomination, msg.timestamp⟩] :=
    Or.inr (Or.inr ⟨msg.timestamp, expired, rfl⟩)
  rw [(before.owing opened unreleased).1]
  apply keeps_sendValue opened
  · intro covered
    apply marked.pay opened covered le_rfl
    right
    right
    simpa [positive] using complete.of_sameTerms (marked.evolution.terms escrowId opened)
  · intro state' inFlight
    have emitted := inFlight.emit
      (.refunded escrowId (start.escrows escrowId).party1 start.denomination) trivial
    apply emitted.finish unreleased
    rw [emitted.evolution.denomination]
    simpa [positive] using complete.of_sameTerms (emitted.evolution.terms escrowId opened)

/-- After the refund of an id that was never opened, its flag is set and a payment of nothing is
recorded. -/
def refundedUnopened (state : State) (escrowId timestamp : ℕ) : State :=
  (((state.setEscrow escrowId (state.escrows escrowId).markReleased).pay
    ⟨escrowId, .refund, 0, 0, timestamp⟩).emit (.refunded escrowId 0 0))

theorem payouts_refundedUnopened (state : State) (escrowId timestamp id : ℕ) :
    (refundedUnopened state escrowId timestamp).payouts id = state.payouts id := by
  rw [refundedUnopened, State.payouts_emit, State.payouts_pay, State.payouts_setEscrow]
  simp

theorem party1_refundedUnopened (state : State) (escrowId timestamp id : ℕ) :
    ((refundedUnopened state escrowId timestamp).escrows id).party1 =
      (state.escrows id).party1 := by
  by_cases same : id = escrowId
  · subst same
    have marked : (refundedUnopened state id timestamp).escrows id =
        (state.escrows id).markReleased := State.escrows_setEscrow_self state id _
    rw [marked, EscrowRecord.markReleased]
  · exact congrArg EscrowRecord.party1 (State.escrows_setEscrow_of_ne state id _ same)

theorem inv_refundedUnopened (inv : Inv start) (unopened : (start.escrows escrowId).party1 = 0)
    (timestamp : ℕ) :
    Inv (refundedUnopened start escrowId timestamp) := by
  rcases (inv.record escrowId).unopened unopened with ⟨-, noDataHash, noPayouts⟩
  have marked : Inv (start.setEscrow escrowId (start.escrows escrowId).markReleased) := by
    refine inv_setEscrow inv rfl ?_
    exact
      { unopened := fun _ => ⟨rfl, noDataHash, noPayouts⟩
        copy := fun opened => absurd unopened opened
        owing := fun opened => absurd unopened opened
        paying := fun opened => absurd unopened opened }
  refine inv_emit (show Event.Neutral (.refunded escrowId 0 0) from trivial) ?_
  exact
    { marked with
      record := by
        intro id
        have unchanged := payouts_refundedUnopened start escrowId timestamp id
        rw [refundedUnopened, State.payouts_emit] at unchanged
        rw [unchanged]
        exact marked.record id }

theorem rely_refundedUnopened (unopened : (start.escrows escrowId).party1 = 0) (timestamp : ℕ) :
    discipline.rely start (refundedUnopened start escrowId timestamp) := by
  intro inv
  have others (id : ℕ) (opened : (start.escrows id).party1 ≠ 0) :
      (refundedUnopened start escrowId timestamp).escrows id = start.escrows id := by
    apply State.escrows_setEscrow_of_ne
    rintro rfl
    exact opened unopened
  refine ⟨?_, ?_⟩
  · refine .of_unchanged (inv_refundedUnopened inv unopened timestamp) rfl ?_ ?_
    · exact fun id opened => ⟨others id opened, payouts_refundedUnopened ..⟩
    · intro id before opened
      rw [party1_refundedUnopened] at opened
      exact absurd before opened
  · have sameCount : (refundedUnopened start escrowId timestamp).outstanding =
        start.outstanding := by
      have sameIds : (refundedUnopened start escrowId timestamp).openedIds = start.openedIds :=
        openedIds_emit trivial
      rw [State.outstanding, sameIds]
      apply countP_congr
      intro id member
      rw [others id ((inv.mem_openedIds id).mp member)]
    simp only [State.excess, sameCount]
    exact le_rfl

theorem refund_unopened_eq (inv : Inv start) (unopened : (start.escrows escrowId).party1 = 0) :
    refund msg escrowId start =
      Prog.require (msg.value = 0) (Prog.require ((start.escrows escrowId).deadline ≤ msg.timestamp)
        (Prog.require (¬(start.escrows escrowId).released)
          (Prog.require (0 ≠ start.self)
            (.done (refundedUnopened start escrowId msg.timestamp))))) := by
  have noAmount := ((inv.record escrowId).unopened unopened).1
  simp only [refund, sendValue, unopened, noAmount, Nat.zero_le, true_and, if_true]
  rfl

theorem keeps_refund (msg : Msg) (escrowId : ℕ) (inv : Inv start) :
    discipline.Keeps start (refund msg escrowId start) := by
  by_cases unopened : (start.escrows escrowId).party1 = 0
  · rw [refund_unopened_eq inv unopened]
    simp only [Discipline.keeps_require_iff]
    intro _ _ _ _
    exact rely_refundedUnopened unopened msg.timestamp
  · exact keeps_refund_opened inv unopened

section Opening

variable {msg : Msg} {args : OpenArgs} {tree : MerkleTree} {insertedIndex : ℕ}

theorem openedIds_opened : (start.opened msg args tree insertedIndex).openedIds =
    start.openedIds ++ [args.escrowId] := by
  simp [State.openedIds, State.opened]

theorem deposited_opened : (start.opened msg args tree insertedIndex).deposited =
    start.deposited ++ [args.commitment] := by
  simp [State.deposited, State.opened]

theorem escrows_opened_self : (start.opened msg args tree insertedIndex).escrows args.escrowId =
    args.record msg.value := by
  simp [State.opened]

theorem escrows_opened_of_ne {id : ℕ} (different : id ≠ args.escrowId) :
    (start.opened msg args tree insertedIndex).escrows id = start.escrows id := by
  simp [State.opened, different]

theorem inv_opened (inv : Inv start) (fresh : start.commitments args.commitment = false)
    (unopened : (start.escrows args.escrowId).party1 = 0) (value : msg.value = start.denomination)
    (party1 : args.party1 ≠ 0) (grown : tree.nextIndex = start.tree.nextIndex + 1) :
    Inv (start.opened msg args tree insertedIndex) where
  denomination_pos := inv.denomination_pos
  denomination_lt := inv.denomination_lt
  mem_openedIds := by
    intro id
    rw [openedIds_opened, mem_append, mem_singleton, inv.mem_openedIds]
    by_cases same : id = args.escrowId
    · subst same
      simp [escrows_opened_self, OpenArgs.record, party1]
    · simp [escrows_opened_of_ne same, same]
  openedIds_nodup := by
    rw [openedIds_opened, ← concat_eq_append]
    apply inv.openedIds_nodup.concat
    intro member
    exact (inv.mem_openedIds _).mp member unopened
  mem_deposited := by
    intro commitment
    rw [deposited_opened, mem_append, mem_singleton, inv.mem_deposited]
    by_cases same : commitment = args.commitment
    · simp [State.opened, same]
    · simp [State.opened, same]
  deposited_nodup := by
    rw [deposited_opened, ← concat_eq_append]
    apply inv.deposited_nodup.concat
    intro member
    simp [(inv.mem_deposited _).mp member] at fresh
  nextIndex_eq := by
    rw [openedIds_opened, length_append, length_singleton, ← inv.nextIndex_eq]
    exact grown
  deposited_length := by
    rw [openedIds_opened, deposited_opened, length_append, length_append, inv.deposited_length]
    rfl
  record := by
    intro id
    have samePayouts : (start.opened msg args tree insertedIndex).payouts id =
        start.payouts id := rfl
    rw [samePayouts]
    by_cases same : id = args.escrowId
    · subst same
      rw [escrows_opened_self]
      exact
        { unopened := fun impossible => absurd impossible party1
          copy := fun _ => rfl
          owing := fun _ _ => ⟨value, ((inv.record _).unopened unopened).2.2⟩
          paying := by simp [OpenArgs.record] }
    · rw [escrows_opened_of_ne same]
      exact inv.record id
  status_eq := rfl

theorem rely_opened (fresh : start.commitments args.commitment = false)
    (unopened : (start.escrows args.escrowId).party1 = 0) (value : msg.value = start.denomination)
    (party1 : args.party1 ≠ 0) (grown : tree.nextIndex = start.tree.nextIndex + 1) :
    discipline.rely start (start.opened msg args tree insertedIndex) := by
  intro inv
  have others (id : ℕ) (opened : (start.escrows id).party1 ≠ 0) :
      (start.opened msg args tree insertedIndex).escrows id = start.escrows id := by
    apply escrows_opened_of_ne
    rintro rfl
    exact opened unopened
  refine ⟨?_, ?_⟩
  · refine .of_unchanged (inv_opened inv fresh unopened value party1 grown) rfl ?_ ?_
    · exact fun id opened => ⟨others id opened, rfl⟩
    · intro id before opened
      by_cases same : id = args.escrowId
      · subst same
        rw [escrows_opened_self]
        rfl
      · rw [escrows_opened_of_ne same] at opened
        exact absurd before opened
  · have count : (start.opened msg args tree insertedIndex).outstanding =
        start.outstanding + 1 := by
      rw [State.outstanding, openedIds_opened, countP_append, State.outstanding]
      congr 1
      · apply countP_congr
        intro id member
        rw [others id ((inv.mem_openedIds id).mp member)]
      · rw [countP_singleton, escrows_opened_self]
        rfl
    simp only [State.excess, count]
    simp only [State.opened, value]
    push_cast
    ring_nf
    exact le_rfl

end Opening

theorem keeps_openEscrow (primitives : Primitives) (msg : Msg) (args : OpenArgs) :
    discipline.Keeps start (openEscrow primitives msg args start) := by
  simp only [openEscrow, Discipline.keeps_require_iff]
  intro _ fresh
  cases inserted : start.tree.insert primitives.hasher args.commitment with
  | none => exact trivial
  | some result =>
    rcases result with ⟨tree, insertedIndex⟩
    simp only [Discipline.keeps_require_iff]
    intro unopened value parties _
    exact rely_opened (by simpa using fresh) unopened value parties.1
      (MerkleTree.insert_eq_some inserted).2.1

theorem keeps_setDataHash (msg : Msg) (escrowId newDataHash : ℕ) (inv : Inv start) :
    discipline.Keeps start (setDataHash msg escrowId newDataHash start) := by
  simp only [setDataHash, Discipline.keeps_require_iff]
  intro _ _ opened notReleased _ _
  have unreleased : (start.escrows escrowId).released = false := by
    simpa using notReleased
  have before := inv.record escrowId
  have inv' : Inv (start.setEscrow escrowId
      { start.escrows escrowId with dataHash := newDataHash }) := by
    refine inv_setEscrow inv rfl ?_
    exact { before with unopened := fun unopened => absurd unopened opened }
  have evolution := evolution_setEscrow inv' ⟨rfl, rfl, rfl⟩
  refine ⟨?_, ?_⟩
  · exact
      { inv := inv'
        denomination := rfl
        terms := evolution.terms
        settled := by
          intro id _ opened' released
          apply evolution.settled id _ opened' released
          rintro rfl
          simp [unreleased] at released
        newlySettled := by
          intro id _ opened' released
          apply evolution.newlySettled id _ opened' released
          rintro rfl
          rw [State.escrows_setEscrow_self] at released
          simp [unreleased] at released }
  · have sameCount : (start.setEscrow escrowId
        { start.escrows escrowId with dataHash := newDataHash }).outstanding =
          start.outstanding := by
      rw [State.outstanding, State.openedIds_setEscrow]
      apply countP_congr
      intro id _
      by_cases same : id = escrowId
      · subst same
        rw [State.escrows_setEscrow_self]
      · rw [State.escrows_setEscrow_of_ne _ _ _ same]
    simp only [State.excess, sameCount]
    exact le_rfl

theorem keeps_setRewardPool (msg : Msg) (pool : Address) :
    discipline.Keeps start (setRewardPool msg pool start) := by
  simp only [setRewardPool, Discipline.keeps_require_iff]
  intro _ _ inv
  exact ⟨.of_unchanged { inv with } rfl (fun _ _ => ⟨rfl, rfl⟩)
    fun _ before opened => absurd before opened, le_rfl⟩

theorem keeps_execute (primitives : Primitives) (call : Call) (state : State) :
    discipline.Keeps state (execute primitives call state) := by
  by_cases inv : Inv state
  · unfold execute
    cases call.request with
    | setRewardPool pool => exact keeps_setRewardPool call.msg pool
    | openEscrow args => exact keeps_openEscrow primitives call.msg args
    | confirm args => exact keeps_confirm primitives call.msg args inv
    | refund escrowId => exact keeps_refund call.msg escrowId inv
    | setDataHash escrowId newDataHash =>
      exact keeps_setDataHash call.msg escrowId newDataHash inv
  · exact keeps_of_not_inv inv _

end Functions

end TigerMixer.Escrow
