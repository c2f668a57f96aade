import TigerMixer.Calls.Unwinding
import TigerMixer.Escrow.Authorisation

/-!
# Isolation of the escrows

Whether a confirmation goes through, and what it pays, depends on the record of its escrow, on the
reward pool, and on the recipients, who are taken not to call back here. Only the parties can change
the record, apart from the refund after the deadline; but anyone may set the reward pool.
-/

namespace TigerMixer.Escrow

open Calls

/-- Which accounts accept ether, and on which of them `recordTransaction` returns. -/
structure Recipients where
  accepts : Address → Bool
  records : Address → Bool

def Recipients.answers (recipients : Recipients) (request : Request) (state : State) : List Bool :=
  match request with
  | .confirm args =>
    let party2 := (state.escrows args.escrowId).party2
    if state.rewardPool = 0 then [recipients.accepts party2]
    else [recipients.accepts state.rewardPool, recipients.records state.rewardPool,
      recipients.accepts party2]
  | .refund escrowId => [recipients.accepts (state.escrows escrowId).party1]
  | _ => []

namespace State

variable (primitives : Primitives) (recipients : Recipients) (state : State)

def step (call : Call) : Option State :=
  ((execute primitives call state).interp
    ((recipients.answers call.request state).map .returning : Callbacks)).final

def next (call : Call) : State :=
  (state.step primitives recipients call).getD state

def play (calls : List Call) : State :=
  calls.foldl (State.next primitives recipients) state

def released (timestamp escrowId amount : ℕ) (party2 : Address) : State :=
  if state.rewardPool = 0 then
    (state.pay ⟨escrowId, .finalAmount, party2, amount, timestamp⟩).emit
      (.released escrowId party2 amount)
  else
    let fee := serviceFee amount
    let finalAmount := Word.sub amount fee
    ((state.pay ⟨escrowId, .serviceFee, state.rewardPool, fee, timestamp⟩).emit
      (.serviceFeeCollected escrowId fee finalAmount)).pay
        ⟨escrowId, .finalAmount, party2, finalAmount, timestamp⟩ |>.emit
          (.released escrowId party2 finalAmount)

def confirmed (msg : Msg) (args : ConfirmArgs) : State :=
  let record := state.escrows args.escrowId
  ((state.setEscrow args.escrowId record.markReleased).released msg.timestamp args.escrowId
    record.amount record.party2).emit (.confirmed args.escrowId msg.sender)

def refunded (msg : Msg) (escrowId : ℕ) : State :=
  let record := state.escrows escrowId
  ((state.setEscrow escrowId record.markReleased).pay
    ⟨escrowId, .refund, record.party1, record.amount, msg.timestamp⟩).emit
      (.refunded escrowId record.party1 record.amount)

end State

structure View where
  record : EscrowRecord
  rewardPool : Address
  self : Address

def State.view (state : State) (escrowId : ℕ) : View :=
  { record := state.escrows escrowId, rewardPool := state.rewardPool, self := state.self }

namespace View

/-- A confirmation goes through: the call is valid, and the recipients of its payments take them.
The contract itself does not. -/
structure Confirms (primitives : Primitives) (recipients : Recipients) (msg : Msg)
    (args : ConfirmArgs) (view : View) : Prop where
  noValue : msg.value = 0
  party : msg.sender = view.record.party1 ∨ msg.sender = view.record.party2
  unreleased : view.record.released = false
  dataHash : view.record.dataHash ≠ 0
  signature1 : verifyAliceSignature primitives
    (signedMessage view.record.escrowIdCopy view.record.dataHash) args.signature1
      args.party1Address = some true
  signature2 : verifyAliceSignature primitives
    (signedMessage view.record.escrowIdCopy view.record.dataHash) args.signature2
      args.party2Address = some true
  recipient : view.record.party2 ≠ view.self
  accepted : view.record.party2 = 0 ∨ recipients.accepts view.record.party2
  pool : view.rewardPool = 0 ∨ view.rewardPool ≠ view.self ∧
    recipients.accepts view.rewardPool ∧ recipients.records view.rewardPool

structure Refunds (recipients : Recipients) (msg : Msg) (view : View) : Prop where
  noValue : msg.value = 0
  expired : view.record.deadline ≤ msg.timestamp
  unreleased : view.record.released = false
  recipient : view.record.party1 ≠ view.self
  accepted : view.record.party1 = 0 ∨ recipients.accepts view.record.party1

structure TakesHash (msg : Msg) (view : View) : Prop where
  noValue : msg.value = 0
  party : msg.sender = view.record.party1 ∨ msg.sender = view.record.party2
  opened : view.record.party1 ≠ 0
  unreleased : view.record.released = false
  unset : view.record.dataHash = 0

open Classical in
noncomputable def next (primitives : Primitives) (recipients : Recipients) (escrowId : ℕ)
    (view : View) (call : Call) : View :=
  match call.request with
  | .setRewardPool pool =>
    if call.msg.value = 0 ∧ pool ≠ 0 then { view with rewardPool := pool } else view
  | .openEscrow _ => view
  | .confirm args =>
    if args.escrowId = escrowId ∧ view.Confirms primitives recipients call.msg args then
      { view with record := view.record.markReleased }
    else view
  | .refund id =>
    if id = escrowId ∧ view.Refunds recipients call.msg then
      { view with record := view.record.markReleased }
    else view
  | .setDataHash id newDataHash =>
    if id = escrowId ∧ view.TakesHash call.msg then
      { view with record := { view.record with dataHash := newDataHash } }
    else view

end View

section Confirm

variable {primitives : Primitives} {recipients : Recipients} {msg : Msg} {args : ConfirmArgs}
  {state : State}

variable {escrowId : ℕ} {payment : Payment} {accepts : Bool} {answers : List Bool} {state' : State}
  {next : State → State} {party2 : Address}

theorem denomination_le_balance (inv : Inv state) (solvent : 0 ≤ state.excess)
    (opened : (state.escrows escrowId).party1 ≠ 0)
    (unreleased : (state.escrows escrowId).released = false) :
    state.denomination ≤ state.balance := by
  have released := excess_release inv opened unreleased
    (show (state.escrows escrowId).markReleased.released = true from rfl)
  have bound : (state.setEscrow escrowId (state.escrows escrowId).markReleased).excess ≤
      state.balance := by
    have owed : (0 : ℤ) ≤ state.denomination *
        (state.setEscrow escrowId (state.escrows escrowId).markReleased).outstanding := by
      positivity
    exact Int.sub_le_self _ owed
  omega

theorem interp_sendValue_iff {next : State → Prog State} :
    ((sendValue state payment next).interp
      ((accepts :: answers).map .returning : Callbacks)).final = some state' ↔
        payment.amount ≤ state.balance ∧ payment.recipient ≠ state.self ∧
          if payment.recipient = 0 then
            ((next (state.pay payment)).interp
              ((accepts :: answers).map .returning : Callbacks)).final = some state'
          else accepts ∧ ((next (state.pay payment)).interp
            (answers.map .returning : Callbacks)).final = some state' := by
  rw [sendValue, Prog.interp_require_iff, and_assoc]
  by_cases zero : payment.recipient = 0
  · simp [zero]
  · cases accepts with
    | true => simp [zero, Prog.interp, Environment.returning]
    | false => simp [zero, Prog.interp, Environment.returning]

theorem interp_recordTransaction_iff {next : State → Prog State} {records : Bool} :
    ((recordTransaction state next).interp
      ((records :: answers).map .returning : Callbacks)).final = some state' ↔
        state.rewardPool ≠ state.self ∧ records ∧
          ((next state).interp (answers.map .returning : Callbacks)).final = some state' := by
  rw [recordTransaction, Prog.interp_require_iff]
  cases records with
  | true => simp [Prog.interp, Environment.returning]
  | false => simp [Prog.interp, Environment.returning]

theorem interp_lastPayment_iff :
    ((sendValue state payment fun state => .done (next state)).interp
      ([accepts].map .returning : Callbacks)).final = some state' ↔
        payment.amount ≤ state.balance ∧ payment.recipient ≠ state.self ∧
          (payment.recipient = 0 ∨ accepts) ∧ state' = next (state.pay payment) := by
  rw [interp_sendValue_iff]
  by_cases zero : payment.recipient = 0
  · simp [zero, Prog.interp, eq_comm]
  · simp [zero, Prog.interp, eq_comm]

theorem interp_bothPayments_iff {timestamp escrowId fee finalAmount : ℕ}
    {accepts records acceptsFinal : Bool} (pool : state.rewardPool ≠ 0)
    (affordable : fee + finalAmount ≤ state.balance) :
    ((sendValue state ⟨escrowId, .serviceFee, state.rewardPool, fee, timestamp⟩ fun state =>
      recordTransaction state fun state =>
        sendValue (state.emit (.serviceFeeCollected escrowId fee finalAmount))
          ⟨escrowId, .finalAmount, party2, finalAmount, timestamp⟩ fun state =>
            .done (next state)).interp
      ([accepts, records, acceptsFinal].map .returning : Callbacks)).final = some state' ↔
        state.rewardPool ≠ state.self ∧ accepts ∧ records ∧ party2 ≠ state.self ∧
          (party2 = 0 ∨ acceptsFinal) ∧
          state' = next (((state.pay
            ⟨escrowId, .serviceFee, state.rewardPool, fee, timestamp⟩).emit
              (.serviceFeeCollected escrowId fee finalAmount)).pay
                ⟨escrowId, .finalAmount, party2, finalAmount, timestamp⟩) := by
  rw [interp_sendValue_iff]
  simp only [pool, if_false]
  rw [interp_recordTransaction_iff, interp_lastPayment_iff]
  constructor
  · rintro ⟨-, other, accepted, -, recorded, -, recipient, delivered, rfl⟩
    exact ⟨other, accepted, recorded, recipient, delivered, rfl⟩
  · rintro ⟨other, accepted, recorded, recipient, delivered, rfl⟩
    have feeCovered : fee ≤ state.balance := by omega
    have finalCovered : finalAmount ≤ state.balance - fee := by omega
    exact ⟨feeCovered, other, accepted, other, recorded, finalCovered, recipient, delivered, rfl⟩

theorem interp_processPayment_iff {timestamp escrowId amount : ℕ}
    (affordable : amount ≤ state.balance)
    (covered : serviceFee amount + Word.sub amount (serviceFee amount) ≤ amount) :
    ((processPayment state timestamp escrowId amount party2 fun state => .done (next state)).interp
      ((if state.rewardPool = 0 then [recipients.accepts party2]
        else [recipients.accepts state.rewardPool, recipients.records state.rewardPool,
          recipients.accepts party2]).map .returning : Callbacks)).final = some state' ↔
      party2 ≠ state.self ∧ (party2 = 0 ∨ recipients.accepts party2) ∧
        (state.rewardPool = 0 ∨ state.rewardPool ≠ state.self ∧
          recipients.accepts state.rewardPool ∧ recipients.records state.rewardPool) ∧
        state' = next (state.released timestamp escrowId amount party2) := by
  by_cases none : state.rewardPool = 0
  · simp only [processPayment, none, if_true, State.released]
    rw [interp_lastPayment_iff]
    simp [affordable]
  · simp only [processPayment, none, if_false, State.released]
    rw [interp_bothPayments_iff none (covered.trans affordable)]
    tauto

theorem step_confirm_iff (inv : Inv state) (solvent : 0 ≤ state.excess) :
    state.step primitives recipients ⟨msg, .confirm args⟩ = some state' ↔
      (state.view args.escrowId).Confirms primitives recipients msg args ∧
        state' = state.confirmed msg args := by
  have record := inv.record args.escrowId
  simp only [State.step, execute, confirm, Recipients.answers, Prog.interp_require_iff,
    Bool.not_eq_true]
  by_cases owing : (state.escrows args.escrowId).party1 ≠ 0 ∧
      (state.escrows args.escrowId).released = false
  · rcases owing with ⟨opened, unreleased⟩
    have amount := (record.owing opened unreleased).1
    have fee := serviceFee_lt inv.denomination_pos
    have covered : serviceFee state.denomination +
        Word.sub state.denomination (serviceFee state.denomination) ≤ state.denomination := by
      rw [Word.sub_of_le inv.denomination_lt fee.le]
      omega
    rw [amount]
    have payments := @interp_processPayment_iff recipients
      (state.setEscrow args.escrowId (state.escrows args.escrowId).markReleased) state'
      (fun state => state.emit (.confirmed args.escrowId msg.sender))
      (state.escrows args.escrowId).party2 msg.timestamp args.escrowId state.denomination
      (denomination_le_balance inv solvent opened unreleased) covered
    constructor
    · rintro ⟨noValue, party, -, dataHash, signature1, signature2, paid⟩
      rcases payments.mp paid with ⟨recipient, accepted, pool, rfl⟩
      refine ⟨⟨noValue, party, unreleased, dataHash, signature1, signature2, recipient, accepted,
        pool⟩, ?_⟩
      rw [State.confirmed, amount]
    · rintro ⟨confirms, rfl⟩
      refine ⟨confirms.noValue, confirms.party, unreleased, confirms.dataHash, confirms.signature1,
        confirms.signature2, payments.mpr ?_⟩
      refine ⟨confirms.recipient, confirms.accepted, confirms.pool, ?_⟩
      rw [State.confirmed, amount]
  · -- An escrow that was never opened has no data hash.
    have refused (dataHash : (state.escrows args.escrowId).dataHash ≠ 0)
        (unreleased : (state.escrows args.escrowId).released = false) : False := by
      refine owing ⟨?_, unreleased⟩
      intro unopened
      exact dataHash (record.unopened unopened).2.1
    constructor
    · rintro ⟨-, -, unreleased, dataHash, -⟩
      exact (refused dataHash unreleased).elim
    · rintro ⟨confirms, -⟩
      exact (refused confirms.dataHash confirms.unreleased).elim

theorem step_refund_iff (inv : Inv state) (solvent : 0 ≤ state.excess) :
    state.step primitives recipients ⟨msg, .refund escrowId⟩ = some state' ↔
      (state.view escrowId).Refunds recipients msg ∧ state' = state.refunded msg escrowId := by
  have record := inv.record escrowId
  have affordable (unreleased : (state.escrows escrowId).released = false) :
      (state.escrows escrowId).amount ≤ state.balance := by
    by_cases opened : (state.escrows escrowId).party1 = 0
    · rw [(record.unopened opened).1]
      exact Nat.zero_le _
    · rw [(record.owing opened unreleased).1]
      exact denomination_le_balance inv solvent opened unreleased
  simp only [State.step, execute, refund, Recipients.answers, Prog.interp_require_iff,
    interp_lastPayment_iff, Bool.not_eq_true]
  constructor
  · rintro ⟨noValue, expired, unreleased, -, recipient, accepted, rfl⟩
    exact ⟨⟨noValue, expired, unreleased, recipient, accepted⟩, rfl⟩
  · rintro ⟨refunds, rfl⟩
    exact ⟨refunds.noValue, refunds.expired, refunds.unreleased, affordable refunds.unreleased,
      refunds.recipient, refunds.accepted, rfl⟩

theorem step_setDataHash_iff {escrowId newDataHash : ℕ} :
    state.step primitives recipients ⟨msg, .setDataHash escrowId newDataHash⟩ = some state' ↔
      (state.view escrowId).TakesHash msg ∧ state' = state.setEscrow escrowId
        { state.escrows escrowId with dataHash := newDataHash } := by
  simp only [State.step, execute, setDataHash, Prog.interp_require_iff, Prog.interp,
    Option.some.injEq, Bool.not_eq_true]
  constructor
  · rintro ⟨noValue, party, opened, unreleased, unset, rfl⟩
    exact ⟨⟨noValue, party, opened, unreleased, unset⟩, rfl⟩
  · rintro ⟨takes, rfl⟩
    exact ⟨takes.noValue, takes.party, takes.opened, takes.unreleased, takes.unset, rfl⟩

theorem step_setRewardPool_iff {pool : Address} :
    state.step primitives recipients ⟨msg, .setRewardPool pool⟩ = some state' ↔
      (msg.value = 0 ∧ pool ≠ 0) ∧ state' = { state with rewardPool := pool } := by
  simp only [State.step, execute, setRewardPool, Prog.interp_require_iff, Prog.interp,
    Option.some.injEq, and_assoc, @eq_comm _ _ state']

end Confirm

section Refinement

variable {primitives : Primitives} {recipients : Recipients} {state : State} {escrowId : ℕ}

variable {after : State} {id : ℕ} {msg : Msg}

open Classical in
theorem next_eq_ite {call : Call} {succeeds : Prop}
    (spec : ∀ state', state.step primitives recipients call = some state' ↔
      succeeds ∧ state' = after) :
    state.next primitives recipients call = if succeeds then after else state := by
  rw [State.next]
  cases returned : state.step primitives recipients call with
  | none =>
    have fails : ¬succeeds := by
      intro holds
      simpa [returned] using (spec after).mpr ⟨holds, rfl⟩
    rw [if_neg fails, Option.getD_none]
  | some state' =>
    rcases (spec state').mp returned with ⟨holds, rfl⟩
    rw [if_pos holds, Option.getD_some]

-- Not by `rfl`: unfolded together with a payment, the service fee would be evaluated.
@[simp]
theorem view_emit (event : Event) : (state.emit event).view escrowId = state.view escrowId := by
  simp [State.view, State.emit]

@[simp]
theorem view_pay (payment : Payment) :
    (state.pay payment).view escrowId = state.view escrowId := by
  simp [State.view, State.pay]

theorem view_confirmed {args : ConfirmArgs} :
    (state.confirmed msg args).view escrowId =
      (state.setEscrow args.escrowId (state.escrows args.escrowId).markReleased).view escrowId := by
  simp only [State.confirmed, State.released, view_emit]
  split_ifs
  · simp
  · simp

theorem view_openEscrow {args : OpenArgs} {state' : State}
    (opened : (state.escrows escrowId).party1 ≠ 0)
    (returned : state.step primitives recipients ⟨msg, .openEscrow args⟩ = some state') :
    state'.view escrowId = state.view escrowId := by
  have ends : (openEscrow primitives msg args state).Ends
      fun state' => state'.view escrowId = state.view escrowId := by
    simp only [openEscrow, Prog.ends_require_iff]
    intro _ _
    cases state.tree.insert primitives.hasher args.commitment with
    | none => exact trivial
    | some result =>
      simp only [Prog.ends_require_iff]
      intro unopened _ _ _
      have different : escrowId ≠ args.escrowId := by
        rintro rfl
        exact opened unopened
      simp [Prog.Ends, State.view, State.opened, different]
  exact ends.of_final returned

open Classical in
theorem view_ite (succeeds : View → Prop) (change : EscrowRecord → EscrowRecord)
    (changed : after.view escrowId =
      (state.setEscrow id (change (state.escrows id))).view escrowId) :
    (if succeeds (state.view id) then after else state).view escrowId =
      if id = escrowId ∧ succeeds (state.view escrowId) then
        { state.view escrowId with record := change (state.view escrowId).record }
      else state.view escrowId := by
  by_cases holds : succeeds (state.view id)
  · rw [if_pos holds, changed]
    by_cases same : id = escrowId
    · subst same
      rw [if_pos ⟨rfl, holds⟩]
      simp [State.view, State.setEscrow]
    · rw [if_neg fun both => same both.1]
      simp [State.view, State.setEscrow, Ne.symm same]
  · rw [if_neg holds, if_neg]
    rintro ⟨rfl, holds'⟩
    exact holds holds'

theorem view_next (inv : Inv state) (solvent : 0 ≤ state.excess)
    (opened : (state.escrows escrowId).party1 ≠ 0) (call : Call) :
    (state.next primitives recipients call).view escrowId =
      (state.view escrowId).next primitives recipients escrowId call := by
  rcases call with ⟨msg, request⟩
  cases request with
  | setRewardPool pool =>
    rw [next_eq_ite fun _ => step_setRewardPool_iff]
    simp only [View.next]
    split_ifs
    · rfl
    · rfl
  | openEscrow args =>
    rw [State.next]
    cases returned : state.step primitives recipients ⟨msg, .openEscrow args⟩ with
    | none => rfl
    | some state' => exact view_openEscrow opened returned
  | confirm args =>
    rw [next_eq_ite fun _ => step_confirm_iff inv solvent]
    exact view_ite (View.Confirms primitives recipients msg args) .markReleased view_confirmed
  | refund id =>
    rw [next_eq_ite fun _ => step_refund_iff inv solvent]
    exact view_ite (View.Refunds recipients msg) .markReleased (by simp [State.refunded])
  | setDataHash id newDataHash =>
    rw [next_eq_ite fun _ => step_setDataHash_iff]
    exact view_ite (View.TakesHash msg)
      (fun record => { record with dataHash := newDataHash }) rfl

end Refinement

def Call.byInsider (record : EscrowRecord) (deployer : Address) (call : Call) : Bool :=
  call.msg.sender ∈ [record.party1, record.party2, deployer]

def Call.Harmless (escrowId : ℕ) (call : Call) : Prop :=
  match call.request with
  | .setRewardPool _ => False
  | .refund id => id ≠ escrowId
  | _ => True

structure OpenedAs (record : EscrowRecord) (denomination escrowId : ℕ) (state : State) : Prop where
  inv : Inv state
  solvent : 0 ≤ state.excess
  denomination_eq : state.denomination = denomination
  opened : record.party1 ≠ 0
  terms : SameTerms record (state.escrows escrowId)

section Histories

variable {primitives : Primitives} {recipients : Recipients} {record : EscrowRecord}
  {denomination escrowId : ℕ} {state : State} {deployer : Address}

theorem OpenedAs.party1_ne_zero (openedAs : OpenedAs record denomination escrowId state) :
    (state.escrows escrowId).party1 ≠ 0 := by
  rw [openedAs.terms.1]
  exact openedAs.opened

theorem OpenedAs.next (openedAs : OpenedAs record denomination escrowId state) (call : Call) :
    OpenedAs record denomination escrowId (state.next primitives recipients call) := by
  rw [State.next]
  cases returned : state.step primitives recipients call with
  | none => exact openedAs
  | some state' =>
    have rely := Discipline.rely_of_returning (keeps_execute primitives call state) returned
    rcases rely openedAs.inv with ⟨evolution, excess⟩
    rcases openedAs.terms with ⟨party1, party2, deadline⟩
    rcases evolution.terms escrowId openedAs.party1_ne_zero with ⟨party1', party2', deadline'⟩
    exact ⟨evolution.inv, openedAs.solvent.trans excess,
      evolution.denomination.trans openedAs.denomination_eq, openedAs.opened,
      party1'.trans party1, party2'.trans party2, deadline'.trans deadline⟩

variable (deployer) in
theorem View.next_outsider {view : View} {call : Call}
    (outsider : call.byInsider view.record deployer = false) (harmless : call.Harmless escrowId) :
    view.next primitives recipients escrowId call = view := by
  have noParty : ¬(call.msg.sender = view.record.party1 ∨
      call.msg.sender = view.record.party2) := by
    simp only [Call.byInsider, List.mem_cons, decide_eq_false_iff_not] at outsider
    tauto
  rcases call with ⟨msg, request⟩
  cases request with
  | setRewardPool pool => exact harmless.elim
  | openEscrow args => rfl
  | confirm args => exact if_neg fun both => noParty both.2.party
  | refund id => exact if_neg fun both => harmless both.1
  | setDataHash id newDataHash => exact if_neg fun both => noParty both.2.party

variable (primitives recipients record denomination escrowId deployer) in
theorem unwinding : Unwinding (State.next primitives recipients)
    (OpenedAs record denomination escrowId) (fun state => state.view escrowId)
    (Call.byInsider record deployer) (Call.Harmless escrowId) where
  valid_step _ call openedAs := openedAs.next call
  hidden state call openedAs outsider harmless := by
    rw [view_next openedAs.inv openedAs.solvent openedAs.party1_ne_zero]
    apply View.next_outsider deployer _ harmless
    rcases openedAs.terms with ⟨party1, party2, -⟩
    simp only [Call.byInsider, State.view, party1, party2]
    exact outsider
  consistent state state' call openedAs openedAs' same _ := by
    rw [view_next openedAs.inv openedAs.solvent openedAs.party1_ne_zero,
      view_next openedAs'.inv openedAs'.solvent openedAs'.party1_ne_zero, same]

end Histories

def settlement (escrowId timestamp amount fee : ℕ) (party2 pool : Address) : List Payment :=
  if pool = 0 ∨ fee = 0 then [⟨escrowId, .finalAmount, party2, amount, timestamp⟩]
  else [⟨escrowId, .serviceFee, pool, fee, timestamp⟩,
    ⟨escrowId, .finalAmount, party2, amount - fee, timestamp⟩]

theorem settlement_eq_iff {escrowId timestamp amount fee : ℕ} {party2 pool pool' : Address} :
    settlement escrowId timestamp amount fee party2 pool =
        settlement escrowId timestamp amount fee party2 pool' ↔ pool = pool' ∨ fee = 0 := by
  by_cases free : fee = 0
  · simp [settlement, free]
  · by_cases none : pool = 0
    · by_cases none' : pool' = 0
      · simp [settlement, none, none']
      · simp [settlement, free, none, none', eq_comm]
    · by_cases none' : pool' = 0
      · simp [settlement, free, none, none']
      · simp [settlement, free, none, none']

section Outcome

variable {primitives : Primitives} {recipients : Recipients} {msg : Msg} {args : ConfirmArgs}
  {state : State}

theorem payouts_released {timestamp escrowId amount : ℕ} {party2 : Address}
    (positive : 0 < amount) (final : Word.sub amount (serviceFee amount) =
      amount - serviceFee amount) (fee : serviceFee amount < amount) :
    (state.released timestamp escrowId amount party2).payouts escrowId =
      state.payouts escrowId ++
        settlement escrowId timestamp amount (serviceFee amount) party2 state.rewardPool := by
  rw [State.released]
  have finalPositive : amount - serviceFee amount ≠ 0 := by omega
  by_cases none : state.rewardPool = 0
  · rw [if_pos none, State.payouts_emit, State.payouts_pay, if_pos ⟨rfl, positive.ne'⟩, settlement,
      if_pos (Or.inl none)]
  · rw [if_neg none, State.payouts_emit, State.payouts_pay, State.payouts_emit, State.payouts_pay,
      final, settlement]
    by_cases free : serviceFee amount = 0
    · rw [if_neg fun counted => counted.2 free, if_pos ⟨rfl, finalPositive⟩, if_pos (Or.inr free),
        free, List.append_nil, Nat.sub_zero]
    · rw [if_pos ⟨rfl, free⟩, if_pos ⟨rfl, finalPositive⟩, if_neg (by tauto), List.append_assoc]
      rfl

theorem payouts_confirmed (inv : Inv state) (opened : (state.escrows args.escrowId).party1 ≠ 0)
    (unreleased : (state.escrows args.escrowId).released = false) :
    (state.confirmed msg args).payouts args.escrowId =
      settlement args.escrowId msg.timestamp state.denomination (serviceFee state.denomination)
        (state.escrows args.escrowId).party2 state.rewardPool := by
  rcases (inv.record args.escrowId).owing opened unreleased with ⟨amount, noPayouts⟩
  have fee := serviceFee_lt inv.denomination_pos
  rw [State.confirmed, State.payouts_emit, amount, payouts_released inv.denomination_pos
    (Word.sub_of_le inv.denomination_lt fee.le) fee, State.payouts_setEscrow, noPayouts,
    List.nil_append]
  rfl

theorem outcome_eq_ite {record : EscrowRecord} {denomination : ℕ}
    (openedAs : OpenedAs record denomination args.escrowId state)
    [Decidable ((state.view args.escrowId).Confirms primitives recipients msg args)] :
    (state.step primitives recipients ⟨msg, .confirm args⟩).map (·.payouts args.escrowId) =
      if (state.view args.escrowId).Confirms primitives recipients msg args then
        some (settlement args.escrowId msg.timestamp denomination (serviceFee denomination)
          record.party2 state.rewardPool)
      else none := by
  by_cases confirms : (state.view args.escrowId).Confirms primitives recipients msg args
  · rw [if_pos confirms, (step_confirm_iff openedAs.inv openedAs.solvent).mpr ⟨confirms, rfl⟩,
      Option.map_some, payouts_confirmed openedAs.inv openedAs.party1_ne_zero confirms.unreleased,
      openedAs.denomination_eq, openedAs.terms.2.1]
  · rw [if_neg confirms, Option.map_eq_none_iff, Option.eq_none_iff_forall_ne_some]
    intro state' returned
    exact confirms ((step_confirm_iff openedAs.inv openedAs.solvent).mp returned).1

theorem outcome_eq_iff {record : EscrowRecord} {denomination : ℕ} {state' : State}
    (openedAs : OpenedAs record denomination args.escrowId state)
    (openedAs' : OpenedAs record denomination args.escrowId state') :
    (state.step primitives recipients ⟨msg, .confirm args⟩).map (·.payouts args.escrowId) =
        (state'.step primitives recipients ⟨msg, .confirm args⟩).map (·.payouts args.escrowId) ↔
      ((state.view args.escrowId).Confirms primitives recipients msg args ↔
        (state'.view args.escrowId).Confirms primitives recipients msg args) ∧
      ((state.view args.escrowId).Confirms primitives recipients msg args →
        state.rewardPool = state'.rewardPool ∨ serviceFee denomination = 0) := by
  classical
  rw [outcome_eq_ite openedAs, outcome_eq_ite openedAs']
  by_cases confirms : (state.view args.escrowId).Confirms primitives recipients msg args
  · by_cases confirms' : (state'.view args.escrowId).Confirms primitives recipients msg args
    · simp [confirms, confirms', settlement_eq_iff]
    · simp [confirms, confirms']
  · by_cases confirms' : (state'.view args.escrowId).Confirms primitives recipients msg args
    · simp [confirms, confirms']
    · simp [confirms, confirms']

end Outcome

/-- After two histories that have opened the same escrow, a confirmation pays out the same exactly
if it goes through after both or neither, and both leave the same reward pool or the service fee
rounds to zero. Outsiders do not matter unless they set the pool or ask for the refund. -/
theorem confirm_isolated_iff (primitives : Primitives) (recipients : Recipients)
    {self denomination verifierAddress levels hasherAddress balance : ℕ} {initial : State}
    (created : State.create self denomination verifierAddress levels hasherAddress balance =
      some initial) {script script' : Script Call} {state state' : State}
    (reached : state ∈ (script.run (execute primitives) initial).seen)
    (reached' : state' ∈ (script'.run (execute primitives) initial).seen) (msg : Msg)
    (args : ConfirmArgs) (opened : (state.escrows args.escrowId).party1 ≠ 0)
    (same : SameTerms (state.escrows args.escrowId) (state'.escrows args.escrowId)) :
    ((state.step primitives recipients ⟨msg, .confirm args⟩).map (·.payouts args.escrowId) =
        (state'.step primitives recipients ⟨msg, .confirm args⟩).map (·.payouts args.escrowId) ↔
      ((state.view args.escrowId).Confirms primitives recipients msg args ↔
        (state'.view args.escrowId).Confirms primitives recipients msg args) ∧
      ((state.view args.escrowId).Confirms primitives recipients msg args →
        state.rewardPool = state'.rewardPool ∨ serviceFee denomination = 0)) ∧
    ∀ (deployer : Address) (calls calls' : List Call),
      state.view args.escrowId = state'.view args.escrowId →
      calls.filter (Call.byInsider (state.escrows args.escrowId) deployer) =
        calls'.filter (Call.byInsider (state.escrows args.escrowId) deployer) →
      (∀ call ∈ calls ++ calls',
        call.byInsider (state.escrows args.escrowId) deployer = false →
          call.Harmless args.escrowId) →
      ((state.play primitives recipients calls).step primitives recipients
          ⟨msg, .confirm args⟩).map (·.payouts args.escrowId) =
        ((state'.play primitives recipients calls').step primitives recipients
          ⟨msg, .confirm args⟩).map (·.payouts args.escrowId) := by
  rcases inv_of_mem_seen primitives script created reached with ⟨inv, amount, solvent⟩
  rcases inv_of_mem_seen primitives script' created reached' with ⟨inv', amount', solvent'⟩
  have openedAs : OpenedAs (state.escrows args.escrowId) denomination args.escrowId state :=
    ⟨inv, solvent, amount, opened, rfl, rfl, rfl⟩
  have openedAs' : OpenedAs (state.escrows args.escrowId) denomination args.escrowId state' :=
    ⟨inv', solvent', amount', opened, same⟩
  refine ⟨outcome_eq_iff openedAs openedAs', ?_⟩
  intro deployer calls calls' sameView sameInsiders harmless
  have unwound := unwinding primitives recipients (state.escrows args.escrowId) denomination
    args.escrowId deployer
  have view := unwound.view_foldl_eq openedAs openedAs' sameView sameInsiders
    (fun call member => harmless call (List.mem_append_left _ member))
    fun call member => harmless call (List.mem_append_right _ member)
  apply (outcome_eq_iff (unwound.valid_foldl openedAs) (unwound.valid_foldl openedAs')).mpr
  rw [view]
  exact ⟨Iff.rfl, fun _ => Or.inl (congrArg View.rewardPool view)⟩

section Sample

def obliging : Recipients where
  accepts _ := true
  records _ := true

end Sample

theorem confirm_isolated_otherRefund :
    ((openedState.play samplePrimitives obliging [⟨⟨0xbad, 0, 14⟩, .refund 2⟩]).step
        samplePrimitives obliging ⟨⟨address2, 0, 15⟩, .confirm sampleConfirmation⟩).map
          (·.payouts 1) =
      ((openedState.play samplePrimitives obliging []).step samplePrimitives obliging
        ⟨⟨address2, 0, 15⟩, .confirm sampleConfirmation⟩).map (·.payouts 1) := by
  have created : State.create 0xe5c 1000 0xfe 1 0xfd 0 = some sampleInitial := by
    rw [sampleInitial, Option.some_get]
  have isolated := (confirm_isolated_iff samplePrimitives obliging created openedState_mem_seen
    openedState_mem_seen ⟨address2, 0, 15⟩ sampleConfirmation (by decide +kernel)
    ⟨rfl, rfl, rfl⟩).2
  apply isolated 0xde [⟨⟨0xbad, 0, 14⟩, .refund 2⟩] [] rfl
  · rw [List.filter_cons_of_neg (by decide +kernel)]
  · simp [Call.Harmless, sampleConfirmation]

/-- An outsider makes itself the reward pool and receives the fee, which `party2` lacks. -/
theorem fee_diverted_by_outsider :
    openedState ∈ (openedScript.run (execute samplePrimitives) sampleInitial).seen ∧
      (⟨⟨0xbad, 0, 14⟩, .setRewardPool 0xbad⟩ : Call).byInsider (openedState.escrows 1) 0xde =
        false ∧
      ((openedState.play samplePrimitives obliging []).step samplePrimitives obliging
        ⟨⟨address2, 0, 15⟩, .confirm sampleConfirmation⟩).map (·.payouts 1) =
          some [⟨1, .finalAmount, address2, 1000, 15⟩] ∧
      ((openedState.play samplePrimitives obliging
          [⟨⟨0xbad, 0, 14⟩, .setRewardPool 0xbad⟩]).step samplePrimitives obliging
        ⟨⟨address2, 0, 15⟩, .confirm sampleConfirmation⟩).map (·.payouts 1) =
          some [⟨1, .serviceFee, 0xbad, 200, 15⟩, ⟨1, .finalAmount, address2, 800, 15⟩] := by
  refine ⟨openedState_mem_seen, ?_, ?_, ?_⟩
  · decide +kernel
  · decide +kernel
  · decide +kernel

end TigerMixer.Escrow
