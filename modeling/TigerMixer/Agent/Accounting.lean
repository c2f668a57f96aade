import Mathlib.Algebra.BigOperators.Group.List.Basic
import Mathlib.Data.List.Sort
import Mathlib.Tactic.Linarith
import Mathlib.Tactic.Ring

/-!
# The accounts of the agent service

A failure report names a group of ten minutes and a rank in it. A record is only counted if its time
is ten times the number of the group, the money is reduced also if no record is found, and the count
goes on from one user to the next of the same name.
-/

namespace TigerMixer.Agent

open List

/-! ### Users -/

@[ext]
structure Transactions where
  time : ℤ
  send : ℕ
  failed : ℕ
  deriving DecidableEq

def Transactions.updateFailed (record : Transactions) : Transactions :=
  { record with failed := record.failed + 1 }

structure BadUser (Id : Type*) where
  userId : Id
  isRule : Bool
  plan : List ℚ
  timePast : ℤ
  timeRecord : ℤ
  moneyTransferred : ℚ
  stageTotalMoney : ℚ
  stageMoneyTransferred : ℚ
  transactionList : List Transactions

/-- A reply of the language model or of the rules: a text that is not JSON, one with a `res` of
fewer than three characters, one without a `res` or with one that is no list, or a list of minutes.
-/
inductive Reply where
  | unreadable
  | short
  | unreadablePlan
  | plan (minutes : List ℤ)

/-- The records for a run of `count` times the minute `previous` and the minutes behind it. -/
def encodeFrom (timePast previous : ℤ) (count : ℕ) : List ℤ → List Transactions
  | [] => [⟨timePast + previous, count, 0⟩]
  | minute :: minutes =>
    if minute = previous then encodeFrom timePast previous (count + 1) minutes
    else ⟨timePast + previous, count, 0⟩ :: encodeFrom timePast minute 1 minutes

/-- The records for a plan. There is no last element of an empty plan, so nothing is recorded. -/
def encode (timePast : ℤ) : List ℤ → List Transactions
  | [] => []
  | minute :: minutes => encodeFrom timePast minute 1 minutes

namespace BadUser

variable {Id : Type*} (usePlan : Bool) (user : BadUser Id)

def handleResult : Reply → BadUser Id
  | .unreadable => user
  | .short => { user with timePast := user.timePast + 10 }
  | .unreadablePlan => { user with timePast := user.timePast + 10 }
  | .plan minutes =>
    let plan := if usePlan then minutes.insertionSort (· ≤ ·) else minutes
    { user with
      timePast := user.timePast + 10
      moneyTransferred := user.moneyTransferred + plan.length * (1 / 100)
      stageMoneyTransferred :=
        if usePlan then user.stageMoneyTransferred + plan.length * (1 / 100)
        else user.stageMoneyTransferred
      transactionList := user.transactionList ++ encode (user.timePast + 10) plan }

def startStage : Option (BadUser Id) :=
  if (user.timePast - user.timeRecord) % 60 = 0 then
    (user.plan[((user.timePast - user.timeRecord) / 60 % user.plan.length).toNat]?).map fun task =>
      { user with stageMoneyTransferred := 0, stageTotalMoney := task }
  else some user

def requestForPlan (reply : Reply) : BadUser Id :=
  if user.isRule then user.handleResult usePlan reply
  else if usePlan then
    match user.startStage with
    | none => { user with stageMoneyTransferred := 0 }
    | some user =>
      if user.stageTotalMoney ≤ user.stageMoneyTransferred then
        { user with timePast := user.timePast + 10 }
      else user.handleResult usePlan reply
  else user.handleResult usePlan reply

end BadUser

/-! ### Requests -/

def Transactions.Counted (group : ℤ) (record : Transactions) : Prop :=
  (record.time : ℚ) / 10 = group

instance (group : ℤ) (record : Transactions) : Decidable (record.Counted group) :=
  inferInstanceAs (Decidable (_ = _))

def nextCount (group : ℤ) (count : ℕ) (record : Transactions) : ℕ :=
  if record.Counted group then count + record.send else count

def markFailed (group rank : ℤ) : ℕ → List Transactions → List Transactions × ℕ
  | count, [] => ([], count)
  | count, record :: records =>
    if rank ≤ nextCount group count record then
      (record.updateFailed :: records, nextCount group count record)
    else
      let (marked, last) := markFailed group rank (nextCount group count record) records
      (record :: marked, last)

inductive Request (Id : Type*) where
  | getAccountTransactions (id : Id) (reply : Reply)
  | failedTransactions (id : Id) (group rank : ℤ)

/-- What a failure report finds at a user: the records, and the count when it comes to them. -/
structure Visit where
  group : ℤ
  rank : ℤ
  count : ℕ
  records : List Transactions

section Service

variable {Id : Type*} [DecidableEq Id]

def getAccountTransactions (usePlan : Bool) (id : Id) (reply : Reply) :
    List (BadUser Id) → List (BadUser Id)
  | [] => []
  | user :: users =>
    if user.userId = id then user.requestForPlan usePlan reply :: users
    else user :: getAccountTransactions usePlan id reply users

def failedTransactions (id : Id) (group rank : ℤ) : ℕ → List (BadUser Id) → List (BadUser Id)
  | _, [] => []
  | count, user :: users =>
    if user.userId = id then
      { user with
        transactionList := (markFailed group rank count user.transactionList).1
        moneyTransferred := user.moneyTransferred - 1 / 100 } ::
        failedTransactions id group rank (markFailed group rank count user.transactionList).2
          users
    else user :: failedTransactions id group rank count users

def step (usePlan : Bool) (users : List (BadUser Id)) : Request Id → List (BadUser Id)
  | .getAccountTransactions id reply => getAccountTransactions usePlan id reply users
  | .failedTransactions id group rank => failedTransactions id (group - 1) rank 0 users

def states (usePlan : Bool) : List (BadUser Id) → List (Request Id) → List (List (BadUser Id))
  | users, [] => [users]
  | users, request :: requests =>
    users :: states usePlan (step usePlan users request) requests

def visitsFrom (id : Id) (group rank : ℤ) : ℕ → List (BadUser Id) → List Visit
  | _, [] => []
  | count, user :: users =>
    if user.userId = id then
      ⟨group, rank, count, user.transactionList⟩ ::
        visitsFrom id group rank (markFailed group rank count user.transactionList).2 users
    else visitsFrom id group rank count users

def visits (usePlan : Bool) : List (BadUser Id) → List (Request Id) → List Visit
  | _, [] => []
  | users, .getAccountTransactions id reply :: requests =>
    visits usePlan (step usePlan users (.getAccountTransactions id reply)) requests
  | users, .failedTransactions id group rank :: requests =>
    visitsFrom id (group - 1) rank 0 users ++
      visits usePlan (step usePlan users (.failedTransactions id group rank)) requests

end Service

structure Registration (Id : Type*) where
  userId : Id
  isRule : Bool
  plan : List ℚ

def BadUser.registered {Id : Type*} (registration : Registration Id) : BadUser Id where
  userId := registration.userId
  isRule := registration.isRule
  plan := registration.plan
  timePast := 0
  timeRecord := 0
  moneyTransferred := 0
  stageTotalMoney := 0
  stageMoneyTransferred := 0
  transactionList := []

/-! ### Accounts that are right -/

def recorded (records : List Transactions) : ℚ :=
  1 / 100 * (records.map fun record => (record.send : ℚ) - record.failed).sum

def BadUser.Accounted {Id : Type*} (user : BadUser Id) : Prop :=
  user.moneyTransferred = recorded user.transactionList

namespace Visit

variable (visit : Visit)

def groupSends (length : ℕ) : ℕ :=
  (((visit.records.take length).filter fun record => record.time / 10 = visit.group).map
    Transactions.send).sum

def counted (length : ℕ) : ℕ :=
  visit.count + (((visit.records.take length).filter fun record =>
    record.Counted visit.group).map Transactions.send).sum

/-- The transaction with the rank in the group belongs to the record with this index. -/
def Contains (index : ℕ) : Prop :=
  index < visit.records.length ∧ visit.groupSends index < visit.rank ∧
    visit.rank ≤ visit.groupSends (index + 1)

instance (index : ℕ) : Decidable (visit.Contains index) :=
  inferInstanceAs (Decidable (_ ∧ _ ∧ _))

def Finds (index : ℕ) : Prop :=
  index < visit.records.length ∧ visit.rank ≤ visit.counted (index + 1) ∧
    ∀ earlier < index, visit.counted (earlier + 1) < visit.rank

def marked : List Transactions :=
  (markFailed visit.group visit.rank visit.count visit.records).1

def Right : Prop :=
  ∀ index, visit.Contains index →
    visit.marked = visit.records.modify index Transactions.updateFailed

/-- The visit finds a record, which is the one with the transaction if there is one. -/
def Matched : Prop :=
  (∃ index, visit.Finds index) ∧ ∀ index, visit.Contains index → visit.Finds index

end Visit

/-- Money and records agree for all users at all times, and failures are recorded where they should
be. -/
def AccountsRight {Id : Type*} [DecidableEq Id] (usePlan : Bool)
    (registrations : List (Registration Id)) (requests : List (Request Id)) : Prop :=
  (∀ users ∈ states usePlan (registrations.map BadUser.registered) requests,
    ∀ user ∈ users, user.Accounted) ∧
  ∀ visit ∈ visits usePlan (registrations.map BadUser.registered) requests, visit.Right

/-! ### Plans -/

@[simp]
theorem recorded_nil : recorded [] = 0 := by
  simp [recorded]

@[simp]
theorem recorded_cons (record : Transactions) (records : List Transactions) :
    recorded (record :: records) = 1 / 100 * (record.send - record.failed) + recorded records := by
  simp [recorded, mul_add]

@[simp]
theorem recorded_append (records later : List Transactions) :
    recorded (records ++ later) = recorded records + recorded later := by
  simp [recorded, mul_add]

theorem recorded_encodeFrom (timePast previous : ℤ) (count : ℕ) (minutes : List ℤ) :
    recorded (encodeFrom timePast previous count minutes) =
      (count + minutes.length : ℕ) * (1 / 100) := by
  induction minutes generalizing previous count with
  | nil => simp [encodeFrom, mul_comm]
  | cons minute minutes ih =>
    rw [encodeFrom]
    split
    · rw [ih, length_cons, Nat.add_right_comm, Nat.add_assoc]
    · rw [recorded_cons, ih]
      push_cast [length_cons]
      ring

theorem recorded_encode (timePast : ℤ) (plan : List ℤ) :
    recorded (encode timePast plan) = plan.length * (1 / 100) := by
  cases plan with
  | nil => simp [encode]
  | cons minute minutes => rw [encode, recorded_encodeFrom, Nat.add_comm, length_cons]

namespace BadUser

variable {Id : Type*} {user : BadUser Id}

theorem Accounted.handleResult (accounted : user.Accounted) (usePlan : Bool) (reply : Reply) :
    (user.handleResult usePlan reply).Accounted := by
  cases reply with
  | unreadable => exact accounted
  | short => exact accounted
  | unreadablePlan => exact accounted
  | plan minutes =>
    simp only [Accounted, BadUser.handleResult, recorded_append, recorded_encode]
    rw [accounted]

theorem Accounted.startStage (accounted : user.Accounted) {stage : BadUser Id}
    (started : user.startStage = some stage) : stage.Accounted := by
  unfold BadUser.startStage at started
  split at started
  · obtain ⟨task, -, rfl⟩ := Option.map_eq_some_iff.1 started
    exact accounted
  · obtain rfl := Option.some.inj started
    exact accounted

theorem Accounted.requestForPlan (accounted : user.Accounted) (usePlan : Bool) (reply : Reply) :
    (user.requestForPlan usePlan reply).Accounted := by
  unfold BadUser.requestForPlan
  split
  · exact accounted.handleResult usePlan reply
  · split
    · split
      · exact accounted
      case _ stage started =>
        have started := accounted.startStage started
        split
        · exact started
        · exact started.handleResult usePlan reply
    · exact accounted.handleResult usePlan reply

end BadUser

/-! ### The search for a record -/

namespace Visit

variable {group rank : ℤ} {count : ℕ} {record : Transactions} {records : List Transactions}

theorem counted_succ (length : ℕ) :
    (Visit.mk group rank count (record :: records)).counted (length + 1) =
      (Visit.mk group rank (nextCount group count record) records).counted length := by
  by_cases here : record.Counted group <;> simp [counted, nextCount, here, Nat.add_assoc]

@[simp]
theorem counted_zero (visit : Visit) : visit.counted 0 = visit.count := by
  simp [counted]

theorem finds_zero :
    (Visit.mk group rank count (record :: records)).Finds 0 ↔
      rank ≤ nextCount group count record := by
  simp [Finds, counted_succ]

theorem finds_succ (index : ℕ) :
    (Visit.mk group rank count (record :: records)).Finds (index + 1) ↔
      nextCount group count record < rank ∧
        (Visit.mk group rank (nextCount group count record) records).Finds index := by
  simp only [Finds, counted_succ, length_cons, Nat.add_lt_add_iff_right]
  constructor
  · rintro ⟨inside, reached, before⟩
    refine ⟨?_, inside, reached, fun earlier less => ?_⟩
    · simpa using before 0 (Nat.succ_pos index)
    · simpa [counted_succ] using before (earlier + 1) (Nat.succ_lt_succ less)
  · rintro ⟨first, inside, reached, before⟩
    refine ⟨inside, reached, fun earlier less => ?_⟩
    cases earlier with
    | zero => simpa using first
    | succ earlier => exact before earlier (Nat.lt_of_succ_lt_succ less)

theorem Finds.unique {visit : Visit} {index other : ℕ} (found : visit.Finds index)
    (also : visit.Finds other) : index = other := by
  rcases Nat.lt_trichotomy index other with less | same | greater
  · exact absurd found.2.1 (not_le.2 (also.2.2 index less))
  · exact same
  · exact absurd also.2.1 (not_le.2 (found.2.2 other greater))

theorem marked_cases (visit : Visit) :
    (∃ index, visit.Finds index ∧
      visit.marked = visit.records.modify index Transactions.updateFailed) ∨
    (∀ index, ¬ visit.Finds index) ∧ visit.marked = visit.records := by
  obtain ⟨group, rank, count, records⟩ := visit
  induction records generalizing count with
  | nil => exact .inr ⟨fun index found => absurd found.1 (Nat.not_lt_zero index), rfl⟩
  | cons record records ih =>
    by_cases reached : rank ≤ nextCount group count record
    · refine .inl ⟨0, finds_zero.2 reached, ?_⟩
      simp [marked, markFailed, reached]
    · have marked_cons : (Visit.mk group rank count (record :: records)).marked =
          record :: (Visit.mk group rank (nextCount group count record) records).marked := by
        simp [marked, markFailed, reached]
      rw [marked_cons]
      rcases ih (nextCount group count record) with ⟨index, found, eq⟩ | ⟨none, eq⟩
      · exact .inl ⟨index + 1, (finds_succ index).2 ⟨not_le.1 reached, found⟩, by simp [eq]⟩
      · refine .inr ⟨fun index found => ?_, by rw [eq]⟩
        cases index with
        | zero => exact reached (finds_zero.1 found)
        | succ index => exact none index ((finds_succ index).1 found).2

theorem recorded_modify {index : ℕ} (inside : index < records.length) :
    recorded (records.modify index Transactions.updateFailed) = recorded records - 1 / 100 := by
  induction records generalizing index with
  | nil => exact absurd inside (Nat.not_lt_zero index)
  | cons record records ih =>
    cases index with
    | zero =>
      simp only [modify_zero_cons, recorded_cons, Transactions.updateFailed]
      push_cast
      ring
    | succ index =>
      rw [modify_succ_cons, recorded_cons, ih (Nat.lt_of_succ_lt_succ inside), recorded_cons]
      ring

theorem modify_injective {index other : ℕ} (inside : index < records.length)
    (eq : records.modify index Transactions.updateFailed =
      records.modify other Transactions.updateFailed) : index = other := by
  by_contra different
  have there := congrArg (fun list => list[index]?) eq
  simp [Ne.symm different, getElem?_eq_getElem inside,
    Transactions.updateFailed, Transactions.ext_iff] at there

theorem recorded_marked_iff (visit : Visit) :
    recorded visit.records - 1 / 100 = recorded visit.marked ↔ ∃ index, visit.Finds index := by
  rcases visit.marked_cases with ⟨index, found, eq⟩ | ⟨none, eq⟩
  · exact iff_of_true (by rw [eq, recorded_modify found.1]) ⟨index, found⟩
  · refine iff_of_false (fun same => ?_) fun ⟨index, found⟩ => none index found
    rw [eq] at same
    linarith

theorem right_iff {visit : Visit} (found : ∃ index, visit.Finds index) :
    visit.Right ↔ ∀ index, visit.Contains index → visit.Finds index := by
  obtain ⟨place, finds, eq⟩ | ⟨none, -⟩ := visit.marked_cases
  · refine forall₂_congr fun index contains => ?_
    rw [eq]
    constructor
    · intro same
      obtain rfl := modify_injective finds.1 same
      exact finds
    · intro also
      rw [finds.unique also]
  · exact absurd found (not_exists.2 none)

end Visit

/-! ### Runs -/

section Service

variable {Id : Type*} [DecidableEq Id] {usePlan : Bool}

theorem getAccountTransactions_accounted (id : Id) (reply : Reply) {users : List (BadUser Id)}
    (before : ∀ user ∈ users, user.Accounted) :
    ∀ user ∈ getAccountTransactions usePlan id reply users, user.Accounted := by
  induction users with
  | nil => exact before
  | cons user users ih =>
    obtain ⟨first, rest⟩ := forall_mem_cons.1 before
    rw [getAccountTransactions]
    split
    · exact forall_mem_cons.2 ⟨first.requestForPlan usePlan reply, rest⟩
    · exact forall_mem_cons.2 ⟨first, ih rest⟩

theorem failedTransactions_accounted_iff (id : Id) (group rank : ℤ) (count : ℕ)
    {users : List (BadUser Id)} (before : ∀ user ∈ users, user.Accounted) :
    (∀ user ∈ failedTransactions id group rank count users, user.Accounted) ↔
      ∀ visit ∈ visitsFrom id group rank count users, ∃ index, visit.Finds index := by
  induction users generalizing count with
  | nil => simp [failedTransactions, visitsFrom]
  | cons user users ih =>
    obtain ⟨first, rest⟩ := forall_mem_cons.1 before
    rw [failedTransactions, visitsFrom]
    split
    · rw [forall_mem_cons, forall_mem_cons, ih _ rest]
      refine and_congr_left' ?_
      rw [← Visit.recorded_marked_iff, BadUser.Accounted, first]
      rfl
    · rw [forall_mem_cons, ih _ rest]
      exact and_iff_right first

theorem mem_states_self (users : List (BadUser Id)) (requests : List (Request Id)) :
    users ∈ states usePlan users requests := by
  cases requests <;> simp [states]

theorem run_right_iff {users : List (BadUser Id)} (before : ∀ user ∈ users, user.Accounted)
    (requests : List (Request Id)) :
    (∀ state ∈ states usePlan users requests, ∀ user ∈ state, user.Accounted) ∧
        (∀ visit ∈ visits usePlan users requests, visit.Right) ↔
      ∀ visit ∈ visits usePlan users requests, visit.Matched := by
  induction requests generalizing users with
  | nil => simpa [states, visits] using before
  | cons request requests ih =>
    rw [states, forall_mem_cons, and_iff_right before]
    cases request with
    | getAccountTransactions id reply =>
      rw [visits]
      exact ih (getAccountTransactions_accounted id reply before)
    | failedTransactions id group rank =>
      have found := failedTransactions_accounted_iff id (group - 1) rank 0 before
      rw [visits, forall_mem_append, forall_mem_append]
      constructor
      · rintro ⟨accounted, right, later⟩
        have after := accounted _ (mem_states_self _ requests)
        refine ⟨fun visit mem => ?_, (ih after).1 ⟨accounted, later⟩⟩
        have finds := found.1 after visit mem
        exact ⟨finds, (Visit.right_iff finds).1 (right visit mem)⟩
      · rintro ⟨matched, later⟩
        have after := found.2 fun visit mem => (matched visit mem).1
        obtain ⟨accounted, right⟩ := (ih after).2 later
        refine ⟨accounted, fun visit mem => ?_, right⟩
        exact (Visit.right_iff (matched visit mem).1).2 (matched visit mem).2

end Service

/-- The accounts are right exactly if every failure report finds a record, and the one with the
transaction if there is one. -/
theorem accounting_right_iff {Id : Type*} [DecidableEq Id] (usePlan : Bool)
    (registrations : List (Registration Id)) (requests : List (Request Id)) :
    AccountsRight usePlan registrations requests ↔
      ∀ visit ∈ visits usePlan (registrations.map BadUser.registered) requests, visit.Matched := by
  refine run_right_iff (fun user mem => ?_) requests
  obtain ⟨registration, -, rfl⟩ := mem_map.1 mem
  simp [BadUser.Accounted, BadUser.registered]

/-- Group 2 are the minutes 10 to 19, but only a record of minute 20 would be found. -/
theorem accounting_misses_group :
    let visit : Visit := ⟨1, 1, 0, [⟨11, 2, 0⟩, ⟨12, 1, 0⟩]⟩
    let requests : List (Request ℕ) :=
      [.getAccountTransactions 7 (.plan [1, 1, 2]), .failedTransactions 7 2 1]
    visits false ([⟨7, false, []⟩].map BadUser.registered) requests = [visit] ∧
      visit.Contains 0 ∧ visit.marked = visit.records ∧
      ¬ AccountsRight false [⟨7, false, []⟩] requests := by
  intro visit requests
  have visited : visits false ([⟨7, false, []⟩].map BadUser.registered) requests = [visit] := rfl
  have contains : visit.Contains 0 := by decide
  have unmarked : visit.marked = visit.records := by decide +kernel
  refine ⟨visited, contains, unmarked, fun ⟨_, right⟩ => ?_⟩
  have marked := right visit (visited ▸ mem_singleton_self visit) 0 contains
  exact absurd (unmarked.symm.trans marked) (by decide)

end TigerMixer.Agent
