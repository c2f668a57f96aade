import TigerMixer.Data.ByteString

/-!
# The delay queue of the detection loop

Suspicious transactions wait for thirty seconds before the auditor is invoked for them. A report is
ignored while its transaction is in the queue. For one transaction, the loop is a timer that a
report starts when it is not running.
-/

namespace TigerMixer.Detection

open List

/-! ### The loop -/

inductive Status where
  | waiting
  | sent
  | expired
  deriving DecidableEq

structure Item where
  txHash : Bytes
  address : Bytes
  detectionTime : ℕ
  readyTime : ℕ
  status : Status
  deriving DecidableEq

/-- A reported transaction, with the time and whether there is memory for an item. -/
structure Report where
  txHash : Bytes
  address : Bytes
  now : ℕ
  memory : Bool
  hashFits : txHash.length ≤ 66
  addressFits : address.length ≤ 42

def delaySeconds : ℕ := 30

def delayItem (txHash address : Bytes) (now : ℕ) : Item where
  txHash := txHash.take 66
  address := address.take 42
  detectionTime := now
  readyTime := now + delaySeconds
  status := .waiting

def createDelayItem (report : Report) : Option Item :=
  if report.memory then some (delayItem report.txHash report.address report.now) else none

def handleSuspiciousTransaction (queue : List Item) (report : Report) : List Item :=
  if queue.any fun item => item.txHash = report.txHash then queue
  else queue ++ (createDelayItem report).toList

/-- What a cycle of `main` depends on: the output of the detector, the clock, and for which items
the auditor succeeds. -/
structure Cycle where
  reports : List Report
  now : ℕ
  succeeds : Item → Bool

def Item.Ready (now : ℕ) (item : Item) : Prop :=
  item.status = .waiting ∧ item.readyTime ≤ now

instance (now : ℕ) (item : Item) : Decidable (item.Ready now) :=
  inferInstanceAs (Decidable (_ ∧ _))

def processReadyItems (cycle : Cycle) (queue : List Item) : List Item :=
  queue.map fun item =>
    if item.Ready cycle.now then
      { item with status := if cycle.succeeds item then .sent else .expired }
    else item

def invocations (cycle : Cycle) (queue : List Item) : List Bytes :=
  (queue.filter fun item => item.Ready cycle.now).map Item.txHash

def cleanupExpiredItems (queue : List Item) : List Item :=
  queue.filter fun item => item.status = .waiting

structure Loop where
  cycleCount : ℕ
  queue : List Item

def detectionInterval : ℕ := 10

def Cycle.shown (cycleCount : ℕ) (cycle : Cycle) : Cycle :=
  { cycle with reports := if cycleCount % detectionInterval = 1 then cycle.reports else [] }

def detect (queue : List Item) (cycle : Cycle) : List Item :=
  cycle.reports.foldl handleSuspiciousTransaction queue

def Loop.step (loop : Loop) (cycle : Cycle) : Loop where
  cycleCount := loop.cycleCount + 1
  queue := cleanupExpiredItems
    (processReadyItems cycle (detect loop.queue (cycle.shown (loop.cycleCount + 1))))

def audits : Loop → List Cycle → List Bytes
  | _, [] => []
  | loop, cycle :: cycles =>
    invocations cycle (detect loop.queue (cycle.shown (loop.cycleCount + 1))) ++
      audits (loop.step cycle) cycles

def observed : ℕ → List Cycle → List Cycle
  | _, [] => []
  | cycleCount, cycle :: cycles =>
    cycle.shown (cycleCount + 1) :: observed (cycleCount + 1) cycles

/-! ### One transaction -/

def readyAt (txHash : Bytes) (queue : List Item) : Option ℕ :=
  (queue.find? fun item => item.txHash = txHash).map Item.readyTime

def firstReport (txHash : Bytes) (reports : List Report) : Option ℕ :=
  (reports.find? fun report => report.memory ∧ report.txHash = txHash).map Report.now

structure Waiting (queue : List Item) : Prop where
  waiting : ∀ item ∈ queue, item.status = .waiting
  distinct : (queue.map Item.txHash).Nodup

section Step

variable {queue : List Item} {cycle : Cycle} {txHash : Bytes}

theorem createDelayItem_spec {report : Report} {item : Item}
    (created : item ∈ createDelayItem report) :
    item.txHash = report.txHash ∧ item.status = .waiting := by
  simp only [createDelayItem, Option.mem_def, Option.ite_none_right_eq_some,
    Option.some.injEq] at created
  rcases created with ⟨-, rfl⟩
  exact ⟨take_of_length_le report.hashFits, rfl⟩

theorem Waiting.handle (waiting : Waiting queue) (report : Report) :
    Waiting (handleSuspiciousTransaction queue report) := by
  unfold handleSuspiciousTransaction
  split
  · exact waiting
  · rename_i absent
    cases created : createDelayItem report with
    | none => simpa using waiting
    | some item =>
      rcases createDelayItem_spec created with ⟨sameHash, isWaiting⟩
      constructor
      · simp only [Option.toList_some, forall_mem_append, forall_mem_singleton]
        exact ⟨waiting.waiting, isWaiting⟩
      · rw [map_append, nodup_append']
        refine ⟨waiting.distinct, by simp, ?_⟩
        simpa [sameHash] using absent

theorem Waiting.of_cons {item : Item} (waiting : Waiting (item :: queue)) :
    item.status = .waiting ∧ (∀ other ∈ queue, other.txHash ≠ item.txHash) ∧ Waiting queue := by
  rcases waiting with ⟨waiting, distinct⟩
  simp only [forall_mem_cons, map_cons, nodup_cons, mem_map, not_exists,
    not_and] at waiting distinct
  exact ⟨waiting.1, distinct.1, waiting.2, distinct.2⟩

@[simp]
theorem readyAt_nil : readyAt txHash [] = none := rfl

theorem readyAt_cons (item : Item) (queue : List Item) :
    readyAt txHash (item :: queue) =
      if item.txHash = txHash then some item.readyTime else readyAt txHash queue := by
  by_cases same : item.txHash = txHash <;> simp [readyAt, same]

theorem readyAt_eq_none (absent : ∀ item ∈ queue, item.txHash ≠ txHash) :
    readyAt txHash queue = none := by
  simpa [readyAt] using absent

theorem readyAt_handle (report : Report) :
    readyAt txHash (handleSuspiciousTransaction queue report) =
      (readyAt txHash queue).or
        (if report.memory ∧ report.txHash = txHash then some (report.now + delaySeconds)
          else none) := by
  unfold handleSuspiciousTransaction
  split
  · rename_i present
    by_cases same : report.txHash = txHash
    · -- The item that is there is the one that is found.
      have found : (readyAt txHash queue).isSome = true := by
        simpa [readyAt, same] using present
      rcases Option.isSome_iff_exists.mp found with ⟨time, found⟩
      simp [found]
    · simp [same]
  · have whole := take_of_length_le report.hashFits
    simp only [readyAt, find?_append, Option.map_or, createDelayItem, delayItem, whole]
    by_cases memory : report.memory <;> by_cases same : report.txHash = txHash <;>
      simp [memory, same]

theorem detect_spec (waiting : Waiting queue) (cycle : Cycle) :
    Waiting (detect queue cycle) ∧ readyAt txHash (detect queue cycle) =
      (readyAt txHash queue).or ((firstReport txHash cycle.reports).map (· + delaySeconds)) := by
  unfold detect
  induction cycle.reports generalizing queue with
  | nil => simp [waiting, firstReport]
  | cons report reports ih =>
    rcases ih (waiting.handle report) with ⟨waiting, ready⟩
    refine ⟨waiting, ?_⟩
    rw [foldl_cons, ready, readyAt_handle, Option.or_assoc]
    by_cases memory : report.memory <;> by_cases same : report.txHash = txHash <;>
      simp [firstReport, memory, same]

theorem count_invocations (waiting : Waiting queue) :
    (invocations cycle queue).count txHash =
      if (readyAt txHash queue).any (· ≤ cycle.now) then 1 else 0 := by
  induction queue with
  | nil => simp [invocations]
  | cons item queue ih =>
    rcases waiting.of_cons with ⟨isWaiting, others, waitingRest⟩
    have rest := ih waitingRest
    unfold invocations at rest ⊢
    by_cases same : item.txHash = txHash
    · subst same
      rw [readyAt_eq_none others] at rest
      by_cases ready : item.readyTime ≤ cycle.now <;>
        simp_all [readyAt_cons, Item.Ready]
    · by_cases ready : item.readyTime ≤ cycle.now <;>
        simp_all [readyAt_cons, Item.Ready]

theorem Waiting.cleanup (waiting : Waiting queue) :
    Waiting (cleanupExpiredItems (processReadyItems cycle queue)) := by
  constructor
  · intro item member
    simpa using of_mem_filter member
  · have sameHashes : (processReadyItems cycle queue).map Item.txHash = queue.map Item.txHash := by
      simp only [processReadyItems, map_map]
      apply map_congr_left
      intro item _
      by_cases ready : item.Ready cycle.now <;> simp [ready]
    have kept : ((cleanupExpiredItems (processReadyItems cycle queue)).map Item.txHash).Sublist
        (queue.map Item.txHash) := by
      rw [← sameHashes]
      exact filter_sublist.map Item.txHash
    exact waiting.distinct.sublist kept

theorem readyAt_cleanup (waiting : Waiting queue) :
    readyAt txHash (cleanupExpiredItems (processReadyItems cycle queue)) =
      (readyAt txHash queue).filter (cycle.now < ·) := by
  induction queue with
  | nil => rfl
  | cons item queue ih =>
    rcases waiting.of_cons with ⟨isWaiting, others, waitingRest⟩
    have rest := ih waitingRest
    unfold cleanupExpiredItems processReadyItems at rest ⊢
    by_cases ready : item.readyTime ≤ cycle.now
    · have gone : ¬cycle.now < item.readyTime := by omega
      have isReady : item.Ready cycle.now := ⟨isWaiting, ready⟩
      have notWaiting : (if cycle.succeeds item then Status.sent else .expired) ≠ .waiting := by
        split <;> simp
      by_cases same : item.txHash = txHash
      · subst same
        rw [readyAt_eq_none others] at rest
        simp_all [readyAt_cons, Option.filter]
      · simp_all [readyAt_cons]
    · have later : cycle.now < item.readyTime := by omega
      have notReady : ¬item.Ready cycle.now := fun isReady => ready isReady.2
      by_cases same : item.txHash = txHash <;> simp_all [readyAt_cons, Option.filter_some]

end Step

/-! ### The timer -/

def due (txHash : Bytes) (timer : Option ℕ) (cycle : Cycle) : Option ℕ :=
  timer.or ((firstReport txHash cycle.reports).map (· + delaySeconds))

def hits (txHash : Bytes) : Option ℕ → List Cycle → ℕ
  | _, [] => 0
  | timer, cycle :: cycles =>
    (if (due txHash timer cycle).any (· ≤ cycle.now) then 1 else 0) +
      hits txHash ((due txHash timer cycle).filter (cycle.now < ·)) cycles

theorem count_audits {loop : Loop} (waiting : Waiting loop.queue) (txHash : Bytes)
    (cycles : List Cycle) :
    (audits loop cycles).count txHash =
      hits txHash (readyAt txHash loop.queue) (observed loop.cycleCount cycles) := by
  induction cycles generalizing loop with
  | nil => rfl
  | cons cycle cycles ih =>
    rcases @detect_spec _ txHash waiting (cycle.shown (loop.cycleCount + 1)) with
      ⟨detected, ready⟩
    have next : Waiting (loop.step cycle).queue := detected.cleanup
    rw [audits, observed, hits, count_append, count_invocations detected, ih next, due, ← ready]
    congr 2
    exact readyAt_cleanup detected

/-- The time is reached in the last of these cycles. -/
inductive RunsOut (time : ℕ) : List Cycle → Prop
  | now {cycle : Cycle} : time ≤ cycle.now → RunsOut time [cycle]
  | later {cycle : Cycle} {cycles : List Cycle} :
      cycle.now < time → RunsOut time cycles → RunsOut time (cycle :: cycles)

/-- A transaction is reported, and the delay behind the first report with memory is over in the last
of these cycles. -/
inductive Audited (txHash : Bytes) : List Cycle → Prop
  | idle {cycle : Cycle} {cycles : List Cycle} :
      firstReport txHash cycle.reports = none → Audited txHash cycles →
        Audited txHash (cycle :: cycles)
  | reported {cycle : Cycle} {cycles : List Cycle} {time : ℕ} :
      firstReport txHash cycle.reports = some time →
        RunsOut (time + delaySeconds) (cycle :: cycles) → Audited txHash (cycle :: cycles)

section Timer

variable {txHash : Bytes} {time : ℕ} {timer : Option ℕ} {cycle : Cycle} {part cycles : List Cycle}

theorem hits_now (reached : time ≤ cycle.now) (started : due txHash timer cycle = some time) :
    hits txHash timer (cycle :: cycles) = 1 + hits txHash none cycles := by
  have passed : ¬cycle.now < time := by omega
  simp [hits, started, reached, Option.filter, passed]

theorem hits_later (waiting : cycle.now < time) (started : due txHash timer cycle = some time) :
    hits txHash timer (cycle :: cycles) = hits txHash (some time) cycles := by
  have notReached : ¬time ≤ cycle.now := by omega
  simp [hits, started, notReached, Option.filter, waiting]

theorem hits_idle (idle : firstReport txHash cycle.reports = none) :
    hits txHash none (cycle :: cycles) = hits txHash none cycles := by
  simp [hits, due, idle]

theorem RunsOut.hits (runsOut : RunsOut time part) (rest : List Cycle) :
    hits txHash (some time) (part ++ rest) = 1 + Detection.hits txHash none rest := by
  induction runsOut with
  | now reached => exact hits_now reached rfl
  | later waiting _ ih => rw [cons_append, hits_later waiting rfl, ih]

theorem hits_reported (reported : firstReport txHash cycle.reports = some time) :
    hits txHash none (cycle :: cycles) =
      hits txHash (some (time + delaySeconds)) (cycle :: cycles) := by
  have started : due txHash none cycle = some (time + delaySeconds) := by
    simp [due, reported]
  simp only [hits, started]
  rfl

theorem Audited.hits (audited : Audited txHash part) (rest : List Cycle) :
    hits txHash none (part ++ rest) = 1 + Detection.hits txHash none rest := by
  induction audited with
  | idle idle _ ih => rw [cons_append, hits_idle idle, ih]
  | reported reported runsOut =>
    rw [cons_append, hits_reported reported, ← cons_append, runsOut.hits]

theorem exists_runsOut (hit : 0 < hits txHash (some time) cycles) :
    ∃ part rest, cycles = part ++ rest ∧ RunsOut time part := by
  induction cycles with
  | nil => simp [hits] at hit
  | cons cycle cycles ih =>
    by_cases reached : time ≤ cycle.now
    · exact ⟨[cycle], cycles, rfl, .now reached⟩
    · have waiting : cycle.now < time := by omega
      rw [hits_later waiting rfl] at hit
      rcases ih hit with ⟨part, rest, split, runsOut⟩
      exact ⟨cycle :: part, rest, by rw [split, cons_append], .later waiting runsOut⟩

theorem exists_audited (hit : 0 < hits txHash none cycles) :
    ∃ part rest, cycles = part ++ rest ∧ Audited txHash part := by
  induction cycles with
  | nil => simp [hits] at hit
  | cons cycle cycles ih =>
    cases reported : firstReport txHash cycle.reports with
    | none =>
      rw [hits_idle reported] at hit
      rcases ih hit with ⟨part, rest, split, audited⟩
      exact ⟨cycle :: part, rest, by rw [split, cons_append], .idle reported audited⟩
    | some time =>
      rw [hits_reported reported] at hit
      rcases exists_runsOut hit with ⟨_ | ⟨first, part⟩, rest, split, runsOut⟩
      · cases runsOut
      · obtain ⟨rfl, rfl⟩ := List.cons.inj split
        exact ⟨cycle :: part, rest, rfl, .reported reported runsOut⟩

theorem hits_le_one_iff :
    hits txHash none cycles ≤ 1 ↔ ∀ first second rest, cycles = first ++ second ++ rest →
      ¬(Audited txHash first ∧ Audited txHash second) := by
  constructor
  · rintro once first second rest rfl ⟨audited, again⟩
    rw [append_assoc, audited.hits, again.hits] at once
    omega
  · intro apart
    by_contra twice
    rcases exists_audited (by omega : 0 < hits txHash none cycles) with
      ⟨first, behind, rfl, audited⟩
    rw [audited.hits] at twice
    rcases exists_audited (by omega : 0 < hits txHash none behind) with
      ⟨second, rest, rfl, again⟩
    exact apart first second rest (by rw [append_assoc]) ⟨audited, again⟩

end Timer

/-- No transaction is audited twice exactly if for none there are two parts of the run that each end
with an audit. -/
theorem audited_once_iff (cycles : List Cycle) :
    (audits ⟨0, []⟩ cycles).Nodup ↔
      ∀ txHash first second rest, observed 0 cycles = first ++ second ++ rest →
        ¬(Audited txHash first ∧ Audited txHash second) := by
  have started : Waiting (Loop.mk 0 []).queue := ⟨by simp, by simp⟩
  rw [nodup_iff_count_le_one]
  apply forall_congr'
  intro txHash
  rw [count_audits started, readyAt_nil, hits_le_one_iff]

/-- A transaction that is reported again and again is audited a second time. -/
theorem audited_twice :
    ∃ (report : ℕ → Report) (txHash : Bytes), (∀ now, (report now).txHash = txHash) ∧
      audits ⟨0, []⟩ ((List.range 71).map fun now => ⟨[report now], now, fun _ => true⟩) =
        [txHash, txHash] := by
  refine ⟨fun now => ⟨.ascii ['0', '1'], .ascii ['0', '2'], now, true, by decide, by decide⟩,
    .ascii ['0', '1'], fun _ => rfl, ?_⟩
  decide +kernel

end TigerMixer.Detection
