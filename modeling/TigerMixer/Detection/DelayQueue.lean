import TigerMixer.Data.LinkedList
import TigerMixer.Detection.Queue

/-!
# The delay queue in memory

An item is appended behind the tail, processed in place, and unlinked and freed when it is not
waiting any more. Every access is checked, so that a result means that no pointer was followed to a
block that is not in use.
-/

namespace TigerMixer.Detection

open LinkedList Function List

/-! ### The functions -/

structure Queued where
  ticket : ℕ
  item : Item

structure DelayQueue where
  memory : Memory Queued
  head : Option ℕ
  tail : Option ℕ
  count : ℤ

/-- `malloc` finds no block, or one that is not in use. -/
structure Allocator where
  choose : Memory Queued → Option ℕ
  fresh : ∀ memory place, choose memory = some place → memory place = none

def wrap (count : ℤ) : ℤ := Int.bmod count (2 ^ 32)

namespace DelayQueue

def empty : DelayQueue := ⟨fun _ => none, none, none, 0⟩

def append (queue : DelayQueue) (place : ℕ) (queued : Queued) : Option DelayQueue :=
  let memory := update queue.memory place (some ⟨queued, none⟩)
  match queue.tail with
  | some tail => (memory tail).map fun node =>
    { memory := update memory tail (some { node with next := some place })
      head := queue.head
      tail := some place
      count := wrap (queue.count + 1) }
  | none => some { memory, head := some place, tail := some place, count := wrap (queue.count + 1) }

end DelayQueue

def Queued.processed (now : ℕ) (succeeds : ℕ → Bool) (queued : Queued) : Queued :=
  if queued.item.Ready now then
    { queued with
      item := { queued.item with status := if succeeds queued.ticket then .sent else .expired } }
  else queued

@[simp]
theorem Queued.ticket_processed (now : ℕ) (succeeds : ℕ → Bool) (queued : Queued) :
    (queued.processed now succeeds).ticket = queued.ticket := by
  unfold processed
  split <;> rfl

@[simp]
theorem Queued.readyTime_processed (now : ℕ) (succeeds : ℕ → Bool) (queued : Queued) :
    (queued.processed now succeeds).item.readyTime = queued.item.readyTime := by
  unfold processed
  split <;> rfl

variable {queued : Queued} {fuel : ℕ} {place : ℕ} {front back : List (ℕ × Queued)}

theorem Queued.waiting_processed_iff {now : ℕ} {succeeds : ℕ → Bool} :
    (queued.processed now succeeds).item.status = .waiting ↔
      queued.item.status = .waiting ∧ now < queued.item.readyTime := by
  unfold processed
  split
  case isTrue ready =>
    cases succeeds queued.ticket <;> simp [ready.2]
  case isFalse ready =>
    simp only [Item.Ready, not_and, not_le] at ready
    exact ⟨fun waiting => ⟨waiting, ready waiting⟩, And.left⟩

def processLoop (now : ℕ) (succeeds : ℕ → Bool) :
    ℕ → Option ℕ → Memory Queued → Option (Memory Queued × List ℕ)
  | 0, _, _ => none
  | _ + 1, none, memory => some (memory, [])
  | fuel + 1, some current, memory => do
      let node ← memory current
      let memory := update memory current
        (some { node with value := node.value.processed now succeeds })
      let (memory, tickets) ← processLoop now succeeds fuel node.next memory
      return (memory, if node.value.item.Ready now then node.value.ticket :: tickets else tickets)

namespace DelayQueue

def unlink (queue : DelayQueue) (prev next : Option ℕ) : Option DelayQueue :=
  match prev with
  | some prev => (queue.memory prev).map fun node =>
    { queue with memory := update queue.memory prev (some { node with next }) }
  | none => some { queue with head := next }

def cleanupLoop : ℕ → Option ℕ → Option ℕ → DelayQueue → Option (DelayQueue × List ℕ)
  | 0, _, _, _ => none
  | _ + 1, _, none, queue => some (queue, [])
  | fuel + 1, prev, some current, queue => do
      let node ← queue.memory current
      if node.value.item.status = .waiting then
        cleanupLoop fuel (some current) node.next queue
      else
        let unlinked ← queue.unlink prev node.next
        let toFree ← unlinked.memory current
        let (queue, freed) ← cleanupLoop fuel prev toFree.next
          { unlinked with
            memory := update unlinked.memory current none
            tail := if some current = unlinked.tail then prev else unlinked.tail
            count := wrap (unlinked.count - 1) }
        return (queue, current :: freed)

end DelayQueue

inductive Operation where
  | add (txHash address : Bytes) (now : ℕ) (allocator : Allocator)
  | process (now : ℕ) (succeeds : ℕ → Bool)
  | cleanup

structure Effect where
  added : List ℕ := []
  processed : List ℕ := []
  freed : List ℕ := []

def DelayQueue.step (fuel ticket : ℕ) (queue : DelayQueue) :
    Operation → Option (DelayQueue × Effect)
  | .add txHash address now allocator =>
    match allocator.choose queue.memory with
    | none => some (queue, {})
    | some place =>
      (queue.append place ⟨ticket, delayItem txHash address now⟩).map (·, { added := [ticket] })
  | .process now succeeds =>
    (processLoop now succeeds fuel queue.head queue.memory).map fun (memory, tickets) =>
      ({ queue with memory }, { processed := tickets })
  | .cleanup =>
    (queue.cleanupLoop fuel none queue.head).map fun (queue, freed) => (queue, { freed })

structure CallLog where
  queue : DelayQueue
  log : List (Operation × Effect)

def CallLog.step (fuel : ℕ) (calls : CallLog) (operation : Operation) : Option CallLog :=
  (calls.queue.step fuel calls.log.length operation).map fun (queue, effect) =>
    ⟨queue, (operation, effect) :: calls.log⟩

def execute (fuel : ℕ) (operations : List Operation) : Option CallLog :=
  operations.foldlM (CallLog.step fuel) ⟨.empty, []⟩

/-! ### What the calls do to the list -/

/-- The entries are those of the linked list from head to tail, and there are no other blocks. -/
structure DelayQueue.Holds (queue : DelayQueue) (entries : List (ℕ × Queued)) : Prop where
  linked : Segment queue.memory queue.head entries none
  distinct : (places entries).Nodup
  tail : queue.tail = (places entries).getLast?
  blocks : ∀ place, queue.memory place ≠ none → place ∈ places entries
  count : queue.count = wrap entries.length

variable {queue : DelayQueue} {entries : List (ℕ × Queued)}

theorem DelayQueue.holds_empty : empty.Holds [] where
  linked := rfl
  distinct := nodup_nil
  tail := rfl
  blocks _ used := absurd rfl used
  count := rfl

namespace DelayQueue.Holds

theorem append (holds : queue.Holds entries) {place : ℕ} (fresh : queue.memory place = none)
    (queued : Queued) :
    ∃ after, queue.append place queued = some after ∧
      after.Holds (entries ++ [(place, queued)]) := by
  have outside : place ∉ places entries := fun mem => holds.linked.ne_none_of_mem mem fresh
  have distinct : (places (entries ++ [(place, queued)])).Nodup := by
    rw [places, map_append]
    exact nodup_append'.2 ⟨holds.distinct, by simp, by simpa using outside⟩
  have count : wrap (queue.count + 1) = wrap (entries ++ [(place, queued)]).length := by
    simp [holds.count, wrap]
  rcases entries.eq_nil_or_concat' with rfl | ⟨front, ⟨last, value⟩, rfl⟩
  · have tail : queue.tail = none := holds.tail
    refine ⟨_, by rw [DelayQueue.append, tail], ?_, distinct, rfl, fun other used => ?_, count⟩
    · exact ⟨rfl, none, update_self .., rfl⟩
    · rcases ne_none_of_update used with rfl | used
      · simp
      · exact absurd (holds.blocks other used) not_mem_nil
  · have tail : queue.tail = some last := by simpa using holds.tail
    have first : last ∉ places front := by
      have := holds.distinct
      rw [places, map_append] at this
      exact fun mem => (nodup_append'.1 this).2.2 mem (by simp)
    have apart : place ≠ last := by
      rintro rfl
      simp at outside
    have linked := holds.linked.update outside (some ⟨queued, none⟩)
    rcases Segment.append_iff.1 linked with ⟨middle, -, node⟩
    have appended : queue.append place queued = some
        ⟨update (update queue.memory place (some ⟨queued, none⟩)) last
          (some ⟨value, some place⟩), queue.head, some place, wrap (queue.count + 1)⟩ := by
      simp [DelayQueue.append, tail, (Segment.singleton_iff.1 node).2]
    refine ⟨_, appended, ?_, distinct, by simp, fun other used => ?_, count⟩
    · refine Segment.append_iff.2 ⟨_, linked.relink first (some place), Segment.singleton_iff.2 ?_⟩
      exact ⟨rfl, (update_of_ne apart ..).trans (update_self ..)⟩
    · rcases ne_none_of_update used with rfl | used
      · simp
      rcases ne_none_of_update used with rfl | used
      · simp
      · rw [places, map_append]
        exact mem_append_left _ (holds.blocks other used)

end DelayQueue.Holds

theorem processLoop_spec {memory : Memory Queued} {start : Option ℕ} (now : ℕ) (succeeds : ℕ → Bool)
    (linked : Segment memory start entries none) (distinct : (places entries).Nodup)
    (enough : entries.length < fuel) :
    ∃ after, processLoop now succeeds fuel start memory =
        some (after, (entries.filter fun entry => entry.2.item.Ready now).map (·.2.ticket)) ∧
      Segment after start
        (entries.map fun entry => (entry.1, entry.2.processed now succeeds)) none ∧
      ∀ place, place ∉ places entries → after place = memory place := by
  induction entries generalizing memory start fuel with
  | nil =>
    obtain rfl : start = none := linked
    obtain ⟨fuel, rfl⟩ := Nat.exists_eq_succ_of_ne_zero (Nat.ne_of_gt enough)
    exact ⟨memory, rfl, rfl, fun _ _ => rfl⟩
  | cons entry entries ih =>
    rcases entry with ⟨place, queued⟩
    rcases linked with ⟨rfl, next, node, rest⟩
    rcases nodup_cons.1 distinct with ⟨outside, distinct⟩
    obtain ⟨fuel, rfl⟩ := Nat.exists_eq_succ_of_ne_zero (Nat.ne_of_gt (Nat.zero_lt_of_lt enough))
    rcases ih (rest.update outside (some ⟨queued.processed now succeeds, next⟩)) distinct
      (Nat.lt_of_succ_lt_succ enough) with ⟨after, done, linked, others⟩
    refine ⟨after, ?_, ⟨rfl, next, ?_, linked⟩, fun other absent => ?_⟩
    · by_cases ready : queued.item.Ready now <;> simp [processLoop, node, done, ready]
    · rw [others place outside, update_self]
    · rcases not_or.1 (mem_cons.not.1 absent) with ⟨apart, absent⟩
      rw [others other absent, update_of_ne apart]

theorem DelayQueue.Holds.process (holds : queue.Holds entries) (now : ℕ) (succeeds : ℕ → Bool)
    (enough : entries.length < fuel) :
    ∃ memory, processLoop now succeeds fuel queue.head queue.memory =
        some (memory, (entries.filter fun entry => entry.2.item.Ready now).map (·.2.ticket)) ∧
      DelayQueue.Holds { queue with memory }
        (entries.map fun entry => (entry.1, entry.2.processed now succeeds)) := by
  rcases processLoop_spec now succeeds holds.linked holds.distinct enough with
    ⟨memory, done, linked, others⟩
  have same : places (entries.map fun entry => (entry.1, entry.2.processed now succeeds)) =
      places entries := by simp
  refine ⟨memory, done, linked, same ▸ holds.distinct, same ▸ holds.tail, fun place used => ?_,
    by simpa using holds.count⟩
  rw [same]
  by_contra absent
  exact absent (holds.blocks place (others place absent ▸ used))

theorem getLast?_of_removed {front back : List ℕ} (distinct : (front ++ place :: back).Nodup) :
    (if some place = (front ++ place :: back).getLast? then front.getLast?
      else (front ++ place :: back).getLast?) = (front ++ back).getLast? := by
  rcases back.eq_nil_or_concat' with rfl | ⟨back, last, rfl⟩
  · simp
  · have apart : place ≠ last := by
      rintro rfl
      simp [nodup_append] at distinct
    rw [← cons_append, ← append_assoc, ← append_assoc, getLast?_concat,
      getLast?_concat, if_neg (by simpa using apart)]

theorem DelayQueue.Holds.remove (holds : queue.Holds (front ++ (place, queued) :: back)) :
    ∃ unlinked, queue.unlink (places front).getLast? (places back).head? = some unlinked ∧
      unlinked.memory place = some ⟨queued, (places back).head?⟩ ∧
      DelayQueue.Holds
        { unlinked with
          memory := update unlinked.memory place none
          tail := if some place = unlinked.tail then (places front).getLast? else unlinked.tail
          count := wrap (unlinked.count - 1) }
        (front ++ back) := by
  have distinct := holds.distinct
  rw [places, map_append, map_cons] at distinct
  have outside : place ∉ places (front ++ back) := by
    simpa using (nodup_middle.1 distinct).notMem
  have tail := getLast?_of_removed distinct
  have removed : (places (front ++ back)).Nodup := by
    simpa using (nodup_middle.1 distinct).of_cons
  have count : wrap (queue.count - 1) = wrap (front ++ back).length := by
    simp [holds.count, wrap, ← add_assoc]
  rcases Segment.append_iff.1 holds.linked with ⟨middle, left, rfl, next, node, right⟩
  obtain rfl := right.start_eq
  have blocks {memory : Memory Queued} (same : ∀ other, memory other ≠ none →
      queue.memory other ≠ none) (other : ℕ)
      (used : update memory place none other ≠ none) : other ∈ places (front ++ back) := by
    have apart : other ≠ place := by
      rintro rfl
      exact used (update_self ..)
    rw [update_of_ne apart] at used
    simpa [apart] using holds.blocks other (same other used)
  rw [places, map_append, mem_append, not_or] at outside
  rcases front.eq_nil_or_concat' with rfl | ⟨front, ⟨last, value⟩, rfl⟩
  · refine ⟨_, rfl, node, right.update outside.2 none, removed, ?_,
      blocks fun _ used => used, count⟩
    simpa [holds.tail] using tail
  · have apart : place ≠ last := by
      rintro rfl
      simp at outside
    have others : last ∉ places front ∧ last ∉ places back := by
      simp only [places, map_append, map_cons, map_nil] at removed
      rw [append_assoc, singleton_append] at removed
      simpa [places] using (nodup_middle.1 removed).notMem
    have linked := left.relink others.1 (places back).head?
    rcases Segment.append_iff.1 left with ⟨_, -, lastNode⟩
    have unlinked : queue.unlink (places (front ++ [(last, value)])).getLast? (places back).head? =
        some
          { queue with
            memory := update queue.memory last (some ⟨value, (places back).head?⟩) } := by
      simp [unlink, (Segment.singleton_iff.1 lastNode).2]
    refine ⟨_, unlinked, (update_of_ne apart ..).trans node, ?_, removed, ?_,
      blocks fun other used => ?_, count⟩
    · refine Segment.append_iff.2 ⟨_, linked.update outside.1 none, ?_⟩
      exact (right.update others.2 _).update outside.2 none
    · simpa [holds.tail] using tail
    · rcases ne_none_of_update used with rfl | used
      · rw [(Segment.singleton_iff.1 lastNode).2]
        exact Option.some_ne_none _
      · exact used

theorem DelayQueue.Holds.cleanupLoop (holds : queue.Holds (front ++ back))
    (enough : back.length < fuel) :
    ∃ after, queue.cleanupLoop fuel (places front).getLast? (places back).head? =
        some (after, places (back.filter fun entry => entry.2.item.status ≠ .waiting)) ∧
      after.Holds (front ++ back.filter fun entry => entry.2.item.status = .waiting) := by
  induction back generalizing queue front fuel with
  | nil =>
    rcases Nat.exists_eq_succ_of_ne_zero (Nat.ne_of_gt enough) with ⟨fuel, rfl⟩
    exact ⟨queue, rfl, by simpa using holds⟩
  | cons entry back ih =>
    rcases entry with ⟨place, queued⟩
    rcases Nat.exists_eq_succ_of_ne_zero (Nat.ne_of_gt (Nat.zero_lt_of_lt enough)) with ⟨fuel, rfl⟩
    rcases Segment.append_iff.1 holds.linked with ⟨_, -, -, _, node, right⟩
    rw [right.start_eq] at node
    by_cases waiting : queued.item.status = .waiting
    · rcases @ih fuel (front ++ [(place, queued)]) queue (by simpa using holds)
        (Nat.lt_of_succ_lt_succ enough) with ⟨after, done, holds⟩
      refine ⟨after, ?_, by simpa [waiting] using holds⟩
      simpa [DelayQueue.cleanupLoop, node, waiting] using done
    · rcases holds.remove with ⟨unlinked, moved, toFree, holds⟩
      rcases ih holds (Nat.lt_of_succ_lt_succ enough) with ⟨after, done, holds⟩
      refine ⟨after, ?_, by simpa [waiting] using holds⟩
      change DelayQueue.cleanupLoop (fuel + 1) (places front).getLast? (some place) queue = _
      simp only [DelayQueue.cleanupLoop, node, waiting, moved, toFree, done, Option.bind_eq_bind,
        Option.bind_some, if_false]
      simp [waiting]

theorem DelayQueue.Holds.cleanup (holds : queue.Holds entries) (enough : entries.length < fuel) :
    ∃ after, queue.cleanupLoop fuel none queue.head =
        some (after, places (entries.filter fun entry => entry.2.item.status ≠ .waiting)) ∧
      after.Holds (entries.filter fun entry => entry.2.item.status = .waiting) := by
  rw [holds.linked.start_eq]
  exact @cleanupLoop fuel [] entries queue holds enough

/-! ### Whole histories -/

def Moves (ticket : ℕ) (entries after : List (ℕ × Queued)) (effect : Effect) : Operation → Prop
  | .add txHash address now _ =>
    after = entries ∧ effect = {} ∨
      ∃ place, after = entries ++ [(place, ⟨ticket, delayItem txHash address now⟩)] ∧
        effect = { added := [ticket] }
  | .process now succeeds =>
    after = entries.map (fun entry => (entry.1, entry.2.processed now succeeds)) ∧
      effect =
        { processed := (entries.filter fun entry => entry.2.item.Ready now).map (·.2.ticket) }
  | .cleanup =>
    after = entries.filter (fun entry => entry.2.item.status = .waiting) ∧
      effect = { freed := places (entries.filter fun entry => entry.2.item.status ≠ .waiting) }

theorem DelayQueue.Holds.step (holds : queue.Holds entries) (enough : entries.length < fuel)
    (ticket : ℕ) (operation : Operation) :
    ∃ after effect later, queue.step fuel ticket operation = some (after, effect) ∧
      after.Holds later ∧ Moves ticket entries later effect operation := by
  cases operation with
  | add txHash address now allocator =>
    cases found : allocator.choose queue.memory with
    | none => exact ⟨queue, {}, entries, by simp [DelayQueue.step, found], holds, .inl ⟨rfl, rfl⟩⟩
    | some place =>
      rcases holds.append (allocator.fresh _ _ found) ⟨ticket, delayItem txHash address now⟩ with
        ⟨after, done, holds⟩
      exact ⟨after, _, _, by simp [DelayQueue.step, found, done], holds, .inr ⟨place, rfl, rfl⟩⟩
  | process now succeeds =>
    rcases holds.process now succeeds enough with ⟨memory, done, holds⟩
    exact ⟨_, _, _, by simp [DelayQueue.step, done], holds, rfl, rfl⟩
  | cleanup =>
    rcases holds.cleanup enough with ⟨after, done, holds⟩
    exact ⟨_, _, _, by simp [DelayQueue.step, done], holds, rfl, rfl⟩

/-- An item that is ready at this time has been added, and there was no pass from then on since. -/
def Pending : List (Operation × Effect) → ℕ → ℕ → Prop
  | [], _, _ => False
  | (.add _ _ now _, effect) :: log, ticket, ready =>
    Pending log ticket ready ∨ ticket ∈ effect.added ∧ ready = now + delaySeconds
  | (.process now _, _) :: log, ticket, ready => Pending log ticket ready ∧ now < ready
  | (.cleanup, _) :: log, ticket, ready => Pending log ticket ready

/-- A pass processes exactly the pending items that are ready, and the other calls none. -/
def Timed : List (Operation × Effect) → Prop
  | [] => True
  | (operation, effect) :: log => Timed log ∧
      ∀ ticket, ticket ∈ effect.processed ↔
        ∃ now succeeds ready, operation = .process now succeeds ∧ ready ≤ now ∧
          Pending log ticket ready

structure Reached (log : List (Operation × Effect)) (entries : List (ℕ × Queued)) : Prop where
  few : entries.length ≤ log.length
  ordered : (entries.map (·.2.ticket)).Pairwise (· < ·)
  earlier : ∀ entry ∈ entries, entry.2.ticket < log.length
  waiting : ∀ ticket ready, (∃ entry ∈ entries, entry.2.ticket = ticket ∧
    entry.2.item.status = .waiting ∧ entry.2.item.readyTime = ready) ↔ Pending log ticket ready
  timed : Timed log
  processed : (log.flatMap (·.2.processed)).Nodup
  settled : ∀ ticket ∈ log.flatMap (·.2.processed), ticket < log.length ∧
    ∀ ready, ¬Pending log ticket ready

namespace Reached

variable {operation : Operation} {log : List (Operation × Effect)} {effect : Effect}
  {later : List (ℕ × Queued)} {ticket ready : ℕ}

theorem nil : Reached [] [] := by
  constructor <;> simp [Pending, Timed]

section Step

variable (reached : Reached log entries) (moves : Moves log.length entries later effect operation)

include reached moves

theorem waiting_step :
    (∃ entry ∈ later, entry.2.ticket = ticket ∧ entry.2.item.status = .waiting ∧
        entry.2.item.readyTime = ready) ↔ Pending ((operation, effect) :: log) ticket ready := by
  cases operation with
  | add txHash address now allocator =>
    rw [Pending, ← reached.waiting]
    rcases moves with ⟨rfl, rfl⟩ | ⟨place, rfl, rfl⟩
    · simp
    · simp only [mem_append, mem_singleton, or_and_right, exists_or, exists_eq_left]
      simp [delayItem, eq_comm]
  | process now succeeds =>
    rw [Pending, ← reached.waiting, moves.1]
    simp only [mem_map, exists_exists_and_eq_and, Queued.ticket_processed,
      Queued.readyTime_processed, Queued.waiting_processed_iff]
    constructor
    · rintro ⟨entry, mem, rfl, ⟨waiting, notYet⟩, rfl⟩
      exact ⟨⟨entry, mem, rfl, waiting, rfl⟩, notYet⟩
    · rintro ⟨⟨entry, mem, rfl, waiting, rfl⟩, notYet⟩
      exact ⟨entry, mem, rfl, ⟨waiting, notYet⟩, rfl⟩
  | cleanup =>
    rw [Pending, ← reached.waiting, moves.1]
    simp only [mem_filter, decide_eq_true_eq]
    exact exists_congr fun entry => by tauto

theorem mem_processed_iff :
    ticket ∈ effect.processed ↔ ∃ now succeeds ready, operation = .process now succeeds ∧
      ready ≤ now ∧ Pending log ticket ready := by
  simp only [← reached.waiting]
  cases operation with
  | add txHash address now allocator => rcases moves with ⟨-, rfl⟩ | ⟨_, -, rfl⟩ <;> simp
  | cleanup => simp [moves.2]
  | process now succeeds =>
    rw [moves.2]
    simp only [mem_map, mem_filter, decide_eq_true_eq, Operation.process.injEq]
    constructor
    · rintro ⟨entry, ⟨mem, waiting, ready⟩, rfl⟩
      exact ⟨now, succeeds, _, ⟨rfl, rfl⟩, ready, entry, mem, rfl, waiting, rfl⟩
    · rintro ⟨_, _, _, ⟨rfl, rfl⟩, ready, entry, mem, rfl, waiting, rfl⟩
      exact ⟨entry, ⟨mem, waiting, ready⟩, rfl⟩

theorem tickets_step :
    (later.map (·.2.ticket)).Pairwise (· < ·) ∧ later.length ≤ entries.length + 1 ∧
      (∀ entry ∈ later, entry.2.ticket ≤ log.length) ∧ effect.processed.Nodup := by
  have earlier : ∀ entry ∈ entries, entry.2.ticket ≤ log.length :=
    fun entry mem => (reached.earlier entry mem).le
  cases operation with
  | add txHash address now allocator =>
    rcases moves with ⟨rfl, rfl⟩ | ⟨place, rfl, rfl⟩
    · exact ⟨reached.ordered, Nat.le_succ _, earlier, .nil⟩
    · refine ⟨?_, by simp, ?_, .nil⟩
      · rw [map_append, pairwise_append]
        refine ⟨reached.ordered, by simp, ?_⟩
        simpa using fun _ place queued mem same => same ▸ reached.earlier (place, queued) mem
      · simpa [or_imp, forall_and] using fun place queued mem => earlier (place, queued) mem
  | process now succeeds =>
    rcases moves with ⟨rfl, rfl⟩
    refine ⟨by simpa [comp_def] using reached.ordered, by simp, ?_, ?_⟩
    · exact forall_mem_map.2 fun entry mem => by simpa using earlier entry mem
    · exact (reached.ordered.sublist (filter_sublist.map _)).nodup
  | cleanup =>
    rcases moves with ⟨rfl, rfl⟩
    refine ⟨reached.ordered.sublist (filter_sublist.map _), ?_, ?_, .nil⟩
    · exact (length_filter_le ..).trans (Nat.le_succ _)
    · exact fun entry mem => earlier entry (mem_of_mem_filter mem)

theorem not_pending_of_processed (mem : ticket ∈ effect.processed) :
    ticket < log.length ∧ ¬Pending ((operation, effect) :: log) ticket ready := by
  rcases (reached.mem_processed_iff moves).1 mem with ⟨now, succeeds, time, rfl, due, pending⟩
  rcases (reached.waiting _ _).2 pending with ⟨entry, inside, rfl, -, rfl⟩
  refine ⟨reached.earlier entry inside, fun again => ?_⟩
  rcases (reached.waiting _ _).2 again.1 with ⟨other, otherInside, same, -, rfl⟩
  obtain rfl := inj_on_of_nodup_map reached.ordered.nodup otherInside inside same
  exact absurd again.2 (not_lt.2 due)

end Step

theorem pending_of_cons (moves : Moves log.length entries later effect operation)
    (old : ticket < log.length) (pending : Pending ((operation, effect) :: log) ticket ready) :
    Pending log ticket ready := by
  cases operation with
  | add txHash address now allocator =>
    refine pending.resolve_right fun ⟨mem, _⟩ => ?_
    rcases moves with ⟨-, rfl⟩ | ⟨_, -, rfl⟩
    · cases mem
    · exact old.ne (mem_singleton.1 mem)
  | process now succeeds => exact pending.1
  | cleanup => exact pending

theorem step (reached : Reached log entries)
    (moves : Moves log.length entries later effect operation) :
    Reached ((operation, effect) :: log) later := by
  rcases reached.tickets_step moves with ⟨ordered, few, earlier, sorted⟩
  refine ⟨few.trans (Nat.succ_le_succ reached.few), ordered,
    fun entry mem => Nat.lt_succ_of_le (earlier entry mem),
    fun _ _ => reached.waiting_step moves,
    ⟨reached.timed, fun _ => reached.mem_processed_iff moves⟩, ?_, ?_⟩
  · rw [flatMap_cons, nodup_append']
    refine ⟨sorted, reached.processed, fun ticket mem before => ?_⟩
    rcases (reached.mem_processed_iff moves).1 mem with ⟨_, _, ready, -, -, pending⟩
    exact (reached.settled ticket before).2 ready pending
  · intro ticket mem
    rw [flatMap_cons, mem_append] at mem
    rcases mem with mem | before
    · refine ⟨?_, fun ready => (reached.not_pending_of_processed moves mem).2⟩
      exact Nat.lt_succ_of_lt (@not_pending_of_processed _ _ _ _ _ _ 0 reached moves mem).1
    · rcases reached.settled ticket before with ⟨old, settled⟩
      exact ⟨Nat.lt_succ_of_lt old, fun ready pending =>
        settled ready (pending_of_cons moves old pending)⟩

end Reached

theorem exists_reached (operations : List Operation) (enough : operations.length < fuel) :
    ∃ calls entries, execute fuel operations = some calls ∧
      calls.log.map Prod.fst = operations.reverse ∧ calls.queue.Holds entries ∧
      Reached calls.log entries := by
  induction operations using List.reverseRecOn with
  | nil => exact ⟨_, [], rfl, rfl, DelayQueue.holds_empty, .nil⟩
  | append_singleton operations operation ih =>
    rw [length_append, length_singleton] at enough
    rcases ih (Nat.lt_of_succ_lt enough) with ⟨calls, entries, done, same, holds, reached⟩
    have few := reached.few
    have length := congrArg List.length same
    rw [length_map, length_reverse] at length
    rcases holds.step (by omega : entries.length < fuel) calls.log.length operation with
      ⟨after, effect, later, stepped, holds, moves⟩
    refine ⟨⟨after, (operation, effect) :: calls.log⟩, later, ?_, by simp [same], holds,
      reached.step moves⟩
    rw [execute, foldlM_append, ← execute, done]
    simp [CallLog.step, stepped]

def firstFree : Allocator where
  choose memory := (List.range 4).find? fun place => (memory place).isNone
  fresh _ _ found := by simpa using find?_some found

/-- The block of an item that was freed is used for the next one. -/
example :
    (execute 5 [.add [1] [2] 0 firstFree, .process 30 fun _ => true, .cleanup,
        .add [3] [4] 31 firstFree]).map (fun calls =>
      (calls.log.map fun call => call.2.freed, calls.queue.head)) =
        some ([[], [0], [], []], some 0) := by
  decide +kernel

end TigerMixer.Detection
