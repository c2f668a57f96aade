import TigerMixer.Reputation.Consistency
import TigerMixer.Reputation.Contract

/-!
# The participation score

The participation of an address is the mean of two rates: of the requests to which it responded, and
of those for which it provided shares among these. The code counts all requests in an array for a
thousand of them and those of the address in one that grows, so the first rate can go beyond a
hundred.
-/

namespace TigerMixer.Reputation

open Bytes Text Table List

variable (log : List Row) (address : Bytes)

def ownRows : List Row :=
  log.filter fun row => row.responder = lower address

def responded : Finset Bytes :=
  requestIds (ownRows log address)

def completed : Finset Bytes :=
  requestIds ((ownRows log address).filter fun row => row.actualDecision = .providedShares)

def completionRate : ℕ :=
  if (responded log address).card = 0 then 0
  else 100 * (completed log address).card / (responded log address).card

def participation : ℕ :=
  if (requestIds log).card = 0 then 50
  else
    (100 * (responded log address).card / (requestIds log).card + completionRate log address) / 2

section Bounds

variable {log} {address}

theorem requestIds_mono {rows : List Row} (sublist : rows.Sublist log) :
    requestIds rows ⊆ requestIds log := by
  intro requestId member
  rw [requestIds, mem_toFinset] at member ⊢
  exact (sublist.map Row.requestId).subset member

theorem rate_le {part whole : ℕ} (le : part ≤ whole) : 100 * part / whole ≤ 100 := by
  apply Nat.div_le_of_le_mul
  rw [Nat.mul_comm]
  exact Nat.mul_le_mul_right 100 le

theorem participation_le (log : List Row) (address : Bytes) : participation log address ≤ 100 := by
  have responses : (responded log address).card ≤ (requestIds log).card :=
    Finset.card_le_card (requestIds_mono filter_sublist)
  have completions : (completed log address).card ≤ (responded log address).card :=
    Finset.card_le_card (requestIds_mono filter_sublist)
  have completion : completionRate log address ≤ 100 := by
    rw [completionRate]
    split_ifs
    · exact Nat.zero_le _
    · exact rate_le completions
  have response := rate_le responses
  rw [participation]
  split_ifs <;> omega

end Bounds

/-! ### The two passes -/

section Passes

variable {log : List Row}

section Requests

variable (shortIds : ∀ row ∈ log, row.requestId.length ≤ 127)

include shortIds

theorem length_uniqueRequests :
    (uniqueRequests (log.map Row.recorded)).length = min 1000 (requestIds log).card := by
  have keys := @map_key_table _ Row _ _ id Row.requestId (fun _ requestId => requestId)
    (fun row => row.requestId.take 127) _ _ (fun _ _ => rfl) log fun row member =>
      take_of_length_le (shortIds row member)
  rw [map_id] at keys
  rw [uniqueRequests, tableWithin_eq, length_take, table_map]
  exact congrArg (min 1000) ((congrArg List.length keys).trans (length_eraseDups _))

theorem addressRequests_eq (address : Bytes) :
    addressRequests address (log.map Row.recorded) =
      ((ownRows log address).map Row.requestId).eraseDups.map fun requestId =>
        { requestId
          addressCompleted := (rowsOf (ownRows log address) requestId).any fun row =>
            row.actualDecision = .providedShares } := by
  have own : (log.map Row.recorded).filter
      (fun recorded => lower recorded.participantAddress = lower address) =
      (ownRows log address).map Row.recorded := by
    rw [filter_map]
    rfl
  have short {row : Row} (member : row ∈ ownRows log address) :
      row.requestId.take 127 = row.requestId :=
    take_of_length_le (shortIds row (mem_of_mem_filter member))
  rw [addressRequests, own, table_map, ← map_id (table ..)]
  refine @map_table _ Row _ _ _ RequestInfo.requestId Row.requestId _ _ _ _ id
    (fun requestId rows => { requestId, addressCompleted := rows.any fun row =>
      row.actualDecision = .providedShares }) (fun row entry => ?_) (ownRows log address)
    (fun row member => short member) fun first rest same => ?_
  · rfl
  · have first_short := short (same first mem_cons_self).1
    clear same
    induction rest using List.reverseRecOn with
    | nil =>
      rw [foldl_nil, id, RequestInfo.new, first.provided_recorded]
      simp [Row.recorded, first_short]
    | append_singleton rest row ih =>
      rw [id] at ih
      rw [foldl_append, ih, ← cons_append, any_append, foldl_cons,
        foldl_nil, id, RequestInfo.add, row.provided_recorded]
      simp

theorem length_addressRequests (address : Bytes) :
    (addressRequests address (log.map Row.recorded)).length = (responded log address).card := by
  rw [addressRequests_eq shortIds, length_map, length_eraseDups]
  rfl

theorem countP_addressRequests (address : Bytes) :
    (addressRequests address (log.map Row.recorded)).countP (fun info => info.addressCompleted) =
      (completed log address).card := by
  have completes := countP_eraseDups (fun requestId =>
    (rowsOf (ownRows log address) requestId).any (fun row =>
      row.actualDecision = .providedShares) = true) ((ownRows log address).map Row.requestId)
  rw [addressRequests_eq shortIds, countP_map]
  simp only [Bool.decide_eq_true] at completes
  refine completes.trans (congrArg Finset.card (Finset.ext fun requestId => ?_))
  rw [Finset.mem_filter, completed, requestIds, mem_toFinset, mem_toFinset, mem_map,
    mem_map, any_eq_true]
  constructor
  · rintro ⟨-, row, member, provided⟩
    rw [rowsOf, mem_filter, decide_eq_true_eq] at member
    exact ⟨row, mem_filter.mpr ⟨member.1, provided⟩, member.2⟩
  · rintro ⟨row, member, rfl⟩
    rw [mem_filter] at member
    exact ⟨⟨row, member.1, rfl⟩, row, mem_filter.mpr ⟨member.1, by simp⟩, member.2⟩

end Requests

end Passes

theorem calculateParticipation_eq {log : List Row}
    (shortIds : ∀ row ∈ log, row.requestId.length ≤ 127) (address : Bytes) :
    calculateParticipationForAddress (some (logText log)) address =
      if (requestIds log).card ≤ 1000 then participation log address
      else ((responded log address).card / 10 + completionRate log address) / 2 := by
  have total := length_uniqueRequests shortIds
  have responses := length_addressRequests shortIds address
  have completions := countP_addressRequests shortIds address
  rw [calculateParticipationForAddress, decisionLines_logText]
  simp only [filterMap_decisionColumns, total, responses, completions]
  have completion : (if 0 < (responded log address).card then
      (completed log address).card * 100 / (responded log address).card else 0) =
      completionRate log address := by
    rw [completionRate, Nat.mul_comm]
    by_cases none : (responded log address).card = 0
    · rw [if_pos none, if_neg (by omega)]
    · rw [if_neg none, if_pos (by omega)]
  rw [completion]
  by_cases few : (requestIds log).card ≤ 1000
  · rw [if_pos few, Nat.min_eq_right few, participation, Nat.mul_comm]
  · have thousand : (responded log address).card * 100 / 1000 = (responded log address).card / 10 :=
      Nat.mul_div_mul_right _ 10 (by decide : 0 < 100)
    rw [if_neg few, Nat.min_eq_left (by omega), if_neg (by decide), thousand]

/-- Of longer ids the stored part is never found again, so rows are counted instead of requests. -/
theorem calculateParticipation_of_long {log : List Row}
    (long : ∀ row ∈ log, 127 < row.requestId.length) (address : Bytes) :
    calculateParticipationForAddress (some (logText log)) address =
      if log = [] then 50
      else ((ownRows log address).length * 100 / min 1000 log.length +
        (ownRows log address).countP (fun row => row.actualDecision = .providedShares) * 100 /
          (ownRows log address).length) / 2 := by
  have cut {row : Row} (member : row ∈ log) (other : Row) :
      other.requestId.take 127 ≠ row.requestId := by
    intro same
    have stored := congrArg List.length same
    rw [length_take] at stored
    have := long row member
    omega
  have total : (uniqueRequests (log.map Row.recorded)).length = min 1000 log.length := by
    rw [uniqueRequests, tableWithin_eq, table_map, table_of_apart, length_take, length_map]
    exact fun row member other _ => cut member other
  have own : addressRequests address (log.map Row.recorded) =
      (ownRows log address).map fun row => RequestInfo.new row.recorded := by
    rw [addressRequests, filter_map, table_map]
    exact table_of_apart fun row member other _ => cut (mem_of_mem_filter member) other
  have completes : ((ownRows log address).map fun row => RequestInfo.new row.recorded).countP
        (fun info => info.addressCompleted) =
      (ownRows log address).countP fun row => row.actualDecision = .providedShares := by
    rw [countP_map]
    exact countP_congr fun row _ => by simp [RequestInfo.new, row.provided_recorded]
  rw [calculateParticipationForAddress, decisionLines_logText]
  simp only [filterMap_decisionColumns, total, own, completes, length_map]
  rcases log with _ | ⟨first, rest⟩
  · rfl
  · have some : min 1000 (first :: rest).length ≠ 0 := by simp
    rw [if_neg some, if_neg (cons_ne_nil _ _)]
    rcases Nat.eq_zero_or_pos (ownRows (first :: rest) address).length with zero | positive
    · simp [zero]
    · rw [if_pos positive]

/-- The score is right exactly if there are at most a thousand requests or the rate of a thousand
happens to lead to the same result. -/
theorem participation_right_iff (log : List Row)
    (shortIds : ∀ row ∈ log, row.requestId.length ≤ 127) (address : Bytes) :
    calculateParticipationForAddress (some (logText log)) address = participation log address ∧
        calculateParticipationForAddress (some (logText log)) address ≤ 100 ↔
      (requestIds log).card ≤ 1000 ∨
        ((responded log address).card / 10 + completionRate log address) / 2 =
          participation log address := by
  have bound := participation_le log address
  rw [calculateParticipation_eq shortIds]
  by_cases few : (requestIds log).card ≤ 1000
  · simp [few, bound]
  · rw [if_neg few]
    constructor
    · intro right
      exact .inr right.1
    · rintro (few' | same)
      · exact absurd few' few
      · exact ⟨same, same ▸ bound⟩

/-! ### Examples -/

theorem isField_printSize (value : ℕ) : IsField comma (printSize value) :=
  isField_printInt (.ofNat value)

theorem length_printSize_fin {count : ℕ} (small : count ≤ 10000) (request : Fin count) :
    (printSize request).length ≤ 4 :=
  length_printSize (by decide) (request.isLt.trans_le small)

def busyLog (count : ℕ) (small : count ≤ 10000) : List Row :=
  (List.finRange count).map fun request : Fin count =>
    sampleRow (printSize request) .a .providedShares (isField_printSize _)
      ((length_printSize_fin small request).trans (by decide))

theorem shortIds_busyLog (count : ℕ) (small : count ≤ 10000) :
    ∀ row ∈ busyLog count small, row.requestId.length ≤ 127 := by
  intro row member
  rcases mem_map.mp member with ⟨request, -, rfl⟩
  exact (length_printSize_fin small request).trans (by decide)

theorem participation_of_few :
    calculateParticipationForAddress (some (logText (busyLog 2 (by decide)))) (ascii ['a']) =
        participation (busyLog 2 (by decide)) (ascii ['a']) ∧
      calculateParticipationForAddress (some (logText (busyLog 2 (by decide)))) (ascii ['a']) ≤
        100 :=
  (participation_right_iff _ (shortIds_busyLog 2 (by decide)) _).mpr (.inl (by decide +kernel))

theorem card_busyLog (count : ℕ) (small : count ≤ 10000) :
    (requestIds (busyLog count small)).card = count := by
  have ids : (busyLog count small).map Row.requestId =
      (List.finRange count).map fun request : Fin count => printSize request := by
    rw [busyLog, map_map]
    rfl
  have distinct :
      ((List.finRange count).map fun request : Fin count => printSize request).Nodup := by
    refine (nodup_finRange count).map fun first second same => ?_
    have values := congrArg decimalValue same
    rw [decimalValue_printSize, decimalValue_printSize] at values
    exact Fin.ext values
  rw [requestIds, ids, toFinset_card_of_nodup distinct, length_map, length_finRange]

theorem counts_busyLog (count : ℕ) (small : count ≤ 10000) :
    (responded (busyLog count small) (ascii ['a'])).card = count ∧
      (completed (busyLog count small) (ascii ['a'])).card = count := by
  have own : ownRows (busyLog count small) (ascii ['a']) = busyLog count small := by
    rw [ownRows, filter_eq_self]
    intro row member
    rcases mem_map.mp member with ⟨request, -, rfl⟩
    exact decide_eq_true rfl
  have provided : (busyLog count small).filter
      (fun row => row.actualDecision = .providedShares) = busyLog count small := by
    rw [filter_eq_self]
    intro row member
    rcases mem_map.mp member with ⟨request, -, rfl⟩
    exact decide_eq_true rfl
  rw [responded, completed, own, provided]
  exact ⟨card_busyLog count small, card_busyLog count small⟩

def longRows : List Row :=
  [longRow .a .providedShares, longRow .a .notFound]

/-- Two thousand requests give a score that the contract refuses, and decisions on a request with a
long id that differ count as two requests. -/
theorem participation_beyond_percentage :
    calculateParticipationForAddress (some (logText (busyLog 2000 (by decide)))) (ascii ['a']) =
        150 ∧
      participation (busyLog 2000 (by decide)) (ascii ['a']) = 100 ∧
      (∀ (state : State) (msg : Msg) (consistency : ℕ),
        state.updateReputation msg 150 consistency = none) ∧
      calculateParticipationForAddress (some (logText longRows)) (ascii ['a']) = 75 ∧
      participation longRows (ascii ['a']) = 100 := by
  have total := card_busyLog 2000 (by decide)
  rcases counts_busyLog 2000 (by decide) with ⟨responses, completions⟩
  have completion : completionRate (busyLog 2000 (by decide)) (ascii ['a']) = 100 := by
    rw [completionRate, responses, completions]
    rfl
  refine ⟨?_, ?_, ?_, ?_, by decide +kernel⟩
  · rw [calculateParticipation_eq (shortIds_busyLog 2000 (by decide)), total, responses, completion]
    rfl
  · rw [participation, total, responses, completion]
    rfl
  · intro state msg consistency
    simp [State.updateReputation]
  · rw [calculateParticipation_of_long (by simp [longRows, longRow, sampleRow])]
    decide +kernel

end TigerMixer.Reputation
