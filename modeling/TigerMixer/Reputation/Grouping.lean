import TigerMixer.Reputation.DecisionLog
import TigerMixer.Receiver.AuditRequest

/-!
# Which decisions are compared

A member of the committee makes up the id of a request from the message and from its clock. The
consistency score compares decisions with the same id, hence those on the same message that were
taken up in the same second.
-/

namespace TigerMixer.Reputation

open Bytes Text Table Receiver List

/-! ### Recording a decision -/

/-- `request_id` in `handle_audit_request`: `%s_%ld` in a buffer of 256 bytes. -/
def requestIdOf (msgId : Bytes) (now : ℤ) : Bytes :=
  (msgId ++ 95 :: printInt now).take 255

/-- The verdict of the judge and the decision that `handle_audit_request` records, where `sent` says
whether all shares went out. -/
def recordedDecision (sent : Bool) (outcome : Outcome) : Option (ℤ × Decision) :=
  match outcome.verdict with
  | some .noAudit => some (0, .noAuditNeeded)
  | some .needsAudit =>
    match outcome.reply with
    | .packed _ _ => if sent then some (1, .providedShares) else none
    | .status text => if text = notFound then some (1, .notFound) else none
  | _ => none

/-- A request of an audit for the first leg of a payment, with what a member finds when it takes it
up. -/
structure MemberRequest where
  audit : ℕ
  msgId : Bytes
  pairsSummaryJson : Bytes
  participantId : ℤ
  now : ℤ
  currentAddress : Bytes
  userAddress : Option Bytes
  surroundings : Surroundings
  shares : List StoredShare
  sent : Bool
  recording : Recording
  msgIdField : IsField comma msgId
  msgIdShort : msgId.length ≤ 106
  nowBound : now.natAbs ≤ 2 ^ 63
  currentField : IsField comma currentAddress
  currentShort : currentAddress.length ≤ 63
  userField : ∀ user, userAddress = some user → IsField comma user ∧ user.length ≤ 63
  timestampBound : recording.timestamp.natAbs ≤ 2 ^ 63

namespace MemberRequest

def outcome (request : MemberRequest) : Outcome :=
  handleAuditRequest request.surroundings request.shares request.participantId 0 request.msgId
    request.pairsSummaryJson

def record (request : MemberRequest) (log : Bytes) : Bytes :=
  match request.userAddress, recordedDecision request.sent request.outcome with
  | some userAddress, some (judgeResult, decision) =>
    (reputationTrackerRecordDecision request.recording (requestIdOf request.msgId request.now)
      userAddress request.currentAddress judgeResult decision log).2
  | _, _ => log

def records (request : MemberRequest) : Bool :=
  request.userAddress.isSome && (recordedDecision request.sent request.outcome).isSome &&
    request.recording.initialized && request.recording.label.isSome && request.recording.opens

end MemberRequest

def runLog (requests : List MemberRequest) : Bytes :=
  requests.foldl (fun log request => request.record log) headerLine

def groupPositions (file : Bytes) : List ℕ :=
  match decisionLines (some file) with
  | none => []
  | some lines =>
    positionsFrom Group.requestId Recorded.requestId Group.add Group.new []
      (lines.filterMap decisionColumns)

def GroupedByAudit (requests : List MemberRequest) : Prop :=
  ∀ (i j : ℕ) (first second : MemberRequest),
    (requests.filter MemberRequest.records)[i]? = some first →
    (requests.filter MemberRequest.records)[j]? = some second →
      ((groupPositions (runLog requests))[i]? = (groupPositions (runLog requests))[j]? ↔
        first.audit = second.audit)

/-! ### The ids of the members -/

theorem printInt_injective : Function.Injective printInt := by
  have noSign (value : ℕ) : (45 : UInt8) ∉ printSize value := notMem_printSize (by decide)
  intro first second same
  rcases first with first | first <;> rcases second with second | second <;>
    simp only [printInt] at same
  · have values := congrArg decimalValue same
    rw [decimalValue_printSize, decimalValue_printSize] at values
    rw [values]
  · exact absurd (same ▸ mem_cons_self) (noSign first)
  · exact absurd (same ▸ mem_cons_self) (noSign second)
  · have values := congrArg decimalValue (List.cons.inj same).2
    rw [decimalValue_printSize, decimalValue_printSize, Nat.succ_inj] at values
    rw [values]

namespace MemberRequest

variable (request : MemberRequest)

def requestId : Bytes :=
  requestIdOf request.msgId request.now

theorem requestId_eq : request.requestId = request.msgId ++ 95 :: printInt request.now := by
  have msgId := request.msgIdShort
  have now := length_printInt_long request.nowBound
  rw [requestId, requestIdOf, take_of_length_le]
  rw [length_append, length_cons]
  omega

theorem length_requestId : request.requestId.length ≤ 127 := by
  have msgId := request.msgIdShort
  have now := length_printInt_long request.nowBound
  rw [requestId_eq, length_append, length_cons]
  omega

theorem isField_requestId : IsField comma request.requestId := by
  have msgId := request.msgIdField
  have now := isField_printInt request.now
  rw [requestId_eq]
  constructor
  · simp
  · simpa [comma] using ⟨msgId.noMark, now.noMark⟩
  · simpa using ⟨msgId.noNewline, now.noNewline⟩
  · simpa using ⟨msgId.noZero, now.noZero⟩

theorem requestId_inj {first second : MemberRequest} :
    first.requestId = second.requestId ↔ first.msgId = second.msgId ∧ first.now = second.now := by
  constructor
  · intro same
    have noMark (value : ℤ) : (95 : UInt8) ∉ (printInt value).reverse := by
      rw [mem_reverse]
      exact notMem_printInt (by decide) (by decide) value
    -- The time is behind the last underscore, so the ids are compared from the end.
    have reversed := congrArg List.reverse same
    rw [requestId_eq, requestId_eq, reverse_append, reverse_append, reverse_cons, reverse_cons,
      append_assoc, append_assoc, singleton_append, singleton_append] at reversed
    rcases append_cons_inj_of_first (noMark _) (noMark _) reversed with ⟨now, msgId⟩
    exact ⟨reverse_injective msgId, printInt_injective (reverse_injective now)⟩
  · rintro ⟨msgId, now⟩
    rw [requestId, requestId, msgId, now]

theorem judgeBound {sent : Bool} {outcome : Outcome} {judgeResult : ℤ} {decision : Decision}
    (recorded : recordedDecision sent outcome = some (judgeResult, decision)) :
    judgeResult.natAbs ≤ 2 ^ 31 := by
  rw [recordedDecision] at recorded
  split at recorded
  · cases recorded
    decide
  · split at recorded <;> split_ifs at recorded <;> cases recorded <;> decide
  · cases recorded

theorem record_of_records (does : request.records = true) :
    ∃ row : Row, row.requestId = request.requestId ∧
      ∀ log, request.record log = log ++ separatedLine comma row.columns := by
  simp only [records, Bool.and_eq_true, Option.isSome_iff_exists] at does
  rcases does with ⟨⟨⟨⟨⟨user, isUser⟩, ⟨judgeResult, decision⟩, recorded⟩, initialized⟩,
    userLabel, isLabel⟩, opens⟩
  refine ⟨{ timestamp := request.recording.timestamp, requestId := request.requestId,
            userAddress := user, userLabel, participantAddress := request.currentAddress,
            judgeResult, actualDecision := decision,
            isCorrect := isDecisionCorrect userLabel judgeResult decision,
            requestIdField := request.isField_requestId,
            userField := (request.userField user isUser).1,
            participantField := request.currentField,
            requestIdShort := request.length_requestId.trans (by decide),
            userShort := (request.userField user isUser).2,
            participantShort := request.currentShort, timestampBound := request.timestampBound,
            judgeBound := judgeBound recorded }, rfl, fun log => ?_⟩
  simp only [record, isUser, recorded, reputationTrackerRecordDecision, initialized, isLabel, opens]
  rfl

theorem record_of_not_records (doesNot : request.records = false) (log : Bytes) :
    request.record log = log := by
  rw [record]
  split
  next user judgeResult decision isUser recorded =>
    cases initialized : request.recording.initialized with
    | false => simp [reputationTrackerRecordDecision, initialized]
    | true =>
      cases isLabel : request.recording.label with
      | none => simp [reputationTrackerRecordDecision, initialized, isLabel]
      | some userLabel =>
        have closed : request.recording.opens = false := by
          simpa [records, isUser, recorded, initialized, isLabel] using doesNot
        simp [reputationTrackerRecordDecision, initialized, isLabel, closed]
  next => rfl

end MemberRequest

theorem exists_rows_runLog (requests : List MemberRequest) :
    ∃ rows : List Row, runLog requests = logText rows ∧
      rows.map Row.requestId =
        (requests.filter MemberRequest.records).map MemberRequest.requestId := by
  induction requests using List.reverseRecOn with
  | nil => exact ⟨[], by simp [runLog, logText, fileText], rfl⟩
  | append_singleton requests request ih =>
    rcases ih with ⟨rows, log, ids⟩
    have step : runLog (requests ++ [request]) = request.record (logText rows) := by
      rw [runLog, foldl_append, ← log]
      rfl
    cases does : request.records with
    | false =>
      refine ⟨rows, ?_, ?_⟩
      · rw [step, request.record_of_not_records does]
      · simpa [filter_append, does] using ids
    | true =>
      rcases request.record_of_records does with ⟨row, sameId, records⟩
      refine ⟨rows ++ [row], ?_, ?_⟩
      · rw [step, records]
        simp [logText, fileText]
      · rw [map_append, ids, filter_append]
        simp [does, sameId]

theorem groupPositions_logText {log : List Row}
    (shortIds : ∀ row ∈ log, row.requestId.length ≤ 127) :
    ∃ keys : List Bytes, (∀ row ∈ log, row.requestId ∈ keys) ∧
      groupPositions (logText log) = log.map fun row => keys.idxOf row.requestId := by
  have keyed : ∀ recorded ∈ log.map Row.recorded,
      (Group.new recorded).requestId = recorded.requestId := by
    intro recorded isRecorded
    rcases mem_map.mp isRecorded with ⟨row, member, rfl⟩
    exact take_of_length_le (shortIds row member)
  have kept (recorded : Recorded) (group : Group) :
      (Group.add recorded group).requestId = group.requestId := rfl
  have keys := map_key_table kept keyed
  refine ⟨(groups (log.map Row.recorded)).map Group.requestId, ?_, ?_⟩
  · intro row member
    rw [groups, keys, mem_eraseDups]
    exact mem_map_of_mem (mem_map_of_mem member)
  · rw [groupPositions, decisionLines_logText]
    simp only [filterMap_decisionColumns]
    rw [positionsFrom_eq kept keyed, map_map]
    rfl

/-- The decisions of each audit are a group exactly if its members take up their requests in the
same second, and other audits of the message in other seconds. -/
theorem audits_grouped_iff (requests : List MemberRequest) :
    GroupedByAudit requests ↔
      ∀ first ∈ requests.filter MemberRequest.records,
        ∀ second ∈ requests.filter MemberRequest.records,
          (first.audit = second.audit ↔ first.msgId = second.msgId ∧ first.now = second.now) := by
  rcases exists_rows_runLog requests with ⟨rows, log, ids⟩
  have shortIds : ∀ row ∈ rows, row.requestId.length ≤ 127 := by
    intro row member
    have isId : row.requestId ∈ rows.map Row.requestId := mem_map_of_mem member
    rw [ids, mem_map] at isId
    rcases isId with ⟨request, -, same⟩
    rw [← same]
    exact request.length_requestId
  rcases groupPositions_logText shortIds with ⟨keys, isKey, positions⟩
  have positions : groupPositions (runLog requests) =
      (requests.filter MemberRequest.records).map fun request => keys.idxOf request.requestId := by
    have same := congrArg (List.map fun requestId => keys.idxOf requestId) ids
    rw [map_map, map_map] at same
    rw [log, positions]
    exact same
  have known {request : MemberRequest} (member : request ∈ requests.filter MemberRequest.records) :
      request.requestId ∈ keys := by
    have isId := mem_map_of_mem (f := MemberRequest.requestId) member
    rw [← ids, mem_map] at isId
    rcases isId with ⟨row, member, same⟩
    rw [← same]
    exact isKey row member
  -- Two decisions are in the same group if their ids are the same.
  have sameGroup {i j : ℕ} {first second : MemberRequest}
      (isFirst : (requests.filter MemberRequest.records)[i]? = some first)
      (isSecond : (requests.filter MemberRequest.records)[j]? = some second) :
      (groupPositions (runLog requests))[i]? = (groupPositions (runLog requests))[j]? ↔
        first.msgId = second.msgId ∧ first.now = second.now := by
    rw [positions, getElem?_map, getElem?_map, isFirst, isSecond, Option.map_some, Option.map_some,
      Option.some.injEq, idxOf_inj (known (mem_of_getElem? isFirst)), MemberRequest.requestId_inj]
  constructor
  · intro grouped first isFirst second isSecond
    rcases mem_iff_getElem?.mp isFirst with ⟨i, isFirst⟩
    rcases mem_iff_getElem?.mp isSecond with ⟨j, isSecond⟩
    rw [← grouped i j first second isFirst isSecond, sameGroup isFirst isSecond]
  · intro apart i j first second isFirst isSecond
    rw [sameGroup isFirst isSecond, apart first (mem_of_getElem? isFirst) second
      (mem_of_getElem? isSecond)]

def sampleRequest (audit : ℕ) (participantId : Fin 4) (now : Fin 1000) : MemberRequest where
  audit
  msgId := ascii ['a']
  pairsSummaryJson := ascii ['s']
  participantId := participantId.val
  now := now.val
  currentAddress := printSize participantId.val
  userAddress := some (ascii ['u'])
  surroundings := surroundingsSample (some (messageKey ++ ascii ['1', '"']))
  shares := [{ storedSample with x := participantId.val }]
  sent := true
  recording := { initialized := true, label := some .illegal, opens := true, timestamp := 7 }
  msgIdField := by decide
  msgIdShort := by decide
  nowBound := by
    have bound := now.isLt
    omega
  currentField := isField_printInt (.ofNat participantId.val)
  currentShort :=
    (length_printSize (by decide) (participantId.isLt.trans (by decide) : _ < 10 ^ 1)).trans
      (by decide)
  userField := by
    intro user isUser
    cases isUser
    decide
  timestampBound := by decide

/-- Members take a request up a second apart, or two audits in the same second. -/
theorem audits_not_grouped :
    ¬GroupedByAudit [sampleRequest 0 1 100, sampleRequest 0 2 101] ∧
      ¬GroupedByAudit [sampleRequest 0 1 100, sampleRequest 1 1 100] := by
  constructor
  · intro grouped
    have apart :
        groupPositions (runLog [sampleRequest 0 1 100, sampleRequest 0 2 101]) = [0, 1] := by
      decide +kernel
    have same := (grouped 0 1 (sampleRequest 0 1 100) (sampleRequest 0 2 101) rfl rfl).mpr rfl
    rw [apart] at same
    cases same
  · intro grouped
    have together : (groupPositions (runLog [sampleRequest 0 1 100, sampleRequest 1 1 100])) =
        [0, 0] := by
      decide +kernel
    have same := (grouped 0 1 (sampleRequest 0 1 100) (sampleRequest 1 1 100) rfl rfl).mp
      (by rw [together]; rfl)
    cases same

end TigerMixer.Reputation
