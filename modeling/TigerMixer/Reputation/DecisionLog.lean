import TigerMixer.Data.Table
import TigerMixer.Text.Tokens

/-!
# The log of decisions

Every member of the committee appends its decision on a request to one file of comma-separated rows,
from which three functions compute the scores of an address. They take a line apart with `strtok`.
Rows of the length that the writer can produce are read back column by column.
-/

namespace TigerMixer.Reputation

open Bytes Text Table List

/-! ### Writing -/

inductive Label where
  | legal
  | illegal
  deriving DecidableEq

inductive Decision where
  | providedShares
  | noAuditNeeded
  | notFound
  deriving DecidableEq

def Label.text : Label → Bytes
  | .legal => ascii "legal".toList
  | .illegal => ascii "illegal".toList

def providedShares : Bytes :=
  ascii "provided_shares".toList

def Decision.text : Decision → Bytes
  | .providedShares => Reputation.providedShares
  | .noAuditNeeded =>
    ascii "no_audit_needed".toList
  | .notFound => ascii "not_found".toList

def isDecisionCorrect : Label → ℤ → Decision → Bool
  | .legal, judgeResult, actualDecision => judgeResult = 0 && actualDecision = .noAuditNeeded
  | .illegal, judgeResult, actualDecision => judgeResult = 1 && actualDecision = .providedShares

/-- The columns of a row, with the format `%ld,%s,%s,%s,%s,%d,%s,%d`. -/
def decisionRow (timestamp : ℤ) (requestId userAddress : Bytes) (userLabel : Label)
    (participantAddress : Bytes) (judgeResult : ℤ) (actualDecision : Decision) (isCorrect : Bool) :
    List Bytes :=
  [printInt timestamp, requestId, userAddress, userLabel.text, participantAddress,
    printInt judgeResult, actualDecision.text, printInt (if isCorrect then 1 else 0)]

/-- What a recording depends on besides its arguments: whether the tracker is initialised, the
label that is found for the user, whether the file can be opened, and the time. -/
structure Recording where
  initialized : Bool
  label : Option Label
  opens : Bool
  timestamp : ℤ

def reputationTrackerRecordDecision (recording : Recording)
    (requestId userAddress participantAddress : Bytes) (judgeResult : ℤ)
    (actualDecision : Decision) (file : Bytes) : ℤ × Bytes :=
  if recording.initialized = false then (-1, file)
  else
    match recording.label with
    | none => (-1, file)
    | some userLabel =>
      if recording.opens = false then (-1, file)
      else
        (0, file ++ separatedLine comma (decisionRow recording.timestamp requestId userAddress
          userLabel participantAddress judgeResult actualDecision
          (isDecisionCorrect userLabel judgeResult actualDecision)))

/-! ### Reading -/

def decisionLines : Option Bytes → Option (List Bytes)
  | none => none
  | some file =>
    match readLines 511 file with
    | [] => none
    | _ :: lines => some lines

def columns (limit : ℕ) (line : Bytes) : List Bytes :=
  (strtok comma (cString line)).take limit

/-- The address and `is_correct` of a line. The second test is never reached with a positive
outcome. -/
def accuracyColumns (line : Bytes) : Option (Bytes × ℤ) :=
  let fields := columns 9 line
  if 8 ≤ fields.length then some (fields.getD 4 [], atoi (fields.getD 7 []))
  else if 9 ≤ fields.length then some (fields.getD 5 [], atoi (fields.getD 8 []))
  else none

def calculateAccuracyForAddress (file : Option Bytes) (address : Bytes) : ℕ :=
  match decisionLines file with
  | none => 50
  | some lines =>
    let own := (lines.filterMap accuracyColumns).filter fun row => lower row.1 = lower address
    let total := own.length
    let correct := own.countP fun row => row.2 ≠ 0
    if total = 0 then 50 else correct * 100 / total

structure Recorded where
  requestId : Bytes
  participantAddress : Bytes
  decision : Bytes
  deriving DecidableEq

def decisionColumns (line : Bytes) : Option Recorded :=
  let fields := columns 8 line
  if 8 ≤ fields.length then
    some
      { requestId := fields.getD 1 []
        participantAddress := fields.getD 4 []
        decision := fields.getD 6 [] }
  else none

def Recorded.provided (recorded : Recorded) : Bool :=
  recorded.decision = providedShares

/-- `request_group_t`: up to ten addresses, each with its decision, which is true for
`provided_shares`. -/
structure Group where
  requestId : Bytes
  decisions : List (Bytes × Bool)

def voter (vote : Bytes × Bool) : Bytes :=
  lower vote.1

def Recorded.vote (recorded : Recorded) : Bytes × Bool :=
  (recorded.participantAddress.take 63, recorded.provided)

/-- A decision in a group that is there: the address is looked up, and added while there is room. -/
def Group.add (recorded : Recorded) (group : Group) : Group :=
  { group with
    decisions := upsertWithin voter (lower recorded.participantAddress)
      (fun vote => (vote.1, recorded.provided)) recorded.vote 10 group.decisions }

def Group.new (recorded : Recorded) : Group where
  requestId := recorded.requestId.take 127
  decisions := [recorded.vote]

def groups (recorded : List Recorded) : List Group :=
  table Group.requestId Recorded.requestId Group.add Group.new recorded

def majorityDecision (decisions : List (Bytes × Bool)) : Option Bool :=
  if 2 ≤ decisions.countP fun vote => !vote.2 then some false
  else if 2 ≤ decisions.countP fun vote => vote.2 then some true
  else none

def Group.Counts (group : Group) : Prop :=
  2 ≤ group.decisions.length ∧ (majorityDecision group.decisions).isSome = true

instance (group : Group) : Decidable group.Counts :=
  inferInstanceAs (Decidable (_ ∧ _))

def Group.addressDecision (address : Bytes) (group : Group) : Option Bool :=
  (group.decisions.find? fun vote => voter vote = lower address).map Prod.snd

def calculateConsistencyForAddress (file : Option Bytes) (address : Bytes) : ℕ :=
  match decisionLines file with
  | none => 50
  | some lines =>
    let groups := groups (lines.filterMap decisionColumns)
    let totalRequests := groups.countP fun group => group.Counts
    let consistentRequests := groups.countP fun group =>
      group.Counts ∧ group.addressDecision address = majorityDecision group.decisions
    if totalRequests = 0 then 50 else consistentRequests * 100 / totalRequests

/-- `request_info_t`, where the address has always responded. -/
structure RequestInfo where
  requestId : Bytes
  addressCompleted : Bool
  deriving DecidableEq

def RequestInfo.add (recorded : Recorded) (info : RequestInfo) : RequestInfo :=
  { info with addressCompleted := info.addressCompleted || recorded.provided }

def RequestInfo.new (recorded : Recorded) : RequestInfo where
  requestId := recorded.requestId.take 127
  addressCompleted := recorded.provided

/-- `unique_requests`: the ids of the first pass, at most a thousand of 127 bytes. -/
def uniqueRequests (recorded : List Recorded) : List Bytes :=
  tableWithin id Recorded.requestId (fun _ requestId => requestId)
    (fun recorded => recorded.requestId.take 127) 1000 recorded

def addressRequests (address : Bytes) (recorded : List Recorded) : List RequestInfo :=
  table RequestInfo.requestId Recorded.requestId RequestInfo.add RequestInfo.new
    (recorded.filter fun recorded => lower recorded.participantAddress = lower address)

def calculateParticipationForAddress (file : Option Bytes) (address : Bytes) : ℕ :=
  match decisionLines file with
  | none => 50
  | some lines =>
    let recorded := lines.filterMap decisionColumns
    let requests := addressRequests address recorded
    let totalRequests := (uniqueRequests recorded).length
    let respondedRequests := requests.length
    let completedRequests := requests.countP fun info => info.addressCompleted
    if totalRequests = 0 then 50
    else
      let responseRate := respondedRequests * 100 / totalRequests
      let completionRate :=
        if 0 < respondedRequests then completedRequests * 100 / respondedRequests else 0
      (responseRate + completionRate) / 2

/-! ### Well-formed rows -/

/-- A row as it is written: ids and addresses that fit the buffers they come from, without commas
and line ends, and numbers in the range of their types. -/
structure Row where
  timestamp : ℤ
  requestId : Bytes
  userAddress : Bytes
  userLabel : Label
  participantAddress : Bytes
  judgeResult : ℤ
  actualDecision : Decision
  isCorrect : Bool
  requestIdField : IsField comma requestId
  userField : IsField comma userAddress
  participantField : IsField comma participantAddress
  requestIdShort : requestId.length ≤ 255
  userShort : userAddress.length ≤ 63
  participantShort : participantAddress.length ≤ 63
  timestampBound : timestamp.natAbs ≤ 2 ^ 63
  judgeBound : judgeResult.natAbs ≤ 2 ^ 31

def headerLine : Bytes :=
  separatedLine comma
    [ascii "timestamp".toList,
      ascii "request_id".toList,
      ascii "user_address".toList,
      ascii "user_label".toList,
      ascii "participant_address".toList,
      ascii "judge_api_result".toList,
      ascii "actual_decision".toList,
      ascii "is_correct".toList]

def Row.columns (row : Row) : List Bytes :=
  decisionRow row.timestamp row.requestId row.userAddress row.userLabel row.participantAddress
    row.judgeResult row.actualDecision row.isCorrect

def fileText (rows : List (List Bytes)) : Bytes :=
  headerLine ++ rows.flatMap (separatedLine comma)

def logText (log : List Row) : Bytes :=
  fileText (log.map Row.columns)

structure IsRecord (row : List Bytes) : Prop where
  isField : ∀ field ∈ row, IsField comma field
  nonempty : row ≠ []
  short : (separatedLine comma row).length ≤ 511

theorem isField_printInt (value : ℤ) : IsField comma (printInt value) where
  nonempty := by
    cases value with
    | ofNat value => exact printSize_ne_nil value
    | negSucc value => exact cons_ne_nil _ _
  noMark := notMem_printInt (by decide) (by decide) value
  noNewline := notMem_printInt (by decide) (by decide) value
  noZero := notMem_printInt (by decide) (by decide) value

theorem Label.isField (label : Label) : IsField comma label.text := by
  cases label <;> exact ⟨by decide, by decide, by decide, by decide⟩

theorem Decision.isField (decision : Decision) : IsField comma decision.text := by
  cases decision <;> exact ⟨by decide, by decide, by decide, by decide⟩

theorem Row.isField (row : Row) : ∀ field ∈ row.columns, IsField comma field := by
  intro field member
  simp only [Row.columns, decisionRow, mem_cons, not_mem_nil, or_false] at member
  rcases member with rfl | rfl | rfl | rfl | rfl | rfl | rfl | rfl
  · exact isField_printInt _
  · exact row.requestIdField
  · exact row.userField
  · exact row.userLabel.isField
  · exact row.participantField
  · exact isField_printInt _
  · exact row.actualDecision.isField
  · exact isField_printInt _

theorem length_printInt_long {value : ℤ} (bound : value.natAbs ≤ 2 ^ 63) :
    (printInt value).length ≤ 20 :=
  length_printInt (by decide) (by omega)

theorem Label.length_text (label : Label) : label.text.length ≤ 7 := by
  cases label <;> decide

theorem Decision.length_text (decision : Decision) : decision.text.length ≤ 15 := by
  cases decision <;> decide

theorem Row.length_line (row : Row) : (separatedLine comma row.columns).length ≤ 443 := by
  have timestamp := length_printInt_long row.timestampBound
  have judge : (printInt row.judgeResult).length ≤ 11 :=
    length_printInt (by decide) (by have := row.judgeBound; omega)
  have label := row.userLabel.length_text
  have decision := row.actualDecision.length_text
  have correct : (printInt (if row.isCorrect then 1 else 0)).length = 1 := by
    cases row.isCorrect <;> decide
  have requestId := row.requestIdShort
  have user := row.userShort
  have participant := row.participantShort
  rw [Row.columns, decisionRow, length_separatedLine]
  simp only [map_cons, map_nil, sum_cons, sum_nil]
  omega

theorem Row.isRecord (row : Row) : IsRecord row.columns where
  isField := row.isField
  nonempty := cons_ne_nil _ _
  short := row.length_line.trans (by decide)

/-! ### Reading back -/

section ReadBack

variable {row : List Bytes} {rows : List (List Bytes)}

theorem IsRecord.isLine (record : IsRecord row) : IsLine 511 (separatedLine comma row) := by
  have short := record.short
  rw [separatedLine, length_append, length_singleton] at short
  exact ⟨_, rfl, by omega,
    notMem_intercalate (by decide) fun field member => (record.isField field member).noNewline⟩

theorem isLine_headerLine : IsLine 511 headerLine :=
  ⟨_, rfl, by decide, by decide⟩

theorem decisionLines_fileText (records : ∀ row ∈ rows, IsRecord row) :
    decisionLines (some (fileText rows)) = some (rows.map (separatedLine comma)) := by
  have areLines : ∀ line ∈ headerLine :: rows.map (separatedLine comma), IsLine 511 line := by
    simp only [forall_mem_cons, forall_mem_map]
    exact ⟨isLine_headerLine, fun row member => (records row member).isLine⟩
  rw [decisionLines, fileText, flatMap_def, ← flatten_cons, readLines_flatten areLines]

theorem tokens_line {front : List Bytes} {last : Bytes} (record : IsRecord (front ++ [last])) :
    strtok comma (cString (separatedLine comma (front ++ [last]))) = front ++ [last ++ [10]] := by
  have noZero : (0 : UInt8) ∉ separatedLine comma (front ++ [last]) := by
    rw [separatedLine, mem_append, not_or]
    exact ⟨notMem_intercalate (by decide) fun field member => (record.isField field member).noZero,
      by decide⟩
  rw [cString_of_notMem noZero]
  exact strtok_separatedLine (by decide) record.isField

def Row.recorded (row : Row) : Recorded where
  requestId := row.requestId
  participantAddress := row.participantAddress
  decision := row.actualDecision.text

theorem Row.tokens (row : Row) :
    strtok comma (cString (separatedLine comma row.columns)) =
      [printInt row.timestamp, row.requestId, row.userAddress, row.userLabel.text,
        row.participantAddress, printInt row.judgeResult, row.actualDecision.text,
        printInt (if row.isCorrect then 1 else 0) ++ [10]] :=
  @tokens_line [_, _, _, _, _, _, _] _ row.isRecord

theorem Row.decisionColumns_line (row : Row) :
    decisionColumns (separatedLine comma row.columns) = some row.recorded := by
  rw [decisionColumns, Reputation.columns, row.tokens]
  rfl

theorem Row.provided_recorded (row : Row) :
    row.recorded.provided = decide (row.actualDecision = .providedShares) := by
  cases decision : row.actualDecision <;>
    simp only [Recorded.provided, Row.recorded, decision] <;> decide

theorem filterMap_decisionColumns (log : List Row) :
    ((log.map Row.columns).map (separatedLine comma)).filterMap decisionColumns =
      log.map Row.recorded := by
  induction log with
  | nil => rfl
  | cons row log ih =>
    rw [map_cons, map_cons, filterMap_cons_some row.decisionColumns_line, ih, map_cons]

theorem decisionLines_logText (log : List Row) :
    decisionLines (some (logText log)) =
      some ((log.map Row.columns).map (separatedLine comma)) := by
  apply decisionLines_fileText
  intro row member
  rcases mem_map.mp member with ⟨row, -, rfl⟩
  exact row.isRecord

end ReadBack

/-- The members that vote in the samples. -/
inductive Voter where
  | a
  | b
  | c
  | d
  | e

def Voter.address : Voter → Bytes
  | .a => ascii ['a']
  | .b => ascii ['b']
  | .c => ascii ['c']
  | .d => ascii ['d']
  | .e => ascii ['e']

def sampleRow (requestId : Bytes) (voter : Voter) (actualDecision : Decision)
    (requestIdField : IsField comma requestId) (requestIdShort : requestId.length ≤ 255) : Row where
  timestamp := 7
  requestId
  userAddress := ascii ['u']
  userLabel := .illegal
  participantAddress := voter.address
  judgeResult := 1
  actualDecision
  isCorrect := isDecisionCorrect .illegal 1 actualDecision
  requestIdField
  userField := by decide
  participantField := by cases voter <;> decide
  requestIdShort
  userShort := by decide
  participantShort := by cases voter <;> decide
  timestampBound := by decide
  judgeBound := by decide

def pollRow (voter : Voter) (actualDecision : Decision) : Row :=
  sampleRow (ascii ['m', '_', '1']) voter actualDecision (by decide) (by decide)

end TigerMixer.Reputation
