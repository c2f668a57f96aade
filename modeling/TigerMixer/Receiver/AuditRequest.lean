import TigerMixer.Auditor.Fetch
import TigerMixer.Text.CString

/-!
# Audit requests at a receiver

A receiver answers requests that name a message. For the first leg of a payment (tag 0) it first
asks the judge; the answer that no audit is needed ends the request, and every other outcome, a
failed call included, goes on to the shares. For the second leg (tag 1) the judge is not asked. The
file does not say to which leg a message belongs.
-/

namespace TigerMixer.Receiver

open Bytes Text SecretShare

inductive Verdict where
  /-- `0`: the judge has answered one. -/
  | needsAudit
  /-- `1`: the judge has answered zero. -/
  | noAudit
  /-- `-1`: there is no answer that can be read. -/
  | failed
  deriving DecidableEq, Repr

def messageKey : Bytes :=
  ascii "\"message\":\"".toList

def collectResponse (output : Bytes) : Bytes :=
  (readLines 255 output).foldl (fun response piece =>
    if response.length + (cString piece).length < 1023 then response ++ cString piece
    else response) []

def callJudgeApi (judge : Bytes → Option Bytes) (summary : Bytes) : Verdict :=
  if summary = [] then .failed
  else
    match judge summary with
    | none => .failed
    | some output =>
      match strstr messageKey (collectResponse output) with
      | none => .failed
      | some found =>
        match found.drop messageKey.length with
        | 48 :: _ => .noAudit
        | 49 :: _ => .needsAudit
        | _ => .failed

/-- A line of the file, as `sscanf` reads it. Lines of an earlier version lack the block. A value
that is no positive even number of digits is empty. -/
structure StoredShare where
  msgId : Bytes
  x : ℤ
  block : Option (ℕ × ℕ)
  dataLength : ℕ
  y : Bytes
  deriving DecidableEq, Repr

def StoredShare.Matches (msgId : Bytes) (x : ℤ) (stored : StoredShare) : Prop :=
  stored.msgId = msgId ∧ stored.x = x ∧ stored.y ≠ []

instance (msgId : Bytes) (x : ℤ) (stored : StoredShare) : Decidable (stored.Matches msgId x) :=
  inferInstanceAs (Decidable (_ ∧ _))

def StoredShare.share (stored : StoredShare) (foundCount : ℕ) : Share :=
  { x := stored.x
    blockIndex := (stored.block.map Prod.fst).getD foundCount
    blockSize := (stored.block.map Prod.snd).getD stored.dataLength
    dataLength := stored.dataLength
    y := stored.y.take 17000 }

def loadShares (msgId : Bytes) (x : ℤ) (maxShares : ℕ) : ℕ → List StoredShare → List Share
  | _, [] => []
  | foundCount, stored :: rest =>
    if maxShares ≤ foundCount then []
    else if stored.Matches msgId x then
      stored.share foundCount :: loadShares msgId x maxShares (foundCount + 1) rest
    else loadShares msgId x maxShares foundCount rest

def loadAllSharesFromJson (file : Option (List StoredShare)) (msgId : Bytes) (x : ℤ)
    (maxShares : ℕ) : Option (List Share) :=
  match file with
  | none => none
  | some lines =>
    match loadShares msgId x maxShares 0 lines with
    | [] => none
    | shares => some shares

structure Surroundings where
  /-- The output of the call to the judge, if it succeeds. -/
  judge : Bytes → Option Bytes
  fileFound : Bool
  /-- Whether the file opens again when the shares are loaded. -/
  fileOpens : Bool
  arrayAllocated : Bool
  replyAllocated : Bool

inductive Reply where
  | status (text : Bytes)
  | packed (participantId : ℤ) (shares : List Share)
  deriving DecidableEq, Repr

def Reply.bytes : Reply → Bytes
  | .status text => text
  | .packed participantId shares => Auditor.packShares participantId shares

def Reply.carriesShares : Reply → Bool
  | .status _ => false
  | .packed _ _ => true

structure Outcome where
  verdict : Option Verdict
  reply : Reply
  deriving DecidableEq, Repr

def invalidTag : Bytes :=
  ascii "INVALID_TAG".toList

def invalidParams : Bytes :=
  ascii "INVALID_PARAMS".toList

def invalidRequest : Bytes :=
  ascii "INVALID_REQUEST".toList

def fileNotFound : Bytes :=
  ascii "FILE_NOT_FOUND".toList

def memoryError : Bytes :=
  ascii "MEMORY_ERROR".toList

def notFound : Bytes :=
  ascii "NOT_FOUND".toList

def secretShares : ℤ := 3

def sendShares (surroundings : Surroundings) (file : List StoredShare) (participantId : ℤ)
    (msgId : Bytes) : Reply :=
  if participantId < 1 ∨ secretShares < participantId then .status invalidParams
  else if surroundings.fileFound = false then .status fileNotFound
  else if surroundings.arrayAllocated = false then .status memoryError
  else
    match loadAllSharesFromJson (if surroundings.fileOpens then some file else none) msgId
        participantId 1000 with
    | none => .status notFound
    | some shares =>
      if surroundings.replyAllocated = false then .status memoryError
      else .packed participantId shares

def handleAuditRequest (surroundings : Surroundings) (file : List StoredShare) (participantId : ℤ)
    (tag : ℤ) (msgId pairsSummaryJson : Bytes) : Outcome :=
  if tag ≠ 0 ∧ tag ≠ 1 then ⟨none, .status invalidTag⟩
  else if tag = 0 then
    match callJudgeApi surroundings.judge pairsSummaryJson with
    | .noAudit => ⟨some .noAudit, .status Auditor.noAuditNeeded⟩
    | verdict => ⟨some verdict, sendShares surroundings file participantId msgId⟩
  else ⟨none, sendShares surroundings file participantId msgId⟩

structure AuditRequest where
  tag : ℤ
  msgId : Bytes
  pairsSummaryJson : Bytes
  deriving DecidableEq, Repr

/-- The part of `receiver_thread` that takes the data apart, with the text of an error. One byte is
skipped behind the id, also where the id was cut off. -/
def parseAuditRequest : Bytes → Except Bytes AuditRequest
  | [] => .error invalidRequest
  | [_] => .error invalidRequest
  | tag :: rest =>
    if tag ≠ 0 ∧ tag ≠ 1 then .error invalidTag
    else
      let msgId := (cString rest).take 127
      if msgId = [] then .error invalidRequest
      else
        .ok
          { tag := tag.toNat
            msgId := msgId
            pairsSummaryJson := (cString (rest.drop (msgId.length + 1))).take 2047 }

inductive Event where
  | stored (lines : List StoredShare)
  | request (surroundings : Surroundings) (data : Bytes)

structure Exchange where
  file : List StoredShare
  surroundings : Surroundings
  data : Bytes

def Exchange.outcome (participantId : ℤ) (exchange : Exchange) : Outcome :=
  match parseAuditRequest exchange.data with
  | .error text => ⟨none, .status text⟩
  | .ok request =>
    handleAuditRequest exchange.surroundings exchange.file participantId request.tag
      request.msgId request.pairsSummaryJson

def exchanges : List StoredShare → List Event → List Exchange
  | _, [] => []
  | file, .stored lines :: events => exchanges (file ++ lines) events
  | file, .request surroundings data :: events =>
    ⟨file, surroundings, data⟩ :: exchanges file events

/-! ### What is released -/

theorem tag_of_parseAuditRequest {data : Bytes} {request : AuditRequest}
    (parsed : parseAuditRequest data = .ok request) : request.tag = 0 ∨ request.tag = 1 := by
  match data with
  | [] => simp [parseAuditRequest] at parsed
  | [_] => simp [parseAuditRequest] at parsed
  | tag :: byte :: rest =>
    simp only [parseAuditRequest] at parsed
    split_ifs at parsed with invalid empty
    simp only [Except.ok.injEq] at parsed
    subst parsed
    have valid : tag = 0 ∨ tag = 1 := by tauto
    rcases valid with first | second
    · simp [first]
    · simp [second]

theorem loadShares_eq_nil_iff {msgId : Bytes} {x : ℤ} {maxShares : ℕ} {foundCount : ℕ}
    {lines : List StoredShare} (room : foundCount < maxShares) :
    loadShares msgId x maxShares foundCount lines = [] ↔
      ∀ stored ∈ lines, ¬stored.Matches msgId x := by
  induction lines with
  | nil => simp [loadShares]
  | cons stored rest ih =>
    have inside : ¬maxShares ≤ foundCount := by omega
    by_cases found : stored.Matches msgId x
    · simp [loadShares, inside, found]
    · simp [loadShares, inside, found, ih]

theorem isSome_loadAllSharesFromJson_iff {file : Option (List StoredShare)} {msgId : Bytes} {x : ℤ}
    {maxShares : ℕ} (room : 0 < maxShares) :
    (loadAllSharesFromJson file msgId x maxShares).isSome ↔
      ∃ lines, file = some lines ∧ ∃ stored ∈ lines, stored.Matches msgId x := by
  cases file with
  | none => simp [loadAllSharesFromJson]
  | some lines =>
    have none_iff := @loadShares_eq_nil_iff msgId x maxShares 0 lines room
    simp only [loadAllSharesFromJson]
    split
    next nothing => simpa using none_iff.mp nothing
    next shares something =>
      have := mt none_iff.mpr something
      simpa using this

@[mk_iff]
structure Available (surroundings : Surroundings) (file : List StoredShare) (participantId : ℤ)
    (msgId : Bytes) : Prop where
  participant : 1 ≤ participantId ∧ participantId ≤ secretShares
  found : surroundings.fileFound
  opens : surroundings.fileOpens
  allocated : surroundings.arrayAllocated ∧ surroundings.replyAllocated
  line : ∃ stored ∈ file, stored.Matches msgId participantId

theorem carriesShares_sendShares_iff {surroundings : Surroundings} {file : List StoredShare}
    {participantId : ℤ} {msgId : Bytes} :
    (sendShares surroundings file participantId msgId).carriesShares ↔
      Available surroundings file participantId msgId := by
  have loads :
      (loadAllSharesFromJson (if surroundings.fileOpens then some file else none) msgId
        participantId 1000).isSome ↔
        surroundings.fileOpens ∧ ∃ stored ∈ file, stored.Matches msgId participantId := by
    rw [isSome_loadAllSharesFromJson_iff (by decide)]
    cases surroundings.fileOpens <;> simp
  rw [available_iff, sendShares]
  generalize loadAllSharesFromJson _ _ _ _ = loaded at loads ⊢
  by_cases outside : participantId < 1 ∨ secretShares < participantId
  · simp only [if_pos outside, Reply.carriesShares, Bool.false_eq_true, false_iff]
    rintro ⟨participant, _⟩
    omega
  · have participant : 1 ≤ participantId ∧ participantId ≤ secretShares := by omega
    cases surroundings.fileFound
    · simp [outside, Reply.carriesShares]
    · cases surroundings.arrayAllocated
      · simp [outside, Reply.carriesShares]
      · cases loaded with
        | none =>
          have unavailable := mt loads.mpr (by simp)
          simp only [if_neg outside, Bool.true_eq_false, if_false, Reply.carriesShares,
            Bool.false_eq_true, false_iff]
          rintro ⟨_, _, opens, _, line⟩
          exact unavailable ⟨opens, line⟩
        | some shares =>
          have available := loads.mp rfl
          cases surroundings.replyAllocated <;>
            simp [outside, Reply.carriesShares, participant, available]

/-! ### Releases over a run -/

section Release

variable (firstLeg : Bytes → Prop) (concerns : Bytes → Bytes → Prop) (participantId : ℤ)

/-- Shares of a first leg go out with a request only if the judge has answered that the user whom
the message concerns needs an audit. -/
def ReleasedWithVerdict (exchange : Exchange) : Prop :=
  ∀ request, parseAuditRequest exchange.data = .ok request → firstLeg request.msgId →
    (exchange.outcome participantId).reply.carriesShares →
      (exchange.outcome participantId).verdict = some .needsAudit ∧
        concerns request.pairsSummaryJson request.msgId

/-- A request for shares of a first leg that are at hand is sent as such, and the judge answers it,
unless with zero, on a summary of the user whom the message concerns. -/
def Accountable (exchange : Exchange) : Prop :=
  ∀ request, parseAuditRequest exchange.data = .ok request → firstLeg request.msgId →
    Available exchange.surroundings exchange.file participantId request.msgId →
      request.tag = 0 ∧
        (callJudgeApi exchange.surroundings.judge request.pairsSummaryJson = .noAudit ∨
          callJudgeApi exchange.surroundings.judge request.pairsSummaryJson = .needsAudit ∧
            concerns request.pairsSummaryJson request.msgId)

variable {firstLeg concerns participantId}

theorem releasedWithVerdict_iff {exchange : Exchange} :
    ReleasedWithVerdict firstLeg concerns participantId exchange ↔
      Accountable firstLeg concerns participantId exchange := by
  unfold ReleasedWithVerdict Accountable
  refine forall_congr' fun request => forall_congr' fun parsed => forall_congr' fun _ => ?_
  have validTag := tag_of_parseAuditRequest parsed
  simp only [Exchange.outcome, parsed, ← carriesShares_sendShares_iff]
  rcases validTag with first | second
  · cases verdict : callJudgeApi exchange.surroundings.judge request.pairsSummaryJson <;>
      simp [handleAuditRequest, first, verdict, Reply.carriesShares]
  · simp [handleAuditRequest, second]

/-- A run: exactly the requests that are not accountable release shares without a verdict. -/
theorem shares_released_with_verdict_iff (firstLeg : Bytes → Prop) (concerns : Bytes → Bytes → Prop)
    (participantId : ℤ) (file : List StoredShare) (events : List Event) :
    (∀ exchange ∈ exchanges file events,
        ReleasedWithVerdict firstLeg concerns participantId exchange) ↔
      ∀ exchange ∈ exchanges file events, Accountable firstLeg concerns participantId exchange :=
  forall₂_congr fun _ _ => releasedWithVerdict_iff

end Release

def storedSample : StoredShare where
  msgId := ascii ['a']
  x := 1
  block := some (0, 1)
  dataLength := 5
  y := [1, 0, 0, 0, 7]

def surroundingsSample (answer : Option Bytes) : Surroundings where
  judge _ := answer
  fileFound := true
  fileOpens := true
  arrayAllocated := true
  replyAllocated := true

/-- The shares go out under the tag of the second leg, when the judge cannot be reached, and when
the request carries no summary. -/
theorem shares_released_without_verdict :
    let clears := surroundingsSample (some (messageKey ++ ascii ['0', '"']))
    ∀ request ∈
        [(clears, ascii ['\x01', 'a']),
          (surroundingsSample none, ascii ['\x00', 'a', '\x00', 's']),
          (clears, ascii ['\x00', 'a'])],
      ¬∀ exchange ∈ exchanges [] [.stored [storedSample], .request request.1 request.2],
        ReleasedWithVerdict (fun msgId => msgId = ascii ['a']) (fun _ _ => True) 1 exchange := by
  intro clears
  simp only [List.forall_mem_cons, exchanges, List.nil_append, List.not_mem_nil, false_implies,
    implies_true, and_true]
  refine ⟨fun gated => ?_, fun gated => ?_, fun gated => ?_⟩
  · exact absurd (gated _ rfl rfl rfl).1 (by decide)
  · exact absurd (gated _ rfl rfl rfl).1 (by decide)
  · exact absurd (gated _ rfl rfl rfl).1 (by decide)

end TigerMixer.Receiver
