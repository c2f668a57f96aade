import Mathlib.Data.List.DropRight
import TigerMixer.Reputation.Contract

/-!
# The upload of the statistics

The update script reports the statistics of the members to the reputation contract, which records
them under the sender. If the account of a member cannot be unlocked, the first account of the node
reports instead, about itself.
-/

namespace TigerMixer.Reputation.Upload

/-! ### The file -/

abbrev Text := List Char

def isWhite (char : Char) : Bool :=
  char.toNat ∈
      [9, 10, 11, 12, 13, 32, 160, 0x1680, 0x2028, 0x2029, 0x202f, 0x205f, 0x3000, 0xfeff] ||
    0x2000 ≤ char.toNat && char.toNat ≤ 0x200a

def trim (text : Text) : Text :=
  (text.dropWhile isWhite).rdropWhile isWhite

abbrev Row := List (Text × Text)

def parseCSV (content : Text) : List Row :=
  match (trim content).splitOn '\n' with
  | [] => []
  | header :: lines => lines.map fun line =>
    (header.splitOn ',').zipIdx.map fun (name, index) =>
      (trim name, trim ((line.splitOn ',').getD index []))

def digitValue (char : Char) : ℕ :=
  if '0' ≤ char ∧ char ≤ '9' then char.toNat - 48
  else if 'a' ≤ char ∧ char ≤ 'f' then char.toNat - 87
  else if 'A' ≤ char ∧ char ≤ 'F' then char.toNat - 55
  else 16

def digitsValue (base : ℕ) (digits : Text) : ℕ :=
  digits.foldl (fun value digit => value * base + digitValue digit) 0

def parseInt (text : Text) : Option ℤ :=
  let text := text.dropWhile isWhite
  let (sign, text) : ℤ × Text := match text with
    | '-' :: rest => (-1, rest)
    | '+' :: rest => (1, rest)
    | _ => (1, text)
  let (base, text) : ℕ × Text := match text with
    | '0' :: 'x' :: rest => (16, rest)
    | '0' :: 'X' :: rest => (16, rest)
    | _ => (10, text)
  let digits := text.takeWhile fun char => digitValue char < base
  if digits = [] then none else some (sign * digitsValue base digits)

namespace Row

variable (reparse : ℤ → ℤ) (row : Row)

/-- A property of the object for a row. Of columns with the same name the last one counts. -/
def get (name : String) : Option Text :=
  (row.filter fun column => column.1 = name.toList).getLast?.map Prod.snd

def number (name : String) : Option ℤ :=
  (row.get name).bind parseInt

/-- The participation, or what stands for it in the earlier format. `reparse` turns a number into a
text and back. -/
def participation : Option ℤ :=
  match ((row.get "participation").filter (· ≠ [])).or
      ((row.get "participationRate").filter (· ≠ [])) with
  | some text => parseInt text
  | none => (row.number "accuracy").map reparse

def outOfRange (value : Option ℤ) : Bool :=
  value.any fun value => 100 < value || value < 0

def skipped : Bool :=
  row.number "total_decisions" = some 0 || outOfRange (row.number "consistency") ||
    outOfRange (row.participation reparse)

def scores : Option (ℕ × ℕ) :=
  (row.participation reparse).bind fun participation =>
    (row.number "consistency").map fun consistency => (participation.toNat, consistency.toNat)

end Row

/-! ### The script -/

def toLowerCase (text : Text) : Text := text.map Char.toLower

def addressOf : Text → Option Address
  | '0' :: 'x' :: digits =>
    if digits.length = 40 ∧ digits.all (digitValue · < 16) then
      some (digitsValue 16 digits)
    else none
  | _ => none

structure Account where
  text : Text
  address : Address
  isAddress : addressOf (toLowerCase text) = some address

structure Outcome where
  unlocks : Bool
  sends : Bool
  timestamp : ℕ

variable (reparse : ℤ → ℤ) (accounts : List Account)

def findAccount (memberAddress : Text) : Option Account :=
  accounts.find? fun account => toLowerCase account.text = memberAddress

def senderAccount (unlocks : Bool) (memberAddress : Text) : Option Address :=
  match findAccount accounts memberAddress with
  | some account => some account.address
  | none =>
    if unlocks then addressOf memberAddress
    else accounts.head?.map Account.address

def sentBy (outcome : Outcome) (row : Row) : Option Address :=
  if row.skipped reparse = false ∧ outcome.sends then
    (row.get "address").bind fun address =>
      senderAccount accounts outcome.unlocks (toLowerCase address)
  else none

/-- The body of the loop over the rows. A row without an address ends the script. -/
def handle (outcome : Outcome) (row : Row) (state : State) : Option State :=
  if row.skipped reparse = false ∧ row.get "address" = none then none
  else
    match sentBy reparse accounts outcome row, row.scores reparse with
    | some sender, some (participation, consistency) =>
      some (state.step ⟨⟨sender, 0, outcome.timestamp⟩, participation, consistency⟩)
    | _, _ => some state

structure Handled where
  row : Row
  outcome : Outcome
  before : State
  after : State

def handled (outcomes : ℕ → Outcome) : ℕ → List Row → State → List Handled
  | _, [], _ => []
  | index, row :: rows, state =>
    match handle reparse accounts (outcomes index) row state with
    | none => []
    | some next => ⟨row, outcomes index, state, next⟩ :: handled outcomes (index + 1) rows next

def upload (outcomes : ℕ → Outcome) (rows : List Row) (state : State) : State :=
  ((handled reparse accounts outcomes 0 rows state).getLast?.map Handled.after).getD state

/-! ### Whom an upload affects -/

def recordedScores (state : State) (member : Address) : ℕ × ℕ :=
  ((state.memberReputations member).participationRate, (state.memberReputations member).consistency)

namespace Row

def IsFor (row : Row) (member : Address) : Prop :=
  ∃ address, row.get "address" = some address ∧ addressOf (toLowerCase address) = some member

def IsLocal (row : Row) : Prop :=
  ∃ address, row.get "address" = some address ∧
    ∃ account ∈ accounts, toLowerCase account.text = toLowerCase address

end Row

/-- Scores only change to those in a row for the address, and a row whose address is not local
changes those of no other address. -/
def UploadRight (outcomes : ℕ → Outcome) (rows : List Row) (state : State) : Prop :=
  (∀ member,
    recordedScores (upload reparse accounts outcomes rows state) member ≠
        recordedScores state member →
      ∃ row ∈ rows, row.IsFor member ∧ row.scores reparse =
        some (recordedScores (upload reparse accounts outcomes rows state) member)) ∧
  ∀ entry ∈ handled reparse accounts outcomes 0 rows state, ¬entry.row.IsLocal accounts →
    ∀ member, ¬entry.row.IsFor member →
      recordedScores entry.after member = recordedScores entry.before member

/-- If somebody else reports the scores of the row, they are what is recorded for the sender. -/
def Handled.Harmless (entry : Handled) : Prop :=
  ∀ sender, sentBy reparse accounts entry.outcome entry.row = some sender →
    ¬entry.row.IsFor sender →
      ∀ scores, entry.row.scores reparse = some scores → recordedScores entry.before sender = scores

variable {reparse accounts} {outcome : Outcome} {row : Row} {state next : State} {sender : Address}

theorem isFor_or_fallback (sent : sentBy reparse accounts outcome row = some sender) :
    row.IsFor sender ∨ ¬row.IsLocal accounts ∧ outcome.unlocks = false ∧
      accounts.head?.map Account.address = some sender := by
  unfold sentBy at sent
  split at sent
  case isFalse => cases sent
  obtain ⟨address, column, sent⟩ := Option.bind_eq_some_iff.1 sent
  unfold senderAccount at sent
  cases found : findAccount accounts (toLowerCase address) with
  | some account =>
    rw [found] at sent
    obtain rfl := Option.some.inj sent
    have same : toLowerCase account.text = toLowerCase address := by
      simpa using List.find?_some found
    exact .inl ⟨address, column, same ▸ account.isAddress⟩
  | none =>
    rw [found] at sent
    cases unlocks : outcome.unlocks with
    | true => exact .inl ⟨address, column, by simpa [unlocks] using sent⟩
    | false =>
      refine .inr ⟨?_, rfl, by simpa [unlocks] using sent⟩
      rintro ⟨other, column', account, mem, same⟩
      obtain rfl := Option.some.inj (column.symm.trans column')
      exact List.find?_eq_none.1 found account mem (by simpa using same)

variable {scores : ℕ × ℕ} {member : Address} {outcomes : ℕ → Outcome} {index : ℕ} {rows : List Row}

theorem scores_le (read : row.scores reparse = some scores) (kept : row.skipped reparse = false) :
    scores.1 ≤ 100 ∧ scores.2 ≤ 100 := by
  obtain ⟨participation, readP, read⟩ := Option.bind_eq_some_iff.1 read
  obtain ⟨consistency, readC, rfl⟩ := Option.map_eq_some_iff.1 read
  simp [Row.skipped, Row.outOfRange, readP, readC] at kept
  simp only [Int.toNat_le]
  omega

section Row

variable (done : handle reparse accounts outcome row state = some next)

include done

theorem recordedScores_of_sent (sent : sentBy reparse accounts outcome row = some sender)
    (read : row.scores reparse = some scores) :
    recordedScores next = Function.update (recordedScores state) sender scores := by
  have kept : row.skipped reparse = false := by
    by_contra skipped
    simp [sentBy, skipped] at sent
  have small := scores_le read kept
  have column : row.get "address" ≠ none := by
    rintro absent
    simp [sentBy, absent] at sent
  simp only [handle, kept, column, and_false, if_false, sent, read, Option.some.injEq] at done
  rw [← done]
  funext member
  by_cases same : member = sender <;>
    simp [State.step, State.updateReputation, recordedScores, small, guard, same]

theorem eq_of_not_sent
    (unsent : ∀ sender scores, sentBy reparse accounts outcome row = some sender →
      row.scores reparse ≠ some scores) : next = state := by
  unfold handle at done
  split at done
  · cases done
  · split at done
    case _ sender participation consistency sent read => exact absurd read (unsent _ _ sent)
    · exact (Option.some.inj done).symm

theorem sentBy_of_changed (changed : recordedScores next member ≠ recordedScores state member) :
    sentBy reparse accounts outcome row = some member ∧
      row.scores reparse = some (recordedScores next member) := by
  by_contra other
  apply changed
  by_cases unsent : ∀ sender scores, sentBy reparse accounts outcome row = some sender →
      row.scores reparse ≠ some scores
  · rw [eq_of_not_sent done unsent]
  · push Not at unsent
    obtain ⟨sender, scores, sent, read⟩ := unsent
    rw [recordedScores_of_sent done sent read] at other ⊢
    apply Function.update_of_ne
    rintro rfl
    exact other ⟨sent, by simpa using read⟩

end Row

theorem handle_of_mem_handled {entry : Handled}
    (mem : entry ∈ handled reparse accounts outcomes index rows state) :
    handle reparse accounts entry.outcome entry.row entry.before = some entry.after := by
  induction rows generalizing index state with
  | nil => cases mem
  | cons row rows ih =>
    unfold handled at mem
    split at mem
    · cases mem
    case _ next done =>
      rcases List.mem_cons.1 mem with rfl | later
      · exact done
      · exact ih later

theorem exists_row_of_changed
    (harmless : ∀ entry ∈ handled reparse accounts outcomes index rows state,
      entry.Harmless reparse accounts) {final : State}
    (last : ((handled reparse accounts outcomes index rows state).getLast?.map
      Handled.after).getD state = final)
    (changed : recordedScores final member ≠ recordedScores state member) :
    ∃ row ∈ rows, row.IsFor member ∧ row.scores reparse = some (recordedScores final member) := by
  induction rows generalizing index state with
  | nil => exact absurd (congrArg (recordedScores · member) last.symm) changed
  | cons row rows ih =>
    cases done : handle reparse accounts (outcomes index) row state with
    | none =>
      rw [handled, done] at last
      exact absurd (congrArg (recordedScores · member) last.symm) changed
    | some next =>
      rw [handled, done] at last harmless
      obtain ⟨first, rest⟩ := List.forall_mem_cons.1 harmless
      have later : ((handled reparse accounts outcomes (index + 1) rows next).getLast?.map
          Handled.after).getD next = final := by
        rw [← last, List.getLast?_cons]
        cases (handled reparse accounts outcomes (index + 1) rows next).getLast? <;> rfl
      by_cases unchanged : recordedScores final member = recordedScores next member
      · -- the row itself has changed the scores, and is about the sender
        rw [unchanged] at changed ⊢
        obtain ⟨sent, read⟩ := sentBy_of_changed done changed
        refine ⟨row, List.mem_cons_self, ?_, read⟩
        by_contra other
        exact changed (first member sent other _ read).symm
      · obtain ⟨found, mem, rest⟩ := ih rest later unchanged
        exact ⟨found, List.mem_cons_of_mem row mem, rest⟩

/-- An upload records scores for nobody else exactly if those that are sent from another account are
already recorded for it. -/
theorem upload_right_iff (reparse : ℤ → ℤ) (accounts : List Account) (outcomes : ℕ → Outcome)
    (content : Text) (state : State) :
    UploadRight reparse accounts outcomes (parseCSV content) state ↔
      ∀ entry ∈ handled reparse accounts outcomes 0 (parseCSV content) state,
        entry.Harmless reparse accounts := by
  constructor
  · rintro ⟨-, right⟩ entry mem sender sent other scores read
    have done := handle_of_mem_handled mem
    obtain own | ⟨foreign, -⟩ := isFor_or_fallback sent
    · exact absurd own other
    rw [← right entry mem foreign sender other, recordedScores_of_sent done sent read]
    exact Function.update_self ..
  · intro harmless
    refine ⟨fun member => exists_row_of_changed harmless rfl, ?_⟩
    intro entry mem foreign member other
    by_contra changed
    obtain ⟨sent, read⟩ := sentBy_of_changed (handle_of_mem_handled mem) changed
    exact changed (harmless entry mem member sent other _ read).symm

def sampleAddress (digit : Char) : Text := '0' :: 'x' :: List.replicate 40 digit

def sampleAccount : Account :=
  ⟨sampleAddress '1', digitsValue 16 (List.replicate 40 '1'), by decide +kernel⟩

theorem upload_changes_other :
    let outcomes : ℕ → Outcome := fun _ => ⟨false, true, 7⟩
    let content := "address,total_decisions,consistency,participation\n".toList ++
      sampleAddress '2' ++ ",5,90,80\n".toList
    let state := State.create [sampleAccount.address] 0
    recordedScores state sampleAccount.address = (50, 50) ∧
      recordedScores (upload id [sampleAccount] outcomes (parseCSV content) state)
        sampleAccount.address = (80, 90) ∧
      ¬UploadRight id [sampleAccount] outcomes (parseCSV content) state := by
  intro outcomes content state
  have before : recordedScores state sampleAccount.address = (50, 50) := by decide +kernel
  have after : recordedScores (upload id [sampleAccount] outcomes (parseCSV content) state)
      sampleAccount.address = (80, 90) := by decide +kernel
  refine ⟨before, after, fun ⟨right, _⟩ => ?_⟩
  obtain ⟨row, mem, ⟨address, column, isAddress⟩, -⟩ :=
    right sampleAccount.address (by rw [before, after]; decide)
  have columns : ∀ row ∈ parseCSV content, row.get "address" = some (sampleAddress '2') := by
    decide +kernel
  obtain rfl := Option.some.inj (column.symm.trans (columns row mem))
  exact absurd isAddress (by decide +kernel)

end TigerMixer.Reputation.Upload
