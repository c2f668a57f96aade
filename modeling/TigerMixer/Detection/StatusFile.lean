import TigerMixer.Text.Format

/-!
# The file of suspicious transactions

Every suspicious transaction is a line of a file, with a status at its end. To change it, the first
line that contains the hash anywhere is changed in a table of a thousand lines, and the table is
written back.
-/

namespace TigerMixer.Detection

open Bytes Text List

/-! ### Saving -/

inductive RecordStatus where
  | pending
  | audited
  | failed
  deriving DecidableEq

def RecordStatus.text : RecordStatus → Bytes
  | .pending => ascii "\"PENDING\"".toList
  | .audited => ascii "AUDITED".toList
  | .failed => ascii "FAILED".toList

def headerWord : Bytes :=
  ascii "txhash".toList

def headerFront : Bytes :=
  headerWord ++ ascii ",address,time,".toList

def header : Bytes :=
  headerFront ++ ascii "status\n".toList

def lineFront (txHash address time : Bytes) : Bytes :=
  34 :: txHash ++ [34, comma, 34] ++ address ++ [34, comma, 34] ++ time ++ [34, comma]

def recordLine (txHash address time : Bytes) (status : RecordStatus) : Bytes :=
  lineFront txHash address time ++ status.text ++ [10]

def isTxhashExists (txHash : Bytes) : Option Bytes → Bool
  | none => false
  | some file => (readLines 511 file).any fun line =>
    !headerWord.isPrefixOf (cString line) && (strstr txHash (cString line)).isSome

/-- `save_suspicious_transaction_to_file`, with the file before and after it. `opens` is whether it
can be opened for appending. -/
def saveSuspiciousTransactionToFile (opens : Bool) (txHash address time : Bytes)
    (file : Option Bytes) : ℤ × Option Bytes :=
  if isTxhashExists txHash file then (0, file)
  else if opens = false then (-1, file)
  else (0, some (file.getD header ++ recordLine txHash address time .pending))

/-! ### Updating -/

inductive AuditStatus where
  | audited
  | failed

def AuditStatus.recorded : AuditStatus → RecordStatus
  | .audited => .audited
  | .failed => .failed

def throughLastComma (line : Bytes) : Bytes :=
  line.rdropWhile (· ≠ comma)

/-- Overwrite what is behind the last comma of a line. The bound of `snprintf` allows for one byte
behind the end of the line. -/
def overwriteStatus (status : AuditStatus) (line : Bytes) : Option Bytes :=
  if throughLastComma line = [] then some line
  else if (throughLastComma line).length + status.recorded.text.length + 2 ≤ 1024 then
    some (throughLastComma line ++ status.recorded.text ++ [10])
  else none

def updateLines (txHash : Bytes) (status : AuditStatus) : List Bytes → Option (List Bytes)
  | [] => some []
  | line :: lines =>
    if (strstr txHash line).isSome then (overwriteStatus status line).map (· :: lines)
    else (updateLines txHash status lines).map (line :: ·)

/-- `update_transaction_status`, with the file before and after it. There is no result when a byte
is written behind a line. -/
def updateTransactionStatus (reopens : Bool) (txHash : Bytes) (status : AuditStatus) :
    Option Bytes → Option (ℤ × Option Bytes)
  | none => some (-1, none)
  | some file =>
    (updateLines txHash status (((readLines 1023 file).take 1000).map cString)).map fun lines =>
      if reopens then (0, some lines.flatten) else (-1, some file)

/-! ### Records -/

structure Record where
  txHash : Bytes
  address : Bytes
  time : Bytes
  status : RecordStatus
  hashFits : txHash.length ≤ 66
  addressFits : address.length ≤ 42
  timeFits : time.length ≤ 63
  isText : ∀ byte ∈ txHash ++ address ++ time, byte ≠ 0 ∧ byte ≠ 10

def Record.line (record : Record) : Bytes :=
  recordLine record.txHash record.address record.time record.status

def fileText (records : List Record) : Bytes :=
  (header :: records.map Record.line).flatten

def setStatus (txHash : Bytes) (status : RecordStatus) : List Record → List Record
  | [] => []
  | record :: records =>
    if record.txHash = txHash then { record with status := status } :: records
    else record :: setStatus txHash status records

/-! ### Lines -/

section Lines

variable {txHash : Bytes} {status : AuditStatus} {line changed : Bytes} {lines result : List Bytes}

theorem overwriteStatus_append {before after : Bytes} (ends : before.getLast? = some comma)
    (noComma : comma ∉ after) (short : before.length ≤ 1000) :
    overwriteStatus status (before ++ after) = some (before ++ status.recorded.text ++ [10]) := by
  have through : throughLastComma (before ++ after) = before := by
    apply rdropWhile_eq_iff.mpr
    refine ⟨after, rfl, ?_, by simp [ends]⟩
    intro byte member
    simpa using fun same : byte = comma => noComma (same ▸ member)
  have nonempty : before ≠ [] := by
    rintro rfl
    simp at ends
  have fits : before.length + status.recorded.text.length + 2 ≤ 1024 := by
    have : status.recorded.text.length ≤ 9 := by cases status <;> decide
    omega
  rw [overwriteStatus, through, if_neg nonempty, if_pos fits]

theorem isLine_overwriteStatus (isLine : IsLine 1023 line)
    (overwritten : overwriteStatus status line = some changed) : IsLine 1023 changed := by
  rcases isLine with ⟨body, rfl, short, noNewline⟩
  rcases rdropWhile_eq_iff.mp (rfl : throughLastComma (body ++ [10]) = _) with
    ⟨skipped, split, _, stop⟩
  unfold overwriteStatus at overwritten
  generalize throughLastComma (body ++ [10]) = before at overwritten split stop
  split_ifs at overwritten with empty fits
  · simp only [Option.some.injEq] at overwritten
    exact ⟨body, overwritten.symm, short, noNewline⟩
  · -- The newline is behind the last comma.
    have inBody : before <+: body := by
      rcases prefix_concat_iff.mp ⟨skipped, split.symm⟩ with whole | inBody
      · simp [whole, comma] at stop
      · exact inBody
    have newStatus : (10 : UInt8) ∉ status.recorded.text := by cases status <;> decide
    simp only [Option.some.injEq] at overwritten
    refine ⟨before ++ status.recorded.text, overwritten.symm, ?_, ?_⟩
    · simp only [length_append]
      omega
    · simp only [mem_append, not_or]
      exact ⟨fun member => noNewline (inBody.mem member), newStatus⟩

theorem updateLines_spec (areLines : ∀ line ∈ lines, IsLine 1023 line)
    (updated : updateLines txHash status lines = some result) :
    result.length = lines.length ∧ ∀ line ∈ result, IsLine 1023 line := by
  induction lines generalizing result with
  | nil =>
    simp only [updateLines, Option.some.injEq] at updated
    simp [← updated]
  | cons line lines ih =>
    rw [forall_mem_cons] at areLines
    unfold updateLines at updated
    split_ifs at updated with found
    · simp only [Option.map_eq_some_iff] at updated
      rcases updated with ⟨changed, overwritten, rfl⟩
      simpa using ⟨isLine_overwriteStatus areLines.1 overwritten, areLines.2⟩
    · simp only [Option.map_eq_some_iff] at updated
      rcases updated with ⟨rest, updated, rfl⟩
      rcases ih areLines.2 updated with ⟨length, areLines'⟩
      simpa [length] using ⟨areLines.1, areLines'⟩

theorem updateLines_of_absent (absent : ∀ line ∈ lines, ¬txHash <:+: line) :
    updateLines txHash status lines = some lines := by
  induction lines with
  | nil => rfl
  | cons line lines ih =>
    rw [forall_mem_cons] at absent
    simp [updateLines, strstr_eq_none_iff.mpr absent.1, ih absent.2]

theorem flatten_inj (areLines : ∀ line ∈ lines, IsLine 1023 line)
    (areLines' : ∀ line ∈ result, IsLine 1023 line) :
    lines.flatten = result.flatten ↔ lines = result := by
  constructor
  · intro same
    rw [← readLines_flatten areLines, same, readLines_flatten areLines']
  · rintro rfl
    rfl

end Lines

/-! ### Records as lines -/

section Records

variable {txHash : Bytes} {status : AuditStatus} {record : Record} {records : List Record}

@[simp]
theorem length_setStatus {status : RecordStatus} :
    (setStatus txHash status records).length = records.length := by
  fun_induction setStatus txHash status records <;> simp_all

theorem isLine_header {limit : ℕ} (roomy : 200 ≤ limit) : IsLine limit header := by
  refine ⟨header.dropLast, by decide, lt_of_lt_of_le ?_ roomy, by decide⟩
  decide

theorem Record.notMem_body (record : Record) {byte : UInt8} (control : byte = 0 ∨ byte = 10) :
    byte ∉ lineFront record.txHash record.address record.time ++ record.status.text := by
  have notText : byte ∉ record.txHash ++ record.address ++ record.time := by
    intro member
    have text := record.isText byte member
    rcases control with rfl | rfl <;> simp at text
  have notStatus : byte ∉ record.status.text := by
    rcases control with rfl | rfl <;> cases record.status <;> decide
  have notMark : byte ≠ 34 ∧ byte ≠ comma := by
    rcases control with rfl | rfl <;> decide
  simp only [mem_append, not_or] at notText
  simp [lineFront, notText, notStatus, notMark]

theorem Record.length_body (record : Record) :
    (lineFront record.txHash record.address record.time ++ record.status.text).length < 200 := by
  have hashFits := record.hashFits
  have addressFits := record.addressFits
  have timeFits := record.timeFits
  have statusFits : record.status.text.length ≤ 9 := by cases record.status <;> decide
  simp only [lineFront, length_append, length_cons, length_nil]
  omega

theorem Record.isLine (record : Record) {limit : ℕ} (roomy : 200 ≤ limit) :
    IsLine limit record.line :=
  ⟨_, rfl, record.length_body.trans_le roomy, record.notMem_body (.inr rfl)⟩

theorem Record.cString_line (record : Record) : cString record.line = record.line := by
  apply cString_of_notMem
  have noZero := record.notMem_body (.inl rfl)
  simpa [line, recordLine] using noZero

theorem Record.infix_line (record : Record) : record.txHash <:+: record.line := by
  refine ⟨[34], [34, comma, 34] ++ record.address ++ [34, comma, 34] ++ record.time ++
    [34, comma] ++ record.status.text ++ [10], ?_⟩
  simp [line, recordLine, lineFront]

theorem Record.overwriteStatus_line (record : Record) :
    overwriteStatus status record.line = some { record with status := status.recorded }.line := by
  have length := record.length_body
  rw [length_append] at length
  rw [line, recordLine, append_assoc, overwriteStatus_append]
  · rfl
  · rw [lineFront, getLast?_append]
    rfl
  · cases record.status <;> decide
  · omega

theorem Record.line_setStatus_iff (record : Record) {status : RecordStatus} :
    { record with status := status }.line = record.line ↔ status = record.status := by
  simp only [line, recordLine, append_cancel_right_eq, append_cancel_left_eq]
  cases status <;> cases record.status <;> decide

theorem overwriteStatus_header :
    overwriteStatus status header = some (headerFront ++ status.recorded.text ++ [10]) :=
  overwriteStatus_append (by decide) (by decide) (by decide)

theorem isLine_text (records : List Record) {limit : ℕ} (roomy : 200 ≤ limit) :
    ∀ line ∈ header :: records.map Record.line, IsLine limit line := by
  simp only [forall_mem_cons, forall_mem_map]
  exact ⟨isLine_header roomy, fun record _ => record.isLine roomy⟩

theorem isLine_table (records : List Record) :
    ∀ line ∈ (header :: records.map Record.line).take 1000, IsLine 1023 line :=
  fun line member => isLine_text records (by decide) line (mem_of_mem_take member)

theorem readLines_fileText (records : List Record) {limit : ℕ} (roomy : 200 ≤ limit) :
    readLines limit (fileText records) = header :: records.map Record.line :=
  readLines_flatten (isLine_text records roomy)

theorem map_cString_text (records : List Record) :
    (header :: records.map Record.line).map cString = header :: records.map Record.line := by
  have noZero : cString header = header := by decide
  simp [noZero, Record.cString_line]

/-! ### Files -/

theorem save_fileText (pending : record.status = .pending) (records : List Record) :
    saveSuspiciousTransactionToFile true record.txHash record.address record.time
        (some (fileText records)) =
      (0, some (fileText (if ∃ other ∈ records, record.txHash <:+: other.line then records
        else records ++ [record]))) := by
  have notHeader (other : Record) : headerWord.isPrefixOf other.line = false := rfl
  have search : isTxhashExists record.txHash (some (fileText records)) =
      decide (∃ other ∈ records, record.txHash <:+: other.line) := by
    have header : (!headerWord.isPrefixOf (cString header) &&
        (strstr record.txHash (cString header)).isSome) = false := rfl
    rw [isTxhashExists, readLines_fileText records (by decide), Bool.eq_iff_iff]
    simp [header, Record.cString_line, notHeader, isSome_strstr_iff]
  rw [saveSuspiciousTransactionToFile, search]
  by_cases found : ∃ other ∈ records, record.txHash <:+: other.line
  · simp only [found, decide_true, if_true]
  · have line : recordLine record.txHash record.address record.time .pending = record.line := by
      rw [Record.line, pending]
    simp [found, line, fileText]

theorem update_fileText_iff {records' : List Record} :
    updateTransactionStatus true txHash status (some (fileText records)) =
        some (0, some (fileText records')) ↔
      updateLines txHash status ((header :: records.map Record.line).take 1000) =
        some (header :: records'.map Record.line) := by
  rw [updateTransactionStatus, readLines_fileText records (by decide), map_take, map_cString_text]
  cases updated : updateLines txHash status ((header :: records.map Record.line).take 1000) with
  | none => simp
  | some result =>
    have same := flatten_inj (updateLines_spec (isLine_table records) updated).2
      (isLine_text records' (by decide))
    simpa [fileText] using same

theorem updateLines_records_iff :
    (∀ status, updateLines txHash status (records.map Record.line) =
        some ((setStatus txHash status.recorded records).map Record.line)) ↔
      ∀ record ∈ records.find? fun record => txHash <:+: record.line, record.txHash = txHash := by
  induction records with
  | nil => simp [updateLines, setStatus]
  | cons record records ih =>
    by_cases found : txHash <:+: record.line
    · have isSome := isSome_strstr_iff.mpr found
      by_cases same : record.txHash = txHash
      · simp [updateLines, setStatus, isSome, record.overwriteStatus_line, found, same]
      · -- One of the two statuses is not the one that the record has.
        simp only [updateLines, setStatus, isSome, record.overwriteStatus_line, found, same,
          map_cons, find?_cons, decide_true, if_true, if_false, Option.map_some, Option.some.injEq,
          List.cons.injEq, Option.mem_def, forall_eq', iff_false, record.line_setStatus_iff]
        intro right
        have audited := (right .audited).1
        have failed := (right .failed).1
        exact absurd (audited.trans failed.symm) (by decide)
    · have other : record.txHash ≠ txHash := by
        rintro rfl
        exact found record.infix_line
      have isNone : (strstr txHash record.line).isSome = false := by
        simpa using strstr_eq_none_iff.mpr found
      simpa [updateLines, setStatus, isNone, found, other] using ih

end Records

/-- An update sets the status of its own record alone exactly if the file fits into the table, the
hash does not occur in the header, and the first line it occurs in is its own. -/
theorem update_right_iff (txHash : Bytes) (records : List Record) :
    (∀ status, updateTransactionStatus true txHash status (some (fileText records)) =
        some (0, some (fileText (setStatus txHash status.recorded records)))) ↔
      records.length ≤ 999 ∧ ¬txHash <:+: header ∧
        ∀ record ∈ records.find? fun record => txHash <:+: record.line, record.txHash = txHash := by
  simp only [update_fileText_iff]
  by_cases fits : records.length ≤ 999
  · have whole : (header :: records.map Record.line).take 1000 =
        header :: records.map Record.line := by
      apply take_of_length_le
      simpa [Nat.lt_succ_iff] using fits
    by_cases inHeader : txHash <:+: header
    · have changed : headerFront ++ AuditStatus.audited.recorded.text ++ [10] ≠ header := by decide
      have isSome := isSome_strstr_iff.mpr inHeader
      simp only [whole, updateLines, isSome, overwriteStatus_header, inHeader, fits, if_true,
        Option.map_some, Option.some.injEq, List.cons.injEq, not_true, false_and, and_false,
        iff_false]
      exact fun right => changed (right .audited).1
    · have isNone : (strstr txHash header).isSome = false := by
        simpa using strstr_eq_none_iff.mpr inHeader
      simp only [whole, fits, inHeader, not_false_eq_true, true_and, ← updateLines_records_iff]
      simp [updateLines, isNone]
  · simp only [fits, false_and, iff_false]
    intro right
    have length := (updateLines_spec (isLine_table records) (right .audited)).1
    simp only [length_cons, length_map, length_take, length_setStatus] at length
    omega

/-! ### Wrong updates -/

def numbered (number : Fin 999) : Record where
  txHash := printSize number
  address := ascii ['0']
  time := ascii ['0']
  status := .pending
  hashFits := (length_printSize (show 0 < 3 by decide) (by omega)).trans (by decide)
  addressFits := by decide
  timeFits := by decide
  isText := by
    intro byte member
    have digit : isDigit byte = true := by
      by_contra other
      rw [Bool.not_eq_true] at other
      simp only [mem_append, notMem_printSize other, false_or, or_self, ascii, map_cons, map_nil,
        mem_singleton] at member
      subst member
      exact absurd other (by decide)
    constructor <;> rintro rfl <;> simp [isDigit] at digit

theorem notMem_line_numbered (number : Fin 999) : (90 : UInt8) ∉ (numbered number).line := by
  have notDigit : (90 : UInt8) ∉ printSize number := notMem_printSize (by decide)
  have notStatus : (90 : UInt8) ∉ RecordStatus.pending.text := by decide
  simp [Record.line, recordLine, lineFront, numbered, notDigit, notStatus, ascii, comma]

/-- An update changes a record in whose line its hash occurs, and an update for a hash that is not
in the file loses a record that was saved behind the thousandth line. -/
theorem update_touches_others :
    (∃ first second : Record, first.txHash ≠ second.txHash ∧
      updateTransactionStatus true second.txHash .audited (some (fileText [first, second])) =
        some (0, some (fileText [{ first with status := .audited }, second]))) ∧
    ∃ (records : List Record) (last : Record), records.length = 999 ∧
      ((records ++ [last]).map Record.txHash).Nodup ∧
      saveSuspiciousTransactionToFile true last.txHash last.address last.time
          (some (fileText records)) = (0, some (fileText (records ++ [last]))) ∧
      ∃ txHash, (∀ record ∈ records ++ [last], record.txHash ≠ txHash) ∧
        updateTransactionStatus true txHash .audited (some (fileText (records ++ [last]))) =
          some (0, some (fileText records)) := by
  let named (txHash : Bytes) (hashFits : txHash.length ≤ 66)
      (isText : ∀ byte ∈ txHash ++ ascii ['0'] ++ ascii ['0'], byte ≠ 0 ∧ byte ≠ 10) : Record :=
    { numbered 0 with txHash, hashFits, isText }
  constructor
  · refine ⟨numbered 10, named (ascii ['1']) (by decide) (by decide +kernel), by decide, ?_⟩
    decide +kernel
  · have absent (number : Fin 999) {txHash : Bytes} (mark : 90 ∈ txHash) :
        ¬txHash <:+: (numbered number).line := fun inLine =>
      notMem_line_numbered number (inLine.mem mark)
    have others {txHash : Bytes} (mark : 90 ∈ txHash) :
        ∀ record ∈ (List.finRange 999).map numbered, record.txHash ≠ txHash := by
      simp only [forall_mem_map]
      intro number _ same
      exact absent number mark (same ▸ (numbered number).infix_line)
    refine ⟨(List.finRange 999).map numbered, named [90] (by decide) (by decide +kernel), by simp,
      ?_, ?_, [90, 90], ?_, ?_⟩
    · rw [map_append, nodup_append]
      refine ⟨?_, nodup_singleton _, ?_⟩
      · rw [map_map]
        apply (nodup_finRange 999).map
        intro first second same
        have values := congrArg decimalValue same
        simp only [Function.comp_apply, numbered, decimalValue_printSize] at values
        exact Fin.ext values
      · simpa [named] using others (mem_singleton_self 90)
    · have saved := @save_fileText (named [90] (by decide) (by decide +kernel)) rfl
        ((List.finRange 999).map numbered)
      rwa [if_neg] at saved
      rintro ⟨other, member, inLine⟩
      rcases mem_map.mp member with ⟨number, -, rfl⟩
      exact absent number (mem_singleton_self 90) inLine
    · simp only [forall_mem_append, forall_mem_singleton]
      exact ⟨others mem_cons_self, by decide⟩
    · rw [update_fileText_iff, updateLines_of_absent]
      · simp
      · intro line member
        have inFile := mem_of_mem_take member
        simp only [map_append, map_map, mem_cons, mem_append, mem_map, not_mem_nil, or_false,
          map_cons, map_nil] at inFile
        rcases inFile with rfl | ⟨number, _, rfl⟩ | rfl
        · decide
        · exact absent number mem_cons_self
        · decide +kernel

end TigerMixer.Detection
