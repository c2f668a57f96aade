import TigerMixer.Text.CString

/-!
# Monitor mode

`monitor_mode` reads the file of suspicious transactions again and again and remembers the hashes
that it has seen. What is audited are the values of the first column in the order of their first
appearance, each of them once.
-/

namespace TigerMixer.MonitorMode

open Bytes Text List

/-! ### Lists that grow -/

structure PointerList where
  texts : List Bytes
  capacity : ℕ

def PointerList.grown (list : PointerList) : ℕ :=
  if list.capacity ≤ list.texts.length then list.capacity * 2 else list.capacity

/-- `add_to_processed`, also done for the new hashes. A write behind the end has no result. -/
def PointerList.add (list : PointerList) (txhash : Bytes) : Option PointerList :=
  if list.texts.length < list.grown then some ⟨list.texts ++ [txhash], list.grown⟩ else none

def PointerList.isProcessed (list : PointerList) (txhash : Bytes) : Bool :=
  list.texts.any (· = txhash)

theorem PointerList.isProcessed_iff {list : PointerList} {txhash : Bytes} :
    list.isProcessed txhash ↔ txhash ∈ list.texts := by
  simp [isProcessed]

structure PointerList.Roomy (list : PointerList) : Prop where
  positive : 0 < list.capacity
  within : list.texts.length ≤ list.capacity

theorem PointerList.Roomy.add {list : PointerList} (roomy : list.Roomy) (txhash : Bytes) :
    ∃ longer, list.add txhash = some longer ∧ longer.texts = list.texts ++ [txhash] ∧
      longer.Roomy := by
  rcases roomy with ⟨positive, within⟩
  have room : list.texts.length < list.grown := by
    rw [PointerList.grown]
    split_ifs <;> omega
  exact ⟨_, if_pos room, rfl, Nat.zero_lt_of_lt room, by simpa using room⟩

/-! ### Polls -/

def initProcessedList : PointerList := ⟨[], 100⟩

def isHeader (line : Bytes) : Bool :=
  (ascii "txhash".toList).isPrefixOf line

def endsColumn (byte : UInt8) : Bool :=
  byte = 34 || byte = 44

def skipQuote : Bytes → Bytes
  | [] => []
  | byte :: rest => if byte = 34 then rest else byte :: rest

/-- The loop that copies the first column, up to the end of the text at the latest. -/
def copyColumn : ℕ → Bytes → Bytes
  | 0, _ => []
  | _ + 1, [] => []
  | room + 1, byte :: rest =>
    if byte = 0 ∨ endsColumn byte then [] else byte :: copyColumn room rest

structure Lists where
  processed : PointerList
  newTxhashes : PointerList

def readLine (lists : Lists) (line : Bytes) : Option Lists :=
  if isHeader line then some lists
  else
    let txhash := copyColumn 127 (skipQuote line)
    if 10 < txhash.length ∧ ¬lists.processed.isProcessed txhash then do
      let newTxhashes ← lists.newTxhashes.add txhash
      let processed ← lists.processed.add txhash
      return ⟨processed, newTxhashes⟩
    else some lists

/-- `read_new_transactions`, on the content of the file if it can be opened. -/
def readNewTransactions (file : Option Bytes) (processed : PointerList) : Option Lists :=
  match file with
  | none => some ⟨processed, ⟨[], 0⟩⟩
  | some content => (readLines 511 content).foldlM readLine ⟨processed, ⟨[], 10⟩⟩

/-- The hashes that the loop of `monitor_mode` hands to `audit_message`, poll by poll. -/
def monitorFrom (processed : PointerList) : List (Option Bytes) → Option (List Bytes)
  | [] => some []
  | file :: files => do
    let lists ← readNewTransactions file processed
    let later ← monitorFrom lists.processed files
    return lists.newTxhashes.texts ++ later

def monitorMode (files : List (Option Bytes)) : Option (List Bytes) :=
  monitorFrom initProcessedList files

/-! ### Values in order of appearance -/

/-- The first column of a line, which ends before a quote, a comma or the end of the text. -/
def firstColumn (line : Bytes) : Bytes :=
  (cString (skipQuote line)).takeWhile fun byte => !endsColumn byte

/-- A complete line of the file. One without a comma would be a column of its own. -/
structure Line where
  body : Bytes
  short : body.length < 511
  noNewline : (10 : UInt8) ∉ body
  shortColumn : (firstColumn (body ++ [10])).length < 127

def Line.text (line : Line) : Bytes :=
  line.body ++ [10]

def Line.value (line : Line) : Option Bytes :=
  if ¬isHeader line.text ∧ 10 < (firstColumn line.text).length then some (firstColumn line.text)
  else none

abbrev Poll := Option (List Line)

def Poll.file (poll : Poll) : Option Bytes :=
  poll.map fun lines => (lines.map Line.text).flatten

def Poll.values (poll : Poll) : List Bytes :=
  (poll.getD []).filterMap Line.value

def appeared (polls : List Poll) : List Bytes :=
  polls.flatMap Poll.values

def remember {α : Type} [DecidableEq α] (seen : List α) (value : α) : List α :=
  if value ∈ seen then seen else seen ++ [value]

theorem copyColumn_eq {room : ℕ} {text : Bytes}
    (short : ((cString text).takeWhile fun byte => !endsColumn byte).length < room) :
    copyColumn room text = (cString text).takeWhile fun byte => !endsColumn byte := by
  induction text generalizing room with
  | nil => cases room <;> rfl
  | cons byte rest ih =>
    cases room with
    | zero => exact absurd short (Nat.not_lt_zero _)
    | succ room =>
      by_cases zero : byte = 0
      · simp [copyColumn, cString, zero]
      · have kept : cString (byte :: rest) = byte :: cString rest := by simp [cString, zero]
        rw [kept] at short ⊢
        cases ends : endsColumn byte with
        | true => simp [copyColumn, ends]
        | false =>
          have shortRest := @ih room (by simpa [ends] using short)
          simpa [copyColumn, zero, ends] using shortRest

theorem Line.isLine (line : Line) : IsLine 511 line.text :=
  ⟨line.body, rfl, line.short, line.noNewline⟩

/-- The lists in a poll that began with the texts `start` and has seen the values. -/
structure Polled (start values : List Bytes) (lists : Lists) : Prop where
  roomy : lists.processed.Roomy
  newRoomy : lists.newTxhashes.Roomy
  texts : lists.processed.texts = start ++ lists.newTxhashes.texts
  remembered : lists.processed.texts = values.foldl remember start

section Poll

variable {start values : List Bytes} {lists : Lists}

theorem Polled.readLine (polled : Polled start values lists) (line : Line) :
    ∃ next, readLine lists line.text = some next ∧
      Polled start (values ++ line.value.toList) next := by
  have column : copyColumn 127 (skipQuote line.text) = firstColumn line.text :=
    copyColumn_eq line.shortColumn
  rw [MonitorMode.readLine, column, Line.value]
  by_cases audited : ¬isHeader line.text ∧ 10 < (firstColumn line.text).length
  · rw [if_neg audited.1, if_pos audited, Option.toList_some]
    have folded : (values ++ [firstColumn line.text]).foldl remember start =
        remember lists.processed.texts (firstColumn line.text) := by
      rw [foldl_append, ← polled.remembered, foldl_cons, foldl_nil]
    by_cases seen : lists.processed.isProcessed (firstColumn line.text)
    · refine ⟨lists, if_neg (by tauto), { polled with remembered := ?_ }⟩
      rw [folded, remember, if_pos (PointerList.isProcessed_iff.mp seen)]
    · rcases polled.newRoomy.add (firstColumn line.text) with ⟨newTxhashes, added, new, newRoomy⟩
      rcases polled.roomy.add (firstColumn line.text) with ⟨processed, addedToo, old, roomy⟩
      refine ⟨⟨processed, newTxhashes⟩, ?_, roomy, newRoomy, ?_, ?_⟩
      · rw [if_pos ⟨audited.2, seen⟩, added, addedToo]
        rfl
      · rw [old, new, polled.texts, append_assoc]
      · rw [folded, remember, if_neg (mt PointerList.isProcessed_iff.mpr seen), old]
  · rw [if_neg audited, Option.toList_none, append_nil]
    refine ⟨lists, ?_, polled⟩
    by_cases header : isHeader line.text
    · rw [if_pos header]
    · rw [if_neg header, if_neg (by tauto)]

theorem Polled.readLines (polled : Polled start values lists) (lines : List Line) :
    ∃ next, (lines.map Line.text).foldlM MonitorMode.readLine lists = some next ∧
      Polled start (values ++ lines.filterMap Line.value) next := by
  induction lines generalizing values lists with
  | nil => exact ⟨lists, rfl, by simpa using polled⟩
  | cons line lines ih =>
    rcases polled.readLine line with ⟨middle, read, polled⟩
    rcases ih polled with ⟨next, readLater, polled⟩
    refine ⟨next, ?_, ?_⟩
    · rw [map_cons, foldlM_cons, read]
      exact readLater
    · cases here : line.value <;> simpa [here] using polled

theorem readNewTransactions_spec (poll : Poll) {processed : PointerList} (roomy : processed.Roomy) :
    ∃ lists, readNewTransactions poll.file processed = some lists ∧ lists.processed.Roomy ∧
      lists.processed.texts = processed.texts ++ lists.newTxhashes.texts ∧
      lists.processed.texts = poll.values.foldl remember processed.texts := by
  cases poll with
  | none => exact ⟨_, rfl, roomy, by simp, rfl⟩
  | some lines =>
    have polled : Polled processed.texts [] ⟨processed, ⟨[], 10⟩⟩ :=
      ⟨roomy, ⟨Nat.succ_pos _, Nat.zero_le _⟩, by simp, rfl⟩
    rcases polled.readLines lines with ⟨next, read, polled⟩
    refine ⟨next, ?_, polled.roomy, polled.texts, polled.remembered⟩
    have areLines : ∀ line ∈ lines.map Line.text, IsLine 511 line := by
      simpa using fun line _ => Line.isLine line
    exact (congrArg (List.foldlM MonitorMode.readLine _) (readLines_flatten areLines)).trans read

end Poll

theorem monitorFrom_spec (polls : List Poll) {processed : PointerList} (roomy : processed.Roomy) :
    ∃ handed, monitorFrom processed (polls.map Poll.file) = some handed ∧
      processed.texts ++ handed = (appeared polls).foldl remember processed.texts := by
  induction polls generalizing processed with
  | nil => exact ⟨[], rfl, by simp [appeared]⟩
  | cons poll polls ih =>
    rcases readNewTransactions_spec poll roomy with ⟨lists, read, roomy, texts, folded⟩
    rcases ih roomy with ⟨later, monitored, foldedLater⟩
    refine ⟨lists.newTxhashes.texts ++ later, ?_, ?_⟩
    · rw [map_cons, monitorFrom, read]
      simp [monitored]
    · rw [appeared, flatMap_cons, foldl_append, ← folded, ← append_assoc, ← texts]
      exact foldedLater

theorem foldl_remember_spec (values : List Bytes) :
    (∀ value, value ∈ values.foldl remember [] ↔ value ∈ values) ∧
      (values.foldl remember []).Pairwise fun first second =>
        values.idxOf first < values.idxOf second := by
  induction values using List.reverseRecOn with
  | nil => simp
  | append_singleton values value ih =>
    rcases ih with ⟨same, ordered⟩
    -- Positions among the earlier values do not change.
    have before : (values.foldl remember []).Pairwise fun first second =>
        (values ++ [value]).idxOf first < (values ++ [value]).idxOf second := by
      refine ordered.imp_of_mem fun first second => ?_
      rw [idxOf_append_of_mem ((same _).mp first), idxOf_append_of_mem ((same _).mp second)]
      exact id
    rw [foldl_append, foldl_cons, foldl_nil, remember]
    split_ifs with seen
    · refine ⟨fun other => ?_, before⟩
      rw [same, mem_append, mem_singleton]
      exact ⟨.inl, fun among => among.elim id fun here => here ▸ (same _).mp seen⟩
    · refine ⟨by simp [same], pairwise_append.mpr ⟨before, by simp, ?_⟩⟩
      intro other among last isLast
      rw [mem_singleton.mp isLast]
      rw [same] at among seen
      rw [idxOf_append_of_mem among, idxOf_append_of_notMem seen]
      exact lt_of_lt_of_le (idxOf_lt_length_of_mem among) (Nat.le_add_right _ _)

/-- Whatever the polls see, every value is handed over exactly once, in the order of first
appearance. -/
theorem monitorMode_once (polls : List Poll) :
    ∃ handed, monitorMode (polls.map Poll.file) = some handed ∧
      (∀ value ∈ appeared polls, handed.count value = 1) ∧
      (∀ value ∈ handed, value ∈ appeared polls) ∧
      handed.Pairwise fun first second =>
        (appeared polls).idxOf first < (appeared polls).idxOf second := by
  have roomy : initProcessedList.Roomy := ⟨by decide, by decide⟩
  rcases monitorFrom_spec polls roomy with ⟨handed, monitored, folded⟩
  rw [initProcessedList, nil_append] at folded
  rcases foldl_remember_spec (appeared polls) with ⟨same, ordered⟩
  rw [← folded] at same ordered
  have distinct : handed.Nodup := ordered.imp fun earlier equal => by simp [equal] at earlier
  refine ⟨handed, monitored, fun value among => ?_, fun value => (same value).mp, ordered⟩
  exact count_eq_one_of_mem distinct ((same value).mpr among)

/-- A line that two polls see is handed over once. -/
example :
    let line : Line := ⟨List.replicate 11 97 ++ [44], by decide, by decide, by decide +kernel⟩
    monitorMode ([some [line], some [line, line]].map Poll.file) =
      some [List.replicate 11 97] := by
  decide +kernel

end TigerMixer.MonitorMode
