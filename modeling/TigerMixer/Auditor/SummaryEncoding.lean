import TigerMixer.Text.Json

/-!
# The JSON text of a summary line

`audit_message_with_info` makes a JSON text of a summary line. The part behind the first comma is
escaped, the part before it is not, and the buffer has room for about a thousand escapes. So the
line can be read back only if there is not too much to be escaped.
-/

namespace TigerMixer.SummaryEncoding

open Bytes Text Json

structure Memory where
  address : Bool
  json : Bool
  escaped : Bool

def idKey : Bytes := ascii "\"id\":\"".toList

def summaryText (address record : Bytes) : Bytes :=
  ascii ['\x7b'] ++ idKey ++ address ++ ascii "\",\"record\":\"".toList ++ escape record ++
    ascii ['"', '\x7d']

def pairsSummaryJson (memory : Memory) (pairsSummaryLine : Bytes) : Option Bytes :=
  match strchr 44 pairsSummaryLine with
  | none => none
  | some commaPos =>
    let address := pairsSummaryLine.take (pairsSummaryLine.length - commaPos.length)
    let record := commaPos.tail
    let jsonBufSize := 1024 + address.length + record.length
    if memory.address ∧ memory.json ∧ memory.escaped then
      some ((summaryText address record).take (jsonBufSize - 1))
    else none

def extractAddressFromJson (pairsSummaryJson : Bytes) (addressSize : ℕ) : Option Bytes :=
  if addressSize < 42 then none
  else
    (strstr idKey pairsSummaryJson).bind fun found =>
      let idPos := found.drop idKey.length
      (strchr 34 idPos).bind fun endQuote =>
        let addrLen := idPos.length - endQuote.length
        if addressSize ≤ addrLen then none else some (idPos.take addrLen)

/-- A line without control characters, as the texts before and behind its first comma. -/
structure SummaryLine where
  address : Bytes
  record : Bytes
  noComma : 44 ∉ address
  printable : ∀ byte ∈ address ++ record, 32 ≤ byte

def SummaryLine.text (line : SummaryLine) : Bytes :=
  line.address ++ 44 :: line.record

/-- Both parts of the line can be read from the text, and the first one is extracted from it if the
buffer is large enough. -/
structure Encodes (line : SummaryLine) (addressSize : ℕ) (json : Bytes) : Prop where
  decodes : ∃ members, read json = some (.object members) ∧
    members.lookup (ascii "id".toList) = some (.string line.address) ∧
    members.lookup (ascii "record".toList) = some (.string line.record)
  extracts : line.address.length < addressSize →
    extractAddressFromJson json addressSize = some line.address

def Plain (text : Bytes) : Prop := 34 ∉ text ∧ 92 ∉ text

def specials (text : Bytes) : ℕ :=
  text.countP fun byte => byte = 34 ∨ byte = 92

/-- What follows the opening quote of the record in the buffer. -/
def recordPart (record : Bytes) : Bytes :=
  (escape record ++ ascii ['"', '\x7d']).take (1004 + record.length)

def afterAddress (record : Bytes) : Bytes :=
  44 :: (34 :: (ascii "record".toList ++ 34 :: 58 :: 34 :: recordPart record))

/-! ### The text in the buffer -/

variable {address record : Bytes}

def buffer (address record : Bytes) : Bytes :=
  123 :: (idKey ++ (address ++ 34 :: afterAddress record))

theorem take_summaryText (address record : Bytes) :
    (summaryText address record).take (1024 + address.length + record.length - 1) =
      buffer address record := by
  let front := ascii ['\x7b'] ++ idKey ++ address ++ ascii "\",\"record\":\"".toList
  have length : front.length = 19 + address.length := by
    simp [front, idKey, ascii]
    omega
  have split : summaryText address record = front ++ (escape record ++ ascii ['"', '\x7d']) := by
    simp [summaryText, front]
  rw [split, List.take_append, List.take_of_length_le (by omega), length,
    show 1024 + address.length + record.length - 1 - (19 + address.length) =
      1004 + record.length by omega]
  simp [front, buffer, afterAddress, recordPart, ascii]

theorem pairsSummaryJson_text (memory : Memory) (line : SummaryLine) :
    pairsSummaryJson memory line.text =
      if memory.address ∧ memory.json ∧ memory.escaped then
        some (buffer line.address line.record)
      else none := by
  have found : strchr 44 line.text = some (44 :: line.record) :=
    strchr_eq_some_iff.mpr ⟨line.address, line.record, rfl, line.noComma, rfl⟩
  have before : line.text.take (line.text.length - (44 :: line.record).length) = line.address := by
    simp [SummaryLine.text]
  rw [pairsSummaryJson, found]
  simp only [before, List.tail_cons, take_summaryText]

/-! ### Reading it back -/

theorem readMember_id (fuel : ℕ) (text : Bytes) :
    readMember (readValue (fuel + 1)) (idKey ++ text) =
      (readString text).map fun found => ((ascii "id".toList, .string found.1), found.2) :=
  @readMember_string fuel (ascii "id".toList) (by decide +kernel) (by decide) text

theorem readMember_record (fuel : ℕ) (text : Bytes) :
    readMember (readValue (fuel + 1)) (34 :: (ascii "record".toList ++ 34 :: 58 :: 34 :: text)) =
      (readString text).map fun found => ((ascii "record".toList, .string found.1), found.2) :=
  readMember_string (by decide +kernel) (by decide) text

theorem readValue_buffer (fuel : ℕ) (address record : Bytes) :
    readValue (fuel + 1) (buffer address record) =
      (readList (readMember (readValue fuel)) 125 fuel
        (idKey ++ (address ++ 34 :: afterAddress record))).map fun found =>
          (.object found.1, found.2) :=
  rfl

theorem recordPart_of_le (room : specials record ≤ 1002) :
    recordPart record = escape record ++ ascii ['"', '\x7d'] := by
  apply List.take_of_length_le
  have length := length_escape record
  rw [specials] at room
  simp [ascii]
  omega

theorem specials_le_of_read {decoded rest : Bytes} (printable : ∀ byte ∈ record, 32 ≤ byte)
    (read : readString (recordPart record) = some (decoded, rest)) (more : rest ≠ []) :
    specials record ≤ 1002 := by
  have cut := readString_take printable (1004 + record.length) (ascii ['\x7d'])
  have length := length_escape record
  rw [specials]
  have shown : recordPart record =
      (escape record ++ 34 :: ascii ['\x7d']).take (1004 + record.length) := rfl
  rw [← shown, read] at cut
  split_ifs at cut with short
  simp only [Option.some.injEq, Prod.mk.injEq] at cut
  have left : 1004 + record.length - (escape record).length - 1 ≠ 0 := by
    intro none
    rw [none] at cut
    exact more cut.2
  omega

theorem plain_of_read {decoded rest after : Bytes} (noComma : 44 ∉ address)
    (read : readString (address ++ 34 :: 44 :: after) = some (decoded, rest))
    (same : decoded = address) : Plain address ∧ rest = 44 :: after := by
  subst same
  rcases readStringFrom_spec read with ⟨raw, split, _, length_le, shorter, comma⟩
  rw [List.drop_zero] at shorter comma
  rw [Nat.sub_zero] at shorter length_le
  rcases List.append_eq_append_iff.mp split with ⟨more, rfl, behind⟩ | ⟨more, rfl, behind⟩
  · rcases more with _ | ⟨byte, _ | ⟨next, more⟩⟩
    · simp only [List.append_nil, List.nil_append, List.cons.injEq, true_and] at shorter behind
      exact ⟨by simpa [Plain] using mt shorter (lt_irrefl _), behind.symm⟩
    · simp at behind
    · simp only [List.cons_append, List.cons.injEq] at behind
      exact absurd (comma (by simp [← behind.2.1])) noComma
  · cases more with
    | nil =>
      simp only [List.append_nil, List.nil_append, List.cons.injEq, true_and] at shorter behind ⊢
      exact ⟨by simpa [Plain] using mt shorter (lt_irrefl _), behind⟩
    | cons byte more => simp at length_le

theorem read_buffer_iff (noComma : 44 ∉ address)
    (printable : ∀ byte ∈ address ++ record, 32 ≤ byte) :
    (∃ members, read (buffer address record) = some (.object members) ∧
      members.lookup (ascii "id".toList) = some (.string address) ∧
      members.lookup (ascii "record".toList) = some (.string record)) ↔
      Plain address ∧ specials record ≤ 1002 := by
  rw [List.forall_mem_append] at printable
  obtain ⟨fuel, length⟩ : ∃ fuel, (buffer address record).length = fuel + 3 := by
    refine ⟨(buffer address record).length - 3, (Nat.sub_add_cancel ?_).symm⟩
    simp [buffer, idKey, ascii]
  rw [Json.read, length, readValue_buffer]
  constructor
  · rintro ⟨members, found, id, _⟩
    rcases Option.bind_eq_some_iff.mp found with ⟨⟨value, rest⟩, found, whole⟩
    rcases Option.map_eq_some_iff.mp found with ⟨⟨_, _⟩, listed, same⟩
    split_ifs at whole
    cases whole
    cases same
    rcases readList_eq_some listed with ⟨item, later, others, member, rfl, goesOn⟩
    rw [readMember_id] at member
    rcases Option.map_eq_some_iff.mp member with ⟨⟨decoded, _⟩, read, same⟩
    cases same
    have decodedAddress : decoded = address := by simpa using id
    rcases plain_of_read noComma read decodedAddress with ⟨plain, rfl⟩
    refine ⟨plain, ?_⟩
    rcases goesOn with ⟨_, closed⟩ | ⟨fuel, behind, white, listed⟩
    · cases closed
    · cases white
      rcases readList_eq_some listed with ⟨item, later, others, member, _, goesOn⟩
      rw [readMember_record] at member
      rcases Option.map_eq_some_iff.mp member with ⟨⟨decoded, _⟩, readToo, same⟩
      cases same
      apply specials_le_of_read printable.2 readToo
      rintro rfl
      simp [skipWhite] at goesOn
  · rintro ⟨plain, room⟩
    have first := readString_escape printable.1 (afterAddress record)
    have second := readString_escape printable.2 (ascii ['\x7d'])
    rw [escape_of_plain plain] at first
    have shown : recordPart record = escape record ++ 34 :: ascii ['\x7d'] := recordPart_of_le room
    let members : List (Bytes × Value) :=
      [(ascii "id".toList, .string address), (ascii "record".toList, .string record)]
    have listed : readList (readMember (readValue (fuel + 2))) 125 (fuel + 2)
        (idKey ++ (address ++ 34 :: afterAddress record)) = some (members, []) := by
      apply readList_more (by rw [readMember_id, first]; rfl) rfl (by decide)
      apply readList_last (by rw [readMember_record, shown, second]; rfl) rfl
    exact ⟨members, by rw [listed]; rfl, rfl, rfl⟩

/-! ### Extracting the address -/

theorem extractAddressFromJson_buffer (noQuote : 34 ∉ address) {addressSize : ℕ}
    (large : 42 ≤ addressSize) (fits : address.length < addressSize) :
    extractAddressFromJson (buffer address record) addressSize = some address := by
  have found : strstr idKey (buffer address record) =
      some (idKey ++ (address ++ 34 :: afterAddress record)) := rfl
  have closing : strchr 34 (address ++ 34 :: afterAddress record) =
      some (34 :: afterAddress record) :=
    strchr_eq_some_iff.mpr ⟨_, _, rfl, noQuote, rfl⟩
  rw [extractAddressFromJson, if_neg (by omega), found]
  simp [closing, fits]

/-- A line is read back exactly if the address needs no escapes, the record at most 1002, and the
buffer for an address that fits has at least 42 bytes. -/
theorem encodes_iff (memory : Memory) (line : SummaryLine) (addressSize : ℕ) :
    (∀ json, pairsSummaryJson memory line.text = some json → Encodes line addressSize json) ↔
      (memory.address ∧ memory.json ∧ memory.escaped →
        Plain line.address ∧ specials line.record ≤ 1002 ∧
          (line.address.length < addressSize → 42 ≤ addressSize)) := by
  rw [pairsSummaryJson_text]
  split_ifs with succeeds
  · have read_iff := read_buffer_iff line.noComma line.printable
    simp only [Option.some.injEq, forall_eq', succeeds, and_self, true_imp_iff]
    constructor
    · rintro ⟨decodes, extracts⟩
      rcases read_iff.mp decodes with ⟨plain, room⟩
      refine ⟨plain, room, fun fits => ?_⟩
      by_contra small
      have extracted := extracts fits
      rw [extractAddressFromJson, if_pos (by omega)] at extracted
      cases extracted
    · rintro ⟨plain, room, large⟩
      exact ⟨read_iff.mpr ⟨plain, room⟩, fun fits =>
        extractAddressFromJson_buffer plain.1 (large fits) fits⟩
  · simp [succeeds]

def quotedLine : SummaryLine where
  address := ascii ['a', '"', 'b']
  record := ascii ['c']
  noComma := by decide
  printable := by decide +kernel

/-- The address holds a quotation mark. -/
theorem quotedLine_not_encoded :
    ∃ json, pairsSummaryJson ⟨true, true, true⟩ quotedLine.text = some json ∧
      (read json).isNone ∧ extractAddressFromJson json 43 = some (ascii ['a']) ∧
      ¬Encodes quotedLine 43 json := by
  refine ⟨_, rfl, by decide, by decide, fun encodes => ?_⟩
  exact absurd (encodes.extracts (by decide)) (by decide)

end TigerMixer.SummaryEncoding
