import TigerMixer.Receiver.Transport
import TigerMixer.Text.Format

/-!
# The file of shares

A receiver appends one line for every share to its file, and reads the lines back with `sscanf`, in
the present format or else in an earlier one. For an id without a double quote, the line of a share
shows this share and nothing else, and nothing at all where the id is empty, too long or split by a
newline.
-/

namespace TigerMixer

open Bytes Text SecretShare Padding Scanner List

structure SecretShare.Share.InRange (share : Share) : Prop where
  lower : -2 ^ 31 ≤ share.x
  upper : share.x < 2 ^ 31
  blockIndex : share.blockIndex < 2 ^ 64
  blockSize : share.blockSize < 2 ^ 64
  dataLength : share.dataLength < 2 ^ 64

namespace Receiver

structure MsgId where
  bytes : Bytes
  noZero : (0 : UInt8) ∉ bytes
  short : bytes.length < 128
  deriving DecidableEq

structure Stamp where
  address : Bytes
  now : ℤ
  noZero : (0 : UInt8) ∉ address
  oneLine : (10 : UInt8) ∉ address
  short : address.length < 64
  lower : -2 ^ 63 ≤ now
  upper : now < 2 ^ 63

/-! ### The lines -/

def quote : UInt8 := 34

def msgIdKey : Bytes :=
  ascii "\x7b\"msg_id\":\"".toList

def xKey : Bytes :=
  ascii "\",\"x\":".toList

def blockIndexKey : Bytes :=
  ascii ",\"block_index\":".toList

def blockSizeKey : Bytes :=
  ascii ",\"block_size\":".toList

def dataLengthKey : Bytes :=
  ascii ",\"data_length\":".toList

def yKey : Bytes :=
  ascii ",\"y\":\"".toList

def addressKey : Bytes :=
  ascii "\",\"address\":\"".toList

def timestampKey : Bytes :=
  ascii "\",\"timestamp\":".toList

def closing : Bytes :=
  ascii "\x7d".toList

/-- `y_to_hex`: as many bytes of the array are written as the whole message has, up to the buffer
that the receiver has for them. -/
def yToHex (share : Share) : Bytes :=
  printHex (share.y.takeD (min share.dataLength receiverShareSize) 0)

def numbersText (share : Share) : Bytes :=
  printInt share.x ++ (blockIndexKey ++ (printSize share.blockIndex ++ (blockSizeKey ++
    (printSize share.blockSize ++ (dataLengthKey ++ (printSize share.dataLength ++ yKey))))))

def stampText (stamp : Stamp) : Bytes :=
  addressKey ++ (stamp.address ++ (timestampKey ++ (printInt stamp.now ++ closing)))

def lineTail (share : Share) (stamp : Stamp) : Bytes :=
  xKey ++ (numbersText share ++ (yToHex share ++ stampText stamp))

def shareLine (msgId : MsgId) (share : Share) (stamp : Stamp) : Bytes :=
  msgIdKey ++ (msgId.bytes ++ lineTail share stamp) ++ [10]

/-! ### Scanning a line -/

def numbersFormat : Scanner := do
  int
  literal blockIndexKey
  size
  literal blockSizeKey
  size
  literal dataLengthKey
  size
  literal yKey

def idFormat (next : Scanner) : Scanner := do
  literal msgIdKey
  scanset 123 quote
  literal xKey
  next

def blockFormat : Scanner :=
  idFormat do
    numbersFormat
    scanset 34000 quote

def earlierFormat : Scanner :=
  idFormat do
    int
    literal dataLengthKey
    size
    literal yKey
    scanset 34000 quote

def valueBytes (yHex : Bytes) : Bytes :=
  if yHex.length % 2 = 0 then scanHex yHex else []

def scanLine (line : Bytes) : Option StoredShare :=
  match sscanf blockFormat line with
  | [.text msgId, .int x, .size blockIndex, .size blockSize, .size dataLength, .text yHex] =>
    some ⟨msgId, x, some (blockIndex, blockSize), dataLength, valueBytes yHex⟩
  | _ =>
    match sscanf earlierFormat line with
    | [.text msgId, .int x, .size dataLength, .text yHex] =>
      some ⟨msgId, x, none, dataLength, valueBytes yHex⟩
    | _ => none

def loadFile (file : Bytes) : List StoredShare :=
  (readLines 65535 file).filterMap scanLine

@[mk_iff]
structure Loadable (msgId : MsgId) : Prop where
  nonempty : msgId.bytes ≠ []
  width : msgId.bytes.length ≤ 123
  oneLine : (10 : UInt8) ∉ msgId.bytes

instance (msgId : MsgId) : Decidable (Loadable msgId) :=
  decidable_of_iff _ (loadable_iff msgId).symm

def storedShare (msgId : MsgId) (share : Share) : StoredShare where
  msgId := msgId.bytes
  x := share.x
  block := some (share.blockIndex, share.blockSize)
  dataLength := share.dataLength
  y := share.y.takeD (min share.dataLength receiverShareSize) 0

section Scan

variable {msgId : MsgId} {share : Share} {stamp : Stamp} {rest : Bytes}

theorem not_isDigit_head {key : Bytes} (starts : key.head? = some 44) (rest : Bytes) :
    ∀ byte ∈ (key ++ rest).head?, ¬isDigit byte = true := by
  intro byte isHead
  rw [head?_append, starts] at isHead
  rw [← Option.some.inj isHead]
  decide

theorem reads_numbersFormat (inRange : share.InRange) (rest : Bytes) :
    numbersFormat.Reads (numbersText share) rest ()
      [.int share.x, .size share.blockIndex, .size share.blockSize, .size share.dataLength] := by
  refine (reads_int inRange.lower inRange.upper ?_).bind <|
    (reads_literal _ _).bind <| (reads_size inRange.blockIndex ?_).bind <|
    (reads_literal _ _).bind <| (reads_size inRange.blockSize ?_).bind <|
    (reads_literal _ _).bind <| (reads_size inRange.dataLength ?_).bind <|
    reads_literal _ _
  · rw [append_assoc]
    exact not_isDigit_head rfl _
  · rw [append_assoc]
    exact not_isDigit_head rfl _
  · rw [append_assoc]
    exact not_isDigit_head rfl _
  · exact not_isDigit_head rfl _

theorem exists_of_idFormat {next : Scanner} {line : Bytes} {msgId : Bytes} {item : Item}
    {items : List Item} (scanned : sscanf (idFormat next) line = .text msgId :: item :: items) :
    ∃ rest, cString line = msgIdKey ++ (msgId ++ (xKey ++ rest)) ∧ quote ∉ msgId ∧ msgId ≠ [] ∧
      msgId.length ≤ 123 := by
  rw [sscanf, idFormat] at scanned
  generalize cString line = input at scanned
  rcases Parser.bind_cases (literal msgIdKey) _ input with
    ⟨writes, ⟨⟩, stopped, result⟩ | ⟨writes, ⟨⟩, behindKey, found, result⟩
  · rw [result, literal_stop stopped] at scanned
    simp at scanned
  rcases literal_result found with ⟨rfl, rfl⟩
  rw [result] at scanned
  rcases Parser.bind_cases (scanset 123 quote) _ behindKey with
    ⟨writes, ⟨⟩, stopped, result⟩ | ⟨writes, ⟨⟩, behindId, found, result⟩
  · rw [result, scanset_stop stopped] at scanned
    simp at scanned
  rcases scanset_result found with ⟨id, rfl, noQuote, nonempty, width, rfl⟩
  rw [result] at scanned
  obtain rfl : id = msgId := by
    simpa using (List.cons.inj scanned).1
  rcases Parser.bind_cases (literal xKey) _ behindId with
    ⟨writes, ⟨⟩, stopped, result⟩ | ⟨writes, ⟨⟩, rest, found, result⟩
  · rw [result, literal_stop stopped] at scanned
    simp at scanned
  rcases literal_result found with ⟨rfl, -⟩
  exact ⟨rest, rfl, noQuote, nonempty, width⟩

theorem exists_of_scanLine {line : Bytes} {stored : StoredShare}
    (scanned : scanLine line = some stored) :
    ∃ rest, cString line = msgIdKey ++ (stored.msgId ++ (xKey ++ rest)) ∧ quote ∉ stored.msgId ∧
      stored.msgId ≠ [] ∧ stored.msgId.length ≤ 123 := by
  rw [scanLine] at scanned
  split at scanned
  next msgId x blockIndex blockSize dataLength yHex items =>
    rw [← Option.some.inj scanned]
    exact exists_of_idFormat items
  next =>
    split at scanned
    next msgId x dataLength yHex items =>
      rw [← Option.some.inj scanned]
      exact exists_of_idFormat items
    next => cases scanned

end Scan

/-! ### Lines as texts -/

section Lines

variable {msgId : MsgId} {share : Share} {stamp : Stamp}

theorem notMem_lineTail {byte : UInt8} (noDigit : isDigit byte = false) (noSign : byte ≠ 45)
    (noHexDigit : hexDigit byte = none) (noAddress : byte ∉ stamp.address)
    (noKey : byte ∉ xKey ++ (blockIndexKey ++ (blockSizeKey ++ (dataLengthKey ++ (yKey ++
      (addressKey ++ (timestampKey ++ closing))))))) :
    byte ∉ lineTail share stamp := by
  simp only [mem_append, not_or] at noKey
  simp only [lineTail, numbersText, stampText, yToHex, mem_append, not_or]
  simp [noKey, notMem_printInt noDigit noSign, notMem_printSize noDigit,
    notMem_printHex noHexDigit, noAddress]

theorem newline_notMem_lineTail : (10 : UInt8) ∉ lineTail share stamp :=
  notMem_lineTail rfl (by decide) rfl stamp.oneLine (by decide)

theorem zero_notMem_lineTail : (0 : UInt8) ∉ lineTail share stamp :=
  notMem_lineTail rfl (by decide) rfl stamp.noZero (by decide)

theorem length_lineTail (inRange : share.InRange) : (lineTail share stamp).length ≤ 34300 := by
  have x : (printInt share.x).length ≤ 20 := by
    apply length_printInt (by decide)
    have lower := inRange.lower
    have upper := inRange.upper
    omega
  have now : (printInt stamp.now).length ≤ 20 := by
    apply length_printInt (by decide)
    have lower := stamp.lower
    have upper := stamp.upper
    omega
  have size {value : ℕ} (bound : value < 2 ^ 64) : (printSize value).length ≤ 20 :=
    length_printSize (by decide) (by omega)
  have blockIndex := size inRange.blockIndex
  have blockSize := size inRange.blockSize
  have dataLength := size inRange.dataLength
  have hex : (yToHex share).length ≤ 34000 := by
    rw [yToHex, length_printHex, takeD_length, receiverShareSize]
    omega
  have address := stamp.short
  have keys : xKey.length + blockIndexKey.length + blockSizeKey.length + dataLengthKey.length +
      yKey.length + addressKey.length + timestampKey.length + closing.length ≤ 100 := by
    decide
  simp only [lineTail, numbersText, stampText, length_append]
  omega

theorem cString_shareLine :
    cString (shareLine msgId share stamp) = shareLine msgId share stamp := by
  apply cString_of_notMem
  simp only [shareLine, mem_append, not_or]
  exact ⟨⟨by decide, msgId.noZero, zero_notMem_lineTail⟩, by decide⟩

theorem shareLine_eq : shareLine msgId share stamp = msgIdKey ++ (msgId.bytes ++ (xKey ++
    (numbersText share ++ (yToHex share ++ (stampText stamp ++ [10]))))) := by
  simp only [shareLine, lineTail, append_assoc]

section Loadable

variable (loadable : Loadable msgId) (noQuote : quote ∉ msgId.bytes) (inRange : share.InRange)

include loadable noQuote in
theorem reads_id {rest : Bytes} (ends : rest.head? = some quote) :
    (scanset 123 quote).Reads msgId.bytes rest () [.text msgId.bytes] :=
  reads_scanset loadable.nonempty noQuote loadable.width ends

include loadable noQuote inRange in
theorem sscanf_blockFormat (positive : 0 < share.dataLength) :
    sscanf blockFormat (shareLine msgId share stamp) =
      [.text msgId.bytes, .int share.x, .size share.blockIndex, .size share.blockSize,
        .size share.dataLength, .text (yToHex share)] := by
  have length : (yToHex share).length = 2 * min share.dataLength 17000 := by
    rw [yToHex, length_printHex, takeD_length, receiverShareSize]
  have nonempty : yToHex share ≠ [] := by
    apply ne_nil_of_length_pos
    omega
  have value : (scanset 34000 quote).Reads (yToHex share) (stampText stamp ++ [10]) ()
      [.text (yToHex share)] :=
    reads_scanset nonempty (notMem_printHex rfl) (by omega) rfl
  have read : blockFormat.Reads (msgIdKey ++ (msgId.bytes ++ (xKey ++ (numbersText share ++
      yToHex share)))) (stampText stamp ++ [10]) () [.text msgId.bytes, .int share.x,
        .size share.blockIndex, .size share.blockSize, .size share.dataLength,
        .text (yToHex share)] :=
    (reads_literal _ _).bind <| (reads_id loadable noQuote rfl).bind <|
      (reads_literal _ _).bind <| (reads_numbersFormat inRange _).bind value
  rw [Parser.Reads] at read
  simp only [append_assoc] at read
  rw [sscanf, cString_shareLine, shareLine_eq, read]

include loadable noQuote inRange in
theorem sscanf_blockFormat_of_empty (empty : share.dataLength = 0) :
    sscanf blockFormat (shareLine msgId share stamp) =
      [.text msgId.bytes, .int share.x, .size share.blockIndex, .size share.blockSize,
        .size share.dataLength] := by
  have nothing : yToHex share = [] := by
    rw [yToHex, empty]
    rfl
  have stop : scanset 34000 quote (yToHex share ++ (stampText stamp ++ [10])) =
      ⟨[], .error ()⟩ := by
    rw [nothing]
    exact scanset_of_head rfl
  have scanned : blockFormat (msgIdKey ++ (msgId.bytes ++ (xKey ++ (numbersText share ++
      (yToHex share ++ (stampText stamp ++ [10])))))) = ⟨[.text msgId.bytes, .int share.x,
        .size share.blockIndex, .size share.blockSize, .size share.dataLength], .error ()⟩ :=
    (reads_literal _ _).bind_of_stop <| (reads_id loadable noQuote rfl).bind_of_stop <|
      (reads_literal _ _).bind_of_stop <|
        (reads_numbersFormat inRange _).bind_of_stop stop
  rw [sscanf, cString_shareLine, shareLine_eq, scanned]

include loadable noQuote inRange in
theorem sscanf_earlierFormat :
    sscanf earlierFormat (shareLine msgId share stamp) = [.text msgId.bytes, .int share.x] := by
  have stop (rest : Bytes) :
      literal dataLengthKey (blockIndexKey ++ rest) = ⟨[], .error ()⟩ :=
    literal_of_not_isPrefixOf rfl
  have scanned (rest : Bytes) : earlierFormat (msgIdKey ++ (msgId.bytes ++ (xKey ++
      (printInt share.x ++ (blockIndexKey ++ rest))))) =
        ⟨[.text msgId.bytes, .int share.x], .error ()⟩ :=
    (reads_literal _ _).bind_of_stop <| (reads_id loadable noQuote rfl).bind_of_stop <|
      (reads_literal _ _).bind_of_stop <|
        (reads_int inRange.lower inRange.upper (not_isDigit_head rfl _)).bind_of_stop <|
          Parser.bind_of_stop (stop rest)
  rw [sscanf, cString_shareLine, shareLine_eq, numbersText]
  simp only [append_assoc]
  rw [scanned]

include loadable noQuote inRange in
theorem scanLine_shareLine : scanLine (shareLine msgId share stamp) =
    if share.dataLength = 0 then none else some (storedShare msgId share) := by
  split_ifs with empty
  · rw [scanLine, sscanf_blockFormat_of_empty loadable noQuote inRange empty,
      sscanf_earlierFormat loadable noQuote inRange]
  · have even : (yToHex share).length % 2 = 0 := by
      rw [yToHex, length_printHex]
      omega
    rw [scanLine, sscanf_blockFormat loadable noQuote inRange (Nat.pos_of_ne_zero empty)]
    simp only [valueBytes, if_pos even]
    rw [yToHex, scanHex_printHex]
    rfl

end Loadable

/-! ### Ids that cannot be scanned -/

variable {line : Bytes} {stored : StoredShare} {part : Bytes}

theorem exists_append_of_scanLine (scanned : scanLine line = some stored) :
    ∃ rest, line = msgIdKey ++ (stored.msgId ++ (quote :: rest)) ∧ quote ∉ stored.msgId ∧
      stored.msgId ≠ [] ∧ stored.msgId.length ≤ 123 := by
  rcases exists_of_scanLine scanned with ⟨rest, shown, properties⟩
  have leads : cString line <+: line := takeWhile_prefix _
  rcases leads with ⟨hidden, split⟩
  refine ⟨xKey.tail ++ (rest ++ hidden), ?_, properties⟩
  rw [← split, shown]
  simp only [append_assoc]
  rfl

theorem append_ne_msgIdKey {part tail rest : Bytes} (noQuote : quote ∉ part)
    (start : tail.head? = some 10 ∨ xKey <+: tail) : part ++ tail ≠ msgIdKey ++ rest := by
  intro same
  have key : msgIdKey = 123 :: quote :: 109 :: msgIdKey.drop 3 := rfl
  rw [key] at same
  match part with
  | [] =>
    rcases start with newline | ⟨later, rfl⟩
    · rw [nil_append] at same
      rw [same] at newline
      exact absurd (Option.some.inj newline) (by decide)
    · exact absurd (List.cons.inj same).1 (by decide)
  | [first] =>
    have behind : tail = quote :: 109 :: (msgIdKey.drop 3 ++ rest) := (List.cons.inj same).2
    rcases start with newline | ⟨later, rfl⟩
    · rw [behind] at newline
      exact absurd (Option.some.inj newline) (by decide)
    · exact absurd (List.cons.inj (List.cons.inj behind).2).1 (by decide)
  | first :: second :: part =>
    have isQuote : second = quote := (List.cons.inj (List.cons.inj same).2).1
    exact noQuote (by simp [isQuote])

theorem scanLine_part {part tail : Bytes} (noQuote : quote ∉ part)
    (start : tail.head? = some 10 ∨ xKey <+: tail) : scanLine (part ++ tail) = none := by
  rw [Option.eq_none_iff_forall_ne_some]
  intro stored scanned
  rcases exists_append_of_scanLine scanned with ⟨rest, split, -⟩
  exact append_ne_msgIdKey noQuote start split

theorem scanLine_beginning (noQuote : quote ∉ part) :
    scanLine (msgIdKey ++ (part ++ [10])) = none := by
  rw [Option.eq_none_iff_forall_ne_some]
  intro stored scanned
  rcases exists_append_of_scanLine scanned with ⟨rest, split, -⟩
  have member : quote ∈ part ++ [10] := by
    rw [append_cancel_left split]
    simp
  rw [mem_append] at member
  rcases member with inPart | newline
  · exact noQuote inPart
  · exact absurd newline (by decide)

/-! ### Loading -/

theorem loadFile_append {front back : Bytes} (complete : CompleteLines front) :
    loadFile (front ++ back) = loadFile front ++ loadFile back := by
  rw [loadFile, readLines_append complete, filterMap_append]
  rfl

theorem loadFile_line (short : line.length < 65535) (oneLine : (10 : UInt8) ∉ line) :
    loadFile (line ++ [10]) = (scanLine (line ++ [10])).toList := by
  rw [loadFile, readLines_line short oneLine, filterMap_cons]
  cases scanLine (line ++ [10]) <;> rfl

theorem completeLines_shareLine : CompleteLines (shareLine msgId share stamp) :=
  .inr getLast?_concat

theorem loadFile_part (inRange : share.InRange) (noQuote : quote ∉ part)
    (short : part.length < 128) : loadFile (part ++ lineTail share stamp ++ [10]) = [] := by
  induction length : part.length using Nat.strong_induction_on generalizing part with
  | _ count ih =>
    have tailLength := @length_lineTail share stamp inRange
    by_cases split : (10 : UInt8) ∈ part
    · rcases eq_append_cons_of_mem split with ⟨front, back, rfl, oneLine⟩
      rw [length_append, length_cons] at short length
      simp only [mem_append, mem_cons, not_or] at noQuote
      have lines : front ++ 10 :: back ++ lineTail share stamp ++ [10] =
          (front ++ [10]) ++ (back ++ lineTail share stamp ++ [10]) := by simp
      have later := ih back.length (by omega) noQuote.2.2 (by omega) rfl
      rw [lines, loadFile_append (.inr getLast?_concat), later,
        loadFile_line (by omega) oneLine, scanLine_part noQuote.1 (.inl rfl)]
      rfl
    · rw [loadFile_line, append_assoc, scanLine_part noQuote]
      · rfl
      · right
        rw [lineTail, append_assoc]
        exact prefix_append _ _
      · rw [length_append]
        omega
      · rw [mem_append, not_or]
        exact ⟨split, newline_notMem_lineTail⟩

theorem msgId_of_scanLine (noQuote : quote ∉ msgId.bytes)
    (scanned : scanLine (shareLine msgId share stamp) = some stored) :
    stored.msgId = msgId.bytes := by
  rcases exists_append_of_scanLine scanned with ⟨rest, split, noQuoteStored, -⟩
  rw [shareLine_eq] at split
  have behind := append_cancel_left split
  have differs {id : Bytes} (noQuote : quote ∉ id) :
      ∀ byte ∈ id, (byte != quote) = true := by
    intro byte member
    rw [bne_iff_ne]
    rintro rfl
    exact noQuote member
  have written := @takeWhile_append_of_head (fun byte => byte != quote) msgId.bytes
    (xKey ++ (numbersText share ++ (yToHex share ++ (stampText stamp ++ [10])))) (differs noQuote)
    (by rintro byte ⟨⟩; decide)
  rw [behind, takeWhile_append_of_head (differs noQuoteStored) (by rintro byte ⟨⟩; simp)] at written
  exact written

theorem loadFile_shareLine (noQuote : quote ∉ msgId.bytes) (inRange : share.InRange) :
    loadFile (shareLine msgId share stamp) =
      if Loadable msgId ∧ share.dataLength ≠ 0 then [storedShare msgId share] else [] := by
  have tailLength := @length_lineTail share stamp inRange
  have idLength := msgId.short
  have keyLength : msgIdKey.length = 11 := rfl
  by_cases oneLine : (10 : UInt8) ∈ msgId.bytes
  · rw [if_neg fun loads => loads.1.oneLine oneLine]
    rcases eq_append_cons_of_mem oneLine with ⟨front, back, split, frontLine⟩
    rw [split, length_append, length_cons] at idLength
    rw [split] at noQuote
    simp only [mem_append, mem_cons, not_or] at noQuote
    have lines : shareLine msgId share stamp =
        (msgIdKey ++ front ++ [10]) ++ (back ++ lineTail share stamp ++ [10]) := by
      simp [shareLine, split]
    rw [lines, loadFile_append (.inr getLast?_concat), loadFile_part inRange noQuote.2.2
      (by omega), loadFile_line, append_assoc, scanLine_beginning noQuote.1]
    · rfl
    · rw [length_append]
      omega
    · rw [mem_append, not_or]
      exact ⟨by decide, frontLine⟩
  · have single : loadFile (shareLine msgId share stamp) =
        (scanLine (shareLine msgId share stamp)).toList := by
      apply loadFile_line
      · simp only [length_append]
        omega
      · simp only [mem_append, not_or]
        exact ⟨by decide, oneLine, newline_notMem_lineTail⟩
    rw [single]
    by_cases loadable : Loadable msgId
    · rw [scanLine_shareLine loadable noQuote inRange]
      by_cases empty : share.dataLength = 0 <;> simp [empty, loadable]
    · rw [if_neg fun loads => loadable loads.1]
      cases scanned : scanLine (shareLine msgId share stamp) with
      | none => rfl
      | some stored =>
        rcases exists_append_of_scanLine scanned with ⟨-, -, -, nonempty, width⟩
        rw [msgId_of_scanLine noQuote scanned] at nonempty width
        exact absurd ⟨nonempty, width, oneLine⟩ loadable

theorem msgId_of_mem_loadFile {file : Bytes} (member : stored ∈ loadFile file)
    (same : stored.msgId = msgId.bytes) : Loadable msgId := by
  rcases mem_filterMap.mp member with ⟨line, inLines, scanned⟩
  rcases exists_append_of_scanLine scanned with ⟨rest, split, -, nonempty, width⟩
  rw [same] at split nonempty width
  refine ⟨nonempty, width, ?_⟩
  intro newline
  apply newline_notMem_dropLast inLines
  have inner : line.dropLast = msgIdKey ++ (msgId.bytes ++ (quote :: rest).dropLast) := by
    rw [split, dropLast_append_of_ne_nil (by simp), dropLast_append_of_ne_nil (by simp)]
  rw [inner]
  simp [newline]

end Lines

/-! ### What is loaded of the lines -/

def allShares (msgId : Bytes) (x : ℤ) : ℕ → List StoredShare → List Share
  | _, [] => []
  | foundCount, stored :: rest =>
    if stored.Matches msgId x then
      stored.share foundCount :: allShares msgId x (foundCount + 1) rest
    else allShares msgId x foundCount rest

section Load

variable {msgId : Bytes} {x : ℤ} {maxShares foundCount : ℕ} {lines later : List StoredShare}

theorem loadShares_eq_take :
    loadShares msgId x maxShares foundCount lines =
      (allShares msgId x foundCount lines).take (maxShares - foundCount) := by
  induction lines generalizing foundCount with
  | nil => simp [loadShares, allShares]
  | cons stored lines ih =>
    rw [loadShares, allShares]
    split_ifs with full found
    · rw [Nat.sub_eq_zero_of_le full, take_zero]
    · rw [Nat.sub_eq_zero_of_le full, take_zero]
    · rw [ih, ← take_succ_cons]
      congr 1
      omega
    · exact ih

theorem allShares_append :
    allShares msgId x foundCount (lines ++ later) =
      allShares msgId x foundCount lines ++
        allShares msgId x (foundCount + (allShares msgId x foundCount lines).length) later := by
  induction lines generalizing foundCount with
  | nil => rfl
  | cons stored lines ih =>
    rw [cons_append, allShares, allShares]
    split_ifs with found
    · rw [ih, cons_append, length_cons, Nat.add_assoc, Nat.add_comm 1]
    · exact ih

theorem allShares_filter :
    allShares msgId x foundCount (lines.filter fun stored => stored.Matches msgId x) =
      allShares msgId x foundCount lines := by
  induction lines generalizing foundCount with
  | nil => rfl
  | cons stored lines ih =>
    by_cases found : stored.Matches msgId x
    · rw [filter_cons_of_pos (by simpa using found), allShares, allShares, if_pos found,
        if_pos found, ih]
    · rw [filter_cons_of_neg (by simpa using found), allShares, if_neg found, ih]

theorem length_allShares :
    (allShares msgId x foundCount lines).length =
      lines.countP fun stored => stored.Matches msgId x := by
  induction lines generalizing foundCount with
  | nil => rfl
  | cons stored lines ih =>
    by_cases found : stored.Matches msgId x
    · rw [countP_cons_of_pos (by simpa using found), allShares, if_pos found, length_cons, ih]
    · rw [countP_cons_of_neg (by simpa using found), allShares, if_neg found, ih]

end Load

end Receiver

end TigerMixer
