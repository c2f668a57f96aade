import TigerMixer.SecretShare.CommitmentFile

/-!
# Saving and loading a commitment

The lines of a saved record are followed through the loop of the loader. In the line of the message
id the first quoted text is the name of the field. A saved record is therefore restored only if its
id is `msgid`.
-/

namespace TigerMixer.SecretShare

open Bytes Text Receiver List

/-! ### Searching a line -/

section Search

variable {pattern line name value key : Bytes}

theorem occurs_iff : occurs pattern line = true ↔ pattern <:+: line :=
  isSome_strstr_iff

theorem occurs_eq_false_of_notMem {byte : UInt8} (member : byte ∈ pattern) (absent : byte ∉ line) :
    occurs pattern line = false := by
  rw [← Bool.not_eq_true, occurs_iff]
  exact fun inside => absent (inside.subset member)

theorem occurs_quoted_eq_false (few : line.count quote ≤ 1) :
    occurs (quoted key) line = false := by
  rw [← Bool.not_eq_true, occurs_iff]
  intro inside
  have marks := inside.sublist.count_le quote
  simp only [quoted, count_cons_self, count_append, count_nil] at marks
  omega

theorem occurs_quoted {before after : Bytes} (noQuote : quote ∉ before ++ (name ++ after)) :
    occurs (quoted key) (before ++ (quoted name ++ after)) = decide (key = name) := by
  have line : before ++ (quoted name ++ after) = before ++ quote :: (name ++ quote :: after) := by
    simp [quoted]
  rw [line, Bool.eq_iff_iff, occurs_iff, quoted, delimited_infix_iff noQuote, decide_eq_true_iff]

theorem firstQuoted_eq {before after : Bytes} (noBefore : quote ∉ before) (noName : quote ∉ name) :
    firstQuoted (before ++ (quoted name ++ after)) = some name := by
  have start : strchr quote (before ++ (quoted name ++ after)) =
      some (quote :: (name ++ quote :: after)) :=
    strchr_eq_some_iff.mpr ⟨before, name ++ quote :: after, by simp [quoted], noBefore, rfl⟩
  have stop : strchr quote (name ++ quote :: after) = some (quote :: after) :=
    strchr_eq_some_iff.mpr ⟨name, after, rfl, noName, rfl⟩
  simp only [firstQuoted, start, tail_cons, stop, length_append, Nat.add_sub_cancel, take_left]

end Search

/-! ### Single lines -/

structure Inline (text : Bytes) : Prop where
  oneLine : (10 : UInt8) ∉ text
  noZero : (0 : UInt8) ∉ text

structure IsLine (line : Bytes) : Prop where
  ends : line.getLast? = some 10
  oneLine : (10 : UInt8) ∉ line.dropLast
  noZero : (0 : UInt8) ∉ line

theorem IsLine.append {text line : Bytes} (inside : Inline text) (isLine : IsLine line) :
    IsLine (text ++ line) where
  ends := by
    rw [getLast?_append, isLine.ends, Option.some_or]
  oneLine := by
    have nonempty : line ≠ [] := by
      rintro rfl
      exact absurd isLine.ends (by simp)
    rw [dropLast_append_of_ne_nil nonempty, mem_append, not_or]
    exact ⟨inside.oneLine, isLine.oneLine⟩
  noZero := by
    rw [mem_append, not_or]
    exact ⟨inside.noZero, isLine.noZero⟩

theorem Inline.quoted {text : Bytes} (inside : Inline text) : Inline (quoted text) where
  oneLine := by
    simp [SecretShare.quoted, inside.oneLine, quote]
  noZero := by
    simp [SecretShare.quoted, inside.noZero, quote]

namespace Loader

variable {threshold : ℕ} {loader next : Loader} {line rest : Bytes}

theorem readText_append (isLine : IsLine line) (short : line.length ≤ 1023)
    (step : loader.readLine threshold line = some next) :
    loader.readText threshold (line ++ rest) = next.readText threshold rest := by
  obtain ⟨body, rfl⟩ := getLast?_eq_some_iff.mp isLine.ends
  have oneLine := isLine.oneLine
  rw [dropLast_concat] at oneLine
  rw [length_append, length_singleton] at short
  rw [readText, readLines_append (.inr isLine.ends), readLines_line (by omega) oneLine,
    foldlM_append, foldlM_cons, cString_of_notMem isLine.noZero, step]
  rfl

theorem readLine_of_count (outside : loader.inCommitmentsArray = false)
    (few : line.count quote ≤ 1) : loader.readLine threshold line = some loader := by
  simp [readLine, occurs_quoted_eq_false few, outside]

end Loader

/-! ### Fields with a number -/

structure IsWord (word : Bytes) : Prop extends Inline word where
  noQuote : quote ∉ word
  noSpace : ∀ byte ∈ word, ¬isSpace byte = true
  short : word.length ≤ 128

theorem isWord_printSize {value : ℕ} (bound : value < 2 ^ 64) : IsWord (printSize value) where
  oneLine := notMem_printSize rfl
  noZero := notMem_printSize rfl
  noQuote := notMem_printSize rfl
  noSpace := fun _ member => Scanner.not_isSpace_of_isDigit (isDigit_of_mem_printSize member)
  short := (@length_printSize value 20 (by decide) (by omega)).trans (by decide)

theorem isWord_printInt {value : ℤ} (lower : -2 ^ 63 ≤ value) (upper : value < 2 ^ 63) :
    IsWord (printInt value) where
  oneLine := notMem_printInt rfl (by decide) value
  noZero := notMem_printInt rfl (by decide) value
  noQuote := notMem_printInt rfl (by decide) value
  noSpace := by
    have noSpace {digits : ℕ} {byte : UInt8} (member : byte ∈ printSize digits) :
        ¬isSpace byte = true :=
      Scanner.not_isSpace_of_isDigit (isDigit_of_mem_printSize member)
    intro byte member
    cases value with
    | ofNat value => exact noSpace member
    | negSucc value =>
      rcases mem_cons.mp member with rfl | digit
      · decide
      · exact noSpace digit
  short := (@length_printInt 20 (by decide) value (by omega)).trans (by decide)

section Fields

variable {name value key rest : Bytes}

section Field

variable (isName : IsWord name) (isValue : IsWord value)

include isName isValue

theorem isLine_fieldText :
    IsLine (fieldText name value) := by
  apply IsLine.append ⟨by decide, by decide⟩
  apply IsLine.append isName.toInline.quoted
  apply IsLine.append ⟨by decide, by decide⟩
  apply IsLine.append isValue.toInline
  exact ⟨rfl, by decide, by decide⟩

theorem length_fieldText :
    (fieldText name value).length ≤ 1023 := by
  have shortName := isName.short
  have shortValue := isValue.short
  simp only [fieldText, quoted, ascii, length_append, length_cons, length_map, length_nil]
  simp
  omega

theorem occurs_fieldText :
    occurs (quoted key) (fieldText name value) = decide (key = name) := by
  apply occurs_quoted
  simp only [mem_append, not_or]
  exact ⟨by decide, isName.noQuote, by decide, isValue.noQuote, by decide⟩

end Field

theorem sscanf_fieldText {conversion : Scanner} {item : Item} (isName : IsWord name)
    (isValue : IsWord value) (reads : conversion.Reads value (ascii ",\n".toList) () [item]) :
    sscanf (fieldFormat name conversion) (fieldText name value) = [item] := by
  have comma : (do conversion; Scanner.literal (ascii ",".toList) : Scanner).Reads
      (value ++ ascii ",".toList) (ascii "\n".toList) () [item] :=
    @Parser.Reads.bind _ _ _ _ conversion (fun _ => Scanner.literal (ascii ",".toList)) _ _ _ _ _
      [item] [] reads (Scanner.reads_literal _ _)
  have starts : ∀ byte ∈ (value ++ ascii ",".toList ++ ascii "\n".toList).head?,
      ¬isSpace byte = true := by
    intro byte isHead
    rw [append_assoc, head?_append, Option.mem_def, Option.or_eq_some_iff] at isHead
    rcases isHead with isHead | ⟨-, isHead⟩
    · exact isValue.noSpace byte (mem_of_mem_head? isHead)
    · rw [← Option.some.inj isHead]
      decide
  have read : (fieldFormat name conversion).Reads (ascii "  ".toList ++
      ((quoted name ++ ascii ":".toList) ++ (ascii " ".toList ++ (value ++ ascii ",".toList))))
      (ascii "\n".toList) () [item] := by
    refine (Scanner.reads_white (all_eq_true.mp rfl) ?_).bind <|
      (Scanner.reads_literal _ _).bind <|
        (Scanner.reads_white (all_eq_true.mp rfl) starts).bind comma
    intro byte isHead
    rw [← Option.some.inj isHead]
    decide
  have text : fieldText name value = ascii "  ".toList ++ ((quoted name ++ ascii ":".toList) ++
      (ascii " ".toList ++ (value ++ ascii ",".toList))) ++ ascii "\n".toList := by
    simp [fieldText, ascii]
  rw [sscanf, cString_of_notMem (isLine_fieldText isName isValue).noZero, text, read]

end Fields

theorem isWord_field {name : Bytes}
    (member : name ∈ [secretLenField, numBlocksField, timestampField]) : IsWord name := by
  have words : ∀ name ∈ [secretLenField, numBlocksField, timestampField],
      ((10 : UInt8) ∉ name ∧ (0 : UInt8) ∉ name) ∧ quote ∉ name ∧
        name.all (fun byte => !isSpace byte) = true ∧ name.length ≤ 128 := by
    decide
  rcases words name member with ⟨⟨oneLine, noZero⟩, noQuote, noSpace, short⟩
  exact ⟨⟨oneLine, noZero⟩, noQuote, by simpa using noSpace, short⟩

theorem not_isDigit_comma : ∀ byte ∈ (ascii ",\n".toList).head?, ¬isDigit byte = true := by
  intro byte isHead
  rw [← Option.some.inj isHead]
  decide

namespace Loader

variable {threshold : ℕ} {loader : Loader} {rest : Bytes}

theorem readText_fieldText {next : Loader} {name value : Bytes}
    (member : name ∈ [secretLenField, numBlocksField, timestampField]) (isValue : IsWord value)
    (step : (∀ key, occurs (quoted key) (fieldText name value) = decide (key = name)) →
      loader.readLine threshold (fieldText name value) = some next) :
    loader.readText threshold (fieldText name value ++ rest) = next.readText threshold rest := by
  have isName := isWord_field member
  apply readText_append (isLine_fieldText isName isValue) (length_fieldText isName isValue)
  exact step fun key => occurs_fieldText isName isValue

theorem readText_secretLen {value : ℕ} (bound : value < 2 ^ 64) :
    loader.readText threshold (fieldText secretLenField (printSize value) ++ rest) =
      readText threshold { loader with record := { loader.record with secretLen := value } }
        rest := by
  have isValue := isWord_printSize bound
  apply readText_fieldText (by decide) isValue
  intro found
  rw [readLine, found, if_neg (by decide), found, if_pos (by decide), setSecretLen,
    sscanf_fieldText (isWord_field (by decide)) isValue
      (Scanner.reads_size bound not_isDigit_comma)]
  rfl

theorem readText_numBlocks {value : ℕ} (bound : value < 2 ^ 64) :
    loader.readText threshold (fieldText numBlocksField (printSize value) ++ rest) =
      readText threshold { loader with record := { loader.record with numBlocks := value } }
        rest := by
  have isValue := isWord_printSize bound
  apply readText_fieldText (by decide) isValue
  intro found
  rw [readLine, found, if_neg (by decide), found, if_neg (by decide), found, if_pos (by decide),
    setNumBlocks, sscanf_fieldText (isWord_field (by decide)) isValue
      (Scanner.reads_size bound not_isDigit_comma)]
  rfl

theorem readText_timestamp {value : ℤ} (lower : -2 ^ 63 ≤ value) (upper : value < 2 ^ 63) :
    loader.readText threshold (fieldText timestampField (printInt value) ++ rest) =
      readText threshold { loader with record := { loader.record with timestamp := value } }
        rest := by
  have isValue := isWord_printInt lower upper
  apply readText_fieldText (by decide) isValue
  intro found
  rw [readLine, found, if_neg (by decide), found, if_neg (by decide), found, if_neg (by decide),
    found, if_pos (by decide), setTimestamp,
    sscanf_fieldText (isWord_field (by decide)) isValue
      (Scanner.reads_long lower upper not_isDigit_comma)]
  rfl

/-! ### The message id -/

theorem readText_skip (outside : loader.inCommitmentsArray = false) (front part : Bytes)
    (inside : Inline front) (noZero : (0 : UInt8) ∉ part) (noQuote : quote ∉ front ++ part)
    (short : front.length + part.length < 128) :
    loader.readText threshold (front ++ (part ++ (ascii "\",\n".toList ++ rest))) =
      loader.readText threshold rest := by
  -- The line that has begun is collected in `front` until a newline ends it.
  induction part generalizing front with
  | nil =>
    rw [nil_append, ← append_assoc]
    rw [append_nil] at noQuote
    apply readText_append (IsLine.append inside ⟨rfl, by decide, by decide⟩)
    · rw [length_append]
      simp only [length_nil] at short
      have : (ascii "\",\n".toList).length = 3 := rfl
      omega
    · apply readLine_of_count outside
      rw [count_append, count_eq_zero.mpr noQuote]
      decide
  | cons byte part ih =>
    rw [mem_cons, not_or] at noZero
    rw [length_cons] at short
    by_cases newline : byte = 10
    · subst newline
      have line : front ++ (10 :: part ++ (ascii "\",\n".toList ++ rest)) =
          (front ++ [10]) ++ ([] ++ (part ++ (ascii "\",\n".toList ++ rest))) := by
        simp
      rw [mem_append, mem_cons, not_or, not_or] at noQuote
      have skipped : loader.readLine threshold (front ++ [10]) = some loader := by
        apply readLine_of_count outside
        rw [count_append, count_eq_zero.mpr noQuote.1]
        decide
      rw [line, readText_append (IsLine.append inside ⟨rfl, by decide, by decide⟩)
        (by rw [length_append, length_singleton]; omega) skipped]
      exact ih [] ⟨by simp, by simp⟩ noZero.2 noQuote.2.2 (by simp; omega)
    · have longer : front ++ (byte :: part ++ (ascii "\",\n".toList ++ rest)) =
          (front ++ [byte]) ++ (part ++ (ascii "\",\n".toList ++ rest)) := by
        simp
      rw [longer]
      apply ih
      · constructor
        · simp [inside.oneLine, Ne.symm newline]
        · simp [inside.noZero, noZero.1]
      · exact noZero.2
      · simpa using noQuote
      · rw [length_append, length_singleton]
        omega

theorem readLine_msgid (after : Bytes) :
    loader.readLine threshold (ascii "  ".toList ++ (quoted msgidField ++ after)) =
      some { loader with record := { loader.record with msgid := msgidField } } := by
  have found : occurs (quoted msgidField) (ascii "  ".toList ++ (quoted msgidField ++ after)) :=
    occurs_iff.mpr ⟨ascii "  ".toList, after, by simp⟩
  rw [readLine, if_pos found, setMsgid, firstQuoted_eq (by decide) (by decide)]
  rfl

theorem readText_msgid_line {part ending : Bytes} (inside : Inline part) (isLine : IsLine ending)
    (short : part.length + ending.length ≤ 200) :
    loader.readText threshold (ascii "  ".toList ++ (quoted msgidField ++
        (ascii ": \"".toList ++ (part ++ (ending ++ rest))))) =
      readText threshold { loader with record := { loader.record with msgid := msgidField } }
        rest := by
  have line : IsLine (ascii "  ".toList ++ (quoted msgidField ++
      (ascii ": \"".toList ++ (part ++ ending)))) := by
    apply IsLine.append ⟨by decide, by decide⟩
    apply IsLine.append (Inline.quoted ⟨by decide, by decide⟩)
    apply IsLine.append ⟨by decide, by decide⟩
    exact IsLine.append inside isLine
  have length : (ascii "  ".toList ++ (quoted msgidField ++
      (ascii ": \"".toList ++ (part ++ ending)))).length = 12 + (part.length + ending.length) := by
    simp [ascii, quoted, msgidField]
    omega
  have split : ascii "  ".toList ++ (quoted msgidField ++ (ascii ": \"".toList ++
      (part ++ (ending ++ rest)))) = ascii "  ".toList ++ (quoted msgidField ++
        (ascii ": \"".toList ++ (part ++ ending))) ++ rest := by
    simp only [append_assoc]
  rw [split]
  exact readText_append line (by omega) (readLine_msgid _)

theorem readText_msgid (outside : loader.inCommitmentsArray = false) {msgid : Bytes}
    (noQuote : quote ∉ msgid) (noZero : (0 : UInt8) ∉ msgid) (short : msgid.length < 128) :
    loader.readText threshold (fieldText msgidField (quoted msgid) ++ rest) =
      readText threshold { loader with record := { loader.record with msgid := msgidField } }
        rest := by
  have text : fieldText msgidField (quoted msgid) ++ rest =
      ascii "  ".toList ++ (quoted msgidField ++ (ascii ": \"".toList ++
        (msgid ++ (ascii "\",\n".toList ++ rest)))) := by
    simp [fieldText, quoted, ascii, quote]
  have ending : (ascii "\",\n".toList).length = 3 := rfl
  rw [text]
  by_cases newline : (10 : UInt8) ∈ msgid
  · obtain ⟨part, later, rfl, first⟩ := eq_append_cons_of_mem newline
    rw [mem_append, mem_cons, not_or, not_or] at noQuote noZero
    rw [length_append, length_cons] at short
    have split : part ++ 10 :: later ++ (ascii "\",\n".toList ++ rest) =
        part ++ ([10] ++ ([] ++ (later ++ (ascii "\",\n".toList ++ rest)))) := by
      simp
    rw [split, readText_msgid_line ⟨first, noZero.1⟩ ⟨rfl, by decide, by decide⟩
      (by rw [length_singleton]; omega)]
    refine readText_skip ?_ [] later ⟨by simp, by simp⟩ noZero.2.2 noQuote.2.2 (by simp; omega)
    exact outside
  · exact readText_msgid_line ⟨newline, noZero⟩ ⟨rfl, by decide, by decide⟩ (by omega)

end Loader

/-! ### The blocks -/

section Lines

variable {more : Bool}

theorem isLine_lineEnd : IsLine (lineEnd more) := by
  cases more
  · exact ⟨rfl, by decide, by decide⟩
  · exact ⟨rfl, by decide, by decide⟩

theorem length_lineEnd : (lineEnd more).length ≤ 2 := by
  cases more <;> decide

theorem notMem_lineEnd {byte : UInt8} (other : byte ∉ ascii ",\n".toList) :
    byte ∉ lineEnd more := by
  cases more
  · exact not_mem_of_not_mem_cons other
  · exact other

end Lines

namespace Loader

def within (threshold : ℕ) (record : VssRecord) (block coeff : ℕ) : Loader where
  record := { record with
    msgid := msgidField
    commitments := fun readBlock index =>
      if readBlock < block ∧ index < threshold ∨ readBlock = block ∧ index < coeff then
        record.commitments readBlock index
      else List.replicate 33 0 }
  currentBlock := block
  currentCoeff := coeff
  inCommitmentsArray := true

variable {threshold : ℕ} {rest : Bytes}

theorem readText_flatMap (text : ℕ → Bytes) (state : ℕ → Loader) {count : ℕ}
    (step : ∀ index < count, ∀ rest, (state index).readText threshold (text index ++ rest) =
      (state (index + 1)).readText threshold rest) :
    (state 0).readText threshold ((List.range count).flatMap text ++ rest) =
      (state count).readText threshold rest := by
  induction count generalizing rest with
  | zero => rfl
  | succ count ih =>
    rw [range_succ, flatMap_append, append_assoc,
      ih fun index below => step index (by omega), flatMap_singleton]
    exact step count (by omega) rest

section Steps

variable {record : VssRecord} {block coeff : ℕ}

theorem storePoint_within :
    (within threshold record block coeff).storePoint (printHex (record.commitments block coeff)) =
      within threshold record block (coeff + 1) := by
  simp only [storePoint, within, hexPairs_printHex, Loader.mk.injEq, VssRecord.mk.injEq,
    VssCommitment.mk.injEq, and_true]
  funext readBlock index
  by_cases here : readBlock = block ∧ index = coeff
  · rw [if_pos here, if_pos (by omega), here.1, here.2]
  · rw [if_neg here]
    congr 1
    apply propext
    omega

theorem notMem_pointText {byte : UInt8} (noHexDigit : hexDigit byte = none)
    (other : byte ∉ ascii "      \",\n".toList) :
    byte ∉ pointText threshold record block coeff := by
  have apart : ascii "      \",\n".toList =
    ascii "      ".toList ++ ([quote] ++ ascii ",\n".toList) := rfl
  rw [apart, mem_append, mem_append, not_or, not_or] at other
  rw [pointText, quoted, mem_append, mem_append, mem_cons, mem_append]
  simp only [not_or]
  rw [mem_singleton] at other ⊢
  exact ⟨other.1, ⟨other.2.1, notMem_printHex noHexDigit, other.2.1⟩, notMem_lineEnd other.2.2⟩

section Point

variable (few : record.numBlocks ≤ maxBlocks) (blockBound : block < record.numBlocks)
  (coeffBound : coeff < threshold)

include few blockBound coeffBound

theorem readPoint_within {line : Bytes} (size : (record.commitments block coeff).length = 33)
    (found : firstQuoted line = some (printHex (record.commitments block coeff))) :
    (within threshold record block coeff).readPoint threshold line =
      some (within threshold record block (coeff + 1)) := by
  have isPoint : (printHex (record.commitments block coeff)).length = 66 ∧
      (printHex (record.commitments block coeff)).all
        (fun byte => (hexDigit byte).isSome) = true := by
    refine ⟨by rw [length_printHex, size], ?_⟩
    rw [all_eq_true]
    intro character member
    rcases exists_of_mem_printHex member with ⟨digit, small, rfl⟩
    rw [hexDigit_hexChar small]
    rfl
  have expected : (within threshold record block coeff).currentBlock <
        (within threshold record block coeff).record.numBlocks ∧
      (within threshold record block coeff).currentCoeff < threshold :=
    ⟨blockBound, coeffBound⟩
  have room : (within threshold record block coeff).currentBlock < maxBlocks :=
    blockBound.trans_le few
  rw [readPoint, found]
  dsimp only
  rw [if_pos isPoint, if_pos expected, if_pos room, storePoint_within]

theorem readLine_point (size : (record.commitments block coeff).length = 33) :
    (within threshold record block coeff).readLine threshold
        (pointText threshold record block coeff) =
      some (within threshold record block (coeff + 1)) := by
  -- No earlier branch takes the line: it is too long to be a name and has no bracket.
  have noQuote : quote ∉ printHex (record.commitments block coeff) := notMem_printHex rfl
  have unnamed {key : Bytes} (short : key.length < 66) :
      occurs (quoted key) (pointText threshold record block coeff) = false := by
    rw [pointText, occurs_quoted, decide_eq_false_iff_not]
    · rintro rfl
      rw [length_printHex, size] at short
      omega
    · simp only [mem_append, not_or]
      exact ⟨by decide, noQuote, notMem_lineEnd (by decide)⟩
  have noBracket {bracket : UInt8} {pattern : Bytes} (member : bracket ∈ pattern)
      (isBracket : bracket = 91 ∨ bracket = 93) :
      occurs pattern (pointText threshold record block coeff) = false := by
    apply occurs_eq_false_of_notMem member
    rcases isBracket with rfl | rfl
    · exact notMem_pointText rfl (by decide)
    · exact notMem_pointText rfl (by decide)
  have quotes : (strchr quote (pointText threshold record block coeff)).isSome = true := by
    rw [Option.isSome_iff_ne_none, Ne, strchr_eq_none_iff, not_not, pointText, quoted]
    simp
  have opening {pattern : Bytes} (member : 91 ∈ pattern) := noBracket member (.inl rfl)
  have closing {pattern : Bytes} (member : 93 ∈ pattern) := noBracket member (.inr rfl)
  have inArray : (within threshold record block coeff).inCommitmentsArray = true := rfl
  rw [readLine, unnamed (by decide), unnamed (by decide), unnamed (by decide), unnamed (by decide),
    unnamed (by decide), opening (by decide), opening (by decide), closing (by decide),
    closing (by decide), quotes, inArray]
  exact readPoint_within few blockBound coeffBound size (firstQuoted_eq (by decide) noQuote)

theorem readText_point (size : (record.commitments block coeff).length = 33) :
    (within threshold record block coeff).readText threshold
        (pointText threshold record block coeff ++ rest) =
      (within threshold record block (coeff + 1)).readText threshold rest := by
  apply readText_append _ _ (readLine_point few blockBound coeffBound size)
  · apply IsLine.append ⟨by decide, by decide⟩
    exact IsLine.append (Inline.quoted ⟨notMem_printHex rfl, notMem_printHex rfl⟩) isLine_lineEnd
  · have hex := length_printHex (record.commitments block coeff)
    have spaces : (ascii "      ".toList).length = 6 := rfl
    have ending := @length_lineEnd (decide (coeff < threshold - 1))
    simp only [pointText, quoted, length_append, length_cons, length_nil]
    omega

end Point

theorem readText_opening :
    (within threshold record block 0).readText threshold (ascii "    [\n".toList ++ rest) =
      (within threshold record block 0).readText threshold rest :=
  readText_append ⟨rfl, by decide, by decide⟩ (by decide) rfl

theorem readText_closing (more : Bool) :
    (within threshold record block threshold).readText threshold
        (ascii "    ]".toList ++ (lineEnd more ++ rest)) =
      (within threshold record (block + 1) 0).readText threshold rest := by
  have next : within threshold record (block + 1) 0 =
      { within threshold record block threshold with
        currentBlock := block + 1, currentCoeff := 0 } := by
    simp only [within, Loader.mk.injEq, VssRecord.mk.injEq, VssCommitment.mk.injEq, and_true]
    funext readBlock index
    congr 1
    apply propext
    omega
  rw [← append_assoc, next]
  apply readText_append (IsLine.append ⟨by decide, by decide⟩ isLine_lineEnd)
  · cases more <;> decide
  · cases more
    · rfl
    · rfl

theorem readText_block (few : record.numBlocks ≤ maxBlocks) (bound : block < record.numBlocks)
    (sizes : ∀ index < threshold, (record.commitments block index).length = 33) :
    (within threshold record block 0).readText threshold
        (blockText threshold record block ++ rest) =
      (within threshold record (block + 1) 0).readText threshold rest := by
  rw [blockText, append_assoc, readText_opening, append_assoc, append_assoc,
    readText_flatMap _ (within threshold record block) fun index below rest =>
      readText_point few bound below (sizes index below)]
  exact readText_closing _

end Steps

/-! ### The whole file -/

theorem readText_header (record : CommitmentRecord threshold) (noQuote : quote ∉ record.msgid) :
    initial.readText threshold (ascii "\x7b\n".toList ++
      (fieldText msgidField (quoted record.msgid) ++
      (fieldText secretLenField (printSize record.secretLen) ++
      (fieldText numBlocksField (printSize record.numBlocks) ++
      (fieldText timestampField (printInt record.timestamp) ++
      (fieldText commitmentTypeField (quoted (ascii "Feldman_VSS_Blocked".toList)) ++
      (ascii "  ".toList ++ (quoted commitmentsField ++ ascii ": [\n".toList) ++ rest))))))) =
      (within threshold record.toVssRecord 0 0).readText threshold rest := by
  have numBlocks_lt : record.numBlocks < 2 ^ 64 := record.few.trans_lt (by decide)
  rw [readText_append ⟨rfl, by decide, by decide⟩ (by decide) rfl,
    readText_msgid rfl noQuote record.noZero record.short, readText_secretLen record.secretLen_lt,
    readText_numBlocks numBlocks_lt, readText_timestamp record.lower record.upper,
    readText_append ⟨rfl, by decide, by decide⟩ (by decide) rfl,
    readText_append ⟨rfl, by decide, by decide⟩ (by decide) rfl]
  simp [within, initial]

theorem readText_recordText (record : CommitmentRecord threshold) (noQuote : quote ∉ record.msgid) :
    initial.readText threshold (recordText threshold record.toVssRecord) =
      some { within threshold record.toVssRecord record.numBlocks 0 with
        currentBlock := record.numBlocks + 1 } := by
  rw [recordText, readText_header record noQuote,
    readText_flatMap _ (fun block => within threshold record.toVssRecord block 0)
      fun block below rest => readText_block record.few below fun index bound =>
        record.points block (below.trans_le record.few) index bound,
    readText_append ⟨rfl, by decide, by decide⟩ (by decide) rfl]
  rfl

end Loader

/-! ### Files -/

section Restore

variable {threshold : ℕ} {canCreate : Bytes → Bool} {files after : Files}

variable {record : VssRecord}

theorem savedFile_of_nonempty (nonempty : record.msgid ≠ []) :
    savedFile record = commitmentFile record.msgid :=
  if_neg fun empty => nonempty (eq_nil_of_length_eq_zero empty)

theorem savedFile_ne_of_empty (empty : record.msgid = []) :
    savedFile record ≠ commitmentFile [] := by
  have length : record.msgid.length = 0 := by rw [empty, length_nil]
  rw [savedFile, if_pos length]
  intro same
  -- The names differ in the letter behind the common path.
  have letter : (some 101 : Option UInt8) = some 46 := congrArg (fun name => name[31]?) same
  exact absurd letter (by decide)

def readBack (threshold : ℕ) (record : VssRecord) : VssRecord :=
  (Loader.within threshold record record.numBlocks 0).record

theorem load_saved (record : CommitmentRecord threshold) (noQuote : quote ∉ record.msgid)
    (nonempty : record.msgid ≠ [])
    (saved : saveVssCommitmentToFile threshold canCreate files record.toVssRecord = some after) :
    loadVssCommitmentFromFile threshold after record.msgid =
      if 0 < record.numBlocks ∧ 0 < record.secretLen then
        .loaded (readBack threshold record.toVssRecord)
      else .incomplete := by
  rw [saveVssCommitmentToFile, Option.ite_none_right_eq_some,
    savedFile_of_nonempty nonempty] at saved
  rw [← Option.some.inj saved.2, loadVssCommitmentFromFile, Function.update_self]
  simp only [Loader.readText_recordText record noQuote]
  have fits : (readBack threshold record.toVssRecord).numBlocks ≤ maxBlocks := record.few
  have final : ({ Loader.within threshold record.toVssRecord record.numBlocks 0 with
      currentBlock := record.numBlocks + 1 } : Loader).result =
        if 0 < record.numBlocks ∧ 0 < record.secretLen then
          if (readBack threshold record.toVssRecord).numBlocks ≤ maxBlocks then
            .loaded (readBack threshold record.toVssRecord)
          else .overrun
        else .incomplete := rfl
  rw [final, if_pos fits]

theorem load_saved_of_empty (empty : record.msgid = [])
    (saved : saveVssCommitmentToFile threshold canCreate files record = some after) :
    loadVssCommitmentFromFile threshold after record.msgid =
      loadVssCommitmentFromFile threshold files record.msgid := by
  rw [saveVssCommitmentToFile, Option.ite_none_right_eq_some] at saved
  rw [← Option.some.inj saved.2, loadVssCommitmentFromFile, loadVssCommitmentFromFile,
    Function.update_of_ne]
  rw [empty]
  exact (savedFile_ne_of_empty empty).symm

structure SameRecord (threshold : ℕ) (loaded record : VssRecord) : Prop where
  msgid : loaded.msgid = record.msgid
  secretLen : loaded.secretLen = record.secretLen
  numBlocks : loaded.numBlocks = record.numBlocks
  commitments : ∀ block < record.numBlocks, ∀ index < threshold,
    loaded.commitments block index = record.commitments block index

def Restored (threshold : ℕ) (files : Files) (record : VssRecord) : Prop :=
  ∃ loaded, loadVssCommitmentFromFile threshold files record.msgid = .loaded loaded ∧
    SameRecord threshold loaded record

theorem sameRecord_readBack_iff :
    SameRecord threshold (readBack threshold record) record ↔ record.msgid = msgidField := by
  constructor
  · intro same
    exact same.msgid.symm
  · intro named
    refine ⟨named.symm, rfl, rfl, fun block below index bound => ?_⟩
    exact if_pos (.inl ⟨below, bound⟩)

/-- A saved record is restored exactly if its id is the name of the field of ids, and there is
something to restore. -/
theorem commitment_restored_iff (record : CommitmentRecord threshold)
    (noQuote : quote ∉ record.msgid)
    (saved : saveVssCommitmentToFile threshold canCreate files record.toVssRecord = some after) :
    Restored threshold after record.toVssRecord ↔
      record.msgid = msgidField ∧ 0 < record.numBlocks ∧ 0 < record.secretLen ∨
        record.msgid = [] ∧ Restored threshold files record.toVssRecord := by
  by_cases empty : record.msgid = []
  · have unnamed : record.msgid ≠ msgidField := by
      rw [empty]
      decide
    have same : Restored threshold after record.toVssRecord ↔
        Restored threshold files record.toVssRecord := by
      rw [Restored, Restored, load_saved_of_empty empty saved]
    rw [same]
    constructor
    · intro restored
      exact .inr ⟨empty, restored⟩
    · rintro (⟨named, -⟩ | ⟨-, restored⟩)
      · exact absurd named unnamed
      · exact restored
  · rw [Restored, load_saved record noQuote empty saved]
    simp only [empty, false_and, or_false]
    by_cases complete : 0 < record.numBlocks ∧ 0 < record.secretLen
    · simp [complete, sameRecord_readBack_iff]
    · simp [complete]

end Restore

def sampleRecord (msgid : Bytes) (noZero : (0 : UInt8) ∉ msgid) (short : msgid.length < 128) :
    CommitmentRecord 2 where
  commitments := fun _ _ => List.replicate 33 2
  numBlocks := 1
  secretLen := 5
  msgid := msgid
  timestamp := 1700000000
  noZero := noZero
  short := short
  few := by decide
  secretLen_lt := by decide
  lower := by decide
  upper := by decide
  points := fun _ _ _ _ => length_replicate

theorem commitment_restored_sample : ∃ after,
    saveVssCommitmentToFile 2 (fun _ => true) (fun _ => none)
      (sampleRecord msgidField (by decide) (by decide)).toVssRecord = some after ∧
    Restored 2 after (sampleRecord msgidField (by decide) (by decide)).toVssRecord :=
  ⟨_, rfl, (@commitment_restored_iff 2 (fun _ => true) (fun _ => none) _
    (sampleRecord msgidField (by decide) (by decide)) (by decide) rfl).mpr
      (.inl ⟨rfl, by decide, by decide⟩)⟩

theorem commitment_not_restored : ∃ after loaded,
    saveVssCommitmentToFile 2 (fun _ => true) (fun _ => none)
      (sampleRecord [97] (by decide) (by decide)).toVssRecord = some after ∧
    loadVssCommitmentFromFile 2 after [97] = .loaded loaded ∧ loaded.msgid = msgidField ∧
    ¬Restored 2 after (sampleRecord [97] (by decide) (by decide)).toVssRecord := by
  have result := @load_saved 2 (fun _ => true) (fun _ => none) _
    (sampleRecord [97] (by decide) (by decide)) (by decide) (by decide) rfl
  rw [if_pos ⟨by decide, by decide⟩] at result
  refine ⟨_, _, rfl, result, rfl, ?_⟩
  rintro ⟨loaded, again, same⟩
  rw [result] at again
  have named := same.msgid
  rw [← LoadResult.loaded.inj again] at named
  exact absurd named (by decide)

end TigerMixer.SecretShare
