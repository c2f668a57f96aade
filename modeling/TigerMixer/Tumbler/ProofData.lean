import TigerMixer.Text.CString

/-!
# The nullifier in the proof data

`promise_init_handler` cuts the second public signal out of the text of the proof, by searching for
the key, the bracket and the commas. A value that does not start with `0x` is written into a shell
command that converts it.
-/

namespace TigerMixer.Tumbler

open Bytes Text List

def proofDataSize : ℕ := 4608

def isBlank (byte : UInt8) : Bool :=
  byte = 32 || byte = 9 || byte = 10 || byte = 13

def publicSignalsKey : Bytes :=
  ascii "\"publicSignals\":".toList

/-- The word that is looked for without regard to case when there is no such key. -/
def publicSignalsWord : Bytes :=
  ascii "publicSignals".toList

def publicSignalsStart (proofData : Bytes) : Option Bytes :=
  match strstr publicSignalsKey proofData with
  | some start => some start
  | none => strcasestr publicSignalsWord proofData

def secondElement (second : Bytes) : Option Bytes :=
  match strchr 44 second with
  | some secondEnd => some (second.take (second.length - secondEnd.length))
  | none =>
    match strchr 93 second with
    | some secondEnd => some (second.take (second.length - secondEnd.length))
    | none => none

/-- An element without the blanks behind it, and then without one quote on either side. -/
def unquote (element : Bytes) : Bytes :=
  let trimmed := element.rdropWhile isBlank
  let value := if trimmed.head? = some 34 then trimmed.tail else trimmed
  if value.getLast? = some 34 then value.dropLast else value

def rawValue (proofData : Bytes) : Option Bytes := do
  let start ← publicSignalsStart proofData
  let array ← strchr 91 start
  let firstComma ← strchr 44 array.tail
  let element ← secondElement (firstComma.tail.dropWhile isBlank)
  let value := unquote element
  if 0 < value.length ∧ value.length < 255 then some value else none

def hexMark : Bytes :=
  ascii ['0', 'x']

def tornadoProofData (bytes : Bytes) : Option Bytes :=
  if 0 < (cString bytes).length ∧ (cString bytes).length < proofDataSize then some (cString bytes)
  else none

def convertedText (bytes : Bytes) : Option Bytes := do
  let value ← rawValue (← tornadoProofData bytes)
  if hexMark.isPrefixOf value then none else some value

def convertCmd (value : Bytes) : Bytes :=
  (ascii "cd /home/zxx/tornado-core-master && ".toList ++
    ascii "node -e \"const bigInt = require('snarkjs').bigInt; ".toList ++
    ascii "console.log('0x' + bigInt('".toList ++ value ++
    ascii "').toString(16));\"".toList).take 1023

def executedCommand (bytes : Bytes) : Option Bytes :=
  (convertedText bytes).map convertCmd

/-! ### The texts that are cut out -/

/-- The public signals begin at the first key, or at the first word if there is no key. -/
def SignalsAt (proofData start : Bytes) : Prop :=
  FirstSuffix (fun rest => publicSignalsKey.isPrefixOf rest) proofData start ∨
    ¬publicSignalsKey <:+: proofData ∧
      FirstSuffix (fun rest => (publicSignalsWord.map toLower).isPrefixOf (rest.map toLower))
        proofData start

/-- An element ends at the next comma, or at the next bracket if no comma follows at all. -/
structure EndsElement (element after : Bytes) : Prop where
  noComma : 44 ∉ element
  stop : after.head? = some 44 ∨ after.head? = some 93 ∧ 93 ∉ element ∧ 44 ∉ after

/-- A value in an element: blanks behind it do not belong to it, nor does one quote on either
side. -/
structure Quotes (element value : Bytes) : Prop where
  layout : ∃ opening closing blanks, element = opening ++ value ++ closing ++ blanks ∧
    (∀ byte ∈ blanks, isBlank byte) ∧
    (∀ byte ∈ (opening ++ value ++ closing).getLast?, ¬isBlank byte) ∧
    (opening = [34] ∨ opening = [] ∧ (value ++ closing).head? ≠ some 34) ∧
    (closing = [34] ∨ closing = [] ∧ value.getLast? ≠ some 34)

def SecondSignal (proofData value : Bytes) : Prop :=
  ∃ start opening first blanks element after,
    SignalsAt proofData start ∧
      start = opening ++ 91 :: first ++ 44 :: blanks ++ element ++ after ∧
      91 ∉ opening ∧ 44 ∉ first ∧ (∀ byte ∈ blanks, isBlank byte) ∧
      (∀ byte ∈ (element ++ after).head?, ¬isBlank byte) ∧
      EndsElement element after ∧ Quotes element value

theorem publicSignalsStart_eq_some_iff {proofData start : Bytes} :
    publicSignalsStart proofData = some start ↔ SignalsAt proofData start := by
  unfold publicSignalsStart SignalsAt
  rw [← strstr_eq_none_iff, ← firstSuffix_eq_some_iff, ← firstSuffix_eq_some_iff]
  cases searched : strstr publicSignalsKey proofData with
  | none =>
    rw [strstr] at searched
    simp [searched, strcasestr]
  | some other =>
    rw [strstr] at searched
    simp [searched]

theorem take_before {element after : Bytes} :
    (element ++ after).take ((element ++ after).length - after.length) = element := by
  simp

theorem secondElement_eq_some_iff {second element : Bytes} :
    secondElement second = some element ↔
      ∃ after, second = element ++ after ∧ EndsElement element after := by
  constructor
  · intro cut
    unfold secondElement at cut
    split at cut
    next found comma =>
      rcases strchr_eq_some_iff.mp comma with ⟨before, after, rfl, noComma, rfl⟩
      rw [take_before, Option.some.injEq] at cut
      subst cut
      exact ⟨44 :: after, rfl, noComma, .inl rfl⟩
    next comma =>
      have noComma := strchr_eq_none_iff.mp comma
      split at cut
      next found bracket =>
        rcases strchr_eq_some_iff.mp bracket with ⟨before, after, rfl, noBracket, rfl⟩
        rw [take_before, Option.some.injEq] at cut
        subst cut
        rw [mem_append, not_or] at noComma
        exact ⟨93 :: after, rfl, noComma.1, .inr ⟨rfl, noBracket, noComma.2⟩⟩
      next => simp at cut
  · rintro ⟨after, rfl, noComma, comma | ⟨bracket, noBracket, noCommaAfter⟩⟩
    · rcases head?_eq_some_iff.mp comma with ⟨rest, rfl⟩
      have found := strchr_eq_some_iff.mpr ⟨element, rest, rfl, noComma, rfl⟩
      simp only [secondElement, found, take_before]
    · rcases head?_eq_some_iff.mp bracket with ⟨rest, rfl⟩
      have found := strchr_eq_some_iff.mpr ⟨element, rest, rfl, noBracket, rfl⟩
      have missing : strchr 44 (element ++ 93 :: rest) = none := by
        rw [strchr_eq_none_iff, mem_append, not_or]
        exact ⟨noComma, noCommaAfter⟩
      simp only [secondElement, missing, found, take_before]

theorem exists_opening (trimmed : Bytes) :
    ∃ opening, trimmed = opening ++ (if trimmed.head? = some 34 then trimmed.tail else trimmed) ∧
      (opening = [34] ∨ opening = [] ∧
        (if trimmed.head? = some 34 then trimmed.tail else trimmed).head? ≠ some 34) := by
  by_cases quoted : trimmed.head? = some 34
  · rcases head?_eq_some_iff.mp quoted with ⟨rest, rfl⟩
    exact ⟨[34], by simp, .inl rfl⟩
  · exact ⟨[], by simp [quoted], .inr ⟨rfl, by simp [quoted]⟩⟩

theorem exists_closing (value : Bytes) :
    ∃ closing, value = (if value.getLast? = some 34 then value.dropLast else value) ++ closing ∧
      (closing = [34] ∨ closing = [] ∧
        (if value.getLast? = some 34 then value.dropLast else value).getLast? ≠ some 34) := by
  by_cases quoted : value.getLast? = some 34
  · rcases getLast?_eq_some_iff.mp quoted with ⟨rest, rfl⟩
    exact ⟨[34], by simp, .inl rfl⟩
  · exact ⟨[], by simp [quoted], .inr ⟨rfl, by simp [quoted]⟩⟩

theorem unquote_eq_iff {element value : Bytes} :
    unquote element = value ↔ Quotes element value := by
  constructor
  · intro cut
    rcases rdropWhile_eq_iff.mp (rfl : element.rdropWhile isBlank = _) with
      ⟨blanks, split, areBlank, stop⟩
    unfold unquote at cut
    generalize element.rdropWhile isBlank = trimmed at cut split stop
    rcases exists_opening trimmed with ⟨opening, trimmed_eq, opened⟩
    simp only at cut
    generalize (if trimmed.head? = some 34 then trimmed.tail else trimmed) = rest at *
    rcases exists_closing rest with ⟨closing, rest_eq, closed⟩
    rw [cut] at rest_eq closed
    subst rest_eq trimmed_eq split
    exact ⟨opening, closing, blanks, by simp, areBlank, by simpa using stop, opened, closed⟩
  · rintro ⟨opening, closing, blanks, rfl, areBlank, stop, opened, closed⟩
    have trim : (opening ++ value ++ closing ++ blanks).rdropWhile isBlank =
        opening ++ value ++ closing := rdropWhile_eq_iff.mpr ⟨blanks, rfl, areBlank, stop⟩
    simp only [unquote, trim]
    have strip : (if (opening ++ value ++ closing).head? = some 34 then
        (opening ++ value ++ closing).tail else opening ++ value ++ closing) =
          value ++ closing := by
      rcases opened with rfl | ⟨rfl, plain⟩
      · simp
      · simp only [nil_append, if_neg plain]
    rw [strip]
    rcases closed with rfl | ⟨rfl, plain⟩
    · simp
    · simp [plain]

theorem rawValue_eq_some_iff {proofData value : Bytes} :
    rawValue proofData = some value ↔
      SecondSignal proofData value ∧ 0 < value.length ∧ value.length < 255 := by
  constructor
  · intro found
    simp only [rawValue, Option.bind_eq_bind, Option.bind_eq_some_iff] at found
    rcases found with ⟨start, searched, array, bracket, comma, separator, element, cut, bounded⟩
    simp only [Option.ite_none_right_eq_some, Option.some.injEq] at bounded
    rcases bounded with ⟨bounds, rfl⟩
    rcases strchr_eq_some_iff.mp bracket with ⟨opening, signals, rfl, noBracket, rfl⟩
    rcases strchr_eq_some_iff.mp separator with ⟨first, rest, rfl, noComma, rfl⟩
    rcases dropWhile_eq_iff.mp (rfl : (List.tail (44 :: rest)).dropWhile isBlank = _) with
      ⟨blanks, split, areBlank, stop⟩
    rcases secondElement_eq_some_iff.mp cut with ⟨after, second_eq, ends⟩
    rw [second_eq] at split stop
    rw [tail_cons] at split
    subst split
    exact ⟨⟨_, opening, first, blanks, element, after, publicSignalsStart_eq_some_iff.mp searched,
      by simp, noBracket, noComma, areBlank, stop, ends, unquote_eq_iff.mp rfl⟩, bounds⟩
  · rintro ⟨⟨start, opening, first, blanks, element, after, signals, rfl, noBracket, noComma,
      areBlank, stop, ends, quotes⟩, bounds⟩
    have searched := publicSignalsStart_eq_some_iff.mpr signals
    have bracket : strchr 91 (opening ++ 91 :: first ++ 44 :: blanks ++ element ++ after) =
        some (91 :: (first ++ 44 :: (blanks ++ (element ++ after)))) :=
      strchr_eq_some_iff.mpr ⟨opening, _, by simp, noBracket, rfl⟩
    have separator : strchr 44 (first ++ 44 :: (blanks ++ (element ++ after))) =
        some (44 :: (blanks ++ (element ++ after))) :=
      strchr_eq_some_iff.mpr ⟨first, _, rfl, noComma, rfl⟩
    have second : (blanks ++ (element ++ after)).dropWhile isBlank = element ++ after :=
      dropWhile_eq_iff.mpr ⟨blanks, rfl, areBlank, stop⟩
    have cut := secondElement_eq_some_iff.mpr ⟨after, rfl, ends⟩
    have value_eq := unquote_eq_iff.mpr quotes
    simp only [rawValue, searched, bracket, separator, second, cut, value_eq, Option.bind_eq_bind,
      Option.bind_some, tail_cons]
    exact if_pos bounds

theorem SignalsAt.suffix {proofData start : Bytes} (signals : SignalsAt proofData start) :
    start <:+ proofData := by
  rcases signals with found | ⟨_, found⟩
  · exact found.suffix
  · exact found.suffix

theorem Quotes.subset {element value : Bytes} (quotes : Quotes element value) :
    value ⊆ element := by
  rcases quotes with ⟨opening, closing, blanks, rfl, _⟩
  intro byte member
  simp [member]

theorem SecondSignal.subset {proofData value : Bytes} (signal : SecondSignal proofData value) :
    value ⊆ proofData := by
  rcases signal with ⟨start, opening, first, blanks, element, after, signals, rfl, _, _, _, _, _,
    quotes⟩
  intro byte member
  apply signals.suffix.subset
  simp [quotes.subset member]

theorem SecondSignal.noComma {proofData value : Bytes} (signal : SecondSignal proofData value) :
    44 ∉ value := by
  rcases signal with ⟨start, opening, first, blanks, element, after, _, _, _, _, _, _, ends, quotes⟩
  exact fun member => ends.noComma (quotes.subset member)

theorem convertedText_eq_some_iff {bytes value : Bytes} :
    convertedText bytes = some value ↔
      (cString bytes).length < proofDataSize ∧ SecondSignal (cString bytes) value ∧
        0 < value.length ∧ value.length < 255 ∧ ¬hexMark <+: value := by
  constructor
  · intro converted
    simp only [convertedText, tornadoProofData, Option.bind_eq_bind, Option.bind_eq_some_iff,
      Option.ite_none_right_eq_some, Option.ite_none_left_eq_some, Option.some.injEq,
      isPrefixOf_iff_prefix] at converted
    rcases converted with ⟨_, ⟨bounds, rfl⟩, _, raw, noMark, rfl⟩
    rcases rawValue_eq_some_iff.mp raw with ⟨signal, nonempty, short⟩
    exact ⟨bounds.2, signal, nonempty, short, noMark⟩
  · rintro ⟨bounded, signal, nonempty, short, noMark⟩
    have raw := rawValue_eq_some_iff.mpr ⟨signal, nonempty, short⟩
    have present : 0 < (cString bytes).length :=
      length_pos_of_mem (signal.subset (getElem_mem nonempty))
    simp [convertedText, tornadoProofData, bounded, present, raw, noMark]

def Digits (value : Bytes) : Prop :=
  ∀ byte ∈ value, 48 ≤ byte ∧ byte ≤ 57

instance (value : Bytes) : Decidable (Digits value) :=
  inferInstanceAs (Decidable (∀ byte ∈ value, _))

/-- The shell sees digits exactly if the second signal consists of digits, or is skipped: it starts
with `0x`, or it is empty or too long. -/
theorem convertedText_digits_iff (bytes : Bytes) :
    (∀ value, convertedText bytes = some value → Digits value) ↔
      ∀ value, (cString bytes).length < proofDataSize → SecondSignal (cString bytes) value →
        0 < value.length → value.length < 255 → ¬hexMark <+: value → Digits value := by
  simp only [convertedText_eq_some_iff, and_imp]

/-- Without digits, and run by the shell inside the double quotes of the command. -/
theorem convertedText_of_command :
    let bytes := publicSignalsKey ++ ascii "[0,$(id),0]".toList
    executedCommand bytes = some (convertCmd (ascii "$(id)".toList)) ∧
      ¬∀ value, convertedText bytes = some value → Digits value := by
  intro bytes
  have converted : convertedText bytes = some (ascii "$(id)".toList) := by decide
  refine ⟨by rw [executedCommand, converted]; rfl, fun digits => ?_⟩
  exact absurd (digits _ converted 36 (by decide)) (by decide)

/-- The texts that the command is built from are short, without zeros and commas, and do not start
with the hexadecimal mark. -/
theorem exists_convertedText_iff {value : Bytes} :
    (∃ bytes, convertedText bytes = some value) ↔
      0 < value.length ∧ value.length < 255 ∧ 0 ∉ value ∧ 44 ∉ value ∧ ¬hexMark <+: value := by
  constructor
  · rintro ⟨bytes, converted⟩
    rcases convertedText_eq_some_iff.mp converted with ⟨_, signal, nonempty, short, noMark⟩
    exact ⟨nonempty, short, fun zero => zero_notMem_cString bytes (signal.subset zero),
      signal.noComma, noMark⟩
  · rintro ⟨nonempty, short, noZero, noComma, noMark⟩
    let proofData := publicSignalsKey ++ 91 :: [48] ++ 44 :: [] ++ (34 :: value ++ [34]) ++ [44]
    have text_eq : cString proofData = proofData := by
      apply cString_of_notMem
      have noZeroKey : 0 ∉ publicSignalsKey := by decide
      simp [proofData, noZero, noZeroKey]
    have signals : SignalsAt proofData proofData := by
      refine .inl ⟨suffix_rfl, ?_, fun _ suffix _ => suffix⟩
      simp [proofData]
    have quotes : Quotes (34 :: value ++ [34]) value := by
      refine ⟨[34], [34], [], by simp, by simp, fun byte last => ?_, .inl rfl, .inl rfl⟩
      rw [getLast?_concat, Option.mem_some_iff] at last
      subst last
      decide
    have ends : EndsElement (34 :: value ++ [34]) [44] := ⟨by simp [noComma], .inl rfl⟩
    have signal : SecondSignal proofData value :=
      ⟨proofData, publicSignalsKey, [48], [], 34 :: value ++ [34], [44], signals, rfl, by decide,
        by decide, by simp, by simp; decide, ends, quotes⟩
    have size : proofData.length = value.length + 22 := by
      have keySize : publicSignalsKey.length = 16 := by decide
      simp [proofData, keySize]
      omega
    have bounded : proofData.length < proofDataSize := by
      rw [size, proofDataSize]
      omega
    refine ⟨proofData, convertedText_eq_some_iff.mpr ?_⟩
    rw [text_eq]
    exact ⟨bounded, signal, nonempty, short, noMark⟩

end TigerMixer.Tumbler
