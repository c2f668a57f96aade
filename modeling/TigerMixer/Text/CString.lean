import TigerMixer.Data.ByteString
import Mathlib.Data.List.DropRight

/-!
# C strings and streams

The functions of the C library that search texts and read streams, on byte strings. A pointer into
a text is the rest of the text from there on, so a search returns the rest that begins with what it
found.
-/

namespace TigerMixer.Text

open Bytes List

universe u

def cString (bytes : Bytes) : Bytes :=
  bytes.takeWhile fun byte => byte != 0

def comma : UInt8 := 44

variable {bytes : Bytes} {pattern text : Bytes} {wanted : UInt8} {front back : Bytes} {line : Bytes}
  {limit : ℕ}

theorem cString_of_notMem (noZero : (0 : UInt8) ∉ bytes) :
    cString bytes = bytes := by
  simp only [cString, takeWhile_eq_self_iff]
  intro byte member
  simp only [bne_iff_ne]
  rintro rfl
  exact noZero member

theorem cString_append_zero (noZero : (0 : UInt8) ∉ bytes) (rest : Bytes) :
    cString (bytes ++ 0 :: rest) = bytes := by
  have shown := cString_of_notMem noZero
  rw [cString] at shown ⊢
  rw [takeWhile_append, if_pos (by rw [shown])]
  simp

theorem zero_notMem_cString (bytes : Bytes) : (0 : UInt8) ∉ cString bytes := by
  intro member
  simpa using mem_takeWhile_imp member

/-! ### Searching -/

section Search

variable {α : Type u} {holds : List α → Bool} {text found : List α}

def firstSuffix (holds : List α → Bool) : List α → Option (List α)
  | [] => if holds [] then some [] else none
  | first :: rest => if holds (first :: rest) then some (first :: rest) else firstSuffix holds rest

/-- `found` is the longest rest of `text` with a property, hence the first one. -/
structure FirstSuffix (holds : List α → Bool) (text found : List α) : Prop where
  suffix : found <:+ text
  property : holds found
  first : ∀ rest, rest <:+ text → holds rest → rest <:+ found

theorem firstSuffix_eq_none_iff :
    firstSuffix holds text = none ↔ ∀ rest, rest <:+ text → holds rest = false := by
  induction text with
  | nil => simp [firstSuffix]
  | cons first rest ih =>
    cases here : holds (first :: rest) <;>
      simp [firstSuffix, here, ih, suffix_cons_iff]

theorem firstSuffix_eq_some_iff :
    firstSuffix holds text = some found ↔ FirstSuffix holds text found := by
  induction text with
  | nil =>
    constructor
    · intro searched
      simp only [firstSuffix, Option.ite_none_right_eq_some, Option.some.injEq] at searched
      rcases searched with ⟨property, rfl⟩
      exact ⟨suffix_rfl, property, fun _ suffix _ => suffix⟩
    · rintro ⟨suffix, property, _⟩
      rw [suffix_nil] at suffix
      subst suffix
      simp [firstSuffix, property]
  | cons first rest ih =>
    cases here : holds (first :: rest) with
    | true =>
      simp only [firstSuffix, here, if_true, Option.some.injEq]
      constructor
      · rintro rfl
        exact ⟨suffix_rfl, here, fun _ suffix _ => suffix⟩
      · intro searched
        exact (searched.first _ suffix_rfl here).eq_of_length_le searched.suffix.length_le
    | false =>
      simp only [firstSuffix, here, Bool.false_eq_true, if_false, ih]
      constructor
      · rintro ⟨suffix, property, longest⟩
        refine ⟨suffix.trans (suffix_cons _ _), property, fun other among holding => ?_⟩
        rcases suffix_cons_iff.mp among with rfl | among
        · simp [here] at holding
        · exact longest other among holding
      · rintro ⟨suffix, property, longest⟩
        refine ⟨?_, property, fun other among =>
          longest other (among.trans (suffix_cons _ _))⟩
        rcases suffix_cons_iff.mp suffix with rfl | inside
        · simp [here] at property
        · exact inside

theorem dropWhile_eq_iff {skips : α → Bool} :
    text.dropWhile skips = found ↔
      ∃ skipped, text = skipped ++ found ∧ (∀ item ∈ skipped, skips item) ∧
        ∀ item ∈ found.head?, ¬skips item := by
  constructor
  · rintro rfl
    refine ⟨text.takeWhile skips, takeWhile_append_dropWhile.symm,
      fun _ => mem_takeWhile_imp, fun item isHead => ?_⟩
    have kept := head?_dropWhile_not skips text
    simp only [Option.mem_def] at isHead
    simpa [isHead] using kept
  · rintro ⟨skipped, rfl, skipping, stop⟩
    rw [dropWhile_append_of_pos skipping]
    cases found with
    | nil => rfl
    | cons item rest => exact dropWhile_cons_of_neg (stop item rfl)

theorem rdropWhile_eq_iff {skips : α → Bool} :
    text.rdropWhile skips = found ↔
      ∃ skipped, text = found ++ skipped ∧ (∀ item ∈ skipped, skips item) ∧
        ∀ item ∈ found.getLast?, ¬skips item := by
  rw [List.rdropWhile, reverse_eq_iff, dropWhile_eq_iff]
  constructor
  · rintro ⟨skipped, split, skipping, stop⟩
    refine ⟨skipped.reverse, ?_, by simpa using skipping, by simpa using stop⟩
    simpa using congrArg List.reverse split
  · rintro ⟨skipped, rfl, skipping, stop⟩
    exact ⟨skipped.reverse, by simp, by simpa using skipping, by simpa using stop⟩

end Search

def strstr (pattern : Bytes) : Bytes → Option Bytes :=
  firstSuffix fun rest => pattern.isPrefixOf rest

theorem strstr_eq_none_iff :
    strstr pattern text = none ↔ ¬pattern <:+: text := by
  rw [strstr, firstSuffix_eq_none_iff, infix_iff_prefix_suffix]
  simp only [← Bool.not_eq_true, isPrefixOf_iff_prefix, not_exists, not_and]
  exact forall_congr' fun _ => imp_not_comm

theorem isSome_strstr_iff :
    (strstr pattern text).isSome = true ↔ pattern <:+: text := by
  rw [Option.isSome_iff_ne_none, Ne, strstr_eq_none_iff, not_not]

def toLower (byte : UInt8) : UInt8 :=
  if 65 ≤ byte ∧ byte ≤ 90 then byte + 32 else byte

/-- The loop that compares with `strncasecmp` at every position of a text. -/
def strcasestr (pattern : Bytes) : Bytes → Option Bytes :=
  firstSuffix fun rest => (pattern.map toLower).isPrefixOf (rest.map toLower)

def strchr (wanted : UInt8) : Bytes → Option Bytes
  | [] => none
  | byte :: rest => if byte = wanted then some (byte :: rest) else strchr wanted rest

theorem strchr_eq_none_iff {text : Bytes} :
    strchr wanted text = none ↔ wanted ∉ text := by
  induction text with
  | nil => simp [strchr]
  | cons byte rest ih =>
    by_cases here : byte = wanted
    · simp [strchr, here]
    · simp [strchr, here, ih, Ne.symm here]

theorem strchr_eq_some_iff {text found : Bytes} :
    strchr wanted text = some found ↔
      ∃ before after, text = before ++ wanted :: after ∧ wanted ∉ before ∧
        found = wanted :: after := by
  induction text with
  | nil => simp [strchr]
  | cons byte rest ih =>
    by_cases here : byte = wanted
    · subst here
      constructor
      · intro searched
        simp only [strchr, if_true, Option.some.injEq] at searched
        exact ⟨[], rest, by simp, by simp, searched.symm⟩
      · rintro ⟨before, after, split, notBefore, rfl⟩
        cases before with
        | nil => simpa [strchr] using split
        | cons other before =>
          rw [cons_append, List.cons.injEq] at split
          exact absurd (split.1 ▸ mem_cons_self) notBefore
    · simp only [strchr, if_neg here, ih]
      constructor
      · rintro ⟨before, after, rfl, notBefore, rfl⟩
        exact ⟨byte :: before, after, by simp, by simp [Ne.symm here, notBefore], rfl⟩
      · rintro ⟨before, after, split, notBefore, rfl⟩
        cases before with
        | nil => exact absurd (List.cons.inj split).1 here
        | cons other before =>
          rw [cons_append, List.cons.injEq] at split
          exact ⟨before, after, split.2, not_mem_of_not_mem_cons notBefore, rfl⟩

section Delimited

variable {α : Type u} [DecidableEq α] {mark : α} {before after key name left right : List α}

theorem append_cons_inj_of_first (noLeft : mark ∉ left) (noBefore : mark ∉ before)
    (same : left ++ mark :: right = before ++ mark :: after) : left = before ∧ right = after := by
  have index := congrArg (List.idxOf mark) same
  rw [idxOf_append_of_notMem noLeft, idxOf_append_of_notMem noBefore,
    idxOf_cons_self, idxOf_cons_self] at index
  rcases append_inj same index with ⟨rfl, later⟩
  exact ⟨rfl, (List.cons.inj later).2⟩

theorem delimited_infix_iff (noMark : mark ∉ before ++ (name ++ after)) :
    mark :: (key ++ [mark]) <:+: before ++ mark :: (name ++ mark :: after) ↔ key = name := by
  constructor
  · rintro ⟨left, right, split⟩
    have marks := congrArg (List.count mark) split
    rw [← count_eq_zero] at noMark
    simp only [count_append, count_cons_self, count_nil] at marks noMark
    have noLeft : mark ∉ left := count_eq_zero.mp (by omega)
    have noKey : mark ∉ key := count_eq_zero.mp (by omega)
    have noBefore : mark ∉ before := count_eq_zero.mp (by omega)
    have noName : mark ∉ name := count_eq_zero.mp (by omega)
    simp only [append_assoc, cons_append, nil_append] at split
    have behind := (append_cons_inj_of_first noLeft noBefore split).2
    exact (append_cons_inj_of_first noKey noName behind).1
  · rintro rfl
    exact ⟨before, after, by simp⟩

end Delimited

/-! ### Digits -/

def isDigit (byte : UInt8) : Bool :=
  48 ≤ byte && byte ≤ 57

def hexDigit (byte : UInt8) : Option UInt8 :=
  if 48 ≤ byte ∧ byte ≤ 57 then some (byte - 48)
  else if 97 ≤ byte ∧ byte ≤ 102 then some (byte - 87)
  else if 65 ≤ byte ∧ byte ≤ 70 then some (byte - 55)
  else none

def isSpace (byte : UInt8) : Bool :=
  byte = 32 || (9 ≤ byte && byte ≤ 13)

/-- `strtoul` in base sixteen on a text of two characters, as a byte. A space or a sign may stand
before a single digit, and what follows the digits is ignored. -/
def strtoulPair (first second : UInt8) : UInt8 :=
  match hexDigit first, hexDigit second with
  | some high, some low => 16 * high + low
  | some digit, none => digit
  | none, some digit =>
    if isSpace first || first = 43 then digit else if first = 45 then -digit else 0
  | none, none => 0

def hexPairs : Bytes → Bytes
  | first :: second :: rest => strtoulPair first second :: hexPairs rest
  | _ => []

/-! ### Lines of a stream -/

/-- What successive calls of `fgets` read when the current one has room for `room` bytes: a call
stops behind a newline or when its room is used up. -/
def readLinesFrom (limit : ℕ) : ℕ → Bytes → List Bytes
  | _, [] => []
  | room, byte :: rest =>
    if byte = 10 ∨ room ≤ 1 then [byte] :: readLinesFrom limit limit rest
    else
      match readLinesFrom limit (room - 1) rest with
      | [] => [[byte]]
      | line :: lines => (byte :: line) :: lines

/-- What successive calls of `fgets` read, each with room for `limit` bytes and the zero byte. -/
def readLines (limit : ℕ) (stream : Bytes) : List Bytes :=
  readLinesFrom limit limit stream

def fgets (limit : ℕ) (stream : Bytes) : Option Bytes :=
  (readLines limit stream).head?

def chomp (line : Bytes) : Bytes :=
  if line.getLast? = some 10 then line.dropLast else line

theorem readLinesFrom_ne_nil {limit room : ℕ} {byte : UInt8} (rest : Bytes) :
    readLinesFrom limit room (byte :: rest) ≠ [] := by
  rw [readLinesFrom]
  split_ifs
  · simp
  · split <;> simp

theorem readLinesFrom_append {limit room : ℕ} (complete : front.getLast? = some 10) :
    readLinesFrom limit room (front ++ back) =
      readLinesFrom limit room front ++ readLinesFrom limit limit back := by
  induction front generalizing room with
  | nil => simp at complete
  | cons byte rest ih =>
    cases rest with
    | nil =>
      have newline : byte = 10 := by simpa using complete
      simp [readLinesFrom, newline]
    | cons next rest =>
      have completeRest : (next :: rest).getLast? = some 10 := by
        simpa [getLast?_cons_cons] using complete
      rw [cons_append, readLinesFrom, readLinesFrom]
      split_ifs with ends
      · rw [ih completeRest, cons_append]
      · rw [ih completeRest]
        cases lines : readLinesFrom limit (room - 1) (next :: rest) with
        | nil => exact absurd lines (readLinesFrom_ne_nil _)
        | cons line lines => simp

theorem readLinesFrom_line {limit room : ℕ} (short : line.length < room)
    (noNewline : (10 : UInt8) ∉ line) :
    readLinesFrom limit room (line ++ [10]) = [line ++ [10]] := by
  induction line generalizing room with
  | nil => simp [readLinesFrom]
  | cons byte rest ih =>
    have other : byte ≠ 10 := by
      rintro rfl
      exact noNewline mem_cons_self
    have room_left : ¬room ≤ 1 := by
      simp only [length_cons] at short
      omega
    have shortRest : rest.length < room - 1 := by
      simp only [length_cons] at short
      omega
    simp [readLinesFrom, other, room_left, ih shortRest (not_mem_of_not_mem_cons noNewline)]

theorem newline_notMem_dropLast {stream line : Bytes} (member : line ∈ readLines limit stream) :
    (10 : UInt8) ∉ line.dropLast := by
  have lines {room : ℕ} : ∀ line ∈ readLinesFrom limit room stream,
      line ≠ [] ∧ (10 : UInt8) ∉ line.dropLast := by
    clear member
    induction stream generalizing room with
    | nil => simp [readLinesFrom]
    | cons byte rest ih =>
      rw [readLinesFrom]
      split_ifs with ends
      · rw [forall_mem_cons]
        exact ⟨by simp, ih⟩
      · have other : (10 : UInt8) ≠ byte := fun same => ends (.inl same.symm)
        have later := @ih (room - 1)
        split
        next => simp
        next first others lines =>
          rw [lines, forall_mem_cons] at later
          rw [forall_mem_cons, dropLast_cons_of_ne_nil later.1.1, mem_cons, not_or]
          exact ⟨⟨by simp, other, later.1.2⟩, later.2⟩
  exact (lines line member).2

def CompleteLines (stream : Bytes) : Prop :=
  stream = [] ∨ stream.getLast? = some 10

theorem completeLines_append (stream line : Bytes) : CompleteLines (stream ++ (line ++ [10])) := by
  right
  rw [← append_assoc, getLast?_concat]

theorem CompleteLines.append (first : CompleteLines front) (second : CompleteLines back) :
    CompleteLines (front ++ back) := by
  rcases second with rfl | last
  · rwa [append_nil]
  · right
    rw [getLast?_append, last, Option.some_or]

theorem readLines_append (complete : CompleteLines front) :
    readLines limit (front ++ back) = readLines limit front ++ readLines limit back := by
  rcases complete with rfl | complete
  · simp [readLines, readLinesFrom]
  · exact readLinesFrom_append complete

theorem readLines_line (short : line.length < limit) (noNewline : (10 : UInt8) ∉ line) :
    readLines limit (line ++ [10]) = [line ++ [10]] :=
  readLinesFrom_line short noNewline

def IsLine (limit : ℕ) (line : Bytes) : Prop :=
  ∃ body, line = body ++ [10] ∧ body.length < limit ∧ (10 : UInt8) ∉ body

theorem readLines_flatten {lines : List Bytes} (areLines : ∀ line ∈ lines, IsLine limit line) :
    readLines limit lines.flatten = lines := by
  induction lines with
  | nil => rfl
  | cons line lines ih =>
    rw [forall_mem_cons] at areLines
    rcases areLines with ⟨⟨body, rfl, short, noNewline⟩, areLines⟩
    have complete : CompleteLines (body ++ [10]) := completeLines_append [] body
    rw [flatten_cons, readLines_append complete, readLines_line short noNewline,
      ih areLines, singleton_append]

theorem chomp_line (line : Bytes) : chomp (line ++ [10]) = line := by
  simp [chomp]

theorem head?_readLinesFrom {limit room : ℕ} (positive : 0 < room)
    (noNewline : (10 : UInt8) ∉ line) :
    (readLinesFrom limit room (line ++ [10])).head? = some ((line ++ [10]).take room) := by
  induction line generalizing room with
  | nil =>
    have one : [(10 : UInt8)].take room = [10] := take_of_length_le positive
    simp [readLinesFrom, one]
  | cons byte rest ih =>
    have other : byte ≠ 10 := by
      rintro rfl
      exact noNewline mem_cons_self
    rw [cons_append, readLinesFrom]
    split_ifs with ends
    · have last : room = 1 := by
        rcases ends with newline | last
        · exact absurd newline other
        · omega
      simp [last]
    · have more : 0 < room - 1 := by
        rw [not_or] at ends
        omega
      have head := ih more (not_mem_of_not_mem_cons noNewline)
      cases lines : readLinesFrom limit (room - 1) (rest ++ [10]) with
      | nil => simp [lines] at head
      | cons line lines' =>
        simp only [lines, head?_cons, Option.some.injEq] at head
        subst head
        simp only [head?_cons, Option.some.injEq]
        rw [← take_succ_cons, Nat.sub_add_cancel (by omega)]

theorem fgets_line (positive : 0 < limit) (noNewline : (10 : UInt8) ∉ line) :
    fgets limit (line ++ [10]) = some ((line ++ [10]).take limit) :=
  head?_readLinesFrom positive noNewline

theorem chomp_take_line (noNewline : (10 : UInt8) ∉ line) :
    chomp ((line ++ [10]).take limit) = line.take limit := by
  by_cases short : line.length < limit
  · rw [take_of_length_le (by simpa using short), chomp_line, take_of_length_le short.le]
  · rw [take_append_of_le_length (by omega)]
    exact if_neg fun last => noNewline (mem_of_mem_take (mem_of_getLast? last))

end TigerMixer.Text
