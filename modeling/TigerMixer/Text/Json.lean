import TigerMixer.Text.Format

/-!
# JSON texts

A reader for JSON on byte strings. The bytes of characters outside of ASCII stand for themselves. A
text in which quotes and backslashes are escaped is read as the text itself, and not at all if it is
cut off.
-/

namespace TigerMixer.Json

open Bytes Text List

inductive Value where
  | null
  | bool (value : Bool)
  | number (text : Bytes)
  | string (text : Bytes)
  | array (items : List Value)
  | object (members : List (Bytes × Value))

/-! ### Strings -/

def escapes : List (UInt8 × UInt8) :=
  [(34, 34), (92, 92), (47, 47), (98, 8), (102, 12), (110, 10), (114, 13), (116, 9)]

def codeUnit (text : Bytes) : Option ℕ :=
  let digits := (text.take 4).filterMap hexDigit
  if digits.length = 4 then some (digits.foldl (fun code digit => code * 16 + digit.toNat) 0)
  else none

/-- A character in UTF-8, with a replacement for half of a surrogate pair. -/
def utf8 (code : ℕ) : Bytes :=
  String.utf8EncodeChar (Char.ofNat (if code.isValidChar then code else 0xFFFD))

/-- The character of a surrogate pair, of which the second half is still to be read. -/
def surrogatePair (high : ℕ) (rest : Bytes) : Option ℕ :=
  if [92, 117].isPrefixOf rest then
    (codeUnit (rest.drop 2)).bind fun low =>
      if high / 1024 = 54 ∧ low / 1024 = 55 then
        some (0x10000 + high % 1024 * 1024 + low % 1024)
      else none
  else none

/-- What an escape stands for, and the number of its bytes behind the backslash. -/
def readEscape : Bytes → Option (Bytes × ℕ)
  | [] => none
  | mark :: rest =>
    if mark = 117 then
      (codeUnit rest).map fun code =>
        match surrogatePair code (rest.drop 4) with
        | some character => (utf8 character, 11)
        | none => (utf8 code, 5)
    else (escapes.lookup mark).map fun byte => ([byte], 1)

/-- The rest of a string, of which some more bytes belong to the last escape. -/
def readStringFrom : ℕ → Bytes → Option (Bytes × Bytes)
  | _, [] => none
  | skip + 1, _ :: rest => readStringFrom skip rest
  | 0, byte :: rest =>
    if byte = 34 then some ([], rest)
    else if byte = 92 then
      match readEscape rest with
      | none => none
      | some (text, length) =>
        (readStringFrom length rest).map fun later => (text ++ later.1, later.2)
    else if byte < 32 then none
    else (readStringFrom 0 rest).map fun later => (byte :: later.1, later.2)

/-- The string behind an opening quote, and what follows the closing one. -/
def readString (text : Bytes) : Option (Bytes × Bytes) :=
  readStringFrom 0 text

/-- Quotes and backslashes with a backslash before them. -/
def escape (text : Bytes) : Bytes :=
  text.flatMap fun byte => if byte = 34 ∨ byte = 92 then [92, byte] else [byte]

/-! ### Values -/

def skipWhite (text : Bytes) : Bytes :=
  text.dropWhile ([32, 9, 10, 13].contains ·)

def skipDigits (text : Bytes) : Option Bytes :=
  if (text.takeWhile isDigit).isEmpty then none else some (text.dropWhile isDigit)

def skipWhole : Bytes → Option Bytes
  | 48 :: rest => some rest
  | text => skipDigits text

def skipFraction : Bytes → Option Bytes
  | 46 :: rest => skipDigits rest
  | text => some text

def skipExponent (text : Bytes) : Option Bytes :=
  if text.head? = some 101 ∨ text.head? = some 69 then skipDigits (Scanner.sign text.tail).2
  else some text

def readNumber (text : Bytes) : Option (Value × Bytes) := do
  let rest ← skipWhole (if text.head? = some 45 then text.tail else text)
  let rest ← skipExponent (← skipFraction rest)
  return (.number (text.take (text.length - rest.length)), rest)

def literals : List (Bytes × Value) :=
  [(ascii "null".toList, .null), (ascii "true".toList, .bool true),
    (ascii "false".toList, .bool false)]

def readLiteral (text : Bytes) : Option (Value × Bytes) :=
  match literals.find? fun literal => literal.1.isPrefixOf text with
  | some (name, value) => some (value, text.drop name.length)
  | none => readNumber text

section Reading

variable {α : Type} (read : Bytes → Option (α × Bytes))

/-- Items with commas between them, up to a mark that closes the list. -/
def readList (close : UInt8) : ℕ → Bytes → Option (List α × Bytes)
  | 0, _ => none
  | fuel + 1, text =>
    (read text).bind fun found =>
      match skipWhite found.2 with
      | [] => none
      | mark :: rest =>
        if mark = close then some ([found.1], rest)
        else if mark = 44 then
          (readList close fuel rest).map fun later => (found.1 :: later.1, later.2)
        else none

def readItems (close : UInt8) (fuel : ℕ) (text : Bytes) : Option (List α × Bytes) :=
  if (skipWhite text).head? = some close then some ([], (skipWhite text).tail)
  else readList read close fuel text

def readMember (text : Bytes) : Option ((Bytes × α) × Bytes) :=
  if (skipWhite text).head? = some 34 then
    (readString (skipWhite text).tail).bind fun key =>
      if (skipWhite key.2).head? = some 58 then
        (read (skipWhite key.2).tail).map fun found => ((key.1, found.1), found.2)
      else none
  else none

end Reading

/-- Values within values are read with less fuel. -/
def readValue : ℕ → Bytes → Option (Value × Bytes)
  | 0, _ => none
  | fuel + 1, text =>
    match skipWhite text with
    | [] => none
    | first :: rest =>
      if first = 34 then (readString rest).map fun found => (.string found.1, found.2)
      else if first = 123 then
        (readItems (readMember (readValue fuel)) 125 fuel rest).map fun found =>
          (.object found.1, found.2)
      else if first = 91 then
        (readItems (readValue fuel) 93 fuel rest).map fun found => (.array found.1, found.2)
      else readLiteral (first :: rest)

/-- The value of a text. No more can be read in a text than it is long. -/
def read (text : Bytes) : Option Value :=
  (readValue text.length text).bind fun found =>
    if skipWhite found.2 = [] then some found.1 else none

/-! ### What strings are read from -/

variable {text rest : Bytes}

theorem length_utf8_le (code : ℕ) : (utf8 code).length ≤ 4 := by
  rw [utf8, String.length_utf8EncodeChar]
  exact Char.utf8Size_le_four _

theorem codeUnit_spec {code : ℕ} (read : codeUnit text = some code) :
    4 ≤ text.length ∧ (44 : UInt8) ∉ text.take 4 := by
  rw [codeUnit] at read
  split_ifs at read with digits
  have short := length_take_le 4 text
  have all : ((text.take 4).filterMap hexDigit).length = (text.take 4).length :=
    le_antisymm (length_filterMap_le _ _) (by omega)
  refine ⟨by rw [length_take] at all; omega, fun member => ?_⟩
  rw [filterMap_length_eq_length] at all
  exact absurd (all 44 member) (by decide)

theorem surrogatePair_spec {high code : ℕ} (read : surrogatePair high text = some code) :
    6 ≤ text.length ∧ (44 : UInt8) ∉ text.take 6 := by
  rw [surrogatePair] at read
  split_ifs at read with marked
  rcases Option.bind_eq_some_iff.mp read with ⟨low, unit, _⟩
  rcases isPrefixOf_iff_prefix.mp marked with ⟨rest, rfl⟩
  rcases codeUnit_spec unit with ⟨long, noComma⟩
  simp only [length_append, length_cons, length_nil, drop_append] at long
  exact ⟨by simpa using long, by simpa using noComma⟩

theorem readEscape_spec {decoded : Bytes} {length : ℕ}
    (read : readEscape text = some (decoded, length)) :
    length ≤ text.length ∧ (44 : UInt8) ∉ text.take length ∧ decoded.length ≤ length := by
  cases text with
  | nil => cases read
  | cons mark rest =>
    rw [readEscape] at read
    split_ifs at read with unicode
    · subst unicode
      simp only [Option.map_eq_some_iff] at read
      rcases read with ⟨code, unit, found⟩
      rcases codeUnit_spec unit with ⟨long, noComma⟩
      split at found
      next character pair =>
        rcases surrogatePair_spec pair with ⟨longer, noCommaToo⟩
        rw [length_drop] at longer
        cases found
        have split : rest.take 10 = rest.take 4 ++ (rest.drop 4).take 6 :=
          @take_add _ rest 4 6
        refine ⟨by simp; omega, ?_, (length_utf8_le _).trans (by decide)⟩
        simp [take_succ_cons, split, noComma, noCommaToo]
      next =>
        cases found
        refine ⟨by simpa using long, by simpa using noComma, (length_utf8_le _).trans (by decide)⟩
    · simp only [Option.map_eq_some_iff, Prod.mk.injEq] at read
      rcases read with ⟨byte, found, rfl, rfl⟩
      refine ⟨by simp, ?_, by simp⟩
      rw [take_succ_cons, take_zero, mem_singleton]
      rintro rfl
      simp [escapes, lookup_cons] at found

/-- What a string is read from when the first bytes do not count. -/
structure ReadFrom (skip : ℕ) (raw decoded : Bytes) : Prop where
  skipped : skip ≤ raw.length
  length_le : decoded.length ≤ raw.length - skip
  shorter : 34 ∈ raw.drop skip ∨ 92 ∈ raw.drop skip → decoded.length < raw.length - skip
  comma : 44 ∈ raw.drop skip → 44 ∈ decoded

theorem readStringFrom_spec {skip : ℕ} {decoded : Bytes}
    (read : readStringFrom skip text = some (decoded, rest)) :
    ∃ raw, text = raw ++ 34 :: rest ∧ ReadFrom skip raw decoded := by
  induction text generalizing skip decoded with
  | nil => cases skip <;> cases read
  | cons byte text ih =>
    cases skip with
    | succ skip =>
      rcases ih read with ⟨raw, rfl, skipped, length_le, shorter, comma⟩
      refine ⟨byte :: raw, rfl, by simpa using skipped, by simpa using length_le, ?_, ?_⟩
      · simpa using shorter
      · simpa using comma
    | zero =>
      rw [readStringFrom] at read
      split_ifs at read with closes escaped control
      · cases read
        exact ⟨[], by simp [closes], by constructor <;> simp⟩
      · split at read
        next => cases read
        next before length found =>
          rcases readEscape_spec found with ⟨long, noComma, short⟩
          simp only [Option.map_eq_some_iff, Prod.mk.injEq] at read
          rcases read with ⟨⟨later, _⟩, readLater, rfl, rfl⟩
          rcases ih readLater with ⟨raw, rfl, skipped, length_le, _, comma⟩
          refine ⟨byte :: raw, rfl, Nat.zero_le _, ?_, ?_, ?_⟩
          · simp only [length_append, length_cons]
            omega
          · intro _
            simp only [length_append, length_cons]
            omega
          · intro among
            rw [take_append_of_le_length skipped] at noComma
            rw [drop_zero, mem_cons, ← take_append_drop length raw,
              mem_append] at among
            rcases among with same | among | among
            · exact absurd (same.trans escaped) (by decide)
            · exact absurd among noComma
            · exact mem_append_right _ (comma among)
      · simp only [Option.map_eq_some_iff, Prod.mk.injEq] at read
        rcases read with ⟨⟨later, _⟩, readLater, rfl, rfl⟩
        rcases ih readLater with ⟨raw, rfl, _, length_le, shorter, comma⟩
        refine ⟨byte :: raw, rfl, Nat.zero_le _, by simpa using length_le, ?_, ?_⟩
        · simpa [Ne.symm closes, Ne.symm escaped] using shorter
        · simpa using fun among => .imp_right comma among

/-! ### Escaped texts -/

theorem length_escape (text : Bytes) :
    (escape text).length = text.length + text.countP fun byte => byte = 34 ∨ byte = 92 := by
  induction text with
  | nil => rfl
  | cons byte text ih =>
    rw [escape, flatMap_cons, length_append, ← escape, ih, countP_cons]
    by_cases special : byte = 34 ∨ byte = 92
    · simp [special]
      omega
    · simp [special]
      omega

theorem escape_of_plain (plain : 34 ∉ text ∧ 92 ∉ text) : escape text = text := by
  rw [escape]
  conv_rhs => rw [← flatMap_singleton' text]
  refine flatMap_congr fun byte member => if_neg ?_
  rintro (rfl | rfl)
  · exact plain.1 member
  · exact plain.2 member

theorem readString_cons {byte : UInt8} (printable : 32 ≤ byte)
    (plain : ¬(byte = 34 ∨ byte = 92)) (rest : Bytes) :
    readString (byte :: rest) = (readString rest).map fun later => (byte :: later.1, later.2) := by
  rw [not_or] at plain
  simp [readString, readStringFrom, plain, UInt8.not_lt.mpr printable]

theorem readString_escaped {byte : UInt8} (special : byte = 34 ∨ byte = 92) (rest : Bytes) :
    readString (92 :: byte :: rest) =
      (readString rest).map fun later => (byte :: later.1, later.2) := by
  rcases special with rfl | rfl <;>
    simp [readString, readStringFrom, readEscape, escapes, lookup_cons]

theorem readString_take (printable : ∀ byte ∈ text, 32 ≤ byte) (length : ℕ) (rest : Bytes) :
    readString ((escape text ++ 34 :: rest).take length) =
      if length ≤ (escape text).length then none
      else some (text, rest.take (length - (escape text).length - 1)) := by
  induction text generalizing length with
  | nil =>
    cases length with
    | zero => rfl
    | succ length => simp [escape, readString, readStringFrom]
  | cons byte text ih =>
    rw [forall_mem_cons] at printable
    have unfolded : escape (byte :: text) =
        (if byte = 34 ∨ byte = 92 then [92, byte] else [byte]) ++ escape text := rfl
    by_cases special : byte = 34 ∨ byte = 92
    · rw [unfolded, if_pos special]
      rcases length with _ | _ | length
      · rfl
      · simp [readString, readStringFrom, readEscape]
      · simp only [cons_append, nil_append, take_succ_cons, length_cons,
          readString_escaped special, ih printable.2, Nat.add_le_add_iff_right,
          Nat.add_sub_add_right]
        split_ifs <;> rfl
    · rw [unfolded, if_neg special]
      rcases length with _ | length
      · rfl
      · simp only [cons_append, nil_append, take_succ_cons, length_cons,
          readString_cons printable.1 special, ih printable.2, Nat.add_le_add_iff_right,
          Nat.add_sub_add_right]
        split_ifs <;> rfl

theorem readString_escape (printable : ∀ byte ∈ text, 32 ≤ byte) (rest : Bytes) :
    readString (escape text ++ 34 :: rest) = some (text, rest) := by
  have whole := readString_take printable (escape text ++ 34 :: rest).length rest
  rw [take_length, if_neg (by simp)] at whole
  simpa using whole

/-! ### Members -/

section Members

variable {α : Type} {read : Bytes → Option (α × Bytes)} {close : UInt8} {fuel : ℕ} {item : α}
  {items : List α} {later behind : Bytes}

theorem readList_last (found : read text = some (item, later))
    (closed : skipWhite later = close :: rest) :
    readList read close (fuel + 1) text = some ([item], rest) := by
  simp [readList, found, closed]

theorem readList_more (found : read text = some (item, later))
    (comma : skipWhite later = 44 :: behind) (other : 44 ≠ close)
    (listed : readList read close fuel behind = some (items, rest)) :
    readList read close (fuel + 1) text = some (item :: items, rest) := by
  simp [readList, found, comma, other, listed]

theorem readList_eq_some
    (listed : readList read close fuel text = some (items, rest)) :
    ∃ item later others, read text = some (item, later) ∧ items = item :: others ∧
      (others = [] ∧ skipWhite later = close :: rest ∨
        ∃ fuel behind, skipWhite later = 44 :: behind ∧
          readList read close fuel behind = some (others, rest)) := by
  cases fuel with
  | zero => cases listed
  | succ fuel =>
    rw [readList] at listed
    rcases Option.bind_eq_some_iff.mp listed with ⟨⟨item, later⟩, found, goesOn⟩
    split at goesOn
    next => cases goesOn
    next mark behind white =>
      split_ifs at goesOn with closes comma
      · cases goesOn
        exact ⟨item, later, [], found, rfl, .inl ⟨rfl, by rw [white, closes]⟩⟩
      · rcases Option.map_eq_some_iff.mp goesOn with ⟨⟨others, _⟩, listedLater, same⟩
        cases same
        exact ⟨item, later, others, found, rfl,
          .inr ⟨fuel, behind, by rw [white, comma], listedLater⟩⟩

theorem readMember_string {key : Bytes} (printable : ∀ byte ∈ key, 32 ≤ byte)
    (plain : 34 ∉ key ∧ 92 ∉ key) (text : Bytes) :
    readMember (readValue (fuel + 1)) (34 :: (key ++ 34 :: 58 :: 34 :: text)) =
      (readString text).map fun found => ((key, .string found.1), found.2) := by
  have keyRead := readString_escape printable (58 :: 34 :: text)
  rw [escape_of_plain plain] at keyRead
  have white : skipWhite (34 :: (key ++ 34 :: 58 :: 34 :: text)) =
      34 :: (key ++ 34 :: 58 :: 34 :: text) := rfl
  have whiteToo : skipWhite (58 :: 34 :: text) = 58 :: 34 :: text := rfl
  have value : readValue (fuel + 1) (34 :: text) =
      (readString text).map fun found => (.string found.1, found.2) := rfl
  rw [readMember, white]
  simp [keyRead, whiteToo, value, Function.comp_def]

end Members

end TigerMixer.Json
