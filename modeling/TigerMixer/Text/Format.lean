import TigerMixer.Text.CString
import TigerMixer.Text.Parser

/-!
# Printing and scanning

The conversions of `printf` and `sscanf`. A scan is a parser that writes the values it stores: one
that fails halfway has stored the values before, and `sscanf` returns how many there are. What is
printed is scanned back, as long as a number is not followed by a further digit.
-/

namespace TigerMixer.Text

open Bytes List

/-! ### Printing -/

def printSize (value : ℕ) : Bytes :=
  if value = 0 then [48]
  else (Nat.digits 10 value).reverse.map fun digit => UInt8.ofNat (48 + digit)

def printInt : ℤ → Bytes
  | .ofNat value => printSize value
  | .negSucc value => 45 :: printSize (value + 1)

def hexChar (digit : ℕ) : UInt8 :=
  UInt8.ofNat (if digit < 10 then 48 + digit else 87 + digit)

/-- `%02x` on every byte. -/
def printHex (bytes : Bytes) : Bytes :=
  bytes.flatMap fun byte => [hexChar (byte.toNat / 16), hexChar (byte.toNat % 16)]

/-! ### Scanning -/

inductive Item where
  | text (bytes : Bytes)
  | size (value : ℕ)
  | int (value : ℤ)
  deriving DecidableEq, Repr

abbrev Scanner : Type := Parser Item Unit Unit

def decimalValue (digits : Bytes) : ℕ :=
  digits.foldl (fun value digit => 10 * value + (digit.toNat - 48)) 0

namespace Scanner

def literal (text : Bytes) : Scanner := fun input =>
  if text.isPrefixOf input then ⟨[], .ok ((), input.drop text.length)⟩ else ⟨[], .error ()⟩

def white : Scanner := fun input => ⟨[], .ok ((), input.dropWhile isSpace)⟩

/-- `%w[^c]`: at least one and at most `width` bytes other than `stop`. -/
def scanset (width : ℕ) (stop : UInt8) : Scanner := fun input =>
  let found := (input.takeWhile fun byte => byte != stop).take width
  if found = [] then ⟨[], .error ()⟩ else ⟨[.text found], .ok ((), input.drop found.length)⟩

def sign : Bytes → Bool × Bytes
  | 45 :: rest => (true, rest)
  | 43 :: rest => (false, rest)
  | rest => (false, rest)

def number (convert : Bool → ℕ → Item) : Scanner := fun input =>
  let signed := sign (input.dropWhile isSpace)
  let digits := signed.2.takeWhile isDigit
  if digits = [] then ⟨[], .error ()⟩
  else ⟨[convert signed.1 (decimalValue digits)], .ok ((), signed.2.drop digits.length)⟩

/-- `strtoul`, with the largest value where the number is too large. -/
def toSize (negative : Bool) (value : ℕ) : ℕ :=
  if 2 ^ 64 ≤ value then 2 ^ 64 - 1 else if negative then (2 ^ 64 - value) % 2 ^ 64 else value

/-- `strtol`, with the nearest value where the number is too large. -/
def toLong (negative : Bool) (value : ℕ) : ℤ :=
  if negative then max (-value) (-2 ^ 63) else min value (2 ^ 63 - 1)

def toInt (negative : Bool) (value : ℕ) : ℤ :=
  (toLong negative value + 2 ^ 31) % 2 ^ 32 - 2 ^ 31

def size : Scanner :=
  number fun negative value => .size (toSize negative value)

def long : Scanner :=
  number fun negative value => .int (toLong negative value)

def int : Scanner :=
  number fun negative value => .int (toInt negative value)

end Scanner

def sscanf (format : Scanner) (text : Bytes) : List Item :=
  (format (cString text)).writes

/-- `%2x` at the beginning of a text, as a byte, and zero where there is no number. White space
before it is skipped. -/
def scanHexPair (text : Bytes) : UInt8 :=
  match text.dropWhile isSpace with
  | [] => 0
  | first :: rest => strtoulPair first (rest.headD 0)

/-- The loop that scans `%2x` at every second character. -/
def scanHex : Bytes → Bytes
  | first :: second :: rest => scanHexPair (first :: second :: rest) :: scanHex rest
  | _ => []

/-! ### What is printed is scanned -/

section Decimal

variable {value : ℕ}

theorem isDigit_of_mem_printSize {byte : UInt8} (member : byte ∈ printSize value) :
    isDigit byte = true := by
  have digit : ∀ digit < 10, isDigit (UInt8.ofNat (48 + digit)) = true := by decide
  rw [printSize] at member
  split_ifs at member with zero
  · rw [mem_singleton.mp member]
    rfl
  · rcases mem_map.mp member with ⟨found, inDigits, rfl⟩
    exact digit found (Nat.digits_lt_base (by decide) (mem_reverse.mp inDigits))

theorem notMem_printSize {byte : UInt8} (other : isDigit byte = false) :
    byte ∉ printSize value := by
  intro member
  rw [isDigit_of_mem_printSize member] at other
  cases other

theorem notMem_printInt {byte : UInt8} (other : isDigit byte = false) (noSign : byte ≠ 45)
    (value : ℤ) : byte ∉ printInt value := by
  cases value with
  | ofNat value => exact notMem_printSize other
  | negSucc value =>
    rw [printInt, mem_cons, not_or]
    exact ⟨noSign, notMem_printSize other⟩

theorem printSize_ne_nil (value : ℕ) : printSize value ≠ [] := by
  rw [printSize]
  split_ifs with zero
  · simp
  · simpa [Nat.digits_eq_nil_iff_eq_zero] using zero

theorem decimalValue_printSize (value : ℕ) : decimalValue (printSize value) = value := by
  have toNat_digit : ∀ digit < 10, (UInt8.ofNat (48 + digit)).toNat - 48 = digit := by decide
  rw [printSize]
  split_ifs with zero
  · rw [zero]
    rfl
  · have folds : ∀ digits : List ℕ, (∀ digit ∈ digits, digit < 10) →
        (digits.map fun digit => UInt8.ofNat (48 + digit)).foldr
          (fun digit value => 10 * value + (digit.toNat - 48)) 0 = Nat.ofDigits 10 digits := by
      intro digits small
      induction digits with
      | nil => rfl
      | cons digit digits ih =>
        rw [forall_mem_cons] at small
        rw [map_cons, foldr_cons, ih small.2, toNat_digit digit small.1, Nat.ofDigits_cons]
        simp [Nat.add_comm]
    rw [decimalValue, map_reverse, foldl_reverse, folds _ fun digit member =>
      Nat.digits_lt_base (by decide) member, Nat.ofDigits_digits]

theorem length_printSize {width : ℕ} (positive : 0 < width) (bound : value < 10 ^ width) :
    (printSize value).length ≤ width := by
  rw [printSize]
  split_ifs with zero
  · exact positive
  · rw [length_map, length_reverse]
    exact (Nat.digits_length_le_iff (by decide) value).mpr bound

theorem length_printInt {width : ℕ} (positive : 0 < width) {value : ℤ}
    (bound : value.natAbs < 10 ^ width) : (printInt value).length ≤ width + 1 := by
  cases value with
  | ofNat value => exact (length_printSize positive bound).trans (Nat.le_succ width)
  | negSucc value => exact Nat.succ_le_succ (length_printSize positive bound)

end Decimal

section Hexadecimal

variable {bytes : Bytes}

theorem hexDigit_hexChar {digit : ℕ} (small : digit < 16) :
    hexDigit (hexChar digit) = some (UInt8.ofNat digit) := by
  revert digit
  decide

theorem strtoulPair_hexChar (byte : UInt8) :
    strtoulPair (hexChar (byte.toNat / 16)) (hexChar (byte.toNat % 16)) = byte := by
  have bound := byte.toNat_lt
  rw [strtoulPair, hexDigit_hexChar (by omega), hexDigit_hexChar (by omega)]
  apply UInt8.toNat_inj.mp
  simp only [UInt8.toNat_add, UInt8.toNat_mul, UInt8.toNat_ofNat']
  simp
  omega

theorem exists_of_mem_printHex {character : UInt8} (member : character ∈ printHex bytes) :
    ∃ digit < 16, character = hexChar digit := by
  rcases mem_flatMap.mp member with ⟨byte, -, pair⟩
  have bound := byte.toNat_lt
  simp only [mem_cons, not_mem_nil, or_false] at pair
  rcases pair with high | low
  · exact ⟨byte.toNat / 16, by omega, high⟩
  · exact ⟨byte.toNat % 16, by omega, low⟩

theorem notMem_printHex {character : UInt8} (other : hexDigit character = none) :
    character ∉ printHex bytes := by
  intro member
  rcases exists_of_mem_printHex member with ⟨digit, small, rfl⟩
  rw [hexDigit_hexChar small] at other
  cases other

theorem length_printHex (bytes : Bytes) : (printHex bytes).length = 2 * bytes.length := by
  induction bytes with
  | nil => rfl
  | cons byte bytes ih =>
    change (printHex bytes).length + 2 = _
    rw [ih, length_cons]
    omega

theorem hexPairs_printHex (bytes : Bytes) : hexPairs (printHex bytes) = bytes := by
  induction bytes with
  | nil => rfl
  | cons byte bytes ih =>
    change strtoulPair _ _ :: hexPairs (printHex bytes) = _
    rw [strtoulPair_hexChar, ih]

theorem scanHex_printHex (bytes : Bytes) : scanHex (printHex bytes) = bytes := by
  have noSpace : ∀ digit < 16, ¬isSpace (hexChar digit) = true := by decide
  induction bytes with
  | nil => rfl
  | cons byte bytes ih =>
    have bound := byte.toNat_lt
    change scanHexPair (hexChar (byte.toNat / 16) :: hexChar (byte.toNat % 16) ::
      printHex bytes) :: scanHex (printHex bytes) = _
    rw [scanHexPair, dropWhile_cons_of_neg (noSpace _ (by omega)), ih]
    change strtoulPair _ (hexChar (byte.toNat % 16)) :: bytes = _
    rw [strtoulPair_hexChar]

end Hexadecimal

theorem takeWhile_append_of_head {holds : UInt8 → Bool} {front back : Bytes}
    (all : ∀ byte ∈ front, holds byte = true) (ends : ∀ byte ∈ back.head?, ¬holds byte = true) :
    (front ++ back).takeWhile holds = front := by
  have stop : back.takeWhile holds = [] := by
    cases back with
    | nil => rfl
    | cons byte back => exact takeWhile_cons_of_neg (ends byte rfl)
  rw [takeWhile_append_of_pos all, stop, append_nil]

namespace Scanner

variable {rest : Bytes}

theorem reads_literal (text rest : Bytes) : (literal text).Reads text rest () [] := by
  simp [Parser.Reads, literal]

theorem reads_white {text : Bytes} (spaces : ∀ byte ∈ text, isSpace byte = true)
    (ends : ∀ byte ∈ rest.head?, ¬isSpace byte = true) : white.Reads text rest () [] := by
  have found : (text ++ rest).dropWhile isSpace = rest :=
    dropWhile_eq_iff.mpr ⟨text, rfl, spaces, ends⟩
  rw [Parser.Reads, white, found]

variable {width : ℕ} {stop : UInt8} {writes : List Item} {text input : Bytes} {value : ℤ}

theorem reads_scanset {text : Bytes} (nonempty : text ≠ []) (inside : stop ∉ text)
    (short : text.length ≤ width) (ends : rest.head? = some stop) :
    (scanset width stop).Reads text rest () [.text text] := by
  have all : ∀ byte ∈ text, (byte != stop) = true := by
    intro byte member
    rw [bne_iff_ne]
    rintro rfl
    exact inside member
  have found : (text ++ rest).takeWhile (fun byte => byte != stop) = text := by
    apply takeWhile_append_of_head all
    intro byte isHead
    rw [ends] at isHead
    simp [← Option.some.inj isHead]
  simp only [Parser.Reads, scanset, found, take_of_length_le short, if_neg nonempty, drop_left]

theorem scanset_of_head (ends : rest.head? = some stop) :
    scanset width stop rest = ⟨[], .error ()⟩ := by
  cases rest with
  | nil => simp at ends
  | cons byte rest =>
    obtain rfl : byte = stop := by simpa using ends
    simp [scanset]

theorem scanset_result {input : Bytes}
    (scanned : scanset width stop input = ⟨writes, .ok ((), rest)⟩) :
    ∃ found, input = found ++ rest ∧ stop ∉ found ∧ found ≠ [] ∧ found.length ≤ width ∧
      writes = [.text found] := by
  rw [scanset] at scanned
  split_ifs at scanned with empty
  · simp at scanned
  · simp only [Parsed.mk.injEq, Except.ok.injEq, Prod.mk.injEq, true_and] at scanned
    refine ⟨(input.takeWhile fun byte => byte != stop).take width, ?_, ?_, empty,
      length_take_le _ _, scanned.1.symm⟩
    · have leads : (input.takeWhile fun byte => byte != stop).take width <+: input :=
        (List.take_prefix _ _).trans (List.takeWhile_prefix _)
      rw [← scanned.2, prefix_iff_eq_append.mp leads]
    · intro member
      simpa using mem_takeWhile_imp (mem_of_mem_take member)

theorem literal_of_not_isPrefixOf (other : text.isPrefixOf input = false) :
    literal text input = ⟨[], .error ()⟩ := by
  rw [literal, if_neg (by simp [other])]

theorem scanset_stop {input : Bytes} (stopped : scanset width stop input = ⟨writes, .error ()⟩) :
    writes = [] := by
  rw [scanset] at stopped
  split_ifs at stopped
  · exact (Parsed.mk.inj stopped).1.symm
  · simp at stopped

theorem literal_stop (stopped : literal text input = ⟨writes, .error ()⟩) : writes = [] := by
  rw [literal] at stopped
  split_ifs at stopped
  · simp at stopped
  · exact (Parsed.mk.inj stopped).1.symm

theorem literal_result (scanned : literal text input = ⟨writes, .ok ((), rest)⟩) :
    input = text ++ rest ∧ writes = [] := by
  rw [literal] at scanned
  split_ifs at scanned with leads
  · simp only [Parsed.mk.injEq, Except.ok.injEq, Prod.mk.injEq, true_and] at scanned
    rw [← scanned.2]
    refine ⟨?_, scanned.1.symm⟩
    exact (prefix_iff_eq_append.mp (by simpa using leads)).symm
  · simp at scanned

section Number

variable {convert : Bool → ℕ → Item} {value : ℕ}

theorem not_isSpace_of_isDigit {byte : UInt8} (digit : isDigit byte = true) :
    ¬isSpace byte = true := by
  simp only [isDigit, isSpace, Bool.and_eq_true, Bool.or_eq_true, decide_eq_true_eq] at digit ⊢
  rw [UInt8.le_iff_toNat_le, UInt8.le_iff_toNat_le] at digit
  rw [UInt8.le_iff_toNat_le, UInt8.le_iff_toNat_le, ← UInt8.toNat_inj]
  simp at digit ⊢
  omega

theorem head_printSize (value : ℕ) :
    ∃ digit digits, printSize value = digit :: digits ∧ isDigit digit = true := by
  cases printed : printSize value with
  | nil => exact absurd printed (printSize_ne_nil value)
  | cons digit digits =>
    refine ⟨digit, digits, rfl, @isDigit_of_mem_printSize value digit ?_⟩
    rw [printed]
    exact mem_cons_self

theorem sign_of_isDigit {digit : UInt8} {digits : Bytes} (isDigit : isDigit digit = true) :
    sign (digit :: digits) = (false, digit :: digits) := by
  rw [sign]
  · intro rest same
    rw [(List.cons.inj same).1] at isDigit
    exact absurd isDigit (by decide)
  · intro rest same
    rw [(List.cons.inj same).1] at isDigit
    exact absurd isDigit (by decide)

theorem reads_number {negative : Bool} {mark : Bytes}
    (signed : sign (mark ++ (printSize value ++ rest)) = (negative, printSize value ++ rest))
    (starts : (mark ++ (printSize value ++ rest)).dropWhile isSpace =
      mark ++ (printSize value ++ rest)) (ends : ∀ byte ∈ rest.head?, ¬isDigit byte = true) :
    (number convert).Reads (mark ++ printSize value) rest () [convert negative value] := by
  have found : (printSize value ++ rest).takeWhile isDigit = printSize value :=
    takeWhile_append_of_head (fun _ => isDigit_of_mem_printSize) ends
  rw [Parser.Reads, append_assoc]
  simp only [number, starts, signed, found, if_neg (printSize_ne_nil value),
    decimalValue_printSize, drop_left]

theorem reads_unsigned (ends : ∀ byte ∈ rest.head?, ¬isDigit byte = true) :
    (number convert).Reads (printSize value) rest () [convert false value] := by
  rcases head_printSize value with ⟨digit, digits, printed, isDigit⟩
  apply @reads_number rest convert value false [] _ _ ends
  · rw [nil_append, printed]
    exact sign_of_isDigit isDigit
  · rw [nil_append, printed]
    exact dropWhile_cons_of_neg (not_isSpace_of_isDigit isDigit)

theorem reads_negative (ends : ∀ byte ∈ rest.head?, ¬isDigit byte = true) :
    (number convert).Reads (45 :: printSize value) rest () [convert true value] :=
  @reads_number rest convert value true [45] rfl rfl ends

end Number

theorem reads_size {value : ℕ} (bound : value < 2 ^ 64)
    (ends : ∀ byte ∈ rest.head?, ¬isDigit byte = true) :
    size.Reads (printSize value) rest () [.size value] := by
  have same : toSize false value = value := by
    rw [toSize, if_neg (by omega), if_neg Bool.false_ne_true]
  have read := @reads_unsigned rest (fun negative value => .size (toSize negative value)) value ends
  rwa [same] at read

theorem reads_printInt {convert : Bool → ℕ → ℤ} (same : convert (value < 0) value.natAbs = value)
    (ends : ∀ byte ∈ rest.head?, ¬isDigit byte = true) :
    (number fun negative value => .int (convert negative value)).Reads (printInt value) rest ()
      [.int value] := by
  cases value with
  | ofNat value =>
    have read := @reads_unsigned rest (fun negative value => .int (convert negative value)) value
      ends
    have positive : decide (Int.ofNat value < 0) = false := by simp
    rw [positive] at same
    change convert false value = _ at same
    rwa [same] at read
  | negSucc value =>
    have read := @reads_negative rest (fun negative value => .int (convert negative value))
      (value + 1) ends
    have negative : decide (Int.negSucc value < 0) = true := by simp
    rw [negative, Int.natAbs_negSucc] at same
    rwa [same] at read

theorem toLong_eq (lower : -2 ^ 63 ≤ value) (upper : value < 2 ^ 63) :
    toLong (value < 0) value.natAbs = value := by
  rw [toLong]
  split_ifs with negative
  · have below : value < 0 := by simpa using negative
    omega
  · have above : ¬value < 0 := by simpa using negative
    omega

theorem reads_long (lower : -2 ^ 63 ≤ value) (upper : value < 2 ^ 63)
    (ends : ∀ byte ∈ rest.head?, ¬isDigit byte = true) :
    long.Reads (printInt value) rest () [.int value] :=
  reads_printInt (toLong_eq lower upper) ends

theorem reads_int (lower : -2 ^ 31 ≤ value) (upper : value < 2 ^ 31)
    (ends : ∀ byte ∈ rest.head?, ¬isDigit byte = true) :
    int.Reads (printInt value) rest () [.int value] := by
  apply reads_printInt _ ends
  rw [toInt, toLong_eq (by omega) (by omega)]
  omega

end Scanner

end TigerMixer.Text
