import TigerMixer.Text.Format

/-!
# Separated values

`strtok` takes a text apart at a mark, and parts without anything in them are not seen. A line that
joins fields with the mark is taken apart into the same fields, the newline with the last of them.
-/

namespace TigerMixer.Text

open Bytes List

def strtok (mark : UInt8) (text : Bytes) : List Bytes :=
  (text.splitOn mark).filter fun part => part ≠ []

/-- A text in small letters: `strcasecmp` returns zero for texts that are equal like this. -/
def lower (text : Bytes) : Bytes :=
  text.map toLower

def atoi (text : Bytes) : ℤ :=
  let signed := Scanner.sign (text.dropWhile isSpace)
  Scanner.toInt signed.1 (decimalValue (signed.2.takeWhile isDigit))

theorem toLower_toLower (byte : UInt8) : toLower (toLower byte) = toLower byte := by
  by_cases capital : 65 ≤ byte ∧ byte ≤ 90
  · have small : ¬(65 ≤ byte + 32 ∧ byte + 32 ≤ 90) := by
      simp only [UInt8.le_iff_toNat_le, UInt8.toNat_add, UInt8.reduceToNat] at capital ⊢
      omega
    have lowered : toLower byte = byte + 32 := if_pos capital
    rw [lowered, toLower, if_neg small]
  · have unchanged : toLower byte = byte := if_neg capital
    rw [unchanged, unchanged]

@[simp]
theorem lower_lower (text : Bytes) : lower (lower text) = lower text := by
  rw [lower, lower, map_map]
  exact map_congr_left fun byte _ => toLower_toLower byte

def separatedLine (mark : UInt8) (fields : List Bytes) : Bytes :=
  [mark].intercalate fields ++ [10]

@[mk_iff]
structure IsField (mark : UInt8) (text : Bytes) : Prop where
  nonempty : text ≠ []
  noMark : mark ∉ text
  noNewline : (10 : UInt8) ∉ text
  noZero : (0 : UInt8) ∉ text

instance (mark : UInt8) (text : Bytes) : Decidable (IsField mark text) :=
  decidable_of_iff _ (isField_iff mark text).symm

section Fields

variable {mark : UInt8} {front : List Bytes} {last : Bytes}

theorem intercalate_concat_append (front : List Bytes) (last text : Bytes) :
    [mark].intercalate (front ++ [last]) ++ text =
      [mark].intercalate (front ++ [last ++ text]) := by
  induction front with
  | nil => simp
  | cons field front ih =>
    cases front with
    | nil => simp [List.intercalate]
    | cons next front =>
      rw [cons_append, cons_append, intercalate_cons_cons, append_assoc,
        append_assoc, ← cons_append, ih]
      simp [intercalate_cons_cons]

theorem mem_intercalate {byte : UInt8} {fields : List Bytes}
    (member : byte ∈ [mark].intercalate fields) : byte = mark ∨ ∃ field ∈ fields, byte ∈ field := by
  induction fields with
  | nil => simp at member
  | cons field fields ih =>
    cases fields with
    | nil => exact .inr ⟨field, mem_cons_self, by simpa using member⟩
    | cons next fields =>
      rw [intercalate_cons_cons, mem_append, mem_append, mem_singleton] at member
      rcases member with (here | isMark) | later
      · exact .inr ⟨field, mem_cons_self, here⟩
      · exact .inl isMark
      · rcases ih later with isMark | ⟨found, among, inside⟩
        · exact .inl isMark
        · exact .inr ⟨found, mem_cons_of_mem _ among, inside⟩

theorem notMem_intercalate {byte : UInt8} {fields : List Bytes} (other : byte ≠ mark)
    (inside : ∀ field ∈ fields, byte ∉ field) : byte ∉ [mark].intercalate fields := by
  intro member
  rcases mem_intercalate member with isMark | ⟨field, among, here⟩
  · exact other isMark
  · exact inside field among here

theorem length_separatedLine (field : Bytes) (fields : List Bytes) :
    (separatedLine mark (field :: fields)).length =
      ((field :: fields).map fun field => field.length + 1).sum := by
  induction fields generalizing field with
  | nil => simp [separatedLine]
  | cons next fields ih =>
    have rest := ih next
    rw [separatedLine, length_append, length_singleton] at rest ⊢
    rw [intercalate_cons_cons, map_cons, sum_cons, ← rest, length_append,
      length_append, length_singleton]
    omega

theorem strtok_separatedLine (otherMark : mark ≠ 10)
    (isField : ∀ field ∈ front ++ [last], IsField mark field) :
    strtok mark (separatedLine mark (front ++ [last])) = front ++ [last ++ [10]] := by
  have inFront {field : Bytes} (member : field ∈ front) : IsField mark field :=
    isField field (mem_append_left _ member)
  have isLast : IsField mark last := isField last (by simp)
  have noMark : ∀ field ∈ front ++ [last ++ [10]], mark ∉ field := by
    intro field member
    rcases mem_append.mp member with member | member
    · exact (inFront member).noMark
    · rw [mem_singleton.mp member]
      simpa [otherMark] using isLast.noMark
  rw [strtok, separatedLine, intercalate_concat_append,
    splitOn_intercalate mark noMark (by simp), filter_eq_self]
  intro field member
  rcases mem_append.mp member with member | member
  · simpa using (inFront member).nonempty
  · rw [mem_singleton.mp member]
    simp

end Fields

end TigerMixer.Text
