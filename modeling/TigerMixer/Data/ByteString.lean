import Mathlib.Data.Nat.Digits.Lemmas

/-!
# Integers as byte strings

Fixed-width little-endian and big-endian codecs between naturals and lists of bytes. The big-endian
codec is the reversal of the little-endian one, so each law is proved once. `sizeBytes` is the
number of significant bytes, of which zero has none, and `usedDigits` that of digits of 64 bits, of
which zero has one.
-/

namespace TigerMixer

open List

abbrev Bytes := List UInt8

namespace Bytes

def ascii (text : List Char) : Bytes :=
  text.map fun character => UInt8.ofNat character.toNat

def readLe : Bytes → ℕ
  | [] => 0
  | byte :: rest => byte.toNat + 256 * readLe rest

/-- The low `width` bytes of a number, least significant first. -/
def writeLe : ℕ → ℕ → Bytes
  | 0, _ => []
  | width + 1, value => UInt8.ofNat value :: writeLe width (value / 256)

def readBe (bytes : Bytes) : ℕ :=
  readLe bytes.reverse

/-- The low `width` bytes of a number, most significant first. -/
def writeBe (width value : ℕ) : Bytes :=
  (writeLe width value).reverse

def ofLength (width : ℕ) : Finset Bytes :=
  (Finset.range (256 ^ width)).image (writeBe width)

def sizeBytes (value : ℕ) : ℕ :=
  (Nat.digits 256 value).length

def usedDigits (value : ℕ) : ℕ :=
  Nat.log2 value / 64 + 1

@[simp]
theorem length_writeLe (width value : ℕ) : (writeLe width value).length = width := by
  induction width generalizing value with
  | zero => rfl
  | succ width ih => simp [writeLe, ih]

@[simp]
theorem length_writeBe (width value : ℕ) : (writeBe width value).length = width := by
  simp [writeBe]

theorem readLe_lt (bytes : Bytes) : readLe bytes < 256 ^ bytes.length := by
  induction bytes with
  | nil => simp [readLe]
  | cons byte rest ih =>
    have byteBound := byte.toNat_lt
    simp only [readLe, length_cons, Nat.pow_succ]
    omega

theorem readBe_lt (bytes : Bytes) : readBe bytes < 256 ^ bytes.length := by
  simpa [readBe] using readLe_lt bytes.reverse

theorem readLe_writeLe (width value : ℕ) :
    readLe (writeLe width value) = value % 256 ^ width := by
  induction width generalizing value with
  | zero => simp [readLe, writeLe, Nat.mod_one]
  | succ width ih =>
    have split := Nat.mod_mul (x := value) (a := 256) (b := 256 ^ width)
    simp only [readLe, writeLe, ih, UInt8.toNat_ofNat', Nat.pow_succ']
    omega

variable {width value : ℕ} {bytes : Bytes} {value width : ℕ}

theorem readLe_writeLe_of_lt (fits : value < 256 ^ width) :
    readLe (writeLe width value) = value := by
  rw [readLe_writeLe, Nat.mod_eq_of_lt fits]

theorem writeLe_append (low high value : ℕ) :
    writeLe (low + high) value = writeLe low value ++ writeLe high (value / 256 ^ low) := by
  induction low generalizing value with
  | zero => simp [writeLe]
  | succ low ih =>
    rw [Nat.succ_add, writeLe, writeLe, ih, Nat.div_div_eq_div_mul, pow_succ', cons_append]

theorem writeLe_readLe (bytes : Bytes) : writeLe bytes.length (readLe bytes) = bytes := by
  induction bytes with
  | nil => rfl
  | cons byte rest ih =>
    have byteBound := byte.toNat_lt
    have quotient : (byte.toNat + 256 * readLe rest) / 256 = readLe rest := by omega
    have low : UInt8.ofNat (byte.toNat + 256 * readLe rest) = byte := by
      apply UInt8.toNat_inj.mp
      simp only [UInt8.toNat_ofNat']
      omega
    simp only [readLe, length_cons, writeLe, quotient, ih, low]

theorem readBe_writeBe_of_lt (fits : value < 256 ^ width) :
    readBe (writeBe width value) = value := by
  simp [readBe, writeBe, readLe_writeLe_of_lt fits]

theorem readBe_take_writeBe {high low value : ℕ} (fits : value < 256 ^ (high + low)) :
    readBe ((writeBe (high + low) value).take high) = value / 256 ^ low := by
  have split : writeBe (high + low) value =
      writeBe high (value / 256 ^ low) ++ writeBe low value := by
    rw [writeBe, Nat.add_comm, writeLe_append, reverse_append]
    rfl
  rw [split, take_left' (length_writeBe _ _), readBe_writeBe_of_lt]
  rw [Nat.div_lt_iff_lt_mul (by positivity), ← pow_add]
  exact fits

theorem writeBe_readBe (bytes : Bytes) : writeBe bytes.length (readBe bytes) = bytes := by
  have roundTrip := writeLe_readLe bytes.reverse
  rw [length_reverse] at roundTrip
  simp [readBe, writeBe, roundTrip]

theorem eq_of_flatMap_range_eq {left right : ℕ → Bytes} {count : ℕ}
    (lengths : ∀ index < count, (left index).length = (right index).length)
    (equal : (List.range count).flatMap left = (List.range count).flatMap right) :
    ∀ index < count, left index = right index := by
  induction count with
  | zero => simp
  | succ count ih =>
    rw [range_succ, flatMap_append, flatMap_append, flatMap_singleton, flatMap_singleton] at equal
    obtain ⟨earlier, last⟩ := append_inj' equal (lengths count (Nat.lt_succ_self count))
    intro index inside
    rcases Nat.lt_succ_iff_lt_or_eq.mp inside with before | rfl
    · exact ih (fun index before => lengths index (by omega)) earlier index
        before
    · exact last

theorem card_filter_ofLength (width : ℕ) (holds : Bytes → Prop) [DecidablePred holds] :
    ((ofLength width).filter holds).card =
      ((Finset.range (256 ^ width)).filter fun value => holds (writeBe width value)).card := by
  rw [ofLength, Finset.filter_image]
  apply Finset.card_image_of_injOn
  intro left leftMember right rightMember same
  have leftLt := Finset.mem_range.mp (Finset.mem_filter.mp leftMember).1
  have rightLt := Finset.mem_range.mp (Finset.mem_filter.mp rightMember).1
  rw [← readBe_writeBe_of_lt leftLt, same, readBe_writeBe_of_lt rightLt]

theorem sizeBytes_eq_zero_iff {value : ℕ} : sizeBytes value = 0 ↔ value = 0 := by
  simp [sizeBytes, Nat.digits_eq_nil_iff_eq_zero]

theorem sizeBytes_le_iff : sizeBytes value ≤ width ↔ value < 256 ^ width :=
  Nat.digits_length_le_iff (by norm_num) value

theorem lt_pow_sizeBytes (value : ℕ) : value < 256 ^ sizeBytes value :=
  sizeBytes_le_iff.mp le_rfl

theorem usedDigits_le_iff {digits : ℕ} (positive : 0 < digits) :
    usedDigits value ≤ digits ↔ value < 2 ^ (64 * digits) := by
  rcases Nat.eq_zero_or_pos value with rfl | nonzero
  · simp [usedDigits]
    omega
  · rw [← Nat.log2_lt nonzero.ne', usedDigits]
    omega

theorem lt_pow_usedDigits (value : ℕ) : value < 2 ^ (64 * usedDigits value) :=
  (usedDigits_le_iff (Nat.succ_pos _)).mp le_rfl

theorem writeLe_add (width extra value : ℕ) (fits : value < 256 ^ width) :
    writeLe (width + extra) value = writeLe width value ++ List.replicate extra 0 := by
  induction width generalizing value with
  | zero =>
    obtain rfl : value = 0 := by simpa using fits
    induction extra with
    | zero => rfl
    | succ extra ih =>
      simp only [writeLe, Nat.zero_add, nil_append] at ih ⊢
      simp [ih, replicate_succ]
  | succ width ih =>
    have quotientFits : value / 256 < 256 ^ width := by
      rw [Nat.pow_succ] at fits
      omega
    rw [show width + 1 + extra = (width + extra) + 1 by omega]
    simp [writeLe, ih _ quotientFits]

theorem writeBe_of_sizeBytes_le (fits : sizeBytes value ≤ width) :
    List.replicate (width - sizeBytes value) 0 ++ writeBe (sizeBytes value) value =
      writeBe width value := by
  have padded := writeLe_add (sizeBytes value) (width - sizeBytes value) value
    (lt_pow_sizeBytes value)
  rw [Nat.add_sub_cancel' fits] at padded
  simp [writeBe, padded]

end Bytes

end TigerMixer
