import TigerMixer.Text.Format

/-!
# Reading the output of the detector

`parse_suspicious_addresses_json` moves one pointer through a text that ends with a zero. Both main
loops skip white space and then take one more byte, so the parser leaves the text exactly if it
comes to the head of such a loop with nothing but white space before the zero.
-/

namespace TigerMixer.Detection.DetectorOutput

open Bytes Text List

inductive Fault where
  | beyond
  | entry
  | field
  deriving DecidableEq

structure Suspicious (S : Type) where
  address : Bytes
  txHash : Bytes
  timestamp : ℤ
  anomalyScore : S
  clusterId : ℤ

structure Strtod (S : Type) where
  value : Bytes → S
  rest : Bytes → Bytes
  within : ∀ text, (rest text).length ≤ text.length

/-! ### The parser -/

def quoted (rest : Bytes) : Bytes × Bytes :=
  (rest.takeWhile (· ≠ 34), (rest.dropWhile (· ≠ 34)).tail)

def copyTo (size : ℕ) (value old : Bytes) : Except Fault Bytes :=
  if value.length < size then
    if value.length + 1 ≤ size then .ok value else .error .field
  else .ok old

def skipNested : ℕ → Bytes → Bytes
  | _, [] => []
  | 0, rest => rest
  | depth + 1, byte :: rest =>
    if byte = 123 then skipNested (depth + 2) rest
    else if byte = 125 then skipNested depth rest
    else skipNested (depth + 1) rest

section Parser

variable {S : Type}

/-- The value behind the name of a field, of which a beginning is as good as the whole name. -/
def parseValue (strtod : Strtod S) (item : Suspicious S) (name rest : Bytes) :
    Except Fault (Suspicious S × Bytes) :=
  let named (field : String) := name.isPrefixOf (ascii field.toList)
  let (value, behind) := quoted rest.tail
  if named "address" ∧ rest.head? = some 34 then
    (copyTo 43 value item.address).map fun address => ({ item with address }, behind)
  else if named "tx_hash" ∧ rest.head? = some 34 then
    (copyTo 67 value item.txHash).map fun txHash => ({ item with txHash }, behind)
  else if named "timestamp" then
    .ok ({ item with timestamp := Int.bmod (decimalValue (rest.takeWhile isDigit)) (2 ^ 64) },
      rest.dropWhile isDigit)
  else if named "anomaly_score" then
    .ok ({ item with anomalyScore := strtod.value rest }, strtod.rest rest)
  else if named "cluster_id" then
    let digits := if rest.head? = some 45 then rest.tail else rest
    let sign : ℤ := if rest.head? = some 45 then -1 else 1
    .ok ({ item with
        clusterId := Int.bmod (sign * decimalValue (digits.takeWhile isDigit)) (2 ^ 32) },
      digits.dropWhile isDigit)
  else if rest.head? = some 34 then .ok (item, behind)
  else if rest.head? = some 123 then .ok (item, skipNested 1 rest.tail)
  else .ok (item, rest.dropWhile fun byte => byte ≠ 44 ∧ byte ≠ 125)

/-- The variables at the head of a loop: the outer one, or the one for the fields of an object. -/
structure Head (S : Type) where
  inside : Bool
  rest : Bytes
  count : ℕ
  list : ℕ → Suspicious S

def Head.skips (inside : Bool) (byte : UInt8) : Bool :=
  byte = 32 || byte = 10 || byte = 13 || byte = 9 || !inside && byte = 44

variable (strtod : Strtod S) (maxCount : ℤ)

def writeEntry (head : Head S) (item : Suspicious S) (rest : Bytes) : Except Fault (Head S) :=
  if head.count < maxCount then
    .ok ⟨true, rest, head.count, Function.update head.list head.count item⟩
  else .error .entry

def Head.close (head : Head S) (rest : Bytes) : Head S := ⟨false, rest, head.count + 1, head.list⟩

def parseField (head : Head S) (rest : Bytes) : Except Fault (Head S) :=
  if 34 ∈ rest then do
    let (item, rest) ← parseValue strtod (head.list head.count) (quoted rest).1
      ((quoted rest).2.dropWhile fun byte => byte = 32 ∨ byte = 58)
    writeEntry maxCount head item (rest.dropWhile fun byte => byte = 32 ∨ byte = 44)
  else .ok ⟨false, [], head.count, head.list⟩

/-- The body of a loop, which goes on at the head of a loop or returns. -/
def Head.step [Zero S] (head : Head S) : Except Fault (Head S ⊕ ℕ × (ℕ → Suspicious S)) :=
  if head.inside then
    match head.rest with
    | [] => .ok (.inl { head with inside := false })
    | 125 :: rest => .ok (.inl (head.close rest))
    | rest =>
      match rest.dropWhile (skips true) with
      | [] => .error .beyond
      | 125 :: rest => .ok (.inl (head.close rest))
      | 34 :: rest => (parseField strtod maxCount head rest).map .inl
      | _ :: rest =>
        .ok (.inl { head with rest := rest.dropWhile fun byte => byte = 32 ∨ byte = 44 })
  else if head.rest ≠ [] ∧ head.count < maxCount then
    match head.rest.dropWhile (skips false) with
    | [] => .error .beyond
    | 93 :: _ => .ok (.inr (head.count, head.list))
    | 123 :: rest => (writeEntry maxCount head ⟨[], [], 0, 0, 0⟩ rest).map .inl
    | _ :: rest => .ok (.inl { head with rest })
  else .ok (.inr (head.count, head.list))

def Head.run [Zero S] : ℕ → Head S → Option (Except Fault (ℕ × (ℕ → Suspicious S)))
  | 0, _ => none
  | fuel + 1, head =>
    match head.step strtod maxCount with
    | .error fault => some (.error fault)
    | .ok (.inr result) => some (.ok result)
    | .ok (.inl next) => next.run fuel

def begins (text : Bytes) (list : ℕ → Suspicious S) : Option (Head S) :=
  ((strstr (ascii "\"suspicious_addresses\"".toList) text).bind (strchr 91)).map fun found =>
    ⟨false, found.tail, 0, list⟩

def parse [Zero S] (fuel : ℕ) (text : Bytes) (list : ℕ → Suspicious S) :
    Option (Except Fault (ℕ × (ℕ → Suspicious S))) :=
  match begins text list with
  | none => some (.ok (0, list))
  | some head => head.run strtod maxCount fuel

/-! ### One step -/

def Head.Stuck (head : Head S) : Prop :=
  head.rest ≠ [] ∧ (∀ byte ∈ head.rest, skips head.inside byte = true) ∧
    (head.inside = false → head.count < maxCount)

/-- An object is only parsed if there is room for it, and nothing behind the room is changed. -/
structure Head.Keeps (list : ℕ → Suspicious S) (head : Head S) : Prop where
  room : head.inside = true → head.count < maxCount
  frame : ∀ index : ℕ, maxCount ≤ index → head.list index = list index

def Head.size (head : Head S) : ℕ := 2 * head.rest.length + head.inside.toNat

variable {strtod maxCount}

theorem length_dropWhile_le (holds : UInt8 → Bool) (rest : Bytes) :
    (rest.dropWhile holds).length ≤ rest.length :=
  (dropWhile_suffix holds).length_le

theorem length_quoted_le (rest : Bytes) : (quoted rest).2.length ≤ rest.length := by
  have := length_dropWhile_le (· ≠ 34) rest
  simp only [quoted, length_tail]
  omega

theorem exists_copyTo (size : ℕ) (value old : Bytes) :
    ∃ copy, copyTo size value old = .ok copy := by
  unfold copyTo
  split_ifs with small inside
  · exact ⟨value, rfl⟩
  · exact absurd small inside
  · exact ⟨old, rfl⟩

theorem length_skipNested_le (depth : ℕ) (rest : Bytes) :
    (skipNested depth rest).length ≤ rest.length := by
  induction rest generalizing depth with
  | nil => simp [skipNested]
  | cons byte rest ih =>
    cases depth with
    | zero => simp [skipNested]
    | succ depth =>
      rw [skipNested]
      split_ifs <;> exact (ih _).trans (Nat.le_succ _)

theorem exists_parseValue (strtod : Strtod S) (item : Suspicious S) (name rest : Bytes) :
    ∃ next behind, parseValue strtod item name rest = .ok (next, behind) ∧
      behind.length ≤ rest.length := by
  have tail : rest.tail.length ≤ rest.length := by simp
  have value := (length_quoted_le rest.tail).trans tail
  unfold parseValue
  simp only
  split_ifs
  · rcases exists_copyTo 43 (quoted rest.tail).1 item.address with ⟨copy, copied⟩
    exact ⟨_, _, by rw [copied]; rfl, value⟩
  · rcases exists_copyTo 67 (quoted rest.tail).1 item.txHash with ⟨copy, copied⟩
    exact ⟨_, _, by rw [copied]; rfl, value⟩
  · exact ⟨_, _, rfl, length_dropWhile_le ..⟩
  · exact ⟨_, _, rfl, strtod.within rest⟩
  · exact ⟨_, _, rfl, (length_dropWhile_le ..).trans tail⟩
  · exact ⟨_, _, rfl, length_dropWhile_le ..⟩
  · exact ⟨_, _, rfl, value⟩
  · exact ⟨_, _, rfl, (length_skipNested_le ..).trans tail⟩
  · exact ⟨_, _, rfl, length_dropWhile_le ..⟩

variable {list : ℕ → Suspicious S} {head : Head S}

theorem exists_writeEntry (room : head.count < maxCount) (keeps : head.Keeps maxCount list)
    (item : Suspicious S) (rest : Bytes) :
    ∃ next, writeEntry maxCount head item rest = .ok next ∧ next.rest = rest ∧
      next.inside = true ∧ next.Keeps maxCount list := by
  refine ⟨_, if_pos room, rfl, rfl, fun _ => room, fun index outside => ?_⟩
  rw [← keeps.frame index outside]
  exact Function.update_of_ne (by rintro rfl; omega) ..

theorem exists_parseField (room : head.count < maxCount) (keeps : head.Keeps maxCount list)
    (strtod : Strtod S) (rest : Bytes) :
    ∃ next, parseField strtod maxCount head rest = .ok next ∧ next.rest.length ≤ rest.length ∧
      next.Keeps maxCount list := by
  unfold parseField
  split_ifs
  · rcases exists_parseValue strtod (head.list head.count) (quoted rest).1
      ((quoted rest).2.dropWhile fun byte => byte = 32 ∨ byte = 58) with
      ⟨item, behind, parsed, shorter⟩
    rcases exists_writeEntry room keeps item
      (behind.dropWhile fun byte => byte = 32 ∨ byte = 44) with ⟨next, written, same, -, kept⟩
    refine ⟨next, by rw [parsed]; exact written, ?_, kept⟩
    calc next.rest.length ≤ behind.length := same ▸ length_dropWhile_le ..
      _ ≤ (quoted rest).2.length := shorter.trans (length_dropWhile_le ..)
      _ ≤ rest.length := length_quoted_le rest
  · exact ⟨_, rfl, Nat.zero_le _, nofun, keeps.frame⟩

theorem size_of_begins {text : Bytes} (found : begins text list = some head) :
    head.size ≤ 2 * text.length := by
  simp only [begins, Option.map_eq_some_iff, Option.bind_eq_some_iff] at found
  rcases found with ⟨array, ⟨key, isKey, isArray⟩, rfl⟩
  have suffix := (firstSuffix_eq_some_iff.1 isKey).suffix.length_le
  rcases strchr_eq_some_iff.1 isArray with ⟨before, after, rfl, -, rfl⟩
  simp only [length_append, length_cons] at suffix
  simp only [Head.size, tail_cons, Bool.toNat_false]
  omega

theorem keeps_of_begins {text : Bytes} (found : begins text list = some head) :
    head.Keeps maxCount list := by
  rcases Option.map_eq_some_iff.1 found with ⟨array, -, rfl⟩
  exact ⟨nofun, fun _ _ => rfl⟩

variable [Zero S]

theorem Head.step_of_stuck (strtod : Strtod S) (stuck : head.Stuck maxCount) :
    head.step strtod maxCount = .error .beyond := by
  rcases head with ⟨inside, rest, count, list⟩
  rcases stuck with ⟨nonempty, spaces, room⟩
  have skipped : rest.dropWhile (skips inside) = [] := dropWhile_eq_nil_iff.2 spaces
  cases inside with
  | true =>
    simp only [Head.step, if_true]
    split
    · exact absurd rfl nonempty
    · exact absurd (spaces 125 mem_cons_self) (by simp [skips])
    · rw [skipped]
  | false => simp [Head.step, nonempty, room rfl, skipped]

theorem Head.step_of_not_stuck (keeps : head.Keeps maxCount list) (strtod : Strtod S)
    (free : ¬head.Stuck maxCount) :
    (∃ next, head.step strtod maxCount = .ok (.inl next) ∧ next.size < head.size ∧
      next.Keeps maxCount list) ∨
    ∃ count entries, head.step strtod maxCount = .ok (.inr (count, entries)) ∧
      ∀ index : ℕ, maxCount ≤ index → entries index = list index := by
  rcases head with ⟨inside, rest, count, entries⟩
  have shorter := length_dropWhile_le (skips inside) rest
  cases inside with
  | true =>
    left
    have room := keeps.room rfl
    have closes (behind : Bytes) (less : behind.length < rest.length) :
        (Head.close ⟨true, rest, count, entries⟩ behind).size <
            (Head.mk true rest count entries).size ∧
          (Head.close ⟨true, rest, count, entries⟩ behind).Keeps maxCount list := by
      refine ⟨?_, nofun, keeps.frame⟩
      simp only [Head.size, Head.close, Bool.toNat_false, Bool.toNat_true]
      omega
    simp only [Head.step, if_true]
    split
    · exact ⟨_, rfl, by simp [Head.size], nofun, keeps.frame⟩
    · exact ⟨_, rfl, closes _ (by simp)⟩
    case _ nonempty _ =>
      split
      case _ skipped => exact absurd ⟨nonempty, dropWhile_eq_nil_iff.1 skipped, nofun⟩ free
      case _ behind found =>
        rw [found, length_cons] at shorter
        exact ⟨_, rfl, closes _ shorter⟩
      case _ behind found =>
        rw [found, length_cons] at shorter
        rcases exists_parseField room keeps strtod behind with ⟨next, parsed, less, kept⟩
        refine ⟨next, by rw [parsed]; rfl, ?_, kept⟩
        have := next.inside.toNat_le
        simp only [Head.size, Bool.toNat_true]
        omega
      case _ byte behind _ _ found =>
        rw [found, length_cons] at shorter
        have := length_dropWhile_le (fun byte => byte = 32 ∨ byte = 44) behind
        refine ⟨_, rfl, ?_, keeps.room, keeps.frame⟩
        simp only [Head.size]
        omega
  | false =>
    by_cases more : rest ≠ [] ∧ count < maxCount
    · simp only [Head.step, Bool.false_eq_true, if_false, if_pos more]
      split
      case _ skipped =>
        exact absurd ⟨more.1, dropWhile_eq_nil_iff.1 skipped, fun _ => more.2⟩ free
      · exact .inr ⟨count, entries, rfl, keeps.frame⟩
      case _ behind found =>
        rw [found, length_cons] at shorter
        rcases exists_writeEntry more.2 keeps ⟨[], [], 0, 0, 0⟩ behind with
          ⟨next, written, same, inside, kept⟩
        refine .inl ⟨next, by rw [written]; rfl, ?_, kept⟩
        simp only [Head.size, same, inside, Bool.toNat_true]
        omega
      case _ byte behind _ _ found =>
        rw [found, length_cons] at shorter
        refine .inl ⟨_, rfl, ?_, keeps.room, keeps.frame⟩
        simp only [Head.size]
        omega
    · refine .inr ⟨count, entries, ?_, keeps.frame⟩
      simp only [Head.step, Bool.false_eq_true, if_false, if_neg more]

/-! ### Runs -/

def Reaches (strtod : Strtod S) (maxCount : ℤ) : Head S → Head S → Prop :=
  Relation.ReflTransGen fun head next => head.step strtod maxCount = .ok (.inl next)

theorem Head.run_spec (strtod : Strtod S) {fuel : ℕ} (keeps : head.Keeps maxCount list)
    (enough : head.size < fuel) :
    head.run strtod maxCount fuel = some (.error .beyond) ∧
        (∃ stop, Reaches strtod maxCount head stop ∧ stop.Stuck maxCount) ∨
      ∃ count entries, head.run strtod maxCount fuel = some (.ok (count, entries)) ∧
        (∀ stop, Reaches strtod maxCount head stop → ¬stop.Stuck maxCount) ∧
        ∀ index : ℕ, maxCount ≤ index → entries index = list index := by
  induction fuel generalizing head with
  | zero => exact absurd enough (Nat.not_lt_zero _)
  | succ fuel ih =>
    by_cases stuck : head.Stuck maxCount
    · exact .inl ⟨by simp [Head.run, head.step_of_stuck strtod stuck], head, .refl, stuck⟩
    rcases head.step_of_not_stuck keeps strtod stuck with
      ⟨next, stepped, less, kept⟩ | ⟨count, entries, returned, frame⟩
    · have runs : head.run strtod maxCount (fuel + 1) = next.run strtod maxCount fuel := by
        simp [Head.run, stepped]
      rw [runs]
      refine (ih kept (by omega)).imp ?_ ?_
      · rintro ⟨fault, stop, reached, stuck⟩
        exact ⟨fault, stop, .head stepped reached, stuck⟩
      · rintro ⟨count, entries, result, free, frame⟩
        refine ⟨count, entries, result, fun stop reached => ?_, frame⟩
        rcases reached.cases_head with rfl | ⟨other, first, rest⟩
        · exact stuck
        · rw [stepped] at first
          cases first
          exact free stop rest
    · refine .inr ⟨count, entries, by simp [Head.run, returned], fun stop reached => ?_, frame⟩
      rcases reached.cases_head with rfl | ⟨other, first, -⟩
      · exact stuck
      · rw [returned] at first
        cases first

/-- The parser ends, writes nothing behind the array, and stays inside the text exactly if it never
comes to the head of a loop with only white space before the zero. -/
theorem parse_safe_iff (strtod : Strtod S) (buffer : Bytes) (list : ℕ → Suspicious S)
    (maxCount : ℤ) (extra : ℕ) :
    ∃ outcome,
      parse strtod maxCount (2 * (cString buffer).length + 1 + extra) (cString buffer) list =
        some outcome ∧
      (outcome = .error .beyond ∨ ∃ count entries, outcome = .ok (count, entries) ∧
        ∀ index : ℕ, maxCount ≤ index → entries index = list index) ∧
      (outcome ≠ .error .beyond ↔ ∀ start, begins (cString buffer) list = some start →
        ∀ head, Reaches strtod maxCount start head → ¬head.Stuck maxCount) := by
  unfold parse
  cases found : begins (cString buffer) list with
  | none => exact ⟨_, rfl, .inr ⟨0, list, rfl, fun _ _ => rfl⟩, by simp⟩
  | some start =>
    have enough : start.size < 2 * (cString buffer).length + 1 + extra := by
      have := size_of_begins found
      omega
    rcases start.run_spec strtod (keeps_of_begins found) enough with
      ⟨fault, stop, reached, stuck⟩ | ⟨count, entries, result, free, frame⟩
    · exact ⟨_, fault, .inl rfl, by simpa using ⟨stop, reached, stuck⟩⟩
    · exact ⟨_, result, .inr ⟨count, entries, rfl, frame⟩, by simpa using free⟩

end Parser

/-- The parser steps over the end of the text. -/
theorem parse_leaves_text :
    let text := ascii "\"suspicious_addresses\":[ ".toList
    let list : ℕ → Suspicious ℤ := fun _ => ⟨[], [], 0, 0, 0⟩
    begins (cString (text ++ [0])) list = some ⟨false, [32], 0, list⟩ ∧
      Head.Stuck 1000 ⟨false, [32], 0, list⟩ ∧
      parse ⟨fun _ => 0, id, fun _ => le_rfl⟩ 1000 100 (cString (text ++ [0])) list =
        some (.error .beyond) := by
  intro text list
  have array : (strstr (ascii "\"suspicious_addresses\"".toList) (cString (text ++ [0]))).bind
      (strchr 91) = some [91, 32] := by decide +kernel
  have start : begins (cString (text ++ [0])) list = some ⟨false, [32], 0, list⟩ := by
    rw [begins, array]
    rfl
  have stuck : Head.Stuck 1000 ⟨false, [32], 0, list⟩ := by simp [Head.Stuck, Head.skips]
  refine ⟨start, stuck, ?_⟩
  simp [parse, start, Head.run, Head.step_of_stuck _ stuck]

end TigerMixer.Detection.DetectorOutput
