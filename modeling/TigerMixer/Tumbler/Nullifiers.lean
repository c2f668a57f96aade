import TigerMixer.Tumbler.ProofData
import Mathlib.Data.ZMod.Basic

/-!
# Spent nullifiers

The Tumbler keeps the nullifiers of the proofs that it has verified in a file, one text on a line.
This finds a nullifier again only where it is always written the same way: a decimal number is
converted, but a hexadecimal one is taken as it stands.
-/

namespace TigerMixer.Tumbler

open Bytes Text List

/-- `nullifier_hash`, where `convert` is the output of the command for a value, if it runs. -/
def nullifierHash (convert : Bytes → Option Bytes) (proofData : Bytes) : Option Bytes := do
  let value ← rawValue proofData
  if hexMark.isPrefixOf value then
    if value.length < 67 then some value else none
  else
    let hexResult := chomp (cString (← fgets 66 (← convert value)))
    if 0 < hexResult.length ∧ hexResult.length < 67 then some hexResult else none

def isUsed (lines nullifier : Bytes) : Bool :=
  (readLines 127 lines).any fun line => chomp (cString line) = nullifier

structure Surroundings where
  readOpens : Bool
  appendOpens : Bool
  /-- The output of the conversion, if it runs. -/
  convert : Bytes → Option Bytes
  /-- Whether the script runs and verifies a proof. -/
  verify : Bytes → Bool
  /-- Whether everything behind the proof goes through, the check of the signature in particular. -/
  completes : Bool

structure State where
  poolLabel : Bytes
  /-- `nullifier_hashes.txt`, if it exists. -/
  nullifierFile : Option Bytes
  deriving DecidableEq, Repr

/-- The label of the pool in a message, of which only the part from the label on is given. -/
def labelOf (message : Bytes) : Bytes :=
  (cString message).take 15

/-- The bytes of the proof, which are taken to begin behind the label that was kept. -/
def proofOf (message : Bytes) : Bytes :=
  message.drop ((labelOf message).length + 1)

/-- The part of `promise_init_handler` from the nullifier on, with whether the message is
accepted. -/
def spend (surroundings : Surroundings) (proofData : Bytes) (state : State) : Bool × State :=
  match nullifierHash surroundings.convert proofData with
  | none => (false, state)
  | some nullifier =>
    let found :=
      match state.nullifierFile with
      | none => false
      | some lines => surroundings.readOpens && isUsed lines nullifier
    if found then (false, state)
    else if surroundings.verify proofData = false then (false, state)
    else if surroundings.appendOpens then
      (surroundings.completes,
        { state with nullifierFile := some (state.nullifierFile.getD [] ++ (nullifier ++ [10])) })
    else (surroundings.completes, state)

def promiseInitHandler (surroundings : Surroundings) (message : Bytes) (state : State) :
    Bool × State :=
  if state.poolLabel ≠ [] ∧ state.poolLabel ≠ labelOf message then (false, state)
  else
    let labelled := { state with poolLabel := labelOf message }
    match tornadoProofData (proofOf message) with
    | none => (false, labelled)
    | some proofData => spend surroundings proofData labelled

def accepted : State → List (Surroundings × Bytes) → List Bytes
  | _, [] => []
  | state, (surroundings, message) :: messages =>
    let (accepts, next) := promiseInitHandler surroundings message state
    if accepts then cString (proofOf message) :: accepted next messages
    else accepted next messages

/-! ### Texts of a nullifier -/

def readDecimal (value : Bytes) : ℕ :=
  value.foldl (fun number byte => 10 * number + (byte.toNat - 48)) 0

def hexDigits (number : ℕ) : Bytes :=
  ascii (Nat.toDigits 16 number)

def Converts (convert : Bytes → Option Bytes) : Prop :=
  ∀ value, Digits value → ∀ output, convert value = some output →
    output = hexMark ++ hexDigits (readDecimal value) ++ [10]

/-- The texts of a number that lead to one and the same line of the file. -/
inductive Canonical : Bytes → ℕ → Prop
  | decimal {value : Bytes} (digits : Digits value) : Canonical value (readDecimal value)
  | hexadecimal (number : ℕ) : Canonical (hexMark ++ hexDigits number) number

def nullifierLine (number : ℕ) : Bytes :=
  (hexMark ++ hexDigits number).take 66

theorem mem_toDigits {number : ℕ} {character : Char} (member : character ∈ Nat.toDigits 16 number) :
    ∃ digit < 16, character = Nat.digitChar digit := by
  induction number using Nat.strong_induction_on with
  | _ number ih =>
    rw [Nat.toDigits_eq_if (by decide)] at member
    split_ifs at member with small
    · exact ⟨number, small, by simpa using member⟩
    · rw [mem_append, mem_singleton] at member
      rcases member with front | last
      · exact ih _ (Nat.div_lt_self (by omega) (by decide)) front
      · exact ⟨_, Nat.mod_lt _ (by decide), last⟩

theorem hexDigits_readable {number : ℕ} {byte : UInt8}
    (member : byte ∈ hexMark ++ hexDigits number) : byte ≠ 0 ∧ byte ≠ 10 := by
  have readableMark : ∀ letter ∈ hexMark, letter ≠ 0 ∧ letter ≠ 10 := by decide +kernel
  have readableDigit : ∀ digit < 16, UInt8.ofNat (Nat.digitChar digit).toNat ≠ 0 ∧
      UInt8.ofNat (Nat.digitChar digit).toNat ≠ 10 := by decide
  rcases mem_append.mp member with mark | text
  · exact readableMark byte mark
  · rcases mem_map.mp text with ⟨character, isDigit, rfl⟩
    rcases mem_toDigits isDigit with ⟨digit, bounded, rfl⟩
    exact readableDigit digit bounded

theorem not_hexMark_prefix_of_digits {value : Bytes} (digits : Digits value) :
    ¬hexMark <+: value := by
  intro mark
  have letter := digits 120 (mark.subset (by decide))
  exact absurd letter (by decide)

theorem nullifierHash_of_canonical {convert : Bytes → Option Bytes} {proofData nullifier : Bytes}
    {number : ℕ} (converts : Converts convert)
    (canonical : ∀ value, SecondSignal proofData value → 0 < value.length → value.length < 255 →
      Canonical value number) (hash : nullifierHash convert proofData = some nullifier) :
    nullifier = nullifierLine number := by
  simp only [nullifierHash, Option.bind_eq_bind, Option.bind_eq_some_iff] at hash
  rcases hash with ⟨value, raw, hash⟩
  rcases rawValue_eq_some_iff.mp raw with ⟨signal, nonempty, short⟩
  cases canonical value signal nonempty short with
  | decimal digits =>
    have noMark : ¬hexMark.isPrefixOf value := by
      rw [List.isPrefixOf_iff_prefix]
      exact not_hexMark_prefix_of_digits digits
    rw [if_neg noMark] at hash
    simp only [Option.bind_eq_some_iff, Option.ite_none_right_eq_some, Option.some.injEq] at hash
    rcases hash with ⟨output, converted, line, read, _, rfl⟩
    have noNewline : (10 : UInt8) ∉ hexMark ++ hexDigits (readDecimal value) :=
      fun member => (hexDigits_readable member).2 rfl
    rw [converts value digits output converted, fgets_line (by decide) noNewline,
      Option.some.injEq] at read
    have noZero : (0 : UInt8) ∉ line := by
      intro member
      rw [← read] at member
      rcases mem_append.mp (mem_of_mem_take member) with digit | newline
      · exact (hexDigits_readable digit).1 rfl
      · exact absurd newline (by decide)
    rw [cString_of_notMem noZero, ← read, chomp_take_line noNewline, nullifierLine]
  | hexadecimal =>
    have mark : hexMark.isPrefixOf (hexMark ++ hexDigits number) := by
      rw [List.isPrefixOf_iff_prefix]
      exact prefix_append _ _
    rw [if_pos mark, Option.ite_none_right_eq_some, Option.some.injEq] at hash
    rw [nullifierLine, take_of_length_le (by omega)]
    exact hash.2.symm

/-! ### The file -/

theorem isUsed_nullifierLine {lines : Bytes} (complete : CompleteLines lines) (number : ℕ) :
    isUsed (lines ++ (nullifierLine number ++ [10])) (nullifierLine number) := by
  have readable : ∀ byte ∈ nullifierLine number, byte ≠ 0 ∧ byte ≠ 10 :=
    fun byte member => hexDigits_readable (mem_of_mem_take member)
  have short : (nullifierLine number).length < 127 := by
    have := length_take_le 66 (hexMark ++ hexDigits number)
    rw [nullifierLine]
    omega
  have noZero : (0 : UInt8) ∉ nullifierLine number ++ [10] := by
    intro member
    rcases mem_append.mp member with digit | newline
    · exact (readable 0 digit).1 rfl
    · exact absurd newline (by decide)
  have line := readLines_line short fun member => (readable 10 member).2 rfl
  simp [isUsed, readLines_append complete, line, cString_of_notMem noZero, chomp_line]

def State.Complete (state : State) : Prop :=
  ∀ lines ∈ state.nullifierFile, CompleteLines lines

def State.Records (state : State) (number : ℕ) : Prop :=
  ∃ lines ∈ state.nullifierFile, isUsed lines (nullifierLine number)

/-! ### Messages -/

section Step

variable {surroundings : Surroundings} {message : Bytes} {state : State}

theorem nullifierFile_spend (proofData : Bytes) :
    (spend surroundings proofData state).2.nullifierFile = state.nullifierFile ∨
      ∃ line, (spend surroundings proofData state).2.nullifierFile =
        some (state.nullifierFile.getD [] ++ (line ++ [10])) := by
  unfold spend
  split
  · exact .inl rfl
  · next nullifier _ =>
      simp only
      split_ifs
      · exact .inl rfl
      · exact .inl rfl
      · exact .inr ⟨nullifier, rfl⟩
      · exact .inl rfl

theorem nullifierFile_promiseInitHandler :
    (promiseInitHandler surroundings message state).2.nullifierFile = state.nullifierFile ∨
      ∃ line, (promiseInitHandler surroundings message state).2.nullifierFile =
        some (state.nullifierFile.getD [] ++ (line ++ [10])) := by
  unfold promiseInitHandler
  split_ifs
  · exact .inl rfl
  · dsimp only
    split
    · exact .inl rfl
    · exact nullifierFile_spend _

structure Accepted (surroundings : Surroundings) (proofData : Bytes) (file next : Option Bytes)
    (nullifier : Bytes) : Prop where
  hash : nullifierHash surroundings.convert proofData = some nullifier
  verified : surroundings.verify proofData
  completed : surroundings.completes
  unused : ∀ lines ∈ file, surroundings.readOpens → ¬isUsed lines nullifier
  recorded : surroundings.appendOpens → next = some (file.getD [] ++ (nullifier ++ [10]))

theorem accepted_of_spend {proofData : Bytes}
    (accepts : (spend surroundings proofData state).1 = true) :
    ∃ nullifier, Accepted surroundings proofData state.nullifierFile
      (spend surroundings proofData state).2.nullifierFile nullifier := by
  unfold spend at accepts ⊢
  split at accepts
  · simp at accepts
  · next nullifier hash =>
      refine ⟨nullifier, ?_⟩
      simp only at accepts ⊢
      split_ifs at accepts ⊢ with used unverified appends
      · refine ⟨hash, by simpa using unverified, accepts, fun lines file opens found => ?_,
          fun _ => rfl⟩
        rw [Option.mem_def] at file
        simp [file, opens, found] at used
      · refine ⟨hash, by simpa using unverified, accepts, fun lines file opens found => ?_,
          fun opens => absurd opens appends⟩
        rw [Option.mem_def] at file
        simp [file, opens, found] at used

theorem accepted_of_promiseInitHandler
    (accepts : (promiseInitHandler surroundings message state).1 = true) :
    ∃ nullifier, Accepted surroundings (cString (proofOf message)) state.nullifierFile
      (promiseInitHandler surroundings message state).2.nullifierFile nullifier := by
  unfold promiseInitHandler at accepts ⊢
  split_ifs at accepts ⊢
  dsimp only at accepts ⊢
  split at accepts
  · simp at accepts
  · next proofData kept =>
      simp only [tornadoProofData, Option.ite_none_right_eq_some, Option.some.injEq] at kept
      rw [kept.2]
      exact accepted_of_spend accepts

theorem State.Complete.promiseInitHandler (complete : state.Complete) :
    (promiseInitHandler surroundings message state).2.Complete := by
  intro lines file
  rw [Option.mem_def] at file
  rcases @nullifierFile_promiseInitHandler surroundings message state with same | ⟨line, more⟩
  · exact complete lines (same ▸ file)
  · rw [more, Option.some.injEq] at file
    rw [← file]
    exact completeLines_append _ _

theorem State.Records.promiseInitHandler {number : ℕ} (records : state.Records number)
    (complete : state.Complete) :
    (promiseInitHandler surroundings message state).2.Records number := by
  rcases records with ⟨lines, file, used⟩
  rw [Option.mem_def] at file
  rcases @nullifierFile_promiseInitHandler surroundings message state with same | ⟨line, more⟩
  · exact ⟨lines, same ▸ file, used⟩
  · refine ⟨_, more, ?_⟩
    rw [file, Option.getD_some, isUsed, readLines_append (complete lines file), any_append,
      Bool.or_eq_true]
    exact .inl used

end Step

/-! ### Runs -/

section Run

variable {p : ℕ} (nullifierOf : Bytes → Option (ZMod p))

/-- Both times the file opens, and the text of the signal is a canonical one of the least number for
the field element `nullifierOf` that the verifier reads as the second public signal. -/
def Trackable (surroundings : Surroundings) (message : Bytes) : Prop :=
  surroundings.verify (cString (proofOf message)) → surroundings.completes →
    surroundings.readOpens ∧ surroundings.appendOpens ∧
      ∃ number < p, nullifierOf (cString (proofOf message)) = some (number : ZMod p) ∧
        ∀ value, SecondSignal (cString (proofOf message)) value → 0 < value.length →
          value.length < 255 → Canonical value number

variable {nullifierOf}

theorem records_of_accepts {surroundings : Surroundings} {message : Bytes} {state : State}
    (converts : Converts surroundings.convert)
    (trackable : Trackable nullifierOf surroundings message) (complete : state.Complete)
    (accepts : (promiseInitHandler surroundings message state).1 = true) :
    ∃ number < p, nullifierOf (cString (proofOf message)) = some (number : ZMod p) ∧
      ¬state.Records number ∧
      (promiseInitHandler surroundings message state).2.Records number := by
  rcases accepted_of_promiseInitHandler accepts with
    ⟨nullifier, hash, verified, completed, unused, recorded⟩
  rcases trackable verified completed with
    ⟨readOpens, appendOpens, number, bounded, nullifier_eq, canonical⟩
  have line := nullifierHash_of_canonical converts canonical hash
  subst line
  refine ⟨number, bounded, nullifier_eq, ?_, _, recorded appendOpens, ?_⟩
  · rintro ⟨lines, file, used⟩
    exact unused lines file readOpens used
  · apply isUsed_nullifierLine
    cases file : state.nullifierFile with
    | none => exact .inl rfl
    | some lines => exact complete lines file

theorem accepted_cons (state : State) (step : Surroundings × Bytes)
    (run : List (Surroundings × Bytes)) :
    accepted state (step :: run) =
      (if (promiseInitHandler step.1 step.2 state).1 then [cString (proofOf step.2)] else []) ++
        accepted (promiseInitHandler step.1 step.2 state).2 run := by
  simp only [accepted]
  split_ifs <;> rfl

theorem not_records_of_mem_accepted {state : State} {run : List (Surroundings × Bytes)}
    (converts : ∀ step ∈ run, Converts step.1.convert)
    (trackable : ∀ step ∈ run, Trackable nullifierOf step.1 step.2) (complete : state.Complete)
    {proofData : Bytes} (member : proofData ∈ accepted state run) :
    ∃ number < p, nullifierOf proofData = some (number : ZMod p) ∧ ¬state.Records number := by
  induction run generalizing state with
  | nil => simp [accepted] at member
  | cons step run ih =>
    rw [forall_mem_cons] at converts trackable
    rw [accepted_cons, mem_append] at member
    rcases member with here | later
    · split_ifs at here with accepts
      · rcases records_of_accepts converts.1 trackable.1 complete accepts with
          ⟨number, bounded, nullifier_eq, fresh, _⟩
        rw [mem_singleton.mp here]
        exact ⟨number, bounded, nullifier_eq, fresh⟩
      · simp at here
    · rcases ih converts.2 trackable.2 complete.promiseInitHandler later with
        ⟨number, bounded, nullifier_eq, fresh⟩
      exact ⟨number, bounded, nullifier_eq,
        fun records => fresh (records.promiseInitHandler complete)⟩

/-- In a run whose messages are trackable no nullifier is accepted twice. -/
theorem accepted_nullifiers_differ (nullifierOf : Bytes → Option (ZMod p))
    (run : List (Surroundings × Bytes)) (state : State)
    (converts : ∀ step ∈ run, Converts step.1.convert)
    (trackable : ∀ step ∈ run, Trackable nullifierOf step.1 step.2) (complete : state.Complete) :
    (accepted state run).Pairwise fun first second =>
      ∀ nullifier, nullifierOf first = some nullifier → nullifierOf second ≠ some nullifier := by
  induction run generalizing state with
  | nil => exact List.Pairwise.nil
  | cons step run ih =>
    rw [forall_mem_cons] at converts trackable
    have rest := ih (promiseInitHandler step.1 step.2 state).2 converts.2 trackable.2
      complete.promiseInitHandler
    rw [accepted_cons]
    split_ifs with accepts
    · rcases records_of_accepts converts.1 trackable.1 complete accepts with
        ⟨number, bounded, nullifier_eq, _, records⟩
      refine pairwise_cons.mpr ⟨fun later member nullifier first second => ?_, rest⟩
      -- a later one with the same number would find it in the file
      rcases not_records_of_mem_accepted converts.2 trackable.2 complete.promiseInitHandler
        member with ⟨other, otherBounded, other_eq, fresh⟩
      rw [nullifier_eq, Option.some.injEq] at first
      rw [other_eq, Option.some.injEq, ← first, ZMod.natCast_eq_natCast_iff',
        Nat.mod_eq_of_lt otherBounded, Nat.mod_eq_of_lt bounded] at second
      exact fresh (second ▸ records)
    · exact rest

end Run

def readNumber (value : Bytes) : ℕ :=
  if hexMark.isPrefixOf value then
    (value.drop 2).foldl (fun number byte =>
      16 * number + if byte ≤ 57 then byte.toNat - 48 else (toLower byte).toNat - 87) 0
  else readDecimal value

def signalSample (p : ℕ) (proofData : Bytes) : Option (ZMod p) :=
  (rawValue proofData).map fun value => (readNumber value : ZMod p)

def surroundingsSample (readOpens appendOpens : Bool) : Surroundings where
  readOpens := readOpens
  appendOpens := appendOpens
  convert value := some (hexMark ++ hexDigits (readDecimal value) ++ [10])
  verify _ := true
  completes := true

def messageSample (value : List Char) : Bytes :=
  49 :: 0 :: publicSignalsKey ++ ascii ('[' :: '0' :: ',' :: value ++ [',', '0', ']'])

def stateSample : State where
  poolLabel := []
  nullifierFile := none

theorem trackable_messageSample {p : ℕ} {text : List Char} {number : ℕ}
    (raw : rawValue (cString (proofOf (messageSample text))) = some (ascii text))
    (reads : readNumber (ascii text) = number) (bounded : number < p)
    (canonical : Canonical (ascii text) number) :
    Trackable (signalSample p) (surroundingsSample true true) (messageSample text) := by
  refine fun _ _ => ⟨rfl, rfl, number, bounded, ?_, fun other signal nonempty short => ?_⟩
  · simp [signalSample, raw, reads]
  · have same := rawValue_eq_some_iff.mpr ⟨signal, nonempty, short⟩
    rw [raw, Option.some.injEq] at same
    exact same ▸ canonical

theorem accepted_nullifiers_differ_ten :
    let run := [['1', '0'], ['0', 'x', 'a'], ['1', '1'], ['1', '0']].map fun value =>
      (surroundingsSample true true, messageSample value)
    (accepted stateSample run).length = 2 ∧
      (accepted stateSample run).Pairwise fun first second =>
        ∀ nullifier, signalSample 13 first = some nullifier →
          signalSample 13 second ≠ some nullifier := by
  intro run
  refine ⟨by decide +kernel, accepted_nullifiers_differ (signalSample 13) run stateSample ?_ ?_ ?_⟩
  · exact forall_mem_map.mpr fun _ _ _ _ _ converted => (Option.some.inj converted).symm
  · have ten := @trackable_messageSample 13 ['1', '0'] 10 (by decide) (by decide) (by decide)
      (.decimal (by decide +kernel))
    have letter := @trackable_messageSample 13 ['0', 'x', 'a'] 10 (by decide) (by decide)
      (by decide) (.hexadecimal 10)
    have eleven := @trackable_messageSample 13 ['1', '1'] 11 (by decide) (by decide) (by decide)
      (.decimal (by decide +kernel))
    simp [run, ten, letter, eleven]
  · simp [State.Complete, stateSample]

def fieldOrder : ℕ :=
  21888242871839275222246405745257275088548364400416034343698204186575808495617

/-- Runs of two messages with the number ten: in letters of either case, with a leading zero, in
decimal and with a capital letter, with the order of the field added, and when the file does not
open. -/
def doubleSpends : List (List (Surroundings × Bytes)) :=
  let opens := surroundingsSample true true
  let ten := messageSample ['1', '0']
  [[(opens, messageSample ['0', 'x', 'a']), (opens, messageSample ['0', 'x', 'A'])],
    [(opens, messageSample ['0', 'x', 'a']), (opens, messageSample ['0', 'x', '0', 'a'])],
    [(opens, ten), (opens, messageSample ['0', 'x', 'A'])],
    [(opens, ten), (opens, messageSample (Nat.toDigits 10 (fieldOrder + 10)))],
    [(surroundingsSample true false, ten), (opens, ten)],
    [(opens, ten), (surroundingsSample false true, ten)]]

theorem not_pairwise_of_mem_doubleSpends {run : List (Surroundings × Bytes)}
    (member : run ∈ doubleSpends) : ¬(accepted stateSample run).Pairwise fun first second =>
      ∀ nullifier, signalSample fieldOrder first = some nullifier →
        signalSample fieldOrder second ≠ some nullifier := by
  have residues : ∀ run ∈ doubleSpends,
      (accepted stateSample run).map (fun proofData =>
        (rawValue proofData).map fun value => readNumber value % fieldOrder) =
          [some 10, some 10] := by decide +kernel
  have ten : ∀ {proofData : Bytes},
      ((rawValue proofData).map fun value => readNumber value % fieldOrder) = some 10 →
        signalSample fieldOrder proofData = some ((10 : ℕ) : ZMod fieldOrder) := by
    intro proofData residue
    rcases Option.map_eq_some_iff.mp residue with ⟨value, raw, mod_eq⟩
    have small : 10 % fieldOrder = 10 := by decide
    rw [signalSample, raw, Option.map_some, Option.some.injEq, ZMod.natCast_eq_natCast_iff',
      mod_eq, small]
  intro pairwise
  have both := residues run member
  rcases map_eq_cons_iff.mp both with ⟨first, rest, accepted_eq, firstTen, restTen⟩
  rcases map_eq_singleton_iff.mp restTen with ⟨second, rfl, secondTen⟩
  rw [accepted_eq, pairwise_pair] at pairwise
  exact pairwise _ (ten firstTen) (ten secondTen)

/-- One field element is spelled in two ways, or the file does not open. -/
theorem accepted_nullifier_again :
    ¬(accepted stateSample
        [(surroundingsSample true true, messageSample ['0', 'x', 'a']),
          (surroundingsSample true true, messageSample ['0', 'x', 'A'])]).Pairwise
      fun first second => ∀ nullifier, signalSample fieldOrder first = some nullifier →
        signalSample fieldOrder second ≠ some nullifier :=
  not_pairwise_of_mem_doubleSpends (mem_cons_self ..)

end TigerMixer.Tumbler
