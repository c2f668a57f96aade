import TigerMixer.Text.CString
import TigerMixer.Text.Shell

/-!
# The command that invokes the auditor

The auditor is started through a shell with three arguments in single quotes. Only quotes in the
third one are escaped, and the command is cut off at the end of its buffer.
-/

namespace TigerMixer.Detection

open Bytes Text Shell List

/-! ### Building the command -/

/-- The lookup of `get_pairs_summary_line`, of whose result an empty line takes the place when there
is none. -/
def getPairsSummaryLine (address : Bytes) : Option Bytes → Option Bytes
  | none => none
  | some file =>
    (((readLines 2047 file).map cString).find? fun line => address.isPrefixOf line).map
      fun line => (chomp line).take 2047

structure AuditArguments where
  txHash : Bytes
  address : Bytes
  summary : Bytes
  hashFits : txHash.length ≤ 66
  addressFits : address.length ≤ 42
  summaryFits : summary.length ≤ 2047
  noZero : (0 : UInt8) ∉ txHash ++ address ++ summary

def escapedPairs : ℕ → Bytes → Bytes
  | _, [] => []
  | index, byte :: rest =>
    if index < 4092 then
      escapeByte byte ++ escapedPairs (index + (escapeByte byte).length) rest
    else []

def auditorPath : Bytes :=
  ascii "/home/zxx/A2L/A2L-master/ecdsa/bin/auditor".toList

def redirection : Bytes :=
  ascii " 2>&1".toList

def nextArgument : Bytes :=
  [quote, 32, quote]

namespace AuditArguments

variable (arguments : AuditArguments)

def opening : Bytes :=
  auditorPath ++ [32, quote] ++ arguments.txHash ++ nextArgument ++ arguments.address ++
    nextArgument

def auditorCmd : Bytes :=
  (arguments.opening ++ (escapedPairs 0 arguments.summary ++ quote :: redirection)).take 4095

def words : List Bytes :=
  [auditorPath, arguments.txHash, arguments.address, arguments.summary]

def quotedLength : ℕ :=
  51 + arguments.txHash.length + arguments.address.length + arguments.summary.length +
    3 * arguments.summary.count quote

end AuditArguments

theorem getPairsSummaryLine_spec {address line : Bytes} {file : Option Bytes}
    (found : line ∈ getPairsSummaryLine address file) :
    line.length ≤ 2047 ∧ (0 : UInt8) ∉ line := by
  cases file with
  | none => simp [getPairsSummaryLine] at found
  | some file =>
    simp only [getPairsSummaryLine, Option.mem_def, Option.map_eq_some_iff] at found
    rcases found with ⟨whole, found, rfl⟩
    rcases mem_map.mp (mem_of_find?_eq_some found) with ⟨bytes, _, rfl⟩
    refine ⟨length_take_le _ _, fun zero => zero_notMem_cString bytes ?_⟩
    have inLine := mem_of_mem_take zero
    unfold chomp at inLine
    split_ifs at inLine
    · exact mem_of_mem_dropLast inLine
    · exact inLine

def summaryArguments (txHash address : Bytes) (file : Option Bytes) (hashFits : txHash.length ≤ 66)
    (addressFits : address.length ≤ 42) (noZero : (0 : UInt8) ∉ txHash ++ address) :
    AuditArguments where
  txHash := txHash
  address := address
  summary := (getPairsSummaryLine address file).getD []
  hashFits := hashFits
  addressFits := addressFits
  summaryFits := by
    cases found : getPairsSummaryLine address file with
    | none => simp
    | some line => exact (getPairsSummaryLine_spec found).1
  noZero := by
    rw [mem_append, not_or]
    refine ⟨noZero, ?_⟩
    cases found : getPairsSummaryLine address file with
    | none => simp
    | some line => exact (getPairsSummaryLine_spec found).2

/-! ### The buffers -/

theorem escapedPairs_spec (index : ℕ) (text : Bytes) :
    escapedPairs index text = escape text ∨
      escapedPairs index text <+: escape text ∧
        4092 ≤ index + (escapedPairs index text).length := by
  induction text generalizing index with
  | nil => exact .inl rfl
  | cons byte rest ih =>
    unfold escapedPairs
    split_ifs with room
    · rcases ih (index + (escapeByte byte).length) with whole | ⟨part, full⟩
      · left
        rw [whole]
        rfl
      · right
        refine ⟨?_, ?_⟩
        · exact (prefix_append_right_inj _).mpr part
        · simp only [length_append]
          omega
    · exact .inr ⟨List.nil_prefix, by simpa using room⟩

section Command

variable (arguments : AuditArguments)

theorem length_opening : arguments.opening.length =
    50 + arguments.txHash.length + arguments.address.length := by
  have path : auditorPath.length = 42 := by decide
  simp only [AuditArguments.opening, nextArgument, length_append, length_cons, length_nil, path]
  omega

theorem length_escape_summary : arguments.opening.length + (escape arguments.summary).length + 1 =
    arguments.quotedLength := by
  rw [length_opening, length_escape, AuditArguments.quotedLength]
  omega

theorem auditorCmd_eq : arguments.auditorCmd =
    (arguments.opening ++ (escape arguments.summary ++ quote :: redirection)).take 4095 := by
  have opening := length_opening arguments
  rcases escapedPairs_spec 0 arguments.summary with whole | ⟨⟨rest, part⟩, full⟩
  · rw [AuditArguments.auditorCmd, whole]
  · have long : 4095 ≤ (arguments.opening ++ escapedPairs 0 arguments.summary).length := by
      rw [length_append]
      omega
    have cut (rest : Bytes) :
        (arguments.opening ++ (escapedPairs 0 arguments.summary ++ rest)).take 4095 =
          (arguments.opening ++ escapedPairs 0 arguments.summary).take 4095 := by
      rw [← append_assoc, take_append_of_le_length long]
    rw [AuditArguments.auditorCmd, ← part, append_assoc, cut, cut]

theorem auditorCmd_of_le (short : arguments.quotedLength ≤ 4095) : arguments.auditorCmd =
    arguments.opening ++ escape arguments.summary ++ [quote] ++
      redirection.take (4095 - arguments.quotedLength) := by
  have complete : (arguments.opening ++ escape arguments.summary ++ [quote]).length =
      arguments.quotedLength := by
    rw [← length_escape_summary, length_append, length_append, length_singleton]
  have parts : arguments.opening ++ (escape arguments.summary ++ quote :: redirection) =
      arguments.opening ++ escape arguments.summary ++ [quote] ++ redirection := by
    simp
  rw [auditorCmd_eq, parts, take_append, complete, take_of_length_le (complete.trans_le short)]

theorem auditorCmd_of_lt (long : 4095 < arguments.quotedLength) : arguments.auditorCmd =
    arguments.opening ++ (escape arguments.summary).take (4095 - arguments.opening.length) := by
  have length := length_escape_summary arguments
  have opening := length_opening arguments
  have hashFits := arguments.hashFits
  have addressFits := arguments.addressFits
  rw [auditorCmd_eq, take_append, take_of_length_le (by omega), take_append_of_le_length (by omega)]

/-! ### Right commands -/

section Unquoted

variable (hash : quote ∉ arguments.txHash) (address : quote ∉ arguments.address)

include hash address

theorem run_opening :
    run ⟨[], [], .blank⟩ arguments.opening =
      some ⟨[auditorPath, arguments.txHash, arguments.address], [], .quoted⟩ := by
  have path : run ⟨[], [], .blank⟩ (auditorPath ++ [32, quote]) =
      some ⟨[auditorPath], [], .quoted⟩ := rfl
  have next (words : List Bytes) (current : Bytes) :
      run ⟨words, current, .quoted⟩ nextArgument = some ⟨words ++ [current], [], .quoted⟩ := rfl
  rw [AuditArguments.opening, run_append, run_append, run_append, run_append, path]
  simp [run_quoted hash, run_quoted address, next]

theorem split_of_le (short : arguments.quotedLength ≤ 4090 ∨ arguments.quotedLength = 4094 ∨
      arguments.quotedLength = 4095) : split arguments.auditorCmd = some arguments.words := by
  have complete : run ⟨[], [], .blank⟩
        (arguments.opening ++ escape arguments.summary ++ [quote]) =
      some ⟨[auditorPath, arguments.txHash, arguments.address], arguments.summary, .word⟩ := by
    rw [run_concat, run_append, run_opening arguments hash address, Option.bind_some, run_escape]
    rfl
  rw [split, auditorCmd_of_le arguments (by omega), run_append, complete, Option.bind_some]
  rcases short with whole | blank | full
  · rw [take_of_length_le (by simp [redirection, ascii]; omega)]
    rfl
  · rw [blank]
    rfl
  · rw [full]
    rfl

theorem split_of_cut
    (long : arguments.quotedLength = 4097) (last : arguments.summary.getLast? = some quote) :
    split arguments.auditorCmd = some arguments.words := by
  have length := length_escape_summary arguments
  rcases getLast?_eq_some_iff.mp last with ⟨front, summary⟩
  have escaped : escape arguments.summary =
      escape front ++ [quote, backslash, quote] ++ [quote] := by
    rw [summary, escape_concat]
    simp [escapeByte]
  have kept : (escape arguments.summary).take (4095 - arguments.opening.length) =
      escape front ++ [quote, backslash, quote] := by
    rw [escaped] at length ⊢
    rw [length_append, length_singleton] at length
    exact take_left' (by omega)
  rw [split, auditorCmd_of_lt arguments (by omega), kept, run_append,
    run_opening arguments hash address, Option.bind_some, run_append, run_escape,
    Option.bind_some, AuditArguments.words, summary]
  rfl

end Unquoted

/-! ### Wrong commands -/

theorem count_opening : arguments.opening.count quote =
    5 + arguments.txHash.count quote + arguments.address.count quote := by
  have path : auditorPath.count quote = 0 := by decide
  have next : nextArgument.count quote = 2 := by decide
  have first : [32, quote].count quote = 1 := by decide
  simp only [AuditArguments.opening, count_append, path, next, first]
  omega

theorem length_words : arguments.words.flatten.length =
    42 + arguments.txHash.length + arguments.address.length + arguments.summary.length := by
  have path : auditorPath.length = 42 := by decide
  simp [AuditArguments.words, path]
  omega

theorem count_words : arguments.words.flatten.count quote =
    arguments.txHash.count quote + arguments.address.count quote +
      arguments.summary.count quote := by
  have path : auditorPath.count quote = 0 := by decide
  simp [AuditArguments.words, path]
  omega

theorem counts_of_right (right : split arguments.auditorCmd = some arguments.words) :
    ∃ final quotes backslashes signs, run ⟨[], [], .blank⟩ arguments.auditorCmd = some final ∧
      final.finish = some arguments.words ∧
      arguments.auditorCmd.length = 42 + arguments.txHash.length + arguments.address.length +
        arguments.summary.length + quotes + backslashes + signs ∧
      arguments.auditorCmd.count quote = quotes + (arguments.txHash.count quote +
        arguments.address.count quote + arguments.summary.count quote) ∧
      arguments.txHash.count quote + arguments.address.count quote +
        arguments.summary.count quote ≤ backslashes ∧
      quotes % 2 = 0 ∧ 3 ≤ signs ∧ (final.mode.Between → 4 + final.mode.signs ≤ signs) := by
  rcases Option.bind_eq_some_iff.mp right with ⟨final, reached, finished⟩
  rcases Counted.of_run _ reached with ⟨quotes, backslashes, signs, counted⟩
  rcases counted.finish finished with ⟨length, count, literal, paired, separated, between⟩
  rw [length_words] at length
  rw [count_words] at count literal
  exact ⟨final, quotes, backslashes, signs, reached, finished, length, count, literal, paired,
    Nat.le_of_succ_le_succ separated, between⟩

theorem run_redirection {state final : State} {words : List Bytes} {room : ℕ}
    (behindQuote : state.mode = .word ∨ state.mode = .quoted)
    (reached : run state (redirection.take room) = some final)
    (finished : final.finish = some words) :
    room = 0 ∨ room = 1 ∧ final.mode = .blank ∨ room = 2 ∧ words.getLast? = some [50] ∨
      5 ≤ room ∧ final.mode = .redirected := by
  rcases state with ⟨before, current, mode⟩
  rcases behindQuote with rfl | rfl
  · -- One case for each part of the redirection.
    have ends {next : State} (same : run ⟨before, current, .word⟩ (redirection.take room) =
        some next) : final = next := Option.some.inj (reached.symm.trans same)
    rcases room with _ | _ | _ | _ | _ | room
    · simp
    · have final : final = ⟨before ++ [current], [], .blank⟩ := ends rfl
      simp [final]
    · have final : final = ⟨before ++ [current], [50], .number⟩ := ends rfl
      simp only [final, State.finish, Option.some.injEq] at finished
      simp [← finished]
    · have final : final = ⟨before ++ [current], [], .redirect⟩ := ends rfl
      simp [final, State.finish] at finished
    · have final : final = ⟨before ++ [current], [], .descriptor⟩ := ends rfl
      simp [final, State.finish] at finished
    · have whole : redirection.take (room + 5) = redirection :=
        take_of_length_le (by simp [redirection, ascii])
      have final : final = ⟨before ++ [current], [], .redirected⟩ := ends (by rw [whole]; rfl)
      simp [final]
  · have noQuote : quote ∉ redirection.take room := fun member =>
      absurd (mem_of_mem_take member) (by decide)
    rw [run_quoted noQuote, Option.some.injEq] at reached
    subst reached
    simp [State.finish] at finished

theorem quoteless_of_le (short : arguments.quotedLength ≤ 4095)
    (right : split arguments.auditorCmd = some arguments.words) :
    arguments.txHash.count quote = 0 ∧ arguments.address.count quote = 0 ∧
      (arguments.quotedLength ≤ 4090 ∨ arguments.quotedLength = 4094 ∨
        arguments.quotedLength = 4095) := by
  have command := auditorCmd_of_le arguments short
  rcases counts_of_right arguments right with
    ⟨final, quotes, backslashes, signs, reached, finished, length, count, literal, -, separated,
      between⟩
  rw [command, run_append, Option.bind_eq_some_iff] at reached
  rcases reached with ⟨state, reached, rest⟩
  rw [run_concat, Option.bind_eq_some_iff] at reached
  rcases reached with ⟨_, _, taken⟩
  have noQuotes : (redirection.take (4095 - arguments.quotedLength)).count quote = 0 := by
    apply count_eq_zero.mpr
    exact fun member => absurd (mem_of_mem_take member) (by decide)
  have five : redirection.length = 5 := by decide
  have quotedLength := length_escape_summary arguments
  have unescaped := length_escape arguments.summary
  have opening := length_opening arguments
  simp only [command, length_append, count_append, length_take, count_opening,
    count_escape, noQuotes, five, length_singleton, count_singleton_self] at length count
  rcases run_redirection (mode_behind_quote taken) rest finished with
    full | ⟨blank, mode⟩ | ⟨two, last⟩ | ⟨whole, mode⟩
  · omega
  · have signs := between (by simp [mode, Mode.Between])
    simp only [mode, Mode.signs] at signs
    omega
  · -- The summary would be very short.
    have summary : arguments.summary = [50] := by simpa [AuditArguments.words] using last
    have hashFits := arguments.hashFits
    have addressFits := arguments.addressFits
    have short : arguments.summary.length + 3 * arguments.summary.count quote = 1 := by
      rw [summary]
      decide
    omega
  · have signs := between (by simp [mode, Mode.Between])
    simp only [mode, Mode.signs] at signs
    omega

theorem quoteless_of_lt (long : 4095 < arguments.quotedLength)
    (right : split arguments.auditorCmd = some arguments.words) :
    arguments.txHash.count quote = 0 ∧ arguments.address.count quote = 0 ∧
      arguments.quotedLength = 4097 ∧ arguments.summary.getLast? = some quote := by
  have command := auditorCmd_of_lt arguments long
  rcases counts_of_right arguments right with
    ⟨_, quotes, backslashes, signs, -, -, length, count, literal, paired, separated, -⟩
  have quotedLength := length_escape_summary arguments
  have unescaped := length_escape arguments.summary
  have escapedCount := count_escape arguments.summary
  have opening := length_opening arguments
  have hashFits := arguments.hashFits
  have addressFits := arguments.addressFits
  -- What is cut off consists of quotes.
  have parts := take_append_drop (4095 - arguments.opening.length) (escape arguments.summary)
  have suffix : (escape arguments.summary).drop (4095 - arguments.opening.length) <:+
    escape arguments.summary := drop_suffix _ _
  have room : ((escape arguments.summary).take (4095 - arguments.opening.length)).length =
      4095 - arguments.opening.length := length_take_of_le (by omega)
  generalize (escape arguments.summary).take (4095 - arguments.opening.length) = kept at *
  generalize (escape arguments.summary).drop (4095 - arguments.opening.length) = missing at *
  have atMost : missing.count quote ≤ missing.length := count_le_length
  simp only [← parts, length_append, count_append] at quotedLength unescaped escapedCount
  simp only [command, length_append, count_append, count_opening] at length count
  have areQuotes : missing.count quote = missing.length := by omega
  have nonempty : missing ≠ [] := by
    rintro rfl
    simp only [length_nil, count_nil] at *
    omega
  have last := suffix_escape suffix nonempty
    fun byte member => (count_eq_length.mp areQuotes byte member).symm
  refine ⟨by omega, by omega, by omega, last.2⟩

end Command

/-- The shell sees the intended words exactly if no quote is in the hash or the address and the
escaped command fits, or loses an end that changes no word. -/
theorem command_right_iff (arguments : AuditArguments) :
    split arguments.auditorCmd = some arguments.words ↔
      quote ∉ arguments.txHash ∧ quote ∉ arguments.address ∧
        (arguments.quotedLength ≤ 4090 ∨ arguments.quotedLength = 4094 ∨
          arguments.quotedLength = 4095 ∨
          arguments.quotedLength = 4097 ∧ arguments.summary.getLast? = some quote) := by
  rw [← count_eq_zero, ← count_eq_zero]
  constructor
  · intro right
    rcases Nat.lt_or_ge 4095 arguments.quotedLength with long | short
    · have cut := quoteless_of_lt arguments long right
      simp [cut]
    · rcases quoteless_of_le arguments short right with ⟨hash, address, length⟩
      refine ⟨hash, address, ?_⟩
      omega
  · rintro ⟨hash, address, length⟩
    rw [count_eq_zero] at hash address
    rcases length with short | blank | full | ⟨cut, last⟩
    · exact split_of_le arguments hash address (.inl short)
    · exact split_of_le arguments hash address (.inr (.inl blank))
    · exact split_of_le arguments hash address (.inr (.inr full))
    · exact split_of_cut arguments hash address cut last

/-- A hash of two words in quotes gives the auditor a fourth argument. -/
theorem command_of_quoted_hash :
    let arguments := summaryArguments [97, quote, 32, quote, 98] [99] (some [99, 100, 10])
      (by decide) (by decide) (by decide)
    split arguments.auditorCmd = some [auditorPath, [97], [98], [99], [99, 100]] := by
  decide +kernel

end TigerMixer.Detection
