import TigerMixer.Text.CString

/-!
# Words of a shell command

How a POSIX shell takes a command apart into words, as long as only single quotes, backslashes,
blanks and redirections between descriptors matter. What a quotation can do is limited by counting:
a quote in a word needs a backslash, words need blanks, and quotes come in pairs.
-/

namespace TigerMixer.Shell

open Bytes Text List

def quote : UInt8 := 39

def backslash : UInt8 := 92

def isBlank (byte : UInt8) : Bool :=
  byte = 32 || byte = 9

def special : Bytes :=
  96 :: ascii "|&;<>()$\"\n*?[#~=%".toList

/-- Where the shell is: between words, in a word of digits so far, in another word, in a quotation,
behind a backslash, or at a sign of a redirection. -/
inductive Mode where
  | blank
  | number
  | word
  | quoted
  | escape
  | redirect
  | descriptor
  | redirected
  deriving DecidableEq

structure State where
  words : List Bytes
  current : Bytes
  mode : Mode

def State.enter (state : State) (mode : Mode) : State :=
  { state with mode := mode }

def State.extend (state : State) (byte : UInt8) (mode : Mode) : State :=
  { state with current := state.current ++ [byte], mode := mode }

def State.endWord (state : State) : State :=
  ⟨state.words ++ [state.current], [], .blank⟩

def State.plain (state : State) (byte : UInt8) : Option State :=
  if byte = quote then some (state.enter .quoted)
  else if byte = backslash then some (state.enter .escape)
  else if byte ∈ special then none
  else if state.mode ≠ .word ∧ isDigit byte then some (state.extend byte .number)
  else some (state.extend byte .word)

def step (state : State) (byte : UInt8) : Option State :=
  match state.mode with
  | .blank => if isBlank byte then some (state.enter .blank) else state.plain byte
  | .number =>
    if isBlank byte then some state.endWord
    else if byte = 62 then some ⟨state.words, [], .redirect⟩
    else state.plain byte
  | .word => if isBlank byte then some state.endWord else state.plain byte
  | .quoted =>
    if byte = quote then some (state.enter .word) else some (state.extend byte .quoted)
  | .escape => if byte = 10 then none else some (state.extend byte .word)
  | .redirect => if byte = 38 then some (state.enter .descriptor) else none
  | .descriptor => if isDigit byte then some (state.enter .redirected) else none
  | .redirected =>
    if isDigit byte then some (state.enter .redirected)
    else if isBlank byte then some (state.enter .blank)
    else none

def run (state : State) (text : Bytes) : Option State :=
  text.foldlM step state

def State.finish (state : State) : Option (List Bytes) :=
  match state.mode with
  | .blank | .redirected => some state.words
  | .number | .word => some (state.words ++ [state.current])
  | .quoted | .escape | .redirect | .descriptor => none

def split (command : Bytes) : Option (List Bytes) :=
  (run ⟨[], [], .blank⟩ command).bind State.finish

/-! ### Quoting -/

theorem run_append (state : State) (front back : Bytes) :
    run state (front ++ back) = (run state front).bind fun state => run state back :=
  foldlM_append

theorem run_concat (state : State) (front : Bytes) (byte : UInt8) :
    run state (front ++ [byte]) = (run state front).bind fun state => step state byte := by
  simp [run]

theorem mode_behind_quote {state next : State} (taken : step state quote = some next) :
    next.mode = .word ∨ next.mode = .quoted := by
  have other : isBlank quote = false ∧ isDigit quote = false ∧ quote ≠ 62 ∧ quote ≠ 38 ∧
      quote ≠ 10 := by decide
  cases mode : state.mode <;> simp only [step, State.plain, mode, other, if_true, if_false,
    reduceCtorEq, Bool.false_eq_true, Option.some.injEq] at taken <;> subst taken <;>
    simp [State.enter, State.extend]

theorem run_quoted {text : Bytes} (noQuote : quote ∉ text) (words : List Bytes) (current : Bytes) :
    run ⟨words, current, .quoted⟩ text = some ⟨words, current ++ text, .quoted⟩ := by
  induction text generalizing current with
  | nil => simp [run]
  | cons byte text ih =>
    simp only [mem_cons, not_or] at noQuote
    have other : byte ≠ quote := Ne.symm noQuote.1
    have next : step ⟨words, current, .quoted⟩ byte = some ⟨words, current ++ [byte], .quoted⟩ := by
      simp [step, other, State.extend]
    have rest := ih noQuote.2 (current ++ [byte])
    rw [append_assoc] at rest
    rw [run, foldlM_cons, next]
    exact rest

/-- A byte in a quotation, where a quote ends it, is escaped, and begins a new one. -/
def escapeByte (byte : UInt8) : Bytes :=
  if byte = quote then [quote, backslash, quote, quote] else [byte]

def escape (text : Bytes) : Bytes :=
  text.flatMap escapeByte

theorem run_escapeByte (words : List Bytes) (current : Bytes) (byte : UInt8) :
    run ⟨words, current, .quoted⟩ (escapeByte byte) = some ⟨words, current ++ [byte], .quoted⟩ := by
  by_cases same : byte = quote
  · subst same
    rfl
  · rw [escapeByte, if_neg same]
    exact run_quoted (by simpa using Ne.symm same) words current

theorem run_escape (words : List Bytes) (current text : Bytes) :
    run ⟨words, current, .quoted⟩ (escape text) = some ⟨words, current ++ text, .quoted⟩ := by
  induction text generalizing current with
  | nil => simp [escape, run]
  | cons byte text ih =>
    have rest := ih (current ++ [byte])
    rw [append_assoc] at rest
    rw [escape, flatMap_cons, run_append, run_escapeByte]
    exact rest

theorem length_escape (text : Bytes) :
    (escape text).length = text.length + 3 * text.count quote := by
  induction text with
  | nil => rfl
  | cons byte text ih =>
    by_cases same : byte = quote <;> simp_all [escape, escapeByte] <;> omega

theorem count_escape (text : Bytes) : (escape text).count quote = 3 * text.count quote := by
  have piece (byte : UInt8) : (escapeByte byte).count quote = 3 * [byte].count quote := by
    by_cases same : byte = quote
    · subst same
      rfl
    · simp [escapeByte, same]
  induction text with
  | nil => rfl
  | cons byte text ih =>
    have first : (byte :: text).count quote = [byte].count quote + text.count quote := by
      rw [← singleton_append, count_append]
    rw [escape, flatMap_cons, count_append, piece, ← escape, ih, first, Nat.mul_add]

theorem escape_concat (text : Bytes) (byte : UInt8) :
    escape (text ++ [byte]) = escape text ++ escapeByte byte := by
  simp [escape]

theorem suffix_escape {text quotes : Bytes} (suffix : quotes <:+ escape text)
    (nonempty : quotes ≠ []) (areQuotes : ∀ byte ∈ quotes, byte = quote) :
    quotes.length ≤ 2 ∧ text.getLast? = some quote := by
  rcases eq_nil_or_concat text with rfl | ⟨front, byte, rfl⟩
  · exact absurd (suffix_nil.mp suffix) nonempty
  · rw [concat_eq_append] at suffix ⊢
    rw [escape_concat] at suffix
    by_cases same : byte = quote
    · subst same
      refine ⟨?_, by simp⟩
      by_contra long
      have three : [backslash, quote, quote].length ≤ quotes.length := Nat.lt_of_not_le long
      have whole : [backslash, quote, quote] <:+ escape front ++ escapeByte quote :=
        ⟨escape front ++ [quote], by simp [escapeByte]⟩
      have inQuotes := suffix_of_suffix_length_le whole suffix three
      exact absurd (areQuotes backslash (inQuotes.mem mem_cons_self)) (by decide)
    · -- The last byte would be one of the quotes.
      rw [escapeByte, if_neg same] at suffix
      have last := suffix_of_suffix_length_le (suffix_append (escape front) [byte]) suffix
        (length_pos_iff.mpr nonempty)
      exact absurd (areQuotes byte (last.mem mem_cons_self)) same

/-! ### Counting -/

def State.kept (state : State) : Bytes :=
  state.words.flatten ++ state.current

def Mode.signs : Mode → ℕ
  | .redirect => 2
  | .descriptor => 3
  | .redirected => 4
  | _ => 0

def Mode.Between : Mode → Prop
  | .blank | .redirect | .descriptor | .redirected => True
  | _ => False

/-- What is not kept of a text: quotes, which come in pairs, a backslash for each quote that is
kept, a sign behind each word, and redirections. -/
structure Counted (text : Bytes) (state : State) (quotes backslashes signs : ℕ) : Prop where
  length : text.length = state.kept.length + quotes + backslashes + signs
  count : text.count quote = quotes + state.kept.count quote
  literal : state.kept.count quote + (if state.mode = .escape then 1 else 0) ≤ backslashes
  separated : state.words.length + state.mode.signs ≤ signs
  paired : quotes % 2 = if state.mode = .quoted then 1 else 0
  number : state.mode = .number → state.current ≠ [] ∧ quote ∉ state.current
  between : state.mode.Between → state.current = []

namespace Counted

variable {text : Bytes} {state next : State} {byte : UInt8} {quotes backslashes signs : ℕ}

theorem initial : Counted [] ⟨[], [], .blank⟩ 0 0 0 := by
  constructor <;> simp [State.kept, Mode.signs]

section Byte

variable (counted : Counted text state quotes backslashes signs)

include counted

theorem sign {mode : Mode} (other : byte ≠ quote) (isBetween : state.mode.Between)
    (staysBetween : mode.Between) (next : mode.signs ≤ state.mode.signs + 1) :
    Counted (text ++ [byte]) (state.enter mode) quotes backslashes (signs + 1) := by
  rcases counted with ⟨length, count, literal, separated, paired, number, between⟩
  have empty := between isBetween
  have notQuoted : state.mode ≠ .quoted ∧ state.mode ≠ .escape := by
    constructor <;> intro same <;> simp [same, Mode.Between] at isBetween
  have stays : mode ≠ .quoted ∧ mode ≠ .escape ∧ mode ≠ .number := by
    refine ⟨?_, ?_, ?_⟩ <;> rintro rfl <;> simp [Mode.Between] at staysBetween
  constructor <;> simp_all [State.kept, State.enter] <;> omega

theorem endWord (other : byte ≠ quote) (mode : state.mode = .number ∨ state.mode = .word) :
    Counted (text ++ [byte]) state.endWord quotes backslashes (signs + 1) := by
  rcases counted with ⟨length, count, literal, separated, paired, -, -⟩
  rcases mode with mode | mode <;>
    constructor <;> simp_all [State.kept, State.endWord, Mode.signs] <;> omega

theorem redirect (other : byte ≠ quote) (mode : state.mode = .number) :
    Counted (text ++ [byte]) ⟨state.words, [], .redirect⟩ quotes backslashes
      (signs + state.current.length + 1) := by
  rcases counted with ⟨length, count, literal, separated, paired, number, -⟩
  rcases number mode with ⟨nonempty, noQuote⟩
  have positive := length_pos_iff.mpr nonempty
  have none := count_eq_zero.mpr noQuote
  constructor <;> simp_all [State.kept, Mode.signs] <;> omega

theorem extend {mode : Mode} (other : byte ≠ quote) (notEscape : state.mode ≠ .escape)
    (same : mode = .quoted ↔ state.mode = .quoted)
    (isWord : mode = .word ∨ mode = .quoted ∨ mode = .number ∧ state.mode ≠ .word) :
    Counted (text ++ [byte]) (state.extend byte mode) quotes backslashes signs := by
  rcases counted with ⟨length, count, literal, separated, paired, number, between⟩
  have noSigns : mode.signs = 0 ∧ mode ≠ .escape ∧ ¬mode.Between := by
    rcases isWord with rfl | rfl | ⟨rfl, _⟩ <;> simp [Mode.signs, Mode.Between]
  constructor
  · simp only [State.kept, State.extend, length_append, length_singleton, length]
    omega
  · simpa [State.kept, State.extend, other] using count
  · simpa [State.kept, State.extend, other, noSigns, notEscape] using literal
  · simp only [State.extend, noSigns]
    omega
  · simpa [State.extend, same] using paired
  · -- A number goes on, or it begins where no word has begun.
    intro isNumber
    have isNumber : mode = .number := isNumber
    have noQuote : quote ∉ state.current := by
      cases before : state.mode <;> simp_all [Mode.Between]
    simp [State.extend, noQuote, Ne.symm other]
  · intro isBetween
    exact absurd isBetween noSigns.2.2

theorem literal_byte (mode : state.mode = .escape) :
    Counted (text ++ [byte]) (state.extend byte .word) quotes backslashes signs := by
  rcases counted with ⟨length, count, literal, separated, paired, -, -⟩
  have atMostOne : [byte].count quote ≤ 1 := count_le_length
  constructor <;> simp_all [State.kept, State.extend, Mode.signs, Mode.Between] <;> omega

theorem openQuote (mode : state.mode = .blank ∨ state.mode = .number ∨ state.mode = .word) :
    Counted (text ++ [quote]) (state.enter .quoted) (quotes + 1) backslashes signs := by
  rcases counted with ⟨length, count, literal, separated, paired, -, -⟩
  rcases mode with mode | mode | mode <;>
    constructor <;> simp_all [State.kept, State.enter, Mode.signs, Mode.Between] <;> omega

theorem closeQuote (mode : state.mode = .quoted) :
    Counted (text ++ [quote]) (state.enter .word) (quotes + 1) backslashes signs := by
  rcases counted with ⟨length, count, literal, separated, paired, -, -⟩
  constructor <;> simp_all [State.kept, State.enter, Mode.signs, Mode.Between] <;> omega

theorem openEscape (mode : state.mode = .blank ∨ state.mode = .number ∨ state.mode = .word) :
    Counted (text ++ [backslash]) (state.enter .escape) quotes (backslashes + 1) signs := by
  have other : backslash ≠ quote := by decide
  rcases counted with ⟨length, count, literal, separated, paired, -, -⟩
  rcases mode with mode | mode | mode <;>
    constructor <;> simp_all [State.kept, State.enter, Mode.signs, Mode.Between] <;> omega

theorem plain (mode : state.mode = .blank ∨ state.mode = .number ∨ state.mode = .word)
    (taken : state.plain byte = some next) :
    ∃ quotes backslashes signs, Counted (text ++ [byte]) next quotes backslashes signs := by
  unfold State.plain at taken
  have notQuoted : state.mode ≠ .escape ∧ state.mode ≠ .quoted := by
    rcases mode with mode | mode | mode <;> simp [mode]
  split_ifs at taken with isQuote isBackslash isSpecial digit <;>
    simp only [Option.some.injEq] at taken <;> subst taken
  · subst isQuote
    exact ⟨_, _, _, counted.openQuote mode⟩
  · subst isBackslash
    exact ⟨_, _, _, counted.openEscape mode⟩
  · exact ⟨_, _, _, counted.extend isQuote notQuoted.1 (by simp [notQuoted])
      (.inr (.inr ⟨rfl, digit.1⟩))⟩
  · exact ⟨_, _, _, counted.extend isQuote notQuoted.1 (by simp [notQuoted]) (.inl rfl)⟩

theorem step (taken : step state byte = some next) :
    ∃ quotes backslashes signs, Counted (text ++ [byte]) next quotes backslashes signs := by
  have ofBlank (blank : isBlank byte = true) : byte ≠ quote := by
    rintro rfl
    simp [isBlank, quote] at blank
  have ofDigit (digit : isDigit byte = true) : byte ≠ quote := by
    rintro rfl
    simp [isDigit, quote] at digit
  unfold Shell.step at taken
  cases mode : state.mode <;> simp only [mode] at taken
  case blank =>
    split_ifs at taken with blank
    · cases taken
      exact ⟨_, _, _, counted.sign (ofBlank blank) (by simp [mode, Mode.Between]) trivial
        (by simp [Mode.signs])⟩
    · exact counted.plain (.inl mode) taken
  case number =>
    split_ifs at taken with blank greater
    · cases taken
      exact ⟨_, _, _, counted.endWord (ofBlank blank) (.inl mode)⟩
    · cases taken
      have other : byte ≠ quote := by
        rw [greater]
        decide
      exact ⟨_, _, _, counted.redirect other mode⟩
    · exact counted.plain (.inr (.inl mode)) taken
  case word =>
    split_ifs at taken with blank
    · cases taken
      exact ⟨_, _, _, counted.endWord (ofBlank blank) (.inr mode)⟩
    · exact counted.plain (.inr (.inr mode)) taken
  case quoted =>
    split_ifs at taken with isQuote
    · cases taken
      rw [isQuote]
      exact ⟨_, _, _, counted.closeQuote mode⟩
    · cases taken
      exact ⟨_, _, _, counted.extend isQuote (by simp [mode]) (by simp [mode]) (.inr (.inl rfl))⟩
  case escape =>
    split_ifs at taken
    cases taken
    exact ⟨_, _, _, counted.literal_byte mode⟩
  case redirect =>
    split_ifs at taken with ampersand
    cases taken
    have other : byte ≠ quote := by
      rw [ampersand]
      decide
    exact ⟨_, _, _, counted.sign other (by simp [mode, Mode.Between]) trivial
      (by simp [mode, Mode.signs])⟩
  case descriptor =>
    split_ifs at taken with digit
    cases taken
    exact ⟨_, _, _, counted.sign (ofDigit digit) (by simp [mode, Mode.Between]) trivial
      (by simp [mode, Mode.signs])⟩
  case redirected =>
    split_ifs at taken with digit blank
    · cases taken
      exact ⟨_, _, _, counted.sign (ofDigit digit) (by simp [mode, Mode.Between]) trivial
        (by simp [mode, Mode.signs])⟩
    · cases taken
      exact ⟨_, _, _, counted.sign (ofBlank blank) (by simp [mode, Mode.Between]) trivial
        (by simp [Mode.signs])⟩

end Byte

theorem of_run (text : Bytes) : ∀ {state}, run ⟨[], [], .blank⟩ text = some state →
    ∃ quotes backslashes signs, Counted text state quotes backslashes signs := by
  induction text using List.reverseRecOn with
  | nil =>
    intro state reached
    cases reached
    exact ⟨0, 0, 0, initial⟩
  | append_singleton text byte ih =>
    intro state reached
    rw [run_concat, Option.bind_eq_some_iff] at reached
    rcases reached with ⟨before, reached, taken⟩
    rcases ih reached with ⟨_, _, _, counted⟩
    exact counted.step taken

theorem finish (counted : Counted text state quotes backslashes signs) {words : List Bytes}
    (finished : state.finish = some words) :
    text.length = words.flatten.length + quotes + backslashes + signs ∧
      text.count quote = quotes + words.flatten.count quote ∧
      words.flatten.count quote ≤ backslashes ∧ quotes % 2 = 0 ∧ words.length ≤ signs + 1 ∧
      (state.mode.Between → words.length + state.mode.signs ≤ signs) := by
  rcases counted with ⟨length, count, literal, separated, paired, -, between⟩
  unfold State.finish at finished
  cases mode : state.mode <;> simp only [mode, Option.some.injEq, reduceCtorEq] at finished <;>
    subst finished <;> simp_all [State.kept, Mode.Between, Mode.signs] <;> omega

end Counted

end TigerMixer.Shell
