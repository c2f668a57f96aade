import TigerMixer.Data.ByteString

/-!
# Parsers that write as they go

A parser reads a byte string from the front. It may stop at any place, and what it has written by
then stays written. `Parser.Reads` is the round trip: on an encoded value, followed by some rest, a
parser returns the value and leaves the rest.
-/

namespace TigerMixer.Text

variable {ω ε α β : Type}

/-- The writes of a parser in their order, and a value with the rest of the input or the reason for
stopping. -/
structure Parsed (ω ε α : Type) where
  writes : List ω
  result : Except ε (α × Bytes)

def Parser (ω ε α : Type) : Type := Bytes → Parsed ω ε α

namespace Parser

def pure (value : α) : Parser ω ε α := fun input => ⟨[], .ok (value, input)⟩

def bind (parser : Parser ω ε α) (next : α → Parser ω ε β) : Parser ω ε β := fun input =>
  match parser input with
  | ⟨writes, .error reason⟩ => ⟨writes, .error reason⟩
  | ⟨writes, .ok (value, rest)⟩ =>
    let later := next value rest
    ⟨writes ++ later.writes, later.result⟩

instance : Monad (Parser ω ε) where
  pure := pure
  bind := bind

def write (item : ω) : Parser ω ε Unit := fun input => ⟨[item], .ok ((), input)⟩

def stop (reason : ε) : Parser ω ε α := fun _ => ⟨[], .error reason⟩

def remaining : Parser ω ε Bytes := fun input => ⟨[], .ok (input, input)⟩

def take (length : ℕ) (reason : ε) : Parser ω ε Bytes := fun input =>
  if input.length < length then ⟨[], .error reason⟩
  else ⟨[], .ok (input.take length, input.drop length)⟩

def require (condition : Bool) (reason : ε) : Parser ω ε Unit :=
  if condition then pure () else stop reason

def ofOption (reason : ε) : Option α → Parser ω ε α
  | none => stop reason
  | some value => pure value

def Reads (parser : Parser ω ε α) (input rest : Bytes) (value : α) (writes : List ω) : Prop :=
  parser (input ++ rest) = ⟨writes, .ok (value, rest)⟩

variable {parser : Parser ω ε α} {next : α → Parser ω ε β} {input later rest : Bytes} {value : α}
  {result : β} {writes laterWrites : List ω} {reason : ε}

theorem Reads.bind (first : parser.Reads input (later ++ rest) value writes)
    (second : (next value).Reads later rest result laterWrites) :
    (parser >>= next).Reads (input ++ later) rest result (writes ++ laterWrites) := by
  simp only [Reads] at first second ⊢
  change Parser.bind parser next (input ++ later ++ rest) = _
  rw [Parser.bind, List.append_assoc, first]
  simp only [second]

theorem bind_cases (parser : Parser ω ε α) (next : α → Parser ω ε β) (input : Bytes) :
    (∃ writes reason, parser input = ⟨writes, .error reason⟩ ∧
      (parser >>= next) input = ⟨writes, .error reason⟩) ∨
    ∃ writes value rest, parser input = ⟨writes, .ok (value, rest)⟩ ∧
      (parser >>= next) input = ⟨writes ++ (next value rest).writes, (next value rest).result⟩ := by
  have sequence : (parser >>= next) input = Parser.bind parser next input := rfl
  rw [sequence, Parser.bind]
  rcases parser input with ⟨writes, reason | ⟨value, rest⟩⟩
  · exact .inl ⟨writes, reason, rfl, rfl⟩
  · exact .inr ⟨writes, value, rest, rfl, rfl⟩

theorem bind_of_stop (stops : parser input = ⟨writes, .error reason⟩) :
    (parser >>= next) input = ⟨writes, .error reason⟩ := by
  change Parser.bind parser next input = _
  rw [Parser.bind, stops]

theorem Reads.bind_of_stop (first : parser.Reads input rest value writes)
    (second : next value rest = ⟨laterWrites, .error reason⟩) :
    (parser >>= next) (input ++ rest) = ⟨writes ++ laterWrites, .error reason⟩ := by
  rw [Reads] at first
  change Parser.bind parser next (input ++ rest) = _
  rw [Parser.bind, first]
  simp only [second]

theorem Reads.bind_writes (first : parser.Reads [] (input ++ rest) value writes)
    (second : (next value).Reads input rest result laterWrites) :
    (parser >>= next).Reads input rest result (writes ++ laterWrites) :=
  first.bind second

theorem Reads.bind_nil (first : parser.Reads [] (input ++ rest) value [])
    (second : (next value).Reads input rest result writes) :
    (parser >>= next).Reads input rest result writes :=
  first.bind second

theorem Reads.write_bind {next : Unit → Parser ω ε β} (item : ω)
    (second : (next ()).Reads input rest result writes) :
    (write item >>= next).Reads input rest result (item :: writes) :=
  bind_writes (rfl : (write item : Parser ω ε Unit).Reads [] (input ++ rest) () [item]) second

theorem Reads.bind_last (first : parser.Reads input rest value writes)
    (second : (next value).Reads [] rest result laterWrites) :
    (parser >>= next).Reads input rest result (writes ++ laterWrites) := by
  have both := @Reads.bind _ _ _ _ parser next input [] rest _ _ _ _ first second
  rwa [List.append_nil] at both

theorem Reads.map (convert : α → β) (first : parser.Reads input rest value writes) :
    (convert <$> parser).Reads input rest (convert value) writes := by
  have both := @Reads.bind_last _ _ _ _ parser (fun value => Pure.pure (convert value)) input rest
    _ _ _ _ first rfl
  rwa [List.append_nil] at both

theorem reads_pure (value : α) (rest : Bytes) :
    (Pure.pure value : Parser ω ε α).Reads [] rest value [] :=
  rfl

theorem reads_write (item : ω) (rest : Bytes) :
    (write item : Parser ω ε Unit).Reads [] rest () [item] :=
  rfl

theorem reads_remaining (rest : Bytes) : (remaining : Parser ω ε Bytes).Reads [] rest rest [] :=
  rfl

theorem reads_take (input rest : Bytes) :
    (take input.length reason : Parser ω ε Bytes).Reads input rest input [] := by
  simp [Reads, take]

theorem reads_take_of_length {length : ℕ} (exact : input.length = length) (rest : Bytes) :
    (take length reason : Parser ω ε Bytes).Reads input rest input [] :=
  exact ▸ reads_take input rest

theorem reads_require {condition : Bool} (holds : condition = true) (rest : Bytes) :
    (require condition reason : Parser ω ε Unit).Reads [] rest () [] := by
  rw [require, if_pos holds]
  exact reads_pure () rest

theorem reads_ofOption {option : Option α} (some : option = some value) (rest : Bytes) :
    (ofOption reason option : Parser ω ε α).Reads [] rest value [] := by
  rw [some]
  exact reads_pure value rest

end Parser

end TigerMixer.Text
