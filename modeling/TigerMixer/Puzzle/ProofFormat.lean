import TigerMixer.Text.CString
import TigerMixer.Text.Parser

/-!
# The format of the puzzle proofs

A puzzle proof is stored as two records, of four PARI values with their lengths and a point, and so
is the proof that relates two puzzles. `read_cldl_fixed` returns without a value when a length is
out of range, and the second record is then read from behind that length.
-/

namespace TigerMixer.A2L.ProofFormat

open Bytes Text Parser

variable {G E : Type}

structure Encoding (G E : Type) where
  genToStr : G → Bytes
  ecWriteBin : E → Bytes

structure Decoding (G E : Type) where
  gpReadStr : Bytes → Option G
  ecReadBin : Bytes → Option E

/-- The texts of PARI values and the compressed points, as far as reading gives back what was
written. -/
structure Library (G E : Type) [Zero E] extends Encoding G E, Decoding G E where
  gpReadStr_genToStr : ∀ value, gpReadStr (cString (genToStr value)) = some value
  length_ecWriteBin : ∀ point, (ecWriteBin point).length = 33
  ecReadBin_ecWriteBin : ∀ point, point ≠ 0 → ecReadBin (ecWriteBin point) = some point
  ecReadBin_zero : ecReadBin (ecWriteBin 0) = none

structure Cldl (G E : Type) where
  t1 : G
  t2 : E
  t3 : G
  u1 : G
  u2 : G
deriving DecidableEq

def Cldl.values (proof : Cldl G E) : List G :=
  [proof.t1, proof.t3, proof.u1, proof.u2]

structure PuzzleProof (G E : Type) where
  alphaEncProof : Cldl G E
  r0EncProof : Cldl G E
deriving DecidableEq

structure PuzzleRelation (G E : Type) where
  tumblerProof : Cldl G E
  auditorProof : Cldl G E

inductive Write (G E : Type) where
  | t1 (value : G)
  | t2 (point : E)
  | t3 (value : G)
  | u1 (value : G)
  | u2 (value : G)

def Write.apply (proof : Cldl G E) : Write G E → Cldl G E
  | .t1 value => { proof with t1 := value }
  | .t2 point => { proof with t2 := point }
  | .t3 value => { proof with t3 := value }
  | .u1 value => { proof with u1 := value }
  | .u2 value => { proof with u2 := value }

inductive Stop where
  /-- `read_cldl_fixed` returns, with the rest of the input. -/
  | tooLong (rest : Bytes)
  | noMemory (rest : Bytes)
  /-- An error of a library, or a read behind the input. -/
  | fault

abbrev Reader (G E : Type) := Parser (Write G E) Stop

section Format

variable (encoding : Encoding G E) (decoding : Decoding G E) (malloc : Bytes → Bool)

def writeText (value : G) : Bytes :=
  writeLe 8 (encoding.genToStr value).length ++ encoding.genToStr value

def writeCldlFixed (proof : Cldl G E) : Bytes :=
  writeText encoding proof.t1 ++ (encoding.ecWriteBin proof.t2 ++ (writeText encoding proof.t3 ++
    (writeText encoding proof.u1 ++ writeText encoding proof.u2)))

def writeRecords (first second : Cldl G E) : Bytes × ℕ :=
  let dst := writeCldlFixed encoding first ++ writeCldlFixed encoding second
  (dst, dst.length)

def zkComprehensivePuzzleSerialize (proof : PuzzleProof G E) : Bytes × ℕ :=
  writeRecords encoding proof.alphaEncProof proof.r0EncProof

def zkPuzzleRelationSerialize (proof : PuzzleRelation G E) : Bytes × ℕ :=
  writeRecords encoding proof.tumblerProof proof.auditorProof

def readSize : Reader G E ℕ :=
  readLe <$> take 8 .fault

/-- Whether there is memory for a text depends on its place. -/
def readText : Reader G E G := do
  let length ← readSize
  let rest ← remaining
  require (length ≤ 10000) (.tooLong rest)
  require (malloc rest) (.noMemory rest)
  let text ← take length .fault
  ofOption .fault (decoding.gpReadStr (cString text))

def readPoint : Reader G E E := do
  let bytes ← take 33 .fault
  ofOption .fault (decoding.ecReadBin bytes)

def readCldlFixed : Reader G E Unit := do
  write (.t1 (← readText decoding malloc))
  write (.t2 (← readPoint decoding))
  write (.t3 (← readText decoding malloc))
  write (.u1 (← readText decoding malloc))
  write (.u2 (← readText decoding malloc))

end Format

def left : Except Stop (Unit × Bytes) → Option Bytes
  | .ok (_, rest) | .error (.tooLong rest) | .error (.noMemory rest) => some rest
  | .error .fault => none

theorem left_eq_none_iff {result : Except Stop (Unit × Bytes)} :
    left result = none ↔ result = .error .fault := by
  rcases result with (_ | _ | _) | _ <;> simp [left]

def TooLong (result : Except Stop (Unit × Bytes)) : Prop :=
  ∃ rest, result = .error (.tooLong rest)

section Records

variable (encoding : Encoding G E) (decoding : Decoding G E) (malloc : Bytes → Bool)

/-- The two records and the number of bytes, with `RLC_OK`. -/
def readRecords (first second : Cldl G E) (src : Bytes) : Option ((Cldl G E × Cldl G E) × ℕ) := do
  let front := readCldlFixed decoding malloc src
  let rest ← left front.result
  let back := readCldlFixed decoding malloc rest
  let last ← left back.result
  return ((front.writes.foldl Write.apply first, back.writes.foldl Write.apply second),
    src.length - last.length)

def zkComprehensivePuzzleDeserialize (proof : PuzzleProof G E) (src : Bytes) :
    Option (PuzzleProof G E × ℕ) :=
  (readRecords decoding malloc proof.alphaEncProof proof.r0EncProof src).map
    fun ((alphaEncProof, r0EncProof), read) => ({ alphaEncProof, r0EncProof }, read)

def zkPuzzleRelationDeserialize (proof : PuzzleRelation G E) (src : Bytes) :
    Option (PuzzleRelation G E × ℕ) :=
  (readRecords decoding malloc proof.tumblerProof proof.auditorProof src).map
    fun ((tumblerProof, auditorProof), read) => ({ tumblerProof, auditorProof }, read)

def OutOfRange (src : Bytes) : Prop :=
  TooLong (readCldlFixed decoding malloc src).result ∨
    ∃ rest, left (readCldlFixed decoding malloc src).result = some rest ∧
      TooLong (readCldlFixed decoding malloc rest).result

structure Short (proof : Cldl G E) : Prop where
  t1 : (encoding.genToStr proof.t1).length ≤ 10000
  t3 : (encoding.genToStr proof.t3).length ≤ 10000
  u1 : (encoding.genToStr proof.u1).length ≤ 10000
  u2 : (encoding.genToStr proof.u2).length ≤ 10000

/-- A record whose values and point are read back. -/
structure Recoverable (proof : Cldl G E) : Prop where
  values : ∀ value ∈ proof.values, (encoding.genToStr value).length ≤ 10000 ∧
    decoding.gpReadStr (cString (encoding.genToStr value)) = some value
  length : (encoding.ecWriteBin proof.t2).length = 33
  point : decoding.ecReadBin (encoding.ecWriteBin proof.t2) = some proof.t2

variable {encoding decoding malloc} {proof : Cldl G E} {rest : Bytes}

theorem reads_size {length : ℕ} (short : length ≤ 10000) (rest : Bytes) :
    (readSize : Reader G E ℕ).Reads (writeLe 8 length) rest length [] := by
  have read : (readSize : Reader G E ℕ).Reads (writeLe 8 length) rest _ [] :=
    (reads_take_of_length (length_writeLe 8 length) rest).map readLe
  rwa [readLe_writeLe_of_lt (by omega)] at read

theorem reads_point {point : E} (length : (encoding.ecWriteBin point).length = 33)
    (read : decoding.ecReadBin (encoding.ecWriteBin point) = some point) (rest : Bytes) :
    (readPoint decoding : Reader G E E).Reads (encoding.ecWriteBin point) rest point [] := by
  apply (reads_take_of_length length _).bind_last
  exact reads_ofOption read _

section Memory

variable (memory : ∀ rest, malloc rest = true)

include memory

theorem reads_text {value : G}
    (recoverable : (encoding.genToStr value).length ≤ 10000 ∧
      decoding.gpReadStr (cString (encoding.genToStr value)) = some value) (rest : Bytes) :
    (readText decoding malloc : Reader G E G).Reads (writeText encoding value) rest value [] := by
  apply (reads_size recoverable.1 _).bind
  apply (reads_remaining _).bind_nil
  apply (reads_require (decide_eq_true recoverable.1) _).bind_nil
  apply (reads_require (memory _) _).bind_nil
  apply (reads_take _ _).bind_last
  exact reads_ofOption recoverable.2 _

theorem reads_cldl (recoverable : Recoverable encoding decoding proof) (rest : Bytes) :
    (readCldlFixed decoding malloc).Reads (writeCldlFixed encoding proof) rest ()
      [.t1 proof.t1, .t2 proof.t2, .t3 proof.t3, .u1 proof.u1, .u2 proof.u2] := by
  have values := recoverable.values
  simp only [Cldl.values, List.forall_mem_cons] at values
  rcases values with ⟨t1, t3, u1, u2, -⟩
  apply (reads_text memory t1 _).bind
  apply Reads.write_bind
  apply (reads_point recoverable.length recoverable.point _).bind
  apply Reads.write_bind
  apply (reads_text memory t3 _).bind
  apply Reads.write_bind
  apply (reads_text memory u1 _).bind
  apply Reads.write_bind
  apply (reads_text memory u2 _).bind_last
  exact reads_write _ _

theorem readRecords_writeRecords {first second : Cldl G E} (before behind : Cldl G E)
    (front : Recoverable encoding decoding first) (back : Recoverable encoding decoding second)
    (rest : Bytes) :
    readRecords decoding malloc before behind ((writeRecords encoding first second).1 ++ rest) =
      some ((first, second), (writeRecords encoding first second).2) := by
  have readFront := reads_cldl memory front (writeCldlFixed encoding second ++ rest)
  have readBack := reads_cldl memory back rest
  rw [Reads] at readFront readBack
  simp [readRecords, writeRecords, readFront, readBack, left, Write.apply]
  omega

end Memory

end Records

section Library

variable [Zero E] {library : Library G E} {malloc : Bytes → Bool}
  (memory : ∀ rest, malloc rest = true)

theorem Short.recoverable {proof : Cldl G E} (short : Short library.toEncoding proof)
    (nonzero : proof.t2 ≠ 0) : Recoverable library.toEncoding library.toDecoding proof where
  values value member := by
    refine ⟨?_, library.gpReadStr_genToStr value⟩
    simp only [Cldl.values, List.mem_cons, List.not_mem_nil, or_false] at member
    rcases member with rfl | rfl | rfl | rfl
    exacts [short.t1, short.t3, short.u1, short.u2]
  length := library.length_ecWriteBin proof.t2
  point := library.ecReadBin_ecWriteBin proof.t2 nonzero

include memory

theorem readCldlFixed_zero {proof : Cldl G E} (short : Short library.toEncoding proof)
    (zero : proof.t2 = 0) (rest : Bytes) :
    (readCldlFixed library.toDecoding malloc
      (writeCldlFixed library.toEncoding proof ++ rest)).result = .error .fault := by
  suffices stops : readCldlFixed library.toDecoding malloc
      (writeCldlFixed library.toEncoding proof ++ rest) =
        ⟨[] ++ ([.t1 proof.t1] ++ []), .error .fault⟩ by
    rw [stops]
  rw [writeCldlFixed, List.append_assoc, List.append_assoc, zero]
  apply (reads_text memory ⟨short.t1, library.gpReadStr_genToStr _⟩ _).bind_of_stop
  apply (reads_write _ _).bind_of_stop
  apply bind_of_stop
  apply (reads_take_of_length (library.length_ecWriteBin 0) _).bind_of_stop
  rw [library.ecReadBin_zero]
  rfl

theorem deserialize_serialize_iff (before proof : PuzzleProof G E)
    (alpha : Short library.toEncoding proof.alphaEncProof)
    (r0 : Short library.toEncoding proof.r0EncProof) (rest : Bytes) :
    zkComprehensivePuzzleDeserialize library.toDecoding malloc before
        ((zkComprehensivePuzzleSerialize library.toEncoding proof).1 ++ rest) =
      some (proof, (zkComprehensivePuzzleSerialize library.toEncoding proof).2) ↔
    proof.alphaEncProof.t2 ≠ 0 ∧ proof.r0EncProof.t2 ≠ 0 := by
  rw [zkComprehensivePuzzleDeserialize, zkComprehensivePuzzleSerialize]
  by_cases first : proof.alphaEncProof.t2 = 0
  · simp [readRecords, writeRecords, readCldlFixed_zero memory alpha first, left, first]
  by_cases second : proof.r0EncProof.t2 = 0
  · have read := reads_cldl memory (alpha.recoverable first)
      (writeCldlFixed library.toEncoding proof.r0EncProof ++ rest)
    rw [Reads] at read
    simp [readRecords, writeRecords, read, readCldlFixed_zero memory r0 second, left, second]
  · simp [readRecords_writeRecords memory _ _ (alpha.recoverable first) (r0.recoverable second),
      first, second]

end Library

inductive SamplePoint where
  | neutral
  | other
  deriving DecidableEq

instance : Zero SamplePoint := ⟨.neutral⟩

def sampleLibrary : Library Bool SamplePoint where
  genToStr value := [if value then 49 else 48]
  gpReadStr text := if text = [49] then some true else if text = [48] then some false else none
  ecWriteBin point := List.replicate 33 (if point = 0 then 0 else 2)
  ecReadBin bytes := if bytes = List.replicate 33 2 then some .other else none
  gpReadStr_genToStr := by decide
  length_ecWriteBin _ := List.length_replicate
  ecReadBin_ecWriteBin point := by cases point <;> decide
  ecReadBin_zero := by decide

end TigerMixer.A2L.ProofFormat
