import TigerMixer.Puzzle.Linkability
import TigerMixer.Puzzle.ProofFormat

/-!
# The bytes of the first message

`parse_tumbler_share` on bytes, and their packing in `payment_init_handler`. The parser copies
fields into the auditor's memory while it reads, and jumps to its end at the first field that does
not fit. The libraries are a parameter; where they fail, the process ends. On packed messages this
is `TigerMixer.A2L.Auditor.parseTumblerShare`.
-/

namespace TigerMixer.Auditor

open Bytes A2L Text List

/-- The libraries and the memory of the parser. A PARI value is a form or a number. -/
structure Decoders (E : Type) (C : Type) extends ProofFormat.Decoding (C ⊕ ℕ) E where
  malloc : Bytes → Bool
  /-- What stands in the memory of a new proof. -/
  unset : ProofFormat.PuzzleRelation (C ⊕ ℕ) E
  /-- What stands in memory behind the message. -/
  behind : Bytes

inductive Stop
  | cleanup
  | ends
deriving DecidableEq

structure PresigBytes where
  r : Bytes
  s : Bytes
  R : Bytes
  piA : Bytes
  piB : Bytes
  piZ : Bytes
deriving DecidableEq

inductive Write
  | aliceGAbt (point : Bytes)
  | saveR0BetaTau (scalar : ℕ)
  | alicePresig (presig : PresigBytes)
  | aliceFinal (r s : Bytes)
  | aliceEscrowId (text : Bytes)
  | aliceEscrowTxHash (text : Bytes)
deriving DecidableEq

/-- What outlives an audit: the fields that the parser sets, with their flags, and the global
variable `saved_r0_beta_tau`. The other one, `saved_r0`, is only read and set by
`parse_tumbler_second_share`, after the second id has been used. -/
structure Memory where
  aliceGAbt : Option Bytes
  savedR0BetaTau : Option ℕ
  alicePresig : Option PresigBytes
  aliceFinal : Option (Bytes × Bytes)
  aliceEscrowId : Bytes
  aliceEscrowTxHash : Bytes
  hasAliceEscrowInfo : Bool
  secondMsgid : Option Bytes
deriving DecidableEq

def Memory.fresh : Memory where
  aliceGAbt := none
  savedR0BetaTau := none
  alicePresig := none
  aliceFinal := none
  aliceEscrowId := []
  aliceEscrowTxHash := []
  hasAliceEscrowInfo := false
  secondMsgid := none

def Memory.write (memory : Memory) : Write → Memory
  | .aliceGAbt point => { memory with aliceGAbt := some point }
  | .saveR0BetaTau scalar =>
    { memory with savedR0BetaTau := memory.savedR0BetaTau.or (some scalar) }
  | .alicePresig presig => { memory with alicePresig := some presig }
  | .aliceFinal r s => { memory with aliceFinal := some (r, s) }
  | .aliceEscrowId text => { memory with aliceEscrowId := text }
  | .aliceEscrowTxHash text =>
    { memory with aliceEscrowTxHash := text, hasAliceEscrowInfo := true }

def Write.scalar? : Write → Option ℕ
  | .saveR0BetaTau scalar => some scalar
  | _ => none

/-! ### Reading -/

section Reading

abbrev Reader := Parser Write Stop

def ecSize : ℕ := 33

def bnSize : ℕ := 34

def clCiphertextSize : ℕ := 1500

def takeField (length : ℕ) : Reader Bytes :=
  .take length .cleanup

def takeSize : Reader ℕ :=
  readLe <$> takeField 8

/-- A text with a length that is added to the offset before the sum is compared. If the sum wraps
around there is no memory for the text, unless the size of its buffer wraps around too. -/
def takeSized (length : ℕ) : Reader Bytes := do
  let rest ← Parser.remaining
  if length ≤ rest.length then takeField length
  else if length = 2 ^ 64 - 1 then Parser.stop .ends
  else Parser.stop .cleanup

/-- The text up to a terminating zero, which has to fit into sixty-seven bytes. -/
def takeText : Reader Bytes := do
  let rest ← Parser.remaining
  let text := cString rest
  Parser.require (text.length + 1 ≤ rest.length && text.length + 1 ≤ 67) .cleanup
  let _ ← takeField (text.length + 1)
  return text

def isPrintable (byte : UInt8) : Bool :=
  0x20 ≤ byte && byte ≤ 0x7e

def qfbMark : Bytes :=
  ascii ['Q', 'f', 'b', '(']

variable {q : ℕ} {E : Type} [AddCommGroup E] [Module (ZMod q) E] {C : Type} [CommGroup C]

def Decoders.form (decoders : Decoders E C) (text : Bytes) : Reader C :=
  .ofOption .ends ((decoders.gpReadStr (cString text)).bind Sum.getLeft?)

def Decoders.ciphertext (decoders : Decoders E C) (c1 c2 : Bytes) : Reader (ClCiphertext C) := do
  let c1 ← decoders.form c1
  let c2 ← decoders.form c2
  return { c1, c2 }

def Decoders.point (decoders : Decoders E C) (bytes : Bytes) : Reader E :=
  .ofOption .ends (decoders.ecReadBin bytes)

def cldlProof (proof : ProofFormat.Cldl (C ⊕ ℕ) E) : Option (CldlProof E C) := do
  let t1 ← proof.t1.getLeft?
  let t3 ← proof.t3.getLeft?
  let u1 ← proof.u1.getRight?
  let u2 ← proof.u2.getRight?
  return { t1, t2 := proof.t2, t3, u1, u2 }

/-- `zk_puzzle_relation_deserialize`, which is not told where the message ends. -/
def Decoders.relation (decoders : Decoders E C) (rest : Bytes) : Option (RelationProof E C) := do
  let (proof, _) ← ProofFormat.zkPuzzleRelationDeserialize decoders.toDecoding decoders.malloc
    decoders.unset (rest ++ decoders.behind)
  let tumblerProof ← cldlProof proof.tumblerProof
  let auditorProof ← cldlProof proof.auditorProof
  return { tumblerProof, auditorProof }

def decryptMask (setup : Setup q E C) (decoders : Decoders E C) (clSk : ℕ) (c1 c2 : Bytes) :
    Reader Unit := do
  if qfbMark.isPrefixOf c1 && qfbMark.isPrefixOf c2 then
    match setup.params.clDec (← decoders.ciphertext c1 c2) clSk with
    | none => return ()
    | some scalar => Parser.write (.saveR0BetaTau scalar)

def takePresig : Reader PresigBytes := do
  let r ← takeField bnSize
  let s ← takeField bnSize
  let R ← takeField ecSize
  let piA ← takeField ecSize
  let piB ← takeField ecSize
  let piZ ← takeField bnSize
  return { r, s, R, piA, piB, piZ }

variable [DecidableEq E] [DecidableEq C]

def verifyRelation (setup : Setup q E C) (decoders : Decoders E C)
    (gAlphaBeta gAbt : Bytes) (ctx auditor bobCtx bobAuditor : Bytes × Bytes) : Reader E := do
  let rest ← Parser.remaining
  Parser.require (100 ≤ rest.length) .cleanup
  let proof ← Parser.ofOption .ends (decoders.relation rest)
  let originalCtx ← decoders.ciphertext bobCtx.1 bobCtx.2
  let randomizedCtx ← decoders.ciphertext ctx.1 ctx.2
  let originalAuditor ← decoders.ciphertext bobAuditor.1 bobAuditor.2
  let randomizedAuditor ← decoders.ciphertext auditor.1 auditor.2
  let original ← decoders.point gAlphaBeta
  let randomized ← decoders.point gAbt
  Parser.require
    (relationVerify setup proof
      { point := original, ctx := originalCtx, auditorCtx := originalAuditor }
      { point := randomized, ctx := randomizedCtx, auditorCtx := randomizedAuditor }) .cleanup
  return randomized

/-- `parse_tumbler_share` up to the computation of the second id, with the point it is computed
from. -/
def readFirstMessage (setup : Setup q E C) (decoders : Decoders E C) (clSk : ℕ) : Reader E := do
  let gAbt ← takeField ecSize
  Parser.write (.aliceGAbt gAbt)
  let c1Len ← takeSize
  Parser.require (0 < c1Len && c1Len ≤ 10000) .cleanup
  let c1 ← takeField c1Len
  -- the next length must not look like text
  let rest ← Parser.remaining
  Parser.require (!(rest.take 8).all isPrintable) .cleanup
  let c2 ← takeField (← takeSize)
  let audC1 ← takeSized (← takeSize)
  let audC2 ← takeSized (← takeSize)
  decryptMask setup decoders clSk audC1 audC2
  Parser.write (.alicePresig (← takePresig))
  let finR ← takeField bnSize
  let finS ← takeField bnSize
  Parser.write (.aliceFinal finR finS)
  Parser.write (.aliceEscrowId (← takeText))
  Parser.write (.aliceEscrowTxHash (← takeText))
  let gAlphaBeta ← takeField ecSize
  let bobC1 ← takeField clCiphertextSize
  let bobC2 ← takeField clCiphertextSize
  let bobAudC1 ← takeField clCiphertextSize
  let bobAudC2 ← takeField clCiphertextSize
  verifyRelation setup decoders gAlphaBeta gAbt (c1, c2) (audC1, audC2) (bobC1, bobC2)
    (bobAudC1, bobAudC2)

def msgidOf (curve : Curve q E) (gAbt : E) (r0BetaTau : ℕ) : Bytes :=
  let gR0BetaTau := (r0BetaTau % q) • curve.gen
  pointMsgid curve (gAbt + -gR0BetaTau)

/-- The second id is computed if a scalar is kept, and otherwise stays what it was. -/
def Memory.computeSecondMsgid (curve : Curve q E) (memory : Memory) (gAbt : E) : Memory :=
  match memory.savedR0BetaTau with
  | none => memory
  | some r0BetaTau => { memory with secondMsgid := some (msgidOf curve gAbt r0BetaTau) }

def parseTumblerShare (setup : Setup q E C) (decoders : Decoders E C) (clSk : ℕ) (memory : Memory)
    (buffer : Bytes) : Option Memory :=
  let parsed := readFirstMessage setup decoders clSk buffer
  let written := parsed.writes.foldl Memory.write memory
  match parsed.result with
  | .error .ends => none
  | .error .cleanup => some written
  | .ok (gAbt, _) => some (written.computeSecondMsgid setup.curve gAbt)

end Reading

/-! ### What a message does to the memory -/

section Effect

theorem savedR0BetaTau_foldl_write (writes : List Write) (memory : Memory) :
    (writes.foldl Memory.write memory).savedR0BetaTau =
      memory.savedR0BetaTau.or (writes.findSome? Write.scalar?) := by
  induction writes generalizing memory with
  | nil => simp
  | cons item writes ih =>
    rw [foldl_cons, ih, findSome?_cons]
    cases item <;> simp [Memory.write, Write.scalar?]

theorem secondMsgid_foldl_write (writes : List Write) (memory : Memory) :
    (writes.foldl Memory.write memory).secondMsgid = memory.secondMsgid := by
  induction writes generalizing memory with
  | nil => rfl
  | cons item writes ih =>
    rw [foldl_cons, ih]
    cases item <;> rfl

variable {q : ℕ} {E : Type} [AddCommGroup E] [Module (ZMod q) E]

@[simp]
theorem Memory.savedR0BetaTau_computeSecondMsgid (curve : Curve q E) (memory : Memory) (gAbt : E) :
    (memory.computeSecondMsgid curve gAbt).savedR0BetaTau = memory.savedR0BetaTau := by
  unfold computeSecondMsgid
  split <;> simp_all

@[simp]
theorem Memory.secondMsgid_computeSecondMsgid (curve : Curve q E) (memory : Memory) (gAbt : E) :
    (memory.computeSecondMsgid curve gAbt).secondMsgid =
      (memory.savedR0BetaTau.map (msgidOf curve gAbt)).or memory.secondMsgid := by
  unfold computeSecondMsgid
  split <;> simp_all

variable {C : Type} [CommGroup C] [DecidableEq E] [DecidableEq C] {setup : Setup q E C}
  {decoders : Decoders E C} {clSk : ℕ} {memory after : Memory} {buffer : Bytes}

def offeredScalar (setup : Setup q E C) (decoders : Decoders E C) (clSk : ℕ) (buffer : Bytes) :
    Option ℕ :=
  (readFirstMessage setup decoders clSk buffer).writes.findSome? Write.scalar?

def completedPoint (setup : Setup q E C) (decoders : Decoders E C) (clSk : ℕ) (buffer : Bytes) :
    Option E :=
  match (readFirstMessage setup decoders clSk buffer).result with
  | .ok (gAbt, _) => some gAbt
  | .error _ => none

theorem parseTumblerShare_eq_none_iff :
    parseTumblerShare setup decoders clSk memory buffer = none ↔
      ∃ writes, readFirstMessage setup decoders clSk buffer = ⟨writes, .error .ends⟩ := by
  unfold parseTumblerShare
  rcases readFirstMessage setup decoders clSk buffer with ⟨writes, (- | -) | ⟨gAbt, rest⟩⟩ <;> simp

theorem parseTumblerShare_isSome (memory : Memory)
    (completed : (completedPoint setup decoders clSk buffer).isSome) :
    ∃ after, parseTumblerShare setup decoders clSk memory buffer = some after := by
  rw [← Option.ne_none_iff_exists']
  intro ends
  rcases parseTumblerShare_eq_none_iff.mp ends with ⟨writes, read⟩
  simp [completedPoint, read] at completed

theorem savedR0BetaTau_of_parseTumblerShare
    (parsed : parseTumblerShare setup decoders clSk memory buffer = some after) :
    after.savedR0BetaTau = memory.savedR0BetaTau.or (offeredScalar setup decoders clSk buffer) := by
  simp only [parseTumblerShare, offeredScalar] at parsed ⊢
  rw [← savedR0BetaTau_foldl_write]
  split at parsed
  · cases parsed
  · cases parsed
    rfl
  · cases parsed
    rw [Memory.savedR0BetaTau_computeSecondMsgid]

theorem secondMsgid_of_parseTumblerShare
    (parsed : parseTumblerShare setup decoders clSk memory buffer = some after) :
    after.secondMsgid =
      (((completedPoint setup decoders clSk buffer).bind fun gAbt =>
        after.savedR0BetaTau.map (msgidOf setup.curve gAbt))).or memory.secondMsgid := by
  simp only [parseTumblerShare, completedPoint] at parsed ⊢
  split at parsed
  · cases parsed
  · cases parsed
    simp_all [secondMsgid_foldl_write]
  · cases parsed
    simp_all [secondMsgid_foldl_write]

end Effect

/-! ### Packing -/

section Packing

def packSized (text : Bytes) : Bytes :=
  writeLe 8 text.length ++ text

def packText (text : Bytes) : Bytes :=
  text ++ [0]

def packPadded (text : Bytes) : Bytes :=
  let shown := text.take (clCiphertextSize - 1)
  shown ++ List.replicate (clCiphertextSize - shown.length) 0

variable {q : ℕ} {E : Type} [AddCommGroup E] [Module (ZMod q) E] {C : Type}

def presigBytes (curve : Curve q E) (signature : AdaptorSignature E) : PresigBytes where
  r := writeBe bnSize signature.r
  s := writeBe bnSize signature.s
  R := curve.writeBin signature.R
  piA := curve.writeBin signature.pi.a
  piB := curve.writeBin signature.pi.b
  piZ := writeBe bnSize signature.pi.z

def PresigBytes.toBytes (presig : PresigBytes) : Bytes :=
  presig.r ++ (presig.s ++ (presig.R ++ (presig.piA ++ (presig.piB ++ presig.piZ))))

def record (proof : CldlProof E C) : ProofFormat.Cldl (C ⊕ ℕ) E where
  t1 := .inl proof.t1
  t2 := proof.t2
  t3 := .inl proof.t3
  u1 := .inr proof.u1
  u2 := .inr proof.u2

def relationBytes (curve : Curve q E) (genToStr : C ⊕ ℕ → Bytes) (proof : RelationProof E C) :
    Bytes :=
  (ProofFormat.zkPuzzleRelationSerialize { genToStr, ecWriteBin := curve.writeBin }
    { tumblerProof := record proof.tumblerProof
      auditorProof := record proof.auditorProof }).1

/-- The bytes that `payment_init_handler` packs before the proof, with the two texts of the escrow.
-/
def packFields (curve : Curve q E) (genToStr : C ⊕ ℕ → Bytes) (escrowId txHash : Bytes)
    (message : FirstMessage E C) : Bytes :=
  let randomized := message.share.randomized
  let original := message.share.original
  let text form := genToStr (.inl form)
  curve.writeBin randomized.point ++
    (packSized (text randomized.ctx.c1) ++ (packSized (text randomized.ctx.c2) ++
    (packSized (text randomized.auditorCtx.c1) ++ (packSized (text randomized.auditorCtx.c2) ++
    ((presigBytes curve message.presignature).toBytes ++
    (writeBe bnSize message.signature.r ++ (writeBe bnSize message.signature.s ++
    (packText escrowId ++ (packText txHash ++
    (curve.writeBin original.point ++
    (packPadded (text original.ctx.c1) ++ (packPadded (text original.ctx.c2) ++
    (packPadded (text original.auditorCtx.c1) ++
      packPadded (text original.auditorCtx.c2))))))))))))))

def packFirst (curve : Curve q E) (genToStr : C ⊕ ℕ → Bytes) (escrowId txHash : Bytes)
    (message : FirstMessage E C) : Bytes :=
  packFields curve genToStr escrowId txHash message ++
    relationBytes curve genToStr message.share.proof

/-- A form survives as a text: it is marked, has no zero and fits. -/
structure Represents (decoders : Decoders E C) (genToStr : C ⊕ ℕ → Bytes) (form : C) : Prop where
  read : decoders.gpReadStr (genToStr (.inl form)) = some (.inl form)
  mark : qfbMark.isPrefixOf (genToStr (.inl form)) = true
  noZero : (0 : UInt8) ∉ genToStr (.inl form)
  length : (genToStr (.inl form)).length < clCiphertextSize

def Puzzle.forms (puzzle : Puzzle E C) : List C :=
  [puzzle.ctx.c1, puzzle.ctx.c2, puzzle.auditorCtx.c1, puzzle.auditorCtx.c2]

/-- The libraries read back what the message holds, and there is memory for it. -/
structure Faithful (curve : Curve q E) (decoders : Decoders E C) (genToStr : C ⊕ ℕ → Bytes)
    (escrowId txHash : Bytes) (message : FirstMessage E C) : Prop where
  pointLength : ∀ point, (curve.writeBin point).length = ecSize
  points : ∀ point ≠ 0, decoders.ecReadBin (curve.writeBin point) = some point
  forms : ∀ form ∈ Puzzle.forms message.share.randomized ++ Puzzle.forms message.share.original,
    Represents decoders genToStr form
  proof : ∀ value ∈ (record message.share.proof.tumblerProof).values ++
    (record message.share.proof.auditorProof).values,
      (genToStr value).length ≤ 10000 ∧ decoders.gpReadStr (cString (genToStr value)) = some value
  memory : ∀ rest, decoders.malloc rest = true
  escrowId : (0 : UInt8) ∉ escrowId ∧ escrowId.length ≤ 66
  txHash : (0 : UInt8) ∉ txHash ∧ txHash.length ≤ 66

end Packing

/-! ### Round trip -/

section RoundTrip

open Parser

theorem reads_takeField {input : Bytes} {length : ℕ} (exact : input.length = length)
    (rest : Bytes) : (takeField length).Reads input rest input [] :=
  reads_take_of_length exact rest

theorem reads_takeSize {value : ℕ} (fits : value < 2 ^ 64) (rest : Bytes) :
    takeSize.Reads (writeLe 8 value) rest value [] := by
  have read := (reads_takeField (length_writeLe 8 value) rest).map readLe
  rwa [readLe_writeLe_of_lt (by simpa using fits)] at read

theorem reads_takeSized {text : Bytes} (rest : Bytes) :
    (takeSized text.length).Reads text rest text [] := by
  apply (reads_remaining (text ++ rest)).bind_nil
  rw [if_pos (by simp)]
  exact reads_takeField rfl rest

theorem reads_takeText {text : Bytes} (noZero : (0 : UInt8) ∉ text) (short : text.length ≤ 66)
    (rest : Bytes) : takeText.Reads (packText text) rest text [] := by
  have shown : cString (packText text ++ rest) = text := by
    rw [packText, append_assoc]
    exact cString_append_zero noZero rest
  have length : (packText text).length = text.length + 1 := by
    simp [packText]
  apply (reads_remaining (packText text ++ rest)).bind_nil
  simp only [shown, length_append, length]
  apply (reads_require (by simp; omega) (packText text ++ rest)).bind_nil
  exact (reads_takeField length rest).bind_last (reads_pure text rest)

theorem all_isPrintable_writeLe {value : ℕ} (small : value < 2 ^ 16) :
    (writeLe 8 value).all isPrintable = false := by
  have high : value / 256 / 256 = 0 := by omega
  simp [writeLe, high, isPrintable]

theorem cString_packPadded {text : Bytes} (noZero : (0 : UInt8) ∉ text)
    (short : text.length < clCiphertextSize) : cString (packPadded text) = text := by
  have shown : text.take (clCiphertextSize - 1) = text := take_of_length_le (by omega)
  have padding : clCiphertextSize - text.length = clCiphertextSize - text.length - 1 + 1 := by omega
  rw [packPadded, shown, padding, replicate_succ]
  exact cString_append_zero noZero _

theorem length_packPadded (text : Bytes) : (packPadded text).length = clCiphertextSize := by
  simp [packPadded, clCiphertextSize]

variable {E C : Type} {decoders : Decoders E C} {genToStr : C ⊕ ℕ → Bytes}

namespace Represents

variable {form : C} (represents : Represents decoders genToStr form)

include represents

theorem reads_form {text : Bytes} (shown : cString text = genToStr (.inl form)) (rest : Bytes) :
    (decoders.form text).Reads [] rest form [] := by
  apply reads_ofOption
  rw [shown, represents.read]
  rfl

theorem cString_formText : cString (genToStr (.inl form)) = genToStr (.inl form) :=
  cString_of_notMem represents.noZero

theorem length_plausible :
    (0 < (genToStr (.inl form)).length && (genToStr (.inl form)).length ≤ 10000) = true := by
  have marked := (List.isPrefixOf_iff_prefix.mp represents.mark).length_le
  have short := represents.length
  simp only [qfbMark, ascii, map_cons, map_nil, length_cons, length_nil] at marked
  rw [clCiphertextSize] at short
  simp only [Bool.and_eq_true, decide_eq_true_eq]
  omega

theorem length_not_printable :
    (writeLe 8 (genToStr (.inl form)).length).all isPrintable = false := by
  have short := represents.length
  rw [clCiphertextSize] at short
  exact all_isPrintable_writeLe (by omega)

theorem reads_size (rest : Bytes) :
    takeSize.Reads (writeLe 8 (genToStr (.inl form)).length) rest (genToStr (.inl form)).length
      [] := by
  apply reads_takeSize
  have short := represents.length
  rw [clCiphertextSize] at short
  omega

end Represents

theorem reads_ciphertext {ciphertext : ClCiphertext C} {c1 c2 : Bytes}
    (first : Represents decoders genToStr ciphertext.c1)
    (second : Represents decoders genToStr ciphertext.c2)
    (firstShown : cString c1 = genToStr (.inl ciphertext.c1))
    (secondShown : cString c2 = genToStr (.inl ciphertext.c2)) (rest : Bytes) :
    (decoders.ciphertext c1 c2).Reads [] rest ciphertext [] := by
  apply (first.reads_form firstShown rest).bind_nil
  apply (second.reads_form secondShown rest).bind_nil
  exact reads_pure _ rest

variable {q : ℕ} [AddCommGroup E] [Module (ZMod q) E] {curve : Curve q E}

theorem reads_takePresig (pointLength : ∀ point, (curve.writeBin point).length = ecSize)
    (signature : AdaptorSignature E) (rest : Bytes) :
    takePresig.Reads (presigBytes curve signature).toBytes rest (presigBytes curve signature)
      [] := by
  apply (reads_takeField (length_writeBe _ _) _).bind
  apply (reads_takeField (length_writeBe _ _) _).bind
  apply (reads_takeField (pointLength _) _).bind
  apply (reads_takeField (pointLength _) _).bind
  apply (reads_takeField (pointLength _) _).bind
  exact (reads_takeField (length_writeBe _ _) _).bind_last (reads_pure _ _)

theorem length_relationBytes (pointLength : ∀ point, (curve.writeBin point).length = ecSize)
    (proof : RelationProof E C) : 100 ≤ (relationBytes curve genToStr proof).length := by
  simp only [relationBytes, ProofFormat.zkPuzzleRelationSerialize, ProofFormat.writeRecords,
    ProofFormat.writeCldlFixed, ProofFormat.writeText, length_append, length_writeLe, pointLength,
    ecSize]
  omega

variable {escrowId txHash : Bytes} {message : FirstMessage E C}

theorem Faithful.relation (faithful : Faithful curve decoders genToStr escrowId txHash message)
    (tumbler : message.share.proof.tumblerProof.t2 ≠ 0)
    (auditor : message.share.proof.auditorProof.t2 ≠ 0) :
    decoders.relation (relationBytes curve genToStr message.share.proof) =
      some message.share.proof := by
  have values := forall_mem_append.mp faithful.proof
  have recoverable {proof : CldlProof E C} (nonzero : proof.t2 ≠ 0)
      (values : ∀ value ∈ (record proof).values, (genToStr value).length ≤ 10000 ∧
        decoders.gpReadStr (cString (genToStr value)) = some value) :
      ProofFormat.Recoverable { genToStr, ecWriteBin := curve.writeBin } decoders.toDecoding
        (record proof) :=
    ⟨values, faithful.pointLength _, faithful.points _ nonzero⟩
  rw [Decoders.relation, relationBytes, ProofFormat.zkPuzzleRelationDeserialize,
    ProofFormat.zkPuzzleRelationSerialize, ProofFormat.readRecords_writeRecords faithful.memory _ _
      (recoverable tumbler values.1) (recoverable auditor values.2)]
  rfl

variable [CommGroup C] {setup : Setup q E C}

def maskWrites (setup : Setup q E C) (clSk : ℕ) (ciphertext : ClCiphertext C) : List Write :=
  (setup.params.clDec ciphertext clSk).toList.map .saveR0BetaTau

theorem reads_decryptMask {ciphertext : ClCiphertext C}
    (first : Represents decoders genToStr ciphertext.c1)
    (second : Represents decoders genToStr ciphertext.c2) (clSk : ℕ) (rest : Bytes) :
    (decryptMask setup decoders clSk (genToStr (.inl ciphertext.c1))
      (genToStr (.inl ciphertext.c2))).Reads [] rest () (maskWrites setup clSk ciphertext) := by
  rw [decryptMask, if_pos (by simp only [first.mark, second.mark, Bool.and_self])]
  apply (reads_ciphertext first second first.cString_formText second.cString_formText rest).bind_nil
  cases decrypted : setup.params.clDec ciphertext clSk with
  | none =>
    simp only [maskWrites, decrypted]
    exact reads_pure _ rest
  | some scalar =>
    simp only [maskWrites, decrypted]
    exact reads_write _ rest

def firstWrites (setup : Setup q E C) (clSk : ℕ) (escrowId txHash : Bytes)
    (message : FirstMessage E C) : List Write :=
  .aliceGAbt (setup.curve.writeBin message.share.randomized.point) ::
    (maskWrites setup clSk message.share.randomized.auditorCtx ++
      [.alicePresig (presigBytes setup.curve message.presignature),
        .aliceFinal (writeBe bnSize message.signature.r) (writeBe bnSize message.signature.s),
        .aliceEscrowId escrowId, .aliceEscrowTxHash txHash])

variable [DecidableEq E] [DecidableEq C]

theorem accepted_of_checkShare {share : PuzzleShare E C}
    (accepted : (checkShare setup share).isSome) :
    (share.randomized.point ≠ 0 ∧ share.original.point ≠ 0) ∧
      (share.proof.tumblerProof.t2 ≠ 0 ∧ share.proof.auditorProof.t2 ≠ 0) ∧
      relationVerify setup share.proof share.original share.randomized = true := by
  rcases Option.isSome_iff_exists.mp accepted with ⟨checked, accepted⟩
  simp only [checkShare, Option.bind_eq_bind, Option.bind_eq_some_iff, readPuzzle_eq_some_iff,
    readCldl_eq_some_iff] at accepted
  rcases accepted with ⟨_, ⟨randomized, rfl⟩, _, ⟨original, rfl⟩, _, ⟨tumbler, rfl⟩, _,
    ⟨auditor, rfl⟩, _, verified, -⟩
  exact ⟨⟨randomized, original⟩, ⟨tumbler, auditor⟩, by simpa [guard] using verified⟩

theorem reads_verifyRelation
    (faithful : Faithful setup.curve decoders genToStr escrowId txHash message)
    (accepted : (checkShare setup message.share).isSome) :
    (verifyRelation setup decoders (setup.curve.writeBin message.share.original.point)
      (setup.curve.writeBin message.share.randomized.point)
      (genToStr (.inl message.share.randomized.ctx.c1),
        genToStr (.inl message.share.randomized.ctx.c2))
      (genToStr (.inl message.share.randomized.auditorCtx.c1),
        genToStr (.inl message.share.randomized.auditorCtx.c2))
      (packPadded (genToStr (.inl message.share.original.ctx.c1)),
        packPadded (genToStr (.inl message.share.original.ctx.c2)))
      (packPadded (genToStr (.inl message.share.original.auditorCtx.c1)),
        packPadded (genToStr (.inl message.share.original.auditorCtx.c2)))).Reads []
      (relationBytes setup.curve genToStr message.share.proof) message.share.randomized.point
      [] := by
  have sized {form : C} (represents : Represents decoders genToStr form) :=
    represents.cString_formText
  have padded {form : C} (represents : Represents decoders genToStr form) :=
    cString_packPadded represents.noZero represents.length
  have forms := faithful.forms
  simp only [Puzzle.forms, cons_append, nil_append, forall_mem_cons] at forms
  rcases forms with ⟨r1, r2, r3, r4, o1, o2, o3, o4, -⟩
  rcases accepted_of_checkShare accepted with ⟨⟨randomized, original⟩, nonzero, verified⟩
  apply (reads_remaining _).bind_nil
  apply (reads_require (by simpa using length_relationBytes faithful.pointLength _) _).bind_nil
  apply (reads_ofOption (faithful.relation nonzero.1 nonzero.2) _).bind_nil
  apply (reads_ciphertext o1 o2 (padded o1) (padded o2) _).bind_nil
  apply (reads_ciphertext r1 r2 (sized r1) (sized r2) _).bind_nil
  apply (reads_ciphertext o3 o4 (padded o3) (padded o4) _).bind_nil
  apply (reads_ciphertext r3 r4 (sized r3) (sized r4) _).bind_nil
  apply (reads_ofOption (faithful.points _ original) _).bind_nil
  apply (reads_ofOption (faithful.points _ randomized) _).bind_nil
  apply (reads_require verified _).bind_nil
  exact reads_pure _ _

section Packed

variable (faithful : Faithful setup.curve decoders genToStr escrowId txHash message)

include faithful

theorem readFirstMessage_packFirst (accepted : (checkShare setup message.share).isSome) (clSk : ℕ) :
    readFirstMessage setup decoders clSk
        (packFirst setup.curve genToStr escrowId txHash message) =
      ⟨firstWrites setup clSk escrowId txHash message,
        .ok (message.share.randomized.point,
          relationBytes setup.curve genToStr message.share.proof)⟩ := by
  have forms := faithful.forms
  simp only [Puzzle.forms, cons_append, nil_append, forall_mem_cons] at forms
  rcases forms with ⟨r1, r2, r3, r4, -⟩
  change (readFirstMessage setup decoders clSk).Reads _ _ _ _
  simp only [packFields, packSized, append_assoc]
  apply (reads_takeField (faithful.pointLength _) _).bind
  apply Reads.write_bind
  apply (r1.reads_size _).bind
  apply (reads_require r1.length_plausible _).bind_nil
  apply (reads_takeField rfl _).bind
  apply (reads_remaining _).bind_nil
  apply (reads_require (by
    rw [append_assoc, take_left' (length_writeLe 8 _), r2.length_not_printable]
    rfl) _).bind_nil
  apply (r2.reads_size _).bind
  apply (reads_takeField rfl _).bind
  apply (r3.reads_size _).bind
  apply (reads_takeSized _).bind
  apply (r4.reads_size _).bind
  apply (reads_takeSized _).bind
  apply (reads_decryptMask r3 r4 clSk _).bind_writes
  apply (reads_takePresig faithful.pointLength _ _).bind
  apply Reads.write_bind
  apply (reads_takeField (length_writeBe _ _) _).bind
  apply (reads_takeField (length_writeBe _ _) _).bind
  apply Reads.write_bind
  apply (reads_takeText faithful.escrowId.1 faithful.escrowId.2 _).bind
  apply Reads.write_bind
  apply (reads_takeText faithful.txHash.1 faithful.txHash.2 _).bind
  apply Reads.write_bind
  apply (reads_takeField (faithful.pointLength _) _).bind
  apply (reads_takeField (length_packPadded _) _).bind
  apply (reads_takeField (length_packPadded _) _).bind
  apply (reads_takeField (length_packPadded _) _).bind
  exact (reads_takeField (length_packPadded _) _).bind_last (reads_verifyRelation faithful accepted)

theorem effect_packFirst
    (accepted : checkShare setup message.share = some message.share.randomized) (clSk : ℕ) :
    offeredScalar setup decoders clSk (packFirst setup.curve genToStr escrowId txHash message) =
        setup.params.clDec message.share.randomized.auditorCtx clSk ∧
      completedPoint setup decoders clSk
          (packFirst setup.curve genToStr escrowId txHash message) =
        some message.share.randomized.point := by
  have read := readFirstMessage_packFirst faithful
    (Option.isSome_iff_exists.mpr ⟨_, accepted⟩) clSk
  rw [offeredScalar, completedPoint, read]
  refine ⟨?_, rfl⟩
  cases decrypted : setup.params.clDec message.share.randomized.auditorCtx clSk <;>
    simp [firstWrites, maskWrites, decrypted, Write.scalar?, findSome?_cons]

end Packed

end RoundTrip

end TigerMixer.Auditor
