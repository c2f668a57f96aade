import TigerMixer.Receiver.ShareFile

/-!
# The file of a commitment

The Tumbler writes a commitment as a text of named fields and nested lists, one item a line. The
auditor searches each line for the names of the fields and takes what stands between the first two
double quotes for the value, except for numbers.
-/

namespace TigerMixer.SecretShare

open Bytes Text Receiver

structure VssRecord extends VssCommitment where
  msgid : Bytes
  timestamp : ℤ

structure CommitmentRecord (threshold : ℕ) extends VssRecord where
  noZero : (0 : UInt8) ∉ msgid
  short : msgid.length < 128
  few : numBlocks ≤ maxBlocks
  secretLen_lt : secretLen < 2 ^ 64
  lower : -2 ^ 63 ≤ timestamp
  upper : timestamp < 2 ^ 63
  points : ∀ block < maxBlocks, ∀ index < threshold, (commitments block index).length = 33

/-! ### Saving -/

def quoted (text : Bytes) : Bytes :=
  quote :: (text ++ [quote])

def msgidField : Bytes :=
  ascii "msgid".toList

def secretLenField : Bytes :=
  ascii "secret_len".toList

def numBlocksField : Bytes :=
  ascii "num_blocks".toList

def timestampField : Bytes :=
  ascii "timestamp".toList

def commitmentTypeField : Bytes :=
  ascii "commitment_type".toList

def commitmentsField : Bytes :=
  ascii "commitments".toList

def fieldText (name value : Bytes) : Bytes :=
  ascii "  ".toList ++ (quoted name ++ (ascii ": ".toList ++ (value ++ ascii ",\n".toList)))

def lineEnd (more : Bool) : Bytes :=
  if more then ascii ",\n".toList else ascii "\n".toList

section Model

variable (threshold : ℕ)

def pointText (record : VssRecord) (block index : ℕ) : Bytes :=
  ascii "      ".toList ++ (quoted (printHex (record.commitments block index)) ++
    lineEnd (index < threshold - 1))

def blockText (record : VssRecord) (block : ℕ) : Bytes :=
  ascii "    [\n".toList ++ ((List.range threshold).flatMap (pointText threshold record block) ++
    (ascii "    ]".toList ++ lineEnd (block < record.numBlocks - 1)))

def recordText (record : VssRecord) : Bytes :=
  ascii "\x7b\n".toList ++ (fieldText msgidField (quoted record.msgid) ++
    (fieldText secretLenField (printSize record.secretLen) ++
    (fieldText numBlocksField (printSize record.numBlocks) ++
    (fieldText timestampField (printInt record.timestamp) ++
    (fieldText commitmentTypeField (quoted (ascii "Feldman_VSS_Blocked".toList)) ++
    (ascii "  ".toList ++ (quoted commitmentsField ++ ascii ": [\n".toList) ++
    ((List.range record.numBlocks).flatMap (blockText threshold record) ++
    (ascii "  ]\n".toList ++ ascii "\x7d\n".toList))))))))

/-! ### Loading -/

structure Loader where
  record : VssRecord
  currentBlock : ℕ
  currentCoeff : ℕ
  inCommitmentsArray : Bool

def Loader.initial : Loader where
  record :=
    { commitments := fun _ _ => List.replicate 33 0
      numBlocks := 0, secretLen := 0, msgid := [], timestamp := 0 }
  currentBlock := 0
  currentCoeff := 0
  inCommitmentsArray := false

def occurs (pattern line : Bytes) : Bool :=
  (strstr pattern line).isSome

def firstQuoted (line : Bytes) : Option Bytes :=
  match strchr quote line with
  | none => none
  | some start =>
    match strchr quote start.tail with
    | none => none
    | some stop => some (start.tail.take (start.tail.length - stop.length))

def fieldFormat (name : Bytes) (conversion : Scanner) : Scanner := do
  Scanner.white
  Scanner.literal (quoted name ++ ascii ":".toList)
  Scanner.white
  conversion
  Scanner.literal (ascii ",".toList)

def scannedSize (items : List Item) (before : ℕ) : ℕ :=
  match items with
  | .size value :: _ => value
  | _ => before

def scannedLong (items : List Item) (before : ℤ) : ℤ :=
  match items with
  | .int value :: _ => value
  | _ => before

namespace Loader

variable (loader : Loader)

def setMsgid (line : Bytes) : Loader :=
  match firstQuoted line with
  | none => loader
  | some text =>
    if text.length < 128 then { loader with record := { loader.record with msgid := text } }
    else loader

def setSecretLen (line : Bytes) : Loader :=
  { loader with record := { loader.record with
      secretLen :=
        scannedSize (sscanf (fieldFormat secretLenField Scanner.size) line)
          loader.record.secretLen } }

def setNumBlocks (line : Bytes) : Loader :=
  { loader with record := { loader.record with
      numBlocks :=
        scannedSize (sscanf (fieldFormat numBlocksField Scanner.size) line)
          loader.record.numBlocks } }

def setTimestamp (line : Bytes) : Loader :=
  { loader with record := { loader.record with
      timestamp :=
        scannedLong (sscanf (fieldFormat timestampField Scanner.long) line)
          loader.record.timestamp } }

def storePoint (hex : Bytes) : Loader :=
  { loader with
    record := { loader.record with
      commitments := fun block index =>
        if block = loader.currentBlock ∧ index = loader.currentCoeff then hexPairs hex
        else loader.record.commitments block index }
    currentCoeff := loader.currentCoeff + 1 }

def readPoint (line : Bytes) : Option Loader :=
  match firstQuoted line with
  | none => some loader
  | some hex =>
    if hex.length = 66 ∧ hex.all fun byte => (hexDigit byte).isSome then
      if loader.currentBlock < loader.record.numBlocks ∧ loader.currentCoeff < threshold then
        if loader.currentBlock < maxBlocks then some (loader.storePoint hex) else none
      else some loader
    else some loader

def readLine (line : Bytes) : Option Loader :=
  if occurs (quoted msgidField) line then some (loader.setMsgid line)
  else if occurs (quoted secretLenField) line then some (loader.setSecretLen line)
  else if occurs (quoted numBlocksField) line then some (loader.setNumBlocks line)
  else if occurs (quoted timestampField) line then some (loader.setTimestamp line)
  else if occurs (quoted commitmentsField) line then
    some { loader with inCommitmentsArray := true }
  else if loader.inCommitmentsArray &&
      (occurs (ascii "    [".toList) line || occurs (ascii "  [".toList) line) then
    some { loader with currentCoeff := 0 }
  else if loader.inCommitmentsArray &&
      (occurs (ascii "    ]".toList) line || occurs (ascii "  ]".toList) line) then
    some { loader with currentBlock := loader.currentBlock + 1, currentCoeff := 0 }
  else if loader.inCommitmentsArray && (strchr quote line).isSome then
    loader.readPoint threshold line
  else some loader

def readText (text : Bytes) : Option Loader :=
  (readLines 1023 text).foldlM (fun loader line => loader.readLine threshold (cString line)) loader

end Loader

/-- How `load_vss_commitment_from_file` ends. `overrun` stands for an access beyond the array of
commitments, `missing` and `incomplete` for the return value `-1`. -/
inductive LoadResult where
  | missing
  | overrun
  | incomplete
  | loaded (record : VssRecord)

def Loader.result (loader : Loader) : LoadResult :=
  if 0 < loader.record.numBlocks ∧ 0 < loader.record.secretLen then
    if loader.record.numBlocks ≤ maxBlocks then .loaded loader.record else .overrun
  else .incomplete

/-! ### Files -/

abbrev Files : Type := Bytes → Option Bytes

def commitmentPath : Bytes :=
  ascii "vss_commitments/vss_commitment_".toList

def commitmentFile (name : Bytes) : Bytes :=
  (commitmentPath ++ (name ++ ascii ".json".toList)).take 255

def savedFile (record : VssRecord) : Bytes :=
  if record.msgid.length = 0 then
    commitmentFile (ascii "empty_".toList ++ printInt record.timestamp)
  else commitmentFile record.msgid

/-- `save_vss_commitment_to_file`, none where it returns `-1` because the file cannot be created. -/
def saveVssCommitmentToFile (canCreate : Bytes → Bool) (files : Files) (record : VssRecord) :
    Option Files :=
  if canCreate (savedFile record) then
    some (Function.update files (savedFile record) (some (recordText threshold record)))
  else none

def loadVssCommitmentFromFile (files : Files) (msgid : Bytes) : LoadResult :=
  match files (commitmentFile msgid) with
  | none => .missing
  | some text =>
    match Loader.initial.readText threshold text with
    | none => .overrun
    | some loader => loader.result

end Model

end TigerMixer.SecretShare
