import TigerMixer.Solidity.Basic

/-!
# Selection of a committee

`selectNewCommittee` with its helper `calculateWeights`: a partial selection sort, then three draws
from a cumulative weight table that is patched after each draw. In `Mode.source` the definitions are
the contract's functions; in `Mode.strict` an overflow or a use of the fallback draw ends the call.
-/

namespace TigerMixer.Rotation

def maxCommitteeSize : ℕ := 3

def topKSize : ℕ := 10

def baseWeight : ℕ := 1000

def maxWeight : ℕ := 10000

structure Mode where
  arithmetic : Arithmetic
  /-- Whether a draw that finds no candidate takes the first one left. -/
  fallback : Bool

def Mode.source : Mode := ⟨.wrapping, true⟩

def Mode.strict : Mode := ⟨.checked, false⟩

def maxIndex (scores : MemArray ℕ) (i : ℕ) : Option ℕ :=
  Loop.run
    (fun j maxIdx => do
      if (← scores.get j) > (← scores.get maxIdx) then return .next j else return .next maxIdx)
    (i + 1) (scores.length - (i + 1)) i

structure Sorting where
  scores : MemArray ℕ
  candidates : MemArray Address
  topKScores : MemArray ℕ
  topKCandidates : MemArray Address

/-- One iteration of the sort: swap the best remaining candidate to position `i` and copy it. -/
def topKStep (i : ℕ) (sorting : Sorting) : Option (Step Sorting) := do
  let maxIdx ← maxIndex sorting.scores i
  let tempScore ← sorting.scores.get i
  let tempCandidate ← sorting.candidates.get i
  let scores ← sorting.scores.set i (← sorting.scores.get maxIdx)
  let candidates ← sorting.candidates.set i (← sorting.candidates.get maxIdx)
  let scores ← scores.set maxIdx tempScore
  let candidates ← candidates.set maxIdx tempCandidate
  let topKScores ← sorting.topKScores.set i (← scores.get i)
  let topKCandidates ← sorting.topKCandidates.set i (← candidates.get i)
  return .next { scores, candidates, topKScores, topKCandidates }

def Sorting.start (reputation : Address → ℕ) (candidatePool : List Address) (topK : ℕ) :
    Sorting where
  scores := ⟨candidatePool.length, fun i => reputation (candidatePool.getD i 0)⟩
  candidates := ⟨candidatePool.length, fun i => candidatePool.getD i 0⟩
  topKScores := .create topK 0
  topKCandidates := .create topK 0

def scoreExtremes (scores : MemArray ℕ) (count : ℕ) : Option (ℕ × ℕ) := do
  let first ← scores.get 0
  Loop.run
    (fun i (extremes : ℕ × ℕ) => do
      let score ← scores.get i
      return .next (if score < extremes.1 then score else extremes.1,
        if score > extremes.2 then score else extremes.2))
    1 (count - 1) (first, first)

def calculateWeights (arithmetic : Arithmetic) (scores : MemArray ℕ) (count base max : ℕ) :
    Option (MemArray ℕ) := do
  if count = 0 then
    return .create 0 0
  else
    let (minScore, maxScore) ← scoreExtremes scores count
    let weights := MemArray.create count 0
    if maxScore = minScore then
      Loop.run (fun i weights => do return .next (← weights.set i base)) 0 count weights
    else
      let scoreRange ← arithmetic.sub maxScore minScore
      let weightRange ← arithmetic.sub max base
      Loop.run
        (fun i (weights : MemArray ℕ) => do
          let distance ← arithmetic.sub (← scores.get i) minScore
          let normalized ← divide (← arithmetic.mul distance weightRange) scoreRange
          return .next (← weights.set i (← arithmetic.add base normalized)))
        0 count weights

def accumulate (arithmetic : Arithmetic) (weights : MemArray ℕ) (topK : ℕ) :
    Option (MemArray ℕ) := do
  let cumulativeWeights ← (MemArray.create topK 0).set 0 (← weights.get 0)
  Loop.run
    (fun i (cumulativeWeights : MemArray ℕ) => do
      let sum ← arithmetic.add (← cumulativeWeights.get (i - 1)) (← weights.get i)
      return .next (← cumulativeWeights.set i sum))
    1 (topK - 1) cumulativeWeights

structure Drawing where
  selected : MemArray Address
  selectedFlags : MemArray Bool
  cumulativeWeights : MemArray ℕ
  totalWeight : ℕ

/-- The first candidate left whose cumulative weight exceeds the random value; `topK` if none. -/
def findSelected (drawing : Drawing) (randomValue topK : ℕ) : Option ℕ :=
  Loop.run
    (fun i selectedIdx => do
      if (← drawing.selectedFlags.get i) = false ∧
          randomValue < (← drawing.cumulativeWeights.get i) then
        return .stop i
      else
        return .next selectedIdx)
    0 topK topK

def firstUnselected (drawing : Drawing) (selectedIdx topK : ℕ) : Option ℕ :=
  Loop.run
    (fun i selectedIdx => do
      if (← drawing.selectedFlags.get i) = false then return .stop i else return .next selectedIdx)
    0 topK selectedIdx

def removeWeight (arithmetic : Arithmetic) (cumulativeWeights : MemArray ℕ)
    (selectedIdx removedWeight topK : ℕ) : Option (MemArray ℕ) :=
  Loop.run
    (fun i (cumulativeWeights : MemArray ℕ) => do
      let weight ← cumulativeWeights.get i
      if weight ≥ removedWeight then
        return .next (← cumulativeWeights.set i (← arithmetic.sub weight removedWeight))
      else
        return .next cumulativeWeights)
    selectedIdx (topK - selectedIdx) cumulativeWeights

def slice (random selectedCount : ℕ) : ℕ :=
  (random >>> (selectedCount * 32)) &&& 0xFFFFFFFF

def drawStep (mode : Mode) (random topK : ℕ) (topKCandidates : MemArray Address)
    (weights : MemArray ℕ) (selectedCount : ℕ) (drawing : Drawing) :
    Option (Step Drawing) := do
  if (← mode.arithmetic.sub topK selectedCount) = 0 then
    return .stop drawing
  else
    let randomValue ← remainder (slice random selectedCount) drawing.totalWeight
    let found ← findSelected drawing randomValue topK
    let selectedIdx ←
      if found ≥ topK then
        if mode.fallback then firstUnselected drawing found topK else none
      else
        some found
    if selectedIdx < topK then
      let selected ← drawing.selected.set selectedCount (← topKCandidates.get selectedIdx)
      let selectedFlags ← drawing.selectedFlags.set selectedIdx true
      let removedWeight ← weights.get selectedIdx
      let cumulativeWeights ←
        removeWeight mode.arithmetic drawing.cumulativeWeights selectedIdx removedWeight topK
      let totalWeight ← mode.arithmetic.sub drawing.totalWeight removedWeight
      return .next { selected, selectedFlags, cumulativeWeights, totalWeight }
    else
      return .next drawing

def selectNewCommittee (mode : Mode) (reputation : Address → ℕ) (candidatePool : List Address)
    (random : ℕ) : Option (List Address) := do
  let topK := if candidatePool.length < topKSize then candidatePool.length else topKSize
  let sorting ← Loop.run topKStep 0 topK (.start reputation candidatePool topK)
  let weights ← calculateWeights mode.arithmetic sorting.topKScores topK baseWeight maxWeight
  let cumulativeWeights ← accumulate mode.arithmetic weights topK
  let totalWeight ← cumulativeWeights.get (topK - 1)
  let drawing ← Loop.run (drawStep mode random topK sorting.topKCandidates weights) 0
    maxCommitteeSize
    { selected := .create maxCommitteeSize 0, selectedFlags := .create topK false,
      cumulativeWeights, totalWeight }
  return drawing.selected.toList

end TigerMixer.Rotation
