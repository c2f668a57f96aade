import TigerMixer.Reputation.DecisionLog

/-!
# Rows of the earlier format

An earlier version of the log had a ninth column, the id of the participant before its address. The
readers test for eight columns first, so an old row is taken for a new one in which the id stands
for the address, the verdict of the judge for the decision and the decision for `is_correct`.
-/

namespace TigerMixer.Reputation

open Bytes Text Table List

/-- A line of the log, in the earlier format if there is an id. -/
structure Entry where
  row : Row
  participantId : Option (Fin (2 ^ 31))

def Row.oldColumns (row : Row) (participantId : Fin (2 ^ 31)) : List Bytes :=
  [printInt row.timestamp, row.requestId, row.userAddress, row.userLabel.text,
    printSize participantId, row.participantAddress, printInt row.judgeResult,
    row.actualDecision.text, printInt (if row.isCorrect then 1 else 0)]

def Entry.columns (entry : Entry) : List Bytes :=
  match entry.participantId with
  | none => entry.row.columns
  | some participantId => entry.row.oldColumns participantId

def entriesText (log : List Entry) : Bytes :=
  fileText (log.map Entry.columns)

def Rewritten : List Entry → List Entry → Prop :=
  List.Forall₂ fun before after =>
    after = before ∨ before.participantId = none ∧ after.row = before.row

structure SameScores (before after : Bytes) : Prop where
  accuracy : ∀ address, calculateAccuracyForAddress (some before) address =
    calculateAccuracyForAddress (some after) address
  consistency : ∀ address, calculateConsistencyForAddress (some before) address =
    calculateConsistencyForAddress (some after) address
  participation : ∀ address, calculateParticipationForAddress (some before) address =
    calculateParticipationForAddress (some after) address

theorem isField_oldColumns (row : Row) (participantId : Fin (2 ^ 31)) :
    ∀ field ∈ row.oldColumns participantId, IsField comma field := by
  intro field member
  simp only [Row.oldColumns, mem_cons, not_mem_nil, or_false] at member
  rcases member with rfl | rfl | rfl | rfl | rfl | rfl | rfl | rfl | rfl
  · exact isField_printInt _
  · exact row.requestIdField
  · exact row.userField
  · exact row.userLabel.isField
  · exact isField_printInt (.ofNat _)
  · exact row.participantField
  · exact isField_printInt _
  · exact row.actualDecision.isField
  · exact isField_printInt _

theorem Row.isRecord_oldColumns (row : Row) (participantId : Fin (2 ^ 31)) :
    IsRecord (row.oldColumns participantId) where
  isField := isField_oldColumns row participantId
  nonempty := cons_ne_nil _ _
  short := by
    have new := row.length_line
    have inserted : (printSize participantId).length ≤ 10 :=
      length_printSize (by decide) (participantId.isLt.trans (by decide))
    rw [Row.columns, decisionRow, length_separatedLine] at new
    rw [Row.oldColumns, length_separatedLine]
    simp only [map_cons, map_nil, sum_cons, sum_nil] at new ⊢
    omega

theorem Entry.isRecord (entry : Entry) : IsRecord entry.columns := by
  rcases entry with ⟨row, _ | participantId⟩
  · exact row.isRecord
  · exact row.isRecord_oldColumns participantId

theorem Row.tokens_old (row : Row) (participantId : Fin (2 ^ 31)) :
    strtok comma (cString (separatedLine comma (row.oldColumns participantId))) =
      [printInt row.timestamp, row.requestId, row.userAddress, row.userLabel.text,
        printSize participantId, row.participantAddress, printInt row.judgeResult,
        row.actualDecision.text, printInt (if row.isCorrect then 1 else 0) ++ [10]] :=
  @tokens_line [_, _, _, _, _, _, _, _] _ (row.isRecord_oldColumns participantId)

def Entry.scored (entry : Entry) : Bytes × ℤ :=
  match entry.participantId with
  | none => (entry.row.participantAddress, if entry.row.isCorrect then 1 else 0)
  | some participantId => (printSize participantId, 0)

theorem Entry.accuracyColumns_line (entry : Entry) :
    accuracyColumns (separatedLine comma entry.columns) = some entry.scored := by
  rcases entry with ⟨row, _ | participantId⟩
  · have correct : atoi (printInt (if row.isCorrect then 1 else 0) ++ [10]) =
        if row.isCorrect then 1 else 0 := by
      cases row.isCorrect <;> decide
    rw [accuracyColumns, Reputation.columns, Entry.columns, row.tokens]
    exact congrArg (fun value => some (row.participantAddress, value)) correct
  · -- The eighth column of an old row is the decision, which is not a number.
    have decision : atoi row.actualDecision.text = 0 := by
      cases row.actualDecision <;> decide
    rw [accuracyColumns, Reputation.columns, Entry.columns, row.tokens_old]
    exact congrArg (fun value => some (printSize participantId, value)) decision

theorem accuracy_entriesText (log : List Entry) (address : Bytes) :
    calculateAccuracyForAddress (some (entriesText log)) address =
      let own := (log.map Entry.scored).filter fun row => lower row.1 = lower address
      if own.length = 0 then 50 else own.countP (fun row => row.2 ≠ 0) * 100 / own.length := by
  have records : ∀ row ∈ log.map Entry.columns, IsRecord row := by
    intro row member
    rcases mem_map.mp member with ⟨entry, -, rfl⟩
    exact entry.isRecord
  have seen : ((log.map Entry.columns).map (separatedLine comma)).filterMap accuracyColumns =
      log.map Entry.scored := by
    induction log with
    | nil => rfl
    | cons entry log ih =>
      rw [map_cons, map_cons, filterMap_cons_some entry.accuracyColumns_line,
        ih (forall_mem_cons.mp records).2, map_cons]
  rw [calculateAccuracyForAddress, entriesText, decisionLines_fileText records]
  simp only [seen]

theorem lower_printSize (value : ℕ) : lower (printSize value) = printSize value := by
  have unchanged : ∀ byte ∈ printSize value, toLower byte = byte := by
    intro byte member
    have digit := isDigit_of_mem_printSize member
    simp only [isDigit, Bool.and_eq_true, decide_eq_true_eq, UInt8.le_iff_toNat_le,
      UInt8.reduceToNat] at digit
    apply if_neg
    simp only [UInt8.le_iff_toNat_le, UInt8.reduceToNat]
    omega
  rw [lower, map_congr_left unchanged, map_id']

theorem exists_fresh_participantId {log : List Entry} (size : log.length < 2 ^ 31) :
    ∃ participantId : Fin (2 ^ 31), ∀ entry ∈ log,
      lower entry.scored.1 ≠ lower (printSize participantId) := by
  by_contra used
  push Not at used
  have injective : Set.InjOn (fun participantId : Fin (2 ^ 31) => lower (printSize participantId))
      (Finset.univ : Finset (Fin (2 ^ 31))) := by
    intro first _ second _ same
    simp only [lower_printSize] at same
    have values := congrArg decimalValue same
    rw [decimalValue_printSize, decimalValue_printSize] at values
    exact Fin.ext values
  have inside : Set.MapsTo (fun participantId : Fin (2 ^ 31) => lower (printSize participantId))
      (Finset.univ : Finset (Fin (2 ^ 31)))
      ((log.map fun entry => lower entry.scored.1).toFinset : Finset Bytes) := by
    intro participantId _
    rcases used participantId with ⟨entry, member, same⟩
    rw [Finset.mem_coe, mem_toFinset, mem_map]
    exact ⟨entry, member, same⟩
  have many := Finset.card_le_card_of_injOn _ inside injective
  have few := toFinset_card_le (log.map fun entry => lower entry.scored.1)
  rw [Finset.card_univ, Fintype.card_fin] at many
  rw [length_map] at few
  omega

/-- The scores do not depend on the format of the rows exactly if there is no row whose format could
be changed. -/
theorem log_formats_agree_iff (log : List Entry) (size : log.length < 2 ^ 31) :
    (∀ log', Rewritten log log' → SameScores (entriesText log) (entriesText log')) ↔
      ∀ entry ∈ log, entry.participantId.isSome = true := by
  constructor
  · intro agree entry member
    by_contra isNew
    rw [Option.not_isSome_iff_eq_none] at isNew
    rcases exists_fresh_participantId size with ⟨participantId, fresh⟩
    have absent (entries : List Entry) (among : ∀ entry ∈ entries, entry ∈ log) :
        (entries.map Entry.scored).filter
          (fun row => lower row.1 = lower (printSize participantId)) = [] := by
      rw [filter_eq_nil_iff]
      intro row isRow
      rcases mem_map.mp isRow with ⟨other, isEntry, rfl⟩
      simpa using fresh other (among other isEntry)
    have before : calculateAccuracyForAddress (some (entriesText log)) (printSize participantId) =
        50 := by
      rw [accuracy_entriesText, absent log fun _ member => member]
      rfl
    rcases append_of_mem member with ⟨front, back, rfl⟩
    have rewritten : Rewritten (front ++ entry :: back)
        (front ++ ⟨entry.row, some participantId⟩ :: back) :=
      rel_append (forall₂_same.mpr fun _ _ => .inl rfl)
        (.cons (.inr ⟨isNew, rfl⟩) (forall₂_same.mpr fun _ _ => .inl rfl))
    -- The rewritten row counts as a wrong decision of the id.
    have after : calculateAccuracyForAddress
        (some (entriesText (front ++ ⟨entry.row, some participantId⟩ :: back)))
        (printSize participantId) = 0 := by
      have own : ((front ++ ⟨entry.row, some participantId⟩ :: back).map Entry.scored).filter
          (fun row => lower row.1 = lower (printSize participantId)) =
          [(printSize participantId, 0)] := by
        rw [map_append, map_cons, filter_append,
          absent front fun _ member => mem_append_left _ member,
          filter_cons_of_pos (by simp [Entry.scored]),
          absent back fun _ member => mem_append_right _ (mem_cons_of_mem _ member)]
        rfl
      rw [accuracy_entriesText, own]
      simp
    have same := (agree _ rewritten).accuracy (printSize participantId)
    rw [before, after] at same
    cases same
  · intro old log' rewritten
    have unchanged : log = log' := by
      rw [← forall₂_eq_eq_eq]
      refine ((forall₂_and_left log log').mpr ⟨old, rewritten⟩).imp ?_
      rintro before after ⟨isOld, same | ⟨isNew, -⟩⟩
      · exact same.symm
      · rw [isNew] at isOld
        cases isOld
    rw [unchanged]
    exact ⟨fun _ => rfl, fun _ => rfl, fun _ => rfl⟩

def sampleEntries (first second : Option (Fin (2 ^ 31))) : List Entry :=
  [⟨pollRow .a .providedShares, first⟩, ⟨pollRow .b .providedShares, second⟩]

theorem log_formats_agree_old : (sampleEntries (some 1) (some 2)).length < 2 ^ 31 ∧
    ∀ log', Rewritten (sampleEntries (some 1) (some 2)) log' →
      SameScores (entriesText (sampleEntries (some 1) (some 2))) (entriesText log') := by
  have size : (sampleEntries (some 1) (some 2)).length < 2 ^ 31 := by decide
  refine ⟨size, (log_formats_agree_iff _ size).mpr ?_⟩
  intro entry member
  rcases mem_pair.mp member with rfl | rfl
  · rfl
  · rfl

theorem log_formats_differ :
    Rewritten (sampleEntries none none) (sampleEntries (some 1) (some 2)) ∧
      calculateAccuracyForAddress (some (entriesText (sampleEntries none none))) (ascii ['a']) =
        100 ∧
      calculateAccuracyForAddress (some (entriesText (sampleEntries (some 1) (some 2))))
        (ascii ['a']) = 50 ∧
      calculateConsistencyForAddress (some (entriesText (sampleEntries none none))) (ascii ['a']) =
        100 ∧
      calculateConsistencyForAddress (some (entriesText (sampleEntries (some 1) (some 2))))
        (ascii ['a']) = 0 ∧
      calculateParticipationForAddress (some (entriesText (sampleEntries none none)))
        (ascii ['a']) = 100 ∧
      calculateParticipationForAddress (some (entriesText (sampleEntries (some 1) (some 2))))
        (ascii ['a']) = 0 := by
  refine ⟨.cons (.inr ⟨rfl, rfl⟩) (.cons (.inr ⟨rfl, rfl⟩) .nil), ?_⟩
  decide +kernel

end TigerMixer.Reputation
