import TigerMixer.Calls.History
import TigerMixer.Rotation.Randomness

/-!
# Random values and rotations in the order of the calls

Which random value and proof each rotation used. The flag `currentVRFUsed` keeps a pair from being
used again until the next submission, but a submission does not ask whether the pair is new, and the
flag is set only after the reward pool has had control.
-/

namespace TigerMixer.Rotation

open Calls List

abbrev History := List (Entry State Call)

def usedPair (entry : Entry State Call) : Option (ℕ × Bytes) :=
  match entry.op.request with
  | .rotateCommittee _ => some (entry.start.currentVRFRandom, entry.start.currentVRFProof)
  | _ => none

def submittedPair (entry : Entry State Call) : Option (ℕ × Bytes) :=
  match entry.op.request with
  | .submitVRFRandomWithProof random proof _ _ => some (random, proof)
  | _ => none

def usedPairs (history : History) : List (ℕ × Bytes) := history.filterMap usedPair

def lastSubmitted (history : History) : Option (ℕ × Bytes) := history.findSome? submittedPair

def beforeSubmission : History → History
  | [] => []
  | entry :: history =>
    if (submittedPair entry).isSome then history else beforeSubmission history

/-- The stored pair is the last one submitted, and it is marked as used if a rotation has returned
since. -/
structure Pending (state : State) (history : History) : Prop where
  submitted : lastSubmitted history = some (state.currentVRFRandom, state.currentVRFProof) ∨
    state.currentVRFRandom = 0
  used : state.currentVRFUsed = false → usedPairs history = usedPairs (beforeSubmission history)

structure HistoryInv (state : State) (history : History) : Prop where
  pending : Pending state history
  rotations : ∀ entry rest pair, entry :: rest <:+ history → usedPair entry = some pair →
    pair = (entry.start.currentVRFRandom, entry.start.currentVRFProof) ∧
      entry.start.currentVRFRandom ≠ 0 ∧ entry.start.currentVRFUsed = false ∧
        Pending entry.start (entry.before rest)

section Step

variable {primitives : VrfPrimitives} {call : Call} {start before after : State}
  {earlier history : History}

theorem pending_update (pending : Pending before history)
    (update : Update primitives call.request before after) (earlier : ℕ) :
    Pending after (⟨call, start, earlier⟩ :: history) := by
  rcases call with ⟨msg, request⟩
  cases update with
  | submitted timestamp random proof publicKey message =>
    constructor
    · left
      simp [lastSubmitted, findSome?_cons, submittedPair, State.submitted, State.emit]
    · intro _
      simp [usedPairs, filterMap_cons, usedPair, beforeSubmission, submittedPair]
  | rotated views timestamp newCommittee =>
    constructor
    · simpa [lastSubmitted, findSome?_cons, submittedPair, State.rotated]
        using pending.submitted
    · simp [State.rotated]
  | rewardPool | vrfGenerator | verified | added | removed =>
    constructor
    · simpa [lastSubmitted, findSome?_cons, submittedPair, State.verified,
        State.emit] using pending.submitted
    · simpa [usedPairs, filterMap_cons, usedPair, beforeSubmission, submittedPair,
        State.verified, State.emit] using pending.used

theorem historyInv_effect (inv : HistoryInv start earlier) (suffix : earlier <:+ history)
    (inv' : HistoryInv before history) (effect : Effect primitives call start before after) :
    HistoryInv after (⟨call, start, earlier.length⟩ :: history) where
  pending := pending_update inv'.pending effect.update earlier.length
  rotations := by
    intro entry rest pair inside used
    rw [suffix_cons_iff] at inside
    rcases inside with newest | older
    · cases newest
      rw [Entry.before, ← suffix_iff_eq_drop.mp suffix]
      rcases call with ⟨msg, request⟩
      cases request with
      | rotateCommittee views =>
        have rotates := effect.rotation views rfl
        simp only [usedPair, Option.some.injEq] at used
        exact ⟨used.symm, rotates.nonzero, rotates.unused, inv.pending⟩
      | setRewardPool | setVRFGenerator | submitVRFRandomWithProof | verifyVRFProof | addCandidate
      | removeCandidate => simp [usedPair] at used
    · exact inv'.rotations entry rest pair older used

end Step

theorem nodup_usedPairs_iff (history : History) :
    (usedPairs history).Nodup ↔ ∀ entry rest pair, entry :: rest <:+ history →
      usedPair entry = some pair → pair ∉ usedPairs rest := by
  induction history with
  | nil => simp [usedPairs]
  | cons entry history ih =>
    simp only [suffix_cons_iff]
    cases used : usedPair entry with
    | none =>
      have same : usedPairs (entry :: history) = usedPairs history := filterMap_cons_none used
      rw [same, ih]
      constructor
      · rintro fresh entry' rest pair (newest | older) used'
        · cases newest
          simp [used] at used'
        · exact fresh entry' rest pair older used'
      · exact fun fresh entry' rest pair older => fresh entry' rest pair (Or.inr older)
    | some pair =>
      have added : usedPairs (entry :: history) = pair :: usedPairs history :=
        filterMap_cons_some used
      rw [added, nodup_cons, ih]
      constructor
      · rintro ⟨new, fresh⟩ entry' rest pair' (newest | older) used'
        · cases newest
          rw [used, Option.some.injEq] at used'
          exact used' ▸ new
        · exact fresh entry' rest pair' older used'
      · intro fresh
        exact ⟨fresh entry history pair (Or.inl rfl) used,
          fun entry' rest pair' older => fresh entry' rest pair' (Or.inr older)⟩

/-- No pair is used twice exactly if no rotation returns after one made during it with the same
pair, and no rotation uses a submission of a pair that had been used before. -/
theorem pairs_used_once_iff (primitives : VrfPrimitives) (self : Address)
    (initialCommittee : List Address) (vrfGenerator rewardPool : Address) (timestamp : ℕ)
    (script : Script Call) {state : State} {history : History}
    (reached : (state, history) ∈ (script.run (record (execute primitives))
      (State.create self initialCommittee vrfGenerator rewardPool timestamp, [])).seen) :
    state ∈ (script.run (execute primitives)
        (State.create self initialCommittee vrfGenerator rewardPool timestamp)).seen ∧
      (∀ entry rest pair, entry :: rest <:+ history → usedPair entry = some pair →
        lastSubmitted (entry.before rest) = some pair) ∧
      ((usedPairs history).Nodup ↔ ∀ entry rest pair, entry :: rest <:+ history →
        usedPair entry = some pair → pair ∉ usedPairs (entry.during rest) ∧
          pair ∉ usedPairs (beforeSubmission (entry.before rest))) := by
  have inv : HistoryInv state history :=
    Discipline.invariant_of_mem_seen_record (execute_updates primitives)
      (fun _ _ _ _ _ _ inv suffix inv' effect => historyInv_effect inv suffix inv' effect)
      ⟨⟨Or.inr rfl, fun _ => rfl⟩, by simp⟩ script reached
  refine ⟨(mem_seen_record_iff _ script _ state).mp ⟨history, reached⟩, ?_, ?_⟩
  · intro entry rest pair inside used
    rcases inv.rotations entry rest pair inside used with ⟨rfl, nonzero, -, pending⟩
    exact pending.submitted.resolve_right nonzero
  · rw [nodup_usedPairs_iff]
    apply forall_congr'
    intro entry
    apply forall_congr'
    intro rest
    apply forall_congr'
    intro pair
    apply forall_congr'
    intro inside
    apply forall_congr'
    intro used
    rcases inv.rotations entry rest pair inside used with ⟨-, -, unused, pending⟩
    have parts : usedPairs rest =
        usedPairs (entry.during rest) ++ usedPairs (beforeSubmission (entry.before rest)) := by
      rw [← pending.used unused, usedPairs, usedPairs, usedPairs, ← filterMap_append,
        Entry.during, Entry.before, take_append_drop]
    rw [parts, mem_append, not_or]

section Sample

def rotateAt (timestamp : ℕ) : Call := ⟨⟨9, 0, timestamp⟩, .rotateCommittee newcomers⟩

def usedOnceScript : Script Call :=
  .call (submission sampleOutput) [] <| candidatesJoin <| .call (rotateAt 30) [] <| .stop true

def usedTwiceScript : Script Call :=
  .call (submission sampleOutput) [] <| candidatesJoin <| .call (rotateAt 30) [] <|
    .call (submission sampleOutput) [] <| .call (rotateAt 60) [] <| .stop true

def finalOf (script : Script Call) : Option (State × History) :=
  (script.run (record (execute sampleVrf)) (sampleCreated, [])).final

end Sample

theorem pairs_used_once_submitted_once :
    ∃ state history, finalOf usedOnceScript = some (state, history) ∧
      usedPairs history = [(sampleOutput, sampleProof)] ∧
      ∀ entry rest pair, entry :: rest <:+ history → usedPair entry = some pair →
        pair ∉ usedPairs (beforeSubmission (entry.before rest)) := by
  have returns : (finalOf usedOnceScript).isSome := by decide +kernel
  rcases Option.isSome_iff_exists.mp returns with ⟨⟨state, history⟩, returned⟩
  have pairs : ((finalOf usedOnceScript).map fun final => usedPairs final.2) =
      some [(sampleOutput, sampleProof)] := by
    decide +kernel
  rw [returned, Option.map_some, Option.some.injEq] at pairs
  refine ⟨state, history, returned, pairs, ?_⟩
  intro entry rest pair inside used
  have once : (usedPairs history).Nodup := by
    rw [pairs]
    exact nodup_singleton _
  exact ((pairs_used_once_iff sampleVrf 0xc0 [21, 22, 23] 7 0 0 usedOnceScript
    (Script.mem_seen_of_final returned)).2.2.mp once entry rest pair inside used).2

/-- The generator submits the same pair before two rotations. -/
theorem pair_used_twice :
    ∃ state history, (state, history) ∈ (usedTwiceScript.run (record (execute sampleVrf))
        (sampleCreated, [])).seen ∧
      usedPairs history = [(sampleOutput, sampleProof), (sampleOutput, sampleProof)] ∧
      ¬(usedPairs history).Nodup := by
  have returns : (finalOf usedTwiceScript).isSome := by decide +kernel
  rcases Option.isSome_iff_exists.mp returns with ⟨⟨state, history⟩, returned⟩
  have pairs : ((finalOf usedTwiceScript).map fun final => usedPairs final.2) =
      some [(sampleOutput, sampleProof), (sampleOutput, sampleProof)] := by
    decide +kernel
  rw [returned, Option.map_some, Option.some.injEq] at pairs
  refine ⟨state, history, Script.mem_seen_of_final returned, pairs, ?_⟩
  simp [pairs]

end TigerMixer.Rotation
