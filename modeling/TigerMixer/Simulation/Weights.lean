import TigerMixer.Sampling.Choices
import TigerMixer.Simulation.Votes
import Mathlib.Algebra.Order.Field.Basic
import Mathlib.Tactic.FieldSimp
import Mathlib.Tactic.Linarith

/-!
# Reputations and weights of the candidates

The reputation of a member is halved and increased by the scores of its votes at every update. Its
weight has a denominator that depends on all members of the committee. Reputations stay between 0
and 3/2 and weights between 0 and 1500, so that the weighted selection never fails.
-/

namespace TigerMixer.Simulation

/-! ### Candidates -/

structure Candidate where
  weight : ℚ
  rep : ℚ
  vote : List Bool

def weightBase : ℚ := 1000

def weightUpperBound : ℚ := 2000

def repBase : ℚ := 1

def wc : ℚ := 1 / 4

def wa : ℚ := 1 / 2

namespace Candidate

def initial : Candidate where
  weight := 1000
  rep := 1
  vote := []

def updateRep (candidate : Candidate) (decision answer : List Bool) : Option Candidate :=
  (Simulation.updateRep candidate.vote decision answer).map fun scores =>
    { candidate with
      rep := 1 / 2 * candidate.rep +
        (wc * scores.consistency + wa * scores.accuracy) * repBase }

def updateWeight (candidate : Candidate) (repMin repMax : ℚ) : Candidate :=
  { candidate with
    weight := weightBase + (candidate.rep - repBase) * (weightUpperBound - weightBase) /
      (repMax - repMin + repBase) }

end Candidate

/-! ### Updates -/

/-- The variables of the simulator. An exception ends the simulation. -/
structure Board (Member : Type*) where
  candidate : Member → Candidate
  committees : List Member
  decision : List Bool
  answer : List Bool
  raised : Bool

/-- A vote of a member, a decision with the answer, an update with the random numbers of the
selection. -/
inductive Turn (Member : Type*) where
  | cast (member : Member) (vote : Bool)
  | conclude (decision answer : Bool)
  | update (draws : ℕ → ℚ)

variable {Member : Type*} [DecidableEq Member]

def selectCommittee (candidates : List Member) (weight : Member → ℚ) (draws : ℕ → ℚ) :
    Option (List Member) :=
  if candidates.length < 10 then none
  else Sampling.choose weight 10 candidates draws

namespace Board

variable (board : Board Member)

omit [DecidableEq Member] in
def weight (member : Member) : ℚ :=
  (board.candidate member).weight

omit [DecidableEq Member] in
def rep (member : Member) : ℚ :=
  (board.candidate member).rep

def updateReps (board : Board Member) : List Member → Board Member
  | [] => board
  | member :: members =>
    match (board.candidate member).updateRep board.decision board.answer with
    | none => { board with raised := true }
    | some updated =>
      updateReps { board with candidate := Function.update board.candidate member updated }
        members

def updateWeights (repMin repMax : ℚ) (members : List Member) : Board Member :=
  members.foldl
    (fun board member => { board with
      candidate := Function.update board.candidate member
        ((board.candidate member).updateWeight repMin repMax) })
    board

def updateMembers : Board Member :=
  let updated := board.updateReps board.committees
  if updated.raised then updated
  else
    match (board.committees.map updated.rep).min?, (board.committees.map updated.rep).max? with
    | some repMin, some repMax =>
      { updated.updateWeights repMin repMax board.committees with decision := [], answer := [] }
    | _, _ => { updated with raised := true }

def reselect (candidates : List Member) (draws : ℕ → ℚ) : Board Member :=
  match selectCommittee candidates board.weight draws with
  | some committees => { board with committees }
  | none => { board with raised := true }

def updateCommittees (candidates : List Member) (draws : ℕ → ℚ) : Board Member :=
  let updated := if board.decision = [] then board else board.updateMembers
  if updated.raised then updated else updated.reselect candidates draws

def step (candidates : List Member) (board : Board Member) (turn : Turn Member) : Board Member :=
  if board.raised then board
  else
    match turn with
    | .cast member vote =>
      { board with
        candidate := Function.update board.candidate member
          { board.candidate member with vote := (board.candidate member).vote ++ [vote] } }
    | .conclude decision answer =>
      { board with
        decision := board.decision ++ [decision]
        answer := board.answer ++ [answer] }
    | .update draws => board.updateCommittees candidates draws

omit [DecidableEq Member] in
def initial (committees : List Member) : Board Member where
  candidate := fun _ => .initial
  committees := committees
  decision := []
  answer := []
  raised := false

def run (candidates committees : List Member) (turns : List (Turn Member)) : Board Member :=
  turns.foldl (step candidates) (initial committees)

end Board

/-! ### The range of reputations and weights -/

structure Candidate.InRange (candidate : Candidate) : Prop where
  repPositive : 0 < candidate.rep
  repBelow : candidate.rep < 3 / 2
  weightPositive : 0 < candidate.weight
  weightBelow : candidate.weight < 1500

theorem agreements_le (left right : List Bool) : agreements left right ≤ left.length := by
  refine List.countP_le_length.trans ?_
  rw [List.length_zip]
  exact min_le_left _ _

theorem updateRep_scores {vote decision answer : List Bool} {scores : Scores}
    (nonempty : decision ≠ []) (sameLength : answer.length = decision.length)
    (updated : updateRep vote decision answer = some scores) :
    (0 ≤ scores.consistency ∧ scores.consistency ≤ 1) ∧
      0 ≤ scores.accuracy ∧ scores.accuracy ≤ 1 := by
  have positive : (0 : ℚ) < decision.length := by
    exact_mod_cast List.length_pos_iff.mpr nonempty
  have proportion : ∀ part : ℕ, part ≤ decision.length →
      0 ≤ (part : ℚ) / decision.length ∧ (part : ℚ) / decision.length ≤ 1 := by
    intro part atMost
    have atMost' : (part : ℚ) ≤ decision.length := by exact_mod_cast atMost
    exact ⟨div_nonneg (Nat.cast_nonneg _) positive.le, (div_le_one positive).mpr atMost'⟩
  unfold updateRep at updated
  split_ifs at updated
  rw [← Option.some.inj updated]
  exact ⟨proportion _ (agreements_le _ _), proportion _ (sameLength ▸ agreements_le _ _)⟩

theorem Candidate.InRange.updateRep {candidate updated : Candidate} (inRange : candidate.InRange)
    {decision answer : List Bool} (nonempty : decision ≠ [])
    (sameLength : answer.length = decision.length)
    (isUpdated : candidate.updateRep decision answer = some updated) : updated.InRange := by
  rw [Candidate.updateRep, Option.map_eq_some_iff] at isUpdated
  rcases isUpdated with ⟨scores, areScores, rfl⟩
  rcases updateRep_scores nonempty sameLength areScores with ⟨consistency, accuracy⟩
  rcases inRange with ⟨repPositive, repBelow, weightPositive, weightBelow⟩
  refine ⟨?_, ?_, weightPositive, weightBelow⟩ <;> simp only [wc, wa, repBase] <;> linarith

theorem Candidate.InRange.updateWeight {candidate : Candidate} (inRange : candidate.InRange)
    {repMin repMax : ℚ} (ordered : repMin ≤ repMax) :
    (candidate.updateWeight repMin repMax).InRange := by
  rcases inRange with ⟨repPositive, repBelow, -, -⟩
  have positive : 0 < repMax - repMin + 1 := by linarith
  refine ⟨repPositive, repBelow, ?_, ?_⟩
  · have above : -1000 < (candidate.rep - 1) * (2000 - 1000) / (repMax - repMin + 1) := by
      rw [lt_div_iff₀ positive]
      linarith
    simp only [Candidate.updateWeight, weightBase, weightUpperBound, repBase]
    linarith
  · have below : (candidate.rep - 1) * (2000 - 1000) / (repMax - repMin + 1) < 500 := by
      rw [div_lt_iff₀ positive]
      linarith
    simp only [Candidate.updateWeight, weightBase, weightUpperBound, repBase]
    linarith

structure Board.InRange (board : Board Member) : Prop where
  candidates : ∀ member, (board.candidate member).InRange
  sameLength : board.answer.length = board.decision.length

namespace Board

variable {board : Board Member} {candidates : List Member}

theorem forall_update {holds : Candidate → Prop} {candidate : Member → Candidate}
    (all : ∀ member, holds (candidate member)) {changed : Candidate} (holdsChanged : holds changed)
    (member : Member) : ∀ other, holds (Function.update candidate member changed other) := by
  intro other
  by_cases same : other = member
  · rw [same, Function.update_self]
    exact holdsChanged
  · rw [Function.update_of_ne same]
    exact all other

theorem InRange.updateReps (inRange : board.InRange) (nonempty : board.decision ≠ [])
    (members : List Member) : (board.updateReps members).InRange := by
  induction members generalizing board with
  | nil => exact inRange
  | cons member members ih =>
    unfold Board.updateReps
    split
    · exact ⟨inRange.candidates, inRange.sameLength⟩
    next updated isUpdated =>
      refine ih ⟨forall_update inRange.candidates ?_ member, inRange.sameLength⟩ nonempty
      exact (inRange.candidates member).updateRep nonempty inRange.sameLength isUpdated

theorem InRange.updateWeights (inRange : board.InRange) {repMin repMax : ℚ}
    (ordered : repMin ≤ repMax) (members : List Member) :
    (board.updateWeights repMin repMax members).InRange := by
  unfold Board.updateWeights
  induction members generalizing board with
  | nil => exact inRange
  | cons member members ih =>
    rw [List.foldl_cons]
    exact ih ⟨forall_update inRange.candidates
      ((inRange.candidates member).updateWeight ordered) member, inRange.sameLength⟩

theorem candidate_updateWeights (board : Board Member) (repMin repMax : ℚ)
    (members : List Member) (member : Member) :
    (board.updateWeights repMin repMax members).candidate member =
      if member ∈ members then (board.candidate member).updateWeight repMin repMax
      else board.candidate member := by
  unfold Board.updateWeights
  induction members generalizing board with
  | nil => simp
  | cons first members ih =>
    rw [List.foldl_cons, ih]
    by_cases same : member = first
    · -- The weight of a member that occurs again is the same one.
      subst same
      simp [Candidate.updateWeight]
    · simp [same]

theorem updateMembers_cases (board : Board Member) :
    board.updateMembers.raised = true ∧
        (board.updateMembers.candidate = (board.updateReps board.committees).candidate ∧
          board.updateMembers.answer = (board.updateReps board.committees).answer ∧
          board.updateMembers.decision = (board.updateReps board.committees).decision) ∨
      ∃ repMin repMax, repMin ≤ repMax ∧
        board.updateMembers = { (board.updateReps board.committees).updateWeights repMin repMax
          board.committees with decision := [], answer := [] } := by
  unfold updateMembers
  simp only
  split_ifs with raised
  · exact .inl ⟨raised, rfl, rfl, rfl⟩
  · split
    next repMin repMax isMin isMax =>
      rw [List.min?_eq_some_iff] at isMin
      rw [List.max?_eq_some_iff] at isMax
      exact .inr ⟨repMin, repMax, isMax.2 repMin isMin.1, rfl⟩
    · exact .inl ⟨rfl, rfl, rfl, rfl⟩

theorem InRange.updateMembers (inRange : board.InRange) (nonempty : board.decision ≠ []) :
    board.updateMembers.InRange := by
  have updated := inRange.updateReps nonempty board.committees
  rcases board.updateMembers_cases with ⟨-, candidate, answer, decision⟩ | ⟨_, _, ordered, equal⟩
  · constructor
    · rw [candidate]
      exact updated.candidates
    · rw [answer, decision]
      exact updated.sameLength
  · rw [equal]
    exact ⟨(updated.updateWeights ordered board.committees).candidates, rfl⟩

theorem weight_lt_weight (completed : board.updateMembers.raised = false) {left right : Member}
    (leftMember : left ∈ board.committees) (rightMember : right ∈ board.committees)
    (lower : board.updateMembers.rep left < board.updateMembers.rep right) :
    board.updateMembers.weight left < board.updateMembers.weight right := by
  rcases board.updateMembers_cases with ⟨raised, -⟩ | ⟨repMin, repMax, ordered, equal⟩
  · rw [completed] at raised
    exact absurd raised Bool.false_ne_true
  · have positive : 0 < repMax - repMin + 1 := by linarith
    simp only [equal, Board.rep, Board.weight, candidate_updateWeights, leftMember, rightMember,
      if_true, Candidate.updateWeight, weightBase, weightUpperBound, repBase] at lower ⊢
    have scaled := div_lt_div_of_pos_right
      (mul_lt_mul_of_pos_right (sub_lt_sub_right lower 1) (by norm_num : (0 : ℚ) < 2000 - 1000))
      positive
    linarith

section Committees

variable (inRange : board.InRange) (draws : ℕ → ℚ)

include inRange draws

theorem InRange.selectCommittee :
    (∃ committees, selectCommittee candidates board.weight draws = some committees ∧
      committees.length = 10 ∧ committees.Subperm candidates) ↔ 10 ≤ candidates.length := by
  unfold Simulation.selectCommittee
  split_ifs with few
  · simpa using few
  · refine ⟨fun _ => not_lt.mp few, fun enough => ?_⟩
    exact Sampling.exists_choose (fun member _ => (inRange.candidates member).weightPositive)
      enough draws

theorem InRange.reselect :
    (board.reselect candidates draws).InRange := by
  unfold Board.reselect
  split <;> exact ⟨inRange.candidates, inRange.sameLength⟩

theorem InRange.updateCommittees :
    (board.updateCommittees candidates draws).InRange := by
  have updated : (if board.decision = [] then board else board.updateMembers).InRange := by
    split_ifs with empty
    · exact inRange
    · exact inRange.updateMembers empty
  unfold Board.updateCommittees
  generalize (if board.decision = [] then board else board.updateMembers) = changed at updated
  simp only
  split_ifs
  · exact updated
  · exact updated.reselect draws

end Committees

theorem InRange.step (inRange : board.InRange) (turn : Turn Member) :
    (board.step candidates turn).InRange := by
  unfold Board.step
  split_ifs
  · exact inRange
  · cases turn with
    | cast member vote =>
      refine ⟨forall_update inRange.candidates ?_ member, inRange.sameLength⟩
      rcases inRange.candidates member with ⟨repPositive, repBelow, weightPositive, weightBelow⟩
      exact ⟨repPositive, repBelow, weightPositive, weightBelow⟩
    | conclude decision answer => exact ⟨inRange.candidates, by simp [inRange.sameLength]⟩
    | update draws => exact inRange.updateCommittees draws

theorem inRange_run (candidates committees : List Member) (turns : List (Turn Member)) :
    (run candidates committees turns).InRange := by
  have initial : (Board.initial committees).InRange := by
    refine ⟨fun _ => ?_, rfl⟩
    constructor <;> norm_num [Board.initial, Candidate.initial]
  unfold run
  generalize Board.initial committees = board at initial
  induction turns generalizing board with
  | nil => exact initial
  | cons turn turns ih => exact ih _ (initial.step turn)

end Board

/-- After any run, reputations and weights are in range, a committee can be drawn exactly if there
are ten candidates, and the next update gives members with more reputation more weight. -/
theorem weights_in_range (candidates committees : List Member) (turns : List (Turn Member)) :
    (∀ member, (0 < (Board.run candidates committees turns).rep member ∧
        (Board.run candidates committees turns).rep member < 3 / 2) ∧
      0 < (Board.run candidates committees turns).weight member ∧
      (Board.run candidates committees turns).weight member < 1500 ∧
      (Board.run candidates committees turns).weight member ≤ weightUpperBound) ∧
    (∀ draws, (∃ selected, selectCommittee candidates
        (Board.run candidates committees turns).weight draws = some selected ∧
        selected.length = 10 ∧ selected.Subperm candidates) ↔ 10 ≤ candidates.length) ∧
    ((Board.run candidates committees turns).decision ≠ [] →
      (Board.run candidates committees turns).updateMembers.raised = false →
      ∀ left ∈ (Board.run candidates committees turns).committees,
      ∀ right ∈ (Board.run candidates committees turns).committees,
        (Board.run candidates committees turns).updateMembers.rep left <
            (Board.run candidates committees turns).updateMembers.rep right →
          (Board.run candidates committees turns).updateMembers.weight left <
            (Board.run candidates committees turns).updateMembers.weight right) := by
  have inRange := Board.inRange_run candidates committees turns
  refine ⟨?_, inRange.selectCommittee, ?_⟩
  · intro member
    rcases inRange.candidates member with ⟨repPositive, repBelow, weightPositive, weightBelow⟩
    refine ⟨⟨repPositive, repBelow⟩, weightPositive, weightBelow, weightBelow.le.trans ?_⟩
    norm_num [weightUpperBound]
  · intro _ completed left leftMember right rightMember
    exact Board.weight_lt_weight completed leftMember rightMember

end TigerMixer.Simulation
