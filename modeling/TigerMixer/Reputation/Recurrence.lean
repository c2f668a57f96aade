import TigerMixer.Algebra.Decay
import TigerMixer.Reputation.Contract

/-!
# Reputation as a decaying sum

Only an account's own accepted reports count for its reputation, and each of them decays the value
so far by 95% before it adds its gain. A stored value of zero, which skips the decay, is no
exception, because zero decays to zero.
-/

namespace TigerMixer.Reputation

open Decay

def gain (participation consistency : ℕ) : ℕ :=
  6 * consistency / 10 + 4 * participation / 10

theorem gain_mono {participation participation' consistency consistency' : ℕ}
    (participationLe : participation ≤ participation')
    (consistencyLe : consistency ≤ consistency') :
    gain participation consistency ≤ gain participation' consistency' := by
  unfold gain
  gcongr

theorem gain_le {participation consistency : ℕ} (participationLe : participation ≤ 100)
    (consistencyLe : consistency ≤ 100) : gain participation consistency ≤ 100 :=
  gain_mono participationLe consistencyLe

/-- The bounds that keep the arithmetic from wrapping. -/
structure MemberReputation.Bounded (record : MemberReputation) : Prop where
  participationRate : record.participationRate ≤ 100
  consistency : record.consistency ≤ 100
  previousReputation : record.previousReputation ≤ 2000

namespace State

variable {state : State} {account : Address}

section Bounded

variable (bounded : (state.memberReputations account).Bounded)

include bounded

theorem calculateDeltaReputation_eq :
    state.calculateDeltaReputation account =
      gain (state.memberReputations account).participationRate
        (state.memberReputations account).consistency := by
  rcases bounded with ⟨participation, consistency, -⟩
  have weighted (score weight tenths : ℕ) (small : score ≤ 100)
      (weightEq : weight = tenths * 10 ^ 17) (tenthsSmall : tenths ≤ 10) :
      Word.mul score weight / precision = tenths * score / 10 := by
    have product : score * weight ≤ 100 * (10 * 10 ^ 17) := by
      rw [weightEq]
      gcongr
    rw [Word.mul_of_lt (lt_of_le_of_lt product (by unfold wordSize; norm_num)), weightEq,
      show score * (tenths * 10 ^ 17) = tenths * score * 10 ^ 17 by ring,
      show precision = 10 * 10 ^ 17 by rfl, Nat.mul_div_mul_right _ _ (by positivity)]
  have total := gain_le participation consistency
  unfold gain at total
  simp only [calculateDeltaReputation, gain,
    weighted _ omegaConsistency 6 consistency rfl (by omega),
    weighted _ omegaParticipation 4 participation rfl (by omega)]
  apply Word.add_of_lt
  apply lt_wordSize
  omega

theorem calculateReputation_eq :
    state.calculateReputation account =
      95 * (state.memberReputations account).previousReputation / 100 +
        gain (state.memberReputations account).participationRate
          (state.memberReputations account).consistency := by
  have delta := calculateDeltaReputation_eq bounded
  have small := gain_le bounded.participationRate bounded.consistency
  have previous := bounded.previousReputation
  unfold calculateReputation
  rw [delta]
  dsimp only
  generalize (state.memberReputations account).previousReputation = stored at previous ⊢
  split_ifs with unset
  · simp [unset]
  · have product : stored * lambda ≤ 2000 * 10 ^ 18 := by
      apply Nat.mul_le_mul previous
      decide
    have decayed : Word.mul stored lambda / precision = 95 * stored / 100 := by
      rw [Word.mul_of_lt (lt_of_le_of_lt product (by unfold wordSize; norm_num)),
        show stored * lambda = 95 * stored * 10 ^ 16 by unfold lambda; ring,
        show precision = 100 * 10 ^ 16 by rfl, Nat.mul_div_mul_right _ _ (by positivity)]
    rw [decayed]
    apply Word.add_of_lt
    apply lt_wordSize
    omega

theorem calculateReputation_le :
    state.calculateReputation account ≤ 2000 := by
  rw [calculateReputation_eq bounded]
  have small := gain_le bounded.participationRate bounded.consistency
  have previous := bounded.previousReputation
  omega

end Bounded

end State

def Call.Accepted (call : Call) : Prop :=
  call.msg.value = 0 ∧ call.participation ≤ 100 ∧ call.consistency ≤ 100

instance (call : Call) : Decidable call.Accepted :=
  inferInstanceAs (Decidable (_ ∧ _))

def reports (account : Address) (calls : List Call) : List Call :=
  calls.filter fun call => call.msg.sender = account ∧ call.Accepted

def Call.gain (call : Call) : ℕ :=
  Reputation.gain call.participation call.consistency

section Step

variable {state : State} {call : Call} {account : Address}

theorem step_of_accepted (accepted : call.Accepted) :
    state.step call = { state with
      memberReputations := Function.update state.memberReputations call.msg.sender
        { participationRate := call.participation
          consistency := call.consistency
          lastUpdateTime := call.msg.timestamp
          totalDecisions := (state.memberReputations call.msg.sender).totalDecisions
          correctDecisions := (state.memberReputations call.msg.sender).correctDecisions
          previousReputation := state.calculateReputation call.msg.sender } } := by
  rcases accepted with ⟨value, scores⟩
  simp [State.step, State.updateReputation, value, scores]

theorem step_of_not_accepted (rejected : ¬call.Accepted) : state.step call = state := by
  unfold Call.Accepted at rejected
  by_cases value : call.msg.value = 0
  · have scores : ¬(call.participation ≤ 100 ∧ call.consistency ≤ 100) := by
      simpa [value] using rejected
    simp [State.step, State.updateReputation, value, scores]
  · simp [State.step, State.updateReputation, value]

theorem memberReputations_step_of_ne (other : call.msg.sender ≠ account) :
    (state.step call).memberReputations account = state.memberReputations account := by
  by_cases accepted : call.Accepted
  · simp [step_of_accepted accepted, Function.update_of_ne other.symm]
  · rw [step_of_not_accepted accepted]

theorem calculateReputation_step_of_ne (other : call.msg.sender ≠ account) :
    (state.step call).calculateReputation account = state.calculateReputation account := by
  simp only [State.calculateReputation, State.calculateDeltaReputation,
    memberReputations_step_of_ne other]

theorem Bounded.step (bounded : ∀ member, (state.memberReputations member).Bounded)
    (member : Address) : ((state.step call).memberReputations member).Bounded := by
  by_cases own : call.msg.sender = member
  · subst own
    by_cases accepted : call.Accepted
    · simp only [step_of_accepted accepted, Function.update_self]
      exact ⟨accepted.2.1, accepted.2.2, State.calculateReputation_le (bounded _)⟩
    · rw [step_of_not_accepted accepted]
      exact bounded _
  · rw [memberReputations_step_of_ne own]
    exact bounded member

theorem calculateReputation_step (bounded : ∀ member, (state.memberReputations member).Bounded)
    (accepted : call.Accepted) :
    (state.step call).calculateReputation call.msg.sender =
      95 * state.calculateReputation call.msg.sender / 100 + call.gain := by
  rw [State.calculateReputation_eq (Bounded.step bounded _)]
  simp [step_of_accepted accepted, Call.gain]

end Step

section Run

variable {state : State}

theorem Bounded.run (bounded : ∀ member, (state.memberReputations member).Bounded)
    (calls : List Call) (member : Address) :
    ((state.run calls).memberReputations member).Bounded := by
  induction calls generalizing state with
  | nil => exact bounded member
  | cons call calls ih => exact ih (Bounded.step bounded)

theorem calculateReputation_run (bounded : ∀ member, (state.memberReputations member).Bounded)
    (calls : List Call) (account : Address) :
    (state.run calls).calculateReputation account =
      decay 95 100 (state.calculateReputation account)
        ((reports account calls).map Call.gain) := by
  induction calls generalizing state with
  | nil => rfl
  | cons call calls ih =>
    have rest := ih (@Bounded.step state call bounded)
    rw [State.run, List.foldl_cons, ← State.run, rest]
    by_cases own : call.msg.sender = account
    · subst own
      by_cases accepted : call.Accepted
      · simp [reports, accepted, decay, calculateReputation_step bounded accepted]
      · simp [reports, accepted, step_of_not_accepted accepted]
    · simp [reports, own, calculateReputation_step_of_ne own]

section Create

variable (members : List Address) (timestamp : ℕ) (account : Address)

theorem memberReputations_create :
    (State.create members timestamp).memberReputations account =
      if account ∈ members then .initial timestamp else .blank := by
  suffices loop : ∀ records : Address → MemberReputation,
      members.foldl (fun records member => Function.update records member (.initial timestamp))
        records account = if account ∈ members then .initial timestamp else records account from
    loop _
  induction members with
  | nil => simp
  | cons member members ih =>
    intro records
    rw [List.foldl_cons, ih]
    by_cases same : account = member
    · simp [same]
    · simp [same]

theorem bounded_create :
    ((State.create members timestamp).memberReputations account).Bounded := by
  rw [memberReputations_create]
  split_ifs
  · constructor <;> simp [MemberReputation.initial]
  · constructor <;> simp [MemberReputation.blank]

theorem calculateReputation_create :
    (State.create members timestamp).calculateReputation account =
      gain ((State.create members timestamp).memberReputations account).participationRate
        ((State.create members timestamp).memberReputations account).consistency := by
  have unset : ((State.create members timestamp).memberReputations account).previousReputation =
      0 := by
    rw [memberReputations_create]
    split_ifs <;> rfl
  simp [State.calculateReputation_eq (bounded_create members timestamp account), unset]

end Create

theorem exists_decay_recent (bounded : ∀ member, (state.memberReputations member).Bounded)
    {calls earlier recent : List Call} {account : Address}
    (split : reports account calls = earlier ++ recent) :
    ∃ value ≤ 2000, (state.run calls).calculateReputation account =
      decay 95 100 value (recent.map Call.gain) := by
  refine ⟨decay 95 100 (state.calculateReputation account) (earlier.map Call.gain), ?_, ?_⟩
  · apply decay_le (State.calculateReputation_le (bounded account))
    intro gained member
    rcases List.mem_map.mp member with ⟨report, reported, rfl⟩
    have accepted : report ∈ reports account calls := by simp [split, reported]
    simp only [reports, List.mem_filter, decide_eq_true_eq] at accepted
    rcases accepted with ⟨-, -, -, participation, consistency⟩
    have small := gain_le participation consistency
    simp only [Call.gain]
    omega
  · rw [calculateReputation_run bounded, split, List.map_append, decay, List.foldl_append]
    rfl

theorem abs_decay_sub_le {first second : ℕ} (firstLe : first ≤ 2000) (secondLe : second ≤ 2000)
    (gains : List ℕ) :
    |(decay 95 100 first gains : ℚ) - decay 95 100 second gains| ≤
      2000 * (95 / 100) ^ gains.length + 20 := by
  have forgotten := abs_decay_sub_decay_le (show 95 < 100 by omega) first second gains
  have limit : ((100 : ℕ) : ℚ) / ((100 : ℕ) - (95 : ℕ)) = 20 := by norm_num
  rw [limit] at forgotten
  push_cast at forgotten
  have apart : |(first : ℚ) - second| ≤ 2000 := by
    have firstLe' : (first : ℚ) ≤ 2000 := by exact_mod_cast firstLe
    have secondLe' : (second : ℚ) ≤ 2000 := by exact_mod_cast secondLe
    have firstNonneg : (0 : ℚ) ≤ first := Nat.cast_nonneg first
    have secondNonneg : (0 : ℚ) ≤ second := Nat.cast_nonneg second
    rw [abs_le]
    constructor <;> linarith
  have power : (0 : ℚ) ≤ (95 / 100) ^ gains.length := by positivity
  nlinarith

end Run

/-- The reputation is the decaying sum of an account's accepted reports. It is bounded, monotone in
the reports, forgets all but the last ones, and does not depend on other accounts. -/
theorem reputation_recurrence (members : List Address) (timestamp : ℕ) (calls : List Call)
    (account : Address) :
    let initial := State.create members timestamp
    ((initial.run calls).calculateReputation account =
      decay 95 100 (gain (initial.memberReputations account).participationRate
        (initial.memberReputations account).consistency)
        ((reports account calls).map Call.gain)) ∧
    (initial.run calls).calculateReputation account ≤ 2000 ∧
    (∀ calls', List.Forall₂ (fun report report' => report.participation ≤ report'.participation ∧
        report.consistency ≤ report'.consistency) (reports account calls) (reports account calls') →
      (initial.run calls).calculateReputation account ≤
        (initial.run calls').calculateReputation account) ∧
    (∀ calls' earlier earlier' recent : List Call,
      reports account calls = earlier ++ recent → reports account calls' = earlier' ++ recent →
        |((initial.run calls).calculateReputation account : ℚ) -
            (initial.run calls').calculateReputation account| ≤
          2000 * (95 / 100) ^ recent.length + 20) ∧
    (∀ call : Call, call.msg.sender ≠ account →
      (initial.run (calls ++ [call])).calculateReputation account =
        (initial.run calls).calculateReputation account) := by
  intro initial
  have bounded := bounded_create members timestamp
  have value (calls : List Call) := calculateReputation_run bounded calls account
  refine ⟨?_, ?_, ?_, ?_, ?_⟩
  · rw [← calculateReputation_create]
    exact value calls
  · exact State.calculateReputation_le (Bounded.run bounded calls account)
  · intro calls' pointwise
    rw [value calls, value calls']
    apply decay_mono le_rfl
    rw [List.forall₂_map_left_iff, List.forall₂_map_right_iff]
    exact pointwise.imp fun report report' le => gain_mono le.1 le.2
  · intro calls' earlier earlier' recent split split'
    rcases exists_decay_recent bounded split with ⟨first, firstLe, firstEq⟩
    rcases exists_decay_recent bounded split' with ⟨second, secondLe, secondEq⟩
    rw [firstEq, secondEq, ← List.length_map Call.gain]
    exact abs_decay_sub_le firstLe secondLe _
  · intro call other
    rw [State.run, List.foldl_append, ← State.run]
    exact calculateReputation_step_of_ne other

end TigerMixer.Reputation
