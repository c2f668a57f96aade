import TigerMixer.Data.Table
import TigerMixer.Simulation.Metrics

/-!
# The counters of the simulation

Lists and a dictionary are filled in the order in which threads are finished, flags of users are set
twice, and the counters are increased in three places. Whatever the order, a step has the effect of
`Simulator.detect`.
-/

namespace TigerMixer.Simulation

open Simulator List

variable {User : Type*}

/-! ### A step of the simulation -/

structure Completion (User : Type*) where
  order : List User → List User
  perm : ∀ users, (order users).Perm users

/-- What a step depends on: the first layer, whom the auditor detects, the votes in favour of a ban,
and the orders of the threads. -/
structure Outcomes (User : Type*) where
  batchAudit : List User → List User
  detects : User → Bool
  votes : User → ℕ
  auditor : Completion User
  normal : Completion User
  attack : Completion User
  subset : ∀ users, batchAudit users ⊆ users
  distinct : ∀ users, (batchAudit users).Nodup

def Outcomes.condemns (outcomes : Outcomes User) (user : User) : Bool :=
  5 < outcomes.votes user

structure Voting (User : Type*) where
  alive : User → Bool
  marked : User → Bool
  committeeDecisions : List (User × Bool)
  thirdNormalBanned : ℕ
  thirdAttackersBanned : ℕ

structure Progress (User : Type*) where
  simulator : Simulator User
  currentTime : ℕ
  markedNormal : ℕ

section Step

variable [DecidableEq User]

def setItem (dictionary : List (User × Bool)) (user : User) (value : Bool) : List (User × Bool) :=
  Table.upsert Prod.fst user (fun entry => (entry.1, value)) (user, value) dictionary

namespace Voting

variable (outcomes : Outcomes User) (voting : Voting User) (user : User)

def concludeNormal : Voting User :=
  { voting with
    committeeDecisions := setItem voting.committeeDecisions user (outcomes.condemns user)
    thirdNormalBanned := if outcomes.condemns user then voting.thirdNormalBanned + 1
      else voting.thirdNormalBanned
    marked := if outcomes.condemns user then Function.update voting.marked user true
      else voting.marked }

def concludeAttacker : Voting User :=
  { voting with
    committeeDecisions := setItem voting.committeeDecisions user (outcomes.condemns user)
    thirdAttackersBanned := if outcomes.condemns user then voting.thirdAttackersBanned + 1
      else voting.thirdAttackersBanned
    alive := if outcomes.condemns user then Function.update voting.alive user false
      else voting.alive }

end Voting

namespace Simulator

variable (population : Population User) (simulator : Simulator User) (outcomes : Outcomes User)

def allSuspension : List User :=
  population.normalUsers.filter simulator.alive ++ population.attackUsers.filter simulator.alive

def secondLayerAuditorDetect (firstBannedUsers : List User) : List User :=
  let usersToDetect := firstBannedUsers.filter fun user =>
    simulator.alive user && !simulator.marked user
  (outcomes.auditor.order usersToDetect).foldl
    (fun bannedUsers user =>
      if simulator.marked user then bannedUsers
      else if outcomes.detects user then bannedUsers ++ [user]
      else bannedUsers)
    []

def thirdLayerCommitteeVote (normalBanned bannedAttackers : List User) : Voting User :=
  let start : Voting User := ⟨simulator.alive, simulator.marked, [], 0, 0⟩
  (outcomes.attack.order bannedAttackers).foldl (Voting.concludeAttacker outcomes)
    ((outcomes.normal.order normalBanned).foldl (Voting.concludeNormal outcomes) start)

def selected : List User :=
  simulator.secondLayerAuditorDetect outcomes
    (outcomes.batchAudit (simulator.allSuspension population))

def voting : Voting User :=
  simulator.thirdLayerCommitteeVote outcomes
    ((simulator.selected population outcomes).filter fun user => !population.attacker user)
    ((simulator.selected population outcomes).filter population.attacker)

def updateCumulativeStats : Statistics :=
  let firstBannedUsers := outcomes.batchAudit (simulator.allSuspension population)
  let third := simulator.voting population outcomes
  { simulator.statistics with
    cumulativeIfBannedAttackers := simulator.statistics.cumulativeIfBannedAttackers +
      (firstBannedUsers.filter population.attacker).length
    cumulativeIfBannedTotal :=
      simulator.statistics.cumulativeIfBannedTotal + firstBannedUsers.length
    cumulativeAuditorCommitteeAttackers :=
      simulator.statistics.cumulativeAuditorCommitteeAttackers +
        ((simulator.selected population outcomes).filter population.attacker).length
    cumulativeAuditorCommitteeTotal :=
      simulator.statistics.cumulativeAuditorCommitteeTotal +
        (simulator.selected population outcomes).length
    cumulativeCommitteeTrueTotal := simulator.statistics.cumulativeCommitteeTrueTotal +
      (third.thirdNormalBanned + third.thirdAttackersBanned)
    cumulativeCommitteeTrueAttackers :=
      simulator.statistics.cumulativeCommitteeTrueAttackers + third.thirdAttackersBanned }

end Simulator

namespace Progress

variable (population : Population User) (progress : Progress User) (outcomes : Outcomes User)

def handleDecision (entry : User × Bool) : Progress User :=
  let simulator := progress.simulator
  let statistics := simulator.statistics
  if entry.2 then
    if population.attacker entry.1 then
      { progress with
        simulator :=
          { simulator with
            alive := Function.update simulator.alive entry.1 false
            statistics :=
              { statistics with totalBannedAttackers := statistics.totalBannedAttackers + 1 } } }
    else
      { progress with
        simulator :=
          { simulator with
            marked := Function.update simulator.marked entry.1 true
            statistics :=
              { statistics with totalMarkedNormal := statistics.totalMarkedNormal + 1 } }
        markedNormal := progress.markedNormal + 1 }
  else progress

def detectionStep : Progress User :=
  let third := progress.simulator.voting population outcomes
  third.committeeDecisions.foldl (handleDecision population)
    { progress with
      simulator :=
        { alive := third.alive
          marked := third.marked
          statistics := progress.simulator.updateCumulativeStats population outcomes } }

def Detects : Prop :=
  progress.currentTime % 10 = 0 ∧ progress.currentTime ≠ 0

instance : Decidable progress.Detects :=
  inferInstanceAs (Decidable (_ ∧ _))

def runSimulationStep : Progress User :=
  { (if progress.Detects then progress.detectionStep population outcomes else progress) with
    currentTime := progress.currentTime + 1 }

def condemned : List User :=
  if progress.Detects then
    ((progress.simulator.voting population outcomes).committeeDecisions.filter Prod.snd).map
      Prod.fst
  else []

def ShouldContinue (maxTime : ℕ) : Prop :=
  progress.currentTime < maxTime ∧ ∃ user ∈ population.attackUsers, progress.simulator.alive user

instance (maxTime : ℕ) : Decidable (progress.ShouldContinue population maxTime) :=
  inferInstanceAs (Decidable (_ ∧ _))

def initial (alive marked : User → Bool) : Progress User where
  simulator := ⟨alive, marked, ⟨0, 0, 0, 0, 0, 0, 0, 0⟩⟩
  currentTime := 0
  markedNormal := 0

end Progress

structure Step (User : Type*) where
  before : Progress User
  outcomes : Outcomes User

namespace Step

variable (population : Population User) (step : Step User)

def after : Progress User :=
  step.before.runSimulationStep population step.outcomes

def condemned : List User :=
  step.before.condemned population step.outcomes

end Step

def steps (population : Population User) (maxTime : ℕ) :
    Progress User → List (Outcomes User) → List (Step User)
  | _, [] => []
  | progress, outcomes :: rest =>
    if progress.ShouldContinue population maxTime then
      ⟨progress, outcomes⟩ ::
        steps population maxTime (progress.runSimulationStep population outcomes) rest
    else []

end Step

/-! ### The layers -/

def Outcomes.verdicts [DecidableEq User] (population : Population User)
    (simulator : Simulator User) (outcomes : Outcomes User) : Verdicts User where
  flagged := fun user => user ∈ outcomes.batchAudit (simulator.allSuspension population)
  detected := outcomes.detects
  condemned := outcomes.condemns

def Outcomes.decisions (outcomes : Outcomes User) (users : List User) : List (User × Bool) :=
  users.map fun user => (user, outcomes.condemns user)

section Layers

variable {population : Population User} {simulator : Simulator User} {outcomes : Outcomes User}

theorem nodup_allSuspension : (simulator.allSuspension population).Nodup := by
  have all := population.distinct.filter simulator.alive
  rwa [filter_append] at all

theorem secondLayerAuditorDetect_eq (firstBannedUsers : List User) :
    simulator.secondLayerAuditorDetect outcomes firstBannedUsers =
      (outcomes.auditor.order (firstBannedUsers.filter fun user =>
        simulator.alive user && !simulator.marked user)).filter fun user =>
          !simulator.marked user && outcomes.detects user := by
  have loop : ∀ users banned : List User,
      users.foldl (fun bannedUsers user =>
        if simulator.marked user then bannedUsers
        else if outcomes.detects user then bannedUsers ++ [user]
        else bannedUsers) banned =
      banned ++ users.filter fun user => !simulator.marked user && outcomes.detects user := by
    intro users
    induction users with
    | nil => simp
    | cons user users ih =>
      intro banned
      rw [foldl_cons, ih]
      cases marked : simulator.marked user <;> cases detects : outcomes.detects user <;>
        simp [marked, detects]
  exact loop _ []

@[simp]
theorem map_fst_decisions (users : List User) :
    (outcomes.decisions users).map Prod.fst = users := by
  simp [Outcomes.decisions, Function.comp_def]

variable [DecidableEq User]

theorem batchAudit_perm : (outcomes.batchAudit (simulator.allSuspension population)).Perm
    (simulator.firstBannedUsers population (outcomes.verdicts population simulator)) := by
  refine (perm_ext_iff_of_nodup (outcomes.distinct _) (nodup_allSuspension.filter _)).mpr ?_
  intro user
  rw [mem_filter]
  constructor
  · intro flagged
    exact ⟨outcomes.subset _ flagged, decide_eq_true flagged⟩
  · rintro ⟨-, flagged⟩
    exact of_decide_eq_true flagged

theorem selected_perm : (simulator.selected population outcomes).Perm
    (simulator.bannedUsers population (outcomes.verdicts population simulator)) := by
  rw [selected, secondLayerAuditorDetect_eq, bannedUsers]
  refine ((outcomes.auditor.perm _).filter _).trans ?_
  refine ((batchAudit_perm.filter _).filter _).trans (.of_eq ?_)
  -- A user that the auditor looks at is not marked, so the second check does nothing.
  simp only [filter_filter]
  apply filter_congr
  intro user _
  cases simulator.marked user <;> simp [Outcomes.verdicts]

theorem setItem_of_notMem {dictionary : List (User × Bool)} {user : User} (value : Bool)
    (absent : user ∉ dictionary.map Prod.fst) :
    setItem dictionary user value = dictionary ++ [(user, value)] :=
  Table.upsert_of_absent fun _ member same => absent (mem_map.mpr ⟨_, member, same⟩)

theorem foldl_setItem {users : List User} (distinct : users.Nodup)
    {dictionary : List (User × Bool)} (absent : ∀ user ∈ users, user ∉ dictionary.map Prod.fst) :
    users.foldl (fun dictionary user => setItem dictionary user (outcomes.condemns user))
        dictionary = dictionary ++ outcomes.decisions users := by
  induction users generalizing dictionary with
  | nil => simp [Outcomes.decisions]
  | cons user users ih =>
    rw [nodup_cons] at distinct
    rw [forall_mem_cons] at absent
    rw [foldl_cons, setItem_of_notMem _ absent.1, ih distinct.2]
    · simp [Outcomes.decisions]
    · intro other member
      have different : other ≠ user := fun same => distinct.1 (same ▸ member)
      simpa [different] using absent.2 other member

theorem foldl_concludeNormal (users : List User) (voting : Voting User) :
    users.foldl (Voting.concludeNormal outcomes) voting =
      { voting with
        committeeDecisions := users.foldl
          (fun dictionary user => setItem dictionary user (outcomes.condemns user))
          voting.committeeDecisions
        thirdNormalBanned := voting.thirdNormalBanned + users.countP outcomes.condemns
        marked := fun user =>
          voting.marked user || (decide (user ∈ users) && outcomes.condemns user) } := by
  induction users generalizing voting with
  | nil => simp
  | cons user users ih =>
    rw [foldl_cons, ih]
    simp only [Voting.concludeNormal, Voting.mk.injEq, true_and, and_true, countP_cons]
    refine ⟨?_, rfl, ?_⟩
    · funext other
      by_cases same : other = user
      · subst same
        cases outcomes.condemns other <;> simp
      · cases outcomes.condemns user <;> simp [same]
    · cases outcomes.condemns user <;> simp
      omega

theorem foldl_concludeAttacker (users : List User) (voting : Voting User) :
    users.foldl (Voting.concludeAttacker outcomes) voting =
      { voting with
        committeeDecisions := users.foldl
          (fun dictionary user => setItem dictionary user (outcomes.condemns user))
          voting.committeeDecisions
        thirdAttackersBanned := voting.thirdAttackersBanned + users.countP outcomes.condemns
        alive := fun user =>
          voting.alive user && !(decide (user ∈ users) && outcomes.condemns user) } := by
  induction users generalizing voting with
  | nil => simp
  | cons user users ih =>
    rw [foldl_cons, ih]
    simp only [Voting.concludeAttacker, Voting.mk.injEq, true_and, countP_cons]
    refine ⟨?_, rfl, ?_⟩
    · funext other
      by_cases same : other = user
      · subst same
        cases outcomes.condemns other <;> simp
      · cases outcomes.condemns user <;> simp [same]
    · cases outcomes.condemns user <;> simp
      omega

theorem normalOrder_perm : (outcomes.normal.order ((simulator.selected population outcomes).filter
    fun user => !population.attacker user)).Perm
      (simulator.normalBanned population (outcomes.verdicts population simulator)) :=
  (outcomes.normal.perm _).trans (selected_perm.filter _)

theorem attackOrder_perm : (outcomes.attack.order ((simulator.selected population outcomes).filter
    population.attacker)).Perm
      (simulator.bannedAttackers population (outcomes.verdicts population simulator)) :=
  (outcomes.attack.perm _).trans (selected_perm.filter _)

theorem nodup_selected : (simulator.selected population outcomes).Nodup :=
  selected_perm.nodup_iff.mpr (((nodup_allSuspension.filter _).filter _).filter _)

/-- The users on whom the committee votes, in the order of `committee_decisions`. -/
def Simulator.judged (population : Population User) (simulator : Simulator User)
    (outcomes : Outcomes User) : List User :=
  outcomes.normal.order
      ((simulator.selected population outcomes).filter fun user => !population.attacker user) ++
    outcomes.attack.order ((simulator.selected population outcomes).filter population.attacker)

theorem judged_perm : (simulator.judged population outcomes).Perm
    (simulator.bannedUsers population (outcomes.verdicts population simulator)) := by
  refine ((outcomes.normal.perm _).append (outcomes.attack.perm _)).trans ?_
  refine perm_append_comm.trans ((filter_append_perm _ _).trans selected_perm)

theorem voting_eq : simulator.voting population outcomes =
    { alive := fun user => simulator.alive user && !(decide (user ∈ simulator.bannedAttackers
        population (outcomes.verdicts population simulator)) && outcomes.condemns user)
      marked := fun user => simulator.marked user || (decide (user ∈ simulator.normalBanned
        population (outcomes.verdicts population simulator)) && outcomes.condemns user)
      committeeDecisions := outcomes.decisions (simulator.judged population outcomes)
      thirdNormalBanned := simulator.thirdNormalBanned population
        (outcomes.verdicts population simulator)
      thirdAttackersBanned := simulator.thirdAttackersBanned population
        (outcomes.verdicts population simulator) } := by
  have distinct : (simulator.judged population outcomes).Nodup :=
    (judged_perm.trans selected_perm.symm).nodup_iff.mpr nodup_selected
  rw [voting, thirdLayerCommitteeVote, foldl_concludeAttacker, foldl_concludeNormal, ← foldl_append]
  simp only [Voting.mk.injEq, Nat.zero_add]
  refine ⟨?_, ?_, ?_, ?_, ?_⟩
  · funext user
    simp only [attackOrder_perm.mem_iff]
  · funext user
    simp only [normalOrder_perm.mem_iff]
  · exact foldl_setItem distinct (by simp)
  · rw [normalOrder_perm.countP_eq, countP_eq_length_filter]
    rfl
  · rw [attackOrder_perm.countP_eq, countP_eq_length_filter]
    rfl

end Layers

/-! ### A step refines `Simulator.detect` -/

section Refinement

variable [DecidableEq User] {population : Population User}

theorem foldl_handleDecision (entries : List (User × Bool)) (progress : Progress User) :
    entries.foldl (Progress.handleDecision population) progress =
      { progress with
        simulator :=
          { alive := fun user => progress.simulator.alive user &&
              !(population.attacker user && decide ((user, true) ∈ entries))
            marked := fun user => progress.simulator.marked user ||
              (!population.attacker user && decide ((user, true) ∈ entries))
            statistics :=
              { progress.simulator.statistics with
                totalBannedAttackers := progress.simulator.statistics.totalBannedAttackers +
                  entries.countP fun entry => entry.2 && population.attacker entry.1
                totalMarkedNormal := progress.simulator.statistics.totalMarkedNormal +
                  entries.countP fun entry => entry.2 && !population.attacker entry.1 } }
        markedNormal := progress.markedNormal +
          entries.countP fun entry => entry.2 && !population.attacker entry.1 } := by
  induction entries generalizing progress with
  | nil => simp
  | cons entry entries ih =>
    rw [foldl_cons, ih]
    rcases entry with ⟨user, condemned⟩
    cases condemned with
    | false => simp [Progress.handleDecision]
    | true =>
      cases attacker : population.attacker user with
      | false =>
        simp only [Progress.handleDecision, attacker, Progress.mk.injEq, mk.injEq,
          Statistics.mk.injEq, if_true, Bool.false_eq_true, if_false, countP_cons]
        refine ⟨⟨?_, ?_, ?_⟩, trivial, ?_⟩
        · funext other
          by_cases same : other = user <;> simp [same, attacker]
        · funext other
          by_cases same : other = user <;> simp [same, attacker]
        · simp
          omega
        · simp
          omega
      | true =>
        simp only [Progress.handleDecision, attacker, Progress.mk.injEq, mk.injEq,
          Statistics.mk.injEq, if_true, countP_cons]
        refine ⟨⟨?_, ?_, ?_⟩, trivial, ?_⟩
        · funext other
          by_cases same : other = user <;> simp [same, attacker]
        · funext other
          by_cases same : other = user <;> simp [same, attacker]
        · simp
          omega
        · simp

variable {progress : Progress User} {outcomes : Outcomes User}

@[simp]
theorem condemned_verdicts (simulator : Simulator User) :
    (outcomes.verdicts population simulator).condemned = outcomes.condemns := rfl

omit [DecidableEq User] in
theorem mem_decisions {users : List User} {user : User} :
    (user, true) ∈ outcomes.decisions users ↔ user ∈ users ∧ outcomes.condemns user = true := by
  simp [Outcomes.decisions]

omit [DecidableEq User] in
theorem countP_decisions (holds : User → Bool) (users : List User) :
    ((outcomes.decisions users).countP fun entry => entry.2 && holds entry.1) =
      ((users.filter holds).filter outcomes.condemns).length := by
  rw [Outcomes.decisions, countP_map, countP_eq_length_filter, filter_filter]
  rfl

theorem length_filter_judged (holds : User → Bool) :
    (((progress.simulator.judged population outcomes).filter holds).filter
      outcomes.condemns).length =
    (((progress.simulator.bannedUsers population
      (outcomes.verdicts population progress.simulator)).filter holds).filter
        outcomes.condemns).length :=
  ((judged_perm.filter _).filter _).length_eq

theorem countP_condemned_attackers :
    ((progress.simulator.voting population outcomes).committeeDecisions.countP fun entry =>
      entry.2 && population.attacker entry.1) =
    progress.simulator.thirdAttackersBanned population
      (outcomes.verdicts population progress.simulator) := by
  rw [voting_eq, countP_decisions, length_filter_judged]
  rfl

theorem countP_condemned_normal :
    ((progress.simulator.voting population outcomes).committeeDecisions.countP fun entry =>
      entry.2 && !population.attacker entry.1) =
    progress.simulator.thirdNormalBanned population
      (outcomes.verdicts population progress.simulator) := by
  rw [voting_eq, countP_decisions (fun user => !population.attacker user), length_filter_judged]
  rfl

theorem updateCumulativeStats_eq : progress.simulator.updateCumulativeStats population outcomes =
    { progress.simulator.updatedStatistics population
        (outcomes.verdicts population progress.simulator) with
      totalBannedAttackers := progress.simulator.statistics.totalBannedAttackers
      totalMarkedNormal := progress.simulator.statistics.totalMarkedNormal } := by
  simp only [updateCumulativeStats, updatedStatistics, voting_eq,
    Statistics.mk.injEq, true_and, and_true, Nat.add_left_cancel_iff]
  exact ⟨(batchAudit_perm.filter _).length_eq, batchAudit_perm.length_eq,
    (selected_perm.filter _).length_eq, selected_perm.length_eq⟩

theorem simulator_detectionStep : (progress.detectionStep population outcomes).simulator =
    progress.simulator.detect population (outcomes.verdicts population progress.simulator) := by
  rw [Progress.detectionStep, foldl_handleDecision]
  simp only [countP_condemned_attackers, countP_condemned_normal, updateCumulativeStats_eq]
  simp only [detect, updatedStatistics, mk.injEq, and_true]
  constructor
  · funext user
    simp only [voting_eq, mem_decisions, judged_perm.mem_iff, bannedAttackers,
      mem_filter, condemned_verdicts]
    cases progress.simulator.alive user <;> cases population.attacker user <;>
      cases outcomes.condemns user <;> simp
  · funext user
    simp only [voting_eq, mem_decisions, judged_perm.mem_iff, normalBanned,
      mem_filter, condemned_verdicts]
    cases progress.simulator.marked user <;> cases population.attacker user <;>
      cases outcomes.condemns user <;> simp

theorem markedNormal_detectionStep :
    (progress.detectionStep population outcomes).markedNormal = progress.markedNormal +
      progress.simulator.thirdNormalBanned population
        (outcomes.verdicts population progress.simulator) := by
  rw [Progress.detectionStep, foldl_handleDecision, ← countP_condemned_normal]

theorem mem_condemned {user : User} : user ∈ progress.condemned population outcomes ↔
    progress.Detects ∧ user ∈ progress.simulator.bannedUsers population
      (outcomes.verdicts population progress.simulator) ∧ outcomes.condemns user = true := by
  unfold Progress.condemned
  split_ifs with detects
  · simp [voting_eq, Outcomes.decisions, judged_perm.mem_iff, detects]
  · simp [detects]

theorem nodup_condemned : (progress.condemned population outcomes).Nodup := by
  unfold Progress.condemned
  split_ifs
  · rw [voting_eq]
    refine (List.Sublist.map Prod.fst filter_sublist).nodup ?_
    rw [map_fst_decisions]
    exact (judged_perm.trans selected_perm.symm).nodup_iff.mpr nodup_selected
  · exact nodup_nil

end Refinement

/-! ### Runs -/

/-- The counters agree with the flags of the users, compared with those at the start, and with each
other. -/
structure Matches (population : Population User) (start : Simulator User)
    (progress : Progress User) : Prop where
  banned : progress.simulator.statistics.totalBannedAttackers =
    population.attackUsers.countP fun user => !progress.simulator.alive user
  committeeBanned : progress.simulator.statistics.cumulativeCommitteeTrueAttackers =
    progress.simulator.statistics.totalBannedAttackers
  marked : progress.simulator.statistics.totalMarkedNormal =
    population.normalUsers.countP fun user =>
      progress.simulator.marked user && !start.marked user
  committeeMarked : (progress.simulator.statistics.totalMarkedNormal : ℤ) =
    progress.simulator.statistics.cumulativeCommitteeTrueTotal -
      progress.simulator.statistics.cumulativeCommitteeTrueAttackers
  counted : progress.markedNormal = progress.simulator.statistics.totalMarkedNormal
  normalAlive : ∀ user ∈ population.normalUsers, progress.simulator.alive user = start.alive user
  attackMarked : ∀ user ∈ population.attackUsers, progress.simulator.marked user = start.marked user
  markedKept : ∀ user, start.marked user = true → progress.simulator.marked user = true

section Counts

variable {population : Population User} {simulator : Simulator User} {verdicts : Verdicts User}

theorem filter_normal (holds : User → Bool) :
    (population.normalUsers.filter holds ++ population.attackUsers.filter holds).filter
      (fun user => !population.attacker user) = population.normalUsers.filter holds := by
  have normal : (population.normalUsers.filter holds).filter
      (fun user => !population.attacker user) = population.normalUsers.filter holds := by
    apply filter_eq_self.mpr
    intro user member
    simp [population.normal user (mem_filter.mp member).1]
  have attack : (population.attackUsers.filter holds).filter
      (fun user => !population.attacker user) = [] := by
    apply filter_eq_nil_iff.mpr
    intro user member
    simp [population.attack user (mem_filter.mp member).1]
  rw [filter_append, normal, attack, append_nil]

theorem normalBanned_eq : simulator.normalBanned population verdicts =
    population.normalUsers.filter (simulator.caught verdicts) := by
  rw [← filter_normal, normalBanned]
  congr 1
  simp only [bannedUsers, firstBannedUsers, filter_append, filter_filter]
  rfl

theorem countP_or_of_disjoint {first second : User → Bool} {users : List User}
    (disjoint : ∀ user ∈ users, second user = true → first user = false) :
    (users.countP fun user => first user || second user) =
      users.countP first + users.countP second := by
  induction users with
  | nil => rfl
  | cons user users ih =>
    rw [forall_mem_cons] at disjoint
    rw [countP_cons, countP_cons, countP_cons, ih disjoint.2]
    cases isSecond : second user with
    | false =>
      simp only [Bool.or_false, Bool.false_eq_true, if_false]
      omega
    | true =>
      simp only [disjoint.1 isSecond, Bool.or_true, Bool.false_eq_true, if_true, if_false]
      omega

variable [DecidableEq User]

theorem countP_dead_detect :
    (population.attackUsers.countP fun user =>
      !(simulator.detect population verdicts).alive user) =
      (population.attackUsers.countP fun user => !simulator.alive user) +
        simulator.thirdAttackersBanned population verdicts := by
  have left := leftAttackers_detect population simulator verdicts
  have before := population.attackUsers.length_eq_countP_add_countP simulator.alive
  have after := population.attackUsers.length_eq_countP_add_countP
    (simulator.detect population verdicts).alive
  simp only [Bool.not_eq_true, Bool.decide_eq_false] at before after
  simp only [leftAttackers] at left
  omega

variable {start : Simulator User} {progress : Progress User}

theorem countP_marked_detect
    (kept : ∀ user, start.marked user = true → simulator.marked user = true) :
    (population.normalUsers.countP fun user =>
      (simulator.detect population verdicts).marked user && !start.marked user) =
      (population.normalUsers.countP fun user => simulator.marked user && !start.marked user) +
        simulator.thirdNormalBanned population verdicts := by
  rw [Simulator.thirdNormalBanned, normalBanned_eq, filter_filter,
    ← countP_eq_length_filter, ← countP_or_of_disjoint]
  · apply countP_congr
    intro user isNormal
    have unmarked : simulator.marked user = false → start.marked user = false := by
      intro unmarked
      by_contra marked
      simp [kept user (by simpa using marked)] at unmarked
    simp only [Simulator.detect, normalBanned_eq, mem_filter, isNormal, true_and, Simulator.caught]
    cases marked : simulator.marked user with
    | false => simp [unmarked marked, and_comm]
    | true => simp
  · intro user _ caught
    simp only [Simulator.caught, Bool.and_eq_true, Bool.not_eq_true'] at caught
    simp [caught.2.2.1.2]

theorem Matches.detectionStep (before : Matches population start progress)
    (outcomes : Outcomes User) :
    Matches population start (progress.detectionStep population outcomes) := by
  have dead := @countP_dead_detect _ population progress.simulator
    (outcomes.verdicts population progress.simulator) _
  have newlyMarked := @countP_marked_detect _ population progress.simulator
    (outcomes.verdicts population progress.simulator) _ start before.markedKept
  rcases before with ⟨banned, committeeBanned, marked, committeeMarked, counted, normalAlive,
    attackMarked, markedKept⟩
  constructor <;> simp only [simulator_detectionStep, markedNormal_detectionStep]
  case banned =>
    rw [dead, ← banned]
    rfl
  case committeeBanned => simp [detect, updatedStatistics, committeeBanned]
  case marked =>
    rw [newlyMarked, ← marked]
    rfl
  case committeeMarked =>
    simp only [detect, updatedStatistics]
    push_cast
    omega
  case counted => simp [detect, updatedStatistics, counted]
  case normalAlive =>
    intro user isNormal
    have notBanned : user ∉ progress.simulator.bannedAttackers population
        (outcomes.verdicts population progress.simulator) := by
      intro member
      simp [bannedAttackers, population.normal user isNormal] at member
    simp [detect, notBanned, normalAlive user isNormal]
  case attackMarked =>
    intro user isAttacker
    have notBanned : user ∉ progress.simulator.normalBanned population
        (outcomes.verdicts population progress.simulator) := by
      intro member
      simp [normalBanned, population.attack user isAttacker] at member
    simp [detect, notBanned, attackMarked user isAttacker]
  case markedKept =>
    intro user isMarked
    simp [detect, markedKept user isMarked]

theorem Matches.runSimulationStep (before : Matches population start progress)
    (outcomes : Outcomes User) :
    Matches population start (progress.runSimulationStep population outcomes) := by
  unfold Progress.runSimulationStep
  split_ifs
  · rcases before.detectionStep outcomes with ⟨⟩
    constructor <;> assumption
  · rcases before with ⟨⟩
    constructor <;> assumption

end Counts

section Runs

variable {population : Population User} {alive marked : User → Bool}

theorem matches_initial (attackersAlive : ∀ user ∈ population.attackUsers, alive user = true) :
    Matches population (Progress.initial alive marked).simulator
      (Progress.initial alive marked) where
  banned := by
    symm
    rw [Progress.initial, countP_eq_zero]
    intro user isAttacker
    simp [attackersAlive user isAttacker]
  committeeBanned := rfl
  marked := by simp [Progress.initial]
  committeeMarked := rfl
  counted := rfl
  normalAlive := fun _ _ => rfl
  attackMarked := fun _ _ => rfl
  markedKept := fun _ marked => marked

def Simulator.Active (simulator : Simulator User) (user : User) : Prop :=
  simulator.alive user = true ∧ simulator.marked user = false

variable [DecidableEq User] {progress : Progress User} {outcomes : Outcomes User} {user : User}
  {start : Simulator User} {maxTime : ℕ}

theorem active_of_condemned (condemned : user ∈ progress.condemned population outcomes) :
    progress.simulator.Active user := by
  have banned := (mem_condemned.mp condemned).2.1
  simp only [bannedUsers, mem_filter, Bool.and_eq_true, Bool.not_eq_true'] at banned
  exact banned.1.2

theorem simulator_runSimulationStep :
    (progress.runSimulationStep population outcomes).simulator =
      if progress.Detects then
        progress.simulator.detect population (outcomes.verdicts population progress.simulator)
      else progress.simulator := by
  rw [Progress.runSimulationStep, apply_ite Progress.simulator, simulator_detectionStep]

theorem active_of_active_after
    (active : (progress.runSimulationStep population outcomes).simulator.Active user) :
    progress.simulator.Active user := by
  rw [simulator_runSimulationStep] at active
  split_ifs at active
  · simp only [Active, detect, Bool.and_eq_true, Bool.or_eq_false_iff] at active
    exact ⟨active.1.1, active.2.1⟩
  · exact active

theorem not_active_after_of_condemned (condemned : user ∈ progress.condemned population outcomes) :
    ¬(progress.runSimulationStep population outcomes).simulator.Active user := by
  rcases mem_condemned.mp condemned with ⟨detects, banned, condemns⟩
  rw [simulator_runSimulationStep, if_pos detects]
  rintro ⟨isAlive, notMarked⟩
  simp only [detect, bannedAttackers, normalBanned, mem_filter,
    banned, true_and, condemned_verdicts, condemns] at isAlive notMarked
  cases attacker : population.attacker user <;> simp [attacker] at isAlive notMarked

theorem active_of_mem_condemned {later : List (Outcomes User)}
    (condemned : user ∈ (steps population maxTime progress later).flatMap
      (Step.condemned population)) : progress.simulator.Active user := by
  induction later generalizing progress with
  | nil => simp [steps] at condemned
  | cons outcomes later ih =>
    unfold steps at condemned
    split_ifs at condemned
    · rw [flatMap_cons, mem_append] at condemned
      rcases condemned with now | later
      · exact active_of_condemned now
      · exact active_of_active_after (ih later)
    · simp at condemned

theorem nodup_condemned_steps (later : List (Outcomes User)) :
    ((steps population maxTime progress later).flatMap (Step.condemned population)).Nodup := by
  induction later generalizing progress with
  | nil => simp [steps]
  | cons outcomes later ih =>
    unfold steps
    split_ifs
    · rw [flatMap_cons, nodup_append']
      refine ⟨nodup_condemned, ih, ?_⟩
      intro user now later
      exact not_active_after_of_condemned now (active_of_mem_condemned later)
    · simp

theorem matches_steps (before : Matches population start progress) (later : List (Outcomes User)) :
    ∀ step ∈ steps population maxTime progress later,
      Matches population start (step.after population) := by
  induction later generalizing progress with
  | nil => simp [steps]
  | cons outcomes later ih =>
    unfold steps
    split_ifs
    · rw [forall_mem_cons]
      exact ⟨before.runSimulationStep outcomes, ih (before.runSimulationStep outcomes)⟩
    · simp

def Step.metrics (population : Population User) (step : Step User) : Metrics :=
  calculatePrecisionRecall population step.before.simulator (step.after population).simulator
    (step.outcomes.verdicts population step.before.simulator)

omit [DecidableEq User] in
theorem Matches.precision (matched : Matches population start progress)
    (before : Simulator User) (verdicts : Verdicts User) :
    (calculatePrecisionRecall population before progress.simulator verdicts).committeePrecision =
      (calculatePrecisionRecall population before progress.simulator verdicts).totalPrecision := by
  have total : progress.simulator.statistics.cumulativeCommitteeTrueTotal =
      progress.simulator.statistics.totalBannedAttackers +
        progress.simulator.statistics.totalMarkedNormal := by
    have marked := matched.committeeMarked
    have banned := matched.committeeBanned
    omega
  simp only [calculatePrecisionRecall, matched.committeeBanned, total]

/-- After every step the counters agree with the flags of the users and with each other, both
precisions are the same, and nobody is condemned twice. -/
theorem counters_match (population : Population User) (alive marked : User → Bool)
    (attackersAlive : ∀ user ∈ population.attackUsers, alive user = true) (maxTime : ℕ)
    (outcomes : List (Outcomes User)) :
    (∀ step ∈ steps population maxTime (Progress.initial alive marked) outcomes,
      Matches population (Progress.initial alive marked).simulator (step.after population) ∧
      (step.metrics population).committeePrecision = (step.metrics population).totalPrecision) ∧
    ((steps population maxTime (Progress.initial alive marked) outcomes).flatMap
      (Step.condemned population)).Nodup := by
  refine ⟨?_, nodup_condemned_steps outcomes⟩
  intro step member
  have matched := matches_steps (matches_initial attackersAlive) outcomes step member
  exact ⟨matched, matched.precision _ _⟩

end Runs

def suspiciousOutcomes : Outcomes ℕ where
  batchAudit := List.dedup
  detects := fun _ => true
  votes := fun user => if user % 4 = 0 then 6 else 0
  auditor := ⟨List.reverse, reverse_perm⟩
  normal := ⟨id, fun _ => .rfl⟩
  attack := ⟨id, fun _ => .rfl⟩
  subset := dedup_subset
  distinct := nodup_dedup

theorem counters_match_small :
    (∀ user ∈ smallPopulation.attackUsers, (fun _ => true) user = true) ∧
    (steps smallPopulation 4320 (Progress.initial (fun _ => true) fun _ => false)
      (List.replicate 11 suspiciousOutcomes)).flatMap (Step.condemned smallPopulation) = [0, 4] ∧
    ∀ step ∈ steps smallPopulation 4320 (Progress.initial (fun _ => true) fun _ => false)
      (List.replicate 11 suspiciousOutcomes),
      Matches smallPopulation (Progress.initial (fun _ => true) fun _ => false).simulator
        (step.after smallPopulation) := by
  refine ⟨fun _ _ => rfl, by decide +kernel, ?_⟩
  intro step member
  exact ((counters_match smallPopulation (fun _ => true) (fun _ => false) (fun _ _ => rfl) 4320
    (List.replicate 11 suspiciousOutcomes)).1 step member).1

end TigerMixer.Simulation
