import Mathlib.Algebra.Field.Rat
import Mathlib.Algebra.Order.Field.Basic
import Mathlib.Algebra.Order.Ring.Rat

/-!
# Precision and recall in the simulation

A forest flags suspicious users, an auditor looks at these, and a committee bans attackers and marks
normal users. The recall of the first layer counts the attackers who are left when the committee has
banned some already.
-/

namespace TigerMixer.Simulation

open List

variable {User : Type*}

/-! ### Detection -/

structure Population (User : Type*) where
  normalUsers : List User
  attackUsers : List User
  attacker : User → Bool
  normal : ∀ user ∈ normalUsers, attacker user = false
  attack : ∀ user ∈ attackUsers, attacker user = true
  distinct : (normalUsers ++ attackUsers).Nodup

structure Statistics where
  totalBannedAttackers : ℕ
  totalMarkedNormal : ℕ
  cumulativeIfBannedAttackers : ℕ
  cumulativeIfBannedTotal : ℕ
  cumulativeAuditorCommitteeAttackers : ℕ
  cumulativeAuditorCommitteeTotal : ℕ
  cumulativeCommitteeTrueAttackers : ℕ
  cumulativeCommitteeTrueTotal : ℕ

/-- What a detection step depends on: the users with a negative score, those the auditor detects,
and those for whom the committee votes. -/
structure Verdicts (User : Type*) where
  flagged : User → Bool
  detected : User → Bool
  condemned : User → Bool

structure Simulator (User : Type*) where
  alive : User → Bool
  marked : User → Bool
  statistics : Statistics

namespace Simulator

variable (population : Population User) (simulator : Simulator User) (verdicts : Verdicts User)

def firstBannedUsers : List User :=
  (population.normalUsers.filter simulator.alive ++
    population.attackUsers.filter simulator.alive).filter verdicts.flagged

def bannedUsers : List User :=
  ((simulator.firstBannedUsers population verdicts).filter fun user =>
    simulator.alive user && !simulator.marked user).filter verdicts.detected

def normalBanned : List User :=
  (simulator.bannedUsers population verdicts).filter fun user => !population.attacker user

def bannedAttackers : List User :=
  (simulator.bannedUsers population verdicts).filter population.attacker

def firstAttackerCount : ℕ :=
  ((simulator.firstBannedUsers population verdicts).filter population.attacker).length

def thirdNormalBanned : ℕ :=
  ((simulator.normalBanned population verdicts).filter verdicts.condemned).length

def thirdAttackersBanned : ℕ :=
  ((simulator.bannedAttackers population verdicts).filter verdicts.condemned).length

def leftAttackers : ℕ :=
  population.attackUsers.countP simulator.alive

def updatedStatistics : Statistics where
  totalBannedAttackers := simulator.statistics.totalBannedAttackers +
    simulator.thirdAttackersBanned population verdicts
  totalMarkedNormal := simulator.statistics.totalMarkedNormal +
    simulator.thirdNormalBanned population verdicts
  cumulativeIfBannedAttackers := simulator.statistics.cumulativeIfBannedAttackers +
    simulator.firstAttackerCount population verdicts
  cumulativeIfBannedTotal := simulator.statistics.cumulativeIfBannedTotal +
    (simulator.firstBannedUsers population verdicts).length
  cumulativeAuditorCommitteeAttackers :=
    simulator.statistics.cumulativeAuditorCommitteeAttackers +
      (simulator.bannedAttackers population verdicts).length
  cumulativeAuditorCommitteeTotal := simulator.statistics.cumulativeAuditorCommitteeTotal +
    (simulator.bannedUsers population verdicts).length
  cumulativeCommitteeTrueAttackers := simulator.statistics.cumulativeCommitteeTrueAttackers +
    simulator.thirdAttackersBanned population verdicts
  cumulativeCommitteeTrueTotal := simulator.statistics.cumulativeCommitteeTrueTotal +
    (simulator.thirdNormalBanned population verdicts +
      simulator.thirdAttackersBanned population verdicts)

def detect [DecidableEq User] : Simulator User where
  alive := fun user => simulator.alive user &&
    !(decide (user ∈ simulator.bannedAttackers population verdicts) && verdicts.condemned user)
  marked := fun user => simulator.marked user ||
    (decide (user ∈ simulator.normalBanned population verdicts) && verdicts.condemned user)
  statistics := simulator.updatedStatistics population verdicts

end Simulator

/-! ### Metrics -/

def ratio (part whole : ℕ) : ℚ :=
  if 0 < whole then part / whole else 0

structure Metrics where
  firstPrecision : ℚ
  firstRecall : ℚ
  secondPrecision : ℚ
  secondRecall : ℚ
  thirdPrecision : ℚ
  thirdRecall : ℚ
  totalPrecision : ℚ
  totalRecall : ℚ
  ifPrecision : ℚ
  auditorPrecision : ℚ
  committeePrecision : ℚ

def Metrics.values (metrics : Metrics) : List ℚ :=
  [metrics.firstPrecision, metrics.firstRecall, metrics.secondPrecision, metrics.secondRecall,
    metrics.thirdPrecision, metrics.thirdRecall, metrics.totalPrecision, metrics.totalRecall,
    metrics.ifPrecision, metrics.auditorPrecision, metrics.committeePrecision]

/-- `calculate_precision_recall`, for a step from `simulator` to `after`. The number of attackers at
the beginning is that of all attackers. -/
def calculatePrecisionRecall (population : Population User) (simulator after : Simulator User)
    (verdicts : Verdicts User) : Metrics where
  firstPrecision := ratio (simulator.firstAttackerCount population verdicts)
    (simulator.firstBannedUsers population verdicts).length
  firstRecall := ratio (simulator.firstAttackerCount population verdicts)
    (after.leftAttackers population)
  secondPrecision := ratio (simulator.bannedAttackers population verdicts).length
    (simulator.bannedUsers population verdicts).length
  secondRecall := ratio (simulator.bannedAttackers population verdicts).length
    (simulator.firstAttackerCount population verdicts)
  thirdPrecision := ratio (simulator.thirdAttackersBanned population verdicts)
    (simulator.thirdNormalBanned population verdicts +
      simulator.thirdAttackersBanned population verdicts)
  thirdRecall := ratio (simulator.thirdAttackersBanned population verdicts)
    (simulator.bannedAttackers population verdicts).length
  totalPrecision := ratio after.statistics.totalBannedAttackers
    (after.statistics.totalBannedAttackers + after.statistics.totalMarkedNormal)
  totalRecall := ratio after.statistics.totalBannedAttackers population.attackUsers.length
  ifPrecision := ratio after.statistics.cumulativeIfBannedAttackers
    after.statistics.cumulativeIfBannedTotal
  auditorPrecision := ratio after.statistics.cumulativeAuditorCommitteeAttackers
    after.statistics.cumulativeAuditorCommitteeTotal
  committeePrecision := ratio after.statistics.cumulativeCommitteeTrueAttackers
    after.statistics.cumulativeCommitteeTrueTotal

/-- The metrics of a step, with the attackers that were flagged, alive and banned. -/
structure Report where
  metrics : Metrics
  flaggedAttackers : ℕ
  aliveAttackers : ℕ
  bannedAttackers : ℕ

/-- The metrics are proportions, and the recall of the first layer is the one of this layer. -/
def Report.Right (report : Report) : Prop :=
  (∀ value ∈ report.metrics.values, 0 ≤ value ∧ value ≤ 1) ∧
    report.metrics.firstRecall = report.flaggedAttackers / report.aliveAttackers

section Run

variable [DecidableEq User] (population : Population User)

def Simulator.report (simulator : Simulator User) (verdicts : Verdicts User) : Report where
  metrics := calculatePrecisionRecall population simulator
    (simulator.detect population verdicts) verdicts
  flaggedAttackers := simulator.firstAttackerCount population verdicts
  aliveAttackers := simulator.leftAttackers population
  bannedAttackers := simulator.thirdAttackersBanned population verdicts

def reports : Simulator User → List (Verdicts User) → List Report
  | _, [] => []
  | simulator, verdicts :: rest =>
    if simulator.leftAttackers population = 0 then []
    else simulator.report population verdicts ::
      reports (simulator.detect population verdicts) rest

def Simulator.initial (marked : User → Bool) : Simulator User where
  alive := fun _ => true
  marked := marked
  statistics := ⟨0, 0, 0, 0, 0, 0, 0, 0⟩

end Run

/-! ### Counts -/

theorem ratio_mem {part whole : ℕ} (atMost : part ≤ whole) :
    0 ≤ ratio part whole ∧ ratio part whole ≤ 1 := by
  unfold ratio
  split_ifs with positive
  · have positive' : (0 : ℚ) < whole := by exact_mod_cast positive
    have atMost' : (part : ℚ) ≤ whole := by exact_mod_cast atMost
    exact ⟨div_nonneg (Nat.cast_nonneg _) (Nat.cast_nonneg _), (div_le_one positive').mpr atMost'⟩
  · simp

theorem ratio_sub_eq_iff {part whole banned : ℕ} (among : banned ≤ part) (positive : 0 < whole) :
    ratio part (whole - banned) = (part : ℚ) / whole ↔ banned = 0 := by
  have wholePositive : (whole : ℚ) ≠ 0 := by exact_mod_cast positive.ne'
  constructor
  · intro same
    by_contra some
    have partPositive : (part : ℚ) ≠ 0 := by exact_mod_cast (by omega : part ≠ 0)
    unfold ratio at same
    split_ifs at same with left
    · have leftPositive : ((whole - banned : ℕ) : ℚ) ≠ 0 := by exact_mod_cast left.ne'
      rw [div_eq_div_iff leftPositive wholePositive] at same
      have all : whole = whole - banned := by exact_mod_cast mul_left_cancel₀ partPositive same
      omega
    · exact div_ne_zero partPositive wholePositive same.symm
  · rintro rfl
    simp [ratio, positive]

section Counts

variable (population : Population User) (simulator : Simulator User) (verdicts : Verdicts User)

def Simulator.caught (user : User) : Bool :=
  verdicts.detected user && (simulator.alive user && !simulator.marked user &&
    (verdicts.flagged user && simulator.alive user))

theorem filter_attacker (holds : User → Bool) :
    (population.normalUsers.filter holds ++ population.attackUsers.filter holds).filter
      population.attacker = population.attackUsers.filter holds := by
  rw [filter_append, filter_eq_nil_iff.mpr, filter_eq_self.mpr, nil_append]
  · exact fun user member => population.attack user (mem_filter.mp member).1
  · intro user member
    simp [population.normal user (mem_filter.mp member).1]

theorem firstAttackerCount_eq : simulator.firstAttackerCount population verdicts =
    population.attackUsers.countP fun user => verdicts.flagged user && simulator.alive user := by
  rw [Simulator.firstAttackerCount, countP_eq_length_filter, ← filter_attacker,
    Simulator.firstBannedUsers]
  simp only [filter_append, filter_filter]

theorem bannedAttackers_eq : simulator.bannedAttackers population verdicts =
    population.attackUsers.filter (simulator.caught verdicts) := by
  rw [← filter_attacker, Simulator.bannedAttackers]
  congr 1
  simp only [Simulator.bannedUsers, Simulator.firstBannedUsers, filter_append, filter_filter]
  rfl

theorem firstAttackerCount_le : simulator.firstAttackerCount population verdicts ≤
    simulator.leftAttackers population := by
  rw [firstAttackerCount_eq]
  apply countP_mono_left
  intro user _ both
  exact (Bool.and_eq_true _ _ ▸ both).2

theorem length_bannedAttackers_le : (simulator.bannedAttackers population verdicts).length ≤
    simulator.firstAttackerCount population verdicts := by
  have among : (simulator.bannedUsers population verdicts).Sublist
      (simulator.firstBannedUsers population verdicts) :=
    filter_sublist.trans filter_sublist
  exact (among.filter population.attacker).length_le

theorem thirdAttackersBanned_le : simulator.thirdAttackersBanned population verdicts ≤
    (simulator.bannedAttackers population verdicts).length :=
  length_filter_le _ _

variable [DecidableEq User]

theorem leftAttackers_detect :
    (simulator.detect population verdicts).leftAttackers population +
      simulator.thirdAttackersBanned population verdicts = simulator.leftAttackers population := by
  have banned : simulator.thirdAttackersBanned population verdicts =
      (population.attackUsers.filter simulator.alive).countP fun user =>
        simulator.caught verdicts user && verdicts.condemned user := by
    rw [Simulator.thirdAttackersBanned, bannedAttackers_eq, ← countP_eq_length_filter,
      countP_filter, countP_filter]
    congr 1
    funext user
    cases alive : simulator.alive user <;> simp [Simulator.caught, alive, Bool.and_comm]
  have left : (simulator.detect population verdicts).leftAttackers population =
      (population.attackUsers.filter simulator.alive).countP fun user =>
        !(simulator.caught verdicts user && verdicts.condemned user) := by
    rw [Simulator.leftAttackers, countP_filter]
    apply countP_congr
    intro user isAttacker
    simp [Simulator.detect, bannedAttackers_eq, isAttacker, and_comm]
  have all := (population.attackUsers.filter simulator.alive).length_eq_countP_add_countP
    fun user => simulator.caught verdicts user && verdicts.condemned user
  have before : simulator.leftAttackers population =
      (population.attackUsers.filter simulator.alive).length := countP_eq_length_filter
  rw [before, all, left, banned, Nat.add_comm]
  simp

end Counts

/-! ### Runs -/

section Runs

variable {population : Population User} {simulator : Simulator User}

structure Consistent (population : Population User) (simulator : Simulator User) : Prop where
  banned : simulator.statistics.totalBannedAttackers + simulator.leftAttackers population =
    population.attackUsers.length
  forest : simulator.statistics.cumulativeIfBannedAttackers ≤
    simulator.statistics.cumulativeIfBannedTotal
  auditor : simulator.statistics.cumulativeAuditorCommitteeAttackers ≤
    simulator.statistics.cumulativeAuditorCommitteeTotal
  committee : simulator.statistics.cumulativeCommitteeTrueAttackers ≤
    simulator.statistics.cumulativeCommitteeTrueTotal

variable [DecidableEq User]

theorem Consistent.detect (consistent : Consistent population simulator)
    (verdicts : Verdicts User) : Consistent population (simulator.detect population verdicts) := by
  have left := leftAttackers_detect population simulator verdicts
  have first : simulator.firstAttackerCount population verdicts ≤
      (simulator.firstBannedUsers population verdicts).length := length_filter_le _ _
  have second : (simulator.bannedAttackers population verdicts).length ≤
      (simulator.bannedUsers population verdicts).length := length_filter_le _ _
  rcases consistent with ⟨banned, forest, auditor, committee⟩
  constructor <;> simp only [Simulator.detect, Simulator.updatedStatistics] at left ⊢ <;> omega

theorem firstRecall_right_iff (anyLeft : simulator.leftAttackers population ≠ 0)
    (verdicts : Verdicts User) :
    ratio (simulator.firstAttackerCount population verdicts)
        ((simulator.detect population verdicts).leftAttackers population) =
      (simulator.firstAttackerCount population verdicts : ℚ) /
        simulator.leftAttackers population ↔
      simulator.thirdAttackersBanned population verdicts = 0 := by
  have left := leftAttackers_detect population simulator verdicts
  have among := (thirdAttackersBanned_le population simulator verdicts).trans
    (length_bannedAttackers_le population simulator verdicts)
  rw [Nat.eq_sub_of_add_eq left, ratio_sub_eq_iff among (Nat.pos_of_ne_zero anyLeft)]

theorem right_report_iff (consistent : Consistent population simulator)
    (anyLeft : simulator.leftAttackers population ≠ 0) (verdicts : Verdicts User) :
    (simulator.report population verdicts).Right ↔
      (simulator.report population verdicts).bannedAttackers = 0 := by
  have firstRecall := firstRecall_right_iff anyLeft verdicts
  constructor
  · intro right
    exact firstRecall.mp right.2
  · intro noBan
    refine ⟨?_, firstRecall.mpr noBan⟩
    have after := consistent.detect verdicts
    have left := leftAttackers_detect population simulator verdicts
    have noBan' : simulator.thirdAttackersBanned population verdicts = 0 := noBan
    have first := firstAttackerCount_le population simulator verdicts
    have total := after.banned
    simp only [Simulator.report, calculatePrecisionRecall, Metrics.values, forall_mem_cons,
      not_mem_nil, false_implies, implies_true, and_true]
    refine ⟨ratio_mem ?_, ratio_mem ?_, ratio_mem ?_, ratio_mem ?_, ratio_mem ?_, ratio_mem ?_,
      ratio_mem ?_, ratio_mem ?_, ratio_mem after.forest, ratio_mem after.auditor,
      ratio_mem after.committee⟩
    · exact length_filter_le _ _
    · omega
    · exact length_filter_le _ _
    · exact length_bannedAttackers_le population simulator verdicts
    · exact Nat.le_add_left _ _
    · exact thirdAttackersBanned_le population simulator verdicts
    · exact Nat.le_add_right _ _
    · omega

theorem reports_right_iff (consistent : Consistent population simulator)
    (steps : List (Verdicts User)) :
    ∀ report ∈ reports population simulator steps, report.Right ↔ report.bannedAttackers = 0 := by
  induction steps generalizing simulator with
  | nil => simp [reports]
  | cons verdicts steps ih =>
    unfold reports
    split_ifs with noneLeft
    · simp
    · rw [forall_mem_cons]
      exact ⟨right_report_iff consistent noneLeft verdicts, ih (consistent.detect verdicts)⟩

end Runs

/-- The metrics of a step are right exactly if no attacker is banned in it. -/
theorem metrics_right_iff [DecidableEq User] (population : Population User) (marked : User → Bool)
    (steps : List (Verdicts User)) :
    ∀ report ∈ reports population (Simulator.initial marked) steps,
      report.Right ↔ report.bannedAttackers = 0 :=
  reports_right_iff (by constructor <;> simp [Simulator.initial, Simulator.leftAttackers]) steps

def smallPopulation : Population ℕ where
  normalUsers := [0, 1, 2, 3]
  attackUsers := [4, 5]
  attacker := (4 ≤ ·)
  normal := by decide
  attack := by decide
  distinct := by decide

def suspicious (condemned : ℕ → Bool) : Verdicts ℕ where
  flagged := (3 ≤ ·)
  detected := (3 ≤ ·)
  condemned := condemned

theorem metrics_right_of_no_ban :
    ∃ report ∈ reports smallPopulation (Simulator.initial fun _ => false)
      [suspicious fun _ => false], report.bannedAttackers = 0 ∧ report.Right := by
  refine ⟨_, mem_cons_self, rfl, ?_⟩
  exact (metrics_right_iff smallPopulation (fun _ => false) [suspicious fun _ => false] _
    mem_cons_self).mpr rfl

/-- Two attackers are flagged and one of them is banned. -/
theorem recall_above_one :
    ∃ report ∈ reports smallPopulation (Simulator.initial fun _ => false)
      [suspicious fun user => user = 4], report.flaggedAttackers = 2 ∧ report.aliveAttackers = 2 ∧
        report.bannedAttackers = 1 ∧ report.metrics.firstRecall = 2 := by
  refine ⟨_, mem_cons_self, rfl, rfl, rfl, ?_⟩
  decide +kernel

end TigerMixer.Simulation
