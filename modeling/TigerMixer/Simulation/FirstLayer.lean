import Mathlib.Algebra.Order.Ring.Rat
import Mathlib.Data.List.Basic

/-!
# The first detection layer

At its first audit, the first layer trains a forest if at least five users have features. Without a
forest, a later audit returns one truth value for each user instead of a list of users, and the
layer fails.
-/

namespace TigerMixer.Monitor

/-- The forest with its scaler: training from the features of users, and `decision_function`. Both
can raise exceptions. -/
structure Forest (Features Model : Type*) where
  train : List Features → Option Model
  decisionFunction : Model → List Features → Option (List ℚ)

structure Audit (User Features : Type*) where
  users : List User
  features : User → Option Features
  isNormal : User → Bool
  reported : Bool

inductive Entry (User : Type*) where
  | user (user : User)
  | false

variable {User Features Model : Type*}

def typed (entries : List (Entry User)) : Option (List User) :=
  entries.mapM fun entry =>
    match entry with
    | .user user => some user
    | .false => none

namespace Audit

variable (audit : Audit User Features)

def validUsers : List (User × Features) :=
  audit.users.filterMap fun user => (audit.features user).map fun features => (user, features)

def anomalous (forest : Forest Features Model) (model : Model) : List User :=
  match forest.decisionFunction model (audit.validUsers.map Prod.snd) with
  | none => []
  | some scores =>
    ((scores.zip audit.validUsers).filter fun pair => pair.1 < 0).map fun pair => pair.2.1

end Audit

/-- `init_IF`: the model, if there are enough features. Training it can fail. -/
def initIF (forest : Forest Features Model) (audit : Audit User Features) :
    Option (Option Model) :=
  if audit.validUsers.length < 5 then some none
  else (forest.train (audit.validUsers.map Prod.snd)).map some

def batchAudit (forest : Forest Features Model) (audit : Audit User Features) :
    Option Model → List (Entry User)
  | none => audit.users.map fun _ => .false
  | some model =>
    if audit.validUsers = [] then []
    else
      match forest.decisionFunction model (audit.validUsers.map Prod.snd) with
      | none => []
      | some scores =>
        if audit.reported then
          ((scores.zip audit.validUsers).filter fun pair => pair.1 < 0).map fun pair =>
            .user pair.2.1
        else []

structure FirstResult (User : Type*) where
  firstBannedUsers : List User
  firstNormalCount : ℕ
  firstAttackerCount : ℕ
  firstTotal : ℕ

/-- `first_layer_if_audit`: the monitor behind the call and the result, unless an exception is
raised. -/
def firstLayerIfAudit (forest : Forest Features Model) (auditor : Option (Option Model))
    (audit : Audit User Features) : Option (Option Model) × Option (FirstResult User) :=
  match auditor.or (initIF forest audit) with
  | none => (none, none)
  | some model =>
    (some model,
      (typed (batchAudit forest audit model)).map fun users =>
        { firstBannedUsers := users
          firstNormalCount := (users.filter audit.isNormal).length
          firstAttackerCount := (users.filter fun user => !audit.isNormal user).length
          firstTotal := users.length })

def audits (forest : Forest Features Model) :
    Option (Option Model) → List (Audit User Features) →
      List (Audit User Features × Option (FirstResult User))
  | _, [] => []
  | auditor, audit :: later =>
    (audit, (firstLayerIfAudit forest auditor audit).2) ::
      audits forest (firstLayerIfAudit forest auditor audit).1 later

def Right (forest : Forest Features Model) (model : Option Model)
    (result : Audit User Features × Option (FirstResult User)) : Prop :=
  ∃ found, result.2 = some found ∧ found.firstBannedUsers =
    model.elim [] (result.1.anomalous forest)

section Audits

variable {forest : Forest Features Model} {audit : Audit User Features} {model : Model}

theorem typed_user (users : List User) : typed (users.map Entry.user) = some users := by
  induction users with
  | nil => rfl
  | cons user users ih =>
    rw [typed] at ih ⊢
    simp [ih]

theorem typed_false (users : List User) :
    typed (users.map fun _ => (Entry.false : Entry User)) =
      if users = [] then some [] else none := by
  cases users with
  | nil => rfl
  | cons user users => simp [typed]

theorem batchAudit_some : batchAudit forest audit (some model) =
    if audit.reported then (audit.anomalous forest model).map .user else [] := by
  rw [batchAudit, Audit.anomalous]
  generalize forest.decisionFunction model (audit.validUsers.map Prod.snd) = scores
  cases scores with
  | none => simp
  | some scores =>
    by_cases empty : audit.validUsers = []
    · simp [empty]
    · simp [empty, Function.comp_def]

theorem right_iff {auditor : Option Model} : Right forest auditor
    (audit, (firstLayerIfAudit forest (some auditor) audit).2) ↔
      typed (batchAudit forest audit auditor) =
        some (auditor.elim [] (audit.anomalous forest)) := by
  have result : (firstLayerIfAudit forest (some auditor) audit).2 =
      (typed (batchAudit forest audit auditor)).map fun users =>
        { firstBannedUsers := users
          firstNormalCount := (users.filter audit.isNormal).length
          firstAttackerCount := (users.filter fun user => !audit.isNormal user).length
          firstTotal := users.length } := rfl
  rw [Right, result]
  cases typed (batchAudit forest audit auditor) <;> simp

theorem right_some_iff : Right forest (some model)
    (audit, (firstLayerIfAudit forest (some (some model)) audit).2) ↔
      audit.reported = true ∨ audit.anomalous forest model = [] := by
  have nothing : typed ([] : List (Entry User)) = some [] := rfl
  rw [right_iff, batchAudit_some, Option.elim_some]
  cases audit.reported with
  | true => simp [typed_user]
  | false => simp [nothing]

theorem right_none_iff : Right forest none
    (audit, (firstLayerIfAudit forest (some none) audit).2) ↔ audit.users = [] := by
  rw [right_iff, batchAudit, typed_false, Option.elim_none]
  split_ifs with empty <;> simp [empty]

theorem forall_audits_iff (auditor : Option Model)
    {holds : Audit User Features × Option (FirstResult User) → Prop}
    (later : List (Audit User Features)) :
    (∀ result ∈ audits forest (some auditor) later, holds result) ↔
      ∀ audit ∈ later, holds (audit, (firstLayerIfAudit forest (some auditor) audit).2) := by
  induction later with
  | nil => simp [audits]
  | cons audit later ih =>
    have kept : (firstLayerIfAudit forest (some auditor) audit).1 = some auditor := rfl
    rw [audits, List.forall_mem_cons, List.forall_mem_cons, kept, ih]

theorem audits_of_initIF {model : Option Model} (created : initIF forest audit = some model)
    (later : List (Audit User Features)) :
    audits forest none (audit :: later) = audits forest (some model) (audit :: later) := by
  simp [audits, firstLayerIfAudit, created]

end Audits

/-- With fewer than five users at the first audit, the layer is right exactly if there is never
anyone to audit; otherwise, if training succeeds, and audits whose report cannot be written have no
negative scores. -/
theorem firstLayer_right_iff (forest : Forest Features Model) (first : Audit User Features)
    (later : List (Audit User Features)) :
    (∃ model, initIF forest first = some model ∧
      ∀ result ∈ audits forest none (first :: later), Right forest model result) ↔
    if first.validUsers.length < 5 then ∀ audit ∈ first :: later, audit.users = []
    else ∃ model, forest.train (first.validUsers.map Prod.snd) = some model ∧
      ∀ audit ∈ first :: later, audit.reported = true ∨ audit.anomalous forest model = [] := by
  split_ifs with few
  · have created : initIF forest first = some none := if_pos few
    simp only [created, Option.some.injEq, exists_eq_left']
    rw [audits_of_initIF created, forall_audits_iff]
    simp only [right_none_iff]
  · have created : initIF forest first =
        (forest.train (first.validUsers.map Prod.snd)).map some := if_neg few
    cases trained : forest.train (first.validUsers.map Prod.snd) with
    | none => simp [created, trained]
    | some model =>
      rw [trained, Option.map_some] at created
      simp only [created, Option.some.injEq, exists_eq_left']
      rw [audits_of_initIF created, forall_audits_iff]
      simp only [right_some_iff]

def sampleForest : Forest Unit Unit where
  train := fun _ => some ()
  decisionFunction := fun _ rows => some (rows.map fun _ => 0)

def singleUser : Audit Unit Unit where
  users := [()]
  features := fun _ => none
  isNormal := fun _ => true
  reported := true

/-- No user of the first audit has features. -/
theorem firstLayer_fails_without_model :
    initIF sampleForest singleUser = some none ∧
      (firstLayerIfAudit sampleForest none singleUser).2.isNone = true ∧
      ¬Right sampleForest none
        (singleUser, (firstLayerIfAudit sampleForest none singleUser).2) := by
  refine ⟨rfl, rfl, ?_⟩
  rintro ⟨found, isFound, -⟩
  cases isFound

end TigerMixer.Monitor
