import Mathlib.Algebra.BigOperators.Group.List.Basic
import Mathlib.Algebra.Order.Ring.Rat
import Mathlib.Tactic.Linarith

/-!
# The budget of attacking users

A user that attacks has a task, an amount to be sent. Rule-based users draw their amounts and cut
them down to the task; other users ask a language model for a plan of ten minutes, which is checked
when it is made and again when it is carried out. Amounts are rational numbers here.
-/

namespace TigerMixer.Budget

open List

/-! ### Users -/

structure User where
  task : ℚ
  timeLeft : ℤ
  time : ℤ
  isAlive : Bool
  /-- The times and amounts in `transaction_simple`. -/
  transactionSimple : List (ℤ × ℚ)

def User.new (task : ℚ) (timeLeft currentTime : ℤ) : User :=
  ⟨task, timeLeft, currentTime, true, []⟩

def User.tick (user : User) : User :=
  { user with time := user.time + 1, timeLeft := user.timeLeft - 1 }

/-- `_log_transaction`; the statistics that it updates do not matter here. -/
def User.logTransaction (user : User) (amount : ℚ) : User :=
  if user.isAlive then
    { user with transactionSimple := user.transactionSimple ++ [(user.time, amount)] }
  else user

def User.send (user : User) (amount : ℚ) : User :=
  { user.logTransaction amount with task := user.task - amount }

/-- `ALLOWED_AMOUNTS`, which are also the amounts that rule-based users draw from. -/
def allowedAmounts : List ℚ := [1 / 10, 1, 10, 100]

/-- What happens to a user: something of its own, a minute passes or it is banned. -/
inductive Event (Own : Type) where
  | own (action : Own)
  | tick
  | ban

/-! ### Rule-based users -/

structure Draws where
  send : ℚ
  txCount : ℕ
  choices : ℕ → ℚ
  txCount_mem : txCount ∈ [2, 5, 6, 9]
  choices_mem : ∀ i, choices i ∈ allowedAmounts

def cutDown (task amount : ℚ) : ℚ :=
  if amount > task then ((allowedAmounts.filter (· ≤ task)).max?).getD task else amount

def sendDrawn : ℕ → (ℕ → ℚ) → User → User
  | 0, _, user => user
  | count + 1, choices, user =>
    if user.task ≤ 0 then user
    else sendDrawn count (fun i => choices (i + 1)) (user.send (cutDown user.task (choices 0)))

def ruleDecide (user : User) (draws : Draws) : User :=
  if ¬user.isAlive ∨ user.task ≤ 0 ∨ user.timeLeft ≤ 0 then user
  else if draws.send > 35 / 100 then user
  else sendDrawn draws.txCount draws.choices user

def ruleStep (user : User) : Event Draws → User
  | .own draws => ruleDecide user draws
  | .tick => user.tick
  | .ban => { user with isAlive := false }

/-! ### Plans of a language model -/

inductive Converted where
  | error
  | nan
  | infinite (negative : Bool)
  | finite (value : ℚ)

/-- What a reply has for a minute. Nothing counts as an empty list. -/
inductive Entry where
  | list (items : List Converted)
  | other

inductive Reply where
  | failure
  | malformed
  | text
  | object (minutes : ℕ → Entry)

/-- `math.isclose` with the relative tolerance `1e-5`. -/
def isClose (first second : ℚ) : Bool :=
  |first - second| ≤ 1 / 100000 * max |first| |second|

def fixAmount : Converted → Option ℚ
  | .finite amount => allowedAmounts.find? (isClose amount)
  | _ => none

/-- The loop over the amounts of a minute, with the sum of those kept before. -/
def cleanFrom (maxTask : ℚ) : ℚ → List Converted → List ℚ × ℚ
  | used, [] => ([], used)
  | used, item :: items =>
    match fixAmount item with
    | none => cleanFrom maxTask used items
    | some amount =>
      if used + amount > maxTask + 1 / 100000 then cleanFrom maxTask used items
      else
        let later := cleanFrom maxTask (used + amount) items
        (amount :: later.1, later.2)

def Entry.items : Entry → List Converted
  | .list items => items
  | .other => []

def validateFrom (maxTask : ℚ) : ℚ → List Entry → List (List ℚ)
  | _, [] => []
  | used, entry :: entries =>
    let clean := cleanFrom maxTask used entry.items
    clean.1 :: validateFrom maxTask clean.2 entries

def validateAndFixPlan (plan : ℕ → Entry) (maxTask : ℚ) : List (List ℚ) :=
  validateFrom maxTask 0 ((List.range 10).map plan)

def getDecision (reply : Reply) (currentTask : ℚ) : List (List ℚ) :=
  match reply with
  | .failure | .text => List.replicate 10 []
  | .malformed => validateAndFixPlan (fun _ => .list []) currentTask
  | .object minutes => validateAndFixPlan minutes currentTask

/-! ### Users with a language model -/

structure LlmUser extends User where
  actionPlan : ℤ → Option (List ℚ)

def LlmUser.new (task : ℚ) (timeLeft currentTime : ℤ) : LlmUser :=
  ⟨.new task timeLeft currentTime, fun _ => none⟩

def LlmUser.plan (user : LlmUser) (reply : Reply) : LlmUser :=
  if (user.actionPlan user.time).isSome then user
  else
    let plan := getDecision reply user.task
    { user with
      actionPlan := (List.range 10).foldl
        (fun actionPlan (i : ℕ) =>
          Function.update actionPlan (user.time + i) (some (plan.getD i [])))
        user.actionPlan }

def sendPlanned (user : User) (amount : ℚ) : User :=
  if user.task ≥ amount then user.send amount else user

def llmDecide (user : LlmUser) (reply : Reply) : LlmUser :=
  if ¬user.isAlive ∨ user.task ≤ 0 then user
  else
    let planned := user.plan reply
    { planned with
      toUser := ((planned.actionPlan planned.time).getD []).foldl sendPlanned planned.toUser }

/-- What a user with a language model does. A ban that it observes clears the plan unless the
analysis fails. -/
inductive LlmAction where
  | decide (reply : Reply)
  | observeBan (analysed : Bool)

def llmStep (user : LlmUser) : Event LlmAction → LlmUser
  | .own (.decide reply) => llmDecide user reply
  | .own (.observeBan analysed) =>
    if analysed then { user with actionPlan := fun _ => none } else user
  | .tick => { user with toUser := user.toUser.tick }
  | .ban => { user with isAlive := false }

/-! ### What is sent and what remains -/

/-- What was sent and what remains are the initial task, and the task is not overdrawn. -/
structure Kept (initial : ℚ) (user : User) : Prop where
  total : (user.transactionSimple.map Prod.snd).sum + user.task = initial
  nonneg : 0 ≤ initial → 0 ≤ user.task

variable {initial amount : ℚ} {user : User}

theorem kept_new (task : ℚ) (timeLeft currentTime : ℤ) :
    Kept task (.new task timeLeft currentTime) :=
  ⟨by simp [User.new], id⟩

theorem Kept.send (kept : Kept initial user) (alive : user.isAlive) (within : amount ≤ user.task) :
    Kept initial (user.send amount) := by
  rcases kept with ⟨total, _⟩
  constructor
  · simp only [User.send, User.logTransaction, alive, if_true, map_append, map_cons,
      map_nil, sum_append, sum_singleton]
    linarith
  · intro _
    simpa [User.send] using within

@[simp]
theorem isAlive_send (user : User) (amount : ℚ) : (user.send amount).isAlive = user.isAlive := by
  simp only [User.send, User.logTransaction]
  split_ifs <;> rfl

theorem cutDown_le (task amount : ℚ) : cutDown task amount ≤ task := by
  rw [cutDown]
  split_ifs with exceeds
  · cases largest : (allowedAmounts.filter (· ≤ task)).max? with
    | none => exact le_rfl
    | some value => simpa using (mem_filter.mp (max?_mem largest)).2
  · exact not_lt.mp exceeds

theorem Kept.sendDrawn {count : ℕ} {choices : ℕ → ℚ} (kept : Kept initial user)
    (alive : user.isAlive) : Kept initial (sendDrawn count choices user) := by
  induction count generalizing choices user with
  | zero => exact kept
  | succ count ih =>
    rw [Budget.sendDrawn]
    split_ifs
    · exact kept
    · apply ih (kept.send alive (cutDown_le _ _))
      rwa [isAlive_send]

theorem Kept.ruleStep (kept : Kept initial user) (event : Event Draws) :
    Kept initial (ruleStep user event) := by
  cases event with
  | own draws =>
    rw [Budget.ruleStep, ruleDecide]
    split_ifs with idle
    · exact kept
    · exact kept
    · rw [not_or, not_not] at idle
      exact kept.sendDrawn idle.1
  | tick => exact ⟨kept.total, kept.nonneg⟩
  | ban => exact ⟨kept.total, kept.nonneg⟩

/-! ### Planned amounts -/

theorem mem_of_fixAmount {item : Converted} (fixed : fixAmount item = some amount) :
    amount ∈ allowedAmounts := by
  cases item with
  | finite value => exact mem_of_find?_eq_some fixed
  | _ => cases fixed

theorem cleanFrom_subset (maxTask used : ℚ) (items : List Converted) :
    (cleanFrom maxTask used items).1 ⊆ allowedAmounts := by
  induction items generalizing used with
  | nil => simp [cleanFrom]
  | cons item items ih =>
    rw [cleanFrom]
    split
    next => exact ih used
    next amount fixed =>
      split_ifs
      · exact ih used
      · exact cons_subset.mpr ⟨mem_of_fixAmount fixed, ih _⟩

theorem validateFrom_subset {maxTask : ℚ} (entries : List Entry) {used : ℚ} {minute : List ℚ}
    (member : minute ∈ validateFrom maxTask used entries) : minute ⊆ allowedAmounts := by
  induction entries generalizing used with
  | nil => simp [validateFrom] at member
  | cons entry entries ih =>
    rw [validateFrom, mem_cons] at member
    rcases member with rfl | later
    · exact cleanFrom_subset _ _ _
    · exact ih later

theorem getDecision_subset (reply : Reply) (task : ℚ) (i : ℕ) :
    (getDecision reply task).getD i [] ⊆ allowedAmounts := by
  have minutes : ∀ minute ∈ getDecision reply task, minute ⊆ allowedAmounts := by
    intro minute member
    cases reply with
    | failure | text => simp [eq_of_mem_replicate member]
    | malformed | object => exact validateFrom_subset _ member
  rw [getD_eq_getElem?_getD]
  cases found : (getDecision reply task)[i]? with
  | none => exact nil_subset _
  | some minute => exact minutes minute (mem_of_getElem? found)

/-- The budget is kept, and everything that was sent or is planned is an allowed amount. -/
structure LlmKept (initial : ℚ) (user : LlmUser) : Prop where
  kept : Kept initial user.toUser
  sent : ∀ tx ∈ user.transactionSimple, tx.2 ∈ allowedAmounts
  planned : ∀ minute amounts, user.actionPlan minute = some amounts → amounts ⊆ allowedAmounts

variable {llmUser : LlmUser}

theorem LlmKept.plan (kept : LlmKept initial llmUser) (reply : Reply) :
    LlmKept initial (llmUser.plan reply) := by
  rw [LlmUser.plan]
  split_ifs
  · exact kept
  · refine { kept with planned := ?_ }
    refine List.foldlRecOn (motive := fun plan : ℤ → Option (List ℚ) => ∀ minute amounts,
      plan minute = some amounts → amounts ⊆ allowedAmounts) _ _ kept.planned ?_
    intro actionPlan planned i _ minute amounts there
    rw [Function.update_apply] at there
    split_ifs at there
    · exact Option.some.inj there ▸ getDecision_subset _ _ _
    · exact planned minute amounts there

theorem Kept.foldl_sendPlanned {amounts : List ℚ} (allowed : amounts ⊆ allowedAmounts)
    (kept : Kept initial user) (alive : user.isAlive)
    (sent : ∀ tx ∈ user.transactionSimple, tx.2 ∈ allowedAmounts) :
    Kept initial (amounts.foldl sendPlanned user) ∧
      ∀ tx ∈ (amounts.foldl sendPlanned user).transactionSimple, tx.2 ∈ allowedAmounts := by
  induction amounts generalizing user with
  | nil => exact ⟨kept, sent⟩
  | cons amount amounts ih =>
    rw [cons_subset] at allowed
    rw [foldl_cons, sendPlanned]
    split_ifs with within
    · apply ih allowed.2 (kept.send alive within)
      · rwa [isAlive_send]
      · simp only [User.send, User.logTransaction, alive, if_true, mem_append, mem_singleton]
        rintro tx (before | rfl)
        · exact sent tx before
        · exact allowed.1
    · exact ih allowed.2 kept alive sent

theorem isAlive_plan (user : LlmUser) (reply : Reply) :
    (user.plan reply).isAlive = user.isAlive := by
  rw [LlmUser.plan]
  split_ifs <;> rfl

theorem LlmKept.llmStep (kept : LlmKept initial llmUser) (event : Event LlmAction) :
    LlmKept initial (llmStep llmUser event) := by
  cases event with
  | own action =>
    cases action with
    | decide reply =>
      rw [Budget.llmStep, llmDecide]
      split_ifs with idle
      · exact kept
      · rw [not_or, not_not] at idle
        have planned := kept.plan reply
        have allowed : (((llmUser.plan reply).actionPlan (llmUser.plan reply).time).getD []) ⊆
            allowedAmounts := by
          cases there : (llmUser.plan reply).actionPlan (llmUser.plan reply).time with
          | none => exact nil_subset _
          | some amounts => exact planned.planned _ _ there
        have alive : (llmUser.plan reply).isAlive := by rw [isAlive_plan, idle.1]
        rcases planned.kept.foldl_sendPlanned allowed alive planned.sent with ⟨after, sent⟩
        exact ⟨after, sent, planned.planned⟩
    | observeBan analysed =>
      rw [Budget.llmStep]
      split_ifs
      · exact { kept with planned := by simp }
      · exact kept
  | tick => exact ⟨⟨kept.kept.total, kept.kept.nonneg⟩, kept.sent, kept.planned⟩
  | ban => exact ⟨⟨kept.kept.total, kept.kept.nonneg⟩, kept.sent, kept.planned⟩

/-- Whatever is drawn, replied, observed or banned, what a user has logged and its task are the
initial task together, and users with a language model have only sent allowed amounts. -/
theorem budget_kept (task : ℚ) (timeLeft currentTime : ℤ) :
    (∀ events : List (Event Draws),
      Kept task (events.foldl ruleStep (.new task timeLeft currentTime))) ∧
    ∀ events : List (Event LlmAction),
      let user := events.foldl llmStep (.new task timeLeft currentTime)
      Kept task user.toUser ∧ ∀ tx ∈ user.transactionSimple, tx.2 ∈ allowedAmounts := by
  constructor
  · intro events
    exact List.foldlRecOn events ruleStep (kept_new task timeLeft currentTime)
      fun _ kept event _ => kept.ruleStep event
  · intro events
    have start : LlmKept task (.new task timeLeft currentTime) :=
      ⟨kept_new task timeLeft currentTime, by simp [LlmUser.new, User.new], by simp [LlmUser.new]⟩
    have kept : LlmKept task (events.foldl llmStep (.new task timeLeft currentTime)) :=
      List.foldlRecOn events llmStep start fun _ kept event _ => kept.llmStep event
    exact ⟨kept.kept, kept.sent⟩

/-- The second of two draws is cut down to what is left of the task. -/
example :
    let draws : Draws := ⟨0, 2, fun _ => 10, by decide, fun _ => by decide +kernel⟩
    ([.own draws, .tick, .own draws].foldl ruleStep (.new 11 60 0)).transactionSimple =
      [(0, 10), (0, 1)] := by
  decide +kernel

end TigerMixer.Budget
