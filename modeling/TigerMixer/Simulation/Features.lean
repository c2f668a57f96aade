import Mathlib.Algebra.Order.Field.Basic
import Mathlib.Algebra.Order.Ring.Rat
import Mathlib.Data.List.Chain
import Mathlib.Data.List.Sort

/-!
# The running statistics of a user

The transactions that are loaded for a user are sorted before the statistics are computed from them,
the ones that are sent in the simulation are added in the order in which they are sent.
-/

namespace TigerMixer.Features

open List

/-! ### Statistics -/

structure Transaction (Value : Type*) where
  unixTimestamp : ℤ
  valueIn : Value
  deriving DecidableEq

inductive Amount where
  | tenth
  | one
  | ten
  | hundred
  | other
  deriving DecidableEq

def denominations : List (Amount × ℚ) :=
  [(.tenth, 1 / 10), (.one, 1), (.ten, 10), (.hundred, 100)]

structure Stat (Value : Type*) where
  count : ℕ
  sum : Value
  sumSq : Value
  values : List Value
  firstTs : Option ℤ
  lastTs : Option ℤ
  intervals : List ℤ
  amountCounts : Amount → ℕ

structure User (Value : Type*) where
  isAlive : Bool
  time : ℕ
  transaction : List (Transaction Value)
  stat : Option (Stat Value)

inductive Action (Value : Type*) where
  | send (amount : Value)
  | tick
  | ban

/-- The transactions in their order in time, where those at the same time stay in order. -/
def inOrder {Value : Type*} (transactions : List (Transaction Value)) :
    List (Transaction Value) :=
  transactions.insertionSort fun first second => first.unixTimestamp ≤ second.unixTimestamp

/-- `init_user_from_eth_csv`: the rows of the file, if there is one. A row that cannot be read makes
all of them unavailable. -/
def initUserFromEthCsv {Value : Type*} (file : Option (List (Option (Transaction Value)))) :
    List (Transaction Value) :=
  (file.bind (·.mapM id)).getD []

section Statistics

variable {Value : Type*}

def Stat.timeSpan (stat : Stat Value) : ℤ :=
  if 1 < stat.count then stat.lastTs.getD 0 - stat.firstTs.getD 0 else 0

structure Stat.Agrees (running complete : Stat Value) : Prop where
  count : running.count = complete.count
  values : running.values.Perm complete.values
  firstTs : running.firstTs = complete.firstTs
  lastTs : running.lastTs = complete.lastTs
  intervals : running.intervals = complete.intervals
  amountCounts : running.amountCounts = complete.amountCounts

/-- The key under which a value is counted, when `isClose` is `math.isclose`. -/
def amountOf (isClose : Value → ℚ → Bool) (value : Value) : Amount :=
  ((denominations.find? fun key => isClose value key.2).map Prod.fst).getD .other

variable [Zero Value] [Add Value] [Mul Value]

def Stat.empty : Stat Value where
  count := 0
  sum := 0
  sumSq := 0
  values := []
  firstTs := none
  lastTs := none
  intervals := []
  amountCounts := fun _ => 0

variable (isClose : Value → ℚ → Bool) (stamp : ℕ → ℤ)

omit [Zero Value] in
def updateStatWithTx (stat : Stat Value) (tx : Transaction Value) : Stat Value where
  count := stat.count + 1
  sum := stat.sum + tx.valueIn
  sumSq := stat.sumSq + tx.valueIn * tx.valueIn
  values := stat.values ++ [tx.valueIn]
  firstTs := stat.firstTs.or (some tx.unixTimestamp)
  lastTs := some tx.unixTimestamp
  intervals := stat.intervals ++ (stat.lastTs.map (tx.unixTimestamp - ·)).toList
  amountCounts := Function.update stat.amountCounts (amountOf isClose tx.valueIn)
    (stat.amountCounts (amountOf isClose tx.valueIn) + 1)

namespace User

def initFeatures (user : User Value) : User Value :=
  if user.transaction = [] then user
  else { user with
    stat := some ((inOrder user.transaction).foldl (updateStatWithTx isClose) .empty) }

def updateFeatures (user : User Value) (newTxs : List (Transaction Value)) : User Value :=
  if newTxs = [] then user
  else
    match user.stat with
    | none => initFeatures isClose { user with transaction := user.transaction ++ newTxs }
    | some stat =>
      { user with stat := some ((inOrder newTxs).foldl (updateStatWithTx isClose) stat) }

/-- `_log_transaction`, when `stamp` is the time stamp of a minute of the simulation in the local
time zone. -/
def logTransaction (user : User Value) (amount : Value) : User Value :=
  if user.isAlive then
    let newTx : Transaction Value := ⟨stamp user.time, amount⟩
    match user.stat with
    | none => user.updateFeatures isClose [newTx]
    | some _ =>
      let updated := user.updateFeatures isClose [newTx]
      { updated with transaction := updated.transaction ++ [newTx] }
  else user

def load (file : Option (List (Option (Transaction Value)))) : User Value :=
  initFeatures isClose
    { isAlive := true, time := 0, transaction := initUserFromEthCsv file, stat := none }

def step (user : User Value) : Action Value → User Value
  | .send amount => user.logTransaction isClose stamp amount
  | .tick => { user with time := user.time + 1 }
  | .ban => { user with isAlive := false }

def run (file : Option (List (Option (Transaction Value)))) (actions : List (Action Value)) :
    User Value :=
  actions.foldl (step isClose stamp) (load isClose file)

def fromScratch (user : User Value) : Option (Stat Value) :=
  (initFeatures isClose { user with stat := none }).stat

end User

structure User.Right (user : User Value) : Prop where
  agrees : Option.Rel Stat.Agrees user.stat (user.fromScratch isClose)
  nonneg : ∀ stat ∈ user.stat, ∀ interval ∈ stat.intervals, 0 ≤ interval
  span : ∀ stat ∈ user.stat, ∃ first ∈ user.transaction, ∃ last ∈ user.transaction,
    (∀ tx ∈ user.transaction, first.unixTimestamp ≤ tx.unixTimestamp ∧
      tx.unixTimestamp ≤ last.unixTimestamp) ∧
    stat.timeSpan = last.unixTimestamp - first.unixTimestamp

end Statistics

/-! ### Runs -/

section Runs

variable {Value : Type*}

def sent (stamp : ℕ → ℤ) : Bool → ℕ → List (Action Value) → List (Transaction Value)
  | _, _, [] => []
  | isAlive, time, .send amount :: actions =>
    if isAlive then ⟨stamp time, amount⟩ :: sent stamp isAlive time actions
    else sent stamp isAlive time actions
  | isAlive, time, .tick :: actions => sent stamp isAlive (time + 1) actions
  | _, time, .ban :: actions => sent stamp false time actions

/-- Nothing is sent before something that has been loaded or sent. -/
structure Chronological (history sent : List (Transaction Value)) : Prop where
  behind : ∀ old ∈ history, ∀ new ∈ sent, old.unixTimestamp ≤ new.unixTimestamp
  sorted : sent.Pairwise fun first second => first.unixTimestamp ≤ second.unixTimestamp

/-! ### Order -/

@[simp]
theorem inOrder_eq_nil {transactions : List (Transaction Value)} :
    inOrder transactions = [] ↔ transactions = [] := by
  rw [← length_eq_zero_iff, inOrder, length_insertionSort, length_eq_zero_iff]

@[simp]
theorem mem_inOrder {transactions : List (Transaction Value)} {tx : Transaction Value} :
    tx ∈ inOrder transactions ↔ tx ∈ transactions :=
  mem_insertionSort _

@[simp]
theorem inOrder_singleton (tx : Transaction Value) : inOrder [tx] = [tx] := rfl

def differencesFrom (last : ℤ) : List ℤ → List ℤ
  | [] => []
  | time :: times => (time - last) :: differencesFrom time times

theorem differencesFrom_nonneg_iff {last : ℤ} {times : List ℤ} :
    (∀ difference ∈ differencesFrom last times, 0 ≤ difference) ↔
      (last :: times).Pairwise (· ≤ ·) := by
  rw [← isChain_iff_pairwise]
  induction times generalizing last with
  | nil => simp [differencesFrom]
  | cons time times ih =>
    rw [differencesFrom, forall_mem_cons, ih, isChain_cons_cons, sub_nonneg]

theorem le_getLastD {last : ℤ} {times : List ℤ} (sorted : (last :: times).Pairwise (· ≤ ·)) :
    ∀ time ∈ last :: times, time ≤ times.getLastD last := by
  induction times generalizing last with
  | nil => simp
  | cons next times ih =>
    rw [pairwise_cons] at sorted
    have behind := ih sorted.2
    rw [getLastD_cons, forall_mem_cons]
    exact ⟨(sorted.1 next mem_cons_self).trans (behind next mem_cons_self), behind⟩

theorem orderedInsert_append {tx : Transaction Value} {behind : List (Transaction Value)}
    (before : ∀ other ∈ behind, tx.unixTimestamp ≤ other.unixTimestamp)
    (front : List (Transaction Value)) :
    (front ++ behind).orderedInsert
        (fun first second => first.unixTimestamp ≤ second.unixTimestamp) tx =
      front.orderedInsert (fun first second => first.unixTimestamp ≤ second.unixTimestamp) tx ++
        behind := by
  induction front with
  | nil =>
    cases behind with
    | nil => rfl
    | cons other behind =>
      exact orderedInsert_cons_of_le _ _ (before other mem_cons_self)
  | cons other front ih =>
    rw [cons_append, orderedInsert_cons, orderedInsert_cons, ih]
    split_ifs <;> rfl

theorem inOrder_append {history sent : List (Transaction Value)}
    (chronological : Chronological history sent) :
    inOrder (history ++ sent) = inOrder history ++ sent := by
  rcases chronological with ⟨behind, sorted⟩
  induction history with
  | nil => exact sorted.insertionSort_eq
  | cons tx history ih =>
    rw [forall_mem_cons] at behind
    have rest := ih behind.2
    simp only [inOrder] at rest ⊢
    rw [cons_append, insertionSort_cons, rest, orderedInsert_append behind.1, insertionSort_cons]

theorem pairwise_inOrder (transactions : List (Transaction Value)) :
    (inOrder transactions).Pairwise
      fun first second => first.unixTimestamp ≤ second.unixTimestamp := by
  have total : Std.Total fun first second : Transaction Value =>
      first.unixTimestamp ≤ second.unixTimestamp := ⟨fun _ _ => le_total _ _⟩
  have trans : IsTrans (Transaction Value) fun first second =>
      first.unixTimestamp ≤ second.unixTimestamp := ⟨fun _ _ _ => le_trans⟩
  exact pairwise_insertionSort _ _

theorem chronological_iff {history sent : List (Transaction Value)} :
    Chronological history sent ↔
      ((inOrder history ++ sent).map Transaction.unixTimestamp).Pairwise (· ≤ ·) := by
  rw [pairwise_map, pairwise_append]
  constructor
  · rintro ⟨behind, sorted⟩
    refine ⟨pairwise_inOrder history, sorted, ?_⟩
    intro old member
    exact behind old (mem_inOrder.mp member)
  · rintro ⟨-, sorted, behind⟩
    refine ⟨?_, sorted⟩
    intro old member
    exact behind old (mem_inOrder.mpr member)

theorem Stat.Agrees.refl (stat : Stat Value) : stat.Agrees stat :=
  ⟨rfl, .rfl, rfl, rfl, rfl, rfl⟩

/-! ### Statistics along a run -/

variable [Zero Value] [Add Value] [Mul Value] {isClose : Value → ℚ → Bool}

def statAfter (isClose : Value → ℚ → Bool) (transactions : List (Transaction Value)) :
    Option (Stat Value) :=
  if transactions = [] then none
  else some (transactions.foldl (updateStatWithTx isClose) .empty)

theorem stat_initFeatures (user : User Value) (none : user.stat = none) :
    (user.initFeatures isClose).stat = statAfter isClose (inOrder user.transaction) := by
  unfold User.initFeatures statAfter
  split_ifs with empty unsorted
  · exact none
  · simp [empty] at unsorted
  · simp_all
  · rfl

variable {user : User Value} {history arrived : List (Transaction Value)}

theorem logTransaction_eq (stamp : ℕ → ℤ) {arrived : List (Transaction Value)}
    (running : user.stat = statAfter isClose arrived)
    (complete : user.transaction = [] ↔ arrived = []) (isAlive : user.isAlive = true)
    (amount : Value) :
    user.logTransaction isClose stamp amount =
      { user with
        transaction := user.transaction ++ [⟨stamp user.time, amount⟩]
        stat := statAfter isClose (arrived ++ [⟨stamp user.time, amount⟩]) } := by
  rcases user with ⟨alive, time, transaction, stat⟩
  simp only at running complete isAlive
  subst running isAlive
  by_cases empty : arrived = []
  · have noTransaction := complete.mpr empty
    subst empty noTransaction
    rfl
  · simp [User.logTransaction, User.updateFeatures, statAfter, empty]

/-- What holds of a user during a run: the statistics are those of the transactions in the order in
which they arrived. -/
structure Running (isClose : Value → ℚ → Bool) (history arrived : List (Transaction Value))
    (user : User Value) : Prop where
  transaction : user.transaction = history ++ arrived
  stat : user.stat = statAfter isClose (inOrder history ++ arrived)

theorem running_load (file : Option (List (Option (Transaction Value)))) :
    Running isClose (initUserFromEthCsv file) [] (User.load isClose file) where
  transaction := by
    unfold User.load User.initFeatures
    split_ifs <;> simp
  stat := by
    rw [User.load, stat_initFeatures _ rfl, append_nil]

theorem Running.run (stamp : ℕ → ℤ) (running : Running isClose history arrived user)
    (actions : List (Action Value)) :
    Running isClose history (arrived ++ sent stamp user.isAlive user.time actions)
      (actions.foldl (User.step isClose stamp) user) := by
  induction actions generalizing arrived user with
  | nil => simpa [sent] using running
  | cons action actions ih =>
    rw [foldl_cons]
    cases action with
    | tick =>
      exact @ih (user.step isClose stamp .tick) arrived ⟨running.transaction, running.stat⟩
    | ban =>
      exact @ih (user.step isClose stamp .ban) arrived ⟨running.transaction, running.stat⟩
    | send amount =>
      cases isAlive : user.isAlive with
      | false =>
        have unchanged : user.step isClose stamp (.send amount) = user := by
          simp [User.step, User.logTransaction, isAlive]
        rw [unchanged, sent, if_neg Bool.false_ne_true, ← isAlive]
        exact ih running
      | true =>
        have logged := logTransaction_eq stamp running.stat
          (by simp [running.transaction]) isAlive amount
        have next := @ih (user.step isClose stamp (.send amount))
          (arrived ++ [⟨stamp user.time, amount⟩])
          ⟨by simp [User.step, logged, running.transaction], by simp [User.step, logged]⟩
        rw [sent, if_pos rfl]
        simpa [User.step, logged, isAlive] using next

omit [Zero Value] in
theorem foldl_updateStatWithTx (transactions : List (Transaction Value)) {stat : Stat Value}
    {first last : ℤ} (hasFirst : stat.firstTs = some first) (hasLast : stat.lastTs = some last) :
    (transactions.foldl (updateStatWithTx isClose) stat).intervals =
        stat.intervals ++ differencesFrom last (transactions.map Transaction.unixTimestamp) ∧
      (transactions.foldl (updateStatWithTx isClose) stat).firstTs = some first ∧
      (transactions.foldl (updateStatWithTx isClose) stat).lastTs =
        some ((transactions.map Transaction.unixTimestamp).getLastD last) ∧
      (transactions.foldl (updateStatWithTx isClose) stat).count =
        stat.count + transactions.length := by
  induction transactions generalizing stat last with
  | nil => simp [differencesFrom, hasFirst, hasLast]
  | cons tx transactions ih =>
    have next := @ih (updateStatWithTx isClose stat tx) tx.unixTimestamp
      (by simp [updateStatWithTx, hasFirst]) rfl
    rw [foldl_cons]
    refine ⟨?_, next.2.1, ?_, ?_⟩
    · rw [next.1]
      simp [updateStatWithTx, hasLast, differencesFrom]
    · rw [next.2.2.1, map_cons, getLastD_cons]
    · rw [next.2.2.2]
      simp [updateStatWithTx]
      omega

theorem statAfter_cons (tx : Transaction Value) (transactions : List (Transaction Value)) :
    ∃ stat, statAfter isClose (tx :: transactions) = some stat ∧
      stat.intervals = differencesFrom tx.unixTimestamp
        (transactions.map Transaction.unixTimestamp) ∧
      stat.timeSpan = (transactions.map Transaction.unixTimestamp).getLastD tx.unixTimestamp -
        tx.unixTimestamp := by
  have loop := @foldl_updateStatWithTx _ _ _ isClose transactions
    (updateStatWithTx isClose .empty tx) tx.unixTimestamp tx.unixTimestamp rfl rfl
  refine ⟨_, if_neg (cons_ne_nil _ _), ?_, ?_⟩
  · rw [foldl_cons, loop.1]
    simp [updateStatWithTx, Stat.empty]
  · rw [foldl_cons, Stat.timeSpan, loop.2.1, loop.2.2.1, loop.2.2.2]
    cases transactions with
    | nil => simp [updateStatWithTx, Stat.empty]
    | cons other transactions =>
      rw [if_pos (by simp [updateStatWithTx, Stat.empty])]
      rfl

theorem statAfter_sorted {order : List (Transaction Value)}
    (sorted : (order.map Transaction.unixTimestamp).Pairwise (· ≤ ·)) {stat : Stat Value}
    (has : statAfter isClose order = some stat) :
    (∀ interval ∈ stat.intervals, 0 ≤ interval) ∧
      ∃ first ∈ order, ∃ last ∈ order,
        (∀ tx ∈ order, first.unixTimestamp ≤ tx.unixTimestamp ∧
          tx.unixTimestamp ≤ last.unixTimestamp) ∧
        stat.timeSpan = last.unixTimestamp - first.unixTimestamp := by
  cases order with
  | nil => simp [statAfter] at has
  | cons tx transactions =>
    rcases @statAfter_cons _ _ _ _ isClose tx transactions with ⟨found, isFound, intervals, span⟩
    obtain rfl : found = stat := Option.some.inj (isFound.symm.trans has)
    rw [map_cons] at sorted
    have isTime : (transactions.map Transaction.unixTimestamp).getLastD tx.unixTimestamp ∈
        (tx :: transactions).map Transaction.unixTimestamp := getLastD_mem_cons
    rcases mem_map.mp isTime with ⟨last, isMember, isLast⟩
    refine ⟨?_, tx, mem_cons_self, last, isMember, ?_, ?_⟩
    · rwa [intervals, differencesFrom_nonneg_iff]
    · intro other isOther
      have isTime : other.unixTimestamp ∈
          tx.unixTimestamp :: transactions.map Transaction.unixTimestamp :=
        mem_map_of_mem isOther
      refine ⟨?_, isLast ▸ le_getLastD sorted _ isTime⟩
      rcases mem_cons.mp isTime with same | behind
      · exact same.ge
      · exact (pairwise_cons.mp sorted).1 _ behind
    · rw [span, isLast]

theorem Running.right (running : Running isClose history arrived user)
    (chronological : Chronological history arrived) : user.Right isClose := by
  have scratch : user.fromScratch isClose = user.stat := by
    rw [User.fromScratch, stat_initFeatures _ rfl, running.transaction,
      inOrder_append chronological, running.stat]
  have sorted := chronological_iff.mp chronological
  have member : ∀ tx, tx ∈ user.transaction ↔ tx ∈ inOrder history ++ arrived := by
    simp [running.transaction]
  refine ⟨?_, ?_, ?_⟩
  · rw [scratch]
    cases user.stat with
    | none => exact .none
    | some stat => exact .some (Stat.Agrees.refl stat)
  · intro stat has
    exact (statAfter_sorted sorted (running.stat.symm.trans has)).1
  · intro stat has
    simp only [member]
    exact (statAfter_sorted sorted (running.stat.symm.trans has)).2

theorem Running.chronological (running : Running isClose history arrived user)
    (right : user.Right isClose) :
    Chronological history arrived := by
  rw [chronological_iff]
  have nonneg := right.nonneg
  rw [running.stat] at nonneg
  cases order : inOrder history ++ arrived with
  | nil => exact List.Pairwise.nil
  | cons tx transactions =>
    rcases @statAfter_cons _ _ _ _ isClose tx transactions with ⟨stat, isStat, intervals, -⟩
    rw [map_cons, ← differencesFrom_nonneg_iff, ← intervals]
    exact nonneg stat (by rw [order, isStat]; rfl)

/-- The running statistics are those of all transactions together exactly if the ones that are sent
are in order and behind the loaded ones. -/
theorem features_right_iff (isClose : Value → ℚ → Bool) (stamp : ℕ → ℤ)
    (file : Option (List (Option (Transaction Value)))) (actions : List (Action Value)) :
    (User.run isClose stamp file actions).Right isClose ↔
      Chronological (initUserFromEthCsv file) (sent stamp true 0 actions) := by
  have running : Running isClose (initUserFromEthCsv file) (sent stamp true 0 actions)
      (User.run isClose stamp file actions) := by
    have run := (@running_load _ _ _ _ isClose file).run stamp actions
    have started : (User.load isClose file).isAlive = true ∧ (User.load isClose file).time = 0 := by
      unfold User.load User.initFeatures
      split_ifs <;> exact ⟨rfl, rfl⟩
    rwa [started.1, started.2, nil_append] at run
  exact ⟨running.chronological, running.right⟩

end Runs

/-- `math.isclose` with a relative tolerance of one to a hundred thousand, for exact values. -/
def isCloseExactly (value key : ℚ) : Bool :=
  |value - key| ≤ 1 / 100000 * max |value| |key|

def universalTime (minute : ℕ) : ℤ :=
  1743465600 + 60 * minute

theorem features_of_later_history :
    ((User.run isCloseExactly universalTime (some [some ⟨1748736000, 1⟩]) [.send 1]).stat.map
      Stat.intervals) = some [-5270400] ∧
    ¬(User.run isCloseExactly universalTime (some [some ⟨1748736000, 1⟩]) [.send 1]).Right
      isCloseExactly := by
  refine ⟨by decide +kernel, ?_⟩
  intro right
  have nonneg := right.nonneg _ rfl (-5270400) (by decide +kernel)
  omega

end TigerMixer.Features
