import TigerMixer.Rotation.Randomness

/-!
# The log of the rotations

`rotationRandom` and `randomUsed` record the random value of each rotation. The value is entered at
its submission, under the number of the next rotation. While a pair is pending, `currentVRFRandom`
is what stands in the log under `rotationCount`.
-/

namespace TigerMixer.Rotation

open Calls List

/-- A call during which the reward pool does not call back, with whether its functions return. -/
structure Transaction where
  call : Call
  answers : List Bool

def Transaction.time (transaction : Transaction) : ℕ := transaction.call.msg.timestamp

def Transaction.result (primitives : VrfPrimitives) (transaction : Transaction) (state : State) :
    Option State :=
  ((execute primitives transaction.call state).interp
    (transaction.answers.map Environment.returning : Callbacks)).final

structure Performed where
  msg : Msg
  views : Views
  before : State
  after : State

def Transaction.step (primitives : VrfPrimitives) (current : State × List Performed)
    (transaction : Transaction) : State × List Performed :=
  match transaction.result primitives current.1 with
  | none => current
  | some after =>
    match transaction.call.request with
    | .rotateCommittee views =>
      (after, current.2 ++ [⟨transaction.call.msg, views, current.1, after⟩])
    | _ => (after, current.2)

def runTransactions (primitives : VrfPrimitives) (current : State × List Performed)
    (transactions : List Transaction) : State × List Performed :=
  transactions.foldl (Transaction.step primitives) current

def Timely : ℕ → List Transaction → Prop
  | now, [] => now + 20 < wordSize
  | now, transaction :: transactions =>
    now ≤ transaction.time ∧ now + 20 < wordSize ∧ Timely transaction.time transactions

theorem Timely.of_append {now : ℕ} {transactions later : List Transaction}
    (timely : Timely now (transactions ++ later)) : Timely now transactions := by
  induction transactions generalizing now with
  | nil =>
    cases later with
    | nil => exact timely
    | cons transaction later => exact timely.2.1
  | cons transaction transactions ih =>
    exact ⟨timely.1, timely.2.1, ih timely.2.2⟩

structure LogInv (created now : ℕ) (state : State) (log : List Performed) : Prop where
  count : state.rotationCount = log.length
  spaced : created + 20 * log.length ≤ state.lastRotationTime
  past : state.lastRotationTime ≤ now
  used : ∀ k, state.randomUsed k = decide (k < log.length)
  random : ∀ k performed, log[k]? = some performed →
    state.rotationRandom k = performed.before.currentVRFRandom
  pending : state.currentVRFUsed = false → state.rotationRandom log.length = state.currentVRFRandom
  last : ∀ performed ∈ log.getLast?, performed.msg.timestamp = state.lastRotationTime
  apart : ∀ k first second, log[k]? = some first → log[k + 1]? = some second →
    first.msg.timestamp + 20 ≤ second.msg.timestamp
  selected : ∀ performed ∈ log, selectNewCommittee .source performed.views.reputation
    performed.before.candidatePool performed.before.currentVRFRandom =
      some performed.after.currentCommittee

section Step

variable {primitives : VrfPrimitives} {created now : ℕ} {state : State} {log : List Performed}

theorem logInv_create (self : Address) (initialCommittee : List Address)
    (vrfGenerator rewardPool : Address) (created : ℕ) :
    LogInv created created
      (State.create self initialCommittee vrfGenerator rewardPool created) [] where
  count := rfl
  spaced := le_rfl
  past := le_rfl
  used := by simp [State.create]
  random := by simp
  pending _ := rfl
  last := by simp
  apart := by simp
  selected := by simp

theorem LogInv.mono (inv : LogInv created now state log) {later : ℕ} (le : now ≤ later) :
    LogInv created later state log :=
  { inv with past := inv.past.trans le }

theorem LogInv.submitted (inv : LogInv created now state log) (timestamp random : ℕ)
    (proof publicKey message : Bytes) :
    LogInv created now (state.submitted timestamp random proof publicKey message) log :=
  { inv with
    random := by
      intro k performed entered
      have below : k < log.length := (List.getElem?_eq_some_iff.mp entered).1
      have other : k ≠ state.rotationCount := by
        rw [inv.count]
        exact below.ne
      simp only [State.submitted, State.emit, Function.update_of_ne other]
      exact inv.random k performed entered
    pending := by
      intro _
      simp [State.submitted, State.emit, ← inv.count] }

theorem getElem?_append_singleton_eq_some {α : Type} {list : List α} {item found : α} {k : ℕ}
    (entered : (list ++ [item])[k]? = some found) :
    list[k]? = some found ∨ k = list.length ∧ found = item := by
  rcases Nat.lt_trichotomy k list.length with below | rfl | above
  · rw [getElem?_append_left below] at entered
    exact Or.inl entered
  · rw [getElem?_concat_length, Option.some.injEq] at entered
    exact Or.inr ⟨rfl, entered.symm⟩
  · rw [getElem?_eq_none (by simp; omega)] at entered
    cases entered

theorem LogInv.rotated (inv : LogInv created now state log) (fits : now + 20 < wordSize)
    {msg : Msg} {views : Views} {after : State} (rotates : Rotates msg views state state after) :
    LogInv created msg.timestamp after (log ++ [⟨msg, views, state, after⟩]) := by
  have due : state.lastRotationTime + 20 ≤ msg.timestamp := by
    have later := inv.past
    rw [← Word.add_of_lt (show state.lastRotationTime + 20 < wordSize by omega)]
    exact of_decide_eq_true rotates.due
  have spaced := inv.spaced
  have past := inv.past
  have count : after.rotationCount = Word.add log.length 1 := by
    rw [rotates.rotated, ← inv.count]
    rfl
  have lastTime : after.lastRotationTime = msg.timestamp := by rw [rotates.rotated]; rfl
  have kept : after.rotationRandom = state.rotationRandom := by rw [rotates.rotated]; rfl
  constructor
  case count =>
    rw [count, length_append]
    exact Word.add_of_lt (by omega)
  case spaced =>
    rw [lastTime, length_append, length_singleton]
    omega
  case past => exact lastTime.le
  case used =>
    intro k
    rw [rotates.rotated]
    simp only [State.rotated, inv.count, Function.update_apply, inv.used, length_append,
      length_singleton]
    split_ifs with last
    · simp [last]
    · simp [show k < log.length + 1 ↔ k < log.length by omega]
  case random =>
    intro k performed entered
    rw [kept]
    rcases getElem?_append_singleton_eq_some entered with older | ⟨rfl, rfl⟩
    · exact inv.random k performed older
    · exact inv.pending rotates.unused
  case pending =>
    intro unused
    rw [rotates.rotated] at unused
    simp [State.rotated] at unused
  case last =>
    intro performed newest
    rw [getLast?_concat, Option.mem_some_iff] at newest
    rw [← newest, lastTime]
  case apart =>
    intro k first second entered entered'
    rcases getElem?_append_singleton_eq_some entered' with older | ⟨newest, rfl⟩
    · have below : k < log.length := by
        have inside := (List.getElem?_eq_some_iff.mp older).1
        omega
      rw [getElem?_append_left below] at entered
      exact inv.apart k first second entered older
    · rw [getElem?_append_left (by omega)] at entered
      rw [inv.last first (by rwa [getLast?_eq_getElem?, show log.length - 1 = k by omega])]
      exact due
  case selected =>
    intro performed entered
    rw [mem_append, mem_singleton] at entered
    rcases entered with older | rfl
    · exact inv.selected performed older
    · exact rotates.selected

theorem logInv_step {current : State × List Performed} {transaction : Transaction}
    (inv : LogInv created now current.1 current.2) (fits : now + 20 < wordSize)
    (later : now ≤ transaction.time) :
    LogInv created transaction.time (transaction.step primitives current).1
      (transaction.step primitives current).2 := by
  rcases current with ⟨state, log⟩
  rcases transaction with ⟨⟨msg, request⟩, answers⟩
  rw [Transaction.step]
  cases returned : Transaction.result primitives ⟨⟨msg, request⟩, answers⟩ state with
  | none => exact inv.mono later
  | some after =>
    have effect : Effect primitives ⟨msg, request⟩ state state after :=
      (execute_updates primitives ⟨msg, request⟩ state).of_returning returned
    have update := effect.update
    cases request with
    | rotateCommittee views => exact inv.rotated fits (effect.rotation views rfl)
    | submitVRFRandomWithProof random proof publicKey message =>
      cases update
      exact (inv.submitted _ random proof publicKey message).mono later
    | setRewardPool | setVRFGenerator | verifyVRFProof | addCandidate | removeCandidate =>
      cases update
      exact { inv.mono later with }

theorem logInv_run {transactions : List Transaction} {current : State × List Performed}
    (inv : LogInv created now current.1 current.2) (timely : Timely now transactions) :
    ∃ now', LogInv created now' (runTransactions primitives current transactions).1
      (runTransactions primitives current transactions).2 := by
  induction transactions generalizing now current with
  | nil => exact ⟨now, inv⟩
  | cons transaction transactions ih =>
    exact ih (logInv_step inv timely.2.1 timely.1) timely.2.2

theorem log_isPrefix_step (current : State × List Performed) (transaction : Transaction) :
    current.2 <+: (transaction.step primitives current).2 := by
  unfold Transaction.step
  split
  · exact prefix_rfl
  · split
    · exact prefix_append _ _
    · exact prefix_rfl

theorem log_isPrefix_run (current : State × List Performed) (transactions : List Transaction) :
    current.2 <+: (runTransactions primitives current transactions).2 := by
  induction transactions generalizing current with
  | nil => exact prefix_rfl
  | cons transaction transactions ih =>
    exact (log_isPrefix_step current transaction).trans (ih _)

end Step

/-- The log holds, for each rotation so far, the random value that its committee was drawn from.
Nothing else is marked as used, and the rotations are at least 20 seconds apart. -/
theorem rotation_log_faithful (primitives : VrfPrimitives) (self : Address)
    (initialCommittee : List Address) (vrfGenerator rewardPool : Address) (created : ℕ)
    (transactions later : List Transaction) (timely : Timely created (transactions ++ later)) :
    let start := State.create self initialCommittee vrfGenerator rewardPool created
    let current := runTransactions primitives (start, []) transactions
    let final := runTransactions primitives current later
    current.1.rotationCount = current.2.length ∧
      (∀ k < current.1.rotationCount, ∃ performed, current.2[k]? = some performed ∧
        current.1.randomUsed k = true ∧
        current.1.rotationRandom k = performed.before.currentVRFRandom ∧
        selectNewCommittee .source performed.views.reputation performed.before.candidatePool
          (current.1.rotationRandom k) = some performed.after.currentCommittee ∧
        final.1.randomUsed k = true ∧
        final.1.rotationRandom k = current.1.rotationRandom k) ∧
      (∀ k, current.1.rotationCount ≤ k → current.1.randomUsed k = false) ∧
      ∀ k first second, current.2[k]? = some first → current.2[k + 1]? = some second →
        first.msg.timestamp + 20 ≤ second.msg.timestamp := by
  intro start current final
  have created := logInv_create self initialCommittee vrfGenerator rewardPool created
  rcases @logInv_run primitives _ _ transactions (start, []) created timely.of_append with
    ⟨now, inv⟩
  rcases @logInv_run primitives _ _ (transactions ++ later) (start, []) created timely with
    ⟨now', inv'⟩
  have whole : runTransactions primitives (start, []) (transactions ++ later) = final :=
    foldl_append
  rw [whole] at inv'
  have extended : current.2 <+: final.2 := log_isPrefix_run current later
  refine ⟨inv.count, ?_, ?_, inv.apart⟩
  · intro k below
    rw [inv.count] at below
    have entered : current.2[k]? = some current.2[k] := getElem?_eq_getElem below
    have random := inv.random k _ entered
    refine ⟨_, entered, ?_, random, ?_, ?_, ?_⟩
    · exact (inv.used k).trans (decide_eq_true below)
    · rw [random]
      exact inv.selected _ (getElem_mem below)
    · exact (inv'.used k).trans (decide_eq_true (below.trans_le extended.length_le))
    · rw [random]
      exact inv'.random k _ (prefix_iff_getElem?.mp extended k below)
  · intro k above
    rw [inv.count] at above
    exact (inv.used k).trans (decide_eq_false above.not_gt)

section Sample

def submissionAt (time random : ℕ) : Transaction :=
  ⟨⟨⟨7, 0, time⟩, .submitVRFRandomWithProof random sampleProof samplePublicKey [2]⟩, []⟩

def firstRound : List Transaction :=
  [submissionAt 1 sampleOutput, ⟨⟨⟨11, 0, 2⟩, .addCandidate 11⟩, []⟩,
   ⟨⟨⟨12, 0, 3⟩, .addCandidate 12⟩, []⟩, ⟨⟨⟨13, 0, 4⟩, .addCandidate 13⟩, []⟩,
   ⟨⟨⟨9, 0, 30⟩, .rotateCommittee newcomers⟩, []⟩]

def secondRound : List Transaction :=
  [submissionAt 31 5, submissionAt 32 6, ⟨⟨⟨9, 0, 60⟩, .rotateCommittee newcomers⟩, []⟩]

end Sample

theorem rotation_log_two_rounds :
    let start := State.create 0xc0 [21, 22, 23] 7 0 0
    let current := runTransactions sampleVrf (start, []) firstRound
    let final := runTransactions sampleVrf current secondRound
    current.1.rotationCount = 1 ∧ final.1.rotationCount = 2 ∧ final.1.rotationRandom 1 = 6 ∧
      final.1.rotationRandom 0 = current.1.rotationRandom 0 := by
  have timely : Timely 0 (firstRound ++ secondRound) := by
    simp only [firstRound, secondRound, submissionAt, cons_append, nil_append, Timely,
      Transaction.time]
    have fits := fun (time : ℕ) (small : time < 2 ^ 64) => lt_wordSize small
    refine ⟨?_, fits _ ?_, ?_, fits _ ?_, ?_, fits _ ?_, ?_, fits _ ?_, ?_, fits _ ?_, ?_,
      fits _ ?_, ?_, fits _ ?_, ?_, fits _ ?_, fits _ ?_⟩
    all_goals decide
  have count : (runTransactions sampleVrf (State.create 0xc0 [21, 22, 23] 7 0 0, [])
      firstRound).1.rotationCount = 1 := by
    decide +kernel
  have entry := (rotation_log_faithful sampleVrf 0xc0 [21, 22, 23] 7 0 0 firstRound secondRound
    timely).2.1 0
  rw [count] at entry
  rcases entry Nat.one_pos with ⟨-, -, -, -, -, -, kept⟩
  exact ⟨count, by decide +kernel, by decide +kernel, kept⟩

end TigerMixer.Rotation
