import Mathlib.Order.Defs.Unbundled

/-!
# Calls that leave the caller's control

A component executes a call as a program that may hand control to external code, which may call the
component again, to any depth. A failed frame undoes everything that happened inside it. `Script` is
what external code does: calls into the component, each with the scripts that answer its control
transfers, and nested frames.

The proof rule is a rely–guarantee rule over two preorders. `rely` relates the state before a
complete call to the state after it; `visible` is weaker and relates the state before a call to
every state in which external code runs meanwhile.
-/

namespace TigerMixer.Calls

open List

universe u v

inductive Prog (σ : Type u)
  | revert
  | done (state : σ)
  /-- The call hands control to external code in `state`. -/
  | invoke (state : σ) (resume : Option σ → Prog σ)

structure Outcome (σ : Type u) (Op : Type v) where
  final : Option σ
  seen : List σ
  calls : List (Op × σ)

abbrev Environment (σ : Type u) (Op : Type v) := σ → Outcome σ Op

def Environment.returning {σ : Type u} {Op : Type v} (succeeds : Bool) : Environment σ Op :=
  fun state => { final := if succeeds then some state else none, seen := [state], calls := [] }

/-- Runs a call, answering its transfers of control in order. Transfers without an answer return
at once. -/
def Prog.interp {σ : Type u} {Op : Type v} : Prog σ → List (Environment σ Op) → Outcome σ Op
  | .revert, _ => { final := none, seen := [], calls := [] }
  | .done state, _ => { final := some state, seen := [], calls := [] }
  | .invoke state resume, [] =>
    let rest := (resume (some state)).interp []
    { final := rest.final, seen := state :: rest.seen, calls := rest.calls }
  | .invoke state resume, environment :: environments =>
    let callee := environment state
    let rest := (resume callee.final).interp environments
    { final := rest.final
      seen := state :: (callee.seen ++ rest.seen)
      calls := callee.calls ++ rest.calls }

def Prog.require {σ : Type u} (condition : Prop) [Decidable condition] (next : Prog σ) : Prog σ :=
  if condition then next else .revert

def Prog.call {σ : Type u} (state : σ) (next : σ → Prog σ) : Prog σ :=
  .invoke state fun
    | none => .revert
    | some state => next state

section Require

variable {σ : Type u} {Op : Type v} {condition : Prop} [Decidable condition] {next : Prog σ}

variable {environments : List (Environment σ Op)} {post : σ → Prop} {program : Prog σ}
  {update : σ → σ → Prop} {found : σ}

theorem Prog.interp_require_iff {state : σ} :
    ((Prog.require condition next).interp environments).final = some state ↔
      condition ∧ (next.interp environments).final = some state := by
  by_cases holds : condition
  · simp [Prog.require, holds]
  · simp [Prog.require, holds, Prog.interp]

theorem Prog.isSome_interp_require :
    ((Prog.require condition next).interp environments).final.isSome ↔
      condition ∧ (next.interp environments).final.isSome := by
  by_cases holds : condition
  · simp [Prog.require, holds]
  · simp [Prog.require, holds, Prog.interp]

/-- Whatever external code does, the call can only return in a state with the postcondition. -/
def Prog.Ends (post : σ → Prop) : Prog σ → Prop
  | .revert => True
  | .done state => post state
  | .invoke _ resume => ∀ answer, (resume answer).Ends post

theorem Prog.Ends.of_final (ends : program.Ends post) {state : σ}
    (returned : (program.interp environments).final = some state) : post state := by
  induction program generalizing environments with
  | revert => simp [Prog.interp] at returned
  | done state' =>
    simp only [Prog.interp, Option.some.injEq] at returned
    subst returned
    exact ends
  | invoke state' resume ih =>
    cases environments with
    | nil => exact ih _ (ends _) returned
    | cons environment environments => exact ih _ (ends _) returned

theorem Prog.ends_require_iff :
    (Prog.require condition next).Ends post ↔ (condition → next.Ends post) := by
  by_cases holds : condition
  · simp [Prog.require, holds]
  · simp [Prog.require, holds, Prog.Ends]

/-- The call changes the state only when it returns, by an update of the state that it then finds.
The first state is the one it finds so far. -/
def Prog.Updates (update : σ → σ → Prop) : σ → Prog σ → Prop
  | _, .revert => True
  | found, .done state => update found state
  | found, .invoke state resume =>
    state = found ∧ (resume none).Updates update found ∧
      ∀ state', (resume (some state')).Updates update state'

theorem Prog.updates_require_iff :
    (Prog.require condition next).Updates update found ↔
      (condition → next.Updates update found) := by
  by_cases holds : condition
  · simp [Prog.require, holds]
  · simp [Prog.require, holds, Prog.Updates]

theorem Prog.Updates.mono {update update' : σ → σ → Prop} (updates : program.Updates update found)
    (weaker : ∀ before after, update before after → update' before after) :
    program.Updates update' found := by
  induction program generalizing found with
  | revert => exact trivial
  | done state => exact weaker found state updates
  | invoke state resume ih =>
    rcases updates with ⟨same, failed, resumed⟩
    exact ⟨same, ih none failed, fun state' => ih (some state') (resumed state')⟩

theorem Prog.Updates.ends (updates : program.Updates update found)
    (after : ∀ before state, update before state → post state) : program.Ends post := by
  induction program generalizing found with
  | revert => exact trivial
  | done state => exact after found state updates
  | invoke state resume ih =>
    rcases updates with ⟨-, failed, resumed⟩
    intro answer
    cases answer with
    | none => exact ih none failed
    | some state' => exact ih (some state') (resumed state')

theorem Prog.Updates.of_returning (updates : program.Updates update found) {answers : List Bool}
    {state : σ} (returned : (program.interp
      (answers.map Environment.returning : List (Environment σ Op))).final = some state) :
    update found state := by
  induction program generalizing answers with
  | revert => simp [Prog.interp] at returned
  | done state' =>
    simp only [Prog.interp, Option.some.injEq] at returned
    subst returned
    exact updates
  | invoke state' resume ih =>
    rcases updates with ⟨rfl, failed, resumed⟩
    rcases answers with _ | ⟨succeeds, answers⟩
    · exact @ih (some state') (resumed state') [] returned
    · cases succeeds with
      | false => exact ih none failed returned
      | true => exact ih (some state') (resumed state') returned

end Require

inductive Script (Op : Type v)
  | stop (succeeds : Bool)
  /-- Call the component, then go on whether or not that call failed. -/
  | call (op : Op) (callbacks : List (Script Op)) (rest : Script Op)
  /-- Run `body` in a frame of its own, then go on whether or not it failed. -/
  | sub (body rest : Script Op)

section Run

variable {σ : Type u} {Op : Type v} (prog : Op → σ → Prog σ)

mutual

def Script.run : Script Op → Environment σ Op
  | .stop succeeds, state =>
    { final := if succeeds then some state else none, seen := [state], calls := [] }
  | .call op callbacks rest, state =>
    let inner := (prog op state).interp (Script.runAll callbacks)
    let next := rest.run (inner.final.getD state)
    { final := next.final
      seen := state :: (inner.seen ++ next.seen)
      calls := (op, state) :: (inner.calls ++ next.calls) }
  | .sub body rest, state =>
    let inner := body.run state
    let next := rest.run (inner.final.getD state)
    { final := next.final
      seen := state :: (inner.seen ++ next.seen)
      calls := inner.calls ++ next.calls }

def Script.runAll : List (Script Op) → List (Environment σ Op)
  | [] => []
  | script :: scripts => script.run :: Script.runAll scripts

end

theorem Script.start_mem_seen (script : Script Op) (state : σ) :
    state ∈ (script.run prog state).seen := by
  cases script with
  | stop succeeds => simp [Script.run]
  | call op callbacks rest => simp [Script.run]
  | sub body rest => simp [Script.run]

variable {prog} in
theorem Script.mem_seen_of_final : ∀ {script : Script Op} {start state : σ},
    (script.run prog start).final = some state → state ∈ (script.run prog start).seen
  | .stop succeeds, start, state, final => by
      cases succeeds with
      | false => simp [Script.run] at final
      | true => simpa [Script.run, eq_comm] using final
  | .call op callbacks rest, start, state, final => by
      simp only [Script.run, mem_cons, mem_append] at final ⊢
      exact Or.inr (Or.inr (Script.mem_seen_of_final final))
  | .sub body rest, start, state, final => by
      simp only [Script.run, mem_cons, mem_append] at final ⊢
      exact Or.inr (Or.inr (Script.mem_seen_of_final final))

end Run

section Calls

variable {σ : Type u} {Op : Type v} {prog : Op → σ → Prog σ}

theorem Prog.exists_environment_of_mem_calls {program : Prog σ}
    {environments : List (Environment σ Op)} {call : Op × σ}
    (made : call ∈ (program.interp environments).calls) :
    ∃ environment ∈ environments, ∃ state, call ∈ (environment state).calls ∧
      (environment state).seen ⊆ (program.interp environments).seen := by
  induction program generalizing environments with
  | revert => simp [Prog.interp] at made
  | done state => simp [Prog.interp] at made
  | invoke state resume ih =>
    cases environments with
    | nil =>
      rcases ih (some state) made with ⟨environment, member, -⟩
      simp at member
    | cons environment environments =>
      simp only [Prog.interp, mem_append] at made ⊢
      rcases made with made | made
      · refine ⟨environment, mem_cons_self, state, made, ?_⟩
        intro state' seen
        simp [seen]
      · rcases ih _ made with ⟨environment', member, state', made', seen⟩
        refine ⟨environment', mem_cons_of_mem _ member, state', made', ?_⟩
        intro state'' seen''
        have later := seen seen''
        simp [later]

mutual

theorem Script.mem_seen_of_call_done {op : Op} {before after : σ}
    (returns : prog op before = .done after) : ∀ (script : Script Op) (state : σ),
      (op, before) ∈ (script.run prog state).calls → after ∈ (script.run prog state).seen
  | .stop succeeds, state, made => by
      simp [Script.run] at made
  | .call op' callbacks rest, state, made => by
      simp only [Script.run, mem_cons, mem_append, Prod.mk.injEq] at made ⊢
      rcases made with ⟨rfl, rfl⟩ | made | made
      · right
        right
        simp only [returns, Prog.interp, Option.getD_some]
        exact Script.start_mem_seen prog rest after
      · right
        left
        rcases Prog.exists_environment_of_mem_calls made with
          ⟨environment, member, state', made', seen⟩
        exact seen (Script.mem_seen_of_call_done_runAll returns callbacks environment member
          state' made')
      · right
        right
        exact Script.mem_seen_of_call_done returns rest _ made
  | .sub body rest, state, made => by
      simp only [Script.run, mem_cons, mem_append] at made ⊢
      rcases made with made | made
      · exact Or.inr (Or.inl (Script.mem_seen_of_call_done returns body state made))
      · exact Or.inr (Or.inr (Script.mem_seen_of_call_done returns rest _ made))

theorem Script.mem_seen_of_call_done_runAll {op : Op} {before after : σ}
    (returns : prog op before = .done after) : ∀ (scripts : List (Script Op)),
      ∀ environment ∈ Script.runAll prog scripts, ∀ state,
        (op, before) ∈ (environment state).calls → after ∈ (environment state).seen
  | [] => by simp [Script.runAll]
  | script :: scripts => by
      intro environment member
      rw [Script.runAll, mem_cons] at member
      rcases member with rfl | member
      · exact Script.mem_seen_of_call_done returns script
      · exact Script.mem_seen_of_call_done_runAll returns scripts environment member

end

end Calls

structure Discipline (σ : Type u) where
  rely : σ → σ → Prop
  visible : σ → σ → Prop
  rely_refl : ∀ state, rely state state
  rely_trans : ∀ {first second third}, rely first second → rely second third → rely first third
  visible_trans :
    ∀ {first second third}, visible first second → visible second third → visible first third
  visible_of_rely : ∀ {first second}, rely first second → visible first second

namespace Discipline

variable {σ : Type u} {Op : Type v} (discipline : Discipline σ)

def Keeps (start : σ) : Prog σ → Prop
  | .revert => True
  | .done state => discipline.rely start state
  | .invoke state resume =>
    discipline.visible start state ∧ Keeps start (resume none) ∧
      ∀ state', discipline.rely state state' → Keeps start (resume (some state'))

def relating (relation : σ → σ → Prop) (refl : ∀ state, relation state state)
    (trans : ∀ {first second third}, relation first second → relation second third →
      relation first third) : Discipline σ where
  rely := relation
  visible := relation
  rely_refl := refl
  rely_trans := trans
  visible_trans := trans
  visible_of_rely rely := rely

def preserving (invariant : σ → Prop) : Discipline σ :=
  relating (fun state state' => invariant state → invariant state') (fun _ holds => holds)
    fun before after holds => after (before holds)

variable {discipline} in
theorem keeps_require_iff {start : σ} {condition : Prop} [Decidable condition] {next : Prog σ} :
    discipline.Keeps start (Prog.require condition next) ↔
      (condition → discipline.Keeps start next) := by
  by_cases holds : condition
  · simp [Prog.require, holds]
  · simp [Prog.require, holds, Keeps]

variable {program : Prog σ} {outcome : Outcome σ Op}

theorem keeps_of_updates {update : σ → σ → Prop} {invariant : σ → Prop} {start found : σ}
    (updates : program.Updates update found)
    (kept : ∀ before after, update before after → invariant before → invariant after)
    (reached : invariant start → invariant found) :
    (preserving invariant).Keeps start program := by
  induction program generalizing found with
  | revert => exact trivial
  | done state => exact fun holds => kept _ _ updates (reached holds)
  | invoke state resume ih =>
    rcases updates with ⟨rfl, failed, resumed⟩
    refine ⟨reached, ih none failed reached, ?_⟩
    intro state' external
    exact ih (some state') (resumed state') fun holds =>
      external (reached holds)

variable {discipline} in
theorem keeps_call {start state : σ} {next : σ → Prog σ} (visible : discipline.visible start state)
    (keeps : ∀ state', discipline.rely state state' → discipline.Keeps start (next state')) :
    discipline.Keeps start (Prog.call state next) :=
  ⟨visible, trivial, keeps⟩

variable {discipline} in
theorem keeps_call_done {start state : σ} (rely : discipline.rely start state) :
    discipline.Keeps start (Prog.call state .done) :=
  keeps_call (discipline.visible_of_rely rely) fun _ later => discipline.rely_trans rely later

structure Within (start : σ) (outcome : Outcome σ Op) : Prop where
  final : ∀ state, outcome.final = some state → discipline.rely start state
  seen : ∀ state ∈ outcome.seen, discipline.visible start state

variable {discipline}

theorem Within.getD {start : σ} (within : discipline.Within start outcome) :
    discipline.rely start (outcome.final.getD start) := by
  cases reached : outcome.final with
  | none => exact discipline.rely_refl start
  | some state => exact within.final state reached

theorem Within.of_rely {first second : σ} (within : discipline.Within second outcome)
    (before : discipline.rely first second) :
    discipline.Within first outcome where
  final state reached := discipline.rely_trans before (within.final state reached)
  seen state member :=
    discipline.visible_trans (discipline.visible_of_rely before) (within.seen state member)

theorem interp_within {good : Op × σ → Prop} {start : σ} {environments : List (Environment σ Op)}
    (environmentsWithin : ∀ environment ∈ environments, ∀ state,
      (∀ call ∈ (environment state).calls, good call) →
        discipline.Within state (environment state)) (keeps : discipline.Keeps start program)
    (allGood : ∀ call ∈ (program.interp environments).calls, good call) :
    discipline.Within start (program.interp environments) := by
  induction program generalizing environments with
  | revert => exact ⟨by simp [Prog.interp], by simp [Prog.interp]⟩
  | done state =>
    refine ⟨?_, by simp [Prog.interp]⟩
    intro state' reached
    simp only [Prog.interp, Option.some.injEq] at reached
    subst reached
    exact keeps
  | invoke state resume ih =>
    rcases keeps with ⟨visible, failed, resumed⟩
    cases environments with
    | nil =>
      have rest := ih (some state) environmentsWithin
        (resumed state (discipline.rely_refl state)) allGood
      refine ⟨rest.final, ?_⟩
      intro state' member
      simp only [Prog.interp, mem_cons] at member
      rcases member with rfl | member
      · exact visible
      · exact rest.seen state' member
    | cons environment environments =>
      simp only [Prog.interp, mem_append] at allGood
      have callee := environmentsWithin environment mem_cons_self state
        fun call member => allGood call (Or.inl member)
      have others : ∀ environment ∈ environments, ∀ state,
          (∀ call ∈ (environment state).calls, good call) →
            discipline.Within state (environment state) :=
        fun environment member => environmentsWithin environment (mem_cons_of_mem _ member)
      have rest : discipline.Within start
          ((resume (environment state).final).interp environments) := by
        apply ih _ others
        · cases answered : (environment state).final with
          | none => exact failed
          | some state' => exact resumed state' (callee.final state' answered)
        · exact fun call member => allGood call (Or.inr member)
      refine ⟨rest.final, ?_⟩
      intro state' member
      simp only [Prog.interp, mem_cons, mem_append] at member
      rcases member with rfl | member | member
      · exact visible
      · exact discipline.visible_trans visible (callee.seen state' member)
      · exact rest.seen state' member

theorem within_returning (succeeds : Bool) (state : σ) :
    discipline.Within state (Environment.returning succeeds state : Outcome σ Op) := by
  refine ⟨?_, ?_⟩
  · intro state' reached
    cases succeeds with
    | false => simp [Environment.returning] at reached
    | true =>
      simp only [Environment.returning, if_true, Option.some.injEq] at reached
      subst reached
      exact discipline.rely_refl state
  · intro state' member
    simp only [Environment.returning, mem_singleton] at member
    subst member
    exact discipline.visible_of_rely (discipline.rely_refl _)

theorem rely_of_returning {start state : σ} {answers : List Bool}
    (keeps : discipline.Keeps start program) (returned : (program.interp
      (answers.map Environment.returning : List (Environment σ Op))).final = some state) :
    discipline.rely start state := by
  have environmentsWithin : ∀ environment ∈ answers.map
      (Environment.returning : Bool → Environment σ Op), ∀ state,
      (∀ call ∈ (environment state).calls, True) → discipline.Within state (environment state) := by
    intro environment member state _
    rcases mem_map.mp member with ⟨succeeds, -, rfl⟩
    exact within_returning succeeds state
  exact (interp_within environmentsWithin keeps fun _ _ => trivial).final state returned

theorem within_append {start : σ} {inner next : Outcome σ Op} {calls : List (Op × σ)}
    (innerWithin : discipline.Within start inner)
    (nextWithin : discipline.Within (inner.final.getD start) next) :
    discipline.Within start
      { final := next.final, seen := start :: (inner.seen ++ next.seen), calls } := by
  have shifted := nextWithin.of_rely innerWithin.getD
  refine ⟨shifted.final, ?_⟩
  intro state member
  simp only [mem_cons, mem_append] at member
  rcases member with rfl | member | member
  · exact discipline.visible_of_rely (discipline.rely_refl _)
  · exact innerWithin.seen state member
  · exact shifted.seen state member

variable {prog : Op → σ → Prog σ}

mutual

theorem run_within_of_calls : ∀ (script : Script Op) (state : σ),
    (∀ call ∈ (script.run prog state).calls, discipline.Keeps call.2 (prog call.1 call.2)) →
      discipline.Within state (script.run prog state)
  | .stop succeeds, state, _ => within_returning succeeds state
  | .call op callbacks rest, state, keeps => by
      simp only [Script.run, mem_cons, mem_append] at keeps
      rw [Script.run]
      apply within_append
      · apply interp_within (runAll_within_of_calls callbacks) (keeps (op, state) (Or.inl rfl))
        exact fun call member => keeps call (Or.inr (Or.inl member))
      · apply run_within_of_calls rest
        exact fun call member => keeps call (Or.inr (Or.inr member))
  | .sub body rest, state, keeps => by
      simp only [Script.run, mem_append] at keeps
      rw [Script.run]
      apply within_append
      · apply run_within_of_calls body
        exact fun call member => keeps call (Or.inl member)
      · apply run_within_of_calls rest
        exact fun call member => keeps call (Or.inr member)

theorem runAll_within_of_calls : ∀ (scripts : List (Script Op)),
    ∀ environment ∈ Script.runAll prog scripts, ∀ state,
      (∀ call ∈ (environment state).calls, discipline.Keeps call.2 (prog call.1 call.2)) →
        discipline.Within state (environment state)
  | [] => by simp [Script.runAll]
  | script :: scripts => by
      intro environment member
      rw [Script.runAll, mem_cons] at member
      rcases member with rfl | member
      · exact run_within_of_calls script
      · exact runAll_within_of_calls scripts environment member

end

theorem run_within (keeps : ∀ op state, discipline.Keeps state (prog op state))
    (script : Script Op) (state : σ) : discipline.Within state (script.run prog state) :=
  run_within_of_calls script state fun call _ => keeps call.1 call.2

end Discipline

end TigerMixer.Calls
