import Mathlib.Data.List.Forall2
import TigerMixer.Calls.Reentrancy

/-!
# The history of a run

A component whose state is paired with the calls that have returned so far, the newest first. Each
entry keeps the state in which the call was made and how many calls had returned by then. Keeping
the history changes nothing else.
-/

namespace TigerMixer.Calls

universe u v

structure Entry (σ : Type u) (Op : Type v) where
  op : Op
  start : σ
  earlier : ℕ

namespace Entry

variable {σ : Type u} {Op : Type v}

def before (entry : Entry σ Op) (history : List (Entry σ Op)) : List (Entry σ Op) :=
  history.drop (history.length - entry.earlier)

def during (entry : Entry σ Op) (history : List (Entry σ Op)) : List (Entry σ Op) :=
  history.take (history.length - entry.earlier)

end Entry

section Record

variable {σ : Type u} {Op : Type v}

def Prog.logged (entry : Entry σ Op) :
    List (Entry σ Op) → Prog σ → Prog (σ × List (Entry σ Op))
  | _, .revert => .revert
  | history, .done state => .done (state, entry :: history)
  | history, .invoke state resume =>
    .invoke (state, history) fun
      | none => (resume none).logged entry history
      | some (state', history') => (resume (some state')).logged entry history'

def record (prog : Op → σ → Prog σ) (op : Op) (start : σ × List (Entry σ Op)) :
    Prog (σ × List (Entry σ Op)) :=
  (prog op start.1).logged ⟨op, start.1, start.2.length⟩ start.2

def Outcome.forget (outcome : Outcome (σ × List (Entry σ Op)) Op) : Outcome σ Op where
  final := outcome.final.map Prod.fst
  seen := outcome.seen.map Prod.fst
  calls := outcome.calls.map fun call => (call.1, call.2.1)

theorem Outcome.forget_getD (outcome : Outcome (σ × List (Entry σ Op)) Op)
    (start : σ × List (Entry σ Op)) :
    (outcome.final.getD start).1 = outcome.forget.final.getD start.1 := by
  rw [Outcome.forget]
  cases outcome.final with
  | none => rfl
  | some state => rfl

theorem forget_interp_logged {entry : Entry σ Op} {program : Prog σ} {history : List (Entry σ Op)}
    {recorded : List (Environment (σ × List (Entry σ Op)) Op)}
    {environments : List (Environment σ Op)} (same : List.Forall₂ (fun recorded environment =>
      ∀ start, (recorded start).forget = environment start.1) recorded environments) :
    ((program.logged entry history).interp recorded).forget = program.interp environments := by
  induction program generalizing history recorded environments with
  | revert => rfl
  | done state => rfl
  | invoke state resume ih =>
    cases same with
    | nil =>
      have rest := @ih (some state) history [] [] .nil
      simp only [Prog.logged, Prog.interp, ← rest]
      rfl
    | @cons first environment recorded environments head tail =>
      have callee : (first (state, history)).forget = environment state := head (state, history)
      cases answered : (first (state, history)).final with
      | none =>
        have failed : (first (state, history)).forget.final = none := by
          simp [Outcome.forget, answered]
        have rest := @ih none history _ _ tail
        simp only [Prog.logged, Prog.interp, ← callee, answered, failed, ← rest]
        simp [Outcome.forget]
      | some after =>
        have returned : (first (state, history)).forget.final = some after.1 := by
          simp [Outcome.forget, answered]
        have rest := @ih (some after.1) after.2 _ _ tail
        simp only [Prog.logged, Prog.interp, ← callee, answered, returned, ← rest]
        simp [Outcome.forget]

variable (prog : Op → σ → Prog σ)

mutual

theorem forget_run_record : ∀ (script : Script Op) (start : σ × List (Entry σ Op)),
    (script.run (record prog) start).forget = script.run prog start.1
  | .stop succeeds, start => by
      cases succeeds with
      | false => rfl
      | true => rfl
  | .call op callbacks rest, start => by
      have inner : ((record prog op start).interp
          (Script.runAll (record prog) callbacks)).forget =
            (prog op start.1).interp (Script.runAll prog callbacks) :=
        forget_interp_logged (forget_runAll_record callbacks)
      have next := forget_run_record rest
        (((record prog op start).interp (Script.runAll (record prog) callbacks)).final.getD start)
      rw [Outcome.forget_getD, inner] at next
      rw [Script.run, Script.run, ← next, ← inner]
      simp [Outcome.forget]
  | .sub body rest, start => by
      have inner := forget_run_record body start
      have next := forget_run_record rest
        ((body.run (record prog) start).final.getD start)
      rw [Outcome.forget_getD, inner] at next
      rw [Script.run, Script.run, ← next, ← inner]
      simp [Outcome.forget]

theorem forget_runAll_record : ∀ scripts : List (Script Op),
    List.Forall₂ (fun recorded environment =>
        ∀ start : σ × List (Entry σ Op), (recorded start).forget = environment start.1)
      (Script.runAll (record prog) scripts) (Script.runAll prog scripts)
  | [] => .nil
  | script :: scripts => .cons (forget_run_record script) (forget_runAll_record scripts)

end

theorem mem_seen_record_iff (script : Script Op) (start : σ × List (Entry σ Op)) (state : σ) :
    (∃ history, (state, history) ∈ (script.run (record prog) start).seen) ↔
      state ∈ (script.run prog start.1).seen := by
  rw [← forget_run_record prog script start]
  simp [Outcome.forget]

end Record

namespace Discipline

variable {σ : Type u} {Op : Type v} {invariant : σ → List (Entry σ Op) → Prop}

def recording (invariant : σ → List (Entry σ Op) → Prop) : Discipline (σ × List (Entry σ Op)) :=
  relating
    (fun first second => first.2 <:+ second.2 ∧
      (invariant first.1 first.2 → invariant second.1 second.2))
    (fun _ => ⟨List.suffix_rfl, id⟩)
    fun before after => ⟨before.1.trans after.1, fun holds => after.2 (before.2 holds)⟩

theorem keeps_logged {update : σ → σ → Prop} {start found : σ} {entry : Entry σ Op}
    {earlier history : List (Entry σ Op)} {program : Prog σ}
    (updates : program.Updates update found)
    (kept : ∀ before history after, invariant start earlier → earlier <:+ history →
      invariant before history → update before after → invariant after (entry :: history))
    (suffix : earlier <:+ history) (reached : invariant start earlier → invariant found history) :
    (recording invariant).Keeps (start, earlier) (program.logged entry history) := by
  induction program generalizing found history with
  | revert => exact trivial
  | done state =>
    refine ⟨suffix.trans (List.suffix_cons entry history), ?_⟩
    exact fun holds => kept _ _ _ holds suffix (reached holds) updates
  | invoke state resume ih =>
    rcases updates with ⟨rfl, failed, resumed⟩
    rw [Prog.logged]
    refine ⟨⟨suffix, reached⟩, ih none failed suffix reached, ?_⟩
    rintro ⟨state', history'⟩ ⟨added, external⟩
    exact ih (some state') (resumed state') (suffix.trans added)
      fun holds => external (reached holds)

theorem invariant_of_mem_seen_record {prog : Op → σ → Prog σ} {effect : Op → σ → σ → σ → Prop}
    (updates : ∀ op start, (prog op start).Updates (effect op start) start)
    (kept : ∀ op start earlier before history after, invariant start earlier →
      earlier <:+ history → invariant before history → effect op start before after →
        invariant after (⟨op, start, earlier.length⟩ :: history)) {initial : σ}
    (start : invariant initial []) (script : Script Op) {state : σ} {history : List (Entry σ Op)}
    (seen : (state, history) ∈ (script.run (record prog) (initial, [])).seen) :
    invariant state history := by
  have within : (recording invariant).Within (initial, [])
      (script.run (record prog) (initial, [])) := by
    apply run_within
    rintro op ⟨start, earlier⟩
    exact keeps_logged (updates op start) (kept op start earlier) List.suffix_rfl id
  exact (within.seen (state, history) seen).2 start

end Discipline

end TigerMixer.Calls
