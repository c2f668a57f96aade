import TigerMixer.Auditor.ReplySafety

/-!
# When a user is cleared

`fetch_shares_by_msgid` returns `RLC_OK` without a message when it has collected no share, and the
auditor takes this for the verdict of all receivers. The user is cleared by any combination of
replies without a record that is taken.
-/

namespace TigerMixer.Auditor

open Bytes SecretShare

universe u

def Clears : Option Bytes → Prop
  | none => False
  | some reply => noAuditNeeded <+: reply

instance (reply : Option Bytes) : Decidable (Clears reply) :=
  match reply with
  | none => inferInstanceAs (Decidable False)
  | some reply => inferInstanceAs (Decidable (noAuditNeeded <+: reply))

def TakesNothing (heap : ℕ) (reply : Bytes) (collected : Collected) : Prop :=
  reply = [] ∨ IsStatus reply ∨ collected.prepare heap reply = none ∨ (scanReply reply).1 = []

section Count

variable {heap : ℕ} {reply : Bytes} {replies : List (Option Bytes)} {collected extended : Collected}

theorem length_records_realloc (capacity : ℕ) :
    (collected.realloc heap capacity).records.length = collected.records.length := by
  simp [Collected.realloc]

theorem length_records_prepare {prepared : Collected}
    (ready : collected.prepare heap reply = some prepared) :
    prepared.records.length = collected.records.length := by
  simp only [Collected.prepare] at ready
  split_ifs at ready
  · rw [← Option.some.inj ready, length_records_realloc]
  · rw [← Option.some.inj ready]

theorem length_records_parseReply (parsed : parseReply heap reply collected = some extended) :
    collected.records.length ≤ extended.records.length ∧
      (extended.records.length = collected.records.length ↔ TakesNothing heap reply collected) := by
  by_cases empty : reply = []
  · rw [parseReply, if_pos empty, Option.some.injEq] at parsed
    subst parsed
    exact ⟨le_rfl, iff_of_true rfl (.inl empty)⟩
  by_cases cut : CutOff reply
  · rw [parseReply_of_cutOff empty cut] at parsed
    cases parsed
  by_cases status : IsStatus reply
  · rw [parseReply_of_isStatus empty status, Option.some.injEq] at parsed
    subst parsed
    exact ⟨le_rfl, iff_of_true rfl (.inr (.inl status))⟩
  rw [parseReply_eq empty cut status] at parsed
  cases ready : collected.prepare heap reply with
  | none =>
    rw [ready, Option.some.injEq] at parsed
    subst parsed
    rw [Collected.lost, length_records_realloc]
    exact ⟨le_rfl, iff_of_true rfl (.inr (.inr (.inl ready)))⟩
  | some prepared =>
    have same := length_records_prepare ready
    simp only [ready] at parsed
    split_ifs at parsed
    obtain rfl := Option.some.inj parsed
    simp only [Collected.extend, List.length_append, List.length_map, same, TakesNothing, empty,
      status, ready, reduceCtorEq, false_or, Nat.add_eq_left, List.length_eq_zero_iff, and_true]
    exact Nat.le_add_right _ _

theorem length_records_collectShares
    (collects : collectShares heap replies collected = some extended) :
    collected.records.length ≤ extended.records.length ∧
      (extended.records.length = collected.records.length ↔
        InTurn heap (TakesNothing heap) replies collected) := by
  induction replies generalizing collected with
  | nil =>
    obtain rfl := Option.some.inj collects
    exact ⟨le_rfl, iff_of_true rfl inTurn_nil⟩
  | cons first replies ih =>
    cases first with
    | none =>
      rw [inTurn_cons_none]
      exact ih collects
    | some first =>
      rw [collectShares] at collects
      rcases Option.bind_eq_some_iff.mp collects with ⟨read, parsed, collects⟩
      rcases length_records_parseReply parsed with ⟨grows, unchanged⟩
      rcases ih collects with ⟨growsLater, unchangedLater⟩
      rw [inTurn_cons_some, ← unchanged]
      simp only [parsed, Option.some.injEq, forall_eq', ← unchangedLater]
      -- Neither step takes a record away, so the total stays only if both leave it alone.
      omega

end Count

section Fetch

variable (scheme : Scheme) {E : Type u} [AddCommGroup E] [DecidableEq E]
  [Module (ZMod scheme.order) E] (group : PrimeOrderGroup scheme.order E) (codec : PointCodec E)
  (heap : ℕ) (tag : ℤ) (stored : Option VssCommitment) (replies : List (Option Bytes))

theorem fetch_eq_nothing_iff :
    fetchSharesByMsgid scheme group codec heap tag stored replies = some .nothing ↔
      (tag = 0 ∨ tag = 1) ∧ InTurn heap (SafeReply heap) replies .empty ∧
        InTurn heap (TakesNothing heap) replies .empty := by
  rw [fetchSharesByMsgid]
  by_cases leg : tag = 0 ∨ tag = 1
  swap
  · rw [if_pos (not_or.mp leg)]
    simp [leg]
  rw [if_neg (by tauto), and_iff_right leg, ← collectShares_isSome_iff]
  cases collects : collectShares heap replies .empty with
  | none => simp
  | some collected =>
    rcases length_records_collectShares collects with ⟨-, unchanged⟩
    change collected.records.length = 0 ↔ _ at unchanged
    rw [← unchanged, Option.bind_eq_bind, Option.bind_some]
    simp only [Option.isSome_some, true_and]
    have positive := scheme.threshold_pos
    split_ifs with enough none
    · refine iff_of_false ?_ (by omega)
      intro cleared
      rcases Option.bind_eq_some_iff.mp cleared with ⟨verified, -, cleared⟩
      split_ifs at cleared
      · revert cleared
        cases reconstructSecretFromShares scheme collected.shares with
        | ok secret => simp
        | error fault => cases fault <;> simp
      · simp at cleared
    · exact iff_of_true rfl none
    · exact iff_of_false (by simp) none

/-- The user is cleared by the verdicts of all receivers exactly if every receiver has sent one
whenever nothing is taken from any reply. -/
theorem cleared_by_verdicts_iff :
    (fetchSharesByMsgid scheme group codec heap tag stored replies = some .nothing →
        ∀ reply ∈ replies, Clears reply) ↔
      (tag = 0 ∨ tag = 1 → InTurn heap (SafeReply heap) replies .empty →
        InTurn heap (TakesNothing heap) replies .empty → ∀ reply ∈ replies, Clears reply) := by
  rw [fetch_eq_nothing_iff, and_imp, and_imp]

end Fetch

/-- No receiver can be reached, and one has no share: in both cases the user is cleared. -/
theorem cleared_without_verdict :
    fetchSharesByMsgid deployed (PrimeOrderGroup.residues deployed.order) tableCodec (2 ^ 40) 0 none
        [none, none, none] = some .nothing ∧
      fetchSharesByMsgid deployed (PrimeOrderGroup.residues deployed.order) tableCodec (2 ^ 40) 0
        none [some Receiver.notFound, some [], none] = some .nothing ∧
      ¬Clears none ∧ ¬Clears (some Receiver.notFound) ∧ ¬Clears (some []) := by
  refine ⟨rfl, rfl, ?_⟩
  decide

end TigerMixer.Auditor
