import Mathlib.Algebra.Field.Rat
import Mathlib.Algebra.Order.Ring.Rat
import Mathlib.Data.List.Induction
import Mathlib.Data.List.Nodup

/-!
# Votes and reputations in the simulation

For each judged user a thread collects the votes, so votes and decisions are appended to their lists
in any order. The update compares the two lists index by index; the decisions are cleared then, the
votes never.
-/

namespace TigerMixer.Simulation

open List

variable {Member Judged : Type*}

/-! ### Voting -/

/-- A vote is appended to the list of a member, or the decision on a user to the list of decisions,
with the answer. A user that is judged again is another element of `Judged`. -/
inductive Event (Member Judged : Type*) where
  | cast (member : Member) (judged : Judged)
  | conclude (judged : Judged) (answer : Bool)
  deriving DecidableEq

/-- The variables of the voting, with the variable `count` of the thread that collects the votes on
a user. -/
structure State (Member Judged : Type*) where
  vote : Member → List Bool
  count : Judged → ℕ
  decision : List Bool
  answer : List Bool

def State.step [DecidableEq Member] [DecidableEq Judged] (verdict : Judged → Member → Bool)
    (state : State Member Judged) : Event Member Judged → State Member Judged
  | .cast member judged =>
    { state with
      vote := Function.update state.vote member (state.vote member ++ [verdict judged member])
      count := if verdict judged member
        then Function.update state.count judged (state.count judged + 1) else state.count }
  | .conclude judged answer =>
    { state with
      decision := state.decision ++ [decide (5 < state.count judged)]
      answer := state.answer ++ [answer] }

structure Scores where
  consistency : ℚ
  accuracy : ℚ
  deriving DecidableEq

def agreements (left right : List Bool) : ℕ :=
  (left.zip right).countP fun pair => pair.1 = pair.2

/-- The scores of `update_rep`, which fails when there are too few votes. -/
def updateRep (vote decision answer : List Bool) : Option Scores :=
  if vote.length < decision.length then none
  else some ⟨agreements decision vote / decision.length, agreements answer vote / decision.length⟩

namespace Event

def castBy [DecidableEq Member] (member : Member) : Event Member Judged → Option Judged
  | .cast other judged => if other = member then some judged else none
  | .conclude _ _ => none

def votedBy [DecidableEq Judged] (judged : Judged) : Event Member Judged → Option Member
  | .cast member other => if other = judged then some member else none
  | .conclude _ _ => none

def concluded : Event Member Judged → Option (Judged × Bool)
  | .cast _ _ => none
  | .conclude judged answer => some (judged, answer)

end Event

/-- The votes between two updates. On every user, each of the members votes once before the thread
of the user is finished. -/
structure Period (Member Judged : Type*) where
  committee : List Member
  events : List (Event Member Judged)
  enough : 5 < committee.length
  members : committee.Nodup
  once : events.Nodup
  onMember : ∀ member judged, .cast member judged ∈ events →
    member ∈ committee ∧ ∃ answer, .conclude judged answer ∈ events
  distinct : (events.filterMap Event.concluded).map Prod.fst |>.Nodup
  complete : ∀ front judged answer back, events = front ++ .conclude judged answer :: back →
    ∀ member ∈ committee, .cast member judged ∈ front

namespace Period

variable (period : Period Member Judged)

def concluded : List (Judged × Bool) :=
  period.events.filterMap Event.concluded

def decided : List Judged :=
  period.concluded.map Prod.fst

def castBy [DecidableEq Member] (member : Member) : List Judged :=
  period.events.filterMap (Event.castBy member)

def ended [DecidableEq Member] [DecidableEq Judged] (verdict : Judged → Member → Bool)
    (state : State Member Judged) : State Member Judged :=
  period.events.foldl (State.step verdict) state

def updateCommittees (state : State Member Judged) : List (Member × Option Scores) :=
  if state.decision = [] then []
  else period.committee.map fun member =>
    (member, updateRep (state.vote member) state.decision state.answer)

end Period

def State.cleared (state : State Member Judged) : State Member Judged where
  vote := state.vote
  count := fun _ => 0
  decision := []
  answer := []

def updates [DecidableEq Member] [DecidableEq Judged] (verdict : Judged → Member → Bool) :
    State Member Judged → List (Period Member Judged) → List (Member × Option Scores)
  | _, [] => []
  | state, period :: periods =>
    period.updateCommittees (period.ended verdict state) ++
      updates verdict (period.ended verdict state).cleared periods

def State.initial : State Member Judged where
  vote := fun _ => []
  count := fun _ => 0
  decision := []
  answer := []

/-- A run: the periods with their committees, in which no judgement is made twice. -/
structure Schedule (Member Judged : Type*) where
  periods : List (Period Member Judged)
  distinct : (periods.flatMap Period.decided).Nodup

/-! ### The scores as they should be -/

def committeeDecision (verdict : Judged → Member → Bool) (committee : List Member)
    (judged : Judged) : Bool :=
  5 < committee.countP (verdict judged)

namespace Period

variable (period : Period Member Judged)

/-- The fractions of the users of a period on which a member agrees with the committee and with the
truth. -/
def rightScores (verdict : Judged → Member → Bool) (member : Member) : Scores where
  consistency := period.concluded.countP (fun judged =>
    verdict judged.1 member = committeeDecision verdict period.committee judged.1) /
      period.concluded.length
  accuracy := period.concluded.countP (fun judged => verdict judged.1 member = judged.2) /
    period.concluded.length

def rightUpdates (verdict : Judged → Member → Bool) : List (Member × Option Scores) :=
  if period.concluded = [] then []
  else period.committee.map fun member => (member, some (period.rightScores verdict member))

end Period

/-! ### Events -/

section Events

variable {verdict : Judged → Member → Bool} {state : State Member Judged}
  {event : Event Member Judged} {events : List (Event Member Judged)} {member : Member}
  {judged : Judged} {answer : Bool}

theorem concluded_eq_some_iff :
    event.concluded = some (judged, answer) ↔ event = .conclude judged answer := by
  cases event <;> simp [Event.concluded]

theorem mem_concluded : (judged, answer) ∈ events.filterMap Event.concluded ↔
    .conclude judged answer ∈ events := by
  simp [mem_filterMap, concluded_eq_some_iff]

variable [DecidableEq Member]

theorem castBy_eq_some_iff : event.castBy member = some judged ↔ event = .cast member judged := by
  cases event <;> simp [Event.castBy]

theorem mem_castBy : judged ∈ events.filterMap (Event.castBy member) ↔
    .cast member judged ∈ events := by
  simp [mem_filterMap, castBy_eq_some_iff]

variable [DecidableEq Judged]

theorem vote_foldl : (events.foldl (State.step verdict) state).vote member =
    state.vote member ++ (events.filterMap (Event.castBy member)).map (verdict · member) := by
  induction events generalizing state with
  | nil => simp
  | cons event events ih =>
    rw [foldl_cons, ih]
    cases event with
    | cast other judged =>
      by_cases same : other = member
      · subst same
        simp [State.step, Event.castBy]
      · simp [State.step, Event.castBy, same, Function.update_of_ne (Ne.symm same)]
    | conclude judged answer => simp [State.step, Event.castBy, filterMap_cons]

theorem count_foldl : (events.foldl (State.step verdict) state).count judged =
    state.count judged + (events.filterMap (Event.votedBy judged)).countP (verdict judged) := by
  induction events generalizing state with
  | nil => simp
  | cons event events ih =>
    rw [foldl_cons, ih]
    cases event with
    | cast member other =>
      by_cases same : other = judged
      · subst same
        cases vote : verdict other member <;> simp [State.step, Event.votedBy, vote]
        omega
      · cases vote : verdict other member <;>
          simp [State.step, Event.votedBy, same, vote, Function.update_of_ne (Ne.symm same)]
    | conclude other answer => simp [State.step, Event.votedBy, filterMap_cons]

theorem answer_foldl : (events.foldl (State.step verdict) state).answer =
    state.answer ++ (events.filterMap Event.concluded).map Prod.snd := by
  induction events generalizing state with
  | nil => simp
  | cons event events ih =>
    rw [foldl_cons, ih]
    cases event <;> simp [State.step, Event.concluded, filterMap_cons]

omit [DecidableEq Member] in
theorem votedBy_eq_some_iff : event.votedBy judged = some member ↔ event = .cast member judged := by
  cases event <;> simp [Event.votedBy, and_comm]

end Events

/-! ### Periods -/

namespace Period

variable {period : Period Member Judged} {verdict : Judged → Member → Bool}
  {state : State Member Judged} {member : Member}

theorem votedBy_perm [DecidableEq Judged] {front back : List (Event Member Judged)}
    {judged : Judged} {answer : Bool}
    (split : period.events = front ++ .conclude judged answer :: back) :
    (front.filterMap (Event.votedBy judged)).Perm period.committee := by
  have once := period.once
  rw [split] at once
  apply (perm_ext_iff_of_nodup ?_ period.members).mpr
  · intro member
    simp only [mem_filterMap, votedBy_eq_some_iff, exists_eq_right]
    constructor
    · intro inFront
      apply (period.onMember member judged ?_).1
      rw [split]
      exact mem_append_left _ inFront
    · exact period.complete front judged answer back split member
  · apply once.of_append_left.filterMap
    intro first second member isFirst isSecond
    rw [votedBy_eq_some_iff.mp isFirst, votedBy_eq_some_iff.mp isSecond]

variable [DecidableEq Member]

theorem castBy_perm (isMember : member ∈ period.committee) :
    (period.castBy member).Perm period.decided := by
  apply (perm_ext_iff_of_nodup ?_ period.distinct).mpr
  · intro judged
    rw [castBy, mem_castBy, mem_map]
    constructor
    · intro cast
      rcases (period.onMember member judged cast).2 with ⟨answer, concluded⟩
      exact ⟨(judged, answer), mem_concluded.mpr concluded, rfl⟩
    · rintro ⟨⟨judged', answer⟩, concluded, rfl⟩
      rcases append_of_mem (mem_concluded.mp concluded) with ⟨front, back, split⟩
      rw [split]
      exact mem_append_left _ (period.complete front judged' answer back split member isMember)
  · apply period.once.filterMap
    intro first second judged isFirst isSecond
    rw [castBy_eq_some_iff.mp isFirst, castBy_eq_some_iff.mp isSecond]

theorem castBy_of_notMem (notMember : member ∉ period.committee) : period.castBy member = [] := by
  apply eq_nil_iff_forall_not_mem.mpr
  intro judged cast
  exact notMember (period.onMember member judged (mem_castBy.mp cast)).1

variable [DecidableEq Judged]

theorem decision_ended (started : state.decision = []) (counts : ∀ judged, state.count judged = 0) :
    (period.ended verdict state).decision =
      period.concluded.map fun judged => committeeDecision verdict period.committee judged.1 := by
  -- By induction on the part of the events that has happened.
  have prefixes (front back : List (Event Member Judged)) (split : period.events = front ++ back) :
      (front.foldl (State.step verdict) state).decision =
        (front.filterMap Event.concluded).map
          fun judged => committeeDecision verdict period.committee judged.1 := by
    induction front using List.reverseRecOn generalizing back with
    | nil => simp [started]
    | append_singleton front event ih =>
      rw [append_assoc] at split
      have before := ih _ split
      rw [foldl_concat, filterMap_append, map_append]
      cases event with
      | cast other judged =>
        simpa [State.step, Event.concluded, filterMap_cons] using before
      | conclude judged answer =>
        have count := (votedBy_perm split).countP_eq (verdict judged)
        simp [State.step, Event.concluded, before, count_foldl, counts, count, committeeDecision]
  exact prefixes period.events [] (by simp)

theorem vote_ended : (period.ended verdict state).vote member =
    state.vote member ++ (period.castBy member).map (verdict · member) :=
  vote_foldl

theorem answer_ended (started : state.answer = []) :
    (period.ended verdict state).answer = period.concluded.map Prod.snd := by
  rw [ended, answer_foldl, started]
  rfl

end Period

/-! ### Scores -/

section Scores

variable {period : Period Member Judged} {member : Member}

theorem agreements_map {entries : List (Judged × Bool)} {seen : List Judged}
    (aligned : seen.take entries.length = entries.map Prod.fst) (left : Judged × Bool → Bool)
    (right : Judged → Bool) : agreements (entries.map left) (seen.map right) =
      entries.countP fun entry => left entry = right entry.1 := by
  rw [agreements, ← take_append_drop entries.length seen, aligned, map_append,
    ← append_nil (entries.map left), zip_append (by simp), map_map, zip_map',
    zip_nil_left, append_nil, countP_map]
  rfl

theorem take_eq_of_agreements [DecidableEq Judged] {decided seen : List Judged}
    (long : decided.length ≤ seen.length)
    (full : ∀ chosen, agreements (decided.map fun judged => decide (judged = chosen))
      (seen.map fun judged => decide (judged = chosen)) = decided.length) :
    seen.take decided.length = decided := by
  apply ext_getElem (by simpa using long)
  intro index _ inDecided
  have inSeen : index < seen.length := by omega
  have everywhere := full decided[index]
  have length : decided.length = ((decided.map fun judged => decide (judged = decided[index])).zip
      (seen.map fun judged => decide (judged = decided[index]))).length := by
    simpa using long
  rw [agreements, length, countP_eq_length] at everywhere
  have here := everywhere _ (getElem_mem (by simpa using ⟨inDecided, inSeen⟩ : index < _))
  simpa using here

theorem committeeDecision_of_unanimous {committee : List Member} (enough : 5 < committee.length)
    (opinion : Judged → Bool) (judged : Judged) :
    committeeDecision (fun judged _ => opinion judged) committee judged = opinion judged := by
  cases view : opinion judged <;> simp [committeeDecision, view, enough]

theorem updateRep_right_iff [DecidableEq Judged] (nonempty : period.concluded ≠ [])
    {seen : List Judged} (long : period.decided.length ≤ seen.length) :
    (∀ verdict : Judged → Member → Bool,
      updateRep (seen.map (verdict · member))
        (period.concluded.map fun judged => committeeDecision verdict period.committee judged.1)
        (period.concluded.map Prod.snd) = some (period.rightScores verdict member)) ↔
      seen.take period.decided.length = period.decided := by
  have length : period.decided.length = period.concluded.length := length_map _
  have enoughVotes (decision : Judged × Bool → Bool) (vote : Judged → Bool) :
      ¬(seen.map vote).length < (period.concluded.map decision).length := by
    simpa [← length] using long
  constructor
  · intro right
    apply take_eq_of_agreements long
    intro chosen
    have scores := right fun judged _ => decide (judged = chosen)
    rw [updateRep, if_neg (enoughVotes _ _), Option.some.injEq, Period.rightScores,
      Scores.mk.injEq] at scores
    have consistency := scores.1
    have positive : (period.concluded.length : ℚ) ≠ 0 := by
      exact_mod_cast (length_pos_iff.mpr nonempty).ne'
    simp only [committeeDecision_of_unanimous period.enough, length_map, decide_true,
      countP_true, div_left_inj' positive, Nat.cast_inj] at consistency
    rw [length, ← consistency, Period.decided, map_map]
    rfl
  · intro aligned verdict
    rw [length] at aligned
    rw [updateRep, if_neg (enoughVotes _ _), agreements_map aligned, agreements_map aligned,
      Period.rightScores, length_map]
    simp only [eq_comm]

end Scores

/-! ### Runs -/

section Runs

variable [DecidableEq Member]

def castBefore (periods : List (Period Member Judged)) (member : Member) : List Judged :=
  periods.flatMap fun period => period.castBy member

/-- The members of a period have not voted before, and their votes are in the order of the
decisions. -/
def Period.Aligned (before : List (Period Member Judged)) (period : Period Member Judged) : Prop :=
  period.decided ≠ [] → ∀ member ∈ period.committee,
    (∀ earlier ∈ before, member ∈ earlier.committee → earlier.decided = []) ∧
      period.castBy member = period.decided

variable {verdict : Judged → Member → Bool} {before periods : List (Period Member Judged)}
  {period : Period Member Judged} {member : Member}

theorem castBefore_eq_nil_iff : castBefore before member = [] ↔
    ∀ earlier ∈ before, member ∈ earlier.committee → earlier.decided = [] := by
  rw [castBefore, flatMap_eq_nil_iff]
  apply forall₂_congr
  intro earlier _
  by_cases isMember : member ∈ earlier.committee
  · have same := Period.castBy_perm isMember
    simp only [isMember, forall_const]
    constructor
    · intro empty
      rwa [empty, nil_perm] at same
    · intro empty
      rwa [empty, perm_nil] at same
  · simp [isMember, Period.castBy_of_notMem isMember]

theorem exists_of_mem_castBefore {judged : Judged} (cast : judged ∈ castBefore before member) :
    ∃ earlier ∈ before, judged ∈ earlier.decided := by
  rcases mem_flatMap.mp cast with ⟨earlier, isEarlier, cast⟩
  refine ⟨earlier, isEarlier, ?_⟩
  by_cases isMember : member ∈ earlier.committee
  · exact (Period.castBy_perm isMember).mem_iff.mp cast
  · simp [Period.castBy_of_notMem isMember] at cast

theorem take_castBefore_iff (isMember : member ∈ period.committee) (nonempty : period.decided ≠ [])
    (fresh : ∀ earlier ∈ before, ∀ judged ∈ earlier.decided, judged ∉ period.decided) :
    (castBefore before member ++ period.castBy member).take period.decided.length = period.decided ↔
      castBefore before member = [] ∧ period.castBy member = period.decided := by
  have length := (Period.castBy_perm isMember).length_eq
  constructor
  · intro aligned
    have first : castBefore before member = [] := by
      apply eq_nil_iff_forall_not_mem.mpr
      intro judged cast
      rcases exists_cons_of_ne_nil (ne_nil_of_mem cast) with ⟨head, tail, split⟩
      rcases exists_of_mem_castBefore (split ▸ mem_cons_self : head ∈ castBefore before member)
        with ⟨earlier, isEarlier, decided⟩
      apply fresh earlier isEarlier head decided
      rcases Nat.exists_eq_succ_of_ne_zero (length_pos_iff.mpr nonempty).ne' with ⟨rest, more⟩
      rw [← aligned, split, more, cons_append, take_succ_cons]
      exact mem_cons_self
    rw [first, nil_append, ← length, take_length] at aligned
    exact ⟨first, aligned⟩
  · rintro ⟨first, same⟩
    rw [first, same, nil_append, take_length]

variable [DecidableEq Judged]

def stateBehind (verdict : Judged → Member → Bool) (before : List (Period Member Judged)) :
    State Member Judged where
  vote := fun member => (castBefore before member).map (verdict · member)
  count := fun _ => 0
  decision := []
  answer := []

theorem cleared_ended : (period.ended verdict (stateBehind verdict before)).cleared =
    stateBehind verdict (before ++ [period]) := by
  simp only [State.cleared, stateBehind, State.mk.injEq, and_true]
  funext member
  simp [Period.vote_ended, castBefore]

theorem updateCommittees_ended :
    period.updateCommittees (period.ended verdict (stateBehind verdict before)) =
      if period.concluded = [] then [] else period.committee.map fun member => (member,
        updateRep ((castBefore before member ++ period.castBy member).map (verdict · member))
          (period.concluded.map fun judged => committeeDecision verdict period.committee judged.1)
          (period.concluded.map Prod.snd)) := by
  rw [Period.updateCommittees, Period.decision_ended rfl fun _ => rfl, Period.answer_ended rfl]
  simp [Period.vote_ended, stateBehind]

theorem updateCommittees_right_iff
    (fresh : ∀ earlier ∈ before, ∀ judged ∈ earlier.decided, judged ∉ period.decided) :
    (∀ verdict, period.updateCommittees (period.ended verdict (stateBehind verdict before)) =
        period.rightUpdates verdict) ↔ period.Aligned before := by
  simp only [updateCommittees_ended, Period.rightUpdates, Period.Aligned]
  by_cases empty : period.concluded = []
  · simp [empty, Period.decided]
  · have nonempty : period.decided ≠ [] := by simpa [Period.decided] using empty
    simp only [empty, if_false, nonempty, ne_eq, not_false_eq_true, forall_const, map_inj_left,
      Prod.mk.injEq, true_and]
    rw [forall_comm]
    apply forall_congr'
    intro member
    rw [forall_comm]
    apply forall_congr'
    intro isMember
    have length := (Period.castBy_perm isMember).length_eq
    rw [updateRep_right_iff empty (by simp [length]), take_castBefore_iff isMember nonempty fresh,
      castBefore_eq_nil_iff]

theorem updates_right_iff (distinct : ((before ++ periods).flatMap Period.decided).Nodup) :
    (∀ verdict, updates verdict (stateBehind verdict before) periods =
        periods.flatMap fun period => period.rightUpdates verdict) ↔
      ∀ front period back, periods = front ++ period :: back →
        period.Aligned (before ++ front) := by
  induction periods generalizing before with
  | nil => simp [updates]
  | cons period periods ih =>
    have fresh : ∀ earlier ∈ before, ∀ judged ∈ earlier.decided, judged ∉ period.decided := by
      intro earlier isEarlier judged decided again
      rw [flatMap_append, flatMap_cons] at distinct
      exact disjoint_of_nodup_append distinct (mem_flatMap.mpr ⟨_, isEarlier, decided⟩)
        (mem_append_left _ again)
    have sameLength (verdict : Judged → Member → Bool) :
        (period.updateCommittees (period.ended verdict (stateBehind verdict before))).length =
          (period.rightUpdates verdict).length := by
      rw [updateCommittees_ended, Period.rightUpdates]
      split_ifs <;> simp
    rw [append_cons] at distinct
    have here := updateCommittees_right_iff fresh
    have later := ih distinct
    constructor
    · intro right front other back split
      have parts (verdict : Judged → Member → Bool) :=
        append_inj (right verdict) (sameLength verdict)
      cases front with
      | nil =>
        rcases List.cons.inj split with ⟨rfl, rfl⟩
        rw [append_nil]
        exact here.mp fun verdict => (parts verdict).1
      | cons first front =>
        rcases List.cons.inj split with ⟨rfl, rfl⟩
        rw [append_cons]
        refine later.mp (fun verdict => ?_) front other back rfl
        rw [← cleared_ended]
        exact (parts verdict).2
    · intro aligned verdict
      have first : period.Aligned before := by
        simpa using aligned [] period periods rfl
      have others : ∀ front other back, periods = front ++ other :: back →
          other.Aligned (before ++ [period] ++ front) := by
        intro front other back split
        rw [← append_cons]
        exact aligned (period :: front) other back (by rw [split, cons_append])
      rw [updates, flatMap_cons, cleared_ended, here.mpr first, later.mpr others]

end Runs

/-- Every vote is scored against the decision on its own user exactly if the committee of each
period is new and votes in the order of the decisions. -/
theorem scores_right_iff [DecidableEq Member] [DecidableEq Judged]
    (schedule : Schedule Member Judged) :
    (∀ verdict, updates verdict State.initial schedule.periods =
        schedule.periods.flatMap fun period => period.rightUpdates verdict) ↔
      ∀ before period after, schedule.periods = before ++ period :: after → period.Aligned before :=
  @updates_right_iff _ _ _ [] schedule.periods _ schedule.distinct

def singlePeriod (judged : ℕ) (answer : Bool) : Period ℕ ℕ where
  committee := List.range 10
  events := (List.range 10).map (Event.cast · judged) ++ [.conclude judged answer]
  enough := by simp
  members := nodup_range
  once := by
    apply List.Nodup.append
    · exact nodup_range.map fun first second same => by simpa using same
    · simp
    · simp
  onMember := by simp
  distinct := by exact nodup_singleton judged
  complete := by
    intro front other answer' back split member isMember
    rcases eq_nil_or_concat back with rfl | ⟨rest, last, rfl⟩
    · rcases append_inj' split rfl with ⟨rfl, same⟩
      simp only [List.cons.injEq, Event.conclude.injEq, and_true] at same
      rw [← same.1]
      exact mem_map_of_mem isMember
    · -- Only the last event is a conclusion.
      rw [concat_eq_append, ← cons_append, ← append_assoc] at split
      have inside := (append_inj' split rfl).1
      have casts : Event.conclude other answer' ∈ (List.range 10).map (Event.cast · judged) := by
        rw [inside]
        simp
      simp at casts

/-- Members of a second period are judged by their first vote. -/
theorem scores_of_reelected :
    ∃ (schedule : Schedule ℕ ℕ) (verdict : ℕ → ℕ → Bool),
      updates verdict State.initial schedule.periods =
        (List.range 10).map (·, some ⟨1, 1⟩) ++ (List.range 10).map (·, some ⟨0, 0⟩) ∧
      schedule.periods.flatMap (fun period => period.rightUpdates verdict) =
        (List.range 10).map (·, some ⟨1, 1⟩) ++ (List.range 10).map (·, some ⟨1, 1⟩) := by
  refine ⟨⟨[singlePeriod 0 true, singlePeriod 1 false], by decide⟩, fun judged _ => judged = 0,
    ?_, ?_⟩
  · decide +kernel
  · decide +kernel

end TigerMixer.Simulation
