import TigerMixer.Reputation.DecisionLog

/-!
# The consistency score

The consistency of an address is the share of requests in which it decided like the majority. The
code takes two of the first ten responders who did not provide shares for the majority, and two who
did only if there are not two of the former.
-/

namespace TigerMixer.Reputation

open Bytes Text Table List

/-! ### The majority of a request -/

def rowsOf (log : List Row) (requestId : Bytes) : List Row :=
  log.filter fun row => row.requestId = requestId

def requestIds (log : List Row) : Finset Bytes :=
  (log.map Row.requestId).toFinset

def Row.responder (row : Row) : Bytes :=
  lower row.participantAddress

def responders (rows : List Row) : List Bytes :=
  (rows.map Row.responder).eraseDups

def decisionOf (rows : List Row) (responder : Bytes) : Option Decision :=
  (rows.filter fun row => row.responder = responder).getLast?.map Row.actualDecision

def supporters (rows : List Row) (decision : Decision) : List Bytes :=
  (responders rows).filter fun responder => decisionOf rows responder = some decision

/-- At least two have responded, and more than half of them have made the decision. -/
def IsMajority (rows : List Row) (decision : Decision) : Prop :=
  2 ≤ (responders rows).length ∧ (responders rows).length < 2 * (supporters rows decision).length

instance (rows : List Row) (decision : Decision) : Decidable (IsMajority rows decision) :=
  inferInstanceAs (Decidable (_ ∧ _))

def majority (rows : List Row) : Option Decision :=
  [.providedShares, .noAuditNeeded, .notFound].find? fun decision => IsMajority rows decision

/-- The share of the requests with a majority in which the address has decided like it. -/
def consistency (log : List Row) (address : Bytes) : ℕ :=
  let judged := (requestIds log).filter fun requestId =>
    (majority (rowsOf log requestId)).isSome = true
  let agreed := judged.filter fun requestId =>
    decisionOf (rowsOf log requestId) (lower address) = majority (rowsOf log requestId)
  if judged.card = 0 then 50 else 100 * agreed.card / judged.card

/-! ### What is taken for the majority -/

def heard (rows : List Row) : List Bytes :=
  (responders rows).take 10

def heldBack (rows : List Row) : List Bytes :=
  (heard rows).filter fun responder => decisionOf rows responder ≠ some .providedShares

def gaveShares (rows : List Row) : List Bytes :=
  (heard rows).filter fun responder => decisionOf rows responder = some .providedShares

def takenForMajority (rows : List Row) : Option (List Bytes) :=
  if 2 ≤ (heldBack rows).length then some (heldBack rows)
  else if 2 ≤ (gaveShares rows).length then some (gaveShares rows)
  else none

def RightlyJudged (rows : List Row) : Prop :=
  ∀ taken ∈ takenForMajority rows, ∃ decision, IsMajority rows decision ∧
    ∀ responder, responder ∈ supporters rows decision ↔ responder ∈ taken

section Responders

variable {rows : List Row} {responder : Bytes} {decision : Decision}

theorem lower_responder (member : responder ∈ responders rows) : lower responder = responder := by
  rw [responders, mem_eraseDups, mem_map] at member
  rcases member with ⟨row, -, rfl⟩
  exact lower_lower _

theorem mem_responders_of_decisionOf (decided : decisionOf rows responder = some decision) :
    responder ∈ responders rows := by
  rw [decisionOf, Option.map_eq_some_iff] at decided
  rcases decided with ⟨row, last, -⟩
  have member := mem_of_getLast? last
  rw [mem_filter, decide_eq_true_eq] at member
  rw [responders, mem_eraseDups, mem_map]
  exact ⟨row, member⟩

theorem mem_supporters_iff :
    responder ∈ supporters rows decision ↔ decisionOf rows responder = some decision := by
  rw [supporters, mem_filter, decide_eq_true_eq, and_iff_right_iff_imp]
  exact mem_responders_of_decisionOf

theorem mem_responders_of_taken {taken : List Bytes} (isTaken : taken ∈ takenForMajority rows)
    (member : responder ∈ taken) : responder ∈ responders rows := by
  rw [Option.mem_def, takenForMajority] at isTaken
  split_ifs at isTaken <;> rw [← Option.some.inj isTaken] at member
  · exact mem_of_mem_take (mem_of_mem_filter member)
  · exact mem_of_mem_take (mem_of_mem_filter member)

theorem length_heldBack_add :
    (heldBack rows).length + (gaveShares rows).length = (heard rows).length := by
  rw [heldBack, gaveShares, ← countP_eq_length_filter, ← countP_eq_length_filter,
    length_eq_countP_add_countP
      fun responder => decide (decisionOf rows responder ≠ some .providedShares)]
  simp

theorem IsMajority.unique {other : Decision} (first : IsMajority rows decision)
    (second : IsMajority rows other) : decision = other := by
  by_contra different
  have among : (responders rows).length = _ := length_eq_countP_add_countP
    fun responder => decide (decisionOf rows responder = some decision)
  have others : (responders rows).countP (fun responder => decisionOf rows responder = some other) ≤
      (responders rows).countP fun responder =>
        ¬decide (decisionOf rows responder = some decision) = true := by
    apply countP_mono_left
    intro responder _ decided
    simp only [decide_eq_true_eq] at decided ⊢
    rw [decided, Option.some.injEq]
    exact Ne.symm different
  have many := first.2
  have many' := second.2
  rw [supporters, ← countP_eq_length_filter] at many many'
  omega

theorem majority_eq_some_iff : majority rows = some decision ↔ IsMajority rows decision := by
  constructor
  · intro found
    simpa using find?_some found
  · intro isMajority
    cases found : majority rows with
    | none =>
      rw [majority, find?_eq_none] at found
      refine absurd isMajority ?_
      simpa using found decision (by cases decision <;> simp)
    | some other =>
      have second : IsMajority rows other := by simpa using find?_some found
      rw [isMajority.unique second]

theorem majority_eq_none (nobody : takenForMajority rows = none) : majority rows = none := by
  rw [takenForMajority] at nobody
  split_ifs at nobody with held gave
  have sum := @length_heldBack_add rows
  have few : (responders rows).length ≤ 10 := by
    rw [heard, length_take] at sum
    omega
  have all : heard rows = responders rows := take_of_length_le few
  rw [Option.eq_none_iff_forall_ne_some]
  intro decision found
  have isMajority := majority_eq_some_iff.mp found
  have supported : (supporters rows decision).length ≤ 1 := by
    by_cases provides : decision = .providedShares
    · rw [supporters, provides, ← all]
      exact Nat.le_of_lt_succ (not_le.mp gave)
    · apply le_trans _ (Nat.le_of_lt_succ (not_le.mp held))
      rw [supporters, heldBack, all, ← countP_eq_length_filter, ← countP_eq_length_filter]
      apply countP_mono_left
      intro responder _ decided
      simp only [decide_eq_true_eq] at decided ⊢
      rw [decided, Ne, Option.some.injEq]
      exact provides
  have two := isMajority.1
  have many := isMajority.2
  omega

end Responders

variable {rows : List Row} {judge judge' : Bytes → Option Bool} {requestId : Bytes} {log : List Row}

theorem mem_heldBack_iff (all : heard rows = responders rows) {responder : Bytes} :
    responder ∈ heldBack rows ↔
      responder ∈ responders rows ∧ decisionOf rows responder ≠ some .providedShares := by
  rw [heldBack, all, mem_filter, decide_eq_true_eq]

theorem supporters_eq_heldBack {decision : Decision} (all : heard rows = responders rows)
    (same : ∀ responder, responder ∈ supporters rows decision ↔ responder ∈ heldBack rows) :
    supporters rows decision = heldBack rows := by
  rw [supporters, heldBack, all]
  apply filter_congr
  intro responder member
  rw [decide_eq_decide, ← mem_supporters_iff, same, mem_heldBack_iff all]
  exact and_iff_right member

theorem rightlyJudged_iff_of_few (few : (responders rows).length ≤ 10) :
    RightlyJudged rows ↔ (heldBack rows).length ≤ 1 ∨
      (gaveShares rows).length < (heldBack rows).length ∧
        ∃ decision, ∀ responder ∈ heldBack rows, decisionOf rows responder = some decision := by
  have all : heard rows = responders rows := take_of_length_le few
  have sum := @length_heldBack_add rows
  rw [all] at sum
  by_cases held : 2 ≤ (heldBack rows).length
  · have isTaken : takenForMajority rows = some (heldBack rows) := if_pos held
    constructor
    · intro right
      rcases right _ isTaken with ⟨decision, ⟨-, many⟩, same⟩
      rw [supporters_eq_heldBack all same] at many
      exact .inr ⟨by omega, decision, fun responder member =>
        mem_supporters_iff.mp ((same responder).mpr member)⟩
    · rintro (one | ⟨more, decision, agree⟩)
      · omega
      intro taken isTaken'
      rw [isTaken, Option.mem_def, Option.some.injEq] at isTaken'
      subst isTaken'
      have other : decision ≠ .providedShares := by
        rcases exists_mem_of_length_pos (by omega : 0 < (heldBack rows).length) with
          ⟨responder, member⟩
        rintro rfl
        exact ((mem_heldBack_iff all).mp member).2 (agree responder member)
      have same (responder : Bytes) :
          responder ∈ supporters rows decision ↔ responder ∈ heldBack rows := by
        rw [mem_supporters_iff]
        refine ⟨fun decided =>
          (mem_heldBack_iff all).mpr ⟨mem_responders_of_decisionOf decided, ?_⟩, agree responder⟩
        rw [decided, Ne, Option.some.injEq]
        exact other
      refine ⟨decision, ⟨by omega, ?_⟩, same⟩
      rw [supporters_eq_heldBack all same]
      omega
  · refine iff_of_true (fun taken isTaken => ?_) (.inl (by omega))
    rw [Option.mem_def, takenForMajority, if_neg held, Option.ite_none_right_eq_some,
      Option.some.injEq] at isTaken
    rcases isTaken with ⟨gave, rfl⟩
    have provided : supporters rows .providedShares = gaveShares rows := by
      rw [supporters, gaveShares, all]
    refine ⟨.providedShares, ⟨by omega, ?_⟩, fun responder => by rw [provided]⟩
    rw [provided]
    omega

/-! ### Judging a request -/

/-- The score that comes from a judgement for each request: none if it does not count, and
otherwise whether the address agrees. -/
def score (requestIds : Finset Bytes) (judge : Bytes → Option Bool) : ℕ :=
  let judged := requestIds.filter fun requestId => (judge requestId).isSome = true
  let agreed := requestIds.filter fun requestId => judge requestId = some true
  if judged.card = 0 then 50 else 100 * agreed.card / judged.card

def judgement (rows : List Row) (address : Bytes) : Option Bool :=
  (majority rows).map fun decision => decisionOf rows (lower address) = some decision

def codeJudgement (rows : List Row) (address : Bytes) : Option Bool :=
  (takenForMajority rows).map fun taken => lower address ∈ taken

theorem rightlyJudged_iff :
    RightlyJudged rows ↔ ∀ address, codeJudgement rows address = judgement rows address := by
  cases isTaken : takenForMajority rows with
  | none =>
    refine iff_of_true ?_ fun address => ?_
    · simp [RightlyJudged, isTaken]
    · rw [codeJudgement, isTaken, judgement, majority_eq_none isTaken, Option.map_none,
        Option.map_none]
  | some taken =>
    have judged (address : Bytes) :
        codeJudgement rows address = some (decide (lower address ∈ taken)) := by
      rw [codeJudgement, isTaken, Option.map_some]
    constructor
    · intro right address
      rcases right taken isTaken with ⟨decision, isMajority, same⟩
      rw [judged, judgement, majority_eq_some_iff.mpr isMajority, Option.map_some,
        Option.some.injEq, decide_eq_decide, ← same, mem_supporters_iff]
    · intro same taken' isTaken'
      rw [isTaken, Option.mem_def, Option.some.injEq] at isTaken'
      subst isTaken'
      have found := same []
      rw [judged, judgement, eq_comm, Option.map_eq_some_iff] at found
      rcases found with ⟨decision, found, -⟩
      refine ⟨decision, majority_eq_some_iff.mp found, fun responder => ?_⟩
      have agrees := same responder
      rw [judged, judgement, found, Option.map_some, Option.some.injEq, decide_eq_decide,
        ← mem_supporters_iff] at agrees
      constructor
      · intro supports
        rw [lower_responder (mem_of_mem_filter supports)] at agrees
        exact agrees.mpr supports
      · intro member
        rw [lower_responder (mem_responders_of_taken isTaken member)] at agrees
        exact agrees.mp member

theorem score_congr {requestIds : Finset Bytes}
    (same : ∀ requestId ∈ requestIds, judge requestId = judge' requestId) :
    score requestIds judge = score requestIds judge' := by
  have judged : requestIds.filter (fun requestId => (judge requestId).isSome = true) =
      requestIds.filter fun requestId => (judge' requestId).isSome = true :=
    Finset.filter_congr fun requestId member => by rw [same requestId member]
  have agreed : requestIds.filter (fun requestId => judge requestId = some true) =
      requestIds.filter fun requestId => judge' requestId = some true :=
    Finset.filter_congr fun requestId member => by rw [same requestId member]
  rw [score, score, judged, agreed]

theorem judge_eq_of_score_singleton (same : score {requestId} judge = score {requestId} judge') :
    judge requestId = judge' requestId := by
  have value (judge : Bytes → Option Bool) : score {requestId} judge =
      (judge requestId).elim 50 fun agrees => if agrees then 100 else 0 := by
    rcases judged : judge requestId with _ | _ | _ <;>
      simp [score, Finset.filter_singleton, judged]
  rcases judged : judge requestId with _ | _ | _ <;>
    rcases judged' : judge' requestId with _ | _ | _ <;> simp_all

theorem consistency_eq_score (log : List Row) (address : Bytes) :
    consistency log address =
      score (requestIds log) fun requestId => judgement (rowsOf log requestId) address := by
  have judged : ((requestIds log).filter fun requestId =>
      (majority (rowsOf log requestId)).isSome = true) =
      (requestIds log).filter fun requestId =>
        (judgement (rowsOf log requestId) address).isSome = true :=
    Finset.filter_congr fun requestId _ => by rw [judgement, Option.isSome_map]
  have agreed : (((requestIds log).filter fun requestId =>
      (majority (rowsOf log requestId)).isSome = true).filter fun requestId =>
        decisionOf (rowsOf log requestId) (lower address) = majority (rowsOf log requestId)) =
      (requestIds log).filter fun requestId =>
        judgement (rowsOf log requestId) address = some true := by
    rw [Finset.filter_filter]
    apply Finset.filter_congr
    intro requestId _
    rw [judgement]
    cases majority (rowsOf log requestId) <;> simp
  rw [consistency, score, ← judged, ← agreed]

/-! ### The groups of a log -/

section Groups

variable {rows : List Row}

def Group.lowered (group : Group) : Group :=
  { group with decisions := group.decisions.map fun vote => (voter vote, vote.2) }

def heardGroup (requestId : Bytes) (rows : List Row) : Group where
  requestId
  decisions := (heard rows).map fun responder =>
    (responder, decide (decisionOf rows responder = some .providedShares))

theorem majorityDecision_lowered (group : Group) :
    majorityDecision group.lowered.decisions = majorityDecision group.decisions := by
  rw [majorityDecision, majorityDecision, Group.lowered, countP_map, countP_map]
  rfl

theorem counts_lowered (group : Group) : group.lowered.Counts ↔ group.Counts := by
  rw [Group.Counts, Group.Counts, majorityDecision_lowered, Group.lowered, length_map]

theorem addressDecision_lowered (group : Group) (address : Bytes) :
    group.lowered.addressDecision address = group.addressDecision address := by
  have sameVoter : ((fun vote => decide (voter vote = lower address)) ∘
      fun vote : Bytes × Bool => (voter vote, vote.2)) =
      fun vote => decide (voter vote = lower address) := by
    funext vote
    simp only [Function.comp_apply, voter, lower_lower]
    rfl
  rw [Group.addressDecision, Group.addressDecision, Group.lowered, find?_map, Option.map_map,
    sameVoter]
  rfl

theorem requestId_foldl_add (first : Row) (rest : List Row) :
    (rest.foldl (fun group row => Group.add row.recorded group)
      (Group.new first.recorded)).requestId = first.requestId.take 127 := by
  induction rest using List.reverseRecOn with
  | nil => rfl
  | append_singleton rest row ih =>
    rw [foldl_append, ← ih]
    rfl

theorem decisions_foldl_add (first : Row) (rest : List Row) :
    (rest.foldl (fun group row => Group.add row.recorded group)
        (Group.new first.recorded)).decisions =
      tableWithin voter Row.responder (fun row vote => (vote.1, row.recorded.provided))
        (fun row => row.recorded.vote) 10 (first :: rest) := by
  induction rest using List.reverseRecOn with
  | nil => rfl
  | append_singleton rest row ih =>
    rw [tableWithin] at ih
    rw [foldl_append, ← cons_append, tableWithin, foldl_append, ← ih]
    rfl

theorem voter_vote (row : Row) : voter row.recorded.vote = row.responder :=
  congrArg lower (take_of_length_le row.participantShort)

theorem foldl_vote (first : Row) (rest : List Row) :
    rest.foldl (fun (vote : Bytes × Bool) row => (vote.1, row.recorded.provided))
        first.recorded.vote =
      (first.recorded.vote.1, decide (((first :: rest).getLast?.map Row.actualDecision) =
        some .providedShares)) := by
  induction rest using List.reverseRecOn with
  | nil =>
    rw [foldl_nil, getLast?_singleton, Option.map_some, Recorded.vote, first.provided_recorded]
    simp
  | append_singleton rest row ih =>
    rw [foldl_append, ih, ← cons_append, getLast?_concat, Option.map_some,
      foldl_cons, foldl_nil, row.provided_recorded]
    simp

theorem lowered_foldl_add (first : Row) (rest : List Row) :
    (rest.foldl (fun group row => Group.add row.recorded group)
        (Group.new first.recorded)).lowered =
      heardGroup (first.requestId.take 127) (first :: rest) := by
  have votes := @map_table _ Row _ _ _ voter Row.responder
    (fun row vote => (vote.1, row.recorded.provided)) (fun row => row.recorded.vote) _ _
    (fun vote => (voter vote, vote.2))
    (fun responder rows => (responder,
      decide (rows.getLast?.map Row.actualDecision = some .providedShares)))
    (fun _ _ => rfl) (first :: rest) (fun row _ => voter_vote row) fun head tail _ => by
      rw [foldl_vote, ← voter_vote head, voter, voter]
  rw [Group.lowered, requestId_foldl_add, decisions_foldl_add, tableWithin_eq, map_take,
    votes, ← map_take]
  rfl

theorem map_lowered_groups {log : List Row} (shortIds : ∀ row ∈ log, row.requestId.length ≤ 127) :
    (groups (log.map Row.recorded)).map Group.lowered =
      (log.map Row.requestId).eraseDups.map fun requestId =>
        heardGroup requestId (rowsOf log requestId) := by
  have short {row : Row} (member : row ∈ log) : row.requestId.take 127 = row.requestId :=
    take_of_length_le (shortIds row member)
  rw [groups, table_map]
  refine @map_table _ Row _ _ _ Group.requestId Row.requestId _ _ _ _ Group.lowered heardGroup
    (fun row entry => ?_) log (fun row member => ?_) fun first rest same => ?_
  · rfl
  · exact short member
  · rw [lowered_foldl_add, short (same first mem_cons_self).1]

theorem majorityDecision_heardGroup (requestId : Bytes) (rows : List Row) :
    majorityDecision (heardGroup requestId rows).decisions =
      if 2 ≤ (heldBack rows).length then some false
      else if 2 ≤ (gaveShares rows).length then some true else none := by
  have held : (heardGroup requestId rows).decisions.countP (fun vote => !vote.2) =
      (heldBack rows).length := by
    rw [heardGroup, countP_map, heldBack, ← countP_eq_length_filter]
    congr 1
    funext responder
    simp
  have gave : (heardGroup requestId rows).decisions.countP (fun vote => vote.2) =
      (gaveShares rows).length := by
    rw [heardGroup, countP_map, gaveShares, ← countP_eq_length_filter]
    rfl
  rw [majorityDecision, held, gave]

theorem addressDecision_heardGroup (requestId : Bytes) (rows : List Row) (address : Bytes) :
    (heardGroup requestId rows).addressDecision address =
      if lower address ∈ heard rows then
        some (decide (decisionOf rows (lower address) = some .providedShares)) else none := by
  have inOrder : ∀ those : List Bytes, (∀ responder ∈ those, responder ∈ responders rows) →
      ((those.map fun responder => (responder,
        decide (decisionOf rows responder = some .providedShares))).find?
          fun vote => voter vote = lower address).map Prod.snd =
      if lower address ∈ those then
        some (decide (decisionOf rows (lower address) = some .providedShares)) else none := by
    intro those among
    induction those with
    | nil => rfl
    | cons responder those ih =>
      rw [forall_mem_cons] at among
      have own : voter (responder, decide (decisionOf rows responder = some .providedShares)) =
          responder :=
        lower_responder among.1
      rw [map_cons, find?_cons, own]
      by_cases here : responder = lower address
      · rw [here, if_pos mem_cons_self]
        simp only [decide_true, Option.map_some]
      · have later : lower address ∈ responder :: those ↔ lower address ∈ those := by
          simp [Ne.symm here]
        simp only [here, decide_false, later]
        exact ih among.2
  exact inOrder (heard rows) fun responder member => mem_of_mem_take member

theorem judged_heardGroup (requestId : Bytes) (rows : List Row) (address : Bytes) :
    ((heardGroup requestId rows).Counts ↔ (codeJudgement rows address).isSome = true) ∧
      ((heardGroup requestId rows).Counts ∧ (heardGroup requestId rows).addressDecision address =
          majorityDecision (heardGroup requestId rows).decisions ↔
        codeJudgement rows address = some true) := by
  have sum := @length_heldBack_add rows
  have size : (heardGroup requestId rows).decisions.length = (heard rows).length := by
    rw [heardGroup, length_map]
  rw [Group.Counts, size, addressDecision_heardGroup, majorityDecision_heardGroup, codeJudgement,
    takenForMajority]
  have inHeld : lower address ∈ heldBack rows ↔ lower address ∈ heard rows ∧
      ¬decisionOf rows (lower address) = some .providedShares := by
    rw [heldBack, mem_filter, decide_eq_true_eq]
  have inGave : lower address ∈ gaveShares rows ↔ lower address ∈ heard rows ∧
      decisionOf rows (lower address) = some .providedShares := by
    rw [gaveShares, mem_filter, decide_eq_true_eq]
  by_cases held : 2 ≤ (heldBack rows).length
  · have enough : 2 ≤ (heard rows).length := by omega
    by_cases member : lower address ∈ heard rows <;> simp [held, enough, member, inHeld]
  · by_cases gave : 2 ≤ (gaveShares rows).length
    · have enough : 2 ≤ (heard rows).length := by omega
      by_cases member : lower address ∈ heard rows <;> simp [held, gave, enough, member, inGave]
    · simp [held, gave]

end Groups

theorem countP_groups (shortIds : ∀ row ∈ log, row.requestId.length ≤ 127) {holds : Group → Prop}
    [DecidablePred holds] (lowered : ∀ group, holds group.lowered ↔ holds group)
    {judged : Bytes → Prop} [DecidablePred judged]
    (same : ∀ requestId, holds (heardGroup requestId (rowsOf log requestId)) ↔ judged requestId) :
    (groups (log.map Row.recorded)).countP (fun group => holds group) =
      ((requestIds log).filter judged).card := by
  have counted := congrArg (List.countP fun group => decide (holds group))
    (map_lowered_groups shortIds)
  rw [countP_map, countP_map] at counted
  rw [requestIds, ← countP_eraseDups]
  simpa only [Function.comp_def, lowered, same] using counted

theorem calculateConsistency_eq_score (shortIds : ∀ row ∈ log, row.requestId.length ≤ 127)
    (address : Bytes) :
    calculateConsistencyForAddress (some (logText log)) address =
      score (requestIds log) fun requestId => codeJudgement (rowsOf log requestId) address := by
  have total := countP_groups shortIds counts_lowered fun requestId =>
    (judged_heardGroup requestId (rowsOf log requestId) address).1
  have consistent := @countP_groups log shortIds
    (fun group => group.Counts ∧ group.addressDecision address = majorityDecision group.decisions)
    _ (fun group => by
      rw [counts_lowered, addressDecision_lowered, majorityDecision_lowered])
    _ _ fun requestId => (judged_heardGroup requestId (rowsOf log requestId) address).2
  rw [calculateConsistencyForAddress, decisionLines_logText]
  simp only [filterMap_decisionColumns]
  rw [total, consistent, score, Nat.mul_comm]

/-- Of longer ids the stored part is never found again: every row is a request of its own, without a
majority. -/
theorem calculateConsistency_of_long (long : ∀ row ∈ log, 127 < row.requestId.length)
    (address : Bytes) : calculateConsistencyForAddress (some (logText log)) address = 50 := by
  have single : groups (log.map Row.recorded) = (log.map Row.recorded).map Group.new := by
    apply table_of_apart
    simp only [forall_mem_map]
    intro row member other _ same
    have stored := congrArg List.length same
    simp only [Group.new, Row.recorded, length_take] at stored
    have := long row member
    omega
  have none : (groups (log.map Row.recorded)).countP (fun group => group.Counts) = 0 := by
    simp [single, Group.Counts, Group.new]
  rw [calculateConsistencyForAddress, decisionLines_logText]
  simp only [filterMap_decisionColumns, none, if_true]

theorem rowsOf_filter {kept : Bytes → Bool} (isKept : kept requestId = true) :
    rowsOf (log.filter fun row => kept row.requestId) requestId = rowsOf log requestId := by
  rw [rowsOf, rowsOf, filter_filter]
  apply filter_congr
  intro row _
  by_cases same : row.requestId = requestId
  · simp [same, isKept]
  · simp [same]

/-- For ids that fit into their array, all scores are right, whichever requests are kept of the log,
exactly if in every request those who are taken for the majority are one. -/
theorem consistency_right_iff (log : List Row)
    (shortIds : ∀ row ∈ log, row.requestId.length ≤ 127) :
    (∀ (kept : Bytes → Bool) (address : Bytes),
      calculateConsistencyForAddress
          (some (logText (log.filter fun row => kept row.requestId))) address =
        consistency (log.filter fun row => kept row.requestId) address) ↔
      ∀ requestId ∈ requestIds log, RightlyJudged (rowsOf log requestId) := by
  have scores (kept : Bytes → Bool) (address : Bytes) := calculateConsistency_eq_score
    (fun row member => shortIds row (mem_of_mem_filter member) :
      ∀ row ∈ log.filter fun row => kept row.requestId, row.requestId.length ≤ 127) address
  constructor
  · intro right requestId member
    rw [rightlyJudged_iff]
    intro address
    -- What is left is the request alone.
    have alone : requestIds (log.filter fun row => decide (row.requestId = requestId)) =
        {requestId} := by
      rw [requestIds, mem_toFinset, mem_map] at member
      rcases member with ⟨row, member, rfl⟩
      ext other
      rw [requestIds, mem_toFinset, mem_map, Finset.mem_singleton]
      constructor
      · rintro ⟨found, among, rfl⟩
        simpa using of_mem_filter among
      · rintro rfl
        exact ⟨row, mem_filter.mpr ⟨member, by simp⟩, rfl⟩
    have same := right (fun other => decide (other = requestId)) address
    rw [scores fun other => decide (other = requestId), consistency_eq_score, alone] at same
    have judged := judge_eq_of_score_singleton same
    rwa [@rowsOf_filter requestId log (fun other => decide (other = requestId)) (by simp)] at judged
  · intro right kept address
    rw [scores, consistency_eq_score]
    apply score_congr
    intro requestId member
    rw [requestIds, mem_toFinset, mem_map] at member
    rcases member with ⟨row, member, rfl⟩
    rw [mem_filter] at member
    rw [rowsOf_filter member.2]
    have inLog : row.requestId ∈ requestIds log := mem_toFinset.mpr (mem_map_of_mem member.1)
    exact rightlyJudged_iff.mp (right _ inLog) address

def poll (actualDecision : Decision) : List Row :=
  [pollRow .a .noAuditNeeded, pollRow .b actualDecision, pollRow .c .providedShares,
    pollRow .d .providedShares, pollRow .e .providedShares]

theorem consistency_of_agreement :
    (∀ row ∈ poll .providedShares, row.requestId.length ≤ 127) ∧
      ∀ (kept : Bytes → Bool) (address : Bytes),
        calculateConsistencyForAddress
            (some (logText ((poll .providedShares).filter fun row => kept row.requestId)))
            address =
          consistency ((poll .providedShares).filter fun row => kept row.requestId) address := by
  have shortIds : ∀ row ∈ poll .providedShares, row.requestId.length ≤ 127 := by
    intro row member
    simp only [poll, mem_cons, not_mem_nil, or_false] at member
    rcases member with rfl | rfl | rfl | rfl | rfl <;> exact Nat.le_of_ble_eq_true rfl
  refine ⟨shortIds, (consistency_right_iff (poll .providedShares) shortIds).mpr ?_⟩
  intro requestId member
  have only : requestId = ascii ['m', '_', '1'] := by
    simpa [requestIds, poll, pollRow, sampleRow] using member
  rw [only]
  exact (rightlyJudged_iff_of_few (by decide +kernel)).mpr (.inl (by decide +kernel))

def longRow (voter : Voter) (actualDecision : Decision) : Row :=
  sampleRow (List.replicate 128 109) voter actualDecision (by decide +kernel) (by simp)

def longPoll : List Row :=
  [longRow .a .providedShares, longRow .b .providedShares]

/-- Two out of five are taken for the majority, and there is none for a long id on which all agree.
-/
theorem consistency_of_outvoted :
    calculateConsistencyForAddress (some (logText (poll .noAuditNeeded))) (ascii ['c']) = 0 ∧
      consistency (poll .noAuditNeeded) (ascii ['c']) = 100 ∧
      calculateConsistencyForAddress (some (logText longPoll)) (ascii ['a']) = 50 ∧
      consistency longPoll (ascii ['a']) = 100 := by
  refine ⟨by decide +kernel, by decide +kernel, ?_, by decide +kernel⟩
  apply calculateConsistency_of_long
  simp [longPoll, longRow, sampleRow]

end TigerMixer.Reputation
