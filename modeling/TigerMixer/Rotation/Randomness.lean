import TigerMixer.Rotation.Contract

/-!
# The random value of a rotation

How the random value, its proof and the three flags move through the calls. The steps of the
contract are a handful of storage updates, so an invariant is checked on those alone. The check in
`rotateCommittee` is commented out, and `verifyVRFProof` does not relate a proof to the random value
that was submitted with it.
-/

namespace TigerMixer.Rotation

open Calls

inductive Update (primitives : VrfPrimitives) : Request → State → State → Prop
  | rewardPool (pool : Address) (state : State) :
      Update primitives (.setRewardPool pool) state { state with rewardPool := pool }
  | vrfGenerator (generator : Address) (state : State) :
      Update primitives (.setVRFGenerator generator) state { state with vrfGenerator := generator }
  | submitted (timestamp random : ℕ) (proof publicKey message : Bytes) (state : State) :
      Update primitives (.submitVRFRandomWithProof random proof publicKey message) state
        (state.submitted timestamp random proof publicKey message)
  | verified (isValid : Bool) (state : State) (random : state.currentVRFRandom ≠ 0)
      (result : Vrf.proofAccepted primitives state.currentVRFPublicKey state.currentVRFProof
        state.currentVRFMessage = some isValid) :
      Update primitives .verifyVRFProof state (state.verified isValid)
  | added (candidate : Address) (state : State) (nonzero : candidate ≠ 0)
      (fresh : candidate ∉ state.candidatePool) :
      Update primitives (.addCandidate candidate) state
        (State.emit { state with candidatePool := state.candidatePool ++ [candidate] }
          (.candidateAdded candidate))
  | removed (candidate : Address) (index : ℕ) (state : State)
      (found : state.candidatePool.idxOf? candidate = some index) :
      Update primitives (.removeCandidate candidate) state
        (State.emit { state with candidatePool := removeAt state.candidatePool index }
          (.candidateRemoved candidate))
  | rotated (views : Views) (timestamp : ℕ) (newCommittee : List Address) (state : State) :
      Update primitives (.rotateCommittee views) state (state.rotated timestamp newCommittee)

/-- A rotation called in `start` that finds the state `before` at its end. -/
structure Rotates (msg : Msg) (views : Views) (start before after : State) : Prop where
  due : start.canRotate msg.timestamp
  enough : maxCommitteeSize ≤ start.candidatePool.length
  nonzero : start.currentVRFRandom ≠ 0
  unused : start.currentVRFUsed = false
  pool : start.rewardPool = 0 ∨ start.rewardPool ≠ start.self
  selected : selectNewCommittee .source views.reputation start.candidatePool
    start.currentVRFRandom = some after.currentCommittee
  rotated : after = before.rotated msg.timestamp after.currentCommittee

/-- What a call in `start` does, when it returns, to the state it then finds. -/
structure Effect (primitives : VrfPrimitives) (call : Call) (start before after : State) :
    Prop where
  update : Update primitives call.request before after
  verification : call.request = .verifyVRFProof → before = start ∧ call.msg.value = 0
  rotation : ∀ views, call.request = .rotateCommittee views →
    Rotates call.msg views start before after

theorem distributeRewards_updates {update : State → State → Prop} {epoch : ℕ}
    {previousCommittee : List Address} {state : State} {next : State → Prog State}
    (updates : ∀ state', (next state').Updates update state') :
    (distributeRewards epoch previousCommittee state next).Updates update state := by
  unfold distributeRewards
  split
  · exact ⟨rfl, updates state, updates⟩
  · exact updates state

theorem rotateCommittee_updates (msg : Msg) (views : Views) (start : State) :
    (rotateCommittee msg views start).Updates (Rotates msg views start) start := by
  simp only [rotateCommittee, Prog.updates_require_iff]
  intro due enough nonzero unused
  rw [Bool.not_eq_true] at unused
  cases selected : selectNewCommittee .source views.reputation start.candidatePool
      start.currentVRFRandom with
  | none => exact trivial
  | some newCommittee =>
    dsimp only
    split_ifs with none
    · exact ⟨due, enough, nonzero, unused, Or.inl none, selected, rfl⟩
    · simp only [Prog.updates_require_iff]
      intro other
      refine ⟨rfl, trivial, ?_⟩
      intro ended
      simp only [Prog.updates_require_iff]
      intro _
      cases views.currentEpoch with
      | none => exact trivial
      | some epoch =>
        apply distributeRewards_updates
        exact fun _ => ⟨due, enough, nonzero, unused, Or.inr other, selected, rfl⟩

theorem rotateCommittee_ends (msg : Msg) (views : Views) (state : State) :
    (rotateCommittee msg views state).Ends fun state' =>
      selectNewCommittee .source views.reputation state.candidatePool state.currentVRFRandom =
        some state'.currentCommittee :=
  (rotateCommittee_updates msg views state).ends fun _ _ rotates => rotates.selected

theorem execute_updates (primitives : VrfPrimitives) (call : Call) (start : State) :
    (execute primitives call start).Updates (Effect primitives call start) start := by
  rcases call with ⟨msg, request⟩
  simp only [execute, Prog.updates_require_iff]
  intro free
  cases request with
  | setRewardPool pool =>
    simp only [setRewardPool, Prog.updates_require_iff]
    intro _ _
    exact ⟨.rewardPool pool start, by simp, by simp⟩
  | setVRFGenerator generator =>
    simp only [setVRFGenerator, Prog.updates_require_iff]
    intro _
    exact ⟨.vrfGenerator generator start, by simp, by simp⟩
  | submitVRFRandomWithProof random proof publicKey message =>
    simp only [submitVRFRandomWithProof, Prog.updates_require_iff]
    intro _ _ _
    exact ⟨.submitted msg.timestamp random proof publicKey message start, by simp, by simp⟩
  | verifyVRFProof =>
    simp only [verifyVRFProof, Prog.updates_require_iff]
    intro _ _ random
    cases result : Vrf.proofAccepted primitives start.currentVRFPublicKey start.currentVRFProof
        start.currentVRFMessage with
    | none => exact trivial
    | some isValid =>
      exact ⟨.verified isValid start random result, fun _ => ⟨rfl, free⟩, by simp⟩
  | addCandidate candidate =>
    simp only [addCandidate, Prog.updates_require_iff]
    intro nonzero fresh
    exact ⟨.added candidate start nonzero fresh, by simp, by simp⟩
  | removeCandidate candidate =>
    simp only [removeCandidate]
    cases found : start.candidatePool.idxOf? candidate with
    | none => exact trivial
    | some index => exact ⟨.removed candidate index start found, by simp, by simp⟩
  | rotateCommittee views =>
    apply (rotateCommittee_updates msg views start).mono
    intro before after rotates
    refine ⟨?_, by simp, ?_⟩
    · rw [rotates.rotated]
      exact .rotated views msg.timestamp after.currentCommittee before
    · intro views' same
      cases same
      exact rotates

section Invariants

variable {primitives : VrfPrimitives} {invariant : State → Prop}

theorem keeps_execute {call : Call} {state : State}
    (update : ∀ before after, Update primitives call.request before after →
      (call.request = .verifyVRFProof → before = state ∧ call.msg.value = 0) →
        invariant before → invariant after) :
    (Discipline.preserving invariant).Keeps state (execute primitives call state) := by
  apply Discipline.keeps_of_updates (execute_updates primitives call state) _ id
  intro before after effect
  exact update before after effect.update effect.verification

theorem invariant_of_mem_seen
    (update : ∀ request before after, Update primitives request before after →
      invariant before → invariant after)
    {initial : State} (start : invariant initial) (script : Script Call) {state : State}
    (seen : state ∈ (script.run (execute primitives) initial).seen) : invariant state := by
  have within : (Discipline.preserving invariant).Within initial
      (script.run (execute primitives) initial) := by
    apply Discipline.run_within
    intro call state
    apply keeps_execute
    intro before after step _
    exact update _ before after step
  exact within.seen state seen start

end Invariants

section Submission

def lastSubmission : List Event → Option (ℕ × List Event)
  | [] => none
  | event :: rest =>
    match lastSubmission rest with
    | some submission => some submission
    | none =>
      match event with
      | .vrfRandomSubmitted random _ => some (random, rest)
      | _ => none

/-- The random value was submitted last, and its proof has been accepted since. -/
def AcceptedSinceSubmission (events : List Event) (random : ℕ) : Prop :=
  ∃ since, lastSubmission events = some (random, since) ∧ .vrfRandomVerified true random ∈ since

@[simp]
theorem lastSubmission_append_submitted (events : List Event) (random timestamp : ℕ) :
    lastSubmission (events ++ [.vrfRandomSubmitted random timestamp]) = some (random, []) := by
  induction events with
  | nil => rfl
  | cons event events ih => simp [lastSubmission, ih]

def Event.IsOther : Event → Prop
  | .vrfRandomSubmitted _ _ => False
  | _ => True

theorem lastSubmission_append (event : Event) (other : event.IsOther) (events : List Event) :
    lastSubmission (events ++ [event]) =
      (lastSubmission events).map fun submission => (submission.1, submission.2 ++ [event]) := by
  induction events with
  | nil =>
    cases event with
    | vrfRandomSubmitted random timestamp => exact other.elim
    | committeeRotated | candidateAdded | candidateRemoved | vrfRandomVerified
    | vrfRandomUsed => rfl
  | cons head events ih =>
    simp only [List.cons_append, lastSubmission, ih]
    cases lastSubmission events with
    | some submission => rfl
    | none =>
      cases head with
      | vrfRandomSubmitted random timestamp => rfl
      | committeeRotated | candidateAdded | candidateRemoved | vrfRandomVerified
      | vrfRandomUsed => rfl

end Submission

structure VrfInv (primitives : VrfPrimitives) (state : State) : Prop where
  submission : (lastSubmission state.events = none ∧ state.currentVRFRandom = 0 ∧
      state.currentVRFVerified = false) ∨
    ∃ since, lastSubmission state.events = some (state.currentVRFRandom, since) ∧
      (state.currentVRFVerified = true ↔ .vrfRandomVerified true state.currentVRFRandom ∈ since)
  accepted : state.currentVRFVerified = true →
    Vrf.proofAccepted primitives state.currentVRFPublicKey state.currentVRFProof
      state.currentVRFMessage = some true

section VrfInv

variable {primitives : VrfPrimitives} {state : State}

theorem VrfInv.append {state' : State} (inv : VrfInv primitives state) (event : Event)
    (other : event.IsOther) (notAccepted : ∀ random, event ≠ .vrfRandomVerified true random)
    (events : state'.events = state.events ++ [event])
    (random : state'.currentVRFRandom = state.currentVRFRandom)
    (proof : state'.currentVRFProof = state.currentVRFProof)
    (publicKey : state'.currentVRFPublicKey = state.currentVRFPublicKey)
    (message : state'.currentVRFMessage = state.currentVRFMessage)
    (verified : state'.currentVRFVerified = state.currentVRFVerified) :
    VrfInv primitives state' where
  submission := by
    rw [events, random, verified, lastSubmission_append event other]
    rcases inv.submission with ⟨none, zero, unverified⟩ | ⟨since, last, recorded⟩
    · exact Or.inl ⟨by rw [none]; rfl, zero, unverified⟩
    · refine Or.inr ⟨since ++ [event], by rw [last]; rfl, ?_⟩
      have different := (notAccepted state.currentVRFRandom).symm
      simp [recorded, different]
  accepted := by
    rw [verified, publicKey, proof, message]
    exact inv.accepted

theorem vrfInv_verified {isValid : Bool} (inv : VrfInv primitives state)
    (nonzero : state.currentVRFRandom ≠ 0)
    (result : Vrf.proofAccepted primitives state.currentVRFPublicKey state.currentVRFProof
      state.currentVRFMessage = some isValid) :
    VrfInv primitives (state.verified isValid) := by
  rcases inv.submission with ⟨-, zero, -⟩ | ⟨since, last, recorded⟩
  · exact absurd zero nonzero
  · refine ⟨Or.inr ⟨since ++
      [.vrfRandomVerified isValid (if isValid then state.currentVRFRandom else 0)], ?_, ?_⟩, ?_⟩
    · simp only [State.verified, State.emit]
      rw [lastSubmission_append (.vrfRandomVerified _ _) trivial, last]
      rfl
    · cases isValid with
      | true => simp [State.verified, State.emit]
      | false =>
        -- An earlier acceptance contradicts the present result.
        have notAccepted : .vrfRandomVerified true state.currentVRFRandom ∉ since := by
          intro member
          have accepted := inv.accepted (recorded.mpr member)
          simp [result] at accepted
        simp [State.verified, State.emit, notAccepted]
    · intro verified
      simp only [State.verified, State.emit] at verified
      subst verified
      exact result

theorem vrfInv_update {request : Request} {state' : State}
    (update : Update primitives request state state') (inv : VrfInv primitives state) :
    VrfInv primitives state' := by
  cases update with
  | rewardPool pool => exact ⟨inv.submission, inv.accepted⟩
  | vrfGenerator generator => exact ⟨inv.submission, inv.accepted⟩
  | submitted timestamp random proof publicKey message =>
    refine ⟨Or.inr ⟨[], ?_, ?_⟩, ?_⟩
    · simp [State.submitted, State.emit]
    · simp [State.submitted, State.emit]
    · simp [State.submitted, State.emit]
  | verified isValid _ random result => exact vrfInv_verified inv random result
  | added candidate =>
    exact inv.append (.candidateAdded candidate) trivial (by simp) rfl rfl rfl rfl rfl rfl
  | removed candidate index =>
    exact inv.append (.candidateRemoved candidate) trivial (by simp) rfl rfl rfl rfl rfl rfl
  | rotated views timestamp newCommittee =>
    have used : VrfInv primitives (state.emit
        (.vrfRandomUsed (Word.sub (Word.add state.rotationCount 1) 1) state.currentVRFRandom)) :=
      inv.append (.vrfRandomUsed _ _) trivial (by simp) rfl rfl rfl rfl rfl rfl
    refine used.append (.committeeRotated newCommittee timestamp) trivial (by simp) ?_
      rfl rfl rfl rfl rfl
    simp [State.rotated, State.emit]

theorem VrfInv.accepted_iff (inv : VrfInv primitives state) :
    AcceptedSinceSubmission state.events state.currentVRFRandom ↔
      state.currentVRFVerified = true := by
  rcases inv.submission with ⟨none, -, unverified⟩ | ⟨since, last, recorded⟩
  · simp [AcceptedSinceSubmission, none, unverified]
  · simp [AcceptedSinceSubmission, last, recorded]

end VrfInv

/-- A successful rotation uses a random value whose proof was accepted since its submission exactly
if the flag `currentVRFVerified` is set when it is called. -/
theorem rotation_accepted_iff (primitives : VrfPrimitives) (self : Address)
    (initialCommittee : List Address) (vrfGenerator rewardPool : Address) (timestamp : ℕ)
    (script : Script Call) {state : State} (reached : state ∈ (script.run (execute primitives)
      (State.create self initialCommittee vrfGenerator rewardPool timestamp)).seen) {msg : Msg}
    {views : Views} {environments : Callbacks} {state' : State}
    (returned : ((rotateCommittee msg views state).interp environments).final = some state') :
    selectNewCommittee .source views.reputation state.candidatePool state.currentVRFRandom =
        some state'.currentCommittee ∧
      (AcceptedSinceSubmission state.events state.currentVRFRandom ↔
        state.currentVRFVerified = true) := by
  have inv : VrfInv primitives state :=
    invariant_of_mem_seen (fun _ _ _ update => vrfInv_update update)
      ⟨Or.inl ⟨rfl, rfl, rfl⟩, by simp [State.create]⟩ script reached
  exact ⟨(rotateCommittee_ends msg views state).of_final returned, inv.accepted_iff⟩

section Sample

def sampleKey : ℕ × ℕ :=
  (0xf9308a019258c31049344f85f89d5229b531c845836f99b08601f113bce036f9,
   0x388f7b0f632de8140fe337e62a37f3566500a99934c2231b6cb9fd7584b8e672)

def sampleH : ℕ × ℕ :=
  (0xb50b9d6027316a42ba6fa7bb66590984274cf2e388d4e2942ff187660b4c73a2,
   0x3b21fbb9ee2cb01c38a81f13054423e479bf8ebafb89a1dc68f882cfbe801e7a)

def sampleGamma : ℕ × ℕ :=
  (0xb40c3ca9ef817c72d397bd6890cd1193d399585f5f20b83a4cdb8d407b749a62,
   0x2860bc411e48bdd0daeeebc781bd9a6d6c893bb2a963dcb7c1afb2ed3930722e)

def sampleU : ℕ × ℕ :=
  (0x2f8bde4d1a07209355b4a7250a5c5128e88b84bddc619ab7cba8d569b240efe4,
   0xd8ac222636e5e3d6d4dba9dda6c9c426f788271bab0d6840dca87d3aa6ac62d6)

def sampleV : ℕ × ℕ :=
  (0x1a5d535ddf3add54152475230a80375d84aaa8bcdf0aafd9864fd7924bd78d9b,
   0x55ca192d9ae03328c9a91f88f4d3d724d7fa89137b47a36ccea0794ee0ebf2b8)

def sampleC : ℕ := 0x7dd04ca569c74f6ce4c7a4f5a86147bd

def sampleS : ℕ := 0x17970e5f03d55ee46ae56eee0f923d73c

def sampleSG : ℕ × ℕ :=
  (0x210b888849d37c28444daea964eae90c14ad93e6c31847d52e037d4ca44f573d,
   0x45db9bc967d3780570752e19c1edc5322a3ed51a1a7c42e98a46f8bc0b9b74c3)

def sampleCY : ℕ × ℕ :=
  (0x1dabc4edeb8723bf6b205ab29372f18e77e365695da19d9b96cde4e6bbe0c25c,
   0xc877c8d046b04e6c273b883bac88656298fbe5b065812d06a1576a98ceadf9a0)

def sampleSH : ℕ × ℕ :=
  (0x5c779e0a32c9f33845baf59e5b33b5d0c783c6aa9e965f532fd8ed5cf8a738cd,
   0x52795c94b841713faf47eaf1c1560a722877e50b50651ac615e35b067c01a26d)

def sampleCGamma : ℕ × ℕ :=
  (0x140f2f730712edbe1800d2b3e5c3a70384a527f2e0007a5fedd8356d26658812,
   0x9ad9e787d1626ffb99b912429ec918a461a1ae62d3f2ffb7940029fb30e140ee)

def sampleOutput : ℕ := 0xfdf5e99e1bfc0535f972471daeafd259024fec614725e48f4fc6634087a3da11

def samplePublicKey : Bytes := 2 :: Bytes.writeBe 32 sampleKey.1

def sampleProof : Bytes :=
  2 :: Bytes.writeBe 32 sampleGamma.1 ++ Bytes.writeBe 16 sampleC ++ Bytes.writeBe 32 sampleS

def sampleVrf : VrfPrimitives where
  sha256 bytes :=
    if bytes = 0xFE :: 0x01 :: samplePublicKey ++ [2, 0] then
      sampleH.1
    else if bytes = 0xFE :: 0x02 :: Vrf.encodePoint sampleH.1 sampleH.2 ++
        Vrf.encodePoint sampleGamma.1 sampleGamma.2 ++ Vrf.encodePoint sampleU.1 sampleU.2 ++
        Vrf.encodePoint sampleV.1 sampleV.2 then
      0x7dd04ca569c74f6ce4c7a4f5a86147bdc4aca6115d56eed2f4ca48cb2545aea1
    else if bytes = 0xFE :: 0x03 :: Vrf.encodePoint sampleGamma.1 sampleGamma.2 then
      sampleOutput
    else
      0
  deriveY yByte x _ _ _ :=
    if (yByte, x) = (2, sampleKey.1) then some sampleKey.2
    else if (yByte, x) = (2, sampleGamma.1) then some sampleGamma.2
    else if (yByte, x) = (2, sampleH.1) then some sampleH.2
    else none
  isOnCurve x y _ _ _ := (x, y) = sampleH
  ecMul d x y _ _ :=
    if (d, x, y) = (sampleS, Vrf.gx, Vrf.gy) then some sampleSG
    else if (d, x, y) = (sampleC, sampleKey) then some sampleCY
    else if (d, x, y) = (sampleS, sampleH) then some sampleSH
    else if (d, x, y) = (sampleC, sampleGamma) then some sampleCGamma
    else none
  ecSub x₁ y₁ x₂ y₂ _ _ :=
    if ((x₁, y₁), (x₂, y₂)) = (sampleSG, sampleCY) then some sampleU
    else if ((x₁, y₁), (x₂, y₂)) = (sampleSH, sampleCGamma) then some sampleV
    else none

def sampleCreated : State := State.create 0xc0 [21, 22, 23] 7 0 0

def submission (random : ℕ) : Call :=
  ⟨⟨7, 0, 1⟩, .submitVRFRandomWithProof random sampleProof samplePublicKey [2]⟩

def candidatesJoin (rest : Script Call) : Script Call :=
  .call ⟨⟨11, 0, 2⟩, .addCandidate 11⟩ [] <|
  .call ⟨⟨12, 0, 3⟩, .addCandidate 12⟩ [] <|
  .call ⟨⟨13, 0, 4⟩, .addCandidate 13⟩ [] rest

def verifiedScript : Script Call :=
  .call (submission sampleOutput) [] <| .call ⟨⟨8, 0, 2⟩, .verifyVRFProof⟩ [] <|
    candidatesJoin (.stop true)

def verifiedState : State :=
  ((verifiedScript.run (execute sampleVrf) sampleCreated).final).get (by decide +kernel)

def unverifiedScript : Script Call :=
  .call (submission sampleOutput) [] <| candidatesJoin (.stop true)

def unverifiedState : State :=
  ((unverifiedScript.run (execute sampleVrf) sampleCreated).final).get (by decide +kernel)

theorem verifiedState_mem_seen :
    verifiedState ∈ (verifiedScript.run (execute sampleVrf) sampleCreated).seen := by
  simp [verifiedScript, verifiedState, candidatesJoin, Script.run]

def newcomers : Views := ⟨fun _ => 0, none⟩

end Sample

theorem rotation_accepted_verified :
    ((rotateCommittee ⟨9, 0, 30⟩ newcomers verifiedState).interp ([] : Callbacks)).final.isSome ∧
      AcceptedSinceSubmission verifiedState.events verifiedState.currentVRFRandom := by
  have returns : ((rotateCommittee ⟨9, 0, 30⟩ newcomers verifiedState).interp
      ([] : Callbacks)).final.isSome := by
    decide +kernel
  refine ⟨returns, ?_⟩
  rcases Option.isSome_iff_exists.mp returns with ⟨state', returned⟩
  apply (rotation_accepted_iff sampleVrf 0xc0 [21, 22, 23] 7 0 0 verifiedScript
    verifiedState_mem_seen returned).2.mpr
  decide +kernel

/-- A proof that is submitted and never verified is enough. -/
theorem rotation_without_verification :
    unverifiedState ∈ (unverifiedScript.run (execute sampleVrf) sampleCreated).seen ∧
      ((rotateCommittee ⟨9, 0, 30⟩ newcomers unverifiedState).interp
        ([] : Callbacks)).final.isSome ∧
      ¬AcceptedSinceSubmission unverifiedState.events unverifiedState.currentVRFRandom := by
  refine ⟨?_, by decide +kernel, ?_⟩
  · simp [unverifiedScript, unverifiedState, candidatesJoin, Script.run]
  have events : unverifiedState.events = [.vrfRandomSubmitted sampleOutput 1,
      .candidateAdded 11, .candidateAdded 12, .candidateAdded 13] := by
    decide +kernel
  rintro ⟨since, last, member⟩
  simp only [events, lastSubmission, Option.some.injEq, Prod.mk.injEq] at last
  rcases last with ⟨-, rfl⟩
  simp at member

section Binding

variable {primitives : VrfPrimitives}

def vrfOutput (primitives : VrfPrimitives) (proof : Bytes) : Option ℕ :=
  (Vrf.decodeProof primitives proof).map fun decoded =>
    Vrf.gammaToHash primitives decoded.gammaX decoded.gammaY

def State.Bound (primitives : VrfPrimitives) (state : State) : Prop :=
  vrfOutput primitives state.currentVRFProof = some state.currentVRFRandom

def Verifies (primitives : VrfPrimitives) (call : Call × State) : Prop :=
  call.1.request = .verifyVRFProof ∧ call.1.msg.value = 0 ∧ call.2.currentVRFRandom ≠ 0 ∧
    Vrf.proofAccepted primitives call.2.currentVRFPublicKey call.2.currentVRFProof
      call.2.currentVRFMessage = some true

theorem length_of_proofAccepted {publicKey proof message : Bytes} {isValid : Bool}
    (accepted : Vrf.proofAccepted primitives publicKey proof message = some isValid) :
    proof.length = 81 ∧ publicKey.length = 33 := by
  simp only [Vrf.proofAccepted, Vrf.decodePoint, Vrf.decodeProof, Option.bind_eq_bind,
    Option.bind_eq_some_iff, Option.guard_eq_some', Option.pure_def] at accepted
  rcases accepted with ⟨-, ⟨-, publicKeyLength, -⟩, -, ⟨-, proofLength, -⟩, -⟩
  exact ⟨proofLength, publicKeyLength⟩

theorem execute_of_verifies {call : Call × State} (verifies : Verifies primitives call) :
    execute primitives call.1 call.2 = .done (call.2.verified true) := by
  rcases call with ⟨⟨msg, request⟩, state⟩
  rcases verifies with ⟨isVerification, free, nonzero, accepted⟩
  dsimp only at isVerification free nonzero accepted
  subst isVerification
  rcases length_of_proofAccepted accepted with ⟨proofLength, publicKeyLength⟩
  simp [execute, verifyVRFProof, Prog.require, free, nonzero, accepted, proofLength,
    publicKeyLength]

theorem bound_update {request : Request} {before after : State}
    (update : Update primitives request before after) (verification : request = .verifyVRFProof →
      Vrf.proofAccepted primitives before.currentVRFPublicKey before.currentVRFProof
        before.currentVRFMessage = some true → before.currentVRFRandom ≠ 0 →
          before.Bound primitives)
    (holds : before.currentVRFVerified = true → before.Bound primitives) :
    after.currentVRFVerified = true → after.Bound primitives := by
  intro verified
  cases update with
  | submitted => simp [State.submitted, State.emit] at verified
  | verified isValid _ random result =>
    simp only [State.verified, State.emit] at verified
    subst verified
    exact verification rfl result random
  | rewardPool | vrfGenerator | added | removed | rotated => exact holds verified

/-- Every verified random value is the output of its proof exactly if it was that when its proof was
verified. Then a proof has at most one. -/
theorem verified_random_bound_iff (primitives : VrfPrimitives) (self : Address)
    (initialCommittee : List Address) (vrfGenerator rewardPool : Address) (timestamp : ℕ)
    (script : Script Call) :
    let run := script.run (execute primitives)
      (State.create self initialCommittee vrfGenerator rewardPool timestamp)
    ((∀ state ∈ run.seen, state.currentVRFVerified = true → state.Bound primitives) ↔
      ∀ call ∈ run.calls, Verifies primitives call → call.2.Bound primitives) ∧
    ((∀ call ∈ run.calls, Verifies primitives call → call.2.Bound primitives) →
      ∀ first ∈ run.seen, ∀ second ∈ run.seen,
        first.currentVRFVerified = true → second.currentVRFVerified = true →
          first.currentVRFProof = second.currentVRFProof →
            first.currentVRFRandom = second.currentVRFRandom) := by
  intro run
  have sufficient (bound : ∀ call ∈ run.calls, Verifies primitives call →
      call.2.Bound primitives) :
      ∀ state ∈ run.seen, state.currentVRFVerified = true → state.Bound primitives := by
    have within : (Discipline.preserving fun state =>
        state.currentVRFVerified = true → state.Bound primitives).Within
          (State.create self initialCommittee vrfGenerator rewardPool timestamp) run := by
      apply Discipline.run_within_of_calls
      intro call made
      apply keeps_execute
      intro before after update atCall
      apply bound_update update
      intro isVerification accepted nonzero
      rcases atCall isVerification with ⟨rfl, free⟩
      exact bound call made ⟨isVerification, free, nonzero, accepted⟩
    intro state seen
    exact within.seen state seen (by simp [State.create])
  refine ⟨⟨?_, sufficient⟩, ?_⟩
  · intro bound call made verifies
    have seen : call.2.verified true ∈ run.seen :=
      Script.mem_seen_of_call_done (execute_of_verifies verifies) script _ made
    exact bound (call.2.verified true) seen rfl
  · intro bound first firstSeen second secondSeen firstVerified secondVerified sameProof
    have firstBound := sufficient bound first firstSeen firstVerified
    have secondBound := sufficient bound second secondSeen secondVerified
    rw [State.Bound, sameProof] at firstBound
    exact Option.some.inj (firstBound.symm.trans secondBound)

end Binding

def chosenScript : Script Call :=
  .call (submission 1) [] <| .call ⟨⟨8, 0, 2⟩, .verifyVRFProof⟩ [] <| .stop true

def chosenState : State :=
  ((chosenScript.run (execute sampleVrf) sampleCreated).final).get (by decide +kernel)

/-- The random value need not be the output of its proof. -/
theorem chosen_random_verified :
    chosenState ∈ (chosenScript.run (execute sampleVrf) sampleCreated).seen ∧
      chosenState.currentVRFVerified = true ∧ chosenState.currentVRFRandom = 1 ∧
        vrfOutput sampleVrf chosenState.currentVRFProof = some sampleOutput ∧
          ¬chosenState.Bound sampleVrf := by
  have random : chosenState.currentVRFRandom = 1 := by decide +kernel
  have output : vrfOutput sampleVrf chosenState.currentVRFProof = some sampleOutput := by
    decide +kernel
  refine ⟨?_, by decide +kernel, random, output, ?_⟩
  · simp [chosenState, chosenScript, Script.run]
  · rw [State.Bound, random, output]
    decide +kernel

end TigerMixer.Rotation
