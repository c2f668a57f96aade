import TigerMixer.Escrow.Conservation

/-!
# Settlement of the escrows

What the discipline of the single calls gives for a contract from its creation on. States are judged
whenever external code has control; complete payouts are judged once the outermost calls have
returned, since a confirmation pays its fee before its final amount.
-/

namespace TigerMixer.Escrow

open Calls

section Creation

variable {self denomination verifierAddress levels hasherAddress balance : ℕ} {initial : State}
  (created : State.create self denomination verifierAddress levels hasherAddress balance =
    some initial)

include created

theorem create_eq_some :
    ∃ tree, MerkleTree.create levels = some tree ∧ 0 < denomination ∧ denomination < wordSize ∧
      initial = { self, denomination, tree, status := 1, rewardPool := 0,
                  escrows := fun _ => .blank, commitments := fun _ => false, balance,
                  events := [], payments := [] } := by
  simp only [State.create, Option.bind_eq_bind, Option.bind_eq_some_iff, Option.pure_def,
    Option.some.injEq, Option.guard_eq_some'] at created
  rcases created with ⟨tree, treeCreated, -, ⟨positive, bounded⟩, -, -, -, -, rfl⟩
  exact ⟨tree, treeCreated, positive, bounded, rfl⟩

theorem inv_create : Inv initial := by
  rcases create_eq_some created with ⟨tree, treeCreated, positive, bounded, rfl⟩
  refine
    { denomination_pos := positive
      denomination_lt := bounded
      mem_openedIds := ?_
      openedIds_nodup := List.nodup_nil
      mem_deposited := ?_
      deposited_nodup := List.nodup_nil
      nextIndex_eq := ?_
      deposited_length := rfl
      record := ?_
      status_eq := rfl }
  · simp [State.openedIds, EscrowRecord.blank]
  · simp [State.deposited]
  · unfold MerkleTree.create at treeCreated
    split_ifs at treeCreated
    simp only [Option.some.injEq] at treeCreated
    subst treeCreated
    rfl
  · intro escrowId
    exact
      { unopened := fun _ => ⟨rfl, rfl, rfl⟩
        copy := by simp [EscrowRecord.blank]
        owing := by simp [EscrowRecord.blank]
        paying := by simp [EscrowRecord.blank] }

theorem excess_create : 0 ≤ initial.excess := by
  rcases create_eq_some created with ⟨tree, -, -, -, rfl⟩
  simp [State.excess, State.outstanding, State.openedIds]

theorem denomination_create : initial.denomination = denomination := by
  rcases create_eq_some created with ⟨tree, -, -, -, rfl⟩
  rfl

theorem released_create (escrowId : ℕ) : (initial.escrows escrowId).released = false := by
  rcases create_eq_some created with ⟨tree, -, -, -, rfl⟩
  rfl

end Creation

structure Conserved (state : State) : Prop where
  covered : state.denomination * state.outstanding ≤ state.balance
  acceptedOnce : state.deposited.Nodup
  openedOnce : state.openedIds.Nodup
  nextIndex_eq : state.tree.nextIndex = state.openedIds.length
  owing : ∀ escrowId ∈ state.openedIds, (state.escrows escrowId).released = false →
    state.payouts escrowId = []
  paying : ∀ escrowId ∈ state.openedIds, (state.escrows escrowId).released = true →
    PayingOut state.denomination escrowId (state.escrows escrowId) (state.payouts escrowId)
  unopened : ∀ escrowId ∉ state.openedIds, state.payouts escrowId = []

variable {state : State} {primitives : Primitives} {msg : Msg} {args : OpenArgs}

theorem Inv.conserved (inv : Inv state) (solvent : 0 ≤ state.excess) :
    Conserved state where
  covered := by
    unfold State.excess at solvent
    have covered : (state.denomination : ℤ) * state.outstanding ≤ state.balance := by omega
    exact_mod_cast covered
  acceptedOnce := inv.deposited_nodup
  openedOnce := inv.openedIds_nodup
  nextIndex_eq := inv.nextIndex_eq
  owing escrowId member unreleased :=
    ((inv.record escrowId).owing ((inv.mem_openedIds escrowId).mp member) unreleased).2
  paying escrowId member released :=
    ((inv.record escrowId).paying ((inv.mem_openedIds escrowId).mp member) released).2
  unopened escrowId notMember := by
    rw [inv.mem_openedIds, not_not] at notMember
    exact ((inv.record escrowId).unopened notMember).2.2

def State.Accepts (primitives : Primitives) (msg : Msg) (args : OpenArgs) (state : State) : Prop :=
  state.commitments args.commitment = false ∧
    (state.tree.insert primitives.hasher args.commitment).isSome ∧
    msg.value = state.denomination ∧
    (args.party1 ≠ 0 ∧ args.party2 ≠ 0 ∧ args.party1 ≠ args.party2) ∧
    msg.timestamp < args.deadline

theorem isSome_openEscrow_iff (inv : Inv state)
    (unopened : (state.escrows args.escrowId).party1 = 0) :
    ((openEscrow primitives msg args state).interp ([] : Callbacks)).final.isSome ↔
      state.Accepts primitives msg args := by
  have entered : state.status ≠ 2 := by
    rw [inv.status_eq]
    decide
  rw [openEscrow, Prog.isSome_interp_require, Prog.isSome_interp_require, State.Accepts]
  cases inserted : state.tree.insert primitives.hasher args.commitment with
  | none => simp [Prog.interp]
  | some result =>
    rcases result with ⟨tree, insertedIndex⟩
    simp [Prog.isSome_interp_require, Prog.interp, entered, unopened]

theorem openable_refundedUnopened (inv : Inv state)
    (unopened : (state.escrows args.escrowId).party1 = 0) (timestamp : ℕ) :
    ((openEscrow primitives msg args
        (refundedUnopened state args.escrowId timestamp)).interp ([] : Callbacks)).final.isSome ↔
      ((openEscrow primitives msg args state).interp ([] : Callbacks)).final.isSome := by
  have unopened' :
      ((refundedUnopened state args.escrowId timestamp).escrows args.escrowId).party1 = 0 := by
    rw [party1_refundedUnopened, unopened]
  rw [isSome_openEscrow_iff inv unopened,
    isSome_openEscrow_iff (inv_refundedUnopened inv unopened timestamp) unopened']
  exact Iff.rfl

section Runs

variable {self denomination verifierAddress levels hasherAddress balance : ℕ} {initial : State}
  (primitives : Primitives) (script : Script Call)

theorem inv_of_mem_seen
    (created : State.create self denomination verifierAddress levels hasherAddress balance =
      some initial) {state : State}
    (seen : state ∈ (script.run (execute primitives) initial).seen) :
    Inv state ∧ state.denomination = denomination ∧ 0 ≤ state.excess := by
  have within := Discipline.run_within (keeps_execute primitives) script initial
  rcases within.seen state seen (inv_create created) with ⟨inv, same, excess⟩
  exact ⟨inv, same.trans (denomination_create created), (excess_create created).trans excess⟩

theorem fullyPaid_of_final
    (created : State.create self denomination verifierAddress levels hasherAddress balance =
      some initial) {state : State}
    (final : (script.run (execute primitives) initial).final = some state) {escrowId : ℕ}
    (opened : escrowId ∈ state.openedIds) (released : (state.escrows escrowId).released = true) :
    FullyPaid state.denomination escrowId (state.escrows escrowId) (state.payouts escrowId) := by
  have within := Discipline.run_within (keeps_execute primitives) script initial
  rcases within.final state final (inv_create created) with ⟨evolution, -⟩
  have opened' := (evolution.inv.mem_openedIds escrowId).mp opened
  rcases evolution.newlySettled escrowId id opened' released with paid | ⟨-, earlier⟩
  · exact paid
  · simp [released_create created escrowId] at earlier

/-- The contract is solvent at all times and pays every escrow out once and entirely; refunds of ids
that were never opened change none of this. -/
theorem escrows_conserved
    (created : State.create self denomination verifierAddress levels hasherAddress balance =
      some initial) :
    (∀ state ∈ (script.run (execute primitives) initial).seen,
      state.denomination = denomination ∧ Conserved state) ∧
    (∀ state, (script.run (execute primitives) initial).final = some state →
      state.denomination = denomination ∧ Conserved state ∧
        ∀ escrowId ∈ state.openedIds, (state.escrows escrowId).released = true →
          FullyPaid denomination escrowId (state.escrows escrowId) (state.payouts escrowId)) ∧
    (∀ state ∈ (script.run (execute primitives) initial).seen, ∀ escrowId ∉ state.openedIds,
      (∀ msg (environments : Callbacks) state',
        ((refund msg escrowId state).interp environments).final = some state' →
          state'.balance = state.balance ∧
          (∀ other, state'.payouts other = state.payouts other) ∧
          ∀ msg' args, args.escrowId = escrowId →
            (((openEscrow primitives msg' args state').interp ([] : Callbacks)).final.isSome ↔
              ((openEscrow primitives msg' args state).interp ([] : Callbacks)).final.isSome)) ∧
      ∀ msg args, args.escrowId = escrowId →
        (((openEscrow primitives msg args state).interp ([] : Callbacks)).final.isSome ↔
          state.Accepts primitives msg args)) := by
  refine ⟨?_, ?_, ?_⟩
  · intro state seen
    rcases inv_of_mem_seen primitives script created seen with ⟨inv, same, solvent⟩
    exact ⟨same, inv.conserved solvent⟩
  · intro state final
    have within := Discipline.run_within (keeps_execute primitives) script initial
    rcases within.final state final (inv_create created) with ⟨evolution, excess⟩
    have same := evolution.denomination.trans (denomination_create created)
    refine ⟨same, evolution.inv.conserved ((excess_create created).trans excess), ?_⟩
    intro escrowId opened released
    rw [← same]
    exact fullyPaid_of_final primitives script created final opened released
  · intro state seen escrowId notOpened
    rcases inv_of_mem_seen primitives script created seen with ⟨inv, -, -⟩
    have unopened : (state.escrows escrowId).party1 = 0 := by
      rwa [inv.mem_openedIds, not_not] at notOpened
    refine ⟨?_, ?_⟩
    · intro msg environments state' returned
      rw [refund_unopened_eq inv unopened] at returned
      simp only [Prog.interp_require_iff] at returned
      obtain rfl : refundedUnopened state escrowId msg.timestamp = state' := by
        simpa [Prog.interp] using returned.2.2.2.2
      refine ⟨rfl, payouts_refundedUnopened state escrowId msg.timestamp, ?_⟩
      rintro msg' args rfl
      exact openable_refundedUnopened inv unopened msg.timestamp
    · rintro msg args rfl
      exact isSome_openEscrow_iff inv unopened

end Runs

section Sample

def address1 : Address := 0x7e5f4552091a69125d5dfcb7b8c2659029395bdf

def address2 : Address := 0x2b5ad5c4795c026514f8317c7a215e218dccd6cf

def signatureOf1 : Signature where
  r := 0xf9308a019258c31049344f85f89d5229b531c845836f99b08601f113bce036f9
  s := 0x1a40178d1c83f7650617ef97b04aa59623dd73e3ab31ada3cbb82a19174da1ea
  v := 27

def signatureOf2 : Signature where
  r := 0x2f8bde4d1a07209355b4a7250a5c5128e88b84bddc619ab7cba8d569b240efe4
  s := 0x75781af334f2ebf21be70a175d67596a2f9338fc07ee858f68a28102f0939731
  v := 28

def sampleDigest : ℕ := 0x558fbca5c333231ec9137f4118429e977115704c2d6e0f769cf8ebc4593ef006

def samplePrimitives : Primitives where
  hasher left right :=
    if (left, right) = (5, 0) then
      some (16603323809031253072187543716367631604737299866666572154136844934740125837116,
        20568763901043583216517215510272625232557024716251808155645748174958067144679)
    else if (left, right) =
        (16378919941608910795323493879900955741455437289158449267943619263742572762791,
          20568763901043583216517215510272625232557024716251808155645748174958067144679) then
      some (21652272025144185891702495507858700052653521882982711576347377471507927142323,
        1998875743985390679684582871510367215511100622962812894496222605130504111364)
    else
      none
  sha256 message := if message = signedMessage 1 7 then sampleDigest else 0
  ecrecover digest v r s :=
    if (digest, v, r, s) = (sampleDigest, signatureOf1.v, signatureOf1.r, signatureOf1.s) then
      address1
    else if (digest, v, r, s) = (sampleDigest, signatureOf2.v, signatureOf2.r, signatureOf2.s) then
      address2
    else
      0

def publicKey1 : Bytes :=
  Bytes.writeBe 33 0x0279be667ef9dcbbac55a06295ce870b07029bfcdb2dce28d959f2815b16f81798

def publicKey2 : Bytes :=
  Bytes.writeBe 33 0x02c6047f9441ed7d6d3045406e95c07cd85c778e4b8cef3ca7abac09b95c709ee5

def sampleOpening : OpenArgs :=
  { escrowId := 1, party1 := address1, party2 := address2, deadline := 1000, metaHash := 0,
    party1Key := publicKey1, party2Key := publicKey2, commitment := 5 }

def sampleConfirmation : ConfirmArgs :=
  { escrowId := 1, signature1 := signatureOf1, signature2 := signatureOf2,
    party1Address := address1, party2Address := address2 }

def sampleScript : Script Call :=
  .call ⟨⟨address1, 0, 10⟩, .setRewardPool 0xabc⟩ [] <|
  .call ⟨⟨address1, 0, 11⟩, .refund 1⟩ [] <|
  .call ⟨⟨address1, 1000, 12⟩, .openEscrow sampleOpening⟩ [] <|
  .call ⟨⟨address2, 0, 13⟩, .setDataHash 1 7⟩ [] <|
  .call ⟨⟨address2, 0, 2000⟩, .confirm sampleConfirmation⟩
    [.stop true, .stop true, .call ⟨⟨address2, 0, 2000⟩, .refund 1⟩ [] (.stop true)] <|
  .stop true

def sampleInitial : State := (State.create 0xe5c 1000 0xfe 1 0xfd 0).get (by decide +kernel)

def sampleFinal : State :=
  ((sampleScript.run (execute samplePrimitives) sampleInitial).final).get (by decide +kernel)

end Sample

theorem escrows_conserved_reentrant_confirm :
    1 ∈ sampleFinal.openedIds ∧ (sampleFinal.escrows 1).released = true ∧
      FullyPaid 1000 1 (sampleFinal.escrows 1) (sampleFinal.payouts 1) ∧
      ∀ state ∈ (sampleScript.run (execute samplePrimitives) sampleInitial).seen,
        Conserved state := by
  have created : State.create 0xe5c 1000 0xfe 1 0xfd 0 = some sampleInitial := by
    rw [sampleInitial, Option.some_get]
  have final : (sampleScript.run (execute samplePrimitives) sampleInitial).final =
      some sampleFinal := by
    rw [sampleFinal, Option.some_get]
  have opened : 1 ∈ sampleFinal.openedIds := by decide +kernel
  have released : (sampleFinal.escrows 1).released = true := by decide +kernel
  have conserved := escrows_conserved samplePrimitives sampleScript created
  exact ⟨opened, released, (conserved.2.1 sampleFinal final).2.2 1 opened released,
    fun state seen => (conserved.1 state seen).2⟩

end TigerMixer.Escrow
