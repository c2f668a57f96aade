import TigerMixer.Auditor.Fetch
import TigerMixer.Auditor.FirstShare
import TigerMixer.Puzzle.Payment

/-!
# One process, many audits

`monitor_mode` audits one suspicious transaction after the other with the same state, and nothing is
reset between two audits. An audit is given by what `fetch_shares_by_msgid` returns for it.
-/

namespace TigerMixer.Auditor

open Bytes A2L Text List

/-- The bytes that are parsed. A stated length beyond the message exposes nothing here. -/
def Fetched.seen : Fetched → Option Bytes
  | .message buffer length => some (buffer.take length)
  | .error | .nothing => none

variable {q : ℕ} {E : Type} [AddCommGroup E] [Module (ZMod q) E] {C : Type} [CommGroup C]
  [DecidableEq E] [DecidableEq C]

section Remains

variable (setup : Setup q E C) (decoders : Decoders E C) (clSk : ℕ)

/-- `audit_message_with_info` up to the request for the second message, with the id of this request.
-/
def auditMessage (memory : Memory) (fetched : Fetched) : Option (Memory × Option Bytes) :=
  match fetched.seen with
  | none => some (memory, none)
  | some buffer =>
    (parseTumblerShare setup decoders clSk memory buffer).map fun after =>
      (after, after.secondMsgid)

def auditAll (memory : Memory) (audits : List Fetched) : Option Memory :=
  audits.foldlM (fun memory fetched =>
    (auditMessage setup decoders clSk memory fetched).map Prod.fst) memory

def usedMsgid (memory : Memory) (fetched : Fetched) : Option (Option Bytes) :=
  (auditMessage setup decoders clSk memory fetched).map Prod.snd

def Isolated (audits : List Fetched) : Prop :=
  ∀ earlier fetched, earlier ++ [fetched] <+: audits →
    ∀ memory, auditAll setup decoders clSk .fresh earlier = some memory →
      usedMsgid setup decoders clSk memory fetched = usedMsgid setup decoders clSk .fresh fetched

/-! ### What audits leave behind -/

def Fetched.scalar (fetched : Fetched) : Option ℕ :=
  fetched.seen.bind (offeredScalar setup decoders clSk)

def Fetched.point (fetched : Fetched) : Option E :=
  fetched.seen.bind (completedPoint setup decoders clSk)

def keptScalar (audits : List Fetched) : Option ℕ :=
  audits.findSome? (Fetched.scalar setup decoders clSk)

def LeavesMsgid (audits : List Fetched) : Prop :=
  ∃ earlier fetched, earlier ++ [fetched] <+: audits ∧
    (fetched.point setup decoders clSk).isSome ∧
    (keptScalar setup decoders clSk (earlier ++ [fetched])).isSome

/-- If the message is read to the end, then no scalar is kept from before or the message offers the
same one; if not, no id is left from before. -/
def Undisturbed (earlier : List Fetched) (fetched : Fetched) : Prop :=
  match fetched.point setup decoders clSk with
  | none => ¬LeavesMsgid setup decoders clSk earlier
  | some _ =>
    keptScalar setup decoders clSk earlier = none ∨
      ∃ kept own, keptScalar setup decoders clSk earlier = some kept ∧
        fetched.scalar setup decoders clSk = some own ∧ kept % q = own % q

end Remains

variable {setup : Setup q E C} {decoders : Decoders E C} {clSk : ℕ}

theorem keptScalar_concat (audits : List Fetched) (fetched : Fetched) :
    keptScalar setup decoders clSk (audits ++ [fetched]) =
      (keptScalar setup decoders clSk audits).or (fetched.scalar setup decoders clSk) := by
  rw [keptScalar, keptScalar, findSome?_append, findSome?_cons]
  cases fetched.scalar setup decoders clSk <;> rfl

theorem leavesMsgid_concat (audits : List Fetched) (fetched : Fetched) :
    LeavesMsgid setup decoders clSk (audits ++ [fetched]) ↔
      LeavesMsgid setup decoders clSk audits ∨
        (fetched.point setup decoders clSk).isSome ∧
          (keptScalar setup decoders clSk (audits ++ [fetched])).isSome := by
  constructor
  · rintro ⟨earlier, last, among, point, scalar⟩
    rcases prefix_concat_iff.mp among with whole | among
    · rcases append_inj' whole rfl with ⟨rfl, same⟩
      cases same
      exact Or.inr ⟨point, scalar⟩
    · exact Or.inl ⟨earlier, last, among, point, scalar⟩
  · rintro (⟨earlier, last, among, point, scalar⟩ | ⟨point, scalar⟩)
    · exact ⟨earlier, last, among.trans (prefix_append _ _), point, scalar⟩
    · exact ⟨audits, fetched, prefix_rfl, point, scalar⟩

variable {audits : List Fetched} {fetched : Fetched} {memory : Memory}

theorem LeavesMsgid.keptScalar_ne_none (leaves : LeavesMsgid setup decoders clSk audits) :
    keptScalar setup decoders clSk audits ≠ none := by
  rcases leaves with ⟨earlier, fetched, ⟨later, rfl⟩, -, scalar⟩
  rcases Option.isSome_iff_exists.mp scalar with ⟨kept, kept_eq⟩
  rw [keptScalar] at kept_eq ⊢
  rw [findSome?_append, kept_eq]
  simp

/-! ### The memory after an audit -/

theorem auditMessage_eq_some {memory after : Memory} {msgid : Option Bytes}
    (audited : auditMessage setup decoders clSk memory fetched = some (after, msgid)) :
    after.savedR0BetaTau = memory.savedR0BetaTau.or (fetched.scalar setup decoders clSk) ∧
      after.secondMsgid =
        ((fetched.point setup decoders clSk).bind fun gAbt =>
          after.savedR0BetaTau.map (msgidOf setup.curve gAbt)).or memory.secondMsgid ∧
      msgid = fetched.seen.bind fun _ => after.secondMsgid := by
  unfold auditMessage at audited
  unfold Fetched.scalar Fetched.point
  cases seen : fetched.seen with
  | none =>
    simp only [seen, Option.some.injEq, Prod.mk.injEq] at audited
    rcases audited with ⟨rfl, rfl⟩
    simp
  | some buffer =>
    simp only [seen, Option.map_eq_some_iff, Prod.mk.injEq] at audited
    rcases audited with ⟨_, parsed, rfl, rfl⟩
    exact ⟨savedR0BetaTau_of_parseTumblerShare parsed, secondMsgid_of_parseTumblerShare parsed, rfl⟩

theorem auditMessage_eq_none_iff (memory other : Memory) :
    auditMessage setup decoders clSk memory fetched = none ↔
      auditMessage setup decoders clSk other fetched = none := by
  unfold auditMessage
  cases fetched.seen with
  | none => simp
  | some buffer => simp only [Option.map_eq_none_iff, parseTumblerShare_eq_none_iff]

theorem auditAll_eq_some (audited : auditAll setup decoders clSk .fresh audits = some memory) :
    memory.savedR0BetaTau = keptScalar setup decoders clSk audits ∧
      (memory.secondMsgid.isSome ↔ LeavesMsgid setup decoders clSk audits) := by
  induction audits using List.reverseRecOn generalizing memory with
  | nil =>
    cases audited
    refine ⟨rfl, by simp [Memory.fresh], ?_⟩
    intro leaves
    exact absurd rfl leaves.keptScalar_ne_none
  | append_singleton audits fetched ih =>
    simp only [auditAll, foldlM_append, foldlM_cons, foldlM_nil,
      Option.bind_eq_bind, Option.bind_eq_some_iff, Option.map_eq_some_iff, Prod.exists,
      exists_and_right, exists_eq_right] at audited
    rcases audited with ⟨before, earlier, after, ⟨msgid, last⟩, returned⟩
    cases returned
    rcases ih earlier with ⟨saved, second⟩
    rcases auditMessage_eq_some last with ⟨savedAfter, secondAfter, -⟩
    rw [saved, ← keptScalar_concat] at savedAfter
    refine ⟨savedAfter, ?_⟩
    rw [leavesMsgid_concat, ← second, secondAfter, savedAfter]
    cases fetched.point setup decoders clSk <;>
      cases keptScalar setup decoders clSk (audits ++ [fetched]) <;> simp

/-! ### One audit after others -/

omit [DecidableEq E] in
theorem msgidOf_inj {curve : Curve q E} (encodes : Function.Injective curve.writeBin) {gAbt : E}
    {left right : ℕ} :
    msgidOf curve gAbt left = msgidOf curve gAbt right ↔ left % q = right % q := by
  simp only [msgidOf]
  rw [pointMsgid_inj encodes, add_right_inj, neg_inj]
  simp only [← Nat.cast_smul_eq_nsmul (ZMod q), curve.smul_gen_inj, ZMod.natCast_mod]
  exact mod_eq_mod_iff_natCast_eq.symm

theorem usedMsgid_eq_iff (encodes : Function.Injective setup.curve.writeBin)
    {earlier : List Fetched} (audited : auditAll setup decoders clSk .fresh earlier = some memory) :
    usedMsgid setup decoders clSk memory fetched = usedMsgid setup decoders clSk .fresh fetched ↔
      (fetched.seen.isSome →
        (auditMessage setup decoders clSk .fresh fetched).isSome →
          Undisturbed setup decoders clSk earlier fetched) := by
  rcases auditAll_eq_some audited with ⟨saved, second⟩
  unfold usedMsgid
  rcases used : auditMessage setup decoders clSk memory fetched with _ | ⟨after, msgid⟩
  · -- the process ends, with any memory
    rw [(auditMessage_eq_none_iff memory .fresh).mp used]
    simp
  rcases alone : auditMessage setup decoders clSk .fresh fetched with _ | ⟨afterFresh, msgidFresh⟩
  · rw [(auditMessage_eq_none_iff .fresh memory).mp alone] at used
    cases used
  rcases auditMessage_eq_some used with ⟨savedAfter, secondAfter, rfl⟩
  rcases auditMessage_eq_some alone with ⟨savedFresh, secondFresh, rfl⟩
  simp only [Memory.fresh, Option.none_or, Option.or_none] at savedFresh secondFresh
  rw [secondAfter, secondFresh, savedAfter, savedFresh, saved, Undisturbed]
  cases fetched.seen with
  | none => simp
  | some buffer =>
    simp only [Option.map_some, Option.bind_some, Option.some.injEq, Option.isSome_some,
      forall_const]
    cases fetched.point setup decoders clSk with
    | none => simp [← second]
    | some gAbt =>
      cases kept : keptScalar setup decoders clSk earlier with
      | none =>
        -- without a scalar there is no id either
        have none : memory.secondMsgid = none := by
          rw [← Option.not_isSome_iff_eq_none, second]
          exact fun leaves => leaves.keptScalar_ne_none kept
        simp [none]
      | some kept =>
        cases fetched.scalar setup decoders clSk with
        | none => simp
        | some own => simp [msgidOf_inj encodes]

/-- The audits of a process are isolated from each other exactly if none of them is disturbed by
what is left behind. -/
theorem audits_isolated_iff (encodes : Function.Injective setup.curve.writeBin)
    (audits : List Fetched) :
    Isolated setup decoders clSk audits ↔
      ∀ earlier fetched, earlier ++ [fetched] <+: audits →
        (auditAll setup decoders clSk .fresh earlier).isSome →
          fetched.seen.isSome → (auditMessage setup decoders clSk .fresh fetched).isSome →
            Undisturbed setup decoders clSk earlier fetched := by
  unfold Isolated
  constructor
  · intro isolated earlier fetched among survives
    rcases Option.isSome_iff_exists.mp survives with ⟨memory, audited⟩
    exact (usedMsgid_eq_iff encodes audited).mp (isolated earlier fetched among memory audited)
  · intro undisturbed earlier fetched among memory audited
    apply (usedMsgid_eq_iff encodes audited).mpr
    exact undisturbed earlier fetched among (by rw [audited]; rfl)

theorem auditMessage_completed (memory : Memory) {buffer : Bytes} {gAbt : E}
    (completed : completedPoint setup decoders clSk buffer = some gAbt) :
    ∃ after, auditMessage setup decoders clSk memory (.message buffer buffer.length) =
        some (after, after.secondMsgid) ∧
      after.savedR0BetaTau = memory.savedR0BetaTau.or (offeredScalar setup decoders clSk buffer) ∧
      after.secondMsgid =
        (after.savedR0BetaTau.map (msgidOf setup.curve gAbt)).or memory.secondMsgid := by
  rcases parseTumblerShare_isSome memory (Option.isSome_iff_exists.mpr ⟨_, completed⟩) with
    ⟨after, parsed⟩
  refine ⟨after, ?_, savedR0BetaTau_of_parseTumblerShare parsed, ?_⟩
  · simp [auditMessage, Fetched.seen, parsed]
  · rw [secondMsgid_of_parseTumblerShare parsed, completed, Option.bind_some]

/-! ### Samples -/

section Samples

open Curve

/-- The text of a value is its place in a list. -/
def labelText (labels : List (C ⊕ ℕ)) (value : C ⊕ ℕ) : Bytes :=
  qfbMark ++ [UInt8.ofNat (labels.findIdx (· = value) + 1)]

def readLabel (labels : List (C ⊕ ℕ)) (text : Bytes) : Option (C ⊕ ℕ) :=
  match text.drop 4 with
  | [byte] => labels[byte.toNat - 1]?
  | _ => none

omit [CommGroup C] in
theorem readLabel_labelText {labels : List (C ⊕ ℕ)} {value : C ⊕ ℕ} (member : value ∈ labels)
    (few : labels.length < 255) :
    (0 : UInt8) ∉ labelText labels value ∧ readLabel labels (labelText labels value) =
      some value := by
  have place : labels.findIdx (· = value) < labels.length :=
    findIdx_lt_length_of_exists ⟨value, member, by simp⟩
  have number : (UInt8.ofNat (labels.findIdx (· = value) + 1)).toNat =
      labels.findIdx (· = value) + 1 := by
    rw [UInt8.toNat_ofNat', Nat.mod_eq_of_lt (by omega)]
  constructor
  · simp only [labelText, mem_append, mem_singleton, not_or]
    refine ⟨by decide, ?_⟩
    intro zero
    rw [← zero] at number
    simp at number
  · change labels[(UInt8.ofNat (labels.findIdx (· = value) + 1)).toNat - 1]? = some value
    rw [number, Nat.add_sub_cancel, getElem?_eq_getElem place]
    simpa using @findIdx_getElem _ (· = value) _ place

def messageValues (message : FirstMessage E C) : List (C ⊕ ℕ) :=
  (Puzzle.forms message.share.randomized ++ Puzzle.forms message.share.original).map .inl ++
    ((record message.share.proof.tumblerProof).values ++
      (record message.share.proof.auditorProof).values)

omit [AddCommGroup E] [CommGroup C] [DecidableEq E] [DecidableEq C] in
theorem length_messageValues (message : FirstMessage E C) : (messageValues message).length = 16 :=
  rfl

def encodedSetup : Setup secp256k1Order (ZMod secp256k1Order)
    (Multiplicative (ZMod secp256k1Order × ℤ)) :=
  { sampleSetup with curve := encodedCurve }

def maskedInputs (r0 : ℕ) (range : 0 < r0 ∧ r0 < secp256k1Order) : RunInputs secp256k1Order :=
  { sampleInputs 2 3 with
    tumbler :=
      { (sampleInputs 2 3).tumbler with
        r0 := r0
        r0_range := range } }

theorem maskedInputs_filed (r0 : ℕ) (range : 0 < r0 ∧ r0 < secp256k1Order) :
    ∃ message, filedMessage encodedSetup (maskedInputs r0 range) = some message := by
  have assumptions : RunAssumptions encodedSetup (maskedInputs r0 range) :=
    { sample_assumptions_two_three with }
  rcases honestRun_isSome assumptions { sample_unobstructed_two_three with } with ⟨bob, run⟩
  exact filedMessage_of_honestRun run

variable (labels : List (Multiplicative (ZMod secp256k1Order × ℤ) ⊕ ℕ))

def sampleDecoders :
    Decoders (ZMod secp256k1Order) (Multiplicative (ZMod secp256k1Order × ℤ)) where
  gpReadStr := readLabel labels
  ecReadBin bytes := some (readBe (bytes.drop 1))
  malloc _ := true
  unset := ⟨⟨.inr 0, 0, .inr 0, .inr 0, .inr 0⟩, ⟨.inr 0, 0, .inr 0, .inr 0, .inr 0⟩⟩
  behind := []

variable {labels}
  {message : FirstMessage (ZMod secp256k1Order) (Multiplicative (ZMod secp256k1Order × ℤ))} {r0 : ℕ}
  {range : 0 < r0 ∧ r0 < secp256k1Order}

theorem sampleDecoders_ecReadBin (point : ZMod secp256k1Order) :
    (sampleDecoders labels).ecReadBin (encodedCurve.writeBin point) = some point := by
  have fits : point.val < 256 ^ 32 := (ZMod.val_lt point).trans (by norm_num [secp256k1Order])
  change some ((readBe (writeBe 32 point.val) : ℕ) : ZMod secp256k1Order) = some point
  rw [readBe_writeBe_of_lt fits, ZMod.natCast_zmod_val]

theorem sample_faithful (few : labels.length < 255) (known : messageValues message ⊆ labels) :
    Faithful encodedCurve (sampleDecoders labels) (labelText labels) sampleText sampleText
      message where
  pointLength := encodesPoints_encodedCurve.length
  points point _ := sampleDecoders_ecReadBin point
  forms form member := by
    have label := readLabel_labelText (known (mem_append_left _ (mem_map_of_mem member))) few
    exact ⟨label.2, by simp [labelText], label.1, by simp [labelText, qfbMark, ascii,
      clCiphertextSize]⟩
  proof value member := by
    have label := readLabel_labelText (known (mem_append_right _ member)) few
    refine ⟨by simp [labelText, qfbMark, ascii], ?_⟩
    rw [cString_of_notMem label.1]
    exact label.2
  memory _ := rfl
  escrowId := by decide
  txHash := by decide

variable (labels message)

def packSample : Bytes :=
  packFirst encodedCurve (labelText labels) sampleText sampleText message

def fetchSample : Fetched :=
  .message (packSample labels message) (packSample labels message).length

variable {labels message}

theorem packSample_effect (filed : filedMessage encodedSetup (maskedInputs r0 range) = some message)
    (masked : (r0 + 2 + 3) % secp256k1Order ≠ 0) (few : labels.length < 255)
    (known : messageValues message ⊆ labels) :
    offeredScalar encodedSetup (sampleDecoders labels) 2
        (packSample labels message) = some ((r0 + 2 + 3) % secp256k1Order) ∧
      completedPoint encodedSetup (sampleDecoders labels) 2
        (packSample labels message) = some 6 := by
  have assumptions : AuditAssumptions encodedSetup (maskedInputs r0 range) 2 :=
    { auditorClPk := rfl
      homomorphic := ClParams.ideal_homomorphic secp256k1Order 2
      masked_ne_zero := masked }
  have point : message.share.randomized.point = 6 := by
    have solution := solution_smul_gen filed
    rw [show ((maskedInputs r0 range).tumbler.alpha + (maskedInputs r0 range).bob.scalar +
      (maskedInputs r0 range).alice.scalar) % secp256k1Order = 6 from sample_solution] at solution
    simpa [encodedSetup, encodedCurve, sampleCurve, PrimeOrderGroup.residues] using solution.symm
  have effect := effect_packFirst (sample_faithful few known) (filedMessage_eq_some filed).2 2
  rw [clDec_auditorCtx assumptions filed, point] at effect
  exact effect

theorem auditSample (memory : Memory)
    (filed : filedMessage encodedSetup (maskedInputs r0 range) = some message)
    (masked : (r0 + 2 + 3) % secp256k1Order ≠ 0) (few : labels.length < 255)
    (known : messageValues message ⊆ labels) :
    ∃ after, auditMessage encodedSetup (sampleDecoders labels) 2 memory
        (fetchSample labels message) = some (after, after.secondMsgid) ∧
      after.savedR0BetaTau = some (memory.savedR0BetaTau.getD ((r0 + 2 + 3) % secp256k1Order)) ∧
      after.secondMsgid =
        some (msgidOf encodedCurve 6
          (memory.savedR0BetaTau.getD ((r0 + 2 + 3) % secp256k1Order))) := by
  rcases packSample_effect filed masked few known with ⟨offered, completed⟩
  rcases auditMessage_completed memory completed with ⟨after, audited, saved, second⟩
  have kept : after.savedR0BetaTau =
      some (memory.savedR0BetaTau.getD ((r0 + 2 + 3) % secp256k1Order)) := by
    rw [saved, offered]
    cases memory.savedR0BetaTau <;> rfl
  refine ⟨after, audited, kept, ?_⟩
  rw [second, kept]
  rfl

theorem audits_isolated_twice :
    ∃ labels message, filedMessage encodedSetup (maskedInputs 2 (by decide)) = some message ∧
      Isolated encodedSetup (sampleDecoders labels) 2
        [fetchSample labels message, fetchSample labels message] := by
  rcases maskedInputs_filed 2 (by decide) with ⟨message, filed⟩
  set labels := messageValues message with labels_eq
  have few : labels.length < 255 := by
    simp [labels_eq, length_messageValues]
  have effect := packSample_effect filed (by decide) few (List.Subset.refl _)
  have seen : (fetchSample labels message).seen = some (packSample labels message) := by
    simp [fetchSample, Fetched.seen]
  refine ⟨labels, message, filed, ?_⟩
  apply (audits_isolated_iff encodesPoints_encodedCurve.injective _).mpr
  intro earlier fetched among _ _ _
  have repeated : ∀ audit ∈ earlier ++ [fetched], audit = fetchSample labels message := by
    intro audit member
    simpa using among.subset member
  rw [repeated fetched (by simp), Undisturbed, Fetched.point, Fetched.scalar, seen,
    Option.bind_some, Option.bind_some, effect.1, effect.2]
  cases kept : keptScalar encodedSetup (sampleDecoders labels) 2 earlier with
  | none => exact Or.inl rfl
  | some scalar =>
    -- what is kept was offered by an earlier audit, which is the same one
    rcases exists_of_findSome?_eq_some kept with ⟨audit, member, offered⟩
    rw [repeated audit (mem_append_left _ member), Fetched.scalar, seen, Option.bind_some,
      effect.1, Option.some.injEq] at offered
    exact Or.inr ⟨scalar, _, rfl, rfl, by rw [offered]⟩

/-- Two honest runs, audited by one process: the second audit asks for the message that belongs to
the first run, and so does an audit whose own message is a single byte. -/
theorem later_audits_disturbed :
    ∃ labels first second,
      filedMessage encodedSetup (maskedInputs 2 (by decide)) = some first ∧
      filedMessage encodedSetup (maskedInputs (secp256k1Order - 2) (by decide)) = some second ∧
      let decoders := sampleDecoders labels
      ∃ memory, auditAll encodedSetup decoders 2 .fresh [fetchSample labels first] = some memory ∧
        usedMsgid encodedSetup decoders 2 memory (fetchSample labels second) =
          some (some (pointMsgid encodedCurve (-1))) ∧
        usedMsgid encodedSetup decoders 2 .fresh (fetchSample labels second) =
          some (some (pointMsgid encodedCurve 3)) ∧
        usedMsgid encodedSetup decoders 2 memory (.message [0] 1) =
          some (some (pointMsgid encodedCurve (-1))) ∧
        usedMsgid encodedSetup decoders 2 .fresh (.message [0] 1) = some none ∧
        ¬Isolated encodedSetup decoders 2
          [fetchSample labels first, fetchSample labels second] := by
  rcases maskedInputs_filed 2 (by decide) with ⟨first, firstFiled⟩
  rcases maskedInputs_filed (secp256k1Order - 2) (by decide) with ⟨second, secondFiled⟩
  set labels := messageValues first ++ messageValues second with labels_eq
  have few : labels.length < 255 := by
    simp [labels_eq, length_messageValues]
  rcases auditSample .fresh firstFiled (by decide) few (subset_append_left _ _) with
    ⟨memory, firstAudited, saved, msgid⟩
  rcases auditSample memory secondFiled (by decide) few (subset_append_right _ _) with
    ⟨after, secondAudited, -, secondMsgid⟩
  rcases auditSample .fresh secondFiled (by decide) few (subset_append_right _ _) with
    ⟨afterFresh, freshAudited, -, freshMsgid⟩
  have seven : msgidOf encodedCurve 6 7 = pointMsgid encodedCurve (-1) :=
    congrArg (pointMsgid encodedCurve) (by decide)
  have three : msgidOf encodedCurve 6 3 = pointMsgid encodedCurve 3 :=
    congrArg (pointMsgid encodedCurve) (by decide)
  have sevenKept : (2 + 2 + 3) % secp256k1Order = 7 := by decide
  have threeOwn : (secp256k1Order - 2 + 2 + 3) % secp256k1Order = 3 := by decide
  rw [sevenKept] at saved msgid
  rw [saved] at secondMsgid
  rw [threeOwn] at freshMsgid
  have shared : memory.secondMsgid = some (pointMsgid encodedCurve (-1)) := by
    rw [msgid, ← seven]
    rfl
  have later : after.secondMsgid = some (pointMsgid encodedCurve (-1)) := by
    rw [secondMsgid, ← seven]
    rfl
  have alone : afterFresh.secondMsgid = some (pointMsgid encodedCurve 3) := by
    rw [freshMsgid, ← three]
    rfl
  have run : auditAll encodedSetup (sampleDecoders labels) 2 .fresh
      [fetchSample labels first] = some memory := by
    simp [auditAll, firstAudited]
  refine ⟨labels, first, second, firstFiled, secondFiled, memory, run, ?_, ?_, ?_, rfl, ?_⟩
  · rw [usedMsgid, secondAudited, ← later]
    rfl
  · rw [usedMsgid, freshAudited, ← alone]
    rfl
  · rw [← shared]
    rfl
  · intro isolated
    have same := isolated [fetchSample labels first] (fetchSample labels second) prefix_rfl
      memory run
    rw [usedMsgid, usedMsgid, secondAudited, freshAudited] at same
    simp only [Option.map_some, Option.some.injEq, later, alone] at same
    rw [pointMsgid_inj encodesPoints_encodedCurve.injective] at same
    revert same
    decide

end Samples

end TigerMixer.Auditor
