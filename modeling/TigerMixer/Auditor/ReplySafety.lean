import TigerMixer.Receiver.AuditRequest

/-!
# Which memory the parsing of replies touches

The parser of `fetch_shares_by_msgid` with every access checked. Unsafe replies are those that end
inside a text they are compared with, those that are too short for any format, and those whose
records exceed a block that an earlier reallocation has made too small or has lost.
-/

namespace TigerMixer.Auditor

open Bytes SecretShare List

def statusTexts : List Bytes :=
  noAuditNeeded :: errorTexts

/-! ### Checked accesses -/

def inReply (reply : Bytes) (offset length : ℕ) : Option Bytes :=
  if offset + length ≤ reply.length then some (slice reply offset length) else none

def checkedBlocks (reply : Bytes) (participantId : ℤ) : ℕ → ℕ → Collected → Option Collected
  | 0, _, collected => some collected
  | remaining + 1, offset, collected =>
    if reply.length ≤ offset then some collected
    else if reply.length < offset + 28 then some collected
    else if collected.hasRoom = false then none
    else do
      let blockIndex ← inReply reply offset 8
      let blockSize ← inReply reply (offset + 8) 8
      let dataLength ← inReply reply (offset + 16) 8
      let sizeField ← inReply reply (offset + 24) 4
      let shareDataSize := readSize sizeField
      let next := (offset + 28 + shareDataSize) % 2 ^ 64
      if reply.length < next then some collected
      else if shareSize < (shareDataSize + 4) % 2 ^ 64 then some collected
      else do
        let y ← inReply reply (offset + 24) ((shareDataSize + 4) % 2 ^ 64)
        if shareSize < y.length then none
        else
          checkedBlocks reply participantId remaining next
            { collected with
              records := collected.records ++ [some
                { x := participantId
                  blockIndex := readLe blockIndex
                  blockSize := readLe blockSize
                  dataLength := readLe dataLength
                  y := y }] }

def checkedLegacy (reply : Bytes) (collected : Collected) : Option Collected :=
  if collected.hasRoom = false then none
  else do
    let x ← inReply reply 0 4
    let dataLength ← inReply reply 4 8
    let y ← inReply reply 12 (readLe dataLength)
    if shareSize < y.length then none
    else
      some { collected with
        records := collected.records ++ [some
          { x := readInt x
            blockIndex := 0
            blockSize := readLe dataLength
            dataLength := readLe dataLength
            y := y }] }

def checkedReply (heap : ℕ) (reply : Bytes) (collected : Collected) : Option Collected :=
  if reply = [] then some collected
  else do
    let count := collected.records.length
    if ← startsWithAny reply statusTexts then some collected
    else if 12 ≤ reply.length then do
      let participantId ← inReply reply 0 4
      let numBlocks ← inReply reply 4 8
      collected.reserve heap ((count + readLe numBlocks) % 2 ^ 64)
        ((count + readLe numBlocks + 100) % 2 ^ 64)
        (checkedBlocks reply (readInt participantId) (readLe numBlocks) 12)
    else collected.reserve heap (count + 1) (count + 10) (checkedLegacy reply)

def checkedCollectShares (heap : ℕ) : List (Option Bytes) → Collected → Option Collected
  | [], collected => some collected
  | none :: replies, collected => checkedCollectShares heap replies collected
  | some reply :: replies, collected => do
      let extended ← checkedReply heap reply collected
      checkedCollectShares heap replies extended

section Refinement

variable {reply : Bytes} {participantId : ℤ} {offset : ℕ}

theorem inReply_eq_some {length : ℕ} (bound : offset + length ≤ reply.length) :
    inReply reply offset length = some (slice reply offset length) :=
  if_pos bound

theorem readLe_lt_of_length {bytes : Bytes} {width : ℕ} (short : bytes.length ≤ width) :
    readLe bytes < 256 ^ width :=
  (readLe_lt bytes).trans_le (Nat.pow_le_pow_right (by decide) short)

theorem checked_value {β : Type*} (machine : reply.length < 2 ^ 63)
    (head : offset + 28 ≤ reply.length)
    (next : (offset + 28 + readSize (slice reply (offset + 24) 4)) % 2 ^ 64 ≤ reply.length)
    (fits : (readSize (slice reply (offset + 24) 4) + 4) % 2 ^ 64 ≤ shareSize)
    (rest : Bytes → Option β) :
    ((inReply reply (offset + 24) ((readSize (slice reply (offset + 24) 4) + 4) % 2 ^ 64)).bind
        fun y => if shareSize < y.length then none else rest y) =
      rest (slice reply (offset + 24) ((readSize (slice reply (offset + 24) 4) + 4) % 2 ^ 64)) := by
  have bound : readLe (slice reply (offset + 24) 4) < 2 ^ 32 :=
    readLe_lt_of_length (length_take_le _ _)
  have inside : offset + 24 + (readSize (slice reply (offset + 24) 4) + 4) % 2 ^ 64 ≤
      reply.length := by
    simp only [shareSize] at fits
    rw [readSize] at next fits ⊢
    split_ifs at next fits ⊢ <;> omega
  rw [inReply_eq_some inside, Option.bind_some, if_neg]
  exact not_lt.mpr ((length_take_le _ _).trans fits)

theorem checkedBlocks_eq (machine : reply.length < 2 ^ 63) (remaining offset : ℕ)
    (collected : Collected) :
    checkedBlocks reply participantId remaining offset collected =
      parseBlocks reply participantId remaining offset collected := by
  induction remaining generalizing offset collected with
  | zero => rfl
  | succ remaining ih =>
    rw [checkedBlocks, parseBlocks]
    split_ifs with ended short room
    · rfl
    · rfl
    · rfl
    · rw [inReply_eq_some (by omega), inReply_eq_some (by omega), inReply_eq_some (by omega),
        inReply_eq_some (by omega)]
      simp only [Option.bind_eq_bind, Option.bind_some]
      split_ifs with beyond large
      · rfl
      · rfl
      · rw [checked_value machine (by omega) (not_lt.mp beyond) (not_lt.mp large), ih]

theorem checkedLegacy_eq (short : reply.length < 12) (collected : Collected) :
    checkedLegacy reply collected = none := by
  have header : inReply reply 4 8 = none := if_neg (by omega)
  rw [checkedLegacy]
  split_ifs with room
  · rfl
  · rw [header]
    cases inReply reply 0 4 <;> rfl

theorem checkedReply_eq (machine : reply.length < 2 ^ 63) (heap : ℕ) (collected : Collected) :
    checkedReply heap reply collected = parseReply heap reply collected := by
  by_cases empty : reply = []
  · rw [checkedReply, parseReply, if_pos empty, if_pos empty]
  rw [checkedReply, parseReply, if_neg empty, if_neg empty]
  change (startsWithAny reply statusTexts).bind _ = (startsWithAny reply statusTexts).bind _
  congr
  funext isStatus
  by_cases packed : 12 ≤ reply.length
  · have blocks : checkedBlocks reply (readInt (slice reply 0 4)) (readLe (slice reply 4 8)) 12 =
        parseBlocks reply (readInt (slice reply 0 4)) (readLe (slice reply 4 8)) 12 :=
      funext (checkedBlocks_eq machine _ _)
    rw [if_pos packed, if_pos packed, inReply_eq_some (by omega), inReply_eq_some (by omega),
      Option.bind_eq_bind, Option.bind_some, Option.bind_some, blocks]
  · have legacy : checkedLegacy reply = fun _ => none :=
      funext (checkedLegacy_eq (not_le.mp packed))
    rw [if_neg packed, if_neg packed, legacy]

theorem checkedCollectShares_eq {replies : List (Option Bytes)}
    (machine : ∀ reply, some reply ∈ replies → reply.length < 2 ^ 63) (heap : ℕ)
    (collected : Collected) :
    checkedCollectShares heap replies collected = collectShares heap replies collected := by
  induction replies generalizing collected with
  | nil => rfl
  | cons reply replies ih =>
    have later := ih
      fun reply member => machine reply (mem_cons_of_mem _ member)
    cases reply with
    | none => exact later collected
    | some reply =>
      rw [checkedCollectShares, collectShares, checkedReply_eq (machine reply mem_cons_self)]
      congr
      funext extended
      exact later extended

end Refinement

/-! ### Scanning the records -/

/-- The records of a packed reply that are taken, and whether a further one is cleared before its
length is found to be too large. -/
def scanBlocks (reply : Bytes) (participantId : ℤ) : ℕ → ℕ → List Share × Bool
  | 0, _ => ([], false)
  | remaining + 1, offset =>
    if reply.length ≤ offset then ([], false)
    else if reply.length < offset + 28 then ([], false)
    else
      let shareDataSize := readSize (slice reply (offset + 24) 4)
      let next := (offset + 28 + shareDataSize) % 2 ^ 64
      if reply.length < next then ([], true)
      else if shareSize < (shareDataSize + 4) % 2 ^ 64 then ([], true)
      else
        let share : Share :=
          { x := participantId
            blockIndex := readLe (slice reply offset 8)
            blockSize := readLe (slice reply (offset + 8) 8)
            dataLength := readLe (slice reply (offset + 16) 8)
            y := slice reply (offset + 24) ((shareDataSize + 4) % 2 ^ 64) }
        let later := scanBlocks reply participantId remaining next
        (share :: later.1, later.2)

def touched (scan : List Share × Bool) : ℕ :=
  scan.1.length + scan.2.toNat

def Collected.Holds (collected : Collected) (count : ℕ) : Prop :=
  count = 0 ∨ (collected.records.length + count) * recordSize ≤ collected.block.getD 0

instance (collected : Collected) (count : ℕ) : Decidable (collected.Holds count) :=
  inferInstanceAs (Decidable (_ ∨ _))

def Collected.extend (collected : Collected) (shares : List Share) : Collected :=
  { collected with records := collected.records ++ shares.map some }

section Scan

variable {reply : Bytes} {participantId : ℤ} {collected : Collected} {count : ℕ}

theorem Collected.hasRoom_iff :
    collected.hasRoom = true ↔
      (collected.records.length + 1) * recordSize ≤ collected.block.getD 0 := by
  rw [Collected.hasRoom]
  cases collected.block with
  | none => simp [recordSize]
  | some bytes => simp

theorem Collected.holds_one : collected.Holds 1 ↔ collected.hasRoom = true := by
  rw [Collected.hasRoom_iff, Collected.Holds, or_iff_right one_ne_zero]

theorem Collected.holds_succ (share : Share) :
    collected.Holds (count + 1) ↔
      collected.hasRoom = true ∧ (collected.extend [share]).Holds count := by
  rw [Collected.hasRoom_iff, Collected.Holds, or_iff_right (Nat.succ_ne_zero count),
    Collected.Holds]
  simp only [Collected.extend, length_append, length_map, length_singleton]
  rcases Nat.eq_zero_or_pos count with none | positive
  · simp [none]
  · rw [or_iff_right positive.ne', show collected.records.length + (count + 1) =
      collected.records.length + 1 + count by omega]
    refine ⟨fun room => ⟨?_, room⟩, fun room => room.2⟩
    exact (Nat.mul_le_mul_right recordSize (by omega)).trans room

theorem Collected.extend_nil : collected.extend [] = collected := by
  simp [Collected.extend]

theorem Collected.take_nothing :
    (if collected.Holds (touched ([], false)) then some (collected.extend []) else none) =
      some collected := by
  rw [if_pos (.inl rfl), Collected.extend_nil]

theorem Collected.clear_one :
    (if collected.Holds (touched ([], true)) then some (collected.extend []) else none) =
      if collected.hasRoom = false then none else some collected := by
  have one : touched ([], true) = 1 := rfl
  rw [Collected.extend_nil, one]
  by_cases room : collected.hasRoom = true
  · rw [if_pos (Collected.holds_one.mpr room), if_neg (by simp [room])]
  · rw [if_neg (mt Collected.holds_one.mp room), if_pos (by simpa using room)]

theorem Collected.extend_cons (share : Share) (shares : List Share) :
    collected.extend (share :: shares) = (collected.extend [share]).extend shares := by
  simp [Collected.extend]

theorem Collected.take_one (share : Share) (later : List Share × Bool) :
    (if collected.Holds (touched (share :: later.1, later.2)) then
        some (collected.extend (share :: later.1)) else none) =
      if collected.hasRoom = false then none
      else if (collected.extend [share]).Holds (touched later) then
        some ((collected.extend [share]).extend later.1) else none := by
  have count : touched (share :: later.1, later.2) = touched later + 1 := by
    simp only [touched, length_cons]
    omega
  rw [count, Collected.extend_cons]
  simp only [Collected.holds_succ share]
  cases collected.hasRoom <;> simp

theorem parseBlocks_eq (remaining offset : ℕ) (collected : Collected) :
    parseBlocks reply participantId remaining offset collected =
      if collected.Holds (touched (scanBlocks reply participantId remaining offset)) then
        some (collected.extend (scanBlocks reply participantId remaining offset).1)
      else none := by
  induction remaining generalizing offset collected with
  | zero => exact Collected.take_nothing.symm
  | succ remaining ih =>
    simp only [parseBlocks, scanBlocks]
    by_cases ended : reply.length ≤ offset
    · rw [if_pos ended, if_pos ended, Collected.take_nothing]
    rw [if_neg ended, if_neg ended]
    by_cases short : reply.length < offset + 28
    · rw [if_pos short, if_pos short, Collected.take_nothing]
    rw [if_neg short, if_neg short]
    by_cases beyond : reply.length <
        (offset + 28 + readSize (slice reply (offset + 24) 4)) % 2 ^ 64
    · rw [if_pos beyond, if_pos beyond, Collected.clear_one]
    rw [if_neg beyond, if_neg beyond]
    by_cases large : shareSize < (readSize (slice reply (offset + 24) 4) + 4) % 2 ^ 64
    · rw [if_pos large, if_pos large, Collected.clear_one]
    rw [if_neg large, if_neg large, ih]
    exact (Collected.take_one _ _).symm

end Scan

/-! ### Safe replies -/

def scanReply (reply : Bytes) : List Share × Bool :=
  scanBlocks reply (readInt (slice reply 0 4)) (readLe (slice reply 4 8)) 12

def neededFor (reply : Bytes) (count : ℕ) : ℕ :=
  if 12 ≤ reply.length then (count + readLe (slice reply 4 8)) % 2 ^ 64 else count + 1

def requestedFor (reply : Bytes) (count : ℕ) : ℕ :=
  if 12 ≤ reply.length then (count + readLe (slice reply 4 8) + 100) % 2 ^ 64 else count + 10

/-- The array into which a reply is read; `none` when a reallocation has failed. -/
def Collected.prepare (heap : ℕ) (reply : Bytes) (collected : Collected) : Option Collected :=
  if collected.capacity < neededFor reply collected.records.length then
    let resized := collected.realloc heap (requestedFor reply collected.records.length)
    if resized.block = none then none else some resized
  else some collected

def Collected.lost (heap : ℕ) (reply : Bytes) (collected : Collected) : Collected :=
  collected.realloc heap (requestedFor reply collected.records.length)

def IsStatus (reply : Bytes) : Prop :=
  ∃ text ∈ statusTexts, text <+: reply

def CutOff (reply : Bytes) : Prop :=
  ∃ text ∈ statusTexts, reply <+: text ∧ reply ≠ text

instance (reply : Bytes) : Decidable (CutOff reply) :=
  inferInstanceAs (Decidable (∃ text ∈ statusTexts, _))

/-- The comparisons end inside the reply, and if it is no status text and its memory is not refused,
it has the packed format and its records have room. -/
def SafeReply (heap : ℕ) (reply : Bytes) (collected : Collected) : Prop :=
  reply = [] ∨ ¬CutOff reply ∧ (IsStatus reply ∨
    ∀ prepared, collected.prepare heap reply = some prepared →
      12 ≤ reply.length ∧ prepared.Holds (touched (scanReply reply)))

def InTurn (heap : ℕ) (P : Bytes → Collected → Prop) (replies : List (Option Bytes))
    (collected : Collected) : Prop :=
  ∀ before reply after reached, replies = before ++ some reply :: after →
    collectShares heap before collected = some reached → P reply reached

section Safe

variable {heap : ℕ} {reply : Bytes} {collected : Collected}

theorem statusTexts_apart : ∀ first ∈ statusTexts, ∀ second ∈ statusTexts,
    first <+: second → first = second := by
  decide

theorem startsWithAny_cases {texts : List Bytes}
    (apart : ∀ first ∈ texts, ∀ second ∈ texts, first <+: second → first = second) :
    (startsWithAny reply texts = none ↔ ∃ text ∈ texts, reply <+: text ∧ reply ≠ text) ∧
      (startsWithAny reply texts = some true ↔ ∃ text ∈ texts, text <+: reply) := by
  induction texts with
  | nil => simp [startsWithAny]
  | cons text texts ih =>
    rcases ih fun first isFirst second isSecond =>
      apart first (mem_cons_of_mem _ isFirst) second (mem_cons_of_mem _ isSecond) with
      ⟨cut, status⟩
    rw [startsWithAny, startsWith]
    by_cases leads : text <+: reply
    · rw [if_pos (List.isPrefixOf_iff_prefix.mpr leads)]
      refine ⟨iff_of_false (by simp) ?_, iff_of_true (by simp) ⟨_, mem_cons_self, leads⟩⟩
      rintro ⟨other, member, inside, different⟩
      have same := apart text mem_cons_self other member (leads.trans inside)
      subst same
      exact different (inside.eq_of_length_le leads.length_le)
    rw [if_neg (mt isPrefixOf_iff_prefix.mp leads)]
    by_cases inside : reply <+: text
    · rw [if_pos (List.isPrefixOf_iff_prefix.mpr inside)]
      refine ⟨iff_of_true (by simp) ⟨text, mem_cons_self, inside, ?_⟩, iff_of_false (by simp) ?_⟩
      · rintro rfl
        exact leads (prefix_refl _)
      · rintro ⟨other, member, leadsOther⟩
        have same := apart other member text mem_cons_self (leadsOther.trans inside)
        subst same
        exact leads leadsOther
    · rw [if_neg (mt isPrefixOf_iff_prefix.mp inside)]
      simp only [Option.bind_eq_bind, Option.bind_some, Bool.false_eq_true, if_false, cut, status,
        exists_mem_cons_iff, inside, leads, false_and, false_or, and_self]

theorem startsWithAny_eq_none_iff : startsWithAny reply statusTexts = none ↔ CutOff reply :=
  (startsWithAny_cases statusTexts_apart).1

theorem startsWithAny_eq_true_iff :
    startsWithAny reply statusTexts = some true ↔ IsStatus reply :=
  (startsWithAny_cases statusTexts_apart).2

theorem Collected.reserve_eq (fill : Collected → Option Collected) :
    collected.reserve heap (neededFor reply collected.records.length)
        (requestedFor reply collected.records.length) fill =
      match collected.prepare heap reply with
      | none => some (collected.lost heap reply)
      | some prepared => fill prepared := by
  simp only [Collected.reserve, Collected.prepare, Collected.lost]
  split_ifs <;> rfl

theorem parseReply_eq (nonempty : reply ≠ []) (whole : ¬CutOff reply) (other : ¬IsStatus reply) :
    parseReply heap reply collected =
      match collected.prepare heap reply with
      | none => some (collected.lost heap reply)
      | some prepared =>
        if 12 ≤ reply.length ∧ prepared.Holds (touched (scanReply reply)) then
          some (prepared.extend (scanReply reply).1)
        else none := by
  have compared : startsWithAny reply statusTexts = some false := by
    cases result : startsWithAny reply statusTexts with
    | none => exact absurd (startsWithAny_eq_none_iff.mp result) whole
    | some isStatus =>
      cases isStatus with
      | false => rfl
      | true => exact absurd (startsWithAny_eq_true_iff.mp result) other
  rw [parseReply, if_neg nonempty]
  change (startsWithAny reply statusTexts).bind _ = _
  rw [compared, Option.bind_some, if_neg Bool.false_ne_true]
  have reserved := @Collected.reserve_eq heap reply collected
  by_cases packed : 12 ≤ reply.length
  · rw [neededFor, requestedFor, if_pos packed, if_pos packed] at reserved
    simp only [reserved, parseBlocks_eq, packed, true_and]
    rfl
  · rw [neededFor, requestedFor, if_neg packed, if_neg packed] at reserved
    simp only [reserved, packed, false_and, if_false]

theorem parseReply_of_isStatus (nonempty : reply ≠ []) (status : IsStatus reply) :
    parseReply heap reply collected = some collected := by
  rw [parseReply, if_neg nonempty]
  change (startsWithAny reply statusTexts).bind _ = _
  rw [startsWithAny_eq_true_iff.mpr status, Option.bind_some, if_pos rfl]

theorem parseReply_of_cutOff (nonempty : reply ≠ []) (cut : CutOff reply) :
    parseReply heap reply collected = none := by
  rw [parseReply, if_neg nonempty]
  change (startsWithAny reply statusTexts).bind _ = _
  rw [startsWithAny_eq_none_iff.mpr cut, Option.bind_none]

theorem parseReply_isSome_iff :
    (parseReply heap reply collected).isSome ↔ SafeReply heap reply collected := by
  by_cases empty : reply = []
  · simp [parseReply, SafeReply, empty]
  rw [SafeReply, or_iff_right empty]
  by_cases cut : CutOff reply
  · simp [parseReply_of_cutOff empty cut, cut]
  by_cases status : IsStatus reply
  · simp [parseReply_of_isStatus empty status, cut, status]
  rw [parseReply_eq empty cut status, and_iff_right cut, or_iff_right status]
  cases collected.prepare heap reply with
  | none => simp
  | some prepared =>
    simp only [Option.some.injEq, forall_eq']
    split_ifs with safe
    · exact iff_of_true rfl safe
    · exact iff_of_false (by simp) safe

section InTurn

variable {P : Bytes → Collected → Prop} {replies : List (Option Bytes)}

theorem inTurn_nil : InTurn heap P [] collected := by
  intro before reply after reached split
  simp at split

theorem inTurn_cons_none :
    InTurn heap P (none :: replies) collected ↔ InTurn heap P replies collected := by
  constructor
  · intro all before reply after reached split collects
    exact all (none :: before) reply after reached (by rw [split]; rfl) collects
  · intro all before reply after reached split
    cases before with
    | nil => simp at split
    | cons head before =>
      rw [cons_append, List.cons.injEq] at split
      rw [← split.1, collectShares]
      exact all before reply after reached split.2

theorem inTurn_cons_some :
    InTurn heap P (some reply :: replies) collected ↔
      P reply collected ∧ ∀ extended, parseReply heap reply collected = some extended →
        InTurn heap P replies extended := by
  constructor
  · intro all
    refine ⟨all [] reply replies collected rfl rfl, ?_⟩
    intro extended parsed before later after reached split collects
    apply all (some reply :: before) later after reached (by rw [split]; rfl)
    rw [collectShares, parsed]
    exact collects
  · rintro ⟨first, rest⟩ before later after reached split collects
    cases before with
    | nil =>
      rw [nil_append, List.cons.injEq, Option.some.injEq] at split
      obtain rfl : collected = reached := Option.some.inj collects
      rwa [← split.1]
    | cons head before =>
      rw [cons_append, List.cons.injEq] at split
      rw [← split.1, collectShares] at collects
      rcases Option.bind_eq_some_iff.mp collects with ⟨extended, parsed, collects⟩
      exact rest extended parsed before later after reached split.2 collects

end InTurn

theorem collectShares_isSome_iff (replies : List (Option Bytes)) (collected : Collected) :
    (collectShares heap replies collected).isSome ↔
      InTurn heap (SafeReply heap) replies collected := by
  induction replies generalizing collected with
  | nil => exact iff_of_true rfl inTurn_nil
  | cons first replies ih =>
    cases first with
    | none => rw [collectShares, ih, inTurn_cons_none]
    | some first =>
      rw [collectShares, inTurn_cons_some, ← parseReply_isSome_iff]
      cases parseReply heap first collected with
      | none => simp
      | some extended =>
        rw [Option.bind_eq_bind, Option.bind_some, ih]
        simp

end Safe

/-- All accesses of the parser are inside exactly if every reply is safe for the array that the
replies before it have left. -/
theorem replies_parsed_safely_iff (heap : ℕ) (replies : List (Option Bytes))
    (machine : ∀ reply, some reply ∈ replies → reply.length < 2 ^ 63) :
    (checkedCollectShares heap replies .empty).isSome ↔
      InTurn heap (SafeReply heap) replies .empty := by
  rw [checkedCollectShares_eq machine, collectShares_isSome_iff]

theorem packed_parsed_safely :
    (checkedCollectShares (2 ^ 20)
      [some (packShares 1 [⟨1, 0, encodeValue 7, 2, 1⟩, ⟨1, 1, encodeValue 300, 2, 1⟩]), none,
        some noAuditNeeded] .empty).isSome := by
  apply (replies_parsed_safely_iff _ _ ?_).mpr
  · exact (collectShares_isSome_iff _ _).mp (by decide +kernel)
  · simp only [mem_cons, Option.some.injEq, reduceCtorEq, not_mem_nil, or_false, false_or]
    rintro reply (rfl | rfl) <;> decide

/-- The answer to a request for another leg is shorter than the header that is read. A missing file
is read as so many records that their memory is refused, and the next record is written through a
null pointer. -/
theorem replies_parsed_unsafely :
    checkedCollectShares (2 ^ 40) [some Receiver.invalidTag] .empty = none ∧
      checkedCollectShares (2 ^ 40) [some Receiver.fileNotFound, some (packShares 2
        [{ x := 2, blockIndex := 0, y := encodeValue 7, dataLength := 1, blockSize := 1 }])]
          .empty = none := by
  decide +kernel

end TigerMixer.Auditor
