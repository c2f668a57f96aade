import TigerMixer.Algebra.Recovery
import TigerMixer.Algebra.Secp256k1
import TigerMixer.Escrow.Contract

/-!
# The signature verifier

`verifySignature` takes the parity of the nonce point from the caller and accepts only the smaller
one of the two possible second components, so a digest, a first component and a signer leave one
signature. `verifySignatureManual` tries both parities, but hashes the public key with the prefix of
its uncompressed encoding: it accepts nothing.
-/

namespace TigerMixer.Escrow

universe u

section Recovery

variable {E : Type u} [AddCommGroup E] [Module (ZMod secp256k1Order) E]

/-- `ecrecover` returns the address of the key that the signature determines, and zero if there is
none. -/
structure Recovers (group : PrimeOrderGroup secp256k1Order E) (coordinates : Coordinates E)
    (address : E → Address) (ecrecover : ℕ → ℕ → ℕ → ℕ → Address) : Prop where
  recovered : ∀ {digest v r s key}, v = 27 ∨ v = 28 →
    group.Recovered coordinates digest (v - 27) r s key → ecrecover digest v r s = address key
  failed : ∀ {digest v r s}, v = 27 ∨ v = 28 →
    (∀ key, ¬group.Recovered coordinates digest (v - 27) r s key) → ecrecover digest v r s = 0

variable {group : PrimeOrderGroup secp256k1Order E} {coordinates : Coordinates E}
  {address : E → Address} {primitives : Primitives}

theorem Recovers.exists_key (recovers : Recovers group coordinates address primitives.ecrecover)
    {digest v r s : ℕ} (parity : v = 27 ∨ v = 28)
    (nonzero : primitives.ecrecover digest v r s ≠ 0) :
    ∃ key, group.Recovered coordinates digest (v - 27) r s key ∧
      primitives.ecrecover digest v r s = address key := by
  by_contra none
  apply nonzero
  apply recovers.failed parity
  intro key recovered
  exact none ⟨key, recovered, recovers.recovered parity recovered⟩

theorem verifySignature_unique (recovers : Recovers group coordinates address primitives.ecrecover)
    (injective : Function.Injective address) {messageHash r s v s' v' : ℕ} {signer : Address}
    (accepted : verifySignature primitives messageHash ⟨r, s, v⟩ signer = some true)
    (accepted' : verifySignature primitives messageHash ⟨r, s', v'⟩ signer = some true) :
    (s, v) = (s', v') := by
  rcases verifySignature_eq_true_iff.mp accepted with ⟨nonzero, parity, -, -, low, recovered⟩
  rcases verifySignature_eq_true_iff.mp accepted' with ⟨-, parity', -, -, low', recovered'⟩
  dsimp only at parity parity' low low' recovered recovered'
  rcases recovers.exists_key parity (by rwa [recovered]) with ⟨key, fits, found⟩
  rcases recovers.exists_key parity' (by rwa [recovered']) with ⟨key', fits', found'⟩
  have sameKey : key = key' := by
    apply injective
    rw [← found, ← found', recovered, recovered']
  subst sameKey
  rcases fits.eq_or_add_eq fits' with ⟨sameS, sameParity⟩ | sum
  · have sameV : v = v' := by omega
    rw [sameS, sameV]
  · have bound : maxS + maxS < secp256k1Order := by norm_num [maxS, secp256k1Order]
    omega

/-- Of the signatures with the same first component, one at most is accepted for a message and a
signer. -/
theorem signature_nonmalleable (recovers : Recovers group coordinates address primitives.ecrecover)
    (injective : Function.Injective address) :
    (∀ messageHash r signer s v s' v',
      verifySignature primitives messageHash ⟨r, s, v⟩ signer = some true →
        verifySignature primitives messageHash ⟨r, s', v'⟩ signer = some true → (s, v) = (s', v')) ∧
    ∀ transactionData r signer s v s' v',
      verifyAliceSignature primitives transactionData ⟨r, s, v⟩ signer = some true →
        verifyAliceSignature primitives transactionData ⟨r, s', v'⟩ signer = some true →
          (s, v) = (s', v') := by
  constructor
  · intro messageHash r signer s v s' v' accepted accepted'
    exact verifySignature_unique recovers injective accepted accepted'
  · intro transactionData r signer s v s' v' accepted accepted'
    exact verifySignature_unique recovers injective accepted accepted'

open Classical in
/-- A function that recovers as it should. Irreducible, so that unification does not look into the
group. -/
@[irreducible]
noncomputable def recoverAddress (group : PrimeOrderGroup secp256k1Order E)
    (coordinates : Coordinates E) (address : E → Address) (digest v r s : ℕ) : Address :=
  if found : ∃ key, group.Recovered coordinates digest (v - 27) r s key then address found.choose
  else 0

theorem recovers_recoverAddress (group : PrimeOrderGroup secp256k1Order E)
    (coordinates : Coordinates E) (address : E → Address) :
    Recovers group coordinates address (recoverAddress group coordinates address) where
  recovered := by
    intro digest v r s key _ recovered
    have found : ∃ key, group.Recovered coordinates digest (v - 27) r s key := ⟨key, recovered⟩
    rw [recoverAddress, dif_pos found, found.choose_spec.unique recovered]
  failed := by
    intro digest v r s _ none
    rw [recoverAddress, dif_neg (not_exists.mpr none)]

end Recovery

section Manual

def keyBytes (publicKeyX publicKeyY : ℕ) : Bytes :=
  Bytes.writeBe 32 publicKeyX ++ Bytes.writeBe 32 publicKeyY

def addressOf (keccak256 : Bytes → ℕ) (bytes : Bytes) : Address := keccak256 bytes % 2 ^ 160

def ethereumAddress (keccak256 : Bytes → ℕ) (publicKeyX publicKeyY : ℕ) : Address :=
  addressOf keccak256 (keyBytes publicKeyX publicKeyY)

def publicKeyToAddress (keccak256 : Bytes → ℕ) (publicKeyX publicKeyY : ℕ) : Address :=
  addressOf keccak256 (0x04 :: keyBytes publicKeyX publicKeyY)

def tryRecoverAddresses (primitives : Primitives) (messageHash r s : ℕ)
    (expectedAddress : Address) : Bool :=
  primitives.ecrecover messageHash 27 r s = expectedAddress ∨
    primitives.ecrecover messageHash 28 r s = expectedAddress

/-- The digest that `verifySignatureManual` uses; a message that is said to be one has 32 bytes. -/
def manualHash (primitives : Primitives) (message : Bytes) (hash : Bool) : Option ℕ := do
  if hash then
    guard (message.length = 32)
    return Bytes.readBe message
  else
    return primitives.sha256 message

def verifySignatureManual (primitives : Primitives) (keccak256 : Bytes → ℕ) (r s : ℕ)
    (message : Bytes) (hash : Bool) (publicKeyX publicKeyY : ℕ) : Option Bool := do
  guard (r ≠ 0)
  guard (s ≠ 0)
  guard (publicKeyX ≠ 0)
  guard (publicKeyY ≠ 0)
  let messageHash ← manualHash primitives message hash
  return tryRecoverAddresses primitives messageHash r s
    (publicKeyToAddress keccak256 publicKeyX publicKeyY)

variable {E : Type u} [AddCommGroup E] [Module (ZMod secp256k1Order) E]

def pointAddress [DecidableEq E] (coordinates : Coordinates E) (keccak256 : Bytes → ℕ) (key : E) :
    Address :=
  if key = 0 then 0 else ethereumAddress keccak256 (coordinates.x key) (coordinates.y key)

/-- The inputs of `keccak256`: the encodings of the public key and of the keys that the signature
determines. -/
def hashedInputs (group : PrimeOrderGroup secp256k1Order E) (coordinates : Coordinates E)
    (messageHash r s publicKeyX publicKeyY : ℕ) : Set Bytes :=
  {bytes | bytes = 0x04 :: keyBytes publicKeyX publicKeyY ∨
    bytes = keyBytes publicKeyX publicKeyY ∨
    ∃ parity key, group.Recovered coordinates messageHash parity r s key ∧
      bytes = keyBytes (coordinates.x key) (coordinates.y key)}

/-- No two of the inputs have the same address, and none of them has that of a failed recovery. -/
structure CollisionFree (keccak256 : Bytes → ℕ) (inputs : Set Bytes) : Prop where
  injective : Set.InjOn (addressOf keccak256) inputs
  nonzero : ∀ bytes ∈ inputs, addressOf keccak256 bytes ≠ 0

variable [DecidableEq E] {group : PrimeOrderGroup secp256k1Order E} {coordinates : Coordinates E}
  {primitives : Primitives} {keccak256 : Bytes → ℕ}

theorem keyBytes_ne_cons (x y x' y' : ℕ) (byte : UInt8) :
    keyBytes x y ≠ byte :: keyBytes x' y' := by
  intro same
  have lengths := congrArg List.length same
  simp [keyBytes] at lengths

theorem ecrecover_ne_publicKeyToAddress
    (recovers : Recovers group coordinates (pointAddress coordinates keccak256)
      primitives.ecrecover) {messageHash r s publicKeyX publicKeyY v : ℕ}
    (free : CollisionFree keccak256
      (hashedInputs group coordinates messageHash r s publicKeyX publicKeyY))
    (parity : v = 27 ∨ v = 28) :
    primitives.ecrecover messageHash v r s ≠
      publicKeyToAddress keccak256 publicKeyX publicKeyY := by
  intro matching
  have nonzero : publicKeyToAddress keccak256 publicKeyX publicKeyY ≠ 0 :=
    free.nonzero _ (Or.inl rfl)
  rcases recovers.exists_key parity (by rwa [matching]) with ⟨key, recovered, found⟩
  rw [matching] at found
  by_cases zero : key = 0
  · rw [pointAddress, if_pos zero] at found
    exact nonzero found
  · rw [pointAddress, if_neg zero] at found
    have same := free.injective (Or.inl rfl) (Or.inr (Or.inr ⟨v - 27, key, recovered, rfl⟩)) found
    exact keyBytes_ne_cons _ _ _ _ _ same.symm

/-- The two checks agree exactly if `verifySignature` does not accept the signature either. -/
theorem manual_agrees_iff
    (recovers : Recovers group coordinates (pointAddress coordinates keccak256)
      primitives.ecrecover) {message : Bytes} {hash : Bool}
    {messageHash r s publicKeyX publicKeyY : ℕ}
    (hashed : manualHash primitives message hash = some messageHash) (free : CollisionFree keccak256
      (hashedInputs group coordinates messageHash r s publicKeyX publicKeyY)) :
    (verifySignatureManual primitives keccak256 r s message hash publicKeyX publicKeyY = some true ↔
      ∃ v, (v = 27 ∨ v = 28) ∧ verifySignature primitives messageHash ⟨r, s, v⟩
        (ethereumAddress keccak256 publicKeyX publicKeyY) = some true) ↔
    ∀ v, v = 27 ∨ v = 28 → verifySignature primitives messageHash ⟨r, s, v⟩
      (ethereumAddress keccak256 publicKeyX publicKeyY) ≠ some true := by
  have rejected : verifySignatureManual primitives keccak256 r s message hash publicKeyX
      publicKeyY ≠ some true := by
    simp only [verifySignatureManual, hashed, Option.bind_eq_bind, ne_eq, Option.bind_eq_some_iff,
      Option.guard_eq_some', Option.pure_def, Option.some.injEq, exists_eq_left', exists_const,
      tryRecoverAddresses, decide_eq_true_eq]
    rintro ⟨-, -, -, -, first | second⟩
    · exact ecrecover_ne_publicKeyToAddress recovers free (Or.inl rfl) first
    · exact ecrecover_ne_publicKeyToAddress recovers free (Or.inr rfl) second
  simp [rejected]

end Manual

section Sample

def sampleGroup : PrimeOrderGroup secp256k1Order (ZMod secp256k1Order) :=
  PrimeOrderGroup.residues secp256k1Order

def generatorX : ℕ := 0x79be667ef9dcbbac55a06295ce870b07029bfcdb2dce28d959f2815b16f81798

def generatorY : ℕ := 0x483ada7726a3c4655da4fbfc0e1108a8fd17b448a68554199c47d08ffb10d4b8

def fieldPrime : ℕ := 2 ^ 256 - 2 ^ 32 - 977

def sampleX (point : ZMod secp256k1Order) : ℕ :=
  if point = 1 ∨ point = -1 then generatorX else 2 ^ 256 + min point.val (-point).val

def sampleY (point : ZMod secp256k1Order) : ℕ :=
  if point = 1 then generatorY
  else if point = -1 then fieldPrime - generatorY
  else if point.val < (-point).val then 0 else 1

theorem eq_or_eq_neg_of_min {left right : ZMod secp256k1Order}
    (same : min left.val (-left).val = min right.val (-right).val) :
    left = right ∨ left = -right := by
  rcases min_choice left.val (-left).val with first | first <;>
    rcases min_choice right.val (-right).val with second | second <;>
      rw [first, second] at same
  · exact Or.inl (ZMod.val_injective _ same)
  · exact Or.inr (ZMod.val_injective _ same)
  · exact Or.inr (neg_eq_iff_eq_neg.mp (ZMod.val_injective _ same))
  · exact Or.inl (neg_inj.mp (ZMod.val_injective _ same))

theorem val_ne_val_neg {point : ZMod secp256k1Order} (nonzero : point ≠ 0) :
    point.val ≠ (-point).val := by
  intro same
  rcases (ZMod.neg_eq_self_iff point).mp (ZMod.val_injective _ same).symm with zero | half
  · exact nonzero zero
  · have odd : secp256k1Order % 2 = 1 := by norm_num [secp256k1Order]
    omega

def sampleCoordinates : Coordinates (ZMod secp256k1Order) where
  x := sampleX
  y := sampleY
  eq_or_eq_neg := by
    intro left right _ _ same
    have large : generatorX < 2 ^ 256 := by norm_num [generatorX]
    simp only [sampleX] at same
    split_ifs at same with isLeft isRight isRight
    · rcases isLeft with rfl | rfl <;> rcases isRight with rfl | rfl <;> simp
    · omega
    · omega
    · exact eq_or_eq_neg_of_min (Nat.add_left_cancel same)
  parity_neg := by
    intro point nonzero
    have two : (-1 : ZMod secp256k1Order) ≠ 1 := by decide
    have generator : (fieldPrime - generatorY) % 2 ≠ generatorY % 2 := by decide
    by_cases isOne : point = 1
    · simp only [sampleY, isOne, if_neg two, if_true]
      exact generator
    · by_cases isNegOne : point = -1
      · simp only [sampleY, isNegOne, neg_neg, if_neg two, if_true]
        exact generator.symm
      · have different := val_ne_val_neg nonzero
        have isOne' : -point ≠ 1 := fun same => isNegOne (neg_eq_iff_eq_neg.mp same)
        have isNegOne' : -point ≠ -1 := fun same => isOne (neg_inj.mp same)
        simp only [sampleY, if_neg isOne, if_neg isNegOne, if_neg isOne', if_neg isNegOne', neg_neg]
        split_ifs <;> omega

def generatorDigest : ℕ := secp256k1Order + 1 - generatorX

theorem recovered_generator :
    sampleGroup.Recovered sampleCoordinates generatorDigest 0
      generatorX 1 1 := by
  have nonzero : (generatorX : ZMod secp256k1Order) ≠ 0 :=
    natCast_ne_zero_of_lt (by decide) (by norm_num [generatorX, secp256k1Order])
  have digest : (generatorDigest : ZMod secp256k1Order) = 1 - generatorX := by
    rw [generatorDigest, Nat.cast_sub (by norm_num [generatorX, secp256k1Order])]
    simp
  refine ⟨⟨by decide, by norm_num [generatorX, secp256k1Order]⟩,
    ⟨by decide, by norm_num [secp256k1Order]⟩, 1, one_ne_zero, ?_, ?_, ?_⟩
  · simp [sampleCoordinates, sampleX]
  · simp only [sampleCoordinates, sampleY, if_true]
    decide
  · simp [digest, sampleGroup, PrimeOrderGroup.residues, nonzero]

noncomputable def recoveringPrimitives (address : ZMod secp256k1Order → Address) : Primitives where
  hasher _ _ := none
  sha256 _ := generatorDigest
  ecrecover := recoverAddress sampleGroup sampleCoordinates address

theorem ecrecover_generator (address : ZMod secp256k1Order → Address) :
    (recoveringPrimitives address).ecrecover generatorDigest 27 generatorX 1 = address 1 := by
  have recovered : sampleGroup.Recovered sampleCoordinates
      generatorDigest (27 - 27) generatorX 1 1 := by
    rw [Nat.sub_self]
    exact recovered_generator
  exact (recovers_recoverAddress sampleGroup sampleCoordinates address).recovered (Or.inl rfl)
    recovered

theorem verifySignature_generator {address : ZMod secp256k1Order → Address}
    (nonzero : address 1 ≠ 0) :
    verifySignature (recoveringPrimitives address) generatorDigest ⟨generatorX, 1, 27⟩
      (address 1) = some true :=
  verifySignature_eq_true_iff.mpr ⟨nonzero, Or.inl rfl, by decide, by decide, by decide,
    ecrecover_generator address⟩

def sampleKeccak (bytes : Bytes) : ℕ :=
  if bytes = keyBytes generatorX generatorY then
    0xc0a6c424ac7157ae408398df7e5f4552091a69125d5dfcb7b8c2659029395bdf
  else if bytes = 0x04 :: keyBytes generatorX generatorY then
    0x393a75c54f3552ba0c8900297d6e99bb8abf8cc013bb0e912d0b176596fe7b88
  else
    1

theorem addressOf_sampleKeccak (bytes : Bytes) :
    addressOf sampleKeccak bytes =
      if bytes = keyBytes generatorX generatorY then 0x7e5f4552091a69125d5dfcb7b8c2659029395bdf
      else if bytes = 0x04 :: keyBytes generatorX generatorY then
        0x7d6e99bb8abf8cc013bb0e912d0b176596fe7b88
      else 1 := by
  simp only [addressOf, sampleKeccak]
  split_ifs <;> norm_num

theorem collisionFree_sampleKeccak {inputs : Set Bytes}
    (others : ∀ bytes ∈ inputs, ∀ bytes' ∈ inputs, bytes ≠ keyBytes generatorX generatorY →
      bytes' ≠ keyBytes generatorX generatorY → bytes ≠ 0x04 :: keyBytes generatorX generatorY →
        bytes' ≠ 0x04 :: keyBytes generatorX generatorY → bytes = bytes') :
    CollisionFree sampleKeccak inputs where
  injective := by
    intro bytes member bytes' member' same
    rw [addressOf_sampleKeccak, addressOf_sampleKeccak] at same
    by_cases key : bytes = keyBytes generatorX generatorY
    · rw [if_pos key] at same
      split_ifs at same with key'
      · rw [key, key']
      · norm_num at same
      · norm_num at same
    · by_cases prefixed : bytes = 0x04 :: keyBytes generatorX generatorY
      · rw [if_neg key, if_pos prefixed] at same
        split_ifs at same with key' prefixed'
        · norm_num at same
        · rw [prefixed, prefixed']
        · norm_num at same
      · rw [if_neg key, if_neg prefixed] at same
        split_ifs at same with key' prefixed'
        · norm_num at same
        · norm_num at same
        · exact others bytes member bytes' member' key key' prefixed prefixed'
  nonzero := by
    intro bytes _
    rw [addressOf_sampleKeccak]
    split_ifs <;> norm_num

theorem coordinates_generator :
    sampleCoordinates.x 1 = generatorX ∧ sampleCoordinates.y 1 = generatorY := by
  simp [sampleCoordinates, sampleX, sampleY]

theorem recovers_keccakPrimitives :
    Recovers sampleGroup sampleCoordinates (pointAddress sampleCoordinates sampleKeccak)
      (recoveringPrimitives (pointAddress sampleCoordinates sampleKeccak)).ecrecover :=
  recovers_recoverAddress sampleGroup sampleCoordinates _

theorem collisionFree_generator :
    CollisionFree sampleKeccak (hashedInputs sampleGroup sampleCoordinates generatorDigest
      generatorX 1 generatorX generatorY) := by
  have odd {parity : ℕ} {key : ZMod secp256k1Order} (recovered : sampleGroup.Recovered
      sampleCoordinates generatorDigest parity generatorX 1 key)
      (other : keyBytes (sampleCoordinates.x key) (sampleCoordinates.y key) ≠
        keyBytes generatorX generatorY) : parity = 1 := by
    have bit : parity = 0 ∨ parity = 1 := by
      rcases recovered with ⟨-, -, nonce, -, -, rfl, -⟩
      omega
    rcases bit with rfl | rfl
    · rw [recovered.unique recovered_generator, coordinates_generator.1,
        coordinates_generator.2] at other
      exact absurd rfl other
    · rfl
  apply collisionFree_sampleKeccak
  rintro bytes member bytes' member' key key' prefixed prefixed'
  rcases member with found | found | ⟨parity, point, recovered, rfl⟩
  · exact absurd found prefixed
  · exact absurd found key
  rcases member' with found | found | ⟨parity', point', recovered', rfl⟩
  · exact absurd found prefixed'
  · exact absurd found key'
  have sameParity := (odd recovered key).trans (odd recovered' key').symm
  subst sameParity
  rw [recovered.unique recovered']

end Sample

theorem signature_nonmalleable_generator :
    let primitives := recoveringPrimitives fun key => key.val + 1
    verifySignature primitives generatorDigest ⟨generatorX, 1, 27⟩ 2 = some true ∧
      ∀ s v, verifySignature primitives generatorDigest ⟨generatorX, s, v⟩ 2 = some true →
        (s, v) = (1, 27) := by
  intro primitives
  have injective : Function.Injective fun key : ZMod secp256k1Order => key.val + 1 :=
    fun left right same => ZMod.val_injective _ (Nat.add_right_cancel same)
  have accepted := @verifySignature_generator (fun key => key.val + 1) (Nat.succ_ne_zero _)
  have one : (1 : ZMod secp256k1Order).val + 1 = 2 := by
    rw [ZMod.val_one'' prime_secp256k1Order.ne_one]
  rw [one] at accepted
  refine ⟨accepted, ?_⟩
  intro s v accepted'
  have recovers : Recovers sampleGroup sampleCoordinates (fun key => key.val + 1)
      primitives.ecrecover :=
    recovers_recoverAddress sampleGroup sampleCoordinates _
  exact (signature_nonmalleable recovers injective).1 generatorDigest generatorX 2 s v 1 27
    accepted' accepted

theorem manual_agrees_outOfRange :
    let primitives := recoveringPrimitives (pointAddress sampleCoordinates sampleKeccak)
    verifySignatureManual primitives sampleKeccak secp256k1Order 1 [] false generatorX
        generatorY = some true ↔
      ∃ v, (v = 27 ∨ v = 28) ∧ verifySignature primitives generatorDigest
        ⟨secp256k1Order, 1, v⟩ (ethereumAddress sampleKeccak generatorX generatorY) =
          some true := by
  intro primitives
  have none {digest parity : ℕ} {key : ZMod secp256k1Order} (recovered : sampleGroup.Recovered
      sampleCoordinates digest parity secp256k1Order 1 key) : False :=
    lt_irrefl _ recovered.1.2
  have free : CollisionFree sampleKeccak (hashedInputs sampleGroup sampleCoordinates
      generatorDigest secp256k1Order 1 generatorX generatorY) := by
    apply collisionFree_sampleKeccak
    rintro bytes member - - key - prefixed -
    rcases member with found | found | ⟨parity, point, recovered, -⟩
    · exact absurd found prefixed
    · exact absurd found key
    · exact (none recovered).elim
  apply (manual_agrees_iff recovers_keccakPrimitives rfl free).mpr
  intro v parity accepted
  rcases verifySignature_eq_true_iff.mp accepted with ⟨nonzero, -, -, -, -, recovered⟩
  rw [← recovered] at nonzero
  rcases recovers_keccakPrimitives.exists_key parity nonzero with ⟨key, recovered, -⟩
  exact none recovered

theorem manual_rejects_valid_signature :
    let primitives := recoveringPrimitives (pointAddress sampleCoordinates sampleKeccak)
    Recovers sampleGroup sampleCoordinates (pointAddress sampleCoordinates sampleKeccak)
        primitives.ecrecover ∧
      CollisionFree sampleKeccak (hashedInputs sampleGroup sampleCoordinates generatorDigest
        generatorX 1 generatorX generatorY) ∧
      sampleCoordinates.x 1 = generatorX ∧ sampleCoordinates.y 1 = generatorY ∧
      verifySignature primitives generatorDigest ⟨generatorX, 1, 27⟩
        (ethereumAddress sampleKeccak generatorX generatorY) = some true ∧
      verifySignatureManual primitives sampleKeccak generatorX 1
        (Bytes.writeBe 32 generatorDigest) true generatorX generatorY = some false := by
  intro primitives
  have address : pointAddress sampleCoordinates sampleKeccak 1 =
      ethereumAddress sampleKeccak generatorX generatorY := by
    rw [pointAddress, if_neg one_ne_zero, coordinates_generator.1, coordinates_generator.2]
  have nonzero : pointAddress sampleCoordinates sampleKeccak 1 ≠ 0 := by
    rw [address]
    exact collisionFree_generator.nonzero _ (Or.inr (Or.inl rfl))
  have accepted := verifySignature_generator nonzero
  rw [address] at accepted
  refine ⟨recovers_keccakPrimitives, collisionFree_generator, coordinates_generator.1,
    coordinates_generator.2, accepted, ?_⟩
  have digest : manualHash primitives (Bytes.writeBe 32 generatorDigest) true =
      some generatorDigest := by
    have fits : generatorDigest < 256 ^ 32 := by
      norm_num [generatorDigest, generatorX, secp256k1Order]
    simp [manualHash, Bytes.readBe_writeBe_of_lt fits]
  have rejected : tryRecoverAddresses primitives generatorDigest generatorX 1
      (publicKeyToAddress sampleKeccak generatorX generatorY) = false := by
    rw [tryRecoverAddresses, decide_eq_false_iff_not, not_or]
    exact ⟨ecrecover_ne_publicKeyToAddress recovers_keccakPrimitives collisionFree_generator
        (Or.inl rfl),
      ecrecover_ne_publicKeyToAddress recovers_keccakPrimitives collisionFree_generator
        (Or.inr rfl)⟩
  have nonzeroX : generatorX ≠ 0 := by decide
  have nonzeroY : generatorY ≠ 0 := by decide
  simp [verifySignatureManual, nonzeroX, nonzeroY, digest, rejected]

end TigerMixer.Escrow
