import TigerMixer.Data.ByteString
import TigerMixer.Solidity.Basic

/-!
# Verifiable random functions

The functions of the `VRF` library that `CommitteeRotation` calls, for the cipher suite
`SECP256K1_SHA256_TAI`. The hash is a precompiled function and the curve arithmetic is another
library; both are parameters. `none` is a revert.
-/

namespace TigerMixer.Rotation

structure VrfPrimitives where
  sha256 : Bytes → ℕ
  /-- The `y` coordinate from the parity byte and `x`, for given `a`, `b` and `p`. -/
  deriveY : ℕ → ℕ → ℕ → ℕ → ℕ → Option ℕ
  isOnCurve : ℕ → ℕ → ℕ → ℕ → ℕ → Bool
  ecMul : ℕ → ℕ → ℕ → ℕ → ℕ → Option (ℕ × ℕ)
  ecSub : ℕ → ℕ → ℕ → ℕ → ℕ → ℕ → Option (ℕ × ℕ)

namespace Vrf

def gx : ℕ := 0x79BE667EF9DCBBAC55A06295CE870B07029BFCDB2DCE28D959F2815B16F81798

def gy : ℕ := 0x483ADA7726A3C4655DA4FBFC0E1108A8FD17B448A68554199C47D08FFB10D4B8

def aa : ℕ := 0

def bb : ℕ := 7

def pp : ℕ := 0xFFFFFFFFFFFFFFFFFFFFFFFFFFFFFFFFFFFFFFFFFFFFFFFFFFFFFFFEFFFFFC2F

def encodePoint (x y : ℕ) : Bytes := UInt8.ofNat (2 + y % 2) :: Bytes.writeBe 32 x

variable (primitives : VrfPrimitives)

def derivePoint (d x y : ℕ) : Option (ℕ × ℕ) := primitives.ecMul d x y aa pp

def deriveY (yByte x : ℕ) : Option ℕ := primitives.deriveY yByte x aa bb pp

def gammaToHash (gammaX gammaY : ℕ) : ℕ :=
  primitives.sha256 (0xFE :: 0x03 :: encodePoint gammaX gammaY)

structure Proof where
  gammaX : ℕ
  gammaY : ℕ
  c : ℕ
  s : ℕ

/-- `decodeProof`: a compressed point, 16 bytes of challenge and 32 bytes of response. -/
def decodeProof (proof : Bytes) : Option Proof := do
  guard (proof.length = 81)
  let gammaX := Bytes.readBe ((proof.drop 1).take 32)
  let gammaY ← deriveY primitives (proof.headD 0).toNat gammaX
  return { gammaX, gammaY, c := Bytes.readBe ((proof.drop 33).take 16),
           s := Bytes.readBe (proof.drop 49) }

def decodePoint (point : Bytes) : Option (ℕ × ℕ) := do
  guard (point.length = 33)
  let x := Bytes.readBe (point.drop 1)
  return (x, ← deriveY primitives (point.headD 0).toNat x)

/-- The loop of `hashToTryAndIncrement` from a counter on. The counter is a byte, so after 256
failures the source starts over until the gas is used up. -/
def tryAndIncrement (c : Bytes) (ctr : ℕ) : ℕ → Option (ℕ × ℕ)
  | 0 => none
  | remaining + 1 => do
      let hPointX := primitives.sha256 (c ++ [UInt8.ofNat ctr])
      let hPointY ← deriveY primitives 2 hPointX
      if primitives.isOnCurve hPointX hPointY aa bb pp then
        return (hPointX, hPointY)
      else
        tryAndIncrement c (ctr + 1) remaining

def hashToTryAndIncrement (publicKey : ℕ × ℕ) (message : Bytes) : Option (ℕ × ℕ) :=
  tryAndIncrement primitives (0xFE :: 0x01 :: encodePoint publicKey.1 publicKey.2 ++ message) 0 256

def hashPoints (h gamma u v : ℕ × ℕ) : ℕ :=
  primitives.sha256 (0xFE :: 0x02 :: encodePoint h.1 h.2 ++ encodePoint gamma.1 gamma.2 ++
    encodePoint u.1 u.2 ++ encodePoint v.1 v.2) / 2 ^ 128

def ecMulSubMul (scalar1 : ℕ) (a : ℕ × ℕ) (scalar2 : ℕ) (b : ℕ × ℕ) : Option (ℕ × ℕ) := do
  let m ← derivePoint primitives scalar1 a.1 a.2
  let n ← derivePoint primitives scalar2 b.1 b.2
  primitives.ecSub m.1 m.2 n.1 n.2 aa pp

def proofAccepted (publicKey proof message : Bytes) : Option Bool := do
  let pubKey ← decodePoint primitives publicKey
  let proof ← decodeProof primitives proof
  let hPoint ← hashToTryAndIncrement primitives pubKey message
  let uPoint ← ecMulSubMul primitives proof.s (gx, gy) proof.c pubKey
  let vPoint ← ecMulSubMul primitives proof.s hPoint proof.c (proof.gammaX, proof.gammaY)
  return decide (hashPoints primitives hPoint (proof.gammaX, proof.gammaY) uPoint vPoint = proof.c)

end Vrf

end TigerMixer.Rotation
