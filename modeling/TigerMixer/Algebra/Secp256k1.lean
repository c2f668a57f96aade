import Mathlib.NumberTheory.LucasPrimality
import Mathlib.Tactic.NormNum.Prime
import Mathlib.Tactic.ReduceModChar

/-!
# The order of secp256k1

The group order of the curve secp256k1 is prime. The proof is a certificate: a primitive root for
the order and for each factor of its predecessor that is too large for trial division.
-/

namespace TigerMixer

theorem prime_of_factors {p : ℕ} (root : ZMod p) (exponent : ℕ) (factors : List ℕ)
    (divides : p - 1 ∣ factors.prod ^ exponent) (primes : factors.Forall Nat.Prime)
    (unit : root ^ (p - 1) = 1)
    (primitive : factors.Forall fun factor => root ^ ((p - 1) / factor) ≠ 1) : p.Prime := by
  rw [List.forall_iff_forall_mem] at primes primitive
  apply lucas_primality p root unit
  intro divisor prime divisorDivides
  have inProduct := prime.dvd_of_dvd_pow (divisorDivides.trans divides)
  rw [Prime.dvd_prod_iff prime.prime] at inProduct
  rcases inProduct with ⟨factor, member, inFactor⟩
  rw [(Nat.prime_dvd_prime_iff_eq prime (primes factor member)).mp inFactor]
  exact primitive factor member

private theorem prime_545358713 : Nat.Prime 545358713 := by
  apply prime_of_factors 5 3 [2, 41, 59, 28181]
  · norm_num
  · norm_num
  · norm_num only
    reduce_mod_char
  · refine ⟨?_, ?_, ?_, ?_⟩ <;> (norm_num only [List.Forall]; reduce_mod_char; decide)

private theorem prime_297159362677 : Nat.Prime 297159362677 := by
  apply prime_of_factors 2 2 [2, 3, 11, 461, 1627771]
  · norm_num
  · norm_num
  · norm_num only
    reduce_mod_char
  · refine ⟨?_, ?_, ?_, ?_, ?_⟩ <;> (norm_num only [List.Forall]; reduce_mod_char; decide)

private theorem prime_29047611873442575647497758179 : Nat.Prime 29047611873442575647497758179 := by
  apply prime_of_factors 2 1 [2, 293, 305873, 545358713, 297159362677]
  · norm_num
  · exact ⟨by norm_num, by norm_num, by norm_num, prime_545358713, prime_297159362677⟩
  · norm_num only
    reduce_mod_char
  · refine ⟨?_, ?_, ?_, ?_, ?_⟩ <;> (norm_num only [List.Forall]; reduce_mod_char; decide)

private theorem prime_341948486974166000522343609283189 :
    Nat.Prime 341948486974166000522343609283189 := by
  apply prime_of_factors 2 3 [2, 3, 109, 29047611873442575647497758179]
  · norm_num
  · exact ⟨by norm_num, by norm_num, by norm_num, prime_29047611873442575647497758179⟩
  · norm_num only
    reduce_mod_char
  · refine ⟨?_, ?_, ?_, ?_⟩ <;> (norm_num only [List.Forall]; reduce_mod_char; decide)

private theorem prime_174723607534414371449 : Nat.Prime 174723607534414371449 := by
  apply prime_of_factors 3 3 [2, 17, 59, 4051, 120233, 44706919]
  · norm_num
  · norm_num
  · norm_num only
    reduce_mod_char
  · refine ⟨?_, ?_, ?_, ?_, ?_, ?_⟩ <;> (norm_num only [List.Forall]; reduce_mod_char; decide)

private theorem prime_107361793816595537 : Nat.Prime 107361793816595537 := by
  apply prime_of_factors 3 4 [2, 16699, 85831, 4681609]
  · norm_num
  · norm_num
  · norm_num only
    reduce_mod_char
  · refine ⟨?_, ?_, ?_, ?_⟩ <;> (norm_num only [List.Forall]; reduce_mod_char; decide)

def secp256k1Order : ℕ :=
  0xFFFFFFFFFFFFFFFFFFFFFFFFFFFFFFFEBAAEDCE6AF48A03BBFD25E8CD0364141

theorem prime_secp256k1Order : secp256k1Order.Prime := by
  rw [secp256k1Order]
  apply prime_of_factors 7 6
    [2, 3, 149, 631, 107361793816595537, 174723607534414371449, 341948486974166000522343609283189]
  · norm_num
  · exact ⟨by norm_num, by norm_num, by norm_num, by norm_num, prime_107361793816595537,
      prime_174723607534414371449, prime_341948486974166000522343609283189⟩
  · norm_num only
    reduce_mod_char
  · refine ⟨?_, ?_, ?_, ?_, ?_, ?_, ?_⟩ <;> (norm_num only [List.Forall]; reduce_mod_char; decide)

instance : Fact secp256k1Order.Prime := ⟨prime_secp256k1Order⟩

theorem two_pow_240_lt_secp256k1Order : 2 ^ 240 < secp256k1Order := by
  norm_num [secp256k1Order]

end TigerMixer
