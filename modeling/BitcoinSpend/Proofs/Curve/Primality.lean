import BitcoinSpend.Curve.Basic
import BitcoinSpend.Proofs.Curve.Modular
import Mathlib.Data.List.Prime
import Mathlib.NumberTheory.LucasPrimality
import Mathlib.Tactic.NormNum.Prime

/-!
# The primes of secp256k1

The modulus of the curve and the number of its points are prime. Lucas's test shows this from the
prime factors of the predecessor, and the large ones among these are shown to be prime in the same
way. So each large prime has a `Certificate`, and the factors in it are small or have certificates
of their own further up in the list. The main results are `secp256k1_p_prime` and
`secp256k1_order_prime`.
-/

namespace BitcoinSpend.Curve

/-! ## Lucas's test -/

/-- The power of a number modulo `m`, for exponents of at most so many binary digits. -/
def powBits (m : Nat) : (bits b e : Nat) → Nat
  | 0, _, _ => 1 % m
  | bits + 1, b, e =>
    let half := powBits m bits (b * b % m) (e / 2)
    if e % 2 = 1 then b * half % m else half

/-- Squaring by the digits of the exponent computes the power. -/
theorem powBits_eq (m : Nat) {bits e : Nat} (b : Nat) (he : e < 2 ^ bits) :
    powBits m bits b e = b ^ e % m := by
  induction bits generalizing b e with
  | zero =>
      have hzero : e = 0 := by omega
      rw [hzero, powBits, Nat.pow_zero]
  | succ bits ih =>
      have hhalf : e / 2 < 2 ^ bits := by
        rw [Nat.pow_succ] at he
        omega
      rw [powBits, ih _ hhalf]
      exact square_step m b e

/-- A base for Lucas's test of a number and the prime factors of its predecessor, each as often as
it divides it. -/
structure Certificate where
  number : Nat
  base : Nat
  factors : List Nat

/-- The number of binary digits of the exponents in a test. -/
def testBits : Nat :=
  256

/-- Lucas's test: the factors make up the predecessor, the power of the base to the predecessor is
one, and no power to the predecessor without one of the factors is. -/
def Certificate.test (c : Certificate) : Bool :=
  2 ≤ c.number && c.number ≤ 2 ^ testBits && c.factors.prod == c.number - 1 &&
    powBits c.number testBits c.base (c.number - 1) == 1 &&
    c.factors.all fun q ↦ powBits c.number testBits c.base ((c.number - 1) / q) != 1

/-- Whether a power is one in the ring of remainders is computed by squaring. -/
theorem pow_eq_one_iff {m e : Nat} (hm : 2 ≤ m) (he : e < 2 ^ testBits) (b : Nat) :
    (b : ZMod m) ^ e = 1 ↔ powBits m testBits b e = 1 := by
  have hone : 1 % m = 1 := Nat.mod_eq_of_lt hm
  rw [powBits_eq _ _ he, ← Nat.cast_pow, ← Nat.cast_one, ZMod.natCast_eq_natCast_iff', hone]

/-- A number whose certificate passes the test is prime, if the factors are. -/
theorem Certificate.prime {c : Certificate} (h : c.test = true)
    (hfactors : ∀ q ∈ c.factors, q.Prime) : c.number.Prime := by
  simp only [test, Bool.and_eq_true, decide_eq_true_eq, beq_iff_eq, List.all_eq_true,
    bne_iff_ne] at h
  obtain ⟨⟨⟨⟨htwo, hbits⟩, hprod⟩, hfull⟩, hpart⟩ := h
  have hpow {e : Nat} (he : e ≤ c.number - 1) := pow_eq_one_iff htwo (e := e) (by omega) c.base
  refine lucas_primality c.number c.base ((hpow le_rfl).mpr hfull) fun q hq hdvd ↦ ?_
  -- A prime divisor of the predecessor divides one of the factors, which is prime too.
  rw [← hprod] at hdvd
  obtain ⟨f, hf, hqf⟩ := (Prime.dvd_prod_iff hq.prime).mp hdvd
  obtain rfl := (Nat.prime_dvd_prime_iff_eq hq (hfactors f hf)).mp hqf
  rw [Ne, hpow (Nat.div_le_self _ _)]
  exact hpart q hf

/-! ## Lists of certificates -/

/-- Whether every certificate in a list passes the test and has factors that are known or have
certificates further up. -/
def passes (known : List Nat) : List Certificate → Bool
  | [] => true
  | c :: certificates =>
    c.test && c.factors.all (known.contains ·) && passes (c.number :: known) certificates

/-- The numbers of a list of certificates that pass are prime, if the known numbers are. -/
theorem prime_of_passes {known : List Nat} {certificates : List Certificate}
    (h : passes known certificates = true) (hknown : ∀ q ∈ known, q.Prime) :
    ∀ c ∈ certificates, c.number.Prime := by
  induction certificates generalizing known with
  | nil => exact fun c hc ↦ nomatch hc
  | cons c certificates ih =>
      rw [passes, Bool.and_eq_true, Bool.and_eq_true, List.all_eq_true] at h
      obtain ⟨⟨htest, hfactors⟩, hrest⟩ := h
      have hc : c.number.Prime :=
        Certificate.prime htest fun q hq ↦ hknown q (List.contains_iff_mem.mp (hfactors q hq))
      have hextended : ∀ q ∈ c.number :: known, q.Prime :=
        List.forall_mem_cons.mpr ⟨hc, hknown⟩
      exact List.forall_mem_cons.mpr ⟨hc, ih hrest hextended⟩

/-! ## The two primes -/

/-- The prime factors that need no certificate. -/
def smallPrimes : List Nat :=
  [2, 3, 5, 7, 11, 17, 29, 31, 41, 53, 59, 97, 109, 149, 293, 461, 631, 797, 971, 1373, 1627, 1871,
   2011, 2621, 2657, 4051, 4423, 5323, 7723, 9349, 13441, 16699, 20113, 24809, 28181, 41201, 85831,
   96557, 120233, 305873]

/-- The small factors are prime. -/
theorem smallPrimes_prime : ∀ q ∈ smallPrimes, q.Prime := by
  simp only [smallPrimes, List.forall_mem_cons]
  norm_num

/-- Certificates of the modulus of the curve, of the number of its points, and of the large primes
that they rest on. -/
def certificates : List Certificate :=
  [⟨13331831, 13, [2, 5, 971, 1373]⟩,
   ⟨173378833005251801, 6, [2, 2, 2, 5, 5, 2621, 24809, 13331831]⟩,
   ⟨22149492674086928081353, 5, [2, 2, 2, 3, 5323, 173378833005251801]⟩,
   ⟨132896956044521568488119, 6, [2, 3, 22149492674086928081353]⟩,
   ⟨1206781, 10, [2, 2, 3, 5, 20113]⟩,
   ⟨7240687, 3, [2, 3, 1206781]⟩,
   ⟨107590001, 3, [2, 2, 2, 2, 5, 5, 5, 5, 7, 29, 53]⟩,
   ⟨255515944373312847190720520512484175977, 3,
     [2, 2, 2, 7, 7, 11, 1627, 2657, 4423, 41201, 96557, 7240687, 107590001]⟩,
   ⟨205115282021455665897114700593932402728804164701536103180137503955397371, 10,
     [2, 3, 5, 29, 29, 31, 7723, 132896956044521568488119,
       255515944373312847190720520512484175977]⟩,
   ⟨115792089237316195423570985008687907853269984665640564039457584007908834671663, 3,
     [2, 3, 7, 13441, 205115282021455665897114700593932402728804164701536103180137503955397371]⟩,
   ⟨4681609, 23, [2, 2, 2, 3, 97, 2011]⟩,
   ⟨107361793816595537, 3, [2, 2, 2, 2, 16699, 85831, 4681609]⟩,
   ⟨44706919, 6, [2, 3, 797, 9349]⟩,
   ⟨174723607534414371449, 3, [2, 2, 2, 17, 59, 4051, 120233, 44706919]⟩,
   ⟨545358713, 5, [2, 2, 2, 41, 59, 28181]⟩,
   ⟨1627771, 3, [2, 3, 5, 29, 1871]⟩,
   ⟨297159362677, 2, [2, 2, 3, 3, 11, 461, 1627771]⟩,
   ⟨29047611873442575647497758179, 2, [2, 293, 305873, 545358713, 297159362677]⟩,
   ⟨341948486974166000522343609283189, 2, [2, 2, 3, 3, 3, 109, 29047611873442575647497758179]⟩,
   ⟨115792089237316195423570985008687907852837564279074904382605163141518161494337, 7,
     [2, 2, 2, 2, 2, 2, 3, 149, 631, 107361793816595537, 174723607534414371449,
      341948486974166000522343609283189]⟩]

/-- All certificates pass. -/
theorem certificates_pass : passes smallPrimes certificates = true := by
  decide +kernel

/-- The number of a certificate is prime. -/
theorem prime_of_mem_certificates {n : Nat} (h : n ∈ certificates.map Certificate.number) :
    n.Prime := by
  obtain ⟨c, hc, rfl⟩ := List.mem_map.mp h
  exact prime_of_passes certificates_pass smallPrimes_prime c hc

/-- The modulus of the curve is prime. -/
theorem secp256k1_p_prime : Nat.Prime secp256k1.p.toNat :=
  prime_of_mem_certificates (by simp [certificates, secp256k1])

/-- The number of points of the curve is prime. -/
theorem secp256k1_order_prime : Nat.Prime secp256k1.order.toNat :=
  prime_of_mem_certificates (by simp [certificates, secp256k1])

end BitcoinSpend.Curve
