import BitcoinSpend.Curve.Modular
import Mathlib.Algebra.Field.ZMod
import Mathlib.Tactic.Ring

/-!
# Modular arithmetic modulo a prime

Modulo a number above one, remainders and powers have no errors, and they are the remainders and
powers of integers. A number has an inverse if it has no factor in common with the modulus, so
modulo a prime every number but the multiples of the prime has one. Read `power_of_nonneg` and
`inverse_of_ne_zero`.
-/

namespace BitcoinSpend.Curve

/-! ## Remainders and powers -/

/-- Division by a positive number leaves a remainder. -/
theorem remainder_of_pos {m : Int} (hm : 0 < m) (a : Int) : remainder a m = .ok (a % m) := by
  rw [remainder, if_neg hm.ne', if_pos hm]

/-- A power is a power of the square, times the base if the exponent is odd. -/
theorem square_step (m b e : Nat) :
    (if e % 2 = 1 then b * ((b * b % m) ^ (e / 2) % m) % m else (b * b % m) ^ (e / 2) % m) =
      b ^ e % m := by
  have hsquare : (b * b % m) ^ (e / 2) % m = b ^ (2 * (e / 2)) % m := by
    rw [← Nat.pow_mod, Nat.pow_mul, Nat.pow_two]
  rw [hsquare]
  split
  · next hodd =>
      have hsplit : (2 * (e / 2)).succ = e := by omega
      rw [Nat.mul_mod_mod, ← Nat.pow_succ', hsplit]
  · next heven =>
      have hsplit : 2 * (e / 2) = e := by omega
      rw [hsplit]

/-- Repeated squaring computes the power. -/
theorem powNat_eq (m b e : Nat) : powNat m b e = b ^ e % m := by
  induction e using Nat.strongRecOn generalizing b with
  | _ e ih =>
      rw [powNat]
      split
      · next hzero => rw [hzero, Nat.pow_zero]
      · next hpos =>
          rw [ih (e / 2) (Nat.div_lt_self (Nat.pos_of_ne_zero hpos) (by decide))]
          exact square_step m b e

/-- A power with a natural exponent is the power of integers. -/
theorem power_of_nonneg {e m : Int} (hm : 1 < m) (he : 0 ≤ e) (b : Int) :
    power b e m = .ok (b ^ e.toNat % m) := by
  obtain ⟨k, rfl⟩ : ∃ k : Nat, m = k := ⟨m.toNat, by omega⟩
  obtain ⟨n, rfl⟩ : ∃ n : Nat, e = n := ⟨e.toNat, by omega⟩
  have hbase : ((b % k).toNat : Int) = b % k := Int.toNat_of_nonneg (Int.emod_nonneg b (by omega))
  have hpower : (powNat k (b % k).toNat n : Int) = b ^ n % k := by
    rw [powNat_eq, Int.natCast_emod, Int.natCast_pow, hbase]
    exact (Int.mod_modEq b k).pow n
  have hzero : ¬ (k : Int) = 0 := by omega
  have hone : ¬ k = 1 := by omega
  have hexponent : ¬ (n : Int) < 0 := by omega
  have hnegative : ¬ ((k : Int) < 0 ∧ powNat k (b % k).toNat n ≠ 0) := by omega
  simp only [power, Int.natAbs_natCast, if_neg hzero, if_neg hone, if_neg hexponent]
  rw [pure_bind, if_neg hnegative, hpower, Int.toNat_natCast]
  rfl

/-! ## Inverses -/

/-- Euclid's algorithm finds the greatest common divisor. -/
theorem bezout_fst (r₀ r₁ : Nat) (s₀ s₁ : Int) : (bezout r₀ r₁ s₀ s₁).1 = r₀.gcd r₁ := by
  fun_induction bezout r₀ r₁ s₀ s₁ with
  | case1 r₀ s₀ s₁ => rw [Nat.gcd_zero_right]
  | case2 r₀ r₁ s₀ s₁ hpos ih => rw [ih, Nat.gcd_comm, ← Nat.gcd_rec, Nat.gcd_comm]

/-- Euclid's algorithm keeps what the multipliers mean: each turns a fixed number into its
remainder. -/
theorem bezout_snd {k : Nat} {a : ZMod k} (r₀ r₁ : Nat) (s₀ s₁ : Int)
    (h₀ : (r₀ : ZMod k) = s₀ * a) (h₁ : (r₁ : ZMod k) = s₁ * a) :
    ((bezout r₀ r₁ s₀ s₁).1 : ZMod k) = (bezout r₀ r₁ s₀ s₁).2 * a := by
  fun_induction bezout r₀ r₁ s₀ s₁ with
  | case1 r₀ s₀ s₁ => exact h₀
  | case2 r₀ r₁ s₀ s₁ hpos ih =>
      refine ih h₁ ?_
      have hdivision : ((r₀ % r₁ : Nat) : ZMod k) = r₀ - r₁ * (r₀ / r₁ : Nat) := by
        rw [eq_sub_iff_add_eq, ← Nat.cast_mul, ← Nat.cast_add, Nat.mod_add_div]
      rw [hdivision, h₀, h₁, Int.cast_sub, Int.cast_mul, Int.cast_natCast]
      ring

/-- A number without a common factor with the modulus has an inverse. -/
theorem inverseNat?_of_coprime {k a : Nat} (hk : 1 < k) (h : k.gcd a = 1) :
    ∃ x, inverseNat? k a = some x ∧ x < k ∧ (x : ZMod k) * a = 1 := by
  have hdivisor : (bezout k (a % k) 0 1).1 = 1 := by
    rw [bezout_fst, Nat.gcd_comm, ← Nat.gcd_rec, h]
  have hmodulus : (k : ZMod k) = (0 : Int) * (a : ZMod k) := by simp
  have hremainder : ((a % k : Nat) : ZMod k) = (1 : Int) * (a : ZMod k) := by simp
  have hmultiplier := bezout_snd k (a % k) 0 1 hmodulus hremainder
  rw [hdivisor] at hmultiplier
  generalize hs : (bezout k (a % k) 0 1).2 = s at hmultiplier
  have hbounds : 0 ≤ s % (k : Int) ∧ s % (k : Int) < k :=
    ⟨Int.emod_nonneg s (by omega), Int.emod_lt_of_pos s (by omega)⟩
  refine ⟨(s % k).toNat, by rw [inverseNat?]; simp [hdivisor, hs], by omega, ?_⟩
  have hcast : ((s % k).toNat : ZMod k) = s := by
    rw [← Int.cast_natCast, Int.toNat_of_nonneg hbounds.1, ZMod.intCast_mod]
  rw [hcast, ← hmultiplier, Nat.cast_one]

/-- Modulo a prime every number but zero has an inverse. -/
theorem inverse_of_ne_zero {p : Nat} [Fact p.Prime] {a : Int} (h : (a : ZMod p) ≠ 0) :
    ∃ x, inverse a p = .ok x ∧ 0 ≤ x ∧ x < p ∧ (x : ZMod p) = (a : ZMod p)⁻¹ := by
  have hp : p.Prime := Fact.out
  have hone : 1 < p := hp.one_lt
  have hbase : ((a % p).toNat : Int) = a % p := Int.toNat_of_nonneg (Int.emod_nonneg a (by omega))
  have hcast : ((a % p).toNat : ZMod p) = a := by
    rw [← Int.cast_natCast, hbase, ZMod.intCast_mod]
  have hcoprime : p.gcd (a % p).toNat = 1 := by
    refine (Nat.Prime.coprime_iff_not_dvd hp).mpr fun hdvd ↦ h ?_
    rw [← hcast]
    exact (ZMod.natCast_eq_zero_iff _ _).mpr hdvd
  obtain ⟨x, hx, hlt, hmul⟩ := inverseNat?_of_coprime hone hcoprime
  refine ⟨x, ?_, by omega, by omega, ?_⟩
  · have hzero : ¬ (p : Int) = 0 := by omega
    have hpower : powNat p x 1 = x := by rw [powNat_eq, Nat.pow_one, Nat.mod_eq_of_lt hlt]
    have hminus : (-1 : Int) < 0 := by decide
    simp only [inverse, power, Int.natAbs_natCast, if_neg hzero, if_neg hone.ne', if_pos hminus, hx,
      pure_bind, Int.natAbs_neg, Int.natAbs_one, hpower]
    rw [if_neg (by omega)]
    rfl
  · rw [hcast] at hmul
    rw [Int.cast_natCast]
    exact eq_inv_of_mul_eq_one_left hmul

end BitcoinSpend.Curve
