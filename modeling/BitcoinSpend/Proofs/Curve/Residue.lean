import BitcoinSpend.Proofs.Curve.Modular
import Mathlib.NumberTheory.LegendreSymbol.Basic

/-!
# Squares modulo a prime

Modulo an odd prime the check for squares decides whether a number is one, and where the prime
leaves remainder three on division by four the square root of a square is found. Read `isResidue_eq`
and `squareRoot_eq`.
-/

namespace BitcoinSpend.Curve

/-- Half the predecessor of an odd number. -/
theorem fdiv_half {p : Nat} (hodd : p % 2 = 1) : Int.fdiv ((p : Int) - 1) 2 = (p / 2 : Nat) := by
  rw [Int.fdiv_eq_ediv_of_nonneg _ (by decide)]
  omega

variable {p : Nat} [hprime : Fact p.Prime]

/-- A multiple of the prime passes as a square. -/
theorem isResidue_of_eq_zero {n : Int} (h : (n : ZMod p) = 0) : isResidue n p = .ok true := by
  have hmod : n % p = 0 := Int.emod_eq_zero_of_dvd ((ZMod.intCast_zmod_eq_zero_iff_dvd n p).mp h)
  rw [isResidue, legendre, remainder_of_pos (by exact_mod_cast hprime.out.pos), hmod]
  rfl

/-- Any other number is judged by its power to half the predecessor of the prime. -/
theorem isResidue_of_ne_zero (hodd : p % 2 = 1) {n : Int} (h : (n : ZMod p) ≠ 0) :
    isResidue n p = .ok (decide ((n : ZMod p) ^ (p / 2) ≠ -1)) := by
  have hone : (1 : Int) < p := by exact_mod_cast hprime.out.one_lt
  have hmod : ¬ n % p = 0 := fun hmod ↦
    h ((ZMod.intCast_zmod_eq_zero_iff_dvd n p).mpr (Int.dvd_of_emod_eq_zero hmod))
  have hcriterion : n ^ (p / 2) % p = (p : Int) - 1 ↔ (n : ZMod p) ^ (p / 2) = -1 := by
    have hminus : ((p : Int) - 1) % p = p - 1 := Int.emod_eq_of_lt (by omega) (by omega)
    have hcast : (((p : Int) - 1 : Int) : ZMod p) = -1 := by simp
    rw [← hminus, ← hcast, ← Int.cast_pow]
    exact (ZMod.intCast_eq_intCast_iff _ _ _).symm
  simp only [isResidue, legendre, remainder_of_pos (show (0 : Int) < p by omega)]
  change (if n % p = 0 then _ else _) >>= _ = _
  rw [if_neg hmod, fdiv_half hodd, power_of_nonneg hone (by omega), Int.toNat_natCast]
  change Except.ok (decide ((if n ^ (p / 2) % p = (p : Int) - 1 then (-1 : Int) else 1) ≠ -1)) = _
  by_cases hminus : n ^ (p / 2) % p = (p : Int) - 1
  · rw [if_pos hminus, hcriterion.mp hminus]
    simp
  · rw [if_neg hminus]
    simp [mt hcriterion.mpr hminus]

/-- Whether a number passes as a square is whether it is one in the field. -/
theorem isResidue_eq (hodd : p % 2 = 1) (n : Int) :
    ∃ b, isResidue n p = .ok b ∧ (b = true ↔ IsSquare (n : ZMod p)) := by
  by_cases hzero : (n : ZMod p) = 0
  · exact ⟨true, isResidue_of_eq_zero hzero, by simp [hzero]⟩
  · refine ⟨_, isResidue_of_ne_zero hodd hzero, ?_⟩
    have htwo := hprime.out.two_le
    have hlarge : Fact (2 < p) := ⟨by omega⟩
    have hsign : (-1 : ZMod p) ≠ 1 := ZMod.neg_one_ne_one
    rw [decide_eq_true_iff, ZMod.euler_criterion p hzero]
    obtain h | h := ZMod.pow_div_two_eq_neg_one_or_one p hzero
    · simp [h, hsign.symm]
    · simp [h, hsign]

/-- A fourth of the successor of a number that leaves remainder three. -/
theorem fdiv_quarter {p : Nat} (hp : p % 4 = 3) :
    Int.fdiv ((p : Int) + 1) 4 = ((p + 1) / 4 : Nat) := by
  rw [Int.fdiv_eq_ediv_of_nonneg _ (by decide)]
  omega

/-- The square root of a square is found. -/
theorem squareRoot_eq (hp : p % 4 = 3) {n : Int} (h : IsSquare (n : ZMod p)) :
    ∃ y, squareRoot n p = .ok y ∧ 0 ≤ y ∧ y < p ∧ (y : ZMod p) ^ 2 = n := by
  have hone : (1 : Int) < p := by exact_mod_cast hprime.out.one_lt
  have hmod : (p : Int) % 4 = 3 := by omega
  obtain ⟨b, hb, hsquare⟩ := isResidue_eq (p := p) (by omega) n
  refine ⟨n ^ ((p + 1) / 4) % p, ?_, Int.emod_nonneg _ (by omega),
    Int.emod_lt_of_pos _ (by omega), ?_⟩
  · simp only [squareRoot, hmod, hb, hsquare.mpr h, fdiv_quarter hp]
    change power n _ _ = _
    rw [power_of_nonneg hone (by omega), Int.toNat_natCast]
  · rw [ZMod.intCast_mod, Int.cast_pow, ← pow_mul]
    -- Squaring the root adds one to the exponent of Euler's criterion.
    have hexponent : (p + 1) / 4 * 2 = p / 2 + 1 := by omega
    rw [hexponent, pow_succ]
    by_cases hzero : (n : ZMod p) = 0
    · rw [hzero, mul_zero]
    · rw [(ZMod.euler_criterion p hzero).mp h, one_mul]

end BitcoinSpend.Curve
