import BitcoinSpend.Proofs.Curve.Ordinate
import BitcoinSpend.Proofs.Curve.Primality

/-!
# The curve secp256k1

The facts about this curve that hold for no other reason than its parameters: its field is one, its
generator is on it, no point on it has a coordinate that is zero, and for each `x` of a point on it a
`y` is found. Read `y_ne_zero` and `solveY_eq`.
-/

namespace BitcoinSpend.Curve

/-- The remainders modulo the modulus of the curve are a field. -/
instance : Fact secp256k1.modulus.Prime :=
  ⟨secp256k1_p_prime⟩

/-- The modulus as a literal. -/
theorem modulus_secp256k1 : secp256k1.modulus =
    0xfffffffffffffffffffffffffffffffffffffffffffffffffffffffefffffc2f :=
  rfl

/-- Small numbers are not zero in the field. -/
theorem natCast_ne_zero {n : Nat} (hpos : 0 < n) (hlt : n < 2 ^ 255) :
    (n : ZMod secp256k1.modulus) ≠ 0 := by
  intro h
  have hle := Nat.le_of_dvd hpos ((ZMod.natCast_eq_zero_iff n secp256k1.modulus).mp h)
  rw [modulus_secp256k1] at hle
  omega

/-- Seven is not zero in the field. -/
theorem seven_ne_zero : (7 : ZMod secp256k1.modulus) ≠ 0 := by
  have hcast : ((7 : Nat) : ZMod secp256k1.modulus) = 7 := Nat.cast_ofNat
  exact hcast ▸ natCast_ne_zero (by decide) (by decide)

/-- Seven is no square in the field: its power to half the predecessor of the modulus is not one. -/
theorem not_isSquare_seven : ¬ IsSquare (7 : ZMod secp256k1.modulus) := by
  have hcast : ((7 : Nat) : ZMod secp256k1.modulus) = 7 := Nat.cast_ofNat
  rw [ZMod.euler_criterion _ seven_ne_zero, ← hcast,
    pow_eq_one_iff (by decide +kernel) (by decide +kernel)]
  decide +kernel

/-- Minus seven is no cube in the field: its power to a third of the predecessor of the modulus is
not one. -/
theorem cube_ne_neg_seven (x : ZMod secp256k1.modulus) : x ^ 3 ≠ -7 := by
  intro hcube
  have hx : x ≠ 0 := by
    rintro rfl
    rw [zero_pow (by decide), eq_comm, neg_eq_zero] at hcube
    exact seven_ne_zero hcube
  -- The modulus is one more than a multiple of three, so cubes have this power by Fermat.
  have hfermat := ZMod.pow_card_sub_one_eq_one hx
  have hthird : secp256k1.modulus - 1 = 3 * ((secp256k1.modulus - 1) / 3) := by decide +kernel
  have hminus : ((secp256k1.modulus - 7 : Nat) : ZMod secp256k1.modulus) = -7 := by
    rw [Nat.cast_sub (by decide +kernel), ZMod.natCast_self, zero_sub]
    rfl
  rw [hthird, pow_mul, hcube, ← hminus, pow_eq_one_iff (by decide +kernel) (by decide +kernel)]
    at hfermat
  exact absurd hfermat (by decide +kernel)

/-- The cubic of the curve. -/
theorem cubic_secp256k1 (x : ZMod secp256k1.modulus) :
    x ^ 3 + (secp256k1.a : ZMod secp256k1.modulus) * x + secp256k1.b = x ^ 3 + 7 := by
  have ha : (secp256k1.a : ZMod secp256k1.modulus) = 0 := Int.cast_zero
  have hb : (secp256k1.b : ZMod secp256k1.modulus) = 7 := Int.cast_ofNat 7
  rw [ha, hb, zero_mul, add_zero]

/-- The equation of the curve. -/
theorem equation_secp256k1 (x y : ZMod secp256k1.modulus) :
    secp256k1.weierstrass.Equation x y ↔ y ^ 2 = x ^ 3 + 7 := by
  rw [Curve.equation_iff, cubic_secp256k1]

/-- No point on the curve has `y = 0`. -/
theorem y_ne_zero {P : Point} (hP : secp256k1.Finite P) : P.y ≠ 0 := by
  intro hzero
  have hequation := (equation_secp256k1 _ _).mp hP.equation
  rw [hzero, Int.cast_zero, zero_pow (by decide), eq_comm] at hequation
  exact cube_ne_neg_seven _ (eq_neg_of_add_eq_zero_left hequation)

/-- No point on the curve has `x = 0`. -/
theorem x_ne_zero {P : Point} (hP : secp256k1.Finite P) : P.x ≠ 0 := by
  intro hzero
  have hequation := (equation_secp256k1 _ _).mp hP.equation
  rw [hzero, Int.cast_zero, zero_pow (by decide), zero_add, sq] at hequation
  exact not_isSquare_seven ⟨_, hequation.symm⟩

/-- The reflection of a finite point, reduced by a subtraction, is a finite point. -/
theorem finite_reflect {P : Point} (hP : secp256k1.Finite P) :
    secp256k1.Finite ⟨P.x, secp256k1.p - P.y⟩ := by
  have hzero : P.y ≠ 0 := y_ne_zero hP
  obtain ⟨⟨hx, hxlt, hy, hylt⟩, hequation⟩ := hP
  refine ⟨⟨hx, hxlt, ?_, ?_⟩, ?_⟩
  · exact Int.sub_nonneg.mpr hylt.le
  · exact Int.sub_lt_self _ (lt_of_le_of_ne hy hzero.symm)
  · rw [equation_secp256k1] at hequation ⊢
    rw [← hequation, Int.cast_sub, p_eq, Int.cast_natCast, ZMod.natCast_self, zero_sub, neg_sq]

/-- The modulus leaves remainder three on division by four. -/
theorem modulus_mod_four : secp256k1.modulus % 4 = 3 := by
  norm_num [modulus_secp256k1]

/-- The modulus is odd. -/
theorem modulus_mod_two : secp256k1.modulus % 2 = 1 := by
  have hmod := modulus_mod_four
  omega

/-- Whether some point has this `x` coordinate is decided. -/
theorem containsX_eq (x : Int) :
    ∃ b, secp256k1.containsX x = .ok b ∧
      (b = true ↔ IsSquare ((x : ZMod secp256k1.modulus) ^ 3 + 7)) := by
  obtain ⟨b, hb, hcontains⟩ := exists_containsX modulus_mod_two x
  exact ⟨b, hb, by rw [hcontains, nonempty_ordinates_iff, cubic_secp256k1]⟩

/-- Where some point has this `x` coordinate a reduced `y` is found. -/
theorem solveY_eq {x : Int} (hx : secp256k1.containsX x = .ok true) :
    ∃ y, secp256k1.solveY x = .ok y ∧ 0 ≤ y ∧ y < secp256k1.p ∧
      secp256k1.weierstrass.Equation x y := by
  obtain ⟨b, hb, hcontains⟩ := exists_containsX modulus_mod_two x
  rw [hx] at hb
  cases hb
  obtain ⟨y, hy, hsolve⟩ := exists_solveY modulus_mod_four (hcontains.mp rfl)
  obtain ⟨hnonneg, hlt, hroot⟩ := mem_ordinates_iff.mp (isLeast_min hy).1
  exact ⟨_, hsolve, hnonneg, hlt, (Curve.equation_iff _ _ _).mpr hroot⟩

/-- The generator is on the curve. -/
theorem generator_onCurve : secp256k1.OnCurve secp256k1.generator := by
  refine ⟨⟨by decide, by decide, by decide, by decide⟩, ?_⟩
  have hseven : (7 : ZMod secp256k1.modulus) = (7 : Int) := (Int.cast_ofNat 7).symm
  rw [equation_secp256k1, hseven, ← Int.cast_pow, ← Int.cast_pow, ← Int.cast_add, cast_eq_iff]
  decide +kernel

end BitcoinSpend.Curve
