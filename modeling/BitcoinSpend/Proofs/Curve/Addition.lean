import BitcoinSpend.Curve.Basic
import BitcoinSpend.Proofs.Curve.Modular
import Mathlib.AlgebraicGeometry.EllipticCurve.Affine.Formula

/-!
# Addition of points

Modulo a prime, the points that satisfy the equation of a curve are those of a Weierstrass curve
over the field of remainders, and the chord and tangent rule is the one of that curve. So the sum of
two points on the curve always exists and is on the curve. Read `OnCurve` first, then `add_onCurve`.
-/

namespace BitcoinSpend.Curve

open WeierstrassCurve

/-- The modulus of a curve as a natural number. -/
def modulus (C : Curve) : Nat :=
  C.p.toNat

variable (C : Curve)

/-- The curve over the field of remainders. -/
def weierstrass : Affine (ZMod C.modulus) :=
  ⟨0, 0, 0, C.a, C.b⟩

/-- Whether the coordinates of a point are remainders. -/
structure Reduced (P : Point) : Prop where
  x_nonneg : 0 ≤ P.x
  x_lt : P.x < C.p
  y_nonneg : 0 ≤ P.y
  y_lt : P.y < C.p

/-- A finite point on the curve. -/
structure Finite (P : Point) : Prop where
  reduced : C.Reduced P
  equation : C.weierstrass.Equation P.x P.y

/-- A point on the curve, finite or at infinity. -/
def OnCurve : Option Point → Prop
  | none => True
  | some P => C.Finite P

/-- The curve equation in its short form. -/
theorem equation_iff (x y : ZMod C.modulus) :
    C.weierstrass.Equation x y ↔ y ^ 2 = x ^ 3 + C.a * x + C.b := by
  rw [Affine.equation_iff]
  simp [weierstrass]

section

variable {C} [hprime : Fact C.modulus.Prime]

/-- A prime modulus is positive. -/
theorem p_eq : C.p = C.modulus := by
  have hpos : 0 < C.p.toNat := hprime.out.pos
  rw [modulus]
  omega

/-- A prime modulus is above one. -/
theorem one_lt_p : 1 < C.p := by
  have hlt := hprime.out.one_lt
  rw [p_eq]
  omega

/-- Integers with the same remainder stand for the same element of the field. -/
theorem cast_eq_iff (a b : Int) : (a : ZMod C.modulus) = b ↔ a % C.p = b % C.p := by
  rw [p_eq]
  exact ZMod.intCast_eq_intCast_iff a b C.modulus

/-- A remainder stands for the same element as the number. -/
theorem cast_emod (a : Int) : ((a % C.p : Int) : ZMod C.modulus) = a := by
  rw [cast_eq_iff, Int.emod_emod]

/-- A number is a multiple of the modulus if it stands for zero. -/
theorem emod_eq_zero_iff (a : Int) : a % C.p = 0 ↔ (a : ZMod C.modulus) = 0 := by
  have h := cast_eq_iff (C := C) a 0
  rw [Int.cast_zero, Int.zero_emod] at h
  exact h.symm

/-- Reduced numbers are equal if they stand for the same element. -/
theorem eq_of_cast_eq {a b : Int} (ha : 0 ≤ a ∧ a < C.p) (hb : 0 ≤ b ∧ b < C.p)
    (h : (a : ZMod C.modulus) = b) : a = b := by
  rw [cast_eq_iff, Int.emod_eq_of_lt ha.1 ha.2, Int.emod_eq_of_lt hb.1 hb.2] at h
  exact h

namespace Reduced

variable {P Q : Point}

/-- Reduced points have the same `x` coordinate if it stands for the same element. -/
theorem x_eq (hP : C.Reduced P) (hQ : C.Reduced Q) (hx : (P.x : ZMod C.modulus) = Q.x) :
    P.x = Q.x :=
  eq_of_cast_eq ⟨hP.x_nonneg, hP.x_lt⟩ ⟨hQ.x_nonneg, hQ.x_lt⟩ hx

/-- Reduced points have the same `y` coordinate if it stands for the same element. -/
theorem y_eq (hP : C.Reduced P) (hQ : C.Reduced Q) (hy : (P.y : ZMod C.modulus) = Q.y) :
    P.y = Q.y :=
  eq_of_cast_eq ⟨hP.y_nonneg, hP.y_lt⟩ ⟨hQ.y_nonneg, hQ.y_lt⟩ hy

/-- A reduced point is determined by what its coordinates stand for. -/
theorem point_eq (hP : C.Reduced P) (hQ : C.Reduced Q) (hx : (P.x : ZMod C.modulus) = Q.x)
    (hy : (P.y : ZMod C.modulus) = Q.y) : P = Q := by
  have hxeq := hP.x_eq hQ hx
  have hyeq := hP.y_eq hQ hy
  cases P
  cases Q
  rw [Point.mk.injEq]
  exact ⟨hxeq, hyeq⟩

end Reduced

/-- Taking a remainder by the modulus. -/
theorem remainder_p (a : Int) : remainder a C.p = .ok (a % C.p) :=
  remainder_of_pos (by have := one_lt_p (C := C); omega) a

/-- Remainders are reduced. -/
theorem emod_bounds (a : Int) : 0 ≤ a % C.p ∧ a % C.p < C.p := by
  have := one_lt_p (C := C)
  exact ⟨Int.emod_nonneg a (by omega), Int.emod_lt_of_pos a (by omega)⟩

/-- What is not a multiple of the modulus has an inverse, which stands for the inverse in the
field. -/
theorem inverse_p {a : Int} (h : (a : ZMod C.modulus) ≠ 0) :
    ∃ x, inverse a C.p = .ok x ∧ (x : ZMod C.modulus) = (a : ZMod C.modulus)⁻¹ := by
  obtain ⟨x, hx, -, -, hcast⟩ := inverse_of_ne_zero h
  exact ⟨x, p_eq (C := C) ▸ hx, hcast⟩

/-- Reflecting the third point on a line computes the coordinates of the Weierstrass curve. -/
theorem reflectThird_eq (m : Int) (P Q : Point) :
    ∃ R, C.reflectThird m P Q = .ok R ∧ C.Reduced R ∧
      (R.x : ZMod C.modulus) = C.weierstrass.addX P.x Q.x m ∧
      (R.y : ZMod C.modulus) = C.weierstrass.addY P.x Q.x P.y m := by
  have hx := emod_bounds (C := C) (m * m - P.x - Q.x)
  have hxcast := cast_emod (C := C) (m * m - P.x - Q.x)
  generalize hxeq : (m * m - P.x - Q.x) % C.p = x at hx hxcast
  have hy := emod_bounds (C := C) (m * (P.x - x) - P.y)
  have hycast := cast_emod (C := C) (m * (P.x - x) - P.y)
  refine ⟨⟨x, (m * (P.x - x) - P.y) % C.p⟩, ?_, ⟨hx.1, hx.2, hy.1, hy.2⟩, ?_, ?_⟩
  · simp only [reflectThird, remainder_p, hxeq]
    rfl
  · rw [hxcast, Affine.addX, weierstrass]
    push_cast
    ring
  · rw [hycast, Affine.addY, Affine.negY, Affine.negAddY, Affine.addX, weierstrass]
    push_cast
    rw [hxcast]
    push_cast
    ring

/-! ## Sums -/

variable {P Q : Point}

/-- The sum of opposite points is the point at infinity. -/
theorem add_opposite (hx : P.x = Q.x) (hy : (P.y : ZMod C.modulus) = -Q.y) :
    C.add (some P) (some Q) = .ok none := by
  have hsum : (P.y + Q.y) % C.p = 0 := by
    rw [emod_eq_zero_iff, Int.cast_add, hy, neg_add_cancel]
  simp only [add, if_pos hx, remainder_p, hsum]
  rfl

/-- In the Weierstrass curve too, opposite points differ in the sign of `y`. -/
theorem negY_eq (x y : ZMod C.modulus) : C.weierstrass.negY x y = -y := by
  simp [weierstrass, Affine.negY]

/-- The slope of the tangent at a point that is not its own opposite. -/
theorem slope_tangent {inv : Int} (hx : P.x = Q.x) (hy : (P.y : ZMod C.modulus) ≠ -Q.y)
    (hinv : (inv : ZMod C.modulus) = ((2 * P.y : Int) : ZMod C.modulus)⁻¹) :
    (((3 * P.x * P.x + C.a) * inv % C.p : Int) : ZMod C.modulus) =
      C.weierstrass.slope P.x Q.x P.y Q.y := by
  have hdenominator : (P.y : ZMod C.modulus) - C.weierstrass.negY P.x P.y =
      ((2 * P.y : Int) : ZMod C.modulus) := by
    rw [negY_eq]
    push_cast
    ring
  have hnegY : (P.y : ZMod C.modulus) ≠ C.weierstrass.negY Q.x Q.y := by rwa [negY_eq]
  rw [cast_emod, Affine.slope_of_Y_ne (congrArg _ hx) hnegY, hdenominator, div_eq_mul_inv, ← hinv,
    weierstrass]
  push_cast
  ring

/-- The slope of the chord through two points. -/
theorem slope_chord {inv : Int} (hx : (P.x : ZMod C.modulus) ≠ Q.x)
    (hinv : (inv : ZMod C.modulus) = ((Q.x - P.x : Int) : ZMod C.modulus)⁻¹) :
    (((Q.y - P.y) * inv % C.p : Int) : ZMod C.modulus) =
      C.weierstrass.slope P.x Q.x P.y Q.y := by
  -- The formula of the Weierstrass curve takes both differences the other way round.
  have hdenominator : (P.x : ZMod C.modulus) - Q.x = -((Q.x - P.x : Int) : ZMod C.modulus) := by
    push_cast
    ring
  rw [cast_emod, Affine.slope_of_X_ne hx, hdenominator, div_eq_mul_inv, inv_neg, ← hinv]
  push_cast
  ring

/-- Finite points with the same `x` coordinate are equal if they are not opposite. -/
theorem eq_of_x_eq (hP : C.Finite P) (hQ : C.Finite Q) (hx : P.x = Q.x)
    (hy : (P.y : ZMod C.modulus) ≠ -Q.y) : P = Q := by
  have hnegY : (P.y : ZMod C.modulus) ≠ C.weierstrass.negY Q.x Q.y := by rwa [negY_eq]
  have hsame : (P.y : ZMod C.modulus) = Q.y :=
    Affine.Y_eq_of_Y_ne hP.equation hQ.equation (congrArg _ hx) hnegY
  exact hP.reduced.point_eq hQ.reduced (congrArg _ hx) hsame

/-- A point on the curve that is not the opposite of one with the same `x` is not its own opposite,
so that there is a tangent. -/
theorem twice_ne_zero (hP : C.Finite P) (hQ : C.Finite Q) (hx : P.x = Q.x)
    (hy : (P.y : ZMod C.modulus) ≠ -Q.y) : ((2 * P.y : Int) : ZMod C.modulus) ≠ 0 := by
  obtain rfl := eq_of_x_eq hP hQ hx hy
  intro hzero
  refine hy ?_
  push_cast at hzero
  linear_combination hzero

/-- The sum of points on the curve that are not opposite is the finite point that the chord and
tangent rule of the Weierstrass curve gives. -/
theorem add_finite (hP : C.Finite P) (hQ : C.Finite Q)
    (hopposite : ¬ (P.x = Q.x ∧ (P.y : ZMod C.modulus) = -Q.y)) :
    ∃ R, C.add (some P) (some Q) = .ok (some R) ∧ C.Reduced R ∧
      (R.x : ZMod C.modulus) =
        C.weierstrass.addX P.x Q.x (C.weierstrass.slope P.x Q.x P.y Q.y) ∧
      (R.y : ZMod C.modulus) =
        C.weierstrass.addY P.x Q.x P.y (C.weierstrass.slope P.x Q.x P.y Q.y) := by
  -- Points with the same `x` that are not opposite are equal, so their line is a tangent.
  by_cases hx : P.x = Q.x
  · have hy : (P.y : ZMod C.modulus) ≠ -Q.y := fun hy ↦ hopposite ⟨hx, hy⟩
    have hsum : ¬ (P.y + Q.y) % C.p = 0 := by
      rw [emod_eq_zero_iff, Int.cast_add]
      exact fun hzero ↦ hy (eq_neg_of_add_eq_zero_left hzero)
    obtain ⟨inv, hinv, hcast⟩ := inverse_p (twice_ne_zero hP hQ hx hy)
    obtain ⟨R, hR, hreduced, hRx, hRy⟩ :=
      reflectThird_eq (C := C) ((3 * P.x * P.x + C.a) * inv % C.p) P Q
    rw [slope_tangent hx hy hcast] at hRx hRy
    refine ⟨R, ?_, hreduced, hRx, hRy⟩
    simp only [add, if_pos hx, remainder_p]
    change (if (P.y + Q.y) % C.p = 0 then _ else _) = _
    rw [if_neg hsum, hinv]
    change (C.reflectThird _ P Q >>= fun R ↦ pure (some R)) = _
    rw [hR]
    rfl
  · have hxcast : (P.x : ZMod C.modulus) ≠ Q.x := fun h ↦ hx (hP.reduced.x_eq hQ.reduced h)
    have hdifference : ((Q.x - P.x : Int) : ZMod C.modulus) ≠ 0 := by
      rw [Int.cast_sub]
      exact sub_ne_zero.mpr hxcast.symm
    obtain ⟨inv, hinv, hcast⟩ := inverse_p hdifference
    obtain ⟨R, hR, hreduced, hRx, hRy⟩ :=
      reflectThird_eq (C := C) ((Q.y - P.y) * inv % C.p) P Q
    rw [slope_chord hxcast hcast] at hRx hRy
    refine ⟨R, ?_, hreduced, hRx, hRy⟩
    simp only [add, if_neg hx, remainder_p, hinv]
    change (C.reflectThird _ P Q >>= fun R ↦ pure (some R)) = _
    rw [hR]
    rfl

/-- The sum of points on the curve exists and is on the curve. -/
theorem add_onCurve {P Q : Option Point} (hP : C.OnCurve P) (hQ : C.OnCurve Q) :
    ∃ R, C.add P Q = .ok R ∧ C.OnCurve R := by
  match P, Q with
  | none, Q => exact ⟨Q, rfl, hQ⟩
  | some P, none => exact ⟨some P, rfl, hP⟩
  | some P, some Q =>
      by_cases hopposite : P.x = Q.x ∧ (P.y : ZMod C.modulus) = -Q.y
      · exact ⟨none, add_opposite hopposite.1 hopposite.2, trivial⟩
      · obtain ⟨R, hR, hreduced, hRx, hRy⟩ := add_finite hP hQ hopposite
        refine ⟨some R, hR, hreduced, ?_⟩
        rw [hRx, hRy]
        refine Affine.equation_add hP.equation hQ.equation fun h ↦ hopposite ⟨?_, ?_⟩
        · exact hP.reduced.x_eq hQ.reduced h.1
        · rw [h.2, negY_eq]

end

end BitcoinSpend.Curve
