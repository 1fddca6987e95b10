import BitcoinSpend.Proofs.Curve.Group
import BitcoinSpend.Proofs.Curve.Secp256k1
import Mathlib.Tactic.FieldSimp

/-!
# The order of the generator

The multiple of the generator of secp256k1 by the number of points is the point at infinity. That is
computed with fractions whose denominators are carried along, so that nothing has to be inverted.
Read `Fraction` first; the main results are `Fraction.multiple_isElement` and `exists_generated`.
-/

namespace BitcoinSpend.Curve

open WeierstrassCurve

/-! ## Points as fractions -/

/-- The numerators and the denominator of the point `(x / z², y / z³)`. -/
structure Fraction where
  x : Int
  y : Int
  z : Int

namespace Fraction

section

variable (C : Curve)

/-- The double of a point, as a fraction. -/
def double (P : Fraction) : Fraction :=
  let m := (3 * P.x * P.x + C.a * (P.z * P.z) * (P.z * P.z)) % C.p
  let s := 4 * P.x * (P.y * P.y) % C.p
  let x := (m * m - 2 * s) % C.p
  ⟨x, (m * (s - x) - 8 * (P.y * P.y) * (P.y * P.y)) % C.p, 2 * P.y * P.z % C.p⟩

/-- The sum of a fraction and a finite point, as a fraction. -/
def addPoint (P : Fraction) (Q : Point) : Fraction :=
  let h := (Q.x * (P.z * P.z) - P.x) % C.p
  let r := (Q.y * (P.z * P.z) * P.z - P.y) % C.p
  let u := P.x * (h * h) % C.p
  let x := (r * r - h * h * h - 2 * u) % C.p
  ⟨x, (r * (u - x) - P.y * (h * h * h)) % C.p, h * P.z % C.p⟩

/-- The multiple of a finite point by a number of `bits` binary digits behind the leading one. -/
def multiple (P : Point) : (bits n : Nat) → Fraction
  | 0, _ => ⟨P.x, P.y, 1⟩
  | bits + 1, n =>
    let twice := double C (multiple P bits (n / 2))
    if n % 2 = 1 then addPoint C twice P else twice

end

variable {C : Curve} [hprime : Fact C.modulus.Prime]

/-- Whether a fraction has a denominator and is an element of the group. -/
structure IsElement (P : Fraction) (g : C.weierstrass.Point) : Prop where
  z_ne_zero : (P.z : ZMod C.modulus) ≠ 0
  eq : ∃ h, g = .some ((P.x : ZMod C.modulus) / P.z ^ 2) ((P.y : ZMod C.modulus) / P.z ^ 3) h

/-- A finite element is a fraction that has the same coordinates. -/
theorem isElement_of_eq {P : Fraction} (hz : (P.z : ZMod C.modulus) ≠ 0) {x y : ZMod C.modulus}
    (hx : x = P.x / P.z ^ 2) (hy : y = P.y / P.z ^ 3) (h : C.weierstrass.Nonsingular x y) :
    IsElement P (.some x y h) := by
  subst hx hy
  exact ⟨hz, h, rfl⟩

/-- The slope of a tangent. -/
theorem slope_double {x y z : ZMod C.modulus} (hz : z ≠ 0) (hy : 2 * y ≠ 0) :
    C.weierstrass.slope (x / z ^ 2) (x / z ^ 2) (y / z ^ 3) (y / z ^ 3) =
      (3 * x * x + C.a * (z * z) * (z * z)) / (2 * y * z) := by
  have hnegY : y / z ^ 3 ≠ C.weierstrass.negY (x / z ^ 2) (y / z ^ 3) := by
    rw [negY_eq]
    intro heq
    refine div_ne_zero hy (pow_ne_zero 3 hz) ?_
    linear_combination heq
  rw [Affine.slope_of_Y_ne rfl hnegY, negY_eq, weierstrass]
  have hsum : y / z ^ 3 - -(y / z ^ 3) = 2 * y / z ^ 3 := by ring
  rw [hsum]
  field_simp
  ring

variable {P : Fraction} {g : C.weierstrass.Point}

/-- What the double of a fraction stands for in the field. -/
theorem cast_double (P : Fraction) :
    ((double C P).x : ZMod C.modulus) =
        (3 * P.x * P.x + C.a * (P.z * P.z) * (P.z * P.z)) ^ 2 - 8 * P.x * (P.y * P.y) ∧
      ((double C P).y : ZMod C.modulus) =
        (3 * P.x * P.x + C.a * (P.z * P.z) * (P.z * P.z)) *
          (4 * P.x * (P.y * P.y) - (double C P).x) - 8 * (P.y * P.y) * (P.y * P.y) ∧
      ((double C P).z : ZMod C.modulus) = 2 * P.y * P.z := by
  simp only [double, cast_emod, Int.cast_sub, Int.cast_mul, Int.cast_add, Int.cast_ofNat]
  exact ⟨by ring, trivial, trivial⟩

/-- If the double of a fraction has a denominator, it is the double of the element. -/
theorem IsElement.double (hP : IsElement P g) (hz : ((double C P).z : ZMod C.modulus) ≠ 0) :
    IsElement (Fraction.double C P) (g + g) := by
  obtain ⟨hPz, h, rfl⟩ := hP
  obtain ⟨hxcast, hycast, hzcast⟩ := cast_double (C := C) P
  have hy : 2 * (P.y : ZMod C.modulus) ≠ 0 := fun hy ↦ hz (by rw [hzcast, hy, zero_mul])
  have hdistinct : ¬ ((P.x : ZMod C.modulus) / P.z ^ 2 = P.x / P.z ^ 2 ∧
      (P.y : ZMod C.modulus) / P.z ^ 3 =
        C.weierstrass.negY (P.x / P.z ^ 2) (P.y / P.z ^ 3)) := by
    rw [negY_eq]
    intro heq
    refine div_ne_zero hy (pow_ne_zero 3 hPz) ?_
    linear_combination heq.2
  rw [Affine.Point.add_some hdistinct]
  have htwo : (2 : ZMod C.modulus) ≠ 0 := left_ne_zero_of_mul hy
  have hone : (P.y : ZMod C.modulus) ≠ 0 := right_ne_zero_of_mul hy
  have hx : C.weierstrass.addX (P.x / P.z ^ 2 : ZMod C.modulus) (P.x / P.z ^ 2)
      (C.weierstrass.slope (P.x / P.z ^ 2) (P.x / P.z ^ 2) (P.y / P.z ^ 3) (P.y / P.z ^ 3)) =
        (Fraction.double C P).x / (Fraction.double C P).z ^ 2 := by
    rw [slope_double hPz hy, hxcast, hzcast, Affine.addX, weierstrass]
    field_simp
    ring
  refine isElement_of_eq hz hx ?_ _
  rw [Affine.addY, Affine.negY, Affine.negAddY, hx, slope_double hPz hy, hycast, hxcast, hzcast,
    weierstrass]
  field_simp
  ring

/-- What the sum of a fraction and a point stands for in the field. -/
theorem cast_addPoint (P : Fraction) (Q : Point) :
    ((addPoint C P Q).x : ZMod C.modulus) =
        (Q.y * (P.z * P.z) * P.z - P.y) ^ 2 - (Q.x * (P.z * P.z) - P.x) ^ 3 -
          2 * P.x * (Q.x * (P.z * P.z) - P.x) ^ 2 ∧
      ((addPoint C P Q).y : ZMod C.modulus) =
        (Q.y * (P.z * P.z) * P.z - P.y) *
          (P.x * (Q.x * (P.z * P.z) - P.x) ^ 2 - (addPoint C P Q).x) -
            P.y * (Q.x * (P.z * P.z) - P.x) ^ 3 ∧
      ((addPoint C P Q).z : ZMod C.modulus) = (Q.x * (P.z * P.z) - P.x) * P.z := by
  simp only [addPoint, cast_emod, Int.cast_sub, Int.cast_mul, Int.cast_ofNat]
  exact ⟨by ring, by ring, trivial⟩

/-- If the sum of a fraction and a point has a denominator, it is the sum of the elements. -/
theorem IsElement.addPoint (hP : IsElement P g) {Q : Point}
    (hQ : C.weierstrass.Nonsingular Q.x Q.y)
    (hz : ((addPoint C P Q).z : ZMod C.modulus) ≠ 0) :
    IsElement (Fraction.addPoint C P Q) (g + .some _ _ hQ) := by
  obtain ⟨hPz, h, rfl⟩ := hP
  obtain ⟨hxcast, hycast, hzcast⟩ := cast_addPoint (C := C) P Q
  -- The chord is described by the differences of the numerators over a common denominator.
  generalize hrun : (Q.x : ZMod C.modulus) * (P.z * P.z) - P.x = run at hxcast hycast hzcast
  generalize hrise : (Q.y : ZMod C.modulus) * (P.z * P.z) * P.z - P.y = rise at hxcast hycast
  have hQx : (Q.x : ZMod C.modulus) = (run + P.x) / P.z ^ 2 := by
    rw [← hrun]
    field_simp
    ring
  have hQy : (Q.y : ZMod C.modulus) = (rise + P.y) / P.z ^ 3 := by
    rw [← hrise]
    field_simp
    ring
  have hne : run ≠ 0 := fun hzero ↦ hz (by rw [hzcast, hzero, zero_mul])
  have hchord : (P.x / P.z ^ 2 : ZMod C.modulus) - Q.x = -(run / P.z ^ 2) := by
    rw [hQx]
    ring
  have hdistinct : (P.x / P.z ^ 2 : ZMod C.modulus) ≠ Q.x := by
    rw [← sub_ne_zero, hchord]
    exact neg_ne_zero.mpr (div_ne_zero hne (pow_ne_zero 2 hPz))
  have hslope : C.weierstrass.slope (P.x / P.z ^ 2 : ZMod C.modulus) Q.x (P.y / P.z ^ 3) Q.y =
      rise / (run * P.z) := by
    rw [Affine.slope_of_X_ne hdistinct, hchord, hQy]
    field_simp
    ring
  rw [Affine.Point.add_some fun h ↦ hdistinct h.1]
  have hx : C.weierstrass.addX (P.x / P.z ^ 2 : ZMod C.modulus) Q.x
      (C.weierstrass.slope (P.x / P.z ^ 2) Q.x (P.y / P.z ^ 3) Q.y) =
        (Fraction.addPoint C P Q).x / (Fraction.addPoint C P Q).z ^ 2 := by
    rw [hslope, hxcast, hzcast, Affine.addX, weierstrass, hQx]
    field_simp
    ring
  refine isElement_of_eq hz hx ?_ _
  rw [Affine.addY, Affine.negY, Affine.negAddY, hx, hslope, hycast, hxcast, hzcast, weierstrass]
  field_simp
  ring

/-- If a multiple of a point has a denominator as a fraction, it is the multiple of the element. -/
theorem multiple_isElement {P : Point} (hP : C.weierstrass.Nonsingular P.x P.y) {bits n : Nat}
    (hlow : 2 ^ bits ≤ n) (hhigh : n < 2 ^ (bits + 1))
    (hz : ((multiple C P bits n).z : ZMod C.modulus) ≠ 0) :
    IsElement (multiple C P bits n) (n • (.some _ _ hP : C.weierstrass.Point)) := by
  induction bits generalizing n with
  | zero =>
      obtain rfl : n = 1 := by omega
      rw [one_nsmul, multiple]
      exact isElement_of_eq (by simp) (by simp) (by simp) hP
  | succ bits ih =>
      have hlow' : 2 ^ bits ≤ n / 2 := by
        rw [Nat.pow_succ] at hlow
        omega
      have hhigh' : n / 2 < 2 ^ (bits + 1) := by
        rw [Nat.pow_succ] at hhigh
        omega
      -- A product has a denominator only if its factors do.
      have htwice (hz : ((double C (multiple C P bits (n / 2))).z : ZMod C.modulus) ≠ 0) :
          IsElement (double C (multiple C P bits (n / 2)))
            ((n / 2 * 2) • (.some _ _ hP : C.weierstrass.Point)) := by
        rw [mul_nsmul, two_nsmul]
        refine (ih hlow' hhigh' fun hzero ↦ hz ?_).double hz
        rw [(cast_double _).2.2, hzero, mul_zero]
      rw [multiple] at hz ⊢
      split at hz
      · next hodd =>
          rw [if_pos hodd]
          have hsplit : n = n / 2 * 2 + 1 := by omega
          rw [hsplit, add_nsmul, one_nsmul, ← hsplit]
          refine (htwice fun hzero ↦ hz ?_).addPoint hP hz
          rw [(cast_addPoint _ _).2.2, hzero, mul_zero]
      · next heven =>
          rw [if_neg heven]
          have hsplit : n = n / 2 * 2 := by omega
          have helement := htwice hz
          rwa [← hsplit] at helement

/-- Whether a fraction is the reflection of a finite point. -/
def IsReflection (C : Curve) (F : Fraction) (P : Point) : Prop :=
  ¬ F.z % C.p = 0 ∧ F.x % C.p = P.x * F.z * F.z % C.p ∧
    F.y % C.p = -P.y * F.z * F.z * F.z % C.p

instance (C : Curve) (F : Fraction) (P : Point) : Decidable (IsReflection C F P) :=
  inferInstanceAs (Decidable (_ ∧ _))

/-- A fraction that is the reflection of a point is the opposite element. -/
theorem IsReflection.eq_neg {F : Fraction} {P : Point} (h : IsReflection C F P)
    (hP : C.weierstrass.Nonsingular P.x P.y) (hF : IsElement F g) :
    g = -.some _ _ hP := by
  obtain ⟨-, hx, hy⟩ := h
  obtain ⟨hz, hpoint, rfl⟩ := hF
  rw [← cast_eq_iff] at hx hy
  rw [Affine.Point.neg_some]
  congr 1
  · rw [hx]
    push_cast
    field_simp
  · rw [negY_eq, hy]
    push_cast
    field_simp

end Fraction

/-! ## The generator of secp256k1 -/

/-- The curve is not singular. -/
instance : secp256k1.weierstrass.IsElliptic where
  isUnit := by
    have hb : (secp256k1.b : ZMod secp256k1.modulus) = 7 := Int.cast_ofNat 7
    have ha : (secp256k1.a : ZMod secp256k1.modulus) = 0 := Int.cast_zero
    have hdiscriminant : secp256k1.weierstrass.Δ = -((21168 : Nat) : ZMod secp256k1.modulus) := by
      rw [WeierstrassCurve.Δ, WeierstrassCurve.b₂, WeierstrassCurve.b₄, WeierstrassCurve.b₆,
        WeierstrassCurve.b₈, weierstrass, ha, hb]
      norm_num
    rw [hdiscriminant, isUnit_iff_ne_zero, neg_ne_zero]
    exact natCast_ne_zero (by decide) (by decide)

/-- The generator as a finite point. -/
def generatorPoint : Point :=
  secp256k1.generator.getD ⟨0, 0⟩

/-- The multiple of the generator by the number before the number of points is its reflection. -/
theorem isReflection_generator : Fraction.IsReflection secp256k1
    (Fraction.multiple secp256k1 generatorPoint 255 (secp256k1.order.toNat - 1))
    generatorPoint := by
  decide +kernel

/-- The generator has the number of points as its order in the group. -/
theorem exists_generated : ∃ g, Generated secp256k1 g := by
  have hfinite : secp256k1.Finite generatorPoint := generator_onCurve
  have hpoint := Affine.equation_iff_nonsingular.mp hfinite.equation
  have hfact : Fact secp256k1.order.toNat.Prime := ⟨secp256k1_order_prime⟩
  refine ⟨_, secp256k1_order_prime, .finite hfinite.reduced hpoint,
    addOrderOf_eq_prime ?_ (Affine.Point.some_ne_zero hpoint)⟩
  have hz := isReflection_generator.1
  rw [emod_eq_zero_iff] at hz
  have hopposite := isReflection_generator.eq_neg hpoint
    (Fraction.multiple_isElement hpoint (by decide +kernel) (by decide +kernel) hz)
  have hsucc : secp256k1.order.toNat = secp256k1.order.toNat - 1 + 1 :=
    (Nat.sub_add_cancel secp256k1_order_prime.one_le).symm
  rw [hsucc, add_nsmul, hopposite, one_nsmul, neg_add_cancel]

end BitcoinSpend.Curve
