import BitcoinSpend.Proofs.Curve.Multiplication
import Mathlib.AlgebraicGeometry.EllipticCurve.Affine.Point

/-!
# The group of points

Modulo a prime, the points on a curve that is not singular are the elements of the group of a
Weierstrass curve: sums are sums of the group, and multiples are multiples. Read `Represents` and
`Generated` first; the main results are `Represents.exists_of_onCurve`, `Represents.add`,
`Represents.multiply` and `Generated.zsmul_eq_iff`.
-/

namespace BitcoinSpend.Curve

open WeierstrassCurve

variable {C : Curve} [hprime : Fact C.modulus.Prime]

/-- The points on a curve and the elements of the group that they are. -/
inductive Represents : Option Point → C.weierstrass.Point → Prop where
  | infinity : Represents none 0
  | finite {P : Point} (hreduced : C.Reduced P) (h : C.weierstrass.Nonsingular P.x P.y) :
      Represents (some P) (.some _ _ h)

namespace Represents

variable {P Q : Option Point} {g h : C.weierstrass.Point}

/-- A finite point is the element that has its coordinates. -/
theorem of_coordinates {R : Point} {x y : ZMod C.modulus} (hreduced : C.Reduced R)
    (hx : (R.x : ZMod C.modulus) = x) (hy : (R.y : ZMod C.modulus) = y)
    (hpoint : C.weierstrass.Nonsingular x y) : Represents (some R) (.some x y hpoint) := by
  subst hx hy
  exact .finite hreduced hpoint

/-- A point that is an element of the group is on the curve. -/
theorem onCurve (hP : Represents P g) : C.OnCurve P := by
  cases hP with
  | infinity => trivial
  | finite hreduced hpoint => exact ⟨hreduced, hpoint.1⟩

/-- Where the curve is not singular, a point on it is an element of the group. -/
theorem exists_of_onCurve [C.weierstrass.IsElliptic] (hP : C.OnCurve P) :
    ∃ g : C.weierstrass.Point, Represents P g := by
  cases P with
  | none => exact ⟨0, .infinity⟩
  | some P => exact ⟨_, .finite hP.reduced (Affine.equation_iff_nonsingular.mp hP.equation)⟩

/-- An element that is finite and its opposite have the same `x` coordinate. -/
theorem exists_x_eq {R : Point} (hR : Represents (some R) g) (hQ : Represents Q h)
    (hopposite : h = g ∨ h = -g) : ∃ S, Q = some S ∧ S.x = R.x := by
  cases hR with
  | finite hR hpoint =>
      obtain ⟨y, hy, hh⟩ : ∃ y, ∃ hy : C.weierstrass.Nonsingular R.x y, h = .some _ _ hy := by
        obtain rfl | rfl := hopposite
        · exact ⟨_, hpoint, rfl⟩
        · exact ⟨_, _, Affine.Point.neg_some hpoint⟩
      cases hQ with
      | infinity => cases hh
      | @finite S hS =>
          obtain ⟨hx, -⟩ := Affine.Point.some.inj hh
          exact ⟨S, rfl, hS.x_eq hR hx⟩

/-! ## Sums and multiples -/

/-- The sum of points is the sum of the group. -/
theorem add (hP : Represents P g) (hQ : Represents Q h) :
    ∃ R, C.add P Q = .ok R ∧ Represents R (g + h) := by
  cases hP with
  | infinity => exact ⟨Q, rfl, (zero_add h).symm ▸ hQ⟩
  | @finite P hP hpoint =>
      cases hQ with
      | infinity => exact ⟨some P, rfl, (add_zero (Affine.Point.some _ _ hpoint)).symm ▸
          .finite hP hpoint⟩
      | @finite Q hQ hpoint' =>
          by_cases hopposite : P.x = Q.x ∧ (P.y : ZMod C.modulus) = -Q.y
          · have hsum : Affine.Point.some _ _ hpoint + .some _ _ hpoint' = 0 :=
              Affine.Point.add_of_Y_eq (congrArg _ hopposite.1)
                (hopposite.2.trans (negY_eq _ _).symm)
            exact ⟨none, add_opposite hopposite.1 hopposite.2, hsum ▸ .infinity⟩
          · obtain ⟨R, hR, hreduced, hx, hy⟩ := add_finite ⟨hP, hpoint.1⟩ ⟨hQ, hpoint'.1⟩ hopposite
            have hdistinct : ¬ ((P.x : ZMod C.modulus) = Q.x ∧
                (P.y : ZMod C.modulus) = C.weierstrass.negY Q.x Q.y) := by
              rw [negY_eq]
              exact fun h ↦ hopposite ⟨hP.x_eq hQ h.1, h.2⟩
            refine ⟨some R, hR, ?_⟩
            rw [Affine.Point.add_some hdistinct]
            exact of_coordinates hreduced hx hy _

/-- The group interprets the points on the curve. -/
theorem interprets : C.Interprets (Represents (C := C)) where
  infinity := by
    intro g
    constructor
    · intro h
      cases h
      rfl
    · rintro rfl
      exact .infinity
  add := add
  onCurve := onCurve

/-- The multiple of a point whose order divides that of the curve is the multiple of the group. -/
theorem multiply (horder : 0 < C.order) (hP : Represents P g) (hg : C.order • g = 0) (n : Int) :
    ∃ R, C.multiply n P = .ok R ∧ Represents R (n • g) :=
  interprets.multiply horder hP hg n

end Represents

/-! ## Multiples of the generator -/

/-- A curve whose generator has the number of points as its order in the group, which is prime. -/
structure Generated (C : Curve) [Fact C.modulus.Prime] (g : C.weierstrass.Point) : Prop where
  prime : C.order.toNat.Prime
  generator : Represents C.generator g
  order : addOrderOf g = C.order.toNat

namespace Generated

variable {g : C.weierstrass.Point}

/-- Multiples by scalars that are the same modulo the number of points are the same. -/
theorem zsmul_eq_iff (h : Generated C g) {m n : Int} :
    m • g = n • g ↔ (m : ZMod C.order.toNat) = n := by
  rw [zsmul_eq_zsmul_iff_modEq, h.order, ZMod.intCast_eq_intCast_iff]

/-- The number of points as an integer. -/
theorem order_cast (h : Generated C g) : (C.order.toNat : Int) = C.order :=
  Int.toNat_of_nonneg (order_pos h.prime).le

/-- The number of points stands for zero. -/
theorem cast_order (h : Generated C g) : (C.order : ZMod C.order.toNat) = 0 := by
  rw [ZMod.intCast_zmod_eq_zero_iff_dvd, h.order_cast]

/-- A remainder by the number of points stands for the number. -/
theorem cast_emod (h : Generated C g) (n : Int) :
    ((n % C.order : Int) : ZMod C.order.toNat) = n := by
  rw [← h.order_cast, ZMod.intCast_mod]

/-- The multiple of a multiple of the generator is a multiple of the group. -/
theorem multiply (h : Generated C g) {P : Option Point} {key : Int}
    (hP : Represents P (key • g)) (n : Int) :
    ∃ R, C.multiply n P = .ok R ∧ Represents R ((n * key) • g) := by
  have horder : C.order • key • g = 0 := by
    rw [← mul_zsmul, ← zero_zsmul g, h.zsmul_eq_iff, Int.cast_mul, h.cast_order, zero_mul,
      Int.cast_zero]
  obtain ⟨R, hR, hmultiple⟩ := hP.multiply (order_pos h.prime) horder n
  rw [← mul_zsmul] at hmultiple
  exact ⟨R, hR, hmultiple⟩

/-- The multiple of the generator is the multiple of the group. -/
theorem multiplyGenerator (h : Generated C g) (n : Int) :
    ∃ R, C.multiplyGenerator n = .ok R ∧ Represents R (n • g) := by
  have hone : Represents C.generator ((1 : Int) • g) := by
    rw [one_zsmul]
    exact h.generator
  have hmultiple := h.multiply hone n
  rwa [mul_one] at hmultiple

/-- The multiple of the generator by a positive number below the number of points is finite. -/
theorem exists_multiplyGenerator (h : Generated C g) {n : Int} (hn : 1 ≤ n ∧ n < C.order) :
    ∃ P, C.multiplyGenerator n = .ok (some P) ∧ Represents (some P) (n • g) := by
  obtain ⟨R, hR, hmultiple⟩ := h.multiplyGenerator n
  cases R with
  | some P => exact ⟨P, hR, hmultiple⟩
  | none =>
      generalize hzero : n • g = g' at hmultiple
      cases hmultiple
      rw [← zero_zsmul g, h.zsmul_eq_iff, Int.cast_zero] at hzero
      exact absurd hzero (cast_ne_zero h.prime hn)

end Generated

end BitcoinSpend.Curve
