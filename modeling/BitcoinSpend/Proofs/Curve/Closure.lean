import BitcoinSpend.Proofs.Curve.Scalar

/-!
# Closure of addition

Modulo a prime, the sum of two points on a curve always exists, is on the curve and does not depend
on the order of the two. It is the point at infinity only for a point and its opposite. The curve may
be singular, so this comes from the chord and tangent rule and not from the group of a Weierstrass
curve. Read `eq_opposite_iff` and `addY_comm` first; the main result is `add_closed`.
-/

namespace BitcoinSpend.Curve

open WeierstrassCurve

variable {C : Curve} [hprime : Fact C.modulus.Prime]

/-- A finite point is the opposite of another one if its `x` coordinate is the same and its `y`
coordinate stands for the negative one. -/
theorem eq_opposite_iff {P Q : Point} (hP : C.Finite P) (hQ : C.Finite Q) :
    some Q = C.opposite (some P) ↔ P.x = Q.x ∧ (P.y : ZMod C.modulus) = -Q.y := by
  constructor
  · intro hopposite
    cases hopposite
    refine ⟨rfl, ?_⟩
    rw [cast_emod, Int.cast_neg, neg_neg]
  · rintro ⟨hx, hy⟩
    have hreflected : C.Finite ⟨P.x, -P.y % C.p⟩ := opposite_onCurve (P := some P) hP
    have hcast : (Q.y : ZMod C.modulus) = (-P.y % C.p : Int) := by
      rw [cast_emod, Int.cast_neg, hy, neg_neg]
    rw [hQ.reduced.point_eq hreflected.reduced (congrArg _ hx.symm) hcast]
    rfl

/-! ## The chord in the other direction -/

section

variable {x₁ x₂ y₁ y₂ : ZMod C.modulus}

/-- The slope of a chord is the same in both directions. -/
theorem slope_comm (hx : x₁ ≠ x₂) :
    C.weierstrass.slope x₁ x₂ y₁ y₂ = C.weierstrass.slope x₂ x₁ y₂ y₁ := by
  rw [Affine.slope_of_X_ne hx, Affine.slope_of_X_ne hx.symm, ← neg_sub y₂, ← neg_sub x₂,
    neg_div_neg_eq]

/-- The third `x` coordinate on a line is the same from both of the points. -/
theorem addX_comm (x₁ x₂ slope : ZMod C.modulus) :
    C.weierstrass.addX x₁ x₂ slope = C.weierstrass.addX x₂ x₁ slope := by
  rw [Affine.addX, Affine.addX]
  ring

/-- The third `y` coordinate, reflected, is the same from both of the points that a chord goes
through. -/
theorem addY_comm (hx : x₁ ≠ x₂) :
    C.weierstrass.addY x₁ x₂ y₁ (C.weierstrass.slope x₁ x₂ y₁ y₂) =
      C.weierstrass.addY x₂ x₁ y₂ (C.weierstrass.slope x₁ x₂ y₁ y₂) := by
  have hchord : C.weierstrass.slope x₁ x₂ y₁ y₂ * (x₁ - x₂) = y₁ - y₂ := by
    rw [Affine.slope_of_X_ne hx, div_mul_cancel₀ _ (sub_ne_zero.mpr hx)]
  rw [Affine.addY, Affine.addY, negY_eq, negY_eq, Affine.negAddY, Affine.negAddY,
    addX_comm x₂]
  linear_combination hchord

end

/-! ## Sums -/

/-- The sum of finite points with different `x` coordinates does not depend on their order. -/
theorem add_comm_of_x_ne {P Q : Point} (hP : C.Finite P) (hQ : C.Finite Q) (hx : P.x ≠ Q.x) :
    C.add (some P) (some Q) = C.add (some Q) (some P) := by
  have hxcast : (P.x : ZMod C.modulus) ≠ Q.x := fun h ↦ hx (hP.reduced.x_eq hQ.reduced h)
  obtain ⟨R, hR, hreduced, hRx, hRy⟩ := add_finite hP hQ fun h ↦ hx h.1
  obtain ⟨S, hS, hreduced', hSx, hSy⟩ := add_finite hQ hP fun h ↦ hx h.1.symm
  rw [slope_comm hxcast.symm] at hSx hSy
  have hsame : R = S := hreduced.point_eq hreduced'
    (hRx.trans ((addX_comm _ _ _).trans hSx.symm)) (hRy.trans ((addY_comm hxcast).trans hSy.symm))
  rw [hR, hS, hsame]

/-- The sum of points on the curve does not depend on their order. -/
theorem add_comm_of_onCurve {P Q : Option Point} (hP : C.OnCurve P) (hQ : C.OnCurve Q) :
    C.add P Q = C.add Q P := by
  match P, Q with
  | none, none | none, some _ | some _, none => rfl
  | some P, some Q =>
      -- Points with the same `x` are opposite or equal, so only a chord has two directions.
      by_cases hx : P.x = Q.x
      · by_cases hy : (P.y : ZMod C.modulus) = -Q.y
        · have hy' : (Q.y : ZMod C.modulus) = -P.y := by rw [hy, neg_neg]
          rw [add_opposite hx hy, add_opposite hx.symm hy']
        · rw [eq_of_x_eq hP hQ hx hy]
      · exact add_comm_of_x_ne hP hQ hx

/-- The sum of points on the curve is the point at infinity if and only if they are opposite. -/
theorem add_eq_none_iff {P Q : Option Point} (hP : C.OnCurve P) (hQ : C.OnCurve Q) :
    C.add P Q = .ok none ↔ Q = C.opposite P := by
  match P, Q with
  | none, Q => exact ⟨Except.ok.inj, congrArg Except.ok⟩
  | some P, none => exact iff_of_false nofun nofun
  | some P, some Q =>
      rw [eq_opposite_iff hP hQ]
      constructor
      · intro hnone
        by_contra hopposite
        obtain ⟨R, hR, -⟩ := add_finite hP hQ hopposite
        rw [hR] at hnone
        cases hnone
      · rintro ⟨hx, hy⟩
        exact add_opposite hx hy

/-- Modulo a prime, the sum of any two points on a curve exists and is on the curve, the same sum is
found in the other order, and it is the point at infinity if and only if the points are opposite,
that is, both at infinity or reflections of each other. -/
theorem add_closed {P Q : Option Point} (hP : C.OnCurve P) (hQ : C.OnCurve Q) :
    ∃ R, C.add P Q = .ok R ∧ C.OnCurve R ∧ C.add Q P = .ok R ∧ (R = none ↔ Q = C.opposite P) := by
  obtain ⟨R, hR, hcurve⟩ := add_onCurve hP hQ
  refine ⟨R, hR, hcurve, ?_, ?_⟩
  · rw [← add_comm_of_onCurve hP hQ, hR]
  · rw [← add_eq_none_iff hP hQ, hR, Except.ok.injEq]

/-- Modulo eleven, a chord, and a point of order two that is doubled. -/
theorem add_closed_eleven :
    elevenPoints.modulus.Prime ∧ elevenPoints.OnCurve (some ⟨2, 2⟩) ∧
      elevenPoints.OnCurve (some ⟨5, 0⟩) ∧
      (∃ R, elevenPoints.add (some ⟨2, 2⟩) (some ⟨5, 0⟩) = .ok R ∧ elevenPoints.OnCurve R ∧
        elevenPoints.add (some ⟨5, 0⟩) (some ⟨2, 2⟩) = .ok R ∧
        (R = none ↔ some ⟨5, 0⟩ = elevenPoints.opposite (some ⟨2, 2⟩))) ∧
      ∃ R, elevenPoints.add (some ⟨5, 0⟩) (some ⟨5, 0⟩) = .ok R ∧ elevenPoints.OnCurve R ∧
        elevenPoints.add (some ⟨5, 0⟩) (some ⟨5, 0⟩) = .ok R ∧
        (R = none ↔ some ⟨5, 0⟩ = elevenPoints.opposite (some ⟨5, 0⟩)) := by
  have hprime : elevenPoints.modulus.Prime := by decide
  have : Fact elevenPoints.modulus.Prime := ⟨hprime⟩
  have honCurve {P : Point} (hreduced : elevenPoints.Reduced P)
      (hP : elevenPoints.contains (some P) = .ok true) : elevenPoints.OnCurve (some P) :=
    onCurve_of_contains (fun _ h ↦ Option.some.inj h ▸ hreduced) hP
  have hchord : elevenPoints.OnCurve (some ⟨2, 2⟩) :=
    honCurve ⟨by decide, by decide, by decide, by decide⟩ (by decide +kernel)
  have htwo : elevenPoints.OnCurve (some ⟨5, 0⟩) :=
    honCurve ⟨by decide, by decide, by decide, by decide⟩ (by decide +kernel)
  exact ⟨hprime, hchord, htwo, add_closed hchord htwo, add_closed htwo htwo⟩

end BitcoinSpend.Curve
