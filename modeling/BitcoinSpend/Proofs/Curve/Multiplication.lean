import BitcoinSpend.Proofs.Curve.Addition
import Mathlib.Algebra.Group.PUnit

/-!
# Multiples of points

Where the sums of points are those of a group, double-and-add computes the multiples of the group.
Read `contains_some` first, which says that the check of the result decides the curve equation, then
`Interprets`; the main results are `Interprets.multiply` and `multiply_onCurve`, by which the multiple
of a point on the curve always exists and is on the curve.
-/

namespace BitcoinSpend.Curve

variable {C : Curve} [hprime : Fact C.modulus.Prime]

/-- The right-hand side of the curve equation exists. -/
theorem cubic_eq (x : Int) : C.cubic x = .ok ((x ^ 3 % C.p + C.a * x + C.b) % C.p) := by
  simp only [cubic, power_of_nonneg one_lt_p (show (0 : Int) ≤ 3 by decide)]
  exact remainder_p _

/-- The right-hand side stands for the cubic in the field. -/
theorem cast_cubic (x : Int) :
    (((x ^ 3 % C.p + C.a * x + C.b) % C.p : Int) : ZMod C.modulus) =
      (x : ZMod C.modulus) ^ 3 + C.a * x + C.b := by
  rw [cast_emod, Int.cast_add, Int.cast_add, cast_emod]
  push_cast
  ring

/-- Whether a point is on the curve is decided by the curve equation. -/
theorem contains_some (P : Point) :
    ∃ b, C.contains (some P) = .ok b ∧ (b = true ↔ C.weierstrass.Equation P.x P.y) := by
  have hdecided : (((P.x ^ 3 % C.p + C.a * P.x + C.b) % C.p - P.y ^ 2 % C.p) % C.p = 0) ↔
      C.weierstrass.Equation P.x P.y := by
    rw [emod_eq_zero_iff, Int.cast_sub, cast_cubic, cast_emod, sub_eq_zero, equation_iff]
    push_cast
    exact eq_comm
  refine ⟨decide (((P.x ^ 3 % C.p + C.a * P.x + C.b) % C.p - P.y ^ 2 % C.p) % C.p = 0), ?_, ?_⟩
  · simp only [contains, cubic_eq, power_of_nonneg one_lt_p (show (0 : Int) ≤ 2 by decide)]
    change (remainder _ C.p >>= _) = _
    rw [remainder_p]
    rfl
  · rw [decide_eq_true_iff, hdecided]

/-- A point on the curve passes the check. -/
theorem contains_of_onCurve {P : Option Point} (hP : C.OnCurve P) : C.contains P = .ok true := by
  cases P with
  | none => rfl
  | some P =>
      obtain ⟨b, hb, hequation⟩ := contains_some (C := C) P
      rw [hb, hequation.mpr hP.equation]

/-- A reduced point that passes the check is on the curve. -/
theorem onCurve_of_contains {Q : Option Point} (hreduced : ∀ P, Q = some P → C.Reduced P)
    (hQ : C.contains Q = .ok true) : C.OnCurve Q := by
  cases Q with
  | none => trivial
  | some P =>
      obtain ⟨b, hb, hequation⟩ := contains_some (C := C) P
      rw [hb] at hQ
      exact ⟨hreduced P rfl, hequation.mp (Except.ok.inj hQ)⟩

/-! ## Multiples in a group -/

/-- A relation of points on the curve with the elements of a group under which sums of points are
sums of the group. -/
structure Interprets (C : Curve) {G : Type} [AddGroup G] (Is : Option Point → G → Prop) : Prop where
  infinity {g : G} : Is none g ↔ g = 0
  add {P Q : Option Point} {g h : G} : Is P g → Is Q h → ∃ R, C.add P Q = .ok R ∧ Is R (g + h)
  onCurve {P : Option Point} {g : G} : Is P g → C.OnCurve P

namespace Interprets

variable {G : Type} [AddGroup G] {Is : Option Point → G → Prop} {P Q : Option Point} {g h : G}

omit hprime in
/-- Adding the doubled points of a number adds the multiple by the number. -/
theorem addMultiples (hIs : C.Interprets Is) (n : Nat) (hP : Is P g) (hQ : Is Q h) :
    ∃ R, C.addMultiples n P Q = .ok R ∧ Is R (g + n • h) := by
  induction n using Nat.strongRecOn generalizing P Q g h with
  | _ n ih =>
      rw [Curve.addMultiples]
      split
      · next hzero => exact ⟨P, rfl, by rwa [hzero, zero_nsmul, add_zero]⟩
      · next hpos =>
          obtain ⟨D, hD, hdouble⟩ := hIs.add hQ hQ
          have hhalf := Nat.div_lt_self (Nat.pos_of_ne_zero hpos) (show 1 < 2 by decide)
          -- What is left of the multiple once the lowest bit is taken care of. The point is doubled
          -- at the last bit too, where nothing is added any more.
          have hrest {next : Option Point} {g' : G} (hnext : Is next g')
              (hsum : g' + (n / 2) • (h + h) = g + n • h) :
              ∃ R, (do C.addMultiples (n / 2) next (← C.add Q Q)) = .ok R ∧ Is R (g + n • h) := by
            rw [hD, ← hsum]
            exact ih (n / 2) hhalf hnext hdouble
          have hsplit : n • h = (n % 2) • h + (n / 2) • (h + h) := by
            rw [← two_nsmul, ← mul_nsmul, ← add_nsmul, Nat.mod_add_div]
          dsimp only
          split
          · next hodd =>
              obtain ⟨next, hnext, hsum⟩ := hIs.add hP hQ
              rw [hnext]
              exact hrest hsum (by rw [hsplit, hodd, one_nsmul, add_assoc])
          · next heven =>
              have hmod : n % 2 = 0 := by omega
              exact hrest hP (by rw [hsplit, hmod, zero_nsmul, zero_add])

/-- The multiple of a point whose order divides the number of points is the multiple of the
group. -/
theorem multiply (hIs : C.Interprets Is) (horder : 0 < C.order) (hP : Is P g)
    (hg : C.order • g = 0) (n : Int) :
    ∃ R, C.multiply n P = .ok R ∧ Is R (n • g) := by
  have hmod : n • g = (n % C.order) • g := by
    conv_lhs => rw [← Int.mul_ediv_add_emod n C.order, add_zsmul, mul_comm, mul_zsmul, hg,
      zsmul_zero, zero_add]
  have hnonneg := Int.emod_nonneg n horder.ne'
  rw [Curve.multiply]
  split
  · next hnone =>
      subst hnone
      exact ⟨none, rfl, hIs.infinity.mpr (by rw [hIs.infinity.mp hP, zsmul_zero])⟩
  · rw [remainder_of_pos horder]
    change ∃ R, (if n % C.order ≤ 0 then pure none else _) = _ ∧ _
    split
    · next hle =>
        have hzero : n % C.order = 0 := by omega
        exact ⟨none, rfl, hIs.infinity.mpr (by rw [hmod, hzero, zero_zsmul])⟩
    · obtain ⟨R, hR, hmultiple⟩ :=
        hIs.addMultiples (n % C.order).toNat (hIs.infinity.mpr rfl) hP
      have hcast : ((n % C.order).toNat : Int) = n % C.order := Int.toNat_of_nonneg hnonneg
      rw [zero_add, ← natCast_zsmul, hcast, ← hmod] at hmultiple
      refine ⟨R, ?_, hmultiple⟩
      rw [hR]
      change (C.contains R >>= _) = _
      rw [contains_of_onCurve (hIs.onCurve hmultiple)]
      rfl

end Interprets

omit hprime in
/-- A prime number of points is positive. -/
theorem order_pos (horder : C.order.toNat.Prime) : 0 < C.order := by
  have hpos := horder.pos
  omega

omit hprime in
/-- A positive number below the number of points is not zero modulo that. -/
theorem cast_ne_zero (horder : C.order.toNat.Prime) {n : Int} (hn : 1 ≤ n ∧ n < C.order) :
    (n : ZMod C.order.toNat) ≠ 0 := by
  rw [Ne, ZMod.intCast_zmod_eq_zero_iff_dvd, Int.toNat_of_nonneg (order_pos horder).le]
  exact fun hdvd ↦ absurd (Int.le_of_dvd (by omega) hdvd) (by omega)

/-- The multiple of a point on the curve exists and is on the curve. -/
theorem multiply_onCurve (horder : 0 < C.order) (n : Int) {P : Option Point} (hP : C.OnCurve P) :
    ∃ R, C.multiply n P = .ok R ∧ C.OnCurve R :=
  -- The group of one element forgets everything but that there is a sum.
  have hIs : C.Interprets fun P (_ : Unit) ↦ C.OnCurve P :=
    ⟨iff_of_true trivial rfl, add_onCurve, id⟩
  hIs.multiply (g := ()) horder hP rfl n

end BitcoinSpend.Curve
