import BitcoinSpend.Proofs.Curve.Order
import Mathlib.GroupTheory.Perm.Cycle.Type
import Mathlib.GroupTheory.SpecificGroups.Cyclic.Basic

/-!
# The points of secp256k1

There are at most two points for each `x` coordinate, so the order of the generator leaves room for
one or two cosets of its multiples. A second one would mean a point of order two, whose `y`
coordinate is zero, and there is none. So every point is a multiple of the generator. Read
`natCard_point` and `addOrderOf_ne_two` first; the main result is `exists_zsmul_eq`.
-/

namespace BitcoinSpend.Curve

open WeierstrassCurve

section

variable {C : Curve} [hprime : Fact C.modulus.Prime]

/-- A `y` coordinate of the points with some `x` coordinate, if there are any. -/
noncomputable def rootAt (x : ZMod C.modulus) : ZMod C.modulus :=
  Classical.epsilon fun y ↦ C.weierstrass.Equation x y

/-- The `x` coordinate of an element, and on which side it is of those that have the same one. -/
noncomputable def column : C.weierstrass.Point → Option (ZMod C.modulus × Bool)
  | .zero => none
  | .some x y _ => some (x, decide (y = rootAt x))

/-- Elements on the same side of the same `x` coordinate are the same. -/
theorem column_injective : Function.Injective (column (C := C)) := by
  intro g h heq
  cases g with
  | zero => cases h with
    | zero => rfl
    | some x y hpoint => cases heq
  | some x y hpoint => cases h with
    | zero => cases heq
    | some x' y' hpoint' =>
        obtain ⟨rfl, hside⟩ := Prod.mk.inj (Option.some.inj heq)
        have hroot : C.weierstrass.Equation x (rootAt x) :=
          Classical.epsilon_spec (p := fun y ↦ C.weierstrass.Equation x y) ⟨y, hpoint.1⟩
        have hsame : y = rootAt x ↔ y' = rootAt x := decide_eq_decide.mp hside
        have hy : y = y' := by
          by_cases h : y = rootAt x
          · exact h.trans (hsame.mp h).symm
          · have hleft := (Affine.Y_eq_of_X_eq hpoint.1 hroot rfl).resolve_left h
            have hright := (Affine.Y_eq_of_X_eq hpoint'.1 hroot rfl).resolve_left (mt hsame.mpr h)
            exact hleft.trans hright.symm
        subst hy
        rfl

/-- There are finitely many elements, at most two for each `x` coordinate and one more. -/
theorem natCard_point :
    0 < Nat.card C.weierstrass.Point ∧ Nat.card C.weierstrass.Point ≤ 2 * C.modulus + 1 := by
  have hfinite := Finite.of_injective _ (column_injective (C := C))
  have hle := Nat.card_le_card_of_injective _ (column_injective (C := C))
  have hcard : Nat.card (Option (ZMod C.modulus × Bool)) = 2 * C.modulus + 1 := by
    rw [Nat.card_eq_fintype_card, Fintype.card_option, Fintype.card_prod, ZMod.card,
      Fintype.card_bool, Nat.mul_comm]
  exact ⟨Nat.card_pos, hcard ▸ hle⟩

end

/-! ## The points of secp256k1 -/

/-- No element of the group of secp256k1 has order two. -/
theorem addOrderOf_ne_two (g : secp256k1.weierstrass.Point) : addOrderOf g ≠ 2 := by
  intro h
  have htwice : g + g = 0 := by
    rw [← two_nsmul, ← h]
    exact addOrderOf_nsmul_eq_zero g
  cases g with
  | zero =>
      have hone : addOrderOf (0 : secp256k1.weierstrass.Point) = 2 := h
      rw [addOrderOf_zero] at hone
      cases hone
  | some x y hpoint =>
      have hopposite := eq_neg_of_add_eq_zero_left htwice
      rw [Affine.Point.neg_some] at hopposite
      obtain ⟨-, hy⟩ := Affine.Point.some.inj hopposite
      rw [negY_eq, eq_comm, ZMod.neg_eq_self_iff] at hy
      have hodd := modulus_mod_four
      have hzero : y = 0 := hy.resolve_right fun hhalf ↦ by omega
      have hequation := (equation_secp256k1 x y).mp hpoint.1
      rw [hzero, zero_pow (by decide), eq_comm] at hequation
      exact cube_ne_neg_seven x (eq_neg_of_add_eq_zero_left hequation)

/-- The group of secp256k1 has as many elements as the order of the generator says. -/
theorem natCard_secp256k1 {g : secp256k1.weierstrass.Point} (h : Generated secp256k1 g) :
    Nat.card secp256k1.weierstrass.Point = secp256k1.order.toNat := by
  obtain ⟨hpos, hle⟩ := natCard_point (C := secp256k1)
  obtain ⟨k, hk⟩ : secp256k1.order.toNat ∣ Nat.card secp256k1.weierstrass.Point := by
    rw [← h.order]
    exact addOrderOf_dvd_natCard g
  rw [hk] at hpos hle ⊢
  have hroom : 2 * secp256k1.modulus + 1 < secp256k1.order.toNat * 3 := by decide +kernel
  have hthree : k < 3 := Nat.lt_of_mul_lt_mul_left (Nat.lt_of_le_of_lt hle hroom)
  have hzero : k ≠ 0 := by
    rintro rfl
    exact absurd hpos (by rw [Nat.mul_zero]; decide)
  have htwo : k ≠ 2 := by
    rintro rfl
    have hfinite := Nat.finite_of_card_ne_zero (hk ▸ hpos.ne')
    obtain ⟨q, hq⟩ := exists_prime_addOrderOf_dvd_card' 2 (hk ▸ Nat.dvd_mul_left 2 _)
    exact addOrderOf_ne_two q hq
  obtain rfl : k = 1 := by omega
  exact Nat.mul_one _

/-- Every point of secp256k1 is a multiple of the generator. -/
theorem exists_zsmul_eq {g : secp256k1.weierstrass.Point} (h : Generated secp256k1 g)
    (q : secp256k1.weierstrass.Point) : ∃ k : Int, k • g = q := by
  have hfact : Fact secp256k1.order.toNat.Prime := ⟨h.prime⟩
  have hne : g ≠ 0 := by
    rintro rfl
    have hone := h.order
    rw [addOrderOf_zero] at hone
    exact h.prime.one_lt.ne hone
  exact AddSubgroup.mem_zmultiples_iff.mp (mem_zmultiples_of_prime_card (natCard_secp256k1 h) hne)

end BitcoinSpend.Curve
