import BitcoinSpend.Proofs.Curve.Cyclic
import Mathlib.Algebra.Group.MinimalAxioms

/-!
# Laws of multiplication by scalars

The multiple of a point by an integer is its sum with itself so many times, and multiples by sums
and products of integers are sums of multiples and multiples of multiples. That holds on every curve
over a prime whose points form a group with as many elements as the curve states; where it is not
singular they form one by the group law of Weierstrass curves. Read `times` and `FormsGroup` first,
then `FormsGroup.multiply_eq`. The main results are `multiply_add_and_mul` and
`formsGroup_secp256k1`.
-/

namespace BitcoinSpend.Curve

open WeierstrassCurve

/-! ## Sums of copies -/

section

variable (C : Curve)

/-- The opposite of a point, which is its reflection. -/
def opposite : Option Point → Option Point
  | none => none
  | some P => some ⟨P.x, -P.y % C.p⟩

/-- The sum of so many copies of a point, one added after the other. -/
def copies : Nat → Option Point → Except CurveError (Option Point)
  | 0, _ => pure none
  | n + 1, P => do C.add (← copies n P) P

/-- The sum of a point with itself an integer number of times: of copies of the point or, for a
negative number, of its opposite. -/
def times : Int → Option Point → Except CurveError (Option Point)
  | .ofNat n, P => C.copies n P
  | .negSucc n, P => C.copies (n + 1) (C.opposite P)

/-- The points on a curve. -/
abbrev CurvePoint :=
  {P : Option Point // C.OnCurve P}

/-- The points on a curve are a group under addition, and the order that the curve states is the
number of its elements. The other laws of groups hold modulo any prime: sums of points on the curve
exist, the point at infinity is neutral, and a point has an opposite. -/
structure FormsGroup : Prop where
  add_assoc {P Q R : Option Point} : C.OnCurve P → C.OnCurve Q → C.OnCurve R →
    (do C.add (← C.add P Q) R) = (do C.add P (← C.add Q R))
  card : (Nat.card C.CurvePoint : Int) = C.order

end

variable {C : Curve} [hprime : Fact C.modulus.Prime]

/-! ## The group -/

/-- The opposite of a point on the curve is on the curve. -/
theorem opposite_onCurve {P : Option Point} (hP : C.OnCurve P) : C.OnCurve (C.opposite P) := by
  cases P with
  | none => trivial
  | some P =>
      obtain ⟨⟨hx, hxlt, -, -⟩, hequation⟩ := hP
      have hy := emod_bounds (C := C) (-P.y)
      refine ⟨⟨hx, hxlt, hy.1, hy.2⟩, ?_⟩
      rw [equation_iff] at hequation ⊢
      rw [cast_emod, Int.cast_neg, neg_sq]
      exact hequation

/-- A point and its opposite add up to the point at infinity. -/
theorem add_opposite_self (P : Option Point) : C.add (C.opposite P) P = .ok none := by
  cases P with
  | none => rfl
  | some P => exact add_opposite rfl (by rw [cast_emod, Int.cast_neg])

namespace CurvePoint

/-- The sum of points on the curve. -/
noncomputable instance : Add C.CurvePoint where
  add P Q := ⟨_, (add_onCurve P.2 Q.2).choose_spec.2⟩

/-- The point at infinity. -/
instance : Zero C.CurvePoint where
  zero := ⟨none, trivial⟩

/-- The opposite of a point on the curve. -/
instance : Neg C.CurvePoint where
  neg P := ⟨_, opposite_onCurve P.2⟩

/-- The sum is computed by adding. -/
theorem add_eq (P Q : C.CurvePoint) : C.add P Q = .ok (P + Q : C.CurvePoint) :=
  (add_onCurve P.2 Q.2).choose_spec.1

/-- What adding computes is the sum. -/
theorem eq_add {P Q R : C.CurvePoint} (h : C.add P Q = .ok (R : Option Point)) : R = P + Q :=
  Subtype.ext (Except.ok.inj (h.symm.trans (add_eq P Q)))

/-- There are finitely many points on the curve, since they have only so many coordinates. -/
theorem natCard_pos : 0 < Nat.card C.CurvePoint := by
  have hfinite : Function.Injective fun P : C.CurvePoint ↦ P.1.map fun P ↦
      ((P.x : ZMod C.modulus), (P.y : ZMod C.modulus)) := by
    rintro ⟨P, hP⟩ ⟨Q, hQ⟩ heq
    cases P with
    | none => cases Q with
      | none => rfl
      | some Q => cases heq
    | some P => cases Q with
      | none => cases heq
      | some Q =>
          obtain ⟨hx, hy⟩ := Prod.mk.inj (Option.some.inj heq)
          obtain rfl := hP.reduced.point_eq hQ.reduced hx hy
          rfl
  have := Finite.of_injective _ hfinite
  exact Nat.card_pos

end CurvePoint

/-! ## Curves that are not singular -/

/-- The point that is a given element of the group of the Weierstrass curve is determined. -/
theorem Represents.point_eq {P Q : Option Point} {g : C.weierstrass.Point} (hP : Represents P g)
    (hQ : Represents Q g) : P = Q := by
  generalize hg : g = g' at hQ
  cases hP with
  | infinity => cases hQ with
    | infinity => rfl
    | finite hQ hpoint => cases hg
  | @finite P hP hpoint => cases hQ with
    | infinity => cases hg
    | @finite Q hQ hpoint' =>
        obtain ⟨hx, hy⟩ := Affine.Point.some.inj hg
        rw [hP.point_eq hQ hx hy]

/-- The element of the group of the Weierstrass curve that a point is, is determined. -/
theorem Represents.element_eq {P : Option Point} {g h : C.weierstrass.Point}
    (hg : Represents P g) (hh : Represents P h) : g = h := by
  cases hg with
  | infinity => cases hh with
    | infinity => rfl
  | finite _ _ => cases hh with
    | finite _ _ => rfl

/-- Each element of the group of the Weierstrass curve is a point. -/
theorem exists_represents (g : C.weierstrass.Point) : ∃ P, Represents P g := by
  cases g with
  | zero => exact ⟨none, .infinity⟩
  | some x y hpoint =>
      have hcast (z : ZMod C.modulus) : (((z.val : Nat) : Int) : ZMod C.modulus) = z := by
        rw [Int.cast_natCast, ZMod.natCast_zmod_val]
      have hlt (z : ZMod C.modulus) : ((z.val : Nat) : Int) < C.p := by
        rw [p_eq]
        exact_mod_cast z.val_lt
      exact ⟨_, .of_coordinates (R := ⟨x.val, y.val⟩)
        ⟨Int.natCast_nonneg _, hlt x, Int.natCast_nonneg _, hlt y⟩ (hcast x) (hcast y) hpoint⟩

/-- The points on a curve that is not singular form a group, if the curve states how many elements
the group of the Weierstrass curve has. -/
theorem formsGroup_of_isElliptic [C.weierstrass.IsElliptic]
    (hcard : (Nat.card C.weierstrass.Point : Int) = C.order) : C.FormsGroup where
  add_assoc := by
    intro P Q R hP hQ hR
    obtain ⟨g, hg⟩ := Represents.exists_of_onCurve hP
    obtain ⟨h, hh⟩ := Represents.exists_of_onCurve hQ
    obtain ⟨k, hk⟩ := Represents.exists_of_onCurve hR
    obtain ⟨left, hleft, hleftElement⟩ := hg.add hh
    obtain ⟨right, hright, hrightElement⟩ := hh.add hk
    obtain ⟨S, hS, hSElement⟩ := hleftElement.add hk
    obtain ⟨T, hT, hTElement⟩ := hg.add hrightElement
    rw [hleft, hright]
    rw [← add_assoc] at hTElement
    exact hS.trans ((congrArg Except.ok (hSElement.point_eq hTElement)).trans hT.symm)
  card := by
    choose point hpoint using exists_represents (C := C)
    have hbijective : Function.Bijective
        fun g ↦ (⟨point g, (hpoint g).onCurve⟩ : C.CurvePoint) := by
      constructor
      · intro g h heq
        have hsame : point g = point h := congrArg Subtype.val heq
        exact (hsame ▸ hpoint g).element_eq (hpoint h)
      · rintro ⟨P, hP⟩
        obtain ⟨g, hg⟩ := Represents.exists_of_onCurve hP
        exact ⟨g, Subtype.ext ((hpoint g).point_eq hg)⟩
    rw [← Nat.card_eq_of_bijective _ hbijective, hcard]

/-- The points of secp256k1 form a group with as many elements as the curve states. -/
theorem formsGroup_secp256k1 : secp256k1.FormsGroup := by
  obtain ⟨g, hg⟩ := exists_generated
  refine formsGroup_of_isElliptic ?_
  rw [natCard_secp256k1 hg, hg.order_cast]

/-! ## Multiples -/

namespace FormsGroup

/-- The group of the points on the curve. -/
noncomputable abbrev addGroup (h : C.FormsGroup) : AddGroup C.CurvePoint :=
  AddGroup.ofLeftAxioms
    (fun P Q R ↦ by
      have hassoc := h.add_assoc P.2 Q.2 R.2
      rw [CurvePoint.add_eq, CurvePoint.add_eq] at hassoc
      exact CurvePoint.eq_add (hassoc.symm.trans (CurvePoint.add_eq (P + Q) R)))
    (fun P ↦ (CurvePoint.eq_add rfl).symm)
    (fun P ↦ (CurvePoint.eq_add (add_opposite_self P.1)).symm)

/-- The group interprets the points on the curve as themselves. -/
theorem interprets (h : C.FormsGroup) :
    letI := h.addGroup
    C.Interprets fun P (g : C.CurvePoint) ↦ P = g :=
  let := h.addGroup
  { infinity := ⟨fun hg ↦ Subtype.ext hg.symm, fun hg ↦ hg ▸ rfl⟩
    add := by
      rintro _ _ P Q rfl rfl
      exact ⟨_, CurvePoint.add_eq P Q, rfl⟩
    onCurve := by
      rintro _ P rfl
      exact P.2 }

/-- Multiplication computes the multiple of the group. -/
theorem multiply_eq (h : C.FormsGroup) (n : Int) (P : C.CurvePoint) :
    letI := h.addGroup
    C.multiply n P = .ok (n • P : C.CurvePoint) := by
  let := h.addGroup
  have horder : 0 < C.order := by
    rw [← h.card]
    exact_mod_cast CurvePoint.natCard_pos
  have hmultiple : C.order • P = 0 := by
    rw [← h.card, natCast_zsmul]
    exact card_nsmul_eq_zero'
  obtain ⟨_, hR, rfl⟩ := h.interprets.multiply horder rfl hmultiple n
  exact hR

/-- Adding copies computes the multiple of the group. -/
theorem copies_eq (h : C.FormsGroup) (n : Nat) (P : C.CurvePoint) :
    letI := h.addGroup
    C.copies n P = .ok (n • P : C.CurvePoint) := by
  let := h.addGroup
  induction n with
  | zero => rw [zero_nsmul]; rfl
  | succ n ih =>
      rw [copies, ih, succ_nsmul]
      exact CurvePoint.add_eq (n • P) P

/-- The sum of a point with itself an integer number of times is the multiple of the group. -/
theorem times_eq (h : C.FormsGroup) (n : Int) (P : C.CurvePoint) :
    letI := h.addGroup
    C.times n P = .ok (n • P : C.CurvePoint) := by
  let := h.addGroup
  cases n with
  | ofNat n =>
      rw [Int.ofNat_eq_natCast, natCast_zsmul]
      exact h.copies_eq n P
  | negSucc n =>
      rw [negSucc_zsmul, ← neg_nsmul]
      exact h.copies_eq (n + 1) (-P)

end FormsGroup

/-- On a curve over a prime whose points form a group, the multiple of a point on the curve by any
integer exists, is on the curve and is the sum of the point with itself so many times. The multiple
by a sum is the sum of the multiples, and the multiple by a product is the multiple of the
multiple. -/
theorem multiply_add_and_mul (h : C.FormsGroup) {P : Option Point} (hP : C.OnCurve P) (a b : Int) :
    (∃ R, C.multiply a P = .ok R ∧ C.OnCurve R ∧ C.times a P = .ok R) ∧
      C.multiply (a + b) P = (do C.add (← C.multiply a P) (← C.multiply b P)) ∧
      C.multiply (a * b) P = (do C.multiply a (← C.multiply b P)) := by
  let := h.addGroup
  have hmultiply (n : Int) (P : C.CurvePoint) := h.multiply_eq n P
  obtain ⟨P, rfl⟩ : ∃ Q : C.CurvePoint, (Q : Option Point) = P := ⟨⟨P, hP⟩, rfl⟩
  refine ⟨⟨_, hmultiply a P, (a • P : C.CurvePoint).2, h.times_eq a P⟩, ?_, ?_⟩
  · rw [hmultiply, hmultiply, hmultiply, add_zsmul]
    exact (CurvePoint.add_eq (a • P) (b • P)).symm
  · rw [hmultiply, hmultiply, mul_zsmul]
    exact (hmultiply a (b • P)).symm

/-- The multiples of the generator by minus one and by two more than its order. -/
theorem multiply_add_and_mul_generator :
    secp256k1.FormsGroup ∧ secp256k1.OnCurve secp256k1.generator ∧
      (∃ R, secp256k1.multiply (-1) secp256k1.generator = .ok R ∧ secp256k1.OnCurve R ∧
        secp256k1.times (-1) secp256k1.generator = .ok R) ∧
      secp256k1.multiply (-1 + (secp256k1.order + 2)) secp256k1.generator = (do
        secp256k1.add (← secp256k1.multiply (-1) secp256k1.generator)
          (← secp256k1.multiply (secp256k1.order + 2) secp256k1.generator)) ∧
      secp256k1.multiply (-1 * (secp256k1.order + 2)) secp256k1.generator = (do
        secp256k1.multiply (-1)
          (← secp256k1.multiply (secp256k1.order + 2) secp256k1.generator)) :=
  ⟨formsGroup_secp256k1, generator_onCurve,
    multiply_add_and_mul formsGroup_secp256k1 generator_onCurve (-1) (secp256k1.order + 2)⟩

end BitcoinSpend.Curve
