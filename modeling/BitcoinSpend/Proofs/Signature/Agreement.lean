import BitcoinSpend.Proofs.Curve.Cyclic
import BitcoinSpend.Proofs.Signature.Signing

/-!
# Signing and verifying agree

A nonce that gives two integers that are not zero gives a signature with the smaller of the two
candidates for `s`, and verification accepts it. It would accept the other candidate as well: the
combination of the generator and the key is then the opposite point, which has the same `x`
coordinate. Read `withNonce?_of_ne_zero` and `verify_negate` first. The main result is
`verify_sign_and_negate`, about secp256k1, where every point on the curve is a multiple of the
generator.
-/

namespace BitcoinSpend.Signature

open Curve WeierstrassCurve

variable {C : Curve} {key r s : Int} {z : Nat} {message : Bytes} {Q : Option Point}

/-! ## Computations -/

/-- A nonce whose two integers are not zero gives them, the second one or its opposite. -/
theorem withNonce?_of_ne_zero {nonce inv : Int} {P : Point}
    (hP : C.multiplyGenerator nonce = .ok (some P)) (hinv : inverse nonce C.order = .ok inv)
    (hr : P.x % C.order ≠ 0) (hs : inv * (z + P.x % C.order * key) % C.order ≠ 0) :
    withNonce? C key z nonce = .ok (some ⟨P.x % C.order,
      min (inv * (z + P.x % C.order * key) % C.order)
        (C.order - inv * (z + P.x % C.order * key) % C.order)⟩) := by
  simp only [withNonce?, hP, hinv, Except.mapError, bind, Except.bind, if_neg hr, if_neg hs]
  rfl

variable [hprime : Fact C.modulus.Prime] {g : C.weierstrass.Point}

/-! ## Signing -/

/-- Signing with such a nonce first returns its two integers, both scalars and the second one in the
lower half, and they are accepted under the public key. -/
theorem verify_sign (h : Generated C g) {nonce inv : Int} {P : Point}
    (hkey : isScalar C key = true) (hnonce : isScalar C nonce = true)
    (hP : C.multiplyGenerator nonce = .ok (some P)) (hinv : inverse nonce C.order = .ok inv)
    (hr : P.x % C.order ≠ 0)
    (hs : inv * (messageNumber C message + P.x % C.order * key) % C.order ≠ 0)
    (hQ : Represents Q (key • g)) (rest : List Int) :
    ∃ signature, sign C key message (nonce :: rest) = .ok signature ∧
      signature.r = P.x % C.order ∧ isScalar C signature.r = true ∧
      isScalar C signature.s = true ∧ signature.s ≤ C.order / 2 ∧
      signature.verify C message Q = .ok .accepted := by
  have hwith := withNonce?_of_ne_zero hP hinv hr hs
  obtain ⟨signature?, hsignature, hsigns⟩ :=
    exists_withNonce? h key (messageNumber C message) hnonce
  have hvalue := Except.ok.inj (hsignature.symm.trans hwith)
  have hsigned := hsigns _ hvalue
  refine ⟨_, ?_, rfl, hsigned.r, hsigned.s, ?_, hsigned.verify h hQ⟩
  · simp only [sign, hkey, if_true, signFrom, hwith, bind, Except.bind]
    rfl
  · dsimp only
    omega

/-! ## Negation -/

/-- The opposite point gets the same verdict. -/
theorem judge_neg {P : Option Point} {q : C.weierstrass.Point} (hP : Represents P q)
    (hQ : Represents Q (-q)) (r : Int) : judge C r Q = judge C r P := by
  cases P with
  | none =>
      cases hP with
      | infinity =>
          generalize hzero : -(0 : C.weierstrass.Point) = q at hQ
          cases hQ with
          | infinity => rfl
          | finite hreduced hpoint =>
              exact absurd (hzero.symm.trans neg_zero) (Affine.Point.some_ne_zero hpoint)
  | some P =>
      obtain ⟨S, rfl, hx⟩ := hP.exists_x_eq hQ (.inr rfl)
      rw [judge, judge, hx]

/-- A signature and the one with the opposite second integer have the same outcome. -/
theorem verify_negate (h : Generated C g) (hs : isScalar C s = true)
    (hQ : Represents Q (key • g)) (r : Int) (message : Bytes) :
    verify C ⟨r, C.order - s⟩ message Q = verify C ⟨r, s⟩ message Q := by
  have hopposite : isScalar C (C.order - s) = true := by
    rw [isScalar_iff] at hs ⊢
    omega
  cases hr : isScalar C r with
  | false => simp only [verify, hr, Bool.not_false, if_true]
  | true =>
      obtain ⟨sum, w, hsum, hw, hverify⟩ :=
        verify_of_scalars h ⟨r, s⟩ hr hs message hQ
      obtain ⟨sum', w', hsum', hw', hverify'⟩ :=
        verify_of_scalars h ⟨r, C.order - s⟩ hr hopposite message hQ
      have hfact : Fact C.order.toNat.Prime := ⟨h.prime⟩
      have hne := cast_ne_zero h.prime (isScalar_iff.mp hs)
      have hscalar : w' • g = -(w • g) := by
        rw [← neg_zsmul, h.zsmul_eq_iff, Int.cast_neg]
        refine mul_right_cancel₀ hne ?_
        rw [Int.cast_sub, h.cast_order, zero_sub] at hw'
        linear_combination hw - hw'
      rw [hverify, hverify', judge_neg hsum (hscalar ▸ hsum')]

/-! ## The curve secp256k1 -/

/-- Signing with a private key and a nonce, both scalars, first forms two integers. If they are not
zero, it returns the first one and the lower one of the second and its opposite, and these are
accepted under the public key. For any signature whose second integer is a scalar, any message and
any reduced point on the curve, the opposite second integer has the same outcome. That is a verdict
if the first integer has a text, and otherwise there is none for either. -/
theorem verify_sign_and_negate :
    (∀ (key nonce : Int) (message : Bytes) (rest : List Int),
      1 ≤ key ∧ key < secp256k1.order → 1 ≤ nonce ∧ nonce < secp256k1.order →
      ∃ (Q P : Point) (inv : Int), secp256k1.multiplyGenerator key = .ok (some Q) ∧
        secp256k1.multiplyGenerator nonce = .ok (some P) ∧
        inverse nonce secp256k1.order = .ok inv ∧
        (P.x % secp256k1.order ≠ 0 →
          inv * (messageNumber secp256k1 message + P.x % secp256k1.order * key) %
            secp256k1.order ≠ 0 →
          ∃ signature, sign secp256k1 key message (nonce :: rest) = .ok signature ∧
            signature.r = P.x % secp256k1.order ∧
            (1 ≤ signature.r ∧ signature.r < secp256k1.order) ∧
            (1 ≤ signature.s ∧ signature.s ≤ secp256k1.order / 2) ∧
            signature.verify secp256k1 message (some Q) = .ok .accepted)) ∧
    ∀ (r s : Int) (message : Bytes) (Q : Option Point), 1 ≤ s ∧ s < secp256k1.order →
      (∀ P, Q = some P → secp256k1.Reduced P) → secp256k1.contains Q = .ok true →
      verify secp256k1 ⟨r, secp256k1.order - s⟩ message Q = verify secp256k1 ⟨r, s⟩ message Q ∧
        (Text.Writable r → ∃ verdict, verify secp256k1 ⟨r, s⟩ message Q = .ok verdict) ∧
        (¬ Text.Writable r → verify secp256k1 ⟨r, s⟩ message Q = .error .unwritable) := by
  obtain ⟨g, hg⟩ := exists_generated
  constructor
  · intro key nonce message rest hkey hnonce
    have hscalar := isScalar_iff.mpr hnonce
    obtain ⟨Q, hQ, hpublic⟩ := hg.exists_multiplyGenerator hkey
    obtain ⟨P, hP, -⟩ := hg.exists_multiplyGenerator hnonce
    obtain ⟨inv, hinv, -⟩ := inverse_scalar hg.prime hscalar
    refine ⟨Q, P, inv, hQ, hP, hinv, fun hr hs ↦ ?_⟩
    obtain ⟨signature, hsign, hrx, hrScalar, hsScalar, hlow, hverify⟩ :=
      verify_sign hg (isScalar_iff.mpr hkey) hscalar hP hinv hr hs hpublic rest
    exact ⟨signature, hsign, hrx, isScalar_iff.mp hrScalar,
      ⟨(isScalar_iff.mp hsScalar).1, hlow⟩, hverify⟩
  · intro r s message Q hs hreduced hcurve
    have honCurve := onCurve_of_contains hreduced hcurve
    obtain ⟨q, hq⟩ := Represents.exists_of_onCurve honCurve
    obtain ⟨key, rfl⟩ := exists_zsmul_eq hg q
    have hscalar := isScalar_iff.mpr hs
    have hoverlong := overlong_iff_of_isScalar (C := secp256k1) (r := r) (by decide) hscalar
    refine ⟨verify_negate hg hscalar hq r message, fun htext ↦ ?_, fun htext ↦ ?_⟩
    · exact verify_verdict hg.prime generator_onCurve (fun h ↦ hoverlong.mp h htext) message honCurve
    · exact verify_eq_unwritable_iff.mpr (hoverlong.mpr htext)

/-- The generator as public key and as the point of the nonce. -/
theorem verify_sign_and_negate_generator :
    (∃ signature, sign secp256k1 1 [0x01] [1] = .ok signature ∧
      signature.s ≤ secp256k1.order / 2 ∧
      signature.verify secp256k1 [0x01] (some generatorPoint) = .ok .accepted) ∧
    ∃ verdict, verify secp256k1 ⟨1, 1⟩ [0x01] (some generatorPoint) = .ok verdict ∧
      verify secp256k1 ⟨1, secp256k1.order - 1⟩ [0x01] (some generatorPoint) = .ok verdict := by
  have hpoint : secp256k1.multiplyGenerator 1 = .ok (some generatorPoint) := by decide +kernel
  have hinverse : inverse 1 secp256k1.order = .ok 1 := by decide +kernel
  have hfinite : secp256k1.Finite generatorPoint := generator_onCurve
  constructor
  · obtain ⟨Q, P, inv, hQ, hP, hinv, hsign⟩ :=
      verify_sign_and_negate.1 1 1 [0x01] [] (by decide) (by decide)
    obtain rfl := Option.some.inj (Except.ok.inj (hpoint.symm.trans hQ))
    obtain rfl := Option.some.inj (Except.ok.inj (hpoint.symm.trans hP))
    obtain rfl := Except.ok.inj (hinverse.symm.trans hinv)
    obtain ⟨signature, hsignature, -, -, hlow, hverify⟩ :=
      hsign (by decide +kernel) (by decide +kernel)
    exact ⟨signature, hsignature, hlow.2, hverify⟩
  · have hreduced : ∀ P, some generatorPoint = some P → secp256k1.Reduced P := by
      rintro P ⟨⟩
      exact hfinite.reduced
    obtain ⟨hsame, hverdict, -⟩ := verify_sign_and_negate.2 1 1 [0x01] (some generatorPoint)
      (by decide) hreduced (contains_of_onCurve hfinite)
    obtain ⟨verdict, hverdict⟩ := hverdict (by decide +kernel)
    exact ⟨verdict, hverdict, hsame.trans hverdict⟩

end BitcoinSpend.Signature
