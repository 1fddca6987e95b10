import BitcoinSpend.Proofs.Curve.Order
import BitcoinSpend.Proofs.Signature.Signing

/-!
# What acceptance says about the key

A signature is accepted only if both of its integers are scalars and the key passes the check
against the curve. A finite key then satisfies the curve equation. The point at infinity passes the
check as well, and since it drops out of the combination, nothing secret is needed to make
signatures under it. Read `checked_of_accepted` and `verify_infinity` first; the main results are
`equation_of_accepted` and `not_finite_of_accepted`.
-/

namespace BitcoinSpend.Signature

open Curve

variable {signature : Signature} {message : Bytes} {key : Option Point}

/-- A signature that is accepted has passed the checks of its integers and of the key. -/
theorem checked_of_accepted {C : Curve} (h : signature.verify C message key = .ok .accepted) :
    isScalar C signature.r = true ∧ isScalar C signature.s = true ∧ C.contains key = .ok true := by
  by_cases hscalars : isScalar C signature.r = true ∧ isScalar C signature.s = true
  · refine ⟨hscalars.1, hscalars.2, ?_⟩
    rw [verify_of_isScalar hscalars, verifyScalars] at h
    cases hcontains : C.contains key with
    | error e =>
        rw [hcontains] at h
        cases h
    | ok b =>
        cases b with
        | true => rfl
        | false =>
            rw [hcontains] at h
            cases h
  · by_cases htext : Overlong C signature
    · rw [verify_eq_unwritable_iff.mpr htext] at h
      cases h
    · rw [verify_of_not_isScalar hscalars htext] at h
      cases h

/-- A signature that is accepted has two scalars, and a finite key under which it is accepted
satisfies the curve equation. -/
theorem equation_of_accepted (h : signature.verify secp256k1 message key = .ok .accepted) :
    (1 ≤ signature.r ∧ signature.r < secp256k1.order) ∧
    (1 ≤ signature.s ∧ signature.s < secp256k1.order) ∧
    ∀ P, key = some P → P.y ^ 2 % secp256k1.p = (P.x ^ 3 + 7) % secp256k1.p := by
  obtain ⟨hr, hs, hcontains⟩ := checked_of_accepted h
  refine ⟨isScalar_iff.mp hr, isScalar_iff.mp hs, ?_⟩
  rintro P rfl
  obtain ⟨b, hb, hequation⟩ := contains_some (C := secp256k1) P
  rw [hb] at hcontains
  have hcurve := (equation_secp256k1 _ _).mp (hequation.mp (Except.ok.inj hcontains))
  rw [← cast_eq_iff]
  push_cast
  exact hcurve

/-- The generator is the key of an accepted signature: both integers are its `x` coordinate, and the
message is zero. -/
theorem equation_of_accepted_generator :
    verify secp256k1 ⟨generatorPoint.x, generatorPoint.x⟩ (List.replicate 32 0)
        (some generatorPoint) = .ok .accepted ∧
      generatorPoint.y ^ 2 % secp256k1.p = (generatorPoint.x ^ 3 + 7) % secp256k1.p := by
  have haccepted : verify secp256k1 ⟨generatorPoint.x, generatorPoint.x⟩ (List.replicate 32 0)
      (some generatorPoint) = .ok .accepted := by decide +kernel
  exact ⟨haccepted, (equation_of_accepted haccepted).2.2 generatorPoint rfl⟩

/-- Under the point at infinity, every message that does not stand for zero has an accepted
signature: with the message's own number for `s`, the combination is the generator. -/
theorem verify_infinity (message : Bytes)
    (hz : (messageNumber secp256k1 message : Int) % secp256k1.order ≠ 0) :
    verify secp256k1 ⟨generatorPoint.x % secp256k1.order,
      messageNumber secp256k1 message % secp256k1.order⟩ message none = .ok .accepted := by
  obtain ⟨g, hg⟩ := exists_generated
  have hfact : Fact secp256k1.order.toNat.Prime := ⟨hg.prime⟩
  have hx : generatorPoint.x % secp256k1.order ≠ 0 := by decide +kernel
  have hinfinity : Represents none ((0 : Int) • g) := by
    rw [zero_zsmul]
    exact .infinity
  obtain ⟨sum, w, hsum, hw, hverify⟩ := verify_of_scalars hg
    ⟨generatorPoint.x % secp256k1.order, messageNumber secp256k1 message % secp256k1.order⟩
    (isScalar_emod hg hx) (isScalar_emod hg hz) message hinfinity
  have hne := cast_ne_zero hg.prime (isScalar_iff.mp (isScalar_emod hg hz))
  rw [hg.cast_emod, hg.cast_emod, Int.cast_zero, mul_zero, add_zero] at hw
  rw [hg.cast_emod] at hne
  have hone : w • g = g := by
    conv_rhs => rw [← one_zsmul g]
    rw [hg.zsmul_eq_iff, Int.cast_one]
    exact mul_right_cancel₀ hne (by rw [hw, one_mul, Int.cast_natCast])
  rw [hone] at hsum
  have hgenerator : Represents (some generatorPoint) g := hg.generator
  obtain ⟨S, rfl, hS⟩ := hgenerator.exists_x_eq hsum (.inl rfl)
  rw [hverify, judge, if_pos (by rw [hS])]

/-- Acceptance does not imply that the key is finite: the point at infinity has an accepted
signature of the message one. -/
theorem not_finite_of_accepted :
    ¬ ∀ (signature : Signature) (message : Bytes) (key : Option Point),
      signature.verify secp256k1 message key = .ok .accepted →
        (∃ P, key = some P ∧ P.y ^ 2 % secp256k1.p = (P.x ^ 3 + 7) % secp256k1.p) ∧
          (1 ≤ signature.r ∧ signature.r < secp256k1.order) ∧
          (1 ≤ signature.s ∧ signature.s < secp256k1.order) := by
  intro h
  obtain ⟨⟨P, hP, -⟩, -⟩ := h _ _ none (verify_infinity [0x01] (by decide +kernel))
  cases hP

end BitcoinSpend.Signature
