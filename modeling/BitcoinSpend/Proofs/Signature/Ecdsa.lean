import BitcoinSpend.Proofs.Curve.Multiplication
import BitcoinSpend.Proofs.Text.Decimal
import BitcoinSpend.Signature.Ecdsa

/-!
# Verdicts on signatures

Verification reaches a verdict unless it has to write an integer that has no text (`Overlong`): where
the modulus and the number of points of a curve are prime, all inverses exist and all sums are on the
curve. The main results are `verify_verdict` and `verify_eq_unwritable_iff`.
-/

namespace BitcoinSpend.Signature

open Curve

variable {C : Curve}

/-- Whether an integer is a scalar. -/
theorem isScalar_iff {n : Int} : isScalar C n = true ↔ 1 ≤ n ∧ n < C.order := by
  simp [isScalar]

/-- Where scalars fit into thirty-two bytes, they have a text. -/
theorem writable_of_isScalar (hsize : C.order ≤ 2 ^ 256) {n : Int} (hn : isScalar C n = true) :
    Text.Writable n := by
  rw [isScalar_iff] at hn
  exact Text.writable_of_lt 256 (by decide) (by omega)

/-- The signatures whose first integer that is no scalar has no text. -/
def Overlong (C : Curve) (signature : Signature) : Prop :=
  (isScalar C signature.r = false ∧ ¬ Text.Writable signature.r) ∨
    (isScalar C signature.r = true ∧ isScalar C signature.s = false ∧ ¬ Text.Writable signature.s)

/-- A signature of integers that have a text is not overlong. -/
theorem not_overlong_of_writable {signature : Signature} (hr : Text.Writable signature.r)
    (hs : Text.Writable signature.s) : ¬ Overlong C signature := by
  rintro (⟨-, h⟩ | ⟨-, -, h⟩)
  · exact h hr
  · exact h hs

/-- With a scalar behind it, the first integer decides. -/
theorem overlong_iff_of_isScalar (hsize : C.order ≤ 2 ^ 256) {r s : Int}
    (hs : isScalar C s = true) : Overlong C ⟨r, s⟩ ↔ ¬ Text.Writable r := by
  constructor
  · rintro (⟨-, h⟩ | ⟨-, h, -⟩)
    · exact h
    · rw [hs] at h
      cases h
  · intro h
    refine .inl ⟨Bool.eq_false_iff.mpr fun hr ↦ ?_, h⟩
    exact h (writable_of_isScalar hsize hr)

/-- Two scalars are looked at. -/
theorem verify_of_isScalar {signature : Signature}
    (h : isScalar C signature.r = true ∧ isScalar C signature.s = true) (message : Bytes)
    (key : Option Point) :
    verify C signature message key = (verifyScalars C signature message key).mapError .curve := by
  simp [verify, h.1, h.2]

/-- A signature with an integer that is no scalar is rejected, if that integer has a text. -/
theorem verify_of_not_isScalar {signature : Signature}
    (h : ¬ (isScalar C signature.r = true ∧ isScalar C signature.s = true))
    (htext : ¬ Overlong C signature) (message : Bytes) (key : Option Point) :
    verify C signature message key = .ok .rejected := by
  unfold verify
  cases hr : isScalar C signature.r with
  | false => exact if_pos (not_not.mp fun hlong ↦ htext (.inl ⟨hr, hlong⟩))
  | true =>
      cases hs : isScalar C signature.s with
      | false => exact if_pos (not_not.mp fun hlong ↦ htext (.inr ⟨hr, hs, hlong⟩))
      | true => exact absurd ⟨hr, hs⟩ h

/-- Verification lacks a text exactly for the overlong signatures, whatever message and key are. -/
theorem verify_eq_unwritable_iff {signature : Signature} {message : Bytes} {key : Option Point} :
    verify C signature message key = .error .unwritable ↔ Overlong C signature := by
  constructor
  · intro h
    by_contra htext
    by_cases hscalars : isScalar C signature.r = true ∧ isScalar C signature.s = true
    · rw [verify_of_isScalar hscalars] at h
      cases hverdict : verifyScalars C signature message key with
      | ok v =>
          rw [hverdict] at h
          cases h
      | error e =>
          rw [hverdict] at h
          cases h
    · rw [verify_of_not_isScalar hscalars htext] at h
      cases h
  · unfold verify
    rintro (⟨hr, hlong⟩ | ⟨hr, hs, hlong⟩)
    · rw [hr]
      exact if_neg hlong
    · rw [hr, hs]
      exact if_neg hlong

/-- A scalar has an inverse modulo the number of points. -/
theorem inverse_scalar (horder : C.order.toNat.Prime) {n : Int} (hn : isScalar C n = true) :
    ∃ x, inverse n C.order = .ok x ∧ (x : ZMod C.order.toNat) = (n : ZMod C.order.toNat)⁻¹ := by
  have hfact : Fact C.order.toNat.Prime := ⟨horder⟩
  have hcast : (C.order.toNat : Int) = C.order := Int.toNat_of_nonneg (order_pos horder).le
  obtain ⟨x, hx, -, -, hinverse⟩ := inverse_of_ne_zero (cast_ne_zero horder (isScalar_iff.mp hn))
  exact ⟨x, hcast ▸ hx, hinverse⟩

/-- Verification under a key on the curve reaches a verdict if it needs no text that is missing. -/
theorem verify_verdict [Fact C.modulus.Prime] (horder : C.order.toNat.Prime)
    (hgenerator : C.OnCurve C.generator) {signature : Signature}
    (htext : ¬ Overlong C signature) (message : Bytes) {key : Option Point}
    (hkey : C.OnCurve key) : ∃ v, verify C signature message key = .ok v := by
  have hpos := order_pos horder
  by_cases hscalars : isScalar C signature.r = true ∧ isScalar C signature.s = true
  case neg => exact ⟨.rejected, verify_of_not_isScalar hscalars htext message key⟩
  case pos =>
    rw [verify_of_isScalar hscalars, verifyScalars]
    obtain ⟨inv, hinv, -⟩ := inverse_scalar horder hscalars.2
    obtain ⟨left, hleft, hleftOn⟩ :=
      multiply_onCurve hpos (messageNumber C message * inv % C.order) hgenerator
    obtain ⟨right, hright, hrightOn⟩ :=
      multiply_onCurve hpos (signature.r * inv % C.order) hkey
    obtain ⟨sum, hsum, -⟩ := add_onCurve hleftOn hrightOn
    simp only [contains_of_onCurve hkey, hinv, remainder_of_pos hpos, multiplyGenerator, hleft,
      hright, hsum, bind, Except.bind, if_true]
    cases sum with
    | none => exact ⟨.rejected, rfl⟩
    | some P => exact ⟨_, rfl⟩

end BitcoinSpend.Signature
