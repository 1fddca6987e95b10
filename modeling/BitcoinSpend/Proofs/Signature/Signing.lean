import BitcoinSpend.Proofs.Curve.Group
import BitcoinSpend.Proofs.Signature.Ecdsa
import BitcoinSpend.Proofs.Signature.Strict
import BitcoinSpend.Signature.Lax

/-!
# Signatures that verify

A signature that is made with a private key is accepted under the public key, whatever the message
and the nonce are. The curve has to be a group in which the generator has a prime order. Read
`Signs` and `verify_of_scalars` first; the main results are `exists_signFrom`, `Signs.verify` and
`exists_signTyped`.
-/

namespace BitcoinSpend.Signature

open Curve WeierstrassCurve

variable {C : Curve} [hprime : Fact C.modulus.Prime] {g : C.weierstrass.Point}

/-! ## Signatures -/

/-- The signatures of a number under a private key: for some nonce, `r` is the `x` coordinate of its
multiple of the generator, and `s` solves the signing equation up to the sign. -/
structure Signs (g : C.weierstrass.Point) (key : Int) (z : Nat) (signature : Signature) : Prop where
  r : isScalar C signature.r = true
  s : isScalar C signature.s = true
  nonce : ∃ (k : Int) (P : Point), Represents (some P) (k • g) ∧
    signature.r = P.x % C.order ∧
    ((signature.s * k : ZMod C.order.toNat) = z + signature.r * key ∨
      (signature.s * k : ZMod C.order.toNat) = -(z + signature.r * key))

variable {key : Int} {z : Nat}

/-- A remainder that is not zero is a scalar. -/
theorem isScalar_emod (h : Generated C g) {n : Int} (hn : n % C.order ≠ 0) :
    isScalar C (n % C.order) = true := by
  have horder := order_pos h.prime
  have hnonneg := Int.emod_nonneg n horder.ne'
  have hlt := Int.emod_lt_of_pos n horder
  rw [isScalar_iff]
  omega

/-- A nonce that is a scalar gives a signature unless one of its integers is zero. -/
theorem exists_withNonce? (h : Generated C g) (key : Int) (z : Nat) {k : Int}
    (hk : isScalar C k = true) :
    ∃ signature?, withNonce? C key z k = .ok signature? ∧
      ∀ signature, signature? = some signature → Signs g key z signature := by
  obtain ⟨P, hP, hmultiple⟩ := h.exists_multiplyGenerator (isScalar_iff.mp hk)
  obtain ⟨inv, hinv, hinverse⟩ := inverse_scalar h.prime hk
  simp only [withNonce?, hP, hinv, Except.mapError, bind, Except.bind]
  split
  · exact ⟨none, rfl, by simp⟩
  · next hr =>
      split
      · exact ⟨none, rfl, by simp⟩
      · next hs =>
          refine ⟨_, rfl, ?_⟩
          rintro _ ⟨⟩
          have hfact : Fact C.order.toNat.Prime := ⟨h.prime⟩
          have hsolves : ((inv * (z + P.x % C.order * key) % C.order : Int) * k :
              ZMod C.order.toNat) = z + (P.x % C.order : Int) * key := by
            rw [h.cast_emod, Int.cast_mul, hinverse]
            push_cast
            field_simp [cast_ne_zero h.prime (isScalar_iff.mp hk)]
          have hscalar := isScalar_emod h hs
          generalize inv * (z + P.x % C.order * key) % C.order = s at hsolves hscalar
          -- The smaller of the two candidates solves the equation up to the sign.
          obtain hmin | hmin := min_choice s (C.order - s)
          · refine ⟨isScalar_emod h hr, ?_, k, P, hmultiple, rfl, .inl ?_⟩
            · rwa [hmin]
            · rw [hmin]
              exact hsolves
          · refine ⟨isScalar_emod h hr, ?_, k, P, hmultiple, rfl, .inr ?_⟩
            · rw [isScalar_iff] at hscalar
              rw [hmin, isScalar_iff]
              dsimp only
              omega
            · rw [hmin, Int.cast_sub, h.cast_order, zero_sub, neg_mul, hsolves]

/-- Of nonces that are scalars, the first that is not passed over gives a signature. -/
theorem exists_signFrom (h : Generated C g) (key : Int) (z : Nat) {nonces : List Int}
    (hnonces : ∀ k ∈ nonces, isScalar C k = true)
    (hsome : ∃ k ∈ nonces, withNonce? C key z k ≠ .ok none) :
    ∃ signature, signFrom C key z nonces = .ok signature ∧ Signs g key z signature := by
  induction nonces with
  | nil =>
      obtain ⟨k, hk, -⟩ := hsome
      cases hk
  | cons k rest ih =>
      obtain ⟨hk, hrest⟩ := List.forall_mem_cons.mp hnonces
      obtain ⟨signature?, hsignature, hsigns⟩ := exists_withNonce? h key z hk
      cases signature? with
      | some signature =>
          refine ⟨signature, ?_, hsigns signature rfl⟩
          rw [signFrom, hsignature]
          rfl
      | none =>
          obtain ⟨k', hk', hpass⟩ := hsome
          have htail : k' ∈ rest :=
            (List.mem_cons.mp hk').resolve_left fun heq ↦ hpass (heq ▸ hsignature)
          obtain ⟨signature, hsign, hsigns'⟩ := ih hrest ⟨k', htail, hpass⟩
          refine ⟨signature, ?_, hsigns'⟩
          rw [signFrom, hsignature]
          exact hsign

/-! ## Verification -/

variable {signature : Signature} {message : Bytes} {Q : Option Point}

/-- The verdict on the combination of the generator and the key that a signature names. -/
def judge (C : Curve) (r : Int) : Option Point → Verdict
  | none => .rejected
  | some P => if r = P.x % C.order then .accepted else .rejected

/-- Verification combines the generator and the key to the multiple of the generator by the solution
of the signing equation, and judges that. -/
theorem verify_of_scalars (h : Generated C g) (signature : Signature)
    (hr : isScalar C signature.r = true) (hs : isScalar C signature.s = true) (message : Bytes)
    (hQ : Represents Q (key • g)) :
    ∃ (sum : Option Point) (w : Int), Represents sum (w • g) ∧
      (w * signature.s : ZMod C.order.toNat) =
        messageNumber C message + signature.r * key ∧
      signature.verify C message Q = .ok (judge C signature.r sum) := by
  have horder := order_pos h.prime
  obtain ⟨inv, hinv, hinverse⟩ := inverse_scalar h.prime hs
  obtain ⟨left, hleft, hleftElement⟩ :=
    h.multiplyGenerator (messageNumber C message * inv % C.order)
  obtain ⟨right, hright, hrightElement⟩ := h.multiply hQ (signature.r * inv % C.order)
  obtain ⟨sum, hsum, hsumElement⟩ := hleftElement.add hrightElement
  rw [← add_zsmul] at hsumElement
  refine ⟨sum, _, hsumElement, ?_, ?_⟩
  · have hfact : Fact C.order.toNat.Prime := ⟨h.prime⟩
    have hne := cast_ne_zero h.prime (isScalar_iff.mp hs)
    rw [Int.cast_add, Int.cast_mul, h.cast_emod, h.cast_emod]
    push_cast
    rw [hinverse]
    field_simp
  · simp only [verify_of_isScalar ⟨hr, hs⟩, verifyScalars, contains_of_onCurve hQ.onCurve, hinv,
      remainder_of_pos horder, hleft, hright, hsum, bind, Except.bind, if_true]
    cases sum with
    | none => rfl
    | some S => rfl

/-- A signature of a message under a private key is accepted under the public key. -/
theorem Signs.verify (h : Generated C g)
    (hsigns : Signs g key (messageNumber C message) signature) (hQ : Represents Q (key • g)) :
    signature.verify C message Q = .ok .accepted := by
  obtain ⟨k, P, hP, hr, hsolves⟩ := hsigns.nonce
  obtain ⟨sum, w, hsum, hw, hverify⟩ := verify_of_scalars h signature hsigns.r hsigns.s message hQ
  have hfact : Fact C.order.toNat.Prime := ⟨h.prime⟩
  have hs := cast_ne_zero h.prime (isScalar_iff.mp hsigns.s)
  -- Both scalars solve the signing equation, the nonce up to the sign.
  have hnonce : w • g = k • g ∨ w • g = -(k • g) := by
    rw [← neg_zsmul, h.zsmul_eq_iff, h.zsmul_eq_iff, Int.cast_neg]
    refine hsolves.imp (fun hsolves ↦ ?_) fun hsolves ↦ ?_
    · exact mul_right_cancel₀ hs (by rw [hw, ← hsolves, mul_comm])
    · exact mul_right_cancel₀ hs (by rw [hw, ← neg_eq_iff_eq_neg.mpr hsolves]; ring)
  obtain ⟨S, rfl, hx⟩ := hP.exists_x_eq hsum hnonce
  rw [hverify, judge, if_pos (hr.trans (congrArg (· % C.order) hx.symm))]

/-! ## Written signatures -/

/-- A signature that is made can be written, if scalars have at most thirty-two bytes: it is read
back strictly, and it is accepted. -/
theorem exists_signTyped (h : Generated C g) (hsize : C.order ≤ 2 ^ 256)
    (hkey : isScalar C key = true) {nonces : List Int}
    (hnonces : ∀ k ∈ nonces, isScalar C k = true)
    (hsome : ∃ k ∈ nonces, withNonce? C key (messageNumber C message) k ≠ .ok none)
    {hashType : Nat} (htype : hashType < 256) :
    ∃ (signature : Signature) (encoded : Bytes),
      signTyped C key message nonces hashType = .ok (encoded ++ [UInt8.ofNat hashType]) ∧
        encoded.length ≤ 72 ∧ Strict.decode encoded = .ok signature ∧
        ∀ Q, Represents Q (key • g) → signature.verify C message Q = .ok .accepted := by
  obtain ⟨signature, hsign, hsigns⟩ := exists_signFrom h key (messageNumber C message) hnonces hsome
  have hr := isScalar_iff.mp hsigns.r
  have hs := isScalar_iff.mp hsigns.s
  obtain ⟨encoded, hencode, hlength, hdecode⟩ :=
    Strict.exists_encode? signature ⟨by omega, by omega⟩ ⟨by omega, by omega⟩
  refine ⟨signature, encoded, ?_, hlength, hdecode, fun Q hQ ↦ hsigns.verify h hQ⟩
  have hbyte : ¬ ((hashType : Int) < 0 ∨ 256 ≤ (hashType : Int)) := by omega
  simp only [signTyped, sign, hkey, if_true, hsign, if_neg hbyte, hencode, Option.getD_some,
    Int.toNat_natCast, bind, Except.bind]
  rfl

/-- What is read strictly is read so under every policy. -/
theorem decode_of_strict {bs : Bytes} (hdecode : Strict.decode bs = .ok signature) (lax : Bool) :
    Signature.decode lax bs = .ok signature := by
  rw [Signature.decode, hdecode]

end BitcoinSpend.Signature
