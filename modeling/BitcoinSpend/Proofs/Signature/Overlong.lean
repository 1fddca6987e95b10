import BitcoinSpend.Proofs.Signature.Ecdsa
import BitcoinSpend.Proofs.Signature.Lax
import BitcoinSpend.Proofs.Signature.Strict

/-!
# Overlong signatures among items

What a script can push is too short to hold an integer without a text, and what is read by the lax
rules has thirty-two bytes at most. Only a long strict encoding, which a stack was given from
outside, can hold one. Read `OverlongItem` first; the main results are `strict_of_overlong` and
`not_overlongItem_of_length_le`.
-/

namespace BitcoinSpend.Signature

/-- The items that are the strict encoding of an overlong signature in front of a last byte. -/
def OverlongItem (item : Bytes) : Prop :=
  ∃ signature, Strict.decode item.dropLast = .ok signature ∧ Overlong secp256k1 signature

variable {C : Curve} {bs : Bytes} {signature : Signature}

/-! ## Encodings -/

/-- Numbers of so few bytes have a text. -/
theorem writable_of_lt_capacity {n width : Nat} (hn : n < Bytes.capacity width)
    (hwidth : width ≤ 1785) : Text.Writable n := by
  rw [Strict.capacity_eq] at hn
  exact Text.writable_of_lt (8 * width) (by omega) hn

/-- A signature that is read by the lax rules is not overlong. -/
theorem Lax.not_overlong_of_decode (h : Lax.decode bs = .ok signature) :
    ¬ Overlong C signature := by
  obtain ⟨parts, hparts, rfl⟩ := exists_parts h
  rw [hparts.decode_bytes] at h
  obtain rfl := Except.ok.inj h
  rw [Parts.signature]
  split
  · next hsizes =>
      rw [Bytes.length_dropZeros_le_iff, Bytes.length_dropZeros_le_iff] at hsizes
      exact not_overlong_of_writable (writable_of_lt_capacity hsizes.1 (by decide))
        (writable_of_lt_capacity hsizes.2 (by decide))
  · have hzero : Text.Writable 0 := Text.writable_of_lt 0 (by decide) (by decide)
    exact not_overlong_of_writable hzero hzero

/-- A signature of two plain numbers is not overlong. -/
theorem not_overlong_ofPlain (hlength : bs.length = 64) : ¬ Overlong C (ofPlain bs) := by
  have htake : (bs.take 32).length ≤ 1785 := by
    rw [List.length_take]
    omega
  have hdrop : (bs.drop 32).length ≤ 1785 := by
    rw [List.length_drop]
    omega
  exact not_overlong_of_writable (writable_of_lt_capacity (Bytes.toNatBE_lt _) htake)
    (writable_of_lt_capacity (Bytes.toNatBE_lt _) hdrop)

/-- An overlong signature was read strictly, whatever the policy allows. -/
theorem strict_of_overlong {lax : Bool} (hdecode : decode lax bs = .ok signature)
    (hlong : Overlong C signature) : Strict.decode bs = .ok signature := by
  unfold decode at hdecode
  split at hdecode
  · next hstrict =>
      cases hdecode
      exact hstrict
  · split at hdecode
    · split at hdecode
      · next hlax =>
          cases hdecode
          exact absurd hlong (Lax.not_overlong_of_decode hlax)
      · split at hdecode
        · next hlength =>
            cases hdecode
            exact absurd hlong (not_overlong_ofPlain hlength)
        · cases hdecode
    · cases hdecode

/-! ## Items -/

/-- Items that have no more bytes than an integer with a text are not overlong. -/
theorem not_overlongItem_of_length_le {item : Bytes} (hlength : item.length ≤ 1785) :
    ¬ OverlongItem item := by
  rintro ⟨signature, hstrict, hlong⟩
  obtain ⟨r, s, rfl, -, -, -, hitem⟩ := Strict.decode_ok_iff.mp hstrict
  -- The contents of both integers are parts of the item.
  have hpair := Strict.length_lt_length_element 0x30 (Strict.pair r s)
  obtain ⟨hr, hs⟩ := Strict.length_lt_length_pair r s
  rw [← hitem, List.length_dropLast] at hpair
  have hwritable {n : Nat} (hn : (Strict.integerContents n).length ≤ 1785) : Text.Writable n := by
    have hlt := Bytes.toNatBE_lt (Strict.integerContents n)
    rw [Strict.toNatBE_integerContents] at hlt
    exact writable_of_lt_capacity hlt hn
  have hrText : Text.Writable r := hwritable (by omega)
  have hsText : Text.Writable s := hwritable (by omega)
  exact not_overlong_of_writable hrText hsText hlong

/-- A signature whose first integer has no text. -/
def long : Signature :=
  ⟨2 ^ 16000, 1⟩

/-- The strict encoding of the signature. -/
def longEncoded : Bytes :=
  Strict.element 0x30 (Strict.pair (2 ^ 16000) 1)

/-- The encoding is read as the signature. -/
theorem decode_longEncoded : Strict.decode longEncoded = .ok long :=
  Strict.decode_ok_iff.mpr ⟨2 ^ 16000, 1, by decide +kernel, by decide +kernel, by decide,
    by decide +kernel, rfl⟩

/-- The signature is overlong. -/
theorem overlong_long : Overlong secp256k1 long :=
  .inl ⟨by decide +kernel, by decide +kernel⟩

/-- With a hash type behind it, the encoding is an overlong item. -/
theorem overlongItem_longEncoded {hashType : UInt8} : OverlongItem (longEncoded ++ [hashType]) :=
  ⟨long, by rw [List.dropLast_concat]; exact decode_longEncoded, overlong_long⟩

end BitcoinSpend.Signature
