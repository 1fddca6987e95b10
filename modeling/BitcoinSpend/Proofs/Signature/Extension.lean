import BitcoinSpend.Proofs.Signature.Lax
import BitcoinSpend.Proofs.Signature.Signing

/-!
# Lax decoding extends strict decoding

What is read strictly is read laxly too, as the same integers or, if one of them does not fit into
thirty-two bytes, as zeros, and both are rejected then. Only an integer of 2²⁴ bytes or more is
refused, since its length takes four bytes. Read `Lax.integer_element` first; the main results are
`Lax.decode_of_strict_decode`, `verify_bounded` and `lax_extends_strict`.
-/

namespace BitcoinSpend.Signature

/-- The signature with its integers, or with zeros if one of them does not fit into thirty-two
bytes. -/
def bounded (signature : Signature) : Signature :=
  if signature.r < 2 ^ 256 ∧ signature.s < 2 ^ 256 then signature else ⟨0, 0⟩

/-- The lengths of both integers, as they are written, fit into three bytes. -/
def HasShortContents (signature : Signature) : Prop :=
  (Strict.integerContents signature.r.toNat).length < Bytes.capacity 3 ∧
    (Strict.integerContents signature.s.toNat).length < Bytes.capacity 3

instance (signature : Signature) : Decidable signature.HasShortContents :=
  inferInstanceAs (Decidable (_ ∧ _))

namespace Lax

open Strict (lengthOf element integerContents pair)

/-! ## Elements with the shortest lengths -/

/-- A length in its shortest form is skipped if it fits into four bytes. -/
theorem skippedLength_lengthOf {n : Nat} (hn : n < Bytes.capacity 4) :
    SkippedLength (lengthOf n) := by
  by_cases hshort : n < 0x80
  · obtain ⟨b, hlengthOf, hb, -⟩ := Strict.lengthOf_short hshort
    rw [hlengthOf]
    exact .short hb
  · obtain ⟨b, digits, hlengthOf, -, hbyte, -⟩ := Strict.lengthOf_long hn hshort
    rw [hlengthOf]
    exact .long hbyte

/-- A length in its shortest form is read if it fits into three bytes, and refused if it needs
four. -/
theorem length_lengthOf {n : Nat} (hn : n < Bytes.capacity 4) (rest : Bytes) :
    length (lengthOf n ++ rest) =
      if n < Bytes.capacity 3 then .ok (n, rest) else .error .lengthTooLong := by
  by_cases hshort : n < 0x80
  · obtain ⟨b, hlengthOf, hb, hvalue⟩ := Strict.lengthOf_short hshort
    have hcapacity : 0x80 ≤ Bytes.capacity 3 := by decide
    rw [hlengthOf, List.singleton_append, length, if_pos hb, hvalue, if_pos (by omega)]
  · obtain ⟨b, digits, hlengthOf, hb, hbyte, -, rfl⟩ := Strict.lengthOf_long hn hshort
    have hroom : ¬ (digits ++ rest).length < digits.length := by
      rw [List.length_append]
      omega
    rw [hlengthOf, List.cons_append, length, if_neg hb]
    dsimp only
    rw [hbyte, Nat.add_sub_cancel_left, if_neg hroom, List.take_left, List.drop_left,
      Bytes.toNatBE_dropZeros]
    have hfew : (Bytes.dropZeros digits).length ≤ 3 ↔ Bytes.toNatBE digits < Bytes.capacity 3 :=
      Bytes.length_dropZeros_le_iff
    by_cases hthree : Bytes.toNatBE digits < Bytes.capacity 3
    · rw [if_pos hthree, if_neg (by omega)]
    · rw [if_neg hthree, if_pos (by omega)]

/-- An integer element is read if the length of its contents fits into three bytes, and refused if
it needs four. -/
theorem integer_element {contents : Bytes} (hcontents : contents.length < Bytes.capacity 4)
    (rest : Bytes) :
    integer (element 0x02 contents ++ rest) =
      if contents.length < Bytes.capacity 3 then .ok (contents, rest)
      else .error .lengthTooLong := by
  rw [element, List.cons_append, List.append_assoc, integer, if_pos rfl, length_lengthOf hcontents]
  split
  · change (if (contents ++ rest).length < contents.length then _ else _) = _
    rw [if_neg (by rw [List.length_append]; omega), List.take_left, List.drop_left]
    rfl
  · rfl

/-! ## Strict encodings -/

/-- What is decoded from the sequence of two integers: both, or zeros if one of them does not fit
into thirty-two bytes. If the contents of one of them are too long, the sequence is refused. -/
theorem decode_pair {r s : Nat} (hpair : (pair r s).length < Bytes.capacity 4) :
    decode (element 0x30 (pair r s)) =
      if (integerContents r).length < Bytes.capacity 3 ∧
          (integerContents s).length < Bytes.capacity 3 then
        .ok (if r < 2 ^ 256 ∧ s < 2 ^ 256 then ⟨r, s⟩ else ⟨0, 0⟩)
      else .error .lengthTooLong := by
  have hshorter := Strict.length_lt_length_pair r s
  have hsequence : sequence (element 0x30 (pair r s)) = .ok (pair r s) :=
    sequence_eq_ok_iff.mpr ⟨lengthOf (pair r s).length, skippedLength_lengthOf hpair, rfl⟩
  have hr : integer (pair r s) = if (integerContents r).length < Bytes.capacity 3 then
      .ok (integerContents r, element 0x02 (integerContents s)) else .error .lengthTooLong :=
    integer_element (by omega) _
  have hs : integer (element 0x02 (integerContents s)) =
      if (integerContents s).length < Bytes.capacity 3 then .ok (integerContents s, [])
      else .error .lengthTooLong := by
    rw [← integer_element (by omega), List.append_nil]
  have hsize (n : Nat) : 32 < (Bytes.dropZeros (integerContents n)).length ↔ ¬ n < 2 ^ 256 := by
    have hiff : (Bytes.dropZeros (integerContents n)).length ≤ 32 ↔ _ :=
      Bytes.length_dropZeros_le_iff
    rw [Strict.toNatBE_integerContents, Strict.capacity_eq] at hiff
    rw [← hiff, Nat.not_le]
  rw [decode, hsequence]
  change (integer (pair r s) >>= _) = _
  rw [hr]
  by_cases hrlength : (integerContents r).length < Bytes.capacity 3
  · rw [if_pos hrlength]
    change (integer (element 0x02 (integerContents s)) >>= _) = _
    rw [hs]
    by_cases hslength : (integerContents s).length < Bytes.capacity 3
    · rw [if_pos hslength, if_pos ⟨hrlength, hslength⟩]
      change Except.ok (if _ then _ else _) = _
      simp only [Bytes.toNatBE_dropZeros, Strict.toNatBE_integerContents, hsize]
      congr 1
      by_cases hsizes : r < 2 ^ 256 ∧ s < 2 ^ 256
      · rw [if_pos hsizes, if_neg (by omega)]
      · rw [if_neg hsizes, if_pos (by omega)]
    · rw [if_neg hslength, if_neg fun h ↦ hslength h.2]
      rfl
  · rw [if_neg hrlength, if_neg fun h ↦ hrlength h.1]
    rfl

/-- What is decoded from a strict encoding. -/
theorem decode_of_strict_decode {bs : Bytes} {signature : Signature}
    (h : Strict.decode bs = .ok signature) :
    decode bs = if signature.HasShortContents then .ok signature.bounded
      else .error .lengthTooLong := by
  obtain ⟨r, s, rfl, -, -, hpair, rfl⟩ := Strict.decode_ok_iff.mp h
  rw [decode_pair hpair]
  have hbounded : bounded ⟨r, s⟩ = if r < 2 ^ 256 ∧ s < 2 ^ 256 then ⟨r, s⟩ else ⟨0, 0⟩ := by
    rw [bounded]
    congr 1
    simp only [eq_iff_iff]
    norm_cast
  rw [hbounded]
  rfl

end Lax

/-! ## Verdicts -/

/-- Where scalars fit into thirty-two bytes, a signature with another integer gets the verdict of
the zeros, if it is not overlong. -/
theorem verify_bounded {C : Curve} (hsize : C.order ≤ 2 ^ 256) {signature : Signature}
    (htext : ¬ Overlong C signature) (message : Bytes) (key : Option Point) :
    verify C signature.bounded message key = verify C signature message key := by
  rw [bounded]
  split
  · rfl
  · next hlarge =>
      have hzeros : ¬ (isScalar C 0 = true ∧ isScalar C 0 = true) := by simp [isScalar_iff]
      have hsignature : ¬ (isScalar C signature.r = true ∧ isScalar C signature.s = true) := by
        rw [isScalar_iff, isScalar_iff]
        omega
      have hzero : Text.Writable 0 := by decide +kernel
      rw [verify_of_not_isScalar hzeros (not_overlong_of_writable hzero hzero),
        verify_of_not_isScalar hsignature htext]

/-! ## The extension -/

/-- A byte string that is read strictly is read as the same signature under every policy. Laxly it
is read as that signature or, if an integer does not fit into thirty-two bytes, as zeros, unless the
length of an integer takes four bytes; both get the same verdict for every message and key, if the
signature is not overlong. The strict encoding of two positive integers below 2²⁵⁶ is read as them
strictly and laxly. -/
theorem lax_extends_strict :
    (∀ (bs : Bytes) (signature : Signature), Strict.decode bs = .ok signature →
      (Lax.decode bs = if signature.HasShortContents then .ok signature.bounded
        else .error .lengthTooLong) ∧
      (∀ lax, decode lax bs = .ok signature) ∧
      ∀ loose, Lax.decode bs = .ok loose → ¬ Overlong secp256k1 signature → ∀ message key,
        verify secp256k1 loose message key = verify secp256k1 signature message key) ∧
    ∀ r s : Int, 1 ≤ r ∧ r < 2 ^ 256 → 1 ≤ s ∧ s < 2 ^ 256 →
      ∃ bs, Strict.encode? ⟨r, s⟩ = some bs ∧ Strict.decode bs = .ok ⟨r, s⟩ ∧
        Lax.decode bs = .ok ⟨r, s⟩ := by
  refine ⟨fun bs signature h ↦ ?_, fun r s hr hs ↦ ?_⟩
  · have hlax := Lax.decode_of_strict_decode h
    refine ⟨hlax, decode_of_strict h, fun loose hloose htext message key ↦ ?_⟩
    rw [hlax] at hloose
    split at hloose
    · obtain rfl := Except.ok.inj hloose
      exact verify_bounded (by decide) htext message key
    · cases hloose
  · obtain ⟨bs, hencode, -, hdecode⟩ := Strict.exists_encode? ⟨r, s⟩ hr hs
    have hshort : HasShortContents ⟨r, s⟩ := by
      have hcapacity : 33 < Bytes.capacity 3 := by decide
      have hrlength := Strict.length_integerContents_le (n := r.toNat) (by omega)
      have hslength := Strict.length_integerContents_le (n := s.toNat) (by omega)
      exact ⟨by dsimp only; omega, by dsimp only; omega⟩
    refine ⟨bs, hencode, hdecode, ?_⟩
    rw [Lax.decode_of_strict_decode hdecode, if_pos hshort, bounded, if_pos ⟨hr.2, hs.2⟩]

/-- The strict encoding of 2²⁵⁶ and one. -/
def oversized : Bytes :=
  [0x30, 0x26, 0x02, 0x21, 0x01] ++ List.replicate 32 0x00 ++ [0x02, 0x01, 0x01]

theorem lax_extends_strict_oversized :
    Strict.decode oversized = .ok ⟨2 ^ 256, 1⟩ ∧ Lax.decode oversized = .ok ⟨0, 0⟩ ∧
      (∀ message key, verify secp256k1 ⟨0, 0⟩ message key =
        verify secp256k1 ⟨2 ^ 256, 1⟩ message key) ∧
      ∃ bs, Strict.encode? ⟨1, 1⟩ = some bs ∧ Strict.decode bs = .ok ⟨1, 1⟩ ∧
        Lax.decode bs = .ok ⟨1, 1⟩ := by
  have hstrict : Strict.decode oversized = .ok ⟨2 ^ 256, 1⟩ := by decide
  have hlax : Lax.decode oversized = .ok ⟨0, 0⟩ := by decide
  have htext : ¬ Overlong secp256k1 ⟨2 ^ 256, 1⟩ :=
    not_overlong_of_writable (by decide +kernel) (by decide +kernel)
  exact ⟨hstrict, hlax, (lax_extends_strict.1 _ _ hstrict).2.2 _ hlax htext,
    lax_extends_strict.2 1 1 (by decide) (by decide)⟩

/-- Contents of 2²⁴ bytes. -/
def longContents : Bytes :=
  0x01 :: List.replicate 0xffffff 0x00

/-- An encoding whose first integer has 2²⁴ bytes. -/
def longEncoding : Bytes :=
  Strict.element 0x30 (Strict.element 0x02 longContents ++ Strict.element 0x02 [0x01])

theorem lax_refuses_longEncoding :
    Strict.decode longEncoding = .ok ⟨Bytes.toNatBE longContents, 1⟩ ∧
      Lax.decode longEncoding = .error .lengthTooLong := by
  have hlength : longContents.length = 0xffffff + 1 := by
    rw [longContents, List.length_cons, List.length_replicate]
  have hcapacity : Bytes.capacity 3 = 0x1000000 ∧ Bytes.capacity 4 = 0x100000000 := by decide
  have hone : Strict.integerContents 1 = [0x01] := by decide
  have hcontents : longContents = Strict.integerContents (Bytes.toNatBE longContents) :=
    Strict.integer?_eq_some_iff.mp (Strict.integer?_cons (by decide) (.inr (.inl (by decide))))
  have hpair : Strict.element 0x02 longContents ++ Strict.element 0x02 [0x01] =
      Strict.pair (Bytes.toNatBE longContents) 1 := by
    rw [Strict.pair, ← hcontents, hone]
  have hfits : (Strict.pair (Bytes.toNatBE longContents) 1).length < Bytes.capacity 4 := by
    have hlong : (Strict.element 0x02 longContents).length ≤ longContents.length + 6 :=
      Strict.length_element_le 0x02 (by omega)
    have hshort : (Strict.element 0x02 [0x01]).length = 3 := by decide
    rw [← hpair, List.length_append]
    omega
  have hpositive : 0 < Bytes.toNatBE longContents := by
    rw [longContents, Bytes.toNatBE_cons]
    exact Nat.add_pos_left (Nat.mul_pos (Bytes.capacity_pos _) (by decide)) _
  rw [longEncoding, hpair]
  refine ⟨Strict.decode_ok_iff.mpr ⟨_, 1, rfl, hpositive, Nat.one_pos, hfits, rfl⟩, ?_⟩
  rw [Lax.decode_pair hfits, ← hcontents, if_neg]
  omega

end BitcoinSpend.Signature
