import Mathlib.Algebra.Ring.Int.Defs
import Mathlib.Data.Nat.Cast.Basic
import BitcoinSpend.Proofs.Text.Decimal
import BitcoinSpend.Proofs.Wire.Spelling

/-!
# Integers of any width

The ranges of the fixed widths are given by powers of two (`InRange`). A form is written exactly for
the integers of the range, and it is read back whatever stands behind it. The error for any other
integer is about the integer, unless that has no text. A count or length is written exactly below
`2⁶⁴`, and nothing shorter is read as the same number. The main result is `integers_restored`.
-/

namespace BitcoinSpend.Wire

/-! ## Fixed widths -/

/-- The integers of `width` bytes, unsigned or in two's complement. -/
def InRange (signed : Bool) (width : Nat) (v : Int) : Prop :=
  if signed then -2 ^ (8 * width - 1) ≤ v ∧ v < 2 ^ (8 * width - 1)
  else 0 ≤ v ∧ v < 2 ^ (8 * width)

/-- Byte strings are counted by a power of two. -/
theorem capacity_eq_two_pow (width : Nat) : (Bytes.capacity width : Int) = 2 ^ (8 * width) := by
  show ((256 ^ width : Nat) : Int) = 2 ^ (8 * width)
  rw [pow_mul, Nat.cast_pow]
  rfl

/-- Half of the byte strings are counted by the power of two below. -/
theorem capacity_eq_two_mul {width : Nat} (hwidth : 0 < width) :
    (Bytes.capacity width : Int) = 2 * 2 ^ (8 * width - 1) := by
  rw [capacity_eq_two_pow, ← pow_succ']
  congr 1
  omega

/-- The integers that fit are those of the range. -/
theorem fits_iff {width : Nat} (hwidth : 0 < width) (signed : Bool) (v : Int) :
    fits signed width v = true ↔ InRange signed width v := by
  unfold InRange
  cases signed with
  | true =>
      rw [fits_signed hwidth, capacity_eq_two_mul hwidth, if_pos rfl]
      omega
  | false =>
      rw [fits_unsigned, capacity_eq_two_pow, if_neg Bool.false_ne_true]

/-- In a width that byte strings have, only the integer is looked at. -/
theorem littleIntOfWidth_natCast {width : Nat} (hle : (width : Int) ≤ Bytes.maxLength)
    (signed : Bool) (v : Int) : littleIntOfWidth signed width v = littleInt? signed width v := by
  unfold Bytes.maxLength at hle
  have haddressable : Bytes.addressable width = true := addressable_of_lt (by omega)
  have hmax : ¬ Bytes.maxLength < (width : Int) := by
    unfold Bytes.maxLength
    omega
  unfold littleIntOfWidth
  rw [if_neg (by simp [haddressable, hmax]), if_neg (by omega), Int.toNat_natCast]

/-- The error for an integer that does not fit, in a width that byte strings have, depends on whether
the integer has a text. -/
theorem misfit_natCast {width : Nat} (hle : (width : Int) ≤ Bytes.maxLength) (v : Int) :
    WriteError.misfit v width = if Text.Writable v then .doesNotFit v width else .unwritable := by
  have hwidth : Text.Writable width := by
    unfold Bytes.maxLength at hle
    exact Text.writable_of_lt 64 (by decide) (by omega)
  rw [WriteError.misfit, Text.errorAbout]
  simp only [List.forall_mem_cons, List.not_mem_nil, false_imp_iff, implies_true, and_true, hwidth]

/-- An integer outside the range of the width is refused, and the form of one inside is as wide as
asked for and read back. -/
theorem littleInt?_spec {width : Nat} (hwidth : 0 < width) (hlt : width < 2 ^ 63) (signed : Bool)
    (v : Int) :
    (¬ InRange signed width v → littleInt? signed width v = .error (.misfit v width)) ∧
    (InRange signed width v → ∃ bs, littleInt? signed width v = .ok bs ∧ bs.length = width ∧
      ∀ what, Restores (littleInt signed width what) bs v) := by
  rw [← fits_iff hwidth]
  refine ⟨fun h ↦ if_neg h, fun h ↦ ?_⟩
  refine ⟨_, littleInt?_of_fits h, length_ofIntLE width v, ?_⟩
  exact restores_littleInt hwidth hlt h

/-! ## Counts and lengths -/

/-- A count or length is refused exactly outside of 64 bits. -/
theorem compactSize?_error_iff (v : Int) :
    compactSize? v = .error .compactSizeRange ↔ v < 0 ∨ 2 ^ 64 ≤ v := by
  show _ ↔ v < 0 ∨ 0x10000000000000000 ≤ v
  by_cases h : v < 0 ∨ 0x10000000000000000 ≤ v
  · simp [compactSize?, h]
  · simp [compactSize?, h]

/-- What is read as a number takes at least the bytes that are written for it. -/
theorem length_compactSizeOf_le {n : Nat} {bs rest : Bytes} (h : compactSize bs = .ok n rest) :
    (compactSizeOf n).length + rest.length ≤ bs.length := by
  obtain ⟨s, rfl, rfl⟩ := spells_compactSize.exists_of_ok h
  have hle := s.saves.length_le
  rw [List.length_append]
  omega

/-- A count or length of 64 bits is written, is read back, and takes no more bytes than anything
else that is read as it. -/
theorem compactSize?_spec {v : Int} (hnonneg : 0 ≤ v) (hlt : v < 2 ^ 64) :
    ∃ bs, compactSize? v = .ok bs ∧ Restores compactSize bs v.toNat ∧
      ∀ shorter left, compactSize shorter = .ok v.toNat left →
        bs.length + left.length ≤ shorter.length := by
  refine ⟨compactSizeOf v.toNat, ?_, restores_compactSize (by omega),
    fun _ _ ↦ length_compactSizeOf_le⟩
  rw [compactSize?, if_neg (by omega)]

/-! ## Both together -/

/-- In a width that byte strings have, an integer outside the range of the width is refused, with an
error about it if it has a text, and one inside is written and read back in front of anything. In a
greater width every integer is refused. As a count or length it is refused exactly outside of 64
bits, and otherwise read back in front of anything, with nothing shorter read as it. -/
theorem integers_restored (signed : Bool) {width : Nat} (hwidth : 1 ≤ width) (v : Int) :
    ((width : Int) ≤ Bytes.maxLength →
      (¬ InRange signed width v → littleIntOfWidth signed width v =
        .error (if Text.Writable v then .doesNotFit v width else .unwritable)) ∧
      (InRange signed width v → ∃ bs, littleIntOfWidth signed width v = .ok bs ∧
        bs.length = width ∧
        ∀ what rest, littleInt signed width what (bs ++ rest) = .ok v rest)) ∧
    (Bytes.maxLength < (width : Int) →
      littleIntOfWidth signed width v = .error (.misfit v width)) ∧
    (compactSize? v = .error .compactSizeRange ↔ v < 0 ∨ 2 ^ 64 ≤ v) ∧
    (0 ≤ v → v < 2 ^ 64 → ∃ bs, compactSize? v = .ok bs ∧
      (∀ rest, compactSize (bs ++ rest) = .ok v.toNat rest) ∧
      ∀ shorter left, compactSize shorter = .ok v.toNat left →
        bs.length + left.length ≤ shorter.length) := by
  refine ⟨fun hle ↦ ?_, fun hlt ↦ ?_, compactSize?_error_iff v, compactSize?_spec⟩
  · have hshort : width < 2 ^ 63 := by
      unfold Bytes.maxLength at hle
      omega
    rw [littleIntOfWidth_natCast hle, ← misfit_natCast hle]
    exact littleInt?_spec hwidth hshort signed v
  · unfold littleIntOfWidth
    rw [if_pos (by simp [hlt])]

/-- The least integer of two signed bytes is read back and the one below it is refused, `10⁴³⁰⁰` is
refused without a text, and `fd` takes three bytes. -/
theorem integers_restored_boundaries :
    (littleIntOfWidth true 2 (-0x8000) = .ok [0x00, 0x80] ∧
      ∀ what rest, littleInt true 2 what ([0x00, 0x80] ++ rest) = .ok (-0x8000) rest) ∧
    littleIntOfWidth true 2 (-0x8001) = .error (.doesNotFit (-0x8001) 2) ∧
    littleIntOfWidth false 4 (10 ^ 4300) = .error .unwritable ∧
    compactSize? 0xfd = .ok [0xfd, 0xfd, 0x00] ∧
    ∀ shorter left, compactSize shorter = .ok 0xfd left → 3 + left.length ≤ shorter.length := by
  have hlow : InRange true 2 (-0x8000) := by
    simp [InRange]
  have hbelow : ¬ InRange true 2 (-0x8001) := by
    simp [InRange]
  have habove : ¬ InRange false 4 (10 ^ 4300) := by
    rintro ⟨-, hlt⟩
    revert hlt
    decide +kernel
  have htwo : 1 ≤ 2 := by decide
  obtain ⟨bs, hwritten, -, hread⟩ :=
    ((integers_restored true htwo (-0x8000)).1 (by decide)).2 hlow
  have hrefused := ((integers_restored true htwo (-0x8001)).1 (by decide)).1 hbelow
  have hlong := ((integers_restored false (by decide : 1 ≤ 4) (10 ^ 4300)).1 (by decide)).1 habove
  rw [if_pos (by decide +kernel)] at hrefused
  rw [if_neg (by decide +kernel)] at hlong
  obtain ⟨cs, hsize, -, hshortest⟩ :=
    (integers_restored true htwo 0xfd).2.2.2 (by decide) (by decide)
  have hbs : littleIntOfWidth true 2 (-0x8000) = .ok [0x00, 0x80] := by decide
  have hcs : compactSize? 0xfd = .ok [0xfd, 0xfd, 0x00] := by decide
  obtain rfl : bs = [0x00, 0x80] := Except.ok.inj (hwritten.symm.trans hbs)
  obtain rfl : cs = [0xfd, 0xfd, 0x00] := Except.ok.inj (hsize.symm.trans hcs)
  exact ⟨⟨hbs, hread⟩, hrefused, hlong, hcs, hshortest⟩

/-- The error for an integer that does not fit is not always about the integer: `10⁴³⁰⁰` does not fit
into four bytes, but it has no text. -/
theorem not_refused_with_text :
    ¬ ∀ (signed : Bool) (width : Nat) (v : Int), 1 ≤ width → (width : Int) ≤ Bytes.maxLength →
      (littleIntOfWidth signed width v = .error (.doesNotFit v width) ↔
        ¬ InRange signed width v) := by
  intro h
  have habove : ¬ InRange false 4 (10 ^ 4300) := by
    rintro ⟨-, hlt⟩
    revert hlt
    decide +kernel
  have hrefused := (h false 4 (10 ^ 4300) (by decide) (by decide)).mpr habove
  revert hrefused
  decide +kernel

end BitcoinSpend.Wire
