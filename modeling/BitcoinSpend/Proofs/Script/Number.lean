import BitcoinSpend.Proofs.Text.Decimal
import BitcoinSpend.Script.Number
import Mathlib.Data.List.Basic
import Mathlib.Data.Nat.Bitwise

/-!
# Laws of script numbers

Writing an integer gives the one shortest byte string that is read as it, and whether a byte string
is that of its integer shows in its last two bytes. A byte string counts as true if the integer is
not zero. Read `signBit` and `Shortest` first: writing and reading compare the magnitude of the
integer with `signBit`. The main result is `encode_shortest_and_truth`.
-/

namespace BitcoinSpend.Script.Number

variable {v : Int} {bs front : Bytes} {width : Nat}

/-! ## The sign bit -/

/-- The value of the top bit of the last byte, which is the sign. The empty string has none. -/
def signBit (width : Nat) : Nat :=
  Bytes.capacity width / 2

/-- The top bit counts 128 times as much as the byte in front of it. -/
theorem signBit_succ (width : Nat) : signBit (width + 1) = 128 * Bytes.capacity width := by
  rw [signBit, Bytes.capacity_succ]
  omega

/-- The top bit counts half as much as a byte behind the last one would. -/
theorem capacity_eq (hwidth : width ≠ 0) : Bytes.capacity width = 2 * signBit width := by
  obtain ⟨width, rfl⟩ := Nat.exists_eq_succ_of_ne_zero hwidth
  rw [Bytes.capacity_succ, signBit_succ]
  omega

/-- The top bit as a power of two. -/
theorem signBit_eq_two_pow (width : Nat) : signBit (width + 1) = 2 ^ (8 * width + 7) := by
  rw [signBit_succ, Bytes.capacity, Nat.pow_eq, Nat.pow_add, Nat.pow_mul, Nat.mul_comm]

/-! ## Writing -/

/-- The digits of an integer together with its sign. -/
def signed (width : Nat) (v : Int) : Nat :=
  if v < 0 then v.natAbs + signBit width else v.natAbs

/-- An integer is written by the digits of its magnitude together with its sign. -/
theorem encode_eq (v : Int) :
    encode v = Bytes.ofNatLE (encode v).length (signed (encode v).length v) := by
  by_cases hzero : v.natAbs = 0
  · simp [encode, hzero, Bytes.ofNatLE]
  · simp [encode, hzero, signed, signBit]

/-- An integer is written in as many bytes as its magnitude needs next to the sign. -/
theorem length_encode_le_iff : (encode v).length ≤ width ↔ v = 0 ∨ v.natAbs < signBit width := by
  by_cases hzero : v.natAbs = 0
  · have hv : v = 0 := Int.natAbs_eq_zero.mp hzero
    simp [encode, hv]
  · have hv : v ≠ 0 := fun h ↦ hzero (Int.natAbs_eq_zero.mpr h)
    have hlength : (encode v).length = (v.natAbs.log2 + 1) / 8 + 1 := by simp [encode, hzero]
    rw [hlength, or_iff_right hv]
    cases width with
    | zero => simp [signBit, Bytes.capacity_zero]
    | succ width =>
        rw [signBit_eq_two_pow, ← Nat.log2_lt hzero]
        omega

/-- Four bytes are enough for the magnitudes below `2 ^ 31`. -/
theorem length_encode_le_four_iff : (encode v).length ≤ 4 ↔ v.natAbs < 2 ^ 31 := by
  have hfour : signBit 4 = 2 ^ 31 := by decide
  rw [length_encode_le_iff, hfour]
  omega

/-- The magnitude of an integer leaves the sign free where the integer is written. -/
theorem natAbs_lt_signBit (hv : v ≠ 0) : v.natAbs < signBit (encode v).length :=
  (length_encode_le_iff.mp (Nat.le_refl _)).resolve_left hv

/-! ## Reading -/

/-- The digits and the sign of a byte string as an integer. -/
theorem value_of_ne_nil (hbs : bs ≠ []) :
    value bs = if signBit bs.length ≤ Bytes.toNatLE bs then
      -((Bytes.toNatLE bs - signBit bs.length : Nat) : Int) else Bytes.toNatLE bs := by
  rw [value, if_neg (by simpa using hbs)]
  rfl

/-- What a byte string writes, apart from the sign, leaves the sign free. -/
theorem natAbs_value_lt_signBit (hbs : bs ≠ []) : (value bs).natAbs < signBit bs.length := by
  have hlt := bs.toNatLE_lt
  rw [capacity_eq (by simpa using hbs)] at hlt
  rw [value_of_ne_nil hbs]
  split <;> omega

/-- The digits of an integer together with its sign are read as the integer. -/
theorem value_ofNatLE (h : v.natAbs < signBit width) :
    value (Bytes.ofNatLE width (signed width v)) = v := by
  have hwidth : width ≠ 0 := by
    rintro rfl
    exact Nat.not_lt_zero _ h
  have hne : Bytes.ofNatLE width (signed width v) ≠ [] := by
    rw [ne_eq, ← List.length_eq_zero_iff, Bytes.length_ofNatLE]
    exact hwidth
  have hlt : signed width v < Bytes.capacity width := by
    rw [capacity_eq hwidth, signed]
    split <;> omega
  rw [value_of_ne_nil hne, Bytes.toNatLE_ofNatLE, Bytes.length_ofNatLE, Nat.mod_eq_of_lt hlt,
    signed]
  split <;> split <;> omega

/-- The written form of an integer is read as the integer. -/
theorem value_encode (v : Int) : value (encode v) = v := by
  by_cases hv : v = 0
  · subst hv
    rfl
  · rw [encode_eq, value_ofNatLE (natAbs_lt_signBit hv)]

/-- A byte string is made of the digits and the sign of the integer that it is read as, unless that
is zero. -/
theorem eq_ofNatLE (h : value bs ≠ 0) :
    bs = Bytes.ofNatLE bs.length (signed bs.length (value bs)) := by
  have hbs : bs ≠ [] := by
    rintro rfl
    exact h rfl
  have hsigned : signed bs.length (value bs) = Bytes.toNatLE bs := by
    rw [value_of_ne_nil hbs] at h ⊢
    rw [signed]
    split <;> split <;> split at h <;> omega
  rw [hsigned, Bytes.ofNatLE_toNatLE]

/-- The limit on the size is all that keeps a byte string from being read. -/
theorem decode_eq_ok_value_iff (limit : Int) :
    decode limit bs = .ok (value bs) ↔ bs = [] ∨ (bs.length : Int) ≤ limit := by
  rw [decode]
  by_cases hbs : bs = []
  · simp [hbs, value]
  · by_cases hlimit : limit < bs.length
    · simp [hbs, hlimit]
    · simp [hbs, hlimit, Int.not_lt.mp hlimit]

/-- What is refused is not empty and longer than the limit. -/
theorem decode_eq_error_iff {limit : Int} {e : NumberError} :
    decode limit bs = .error e ↔ bs ≠ [] ∧ limit < bs.length ∧ e = .oversize bs.length limit := by
  rw [decode]
  by_cases hbs : bs = []
  · simp [hbs]
  · by_cases hlimit : limit < bs.length
    · simpa [hbs, hlimit] using eq_comm
    · simp [hbs, hlimit]

/-- The limit on operands has a text. -/
theorem oversize_maxSize (size : Nat) : NumberError.oversize size maxSize = .tooLong size 4 :=
  Text.errorAbout_of_writable
    (List.forall_mem_singleton.mpr (Text.writable_of_lt 3 (by decide) (by decide))) _ _

/-- What is read is the integer that a byte string writes. -/
theorem value_of_decode {limit : Int} (h : decode limit bs = .ok v) : value bs = v := by
  rw [decode] at h
  split at h
  · next hempty =>
      obtain rfl := List.isEmpty_iff.mp hempty
      exact Except.ok.inj h
  · split at h
    · cases h
    · exact Except.ok.inj h

/-! ## The shortest form -/

/-- No byte string that is read as an integer is shorter than its written form. -/
theorem length_encode_value_le (bs : Bytes) : (encode (value bs)).length ≤ bs.length := by
  by_cases hbs : bs = []
  · subst hbs
    exact Nat.le_refl 0
  · exact length_encode_le_iff.mpr (.inr (natAbs_value_lt_signBit hbs))

/-- No other byte string of the same length is read as the same integer. -/
theorem encode_value_eq_iff_length :
    encode (value bs) = bs ↔ (encode (value bs)).length = bs.length := by
  refine ⟨congrArg List.length, fun hlength ↦ ?_⟩
  by_cases hzero : value bs = 0
  · rw [hzero] at hlength ⊢
    exact (List.eq_nil_of_length_eq_zero hlength.symm).symm
  · rw [encode_eq, hlength]
    exact (eq_ofNatLE hzero).symm

/-- The last byte counts without its sign. -/
theorem natAbs_value_concat (front : Bytes) (last : UInt8) :
    (value (front ++ [last])).natAbs =
      Bytes.toNatLE front + Bytes.capacity front.length * (last.toNat % 128) := by
  have hlast := last.toNat_lt
  have hfront := front.toNatLE_lt
  have hlength : (front ++ [last]).length = front.length + 1 := List.length_append
  have hne : front ++ [last] ≠ [] := by simp
  rw [value_of_ne_nil hne, Bytes.toNatLE_concat, hlength, signBit_succ]
  generalize Bytes.capacity front.length = unit at hfront ⊢
  -- The sign is set if the last byte is not below 128, since the front is below one unit.
  by_cases hsign : 128 ≤ last.toNat
  · have hmod : last.toNat % 128 = last.toNat - 128 := by omega
    have hset : unit * last.toNat = 128 * unit + unit * (last.toNat - 128) := by
      rw [Nat.mul_comm 128, ← Nat.mul_add, Nat.add_sub_cancel' hsign]
    rw [hmod, if_pos (by omega)]
    omega
  · have hmod : last.toNat % 128 = last.toNat := Nat.mod_eq_of_lt (by omega)
    have hclear : unit * last.toNat ≤ unit * 127 := Nat.mul_le_mul_left _ (by omega)
    rw [hmod, if_neg (by omega)]
    omega

/-- The byte strings without a superfluous last byte: the empty one, those whose last byte is more
than a sign, and those whose last byte but one has no room for the sign. -/
inductive Shortest : Bytes → Prop where
  | empty : Shortest []
  | digits (front : Bytes) (last : UInt8) : last &&& 0x7f ≠ 0 → Shortest (front ++ [last])
  | sign (front : Bytes) (before last : UInt8) :
      before &&& 0x80 ≠ 0 → Shortest (front ++ [before, last])

/-- The low seven bits of a byte are its remainder. -/
theorem low_bits_ne_zero_iff (b : UInt8) : b &&& 0x7f ≠ 0 ↔ b.toNat % 128 ≠ 0 := by
  have hand : (b &&& 0x7f).toNat = b.toNat % 128 :=
    (UInt8.toNat_and b 0x7f).trans (Nat.and_two_pow_sub_one_eq_mod _ 7)
  rw [ne_eq, ne_eq, ← hand, ← UInt8.toNat_inj]
  rfl

/-- The top bit of a byte is set in the upper half. -/
theorem top_bit_ne_zero_iff (b : UInt8) : b &&& 0x80 ≠ 0 ↔ 128 ≤ b.toNat := by
  have hlt := b.toNat_lt
  have hand : (b &&& 0x80).toNat = (b.toNat.testBit 7).toNat * 128 :=
    (UInt8.toNat_and b 0x80).trans (Nat.and_two_pow _ 7)
  rw [ne_eq, ← UInt8.toNat_inj, hand, Nat.testBit_eq_decide_div_mod_eq]
  by_cases hset : 128 ≤ b.toNat
  · rw [decide_eq_true (by omega : b.toNat / 2 ^ 7 % 2 = 1)]
    exact iff_of_true (by decide) hset
  · rw [decide_eq_false (by omega : ¬b.toNat / 2 ^ 7 % 2 = 1)]
    exact iff_of_false (by decide) hset

/-- Four bytes write only magnitudes below `2 ^ 31`. -/
theorem natAbs_value_lt (hsize : bs.length ≤ 4) : (value bs).natAbs < 2 ^ 31 :=
  length_encode_le_four_iff.mp (Nat.le_trans (length_encode_value_le bs) hsize)

/-- Every byte string other than the written form of its integer is longer. -/
theorem eq_encode_or_length_lt (bs : Bytes) :
    bs = encode (value bs) ∨ (encode (value bs)).length < bs.length := by
  by_cases hsame : (encode (value bs)).length = bs.length
  · exact .inl (encode_value_eq_iff_length.mpr hsame).symm
  · exact .inr (lt_of_le_of_ne (length_encode_value_le bs) hsame)

/-- A byte string is the written form of its integer if its magnitude needs the last byte. -/
theorem encode_value_concat_iff (front : Bytes) (last : UInt8) :
    encode (value (front ++ [last])) = front ++ [last] ↔
      value (front ++ [last]) ≠ 0 ∧
        signBit front.length ≤ (value (front ++ [last])).natAbs := by
  have hle := length_encode_value_le (front ++ [last])
  have hshorter : (encode (value (front ++ [last]))).length ≤ front.length ↔
      value (front ++ [last]) = 0 ∨ (value (front ++ [last])).natAbs < signBit front.length :=
    length_encode_le_iff
  have hlength : (front ++ [last]).length = front.length + 1 := List.length_append
  rw [encode_value_eq_iff_length]
  omega

/-- The byte strings without a superfluous last byte are the written forms. -/
theorem encode_value_eq_iff_shortest : encode (value bs) = bs ↔ Shortest bs := by
  rcases List.eq_nil_or_concat' bs with rfl | ⟨front, last, rfl⟩
  · exact iff_of_true rfl .empty
  rw [encode_value_concat_iff, ← Int.natAbs_ne_zero, natAbs_value_concat]
  have hpos := Bytes.capacity_pos front.length
  constructor
  · rintro ⟨hne, hle⟩
    by_cases hlast : last.toNat % 128 = 0
    · -- The digits of the front take the last one of its bits, so that byte is there.
      rw [hlast, Nat.mul_zero, Nat.add_zero] at hne hle
      rcases List.eq_nil_or_concat' front with rfl | ⟨front, before, rfl⟩
      · exact absurd rfl hne
      have hfront := Bytes.toNatLE_lt front
      rw [Bytes.toNatLE_concat, List.length_append, List.length_singleton, signBit_succ] at hle
      rw [List.append_assoc]
      refine .sign front before last ((top_bit_ne_zero_iff before).mpr ?_)
      by_contra hclear
      have hbefore : Bytes.capacity front.length * before.toNat ≤
          Bytes.capacity front.length * 127 := Nat.mul_le_mul_left _ (by omega)
      omega
    · exact .digits front last ((low_bits_ne_zero_iff last).mpr hlast)
  · intro h
    generalize hform : front ++ [last] = form at h
    cases h with
    | empty => simp at hform
    | digits front' last' hlast =>
        obtain ⟨rfl, hsame⟩ := List.append_inj' hform rfl
        cases hsame
        have hlow := (low_bits_ne_zero_iff last).mp hlast
        have hmul : Bytes.capacity front.length ≤
            Bytes.capacity front.length * (last.toNat % 128) :=
          Nat.le_mul_of_pos_right _ (Nat.pos_of_ne_zero hlow)
        have hhalf : signBit front.length ≤ Bytes.capacity front.length := Nat.div_le_self _ 2
        omega
    | sign front' before last' hbefore =>
        have happend : front' ++ [before, last'] = (front' ++ [before]) ++ [last'] := by simp
        rw [happend] at hform
        obtain ⟨rfl, hsame⟩ := List.append_inj' hform rfl
        cases hsame
        have htop := (top_bit_ne_zero_iff before).mp hbefore
        have hpos := Bytes.capacity_pos front'.length
        have hmul : Bytes.capacity front'.length * 128 ≤
            Bytes.capacity front'.length * before.toNat := Nat.mul_le_mul_left _ htop
        rw [Bytes.toNatLE_concat, List.length_append, List.length_singleton, signBit_succ]
        omega

/-! ## Truth -/

/-- A byte string counts as true if one of its bytes is not zero, the last one without its sign. -/
theorem truth_concat (front : Bytes) (last : UInt8) :
    truth (front ++ [last]) = true ↔ Bytes.toNatLE front ≠ 0 ∨ last.toNat % 128 ≠ 0 := by
  induction front with
  | nil =>
      have hlast := last.toNat_lt
      have hzero : last = 0 ↔ last.toNat = 0 := UInt8.toNat_inj.symm
      have hsign : last = 0x80 ↔ last.toNat = 128 := UInt8.toNat_inj.symm
      simp [truth, Bytes.toNatLE, hzero, hsign]
      omega
  | cons b front ih =>
      have hcons : truth (b :: (front ++ [last])) = (b ≠ 0 || truth (front ++ [last])) := by
        cases front <;> rfl
      have hzero : b = 0 ↔ b.toNat = 0 := UInt8.toNat_inj.symm
      rw [List.cons_append, hcons, Bytes.toNatLE, Bool.or_eq_true, ih, decide_eq_true_eq, ne_eq,
        hzero]
      omega

/-- A byte string counts as true if the integer that it writes is not zero. -/
theorem truth_iff : truth bs = true ↔ value bs ≠ 0 := by
  rcases List.eq_nil_or_concat' bs with rfl | ⟨front, last, rfl⟩
  · exact iff_of_false Bool.false_ne_true (not_not.mpr rfl)
  · have hpos := Bytes.capacity_pos front.length
    have hsum : Bytes.toNatLE front + Bytes.capacity front.length * (last.toNat % 128) = 0 ↔
        Bytes.toNatLE front = 0 ∧ last.toNat % 128 = 0 := by
      rw [Nat.add_eq_zero_iff, Nat.mul_eq_zero, or_iff_right (Nat.ne_of_gt hpos)]
    rw [truth_concat, ← Int.natAbs_ne_zero, natAbs_value_concat]
    omega

/-! ## The laws -/

/-- Writing an integer and reading it back gives the integer whenever the written form keeps within
the limit. It has at most four bytes if and only if the magnitude is at most `2 ^ 31 - 1`, and every
other byte string that is read as the integer, under whatever limit, is longer. Under a high enough
limit each byte string is read; writing what is read gives it back if and only if it has no
superfluous last byte, and it counts as true if and only if what is read is not zero. -/
theorem encode_shortest_and_truth (n : Int) (bs : Bytes) :
    (∀ limit, decode limit (encode n) = .ok n ↔ n = 0 ∨ ((encode n).length : Int) ≤ limit) ∧
    ((encode n).length ≤ 4 ↔ n.natAbs ≤ 2 ^ 31 - 1) ∧
    (∀ limit, decode limit bs = .ok n → bs = encode n ∨ (encode n).length < bs.length) ∧
    (∀ limit, decode limit bs = .ok (value bs) ↔ bs = [] ∨ (bs.length : Int) ≤ limit) ∧
    (encode (value bs) = bs ↔ Shortest bs) ∧
    (truth bs = true ↔ value bs ≠ 0) := by
  refine ⟨fun limit ↦ ?_, ?_, fun limit hdecode ↦ ?_, decode_eq_ok_value_iff,
    encode_value_eq_iff_shortest, truth_iff⟩
  · have hempty : encode n = [] ↔ n = 0 :=
      ⟨fun h ↦ by rw [← value_encode n, h]; rfl, fun h ↦ by rw [h]; rfl⟩
    rw [← hempty, ← decode_eq_ok_value_iff, value_encode]
  · rw [length_encode_le_four_iff]
    omega
  · rw [← value_of_decode hdecode]
    exact eq_encode_or_length_lt bs

end BitcoinSpend.Script.Number
