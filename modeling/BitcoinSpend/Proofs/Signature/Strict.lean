import Mathlib.Algebra.Group.Int.Defs
import Mathlib.Algebra.Group.Nat.Defs
import BitcoinSpend.Signature.Strict

/-!
# The strict encoding of signatures

The strict encodings are the ones that are written: a byte string is read exactly if it is a
sequence of two integer elements, each with the fewest bytes for its number and for its length, and
the numbers are positive. Encodings of integers below 2²⁵⁶ have at most seventy-two bytes. Read
`integer?_eq_some_iff` and `element?_eq_some_iff` first; the main results are `decode_ok_iff` and
`exists_encode?`.
-/

namespace BitcoinSpend.Signature.Strict

/-! ## Integers -/

/-- A number of bytes as a power of two. -/
theorem capacity_eq (width : Nat) : Bytes.capacity width = 2 ^ (8 * width) := by
  rw [Nat.pow_mul]
  rfl

/-- The highest bit of a number lies in its leading byte. -/
theorem leading_bounds {n : Nat} (hn : 0 < n) :
    2 ^ (n.log2 % 8) ≤ n / Bytes.capacity (n.log2 / 8) ∧
      n / Bytes.capacity (n.log2 / 8) < 2 ^ (n.log2 % 8 + 1) := by
  have hlow := Nat.log2_self_le (Nat.ne_of_gt hn)
  have hhigh := Nat.lt_log2_self (n := n)
  have hsplit : n.log2 = n.log2 % 8 + 8 * (n.log2 / 8) := (Nat.mod_add_div n.log2 8).symm
  rw [capacity_eq, Nat.le_div_iff_mul_le (Nat.two_pow_pos _),
    Nat.div_lt_iff_lt_mul (Nat.two_pow_pos _), ← Nat.pow_add, ← Nat.pow_add]
  constructor
  · rwa [← hsplit]
  · rw [Nat.add_right_comm, ← hsplit]
    exact hhigh

/-- The contents of an integer element write the number. -/
theorem toNatBE_integerContents (n : Nat) : Bytes.toNatBE (integerContents n) = n := by
  have hhigh := Nat.lt_log2_self (n := n)
  rw [integerContents, Bytes.toNatBE_ofNatBE, Nat.mod_eq_of_lt]
  refine Nat.lt_of_lt_of_le hhigh ?_
  rw [capacity_eq]
  refine Nat.pow_le_pow_right (by decide) ?_
  split <;> omega

/-- Contents that do not look negative are read if no byte in front could be left out. -/
theorem integer?_cons {b : UInt8} {rest : Bytes} (hb : b < 0x80)
    (hminimal : rest = [] ∨ b ≠ 0 ∨ ∃ c tail, rest = c :: tail ∧ 0x80 ≤ c) :
    integer? (b :: rest) = some (Bytes.toNatBE (b :: rest)) := by
  cases rest with
  | nil =>
      rw [integer?, if_pos hb, Bytes.toNatBE, List.foldl_cons, List.foldl_nil, Nat.mul_zero,
        Nat.zero_add]
  | cons c tail =>
      have hfirst : b ≠ 0 ∨ 0x80 ≤ c := by
        obtain hnil | hne | ⟨c', tail', heq, hc⟩ := hminimal
        · cases hnil
        · exact .inl hne
        · cases heq
          exact .inr hc
      rw [integer?, if_pos ⟨hb, hfirst⟩]

/-- The contents of an integer element are read back. -/
theorem integer?_integerContents (n : Nat) : integer? (integerContents n) = some n := by
  obtain rfl | hn := Nat.eq_zero_or_pos n
  · rfl
  obtain ⟨hlow, hhigh⟩ := leading_bounds hn
  have hvalue := toNatBE_integerContents n
  generalize htop : n / Bytes.capacity (n.log2 / 8) = top at hlow hhigh
  rw [integerContents] at hvalue ⊢
  by_cases hfull : n.log2 % 8 = 7
  · -- The leading byte looks negative, so a zero byte stands in front of it.
    rw [hfull] at hlow hhigh
    have hzero : n / Bytes.capacity (n.log2 / 8 + 1) = 0 := by
      rw [Bytes.capacity_succ, Nat.mul_comm, ← Nat.div_div_eq_div_mul, htop]
      omega
    rw [if_pos hfull, Bytes.ofNatBE_succ, Bytes.ofNatBE_succ, hzero, htop] at hvalue ⊢
    rw [integer?_cons (by decide) (.inr (.inr ⟨_, _, rfl, ?_⟩)), hvalue]
    rw [UInt8.le_iff_toNat_le, UInt8.toNat_ofNat']
    change 128 ≤ top % 256 % 256
    omega
  · have hbit : 2 ^ (n.log2 % 8 + 1) ≤ 2 ^ 7 := Nat.pow_le_pow_right (by decide) (by omega)
    have hpos : 0 < 2 ^ (n.log2 % 8) := Nat.two_pow_pos _
    rw [if_neg hfull, Bytes.ofNatBE_succ, htop] at hvalue ⊢
    have hbyte : (UInt8.ofNat (top % 256)).toNat = top := by
      rw [UInt8.toNat_ofNat']
      omega
    rw [integer?_cons ?_ (.inr (.inl ?_)), hvalue]
    · rw [UInt8.lt_iff_toNat_lt, hbyte]
      change top < 128
      omega
    · intro hzero
      rw [hzero] at hbyte
      change 0 = top at hbyte
      omega

/-- Contents that are read lie between the numbers that fewer bytes and as many bytes can write. -/
theorem bounds_of_integer? {contents : Bytes} {n : Nat} (h : integer? contents = some n) :
    Bytes.toNatBE contents = n ∧ ∃ k, contents.length = k + 1 ∧ n < 128 * Bytes.capacity k ∧
      ∀ j, k = j + 1 → 128 * Bytes.capacity j ≤ n := by
  match contents with
  | [] => cases h
  | [b] =>
      rw [integer?] at h
      split at h
      · next hsmall =>
          obtain rfl := Option.some.inj h
          rw [UInt8.lt_iff_toNat_lt] at hsmall
          refine ⟨?_, 0, rfl, hsmall, fun j hj ↦ by omega⟩
          rw [Bytes.toNatBE_cons, List.length_nil, Bytes.capacity_zero, Nat.one_mul]
          rfl
      · cases h
  | b :: c :: rest =>
      rw [integer?] at h
      split at h
      · next hminimal =>
          obtain ⟨hsmall, hfirst⟩ := hminimal
          obtain rfl := Option.some.inj h
          have hrest := Bytes.toNatBE_lt (c :: rest)
          have hb : Bytes.capacity (c :: rest).length * b.toNat ≤
              Bytes.capacity (c :: rest).length * 127 :=
            Nat.mul_le_mul_left _ (Nat.le_of_lt_succ (UInt8.lt_iff_toNat_lt.mp hsmall))
          refine ⟨rfl, rest.length + 1, rfl, ?_, fun j hj ↦ ?_⟩
          · rw [Bytes.toNatBE_cons]
            rw [List.length_cons] at hb hrest ⊢
            omega
          · obtain rfl : rest.length = j := by omega
            rw [Bytes.toNatBE_cons, Bytes.toNatBE_cons, List.length_cons, Bytes.capacity_succ]
            obtain hne | hc := hfirst
            · have hone : 0 < b.toNat :=
                Nat.pos_of_ne_zero fun hzero ↦ hne (UInt8.toNat_inj.mp hzero)
              have hlow := Nat.le_mul_of_pos_right (256 * Bytes.capacity rest.length) hone
              omega
            · have hlow : Bytes.capacity rest.length * 128 ≤ Bytes.capacity rest.length * c.toNat :=
                Nat.mul_le_mul_left _ (UInt8.le_iff_toNat_le.mp hc)
              omega
      · cases h

/-- Contents that are read as the same number have the same length. -/
theorem length_le_of_integer? {contents other : Bytes} {n : Nat} (h : integer? contents = some n)
    (hother : integer? other = some n) : contents.length ≤ other.length := by
  obtain ⟨-, k, hk, -, hlow⟩ := bounds_of_integer? h
  obtain ⟨-, k', hk', hhigh, -⟩ := bounds_of_integer? hother
  refine Nat.le_of_not_lt fun hlt ↦ ?_
  obtain ⟨j, rfl⟩ : ∃ j, k = j + 1 := ⟨k - 1, by omega⟩
  have hcapacity : Bytes.capacity k' ≤ Bytes.capacity j := Bytes.capacity_mono (by omega)
  have hle := hlow j rfl
  omega

/-- Contents are read as a number exactly if they are the contents written for it. -/
theorem integer?_eq_some_iff {contents : Bytes} {n : Nat} :
    integer? contents = some n ↔ contents = integerContents n := by
  constructor
  · intro h
    have hwritten := integer?_integerContents n
    have hlength : contents.length = (integerContents n).length :=
      Nat.le_antisymm (length_le_of_integer? h hwritten) (length_le_of_integer? hwritten h)
    have hdigits := Bytes.ofNatBE_toNatBE (integerContents n)
    rw [toNatBE_integerContents] at hdigits
    rw [← Bytes.ofNatBE_toNatBE contents, hlength, (bounds_of_integer? h).1, hdigits]
  · rintro rfl
    exact integer?_integerContents n

/-- The contents of an integer element for a number below 2²⁵⁶ have at most thirty-three bytes. -/
theorem length_integerContents_le {n : Nat} (hn : n < 2 ^ 256) :
    (integerContents n).length ≤ 33 := by
  have hlog : n.log2 < 256 := by
    obtain rfl | hpos := Nat.eq_zero_or_pos n
    · decide
    · exact (Nat.log2_lt (Nat.ne_of_gt hpos)).mpr hn
  rw [integerContents, Bytes.length_ofNatBE]
  split <;> omega

/-! ## Elements -/

/-- The bytes that a number needs are the fewest that hold it. -/
theorem sizeOfNat_le_iff {n width : Nat} :
    Bytes.sizeOfNat n ≤ width ↔ n < Bytes.capacity width := by
  rw [Bytes.sizeOfNat]
  split
  · next hzero => exact iff_of_true (Nat.zero_le width) (hzero ▸ Bytes.capacity_pos width)
  · next hpos =>
      rw [capacity_eq, ← Nat.log2_lt hpos]
      omega

/-- Fewer bytes than a number needs do not hold it. -/
theorem capacity_sizeOfNat_le {n : Nat} (hn : 0 < n) :
    1 ≤ Bytes.sizeOfNat n ∧ Bytes.capacity (Bytes.sizeOfNat n - 1) ≤ n := by
  have hone : 1 ≤ Bytes.sizeOfNat n :=
    Nat.le_of_not_lt fun hlt ↦ by
      have hzero := sizeOfNat_le_iff.mp (Nat.le_of_lt_succ hlt)
      rw [Bytes.capacity_zero] at hzero
      omega
  refine ⟨hone, Nat.le_of_not_lt fun hlt ↦ ?_⟩
  have hless := sizeOfNat_le_iff.mpr hlt
  omega

/-- A length below 128 is written as one byte. -/
theorem lengthOf_short {n : Nat} (hn : n < 0x80) :
    ∃ b : UInt8, lengthOf n = [b] ∧ b < 0x80 ∧ b.toNat = n := by
  have hbyte : (UInt8.ofNat n).toNat = n := by
    rw [UInt8.toNat_ofNat']
    omega
  refine ⟨UInt8.ofNat n, if_pos hn, ?_, hbyte⟩
  rw [UInt8.lt_iff_toNat_lt, hbyte]
  exact hn

/-- A length from 128 on is written as its digits behind a byte with their number. -/
theorem lengthOf_long {n : Nat} (hn : n < Bytes.capacity 4) (hlong : ¬ n < 0x80) :
    ∃ (b : UInt8) (digits : Bytes), lengthOf n = b :: digits ∧ ¬ b < 0x80 ∧
      b.toNat = 0x80 + digits.length ∧ digits.length = Bytes.sizeOfNat n ∧
      Bytes.toNatBE digits = n := by
  have hfour := sizeOfNat_le_iff.mpr hn
  have hhigh := sizeOfNat_le_iff.mp (Nat.le_refl (Bytes.sizeOfNat n))
  have hbyte : (UInt8.ofNat (0x80 + Bytes.sizeOfNat n)).toNat = 0x80 + Bytes.sizeOfNat n := by
    rw [UInt8.toNat_ofNat']
    omega
  refine ⟨_, Bytes.ofNatBE (Bytes.sizeOfNat n) n, if_neg hlong, ?_, ?_,
    Bytes.length_ofNatBE _ _, ?_⟩
  · rw [UInt8.lt_iff_toNat_lt, hbyte]
    change ¬ 128 + _ < 128
    omega
  · rw [hbyte, Bytes.length_ofNatBE]
  · rw [Bytes.toNatBE_ofNatBE, Nat.mod_eq_of_lt hhigh]

/-- A length in its shortest form is read back if it fits into four bytes. -/
theorem length?_lengthOf {n : Nat} (hn : n < Bytes.capacity 4) (rest : Bytes) :
    length? (lengthOf n ++ rest) = some (n, rest) := by
  by_cases hshort : n < 0x80
  · obtain ⟨b, hlengthOf, hb, rfl⟩ := lengthOf_short hshort
    rw [hlengthOf, List.singleton_append, length?, if_pos hb]
  · obtain ⟨b, digits, hlengthOf, hb, hbyte, hsize, rfl⟩ := lengthOf_long hn hshort
    have hfour := sizeOfNat_le_iff.mpr hn
    obtain ⟨hone, hlow⟩ := capacity_sizeOfNat_le (n := Bytes.toNatBE digits) (by omega)
    rw [← hsize] at hfour hone hlow
    rw [hlengthOf, List.cons_append, length?, if_neg hb]
    dsimp only
    rw [hbyte, Nat.add_sub_cancel_left, List.take_left, List.drop_left]
    exact if_pos ⟨hone, hfour, rfl, by omega, hlow⟩

/-- A length is read exactly if it fits into four bytes and is written in its shortest form. -/
theorem length?_eq_some_iff {bs rest : Bytes} {n : Nat} :
    length? bs = some (n, rest) ↔ n < Bytes.capacity 4 ∧ bs = lengthOf n ++ rest := by
  constructor
  · intro h
    cases bs with
    | nil => cases h
    | cons b body =>
        rw [length?] at h
        split at h
        · next hshort =>
            obtain ⟨rfl, rfl⟩ := Prod.mk.inj (Option.some.inj h)
            have hvalue : b.toNat < 0x80 := UInt8.lt_iff_toNat_lt.mp hshort
            have hcapacity : 0x80 ≤ Bytes.capacity 4 := by decide
            refine ⟨Nat.lt_of_lt_of_le hvalue hcapacity, ?_⟩
            rw [lengthOf, if_pos hvalue, UInt8.ofNat_toNat]
            rfl
        · dsimp only at h
          split at h
          · next hform =>
              obtain ⟨hone, hfour, hlength, hlong, hlow⟩ := hform
              obtain ⟨rfl, rfl⟩ := Prod.mk.inj (Option.some.inj h)
              have hhigh := Bytes.toNatBE_lt (body.take (b.toNat - 0x80))
              have hdigits := Bytes.ofNatBE_toNatBE (body.take (b.toNat - 0x80))
              rw [hlength] at hhigh hdigits
              generalize Bytes.toNatBE (body.take (b.toNat - 0x80)) = n at *
              -- The digits are as many as the length needs, since its first one is not zero.
              have hsize : Bytes.sizeOfNat n = b.toNat - 0x80 := by
                refine Nat.le_antisymm (sizeOfNat_le_iff.mpr hhigh) (Nat.le_of_not_lt fun hlt ↦ ?_)
                have hless := sizeOfNat_le_iff.mp (Nat.le_sub_one_of_lt hlt)
                omega
              have hbyte : 0x80 + (b.toNat - 0x80) = b.toNat := by omega
              refine ⟨Nat.lt_of_lt_of_le hhigh (Bytes.capacity_mono hfour), ?_⟩
              rw [lengthOf, if_neg (by omega)]
              dsimp only
              rw [hsize, hdigits, hbyte, UInt8.ofNat_toNat, List.cons_append,
                List.take_append_drop]
          · cases h
  · rintro ⟨hn, rfl⟩
    exact length?_lengthOf hn rest

/-- An element is read exactly if it is its tag, the length of its contents and the contents. -/
theorem element?_eq_some_iff {tag : UInt8} {bs contents rest : Bytes} :
    element? tag bs = some (contents, rest) ↔
      contents.length < Bytes.capacity 4 ∧ bs = element tag contents ++ rest := by
  constructor
  · intro h
    cases bs with
    | nil => cases h
    | cons b tail =>
        rw [element?] at h
        split at h
        · next htag =>
            subst htag
            cases hlength : length? tail with
            | none =>
                rw [hlength] at h
                cases h
            | some result =>
                obtain ⟨n, body⟩ := result
                rw [hlength] at h
                change (if n ≤ body.length then _ else _) = _ at h
                split at h
                · next hroom =>
                    obtain ⟨rfl, rfl⟩ := Prod.mk.inj (Option.some.inj h)
                    obtain ⟨hn, rfl⟩ := length?_eq_some_iff.mp hlength
                    have htake : (body.take n).length = n := by
                      rw [List.length_take, Nat.min_eq_left hroom]
                    rw [element, htake, List.cons_append, List.append_assoc, List.take_append_drop]
                    exact ⟨hn, rfl⟩
                · cases h
        · cases h
  · rintro ⟨hn, rfl⟩
    rw [element, List.cons_append, List.append_assoc, element?, if_pos rfl,
      length?_lengthOf hn]
    change (if _ then _ else _) = _
    rw [if_pos (by rw [List.length_append]; omega), List.take_left, List.drop_left]

/-- A length that fits into four bytes is written in at most five. -/
theorem length_lengthOf_le {n : Nat} (hn : n < Bytes.capacity 4) : (lengthOf n).length ≤ 5 := by
  by_cases hshort : n < 0x80
  · obtain ⟨b, hlengthOf, -⟩ := lengthOf_short hshort
    rw [hlengthOf, List.length_singleton]
    omega
  · obtain ⟨b, digits, hlengthOf, -, -, hsize, -⟩ := lengthOf_long hn hshort
    have hfour := sizeOfNat_le_iff.mpr hn
    rw [hlengthOf, List.length_cons]
    omega

/-- An element has at most six bytes more than its contents. -/
theorem length_element_le (tag : UInt8) {contents : Bytes}
    (hcontents : contents.length < Bytes.capacity 4) :
    (element tag contents).length ≤ contents.length + 6 := by
  have hlength := length_lengthOf_le hcontents
  rw [element, List.length_cons, List.length_append]
  omega

/-- An element with fewer than 128 bytes of contents has two bytes more. -/
theorem length_element (tag : UInt8) (contents : Bytes) (hcontents : contents.length < 0x80) :
    (element tag contents).length = contents.length + 2 := by
  rw [element, lengthOf, if_pos hcontents]
  rfl

/-- An element is longer than its contents. -/
theorem length_lt_length_element (tag : UInt8) (contents : Bytes) :
    contents.length < (element tag contents).length := by
  rw [element, List.length_cons, List.length_append]
  omega

/-! ## Signatures -/

/-- What stands in the sequence of an encoding. -/
def pair (r s : Nat) : Bytes :=
  element 0x02 (integerContents r) ++ element 0x02 (integerContents s)

/-- Both integers of a pair are shorter than the pair. -/
theorem length_lt_length_pair (r s : Nat) :
    (integerContents r).length < (pair r s).length ∧
      (integerContents s).length < (pair r s).length := by
  have hr := length_lt_length_element 0x02 (integerContents r)
  have hs := length_lt_length_element 0x02 (integerContents s)
  rw [pair, List.length_append]
  omega

/-- Two numbers are read exactly from the sequence of their elements, if its length fits into four
bytes. -/
theorem numbers?_eq_some_iff {bs : Bytes} {r s : Nat} :
    numbers? bs = some (r, s) ↔
      (pair r s).length < Bytes.capacity 4 ∧ bs = element 0x30 (pair r s) := by
  constructor
  · intro h
    simp only [numbers?, bind, Option.bind_eq_some_iff] at h
    obtain ⟨⟨contents, after⟩, hwhole, ⟨rContents, more⟩, hr, ⟨sContents, beyond⟩, hs, r', hr', s',
      hs', hend⟩ := h
    split at hend
    · next hempty =>
        rw [Bool.and_eq_true, List.isEmpty_iff, List.isEmpty_iff] at hempty
        obtain ⟨rfl, rfl⟩ := hempty
        obtain ⟨rfl, rfl⟩ := Prod.mk.inj (Option.some.inj hend)
        obtain rfl := integer?_eq_some_iff.mp hr'
        obtain rfl := integer?_eq_some_iff.mp hs'
        obtain ⟨-, rfl⟩ := element?_eq_some_iff.mp hs
        obtain ⟨-, rfl⟩ := element?_eq_some_iff.mp hr
        rw [element?_eq_some_iff, List.append_nil, List.append_nil] at hwhole
        exact hwhole
    · cases hend
  · rintro ⟨hlength, rfl⟩
    have hshorter := length_lt_length_pair r s
    have hwhole : element? 0x30 (element 0x30 (pair r s)) = some (pair r s, []) :=
      element?_eq_some_iff.mpr ⟨hlength, (List.append_nil _).symm⟩
    have hr : element? 0x02 (pair r s) =
        some (integerContents r, element 0x02 (integerContents s)) :=
      element?_eq_some_iff.mpr ⟨by omega, rfl⟩
    have hs : element? 0x02 (element 0x02 (integerContents s)) = some (integerContents s, []) :=
      element?_eq_some_iff.mpr ⟨by omega, (List.append_nil _).symm⟩
    simp only [numbers?, hwhole, hr, hs, integer?_integerContents, bind, Option.bind]
    rfl

/-- A signature is read exactly from the sequence of its integers, which are positive. -/
theorem decode_ok_iff {bs : Bytes} {signature : Signature} :
    decode bs = .ok signature ↔
      ∃ r s : Nat, signature = ⟨r, s⟩ ∧ 0 < r ∧ 0 < s ∧
        (pair r s).length < Bytes.capacity 4 ∧ bs = element 0x30 (pair r s) := by
  rw [decode]
  constructor
  · intro h
    split at h
    · cases h
    · next r s hnumbers =>
        split at h
        · cases h
        · next hpositive =>
            exact ⟨r, s, (Except.ok.inj h).symm, by omega, by omega,
              numbers?_eq_some_iff.mp hnumbers⟩
  · rintro ⟨r, s, rfl, hr, hs, hbytes⟩
    rw [numbers?_eq_some_iff.mpr hbytes]
    exact if_neg (by omega)

/-- The strict encoding of a signature whose integers are positive and below 2²⁵⁶ has at most
seventy-two bytes and is read back. -/
theorem exists_encode? (signature : Signature) (hr : 0 < signature.r ∧ signature.r < 2 ^ 256)
    (hs : 0 < signature.s ∧ signature.s < 2 ^ 256) :
    ∃ bs, encode? signature = some bs ∧ bs.length ≤ 72 ∧ decode bs = .ok signature := by
  obtain ⟨r, s⟩ := signature
  obtain ⟨⟨r, rfl⟩, ⟨s, rfl⟩⟩ : (∃ n : Nat, r = n) ∧ ∃ n : Nat, s = n :=
    ⟨⟨r.toNat, by dsimp only at hr; omega⟩, ⟨s.toNat, by dsimp only at hs; omega⟩⟩
  dsimp only at hr hs
  have hrlength := length_integerContents_le (n := r) (by omega)
  have hslength := length_integerContents_le (n := s) (by omega)
  have hpair : (pair r s).length ≤ 70 := by
    rw [pair, List.length_append, length_element _ _ (by omega), length_element _ _ (by omega)]
    omega
  have hcapacity : 70 < Bytes.capacity 4 := by decide
  refine ⟨element 0x30 (pair r s), if_neg (by dsimp only; omega), ?_,
    decode_ok_iff.mpr ⟨r, s, rfl, by omega, by omega, by omega, rfl⟩⟩
  rw [length_element 0x30 _ (by omega)]
  omega

end BitcoinSpend.Signature.Strict
