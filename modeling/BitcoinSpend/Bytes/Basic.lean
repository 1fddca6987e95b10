/-!
# Byte strings

Byte strings are lists of bytes. This module fixes how numbers are laid out in them: little-endian
and big-endian digits in base 256, unsigned or in two's complement. Read `ofNatLE` and `toNatLE`
first; the other layouts are stated through them.
-/

namespace BitcoinSpend

/-- A byte string. -/
abbrev Bytes := List UInt8

namespace Bytes

/-- Whether a length lies in the signed 64-bit range, so that it can be asked for at all. -/
def addressable (n : Int) : Bool :=
  -0x8000000000000000 ≤ n && n < 0x8000000000000000

/-- The most bytes that a byte string has. With thirty-three bytes of upkeep it fills the addressable
lengths. -/
def maxLength : Int :=
  0x7fffffffffffffde

/-- The number of byte strings of a length. -/
def capacity (length : Nat) : Nat :=
  Nat.pow 256 length

/-- There is one byte string of length zero. -/
theorem capacity_zero : capacity 0 = 1 := rfl

/-- A further byte multiplies the number of byte strings by 256. -/
theorem capacity_succ (length : Nat) : capacity (length + 1) = 256 * capacity length := by
  rw [capacity, capacity, Nat.pow_eq, Nat.pow_eq, Nat.pow_succ, Nat.mul_comm]

/-- There are byte strings of every length. -/
theorem capacity_pos (length : Nat) : 0 < capacity length :=
  Nat.pow_pos (by decide)

/-- There are at least as many byte strings of a greater length. -/
theorem capacity_mono {m k : Nat} (h : m ≤ k) : capacity m ≤ capacity k :=
  Nat.pow_le_pow_right (by decide) h

/-- The number whose base-256 digits are these bytes, least significant first. -/
def toNatLE : Bytes → Nat
  | [] => 0
  | b :: bs => b.toNat + 256 * toNatLE bs

/-- The number whose base-256 digits are these bytes, most significant first. -/
def toNatBE (bs : Bytes) : Nat :=
  bs.foldl (fun n b ↦ 256 * n + b.toNat) 0

/-- The `width` lowest base-256 digits of a number, least significant first. -/
def ofNatLE : (width : Nat) → Nat → Bytes
  | 0, _ => []
  | width + 1, n => UInt8.ofNat (n % 256) :: ofNatLE width (n / 256)

/-- The `width` lowest base-256 digits of a number, most significant first. -/
def ofNatBE (width n : Nat) : Bytes :=
  (ofNatLE width n).reverse

/-- The integer that these bytes write in two's complement, least significant byte first. The
empty string writes zero. -/
def toIntLE (bs : Bytes) : Int :=
  let n := toNatLE bs
  if 2 * n < capacity bs.length then n else (n : Int) - capacity bs.length

/-- The integer that these bytes write in two's complement, most significant byte first. -/
def toIntBE (bs : Bytes) : Int :=
  toIntLE bs.reverse

/-- The two's complement form of an integer in `width` bytes, least significant byte first: the
digits of the integer or, if it is negative, the complements of the digits of `-v - 1`. -/
def ofIntLE (width : Nat) (v : Int) : Bytes :=
  if v < 0 then (ofNatLE width (-v - 1).toNat).map (~~~·) else ofNatLE width v.toNat

/-- The bytes without the zero bytes in front. -/
def dropZeros (bs : Bytes) : Bytes :=
  bs.dropWhile (· = 0)

/-- The least number of bytes that hold a number; zero needs none. -/
def sizeOfNat (n : Nat) : Nat :=
  if n = 0 then 0 else n.log2 / 8 + 1

/-- The byte string written `count` times in a row. -/
def repeated (bs : Bytes) (count : Nat) : Bytes :=
  (List.replicate count bs).flatten

/-! ### Laws of the little-endian layout -/

/-- The digits of a number are as many as asked for. -/
@[simp]
theorem length_ofNatLE (width n : Nat) : (ofNatLE width n).length = width := by
  induction width generalizing n with
  | zero => rfl
  | succ width ih => rw [ofNatLE, List.length_cons, ih]

/-- The number that bytes write lies below the number of byte strings of their length. -/
theorem toNatLE_lt (bs : Bytes) : toNatLE bs < capacity bs.length := by
  induction bs with
  | nil => exact Nat.one_pos
  | cons b bs ih =>
    have hb := b.toNat_lt
    rw [toNatLE, List.length_cons, capacity_succ]
    omega

/-- Reading the lowest digits of a number gives its remainder. -/
theorem toNatLE_ofNatLE (width n : Nat) : toNatLE (ofNatLE width n) = n % capacity width := by
  induction width generalizing n with
  | zero => rw [capacity_zero, Nat.mod_one]; rfl
  | succ width ih =>
    rw [ofNatLE, toNatLE, ih, capacity_succ, Nat.mod_mul, UInt8.toNat_ofNat', Nat.mod_mod]

/-- Writing the number that bytes write in as many digits gives the bytes back. -/
theorem ofNatLE_toNatLE (bs : Bytes) : ofNatLE bs.length (toNatLE bs) = bs := by
  induction bs with
  | nil => rfl
  | cons b bs ih =>
    have hb := b.toNat_lt
    have hlow : (b.toNat + 256 * toNatLE bs) % 256 = b.toNat := by omega
    have hrest : (b.toNat + 256 * toNatLE bs) / 256 = toNatLE bs := by omega
    rw [List.length_cons, toNatLE, ofNatLE, hlow, hrest, ih, UInt8.ofNat_toNat]

/-- A last byte counts as many times as there are byte strings in front of it. -/
theorem toNatLE_concat (bs : Bytes) (b : UInt8) :
    toNatLE (bs ++ [b]) = toNatLE bs + capacity bs.length * b.toNat := by
  induction bs with
  | nil => simp [toNatLE, capacity_zero]
  | cons c bs ih =>
    rw [List.cons_append, toNatLE, ih, toNatLE, List.length_cons, capacity_succ, Nat.mul_add,
      Nat.mul_assoc, Nat.add_assoc]

/-- The digits of a number behind the lowest ones are followed by one more. -/
theorem ofNatLE_succ (width n : Nat) :
    ofNatLE (width + 1) n = ofNatLE width n ++ [UInt8.ofNat (n / capacity width % 256)] := by
  induction width generalizing n with
  | zero => rw [ofNatLE, capacity_zero, Nat.div_one]; rfl
  | succ width ih =>
    rw [ofNatLE, ih, Nat.div_div_eq_div_mul, ← capacity_succ, ofNatLE, List.cons_append]

/-! ### Laws of the big-endian layout -/

/-- The digits of a number are as many as asked for. -/
@[simp]
theorem length_ofNatBE (width n : Nat) : (ofNatBE width n).length = width := by
  rw [ofNatBE, List.length_reverse, length_ofNatLE]

/-- Reading bytes backwards reads them in the other layout. -/
theorem toNatBE_reverse (bs : Bytes) : toNatBE bs.reverse = toNatLE bs := by
  induction bs with
  | nil => rfl
  | cons b bs ih =>
    rw [toNatBE] at ih
    rw [toNatBE, List.reverse_cons, List.foldl_append, ih, List.foldl_cons, List.foldl_nil, toNatLE]
    omega

/-- Reading the lowest digits of a number gives its remainder. -/
theorem toNatBE_ofNatBE (width n : Nat) : toNatBE (ofNatBE width n) = n % capacity width := by
  rw [ofNatBE, toNatBE_reverse, toNatLE_ofNatLE]

/-- Writing the number that bytes write in as many digits gives the bytes back. -/
theorem ofNatBE_toNatBE (bs : Bytes) : ofNatBE bs.length (toNatBE bs) = bs := by
  obtain ⟨digits, rfl⟩ : ∃ digits : Bytes, bs = digits.reverse := ⟨_, bs.reverse_reverse.symm⟩
  rw [ofNatBE, toNatBE_reverse, List.length_reverse, ofNatLE_toNatLE]

/-- The number that bytes write lies below the number of byte strings of their length. -/
theorem toNatBE_lt (bs : Bytes) : toNatBE bs < capacity bs.length := by
  have hlt := toNatLE_lt bs.reverse
  rwa [← toNatBE_reverse, List.reverse_reverse, List.length_reverse] at hlt

/-- A first byte counts as many times as there are byte strings behind it. -/
theorem toNatBE_cons (b : UInt8) (bs : Bytes) :
    toNatBE (b :: bs) = capacity bs.length * b.toNat + toNatBE bs := by
  have hconcat := toNatLE_concat bs.reverse b
  rwa [← toNatBE_reverse, ← toNatBE_reverse, List.reverse_append, List.reverse_reverse,
    List.length_reverse, Nat.add_comm] at hconcat

/-- The digits of a number begin with the highest one. -/
theorem ofNatBE_succ (width n : Nat) :
    ofNatBE (width + 1) n = UInt8.ofNat (n / capacity width % 256) :: ofNatBE width n := by
  rw [ofNatBE, ofNatLE_succ, List.reverse_append, ofNatBE]
  rfl

/-! ### Zeros in front -/

/-- Zeros in front do not change a number. -/
theorem toNatBE_dropZeros (bs : Bytes) : toNatBE (dropZeros bs) = toNatBE bs := by
  induction bs with
  | nil => rfl
  | cons b bs ih =>
    rw [dropZeros, List.dropWhile_cons]
    split
    · next hzero =>
      obtain rfl : b = 0 := of_decide_eq_true hzero
      exact ih
    · rfl

/-- What remains without the zeros in front is empty or begins with another byte. -/
theorem dropZeros_eq_cons {bs tail : Bytes} {b : UInt8} (h : dropZeros bs = b :: tail) :
    0 < b.toNat := by
  induction bs with
  | nil => cases h
  | cons c bs ih =>
    rw [dropZeros, List.dropWhile_cons] at h
    split at h
    · exact ih h
    · next hzero =>
      obtain ⟨rfl, -⟩ := List.cons.inj h
      refine Nat.pos_of_ne_zero fun hnat ↦ hzero (decide_eq_true ?_)
      exact UInt8.toNat_inj.mp hnat

/-- As many bytes remain without the zeros in front as the number needs. -/
theorem length_dropZeros_le_iff {bs : Bytes} {width : Nat} :
    (dropZeros bs).length ≤ width ↔ toNatBE bs < capacity width := by
  have hlt := toNatBE_lt (dropZeros bs)
  rw [toNatBE_dropZeros] at hlt
  constructor
  · intro hle
    exact Nat.lt_of_lt_of_le hlt (capacity_mono hle)
  · intro hvalue
    rw [← toNatBE_dropZeros] at hvalue
    cases hdrop : dropZeros bs with
    | nil => exact Nat.zero_le width
    | cons b tail =>
      have hb := dropZeros_eq_cons hdrop
      rw [hdrop, toNatBE_cons] at hvalue
      have hlow : capacity tail.length ≤ capacity tail.length * b.toNat :=
        Nat.le_mul_of_pos_right _ hb
      rw [List.length_cons]
      refine Nat.lt_of_not_le fun hge ↦ ?_
      have hcapacity := capacity_mono hge
      omega

/-! ### Laws of two's complement -/

/-- The numbers of bytes and of their complements add up to the greatest number of that length. -/
theorem toNatLE_map_complement (bs : Bytes) :
    toNatLE (bs.map (~~~·)) + toNatLE bs + 1 = capacity bs.length := by
  induction bs with
  | nil => rfl
  | cons b bs ih =>
    have hb := b.toNat_lt
    have hsize : UInt8.size = 256 := rfl
    have hnot : (~~~b).toNat = 255 - b.toNat := by
      rw [UInt8.toNat_not]
      omega
    rw [List.map_cons, toNatLE, toNatLE, List.length_cons, capacity_succ, hnot]
    omega

/-- The remainder of `-m - 1` is what the remainder of `m` leaves of the greatest remainder. -/
theorem emod_neg_sub_one (m : Int) {n : Int} (hn : 0 < n) : (-m - 1) % n = n - 1 - m % n := by
  have hdiv := Int.mul_ediv_add_emod m n
  have hlow := Int.emod_nonneg m (Int.ne_of_gt hn)
  have hhigh := Int.emod_lt_of_pos m hn
  have hshift : -m - 1 = n - 1 - m % n + n * (-(m / n) - 1) := by
    rw [Int.mul_sub, Int.mul_neg, Int.mul_one]
    omega
  rw [hshift, Int.add_mul_emod_self_left]
  exact Int.emod_eq_of_lt (by omega) (by omega)

/-- The two's complement form of an integer is the form of its remainder. -/
theorem ofIntLE_eq_ofNatLE_emod (width : Nat) (v : Int) :
    ofIntLE width v = ofNatLE width (v % capacity width).toNat := by
  have hcap : 0 < (capacity width : Int) := Int.natCast_pos.mpr (capacity_pos width)
  rw [ofIntLE]
  split
  · next hneg =>
    obtain ⟨m, hm⟩ : ∃ m : Nat, v = -m - 1 := ⟨(-v - 1).toNat, by omega⟩
    subst hm
    have hsum := toNatLE_map_complement (ofNatLE width m)
    have hself := ofNatLE_toNatLE ((ofNatLE width m).map (~~~·))
    rw [toNatLE_ofNatLE, length_ofNatLE] at hsum
    rw [List.length_map, length_ofNatLE] at hself
    rw [show (-(-(m : Int) - 1) - 1).toNat = m by omega, ← hself, emod_neg_sub_one m hcap,
      ← Int.natCast_emod]
    congr 1
    omega
  · next hneg =>
    obtain ⟨m, hm⟩ : ∃ m : Nat, v = m := ⟨v.toNat, by omega⟩
    subst hm
    have hself := ofNatLE_toNatLE (ofNatLE width m)
    rw [length_ofNatLE, toNatLE_ofNatLE] at hself
    rw [← Int.natCast_emod, Int.toNat_natCast, Int.toNat_natCast, hself]

end Bytes

end BitcoinSpend
