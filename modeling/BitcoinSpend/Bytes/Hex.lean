import BitcoinSpend.Bytes.Basic

/-!
# Hexadecimal text

Byte strings are written as pairs of lower-case hexadecimal digits. Reading is more generous: it
takes digits of either case, and ASCII blanks before, between and after the pairs, but never inside
one.
-/

namespace BitcoinSpend.Hex

/-- The digit that writes a number below sixteen. -/
def digit (n : Nat) : Char :=
  if n < 10 then Char.ofNat (48 + n) else Char.ofNat (87 + n)

/-- The number that a digit of either case stands for. -/
def digit? (c : Char) : Option Nat :=
  let n := c.toNat
  if 48 ≤ n ∧ n ≤ 57 then some (n - 48)
  else if 97 ≤ n ∧ n ≤ 102 then some (n - 87)
  else if 65 ≤ n ∧ n ≤ 70 then some (n - 55)
  else none

/-- The six ASCII blanks: space, tab, line feed, vertical tab, form feed and carriage return. -/
def isBlank (c : Char) : Bool :=
  c = ' ' || (9 ≤ c.toNat && c.toNat ≤ 13)

/-- The two digits of a byte. -/
def ofByte (b : UInt8) : List Char :=
  [digit (b.toNat / 16), digit (b.toNat % 16)]

/-- The text of a byte string, two lower-case digits a byte. -/
def encode (bs : Bytes) : String :=
  String.ofList (bs.flatMap ofByte)

/-- Reads pairs of digits and puts the bytes in front of `acc`, the last byte first. -/
def decodeOnto (acc : Bytes) : List Char → Option Bytes
  | [] => some acc
  | c :: cs =>
    if isBlank c then decodeOnto acc cs
    else match cs with
      | [] => none
      | d :: rest =>
        match digit? c, digit? d with
        | some high, some low => decodeOnto (UInt8.ofNat (16 * high + low) :: acc) rest
        | _, _ => none

/-- The byte string that a text writes, or `none` if it is not made of pairs and blanks. -/
def decode? (text : String) : Option Bytes :=
  (decodeOnto [] text.toList).map List.reverse

/-- The text of an integer in base sixteen: a minus sign if it is negative, `0x`, and the fewest
lower-case digits. -/
def ofInt (v : Int) : String :=
  let body := "0x" ++ String.ofList (Nat.toDigits 16 v.natAbs)
  if v < 0 then "-" ++ body else body

/-- Every digit below sixteen reads back, and none is a blank or the letter `O`. -/
theorem digit_facts : ∀ n : Fin 16,
    digit? (digit n) = some n.val ∧ isBlank (digit n) = false ∧ digit n ≠ 'O' := by
  decide

/-- A written byte reads back in front of whatever follows it. -/
theorem decodeOnto_ofByte (acc : Bytes) (b : UInt8) (cs : List Char) :
    decodeOnto acc (ofByte b ++ cs) = decodeOnto (b :: acc) cs := by
  have hb := b.toNat_lt
  obtain ⟨high, hblank, _⟩ := digit_facts ⟨b.toNat / 16, by omega⟩
  obtain ⟨low, _, _⟩ := digit_facts ⟨b.toNat % 16, by omega⟩
  have hbyte : UInt8.ofNat (16 * (b.toNat / 16) + b.toNat % 16) = b := by
    rw [Nat.div_add_mod, UInt8.ofNat_toNat]
  simp only [ofByte, List.cons_append, List.nil_append, decodeOnto, hblank, high, low, hbyte,
    Bool.false_eq_true, if_false]

/-- Written bytes read back one after another. -/
theorem decodeOnto_flatMap_ofByte (acc bs : Bytes) :
    decodeOnto acc (bs.flatMap ofByte) = some (bs.reverse ++ acc) := by
  induction bs generalizing acc with
  | nil => rfl
  | cons b bs ih =>
    rw [List.flatMap_cons, decodeOnto_ofByte, ih]
    simp

/-- The characters of a written byte string. -/
theorem toList_encode (bs : Bytes) : (encode bs).toList = bs.flatMap ofByte := by
  simp [encode]

/-- A written byte string has two characters a byte. -/
theorem length_flatMap_ofByte (bs : Bytes) : (bs.flatMap ofByte).length = 2 * bs.length := by
  induction bs with
  | nil => rfl
  | cons b bs ih => simp [List.flatMap_cons, ofByte, ih]; omega

/-- A written byte string does not begin like a mnemonic. -/
theorem not_isPrefixOf_flatMap_ofByte (bs : Bytes) :
    "OP_".toList.isPrefixOf (bs.flatMap ofByte) = false := by
  cases bs with
  | nil => rfl
  | cons b bs =>
    have hb := b.toNat_lt
    obtain ⟨_, _, hletter⟩ := digit_facts ⟨b.toNat / 16, by omega⟩
    simp only [List.flatMap_cons, ofByte, List.cons_append]
    have : ('O' == digit (b.toNat / 16)) = false := by
      simpa using fun h ↦ hletter h.symm
    simp [List.isPrefixOf, this]

/-- Reading undoes writing. -/
theorem decode?_encode (bs : Bytes) : decode? (encode bs) = some bs := by
  simp [decode?, toList_encode, decodeOnto_flatMap_ofByte]

end BitcoinSpend.Hex
