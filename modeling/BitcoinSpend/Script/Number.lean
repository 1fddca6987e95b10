import BitcoinSpend.Bytes.Basic
import BitcoinSpend.Text.Decimal

/-!
# Script numbers

Scripts compute with integers written as little-endian magnitudes whose top bit is the sign. The
written form is the shortest one, and zero is empty. Reading also takes longer forms, up to a limit
on their size. Read `encode` and `decode` first; `truth` says which byte strings count as true.
-/

namespace BitcoinSpend.Script.Number

/-- Why a number could not be read or computed. -/
inductive NumberError where
  | tooLong (size : Nat) (limit : Int)
  | notAnInteger
  | divisionByZero
  | shiftRange (count : Int)
  | unwritable
deriving DecidableEq, Repr

/-- The text of a number error. An integer without a text leaves none. -/
def NumberError.message? : NumberError → Option String
  | .tooLong size limit => some s!"Script number of {size} bytes exceeds {limit} byte limit"
  | .notAnInteger => some "BitNum value must be an integer"
  | .divisionByZero => some "Division by zero"
  | .shiftRange count => some s!"Shift count {count} out of range"
  | .unwritable => none

/-- The error for a byte string that is longer than the limit. Its message holds the limit. -/
def NumberError.oversize (size : Nat) (limit : Int) : NumberError :=
  Text.errorAbout [limit] (.tooLong size limit) .unwritable

/-- The size of operands that opcodes accept. -/
def maxSize : Int :=
  4

/-- The written form of an integer: the fewest bytes that leave the top bit of the last one free,
which is then set for negative integers. Zero is empty. -/
def encode (v : Int) : Bytes :=
  let a := v.natAbs
  if a = 0 then []
  else
    let width := (a.log2 + 1) / 8 + 1
    Bytes.ofNatLE width (if v < 0 then a + Bytes.capacity width / 2 else a)

/-- The integer that a byte string of any size writes. -/
def value (bs : Bytes) : Int :=
  let n := Bytes.toNatLE bs
  let sign := Bytes.capacity bs.length / 2
  if bs.isEmpty then 0 else if sign ≤ n then -((n - sign : Nat) : Int) else n

/-- The integer that a byte string writes, if it is not longer than the limit. The empty string is
never too long. -/
def decode (limit : Int) (bs : Bytes) : Except NumberError Int :=
  if bs.isEmpty then .ok 0
  else if limit < bs.length then .error (.oversize bs.length limit)
  else .ok (value bs)

/-- Whether a byte string counts as true: some byte is not zero, except that the last byte alone
may be `80`, which writes a negative zero. -/
def truth : Bytes → Bool
  | [] => false
  | [b] => b ≠ 0 && b ≠ 0x80
  | b :: rest => b ≠ 0 || truth rest

/-- The integer that stands for a truth value. -/
def ofBool (b : Bool) : Int :=
  if b then 1 else 0

/-- The text of an integer as a script number, if the integer has one. -/
def describe (v : Int) : Except NumberError String :=
  if Text.Writable v then .ok s!"BitNum({v})" else .error .unwritable

/-- The text of a truth value as a script number. It counts as one or zero and keeps its name. -/
def describeBool (b : Bool) : String :=
  if b then "BitNum(True)" else "BitNum(False)"

end BitcoinSpend.Script.Number
