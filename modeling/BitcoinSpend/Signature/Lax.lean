import BitcoinSpend.Signature.Strict

/-!
# Lax encodings

Old signatures break the strict rules in several ways, and `decode` reads them all the same: the
length of the sequence is skipped, lengths may be padded, integers are magnitudes whatever their
first byte, and what follows the second integer is ignored. `Signature.decode` tries the strict
form, then the lax one, then a plain pair of thirty-two bytes each.
-/

namespace BitcoinSpend.Signature

namespace Lax

/-- Reads a length: one byte below 128, or that many length bytes, of which fewer than four remain
without the zeros in front. -/
def length : Bytes → Except LaxError (Nat × Bytes)
  | [] => .error .missingLength
  | b :: rest =>
    if b < 0x80 then .ok (b.toNat, rest)
    else
      let k := b.toNat - 0x80
      if rest.length < k then .error .lengthPastEnd
      else
        let digits := Bytes.dropZeros (rest.take k)
        if 4 ≤ digits.length then .error .lengthTooLong
        else .ok (Bytes.toNatBE digits, rest.drop k)

/-- Reads an integer element and returns its contents and what follows it. -/
def integer : Bytes → Except LaxError (Bytes × Bytes)
  | [] => .error .missingIntegerTag
  | b :: rest =>
    if b = 0x02 then do
      let (n, body) ← length rest
      if body.length < n then throw .integerPastEnd
      return (body.take n, body.drop n)
    else .error .missingIntegerTag

/-- Skips the tag of the sequence and its length, which is not compared with what follows. -/
def sequence : Bytes → Except LaxError Bytes
  | [] => .error .missingSequenceTag
  | b :: rest =>
    if b = 0x30 then
      match rest with
      | [] => .error .missingSequenceLength
      | c :: body =>
        if c < 0x80 then .ok body
        else if body.length < c.toNat - 0x80 then .error .sequenceLengthPastEnd
        else .ok (body.drop (c.toNat - 0x80))
    else .error .missingSequenceTag

/-- The signature of a lax encoding. If an integer has more than thirty-two bytes without the zeros
in front, the result is the pair of zeros, which no message verifies. -/
def decode (bs : Bytes) : Except LaxError Signature := do
  let body ← sequence bs
  let (r, more) ← integer body
  let (s, _) ← integer more
  let r := Bytes.dropZeros r
  let s := Bytes.dropZeros s
  return if 32 < r.length ∨ 32 < s.length then ⟨0, 0⟩
    else ⟨Bytes.toNatBE r, Bytes.toNatBE s⟩

end Lax

/-- The signature that a byte string of sixty-four bytes writes as two plain numbers. -/
def ofPlain (bs : Bytes) : Signature :=
  ⟨Bytes.toNatBE (bs.take 32), Bytes.toNatBE (bs.drop 32)⟩

/-- Reads a signature: strictly, and, where that fails and `lax` allows it, by the lax rules or as a
plain pair. -/
def decode (lax : Bool) (bs : Bytes) : Except SignatureError Signature :=
  match Strict.decode bs with
  | .ok signature => .ok signature
  | .error e =>
    if lax then
      match Lax.decode bs with
      | .ok signature => .ok signature
      | .error reason => if bs.length = 64 then .ok (ofPlain bs) else .error (.lax reason)
    else .error e

end BitcoinSpend.Signature
